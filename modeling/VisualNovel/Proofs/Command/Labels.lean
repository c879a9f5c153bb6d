import VisualNovel.Proofs.Command.Rows

/-
  Labels in cells. A label stands in its cell behind the sign of labels, and blanks around the
  two do not count. So it is not blank and does not end with a blank, but it may begin with one,
  or with the sign once more. Where an action names a label, the label is the one of its cell
  (`Factory.read_named`); a row whose name is a label makes a label command
  (`Factory.read_of_label`).
-/

namespace VisualNovel

/-! ## Trimming -/

namespace Text

variable {p : Char → Bool} {s : List Char}

/-- What is trimmed ends with no character that is dropped. -/
theorem getLast?_trimList {c : Char} (h : (trimList p s).getLast? = some c) : p c = false := by
  have hhead := List.head?_dropWhile_not p (s.dropWhile p).reverse
  rw [trimList, List.getLast?_reverse] at h
  rw [h] at hhead
  exact hhead

/-- A list without such characters at its ends is left as it is. -/
theorem trimList_eq_self (hhead : ∀ c, s.head? = some c → p c = false)
    (hlast : ∀ c, s.getLast? = some c → p c = false) : trimList p s = s := by
  have hkeep : ∀ t : List Char, (∀ c, t.head? = some c → p c = false) → t.dropWhile p = t := by
    intro t ht
    cases t with
    | nil => rfl
    | cons c t => rw [List.dropWhile_cons, if_neg (by simp [ht c rfl])]
  rw [trimList, hkeep s hhead, hkeep s.reverse (by simpa using hlast), List.reverse_reverse]

/-- Trimming makes no list longer, and one that begins with such a character shorter. -/
theorem length_trimList_le : (trimList p s).length ≤ s.length := by
  have hdrop := (List.dropWhile_suffix (l := s) p).length_le
  have hdrop' := (List.dropWhile_suffix (l := (s.dropWhile p).reverse) p).length_le
  rw [List.length_reverse] at hdrop'
  rw [trimList, List.length_reverse]
  omega

theorem length_trimList_lt {c : Char} (hc : p c = true) :
    (trimList p (c :: s)).length < (c :: s).length := by
  have hsame : trimList p (c :: s) = trimList p s := by
    rw [trimList, List.dropWhile_cons, if_pos hc]
    rfl
  rw [hsame, List.length_cons]
  exact Nat.lt_succ_of_le length_trimList_le

theorem toList_trim (s : String) : (trim s).toList = trimList isBlank s.toList :=
  String.toList_ofList

end Text

namespace Command

open Table (Column Row)
open Text

/-! ## Labels -/

/-- A label stands behind the sign, and is not nothing. -/
theorem labelOf?_eq_some {text l : String} :
    labelOf? text = some l ↔ text.toList = labelSign :: l.toList ∧ l ≠ "" := by
  unfold labelOf?
  split
  · rename_i c d rest htext
    rw [htext]
    constructor
    · intro h
      split at h
      · rename_i hc
        obtain rfl := Option.some.inj h
        rw [hc, String.toList_ofList]
        exact ⟨rfl, fun h => by simpa using congrArg String.toList h⟩
      · cases h
    · rintro ⟨h, -⟩
      obtain ⟨rfl, hrest⟩ := List.cons.inj h
      rw [if_pos rfl, hrest, String.ofList_toList]
  · rename_i hshort
    refine ⟨fun h => (nomatch h), fun ⟨h, hne⟩ => ?_⟩
    cases hl : l.toList with
    | nil => exact absurd (String.toList_eq_nil_iff.mp hl) hne
    | cons d rest => exact absurd (h.trans (congrArg _ hl)) (hshort _ _ _)

/-- The label of a cell. -/
def labelIn? (r : Row) (column : Column) : Option String := (text? r column).bind labelOf?

/-- The label of a cell is not nothing, and does not end with a blank. -/
theorem labelIn?_isLabel {r : Row} {column : Column} {l : String}
    (h : labelIn? r column = some l) : IsLabel l := by
  obtain ⟨text, htext, hl⟩ := Option.bind_eq_some_iff.mp h
  obtain ⟨cell, -, rfl⟩ := Option.map_eq_some_iff.mp htext
  obtain ⟨hsign, hne⟩ := labelOf?_eq_some.mp hl
  refine ⟨hne, fun c hc => ?_⟩
  rw [toList_trim] at hsign
  refine getLast?_trimList (s := cell.toList) ?_
  rw [hsign, List.getLast?_cons_of_ne_nil (by simpa using hne)]
  exact hc

/-! ## Reading -/

/-- What a reader gives is as it should be, if it gives anything. -/
def Gives {α : Type} (P : α → Prop) (result : Except Error α) : Prop :=
  ∀ value, result = .ok value → P value

section Gives

variable {α β : Type} {P : α → Prop}

theorem Gives.ok {value : α} (h : P value) : Gives P (.ok value) := by
  intro value' h'
  obtain rfl := Except.ok.inj h'
  exact h

theorem Gives.error (e : Error) : Gives P (.error e) := fun _ h => nomatch h

theorem Gives.bind {result : Except Error β} {next : β → Except Error α}
    (h : ∀ value, result = .ok value → Gives P (next value)) : Gives P (result >>= next) := by
  cases result with
  | ok value => exact h value rfl
  | error e => exact Gives.error e

theorem Gives.map {result : Except Error β} {g : β → α}
    (h : ∀ value, result = .ok value → P (g value)) : Gives P (result.map g) := by
  cases result with
  | ok value => exact Gives.ok (h value rfl)
  | error e => exact Gives.error e

end Gives

/-- The label that an action names, with the column that it stands in. -/
def Action.named? : Action → Option (Column × String)
  | label l _ => some (.command, l)
  | jump target _ => some (.arg1, target)
  | choice c => some (.arg1, c.target)
  | _ => none

/-- If an action names a label, it is the one of the cell. -/
def NamesIn (r : Row) (a : Action) : Prop :=
  ∀ column l, a.named? = some (column, l) → labelIn? r column = some l

theorem namesIn_of_none {r : Row} {a : Action} (h : a.named? = none) : NamesIn r a :=
  fun _ _ h' => nomatch h.symm.trans h'

/-- An action of the script's own language, which names no label but that of a cell. -/
structure OwnIn (r : Row) (a : Action) : Prop where
  names : NamesIn r a
  own : ∀ action, a ≠ .host action

theorem ownIn_of_none {r : Row} {a : Action} (h : a.named? = none)
    (hown : ∀ action, a ≠ .host action) : OwnIn r a := ⟨namesIn_of_none h, hown⟩

theorem requiredLabel_eq_ok {r : Row} {tag : Tag} {column : Column} {l : String}
    (h : requiredLabel r tag column = .ok l) : labelIn? r column = some l := by
  unfold requiredLabel requiredText at h
  unfold labelIn?
  cases htext : text? r column with
  | none =>
    rw [htext] at h
    cases h
  | some raw =>
    rw [htext] at h
    dsimp only [bind, Except.bind] at h
    cases hraw : labelOf? raw with
    | none =>
      rw [hraw] at h
      cases h
    | some l' =>
      rw [hraw] at h
      obtain rfl := Except.ok.inj h
      exact hraw

theorem Tag.read_own (s : Settings) (r : Row) (tag : Tag) : Gives (OwnIn r) (tag.read s r) := by
  have hlayer : ∀ kind, Gives (OwnIn r) (readLayer kind s r) := fun kind =>
    Gives.bind fun _ _ => Gives.ok (ownIn_of_none rfl nofun)
  have hsound : ∀ track, Gives (OwnIn r) (readSound track s r) := fun track =>
    Gives.bind fun _ _ => Gives.ok (ownIn_of_none rfl nofun)
  cases tag with
  | selection =>
    refine Gives.bind fun caption _ => Gives.bind fun target htarget => Gives.bind fun effect? _ =>
      Gives.ok ⟨fun column l h => ?_, nofun⟩
    obtain ⟨rfl, rfl⟩ := Prod.mk.inj (Option.some.inj h)
    exact requiredLabel_eq_ok htarget
  | jump =>
    refine Gives.bind fun target htarget => Gives.bind fun condition? _ =>
      Gives.ok ⟨fun column l h => ?_, nofun⟩
    obtain ⟨rfl, rfl⟩ := Prod.mk.inj (Option.some.inj h)
    exact requiredLabel_eq_ok htarget
  | background => exact hlayer .background
  | event => exact hlayer .event
  | sprite => exact hlayer .sprite
  | se => exact hsound .se
  | bgm => exact hsound .bgm
  | ambience => exact hsound .ambience
  | character | sendMessage =>
    exact Gives.bind fun _ _ => Gives.ok (ownIn_of_none rfl nofun)
  | param => exact Gives.bind fun _ _ => Gives.bind fun _ _ => Gives.ok (ownIn_of_none rfl nofun)
  | ifStart | elseIf => exact Gives.map fun _ _ => ownIn_of_none rfl nofun
  | tween =>
    exact Gives.bind fun _ _ => Gives.bind fun _ _ => Gives.bind fun _ _ =>
      Gives.ok (ownIn_of_none rfl nofun)
  | _ => exact Gives.ok (ownIn_of_none rfl nofun)

theorem readLabel_own {r : Row} {name : String} (hname : text? r .command = some name) :
    Gives (OwnIn r) (readLabel r name) := by
  unfold readLabel
  split
  · rename_i l hl
    refine Gives.ok ⟨fun column l' h => ?_, nofun⟩
    obtain ⟨rfl, rfl⟩ := Prod.mk.inj (Option.some.inj h)
    rw [labelIn?, hname]
    exact hl
  · exact Gives.error _

/-- What is made of a row is an action of the script's own language, or one that the game's own
    reader of the row gives. -/
theorem Factory.Makes.own_or_host {f : Factory} {s : Settings} {r : Row} {a : Action}
    (h : f.Makes s r (.ok a)) : OwnIn r a ∨ ∃ name reader b, f.custom.lookup name = some reader ∧
      reader r s = .ok b ∧ a = .host b.1 := by
  generalize hresult : (Except.ok a : Except Error Action) = result at h
  cases h with
  | host name reader hname hreader =>
    cases hread : reader r s with
    | error e =>
      rw [hread] at hresult
      cases hresult
    | ok b =>
      rw [hread] at hresult
      exact Or.inr ⟨name, reader, b, hreader, hread, Except.ok.inj hresult⟩
  | label name hname => exact Or.inl (readLabel_own hname a hresult.symm)
  | own tag => exact Or.inl (Tag.read_own s r tag a hresult.symm)
  | unknown name => cases hresult

/-- Where a command names a label, it is the one of the cell. -/
theorem Factory.read_named (f : Factory) (s : Settings) (r : Row) {c : Command}
    (h : f.read s r = .ok (some c)) : NamesIn r c.action := by
  rcases (Factory.makes_of_read h).own_or_host with hown | ⟨name, reader, b, -, -, haction⟩
  · exact hown.names
  · exact haction ▸ namesIn_of_none rfl

/-- What closes the rows of a command that was read names no label. -/
theorem Factory.read_closes {f : Factory} {s : Settings} {r : Row} {c : Command}
    (h : f.read s r = .ok (some c)) : ∀ a ∈ c.action.closing?, a.namesLabel = false := by
  intro a ha
  rcases (Factory.makes_of_read h).own_or_host with hown | ⟨name, reader, b, -, -, haction⟩
  · obtain ⟨context, action⟩ := c
    cases action with
    | choice =>
      obtain rfl := Option.some.inj ha
      rfl
    | host action => exact absurd rfl (hown.own action)
    | _ => cases ha
  · rw [haction] at ha
    exact b.2 a ha

/-- A command that a game adds leaves labels to the rows that are named with them: its name does
    not begin as they do, and it marks none. -/
structure LeavesLabels (name : String) (reader : HostReader) : Prop where
  head : name.toList.head? ≠ some labelSign
  marks : ∀ r s a, reader r s = .ok a → a.1.mark.label? = none

/-- The commands that a game adds leave labels alone. -/
def Factory.SparesLabels (f : Factory) : Prop :=
  ∀ name reader, f.custom.lookup name = some reader → LeavesLabels name reader

/-- A label that a command marks is the one of its cell, unless a game's own marks it. -/
theorem Factory.SparesLabels.label_in_cell {f : Factory} (hf : f.SparesLabels) {s : Settings}
    {r : Row} {c : Command} (h : f.read s r = .ok (some c)) {l : String} (hl : c.label? = some l) :
    labelIn? r .command = some l := by
  obtain ⟨context, action⟩ := c
  rcases (Factory.makes_of_read h).own_or_host with hown | ⟨name, reader, b, hreader, hb, rfl⟩
  · refine hown.names .command l ?_
    cases action with
    | label =>
      obtain rfl := Option.some.inj hl
      rfl
    | host action => exact absurd rfl (hown.own action)
    | _ => cases hl
  · cases ((hf name reader hreader).marks r s b hb).symm.trans hl

/-- A row whose name is a label makes a label command, unless a game takes the name. -/
theorem Factory.read_of_label {f : Factory} (hf : f.SparesLabels) (s : Settings) {r : Row}
    {l : String} (h : labelIn? r .command = some l) :
    ∃ title, f.read s r = .ok (some ⟨r.context, .label l title⟩) := by
  obtain ⟨name, hname, hl⟩ := Option.bind_eq_some_iff.mp h
  obtain ⟨hsign, hne⟩ := labelOf?_eq_some.mp hl
  have hhead : name.toList.head? = some labelSign := by rw [hsign]; rfl
  have hcomment : isComment name = false := by
    have hother : name ≠ commentName := by
      rintro rfl
      cases hhead
    simp only [isComment, hsign, beq_eq_false_iff_ne.mpr hother, Bool.false_or]
    rfl
  have hcustom : f.custom.lookup name = none := by
    cases hlookup : f.custom.lookup name with
    | none => rfl
    | some reader => exact absurd hhead ((hf name reader hlookup).head)
  refine ⟨(text? r .arg1).getD l, ?_⟩
  simp only [Factory.read, Factory.readAction, hname, Factory.readNamed, hcomment, hcustom, hhead,
    readLabel, hl]
  rfl

end Command

end VisualNovel
