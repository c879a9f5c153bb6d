import Mathlib.Data.List.DropRight
import VisualNovel.Proofs.Scenario.Closing
import VisualNovel.Proofs.Scenario.Pages

/-
  The menus of a scenario. A menu is made of the entries that stand directly before it, one behind
  the other (`menuBefore`). Compiling closes every row of entries with a menu (`Compiled.closed`).
  So where neither an entry nor a menu stands no entries stand before it, nor do they where a page
  or a label is found.
-/

namespace VisualNovel

/-- The choice that a command adds to a menu, if it is an entry of one. -/
def Command.choice? (c : Command) : Option Stage.Choice :=
  match c.action with
  | .choice choice => some choice
  | _ => none

namespace Scenario

open Command (Tag)
open Stage (Choice)

/-! ## Rows of entries -/

/-- The choices of the entries that stand directly before a place, in order. -/
def menuBefore (s : Scenario) (i : Nat) : List Choice :=
  ((s.commands.take i).rtakeWhile fun c => c.choice?.isSome).filterMap Command.choice?

@[simp] theorem menuBefore_zero (s : Scenario) : s.menuBefore 0 = [] := rfl

/-- Behind an entry there is one choice more, behind any other command none. -/
theorem menuBefore_succ {s : Scenario} {i : Nat} {c : Command} (hc : s.commands[i]? = some c) :
    s.menuBefore (i + 1) = (c.choice?.map fun choice => s.menuBefore i ++ [choice]).getD [] := by
  obtain ⟨hi, rfl⟩ := List.getElem?_eq_some_iff.mp hc
  unfold menuBefore
  rw [List.take_succ_eq_append_getElem hi, List.rtakeWhile_concat]
  cases hchoice : s.commands[i].choice? <;> simp [hchoice]

/-- The choices before a place are those of a row of entries, before which no other entry stands. -/
theorem menuBefore_spec (s : Scenario) (i : Nat) :
    ∃ before row, s.commands.take i = before ++ row ∧
      row.map Command.choice? = (s.menuBefore i).map some ∧
      ∀ c ∈ before.getLast?, c.choice? = none := by
  refine ⟨(s.commands.take i).rdropWhile fun c => c.choice?.isSome, _,
    (List.rdropWhile_append_rtakeWhile ..).symm, ?_, fun c hc => ?_⟩
  · unfold menuBefore
    have hrow : ∀ c ∈ (s.commands.take i).rtakeWhile fun c => c.choice?.isSome,
        c.choice?.isSome = true := fun c hc =>
      List.mem_rtakeWhile_imp (p := fun c : Command => c.choice?.isSome) hc
    generalize (s.commands.take i).rtakeWhile (fun c => c.choice?.isSome) = row at hrow
    induction row with
    | nil => rfl
    | cons c row ih =>
      obtain ⟨hc, hrest⟩ := List.forall_mem_cons.mp hrow
      obtain ⟨choice, hchoice⟩ := Option.isSome_iff_exists.mp hc
      rw [List.filterMap_cons_some hchoice, List.map_cons, List.map_cons, hchoice, ih hrest]
  · obtain ⟨hne, rfl⟩ := List.mem_getLast?_eq_getLast hc
    have hlast := List.rdropWhile_last_not _ _ hne
    simpa using hlast

/-! ## Rows that are closed -/

/-- A command leaves menus to the commands of the script's own language: it is named neither like
    an entry nor like a menu, and it leaves the choices that are collected alone. -/
structure LeavesMenus (c : Command) : Prop where
  entry : c.tag ≠ Tag.selection.name
  menu : c.tag ≠ Tag.selectionEnd.name
  spares : ∀ a, c.action = .host a → ∀ params choices, a.choices params choices = choices

/-- The commands of a game's own leave menus alone. -/
def SparesMenus (cs : List Command) : Prop := ∀ c ∈ cs, isHost c → LeavesMenus c

theorem SparesMenus.of_own {cs : List Command} (h : ∀ c ∈ cs, isHost c = false) :
    SparesMenus cs :=
  fun c hc hhost => absurd hhost (Bool.eq_false_iff.mp (h c hc))

/-- A command goes on with a row of entries: it is another, or the menu. -/
def Continues (c : Command) : Prop := c.choice?.isSome ∨ c.action = .menu

/-- Of the commands of the script's own language only entries are named like entries, -/
theorem choice?_of_tag {c : Command} (hhost : isHost c = false) (h : c.tag = Tag.selection.name) :
    c.choice?.isSome := by
  have hclosing := closing?_tag hhost
  rw [if_pos h] at hclosing
  obtain ⟨d, hd, -⟩ := Option.map_eq_some_iff.mp hclosing
  obtain ⟨context, action⟩ := c
  cases action with
  | choice => rfl
  | host => cases hhost
  | _ => cases hd

/-- and only menus like menus. -/
theorem action_of_tag {c : Command} (hhost : isHost c = false)
    (h : c.tag = Tag.selectionEnd.name) : c.action = .menu := by
  obtain ⟨context, action⟩ := c
  have hname : (if action.tag = Tag.selectionEnd.name then true else false) = true := if_pos h
  cases action with
  | menu => rfl
  | host => cases hhost
  | layer kind | layerOff kind | sound kind | stopSound kind | fade kind | control kind =>
    cases kind <;> exact Bool.noConfusion hname
  | _ => exact Bool.noConfusion hname

/-- In a scenario every entry has another behind it, or the menu. -/
def Closed (cs : List Command) : Prop :=
  ∀ i c, cs[i]? = some c → c.choice?.isSome → ∃ d, cs[i + 1]? = some d ∧ Continues d

theorem Closed.cons {c : Command} {cs : List Command} (h : Closed cs)
    (hc : c.choice?.isSome → ∃ d ∈ cs.head?, Continues d) : Closed (c :: cs) := by
  intro i c' hi hchoice
  cases i with
  | zero =>
    obtain rfl := Option.some.inj hi
    obtain ⟨d, hd, hcontinues⟩ := hc hchoice
    refine ⟨d, ?_, hcontinues⟩
    rw [List.getElem?_cons_succ, ← List.head?_eq_getElem?]
    exact hd
  | succ i => exact h i c' hi hchoice

theorem tag_of_choice {c : Command} (h : c.choice?.isSome) : c.tag = Tag.selection.name := by
  obtain ⟨context, action⟩ := c
  cases action <;> first | rfl | cases h

/-- Entries are closed with menus. -/
theorem closing?_of_choice {c : Command} (h : c.choice?.isSome) :
    c.closing? = some ⟨c.context, .menu⟩ := by
  obtain ⟨context, action⟩ := c
  cases action <;> first | rfl | cases h

theorem choice?_of_namesLabel {c : Command} (h : c.action.namesLabel = false) :
    c.choice? = none := by
  obtain ⟨context, action⟩ := c
  cases action <;> first | rfl | cases h

/-- No entries close the rows of commands. -/
def NotClosedByEntries (cs : List Command) : Prop :=
  ∀ c ∈ cs, ∀ d, c.closing? = some d → d.choice? = none

/-- What is waited for is no entry, and behind an entry it is a menu. -/
structure Closes (o : Opening) : Prop where
  choice? : o.2.choice? = none
  menu : o.1 = Tag.selection.name → o.2.action = .menu

theorem closes_opening {c : Command} (hc : isHost c → LeavesMenus c)
    (hclosing : ∀ d, c.closing? = some d → d.choice? = none) : ∀ o ∈ opening? none c, Closes o := by
  intro o ho
  obtain ⟨d, hd, rfl⟩ := Option.map_eq_some_iff.mp ho
  refine ⟨hclosing d hd, fun htag => ?_⟩
  have hchoice := choice?_of_tag (Bool.eq_false_iff.mpr fun hhost => (hc hhost).entry htag) htag
  rw [closing?_of_choice hchoice] at hd
  exact (Option.some.inj hd) ▸ rfl

/-- Every entry among commands whose rows were closed has another behind it, or the menu. -/
theorem closed_closeRows {cs : List Command} (hcs : NotClosedByEntries cs) {o : Option Opening}
    (hspares : SparesMenus (closeRows o cs)) (ho : ∀ p ∈ o, Closes p) :
    Closed (closeRows o cs) ∧
      ∀ p ∈ o, p.1 = Tag.selection.name → ∃ d ∈ (closeRows o cs).head?, Continues d := by
  induction cs generalizing o with
  | nil =>
    have hnone : Closed [] := fun i c hi => nomatch hi
    cases o with
    | none => exact ⟨hnone, fun p hp => nomatch hp⟩
    | some p =>
      have hp := ho p rfl
      refine ⟨hnone.cons fun hchoice => ?_, fun p' hp' htag => ?_⟩
      · rw [hp.choice?] at hchoice
        cases hchoice
      · obtain rfl := Option.some.inj hp'
        exact ⟨p.2, rfl, Or.inr (hp.menu htag)⟩
  | cons c cs ih =>
    obtain ⟨hclosing, hlater⟩ := List.forall_mem_cons.mp hcs
    -- behind a command that a row may begin with, this row is waited for
    have hopens (h : SparesMenus (c :: closeRows (opening? none c) cs)) :
        Closed (c :: closeRows (opening? none c) cs) := by
      obtain ⟨hc, hrest⟩ := List.forall_mem_cons.mp h
      obtain ⟨hclosed, hhead⟩ := ih hlater hrest (closes_opening hc hclosing)
      refine hclosed.cons fun hchoice => ?_
      exact hhead _ (Option.map_eq_some_iff.mpr ⟨_, closing?_of_choice hchoice, rfl⟩)
        (tag_of_choice hchoice)
    cases o with
    | none => exact ⟨hopens hspares, fun p hp => nomatch hp⟩
    | some p =>
      have hp := ho p rfl
      have hself : ∀ p' ∈ some p, p' = p := fun p' hp' => (Option.some.inj hp').symm
      unfold closeRows at hspares ⊢
      split at hspares
      · rename_i hopener
        rw [if_pos hopener]
        obtain ⟨hc, hrest⟩ := List.forall_mem_cons.mp hspares
        obtain ⟨hclosed, hhead⟩ := ih hlater hrest ho
        refine ⟨hclosed.cons fun hchoice => ?_, fun p' hp' htag => ⟨c, rfl, Or.inl ?_⟩⟩
        · exact hhead p rfl (hopener.symm.trans (tag_of_choice hchoice))
        · rw [hself p' hp', ← hopener] at htag
          exact choice?_of_tag (Bool.eq_false_iff.mpr fun hhost => (hc hhost).entry htag) htag
      · rename_i hopener
        rw [if_neg hopener]
        split at hspares
        · rename_i hcloser
          rw [if_pos hcloser]
          refine ⟨hopens hspares, fun p' hp' htag => ⟨c, rfl, Or.inr ?_⟩⟩
          obtain ⟨hc, -⟩ := List.forall_mem_cons.mp hspares
          have hmenu : c.tag = Tag.selectionEnd.name := by
            rw [hcloser, Command.tag, hp.menu (hself p' hp' ▸ htag)]
            rfl
          exact action_of_tag (Bool.eq_false_iff.mpr fun hhost => (hc hhost).menu hmenu) hmenu
        · rename_i hcloser
          rw [if_neg hcloser]
          obtain ⟨-, hrest⟩ := List.forall_mem_cons.mp hspares
          refine ⟨(hopens hrest).cons fun hchoice => ?_, fun p' hp' htag => ⟨p.2, rfl, Or.inr ?_⟩⟩
          · rw [hp.choice?] at hchoice
            cases hchoice
          · exact hp.menu (hself p' hp' ▸ htag)

/-- In a scenario that was compiled every entry has another behind it, or the menu. -/
theorem Compiled.closed {s : Scenario} (hs : s.Compiled) (h : SparesMenus s.commands) :
    Closed s.commands := by
  obtain ⟨f, settings, t, rfl⟩ := hs
  have hrows : NotClosedByEntries (commandsOf (readRows f settings t.dataRows)) :=
    fun c hc d hd => choice?_of_namesLabel (closing_namesLabel hc hd)
  exact (closed_closeRows hrows (o := none) h fun p hp => nomatch hp).1

/-! ## Places without entries before them -/

/-- Before a command that goes on with no row of entries stand no entries. -/
theorem Closed.menuBefore_eq_nil {s : Scenario} (h : Closed s.commands) {i : Nat} {c : Command}
    (hc : s.commands[i]? = some c) (hother : ¬Continues c) : s.menuBefore i = [] := by
  cases i with
  | zero => exact s.menuBefore_zero
  | succ i =>
    have hlt : i < s.commands.length := Nat.lt_of_succ_lt (List.getElem?_eq_some_iff.mp hc).1
    have hbefore : s.commands[i]? = some s.commands[i] := List.getElem?_eq_getElem hlt
    rw [menuBefore_succ hbefore]
    cases hchoice : s.commands[i].choice? with
    | none => rfl
    | some choice =>
      obtain ⟨d, hd, hcontinues⟩ := h i _ hbefore (by rw [hchoice]; rfl)
      obtain rfl := Option.some.inj (hc.symm.trans hd)
      exact absurd hcontinues hother

/-- Behind a command that begins a page stand no entries. -/
theorem menuBefore_of_beginsPage {s : Scenario} {i : Nat} {c : Command}
    (hc : s.commands[i]? = some c) (hbegins : c.beginsPage = true) : s.menuBefore (i + 1) = [] := by
  have hother : c.choice? = none := by
    obtain ⟨context, action⟩ := c
    cases action <;> first | rfl | cases hbegins
  rw [menuBefore_succ hc, hother]
  rfl

theorem not_continues_of_label {c : Command} {l : String} (h : c.label? = some l) :
    ¬Continues c := by
  obtain ⟨context, action⟩ := c
  cases action with
  | label | host => rintro (h | h) <;> cases h
  | _ => cases h

/-- Where a label leads, and where a page of it is found, no entries stand before. -/
theorem Closed.menuBefore_of_label {s : Scenario} (h : Closed s.commands) (hs : s.Compiled)
    {l : String} {m : Nat} (hm : s.labelIndex? l = some m) : s.menuBefore m = [] := by
  obtain ⟨⟨c, hc, hl⟩, -⟩ := hs.labelIndex?_eq_some.mp hm
  exact h.menuBefore_eq_nil hc (not_continues_of_label hl)

theorem Closed.menuBefore_of_seek {s : Scenario} (h : Closed s.commands) (hs : s.Compiled)
    {l : String} {page : Int} {j : Nat} (hj : s.seek l page = .ok j) : s.menuBefore j = [] := by
  obtain ⟨m, hm⟩ := labelIndex?_of_seek hj
  obtain ⟨hmj, -, hstart⟩ := boundaries_of_seek hm hj
  rcases Nat.eq_or_lt_of_le hmj with rfl | hlt
  · exact h.menuBefore_of_label hs hm
  · obtain ⟨k, c, rfl, -, hc, hbegins, -⟩ := hstart.begins hlt
    exact menuBefore_of_beginsPage hc hbegins

end Scenario

end VisualNovel
