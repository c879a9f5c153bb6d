import Mathlib
import VisualNovel.Proofs.Command.Conditional
import VisualNovel.Proofs.Scenario.Closing
import VisualNovel.Proofs.Scenario.Labels

/-
  What a compiler says of blocks, and what the commands do to open ones. The compiler counts blocks
  by the names of commands, and the stack of a run has a frame for each; if the commands of a game's
  own leave blocks alone (`SparesBlocks`), they count alike (`depth_takeAll`). So fed with the
  commands of blocks from the first on, the stack is empty at just the commands that are reported,
  and has as many frames at the end as blocks are reported to be open (`foresees_compile`).
-/

namespace VisualNovel

namespace Command

/-! ## Open blocks -/

/-- The open blocks behind an action, whose condition holds or does not. -/
def Action.nest (s : IfStack) (holds : Bool) : Action → IfStack
  | ifStart _ => s.pushIf holds
  | elseIf _ => s.elseIf holds
  | elseBranch => s.elseBranch
  | endIf => s.endIf
  | _ => s

/-- The number of open blocks behind an action, from that before it. -/
def Action.level (depth : Nat) : Action → Nat
  | ifStart _ => depth + 1
  | endIf => depth - 1
  | _ => depth

/-- Whether an action goes on with a block or closes it. -/
def Action.partsBlock : Action → Bool
  | elseIf _ | elseBranch | endIf => true
  | _ => false

theorem depth_nest (a : Action) (s : IfStack) (holds : Bool) :
    (a.nest s holds).depth = a.level s.depth := by
  obtain ⟨blocks⟩ := s
  cases a with
  | elseIf =>
    cases blocks with
    | nil => rfl
    | cons top rest =>
      simp only [Action.nest, IfStack.elseIf]
      split <;> rfl
  | elseBranch => cases blocks <;> rfl
  | endIf => exact List.length_tail
  | _ => rfl

/-- Where more blocks were open before an action, no fewer are open behind it. -/
theorem level_mono (a : Action) {d e : Nat} (h : d ≤ e) : a.level d ≤ a.level e := by
  cases a with
  | ifStart => exact Nat.succ_le_succ h
  | endIf => exact Nat.sub_le_sub_right h 1
  | _ => exact h

theorem level_of_plain {a : Action} (h : a.isConditional = false) (d : Nat) : a.level d = d := by
  cases a <;> first | rfl | cases h

/-- A command does to the blocks of a board what it does to blocks by themselves, if those of a
    game's own leave them alone. -/
theorem exists_nest {c : Command} (hc : Scenario.isHost c → IsPlain c) (b : Board) :
    ∃ holds, (c.action.change b).ifStack = c.action.nest b.ifStack holds := by
  obtain ⟨context, action⟩ := c
  cases action with
  | ifStart | elseIf => exact ⟨_, rfl⟩
  | elseBranch | endIf => exact ⟨true, rfl⟩
  | host => exact ⟨true, (hc rfl).change_ifStack b⟩
  | _ => exact ⟨true, (Scenario.isPlain_of_own rfl rfl).change_ifStack b⟩

/-- The open blocks after commands, each with whether its condition holds. -/
def takeAll (s : IfStack) (fed : List (Command × Bool)) : IfStack :=
  fed.foldl (fun s c => c.1.action.nest s c.2) s

/-- The number of open blocks after commands, from that before them. -/
def levelAfter (depth : Nat) (cs : List Command) : Nat :=
  cs.foldl (fun d c => c.action.level d) depth

theorem depth_takeAll (s : IfStack) (fed : List (Command × Bool)) :
    (takeAll s fed).depth = levelAfter s.depth (fed.map Prod.fst) := by
  induction fed generalizing s with
  | nil => rfl
  | cons c fed ih =>
    simp only [takeAll, levelAfter, List.foldl_cons, List.map_cons] at ih ⊢
    rw [ih, depth_nest]

theorem levelAfter_cons (depth : Nat) (c : Command) (cs : List Command) :
    levelAfter depth (c :: cs) = levelAfter (c.action.level depth) cs := rfl

/-- Only the commands of blocks count. -/
theorem levelAfter_filter (depth : Nat) (cs : List Command) :
    levelAfter depth (cs.filter Command.isConditional) = levelAfter depth cs := by
  induction cs generalizing depth with
  | nil => rfl
  | cons c cs ih =>
    rw [List.filter_cons]
    split
    · exact ih _
    · rename_i hplain
      have hsame := level_of_plain (Bool.eq_false_iff.mpr hplain) depth
      rw [ih, levelAfter_cons, hsame]

/-! ## Commands without a block -/

/-- The commands that part a block where none is open. -/
def strays : Nat → List Command → List Command
  | _, [] => []
  | depth, c :: cs =>
    (if c.action.partsBlock && depth == 0 then [c] else []) ++ strays (c.action.level depth) cs

theorem strays_append (depth : Nat) (cs ds : List Command) :
    strays depth (cs ++ ds) = strays depth cs ++ strays (levelAfter depth cs) ds := by
  induction cs generalizing depth with
  | nil => rfl
  | cons c cs ih =>
    rw [List.cons_append, strays, strays, ih, List.append_assoc]
    rfl

theorem strays_subset (depth : Nat) (cs : List Command) : strays depth cs ⊆ cs := by
  induction cs generalizing depth with
  | nil => exact List.Subset.refl _
  | cons c cs ih =>
    intro d hd
    rcases List.mem_append.mp hd with hd | hd
    · split at hd
      · exact List.mem_singleton.mp hd ▸ List.mem_cons_self
      · cases hd
    · exact List.mem_cons_of_mem c (ih _ hd)

theorem partsBlock_of_mem_strays {depth : Nat} {cs : List Command} {c : Command}
    (h : c ∈ strays depth cs) : c.action.partsBlock = true := by
  induction cs generalizing depth with
  | nil => cases h
  | cons d cs ih =>
    rcases List.mem_append.mp h with h | h
    · split at h
      · rename_i hstray
        obtain rfl := List.mem_singleton.mp h
        exact (Bool.and_eq_true_iff.mp hstray).1
      · cases h
    · exact ih h

theorem isConditional_of_partsBlock {a : Action} (h : a.partsBlock = true) :
    a.isConditional = true := by
  cases a <;> first | rfl | cases h

/-- Only the commands of blocks can be without a block. -/
theorem strays_filter (depth : Nat) (cs : List Command) :
    strays depth (cs.filter Command.isConditional) = strays depth cs := by
  induction cs generalizing depth with
  | nil => rfl
  | cons c cs ih =>
    rw [List.filter_cons]
    split
    · rw [strays, strays, ih]
    · rename_i hplain
      have hplain : c.action.isConditional = false := Bool.eq_false_iff.mpr hplain
      have hparts : c.action.partsBlock = false :=
        Bool.eq_false_iff.mpr fun h => by simp [isConditional_of_partsBlock h] at hplain
      rw [strays, ih, level_of_plain hplain, hparts]
      rfl

/-- Of commands that come once, one is without a block if none is open where it stands. -/
theorem mem_strays {depth : Nat} {before behind : List Command} {c : Command}
    (hnodup : (before ++ c :: behind).Nodup) :
    c ∈ strays depth (before ++ c :: behind) ↔
      c.action.partsBlock = true ∧ levelAfter depth before = 0 := by
  obtain ⟨-, hbehind, hdisjoint⟩ := List.nodup_append.mp hnodup
  have hnot : c ∉ strays depth before := fun h =>
    hdisjoint c (strays_subset _ _ h) c List.mem_cons_self rfl
  have hnot' : ∀ d, c ∉ strays d behind := fun d h =>
    (List.nodup_cons.mp hbehind).1 (strays_subset _ _ h)
  rw [strays_append, List.mem_append, or_iff_right hnot, strays, List.mem_append,
    or_iff_left (hnot' _)]
  split <;> simp_all

end Command

namespace Scenario

open Command
open Table (CellTable Row)

/-! ## What is reported -/

/-- A command leaves blocks to the commands of the script's own language: it is not named like
    one that blocks are made of and does not count as one, it leaves the open blocks alone, and
    no command of a block closes its rows. -/
structure LeavesBlocks (c : Command) : Prop where
  name : c.tag ∉ [Tag.ifStart, .elseIf, .elseBranch, .endIf].map Tag.name
  plain : IsPlain c
  closing : ∀ d, c.closing? = some d → d.isConditional = false

/-- The commands of a game's own leave blocks alone. -/
def SparesBlocks (cs : List Command) : Prop := ∀ c ∈ cs, isHost c → LeavesBlocks c

theorem SparesBlocks.of_own {cs : List Command} (h : ∀ c ∈ cs, Scenario.isHost c = false) :
    SparesBlocks cs :=
  fun c hc hhost => absurd hhost (Bool.eq_false_iff.mp (h c hc))

/-- The commands of blocks are then all of the script's own language. -/
theorem SparesBlocks.isHost {cs : List Command} (h : SparesBlocks cs) {c : Command} (hc : c ∈ cs)
    (hblock : c.isConditional = true) : isHost c = false := by
  refine Bool.eq_false_iff.mpr fun hhost => ?_
  cases (h c hc hhost).plain.apart.symm.trans hblock

/-- The report of a command without a block. -/
def unmatched (c : Command) : Error :=
  .scenario (.unmatchedConditional (c.tag ++ " at " ++ c.context.text))

/-- The report of blocks that are open at the end. -/
def leftOpen (scenario : String) (count : Nat) : Error :=
  .scenario (.unmatchedConditional
    (Decimal.natText count ++ " If block(s) left open in " ++ scenario))

/-- Whether an error is about blocks. -/
def isBlockReport : Error → Bool
  | .scenario (.unmatchedConditional _) => true
  | _ => false

@[simp] theorem isBlockReport_unmatched (c : Command) : isBlockReport (unmatched c) = true := rfl

@[simp] theorem isBlockReport_leftOpen (scenario : String) (count : Nat) :
    isBlockReport (leftOpen scenario count) = true := rfl

/-- The compiler counts blocks as they are opened and closed, and reports where none is open. -/
theorem nest_eq (o : Outline) {c : Command} (hc : isHost c → LeavesBlocks c) :
    o.nest c = ({ o with depth := c.action.level o.depth },
      if c.action.partsBlock && o.depth == 0 then [unmatched c] else []) := by
  obtain ⟨context, action⟩ := c
  cases action with
  | host action =>
    have htag := (hc rfl).name
    simp only [List.map_cons, List.map_nil, List.mem_cons, List.not_mem_nil, or_false,
      not_or] at htag
    simp [Outline.nest, htag, Action.level, Action.partsBlock]
  | layer kind | layerOff kind | sound kind | stopSound kind | fade kind | control kind =>
    cases kind <;> rfl
  | elseIf | elseBranch | endIf =>
    obtain ⟨_ | depth, labels⟩ := o <;> rfl
  | _ => rfl

theorem depth_name (o : Outline) (scenario : String) (c : Command) :
    (o.name scenario c).1.depth = o.depth ∧
      (o.name scenario c).2.filter isBlockReport = [] := by
  unfold Outline.name
  split
  · exact ⟨rfl, rfl⟩
  · split <;> exact ⟨rfl, rfl⟩

/-- What is reported about blocks: the commands without one, in order, and then those that are left
    open. -/
theorem reports_diagnose (scenario : String) {cs : List Command} (hcs : SparesBlocks cs)
    (o : Outline) :
    (diagnose scenario o (cs.map .ok)).filter isBlockReport =
      (strays o.depth cs).map unmatched ++
        if levelAfter o.depth cs = 0 then [] else [leftOpen scenario (levelAfter o.depth cs)] := by
  induction cs generalizing o with
  | nil =>
    show (diagnose scenario o []).filter isBlockReport = _
    unfold diagnose
    split
    · rename_i hnone
      simp [strays, levelAfter, hnone]
    · rename_i hsome
      simp [strays, levelAfter, hsome, leftOpen, isBlockReport]
  | cons c cs ih =>
    obtain ⟨hc, hrest⟩ := List.forall_mem_cons.mp hcs
    obtain ⟨hdepth, hnaming⟩ := depth_name (o.nest c).1 scenario c
    have hnest := nest_eq o hc
    show ((o.nest c).2 ++ ((o.nest c).1.name scenario c).2 ++
      diagnose scenario ((o.nest c).1.name scenario c).1 (cs.map .ok)).filter isBlockReport = _
    rw [List.filter_append, List.filter_append, hnaming, ih hrest, hdepth, hnest, strays,
      levelAfter_cons]
    cases c.action.partsBlock && o.depth == 0 <;> simp [List.filter_cons]

/-! ## Reports are told apart -/

theorem natText_injective {n m : Nat} (h : Decimal.natText n = Decimal.natText m) : n = m := by
  have hdigits : Nat.toDigits 10 n = Nat.toDigits 10 m := by
    simpa [Decimal.natText] using congrArg String.toList h
  rw [← Nat.ofDigitChars_ten_toDigits (n := n), hdigits, Nat.ofDigitChars_ten_toDigits]

/-- Rows of one table are told apart by their texts. -/
theorem text_injective {c d : RowContext} (htable : c.table = d.table) (h : c.text = d.text) :
    c = d := by
  obtain ⟨table, row⟩ := c
  obtain ⟨table', row'⟩ := d
  obtain rfl : table = table' := htable
  have hrow : Decimal.natText row = Decimal.natText row' := by
    simpa [RowContext.text] using h
  rw [natText_injective hrow]

theorem leftOpen_injective {scenario : String} {n m : Nat}
    (h : leftOpen scenario n = leftOpen scenario m) : n = m :=
  natText_injective (by simpa [leftOpen] using h)

/-- The report of a command without a block names its row. -/
theorem unmatched_injective {c d : Command} (hc : c.isConditional = true)
    (hown : isHost c = false) (hd : d.isConditional = true) (hown' : isHost d = false)
    (htable : c.context.table = d.context.table) (h : unmatched c = unmatched d) :
    c.context = d.context := by
  obtain ⟨context, action⟩ := c
  obtain ⟨context', action'⟩ := d
  have htext : action.tag ++ " at " ++ context.text = action'.tag ++ " at " ++ context'.text := by
    simpa [unmatched, Command.tag] using h
  have htag : action.tag = action'.tag := by
    have hlist := congrArg String.toList htext
    cases action <;> (first | cases hc | cases hown) <;> cases action' <;>
      (first | cases hd | cases hown') <;> first | rfl | simp [Action.tag, Tag.name] at hlist
  exact text_injective htable (by simpa [htag] using htext)

theorem unmatched_ne_leftOpen {c : Command} (hc : c.isConditional = true)
    (hown : isHost c = false) (scenario : String) (n : Nat) :
    unmatched c ≠ leftOpen scenario n := by
  intro h
  obtain ⟨context, action⟩ := c
  have htext : action.tag ++ " at " ++ context.text =
      Decimal.natText n ++ " If block(s) left open in " ++ scenario := by
    simpa [unmatched, leftOpen, Command.tag] using h
  -- the one begins with a letter, the other with a digit
  obtain ⟨d, digits, hdigits⟩ := List.exists_cons_of_ne_nil (Nat.toDigits_ne_nil (b := 10) (n := n))
  have hdigit : d.isDigit = true :=
    Nat.isDigit_of_mem_toDigits (by decide) (by decide) (hdigits ▸ List.mem_cons_self)
  have hlist := congrArg (fun s => s.toList.head?) htext
  cases action <;> (first | cases hc | cases hown) <;>
    simp only [Action.tag, Tag.name, Decimal.natText, hdigits, String.toList_append,
      String.toList_ofList, List.cons_append, List.head?_cons] at hlist
  all_goals
    obtain rfl := Option.some.inj hlist
    cases hdigit

/-! ## Compiling -/

/-- The number of blocks that the compiler has open before the command at a place. -/
def depthAt (s : Scenario) (i : Nat) : Nat :=
  ((s.commands.take i).foldl (fun (o : Outline) c => (o.nest c).1) ⟨0, []⟩).depth

theorem depth_foldl_nest {cs : List Command} (hcs : SparesBlocks cs) (o : Outline) :
    (cs.foldl (fun (o : Outline) c => (o.nest c).1) o).depth = levelAfter o.depth cs := by
  induction cs generalizing o with
  | nil => rfl
  | cons c cs ih =>
    obtain ⟨hc, hrest⟩ := List.forall_mem_cons.mp hcs
    rw [List.foldl_cons, ih hrest, nest_eq o hc, levelAfter_cons]

theorem depthAt_eq {s : Scenario} (hs : SparesBlocks s.commands) (i : Nat) :
    s.depthAt i = levelAfter 0 (s.commands.take i) :=
  depth_foldl_nest (fun c hc => hs c (List.mem_of_mem_take hc)) _

/-- Behind a command there are as many open blocks as it makes of those before it. -/
theorem depthAt_succ {s : Scenario} (hs : SparesBlocks s.commands) {i : Nat} {c : Command}
    (hc : s.commands[i]? = some c) : s.depthAt (i + 1) = c.action.level (s.depthAt i) := by
  obtain ⟨hi, rfl⟩ := List.getElem?_eq_some_iff.mp hc
  rw [depthAt_eq hs, depthAt_eq hs, List.take_succ_eq_append_getElem hi, levelAfter,
    List.foldl_append]
  rfl

/-- Closing rows puts no commands of blocks in. -/
theorem conditionals_closeRows {cs : List Command} (hcs : SparesBlocks cs) :
    (closeRows none cs).filter Command.isConditional = cs.filter Command.isConditional := by
  rw [← List.filterMap_eq_filter]
  refine filterMap_closeRows (fun c hc d hd => ?_) fun _ h => nomatch h
  have hplain : d.isConditional = false := by
    cases hhost : Scenario.isHost c with
    | true => exact (hcs c hc hhost).closing d hd
    | false =>
      rw [Command.isConditional, action_of_closing? hhost hd]
      rfl
  simp [Option.guard, hplain]

/-- Closing rows takes no commands away. -/
theorem sublist_closeRows (cs : List Command) (o : Option Opening) :
    cs.Sublist (closeRows o cs) := by
  induction cs generalizing o with
  | nil => exact List.nil_sublist _
  | cons c cs ih =>
    cases o with
    | none => exact (ih _).cons_cons c
    | some opening =>
      unfold closeRows
      split
      · exact (ih _).cons_cons c
      · split
        · exact (ih _).cons_cons c
        · exact ((ih _).cons_cons c).cons _

/-- What a compiler reports of blocks is what becomes of the stack of open ones that is fed with the
    commands of blocks in order, whatever their conditions. -/
structure Foresees (s : Scenario) (whole : List Error) (fed : List (Command × Bool)) : Prop where
  /-- A command finds no block open that it could part just if it is reported. -/
  stray : ∀ before c holds behind, fed = before ++ (c, holds) :: behind →
    (c.action.partsBlock = true ∧ (takeAll .empty before).depth = 0 ↔ unmatched c ∈ whole)
  /-- The compiler has as many blocks open as the stack has. -/
  depth : ∀ i before behind, fed = before ++ behind →
    before.map Prod.fst = (s.commands.take i).filter Command.isConditional →
    s.depthAt i = (takeAll .empty before).depth
  /-- A command that closes a block and is not reported takes one of those off. -/
  close : ∀ i c, s.commands[i]? = some c → c.action = .endIf → unmatched c ∉ whole →
    s.depthAt (i + 1) + 1 = s.depthAt i
  /-- Blocks are reported to be open just if some are at the end, and as many. -/
  left : ∀ n, leftOpen s.name n ∈ whole ↔ n = (takeAll .empty fed).depth ∧ 0 < n

section Compile

variable {f : Factory} {settings : Settings} {t : CellTable}
  (hspares : SparesBlocks (commandsOf (readRows f settings t.dataRows)))

/-- What the compiler reports besides the rows that cannot be read. -/
def wholeReports (f : Factory) (settings : Settings) (t : CellTable) : List Error :=
  diagnose t.name ⟨0, []⟩ ((commandsOf (readRows f settings t.dataRows)).map .ok)

include hspares

theorem conditionals_compile : (compile f settings t).commands.filter Command.isConditional =
    (commandsOf (readRows f settings t.dataRows)).filter Command.isConditional :=
  conditionals_closeRows hspares

theorem reports_compile : (wholeReports f settings t).filter isBlockReport =
    (strays 0 (commandsOf (readRows f settings t.dataRows))).map unmatched ++
      if levelAfter 0 (commandsOf (readRows f settings t.dataRows)) = 0 then []
      else [leftOpen t.name (levelAfter 0 (commandsOf (readRows f settings t.dataRows)))] :=
  reports_diagnose t.name hspares ⟨0, []⟩

/-- A command of a block is reported just if it is without a block. -/
theorem unmatched_mem_iff {c : Command} (hc : c ∈ commandsOf (readRows f settings t.dataRows))
    (hblock : c.isConditional = true) : unmatched c ∈ wholeReports f settings t ↔
      c ∈ strays 0 (commandsOf (readRows f settings t.dataRows)) := by
  have hreports : unmatched c ∈ wholeReports f settings t ↔
      unmatched c ∈ (wholeReports f settings t).filter isBlockReport := by simp
  rw [hreports, reports_compile hspares]
  constructor
  · intro h
    rcases List.mem_append.mp h with h | h
    · obtain ⟨d, hd, hsame⟩ := List.mem_map.mp h
      have hd' := strays_subset _ _ hd
      have hblock' := isConditional_of_partsBlock (partsBlock_of_mem_strays hd)
      have hcontext : d.context = c.context :=
        unmatched_injective hblock' (hspares.isHost hd' hblock') hblock (hspares.isHost hc hblock)
          ((table_of_command hd').trans (table_of_command hc).symm) hsame
      obtain rfl := List.inj_on_of_nodup_map (nodup_contexts f settings t) hd' hc hcontext
      exact hd
    · split at h
      · cases h
      · exact absurd (List.mem_singleton.mp h)
          (unmatched_ne_leftOpen hblock (hspares.isHost hc hblock) _ _)
  · exact fun h => List.mem_append_left _ (List.mem_map_of_mem h)

theorem leftOpen_mem_iff (n : Nat) : leftOpen t.name n ∈ wholeReports f settings t ↔
    n = levelAfter 0 (commandsOf (readRows f settings t.dataRows)) ∧ 0 < n := by
  have hreports : leftOpen t.name n ∈ wholeReports f settings t ↔
      leftOpen t.name n ∈ (wholeReports f settings t).filter isBlockReport := by simp
  rw [hreports, reports_compile hspares]
  constructor
  · intro h
    rcases List.mem_append.mp h with h | h
    · obtain ⟨d, hd, hsame⟩ := List.mem_map.mp h
      have hblock := isConditional_of_partsBlock (partsBlock_of_mem_strays hd)
      have hown := hspares.isHost (strays_subset _ _ hd) hblock
      exact absurd hsame (unmatched_ne_leftOpen hblock hown _ _)
    · split at h
      · cases h
      · rename_i hopen
        obtain rfl := leftOpen_injective (List.mem_singleton.mp h)
        exact ⟨rfl, Nat.pos_of_ne_zero hopen⟩
  · rintro ⟨rfl, hopen⟩
    rw [if_neg (Nat.ne_of_gt hopen)]
    exact List.mem_append_right _ (List.mem_singleton.mpr rfl)

end Compile

/-- What a compiler reports of blocks foresees what becomes of the stack of a run. -/
theorem foresees_compile (f : Factory) (settings : Settings) (t : CellTable)
    (hspares : SparesBlocks (compile f settings t).commands) {fed : List (Command × Bool)}
    (hfed : fed.map Prod.fst = (compile f settings t).commands.filter Command.isConditional) :
    Foresees (compile f settings t) (wholeReports f settings t) fed := by
  have hrows : SparesBlocks (commandsOf (readRows f settings t.dataRows)) :=
    fun c hc => hspares c ((sublist_closeRows _ none).subset hc)
  have hcommands := hfed.trans (conditionals_compile hrows)
  have hnodup : (fed.map Prod.fst).Nodup := by
    rw [hcommands]
    exact (List.Nodup.of_map _ (nodup_contexts f settings t)).filter _
  have hmem : ∀ c ∈ fed.map Prod.fst, c.isConditional = true ∧
      c ∈ commandsOf (readRows f settings t.dataRows) := fun c hc => by
    rw [hcommands] at hc
    exact (List.mem_filter.mp hc).symm
  have hlevel : levelAfter 0 (commandsOf (readRows f settings t.dataRows)) =
      levelAfter 0 (fed.map Prod.fst) := by
    rw [hcommands, levelAfter_filter]
  have hstray : ∀ before c behind, fed.map Prod.fst = before ++ c :: behind →
      (c.action.partsBlock = true ∧ levelAfter 0 before = 0 ↔
        unmatched c ∈ wholeReports f settings t) := by
    intro before c behind hsplit
    obtain ⟨hblock, hc⟩ := hmem c (hsplit ▸ List.mem_append_right _ List.mem_cons_self)
    rw [unmatched_mem_iff hrows hc hblock, ← strays_filter, ← hcommands, hsplit]
    exact (mem_strays (hsplit ▸ hnodup)).symm
  have hdepth : ∀ i, (compile f settings t).depthAt i =
      levelAfter 0 (((compile f settings t).commands.take i).filter Command.isConditional) :=
    fun i => (depthAt_eq hspares i).trans (levelAfter_filter 0 _).symm
  refine ⟨fun before c holds behind hsplit => ?_, fun i before behind hsplit hbefore => ?_,
    fun i c hc hclose hsilent => ?_, fun n => ?_⟩
  · rw [depth_takeAll]
    exact hstray _ c (behind.map Prod.fst) (by simp [hsplit])
  · rw [depth_takeAll, hbefore, hdepth i]
    rfl
  · have hblock : c.isConditional = true := by rw [Command.isConditional, hclose]; rfl
    obtain ⟨hi, hget⟩ := List.getElem?_eq_some_iff.mp hc
    have hsplit : fed.map Prod.fst =
        ((compile f settings t).commands.take i).filter Command.isConditional ++
          c :: ((compile f settings t).commands.drop (i + 1)).filter Command.isConditional := by
      conv_lhs => rw [hfed, ← List.take_append_drop i (compile f settings t).commands,
        List.drop_eq_getElem_cons hi, hget, List.filter_append, List.filter_cons, if_pos hblock]
    have hopen := mt (hstray _ c _ hsplit).mp hsilent
    have hparts : c.action.partsBlock = true := by rw [hclose]; rfl
    rw [← hdepth i, hparts] at hopen
    rw [depthAt_succ hspares hc, hclose]
    simp only [Action.level, true_and] at hopen ⊢
    omega
  · rw [depth_takeAll, show (compile f settings t).name = t.name from rfl, leftOpen_mem_iff hrows,
      hlevel]
    rfl

end Scenario

end VisualNovel
