import VisualNovel.Proofs.Scenario.Pages

/-
  Seeking a page. The section of a label reaches from behind its command up to the next label or
  the end, and `pagePlaces` lists where pages begin in it. The page after the `n`-th of them is
  sought behind the `n`-th of these places, and found if there are so many (`seekPage?_eq`,
  `pages_are_sought`). A page of a label is therefore never sought beyond the next label, and a
  later page is always found further on.
-/

namespace VisualNovel.Scenario

open Table (CellTable)

/-- The commands behind a place, up to the next label. -/
def sectionBehind (s : Scenario) (m : Nat) : List Command :=
  (s.commands.drop (m + 1)).takeWhile fun c => c.label?.isNone

/-- The places in the section behind a place where pages begin, in order. -/
def pagePlaces (s : Scenario) (m : Nat) : List Nat :=
  (s.sectionBehind m).findIdxs Command.beginsPage (m + 1)

/-- The page after as many others is behind the command that begins the last of them. -/
theorem seekPage?_eq {page : Nat} (hpage : 1 ≤ page) (index : Nat) (cs : List Command) :
    seekPage? page index cs =
      (((cs.takeWhile fun c => c.label?.isNone).findIdxs Command.beginsPage index)[page - 1]?).map
        (· + 1) := by
  induction cs generalizing page index with
  | nil => rfl
  | cons c cs ih =>
    rw [seekPage?, List.takeWhile_cons]
    cases c.label? with
    | some l => rfl
    | none =>
      simp only [Option.isSome_none, Option.isNone_none, Bool.false_eq_true, if_false, if_true]
      rw [List.findIdxs_cons]
      cases c.beginsPage with
      | false => exact ih hpage (index + 1)
      | true =>
        rw [if_pos rfl, if_pos rfl]
        rcases Nat.eq_or_lt_of_le hpage with rfl | hmore
        · rfl
        · obtain ⟨n, rfl⟩ : ∃ n, page = n + 2 := ⟨page - 2, by omega⟩
          rw [if_neg (by omega)]
          exact ih (by omega) (index + 1)

variable {s : Scenario} {l : String} {m : Nat}

/-- A page of a label that is not its first is sought behind the place where the one before it
    begins. -/
theorem seek_of_pos (hl : s.labelIndex? l = some m) {page : Int} (hpage : 1 ≤ page) :
    s.seek l page =
      match (s.pagePlaces m)[page.toNat - 1]? with
      | some k => .ok (k + 1)
      | none => .error (.scenario (.pageOutOfRange l page)) := by
  have hpositive : 1 ≤ page.toNat := by omega
  have hseek := seekPage?_eq hpositive (m + 1) (s.commands.drop (m + 1))
  unfold seek
  rw [hl]
  dsimp only
  rw [if_neg (by omega), hseek, pagePlaces, sectionBehind]
  cases (List.findIdxs _ _ _)[page.toNat - 1]? <;> rfl

/-- The first page of a label is at the label. -/
theorem seek_of_nonpos (hl : s.labelIndex? l = some m) {page : Int} (hpage : page ≤ 0) :
    s.seek l page = .ok m := by
  unfold seek
  rw [hl]
  exact if_pos hpage

theorem seek_eq_undefinedLabel {page : Int} :
    s.seek l page = .error (.scenario (.undefinedLabel l)) ↔ s.labelIndex? l = none := by
  constructor
  · intro hseek
    cases hl : s.labelIndex? l with
    | none => rfl
    | some m =>
      rcases Int.lt_or_le 0 page with hpage | hpage
      · rw [seek_of_pos hl hpage] at hseek
        split at hseek <;> cases hseek
      · rw [seek_of_nonpos hl hpage] at hseek
        cases hseek
  · intro hl
    unfold seek
    rw [hl]

/-- The commands of a section stand in the scenario, and none puts a label there. -/
theorem getElem_sectionBehind {i : Nat} (hi : i < (s.sectionBehind m).length) :
    s.commands[m + 1 + i]? = some (s.sectionBehind m)[i] ∧
      (s.sectionBehind m)[i].label? = none := by
  have hprefix : s.sectionBehind m <+: s.commands.drop (m + 1) := List.takeWhile_prefix _
  constructor
  · rw [← List.getElem?_drop, hprefix.getElem hi]
    exact List.getElem?_eq_getElem _
  · have hall := List.all_eq_true.mp List.all_takeWhile _ (List.getElem_mem hi)
    simpa using hall

/-- In a section pages begin behind its label, before the next one and before the end. -/
theorem of_mem_pagePlaces {k : Nat} (hk : k ∈ s.pagePlaces m) :
    m < k ∧ (∃ c, s.commands[k]? = some c ∧ c.beginsPage = true) ∧
      ∀ i c, m < i → s.commands[i]? = some c → c.label?.isSome → k < i := by
  obtain ⟨hmk, hlt, hbegins⟩ := List.mem_findIdxs_iff_getElem_sub_pos.mp hk
  refine ⟨hmk, ⟨_, ?_, hbegins⟩, fun i c hmi hc hlabel => ?_⟩
  · have hplace := (getElem_sectionBehind hlt).1
    rwa [show m + 1 + (k - (m + 1)) = k by omega] at hplace
  · -- up to the place there are commands of the section only
    by_contra hik
    obtain ⟨hplace, hnone⟩ := getElem_sectionBehind (s := s) (m := m) (i := i - (m + 1)) (by omega)
    rw [show m + 1 + (i - (m + 1)) = i by omega, hc] at hplace
    rw [← Option.some.inj hplace] at hnone
    rw [hnone] at hlabel
    cases hlabel

/-- A later page is found further on. -/
theorem seek_lt (hl : s.labelIndex? l = some m) {page page' : Int} (hpage : 0 ≤ page)
    (hlater : page < page') {j j' : Nat} (hj : s.seek l page = .ok j)
    (hj' : s.seek l page' = .ok j') : j < j' := by
  rw [seek_of_pos hl (by omega)] at hj'
  split at hj'
  · rename_i k' hk'
    obtain rfl := Except.ok.inj hj'
    rcases Int.lt_or_le 0 page with hpos | hnonpos
    · rw [seek_of_pos hl hpos] at hj
      split at hj
      · rename_i k hk
        obtain rfl := Except.ok.inj hj
        obtain ⟨hi, rfl⟩ := List.getElem?_eq_some_iff.mp hk
        obtain ⟨hi', rfl⟩ := List.getElem?_eq_some_iff.mp hk'
        have hordered : (s.pagePlaces m).Pairwise (· < ·) := List.pairwise_findIdxs
        exact Nat.succ_lt_succ (List.pairwise_iff_getElem.mp hordered _ _ hi hi' (by omega))
      · cases hj
    · rw [seek_of_nonpos hl hnonpos] at hj
      obtain rfl := Except.ok.inj hj
      have hbehind := (of_mem_pagePlaces (List.mem_of_getElem? hk')).1
      omega
  · cases hj'

/-- Where a page is sought. A label that the scenario does not have is undefined, and its first page
    is at its place. Any later page is found if as many pages begin in the label's section, and
    then right behind the place where the last of so many begins, hence not behind the next label
    or the end; otherwise it is out of range. Later pages are found further on. -/
theorem pages_are_sought (s : Scenario) (l : String) (page : Int) :
    (s.seek l page = .error (.scenario (.undefinedLabel l)) ↔ s.labelIndex? l = none) ∧
    ∀ m, s.labelIndex? l = some m →
      (s.Compiled → ∃ c, s.commands[m]? = some c ∧ c.label? = some l) ∧
      (page ≤ 0 → s.seek l page = .ok m) ∧
      (1 ≤ page → page ≤ (s.sectionBehind m).countP Command.beginsPage →
        ∃ k, (s.pagePlaces m)[page.toNat - 1]? = some k ∧ s.seek l page = .ok (k + 1) ∧
          k + 1 ≤ s.commands.length ∧
          ∀ i c, m < i → s.commands[i]? = some c → c.label?.isSome → k + 1 ≤ i) ∧
      (1 ≤ page → (s.sectionBehind m).countP Command.beginsPage < page →
        s.seek l page = .error (.scenario (.pageOutOfRange l page))) ∧
      ∀ page' j j', 0 ≤ page → page < page' → s.seek l page = .ok j → s.seek l page' = .ok j' →
        j < j' := by
  refine ⟨seek_eq_undefinedLabel, fun m hl => ⟨fun hs => ?_, seek_of_nonpos hl, ?_, ?_, ?_⟩⟩
  · exact (hs.labelIndex?_eq_some.mp hl).1
  · intro hpage hmany
    rw [← List.length_findIdxs (s := m + 1)] at hmany
    have hi : page.toNat - 1 < (s.pagePlaces m).length := by
      unfold pagePlaces
      omega
    have hk := List.getElem?_eq_getElem hi
    obtain ⟨-, ⟨c, hc, -⟩, hbefore⟩ := of_mem_pagePlaces (List.getElem_mem hi)
    refine ⟨_, hk, ?_, ?_, hbefore⟩
    · rw [seek_of_pos hl hpage, hk]
    · exact (List.getElem?_eq_some_iff.mp hc).1
  · intro hpage hfew
    rw [← List.length_findIdxs (s := m + 1)] at hfew
    rw [seek_of_pos hl hpage, List.getElem?_eq_none]
    unfold pagePlaces
    omega
  · exact fun page' j j' hpage hlater hj hj' => seek_lt hl hpage hlater hj hj'

/-- A label with three pages, and another with one, which is the last that there is. -/
def fourPages : CellTable :=
  .ofRows "t" [["Command", "Text"], ["*intro", ""], ["", "one"], ["Wait", ""], ["", "two"],
    ["", "three"], ["*next", ""], ["", "four"]]

/-- The page after the last of a label is found before the next label, or at the end. -/
theorem pages_end_with_section :
    let s := compile .standard .standard fourPages
    s.seek "intro" 3 = .ok 5 ∧ s.seek "intro" 4 = .error (.scenario (.pageOutOfRange "intro" 4)) ∧
    s.seek "next" 1 = .ok s.commands.length := by
  intro s
  have hintro : s.labelIndex? "intro" = some 0 := by decide +kernel
  have hnext : s.labelIndex? "next" = some 5 := by decide +kernel
  obtain ⟨-, -, hthird, -⟩ := (pages_are_sought s "intro" 3).2 0 hintro
  obtain ⟨-, -, -, hfourth, -⟩ := (pages_are_sought s "intro" 4).2 0 hintro
  obtain ⟨-, -, hfirst, -⟩ := (pages_are_sought s "next" 1).2 5 hnext
  obtain ⟨k, hk, hseek, -⟩ := hthird (by decide) (by decide +kernel)
  obtain ⟨i, hi, hseek', -⟩ := hfirst (by decide) (by decide +kernel)
  have hthree : (s.pagePlaces 0)[2]? = some 4 := by decide +kernel
  have hfour : (s.pagePlaces 5)[0]? = some 6 := by decide +kernel
  have hlength : s.commands.length = 7 := by decide +kernel
  obtain rfl := Option.some.inj (hk.symm.trans hthree)
  obtain rfl := Option.some.inj (hi.symm.trans hfour)
  exact ⟨hseek, hfourth (by decide) (by decide +kernel), hlength ▸ hseek'⟩

end VisualNovel.Scenario
