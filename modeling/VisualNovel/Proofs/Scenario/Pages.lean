import Mathlib.Data.List.Count
import VisualNovel.Proofs.Scenario.Labels

/-
  Pages by place. `boundaries s m i` counts the commands that begin a page strictly between two
  places. A page of a label is found exactly if its section has that many pages, and it is found
  behind the command that begins the page before (`seekPage?_eq_some`), where it can be
  (`PageStart`).
-/

namespace VisualNovel.Scenario

/-- The number of commands strictly between two places that begin a page. -/
def boundaries (s : Scenario) (m i : Nat) : Nat :=
  ((s.commands.take i).drop (m + 1)).countP Command.beginsPage

theorem boundaries_of_le (s : Scenario) {m i : Nat} (h : i ≤ m + 1) : s.boundaries m i = 0 := by
  unfold boundaries
  rw [List.drop_eq_nil_of_le (by simp; omega)]
  rfl

/-- The count goes up by one behind a command that begins a page. -/
theorem boundaries_succ (s : Scenario) {m i : Nat} {c : Command} (hm : m < i)
    (hc : s.commands[i]? = some c) :
    s.boundaries m (i + 1) = s.boundaries m i + if c.beginsPage then 1 else 0 := by
  obtain ⟨hi, rfl⟩ := List.getElem?_eq_some_iff.mp hc
  unfold boundaries
  rw [List.take_succ_eq_append_getElem hi, List.drop_append_of_le_length (by simp; omega),
    List.countP_append]
  simp [List.countP_cons]

theorem boundaries_mono (s : Scenario) (m : Nat) {i k : Nat} (h : i ≤ k) :
    s.boundaries m i ≤ s.boundaries m k :=
  ((List.take_sublist_take_left h).drop (m + 1)).countP_le

/-- A place of a section where a page can be found: fewer pages have begun at all places before
    it. -/
def PageStart (s : Scenario) (m j : Nat) : Prop :=
  ∀ i, m ≤ i → i < j → s.boundaries m i < s.boundaries m j

theorem pageStart_self (s : Scenario) (m : Nat) : s.PageStart m m :=
  fun _ hle hlt => absurd hlt (Nat.not_lt.mpr hle)

/-- A page can be found behind a command that begins one. -/
theorem pageStart_succ {s : Scenario} {m i : Nat} {c : Command} (hm : m < i)
    (hc : s.commands[i]? = some c) (hbegins : c.beginsPage = true) : s.PageStart m (i + 1) := by
  intro k _ hlt
  have hmono := s.boundaries_mono m (Nat.le_of_lt_succ hlt)
  rw [s.boundaries_succ hm hc, if_pos hbegins]
  omega

/-- Every page is found at one place. -/
theorem PageStart.unique {s : Scenario} {m j k : Nat} (hj : s.PageStart m j)
    (hk : s.PageStart m k) (hmj : m ≤ j) (hmk : m ≤ k)
    (hcount : s.boundaries m j = s.boundaries m k) : j = k := by
  rcases Nat.lt_trichotomy j k with hlt | heq | hgt
  · exact absurd hcount (Nat.ne_of_lt (hk j hmj hlt))
  · exact heq
  · exact absurd hcount.symm (Nat.ne_of_lt (hj k hmk hgt))

/-- No command that puts a label into a scenario begins a page. -/
theorem not_beginsPage_of_label {c : Command} {l : String} (hc : c.label? = some l) :
    c.beginsPage = false := by
  obtain ⟨_, action⟩ := c
  cases action with
  | label => rfl
  | host action =>
    obtain ⟨tag, resources, mark, rest⟩ := action
    cases mark <;> first | rfl | cases hc
  | _ => cases hc

/-! ## Finding pages -/

/-- The page is found behind the command that begins the page before it, unless a label lies
    before that. -/
theorem seekPage?_eq_some {page : Nat} (hpage : 1 ≤ page) {index : Nat} {cs : List Command}
    {j : Nat} :
    seekPage? page index cs = some j ↔
      ∃ k, j = index + k + 1 ∧ (∃ c, cs[k]? = some c ∧ c.beginsPage = true) ∧
        (cs.take k).countP Command.beginsPage + 1 = page ∧
        ∀ c ∈ cs.take (k + 1), c.label? = none := by
  induction cs generalizing page index with
  | nil => simp [seekPage?]
  | cons c cs ih =>
    unfold seekPage?
    cases hl : c.label? with
    | some l =>
      simp only [Option.isSome_some, if_true, reduceCtorEq, false_iff]
      rintro ⟨k, -, -, -, hlabels⟩
      have := hlabels c (by simp)
      rw [hl] at this
      cases this
    | none =>
      -- the command found is this one or one behind it
      rw [← Nat.or_exists_add_one]
      simp only [Option.isSome_none, Bool.false_eq_true, if_false]
      cases hc : c.beginsPage with
      | true =>
        by_cases hone : page ≤ 1
        · obtain rfl : page = 1 := by omega
          simp only [if_true, hone, Option.some.injEq]
          constructor
          · rintro rfl
            exact Or.inl ⟨rfl, ⟨c, rfl, hc⟩, rfl, by simp [hl]⟩
          · rintro (⟨rfl, -⟩ | ⟨k, -, -, hcount, -⟩)
            · rfl
            · simp [hc] at hcount
        · have hmore : ¬1 = page := by omega
          rw [if_pos rfl, if_neg hone, ih (by omega)]
          simp only [List.getElem?_cons_zero, Option.some.injEq, List.take_zero, List.countP_nil,
            Nat.zero_add, hmore, false_and, and_false, false_or, List.getElem?_cons_succ,
            List.take_succ_cons, List.countP_cons, hc, if_true, List.forall_mem_cons, hl, true_and]
          refine exists_congr fun k => ?_
          constructor
          · rintro ⟨rfl, hk, hcount, hlabels⟩
            exact ⟨by omega, hk, by omega, hlabels⟩
          · rintro ⟨rfl, hk, hcount, hlabels⟩
            exact ⟨by omega, hk, by omega, hlabels⟩
      | false =>
        rw [if_neg (by simp), ih hpage]
        simp [hc, hl, Nat.add_assoc, Nat.add_comm 1]

/-- The commands strictly between two places. -/
theorem drop_take_eq (s : Scenario) {m i : Nat} :
    (s.commands.take i).drop (m + 1) = (s.commands.drop (m + 1)).take (i - (m + 1)) :=
  List.drop_take

/-- Only pages of labels are found. -/
theorem labelIndex?_of_seek {s : Scenario} {l : String} {page : Int} {j : Nat}
    (hj : s.seek l page = .ok j) : ∃ m, s.labelIndex? l = some m := by
  unfold seek at hj
  cases hl : s.labelIndex? l with
  | none =>
    rw [hl] at hj
    cases hj
  | some m => exact ⟨m, rfl⟩

/-- A page of a label is found at the place where it can be, as far from the label as it says. -/
theorem boundaries_of_seek {s : Scenario} {l : String} {m : Nat} (hl : s.labelIndex? l = some m)
    {page : Int} {j : Nat} (hj : s.seek l page = .ok j) :
    m ≤ j ∧ (s.boundaries m j : Int) = max page 0 ∧ s.PageStart m j := by
  unfold seek at hj
  rw [hl] at hj
  dsimp only at hj
  split at hj
  · rename_i hpage
    obtain rfl : m = j := Except.ok.inj hj
    rw [boundaries_of_le s (Nat.le_succ m)]
    exact ⟨Nat.le_refl m, by omega, s.pageStart_self m⟩
  · rename_i hpage
    split at hj
    · rename_i j' hseek
      obtain rfl : j' = j := Except.ok.inj hj
      obtain ⟨k, rfl, ⟨c, hc, hbegins⟩, hcount, -⟩ := (seekPage?_eq_some (by omega)).mp hseek
      have hplace : s.commands[m + 1 + k]? = some c := by rw [← hc, List.getElem?_drop]
      refine ⟨by omega, ?_, pageStart_succ (by omega) hplace hbegins⟩
      rw [s.boundaries_succ (by omega) hplace, if_pos hbegins, boundaries, drop_take_eq,
        Nat.add_sub_cancel_left]
      omega
    · cases hj

/-- What stands strictly between two places. -/
theorem getElem?_between (s : Scenario) {m i k : Nat} (hk : m + 1 + k < i) :
    ((s.commands.take i).drop (m + 1))[k]? = s.commands[m + 1 + k]? := by
  rw [List.getElem?_drop, List.getElem?_take_of_lt hk]

/-- The commands strictly between two places, by their places. -/
theorem mem_between {s : Scenario} {m i : Nat} {c : Command} :
    c ∈ (s.commands.take i).drop (m + 1) ↔ ∃ k, m < k ∧ k < i ∧ s.commands[k]? = some c := by
  rw [List.mem_iff_getElem?]
  constructor
  · rintro ⟨k, hk⟩
    have hlt : m + 1 + k < i := by
      by_contra hge
      rw [List.getElem?_drop, List.getElem?_take_eq_none (by omega)] at hk
      cases hk
    rw [s.getElem?_between hlt] at hk
    exact ⟨m + 1 + k, by omega, hlt, hk⟩
  · rintro ⟨k, hmk, hki, hc⟩
    refine ⟨k - (m + 1), ?_⟩
    rw [s.getElem?_between (by omega), ← hc]
    congr 1
    omega

/-- Behind the end no page begins. -/
theorem boundaries_succ_of_none {s : Scenario} {m i : Nat} (hi : s.commands[i]? = none) :
    s.boundaries m (i + 1) = s.boundaries m i := by
  have hlength : s.commands.length ≤ i := List.getElem?_eq_none_iff.mp hi
  rw [boundaries, boundaries, List.take_of_length_le (Nat.le_succ_of_le hlength),
    List.take_of_length_le hlength]

/-- If pages begin between two places, one is the last. -/
theorem exists_last_boundary {s : Scenario} {m i : Nat} (h : 0 < s.boundaries m i) :
    ∃ k c, m < k ∧ k < i ∧ s.commands[k]? = some c ∧ c.beginsPage = true ∧
      s.boundaries m k + 1 = s.boundaries m i ∧
      ∀ j d, k < j → j < i → s.commands[j]? = some d → d.beginsPage = false := by
  induction i with
  | zero =>
    rw [s.boundaries_of_le (Nat.zero_le _)] at h
    cases h
  | succ i ih =>
    have hmi : m < i := by
      by_contra hle
      rw [s.boundaries_of_le (by omega)] at h
      cases h
    -- the command at the place begins the last page, or one before does
    cases hc : s.commands[i]? with
    | none =>
      rw [boundaries_succ_of_none hc] at h ⊢
      obtain ⟨k, c, hmk, hki, hk, hbegins, hcount, hnone⟩ := ih h
      refine ⟨k, c, hmk, by omega, hk, hbegins, hcount, fun j d hkj hji hd => ?_⟩
      rcases Nat.lt_succ_iff_lt_or_eq.mp hji with hlt | rfl
      · exact hnone j d hkj hlt hd
      · cases hc.symm.trans hd
    | some c =>
      have hsucc := s.boundaries_succ hmi hc
      cases hbegins : c.beginsPage with
      | true =>
        rw [hbegins, if_pos rfl] at hsucc
        exact ⟨i, c, hmi, Nat.lt_succ_self i, hc, hbegins, hsucc.symm, fun j d hij hji => by omega⟩
      | false =>
        rw [hbegins, if_neg Bool.false_ne_true, Nat.add_zero] at hsucc
        rw [hsucc] at h ⊢
        obtain ⟨k, d, hmk, hki, hk, hbegins', hcount, hnone⟩ := ih h
        refine ⟨k, d, hmk, by omega, hk, hbegins', hcount, fun j e hkj hji he => ?_⟩
        rcases Nat.lt_succ_iff_lt_or_eq.mp hji with hlt | rfl
        · exact hnone j e hkj hlt he
        · obtain rfl : c = e := Option.some.inj (hc.symm.trans he)
          exact hbegins

/-- Where a page can be found, and not at the label itself, the command before begins one. -/
theorem PageStart.begins {s : Scenario} {m j : Nat} (h : s.PageStart m j) (hmj : m < j) :
    ∃ k c, j = k + 1 ∧ m < k ∧ s.commands[k]? = some c ∧ c.beginsPage = true ∧
      s.boundaries m k + 1 = s.boundaries m j := by
  have hlt := h m (Nat.le_refl m) hmj
  obtain ⟨k, c, hmk, hkj, hc, hbegins, hcount, -⟩ := exists_last_boundary (Nat.zero_lt_of_lt hlt)
  obtain rfl : j = k + 1 := by
    by_contra hne
    have hmore := h (k + 1) (by omega) (by omega)
    rw [s.boundaries_succ hmk hc, hbegins, if_pos rfl] at hmore
    omega
  exact ⟨k, c, rfl, hmk, hc, hbegins, hcount⟩

/-- The page that a place is on can be found, and no page begins between there and the place. -/
theorem exists_pageStart {s : Scenario} {m i : Nat} (hmi : m ≤ i) :
    ∃ j, m ≤ j ∧ j ≤ i ∧ s.PageStart m j ∧ s.boundaries m j = s.boundaries m i ∧
      ∀ k c, j ≤ k → m < k → k < i → s.commands[k]? = some c → c.beginsPage = false := by
  rcases Nat.eq_zero_or_pos (s.boundaries m i) with hzero | hpos
  · refine ⟨m, Nat.le_refl m, hmi, s.pageStart_self m, ?_, fun k c _ hmk hki hc => ?_⟩
    · rw [hzero, s.boundaries_of_le (Nat.le_succ m)]
    · have hnone := List.countP_eq_zero.mp hzero c (mem_between.mpr ⟨k, hmk, hki, hc⟩)
      simpa using hnone
  · obtain ⟨k, c, hmk, hki, hc, hbegins, hcount, hnone⟩ := exists_last_boundary hpos
    refine ⟨k + 1, by omega, hki, pageStart_succ hmk hc hbegins, ?_,
      fun j d hkj _ hji hd => hnone j d hkj hji hd⟩
    rw [s.boundaries_succ hmk hc, hbegins, if_pos rfl, hcount]

/-- A page of a label is found where it can be, if no other label lies in between, and otherwise
    it is not found. -/
theorem seek_of_pageStart {s : Scenario} {l : String} {m j : Nat}
    (hl : s.labelIndex? l = some m) (hmj : m ≤ j) (hstart : s.PageStart m j) :
    ((∀ k c, m < k → k < j → s.commands[k]? = some c → c.label? = none) →
      s.seek l (s.boundaries m j) = .ok j) ∧
    (∀ k c l', m < k → k < j → s.commands[k]? = some c → c.label? = some l' →
      s.seek l (s.boundaries m j) = .error (.scenario (.pageOutOfRange l (s.boundaries m j)))) := by
  unfold seek
  rw [hl]
  dsimp only
  rcases Nat.eq_or_lt_of_le hmj with rfl | hlt
  · rw [s.boundaries_of_le (Nat.le_succ m), if_pos (by simp)]
    exact ⟨fun _ => rfl, fun k c l' hmk hkm => by omega⟩
  · obtain ⟨i, c, rfl, hmi, hc, hbegins, hcount⟩ := hstart.begins hlt
    rw [if_neg (by omega), Int.toNat_natCast]
    constructor
    · intro hsection
      have hfound : seekPage? (s.boundaries m (i + 1)) (m + 1) (s.commands.drop (m + 1)) =
          some (i + 1) := by
        refine (seekPage?_eq_some (by omega)).mpr ⟨i - (m + 1), by omega, ⟨c, ?_, hbegins⟩, ?_, ?_⟩
        · rw [List.getElem?_drop, ← hc]
          congr 1
          omega
        · rw [← hcount, boundaries, drop_take_eq]
        · intro d hd
          rw [show i - (m + 1) + 1 = i + 1 - (m + 1) by omega, ← drop_take_eq] at hd
          obtain ⟨k, hmk, hki, hk⟩ := mem_between.mp hd
          exact hsection k d hmk hki hk
      rw [hfound]
    · intro k d l' hmk hki hd hdl
      have hnone : seekPage? (s.boundaries m (i + 1)) (m + 1) (s.commands.drop (m + 1)) = none := by
        refine Option.eq_none_iff_forall_ne_some.mpr fun j hj => ?_
        obtain ⟨n, -, ⟨e, he, hbegins'⟩, hcount', hlabels⟩ := (seekPage?_eq_some (by omega)).mp hj
        rw [List.getElem?_drop] at he
        -- the page begins at one place only, so the label lies before what was found
        have hplace : s.boundaries m (m + 1 + n) + 1 = s.boundaries m (m + 1 + n + 1) := by
          rw [s.boundaries_succ (by omega) he, hbegins', if_pos rfl]
        have hbefore : s.boundaries m (m + 1 + n) =
            ((s.commands.drop (m + 1)).take n).countP Command.beginsPage := by
          rw [boundaries, drop_take_eq, Nat.add_sub_cancel_left]
        have hsame : i + 1 = m + 1 + n + 1 :=
          hstart.unique (pageStart_succ (by omega) he hbegins') hmj (by omega) (by omega)
        have hmem : d ∈ (s.commands.drop (m + 1)).take (n + 1) := by
          rw [show n + 1 = i + 1 - (m + 1) by omega, ← drop_take_eq]
          exact mem_between.mpr ⟨k, hmk, hki, hd⟩
        cases hdl.symm.trans (hlabels d hmem)
      rw [hnone]

/-- From a label's command to a place in its section, the page that has begun last is found:
    behind the command that began it, or at the label if none has begun. -/
theorem seek_boundaries {s : Scenario} (hs : s.Compiled) {l : String} {m i : Nat}
    (hl : s.labelIndex? l = some m) (hmi : m < i)
    (hsection : ∀ k c, m < k → k < i → s.commands[k]? = some c → c.label? = none) :
    ∃ j, s.seek l (s.boundaries m i) = .ok j ∧ m ≤ j ∧ j ≤ i ∧
      (s.boundaries m i = 0 ∧ j = m ∨
        m + 1 < j ∧ ∃ c, s.commands[j - 1]? = some c ∧ c.beginsPage = true) ∧
      ∀ k c, j ≤ k → k < i → s.commands[k]? = some c → c.beginsPage = false := by
  obtain ⟨j, hmj, hji, hstart, hcount, hnone⟩ := exists_pageStart (s := s) (Nat.le_of_lt hmi)
  have hfound : s.seek l (s.boundaries m i) = .ok j := by
    rw [← hcount]
    exact (seek_of_pageStart hl hmj hstart).1 fun k c hmk hkj hc =>
      hsection k c hmk (Nat.lt_of_lt_of_le hkj hji) hc
  refine ⟨j, hfound, hmj, hji, ?_, fun k c hjk hki hc => ?_⟩
  · rcases Nat.eq_or_lt_of_le hmj with rfl | hlt
    · exact Or.inl ⟨by rw [← hcount, s.boundaries_of_le (Nat.le_succ m)], rfl⟩
    · obtain ⟨k, c, rfl, hmk, hc, hbegins, -⟩ := hstart.begins hlt
      exact Or.inr ⟨by omega, c, hc, hbegins⟩
  · rcases Nat.eq_or_lt_of_le (Nat.le_trans hmj hjk) with rfl | hlt
    · obtain ⟨⟨d, hd, hdl⟩, -⟩ := hs.labelIndex?_eq_some.mp hl
      obtain rfl : d = c := Option.some.inj (hd.symm.trans hc)
      exact not_beginsPage_of_label hdl
    · exact hnone k c hjk hlt hki hc

/-- Between a label and a page of it that is found lies no other label. -/
theorem label?_of_seek {s : Scenario} {l : String} {m : Nat} (hl : s.labelIndex? l = some m)
    {page : Int} {j : Nat} (hj : s.seek l page = .ok j) {k : Nat} {c : Command} (hmk : m < k)
    (hkj : k < j) (hc : s.commands[k]? = some c) : c.label? = none := by
  obtain ⟨hmj, hcount, hstart⟩ := boundaries_of_seek hl hj
  cases hcl : c.label? with
  | none => rfl
  | some l' =>
    have hlost := (seek_of_pageStart hl hmj hstart).2 k c l' hmk hkj hc hcl
    have hpos := hstart m (Nat.le_refl m) (by omega)
    rw [show (s.boundaries m j : Int) = page by omega, hj] at hlost
    cases hlost

end VisualNovel.Scenario
