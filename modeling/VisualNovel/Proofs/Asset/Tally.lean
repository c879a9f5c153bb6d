import Mathlib.Algebra.Ring.Nat
import Mathlib.Tactic.ByContra
import Mathlib.Tactic.Tauto
import VisualNovel.Asset.Ledger
import VisualNovel.Proofs.Entries

/-
  Counts by key. A tally that is built up from nothing has each key once and no count of zero,
  so that a key is counted exactly if it stands in the list, and taking one from a count takes
  it from that key alone. `sumWhere` adds up the counts of some of the keys.
-/

namespace VisualNovel.Asset.Tally

variable {α : Type}

/-- Each key stands once, and no count is zero. -/
structure Sound (t : Tally α) : Prop where
  nodup : t.keys.Nodup
  pos : ∀ e ∈ t.entries, 0 < e.2

/-- The sum of the counts of the keys with a property. -/
def sumWhere (f : α → Bool) (t : Tally α) : Nat :=
  ((t.entries.filter fun e => f e.1).map Prod.snd).sum

theorem sound_empty : (⟨[]⟩ : Tally α).Sound := ⟨List.nodup_nil, by simp⟩

theorem sumWhere_cons (f : α → Bool) (k : α) (n : Nat) (rest : List (α × Nat)) :
    (⟨(k, n) :: rest⟩ : Tally α).sumWhere f =
      (if f k then n else 0) + (⟨rest⟩ : Tally α).sumWhere f := by
  by_cases h : f k <;> simp [sumWhere, h]

/-- A tally is sound if its first entry is fit and the rest is sound. -/
theorem sound_cons {k : α} {n : Nat} {rest : List (α × Nat)} :
    (⟨(k, n) :: rest⟩ : Tally α).Sound ↔
      0 < n ∧ k ∉ (⟨rest⟩ : Tally α).keys ∧ (⟨rest⟩ : Tally α).Sound := by
  constructor
  · rintro ⟨hd, hp⟩
    simp only [keys, List.map_cons, List.nodup_cons] at hd
    exact ⟨hp (k, n) (by simp), hd.1, hd.2, fun e he => hp e (by simp [he])⟩
  · rintro ⟨hn, hk, hd, hp⟩
    refine ⟨by simpa [keys] using ⟨by simpa [keys] using hk, hd⟩, ?_⟩
    intro e he
    rcases List.mem_cons.mp he with rfl | he
    · exact hn
    · exact hp e he

variable [DecidableEq α]

theorem count_cons (k key : α) (n : Nat) (rest : List (α × Nat)) :
    (⟨(k, n) :: rest⟩ : Tally α).count key =
      if key = k then n else (⟨rest⟩ : Tally α).count key := by
  rw [count, Entries.lookup_cons_ite]
  split <;> rfl

theorem count_of_not_mem {t : Tally α} {k : α} (h : k ∉ t.keys) : t.count k = 0 := by
  obtain ⟨entries⟩ := t
  induction entries with
  | nil => rfl
  | cons e rest ih =>
    obtain ⟨k', n⟩ := e
    simp only [keys, List.map_cons, List.mem_cons, not_or] at h
    rw [count_cons, if_neg h.1]
    exact ih h.2

theorem count_pos_iff {t : Tally α} (ht : t.Sound) (k : α) : 0 < t.count k ↔ k ∈ t.keys := by
  constructor
  · intro h
    by_contra hk
    rw [count_of_not_mem hk] at h
    exact Nat.lt_irrefl 0 h
  · intro hk
    obtain ⟨entries⟩ := t
    induction entries with
    | nil => simp [keys] at hk
    | cons e rest ih =>
      obtain ⟨k', n⟩ := e
      obtain ⟨hn, -, hrest⟩ := sound_cons.mp ht
      rw [count_cons]
      split
      · exact hn
      · rename_i hne
        simp only [keys, List.map_cons, List.mem_cons] at hk
        exact ih hrest (hk.resolve_left hne)

theorem count_of_mem {t : Tally α} (ht : t.Sound) {e : α × Nat} (he : e ∈ t.entries) :
    t.count e.1 = e.2 := by
  obtain ⟨entries⟩ := t
  induction entries with
  | nil => cases he
  | cons d rest ih =>
    obtain ⟨k, n⟩ := d
    obtain ⟨-, hk, hrest⟩ := sound_cons.mp ht
    rw [count_cons]
    rcases List.mem_cons.mp he with rfl | he
    · exact if_pos rfl
    · rw [if_neg fun heq : e.1 = k => hk (heq ▸ List.mem_map_of_mem he)]
      exact ih hrest he

/-- Nothing is counted if every count is zero. -/
theorem keys_eq_nil {t : Tally α} (ht : t.Sound) (h : ∀ k, t.count k = 0) : t.keys = [] := by
  refine List.eq_nil_iff_forall_not_mem.mpr fun k hk => ?_
  have := (count_pos_iff ht k).mpr hk
  have := h k
  omega

/-! ## Counting once more -/

theorem mem_keys_add (t : Tally α) (key k : α) : k ∈ (t.add key).keys ↔ k ∈ t.keys ∨ k = key := by
  obtain ⟨entries⟩ := t
  induction entries with
  | nil => simp [add, addTo, keys]
  | cons e rest ih =>
    obtain ⟨k', n⟩ := e
    simp only [add, keys] at ih
    simp only [add, addTo, keys]
    split
    · rename_i h
      subst h
      simp only [List.map_cons, List.mem_cons]
      tauto
    · simp only [List.map_cons, List.mem_cons, ih]
      tauto

theorem Sound.add {t : Tally α} (ht : t.Sound) (key : α) : (t.add key).Sound := by
  obtain ⟨entries⟩ := t
  induction entries with
  | nil => exact sound_cons.mpr ⟨Nat.one_pos, by simp [keys], sound_empty⟩
  | cons e rest ih =>
    obtain ⟨k', n⟩ := e
    obtain ⟨hn, hk, hrest⟩ := sound_cons.mp ht
    simp only [Tally.add, addTo]
    split
    · exact sound_cons.mpr ⟨Nat.succ_pos _, hk, hrest⟩
    · rename_i hne
      refine sound_cons.mpr ⟨hn, fun h => ?_, ih hrest⟩
      rcases (mem_keys_add ⟨rest⟩ key k').mp h with h | h
      · exact hk h
      · exact hne h

theorem count_add (t : Tally α) (key k : α) :
    (t.add key).count k = t.count k + if k = key then 1 else 0 := by
  obtain ⟨entries⟩ := t
  induction entries with
  | nil =>
    simp only [add, addTo, count_cons]
    exact (Nat.zero_add _).symm
  | cons e rest ih =>
    obtain ⟨k', n⟩ := e
    simp only [add] at ih
    simp only [add, addTo]
    split
    · rename_i h
      subst h
      simp only [count_cons]
      split <;> omega
    · rename_i hne
      simp only [count_cons, ih]
      split
      · rename_i h
        rw [if_neg (fun hk => hne (h ▸ hk))]
        omega
      · rfl

theorem sumWhere_add (f : α → Bool) (t : Tally α) (key : α) :
    (t.add key).sumWhere f = t.sumWhere f + if f key then 1 else 0 := by
  obtain ⟨entries⟩ := t
  induction entries with
  | nil =>
    simp only [add, addTo, sumWhere_cons]
    exact Nat.add_comm _ _
  | cons e rest ih =>
    obtain ⟨k', n⟩ := e
    simp only [add] at ih
    simp only [add, addTo]
    split
    · rename_i h
      subst h
      simp only [sumWhere_cons]
      split <;> omega
    · simp only [sumWhere_cons, ih]
      omega

/-! ## Counting once less -/

theorem keys_take_subset (t : Tally α) (key k : α) (h : k ∈ (t.take key).keys) : k ∈ t.keys := by
  obtain ⟨entries⟩ := t
  induction entries with
  | nil => exact h
  | cons e rest ih =>
    obtain ⟨k', n⟩ := e
    simp only [take, takeFrom, keys] at h
    simp only [take, keys] at ih
    simp only [keys, List.map_cons, List.mem_cons]
    split at h
    · split at h
      · exact Or.inr h
      · simpa using h
    · rcases List.mem_cons.mp h with h | h
      · exact Or.inl h
      · exact Or.inr (ih h)

theorem Sound.take {t : Tally α} (ht : t.Sound) (key : α) : (t.take key).Sound := by
  obtain ⟨entries⟩ := t
  induction entries with
  | nil => exact ht
  | cons e rest ih =>
    obtain ⟨k', n⟩ := e
    obtain ⟨hn, hk, hrest⟩ := sound_cons.mp ht
    simp only [Tally.take, takeFrom]
    split
    · split
      · exact hrest
      · exact sound_cons.mpr ⟨by omega, hk, hrest⟩
    · exact sound_cons.mpr ⟨hn, fun h => hk (keys_take_subset ⟨rest⟩ key k' h), ih hrest⟩

theorem count_take {t : Tally α} (ht : t.Sound) (key k : α) :
    (t.take key).count k = t.count k - if k = key then 1 else 0 := by
  obtain ⟨entries⟩ := t
  induction entries with
  | nil => simp [take, takeFrom, count]
  | cons e rest ih =>
    obtain ⟨k', n⟩ := e
    obtain ⟨hn, hk, hrest⟩ := sound_cons.mp ht
    simp only [take] at ih
    simp only [take, takeFrom]
    split
    · rename_i h
      subst h
      have hzero : (⟨rest⟩ : Tally α).count k' = 0 := count_of_not_mem hk
      split
      · simp only [count_cons]
        split
        · rename_i h
          rw [h, hzero]
          omega
        · rfl
      · simp only [count_cons]
        split <;> omega
    · rename_i hne
      simp only [count_cons, ih hrest]
      split
      · rename_i h
        rw [if_neg (fun hk => hne (h ▸ hk))]
        omega
      · rfl

theorem sumWhere_take (f : α → Bool) {t : Tally α} (ht : t.Sound) {key : α}
    (hkey : 0 < t.count key) :
    (t.take key).sumWhere f + (if f key then 1 else 0) = t.sumWhere f := by
  obtain ⟨entries⟩ := t
  induction entries with
  | nil => simp [count] at hkey
  | cons e rest ih =>
    obtain ⟨k', n⟩ := e
    obtain ⟨hn, hk, hrest⟩ := sound_cons.mp ht
    simp only [take] at ih
    simp only [take, takeFrom]
    split
    · rename_i h
      subst h
      split
      · simp only [sumWhere_cons]
        split <;> omega
      · simp only [sumWhere_cons]
        split <;> omega
    · rename_i hne
      rw [count_cons, if_neg (fun h => hne h.symm)] at hkey
      simp only [sumWhere_cons, ← ih hrest hkey]
      omega

/-- A count is part of every sum that its key belongs to. -/
theorem count_le_sumWhere {f : α → Bool} {t : Tally α} {k : α} (hf : f k) :
    t.count k ≤ t.sumWhere f := by
  obtain ⟨entries⟩ := t
  induction entries with
  | nil => simp [count]
  | cons e rest ih =>
    obtain ⟨k', n⟩ := e
    rw [count_cons, sumWhere_cons]
    split
    · rename_i h
      subst h
      rw [if_pos hf]
      omega
    · omega

theorem sumWhere_eq_zero {f : α → Bool} {t : Tally α} (h : ∀ k, f k → t.count k = 0)
    (ht : t.Sound) : t.sumWhere f = 0 := by
  have hfilter : (t.entries.filter fun e => f e.1) = [] := by
    refine List.filter_eq_nil_iff.mpr fun e he hf => ?_
    have hmem : e.1 ∈ t.keys := List.mem_map_of_mem he
    have := (count_pos_iff ht e.1).mpr hmem
    have := h e.1 hf
    omega
  simp [sumWhere, hfilter]

end VisualNovel.Asset.Tally
