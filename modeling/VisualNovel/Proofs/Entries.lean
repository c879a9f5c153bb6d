import Mathlib.Data.List.Basic

/-
  Lists of entries, which are looked up by their keys. The first entry of a key counts; where no
  key comes twice, an entry is in the list if and only if it is found under its key.
-/

namespace VisualNovel.Entries

/-! ## Keys -/

theorem head?_eraseDups {α : Type} [BEq α] (keys : List α) :
    keys.eraseDups.head? = keys.head? := by
  cases keys with
  | nil => rfl
  | cons key keys => rw [List.eraseDups_cons]; rfl

/-- A key that is put behind others is new or comes again. -/
theorem eraseDups_concat {α : Type} [BEq α] [LawfulBEq α] (keys : List α) (key : α) :
    (keys ++ [key]).eraseDups =
      if key ∈ keys then keys.eraseDups else keys.eraseDups ++ [key] := by
  rw [List.eraseDups_append]
  split <;> rename_i h <;> simp [List.removeAll, List.eraseDups_cons, h]

/-! ## Entries -/

variable {α β : Type} [BEq α] [LawfulBEq α] [DecidableEq α]

theorem lookup_cons_ite (key k : α) (v : β) (entries : List (α × β)) :
    ((k, v) :: entries).lookup key = if key = k then some v else entries.lookup key := by
  rw [List.lookup_cons]
  by_cases h : key = k
  · simp [h]
  · rw [beq_false_of_ne h, if_neg h]

theorem lookup_map_key (keys : List α) (f : α → β) (key : α) :
    (keys.map fun k => (k, f k)).lookup key = if key ∈ keys then some (f key) else none := by
  induction keys with
  | nil => rfl
  | cons k keys ih =>
    rw [List.map_cons, lookup_cons_ite, ih]
    by_cases h : key = k <;> simp [h]

/-- Dropping the entries of a key leaves those of every other key. -/
theorem lookup_filter_ne {p : α × β → Bool} {key : α} (hp : ∀ e, p e = true ↔ e.1 ≠ key)
    (entries : List (α × β)) (other : α) :
    (entries.filter p).lookup other = if other = key then none else entries.lookup other := by
  induction entries with
  | nil => simp
  | cons e entries ih =>
    obtain ⟨k, v⟩ := e
    by_cases hk : k = key
    · rw [List.filter_cons_of_neg fun h => (hp (k, v)).mp h hk, ih, lookup_cons_ite, hk]
      split <;> rfl
    · rw [List.filter_cons_of_pos ((hp (k, v)).mpr hk), lookup_cons_ite, lookup_cons_ite, ih]
      by_cases hother : other = k
      · rw [if_pos hother, if_pos hother, if_neg (hother ▸ hk)]
      · rw [if_neg hother, if_neg hother]

/-- Where no key comes twice, the entries are those that are found. -/
theorem mem_iff_lookup {entries : List (α × β)} (h : (entries.map Prod.fst).Nodup) (key : α)
    (v : β) : (key, v) ∈ entries ↔ entries.lookup key = some v := by
  induction entries with
  | nil => simp
  | cons e entries ih =>
    obtain ⟨k, w⟩ := e
    rw [List.map_cons, List.nodup_cons] at h
    rw [List.mem_cons, ih h.2, lookup_cons_ite]
    by_cases hk : key = k
    · subst hk
      have hnone : entries.lookup key ≠ some v := fun hfound =>
        h.1 (List.mem_map.mpr ⟨(key, v), (ih h.2).mpr hfound, rfl⟩)
      simp [hnone, eq_comm]
    · simp [hk]

end VisualNovel.Entries
