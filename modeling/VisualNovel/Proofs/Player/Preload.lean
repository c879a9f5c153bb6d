import Mathlib.Data.List.Nodup
import VisualNovel.Player.Preload
import VisualNovel.Proofs.Asset.Ledger

/-
  The uses of the window of assets that are loaded ahead. The window has each asset once and at
  most `cap` of them, and an update that finds one use for each asset of the old window leaves
  one use for each of the new window and touches no other owner (`ownerCount_update`).
-/

namespace VisualNovel.Player

open Asset

theorem firstDistinct_nodup (cap : Nat) (hs : List Handle) {wanted : List Handle}
    (hw : wanted.Nodup) : (firstDistinct cap wanted hs).Nodup := by
  induction hs generalizing wanted with
  | nil => exact hw
  | cons h hs ih =>
    unfold firstDistinct
    split
    · exact hw
    · refine ih ?_
      split
      · exact hw
      · rename_i hnew
        exact hw.append (List.nodup_singleton h) (by simpa using hnew)

theorem firstDistinct_length (cap : Nat) (hs : List Handle) {wanted : List Handle}
    (hw : wanted.length ≤ cap) : (firstDistinct cap wanted hs).length ≤ cap := by
  induction hs generalizing wanted with
  | nil => exact hw
  | cons h hs ih =>
    unfold firstDistinct
    split
    · exact hw
    · refine ih ?_
      split
      · exact hw
      · simp only [List.length_append, List.length_singleton]
        omega

theorem count_filter_eq (hs : List Handle) (f : Handle → Bool) (h : Handle) :
    (hs.filter f).count h = if f h then hs.count h else 0 := by
  by_cases hf : f h = true
  · rw [if_pos hf, List.count_filter hf]
  · rw [if_neg hf]
    exact List.count_eq_zero.mpr fun hmem => hf (List.mem_filter.mp hmem).2

namespace PreloadWindow

variable {ℓ : Type} [Loader ℓ]

theorem update_nodup (w : PreloadWindow) (upcoming : List Handle) (l : Ledger ℓ) :
    (w.update upcoming l).1.held.Nodup := firstDistinct_nodup _ _ List.nodup_nil

theorem update_length (w : PreloadWindow) (upcoming : List Handle) (l : Ledger ℓ) :
    (w.update upcoming l).1.held.length ≤ w.cap := firstDistinct_length _ _ (Nat.zero_le _)

theorem sound_update (w : PreloadWindow) (upcoming : List Handle) {l : Ledger ℓ} (hl : l.Sound) :
    (w.update upcoming l).2.1.Sound := (hl.releases _ _).addUses _ _

/-- The window's owner has one use of each asset of the new window, as it had of the old one. -/
theorem ownerCount_update (w : PreloadWindow) (upcoming : List Handle) {l : Ledger ℓ}
    (hl : l.Sound) (hw : w.held.Nodup) (huses : ∀ h, l.ownerCount h .preload = w.held.count h)
    (h : Handle) (o : Owner) :
    (w.update upcoming l).2.1.ownerCount h o =
      if o = .preload then (w.update upcoming l).1.held.count h else l.ownerCount h o := by
  have hnew := w.update_nodup upcoming l
  simp only [update] at hnew ⊢
  rw [Ledger.ownerCount_addUses, Ledger.ownerCount_releases hl]
  by_cases ho : o = .preload
  · subst ho
    simp only [if_true, huses, count_filter_eq]
    have hold := List.nodup_iff_count_le_one.mp hw h
    have hone := List.nodup_iff_count_le_one.mp hnew h
    by_cases hin : h ∈ w.held <;> by_cases hwant : h ∈ firstDistinct w.cap [] upcoming
    · have := List.count_pos_iff.mpr hin
      have := List.count_pos_iff.mpr hwant
      simp [hin, hwant]
      omega
    · simp [hin, hwant, List.count_eq_zero.mpr hwant]
    · simp [hin, hwant, List.count_eq_zero.mpr hin]
    · simp [hin, hwant, List.count_eq_zero.mpr hin, List.count_eq_zero.mpr hwant]
  · simp [ho]

theorem told_update (w : PreloadWindow) (upcoming : List Handle) (l : Ledger ℓ) :
    l.Told (w.update upcoming l).2 :=
  (Ledger.told_releases .preload _ l).append (Ledger.told_addUses .preload _ _)

theorem alternate_update (w : PreloadWindow) (upcoming : List Handle) {l : Ledger ℓ}
    (hl : l.Sound) (k : Handle) :
    Alternate k (l.inUse k) (w.update upcoming l).2.2 ((w.update upcoming l).2.1.inUse k) :=
  alternate_append.mpr
    ⟨_, Ledger.alternate_releases hl .preload _ k, Ledger.alternate_addUses .preload _ _ k⟩

end PreloadWindow

end VisualNovel.Player
