import Mathlib.Data.List.Count
import VisualNovel.Proofs.Asset.Tally

/-
  The ledger after any number of uses and releases. `Ledger.Sound`: no count is zero, and the
  total of an asset is the sum of the uses of all owners. A use adds one to the count of its
  owner, a release takes one from it if there is one, and neither touches another count
  (`ownerCount_addUse`, `ownerCount_release`). The calls to the loader alternate for each asset,
  and after them the asset is loaded exactly if somebody uses it (`alternate_addUse`,
  `alternate_release`).
-/

namespace VisualNovel.Asset

/-! ## Calls that alternate -/

/-- Whether an asset is loaded after a call, seen from before it; a load of an asset that is
    loaded and an unload of one that is not are out of turn. -/
def LoaderCall.follow (h : Handle) (loaded : Bool) : LoaderCall → Option Bool
  | load k => if k = h then (if loaded then none else some true) else some loaded
  | unload k => if k = h then (if loaded then some false else none) else some loaded

/-- The calls for an asset are loads and unloads in turn; they begin where it is loaded or not as
    `before` says, and end where it is as `after` says. -/
def Alternate (h : Handle) (before : Bool) (calls : List LoaderCall) (after : Bool) : Prop :=
  calls.foldlM (LoaderCall.follow h) before = some after

theorem alternate_nil (h : Handle) (b : Bool) : Alternate h b [] b := rfl

theorem alternate_cons {h : Handle} {b b' : Bool} {c : LoaderCall} {calls : List LoaderCall} :
    Alternate h b (c :: calls) b' ↔ ∃ m, c.follow h b = some m ∧ Alternate h m calls b' := by
  simp only [Alternate, List.foldlM_cons]
  exact Option.bind_eq_some_iff

theorem alternate_append {h : Handle} {b b' : Bool} {xs ys : List LoaderCall} :
    Alternate h b (xs ++ ys) b' ↔ ∃ m, Alternate h b xs m ∧ Alternate h m ys b' := by
  simp only [Alternate, List.foldlM_append]
  exact Option.bind_eq_some_iff

/-- An asset that is not loaded before calls that alternate was loaded as often as it was
    unloaded, or once more if it stays loaded. -/
theorem Alternate.count_eq {h : Handle} {b b' : Bool} {calls : List LoaderCall}
    (ha : Alternate h b calls b') :
    calls.count (.load h) + b.toNat = calls.count (.unload h) + b'.toNat := by
  induction calls generalizing b with
  | nil =>
    cases ha
    simp
  | cons c calls ih =>
    obtain ⟨m, hm, hrest⟩ := alternate_cons.mp ha
    have hcount := ih hrest
    cases c with
    | load k =>
      by_cases hk : k = h
      · subst hk
        cases b with
        | false =>
          obtain rfl : true = m := by simpa [LoaderCall.follow] using hm
          simp at hcount ⊢
          omega
        | true => simp [LoaderCall.follow] at hm
      · obtain rfl : b = m := by simpa [LoaderCall.follow, hk] using hm
        simpa [List.count_cons, hk] using hcount
    | unload k =>
      by_cases hk : k = h
      · subst hk
        cases b with
        | false => simp [LoaderCall.follow] at hm
        | true =>
          obtain rfl : false = m := by simpa [LoaderCall.follow] using hm
          simp at hcount ⊢
          omega
      · obtain rfl : b = m := by simpa [LoaderCall.follow, hk] using hm
        simpa [List.count_cons, hk] using hcount

/-- Of calls that alternate, each beginning alternates too. -/
theorem Alternate.of_prefix {h : Handle} {b b' : Bool} {xs calls : List LoaderCall}
    (ha : Alternate h b calls b') (hp : xs <+: calls) : ∃ m, Alternate h b xs m := by
  obtain ⟨ys, rfl⟩ := hp
  obtain ⟨m, hxs, -⟩ := alternate_append.mp ha
  exact ⟨m, hxs⟩

namespace Ledger

variable {ℓ : Type}

/-! ## Counts -/

/-- The sum of the uses of an asset over all owners. -/
def usesOf (l : Ledger ℓ) (h : Handle) : Nat := l.uses.sumWhere fun k => decide (k.1 = h)

/-- No count is zero, and totals are sums over owners. -/
structure Sound (l : Ledger ℓ) : Prop where
  uses : l.uses.Sound
  totals : l.totals.Sound
  useCount_eq : ∀ h, l.useCount h = l.usesOf h

theorem sound_ofLoader (loader : ℓ) : (ofLoader loader).Sound :=
  ⟨Tally.sound_empty, Tally.sound_empty, fun _ => rfl⟩

/-- Nothing depends on the loader but its state. -/
theorem Sound.withLoader {l : Ledger ℓ} (hl : l.Sound) (loader : ℓ) :
    { l with loader }.Sound := ⟨hl.uses, hl.totals, hl.useCount_eq⟩

theorem Sound.ownerCount_le {l : Ledger ℓ} (hl : l.Sound) (h : Handle) (owner : Owner) :
    l.ownerCount h owner ≤ l.useCount h := by
  rw [hl.useCount_eq]
  exact Tally.count_le_sumWhere (by simp)

/-- An asset that no owner uses is not in use. -/
theorem Sound.useCount_eq_zero {l : Ledger ℓ} (hl : l.Sound) {h : Handle}
    (hnone : ∀ owner, l.ownerCount h owner = 0) : l.useCount h = 0 := by
  rw [hl.useCount_eq]
  refine Tally.sumWhere_eq_zero (fun k hk => ?_) hl.uses
  obtain rfl : k.1 = h := by simpa using hk
  exact hnone k.2

/-- A ledger without uses is as new. -/
theorem Sound.eq_ofLoader {l : Ledger ℓ} (hl : l.Sound)
    (hnone : ∀ h owner, l.ownerCount h owner = 0) : l = ofLoader l.loader := by
  have huses := List.map_eq_nil_iff.mp (Tally.keys_eq_nil hl.uses fun k => hnone k.1 k.2)
  have htotals := List.map_eq_nil_iff.mp
    (Tally.keys_eq_nil hl.totals fun h => hl.useCount_eq_zero (hnone h))
  obtain ⟨loader, ⟨uses⟩, ⟨totals⟩⟩ := l
  cases huses
  cases htotals
  rfl

variable [Loader ℓ]

theorem addUse_ledger (l : Ledger ℓ) (h : Handle) (owner : Owner) :
    ∃ loader, (l.addUse h owner).1 =
      { loader, uses := l.uses.add (h, owner), totals := l.totals.add h } := by
  unfold addUse
  dsimp only
  split
  · exact ⟨_, rfl⟩
  · exact ⟨_, rfl⟩

theorem release_ledger (l : Ledger ℓ) (h : Handle) (owner : Owner)
    (hu : 0 < l.ownerCount h owner) :
    ∃ loader, (l.release h owner).1 =
      { loader, uses := l.uses.take (h, owner), totals := l.totals.take h } := by
  unfold release
  rw [if_neg (by omega)]
  dsimp only
  split
  · exact ⟨_, rfl⟩
  · exact ⟨_, rfl⟩

/-- A release that no use stands against changes nothing and calls nobody. -/
theorem release_of_unused (l : Ledger ℓ) (h : Handle) (owner : Owner)
    (hu : l.ownerCount h owner = 0) : l.release h owner = (l, []) := by
  unfold release
  rw [if_pos hu]

theorem ownerCount_addUse (l : Ledger ℓ) (h : Handle) (owner : Owner) (k : Handle) (o : Owner) :
    (l.addUse h owner).1.ownerCount k o =
      l.ownerCount k o + if k = h ∧ o = owner then 1 else 0 := by
  obtain ⟨loader, hl⟩ := l.addUse_ledger h owner
  simp only [hl, ownerCount, Tally.count_add, Prod.mk.injEq]

theorem useCount_addUse (l : Ledger ℓ) (h : Handle) (owner : Owner) (k : Handle) :
    (l.addUse h owner).1.useCount k = l.useCount k + if k = h then 1 else 0 := by
  obtain ⟨loader, hl⟩ := l.addUse_ledger h owner
  simp only [hl, useCount, Tally.count_add]

theorem Sound.addUse {l : Ledger ℓ} (hl : l.Sound) (h : Handle) (owner : Owner) :
    (l.addUse h owner).1.Sound := by
  obtain ⟨loader, heq⟩ := l.addUse_ledger h owner
  rw [heq]
  refine ⟨hl.uses.add _, hl.totals.add _, fun k => ?_⟩
  have hk := hl.useCount_eq k
  simp only [useCount, usesOf] at hk ⊢
  rw [Tally.count_add, Tally.sumWhere_add, hk]
  by_cases hkh : k = h
  · simp [hkh]
  · have hhk : ¬h = k := fun e => hkh e.symm
    simp [hkh, hhk]

theorem ownerCount_release {l : Ledger ℓ} (hl : l.Sound) (h : Handle) (owner : Owner)
    (k : Handle) (o : Owner) :
    (l.release h owner).1.ownerCount k o =
      l.ownerCount k o - if k = h ∧ o = owner then 1 else 0 := by
  rcases Nat.eq_zero_or_pos (l.ownerCount h owner) with hu | hu
  · rw [l.release_of_unused h owner hu]
    split
    · rename_i hk
      rw [hk.1, hk.2, hu]
    · rfl
  · obtain ⟨loader, heq⟩ := l.release_ledger h owner hu
    simp only [heq, ownerCount, Tally.count_take hl.uses, Prod.mk.injEq]

theorem useCount_release {l : Ledger ℓ} (hl : l.Sound) (h : Handle) (owner : Owner) (k : Handle) :
    (l.release h owner).1.useCount k =
      l.useCount k - if k = h ∧ 0 < l.ownerCount h owner then 1 else 0 := by
  rcases Nat.eq_zero_or_pos (l.ownerCount h owner) with hu | hu
  · rw [l.release_of_unused h owner hu, if_neg (by omega)]
    rfl
  · obtain ⟨loader, heq⟩ := l.release_ledger h owner hu
    simp only [heq, useCount, Tally.count_take hl.totals, hu, and_true]

theorem Sound.release {l : Ledger ℓ} (hl : l.Sound) (h : Handle) (owner : Owner) :
    (l.release h owner).1.Sound := by
  rcases Nat.eq_zero_or_pos (l.ownerCount h owner) with hu | hu
  · rw [l.release_of_unused h owner hu]
    exact hl
  · obtain ⟨loader, heq⟩ := l.release_ledger h owner hu
    rw [heq]
    refine ⟨hl.uses.take _, hl.totals.take _, fun k => ?_⟩
    have hk := hl.useCount_eq k
    have hsum := Tally.sumWhere_take (fun e : Handle × Owner => decide (e.1 = k)) hl.uses hu
    simp only [useCount, usesOf] at hk ⊢
    rw [Tally.count_take hl.totals, hk]
    by_cases hkh : k = h
    · subst hkh
      simp at hsum ⊢
      omega
    · have hhk : ¬h = k := fun e => hkh e.symm
      simp [hkh, hhk] at hsum ⊢
      omega

/-! ## Loads and unloads in turn -/

/-- Whether an asset is in use. -/
def inUse (l : Ledger ℓ) (h : Handle) : Bool := decide (0 < l.useCount h)

theorem alternate_addUse (l : Ledger ℓ) (h : Handle) (owner : Owner) (k : Handle) :
    Alternate k (l.inUse k) (l.addUse h owner).2 ((l.addUse h owner).1.inUse k) := by
  have hk := l.useCount_addUse h owner k
  have hh := l.useCount_addUse h owner h
  rw [if_pos rfl] at hh
  have hcalls : (l.addUse h owner).2 = if l.useCount h = 0 then [.load h] else [] := by
    have htotal : (l.totals.add h).count h = l.totals.count h + 1 := by
      rw [Tally.count_add, if_pos rfl]
    unfold addUse useCount
    dsimp only
    rw [htotal]
    by_cases hu : l.totals.count h = 0 <;> simp [hu]
  rw [hcalls]
  unfold inUse
  rw [hk]
  by_cases hkh : k = h
  · subst hkh
    by_cases hu : l.useCount k = 0
    · simp [hu, Alternate, LoaderCall.follow]
    · have : 0 < l.useCount k := by omega
      simp [hu, this, Alternate]
  · have hhk : ¬h = k := fun e => hkh e.symm
    by_cases hu : l.useCount h = 0 <;> simp [hu, hkh, hhk, Alternate, LoaderCall.follow]

theorem alternate_release {l : Ledger ℓ} (hl : l.Sound) (h : Handle) (owner : Owner) (k : Handle) :
    Alternate k (l.inUse k) (l.release h owner).2 ((l.release h owner).1.inUse k) := by
  rcases Nat.eq_zero_or_pos (l.ownerCount h owner) with hu | hu
  · rw [l.release_of_unused h owner hu]
    exact alternate_nil k _
  · have hk := useCount_release hl h owner k
    have hpos : 0 < l.useCount h := Nat.lt_of_lt_of_le hu (hl.ownerCount_le h owner)
    have hcalls : (l.release h owner).2 = if l.useCount h = 1 then [.unload h] else [] := by
      have htotal : (l.totals.take h).count h = l.totals.count h - 1 := by
        rw [Tally.count_take hl.totals, if_pos rfl]
      unfold useCount at hpos ⊢
      unfold release useCount
      rw [if_neg (by omega)]
      dsimp only
      rw [htotal]
      by_cases h1 : l.totals.count h = 1
      · simp [h1]
      · rw [if_neg (by omega), if_neg h1]
    rw [hcalls]
    unfold inUse
    rw [hk]
    by_cases hkh : k = h
    · subst hkh
      by_cases h1 : l.useCount k = 1
      · simp [h1, hu, Alternate, LoaderCall.follow]
      · have : 0 < l.useCount k - 1 := by omega
        simp [h1, hpos, hu, this, Alternate]
    · have hhk : ¬h = k := fun e => hkh e.symm
      by_cases h1 : l.useCount h = 1 <;> simp [h1, hkh, hhk, Alternate, LoaderCall.follow]

/-! ## What the loader is told -/

/-- The loader gets the calls of an operation and no others. -/
def Told (l : Ledger ℓ) (r : Ledger ℓ × List LoaderCall) : Prop :=
  r.1.loader = r.2.foldl LoaderCall.run l.loader

theorem Told.append {l : Ledger ℓ} {r r' : Ledger ℓ × List LoaderCall} (hr : l.Told r)
    (hr' : r.1.Told r') : l.Told (r'.1, r.2 ++ r'.2) := by
  unfold Told at *
  rw [hr', hr, List.foldl_append]

theorem told_addUse (l : Ledger ℓ) (h : Handle) (owner : Owner) : l.Told (l.addUse h owner) := by
  unfold addUse
  dsimp only
  split <;> rfl

theorem told_release (l : Ledger ℓ) (h : Handle) (owner : Owner) :
    l.Told (l.release h owner) := by
  unfold release
  split
  · rfl
  · dsimp only
    split <;> rfl

/-! ## Many uses and releases -/

theorem told_addUses (owner : Owner) (hs : List Handle) (l : Ledger ℓ) :
    l.Told (l.addUses owner hs) := by
  induction hs generalizing l with
  | nil => rfl
  | cons h hs ih => exact (l.told_addUse h owner).append (ih _)

theorem told_releases (owner : Owner) (hs : List Handle) (l : Ledger ℓ) :
    l.Told (l.releases owner hs) := by
  induction hs generalizing l with
  | nil => rfl
  | cons h hs ih => exact (l.told_release h owner).append (ih _)

theorem ownerCount_addUses (owner : Owner) (hs : List Handle) (l : Ledger ℓ) (k : Handle)
    (o : Owner) :
    (l.addUses owner hs).1.ownerCount k o =
      l.ownerCount k o + if o = owner then hs.count k else 0 := by
  induction hs generalizing l with
  | nil => simp [addUses]
  | cons h hs ih =>
    simp only [addUses, ih, ownerCount_addUse, List.count_cons]
    by_cases ho : o = owner <;> by_cases hk : k = h
    · subst hk
      simp [ho]
      omega
    · have hhk : ¬h = k := fun e => hk e.symm
      simp [ho, hk, hhk]
    · simp [ho]
    · simp [ho]

theorem Sound.addUses {l : Ledger ℓ} (hl : l.Sound) (owner : Owner) (hs : List Handle) :
    (l.addUses owner hs).1.Sound := by
  induction hs generalizing l with
  | nil => exact hl
  | cons h hs ih => exact ih (hl.addUse h owner)

theorem alternate_addUses (owner : Owner) (hs : List Handle) (l : Ledger ℓ) (k : Handle) :
    Alternate k (l.inUse k) (l.addUses owner hs).2 ((l.addUses owner hs).1.inUse k) := by
  induction hs generalizing l with
  | nil => exact alternate_nil k _
  | cons h hs ih => exact alternate_append.mpr ⟨_, l.alternate_addUse h owner k, ih _⟩

theorem ownerCount_releases {l : Ledger ℓ} (hl : l.Sound) (owner : Owner) (hs : List Handle)
    (k : Handle) (o : Owner) :
    (l.releases owner hs).1.ownerCount k o =
      l.ownerCount k o - if o = owner then hs.count k else 0 := by
  induction hs generalizing l with
  | nil => simp [releases]
  | cons h hs ih =>
    simp only [releases, ih (hl.release h owner), ownerCount_release hl, List.count_cons]
    by_cases ho : o = owner <;> by_cases hk : k = h
    · subst hk
      simp [ho]
      omega
    · have hhk : ¬h = k := fun e => hk e.symm
      simp [ho, hk, hhk]
    · simp [ho]
    · simp [ho]

theorem Sound.releases {l : Ledger ℓ} (hl : l.Sound) (owner : Owner) (hs : List Handle) :
    (l.releases owner hs).1.Sound := by
  induction hs generalizing l with
  | nil => exact hl
  | cons h hs ih => exact ih (hl.release h owner)

theorem alternate_releases {l : Ledger ℓ} (hl : l.Sound) (owner : Owner) (hs : List Handle)
    (k : Handle) :
    Alternate k (l.inUse k) (l.releases owner hs).2 ((l.releases owner hs).1.inUse k) := by
  induction hs generalizing l with
  | nil => exact alternate_nil k _
  | cons h hs ih =>
    exact alternate_append.mpr
      ⟨_, alternate_release hl h owner k, ih (hl.release h owner)⟩

end Ledger

end VisualNovel.Asset
