import Mathlib.Data.List.Nodup
import Mathlib.Data.List.Perm.Subperm
import VisualNovel.Proofs.Asset.Settling

/-
  The balance of a ledger. Whatever is used and released, by whom and how often, the total of an
  asset is what its owners use of it together, and no count that is kept is zero
  (`Sound.balanced`). A use counts its owner once more, a release that a use stands against counts
  it once less, and any other release does nothing (`raises_addUse`, `Sound.lowers_release`). The
  loader is asked for an asset and told to drop it in turn, and what it was asked for last is what
  is in use (`ledger_stays_balanced`).
-/

namespace VisualNovel.Asset

/-- What is done to a ledger. -/
inductive Operation where
  | addUse (handle : Handle) (owner : Owner)
  | release (handle : Handle) (owner : Owner)
  deriving Repr, DecidableEq

/-- The asset that is used or released. -/
def Operation.handle : Operation → Handle
  | addUse h _ => h
  | release h _ => h

/-! ## Calls in turn -/

/-- The calls for an asset, in order. -/
def callsFor (h : Handle) (calls : List LoaderCall) : List LoaderCall :=
  calls.filter fun c => c.handle = h

/-- The call that is next for an asset which is loaded, or is not. -/
def nextCall (h : Handle) (loaded : Bool) : LoaderCall := if loaded then .unload h else .load h

theorem nextCall_eq_load (h : Handle) (loaded : Bool) :
    (nextCall h loaded == .load h) = !loaded := by
  cases loaded <;> simp [nextCall]

/-- A call that is in its turn is the next one for its asset, and no matter for the others. -/
theorem LoaderCall.follow_eq_some {h : Handle} {b m : Bool} {c : LoaderCall} :
    c.follow h b = some m ↔ if c.handle = h then c = nextCall h b ∧ m = !b else m = b := by
  cases c with
  | load k | unload k =>
    by_cases hk : k = h
    · subst hk
      cases b <;> cases m <;> simp [follow, handle, nextCall]
    · simp [follow, handle, hk, eq_comm]

/-- Of calls that alternate, those for the asset are loads and unloads in turn. -/
theorem Alternate.getElem? {h : Handle} {b b' : Bool} {calls : List LoaderCall}
    (ha : Alternate h b calls b') {i : Nat} {c : LoaderCall}
    (hc : (callsFor h calls)[i]? = some c) :
    c = nextCall h (b ^^ decide (i % 2 = 1)) := by
  induction calls generalizing b i with
  | nil => cases hc
  | cons d calls ih =>
    obtain ⟨m, hm, hrest⟩ := alternate_cons.mp ha
    have hnext := LoaderCall.follow_eq_some.mp hm
    unfold callsFor at hc
    by_cases hd : d.handle = h
    · rw [if_pos hd] at hnext
      obtain ⟨rfl, rfl⟩ := hnext
      rw [List.filter_cons_of_pos (by simpa using hd)] at hc
      cases i with
      | zero =>
        obtain rfl := Option.some.inj hc
        simp
      | succ i =>
        have hturn : (!b ^^ decide (i % 2 = 1)) = (b ^^ decide ((i + 1) % 2 = 1)) := by
          have hparity : (i + 1) % 2 = 1 ↔ ¬i % 2 = 1 := by omega
          by_cases hi : i % 2 = 1 <;> simp [hparity, hi]
        rw [← hturn]
        exact ih hrest hc
    · rw [List.filter_cons_of_neg (by simpa using hd)] at hc
      rw [if_neg hd] at hnext
      exact hnext ▸ ih hrest hc

/-- Calls that alternate leave an asset as the last of them for it does. -/
theorem Alternate.getLast? {h : Handle} {b b' : Bool} {calls : List LoaderCall}
    (ha : Alternate h b calls b') : (callsFor h calls).getLast?.elim b (· == .load h) = b' := by
  induction calls generalizing b with
  | nil => exact Option.some.inj ha
  | cons d calls ih =>
    obtain ⟨m, hm, hrest⟩ := alternate_cons.mp ha
    have hnext := LoaderCall.follow_eq_some.mp hm
    rw [← ih hrest]
    unfold callsFor
    by_cases hd : d.handle = h
    · rw [if_pos hd] at hnext
      obtain ⟨rfl, rfl⟩ := hnext
      rw [List.filter_cons_of_pos (by simpa using hd), List.getLast?_cons]
      cases (calls.filter fun c => c.handle = h).getLast? with
      | none => exact nextCall_eq_load h b
      | some c => rfl
    · rw [if_neg hd] at hnext
      rw [List.filter_cons_of_neg (by simpa using hd), hnext]

namespace Ledger

variable {ℓ : Type}

/-! ## Owners -/

/-- The owners that use an asset. -/
def owners (l : Ledger ℓ) (h : Handle) : List Owner :=
  (l.uses.keys.filter fun k => k.1 = h).map Prod.snd

theorem Sound.nodup_owners {l : Ledger ℓ} (hl : l.Sound) (h : Handle) : (l.owners h).Nodup := by
  refine List.Nodup.map_on (fun k hk k' hk' hsame => ?_) (hl.uses.nodup.filter _)
  have hhandle : k.1 = h := by simpa using (List.mem_filter.mp hk).2
  have hhandle' : k'.1 = h := by simpa using (List.mem_filter.mp hk').2
  exact Prod.ext (hhandle.trans hhandle'.symm) hsame

theorem Sound.mem_owners {l : Ledger ℓ} (hl : l.Sound) (h : Handle) (o : Owner) :
    o ∈ l.owners h ↔ 0 < l.ownerCount h o := by
  rw [ownerCount, Tally.count_pos_iff hl.uses]
  simp [owners]

/-- The uses of an asset are those of its owners. -/
theorem Sound.useCount_eq_sum {l : Ledger ℓ} (hl : l.Sound) (h : Handle) :
    l.useCount h = ((l.owners h).map (l.ownerCount h)).sum := by
  rw [hl.useCount_eq, usesOf, Tally.sumWhere, owners, Tally.keys, List.filter_map, List.map_map,
    List.map_map]
  refine congrArg List.sum (List.map_congr_left fun e he => ?_)
  obtain ⟨hmem, hhandle⟩ := List.mem_filter.mp he
  have hkey : (h, e.1.2) = e.1 := Prod.ext (by simpa using (of_decide_eq_true hhandle).symm) rfl
  show e.2 = l.uses.count (h, e.1.2)
  rw [hkey, Tally.count_of_mem hl.uses hmem]

/-- An owner has no more assets than a list that has all of them. -/
theorem Sound.countOwnedBy_le {l : Ledger ℓ} (hl : l.Sound) {owner : Owner} {hs : List Handle}
    (hall : ∀ h, 0 < l.ownerCount h owner → h ∈ hs) : l.countOwnedBy owner ≤ hs.length := by
  let owned := l.uses.keys.filter fun k => k.2 = owner
  have howner : ∀ k ∈ owned, k.2 = owner := fun k hk => by simpa using (List.mem_filter.mp hk).2
  have hnodup : (owned.map Prod.fst).Nodup := by
    refine List.Nodup.map_on (fun k hk k' hk' hsame => ?_) (hl.uses.nodup.filter _)
    exact Prod.ext hsame ((howner k hk).trans (howner k' hk').symm)
  have hsubset : owned.map Prod.fst ⊆ hs := by
    intro h hh
    obtain ⟨k, hk, rfl⟩ := List.mem_map.mp hh
    refine hall k.1 ?_
    rw [← howner k hk]
    exact (Tally.count_pos_iff hl.uses k).mpr (List.mem_filter.mp hk).1
  have hlength := (List.subperm_of_subset hnodup hsubset).length_le
  rwa [List.length_map] at hlength

/-- What its counts say of a ledger. -/
structure Balanced (l : Ledger ℓ) : Prop where
  /-- The total of an asset is the sum of the counts of its owners, of which each stands once. -/
  total : ∀ h, l.useCount h = ((l.owners h).map (l.ownerCount h)).sum
  owners : ∀ h, (l.owners h).Nodup ∧ ∀ o, o ∈ l.owners h ↔ 0 < l.ownerCount h o
  /-- No count that is kept is zero. -/
  uses : ∀ e ∈ l.uses.entries, 0 < e.2
  totals : ∀ e ∈ l.totals.entries, 0 < e.2
  /-- A total is kept as long as the count of an owner is. -/
  kept : ∀ h, h ∈ l.totals.keys ↔ ∃ o, (h, o) ∈ l.uses.keys

theorem Sound.balanced {l : Ledger ℓ} (hl : l.Sound) : Balanced l where
  total := hl.useCount_eq_sum
  owners h := ⟨hl.nodup_owners h, hl.mem_owners h⟩
  uses := hl.uses.pos
  totals := hl.totals.pos
  kept h := by
    rw [← Tally.count_pos_iff hl.totals]
    constructor
    · intro htotal
      by_contra hnone
      refine absurd (hl.useCount_eq_zero fun o => ?_) (Nat.ne_of_gt htotal)
      exact Tally.count_of_not_mem fun hkey => hnone ⟨o, hkey⟩
    · rintro ⟨o, hkey⟩
      have hused : 0 < l.ownerCount h o := (Tally.count_pos_iff hl.uses _).mpr hkey
      exact Nat.lt_of_lt_of_le hused (hl.ownerCount_le h o)

/-! ## Single operations -/

/-- Of all counts only that of an owner, and of all totals only that of its asset, may differ. -/
structure SparesOthers (l l' : Ledger ℓ) (h : Handle) (owner : Owner) : Prop where
  counts : ∀ k o, (k, o) ≠ (h, owner) → l'.ownerCount k o = l.ownerCount k o
  totals : ∀ k, k ≠ h → l'.useCount k = l.useCount k

/-- What a use does: it counts the asset once more. The loader is asked for it if nobody used it. -/
structure Raises (l : Ledger ℓ) (h : Handle) (owner : Owner)
    (r : Ledger ℓ × List LoaderCall) : Prop where
  count : r.1.ownerCount h owner = l.ownerCount h owner + 1
  total : r.1.useCount h = l.useCount h + 1
  others : SparesOthers l r.1 h owner
  calls : r.2 = if l.useCount h = 0 then [.load h] else []

/-- What a release does that a use stands against: it counts the asset once less. The asset is
    dropped if nobody uses it any more. -/
structure Lowers (l : Ledger ℓ) (h : Handle) (owner : Owner)
    (r : Ledger ℓ × List LoaderCall) : Prop where
  count : r.1.ownerCount h owner + 1 = l.ownerCount h owner
  total : r.1.useCount h + 1 = l.useCount h
  others : SparesOthers l r.1 h owner
  calls : r.2 = if r.1.useCount h = 0 then [.unload h] else []

variable [Loader ℓ]

theorem raises_addUse (l : Ledger ℓ) (h : Handle) (owner : Owner) :
    Raises l h owner (l.addUse h owner) := by
  refine ⟨?_, ?_, ⟨fun k o hother => ?_, fun k hk => ?_⟩, ?_⟩
  · rw [ownerCount_addUse, if_pos ⟨rfl, rfl⟩]
  · rw [useCount_addUse, if_pos rfl]
  · rw [ownerCount_addUse, if_neg fun hsame => hother (Prod.ext hsame.1 hsame.2), Nat.add_zero]
  · rw [useCount_addUse, if_neg hk, Nat.add_zero]
  · have hcount : (l.totals.add h).count h = l.totals.count h + 1 := by
      rw [Tally.count_add, if_pos rfl]
    unfold addUse useCount
    dsimp only
    rw [hcount]
    by_cases hfirst : l.totals.count h = 0 <;> simp [hfirst]

theorem Sound.lowers_release {l : Ledger ℓ} (hl : l.Sound) {h : Handle} {owner : Owner}
    (hu : 0 < l.ownerCount h owner) : Lowers l h owner (l.release h owner) := by
  have htotal := hl.ownerCount_le h owner
  refine ⟨?_, ?_, ⟨fun k o hother => ?_, fun k hk => ?_⟩, ?_⟩
  · rw [ownerCount_release hl, if_pos ⟨rfl, rfl⟩]
    omega
  · rw [useCount_release hl, if_pos ⟨rfl, hu⟩]
    omega
  · rw [ownerCount_release hl, if_neg fun hsame => hother (Prod.ext hsame.1 hsame.2), Nat.sub_zero]
  · rw [useCount_release hl, if_neg fun hsame => hk hsame.1, Nat.sub_zero]
  · unfold Ledger.release
    rw [if_neg (Nat.ne_of_gt hu)]
    dsimp only
    split
    · rename_i hlast
      exact (if_pos hlast).symm
    · rfl

/-! ## Operations in order -/

/-- A ledger after an operation, with the calls to its loader. -/
def apply (l : Ledger ℓ) : Operation → Ledger ℓ × List LoaderCall
  | .addUse h owner => l.addUse h owner
  | .release h owner => l.release h owner

/-- A ledger after operations in order, with all calls to its loader. -/
def applyAll (l : Ledger ℓ) : List Operation → Ledger ℓ × List LoaderCall
  | [] => (l, [])
  | op :: ops =>
    let (l, first) := l.apply op
    let (l, others) := l.applyAll ops
    (l, first ++ others)

theorem Sound.apply {l : Ledger ℓ} (hl : l.Sound) (op : Operation) : (l.apply op).1.Sound := by
  cases op with
  | addUse h owner => exact hl.addUse h owner
  | release h owner => exact hl.release h owner

theorem told_apply (l : Ledger ℓ) (op : Operation) : l.Told (l.apply op) := by
  cases op with
  | addUse h owner => exact l.told_addUse h owner
  | release h owner => exact l.told_release h owner

theorem alternate_apply {l : Ledger ℓ} (hl : l.Sound) (op : Operation) (k : Handle) :
    Alternate k (l.inUse k) (l.apply op).2 ((l.apply op).1.inUse k) := by
  cases op with
  | addUse h owner => exact l.alternate_addUse h owner k
  | release h owner => exact alternate_release hl h owner k

theorem Sound.applyAll {l : Ledger ℓ} (hl : l.Sound) (ops : List Operation) :
    (l.applyAll ops).1.Sound := by
  induction ops generalizing l with
  | nil => exact hl
  | cons op ops ih => exact ih (hl.apply op)

theorem told_applyAll (l : Ledger ℓ) (ops : List Operation) : l.Told (l.applyAll ops) := by
  induction ops generalizing l with
  | nil => rfl
  | cons op ops ih => exact (l.told_apply op).append (ih _)

theorem alternate_applyAll {l : Ledger ℓ} (hl : l.Sound) (ops : List Operation) (k : Handle) :
    Alternate k (l.inUse k) (l.applyAll ops).2 ((l.applyAll ops).1.inUse k) := by
  induction ops generalizing l with
  | nil => exact alternate_nil k _
  | cons op ops ih => exact alternate_append.mpr ⟨_, alternate_apply hl op k, ih (hl.apply op)⟩

theorem applyAll_append (l : Ledger ℓ) (xs ys : List Operation) :
    l.applyAll (xs ++ ys) =
      (((l.applyAll xs).1.applyAll ys).1,
        (l.applyAll xs).2 ++ ((l.applyAll xs).1.applyAll ys).2) := by
  induction xs generalizing l with
  | nil => rfl
  | cons op xs ih => simp only [List.cons_append, applyAll, ih, List.append_assoc]

theorem applyAll_addUses (owner : Owner) (hs : List Handle) (l : Ledger ℓ) :
    l.applyAll (hs.map (.addUse · owner)) = l.addUses owner hs := by
  induction hs generalizing l with
  | nil => rfl
  | cons h hs ih => simp only [List.map_cons, applyAll, addUses, ih, Ledger.apply]

theorem applyAll_releases (owner : Owner) (hs : List Handle) (l : Ledger ℓ) :
    l.applyAll (hs.map (.release · owner)) = l.releases owner hs := by
  induction hs generalizing l with
  | nil => rfl
  | cons h hs ih => simp only [List.map_cons, applyAll, releases, ih, Ledger.apply]

theorem calls_apply (l : Ledger ℓ) (op : Operation) :
    ∀ c ∈ (l.apply op).2, c.handle = op.handle := by
  cases op with
  | addUse h owner =>
    rcases l.addUse_calls h owner with hcalls | ⟨hcalls, -⟩ <;>
      simp [Ledger.apply, hcalls, LoaderCall.handle, Operation.handle]
  | release h owner =>
    rcases l.release_calls h owner with hcalls | ⟨hcalls, -⟩ <;>
      simp [Ledger.apply, hcalls, LoaderCall.handle, Operation.handle]

/-- Operations on other assets make no call for an asset. -/
theorem spares_applyAll {ops : List Operation} {h : Handle} (hops : ∀ op ∈ ops, op.handle ≠ h)
    (l : Ledger ℓ) : Spares h (l.applyAll ops).2 := by
  induction ops generalizing l with
  | nil => exact spares_nil h
  | cons op ops ih =>
    obtain ⟨hop, hrest⟩ := List.forall_mem_cons.mp hops
    refine spares_append.mpr ⟨?_, ih hrest _⟩
    exact fun c hc hsame => hop (calls_apply l op c hc ▸ hsame)

/-- Whatever is used and released of a new ledger, matched or not, its counts are balanced. The
    loader got the calls that are listed; for each asset they are loads and unloads in turn that
    begin with a load, and the last is a load exactly if the asset is in use. A use raises the count
    of its owner; a release lowers it, where there is a use to release, and else does nothing. -/
theorem ledger_stays_balanced (loader : ℓ) (ops : List Operation) :
    let l := ((ofLoader loader).applyAll ops).1
    let calls := ((ofLoader loader).applyAll ops).2
    Balanced l ∧
    l.loader = calls.foldl LoaderCall.run loader ∧
    (∀ h, (∀ i c, (callsFor h calls)[i]? = some c → c = if i % 2 = 0 then .load h else .unload h) ∧
      ((callsFor h calls).getLast? = some (.load h) ↔ 0 < l.useCount h)) ∧
    ∀ h owner, Raises l h owner (l.addUse h owner) ∧
      (0 < l.ownerCount h owner → Lowers l h owner (l.release h owner)) ∧
      (l.ownerCount h owner = 0 → l.release h owner = (l, [])) := by
  intro l calls
  have hsound : l.Sound := (sound_ofLoader loader).applyAll ops
  have hcalls : ∀ h, Alternate h false calls (l.inUse h) :=
    alternate_applyAll (sound_ofLoader loader) ops
  refine ⟨hsound.balanced, told_applyAll _ ops, fun h => ⟨fun i c hc => ?_, ?_⟩, fun h owner =>
    ⟨l.raises_addUse h owner, hsound.lowers_release, l.release_of_unused h owner⟩⟩
  · rw [(hcalls h).getElem? hc]
    rcases Nat.mod_two_eq_zero_or_one i with hi | hi <;> simp [nextCall, hi]
  · have hlast := (hcalls h).getLast?
    have hused : l.inUse h = true ↔ 0 < l.useCount h := decide_eq_true_iff
    rw [← hused, ← hlast]
    cases (callsFor h calls).getLast? <;> simp

end Ledger

end VisualNovel.Asset
