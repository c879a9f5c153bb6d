import VisualNovel.Asset.FileLoader
import VisualNovel.Proofs.Asset.Ledger
import VisualNovel.Proofs.Entries

/-
  Loaders that settle. A load may take any time, but for each asset it ends in the one way or the
  other, and what was loaded is not disturbed by calls for other assets (`Settles`). An owner
  makes no call for an asset that another owner uses (`spares_addUses`, `spares_releases`). So an
  asset in use that is there stays there while others come and go (`Settles.complete_calls`).
  Files settle: an asset is usable if there is a file for it (`FileLoader.settles`).
-/

namespace VisualNovel.Asset

variable {ℓ : Type} [Loader ℓ]

/-- Whatever becomes of a loader, it is one of `L`. When the loading of an asset is over, the
    asset can be used if and only if the verdict says so, and the loading of one asset is not
    undone by a call for another. -/
structure Settles (verdict : Handle → Bool) (L : ℓ → Prop) : Prop where
  request : ∀ {l h}, L l → L (Loader.request l h)
  unload : ∀ {l h}, L l → L (Loader.unload l h)
  verdict : ∀ {l h}, L l → (Loader.state l h).isComplete = true →
    (Loader.state l h).isLoaded = verdict h
  request_other : ∀ {l h k}, L l → k ≠ h → (Loader.state l h).isComplete = true →
    (Loader.state (Loader.request l k) h).isComplete = true
  unload_other : ∀ {l h k}, L l → k ≠ h → (Loader.state l h).isComplete = true →
    (Loader.state (Loader.unload l k) h).isComplete = true

/-! ## Calls for other assets -/

/-- The asset that a call is for. -/
def LoaderCall.handle : LoaderCall → Handle
  | load h => h
  | unload h => h

/-- No call is for the asset. -/
def Spares (h : Handle) (calls : List LoaderCall) : Prop := ∀ c ∈ calls, c.handle ≠ h

theorem spares_nil (h : Handle) : Spares h [] := fun _ hc => nomatch hc

theorem spares_append {h : Handle} {xs ys : List LoaderCall} :
    Spares h (xs ++ ys) ↔ Spares h xs ∧ Spares h ys := List.forall_mem_append

variable {verdict : Handle → Bool} {L : ℓ → Prop}

theorem Settles.call (hL : Settles verdict L) {l : ℓ} (hl : L l) (c : LoaderCall) :
    L (c.run l) := by
  cases c with
  | load h => exact hL.request hl
  | unload h => exact hL.unload hl

theorem Settles.complete_call (hL : Settles verdict L) {l : ℓ} (hl : L l) {h : Handle}
    {c : LoaderCall} (hc : c.handle ≠ h) (hdone : (Loader.state l h).isComplete = true) :
    (Loader.state (c.run l) h).isComplete = true := by
  cases c with
  | load k => exact hL.request_other hl hc hdone
  | unload k => exact hL.unload_other hl hc hdone

/-- Calls lead from a loader of `L` to a loader of `L`. -/
theorem Settles.calls (hL : Settles verdict L) {l : ℓ} (hl : L l) (calls : List LoaderCall) :
    L (calls.foldl LoaderCall.run l) := by
  induction calls generalizing l with
  | nil => exact hl
  | cons c calls ih => exact ih (hL.call hl c)

/-- Calls for other assets leave an asset that is there where it is. -/
theorem Settles.complete_calls (hL : Settles verdict L) {l : ℓ} (hl : L l) {h : Handle}
    {calls : List LoaderCall} (hspares : Spares h calls)
    (hdone : (Loader.state l h).isComplete = true) :
    (Loader.state (calls.foldl LoaderCall.run l) h).isComplete = true := by
  induction calls generalizing l with
  | nil => exact hdone
  | cons c calls ih =>
    obtain ⟨hc, hcalls⟩ := List.forall_mem_cons.mp hspares
    exact ih (hL.call hl c) hcalls (hL.complete_call hl hc hdone)

/-! ## Assets of another owner -/

namespace Ledger

/-- A use makes a call only for an asset that has no other use. -/
theorem addUse_calls (l : Ledger ℓ) (h : Handle) (owner : Owner) :
    (l.addUse h owner).2 = [] ∨
      (l.addUse h owner).2 = [.load h] ∧ (l.addUse h owner).1.useCount h = 1 := by
  unfold addUse
  dsimp only
  split
  · rename_i hfirst
    exact Or.inr ⟨rfl, hfirst⟩
  · exact Or.inl rfl

/-- A release makes a call only for an asset that has no other use. -/
theorem release_calls (l : Ledger ℓ) (h : Handle) (owner : Owner) :
    (l.release h owner).2 = [] ∨
      (l.release h owner).2 = [.unload h] ∧ (l.release h owner).1.useCount h = 0 := by
  unfold release
  split
  · exact Or.inl rfl
  · dsimp only
    split
    · rename_i hlast
      exact Or.inr ⟨rfl, hlast⟩
    · exact Or.inl rfl

variable {owner o : Owner} {k : Handle}

theorem spares_addUse {l : Ledger ℓ} (hl : l.Sound) (hk : 0 < l.ownerCount k o) (h : Handle) :
    Spares k (l.addUse h owner).2 := by
  rcases l.addUse_calls h owner with hcalls | ⟨hcalls, hfirst⟩
  · rw [hcalls]
    exact spares_nil k
  · rw [hcalls]
    refine List.forall_mem_singleton.mpr fun heq => ?_
    obtain rfl : h = k := heq
    have hused := hl.ownerCount_le h o
    rw [useCount_addUse, if_pos rfl] at hfirst
    omega

theorem spares_release {l : Ledger ℓ} (hl : l.Sound) (hk : 0 < l.ownerCount k o)
    (ho : o ≠ owner) (h : Handle) : Spares k (l.release h owner).2 := by
  rcases l.release_calls h owner with hcalls | ⟨hcalls, hlast⟩
  · rw [hcalls]
    exact spares_nil k
  · rw [hcalls]
    refine List.forall_mem_singleton.mpr fun heq => ?_
    obtain rfl : h = k := heq
    have hused := (hl.release h owner).ownerCount_le h o
    rw [ownerCount_release hl, if_neg fun hboth => ho hboth.2] at hused
    omega

/-- Uses make no call for an asset that is in use. -/
theorem spares_addUses {l : Ledger ℓ} (hl : l.Sound) (hk : 0 < l.ownerCount k o)
    (hs : List Handle) : Spares k (l.addUses owner hs).2 := by
  induction hs generalizing l with
  | nil => exact spares_nil k
  | cons h hs ih =>
    have hrest : 0 < (l.addUse h owner).1.ownerCount k o := by
      rw [ownerCount_addUse]
      omega
    exact spares_append.mpr ⟨spares_addUse hl hk h, ih (hl.addUse h owner) hrest⟩

/-- Releases make no call for an asset that another owner uses. -/
theorem spares_releases {l : Ledger ℓ} (hl : l.Sound) (hk : 0 < l.ownerCount k o)
    (ho : o ≠ owner) (hs : List Handle) : Spares k (l.releases owner hs).2 := by
  induction hs generalizing l with
  | nil => exact spares_nil k
  | cons h hs ih =>
    have hrest : 0 < (l.release h owner).1.ownerCount k o := by
      rw [ownerCount_release hl, if_neg fun hboth => ho hboth.2]
      exact hk
    exact spares_append.mpr ⟨spares_release hl hk ho h, ih (hl.release h owner) hrest⟩

end Ledger

/-! ## Files -/

namespace FileLoader

open Disk (FileTree)

/-- A loader of the files under a root. All it says of an asset is its verdict. -/
structure Serves (files : FileTree) (root : String) (l : FileLoader) : Prop where
  files_eq : l.files = files
  root_eq : l.root = root
  states : ∀ {h s}, l.states.lookup h = some s → s = (ofRoot files root).verdict h

theorem serves_ofRoot (files : FileTree) (root : String) : Serves files root (ofRoot files root) :=
  ⟨rfl, rfl, fun hs => nomatch hs⟩

theorem lookup_forget (l : FileLoader) (h k : Handle) :
    (l.forget k).lookup h = if h = k then none else l.states.lookup h :=
  Entries.lookup_filter_ne (fun _ => decide_eq_true_iff) l.states h

variable {files : FileTree} {root : String} {l : FileLoader}

theorem Serves.verdict_eq (hl : Serves files root l) (h : Handle) :
    l.verdict h = (ofRoot files root).verdict h := by
  unfold verdict
  rw [hl.files_eq, hl.root_eq]
  rfl

theorem Serves.request (hl : Serves files root l) (k : Handle) :
    Serves files root (Loader.request l k) := by
  refine ⟨hl.files_eq, hl.root_eq, fun {h s} hs => ?_⟩
  change ((k, l.verdict k) :: l.forget k).lookup h = some s at hs
  rw [List.lookup_cons, lookup_forget] at hs
  by_cases hk : h = k
  · subst hk
    rw [beq_self_eq_true] at hs
    rw [← Option.some.inj hs, hl.verdict_eq]
  · rw [beq_false_of_ne hk, if_neg hk] at hs
    exact hl.states hs

theorem Serves.unload (hl : Serves files root l) (k : Handle) :
    Serves files root (Loader.unload l k) := by
  refine ⟨hl.files_eq, hl.root_eq, fun {h s} hs => ?_⟩
  change (l.forget k).lookup h = some s at hs
  rw [lookup_forget] at hs
  split at hs
  · cases hs
  · exact hl.states hs

/-- The loading of files ends for each asset in one way, however often it is asked for. -/
theorem settles (files : FileTree) (root : String) :
    Settles (fun h => ((ofRoot files root).verdict h).isLoaded) (Serves files root) where
  request hl := hl.request _
  unload hl := hl.unload _
  verdict {l h} hl hdone := by
    change ((l.states.lookup h).getD .pending).isComplete = true at hdone
    change ((l.states.lookup h).getD .pending).isLoaded = _
    cases hs : l.states.lookup h with
    | none =>
      rw [hs] at hdone
      cases hdone
    | some s => rw [Option.getD_some, hl.states hs]
  request_other {l h k} hl hk hdone := by
    have hlookup : ((k, l.verdict k) :: l.forget k).lookup h = l.states.lookup h := by
      rw [List.lookup_cons, lookup_forget, beq_false_of_ne hk.symm, if_neg hk.symm]
    change ((((k, l.verdict k) :: l.forget k).lookup h).getD .pending).isComplete = true
    rw [hlookup]
    exact hdone
  unload_other {l h k} hl hk hdone := by
    change (((l.forget k).lookup h).getD .pending).isComplete = true
    rw [lookup_forget, if_neg hk.symm]
    exact hdone

end FileLoader

end VisualNovel.Asset
