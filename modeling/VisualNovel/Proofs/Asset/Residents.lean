import VisualNovel.Proofs.Asset.Balance

/-
  Assets that reside with a loader of files. The loader knows of an asset from the time it is asked
  for it until it is told to drop it, and says at once how the loading ends. A ledger asks for an
  asset at its first use and drops it at its last, so what resides is what is in use, and all of it
  is settled (`Stored.applyAll`). The answer is that of the files as they are when the asset is
  asked for, and stays as long as the asset is not dropped (`state_applyAll`, `kept_applyAll`).
-/

namespace VisualNovel.Asset

open Disk (FileTree)

/-- The loading of an asset is over. One with an address of its own is not found. -/
structure Settled (h : Handle) (s : LoadState) : Prop where
  complete : s.isComplete = true
  address : Directories.isAddress h.path = true → s = .failed "remote asset"

namespace FileLoader

variable {l : FileLoader} {h k : Handle}

/-- The assets that a loader was asked for and not told to drop. -/
def residents (l : FileLoader) : List Handle := l.states.map Prod.fst

theorem settled_verdict (l : FileLoader) (h : Handle) : Settled h (l.verdict h) := by
  unfold verdict
  split
  · exact ⟨rfl, fun _ => rfl⟩
  · rename_i haddress
    refine ⟨?_, fun h => absurd h haddress⟩
    split <;> rfl

/-! ## Calls -/

theorem residents_forget (l : FileLoader) (k : Handle) :
    (l.forget k).map Prod.fst = l.residents.filter (· ≠ k) := by
  rw [residents, List.filter_map]
  rfl

theorem residents_request (l : FileLoader) (k : Handle) :
    (Loader.request l k).residents = k :: l.residents.filter (· ≠ k) :=
  congrArg (k :: ·) (l.residents_forget k)

theorem residents_unload (l : FileLoader) (k : Handle) :
    (Loader.unload l k).residents = l.residents.filter (· ≠ k) := l.residents_forget k

theorem state_request (l : FileLoader) (k h : Handle) :
    Loader.state (Loader.request l k) h = if h = k then l.verdict k else Loader.state l h := by
  change (((k, l.verdict k) :: l.forget k).lookup h).getD .pending = _
  rw [Entries.lookup_cons_ite, lookup_forget]
  split <;> rfl

theorem state_unload (l : FileLoader) (k h : Handle) :
    Loader.state (Loader.unload l k) h = if h = k then .pending else Loader.state l h := by
  change ((l.forget k).lookup h).getD .pending = _
  rw [lookup_forget]
  split <;> rfl

/-- A call leaves the files where they are. -/
theorem verdict_run (l : FileLoader) (c : LoaderCall) (h : Handle) :
    (c.run l).verdict h = l.verdict h := by
  cases c <;> rfl

theorem nodup_run (hl : l.residents.Nodup) (c : LoaderCall) : (c.run l).residents.Nodup := by
  cases c with
  | load k =>
    have hrest : (l.residents.filter (· ≠ k)).Nodup := hl.filter _
    change (Loader.request l k).residents.Nodup
    rw [residents_request, List.nodup_cons]
    exact ⟨by simp, hrest⟩
  | unload k =>
    change (Loader.unload l k).residents.Nodup
    rw [residents_unload]
    exact hl.filter _

theorem settled_run (hl : ∀ e ∈ l.states, Settled e.1 e.2) (c : LoaderCall) :
    ∀ e ∈ (c.run l).states, Settled e.1 e.2 := by
  have hforget : ∀ k, ∀ e ∈ l.forget k, Settled e.1 e.2 := fun k e he =>
    hl e (List.mem_filter.mp he).1
  cases c with
  | load k => exact List.forall_mem_cons.mpr ⟨l.settled_verdict k, hforget k⟩
  | unload k => exact hforget k

theorem mem_residents_run (l : FileLoader) (c : LoaderCall) (h : Handle) :
    h ∈ (c.run l).residents ↔ if c.handle = h then c = .load h else h ∈ l.residents := by
  cases c with
  | load k =>
    change h ∈ (Loader.request l k).residents ↔ if k = h then _ else _
    rw [residents_request]
    by_cases hk : k = h
    · simp [hk]
    · simp [hk, Ne.symm hk]
  | unload k =>
    change h ∈ (Loader.unload l k).residents ↔ if k = h then _ else _
    rw [residents_unload]
    by_cases hk : k = h
    · simp [hk]
    · simp [hk, Ne.symm hk]

/-- An asset resides where a call in its turn leaves it loaded. -/
theorem resident_run {b m : Bool} {c : LoaderCall} (hb : h ∈ l.residents ↔ b = true)
    (hm : c.follow h b = some m) : h ∈ (c.run l).residents ↔ m = true := by
  rw [LoaderCall.follow_eq_some] at hm
  rw [mem_residents_run]
  by_cases hc : c.handle = h
  · rw [if_pos hc] at hm ⊢
    obtain ⟨rfl, rfl⟩ := hm
    cases b <;> simp [nextCall]
  · rw [if_neg hc] at hm ⊢
    rw [hb, hm]

theorem nodup_calls (hl : l.residents.Nodup) (calls : List LoaderCall) :
    (calls.foldl LoaderCall.run l).residents.Nodup := by
  induction calls generalizing l with
  | nil => exact hl
  | cons c calls ih => exact ih (nodup_run hl c)

theorem settled_calls (hl : ∀ e ∈ l.states, Settled e.1 e.2) (calls : List LoaderCall) :
    ∀ e ∈ (calls.foldl LoaderCall.run l).states, Settled e.1 e.2 := by
  induction calls generalizing l with
  | nil => exact hl
  | cons c calls ih => exact ih (settled_run hl c)

theorem resident_calls {b b' : Bool} {calls : List LoaderCall} (hb : h ∈ l.residents ↔ b = true)
    (ha : Alternate h b calls b') :
    h ∈ (calls.foldl LoaderCall.run l).residents ↔ b' = true := by
  induction calls generalizing l b with
  | nil =>
    obtain rfl : b = b' := Option.some.inj ha
    exact hb
  | cons c calls ih =>
    obtain ⟨m, hm, hrest⟩ := alternate_cons.mp ha
    exact ih (resident_run hb hm) hrest

/-- What is loaded behind calls in turn is as the files are if it was asked for among them, and
    otherwise as it was. -/
theorem state_calls {b : Bool} {calls : List LoaderCall} (ha : Alternate h b calls true) :
    Loader.state (calls.foldl LoaderCall.run l) h =
      if .load h ∈ calls then l.verdict h else Loader.state l h := by
  induction calls generalizing l b with
  | nil => rfl
  | cons c calls ih =>
    obtain ⟨m, hm, hrest⟩ := alternate_cons.mp ha
    rw [List.foldl_cons, ih hrest, verdict_run]
    by_cases hlater : .load h ∈ calls
    · rw [if_pos hlater, if_pos (List.mem_cons_of_mem c hlater)]
    rw [if_neg hlater]
    cases c with
    | load k =>
      refine (l.state_request k h).trans ?_
      by_cases hk : h = k
      · rw [if_pos hk, if_pos (by simp [hk]), hk]
      · rw [if_neg hk, if_neg (by simp [hk, hlater])]
    | unload k =>
      -- what is dropped now would have to be loaded later
      have hk : h ≠ k := by
        rintro rfl
        rw [LoaderCall.follow_eq_some, LoaderCall.handle, if_pos rfl] at hm
        obtain ⟨hcall, rfl⟩ := hm
        have hloaded : b = true := by
          cases b with
          | true => rfl
          | false => simp [nextCall] at hcall
        subst hloaded
        have hcount := hrest.count_eq
        rw [List.count_eq_zero.mpr hlater] at hcount
        simp at hcount
      refine (l.state_unload k h).trans ?_
      rw [if_neg hk, if_neg (by simp [hlater])]

end FileLoader

/-! ## Ledgers of files -/

namespace Ledger

/-- What resides with the loader of a ledger is what is in use, each asset once, and all that the
    loader says of it is settled. -/
structure Stored (l : Ledger FileLoader) : Prop where
  sound : l.Sound
  nodup : l.loader.residents.Nodup
  resident : ∀ h, h ∈ l.loader.residents ↔ l.inUse h = true
  settled : ∀ e ∈ l.loader.states, Settled e.1 e.2

/-- The ledger when other files lie on the disk. -/
def withFiles (l : Ledger FileLoader) (files : FileTree) : Ledger FileLoader :=
  { l with loader := { l.loader with files } }

variable {l : Ledger FileLoader} {h : Handle}

theorem stored_ofLoader (files : FileTree) (root : String) :
    (ofLoader (FileLoader.ofRoot files root)).Stored :=
  ⟨sound_ofLoader _, List.nodup_nil, fun _ => ⟨nofun, nofun⟩, nofun⟩

theorem Stored.withFiles (hl : l.Stored) (files : FileTree) : (l.withFiles files).Stored :=
  ⟨hl.sound.withLoader _, hl.nodup, hl.resident, hl.settled⟩

/-- Uses and releases leave with the loader what is in use. -/
theorem Stored.applyAll (hl : l.Stored) (ops : List Operation) : (l.applyAll ops).1.Stored := by
  have htold := l.told_applyAll ops
  unfold Told at htold
  refine ⟨hl.sound.applyAll ops, ?_, fun h => ?_, ?_⟩
  · rw [htold]
    exact FileLoader.nodup_calls hl.nodup _
  · rw [htold]
    exact FileLoader.resident_calls (hl.resident h) (alternate_applyAll hl.sound ops h)
  · rw [htold]
    exact FileLoader.settled_calls hl.settled _

/-! ## What a ledger of files says -/

/-- What can be asked of a ledger of files. -/
structure Served (l : Ledger FileLoader) : Prop where
  /-- An asset in use was found or not. -/
  used : ∀ h, 0 < l.useCount h → l.state h = .loaded ∨ ∃ reason, l.state h = .failed reason
  /-- One with an address of its own was not. -/
  address : ∀ h, 0 < l.useCount h → Directories.isAddress h.path = true →
    l.state h = .failed "remote asset"
  unused : ∀ h, l.useCount h = 0 → l.state h = .pending
  /-- As many assets reside as are in use. -/
  resident : l.loader.resident = l.held.length
  held : l.held.Nodup ∧ ∀ h, h ∈ l.held ↔ 0 < l.useCount h

theorem inUse_iff {ℓ : Type} {l : Ledger ℓ} : l.inUse h = true ↔ 0 < l.useCount h :=
  decide_eq_true_iff

theorem Stored.settled_state (hl : l.Stored) (hu : 0 < l.useCount h) : Settled h (l.state h) := by
  obtain ⟨⟨k, s⟩, he, rfl⟩ := List.mem_map.mp ((hl.resident h).mpr (inUse_iff.mpr hu))
  have hfound := (Entries.mem_iff_lookup hl.nodup k s).mp he
  have hstate : l.state k = s := congrArg (·.getD LoadState.pending) hfound
  rw [hstate]
  exact hl.settled _ he

theorem Stored.state_unused (hl : l.Stored) (hu : l.useCount h = 0) : l.state h = .pending := by
  have hgone : h ∉ l.loader.residents := fun hmem =>
    absurd (inUse_iff.mp ((hl.resident h).mp hmem)) (by omega)
  have hnone : l.loader.states.lookup h = none := by
    rw [List.lookup_eq_none_iff]
    intro e he
    exact bne_iff_ne.mpr fun heq => hgone (heq ▸ List.mem_map_of_mem he)
  exact congrArg (·.getD LoadState.pending) hnone

theorem Stored.served (hl : l.Stored) : Served l := by
  have hheld : ∀ h, h ∈ l.held ↔ 0 < l.useCount h := fun h =>
    (Tally.count_pos_iff hl.sound.totals h).symm
  have hsame : ∀ h, h ∈ l.loader.residents ↔ h ∈ l.held := fun h =>
    (hl.resident h).trans (inUse_iff.trans (hheld h).symm)
  have hperm := (List.perm_ext_iff_of_nodup hl.nodup hl.sound.totals.nodup).mpr hsame
  refine ⟨fun h hu => ?_, fun h hu => (hl.settled_state hu).address, fun h => hl.state_unused,
    (List.length_map _).symm.trans hperm.length_eq, hl.sound.totals.nodup, hheld⟩
  have hcomplete := (hl.settled_state hu).complete
  cases hstate : l.state h with
  | pending =>
    rw [hstate] at hcomplete
    cases hcomplete
  | loaded => exact Or.inl rfl
  | failed reason => exact Or.inr ⟨reason, rfl⟩

/-- An asset that is in use behind some operations is as the files are if it was asked for among
    them, and otherwise as it was. -/
theorem state_applyAll (hl : l.Sound) (ops : List Operation)
    (hu : 0 < (l.applyAll ops).1.useCount h) :
    (l.applyAll ops).1.state h =
      if .load h ∈ (l.applyAll ops).2 then l.loader.verdict h else l.state h := by
  have hturns := alternate_applyAll hl ops h
  rw [inUse_iff.mpr hu] at hturns
  have htold := l.told_applyAll ops
  unfold Told at htold
  rw [state, htold]
  exact FileLoader.state_calls hturns

/-- An asset in use that is not dropped stays in use, and what is said of it stays the same. -/
theorem kept_applyAll (hl : l.Sound) (ops : List Operation) (hu : 0 < l.useCount h)
    (hkept : .unload h ∉ (l.applyAll ops).2) :
    0 < (l.applyAll ops).1.useCount h ∧ (l.applyAll ops).1.state h = l.state h := by
  have hcount := (alternate_applyAll hl ops h).count_eq
  rw [List.count_eq_zero.mpr hkept, inUse_iff.mpr hu] at hcount
  cases hafter : (l.applyAll ops).1.inUse h with
  | false =>
    rw [hafter] at hcount
    simp at hcount
  | true =>
    rw [hafter] at hcount
    have hnew : .load h ∉ (l.applyAll ops).2 := List.count_eq_zero.mp (by simpa using hcount)
    refine ⟨inUse_iff.mp hafter, ?_⟩
    rw [state_applyAll hl ops (inUse_iff.mp hafter), if_neg hnew]

end Ledger

end VisualNovel.Asset
