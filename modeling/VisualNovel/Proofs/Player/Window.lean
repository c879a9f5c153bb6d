import VisualNovel.Proofs.Asset.Balance
import VisualNovel.Proofs.Player.Accounting

/-
  What the window of assets that are loaded ahead holds. An update makes it the first `cap`
  different assets of the commands behind a place (`firstDistinct_eq`); both sides of a block count,
  as they all stand behind it. The update gives back what is no longer wanted before it uses what
  is new (`update_eq`), so that its owner never has more than `cap` assets, and what stays wanted is
  not touched (`Fits.slides`). A window that fits the ledger fits it after any updates, whatever
  commands use and release in between, and an update fails only where there is no room for `cap`
  assets (`window_holds_upcoming`). That of a player fits its ledger (`Accounts.window_fits`).
-/

namespace VisualNovel

open Asset (Handle Owner Ledger Loader LoaderCall Operation Spares)

/-- The assets of the commands behind a place, in order. -/
def Scenario.assetsBehind (s : Scenario) (index : Nat) : List Handle :=
  (s.commands.drop (index + 1)).flatMap Command.resources

namespace Player

/-! ## What is wanted -/

/-- The first different assets are those that are there, then the first of each other one. -/
theorem firstDistinct_eq {cap : Nat} {wanted : List Handle} (hw : wanted.length ≤ cap)
    (hs : List Handle) :
    firstDistinct cap wanted hs = (wanted ++ (hs.filter (· ∉ wanted)).eraseDups).take cap := by
  induction hs generalizing wanted with
  | nil => simpa [firstDistinct] using (List.take_of_length_le hw).symm
  | cons h hs ih =>
    unfold firstDistinct
    split
    · rename_i hfull
      rw [← Nat.le_antisymm hw hfull, List.take_left]
    · rename_i hroom
      by_cases hin : h ∈ wanted
      · rw [if_pos hin, ih hw, List.filter_cons_of_neg (by simpa using hin)]
      · have hlength : (wanted ++ [h]).length ≤ cap := by
          rw [List.length_append, List.length_singleton]
          omega
        -- what comes later is new if it is none of the assets there nor this one
        have hlater : (hs.filter (· ∉ wanted)).filter (fun k => !k == h) =
            hs.filter (· ∉ wanted ++ [h]) := by
          rw [List.filter_filter]
          refine List.filter_congr fun k _ => ?_
          by_cases hk : k = h <;> simp [hk]
        rw [if_neg hin, ih hlength, List.filter_cons_of_pos (by simpa using hin),
          List.eraseDups_cons, hlater, List.append_assoc, List.singleton_append]

theorem firstDistinct_nil_eq (cap : Nat) (hs : List Handle) :
    firstDistinct cap [] hs = hs.eraseDups.take cap := by
  have hnone : ([] : List Handle).length ≤ cap := Nat.zero_le cap
  rw [firstDistinct_eq hnone]
  simp

namespace PreloadWindow

/-- What an update does to the ledger: it gives back what is no longer wanted, then uses what is
    new. -/
def operations (w : PreloadWindow) (upcoming : List Handle) : List Operation :=
  let wanted := firstDistinct w.cap [] upcoming
  (w.held.filter (· ∉ wanted)).map (.release · .preload) ++
    (wanted.filter (· ∉ w.held)).map (.addUse · .preload)

/-- The operations of an update leave those assets alone that stay in the window. -/
theorem handle_ne_of_stays {w : PreloadWindow} {upcoming : List Handle} {h : Handle}
    (hheld : h ∈ w.held) (hwanted : h ∈ firstDistinct w.cap [] upcoming) :
    ∀ op ∈ w.operations upcoming, op.handle ≠ h := by
  intro op hop hsame
  rcases List.mem_append.mp hop with hop | hop <;>
    obtain ⟨k, hk, rfl⟩ := List.mem_map.mp hop
  · obtain rfl : k = h := hsame
    exact (by simpa using (List.mem_filter.mp hk).2 : k ∉ firstDistinct w.cap [] upcoming) hwanted
  · obtain rfl : k = h := hsame
    exact (by simpa using (List.mem_filter.mp hk).2 : k ∉ w.held) hheld

/-! ## A window and its ledger -/

variable {ℓ : Type} {w : PreloadWindow} {l : Ledger ℓ}

/-- The window has at most `cap` different assets, and its owner has one use of each and none of
    any other. -/
structure Fits (w : PreloadWindow) (l : Ledger ℓ) : Prop where
  nodup : w.held.Nodup
  length_le : w.held.length ≤ w.cap
  owed : ∀ h, l.ownerCount h .preload = if h ∈ w.held then 1 else 0

theorem Fits.count_eq (hw : w.Fits l) (h : Handle) :
    l.ownerCount h .preload = w.held.count h := by
  rw [hw.owed, hw.nodup.count]

theorem Fits.of_owed {l' : Ledger ℓ} (hw : w.Fits l)
    (hsame : ∀ h, l'.ownerCount h .preload = l.ownerCount h .preload) : w.Fits l' :=
  ⟨hw.nodup, hw.length_le, fun h => (hsame h).trans (hw.owed h)⟩

/-- What clearing a window does. -/
structure Empties (w : PreloadWindow) (l : Ledger ℓ)
    (r : PreloadWindow × Ledger ℓ × List LoaderCall) : Prop where
  held : r.1 = { w with held := [] }
  owed : ∀ h, r.2.1.ownerCount h .preload = 0
  others : ∀ h i, r.2.1.ownerCount h (.command i) = l.ownerCount h (.command i)

theorem Empties.fits {r : PreloadWindow × Ledger ℓ × List LoaderCall} (hr : w.Empties l r) :
    r.1.Fits r.2.1 := by
  rw [hr.held]
  exact ⟨List.nodup_nil, Nat.zero_le _, fun h => (hr.owed h).trans (if_neg List.not_mem_nil).symm⟩

variable [Loader ℓ]

theorem update_eq (w : PreloadWindow) (upcoming : List Handle) (l : Ledger ℓ) :
    w.update upcoming l =
      ({ w with held := upcoming.eraseDups.take w.cap }, l.applyAll (w.operations upcoming)) := by
  rw [update, operations, Ledger.applyAll_append, Ledger.applyAll_releases,
    Ledger.applyAll_addUses, ← firstDistinct_nil_eq]

/-- While an update gives back, the window's owner has only what was held; once it uses what is
    new, only what is wanted. -/
theorem Fits.bounded (hw : w.Fits l) (hl : l.Sound) (upcoming : List Handle) (n : Nat) :
    (l.applyAll ((w.operations upcoming).take n)).1.countOwnedBy .preload ≤ w.cap := by
  rw [operations, List.take_append, List.length_map, ← List.map_take, ← List.map_take,
    Ledger.applyAll_append, Ledger.applyAll_releases, Ledger.applyAll_addUses]
  have hlength : (firstDistinct w.cap [] upcoming).length ≤ w.cap :=
    firstDistinct_length w.cap upcoming (Nat.zero_le _)
  generalize firstDistinct w.cap [] upcoming = wanted at hlength ⊢
  generalize hgone : w.held.filter (· ∉ wanted) = gone
  generalize hnew : wanted.filter (· ∉ w.held) = new
  have hsound := (hl.releases .preload (gone.take n)).addUses .preload (new.take (n - gone.length))
  have hcount : ∀ h, ((l.releases .preload (gone.take n)).1.addUses .preload
      (new.take (n - gone.length))).1.ownerCount h .preload =
        w.held.count h - (gone.take n).count h + (new.take (n - gone.length)).count h := by
    intro h
    rw [Ledger.ownerCount_addUses, Ledger.ownerCount_releases hl, hw.count_eq]
    simp only [if_true]
  rcases Nat.le_total n gone.length with hn | hn
  · refine Nat.le_trans (hsound.countOwnedBy_le fun h hh => ?_) hw.length_le
    rw [hcount, Nat.sub_eq_zero_of_le hn, List.take_zero, List.count_nil] at hh
    exact List.count_pos_iff.mp (by omega)
  · refine Nat.le_trans (hsound.countOwnedBy_le fun h hh => ?_) hlength
    rw [hcount, List.take_of_length_le hn] at hh
    by_contra hunwanted
    have hused : h ∉ new.take (n - gone.length) := fun hmem =>
      hunwanted (List.mem_of_mem_filter (hnew ▸ List.mem_of_mem_take hmem))
    have hback : gone.count h = w.held.count h := by
      rw [← hgone, List.count_filter (by simpa using hunwanted)]
    rw [List.count_eq_zero.mpr hused, hback] at hh
    omega

/-! ## What is done to a window -/

/-- What an update does that moves the window behind a place of a scenario. -/
structure Slides (w : PreloadWindow) (l : Ledger ℓ) (s : Scenario) (index : Nat)
    (r : PreloadWindow × Ledger ℓ × List LoaderCall) : Prop where
  /-- The window has the first `cap` different assets of the commands behind the place. -/
  held : r.1 = { w with held := (s.assetsBehind index).eraseDups.take w.cap }
  fits : r.1.Fits r.2.1
  others : ∀ h i, r.2.1.ownerCount h (.command i) = l.ownerCount h (.command i)
  /-- It is done operation by operation, and after each of them there are at most `cap` assets. -/
  steps : r.2 = l.applyAll (w.operations (s.assetsBehind index))
  bounded : ∀ n, (l.applyAll ((w.operations (s.assetsBehind index)).take n)).1.countOwnedBy
    .preload ≤ w.cap
  /-- An asset that stays in the window is neither used nor released, nor is the loader called
      for it. -/
  stays : ∀ h ∈ w.held, h ∈ r.1.held →
    (∀ op ∈ w.operations (s.assetsBehind index), op.handle ≠ h) ∧ Spares h r.2.2

theorem Fits.slides (hw : w.Fits l) (hl : l.Sound) (s : Scenario) (index : Nat) :
    w.Slides l s index (w.update (s.assetsBehind index) l) := by
  have hcount := w.ownerCount_update (s.assetsBehind index) hl hw.nodup hw.count_eq
  refine ⟨?_, ⟨w.update_nodup _ l, w.update_length _ l, fun h => ?_⟩, fun h i => ?_, ?_,
    hw.bounded hl _, fun h hheld hstays => ?_⟩
  · rw [update_eq]
  · rw [hcount, if_pos rfl, (w.update_nodup _ l).count]
  · rw [hcount, if_neg nofun]
  · rw [update_eq]
  · have hspared := handle_ne_of_stays hheld hstays
    refine ⟨hspared, ?_⟩
    rw [update_eq]
    exact Ledger.spares_applyAll hspared l

theorem Fits.empties (hw : w.Fits l) (hl : l.Sound) : w.Empties l (w.clear l) := by
  refine ⟨rfl, fun h => ?_, fun h i => ?_⟩ <;>
    simp only [clear, Ledger.ownerCount_releases hl]
  · rw [hw.count_eq, if_pos trivial, Nat.sub_self]
  · simp

/-- What happens to a window and its ledger: the window is moved or cleared, a command uses or
    releases an asset, or the loader gets on. -/
inductive Shift (ℓ : Type) where
  | update (s : Scenario) (index : Nat)
  | clear
  | addUse (h : Handle) (index : Nat)
  | release (h : Handle) (index : Nat)
  | load (loader : ℓ)

/-- Whether the window is moved. -/
def Shift.moves : Shift ℓ → Bool
  | update _ _ => true
  | _ => false

/-- A window and its ledger after something happened to them, unless the program broke off. -/
def shift? : PreloadWindow × Ledger ℓ → Shift ℓ → Option (PreloadWindow × Ledger ℓ)
  | (w, l), .update s index => (w.update? (s.assetsBehind index) l).map fun r => (r.1, r.2.1)
  | (w, l), .clear =>
    let r := w.clear l
    some (r.1, r.2.1)
  | (w, l), .addUse h index => some (w, (l.addUse h (.command index)).1)
  | (w, l), .release h index => some (w, (l.release h (.command index)).1)
  | (w, l), .load loader => some (w, { l with loader })

theorem update?_eq_none_iff {upcoming : List Handle} :
    w.update? upcoming l = none ↔ roomLimit < w.cap := by
  simp [update?]

theorem eq_update_of_update? {upcoming : List Handle}
    {r : PreloadWindow × Ledger ℓ × List LoaderCall} (h : w.update? upcoming l = some r) :
    r = w.update upcoming l :=
  (Option.some.inj (Option.ite_none_right_eq_some.mp h).2).symm

/-- Of what happens only moves fail, for want of room. -/
theorem shift?_eq_none_iff {x : Shift ℓ} :
    shift? (w, l) x = none ↔ roomLimit < w.cap ∧ x.moves = true := by
  cases x with
  | update s index =>
    rw [shift?, Option.map_eq_none_iff, update?_eq_none_iff]
    simp [Shift.moves]
  | _ => simp [shift?, Shift.moves]

/-- Whatever happens, the window fits the ledger as it did. -/
theorem Fits.shift (hw : w.Fits l) (hl : l.Sound) {x : Shift ℓ} {r : PreloadWindow × Ledger ℓ}
    (hr : shift? (w, l) x = some r) : r.1.cap = w.cap ∧ r.1.Fits r.2 ∧ r.2.Sound := by
  cases x with
  | update s index =>
    obtain ⟨u, hu, rfl⟩ := Option.map_eq_some_iff.mp hr
    obtain rfl := eq_update_of_update? hu
    exact ⟨rfl, (hw.slides hl s index).fits, w.sound_update _ hl⟩
  | clear =>
    obtain rfl := Option.some.inj hr
    exact ⟨rfl, (hw.empties hl).fits, hl.releases _ _⟩
  | addUse h index =>
    obtain rfl := Option.some.inj hr
    refine ⟨rfl, hw.of_owed fun k => ?_, hl.addUse _ _⟩
    simp [Ledger.ownerCount_addUse]
  | release h index =>
    obtain rfl := Option.some.inj hr
    refine ⟨rfl, hw.of_owed fun k => ?_, hl.release _ _⟩
    simp [Ledger.ownerCount_release hl]
  | load loader =>
    obtain rfl := Option.some.inj hr
    exact ⟨rfl, hw.of_owed fun _ => rfl, hl.withLoader loader⟩

theorem Fits.shifts (hw : w.Fits l) (hl : l.Sound) (xs : List (Shift ℓ)) :
    (xs.foldlM shift? (w, l) = none ↔ roomLimit < w.cap ∧ ∃ x ∈ xs, x.moves = true) ∧
      ∀ r, xs.foldlM shift? (w, l) = some r → r.1.cap = w.cap ∧ r.1.Fits r.2 ∧ r.2.Sound := by
  induction xs generalizing w l with
  | nil => exact ⟨by simp, fun r hr => Option.some.inj hr ▸ ⟨rfl, hw, hl⟩⟩
  | cons x xs ih =>
    rw [List.foldlM_cons]
    cases hx : shift? (w, l) x with
    | none =>
      obtain ⟨hroom, hmoves⟩ := shift?_eq_none_iff.mp hx
      refine ⟨⟨fun _ => ?_, fun _ => rfl⟩, fun r hr => nomatch hr⟩
      exact ⟨hroom, x, List.mem_cons_self, hmoves⟩
    | some u =>
      obtain ⟨hcap, hfits, hsound⟩ := hw.shift hl hx
      obtain ⟨hnone, hsome⟩ := ih hfits hsound
      have hx' : ¬(roomLimit < w.cap ∧ x.moves = true) := fun h =>
        nomatch hx.symm.trans (shift?_eq_none_iff.mpr h)
      refine ⟨hnone.trans ?_, fun r hr => ?_⟩
      · rw [hcap]
        constructor
        · rintro ⟨hroom, y, hy, hmoves⟩
          exact ⟨hroom, y, List.mem_cons_of_mem _ hy, hmoves⟩
        · rintro ⟨hroom, y, hy, hmoves⟩
          rcases List.mem_cons.mp hy with rfl | hy
          · exact absurd ⟨hroom, hmoves⟩ hx'
          · exact ⟨hroom, y, hy, hmoves⟩
      · obtain ⟨hcaps, hrest⟩ := hsome r hr
        exact ⟨hcaps.trans hcap, hrest⟩

/-- A window that fits the ledger, whatever was used and released of it before, fits it ever after:
    whatever commands use and release, wherever the window is moved and whenever it is cleared. Each
    time it is moved it gets the first `cap` different assets of the commands behind its new place;
    there are never more of them on the way, and what stays in the window is left alone. Cleared,
    it has none. But a window cannot be moved at all, and the program breaks off, if there is no
    room for `cap` assets, however few there are to be held. -/
theorem window_holds_upcoming (loader : ℓ) (history : List Operation) (w : PreloadWindow)
    (hw : w.Fits ((Ledger.ofLoader loader).applyAll history).1) (xs : List (Shift ℓ)) :
    let r? := xs.foldlM shift? (w, ((Ledger.ofLoader loader).applyAll history).1)
    (r? = none ↔ roomLimit < w.cap ∧ ∃ x ∈ xs, x.moves = true) ∧
    ∀ r, r? = some r →
      r.1.cap = w.cap ∧ r.1.Fits r.2 ∧
      (∀ s index, (r.1.update? (s.assetsBehind index) r.2 = none ↔ roomLimit < w.cap) ∧
        ∀ u, r.1.update? (s.assetsBehind index) r.2 = some u → r.1.Slides r.2 s index u) ∧
      r.1.Empties r.2 (r.1.clear r.2) := by
  intro r?
  obtain ⟨hnone, hsome⟩ := hw.shifts ((Ledger.sound_ofLoader loader).applyAll history) xs
  refine ⟨hnone, fun r hr => ?_⟩
  obtain ⟨hcap, hfits, hl⟩ := hsome r hr
  refine ⟨hcap, hfits, fun s index => ⟨hcap ▸ update?_eq_none_iff, fun u hu => ?_⟩,
    hfits.empties hl⟩
  rw [eq_update_of_update? hu]
  exact hfits.slides hl s index

/-- Pictures on both sides of a block, and one behind it. -/
def bothSides : Table.CellTable :=
  .ofRows "t" [["Command", "Arg1"], ["*a"], ["Bg", "hill"], ["If", "true"], ["Bg", "sea"], ["Else"],
    ["Bg", "hill"], ["EndIf"], ["Bg", "town"]]

/-- The picture of a place. -/
def picture (place : String) : Handle := Asset.Directories.standard.handle .background place

/-- A window for two assets gives up the town for the sea, which comes before it, and keeps the hill
    as it is, which the other side of the block shows. A window for more than there is room for
    cannot be moved there. -/
theorem window_keeps_hill :
    let s := Scenario.compile .standard .standard bothSides
    let l := ((Ledger.ofLoader (Asset.FileLoader.ofRoot ⟨[], []⟩ "")).applyAll
      [.addUse (picture "hill") (.command 1), .addUse (picture "town") .preload,
        .addUse (picture "hill") .preload]).1
    let w : PreloadWindow := ⟨2, [picture "town", picture "hill"]⟩
    let v : PreloadWindow := { w with cap := 10 ^ 18 }
    w.Fits l ∧ v.Fits l ∧ v.update? (s.assetsBehind 1) l = none ∧
      ∃ r, w.update? (s.assetsBehind 1) l = some r ∧
        r.1.held = [picture "sea", picture "hill"] ∧ Spares (picture "hill") r.2.2 ∧
        ∀ h, (r.1.clear r.2.1).2.1.ownerCount h .preload = 0 := by
  intro s l w v
  have hplaces : picture "town" ≠ picture "hill" := by decide +kernel
  have hw : w.Fits l := by
    refine ⟨by simp [w, hplaces], Nat.le_refl 2, fun h => ?_⟩
    have hnew : (Ledger.ofLoader (Asset.FileLoader.ofRoot ⟨[], []⟩ "")).ownerCount h .preload = 0 :=
      rfl
    by_cases htown : h = picture "town" <;> by_cases hhill : h = picture "hill" <;>
      simp_all [l, w, Ledger.applyAll, Ledger.apply, Ledger.ownerCount_addUse]
  have hbehind : (s.assetsBehind 1).eraseDups.take 2 = [picture "sea", picture "hill"] := by
    decide +kernel
  have hv : v.Fits l := ⟨hw.nodup, by decide, hw.owed⟩
  have hroom : w.update? (s.assetsBehind 1) l = some (w.update (s.assetsBehind 1) l) :=
    if_pos (by decide)
  obtain ⟨-, hfull⟩ := window_holds_upcoming _ _ v hv []
  obtain ⟨-, hbefore⟩ := window_holds_upcoming _ _ w hw []
  obtain ⟨-, hafter⟩ := window_holds_upcoming _ _ w hw [.update s 1]
  obtain ⟨-, -, hstuck, -⟩ := hfull _ rfl
  obtain ⟨-, -, hmoved, -⟩ := hbefore _ rfl
  obtain ⟨-, -, -, hempties⟩ := hafter _ (by rw [List.foldlM_cons, shift?, hroom]; rfl)
  have hslides := (hmoved s 1).2 _ hroom
  have hheld : (w.update (s.assetsBehind 1) l).1.held = [picture "sea", picture "hill"] :=
    (congrArg held hslides.held).trans hbehind
  have hstays : picture "hill" ∈ (w.update (s.assetsBehind 1) l).1.held := by simp [hheld]
  exact ⟨hw, hv, (hstuck s 1).1.mpr (by decide), _, hroom, hheld,
    (hslides.stays _ (by simp [w]) hstays).2, hempties.owed⟩

end PreloadWindow

/-! ## The window of a player -/

variable {σ ℓ ς : Type} {p : Player σ ℓ ς} {cap : Nat}

theorem upcoming_eq {s : Scenario} (hs : p.scenario? = some s) (index : Nat) :
    p.upcoming index = s.assetsBehind index := by
  unfold upcoming
  rw [hs]
  rfl

theorem Accounts.window_fits (hp : Accounts cap p) : p.window.Fits p.ledger := by
  refine ⟨hp.nodup, hp.cap_eq ▸ hp.length_le, fun h => ?_⟩
  rw [hp.owed, due, hp.nodup.count]

/-- A player moves its window to behind the command that is executed. -/
theorem Accounts.window_slides [Loader ℓ] (hp : Accounts cap p) {s : Scenario}
    (hs : p.scenario? = some s) (index : Nat) :
    p.window.Slides p.ledger s index (p.window.update (p.upcoming index) p.ledger) := by
  rw [upcoming_eq hs]
  exact hp.window_fits.slides hp.sound s index

end Player

end VisualNovel
