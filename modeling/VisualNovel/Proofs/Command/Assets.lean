import VisualNovel.Command.Execution

/-
  The assets in cues. What a command of a script's own hands to the stage is usable, and declared
  by the command (`Action.usable_of_mem_cues`). An asset that cannot be used takes nothing with it
  but itself: the cues are those that are given when it is loaded, without it (`cues_without`).
-/

namespace VisualNovel.Stage

open Asset (Handle)

/-- The assets that a cue hands to the stage. -/
def Cue.handles : Cue → List Handle
  | background texture _ | event texture _ | sprite _ texture _ => [texture]
  | character s => s.texture?.toList
  | play _ clip _ _ => [clip]
  | text line => line.voice?.toList
  | _ => []

/-- What is left of a cue when assets are lost. A picture or a sound is nothing without its asset;
    a character appears without its texture, and a line is shown without its voice. -/
def Cue.without (lost : Handle → Bool) : Cue → Option Cue
  | background texture seconds => if lost texture then none else some (background texture seconds)
  | event texture seconds => if lost texture then none else some (event texture seconds)
  | sprite name texture seconds => if lost texture then none else some (sprite name texture seconds)
  | play stream clip looping seconds =>
    if lost clip then none else some (play stream clip looping seconds)
  | character s => some (character { s with texture? := s.texture?.filter fun h => !lost h })
  | text line => some (text { line with voice? := line.voice?.filter fun h => !lost h })
  | cue => some cue

/-- A cue without lost assets is given as it is. -/
theorem Cue.without_eq_some {lost : Handle → Bool} {cue : Cue}
    (h : ∀ k ∈ cue.handles, lost k = false) : cue.without lost = some cue := by
  cases cue with
  | background texture | event texture | sprite _ texture | play _ texture =>
    have htexture : lost texture = false := h _ List.mem_cons_self
    simp [without, htexture]
  | character s =>
    obtain ⟨_, _, _, texture?, _⟩ := s
    cases texture? with
    | none => rfl
    | some texture =>
      have htexture : lost texture = false := h _ List.mem_cons_self
      simp [without, Option.filter, htexture]
  | text line =>
    obtain ⟨_, _, voice?, _⟩ := line
    cases voice? with
    | none => rfl
    | some voice =>
      have hvoice : lost voice = false := h _ List.mem_cons_self
      simp [without, Option.filter, hvoice]
  | _ => rfl

/-- Losing less first makes no difference. -/
theorem Cue.without_bind_without {lost lost' : Handle → Bool}
    (h : ∀ k, lost' k = true → lost k = true) (cue : Cue) :
    (cue.without lost').bind (Cue.without lost) = cue.without lost := by
  have hfilter : ∀ k, (!lost' k && !lost k) = !lost k := fun k => by
    cases hk : lost' k with
    | false => rfl
    | true => rw [h k hk]; rfl
  cases cue with
  | background texture | event texture | sprite _ texture | play _ texture =>
    cases hk : lost' texture with
    | false => simp [without, hk]
    | true => simp [without, hk, h _ hk]
  | character s => simp [without, Option.filter_filter, hfilter]
  | text line => simp [without, Option.filter_filter, hfilter]
  | _ => rfl

end VisualNovel.Stage

namespace VisualNovel.Command

open Asset (Handle LoadState)
open Stage

variable {state state' : Handle → LoadState}

theorem eq_of_usable? {h k : Handle} (hk : usable? state h = some k) :
    k = h ∧ (state h).isLoaded = true := by
  unfold usable? at hk
  split at hk
  · rename_i hloaded
    exact ⟨(Option.some.inj hk).symm, hloaded⟩
  · cases hk

/-- What is usable of an asset that may be missing. -/
theorem mem_of_bind_usable? {h? : Option Handle} {k : Handle}
    (hk : h?.bind (usable? state) = some k) : k ∈ h?.toList ∧ (state k).isLoaded = true := by
  obtain ⟨h, rfl, hh⟩ := Option.bind_eq_some_iff.mp hk
  obtain ⟨rfl, hloaded⟩ := eq_of_usable? hh
  exact ⟨List.mem_cons_self, hloaded⟩

/-- The voice in the cue of a line is the line's, and usable. -/
theorem Line.usable_of_mem_handles {line? : Option Line} {speaker? : Option String} {cue : Cue}
    (hcue : cue ∈ (line?.map (Line.cue state speaker?)).toList) {k : Handle}
    (hk : k ∈ cue.handles) : k ∈ Action.lineResources line? ∧ (state k).isLoaded = true := by
  obtain ⟨l, rfl, rfl⟩ := Option.map_eq_some_iff.mp (Option.mem_toList.mp hcue)
  exact mem_of_bind_usable? (Option.mem_toList.mp hk)

/-- Every asset in a cue of a script's own command is declared by the command, and usable. -/
theorem Action.usable_of_mem_cues {a : Action} (ha : ∀ action, a ≠ .host action) {b : Board}
    {cue : Cue} (hcue : cue ∈ a.cues state b) {k : Handle} (hk : k ∈ cue.handles) :
    k ∈ a.resources ∧ (state k).isLoaded = true := by
  cases a with
  | host action => exact absurd rfl (ha action)
  | text line? => exact Line.usable_of_mem_handles hcue hk
  | character a =>
    rcases List.mem_cons.mp hcue with rfl | hline
    · split at hk
      · cases hk
      · obtain ⟨hmem, hloaded⟩ := mem_of_bind_usable? (Option.mem_toList.mp hk)
        exact ⟨List.mem_append_left _ hmem, hloaded⟩
    · obtain ⟨hmem, hloaded⟩ := Line.usable_of_mem_handles hline hk
      exact ⟨List.mem_append_right _ hmem, hloaded⟩
  | layer kind name texture seconds =>
    obtain ⟨t, ht, rfl⟩ := Option.map_eq_some_iff.mp (Option.mem_toList.mp hcue)
    obtain ⟨rfl, hloaded⟩ := eq_of_usable? ht
    cases kind <;> obtain rfl := List.mem_singleton.mp hk <;>
      exact ⟨List.mem_cons_self, hloaded⟩
  | sound track clip looping seconds =>
    obtain ⟨c, hc, rfl⟩ := Option.map_eq_some_iff.mp (Option.mem_toList.mp hcue)
    obtain ⟨rfl, hloaded⟩ := eq_of_usable? hc
    obtain rfl := List.mem_singleton.mp hk
    exact ⟨List.mem_cons_self, hloaded⟩
  | layerOff kind =>
    obtain rfl := List.mem_singleton.mp hcue
    cases kind <;> cases hk
  | menu =>
    simp only [Action.cues] at hcue
    split at hcue
    · cases hcue
    · obtain rfl := List.mem_singleton.mp hcue
      cases hk
  | characterOff | stopSound | fade | message | tween =>
    obtain rfl := List.mem_singleton.mp hcue
    cases hk
  | wait | assign | ifStart | elseIf | elseBranch | endIf | choice | jump | control | label =>
    cases hcue

/-- Of the assets of a command those are lost that are loaded only elsewhere. -/
structure Loses (hs : List Handle) (lost : Handle → Bool) (state state' : Handle → LoadState) :
    Prop where
  lost : ∀ h ∈ hs, lost h = !(state h).isLoaded
  loaded : ∀ h ∈ hs, (state h).isLoaded = true → (state' h).isLoaded = true

variable {lost : Handle → Bool}

theorem usable?_without {hs : List Handle} (hloses : Loses hs lost state state') {h : Handle}
    (hmem : h ∈ hs) : usable? state h = (usable? state' h).filter fun k => !lost k := by
  have hlost := hloses.lost h hmem
  unfold usable?
  cases hloaded : (state h).isLoaded with
  | true => simp [hloses.loaded h hmem hloaded, Option.filter, hlost, hloaded]
  | false => cases (state' h).isLoaded <;> simp [Option.filter, hlost, hloaded]

theorem bind_usable?_without {hs : List Handle} (hloses : Loses hs lost state state')
    (h? : Option Handle) (hmem : ∀ h ∈ h?.toList, h ∈ hs) :
    h?.bind (usable? state) = (h?.bind (usable? state')).filter fun k => !lost k := by
  cases h? with
  | none => rfl
  | some h => exact usable?_without hloses (hmem h List.mem_cons_self)

/-- What an action gives in place of an asset, if it is usable. -/
theorem map_usable?_without {hs : List Handle} (hloses : Loses hs lost state state') {h : Handle}
    (hmem : h ∈ hs) {f : Handle → Cue}
    (hf : ∀ k, (f k).without lost = if lost k then none else some (f k)) :
    ((usable? state h).map f).toList =
      ((usable? state' h).map f).toList.filterMap (Cue.without lost) := by
  rw [usable?_without hloses hmem]
  cases usable? state' h with
  | none => rfl
  | some k => cases hk : lost k <;> simp [Option.filter, hf, hk]

theorem Line.cue_without {l : Line} (speaker? : Option String)
    (hloses : Loses (Action.lineResources (some l)) lost state state') :
    (l.cue state' speaker?).without lost = some (l.cue state speaker?) := by
  have hvoice := bind_usable?_without hloses l.voice? fun _ h => h
  simp only [Line.cue, Cue.without, hvoice]

theorem Line.cues_without (line? : Option Line) (speaker? : Option String)
    (hloses : Loses (Action.lineResources line?) lost state state') :
    (line?.map (Line.cue state speaker?)).toList =
      (line?.map (Line.cue state' speaker?)).toList.filterMap (Cue.without lost) := by
  cases line? with
  | none => rfl
  | some l =>
    simp only [Option.map_some, Option.toList_some, List.filterMap_cons, List.filterMap_nil,
      Line.cue_without speaker? hloses]

/-- The cues of a script's own command are those that it gives when its lost assets are loaded,
    without these. -/
theorem Action.cues_without {a : Action} (ha : ∀ action, a ≠ .host action) (b : Board)
    (hloses : Loses a.resources lost state state') :
    a.cues state b = (a.cues state' b).filterMap (Cue.without lost) := by
  cases a with
  | host action => exact absurd rfl (ha action)
  | text line? => exact Line.cues_without line? none hloses
  | character a =>
    have htexture := bind_usable?_without hloses a.texture? fun h hh =>
      List.mem_append_left _ hh
    have hline := Line.cues_without a.line? (some a.displayName)
      ⟨fun h hh => hloses.lost h (List.mem_append_right _ hh),
        fun h hh => hloses.loaded h (List.mem_append_right _ hh)⟩
    simp only [Action.cues, Appearance.cues, List.filterMap_cons, hline]
    cases a.hidden <;> simp [Cue.without, htexture]
  | layer kind name texture seconds =>
    exact map_usable?_without hloses List.mem_cons_self (f := fun t => kind.cue name t seconds)
      fun k => by cases kind <;> rfl
  | sound track clip looping seconds =>
    exact map_usable?_without hloses List.mem_cons_self
      (f := fun c => Cue.play track.stream c looping seconds) fun k => rfl
  | layerOff kind => cases kind <;> rfl
  | menu =>
    simp only [Action.cues]
    split <;> rfl
  | _ => rfl

end VisualNovel.Command
