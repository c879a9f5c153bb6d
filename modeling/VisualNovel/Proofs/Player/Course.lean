import VisualNovel.Proofs.Command.Conditional
import VisualNovel.Proofs.Player.Story

/-
  What a story takes from a board besides its parameters. Open blocks decide which commands are
  passed over, and collected choices what a menu shows; `course` lists both for the rest of a
  run, without knowing the answers. Two boards with the same parameters and the same course
  tell the same story for the same answers (`tell_congr`).
-/

namespace VisualNovel.Player

open Asset (Handle LoadState)
open Command (Action Board)
open Stage (Choice)

/-! ## Courses -/

/-- The choices that a command shows when it is executed. -/
def shown (c : Command) (b : Board) : List Choice :=
  match c.action with
  | .menu => b.choices
  | _ => []

/-- For each command on the way to the end of a run, nothing if it is passed over, or else the
    choices that it shows. The way goes on behind a menu as if nothing was picked, since a pick
    leads elsewhere. -/
def course : List Command → Board → List (Option (List Choice))
  | [], _ => []
  | c :: rest, b =>
    if b.ifStack.skips c.isConditional then none :: course rest b
    else
      some (shown c b) ::
        if (closing (c.action.change b).requests).isSome then []
        else course rest (boardPicked c none (c.action.change b)).settle

/-- Boards with the same parameters and the same requests. -/
structure Alike (b b' : Board) : Prop where
  params : b.params = b'.params
  requests : b.requests = b'.requests

theorem Alike.settle {b b' : Board} (h : Alike b b') : Alike b.settle b'.settle :=
  ⟨h.params, rfl⟩

/-- No action looks at more than the parameters for what it assigns and requests. -/
theorem Alike.change {b b' : Board} (h : Alike b b') (a : Action) :
    Alike (a.change b) (a.change b') := by
  refine ⟨?_, ?_⟩
  · rw [Command.change_params, Command.change_params, h.params]
  · have hrequests := h.requests
    cases a with
    | jump target condition? =>
      simp only [Action.change, h.params]
      split
      · simp [Board.request, hrequests]
      · exact hrequests
    | control what => simp [Action.change, Board.request, hrequests]
    | host action => simp only [Action.change, h.params, hrequests]
    | _ => exact hrequests

/-- Only a menu looks at more of the board than the parameters for its cues. -/
theorem Alike.cues {c : Command} {b b' : Board} (h : Alike b b') (hshown : shown c b = shown c b')
    (state : Handle → LoadState) : c.action.cues state b = c.action.cues state b' := by
  obtain ⟨_, action⟩ := c
  cases action with
  | menu =>
    have hchoices : b.choices = b'.choices := hshown
    simp only [Action.cues, hchoices]
  | host action => simp only [Action.cues, h.params]
  | _ => rfl

/-- What is picked of the same menu makes the same requests. -/
theorem Alike.boardPicked {c : Command} {b b' : Board} (h : Alike b b')
    (hshown : shown c b = shown c b') (picked? : Option Nat) :
    Alike (boardPicked c picked? b) (boardPicked c picked? b') := by
  obtain ⟨_, action⟩ := c
  cases action with
  | menu =>
    have hchoices : b.choices = b'.choices := hshown
    simp only [Player.boardPicked, hchoices]
    cases picked?.bind fun i => b'.choices[i]? with
    | none => exact ⟨h.params, h.requests⟩
    | some choice =>
      obtain ⟨caption, target, effect?⟩ := choice
      cases effect? <;>
        exact ⟨by simp [Board.pick, Board.request, Board.assign, h.params],
          by simp [Board.pick, Board.request, Board.assign, h.requests]⟩
  | _ => exact h

/-- Boards that show the same before an action do so after it. -/
theorem shown_changed {c : Command} {b b' : Board} (h : shown c b = shown c b') :
    shown c (c.action.change b) = shown c (c.action.change b') := by
  obtain ⟨_, action⟩ := c
  cases action <;> exact h

theorem boardPicked_settle (c : Command) (b : Board) :
    boardPicked c none b.settle = (boardPicked c none b).settle := by
  obtain ⟨_, action⟩ := c
  cases action <;> rfl

/-! ## The same story -/

theorem tellExecuted_congr {c : Command} {b b' : Board} (h : Alike b b')
    (hshown : shown c b = shown c b') (flags : List Bool) (cur : Cursor) :
    tellExecuted c flags b cur = tellExecuted c flags b' cur := by
  unfold tellExecuted
  rw [h.cues hshown]

/-- The cues of a menu are its choices. -/
theorem shown_of_tellExecuted {c : Command} {b b' : Board} {flags : List Bool} {cur : Cursor}
    (h : tellExecuted c flags b cur = tellExecuted c flags b' cur) : shown c b = shown c b' := by
  unfold tellExecuted at h
  have hcues := congrArg cuesOf (List.append_cancel_right (List.cons.inj h).2)
  rw [cuesOf_cues, cuesOf_cues] at hcues
  obtain ⟨_, action⟩ := c
  cases action with
  | menu =>
    change b.choices = b'.choices
    simp only [Action.cues] at hcues
    by_cases hb : b.choices = [] <;> by_cases hb' : b'.choices = []
    · rw [hb, hb']
    · simp [hb, hb'] at hcues
    · simp [hb, hb'] at hcues
    · simpa [hb, hb'] using hcues
  | _ => rfl

theorem tellDone_congr {next : Board → Cursor → List Answer → List Event} {c : Command}
    {b b' : Board} (cur : Cursor) (answers : List Answer) (hb : b.requests = [])
    (h : Alike b b') (hshown : shown c b = shown c b')
    (hnext : ∀ answers, next (boardPicked c none b).settle (cur.moveTo (cur.index + 1)) answers =
      next (boardPicked c none b').settle (cur.moveTo (cur.index + 1)) answers) :
    tellDone next c b cur answers = tellDone next c b' cur answers := by
  cases answers with
  | nil => rfl
  | cons answer answers =>
    cases answer with
    | usable => rfl
    | picked picked? =>
      have hpicked := h.boardPicked hshown picked?
      have hb' : b'.requests = [] := h.requests.symm.trans hb
      simp only [tellDone, ← hpicked.requests]
      cases hclosing : closing (boardPicked c picked? b).requests with
      | some told => rfl
      | none =>
        have hclosing' : closing (boardPicked c picked? b').requests = none :=
          hpicked.requests ▸ hclosing
        rw [boardPicked_of_open hb hclosing, boardPicked_of_open hb' hclosing', hnext]

/-- Boards with the same parameters tell the same story if they pass over the same commands and
    show the same menus. -/
theorem tell_congr (cs : List Command) {b b' : Board} (h : Alike b b')
    (hcourse : course cs b = course cs b') (cur : Cursor) (answers : List Answer) :
    tell cs b cur answers = tell cs b' cur answers := by
  induction cs generalizing b b' cur answers with
  | nil => rfl
  | cons c cs ih =>
    rw [course, course] at hcourse
    rw [tell, tell]
    cases hskip : b.ifStack.skips c.isConditional with
    | true =>
      cases hskip' : b'.ifStack.skips c.isConditional with
      | true =>
        rw [hskip, hskip', if_pos rfl, if_pos rfl] at hcourse
        rw [if_pos rfl, if_pos rfl, ih h (List.cons.inj hcourse).2]
      | false => simp [hskip, hskip'] at hcourse
    | false =>
      cases hskip' : b'.ifStack.skips c.isConditional with
      | true => simp [hskip, hskip'] at hcourse
      | false =>
        rw [hskip, hskip', if_neg Bool.false_ne_true, if_neg Bool.false_ne_true] at hcourse
        rw [if_neg Bool.false_ne_true, if_neg Bool.false_ne_true]
        obtain ⟨hshown, hcourse⟩ := List.cons.inj hcourse
        have hshown := Option.some.inj hshown
        have hchange := h.change c.action
        have hshown' := shown_changed hshown
        cases answers with
        | nil => rfl
        | cons answer answers =>
          cases answer with
          | picked => rfl
          | usable flags =>
            simp only [tellLoaded, tellExecuted_congr h hshown, ← hchange.requests]
            rw [← hchange.requests] at hcourse
            cases hclosing : closing (c.action.change b).requests with
            | some told => rfl
            | none =>
              rw [hclosing, if_neg (by simp), if_neg (by simp)] at hcourse
              refine congrArg _ ?_
              refine tellDone_congr _ answers rfl hchange.settle hshown' fun answers => ?_
              rw [boardPicked_settle, boardPicked_settle]
              exact ih (hchange.boardPicked hshown' none).settle hcourse _ answers

/-- Only if they pass over the same commands and show the same menus do boards tell the same
    story whatever the answers. -/
theorem course_of_tell (cs : List Command) {b b' : Board} (h : Alike b b') (cur : Cursor)
    (htell : ∀ answers, tell cs b cur answers = tell cs b' cur answers) :
    course cs b = course cs b' := by
  induction cs generalizing b b' cur with
  | nil => rfl
  | cons c cs ih =>
    rw [course, course]
    simp only [tell] at htell
    cases hskip : b.ifStack.skips c.isConditional with
    | true =>
      cases hskip' : b'.ifStack.skips c.isConditional with
      | true =>
        rw [hskip, hskip'] at htell
        exact congrArg (none :: ·) (ih h _ fun answers => (List.cons.inj (htell answers)).2)
      | false =>
        rw [hskip, hskip'] at htell
        cases htell []
    | false =>
      cases hskip' : b'.ifStack.skips c.isConditional with
      | true =>
        rw [hskip, hskip'] at htell
        cases htell []
      | false =>
        rw [hskip, hskip'] at htell
        replace htell : ∀ answers, tellLoaded (tell cs) c b cur answers =
          tellLoaded (tell cs) c b' cur answers := htell
        rw [if_neg Bool.false_ne_true, if_neg Bool.false_ne_true]
        have hchange := h.change c.action
        simp only [← hchange.requests]
        -- without a second answer, the first command is all that is told
        have hshown : shown c b = shown c b' := by
          have hfirst := htell [.usable []]
          simp only [tellLoaded, tellDone, ← hchange.requests] at hfirst
          exact shown_of_tellExecuted (List.append_cancel_right hfirst)
        have hshown' := shown_changed hshown
        rw [hshown]
        cases hclosing : closing (c.action.change b).requests with
        | some told => rfl
        | none =>
          let cur' := (cur.enter c).turnPage c
          have hpicked := (hchange.boardPicked hshown' none).settle
          refine congrArg _ (ih hpicked (cur'.moveTo (cur'.index + 1)) fun answers => ?_)
          have hrest := htell (.usable [] :: .picked none :: answers)
          simp only [tellLoaded, tellExecuted_congr h hshown, ← hchange.requests, hclosing,
            Option.getD_none, tellDone, boardPicked_settle] at hrest
          exact List.append_cancel_left (List.append_cancel_left hrest)

/-! ## More answers -/

/-- More answers never take back what was told. -/
def Grows (next : Board → Cursor → List Answer → List Event) : Prop :=
  ∀ b cur answers answers', answers <+: answers' → next b cur answers <+: next b cur answers'

theorem grows_tellDone {next : Board → Cursor → List Answer → List Event} (h : Grows next)
    (c : Command) : Grows (tellDone next c) := by
  rintro b cur answers _ ⟨more, rfl⟩
  cases answers with
  | nil => exact List.nil_prefix
  | cons answer answers =>
    cases answer with
    | usable => exact List.nil_prefix
    | picked picked? =>
      simp only [tellDone, List.cons_append]
      refine (List.prefix_append_right_inj _).mpr ?_
      cases closing (boardPicked c picked? b).requests with
      | some cues => exact List.prefix_refl _
      | none => exact h _ _ _ _ (List.prefix_append answers more)

theorem grows_tellLoaded {next : Board → Cursor → List Answer → List Event} (h : Grows next)
    (c : Command) : Grows (tellLoaded next c) := by
  rintro b cur answers _ ⟨more, rfl⟩
  cases answers with
  | nil => exact List.nil_prefix
  | cons answer answers =>
    cases answer with
    | picked => exact List.nil_prefix
    | usable flags =>
      simp only [tellLoaded, List.cons_append]
      refine (List.prefix_append_right_inj _).mpr ?_
      cases closing (c.action.change b).requests with
      | some cues => exact List.prefix_refl _
      | none => exact grows_tellDone h c _ _ _ _ (List.prefix_append answers more)

theorem grows_tell (cs : List Command) : Grows (tell cs) := by
  induction cs with
  | nil => exact fun _ _ _ _ _ => List.prefix_refl _
  | cons c cs ih =>
    intro b cur answers answers' hprefix
    rw [tell, tell]
    split
    · exact List.cons_prefix_cons.mpr ⟨rfl, ih b _ answers answers' hprefix⟩
    · exact grows_tellLoaded ih c b cur answers answers' hprefix

end VisualNovel.Player
