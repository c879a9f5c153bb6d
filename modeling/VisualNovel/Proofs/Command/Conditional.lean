import VisualNovel.Command.Execution

/-
  The stack of open blocks reads blocks as they are meant. A `Script` is a script with its blocks
  as a tree, and `Script.play` tells which of its commands are executed: of each block those of
  the first branch whose condition holds when it is reached. `feed` takes the commands of the
  script one after the other as the player does, which only asks the stack whether to pass one
  over. Both execute the same commands (`feed_commands`), inside whatever blocks the script
  stands. To either a condition that cannot be evaluated does not hold
  (`Expression.holds_of_error`).
-/

namespace VisualNovel.Command

open Expression (Params)

/-! ## One command after the other -/

/-- The commands that are executed when commands are fed in order, and the board after them. -/
def feed : List Command → Board → List Command × Board
  | [], b => ([], b)
  | c :: rest, b =>
    if b.ifStack.skips c.isConditional then feed rest b
    else
      let (executed, b) := feed rest (c.action.change b)
      (c :: executed, b)

/-- The commands among others that are not part of the blocks themselves. -/
def plain (cs : List Command) : List Command := cs.filter fun c => !c.isConditional

theorem feed_append (xs ys : List Command) (b : Board) :
    feed (xs ++ ys) b =
      ((feed xs b).1 ++ (feed ys (feed xs b).2).1, (feed ys (feed xs b).2).2) := by
  induction xs generalizing b with
  | nil => rfl
  | cons c xs ih =>
    simp only [List.cons_append, feed]
    split
    · exact ih b
    · rw [ih]
      rfl

/-! ## The tree of a script -/

/-- A command that is not part of a block and leaves the open blocks to those that are. Of the
    commands that are no part of a block, only a game's own could do otherwise. -/
structure IsPlain (c : Command) : Prop where
  apart : c.isConditional = false
  spares : ∀ a, c.action = .host a → ∀ params s, a.blocks params s = s

mutual

/-- A script with its blocks as a tree: a command that is not part of a block, or a block with
    its first branch and the others, and what follows. -/
inductive Script where
  | done
  | plain (c : Command) (hc : IsPlain c) (rest : Script)
  | block (opening : RowContext) (condition : Expression) (first : Script) (others : Branches)
      (rest : Script)

/-- The branches of a block behind the first, up to the command that closes it. -/
inductive Branches where
  | close (closing : RowContext)
  | elseIf (context : RowContext) (condition : Expression) (body : Script) (others : Branches)
  | elseBranch (context : RowContext) (body : Script) (others : Branches)

end

mutual

/-- The commands of a script in order. -/
def Script.commands : Script → List Command
  | .done => []
  | .plain c _ rest => c :: rest.commands
  | .block opening condition first others rest =>
    ⟨opening, .ifStart condition⟩ :: (first.commands ++ (others.commands ++ rest.commands))

/-- The commands of branches in order. -/
def Branches.commands : Branches → List Command
  | .close closing => [⟨closing, .endIf⟩]
  | .elseIf context condition body others =>
    ⟨context, .elseIf condition⟩ :: (body.commands ++ others.commands)
  | .elseBranch context body others =>
    ⟨context, .elseBranch⟩ :: (body.commands ++ others.commands)

end

/-- The parameters after an action. -/
def Action.store (params : Params) : Action → Params
  | assign statements => (statements.apply params).1
  | host action => action.assign params
  | _ => params

mutual

/-- The commands of a script that are executed, and the parameters after them. -/
def Script.play : Script → Params → List Command × Params
  | .done, params => ([], params)
  | .plain c _ rest, params =>
    let (executed, params) := rest.play (c.action.store params)
    (c :: executed, params)
  | .block _ condition first others rest, params =>
    let (inside, params) := if condition.holds params then first.play params else others.play params
    let (behind, params) := rest.play params
    (inside ++ behind, params)

/-- The commands of the first of some branches whose condition holds. -/
def Branches.play : Branches → Params → List Command × Params
  | .close _, params => ([], params)
  | .elseIf _ condition body others, params =>
    if condition.holds params then body.play params else others.play params
  | .elseBranch _ body _, params => body.play params

end

/-- A script inside other blocks is executed if none of these is in a branch that is not
    taken. -/
def Script.playIn (t : Script) (s : IfStack) (params : Params) : List Command × Params :=
  if s.isSuppressed then ([], params) else t.play params

/-! ## What an action leaves alone -/

theorem change_params (a : Action) (b : Board) : (a.change b).params = a.store b.params := by
  cases a with
  | jump target condition? =>
    simp only [Action.change, Action.store]
    split <;> rfl
  | _ => rfl

/-- Commands that are not part of a block do not touch the open blocks. -/
theorem IsPlain.change_ifStack {c : Command} (hc : IsPlain c) (b : Board) :
    (c.action.change b).ifStack = b.ifStack := by
  obtain ⟨hapart, hspares⟩ := hc
  obtain ⟨context, action⟩ := c
  cases action with
  | jump target condition? =>
    simp only [Action.change]
    split <;> rfl
  | ifStart | elseIf | elseBranch | endIf => cases hapart
  | host a => exact hspares a rfl b.params b.ifStack
  | _ => rfl

/-- Actions look at no more than the parameters and the open blocks for the blocks they leave. -/
theorem change_ifStack_congr (a : Action) {b d : Board} (hparams : b.params = d.params)
    (hstack : b.ifStack = d.ifStack) : (a.change b).ifStack = (a.change d).ifStack := by
  cases a with
  | jump target condition? =>
    simp only [Action.change]
    split <;> split <;> exact hstack
  | ifStart | elseIf | elseBranch | endIf | host => simp only [Action.change, hparams, hstack]
  | _ => exact hstack

/-- Feeding looks at no more of a board than the parameters and the open blocks. -/
theorem feed_congr (cs : List Command) {b d : Board} (hparams : b.params = d.params)
    (hstack : b.ifStack = d.ifStack) :
    (feed cs b).1 = (feed cs d).1 ∧ (feed cs b).2.params = (feed cs d).2.params ∧
      (feed cs b).2.ifStack = (feed cs d).2.ifStack := by
  induction cs generalizing b d with
  | nil => exact ⟨rfl, hparams, hstack⟩
  | cons c cs ih =>
    simp only [feed, hstack]
    split
    · exact ih hparams hstack
    · obtain ⟨hexecuted, hparams', hstack'⟩ :=
        ih (b := c.action.change b) (d := c.action.change d)
          (by rw [change_params, change_params, hparams])
          (change_ifStack_congr c.action hparams hstack)
      exact ⟨congrArg (c :: ·) hexecuted, hparams', hstack'⟩

/-! ## The stack reads the tree -/

/-- Commands that are fed to a board execute what a story tells, leave the parameters that it
    leaves, and leave the open blocks as given. -/
structure Reads (r : List Command × Board) (story : List Command × Params) (s : IfStack) :
    Prop where
  executed : plain r.1 = story.1
  params : r.2.params = story.2
  ifStack : r.2.ifStack = s

/-- What reads one script after another reads the first, and then the second with the parameters
    that the first leaves. -/
theorem Reads.append {xs ys : List Command} {b : Board} {story : List Command × Params}
    {s s' : IfStack} (next : Params → List Command × Params) (hxs : Reads (feed xs b) story s)
    (hys : ∀ b', b'.ifStack = s → Reads (feed ys b') (next b'.params) s') :
    Reads (feed (xs ++ ys) b) (story.1 ++ (next story.2).1, (next story.2).2) s' := by
  have h := hys _ hxs.ifStack
  rw [hxs.params] at h
  rw [feed_append]
  refine ⟨?_, h.params, h.ifStack⟩
  rw [plain, List.filter_append]
  exact congr (congrArg _ hxs.executed) h.executed

/-- A command that parts blocks is always executed, and tells nothing itself. -/
theorem Reads.conditional {c : Command} (hc : c.isConditional = true) {rest : List Command}
    {b : Board} {story : List Command × Params} {s : IfStack}
    (h : Reads (feed rest (c.action.change b)) story s) : Reads (feed (c :: rest) b) story s := by
  have hskip : b.ifStack.skips c.isConditional = false := by simp [IfStack.skips, hc]
  unfold feed
  rw [hskip, if_neg (by simp)]
  exact ⟨by simpa [plain, hc] using h.executed, h.params, h.ifStack⟩

/-- Branches are executed if no branch of their block was taken before them, and no block around
    it is in a branch that is not taken. -/
def Branches.playIn (t : Branches) (top : Block) (outer : List Block) (params : Params) :
    List Command × Params :=
  if top.anyTaken || IfStack.isSuppressed ⟨outer⟩ then ([], params) else t.play params

theorem isSuppressed_cons (top : Block) (outer : List Block) :
    IfStack.isSuppressed ⟨top :: outer⟩ = (!top.branchTaken || IfStack.isSuppressed ⟨outer⟩) := rfl

theorem reads_nil {b : Board} {s : IfStack} (hs : b.ifStack = s) :
    Reads (feed [] b) ([], b.params) s := ⟨rfl, rfl, hs⟩

/-- A command that is not part of a block is executed unless the open blocks keep it from it. -/
theorem Reads.plain {c : Command} (hc : IsPlain c) {rest : List Command} {b : Board}
    (next : Params → List Command × Params)
    (h : ∀ b', b'.ifStack = b.ifStack → Reads (feed rest b') (next b'.params) b.ifStack) :
    Reads (feed (c :: rest) b)
      (if b.ifStack.isSuppressed then next b.params
        else (c :: (next (c.action.store b.params)).1, (next (c.action.store b.params)).2))
      b.ifStack := by
  have hskip : b.ifStack.skips c.isConditional = b.ifStack.isSuppressed := by
    simp [IfStack.skips, hc.apart]
  unfold feed
  rw [hskip]
  split
  · exact h b rfl
  · have hrest := h _ (hc.change_ifStack b)
    rw [change_params] at hrest
    exact ⟨by simpa [Command.plain, hc.apart] using hrest.executed, hrest.params, hrest.ifStack⟩

mutual

/-- Feeding the commands of a script executes what the script tells, and leaves the open blocks
    as they were. -/
theorem Script.reads (t : Script) (b : Board) :
    Reads (feed t.commands b) (t.playIn b.ifStack b.params) b.ifStack := by
  cases t with
  | done =>
    have hstory : Script.done.playIn b.ifStack b.params = ([], b.params) := ite_self _
    rw [hstory]
    exact reads_nil rfl
  | plain c hc rest =>
    have hrest := Reads.plain hc (b := b) (rest.playIn b.ifStack) fun b' hb' => by
      have := rest.reads b'
      rwa [hb'] at this
    cases hs : b.ifStack.isSuppressed <;>
      simpa [Script.playIn, Script.play, Script.commands, hs] using hrest
  | block opening condition first others rest =>
    refine Reads.conditional rfl ?_
    have htop := Reads.append
      (fun params =>
        let inside := others.playIn ⟨condition.holds b.params, condition.holds b.params⟩
          b.ifStack.blocks params
        (inside.1 ++ (rest.playIn b.ifStack inside.2).1, (rest.playIn b.ifStack inside.2).2))
      (first.reads ((Action.ifStart condition).change b)) fun b' hb' =>
        Reads.append (rest.playIn b.ifStack) (others.reads b' hb') fun b'' hb'' => by
          have := rest.reads b''
          rwa [hb''] at this
    cases hs : b.ifStack.isSuppressed <;> cases hc : condition.holds b.params <;>
      simpa [Script.playIn, Branches.playIn, Script.play, Action.change, IfStack.pushIf,
        isSuppressed_cons, hs, hc] using htop

/-- Feeding the commands of branches executes what they tell, and closes their block. -/
theorem Branches.reads (t : Branches) (b : Board) {top : Block} {outer : List Block}
    (hb : b.ifStack = ⟨top :: outer⟩) :
    Reads (feed t.commands b) (t.playIn top outer b.params) ⟨outer⟩ := by
  cases t with
  | close closing =>
    refine Reads.conditional rfl ?_
    have hstory : (Branches.close closing).playIn top outer b.params = ([], b.params) := ite_self _
    rw [hstory]
    exact reads_nil (by simp [Action.change, IfStack.endIf, hb])
  | elseIf context condition body others =>
    refine Reads.conditional rfl ?_
    let taken := !top.anyTaken && condition.holds b.params
    have hstack : ((Action.elseIf condition).change b).ifStack =
        ⟨⟨taken, top.anyTaken || condition.holds b.params⟩ :: outer⟩ := by
      cases ht : top.anyTaken <;>
        simp [taken, Action.change, IfStack.elseIf, IfStack.awaitsBranch, hb, ht]
    have hbody := Reads.append
      (others.playIn ⟨taken, top.anyTaken || condition.holds b.params⟩ outer)
      (body.reads ((Action.elseIf condition).change b))
      fun b' hb' => others.reads b' (hb'.trans hstack)
    rw [hstack, change_params] at hbody
    cases ht : top.anyTaken <;> cases hs : IfStack.isSuppressed ⟨outer⟩ <;>
      cases hc : condition.holds b.params <;>
      simpa [taken, Script.playIn, Branches.playIn, Branches.play, isSuppressed_cons,
        Action.store, ht, hs, hc] using hbody
  | elseBranch context body others =>
    refine Reads.conditional rfl ?_
    have hstack : (Action.elseBranch.change b).ifStack = ⟨⟨!top.anyTaken, true⟩ :: outer⟩ := by
      simp [Action.change, IfStack.elseBranch, hb]
    have hbody := Reads.append (others.playIn ⟨!top.anyTaken, true⟩ outer)
      (body.reads (Action.elseBranch.change b))
      fun b' hb' => others.reads b' (hb'.trans hstack)
    rw [hstack, change_params] at hbody
    cases ht : top.anyTaken <;> cases hs : IfStack.isSuppressed ⟨outer⟩ <;>
      simpa [Script.playIn, Branches.playIn, Branches.play, isSuppressed_cons, Action.store,
        ht, hs] using hbody

end

/-- The player's rule reads blocks as they are meant. Fed with the commands of a script, it
    executes those that the tree of the script tells, in order, if no block around the script is
    in a branch that is not taken, and none otherwise; the parameters are those that the tree
    leaves, and the open blocks those from before. -/
theorem feed_commands (t : Script) (b : Board) :
    plain (feed t.commands b).1 =
        (if b.ifStack.isSuppressed then [] else (t.play b.params).1) ∧
      (feed t.commands b).2.params =
        (if b.ifStack.isSuppressed then b.params else (t.play b.params).2) ∧
      (feed t.commands b).2.ifStack = b.ifStack := by
  obtain ⟨hexecuted, hparams, hstack⟩ := t.reads b
  refine ⟨hexecuted.trans ?_, hparams.trans ?_, hstack⟩
  · unfold Script.playIn
    split <;> rfl
  · unfold Script.playIn
    split <;> rfl

end VisualNovel.Command
