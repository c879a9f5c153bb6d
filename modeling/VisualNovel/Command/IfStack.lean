/-
  Which branch of which block is taken. Each open block has a frame: whether the branch the
  story is in is taken, and whether any branch of the block was taken so far. A command is
  passed over as long as some open block is in a branch that is not taken.
-/

namespace VisualNovel.Command

/-- An open block. -/
structure Block where
  branchTaken : Bool
  anyTaken : Bool
  deriving Repr, DecidableEq

/-- The open blocks, the innermost first. -/
structure IfStack where
  blocks : List Block
  deriving Repr, DecidableEq

namespace IfStack

/-- No open block. -/
def empty : IfStack := ⟨[]⟩

/-- The number of open blocks. -/
def depth (s : IfStack) : Nat := s.blocks.length

/-- Opens a block. -/
def pushIf (s : IfStack) (condition : Bool) : IfStack := ⟨⟨condition, condition⟩ :: s.blocks⟩

/-- Whether the innermost block still looks for the branch to take. -/
def awaitsBranch (s : IfStack) : Bool :=
  match s.blocks with
  | [] => false
  | top :: _ => !top.anyTaken

/-- Goes on to a branch with a condition, which is taken if it holds and no earlier one was. -/
def elseIf (s : IfStack) (condition : Bool) : IfStack :=
  match s.blocks with
  | [] => s
  | top :: rest =>
    if top.anyTaken then ⟨⟨false, true⟩ :: rest⟩ else ⟨⟨condition, condition⟩ :: rest⟩

/-- Goes on to the branch that is taken if no other was. -/
def elseBranch (s : IfStack) : IfStack :=
  match s.blocks with
  | [] => s
  | top :: rest => ⟨⟨!top.anyTaken, true⟩ :: rest⟩

/-- Closes the innermost block. -/
def endIf (s : IfStack) : IfStack := ⟨s.blocks.tail⟩

/-- Some open block is in a branch that is not taken. -/
def isSuppressed (s : IfStack) : Bool := s.blocks.any fun b => !b.branchTaken

/-- Whether a command is passed over; those that open, part and close blocks never are. -/
def skips (s : IfStack) (isConditional : Bool) : Bool := !isConditional && s.isSuppressed

end IfStack

end VisualNovel.Command
