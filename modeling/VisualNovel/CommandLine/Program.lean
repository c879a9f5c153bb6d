import VisualNovel.CommandLine.Help
import VisualNovel.CommandLine.Run

/-
  The program as a whole: from its arguments and the files it sees to the lines it prints, the
  files it leaves and its exit code. The code is zero if all went well, one if something failed
  or a script has errors, and two if the arguments are wrong.
-/

namespace VisualNovel.CommandLine

open Disk (FileTree)

/-- What the program leaves. -/
structure Outcome where
  code : Nat
  lines : List String
  files : FileTree

/-- The exit code of arguments that are not carried out. -/
def Stop.code : Stop → Nat
  | misuse => 2
  | _ => 0

/-- The lines for arguments that are not carried out. -/
def Stop.lines : Stop → List String
  | misuse => []
  | help topic => topic.help
  | version => [versionLine]

/-- The exit code of what failed. -/
def failureCode : Nat := 1

/-- The exit code of a run whose frames take no time, which no clock can tick. -/
def noFrameCode : Nat := 101

/-- The exit code of checking. -/
def CheckResult.code (r : CheckResult) : Nat :=
  match r.result with
  | .ok 0 => 0
  | _ => failureCode

/-- Plays a scenario to its end, or for so many frames. -/
def runProgram (frames : Nat) (files : FileTree) (home : String) (options : RunOptions) :
    Outcome :=
  match Session.begin files home options with
  | .error _ => ⟨failureCode, [], files⟩
  | .ok s =>
    if s.frame = 0 then ⟨noFrameCode, [], files⟩
    else
      let s := s.play frames 0
      let lines := s.player.stage.lines.toList
      match s.close files with
      | .ok files => ⟨0, lines, files⟩
      | .error _ => ⟨failureCode, lines, files⟩

/-- The program. A scenario that goes on is played for `frames` frames. -/
def program (frames : Nat) (files : FileTree) (home : String) (args : List String) : Outcome :=
  match readArguments args with
  | .error stop => ⟨stop.code, stop.lines, files⟩
  | .ok (.check options) =>
    let r := check files home options
    ⟨r.code, r.lines, files⟩
  | .ok (.run options) => runProgram frames files home options

end VisualNovel.CommandLine
