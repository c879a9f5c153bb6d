import VisualNovel.CommandLine.Arguments
import VisualNovel.Configuration.Reading
import VisualNovel.Scenario.Files

/-
  Checking scripts. Each script is compiled; its size, its labels and its errors are printed in
  lines. Scripts of one name are compiled once.
-/

namespace VisualNovel.CommandLine

open Disk (FileTree)
open Scenario (Corpus)

/-- The configuration at a path, or that of a program that is given none. -/
def loadSettings (files : FileTree) (home : String) :
    Option String → Except Error Configuration.Settings
  | some path => Configuration.ofFile files path
  | none => Configuration.load files home

/-- The lines about a script. -/
def reportOf (path : String) (s : Scenario) : List String :=
  (path ++ ": " ++ Decimal.natText s.commands.length ++ " commands, "
      ++ Decimal.natText s.labels.length ++ " labels")
    :: s.labels.map (fun l => "  *" ++ l.1 ++ " at command " ++ Decimal.natText l.2)
    ++ s.diagnostics.map fun e => "  error: " ++ e.message

/-- What came of checking: the lines, and the number of errors in scripts unless something could
    not be read. -/
structure CheckResult where
  lines : List String
  result : Except Error Nat

/-- The result with lines and errors of a script before it. -/
def CheckResult.after (lines : List String) (problems : Nat) (r : CheckResult) : CheckResult :=
  ⟨lines ++ r.lines, r.result.map (problems + ·)⟩

/-- Checks scripts one after the other. -/
def checkScripts (files : FileTree) (script : Configuration.ScriptSettings) :
    List String → Corpus → CheckResult
  | [], _ => ⟨[], .ok 0⟩
  | path :: rest, corpus =>
    match Scenario.loadTable files script path with
    | .error e => ⟨[], .error e⟩
    | .ok table =>
      let (corpus, s) := corpus.compile table
      (checkScripts files script rest corpus).after (reportOf path s) s.diagnostics.length

/-- Checks the scripts of the options. -/
def check (files : FileTree) (home : String) (options : CheckOptions) : CheckResult :=
  match loadSettings files home options.config? with
  | .error e => ⟨[], .error e⟩
  | .ok settings =>
    match Scenario.loadCorpus files settings with
    | .error e => ⟨[], .error e⟩
    | .ok corpus => checkScripts files settings.script options.scripts corpus

end VisualNovel.CommandLine
