import VisualNovel.Asset.FileLoader
import VisualNovel.CommandLine.Check
import VisualNovel.History.File
import VisualNovel.Player.Run
import VisualNovel.Stage.Console

/-
  Playing a scenario in the console. The player ticks once a frame until nothing is left to
  play; then the reading history is written back, if it was asked for.
-/

namespace VisualNovel.CommandLine

open Asset (FileLoader)
open Disk (FileTree)
open Stage (Console)

/-- A player that plays in the console. -/
abbrev ConsolePlayer := Player Console FileLoader Scenario.Library

/-- A player of scripts, as it is configured. -/
def loadPlayer (files : FileTree) (settings : Configuration.Settings) (scripts : List String)
    (picks : List Nat) (assetRoot : String) (history? : Option History.ReadHistory) :
    Except Error ConsolePlayer := do
  let library ← Scenario.loadTables files settings.script scripts .empty
  let corpus ← Scenario.loadCorpus files settings
  pure (.ready (.ofPicks picks) (.ofRoot files assetRoot) library corpus
    settings.player.preloadCap settings.params settings.galleryLabels history?)

/-- The history at a path, if one was asked for. -/
def loadHistory (files : FileTree) :
    Option String → Except Error (Option History.ReadHistory)
  | none => .ok none
  | some path => (History.load files path).map some

/-- A run in the console: the player, the nanoseconds from frame to frame, and the file for the
    history. -/
structure Session where
  player : ConsolePlayer
  frame : Nat
  historyFile? : Option String

/-- Begins a run. -/
def Session.begin (files : FileTree) (home : String) (options : RunOptions) :
    Except Error Session := do
  let settings ← loadSettings files home options.config?
  let player ←
    loadPlayer files settings options.scripts options.picks options.assetRoot none
  let history? ← loadHistory files options.history?
  pure
    { player := { player with history? }.start options.label options.page options.gallery?
      frame := settings.player.frameInterval * 1000000
      historyFile? := options.history? }

/-- Plays one frame at a time of the clock; tells whether there is more to play. -/
def Session.tick (s : Session) (clock : Nat) : Session × Bool :=
  let stage := { s.player.stage with clock }
  let (player, status) := { s.player with stage }.tick
  ({ s with player }, status != .halted)

/-- Plays frame after frame, `frames` at most, from a time of the clock on. -/
def Session.play : Nat → Nat → Session → Session
  | 0, _, s => s
  | frames + 1, clock, s =>
    match s.tick clock with
    | (s, true) => s.play frames (clock + s.frame)
    | (s, false) => s

/-- Writes the history back. -/
def Session.close (s : Session) (files : FileTree) : Except Error FileTree :=
  match s.historyFile?, s.player.history? with
  | some path, some h => History.save h files path
  | _, _ => .ok files

end VisualNovel.CommandLine
