import VisualNovel.CommandLine.Program

/-
  The command line. It reads from the disk what the program needs, lets the program do its work
  and prints. While a scenario is played it prints each line when it comes and ticks with the
  clock.
-/

open VisualNovel
open CommandLine

namespace CommandLineMain

/-- What lies at a path on the disk. -/
def nodeAt? (path : String) : IO (Option Disk.Node) := do
  let file := (← IO.currentDir) / path
  if ← file.isDir then return some .directory
  if !(← file.pathExists) then return none
  let bytes ← IO.FS.readBinFile file
  return some (.file (.bytes bytes.toList))

/-- The places on the way along a path, with the paths that lead to them. -/
def stepsOf (tree : Disk.FileTree) (path : String) : List (String × Disk.Place) :=
  let start := if Disk.isAbsolute path then "/" else ""
  ((Disk.parts path).foldl
    (fun (way : List (String × Disk.Place)) part =>
      let (before, place) := way.headD (start, tree.origin path)
      (Disk.joinPath before part, if part = ".." then place.tail else part :: place) :: way)
    []).reverse

/-- Adds to a tree what lies along a path. -/
def addPath (tree : Disk.FileTree) (path : String) : IO Disk.FileTree :=
  (stepsOf tree path).foldlM (fun tree step => do
    match ← nodeAt? step.1 with
    | some node => return tree.put step.2 node
    | none => return tree) tree

/-- Adds to a tree what lies along a path and below it. -/
partial def addBelow (tree : Disk.FileTree) (path : String) : IO Disk.FileTree := do
  let tree ← addPath tree path
  let directory := (← IO.currentDir) / path
  if ← directory.isDir then
    (← directory.readDir).foldlM (fun tree entry =>
      addBelow tree (Disk.joinPath path entry.fileName)) tree
  else return tree

/-- Adds to a tree the configuration files that a path may stand for. -/
def addConfiguration (tree : Disk.FileTree) (path : String) : IO Disk.FileTree :=
  (path :: Configuration.Format.all.map fun f => path ++ "." ++ f.extension).foldlM addPath tree

/-- The tree of the configuration files. -/
def configurationTree (home : String) (config? : Option String) : IO Disk.FileTree := do
  let current := (Disk.parts (← IO.currentDir).toString).reverse
  let tree : Disk.FileTree := ⟨[], current⟩
  let tree := (List.range current.length).foldl
    (fun (tree : Disk.FileTree) n => tree.put (current.drop n) .directory) tree
  match config? with
  | some path => addConfiguration tree path
  | none =>
    addConfiguration (← addConfiguration tree (Configuration.homeFile home))
      Configuration.currentFile

/-- The tree of all that the program reads. -/
def programTree (home : String) (scripts : List String) (config? : Option String)
    (others : List String) : IO Disk.FileTree := do
  let tree ← configurationTree home config?
  let characters? :=
    match loadSettings tree home config? with
    | .ok settings => settings.script.characters?
    | .error _ => none
  (scripts ++ characters?.toList ++ others).foldlM addPath tree

/-- Tells an error. -/
def tell (e : Error) : IO UInt32 := do
  IO.eprintln ("Error: " ++ e.message)
  return UInt32.ofNat failureCode

/-- Ticks with the clock until nothing is left to play; `printed` lines are printed already. -/
partial def playOn (started printed : Nat) (s : Session) : IO Session := do
  let (s, more) := s.tick ((← IO.monoNanosNow) - started)
  let lines := s.player.stage.lines
  for line in lines.toList.drop printed do
    IO.println line
  if more then
    IO.sleep (UInt32.ofNat (s.frame / 1000000))
    playOn started lines.size s
  else return s

/-- Plays a scenario. -/
def play (home : String) (options : RunOptions) : IO UInt32 := do
  let tree ← programTree home options.scripts options.config? options.history?.toList
  let tree ← addBelow tree options.assetRoot
  match Session.begin tree home options with
  | .error e => tell e
  | .ok s =>
    if s.frame = 0 then return UInt32.ofNat noFrameCode
    let s ← playOn (← IO.monoNanosNow) 0 s
    match s.close tree, options.history? with
    | .error e, _ => tell e
    | .ok files, some path =>
      match files.readText path with
      | .ok text => IO.FS.writeFile path text
      | .error _ => pure ()
      return 0
    | .ok _, none => return 0

/-- Checks scripts. -/
def checkAll (home : String) (options : CheckOptions) : IO UInt32 := do
  let tree ← programTree home options.scripts options.config? []
  let r := check tree home options
  for line in r.lines do
    IO.println line
  match r.result with
  | .error e => tell e
  | .ok _ => return UInt32.ofNat r.code

end CommandLineMain

/-- Reads the arguments and does what they ask for. -/
def main (args : List String) : IO UInt32 := do
  let home := (← IO.getEnv "HOME").getD "/"
  match readArguments args with
  | .error stop =>
    for line in stop.lines do
      IO.println line
    return UInt32.ofNat stop.code
  | .ok (.check options) => CommandLineMain.checkAll home options
  | .ok (.run options) => CommandLineMain.play home options
