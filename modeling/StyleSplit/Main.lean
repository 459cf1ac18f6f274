import StyleSplit.CommandLine
set_option autoImplicit false

/-!
# The program

The outer layer: what the arguments name is read from the disk into a tree, the program is run on
it, and what has changed in the tree is written back. Files are read wherever they are, below the
working directory or not: patterns and paths are followed on the disk as they are in the tree.

## Main definitions

* `StyleSplit.Program.snapshot` — the tree of what the arguments name.
* `StyleSplit.Program.commit` — what has changed in a tree is written to the disk.
* `main` — the program.
-/

namespace StyleSplit.Program

/-! ## The disk -/

/-- The path of a place on the disk. -/
def diskPath (p : Place) : String :=
  "/" ++ "/".intercalate p

/-- Whether a directory is at a place on the disk. -/
def isDirectory (p : Place) : IO Bool := do
  let path := (← IO.currentDir) / diskPath p
  path.isDir

/-- The names in a directory on the disk. -/
def namesIn (p : Place) : IO (List String) := do
  if ← isDirectory p then
    try
      let path := (← IO.currentDir) / diskPath p
      return (← path.readDir).toList.map (·.fileName)
    catch _ =>
      return []
  else
    return []

/-- A place on the disk and all that is below it. -/
partial def within (p : Place) : IO (List Place) := do
  let inner ← (← namesIn p).mapM fun name => within (p ++ [name])
  return p :: inner.flatten

/-- The tree with what is at a place on the disk. -/
def add (t : FileTree) (p : Place) : IO FileTree := do
  if (t.get? p).isSome then
    return t
  else if ← isDirectory p then
    return t.put p .directory
  else
    try
      return t.put p (.file (← IO.FS.readBinFile (diskPath p)))
    catch _ =>
      return t

/-! ## What is named -/

/-- The tree with the files and directories that a path leads through, and the place it names. -/
def addPath (t : FileTree) (p : Path) : IO (FileTree × Place) :=
  p.segments.foldlM (fun (t, place) segment => do
    let next := Place.go place segment
    return (← add t next, next)) (t, t.startOf p)

/-- The places that a segment of a pattern stands for from a place on the disk. -/
def placesOf (p : Place) : Segment → IO (List Place)
  | .literal name => return [p.go name]
  | .anyDepth => within p
  | segment => do
    let dots := [".", ".."].filter fun name => segment.startsDot && segment.matchesName name
    return (dots ++ (← namesIn p).filter segment.matchesName).map p.go

/-- The tree with what a pattern stands for, and with what it leads through. -/
def addPattern (t : FileTree) (p : Pattern) : IO FileTree := do
  let start := if p.absolute then [] else t.origin
  let (t, _) ← p.segments.foldlM (fun (t, places) segment => do
    let next := (← places.mapM (placesOf · segment)).flatten
    return (← next.foldlM add t, next)) (t, [start])
  return t

/-- The tree with what a destination leads through. Beside and below it only directories matter: a
file that is written there may exist or not. -/
def addDestination (t : FileTree) (p : Path) : IO FileTree := do
  let (t, place) ← addPath t p
  let near ← [place.dropLast, place].mapM fun around => do
    return (← namesIn around).map (around ++ [·])
  let directories ← near.flatten.filterM isDirectory
  directories.foldlM add t

/-- The tree with what a target names. -/
def addTarget (t : FileTree) (target : Target) : IO FileTree := do
  let patterns := target.sources.filterMap fun text => (Pattern.parse text).toOption
  addDestination (← patterns.foldlM addPattern t) target.destination

/-- **Snapshots** — the tree of what the arguments name. A task file is read before what it names
in turn. -/
def snapshot (args : List String) : IO FileTree := do
  let origin := (← IO.currentDir).components.filter (· ≠ "")
  let t : FileTree := { entries := [], origin }
  match Arguments.read args with
  | .run a => do
    let t ← match a.config with
      | none => pure t
      | some path => Prod.fst <$> addPath t path
    match startConfig t a with
    | .ok c => (a.addTo c).targets.foldlM addTarget t
    | .error _ => return t
  | _ => return t

/-- What is new or different in a tree is written to the disk. -/
def commit (before after : FileTree) : IO Unit :=
  after.entries.forM fun (place, entry) =>
    match before.get? place, entry with
    | none, .directory => IO.FS.createDirAll (diskPath place)
    | some (.file old), .file new =>
      if old.data == new.data then pure () else IO.FS.writeBinFile (diskPath place) new
    | _, .file new => IO.FS.writeBinFile (diskPath place) new
    | _, .directory => pure ()

end StyleSplit.Program

open StyleSplit StyleSplit.Program in
/-- **The program** — its exit code is that of the run. -/
def main (args : List String) : IO UInt32 := do
  let before ← snapshot args
  let exit := execute before args
  commit before exit.tree
  IO.print exit.output
  IO.eprint exit.log
  return exit.code.toUInt32
