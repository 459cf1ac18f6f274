import StyleSplit.Files.Standpoint
set_option autoImplicit false

/-!
# Files by their paths

## Main definitions

* `StyleSplit.FileTree.follow` — the place and the entry that a path leads to.
* `StyleSplit.FileTree.startOf` — where the segments of a path begin.
* `StyleSplit.FileTree.list` — the names in a directory, in the order of their bytes.
* `StyleSplit.FileTree.read` — the text of a file.
-/

namespace StyleSplit.FileTree

/-- The number of bytes that the text of a path may have. -/
def maxPathBytes : Nat := 4095

/-- What is wrong with the text of a path by itself. -/
def textError? (p : Path) : Option SystemError :=
  if p.text.toList.contains '\x00' then some .nulInName
  else if p.text = "" then some .notFound
  else if maxPathBytes < p.text.utf8ByteSize then some .nameTooLong
  else none

/-- Where the segments of a path begin: at the root or in the working directory. -/
def startOf (t : FileTree) (p : Path) : Place :=
  if p.isAbsolute then [] else t.origin

/-- **Following** — the place and the entry that a path leads to. -/
def follow (t : FileTree) (p : Path) : Except SystemError (Place × Entry) :=
  match textError? p with
  | some e => .error e
  | none => do
    let place ← t.walk (t.startOf p) p.segments
    match t.get? place with
    | none => .error .notFound
    | some entry => return (place, entry)

/-- Whether a path leads to something. -/
def isThere (t : FileTree) (p : Path) : Bool :=
  (t.follow p).toOption.isSome

/-- Whether a path leads to a file. -/
def isFile (t : FileTree) (p : Path) : Bool :=
  match t.follow p with
  | .ok (_, .file _) => true
  | _ => false

/-- Whether a path leads to a directory. -/
def isDirectory (t : FileTree) (p : Path) : Bool :=
  match t.follow p with
  | .ok (_, .directory) => true
  | _ => false

/-- The name that leads from a directory around the working directory towards it. -/
def ahead? (t : FileTree) (p : Place) : Option String :=
  if t.isAround p then (t.origin.drop p.length).head? else none

/-- The names in a directory, in ascending order. -/
def children (t : FileTree) (p : Place) : List String :=
  let places := t.entries.map (·.1)
  let listed := places.filterMap fun q => if q.dropLast = p then q.getLast? else none
  let ahead := t.ahead? p
  (ahead.toList ++ listed.filter (some · != ahead)).mergeSort (fun a b => decide (a ≤ b))

/-- **Listing** — the names in the directory that a path leads to. -/
def list (t : FileTree) (p : Path) : List String :=
  match t.follow p with
  | .ok (place, .directory) => t.children place
  | _ => []

/-- **Reading** — the text of a file. -/
def read (t : FileTree) (p : Path) : Except SystemError String := do
  match ← t.follow p with
  | (_, .directory) => .error .isADirectory
  | (_, .file content) =>
    match String.fromUTF8? content with
    | none => .error .notText
    | some text => .ok text

end StyleSplit.FileTree
