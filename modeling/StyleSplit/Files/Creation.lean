import StyleSplit.Files.Lookup
set_option autoImplicit false

/-!
# Creation of files and directories

## Main definitions

* `StyleSplit.FileTree.write` — the content of a file is replaced, or a file created.
* `StyleSplit.FileTree.createDirectories` — a directory and all missing ones around it are created.
-/

namespace StyleSplit.FileTree

/-- The directory that the last segment of a path is looked up in, that segment, and whether a slash
follows it. -/
def entrance (t : FileTree) (p : Path) : Except SystemError (Place × String × Bool) :=
  match textError? p with
  | some e => .error e
  | none =>
    let backward := p.segments.reverse
    match backward.dropWhile (· == "") with
    | [] => .ok (t.startOf p, ".", true)
    | last :: before => do
      let place ← t.walk (t.startOf p) before.reverse
      let place ← t.step place "."
      return (place, last, backward.head? == some "")

/-- **Writing** — the content of a file is replaced; a missing file is created in an existing
directory. -/
def write (t : FileTree) (p : Path) (content : ByteArray) : Except SystemError FileTree := do
  let (directory, last, slash) ← t.entrance p
  if last = "." ∨ last = ".." ∨ slash then .error .isADirectory
  else
    let place ← t.step directory last
    match t.get? place with
    | some .directory => .error .isADirectory
    | _ => return t.put place (.file content)

/-- A directory is created in an existing one. -/
def createDirectory (t : FileTree) (p : Path) : Except SystemError FileTree := do
  let (directory, last, _) ← t.entrance p
  if last = "." ∨ last = ".." then .error .alreadyExists
  else
    let place ← t.step directory last
    match t.get? place with
    | some _ => .error .alreadyExists
    | none => return t.put place .directory

/-- What an operation that can fail on the way leaves behind. -/
structure Attempt where
  tree : FileTree
  error? : Option SystemError
  deriving Inhabited

/-- A directory is created; one that exists already will do. -/
def ensureDirectory (t : FileTree) (p : Path) : Attempt :=
  match t.createDirectory p with
  | .ok tree => ⟨tree, none⟩
  | .error e => ⟨t, if t.isDirectory p then none else some e⟩

/-- Directories are created from the outermost missing one inwards; `n` bounds their number. -/
def createUpTo (t : FileTree) (p : Path) : Nat → Attempt
  | 0 => t.ensureDirectory p
  | n + 1 =>
    match t.createDirectory p, p.parent? with
    | .error .notFound, some parent =>
      if parent.components = [] then t.ensureDirectory p
      else
        let a := t.createUpTo parent n
        match a.error? with
        | some _ => a
        | none => a.tree.ensureDirectory p
    | _, _ => t.ensureDirectory p

/-- **Creating directories** — a directory and all missing ones around it. Where one cannot be
created, those around it stay. -/
def createDirectories (t : FileTree) (p : Path) : Attempt :=
  t.createUpTo p p.segments.length

end StyleSplit.FileTree
