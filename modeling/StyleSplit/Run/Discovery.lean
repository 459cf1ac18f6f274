import StyleSplit.Files.Destination
import StyleSplit.Files.Expansion
import StyleSplit.Run.Failure
set_option autoImplicit false

/-!
# Discovery of source files

A target names its source files by patterns. Discovery finds the files they stand for, each of them
once, and the destinations of their parts.

## Main definitions

* `StyleSplit.Target`, `StyleSplit.SourceFile` — what is asked for and what is found.
* `StyleSplit.discover` — the source files of a target.
-/

namespace StyleSplit

/-- **Targets** — patterns for source files, and where their parts go. -/
structure Target where
  sources : List String
  destination : Path
  deriving DecidableEq, Repr, Inhabited

/-- **Source files** — a stylesheet and the path that its parts are named after. -/
structure SourceFile where
  path : Path
  destination : Path
  deriving DecidableEq, Repr, Inhabited

/-- The paths of a list whose components are neither among those seen nor those of an earlier
path. -/
def distinctFrom (seen : List (List String)) : List Path → List Path
  | [] => []
  | p :: more =>
    let c := p.components
    if c ∈ seen then distinctFrom seen more else p :: distinctFrom (c :: seen) more

/-- The paths of a list without those that have the components of an earlier one. -/
def distinct (paths : List Path) : List Path :=
  distinctFrom [] paths

/-- The files that a pattern stands for. -/
def filesOf (tree : FileTree) (pattern : String) : Except Failure (List Path) :=
  match Pattern.parse pattern with
  | .error e => .error (.pattern pattern e)
  | .ok p => .ok ((tree.expand p).filter tree.isFile)

/-- **Discovery** — the files that the patterns of a target stand for, in the order of the patterns
and each of them once. A target must stand for at least one file. -/
def discover (tree : FileTree) (target : Target) : Except Failure (List SourceFile) := do
  let found ← target.sources.mapM (filesOf tree)
  match distinct found.flatten with
  | [] => .error (.noInput target.sources)
  | paths => return paths.map fun p => ⟨p, destinationOf p target.destination⟩

end StyleSplit
