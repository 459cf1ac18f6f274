import StyleSplit.Files.Lookup
import StyleSplit.Files.Pattern
set_option autoImplicit false

/-!
# Expansion of patterns

The paths in a file tree that a pattern stands for, in the order in which a walk through the tree
meets them: directory by directory in ascending order of names, what is in a directory after the
directory itself.

The segments of a pattern are expanded one after the other, each from all paths that those before it
stand for. Segments for any depth reach a path in many ways; it is kept where it is met first, so
the work does not grow with the number of ways.

## Main definitions

* `StyleSplit.FileTree.descendants` — all that is below a directory.
* `StyleSplit.FileTree.expandSegment` — the paths in a directory that one segment stands for.
* `StyleSplit.FileTree.expandFrom` — the paths that segments stand for below given paths.
* `StyleSplit.FileTree.expand` — the paths that a pattern stands for.

## Main results

* `StyleSplit.FileTree.mem_descendantsWith` — dropping repeats drops no path.
-/

namespace StyleSplit.FileTree

/-- The path of a name in a directory. The working directory is not named in it. -/
def pathIn (directory : Path) (name : String) : Path :=
  if directory.components = ["."] then ⟨name⟩ else directory.join ⟨name⟩

/-- **Descendants** — all that is below a directory, every path before what is below it. No more
than `depth` levels are visited. -/
def descendants (t : FileTree) : Nat → Path → List Path
  | 0, _ => []
  | depth + 1, directory =>
    (t.list directory).flatMap fun name =>
      pathIn directory name :: t.descendants depth (pathIn directory name)

/-- A number of levels that no walk exceeds: each level takes an entry of its own, or a name on the
way to the working directory. -/
def depthBound (t : FileTree) : Nat :=
  t.entries.length + t.origin.length + 1

/-- The paths below any of the given paths that pass a test, each of them once. -/
def descendantsWith (t : FileTree) (accepts : Path → Bool) (paths : List Path) : List Path :=
  (paths.flatMap fun path => (t.descendants t.depthBound path).filter accepts).eraseDups

/-- Dropping repeats drops no path. -/
theorem mem_descendantsWith {t : FileTree} {accepts : Path → Bool} {paths : List Path} {p : Path} :
    p ∈ t.descendantsWith accepts paths ↔
      (∃ d ∈ paths, p ∈ t.descendants t.depthBound d) ∧ accepts p = true := by
  simp only [descendantsWith, List.mem_eraseDups, List.mem_flatMap, List.mem_filter]
  constructor
  · rintro ⟨d, hd, hp, ha⟩
    exact ⟨⟨d, hd, hp⟩, ha⟩
  · rintro ⟨⟨d, hd, hp⟩, ha⟩
    exact ⟨d, hd, hp, ha⟩

/-- **Expansion of a segment** — the paths in a directory that a segment stands for. A name without
wildcards is only looked up, as it is written. Wildcards stand for the names in the directory; the
names of one and two dots are among these only for wildcards that begin with a dot, and come
first. -/
def expandSegment (t : FileTree) (segment : Segment) (path : Path) : List Path :=
  match segment with
  | .literal name =>
    let next := pathIn path name
    let dots := name == "." || name == ".."
    if (if dots then t.isDirectory path else t.isThere next) then [next] else []
  | _ =>
    let dots := ["..", "."].filter fun name => segment.startsDot && segment.matchesName name
    let names := (t.list path).filter segment.matchesName
    if t.isDirectory path then
      (dots.map fun name => path.join ⟨name⟩) ++ names.map (pathIn path)
    else []

/-- **Expansion of segments** — the paths that segments stand for below given paths. Segments for
any depth in a row count as one; at the end they stand for directories. -/
def expandFrom (t : FileTree) : List Segment → List Path → List Path
  | [], paths => paths
  | [.anyDepth], paths => t.descendantsWith t.isDirectory paths
  | .anyDepth :: .anyDepth :: more, paths => t.expandFrom (.anyDepth :: more) paths
  | .anyDepth :: segment :: more, paths =>
    t.expandFrom more (t.descendantsWith (·.fileName?.any segment.matchesName) paths)
  | segment :: more, paths => t.expandFrom more (paths.flatMap (t.expandSegment segment))

/-- **Expansion** — the paths that a pattern stands for, seen from the working directory or from the
root. -/
def expand (t : FileTree) (p : Pattern) : List Path :=
  let paths := t.expandFrom p.segments [⟨if p.absolute then "/" else "."⟩]
  if p.directoriesOnly then paths.filter t.isDirectory else paths

end StyleSplit.FileTree
