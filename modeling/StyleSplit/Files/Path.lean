set_option autoImplicit false

/-!
# Paths

A path is a text whose segments are separated by slashes. Empty segments and single dots name
nothing, save that a dot in front is kept and a slash in front is the root. Two dots are a segment
of their own: what they lead to depends on the files.

## Main definitions

* `StyleSplit.Path` — a path.
* `StyleSplit.Path.components` — what its segments name; equal paths have equal components.
* `StyleSplit.Path.fileName?`, `StyleSplit.Path.parent?` — the last component and the path before
  it.
* `StyleSplit.Path.stem`, `StyleSplit.Path.extension?` — the parts of a file name around its last
  dot.
* `StyleSplit.Path.join`, `StyleSplit.Path.withFileName` — paths from paths.
-/

namespace StyleSplit

/-- **Paths** — a path by its text. -/
structure Path where
  text : String
  deriving DecidableEq, Repr, Inhabited

namespace Path

/-- The texts between the slashes of a path. -/
def segments (p : Path) : List String :=
  (p.text.toList.splitOn '/').map String.ofList

/-- The path with the given segments. -/
def ofSegments (segments : List String) : Path :=
  ⟨"/".intercalate segments⟩

/-- Whether a path begins at the root. -/
def isAbsolute (p : Path) : Bool :=
  p.text.toList.head? == some '/'

/-- Whether a segment names nothing. -/
def isIdle (segment : String) : Bool :=
  segment == "" || segment == "."

/-- **Components** — the segments of a path that name something. The root is shown as a slash, and
a dot in front as a dot. -/
def components (p : Path) : List String :=
  match p.segments with
  | [] => []
  | s :: more =>
    (if s = "" then (if p.isAbsolute then ["/"] else []) else [s]) ++ more.filter (!isIdle ·)

/-- Segments from the last one on, without those at the end that name nothing; the first segment
of a path stays. -/
def dropIdle : List String → List String
  | s :: t :: more => if isIdle s then dropIdle (t :: more) else s :: t :: more
  | l => l

/-- The segments from the last component on. -/
def backward (p : Path) : List String :=
  dropIdle p.segments.reverse

/-- **The file name** — the last component, if it is a name. -/
def fileName? (p : Path) : Option String :=
  match p.backward with
  | s :: _ => if isIdle s || s == ".." then none else some s
  | [] => none

/-- **The parent** — the text before the last component, without slashes and idle segments at its
end. The root and the empty path have none. -/
def parent? (p : Path) : Option Path :=
  match p.backward with
  | [] => none
  | [s] => if s = "" then none else some ⟨""⟩
  | _ :: more =>
    match dropIdle more with
    | [""] => some ⟨"/"⟩
    | rest => some (ofSegments rest.reverse)

/-- A file name around its last dot: the stem, and the extension if there is one. A dot in front
begins no extension. -/
def splitName (name : String) : String × Option String :=
  let backward := name.toList.reverse
  let extension := backward.takeWhile (· != '.')
  match backward.dropWhile (· != '.') with
  | _ :: c :: stem => (String.ofList (c :: stem).reverse, some (String.ofList extension.reverse))
  | _ => (name, none)

/-- The file name before its last dot; empty if there is no file name. -/
def stem (p : Path) : String :=
  match p.fileName? with
  | some name => (splitName name).1
  | none => ""

/-- The file name after its last dot. -/
def extension? (p : Path) : Option String :=
  p.fileName?.bind fun name => (splitName name).2

/-- **Joining** — the second path as seen from the first one. -/
def join (p q : Path) : Path :=
  if q.isAbsolute then q
  else if p.text = "" ∨ p.text.toList.getLast? = some '/' then ⟨p.text ++ q.text⟩
  else ⟨p.text ++ "/" ++ q.text⟩

/-- **Another file name** — the path with its file name replaced, or with one added if it has
none. -/
def withFileName (p : Path) (name : String) : Path :=
  match p.fileName?, p.parent? with
  | some _, some parent => parent.join ⟨name⟩
  | _, _ => p.join ⟨name⟩

end Path

end StyleSplit
