set_option autoImplicit false

/-!
# File name patterns

A pattern is a path whose segments may hold wildcards: a question mark for any character, a star for
any characters, a class in square brackets for one of its members, and two stars as a segment of
their own for directories at any depth.

## Main definitions

* `StyleSplit.Wildcard`, `StyleSplit.Wildcard.standFor` — the parts of a segment, and the names that
  they stand for.
* `StyleSplit.Wildcard.matchesAll` — the same, computed in one pass for each wildcard.
* `StyleSplit.PatternError` — what can be wrong with a pattern.
* `StyleSplit.Pattern.parse` — the pattern of a text.

## Main results

* `StyleSplit.Wildcard.matchesAll_eq_standFor` — matching computes the meaning of wildcards.
-/

namespace StyleSplit

/-! ## Wildcards -/

/-- The characters from one to another. -/
structure CharRange where
  first : Char
  last : Char
  deriving DecidableEq, Repr, Inhabited

/-- Whether a character is in one of the given ranges. -/
def CharRange.holds (ranges : List CharRange) (c : Char) : Bool :=
  ranges.any fun r => r.first ≤ c && c ≤ r.last

/-- **Wildcards** — the parts of a pattern. -/
inductive Wildcard
  /-- The character itself. -/
  | char (c : Char)
  | anyChar
  | anyChars
  /-- A member of a class, or of none of its ranges where the class is negated. -/
  | oneOf (negated : Bool) (ranges : List CharRange)
  /-- Directories at any depth. -/
  | anyDepth
  deriving DecidableEq, Repr, Inhabited

/-- The end parts of a text, the longest first. -/
def endParts : List Char → List (List Char)
  | [] => [[]]
  | c :: r => (c :: r) :: endParts r

/-- **The meaning of wildcards** — whether a name is one of those that wildcards stand for. A leading
dot is a character like any other. A star tries all end parts of the name, so this is a definition
to reason with; `Wildcard.matchesAll` computes the same. -/
def Wildcard.standFor : List Wildcard → List Char → Bool
  | [], s => s.isEmpty
  | .char c :: ws, s =>
    match s with
    | d :: r => c == d && standFor ws r
    | [] => false
  | .anyChar :: ws, s =>
    match s with
    | _ :: r => standFor ws r
    | [] => false
  | .oneOf negated ranges :: ws, s =>
    match s with
    | d :: r => (CharRange.holds ranges d != negated) && standFor ws r
    | [] => false
  | .anyChars :: ws, s => (endParts s).any (standFor ws)
  | .anyDepth :: ws, s => (endParts s).any (standFor ws)

/-! ## Matching

Whether wildcards stand for a name is computed for all end parts of the name at once, from the last
wildcard to the first. Each wildcard takes one pass over the name, whatever stands around it. -/

/-- The row for wildcards behind one that stands for a character with a property: an end part
qualifies if its first character has the property and the next end part qualified. -/
def afterOne (p : Char → Bool) : List Char → List Bool → List Bool
  | d :: r, _ :: row => (p d && row.headD false) :: afterOne p r row
  | _, _ => [false]

/-- The row for wildcards behind one that stands for any characters: an end part qualifies if it or
a later one did. -/
def afterAny : List Bool → List Bool
  | [] => []
  | b :: row =>
    let later := afterAny row
    (b || later.headD false) :: later

/-- For each end part of a name, the longest first, whether wildcards stand for it. -/
def Wildcard.row (s : List Char) : List Wildcard → List Bool
  | [] => List.replicate s.length false ++ [true]
  | .char c :: ws => afterOne (c == ·) s (row s ws)
  | .anyChar :: ws => afterOne (fun _ => true) s (row s ws)
  | .oneOf negated ranges :: ws =>
    afterOne (fun d => CharRange.holds ranges d != negated) s (row s ws)
  | .anyChars :: ws => afterAny (row s ws)
  | .anyDepth :: ws => afterAny (row s ws)

/-- **Matching** — whether a name is one of those that wildcards stand for. -/
def Wildcard.matchesAll (ws : List Wildcard) (s : List Char) : Bool :=
  (row s ws).headD false

theorem headD_map_endParts (f : List Char → Bool) (s : List Char) :
    ((endParts s).map f).headD false = f s := by
  cases s <;> rfl

theorem afterOne_map_endParts (p : Char → Bool) (f : List Char → Bool) (s : List Char) :
    afterOne p s ((endParts s).map f) = (endParts s).map fun t =>
      match t with
      | d :: r => p d && f r
      | [] => false := by
  induction s with
  | nil => rfl
  | cons d r ih => rw [endParts, List.map_cons, afterOne, headD_map_endParts, ih, List.map_cons]

theorem afterAny_map_endParts (f : List Char → Bool) (s : List Char) :
    afterAny ((endParts s).map f) = (endParts s).map fun t => (endParts t).any f := by
  induction s with
  | nil => simp [endParts, afterAny]
  | cons d r ih =>
    rw [endParts, List.map_cons, afterAny, ih, headD_map_endParts, List.map_cons, endParts,
      List.any_cons]

/-- A row says for each end part whether the wildcards stand for it. -/
theorem Wildcard.row_eq_map (s : List Char) (ws : List Wildcard) :
    row s ws = (endParts s).map (standFor ws) := by
  induction ws with
  | nil =>
    induction s with
    | nil => rfl
    | cons d r ih =>
      rw [row] at ih ⊢
      rw [endParts, List.map_cons, ← ih]
      rfl
  | cons w ws ih =>
    cases w with
    | char | anyChar | oneOf =>
      rw [row, ih, afterOne_map_endParts]
      congr 1
    | anyChars | anyDepth =>
      rw [row, ih, afterAny_map_endParts]
      rfl

/-- Matching computes the meaning of wildcards. -/
theorem Wildcard.matchesAll_eq_standFor (ws : List Wildcard) (s : List Char) :
    matchesAll ws s = standFor ws s := by
  rw [matchesAll, row_eq_map, headD_map_endParts]

/-! ## Reading wildcards -/

/-- **Pattern flaws** — what can be wrong with a pattern. -/
inductive PatternFlaw
  /-- More than two stars in a row. -/
  | starRun
  /-- Two stars beside something else. -/
  | depthInName
  /-- A bracket that opens no class. -/
  | badClass
  deriving DecidableEq, Repr, Inhabited

/-- What is said about a pattern flaw. -/
def PatternFlaw.message : PatternFlaw → String
  | starRun => "wildcards are either regular `*` or recursive `**`"
  | depthInName => "recursive wildcards must form a single path component"
  | badClass => "invalid range pattern"

/-- **Pattern errors** — a flaw and the number of characters before it. -/
structure PatternError where
  flaw : PatternFlaw
  position : Nat
  deriving DecidableEq, Repr, Inhabited

/-- What is said about a pattern error. -/
def PatternError.text (e : PatternError) : String :=
  "Pattern syntax error near position " ++ toString e.position ++ ": " ++ e.flaw.message

/-- The members of a class: a hyphen between two characters makes a range. -/
def classRanges : List Char → List CharRange
  | a :: '-' :: b :: r => ⟨a, b⟩ :: classRanges r
  | a :: r => ⟨a, a⟩ :: classRanges r
  | [] => []

/-- The class behind an opening bracket, and the number of characters that it takes there with its
closing bracket. An exclamation mark negates; the first member may be a closing bracket. -/
def readClass? (s : List Char) : Option (Wildcard × Nat) :=
  let negated := s.head? == some '!'
  match if negated then s.tail else s with
  | [] => none
  | member :: more =>
    let others := more.takeWhile (· != ']')
    if (more.dropWhile (· != ']')).isEmpty then none
    else
      some (.oneOf negated (classRanges (member :: others)),
        others.length + if negated then 3 else 2)

/-- **Reading wildcards** — the wildcards of a text, of which `position` characters and the last one
of them, `previous`, have been read. Two stars must stand between slashes or ends, and take the
slash behind them. -/
def readWildcards (position : Nat) (previous : Option Char) (s : List Char) :
    Except PatternError (List Wildcard) :=
  match s with
  | [] => .ok []
  | '?' :: r => (readWildcards (position + 1) (some '?') r).map (.anyChar :: ·)
  | '*' :: '*' :: '*' :: _ => .error ⟨.starRun, position + 2⟩
  | '*' :: '*' :: r =>
    if previous.any (· != '/') then .error ⟨.depthInName, position - 1⟩
    else
      match r with
      | [] => .ok [.anyDepth]
      | '/' :: r => (readWildcards (position + 3) (some '/') r).map (.anyDepth :: ·)
      | _ => .error ⟨.depthInName, position + 2⟩
  | '*' :: r => (readWildcards (position + 1) (some '*') r).map (.anyChars :: ·)
  | '[' :: r =>
    match readClass? r with
    | none => .error ⟨.badClass, position⟩
    | some (w, size) =>
      (readWildcards (position + 1 + size) (some ']') (r.drop size)).map (w :: ·)
  | c :: r => (readWildcards (position + 1) (some c) r).map (.char c :: ·)
termination_by s.length
decreasing_by
  · simp
  · simp only [List.length_cons]
    omega
  · simp
  · simp only [List.length_drop, List.length_cons]
    omega
  · simp

/-! ## Patterns -/

/-- **Segments** — what stands between the slashes of a pattern. -/
inductive Segment
  /-- A name without wildcards. -/
  | literal (name : String)
  | wild (ws : List Wildcard)
  /-- Directories at any depth. -/
  | anyDepth
  deriving DecidableEq, Repr, Inhabited

/-- The characters of wildcards that are all characters. -/
def literal? : List Wildcard → Option (List Char)
  | [] => some []
  | .char c :: ws => (literal? ws).map (c :: ·)
  | _ => none

/-- The segment of wildcards. -/
def Segment.ofWildcards (ws : List Wildcard) : Segment :=
  if ws.contains .anyDepth then .anyDepth
  else
    match literal? ws with
    | some name => .literal (String.ofList name)
    | none => .wild ws

/-- Whether a name is one of those that a segment stands for. -/
def Segment.matchesName (s : Segment) (name : String) : Bool :=
  match s with
  | literal n => n == name
  | wild ws => Wildcard.matchesAll ws name.toList
  | anyDepth => false

/-- Whether a segment has wildcards behind a dot, so that it may stand for one or two dots. -/
def Segment.startsDot : Segment → Bool
  | wild (.char '.' :: _) => true
  | _ => false

/-- **Patterns** — the segments of a path with wildcards. -/
structure Pattern where
  segments : List Segment
  /-- Whether the pattern begins at the root. -/
  absolute : Bool
  /-- Whether a slash at the end asks for directories. -/
  directoriesOnly : Bool
  deriving DecidableEq, Repr, Inhabited

namespace Pattern

/-- The texts between the slashes of a pattern. Nothing stands behind a slash at the end; the empty
pattern has one empty segment. -/
def split (s : List Char) : List (List Char) :=
  let parts := s.splitOn '/'
  if s ≠ [] ∧ parts.getLast? = some [] then parts.dropLast else parts

/-- **Parsing** — the pattern of a text. The text is checked as a whole before its segments are,
and the first error counts. -/
def parse (text : String) : Except PatternError Pattern := do
  let s := text.toList
  let _ ← readWildcards 0 none s
  let absolute := s.head? == some '/'
  let segments ← (split (if absolute then s.dropWhile (· == '/') else s)).mapM (readWildcards 0 none)
  return ⟨segments.map .ofWildcards, absolute, s.getLast? == some '/'⟩

end Pattern

end StyleSplit
