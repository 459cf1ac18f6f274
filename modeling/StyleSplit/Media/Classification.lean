import StyleSplit.Media.Group
set_option autoImplicit false

/-!
# Classification of statements

The statements of a sheet go to three places: rules, comments and at-rules at the top level are
the base, `@media` blocks are merged into groups, and `@keyframes` blocks stand on their own. What
has no place is ignored, and a line of the log says so.

The statements are taken one after the other. The groups stand in the order in which their
identifiers turn up, and an index leads from each identifier to the slot of its group, where all
later blocks of the identifier are added.

## Main definitions

* `StyleSplit.Classification` — the three parts, and what was ignored.
* `StyleSplit.Classifier` — the parts so far, with the index of the groups.
* `StyleSplit.Classifier.push` — one more statement.
* `StyleSplit.classify` — the parts of a list of statements.
-/

namespace StyleSplit

/-- **What was ignored** — a style that cannot stand at the top level, or a statement that has no
place in an `@media` block. -/
inductive Ignored
  | topLevel (s : Style)
  | inMedia (condition : String) (s : Statement)
  deriving Repr, Inhabited

/-- **Classifications** — the parts of a sheet, each in source order. -/
structure Classification where
  /-- Rules, comments and at-rules of the top level. -/
  base : List Style
  /-- The merged groups, in the order of their first blocks. -/
  groups : List MediaGroup
  keyframes : List Keyframes
  ignored : List Ignored
  deriving Repr, Inhabited

namespace Classification

/-- No statement yet. -/
def empty : Classification := ⟨[], [], [], []⟩

/-- Whether a sheet has a media group, be it an empty one. -/
def hasMedia (c : Classification) : Bool :=
  !c.groups.isEmpty

end Classification

/-- **Classifiers** — the parts of the statements that were read so far, and the slot in the list of
groups for each identifier that turned up. -/
structure Classifier where
  parts : Classification
  index : List (String × Nat)

namespace Classifier

/-- Nothing is read yet. -/
def empty : Classifier := ⟨.empty, []⟩

/-- **The group of a condition** — its slot, behind all other groups if its identifier is new. -/
def groupFor (c : Classifier) (condition : String) : Classifier × Nat :=
  let id := Condition.groupId condition
  match c.index.lookup id with
  | some slot => (c, slot)
  | none =>
    let slot := c.parts.groups.length
    let groups := c.parts.groups ++ [.ofCondition condition []]
    (⟨{ c.parts with groups }, (id, slot) :: c.index⟩, slot)

/-- One more rule or comment for the group in the given slot. -/
def addRule (c : Classifier) (slot : Nat) (s : Style) : Classifier :=
  { c with parts.groups := c.parts.groups.modify slot (·.append [s]) }

/-- One more line of the log about what has no place. -/
def ignore (c : Classifier) (what : Ignored) : Classifier :=
  { c with parts.ignored := c.parts.ignored ++ [what] }

/-- One more statement of an `@media` block whose group stands in the given slot. -/
def pushInner (condition : String) (slot : Nat) (c : Classifier) : Statement → Classifier
  | .style (.rule selectors children) => c.addRule slot (.rule selectors children)
  | .style (.comment text) => c.addRule slot (.comment text)
  | other => c.ignore (.inMedia condition other)

/-- **One more statement** — it goes behind all others of its part. -/
def push (c : Classifier) : Statement → Classifier
  | .media condition body =>
    let (c, slot) := c.groupFor condition
    body.foldl (pushInner condition slot) c
  | .keyframes k => { c with parts.keyframes := c.parts.keyframes ++ [k] }
  | .style (.declaration property value) => c.ignore (.topLevel (.declaration property value))
  | .style (.step values children) => c.ignore (.topLevel (.step values children))
  | .style s => { c with parts.base := c.parts.base ++ [s] }

end Classifier

/-- **Classification** — the parts of a list of statements, taken one after the other. -/
def classify (statements : List Statement) : Classification :=
  (statements.foldl Classifier.push .empty).parts

/-! ## Words for what was ignored -/

/-- What a style is called in the log. -/
def Style.description : Style → String
  | .comment _ => "comment"
  | .declaration property _ => "declaration `" ++ property ++ "`"
  | .rule .. => "rule"
  | .step .. => "keyframe step"
  | .atRule name .. => "@" ++ name

/-- What a statement is called in the log. -/
def Statement.description : Statement → String
  | .style s => s.description
  | .media condition _ => "nested @media " ++ condition
  | .keyframes k => "@keyframes " ++ k.name

/-- The line of the log for what was ignored. -/
def Ignored.text : Ignored → String
  | topLevel s => "ignoring top-level " ++ s.description
  | inMedia condition s => "ignoring " ++ s.description ++ " inside @media " ++ condition

end StyleSplit
