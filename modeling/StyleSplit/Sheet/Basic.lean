set_option autoImplicit false

/-!
# Stylesheets

The tree of a stylesheet. A sheet is a list of statements: styles (rules, comments and at-rules
that are kept verbatim), `@media` blocks, which hold statements again, and `@keyframes` blocks.

## Main definitions

* `StyleSplit.Style` — rules and what can stand in them.
* `StyleSplit.Keyframes` — a `@keyframes` block.
* `StyleSplit.Statement` — what can stand in a rule list.
* `StyleSplit.Sheet` — a list of statements.
-/

namespace StyleSplit

/-- **Styles** — rules and what can stand in them. The type allows any style inside a rule or a
keyframe step; a sheet that was read from text has only declarations and comments there. -/
inductive Style
  /-- The text between `/*` and its end. -/
  | comment (text : String)
  /-- A property and its value as written, without comments. -/
  | declaration (property value : String)
  /-- Selectors, and the declarations and comments of the block in source order. -/
  | rule (selectors : List String) (children : List Style)
  /-- A step of a keyframes block: `from`, `to` or percentages, and the block. -/
  | step (values : List String) (children : List Style)
  /-- An at-rule that is kept verbatim, by its lower-case name; the block is absent in statements
  such as `@import`. -/
  | atRule (name prelude : String) (block : Option String)
  deriving Repr, Inhabited

/-- **Keyframes** — a `@keyframes` block. -/
structure Keyframes where
  /-- `-webkit-`, `-moz-` and the like, or empty. -/
  vendor : String
  name : String
  /-- Steps and comments. -/
  steps : List Style
  deriving Repr, Inhabited

/-- **Statements** — what can stand at the top level of a sheet or in an `@media` block. -/
inductive Statement
  | style (s : Style)
  /-- An `@media` block with its condition as written, without comments. -/
  | media (condition : String) (body : List Statement)
  | keyframes (block : Keyframes)
  deriving Repr, Inhabited

/-- **Sheets** — the statements of a stylesheet in source order. -/
structure Sheet where
  statements : List Statement
  deriving Repr, Inhabited

end StyleSplit
