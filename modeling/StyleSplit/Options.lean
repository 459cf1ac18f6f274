import StyleSplit.Media.Order
import StyleSplit.Text.LineEnding
set_option autoImplicit false

/-!
# Options of a run

## Main definitions

* `StyleSplit.Options` — what a caller may choose.
-/

namespace StyleSplit

/-- **Options** — what a caller may choose; by default everything is off, groups are in ascending
order and lines end with a line feed. -/
structure Options where
  /-- Log a line for each media group. -/
  log : Bool := false
  hideComments : Bool := false
  /-- Write the collections as well. -/
  collections : Bool := false
  sort : SortPolicy := .ascending
  lineEnding : LineEnding := .lf
  /-- Count a stylesheet without an `@media` block as a failure. -/
  failOnMissingMedia : Bool := false
  deriving DecidableEq, Repr, Inhabited

end StyleSplit
