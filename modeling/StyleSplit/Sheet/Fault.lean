import StyleSplit.Css.Token.Text
import StyleSplit.Text.Location
set_option autoImplicit false

/-!
# Faults of a stylesheet

Most of what a stylesheet holds is kept as it is written; only a few things make it unreadable.

## Main definitions

* `StyleSplit.Sheet.Flaw` — what can be wrong.
* `StyleSplit.Sheet.Fault` — a flaw and what was unread when it was found.
* `StyleSplit.Sheet.ParseError` — a flaw with its location.
-/

namespace StyleSplit.Sheet

open Css

/-- **Flaws** — what makes a stylesheet unreadable. -/
inductive Flaw
  /-- A token where it cannot stand. -/
  | unexpected (t : Token)
  /-- A declaration stops before its colon. -/
  | endOfInput
  /-- Selectors without a block. -/
  | missingBlock
  /-- A block without selectors. -/
  | missingSelector
  deriving DecidableEq, Repr, Inhabited

/-- **Faults** — a flaw, with the text that was unread when it was found. -/
structure Fault where
  flaw : Flaw
  rest : List Char
  deriving DecidableEq, Repr, Inhabited

/-- **Parse errors** — a flaw with its location. -/
structure ParseError where
  flaw : Flaw
  location : Location
  deriving DecidableEq, Repr, Inhabited

/-- The error that a fault in the given text is reported as. -/
def Fault.inText (f : Fault) (source : List Char) : ParseError :=
  ⟨f.flaw, Location.ofRest source f.rest⟩

/-! ## Messages -/

/-- What is said about a flaw. -/
def Flaw.message : Flaw → String
  | unexpected t => "unexpected `" ++ t.text ++ "`"
  | endOfInput => "unexpected end of input"
  | missingBlock => "expected a `\x7b\x7d` block"
  | missingSelector => "block without a selector"

namespace ParseError

/-- What is said about an error, without its location. -/
def message (e : ParseError) : String :=
  e.flaw.message

/-- What is said about an error. -/
def text (e : ParseError) : String :=
  e.message ++ " at line " ++ toString e.location.line ++ ", column " ++
    toString e.location.column

end ParseError

end StyleSplit.Sheet
