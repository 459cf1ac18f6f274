import StyleSplit.Files.Path
import StyleSplit.Files.Pattern
import StyleSplit.Files.SystemError
import StyleSplit.Sheet.Fault
set_option autoImplicit false

/-!
# Failures

## Main definitions

* `StyleSplit.Failure` — why a file or a whole run fails.
* `StyleSplit.Failure.text` — what is said about it.
-/

namespace StyleSplit

/-- **Failures** — why a file or a whole run fails. -/
inductive Failure
  /-- The patterns of a target stand for no file. -/
  | noInput (patterns : List String)
  /-- A stylesheet has no `@media` block though it must. -/
  | noMedia (path : Path)
  | parse (path : Path) (error : Sheet.ParseError)
  | system (path : Path) (error : SystemError)
  /-- What a target asks for is no pattern. -/
  | pattern (asked : String) (error : PatternError)
  deriving DecidableEq, Repr, Inhabited

/-- What is said about a failure. -/
def Failure.text : Failure → String
  | noInput patterns => "No files found for " ++ ", ".intercalate patterns
  | noMedia path => "No media queries found in " ++ path.text
  | parse path error => "Failed to parse " ++ path.text ++ ": " ++ error.text
  | system path error => "I/O error on " ++ path.text ++ ": " ++ error.message
  | pattern asked error => "Invalid pattern `" ++ asked ++ "`: " ++ error.text

end StyleSplit
