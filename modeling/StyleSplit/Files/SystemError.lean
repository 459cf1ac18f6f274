set_option autoImplicit false

/-!
# System errors

An operation on files fails the way a system call does.

## Main definitions

* `StyleSplit.SystemError` — the causes.
* `StyleSplit.SystemError.message` — what is said about them.
-/

namespace StyleSplit

/-- **System errors** — why an operation on files fails. -/
inductive SystemError
  | notFound
  | alreadyExists
  | notADirectory
  | isADirectory
  | nameTooLong
  /-- The name holds a NUL character. -/
  | nulInName
  /-- The content is no text. -/
  | notText
  deriving DecidableEq, Repr, Inhabited

/-- What is said about a system error. -/
def SystemError.message : SystemError → String
  | notFound => "No such file or directory (os error 2)"
  | alreadyExists => "File exists (os error 17)"
  | notADirectory => "Not a directory (os error 20)"
  | isADirectory => "Is a directory (os error 21)"
  | nameTooLong => "File name too long (os error 36)"
  | nulInName => "file name contained an unexpected NUL byte"
  | notText => "stream did not contain valid UTF-8"

end StyleSplit
