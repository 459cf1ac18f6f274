import StyleSplit.Files.Path
import StyleSplit.Media.Classification
set_option autoImplicit false

/-!
# Notices

What happens on the way is told in lines of a log. Each line has a level; those of the least one are
for developers and not shown by default.

## Main definitions

* `StyleSplit.Notice` — what a line tells.
* `StyleSplit.Notice.level`, `StyleSplit.Notice.text` — its level and its words.
-/

namespace StyleSplit

/-- The levels of the log, from the most severe on. -/
inductive Level
  | error
  | warn
  | info
  | debug
  deriving DecidableEq, Repr, Inhabited

/-- The word for a level. -/
def Level.name : Level → String
  | error => "ERROR"
  | warn => "WARN"
  | info => "INFO"
  | debug => "DEBUG"

/-- **Notices** — what a line of the log tells. -/
inductive Notice
  /-- A statement has no place in any part. -/
  | ignored (what : Ignored)
  /-- The media groups of a sheet follow. -/
  | mediaHeading
  | mediaGroup (g : MediaGroup)
  /-- A source file is going to be read. -/
  | found (path : Path)
  | noMedia (path : Path)
  | written (path : Path)
  deriving Repr, Inhabited

namespace Notice

/-- The level of a notice. -/
def level : Notice → Level
  | ignored _ => .debug
  | noMedia _ => .warn
  | mediaHeading | mediaGroup _ | found _ | written _ => .info

/-- The words of a notice. -/
def text : Notice → String
  | ignored what => what.text
  | mediaHeading => "Processed media queries:"
  | mediaGroup g => g.summary
  | found path => "File " ++ path.text ++ " found"
  | noMedia path => "No media queries found in " ++ path.text
  | written path => path.text ++ " written successfully"

end Notice

end StyleSplit
