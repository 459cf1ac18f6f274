import StyleSplit.Media.Group
set_option autoImplicit false

/-!
# The text of a stylesheet's parts

Each part of a sheet is written in one layout: declarations and comments of a block stand on lines
of their own behind a tab, and an empty line follows each rule. Comments can be left out, and then
leave no trace.

## Main definitions

* `StyleSplit.Writer` — the choice about comments.
* `StyleSplit.Writer.base`, `StyleSplit.Writer.mediaGroup`, `StyleSplit.Writer.keyframes` — the
  text of each part.
-/

namespace StyleSplit

/-- **Writers** — how parts are written. -/
structure Writer where
  /-- Whether comments are left out. -/
  hideComments : Bool
  deriving DecidableEq, Repr, Inhabited

/-- A comment with its marks. -/
def commentText (text : String) : String :=
  "/*" ++ text ++ "*/"

/-- A declaration with its semicolon. -/
def declarationText (property value : String) : String :=
  property ++ ": " ++ value ++ ";"

/-- An at-rule: its name, its prelude behind a space if it has one, and its block verbatim or a
semicolon. -/
def atRuleText (name prelude : String) (block : Option String) : String :=
  "@" ++ name ++ (if prelude = "" then "" else " " ++ prelude) ++
    match block with
    | some body => " \x7b" ++ body ++ "\x7d\n\n"
    | none => ";\n\n"

namespace Writer

/-- A line of a block: a declaration or a comment. Other styles do not stand in blocks. -/
def line (w : Writer) : Style → String
  | .declaration property value => "\n\t" ++ declarationText property value
  | .comment text => if w.hideComments then "" else "\n\t" ++ commentText text
  | .rule .. | .step .. | .atRule .. => ""

/-- A block with its braces, behind what heads it. -/
def block (w : Writer) (head : String) (children : List Style) : String :=
  head ++ " \x7b" ++ String.join (children.map w.line) ++ "\n\x7d\n\n"

/-- A comment between rules or between keyframe steps. -/
def freeComment (w : Writer) (text : String) : String :=
  if w.hideComments then "" else commentText text ++ "\n\n"

/-- A rule, a comment or an at-rule of a rule list. Other styles do not stand there. -/
def style (w : Writer) : Style → String
  | .rule selectors children => w.block (",\n".intercalate selectors) children
  | .comment text => w.freeComment text
  | .atRule name prelude body => atRuleText name prelude body
  | .declaration .. | .step .. => ""

/-- A step or a comment of a keyframes block. Other styles do not stand there. -/
def step (w : Writer) : Style → String
  | .step values children => w.block (",".intercalate values) children
  | .comment text => w.freeComment text
  | .declaration .. | .rule .. | .atRule .. => ""

/-- **The base part** — its styles one after the other. -/
def base (w : Writer) (styles : List Style) : String :=
  String.join (styles.map w.style)

/-- **A media group** — its styles in the braces of one `@media` block. -/
def mediaGroup (w : Writer) (g : MediaGroup) : String :=
  "@media " ++ g.condition ++ " \x7b\n\n" ++ String.join (g.rules.map w.style) ++ "\x7d\n\n"

/-- One keyframes block. -/
def keyframesBlock (w : Writer) (k : Keyframes) : String :=
  "@" ++ k.vendor ++ "keyframes " ++ k.name ++ " \x7b\n\n" ++ String.join (k.steps.map w.step) ++
    "\x7d\n\n"

/-- **The keyframes part** — its blocks one after the other. -/
def keyframes (w : Writer) (blocks : List Keyframes) : String :=
  String.join (blocks.map w.keyframesBlock)

end Writer

end StyleSplit
