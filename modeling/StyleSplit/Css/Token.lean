set_option autoImplicit false

/-!
# Tokens of a stylesheet

The vocabulary of CSS Syntax Level 3. A token keeps the value of what was read, with its escapes
resolved; the raw text is kept beside it, in a lexeme.

## Main definitions

* `StyleSplit.Css.Bracket` — the three kinds of brackets.
* `StyleSplit.Css.Numeral` — a number by its spelling.
* `StyleSplit.Css.Token` — the tokens.
* `StyleSplit.Css.Token.opens?`, `StyleSplit.Css.Token.closes?` — the brackets that a token opens
  or closes.
-/

namespace StyleSplit.Css

/-- **Brackets** — braces, parentheses and square brackets. -/
inductive Bracket
  | brace
  | paren
  | square
  deriving DecidableEq, Repr, Inhabited

/-- The character that opens a bracket. -/
def Bracket.opener : Bracket → Char
  | brace => '{'
  | paren => '('
  | square => '['

/-- The character that closes a bracket. -/
def Bracket.closer : Bracket → Char
  | brace => '}'
  | paren => ')'
  | square => ']'

/-- A sign in front of digits. -/
inductive Sign
  | plus
  | minus
  deriving DecidableEq, Repr, Inhabited

/-- **Numerals** — a number by its spelling. Its value is computed only where a message shows it,
so that reading a stylesheet involves no arithmetic. -/
structure Numeral where
  sign : Option Sign
  /-- The digits before the point. -/
  whole : List Char
  /-- The digits after the point; none if there is no point. -/
  fraction : List Char
  /-- Sign and digits of the power of ten. -/
  exponent : Option (Option Sign × List Char)
  deriving DecidableEq, Repr, Inhabited

/-- Whether a numeral has neither a fraction nor an exponent. -/
def Numeral.isInteger (n : Numeral) : Bool :=
  n.fraction.isEmpty && n.exponent.isNone

/-- **Tokens** — the smallest parts of a stylesheet. -/
inductive Token
  | ident (name : String)
  | atKeyword (name : String)
  /-- A hash whose name is an identifier. -/
  | idHash (name : String)
  /-- Any other hash. -/
  | hash (name : String)
  | string (value : String)
  /-- A string that a line end breaks off. -/
  | badString (value : String)
  /-- An address without quotes. -/
  | url (value : String)
  /-- An address that holds what it must not, by its raw text. -/
  | badUrl (raw : String)
  | number (n : Numeral)
  | percentage (n : Numeral)
  | dimension (n : Numeral) (unit : String)
  | whitespace (raw : String)
  /-- The text between the marks. -/
  | comment (text : String)
  | colon
  | semicolon
  | comma
  /-- A comparison of attributes: the character and an equals sign. -/
  | comparison (c : Char)
  /-- The mark that opens a comment of the surrounding document. -/
  | cdo
  /-- The mark that closes it. -/
  | cdc
  /-- A name with the parenthesis that follows it. -/
  | function (name : String)
  | opening (b : Bracket)
  | closing (b : Bracket)
  /-- Any other character. -/
  | delim (c : Char)
  deriving DecidableEq, Repr, Inhabited

namespace Token

/-- The bracket that a token opens. -/
def opens? : Token → Option Bracket
  | opening b => some b
  | function _ => some .paren
  | _ => none

/-- The bracket that a token closes. -/
def closes? : Token → Option Bracket
  | closing b => some b
  | _ => none

end Token

end StyleSplit.Css
