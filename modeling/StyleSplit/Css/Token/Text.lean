import StyleSplit.Css.Name
import StyleSplit.Css.Token
import StyleSplit.Number.Single
set_option autoImplicit false

/-!
# The text of a token

A message shows a token in a canonical spelling, in which it would be read as the same token.

## Main definitions

* `StyleSplit.Css.identText`, `StyleSplit.Css.stringText` — names and strings with escapes.
* `StyleSplit.Css.Numeral.value` — the number that a numeral stands for.
* `StyleSplit.Css.Token.text` — the spelling of a token.
-/

namespace StyleSplit.Css

/-! ## Escapes -/

/-- A character by its number in hexadecimal digits, with the blank that ends it. -/
def hexEscape (c : Char) : List Char :=
  '\\' :: Nat.toDigits 16 c.toNat ++ [' ']

/-- The control characters of ASCII other than NUL. -/
def isControl (c : Char) : Bool :=
  (1 ≤ c.toNat && c.toNat ≤ 0x1F) || c.toNat == 0x7F

/-- A character inside a name. -/
def nameCharText (c : Char) : List Char :=
  if c = '\x00' then [replacement]
  else if isNameChar c then [c]
  else if isControl c then hexEscape c
  else ['\\', c]

/-- A name, each character of which may stand anywhere. -/
def nameText (name : List Char) : List Char :=
  name.flatMap nameCharText

/-- A name that does not begin with a digit: a digit in front is escaped by its number. -/
def identBodyText : List Char → List Char
  | c :: r => if c.isDigit then hexEscape c ++ nameText r else nameText (c :: r)
  | [] => []

/-- **Identifiers** — two hyphens in front are kept, and so is a single one before the rest, but a
hyphen alone is escaped. -/
def identText (name : List Char) : List Char :=
  match name with
  | '-' :: '-' :: r => '-' :: '-' :: nameText r
  | ['-'] => ['\\', '-']
  | '-' :: r => '-' :: identBodyText r
  | s => identBodyText s

/-- The characters of a string between its quotes. -/
def stringText (value : List Char) : List Char :=
  value.flatMap fun c =>
    if c = '"' ∨ c = '\\' then ['\\', c]
    else if c = '\x00' then [replacement]
    else if isControl c then hexEscape c
    else [c]

/-- The characters of an address between its parentheses. -/
def urlText (value : List Char) : List Char :=
  value.flatMap fun c =>
    if c.toNat ≤ 0x20 ∨ c.toNat = 0x7F then hexEscape c
    else if c = '(' ∨ c = ')' ∨ c = '"' ∨ c = '\'' ∨ c = '\\' then ['\\', c]
    else [c]

/-! ## Numbers -/

/-- The value of a decimal digit. -/
def digitValue (d : Char) : Float :=
  Float.ofNat (d.toNat - '0'.toNat)

/-- The number that decimal digits stand for, digit by digit in double precision. -/
def digitsValue (ds : List Char) : Float :=
  ds.foldl (fun v d => v * 10 + digitValue d) 0

/-- **The value of a numeral** — in double precision, with a rounding at each digit; the unit of the
fraction's digits is a tenth of a tenth and so on. -/
def Numeral.value (n : Numeral) : Float :=
  let sign : Float := if n.sign = some .minus then -1 else 1
  let fraction := (n.fraction.foldl
    (fun (v, unit) d => (v + digitValue d * unit, unit * 0.1)) ((0 : Float), (0.1 : Float))).1
  let v := sign * (digitsValue n.whole + fraction)
  match n.exponent with
  | none => v
  | some (sign, ds) =>
    let sign : Float := if sign = some .minus then -1 else 1
    v * Float.pow 10 (sign * digitsValue ds)

/-- The bit pattern of a number. What is not a number has its sign bit set. -/
def singleOf (v : Float32) : Single :=
  if v.isNaN then ⟨0xFFC00000⟩ else ⟨v.toBits⟩

/-- A number in the precision of messages. -/
def Numeral.text (n : Numeral) (v : Float32) : String :=
  (singleOf v).text n.sign.isSome n.isInteger

/-- A unit behind a number: one that would be read as a power of ten has its first letter
escaped. -/
def unitText (unit : List Char) : List Char :=
  match unit with
  | [c] => if c = 'e' ∨ c = 'E' then "\\65 ".toList else identText [c]
  | c :: '-' :: r =>
    if c = 'e' ∨ c = 'E' then "\\65 ".toList ++ nameText ('-' :: r) else identText (c :: '-' :: r)
  | s => identText s

/-! ## Tokens -/

/-- **The text of a token.** -/
def Token.text : Token → String
  | ident name => String.ofList (identText name.toList)
  | atKeyword name => "@" ++ String.ofList (identText name.toList)
  | idHash name => "#" ++ String.ofList (identText name.toList)
  | hash name => "#" ++ String.ofList (nameText name.toList)
  | string value => "\"" ++ String.ofList (stringText value.toList) ++ "\""
  | badString value => "\"" ++ String.ofList (stringText value.toList)
  | url value => "url(" ++ String.ofList (urlText value.toList) ++ ")"
  | badUrl raw => "url(" ++ raw ++ ")"
  | number n => n.text n.value.toFloat32
  | percentage n => n.text ((n.value / 100).toFloat32 * 100) ++ "%"
  | dimension n unit => n.text n.value.toFloat32 ++ String.ofList (unitText unit.toList)
  | whitespace raw => raw
  | comment text => "/*" ++ text ++ "*/"
  | colon => ":"
  | semicolon => ";"
  | comma => ","
  | comparison c => c.toString ++ "="
  | cdo => "<!--"
  | cdc => "-->"
  | function name => String.ofList (identText name.toList) ++ "("
  | opening b => b.opener.toString
  | closing b => b.closer.toString
  | delim c => c.toString

end StyleSplit.Css
