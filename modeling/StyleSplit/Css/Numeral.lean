import StyleSplit.Css.Token
set_option autoImplicit false

/-!
# Reading numerals

A numeral is digits with an optional sign, a fraction behind a point, and a power of ten. A point
counts only before a digit, and so does the letter of the power, with or without a sign between.

## Main definitions

* `StyleSplit.Css.startsNumeral` — whether a numeral begins here.
* `StyleSplit.Css.readNumeral` — the longest numeral that a text begins with.
* `StyleSplit.Css.Numeral.size` — the number of characters that it takes.
-/

namespace StyleSplit.Css

/-- Whether a text begins with a digit. -/
def startsWithDigit (s : List Char) : Bool :=
  s.head?.any Char.isDigit

/-- The sign that a text begins with. -/
def signOf? : List Char → Option Sign
  | '+' :: _ => some .plus
  | '-' :: _ => some .minus
  | _ => none

/-- The number of characters of a sign. -/
def signSize (sign : Option Sign) : Nat :=
  if sign.isSome then 1 else 0

/-- A text behind its sign. -/
def afterSign (s : List Char) : List Char :=
  s.drop (signSize (signOf? s))

/-- Whether digits begin here, perhaps behind a point. -/
def startsUnsigned : List Char → Bool
  | '.' :: r => startsWithDigit r
  | s => startsWithDigit s

/-- **The beginning of a numeral** — digits, perhaps behind a sign or a point or both. -/
def startsNumeral (s : List Char) : Bool :=
  startsUnsigned (afterSign s)

/-- The digits of the fraction that a text begins with; none unless a point and a digit do. -/
def fractionOf : List Char → List Char
  | '.' :: r => r.takeWhile Char.isDigit
  | _ => []

/-- The power of ten that a text begins with: a letter `e` with a digit or a signed digit. -/
def exponentOf? : List Char → Option (Option Sign × List Char)
  | [] => none
  | c :: r =>
    if (c = 'e' ∨ c = 'E') ∧ startsWithDigit (afterSign r) then
      some (signOf? r, (afterSign r).takeWhile Char.isDigit)
    else none

/-- The number of characters of a fraction with its point. -/
def fractionSize (fraction : List Char) : Nat :=
  if fraction.isEmpty then 0 else fraction.length + 1

/-- **The size of a numeral** — the number of characters of its spelling. -/
def Numeral.size (n : Numeral) : Nat :=
  signSize n.sign + n.whole.length + fractionSize n.fraction +
    match n.exponent with
    | none => 0
    | some (sign, digits) => 1 + signSize sign + digits.length

/-- **Numerals** — the longest numeral that a text begins with. -/
def readNumeral (s : List Char) : Numeral :=
  let unsigned := afterSign s
  let afterWhole := unsigned.dropWhile Char.isDigit
  let fraction := fractionOf afterWhole
  ⟨signOf? s, unsigned.takeWhile Char.isDigit, fraction,
    exponentOf? (afterWhole.drop (fractionSize fraction))⟩

end StyleSplit.Css
