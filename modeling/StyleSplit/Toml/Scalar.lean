import StyleSplit.Number.Double
import StyleSplit.Toml.Value
set_option autoImplicit false

/-!
# Numbers and times of a task file

No option is a number or a time, so it matters only whether a word is one. A word is the text up to
the next blank, comma, closing bracket or comment.

## Main definitions

* `StyleSplit.Toml.isInteger`, `StyleSplit.Toml.isFloat` — the words for numbers.
* `StyleSplit.Toml.isDate`, `StyleSplit.Toml.isTime` — the words for dates and times of day.
* `StyleSplit.Toml.scalar?` — the value of a word.
-/

namespace StyleSplit.Toml

/-! ## Numbers -/

/-- The digits of a numeral in which single underscores may stand between digits. -/
def digitsOf? (isDigit : Char → Bool) (s : List Char) : Option (List Char) :=
  let parts := s.splitOn '_'
  if parts.all (fun part => !part.isEmpty && part.all isDigit) then some parts.flatten else none

/-- The value of a digit in bases up to sixteen. -/
def digitValue (c : Char) : Nat :=
  if c.isDigit then c.toNat - '0'.toNat
  else if 'a' ≤ c then c.toNat - 'a'.toNat + 10
  else c.toNat - 'A'.toNat + 10

/-- The number that digits in a base stand for. -/
def ofDigits (base : Nat) (ds : List Char) : Nat :=
  ds.foldl (fun n d => base * n + digitValue d) 0

/-- Whether a character is a digit in a base. -/
def isDigitIn (base : Nat) (c : Char) : Bool :=
  (c.isDigit || ('a' ≤ c && c ≤ 'f') || ('A' ≤ c && c ≤ 'F')) && digitValue c < base

/-- A word without its sign, and whether that is a minus. -/
def unsigned : List Char → Bool × List Char
  | '-' :: r => (true, r)
  | '+' :: r => (false, r)
  | s => (false, s)

/-- The digits of a decimal integer, which has no zero in front. -/
def decimalDigits? (s : List Char) : Option (List Char) :=
  match s with
  | '0' :: _ :: _ => none
  | s => digitsOf? Char.isDigit s

/-- The least natural number that is no integer of 64 bits. -/
def wordLimit : Nat := 0x8000000000000000

/-- Integers are those of 64 bits. Bases other than ten have no sign. -/
def isInteger (s : List Char) : Bool :=
  let inBase (base : Nat) (r : List Char) : Bool :=
    match digitsOf? (isDigitIn base) r with
    | some ds => ofDigits base ds < wordLimit
    | none => false
  match s with
  | '0' :: 'x' :: r => inBase 16 r
  | '0' :: 'o' :: r => inBase 8 r
  | '0' :: 'b' :: r => inBase 2 r
  | s =>
    let (negative, r) := unsigned s
    match decimalDigits? r with
    | some ds => ofDigits 10 ds < if negative then wordLimit + 1 else wordLimit
    | none => false

/-- Whether the nearest double of a number is infinite, the number being that of the given digits
times a power of ten. Its size decides but for numbers near the greatest double. -/
def overflows (digits : List Char) (exponent : Int) : Bool :=
  let digits := digits.dropWhile (· == '0')
  let size := digits.length + exponent
  !digits.isEmpty &&
    (400 < size || (300 < size &&
      Double.nearest (ofDigits 10 digits * powerOfTen exponent.toNat)
          (powerOfTen (-exponent).toNat) ==
        ⟨Double.infinityBits.toUInt64⟩))

/-- Floats have a fraction or an exponent or both; positive ones must not be too large. -/
def isFloat (s : List Char) : Bool :=
  let (negative, r) := unsigned s
  if r = "inf".toList ∨ r = "nan".toList then true
  else
    let mantissa := r.takeWhile fun c => c != 'e' && c != 'E'
    let power := r.dropWhile fun c => c != 'e' && c != 'E'
    let whole := mantissa.takeWhile (· != '.')
    let fraction := mantissa.dropWhile (· != '.')
    let exponent? : Option Int := match power with
      | [] => some 0
      | _ :: p =>
        let (minus, p) := unsigned p
        (digitsOf? Char.isDigit p).map fun ds =>
          if minus then -(ofDigits 10 ds : Int) else ofDigits 10 ds
    let fraction? : Option (List Char) := match fraction with
      | [] => some []
      | _ :: f => digitsOf? Char.isDigit f
    match decimalDigits? whole, fraction?, exponent? with
    | some ds, some fs, some e =>
      !(fraction.isEmpty && power.isEmpty) &&
        (negative || !overflows (ds ++ fs) (e - fs.length))
    | _, _, _ => false

/-! ## Times -/

/-- The number of exactly `n` digits that a text begins with. -/
def readDigits (n : Nat) (s : List Char) : Option (Nat × List Char) :=
  let ds := s.take n
  if ds.length = n ∧ ds.all Char.isDigit then some (ofDigits 10 ds, s.drop n) else none

/-- The number of two digits behind a mark. -/
def readTwo (mark : Char) : List Char → Option (Nat × List Char)
  | c :: r => if c = mark then readDigits 2 r else none
  | [] => none

/-- The number of days in a month. -/
def daysIn (year month : Nat) : Nat :=
  if month = 2 then
    if (year % 4 = 0 ∧ year % 100 ≠ 0) ∨ year % 400 = 0 then 29 else 28
  else if month = 4 ∨ month = 6 ∨ month = 9 ∨ month = 11 then 30
  else 31

/-- What follows the date that a text begins with. -/
def afterDate? (s : List Char) : Option (List Char) := do
  let (year, s) ← readDigits 4 s
  let (month, s) ← readTwo '-' s
  let (day, s) ← readTwo '-' s
  if 1 ≤ month ∧ month ≤ 12 ∧ 1 ≤ day ∧ day ≤ daysIn year month then some s else none

/-- What follows the time of day that a text begins with. -/
def afterTime? (s : List Char) : Option (List Char) := do
  let (hour, s) ← readDigits 2 s
  let (minute, s) ← readTwo ':' s
  let (second, s) ← readTwo ':' s
  if 24 ≤ hour ∨ 60 ≤ minute ∨ 61 ≤ second then none
  else
    match s with
    | '.' :: r => if r.head?.any Char.isDigit then some (r.dropWhile Char.isDigit) else none
    | s => some s

/-- Whether a text is an offset from universal time, or nothing. -/
def isOffset (s : List Char) : Bool :=
  match s with
  | [] | ['Z'] | ['z'] => true
  | c :: r =>
    (c == '+' || c == '-') &&
      match readDigits 2 r with
      | none => false
      | some (hour, r) =>
        match readTwo ':' r with
        | some (minute, []) => hour < 24 && minute < 60
        | _ => false

/-- Whether a word is a date. -/
def isDate (s : List Char) : Bool :=
  afterDate? s == some []

/-- Whether a word is a time of day with an offset, as it stands behind a date. -/
def isOffsetTime (s : List Char) : Bool :=
  (afterTime? s).any isOffset

/-- Whether a word is a date, a time of day, or a date and a time with a letter between them. -/
def isTime (s : List Char) : Bool :=
  isDate s || afterTime? s == some [] ||
    match afterDate? s with
    | some (c :: r) => (c == 'T' || c == 't') && isOffsetTime r
    | _ => false

/-- **The value of a word**, if it is one. -/
def scalar? (s : List Char) : Option Value :=
  if s = "true".toList then some (.boolean true)
  else if s = "false".toList then some (.boolean false)
  else if isTime s then some .dateTime
  else if isInteger s || isFloat s then some .number
  else none

end StyleSplit.Toml
