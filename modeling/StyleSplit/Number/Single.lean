import StyleSplit.Number.Quotient
set_option autoImplicit false

/-!
# Short decimal text of single-precision numbers

Messages show numbers in single precision with at most six significant digits. The digits come from
the shortest decimal fraction that reads back as the number; the search for it works in 32-bit
arithmetic, so in rare cases it keeps one digit more than it had to.

## Main definitions

* `StyleSplit.Single` — a bit pattern.
* `StyleSplit.Single.decimal` — a decimal fraction that reads back as a number.
* `StyleSplit.Single.text` — the text of a number.
-/

namespace StyleSplit

/-- **Singles** — a single-precision number by its bit pattern. -/
structure Single where
  bits : UInt32
  deriving DecidableEq, Repr, Inhabited

/-- A number `significand * 2 ^ exponent`. -/
structure Binary where
  significand : Nat
  exponent : Int
  deriving DecidableEq, Repr, Inhabited

/-- A number `digits * 10 ^ exponent`. -/
structure Decimal where
  digits : Nat
  exponent : Int
  deriving DecidableEq, Repr, Inhabited

namespace Binary

/-- The same number with a significand of 32 bits; a shorter one is widened. -/
def widen (b : Binary) : Binary :=
  let shift := 31 - b.significand.log2
  ⟨b.significand <<< shift, b.exponent - shift⟩

/-- The product of two numbers with significands of 32 bits, whose lower 32 bits are rounded
off. -/
def mul (a b : Binary) : Binary :=
  ⟨(a.significand * b.significand + 0x80000000) >>> 32, a.exponent + b.exponent + 32⟩

/-- The number with a significand of 32 bits that is nearest to a power of ten. -/
def ofPowerOfTen (k : Int) : Binary :=
  let num := powerOfTen k.toNat
  let den := powerOfTen (-k).toNat
  let e := binaryExponent num den - 31
  ⟨roundQuotient (num <<< (-e).toNat) (den <<< e.toNat), e⟩

end Binary

namespace Single

/-- Whether the sign bit is set. -/
def isNegative (s : Single) : Bool :=
  0x80000000 ≤ s.bits.toNat

/-- The leading bit of a significand, which is not stored. -/
def leadingBit : Nat := 0x800000

/-- The bits of the significand that are stored. -/
def fractionBits (s : Single) : Nat :=
  s.bits.toNat % leadingBit

/-- The exponent as it is stored. -/
def exponentBits (s : Single) : Nat :=
  s.bits.toNat / leadingBit % 0x100

/-- **The magnitude** — the significand with its leading bit, and its exponent. The patterns of
infinity and of no number are read like all others. -/
def magnitude (s : Single) : Binary :=
  if s.exponentBits = 0 then ⟨s.fractionBits, -149⟩
  else ⟨s.fractionBits + leadingBit, s.exponentBits - 150⟩

/-- Whether a number is zero, of either sign. -/
def isZero (s : Single) : Bool :=
  s.magnitude.significand == 0

/-- Whether a bit pattern is that of no number. -/
def isNaN (s : Single) : Bool :=
  s.exponentBits == 255 && s.fractionBits != 0

/-- Whether a finite number is an integer. -/
def isInteger (s : Single) : Bool :=
  s.exponentBits < 255 && s.magnitude.significand % (1 <<< (-s.magnitude.exponent).toNat) == 0

/-! ## Digits -/

/-- An interval and a point in it, all in units of `2 ^ (-scale)`. -/
structure Interval where
  low : Nat
  value : Nat
  high : Nat
  scale : Nat
  deriving Repr, Inhabited

/-- **The interval of a number** — the numbers between the midpoints to its two neighbours read back
as it. All three are multiplied by a power of ten that brings their units into the range where the
digits can be told apart; `lowerPower` is the exponent of the inverse power. The interval is
narrowed by a unit on either side, as much as the products may be off. -/
def interval (m : Binary) : Interval × Int :=
  let upper := Binary.widen ⟨2 * m.significand + 1, m.exponent - 1⟩
  let lower : Binary :=
    if m.significand = leadingBit then ⟨4 * m.significand - 1, m.exponent - 2⟩
    else ⟨2 * m.significand - 1, m.exponent - 1⟩
  let lower : Binary :=
    ⟨lower.significand <<< (lower.exponent - upper.exponent).toNat, upper.exponent⟩
  let powers : List Int := [-36, -28, -20, -12, -4, 4, 12, 20, 28, 36, 44, 52]
  let k := (powers.find? fun k => -60 ≤ upper.exponent + (Binary.ofPowerOfTen k).exponent).getD 52
  let power := Binary.ofPowerOfTen k
  let high := upper.mul power
  (⟨(lower.mul power).significand + 1, (m.widen.mul power).significand, high.significand - 1,
    (-high.exponent).toNat⟩, -k)

/-- **Approach** — a decimal fraction below the end of the interval is lowered by units of its last
digit as long as that brings it nearer to the value and keeps it inside. `rest` is its distance from
the end, `gap` that of the value, and `width` that of the other end. -/
def approach (rest unit gap width digits : Nat) : Nat → Nat
  | 0 => digits
  | n + 1 =>
    if rest < gap ∧ unit ≤ width - rest ∧
        (rest + unit < gap ∨ rest + unit - gap < gap - rest) then
      approach (rest + unit) unit gap width (digits - 1) n
    else digits

/-- Digits before the point: the end of the interval is cut to a multiple of the greatest power of
ten that leaves it inside. -/
def wholeDigits? (i : Interval) : Nat → Option Decimal
  | 0 => none
  | n + 1 =>
    let unit := powerOfTen n <<< i.scale
    let rest := i.high % unit
    let width := i.high - i.low
    if rest ≤ width then
      some ⟨approach rest unit (i.high - i.value) width (i.high / unit) 10, n⟩
    else wholeDigits? i n

/-- Digits after the point: the end of the interval is cut after the fewest digits that leave it
inside. From the ninth digit on the value counts as lying at the end. -/
def fractionDigits (i : Interval) (place : Nat) : Nat → Decimal
  | 0 => ⟨(i.high * powerOfTen place) >>> i.scale, -place⟩
  | n + 1 =>
    let unit := 1 <<< i.scale
    let high := i.high * powerOfTen place
    let width := (i.high - i.low) * powerOfTen place
    let gap := if place < 9 then (i.high - i.value) * powerOfTen place else 0
    if high % unit < width then
      ⟨approach (high % unit) unit gap width (high / unit) 10, -place⟩
    else fractionDigits i (place + 1) n

/-- **Decimal fractions** — a decimal fraction that reads back as the given number, which is not
zero. -/
def decimal (s : Single) : Decimal :=
  let (i, shift) := interval s.magnitude
  let places := (Nat.toDigits 10 (i.high >>> i.scale)).length
  let d := (wholeDigits? i places).getD (fractionDigits i 1 i.scale)
  ⟨d.digits, d.exponent + shift⟩

/-! ## Text -/

/-- The number of significant digits that are shown. -/
def shownDigits : Nat := 6

/-- The decimal fraction with no more digits than are shown, a half going up. -/
def shorten (d : Decimal) : Decimal :=
  let extra := (Nat.toDigits 10 d.digits).length - shownDigits
  if extra = 0 then d
  else ⟨(d.digits + 5 * powerOfTen (extra - 1)) / powerOfTen extra, d.exponent + extra⟩

/-- The digits before the point and those after it, the latter without zeros at the end. -/
def positional (d : Decimal) : List Char × List Char :=
  if 0 ≤ d.exponent then
    (Nat.toDigits 10 d.digits ++ List.replicate d.exponent.toNat '0', [])
  else
    let places := (-d.exponent).toNat
    let digits := Nat.toDigits 10 d.digits
    let padded := List.replicate (places + 1 - digits.length) '0' ++ digits
    let fraction := padded.drop (padded.length - places)
    (padded.take (padded.length - places), (fraction.reverse.dropWhile (· == '0')).reverse)

/-- A number as it is shown: the digits before and after the point, and the power of ten. -/
structure Shown where
  whole : List Char
  fraction : List Char
  power : Option Int
  deriving Repr, Inhabited

/-- **Notation** — a number with up to 21 digits before the point, or up to five zeros between the
point and the first digit, is shown in full; any other with one digit before the point and a power
of ten. -/
def shown (s : Single) : Shown :=
  if s.isZero then ⟨['0'], [], none⟩
  else
    let d := s.decimal
    let point := (Nat.toDigits 10 d.digits).length + d.exponent
    let short := shorten d
    if -6 < point ∧ point ≤ 21 then
      let (whole, fraction) := positional short
      ⟨whole, fraction, none⟩
    else
      let (whole, fraction) := positional ⟨short.digits, short.exponent - (point - 1)⟩
      ⟨whole, fraction, some (point - 1)⟩

/-- **The sign of a number** — a minus sign where the sign bit is set, and elsewhere a plus sign if a
sign was written. What is no number is not below zero and has no minus sign. -/
def signText (s : Single) (signed : Bool) : String :=
  if s.isNegative then (if s.isNaN then "" else "-")
  else if signed then "+"
  else ""

/-- **The text of a number** — a number that was not written as an integer does not look like
one. -/
def text (s : Single) (signed integer : Bool) : String :=
  let n := s.shown
  let fraction :=
    if n.fraction.isEmpty then
      if !integer && s.isInteger && n.power.isNone then ".0" else ""
    else "." ++ String.ofList n.fraction
  let power := match n.power with
    | none => ""
    | some e => "e" ++ toString e
  s.signText signed ++ String.ofList n.whole ++ fraction ++ power

end Single

end StyleSplit
