set_option autoImplicit false

/-!
# Quotients of natural numbers

The exact arithmetic behind binary floating point: the size of a quotient as a power of two, and its
nearest natural number.

## Main definitions

* `StyleSplit.roundQuotient` — the nearest natural number, a tie going to the even one.
* `StyleSplit.binaryExponent` — the power of two below a quotient.
* `StyleSplit.powerOfTen` — the powers of ten.
-/

namespace StyleSplit

/-- The quotient of two natural numbers rounded to the nearest natural number, a tie going to the
even one. -/
def roundQuotient (num den : Nat) : Nat :=
  let q := num / den
  let twice := 2 * (num % den)
  if twice < den then q
  else if den < twice then q + 1
  else q + q % 2

/-- The exponent `e` with `2 ^ e ≤ num / den < 2 ^ (e + 1)`, for positive numbers. -/
def binaryExponent (num den : Nat) : Int :=
  let e : Int := (num.log2 : Int) - den.log2
  if den <<< e.toNat ≤ num <<< (-e).toNat then e else e - 1

/-- The powers of ten. -/
def powerOfTen (n : Nat) : Nat :=
  Nat.pow 10 n

end StyleSplit
