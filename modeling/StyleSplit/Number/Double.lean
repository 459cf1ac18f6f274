import StyleSplit.Number.Quotient
set_option autoImplicit false

/-!
# Double-precision numbers by their bits

A number that orders media groups is a double-precision number of IEEE 754. It is kept as its 64
bits: every pattern is a value, also the infinities and those that stand for no number, and the
order below is the total order of the standard, which is defined on all of them.

## Main definitions

* `StyleSplit.Double` — a bit pattern.
* `StyleSplit.Double.rank` — the place of a pattern in the total order.
* `StyleSplit.Double.nearest` — the double nearest to a fraction of natural numbers.

## Main results

* `StyleSplit.Double.rank_injective` — patterns of one rank are equal.
-/

namespace StyleSplit

/-- **Doubles** — a double-precision number by its bit pattern. -/
structure Double where
  bits : UInt64
  deriving DecidableEq, Repr, Inhabited

namespace Double

/-- The bit of the sign. -/
def signBit : Nat := 0x8000000000000000

/-- **The total order** — the place of a pattern: those with the sign bit come first, in
descending order of the other bits, then those without it in ascending order. -/
def rank (d : Double) : Nat :=
  if d.bits.toNat < signBit then d.bits.toNat + signBit else signBit + signBit - 1 - d.bits.toNat

/-- Whether the first pattern comes before the second one or equals it. -/
def le (a b : Double) : Bool :=
  a.rank ≤ b.rank

/-- The pattern of positive infinity. -/
def infinityBits : Nat := 0x7FF0000000000000

/-- The lowest bit of the exponent. -/
def exponentUnit : Nat := 0x10000000000000

/-- **Rounding to a double** — the double nearest to `num / den`, a tie going to the even
pattern. The unit of the last place is a power of two that leaves 53 digits before the point, or
the least positive double when the fraction is too small for that. With `q` units of `2 ^ e` the
pattern is `(e + 1074) * 2 ^ 52 + q`, in which a carry out of the 53 digits moves to the next
exponent by itself. What lies beyond the last finite pattern is infinity. -/
def nearest (num den : Nat) : Double :=
  if num = 0 then ⟨0⟩ else
    let e : Int := max (binaryExponent num den - 52) (-1074)
    let q := roundQuotient (num <<< (-e).toNat) (den <<< e.toNat)
    ⟨(min ((e + 1074).toNat * exponentUnit + q) infinityBits).toUInt64⟩

/-! ## The order -/

/-- Patterns of one rank are equal. -/
theorem rank_injective {a b : Double} (h : a.rank = b.rank) : a = b := by
  have ha := a.bits.toNat_lt
  have hb := b.bits.toNat_lt
  have : a.bits.toNat = b.bits.toNat := by
    unfold rank signBit at h
    split at h <;> split at h <;> omega
  cases a
  cases b
  simp only [mk.injEq]
  exact UInt64.toNat_inj.mp this

end Double

end StyleSplit
