import Mathlib.Data.List.Basic
import Mathlib.Tactic.Common
import StyleSplit.Number.Double
set_option autoImplicit false

/-!
# Comparing doubles as integers

The total order of doubles is the order of signed integers, once the bits behind the sign are
flipped in the patterns that have the sign bit: these count down from minus one, and the others
count up from zero.

## Main definitions

* `StyleSplit.Double.signed` — the integer that a pattern is compared as.

## Main results

* `StyleSplit.Double.rank_le_rank_iff` — the order by rank is the order of these integers.
-/

namespace StyleSplit.Double

/-- **The integer of a pattern** — its bits as a signed integer, where the sign, shifted over all
the bits behind it, has flipped them. -/
def signed (d : Double) : Int :=
  (d.bits.toBitVec ^^^ ((d.bits.toBitVec.sshiftRight 63) >>> 1)).toInt

/-- The bits behind the sign, all set. -/
def behindSign : BitVec 64 :=
  BitVec.ofNat 64 (signBit - 1)

/-- A pattern without the sign bit is compared as it is. -/
lemma signed_of_lt {d : Double} (h : d.bits.toNat < signBit) : d.signed = d.bits.toNat := by
  have hmsb : d.bits.toBitVec.msb = false := by
    rw [BitVec.msb_eq_decide, decide_eq_false_iff_not, Nat.not_le]
    exact h
  have hshifted : d.bits.toBitVec.sshiftRight 63 >>> 1 = 0#64 := by
    rw [BitVec.sshiftRight_eq_of_msb_false hmsb]
    refine BitVec.eq_of_toNat_eq ?_
    simp only [signBit, ← UInt64.toNat_toBitVec] at h
    simp only [BitVec.toNat_ushiftRight, BitVec.toNat_ofNat, Nat.shiftRight_eq_div_pow]
    omega
  rw [signed, hshifted, BitVec.xor_zero, BitVec.toInt_eq_toNat_of_msb hmsb, UInt64.toNat_toBitVec]

/-- With the sign set, flipping all bits of a pattern and those behind the sign once more leaves
the bits behind the sign. -/
lemma not_xor_behindSign {x : BitVec 64} (hmsb : x.msb = true) :
    ~~~(x ^^^ behindSign) = x &&& behindSign := by
  refine BitVec.eq_of_getLsbD_eq fun i hi => ?_
  have hbit : behindSign.getLsbD i = decide (i < 63) := by
    rw [behindSign, BitVec.getLsbD_ofNat, show signBit - 1 = 2 ^ 63 - 1 from rfl,
      Nat.testBit_two_pow_sub_one]
    simp [hi]
  rw [BitVec.getLsbD_not, BitVec.getLsbD_xor, BitVec.getLsbD_and, hbit]
  by_cases hlast : i < 63
  · simp [hi, hlast]
  · obtain rfl : i = 63 := by omega
    rw [BitVec.msb_eq_getLsbD_last] at hmsb
    simp [hmsb]

/-- A pattern with the sign bit is compared as a negative integer, the more so the greater the bits
behind the sign are. -/
lemma signed_of_le {d : Double} (h : signBit ≤ d.bits.toNat) :
    d.signed = (signBit : Int) - 1 - d.bits.toNat := by
  have hmsb : d.bits.toBitVec.msb = true := by
    rw [BitVec.msb_eq_decide, decide_eq_true_eq]
    exact h
  have hshifted : d.bits.toBitVec.sshiftRight 63 >>> 1 = behindSign := by
    have hzero : ~~~d.bits.toBitVec >>> 63 = 0#64 := by
      refine BitVec.eq_of_toNat_eq ?_
      simp only [signBit, ← UInt64.toNat_toBitVec] at h
      simp only [BitVec.toNat_ushiftRight, BitVec.toNat_ofNat, BitVec.toNat_not,
        Nat.shiftRight_eq_div_pow]
      omega
    rw [BitVec.sshiftRight_eq_of_msb_true hmsb, hzero]
    decide
  have hflipped := congrArg BitVec.toNat (not_xor_behindSign hmsb)
  have hbehind : (d.bits.toBitVec &&& behindSign).toNat = d.bits.toNat % 2 ^ 63 := by
    rw [BitVec.toNat_and, UInt64.toNat_toBitVec]
    exact Nat.and_two_pow_sub_one_eq_mod _ 63
  have hlt := d.bits.toNat_lt
  rw [BitVec.toNat_not, hbehind] at hflipped
  rw [signed, hshifted, BitVec.toInt_eq_toNat_cond]
  simp only [signBit] at h ⊢
  split <;> omega

/-- The rank of a pattern is its integer, counted from the least one. -/
lemma rank_eq_signed_add (d : Double) : (d.rank : Int) = d.signed + signBit := by
  have hlt := d.bits.toNat_lt
  rw [rank]
  split_ifs with h
  · rw [signed_of_lt h, Int.natCast_add]
  · rw [signed_of_le (Nat.le_of_not_lt h)]
    simp only [signBit] at h ⊢
    omega

/-- **The total order** is the order of the integers. -/
lemma rank_le_rank_iff {a b : Double} : a.rank ≤ b.rank ↔ a.signed ≤ b.signed := by
  rw [← Int.ofNat_le, rank_eq_signed_add, rank_eq_signed_add]
  exact Int.add_le_add_iff_right _

end StyleSplit.Double
