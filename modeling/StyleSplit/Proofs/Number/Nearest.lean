import Mathlib
import StyleSplit.Number.Double
set_option autoImplicit false

/-!
# Rounding to the nearest double

The patterns of the doubles that are not negative are in the order of what they stand for, and a
pattern and the next one differ by a unit in the last place, also where the exponent changes. So
rounding a quotient of units to an integer rounds it to a pattern, and no pattern stands for anything
nearer.

## Main definitions

* `StyleSplit.Double.magnitude` — what a pattern stands for.
* `StyleSplit.Double.IsNearest` — rounding to the nearest pattern, a tie going to the even one.

## Main results

* `StyleSplit.Double.magnitude_pattern` — a pattern by its units in the last place.
* `StyleSplit.Double.magnitude_strictMono` — greater patterns stand for greater numbers.
* `StyleSplit.Double.isNearest_nearest` — rounding gives the nearest double.
* `StyleSplit.Double.IsNearest.unique` — there is one nearest double only.
-/

namespace StyleSplit

/-! ## Rounding quotients -/

/-- **Rounding to an integer** — the integer is half a unit away at most, and at half a unit it is
even. -/
structure RoundsTo (x : ℚ) (q : ℕ) : Prop where
  near : |(q : ℚ) - x| ≤ 1 / 2
  even : |(q : ℚ) - x| = 1 / 2 → Even q

/-- No natural number is nearer than the rounded one, and one that is as near leaves it even. -/
lemma RoundsTo.nearest {x : ℚ} {q : ℕ} (h : RoundsTo x q) (k : ℕ) :
    |(q : ℚ) - x| ≤ |(k : ℚ) - x| ∧ (k ≠ q → |(k : ℚ) - x| = |(q : ℚ) - x| → Even q) := by
  by_cases hk : k = q
  · exact ⟨by rw [hk], fun hne => absurd hk hne⟩
  have hapart : 1 ≤ |(k : ℚ) - q| := by
    have hint : (1 : ℤ) ≤ |(k : ℤ) - q| := Int.one_le_abs (by omega)
    exact_mod_cast hint
  have htriangle : |(k : ℚ) - q| ≤ |(k : ℚ) - x| + |(q : ℚ) - x| := by
    rw [abs_sub_comm (q : ℚ) x]
    exact abs_sub_le _ _ _
  have hnear := h.near
  refine ⟨by linarith, fun _ htie => h.even (by linarith)⟩

/-- The rounded quotient of natural numbers. -/
lemma roundsTo_roundQuotient (num : ℕ) {den : ℕ} (hden : 0 < den) :
    RoundsTo ((num : ℚ) / den) (roundQuotient num den) := by
  have hpos : (0 : ℚ) < den := by exact_mod_cast hden
  have hdivide : (num : ℚ) / den = (num / den : ℕ) + ((num % den : ℕ) : ℚ) / den := by
    rw [eq_comm, ← sub_eq_zero]
    have hmod : ((den * (num / den) + num % den : ℕ) : ℚ) = num := by rw [Nat.div_add_mod]
    push_cast at hmod
    field_simp
    linarith
  set r : ℚ := ((num % den : ℕ) : ℚ) / den with hr
  have hnonneg : 0 ≤ r := by positivity
  have hlt : r < 1 := by
    rw [hr, div_lt_one hpos]
    exact_mod_cast Nat.mod_lt num hden
  have htwice : (2 * (num % den) < den ↔ 2 * r < 1) ∧ (den < 2 * (num % den) ↔ 1 < 2 * r) := by
    rw [hr, mul_div_assoc', div_lt_one hpos, one_lt_div hpos]
    exact ⟨by exact_mod_cast Iff.rfl, by exact_mod_cast Iff.rfl⟩
  rw [hdivide, roundQuotient]
  split_ifs with hbelow habove
  · have hhalf := htwice.1.mp hbelow
    have habs : |((num / den : ℕ) : ℚ) - ((num / den : ℕ) + r)| = r := by
      rw [sub_add_cancel_left, abs_neg, abs_of_nonneg hnonneg]
    exact ⟨by rw [habs]; linarith, fun h => absurd (habs.symm.trans h) (by linarith)⟩
  · have hhalf := htwice.2.mp habove
    have habs : |((num / den + 1 : ℕ) : ℚ) - ((num / den : ℕ) + r)| = 1 - r := by
      push_cast
      rw [add_sub_add_left_eq_sub, abs_of_nonneg (by linarith)]
    exact ⟨by rw [habs]; linarith, fun h => absurd (habs.symm.trans h) (by linarith)⟩
  · -- a tie, which the parity of the quotient decides
    have hhalf : r = 1 / 2 := by
      have h1 := mt htwice.1.mpr hbelow
      have h2 := mt htwice.2.mpr habove
      linarith
    rcases Nat.even_or_odd (num / den) with heven | hodd
    · rw [Nat.even_iff.mp heven, hhalf]
      exact ⟨by norm_num [abs_of_pos], fun _ => heven⟩
    · rw [Nat.odd_iff.mp hodd, hhalf]
      exact ⟨by push_cast; norm_num [abs_of_pos], fun _ => hodd.add_one⟩

/-- Shifting the two sides of a quotient divides it by a power of two. -/
lemma shifted_quotient (num den : ℕ) (e : ℤ) :
    ((num <<< (-e).toNat : ℕ) : ℚ) / ((den <<< e.toNat : ℕ) : ℚ) = (num : ℚ) / den / 2 ^ e := by
  obtain ⟨n, rfl | rfl⟩ := e.eq_nat_or_neg
  · simp [Nat.shiftLeft_eq, div_div]
  · simp [Nat.shiftLeft_eq, div_mul_eq_mul_div]

/-- A natural number between powers of two. -/
lemma two_zpow_log2 {n : ℕ} (h : 0 < n) :
    (2 : ℚ) ^ (n.log2 : ℤ) ≤ n ∧ (n : ℚ) < 2 ^ (n.log2 + 1 : ℤ) := by
  have hle := Nat.log2_self_le h.ne'
  have hlt := Nat.lt_log2_self (n := n)
  constructor
  · rw [zpow_natCast]
    exact_mod_cast hle
  · exact_mod_cast hlt

/-- **The exponent of a quotient** — the quotient is between a power of two and the next one. -/
lemma binaryExponent_spec {num den : ℕ} (hnum : 0 < num) (hden : 0 < den) :
    (2 : ℚ) ^ binaryExponent num den ≤ (num : ℚ) / den ∧
      (num : ℚ) / den < 2 ^ (binaryExponent num den + 1) := by
  have hpos : (0 : ℚ) < den := by exact_mod_cast hden
  have htwo : (2 : ℚ) ≠ 0 := by norm_num
  obtain ⟨hnumLow, hnumHigh⟩ := two_zpow_log2 hnum
  obtain ⟨hdenLow, hdenHigh⟩ := two_zpow_log2 hden
  set e : ℤ := (num.log2 : ℤ) - den.log2 with he
  -- the difference of the logarithms is the exponent or one more
  have hlow : (2 : ℚ) ^ (e - 1) ≤ (num : ℚ) / den := by
    rw [le_div_iff₀ hpos]
    calc (2 : ℚ) ^ (e - 1) * den ≤ 2 ^ (e - 1) * 2 ^ (den.log2 + 1 : ℤ) := by gcongr
      _ = 2 ^ (num.log2 : ℤ) := by rw [← zpow_add₀ htwo]; congr 1; omega
      _ ≤ num := hnumLow
  have hhigh : (num : ℚ) / den < 2 ^ (e + 1) := by
    rw [div_lt_iff₀ hpos]
    calc (num : ℚ) < 2 ^ (num.log2 + 1 : ℤ) := hnumHigh
      _ = 2 ^ (e + 1) * 2 ^ (den.log2 : ℤ) := by rw [← zpow_add₀ htwo]; congr 1; omega
      _ ≤ 2 ^ (e + 1) * den := by gcongr
  have hcompare : den <<< e.toNat ≤ num <<< (-e).toNat ↔ (2 : ℚ) ^ e ≤ (num : ℚ) / den := by
    have hshifted : (0 : ℚ) < ((den <<< e.toNat : ℕ) : ℚ) := by
      rw [Nat.shiftLeft_eq]
      positivity
    rw [← @Nat.cast_le ℚ, ← one_le_div hshifted, shifted_quotient, one_le_div (by positivity)]
  rw [binaryExponent]
  split_ifs with h
  · exact ⟨hcompare.mp h, hhigh⟩
  · rw [sub_add_cancel]
    exact ⟨hlow, not_le.mp (mt hcompare.mpr h)⟩

/-! ## What patterns stand for -/

namespace Double

/-- **Magnitudes** — the number that the pattern of a positive double stands for: the bits behind the
exponent, with a leading one if the exponent is not zero, in units that the exponent tells. At
infinity it is the number that would come next, as rounding takes it. -/
def magnitude (n : ℕ) : ℚ :=
  if n / 2 ^ 52 = 0 then n * 2 ^ (-1074 : ℤ)
  else (2 ^ 52 + n % 2 ^ 52 : ℕ) * 2 ^ ((n / 2 ^ 52 : ℕ) - 1075 : ℤ)

/-- The unit in the last place, which is least for the exponents zero and one. -/
def unit (k : ℕ) : ℚ :=
  2 ^ (k - 1074 : ℤ)

lemma unit_pos (k : ℕ) : 0 < unit k := by
  unfold unit
  positivity

lemma unit_add (k j : ℕ) : unit (k + j) = 2 ^ j * unit k := by
  have hexp : ((k + j : ℕ) - 1074 : ℤ) = j + (k - 1074) := by push_cast; ring
  rw [unit, unit, hexp, zpow_add₀ (by norm_num), zpow_natCast]

/-- **A pattern by its units** — a number of units from its first value at an exponent to the first
one at the next exponent. -/
lemma magnitude_pattern {k q : ℕ} (hlow : k = 0 ∨ 2 ^ 52 ≤ q) (hhigh : q ≤ 2 ^ 53) :
    magnitude (k * 2 ^ 52 + q) = q * unit k := by
  rcases Nat.lt_or_ge q (2 ^ 52) with hsmall | hlarge
  · obtain rfl : k = 0 := by omega
    rw [magnitude, if_pos (by omega), Nat.zero_mul, Nat.zero_add]
    rfl
  obtain hcarry | hfull := Nat.lt_or_eq_of_le hhigh
  · have hdiv : (k * 2 ^ 52 + q) / 2 ^ 52 = k + 1 := by omega
    have hmod : (k * 2 ^ 52 + q) % 2 ^ 52 = q - 2 ^ 52 := by omega
    rw [magnitude, hdiv, hmod, if_neg (by omega), Nat.add_sub_cancel' hlarge, unit]
    congr 2
    push_cast
    ring
  · -- the carry moves to the next exponent
    have hdiv : (k * 2 ^ 52 + q) / 2 ^ 52 = k + 2 := by omega
    have hmod : (k * 2 ^ 52 + q) % 2 ^ 52 = 0 := by omega
    have hexp : ((k + 2 : ℕ) - 1075 : ℤ) = (k + 1 : ℕ) - 1074 := by push_cast; ring
    rw [magnitude, hdiv, hmod, if_neg (by omega), hexp, ← unit, unit_add, hfull]
    push_cast
    ring

/-- Every pattern is a number of units. -/
lemma exists_units (n : ℕ) : ∃ k q, n = k * 2 ^ 52 + q ∧ (k = 0 ∨ 2 ^ 52 ≤ q) ∧ q < 2 ^ 53 ∧
    magnitude n = q * unit k := by
  obtain ⟨k, q, hn, hlow, hhigh⟩ : ∃ k q, n = k * 2 ^ 52 + q ∧ (k = 0 ∨ 2 ^ 52 ≤ q) ∧ q < 2 ^ 53 :=
    ⟨n / 2 ^ 52 - 1, n - (n / 2 ^ 52 - 1) * 2 ^ 52, by omega, by omega, by omega⟩
  exact ⟨k, q, hn, hlow, hhigh, hn ▸ magnitude_pattern hlow hhigh.le⟩

/-- **Greater patterns stand for greater numbers**, since the next pattern is one unit more. -/
lemma magnitude_strictMono : StrictMono magnitude := by
  refine strictMono_nat_of_lt_succ fun n => ?_
  obtain ⟨k, q, rfl, hlow, hhigh, hn⟩ := exists_units n
  rw [hn, Nat.add_assoc, magnitude_pattern (by omega) (by omega)]
  have hunit := unit_pos k
  push_cast
  nlinarith

/-- From an exponent on, patterns stand for multiples of its unit. -/
lemma exists_magnitude_eq_mul_unit {k n : ℕ} (h : k = 0 ∨ k * 2 ^ 52 + 2 ^ 52 ≤ n) :
    ∃ j : ℕ, magnitude n = j * unit k := by
  obtain ⟨k', q, hn, hlow, hhigh, hmagnitude⟩ := exists_units n
  obtain ⟨d, rfl⟩ : ∃ d, k' = k + d := ⟨k' - k, by omega⟩
  refine ⟨q * 2 ^ d, ?_⟩
  rw [hmagnitude, unit_add]
  push_cast
  ring

/-! ## Nearest patterns -/

/-- **The nearest pattern** up to a bound — no pattern stands for a number that is nearer, and if
another one is as near, it is even. -/
structure IsNearestPattern (bound p : ℕ) (x : ℚ) : Prop where
  le_bound : p ≤ bound
  nearest : ∀ n ≤ bound, |magnitude p - x| ≤ |magnitude n - x|
  even : ∀ n ≤ bound, n ≠ p → |magnitude n - x| = |magnitude p - x| → Even p

/-- Units that round a number, in the range of an exponent. -/
lemma units_of_roundsTo {y : ℚ} {k q : ℕ} (hround : RoundsTo y q) (hlow : k = 0 ∨ 2 ^ 52 ≤ y)
    (hhigh : y < 2 ^ 53) : (k = 0 ∨ 2 ^ 52 ≤ q) ∧ q ≤ 2 ^ 53 := by
  obtain ⟨hbelow, habove⟩ := abs_le.mp hround.near
  constructor
  · refine hlow.imp_right fun hlow => ?_
    by_contra hlt
    have hcast : (q : ℚ) + 1 ≤ 2 ^ 52 := by exact_mod_cast Nat.lt_of_not_le hlt
    linarith
  · by_contra hlt
    have hcast : (2 : ℚ) ^ 53 + 1 ≤ q := by exact_mod_cast Nat.lt_of_not_le hlt
    linarith

/-- The distance of some units from a number, in units. -/
lemma abs_units_sub (y x : ℚ) (k : ℕ) : |y * unit k - x| = |y - x / unit k| * unit k := by
  have hunit := unit_pos k
  rw [← abs_of_pos hunit, ← abs_mul, abs_of_pos hunit, sub_mul, div_mul_cancel₀ x hunit.ne']

/-- Of all numbers of units the rounded one is nearest. -/
lemma nearest_units {x : ℚ} {k q : ℕ} (hround : RoundsTo (x / unit k) q) (j : ℕ) :
    |q * unit k - x| ≤ |j * unit k - x| ∧
      (j ≠ q → |j * unit k - x| = |q * unit k - x| → Even q) := by
  obtain ⟨hle, heven⟩ := hround.nearest j
  have hunit := unit_pos k
  rw [abs_units_sub, abs_units_sub]
  exact ⟨mul_le_mul_of_nonneg_right hle hunit.le,
    fun hne htie => heven hne (mul_right_cancel₀ hunit.ne' htie)⟩

/-- The patterns of lower exponents stand for less than the first one of an exponent does. So they
are farther than the rounded units from a number that is not below that. -/
lemma units_nearer {x : ℚ} {k q n : ℕ} (hround : RoundsTo (x / unit k) q)
    (hlow : 2 ^ 52 ≤ x / unit k) (hn : n < k * 2 ^ 52 + 2 ^ 52) :
    |q * unit k - x| < |magnitude n - x| := by
  have hstart : magnitude (k * 2 ^ 52 + 2 ^ 52) = 2 ^ 52 * unit k := by
    rw [magnitude_pattern (.inr le_rfl) (by decide)]
    norm_num
  have hbelow : magnitude n < 2 ^ 52 * unit k := hstart ▸ magnitude_strictMono hn
  have hx : 2 ^ 52 * unit k ≤ x := (le_div_iff₀ (unit_pos k)).mp hlow
  calc |q * unit k - x| ≤ |2 ^ 52 * unit k - x| := by
        exact_mod_cast (nearest_units hround (2 ^ 52)).1
    _ = x - 2 ^ 52 * unit k := by rw [abs_sub_comm, abs_of_nonneg (by linarith)]
    _ < x - magnitude n := by linarith
    _ = |magnitude n - x| := by rw [abs_sub_comm, abs_of_nonneg (by linarith)]

/-- **Rounding to units gives the nearest pattern**, whatever the bound.

**Proof sketch.** From the given exponent on, all patterns stand for multiples of its unit, and none
of these is nearer than the rounded one. The patterns of lower exponents are farther. -/
lemma isNearestPattern_of_roundsTo {x : ℚ} {k q bound : ℕ} (hround : RoundsTo (x / unit k) q)
    (hlow : k = 0 ∨ 2 ^ 52 ≤ x / unit k) (hhigh : x / unit k < 2 ^ 53)
    (hbound : k * 2 ^ 52 + q ≤ bound) : IsNearestPattern bound (k * 2 ^ 52 + q) x := by
  obtain ⟨hfirst, hlast⟩ := units_of_roundsTo hround hlow hhigh
  have hpattern := magnitude_pattern hfirst hlast
  have hnearest : ∀ n, |magnitude (k * 2 ^ 52 + q) - x| ≤ |magnitude n - x| ∧
      (n ≠ k * 2 ^ 52 + q → |magnitude n - x| = |magnitude (k * 2 ^ 52 + q) - x| →
        Even (k * 2 ^ 52 + q)) := by
    intro n
    by_cases hn : k = 0 ∨ k * 2 ^ 52 + 2 ^ 52 ≤ n
    · obtain ⟨j, hj⟩ := exists_magnitude_eq_mul_unit hn
      obtain ⟨hle, heven⟩ := nearest_units hround j
      rw [hpattern, hj]
      refine ⟨hle, fun hne htie => ?_⟩
      have hjq : j ≠ q := by
        rintro rfl
        exact hne (magnitude_strictMono.injective (hj.trans hpattern.symm))
      exact ((even_two.pow_of_ne_zero (by decide)).mul_left k).add (heven hjq htie)
    · obtain ⟨hk, hlt⟩ := not_or.mp hn
      have hfarther := units_nearer hround (hlow.resolve_left hk) (Nat.lt_of_not_le hlt)
      rw [hpattern]
      exact ⟨hfarther.le, fun _ htie => absurd htie hfarther.ne'⟩
  exact ⟨hbound, fun n _ => (hnearest n).1, fun n _ => (hnearest n).2⟩

/-- If the nearest pattern is beyond a lower bound, the bound is the nearest one up to there. -/
lemma IsNearestPattern.of_lt {bound p cap : ℕ} {x : ℚ} (h : IsNearestPattern bound p x)
    (hcap : cap < p) : IsNearestPattern cap cap x := by
  have hstep := magnitude_strictMono hcap
  have hx : magnitude cap < x := by
    by_contra hle
    have hnear := h.nearest cap (hcap.le.trans h.le_bound)
    rw [abs_of_nonneg (by linarith), abs_of_nonneg (by linarith)] at hnear
    linarith
  have habs : ∀ n ≤ cap, |magnitude n - x| = x - magnitude n := by
    intro n hn
    have hle := magnitude_strictMono.monotone hn
    rw [abs_sub_comm, abs_of_nonneg (by linarith)]
  refine ⟨le_rfl, fun n hn => ?_, fun n hn hne htie => ?_⟩
  · have hle := magnitude_strictMono.monotone hn
    rw [habs n hn, habs cap le_rfl]
    linarith
  · have hlt := magnitude_strictMono (lt_of_le_of_ne hn hne)
    rw [habs n hn, habs cap le_rfl] at htie
    linarith

/-- There is one nearest pattern only: between two even ones there is another, which is nearer than
both of them. -/
lemma IsNearestPattern.unique {bound p p' : ℕ} {x : ℚ} (h : IsNearestPattern bound p x)
    (h' : IsNearestPattern bound p' x) : p = p' := by
  wlog hlt : p < p' generalizing p p'
  · rcases Nat.lt_or_eq_of_le (Nat.le_of_not_lt hlt) with hgt | heq
    · exact (this h' h hgt).symm
    · exact heq.symm
  have htie : |magnitude p - x| = |magnitude p' - x| :=
    le_antisymm (h.nearest p' h'.le_bound) (h'.nearest p h.le_bound)
  obtain ⟨a, ha⟩ := h.even p' h'.le_bound hlt.ne' htie.symm
  obtain ⟨b, hb⟩ := h'.even p h.le_bound hlt.ne htie
  have hleft := magnitude_strictMono (show p < p + 1 by omega)
  have hright := magnitude_strictMono (show p + 1 < p' by omega)
  have hbetween := h.nearest (p + 1) (by have := h'.le_bound; omega)
  -- the number is half way between the two, so the pattern between them is nearer
  rcases abs_eq_abs.mp htie with heq | heq
  · linarith
  · have hp : |magnitude p - x| = x - magnitude p := by
      rw [abs_sub_comm, abs_of_nonneg (by linarith)]
    have hnear : |magnitude (p + 1) - x| < x - magnitude p := by
      rw [abs_lt]
      constructor <;> linarith
    linarith

/-! ## The nearest double -/

/-- **Rounding to the nearest double** — its pattern is the nearest one up to infinity. -/
def IsNearest (d : Double) (x : ℚ) : Prop :=
  IsNearestPattern infinityBits d.bits.toNat x

/-- There is one nearest double only. -/
lemma IsNearest.unique {d d' : Double} {x : ℚ} (h : d.IsNearest x) (h' : d'.IsNearest x) :
    d = d' := by
  have hbits := IsNearestPattern.unique h h'
  cases d
  cases d'
  exact congrArg Double.mk (UInt64.toNat_inj.mp hbits)

/-- The nearest pattern to zero. -/
lemma isNearestPattern_zero (bound : ℕ) : IsNearestPattern bound 0 0 := by
  have hround : RoundsTo (0 / unit 0) 0 := ⟨by simp, fun _ => Even.zero⟩
  exact isNearestPattern_of_roundsTo (k := 0) hround (.inl rfl) (by simp) (Nat.zero_le bound)

/-- A pattern that is not beyond infinity fits into its bits. -/
lemma toNat_toUInt64_min (n : ℕ) : (min n infinityBits).toUInt64.toNat = min n infinityBits := by
  refine UInt64.toNat_ofNat_of_lt' (lt_of_le_of_lt (Nat.min_le_right _ _) ?_)
  decide

/-- A fraction is rounded to units whose exponent is that of the fraction, or the least one: it is
less than `2 ^ 53` of these units, and at least `2 ^ 52` unless the exponent is the least one. -/
lemma exists_units_nearest {num den : ℕ} (hnum : 0 < num) (hden : 0 < den) :
    ∃ k q, (nearest num den).bits.toNat = min (k * 2 ^ 52 + q) infinityBits ∧
      RoundsTo ((num : ℚ) / den / unit k) q ∧
      (k = 0 ∨ 2 ^ 52 ≤ (num : ℚ) / den / unit k) ∧ (num : ℚ) / den / unit k < 2 ^ 53 := by
  obtain ⟨hlow, hhigh⟩ := binaryExponent_spec hnum hden
  have htwo : (1 : ℚ) ≤ 2 := by norm_num
  set e : ℤ := max (binaryExponent num den - 52) (-1074) with he
  have hunit : unit (e + 1074).toNat = 2 ^ e := by
    rw [unit]
    congr 1
    omega
  have hpos : (0 : ℚ) < 2 ^ e := by positivity
  refine ⟨(e + 1074).toNat, roundQuotient (num <<< (-e).toNat) (den <<< e.toNat), ?_, ?_, ?_, ?_⟩
  · have hexponent : exponentUnit = 2 ^ 52 := by decide
    rw [nearest, if_neg hnum.ne', ← hexponent]
    exact toNat_toUInt64_min _
  · rw [hunit, ← shifted_quotient]
    refine roundsTo_roundQuotient _ ?_
    rw [Nat.shiftLeft_eq]
    positivity
  · rcases max_choice (binaryExponent num den - 52) (-1074) with hmax | hmax
    · right
      rw [hunit, le_div_iff₀ hpos, ← zpow_natCast, ← zpow_add₀ (by norm_num)]
      exact (zpow_le_zpow_right₀ htwo (by push_cast; omega)).trans hlow
    · exact .inl (by omega)
  · rw [hunit, div_lt_iff₀ hpos, ← zpow_natCast, ← zpow_add₀ (by norm_num)]
    exact hhigh.trans_le (zpow_le_zpow_right₀ htwo (by push_cast; omega))

/-- **Rounding a fraction gives the nearest double.** Where the rounded units are beyond infinity,
infinity is the nearest pattern. -/
lemma isNearest_nearest (num : ℕ) {den : ℕ} (hden : 0 < den) :
    (nearest num den).IsNearest ((num : ℚ) / den) := by
  rcases Nat.eq_zero_or_pos num with rfl | hnum
  · rw [Nat.cast_zero, zero_div]
    exact isNearestPattern_zero infinityBits
  obtain ⟨k, q, hbits, hround, hlow, hhigh⟩ := exists_units_nearest hnum hden
  have hpattern : ∀ bound, k * 2 ^ 52 + q ≤ bound →
      IsNearestPattern bound (k * 2 ^ 52 + q) ((num : ℚ) / den) :=
    fun bound => isNearestPattern_of_roundsTo hround hlow hhigh
  rw [IsNearest, hbits]
  rcases Nat.lt_or_ge infinityBits (k * 2 ^ 52 + q) with hlt | hle
  · rw [min_eq_right hlt.le]
    exact (hpattern _ le_rfl).of_lt hlt
  · rw [min_eq_left hle]
    exact hpattern infinityBits hle

end Double

end StyleSplit
