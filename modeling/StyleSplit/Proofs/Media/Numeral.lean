import StyleSplit.Media.Condition
import StyleSplit.Proofs.Number.Nearest
set_option autoImplicit false

/-!
# The first number of a condition

The breakpoint of a condition is read in two steps: the condition is searched for a place where a
number begins, and from there on digits are taken, with one point among them if a digit follows it.
What is taken is the longest numeral that stands there.

## Main definitions

* `StyleSplit.Condition.IsNumeral` — the texts of numbers, and what they stand for.
* `StyleSplit.Condition.IsFirstNumeral` — the longest numeral at the first place where one begins.

## Main results

* `StyleSplit.Condition.fromNumber?_eq_some_iff` — the search stops at the first such place.
* `StyleSplit.Condition.length_le_of_isNumeral` — no numeral is longer than what is taken.
* `StyleSplit.Condition.isFirstNumeral_iff` — what is taken is the first numeral.
* `StyleSplit.Condition.breakpoint_eq_some_iff` — the breakpoint is the double nearest to it.
-/

namespace StyleSplit.Condition

/-! ## Numerals -/

/-- One digit or more. -/
def AreDigits (ds : List Char) : Prop :=
  ds ≠ [] ∧ ∀ d ∈ ds, d.isDigit

/-- **Numerals** — the texts `d+`, `d+.d+` and `.d+` over the digits, and what they stand for. -/
inductive IsNumeral : List Char → ℚ → Prop
  | whole {ds : List Char} : AreDigits ds → IsNumeral ds (ofDigits ds)
  | mixed {ws fs : List Char} : AreDigits ws → AreDigits fs →
      IsNumeral (ws ++ '.' :: fs) (ofDigits ws + ofDigits fs / 10 ^ fs.length)
  | fraction {fs : List Char} : AreDigits fs →
      IsNumeral ('.' :: fs) (ofDigits fs / 10 ^ fs.length)

/-- **Where a numeral begins** — at a digit, or at a point that stands directly before a digit. -/
def BeginsAt (s : List Char) (i : ℕ) : Prop :=
  (∃ d, s[i]? = some d ∧ d.isDigit) ∨ s[i]? = some '.' ∧ ∃ d, s[i + 1]? = some d ∧ d.isDigit

/-- **First numerals** — the longest numeral that stands at the first place where one begins. -/
structure IsFirstNumeral (s : List Char) (i : ℕ) (text : List Char) (value : ℚ) : Prop where
  begins : BeginsAt s i
  first : ∀ j < i, ¬ BeginsAt s j
  isPrefix : text <+: s.drop i
  isNumeral : IsNumeral text value
  longest : ∀ other v, other <+: s.drop i → IsNumeral other v → other.length ≤ text.length

/-! ## The search -/

lemma startsNumber_drop {s : List Char} {i : ℕ} : startsNumber (s.drop i) ↔ BeginsAt s i := by
  have hhere : s[i]? = (s.drop i)[0]? := by simp
  have hnext : s[i + 1]? = (s.drop i)[1]? := by simp
  rw [BeginsAt, hhere, hnext]
  cases s.drop i with
  | nil => simp [startsNumber]
  | cons c r => cases r <;> simp [startsNumber, startsDigit]

lemma startsNumber_iff {s : List Char} : startsNumber s ↔ BeginsAt s 0 := by
  rw [← startsNumber_drop, List.drop_zero]

lemma beginsAt_succ {c : Char} {s : List Char} {i : ℕ} : BeginsAt (c :: s) (i + 1) ↔ BeginsAt s i := by
  simp only [BeginsAt, List.getElem?_cons_succ]

/-- **The search** stops at the first place where a numeral begins. -/
lemma fromNumber?_eq_some_iff {s r : List Char} : fromNumber? s = some r ↔
    ∃ i, r = s.drop i ∧ BeginsAt s i ∧ ∀ j < i, ¬ BeginsAt s j := by
  induction s with
  | nil => simp [fromNumber?, BeginsAt]
  | cons c s ih =>
    rw [fromNumber?]
    split_ifs with hbegins
    · rw [Option.some.injEq]
      refine ⟨fun h => ⟨0, h.symm, startsNumber_iff.mp hbegins, fun j hj => absurd hj (Nat.not_lt_zero j)⟩, ?_⟩
      rintro ⟨_ | i, rfl, -, hfirst⟩
      · rfl
      · exact absurd (startsNumber_iff.mp hbegins) (hfirst 0 (Nat.succ_pos i))
    · rw [ih]
      constructor
      · rintro ⟨i, rfl, hi, hfirst⟩
        refine ⟨i + 1, rfl, beginsAt_succ.mpr hi, fun j hj => ?_⟩
        cases j with
        | zero => exact mt startsNumber_iff.mpr hbegins
        | succ j => exact mt beginsAt_succ.mp (hfirst j (Nat.lt_of_succ_lt_succ hj))
      · rintro ⟨_ | i, rfl, hi, hfirst⟩
        · exact absurd (startsNumber_iff.mpr hi) hbegins
        · exact ⟨i, rfl, beginsAt_succ.mp hi, fun j hj =>
            mt beginsAt_succ.mpr (hfirst (j + 1) (Nat.succ_lt_succ hj))⟩

/-- The search finds no place exactly if there is no digit. -/
lemma fromNumber?_eq_none_iff {s : List Char} :
    fromNumber? s = none ↔ ∀ d ∈ s, d.isDigit = false := by
  induction s with
  | nil => simp [fromNumber?]
  | cons c s ih =>
    rw [fromNumber?, List.forall_mem_cons]
    split_ifs with hbegins
    · refine iff_of_false (by simp) fun ⟨hc, hs⟩ => ?_
      -- a numeral that begins with a point goes on with a digit
      have hnext : startsDigit s = false := by
        cases s with
        | nil => rfl
        | cons d s => exact hs d List.mem_cons_self
      simp [startsNumber, hc, hnext] at hbegins
    · rw [ih]
      refine (and_iff_right ?_).symm
      simp only [startsNumber, Bool.or_eq_true, not_or, Bool.not_eq_true] at hbegins
      exact hbegins.1

/-! ## What is taken -/

/-- The text of whole digits and of digits after the point. -/
def written : List Char × List Char → List Char
  | (ws, []) => ws
  | (ws, f :: fs) => ws ++ '.' :: f :: fs

/-- What the digits stand for. -/
def valueOf (n : List Char × List Char) : ℚ :=
  (ofDigits (n.1 ++ n.2) : ℚ) / 10 ^ n.2.length

/-- Both parts of a numeral are digits, and one of them is not empty. -/
structure HasDigits (n : List Char × List Char) : Prop where
  whole : ∀ d ∈ n.1, d.isDigit
  fraction : ∀ d ∈ n.2, d.isDigit
  nonempty : n.1 ≠ [] ∨ n.2 ≠ []

lemma length_written (n : List Char × List Char) :
    (written n).length = n.1.length + if n.2 = [] then 0 else n.2.length + 1 := by
  obtain ⟨ws, _ | ⟨f, fs⟩⟩ := n <;> simp [written]

lemma ofDigits_append (ws fs : List Char) :
    ofDigits (ws ++ fs) = ofDigits ws * 10 ^ fs.length + ofDigits fs := by
  induction fs using List.reverseRecOn with
  | nil => simp [ofDigits]
  | append_singleton fs f ih =>
    have hlast : ∀ ds : List Char,
        ofDigits (ds ++ [f]) = 10 * ofDigits ds + (f.toNat - '0'.toNat) := by
      intro ds
      rw [ofDigits, List.foldl_append]
      rfl
    rw [← List.append_assoc, hlast, hlast, ih, List.length_append, List.length_singleton, pow_succ]
    ring

/-- A numeral is the text of its digits and stands for what they stand for. -/
lemma isNumeral_iff {text : List Char} {value : ℚ} :
    IsNumeral text value ↔ ∃ n, HasDigits n ∧ text = written n ∧ value = valueOf n := by
  constructor
  · intro h
    cases h with
    | whole hds => exact ⟨(text, []), ⟨hds.2, by simp, .inl hds.1⟩, rfl, by simp [valueOf]⟩
    | @mixed ws fs hws hfs =>
      refine ⟨(ws, fs), ⟨hws.2, hfs.2, .inl hws.1⟩, ?_, ?_⟩
      · obtain ⟨f, fs, rfl⟩ := List.exists_cons_of_ne_nil hfs.1
        rfl
      · rw [valueOf, ofDigits_append]
        push_cast
        field_simp
    | @fraction fs hfs =>
      refine ⟨([], fs), ⟨by simp, hfs.2, .inr hfs.1⟩, ?_, by simp [valueOf]⟩
      obtain ⟨f, fs, rfl⟩ := List.exists_cons_of_ne_nil hfs.1
      rfl
  · rintro ⟨n, hn, rfl, rfl⟩
    obtain ⟨ws, _ | ⟨f, fs⟩⟩ := n
    · have hwhole : IsNumeral ws (ofDigits ws) := .whole ⟨hn.nonempty.resolve_right (by simp), hn.whole⟩
      simpa [written, valueOf] using hwhole
    · have hfraction : AreDigits (f :: fs) := ⟨List.cons_ne_nil f fs, hn.fraction⟩
      have hvalue : valueOf (ws, f :: fs) =
          ofDigits ws + ofDigits (f :: fs) / 10 ^ (f :: fs).length := by
        rw [valueOf, ofDigits_append]
        push_cast
        field_simp
      rw [hvalue]
      by_cases hws : ws = []
      · subst hws
        simpa [written, ofDigits] using IsNumeral.fraction hfraction
      · exact .mixed ⟨hws, hn.whole⟩ hfraction

/-- Digits in front are taken whole. -/
lemma numeral_append {ds : List Char} (h : ∀ d ∈ ds, d.isDigit) (s : List Char) :
    numeral (ds ++ s) = (ds ++ (numeral s).1, (numeral s).2) := by
  unfold numeral
  rw [List.takeWhile_append_of_pos h, List.dropWhile_append_of_pos h]
  cases s.dropWhile Char.isDigit with
  | nil => rfl
  | cons c r => by_cases hc : c = '.' <;> simp [hc]

lemma numeral_point (s : List Char) : numeral ('.' :: s) = ([], s.takeWhile Char.isDigit) := by
  simp [numeral]

/-- The digits of a written numeral with a text behind it: more digits may be taken. -/
lemma numeral_written_append {n : List Char × List Char} (h : HasDigits n) (s : List Char) :
    numeral (written n ++ s) = if n.2 = [] then (n.1 ++ (numeral s).1, (numeral s).2)
      else (n.1, n.2 ++ s.takeWhile Char.isDigit) := by
  obtain ⟨ws, _ | ⟨f, fs⟩⟩ := n
  · rw [if_pos rfl, written, numeral_append h.whole]
  · rw [if_neg (by simp), written, List.append_assoc, numeral_append h.whole, List.cons_append,
      numeral_point, List.takeWhile_append_of_pos h.fraction, List.append_nil]

/-- **No numeral is longer than what is taken.** -/
lemma length_le_of_isNumeral {s text : List Char} {value : ℚ} (hfront : text <+: s)
    (h : IsNumeral text value) : text.length ≤ (written (numeral s)).length := by
  obtain ⟨n, hn, rfl, -⟩ := isNumeral_iff.mp h
  obtain ⟨u, rfl⟩ := hfront
  rw [numeral_written_append hn, length_written]
  by_cases hwhole : n.2 = []
  · rw [if_pos hwhole, if_pos hwhole, length_written, List.length_append]
    omega
  · have hmore : n.2 ++ u.takeWhile Char.isDigit ≠ [] := List.append_ne_nil_of_left_ne_nil hwhole _
    rw [if_neg hwhole, if_neg hwhole, length_written, if_neg hmore, List.length_append]
    dsimp only
    omega

/-- The digits behind a point are taken as well. -/
lemma numeral_of_point {s r : List Char} (h : s.dropWhile Char.isDigit = '.' :: r) :
    numeral s = (s.takeWhile Char.isDigit, r.takeWhile Char.isDigit) := by
  simp only [numeral, h]

lemma numeral_of_no_point {s : List Char} (h : ∀ r, s.dropWhile Char.isDigit ≠ '.' :: r) :
    numeral s = (s.takeWhile Char.isDigit, []) := by
  unfold numeral
  split
  · rename_i r hr
    exact absurd hr (h r)
  · rfl

lemma startsDigit_eq_false_iff {s : List Char} :
    startsDigit s = false ↔ s.takeWhile Char.isDigit = [] := by
  cases s with
  | nil => simp [startsDigit]
  | cons c r => cases hc : c.isDigit <;> simp [startsDigit, hc]

lemma startsDigit_dropWhile (s : List Char) : startsDigit (s.dropWhile Char.isDigit) = false := by
  rw [startsDigit_eq_false_iff]
  induction s with
  | nil => rfl
  | cons c s ih => cases hc : c.isDigit <;> simp [hc, ih]

/-- Nothing but digits is taken. -/
lemma isDigit_of_mem_numeral (s : List Char) :
    (∀ d ∈ (numeral s).1, d.isDigit) ∧ ∀ d ∈ (numeral s).2, d.isDigit := by
  have htake : ∀ u : List Char, ∀ d ∈ u.takeWhile Char.isDigit, d.isDigit :=
    fun u d hd => List.mem_takeWhile_imp hd
  by_cases hpoint : ∃ r, s.dropWhile Char.isDigit = '.' :: r
  · obtain ⟨r, hr⟩ := hpoint
    rw [numeral_of_point hr]
    exact ⟨htake s, htake r⟩
  · rw [numeral_of_no_point (not_exists.mp hpoint)]
    exact ⟨htake s, fun d hd => absurd hd List.not_mem_nil⟩

/-- **What is taken** stands at the front. No digit follows it, and no point before a digit unless
it has a point itself. -/
lemma exists_behind (s : List Char) : ∃ behind, s = written (numeral s) ++ behind ∧
    startsDigit behind = false ∧ ((numeral s).2 = [] → startsNumber behind = false) := by
  have hsplit := List.takeWhile_append_dropWhile (p := Char.isDigit) (l := s)
  have hdigit := startsDigit_dropWhile s
  by_cases hpoint : ∃ r, s.dropWhile Char.isDigit = '.' :: r
  · obtain ⟨r, hr⟩ := hpoint
    have hbehind := List.takeWhile_append_dropWhile (p := Char.isDigit) (l := r)
    rw [numeral_of_point hr]
    rw [hr] at hsplit hdigit
    cases hfraction : r.takeWhile Char.isDigit with
    | nil =>
      refine ⟨'.' :: r, hsplit.symm, hdigit, fun _ => ?_⟩
      have hnext := startsDigit_eq_false_iff.mpr hfraction
      simp [startsNumber, hnext]
    | cons f fs =>
      refine ⟨r.dropWhile Char.isDigit, ?_, startsDigit_dropWhile r, fun h => absurd h (by simp)⟩
      rw [hfraction] at hbehind
      rw [written, List.append_assoc, List.cons_append, hbehind, hsplit]
  · rw [numeral_of_no_point (not_exists.mp hpoint)]
    refine ⟨s.dropWhile Char.isDigit, hsplit.symm, hdigit, fun _ => ?_⟩
    cases hrest : s.dropWhile Char.isDigit with
    | nil => rfl
    | cons c r =>
      have hc : c ≠ '.' := by
        rintro rfl
        exact hpoint ⟨r, hrest⟩
      rw [hrest] at hdigit
      simpa [startsNumber, startsDigit, hc] using hdigit

/-- Where a numeral begins, digits are taken. -/
lemma hasDigits_numeral {s : List Char} (h : startsNumber s) : HasDigits (numeral s) := by
  obtain ⟨hwhole, hfraction⟩ := isDigit_of_mem_numeral s
  refine ⟨hwhole, hfraction, ?_⟩
  by_contra hnone
  obtain ⟨hws, hfs⟩ := not_or.mp hnone
  obtain ⟨behind, hs, -, hbehind⟩ := exists_behind s
  rw [not_not] at hws hfs
  have hempty : written (numeral s) = [] := by
    rw [← List.length_eq_zero_iff, length_written, if_pos hfs, hws, List.length_nil]
  rw [hempty, List.nil_append] at hs
  exact absurd (hbehind hfs) (by rw [← hs, h]; decide)

/-- Reading what is written gives the digits back. -/
lemma numeral_written {n : List Char × List Char} (h : HasDigits n) : numeral (written n) = n := by
  have happend := numeral_written_append h []
  rw [List.append_nil] at happend
  rw [happend]
  obtain ⟨ws, fs⟩ := n
  by_cases hfs : fs = []
  · subst hfs
    simp [numeral]
  · rw [if_neg hfs]
    simp

/-! ## The first numeral -/

/-- **What is taken is the first numeral**, and nothing else is. -/
lemma isFirstNumeral_iff {s text : List Char} {i : ℕ} {value : ℚ} :
    IsFirstNumeral s i text value ↔ (BeginsAt s i ∧ ∀ j < i, ¬ BeginsAt s j) ∧
      text = written (numeral (s.drop i)) ∧ value = valueOf (numeral (s.drop i)) := by
  constructor
  · intro h
    have hn := hasDigits_numeral (startsNumber_drop.mpr h.begins)
    have htaken : IsNumeral (written (numeral (s.drop i))) (valueOf (numeral (s.drop i))) :=
      isNumeral_iff.mpr ⟨_, hn, rfl, rfl⟩
    obtain ⟨behind, hs, -, -⟩ := exists_behind (s.drop i)
    have hfront : written (numeral (s.drop i)) <+: s.drop i := ⟨behind, hs.symm⟩
    have hlength : text.length = (written (numeral (s.drop i))).length :=
      Nat.le_antisymm (length_le_of_isNumeral h.isPrefix h.isNumeral) (h.longest _ _ hfront htaken)
    have htext : text = written (numeral (s.drop i)) :=
      (List.prefix_of_prefix_length_le h.isPrefix hfront hlength.le).eq_of_length hlength
    obtain ⟨n, hdigits, hwritten, hvalue⟩ := isNumeral_iff.mp h.isNumeral
    refine ⟨⟨h.begins, h.first⟩, htext, ?_⟩
    rw [hvalue, ← numeral_written hdigits, ← hwritten, htext, numeral_written hn]
  · rintro ⟨⟨hbegins, hfirst⟩, rfl, rfl⟩
    have hn := hasDigits_numeral (startsNumber_drop.mpr hbegins)
    obtain ⟨behind, hs, -, -⟩ := exists_behind (s.drop i)
    exact ⟨hbegins, hfirst, ⟨behind, hs.symm⟩, isNumeral_iff.mpr ⟨_, hn, rfl, rfl⟩,
      fun other v hother hv => length_le_of_isNumeral hother hv⟩

/-- There is a first numeral if there is a digit. -/
lemma exists_isFirstNumeral {s : List Char} (h : ∃ d ∈ s, d.isDigit) :
    ∃ i text value, IsFirstNumeral s i text value := by
  obtain ⟨d, hd, hdigit⟩ := h
  have hsome : fromNumber? s ≠ none := fun hnone =>
    Bool.false_ne_true ((fromNumber?_eq_none_iff.mp hnone d hd).symm.trans hdigit)
  obtain ⟨r, hr⟩ := Option.ne_none_iff_exists'.mp hsome
  obtain ⟨i, -, hbegins, hfirst⟩ := fromNumber?_eq_some_iff.mp hr
  exact ⟨i, _, _, isFirstNumeral_iff.mpr ⟨⟨hbegins, hfirst⟩, rfl, rfl⟩⟩

/-! ## Breakpoints -/

variable {condition : String} {i : ℕ} {text : List Char} {value : ℚ}

lemma breakpoint_eq_none_iff :
    breakpoint condition = none ↔ ∀ d ∈ condition.toList, d.isDigit = false := by
  rw [breakpoint, Option.map_eq_none_iff, fromNumber?_eq_none_iff]

lemma breakpoint_eq (h : IsFirstNumeral condition.toList i text value) :
    ∃ n, HasDigits n ∧ text = written n ∧ value = valueOf n ∧
      breakpoint condition =
        some (Double.nearest (ofDigits (n.1 ++ n.2)) (powerOfTen n.2.length)) := by
  obtain ⟨⟨hbegins, hfirst⟩, htext, hvalue⟩ := isFirstNumeral_iff.mp h
  refine ⟨_, hasDigits_numeral (startsNumber_drop.mpr hbegins), htext, hvalue, ?_⟩
  rw [breakpoint, fromNumber?_eq_some_iff.mpr ⟨i, rfl, hbegins, hfirst⟩, Option.map_some]

/-- **The breakpoint is the double nearest to the first numeral.** -/
lemma breakpoint_eq_some_iff (h : IsFirstNumeral condition.toList i text value) (d : Double) :
    breakpoint condition = some d ↔ d.IsNearest value := by
  obtain ⟨n, -, -, rfl, hbreakpoint⟩ := breakpoint_eq h
  have hnearest := Double.isNearest_nearest (ofDigits (n.1 ++ n.2))
    (Nat.pow_pos (n := n.2.length) (show 0 < 10 by decide))
  rw [Nat.cast_pow] at hnearest
  rw [hbreakpoint, Option.some.injEq]
  exact ⟨fun h => h ▸ hnearest, fun h => Double.IsNearest.unique hnearest h⟩

end StyleSplit.Condition
