import Mathlib.Data.List.TakeWhile
import Mathlib.Tactic.Common
import StyleSplit.Css.Lexeme
set_option autoImplicit false

/-!
# Reading in front of a delimiter

Where a name or a numeral ends depends on the character behind it. In front of a comma, a semicolon,
a colon, a slash, a brace or a closing bracket it ends in any case, so it is read as if nothing
followed.

## Main definitions

* `StyleSplit.Css.Stops` — texts that begin with such a delimiter or are empty.
* `StyleSplit.Css.Spans` — the first characters of a text are of one class.

## Main results

* `StyleSplit.Css.readName_append`, `StyleSplit.Css.readNumeral_append` — names and numerals in
  front of a delimiter.
* `StyleSplit.Css.spans_readNumeral` — the characters of a numeral.
-/

namespace StyleSplit.Css

/-! ## Classes of characters -/

/-- A character of a class is not one that the class lacks. -/
lemma notMem_of_class {p : Char → Bool} {c : Char} (hc : p c) (cs : List Char)
    (hcs : cs.all fun d => !p d) : c ∉ cs := by
  intro hmem
  have hnot := List.all_eq_true.mp hcs c hmem
  rw [hc] at hnot
  exact Bool.false_ne_true hnot

/-! ## Delimiters -/

/-- The delimiters that no token of a plain text goes on with. -/
def stopChars : List Char :=
  [',', ';', ':', '/', '{', '}', ')', ']']

/-- Whether a character is such a delimiter. -/
def isStop (c : Char) : Bool :=
  stopChars.contains c

/-- A text in front of which every plain text ends: it begins with a delimiter or is empty. -/
def Stops (t : List Char) : Prop :=
  ∀ c, t.head? = some c → isStop c

/-- A class of characters without delimiters. -/
abbrev Unstopped (p : Char → Bool) : Prop :=
  stopChars.all fun c => !p c

namespace Stops

variable {t : List Char} {p : Char → Bool}

lemma nil : Stops [] := by
  simp [Stops]

lemma cons {c : Char} (hc : isStop c) (t : List Char) : Stops (c :: t) := by
  intro d hd
  obtain rfl := Option.some.inj hd
  exact hc

lemma eq_false (hp : Unstopped p) {c : Char} (hc : isStop c) : p c = false := by
  have hmem : c ∈ stopChars := by simpa [isStop] using hc
  simpa using List.all_eq_true.mp hp c hmem

/-- The characters of a class at the beginning of a text end where the text does. -/
lemma takeWhile_append (ht : Stops t) (hp : Unstopped p) (r : List Char) :
    (r ++ t).takeWhile p = r.takeWhile p := by
  induction r with
  | nil =>
    cases t with
    | nil => rfl
    | cons c t => exact List.takeWhile_cons_of_neg (by simp [eq_false hp (ht c rfl)])
  | cons c r ih =>
    rw [List.cons_append, List.takeWhile_cons, List.takeWhile_cons, ih]

lemma dropWhile_append (ht : Stops t) (hp : Unstopped p) (r : List Char) :
    (r ++ t).dropWhile p = r.dropWhile p ++ t := by
  induction r with
  | nil =>
    cases t with
    | nil => rfl
    | cons c t => exact List.dropWhile_cons_of_neg (by simp [eq_false hp (ht c rfl)])
  | cons c r ih =>
    rw [List.cons_append, List.dropWhile_cons, List.dropWhile_cons, ih]
    split <;> rfl

/-- Whether a text begins with a character of a class does not depend on what follows. -/
lemma head?_any_append (ht : Stops t) (hp : Unstopped p) (r : List Char) :
    (r ++ t).head?.any p = r.head?.any p := by
  cases r with
  | nil =>
    cases t with
    | nil => rfl
    | cons c t => simp [eq_false hp (ht c rfl)]
  | cons c r => rfl

/-- A text that stops does not begin with a character that no delimiter is. -/
lemma head?_ne (ht : Stops t) {c : Char} (hc : c ∉ stopChars) : t.head? ≠ some c := by
  intro h
  have hstop := ht c h
  exact hc (by simpa [isStop] using hstop)

end Stops

/-! ## The beginning of a text -/

/-- Whether a pattern begins a text does not depend on what follows, if that does not begin with a
character of the pattern. -/
lemma isPrefixOf_append_of_head? {pattern t : List Char}
    (ht : ∀ c, t.head? = some c → c ∉ pattern) (r : List Char) :
    pattern.isPrefixOf (r ++ t) = pattern.isPrefixOf r := by
  induction pattern generalizing r with
  | nil => rfl
  | cons c pattern ih =>
    cases r with
    | nil =>
      cases t with
      | nil => rfl
      | cons d t =>
        have hne : c ≠ d := by
          rintro rfl
          exact ht c rfl List.mem_cons_self
        simp [List.isPrefixOf, hne]
    | cons d r =>
      rw [List.cons_append, List.isPrefixOf, List.isPrefixOf,
        ih fun e he h => ht e he (List.mem_cons_of_mem _ h)]

/-- The first `n` characters of a text are there and of one class. -/
structure Spans (p : Char → Bool) (s : List Char) (n : Nat) : Prop where
  le_length : n ≤ s.length
  of_mem : ∀ c ∈ s.take n, p c

namespace Spans

variable {p q : Char → Bool} {s r : List Char} {c : Char} {n m : Nat}

lemma zero : Spans p s 0 :=
  ⟨Nat.zero_le _, fun _ h => absurd h List.not_mem_nil⟩

lemma cons (hc : p c) (h : Spans p r n) : Spans p (c :: r) (n + 1) where
  le_length := Nat.succ_le_succ h.le_length
  of_mem := by
    intro d hd
    rw [List.take_succ_cons] at hd
    obtain rfl | hd := List.mem_cons.mp hd
    · exact hc
    · exact h.of_mem d hd

lemma add (h : Spans p s n) (hm : Spans p (s.drop n) m) : Spans p s (n + m) where
  le_length := by
    have := hm.le_length
    rw [List.length_drop] at this
    have := h.le_length
    omega
  of_mem := by
    intro c hc
    rw [List.take_add, List.mem_append] at hc
    exact hc.elim (h.of_mem c) (hm.of_mem c)

lemma mono (h : Spans p s n) (hpq : ∀ c, p c → q c) : Spans q s n :=
  ⟨h.le_length, fun c hc => hpq c (h.of_mem c hc)⟩

lemma takeWhile (s : List Char) : Spans p s (s.takeWhile p).length where
  le_length := (List.takeWhile_sublist p).length_le
  of_mem := by
    intro c hc
    rw [← List.prefix_iff_eq_take.mp (List.takeWhile_prefix p)] at hc
    exact List.mem_takeWhile_imp hc

end Spans

/-! ## Names -/

/-- A name is the run of name characters, up to a character that is not a backslash. -/
lemma readName_eq {s : List Char} (hs : (s.dropWhile isNameChar).head? ≠ some '\\') :
    readName s =
      ((s.takeWhile isNameChar).map shownChar, (s.takeWhile isNameChar).length) := by
  induction s with
  | nil => rw [readName]; rfl
  | cons c r ih =>
    rw [readName]
    cases hc : isNameChar c with
    | true =>
      rw [List.dropWhile_cons_of_pos hc] at hs
      simp [ih hs, List.takeWhile_cons_of_pos hc]
    | false =>
      rw [List.dropWhile_cons_of_neg (by simp [hc])] at hs
      have hne : c ≠ '\\' := by
        rintro rfl
        exact hs rfl
      simp [hne, List.takeWhile_cons_of_neg, hc]

/-- A text without backslashes begins with its run of name characters as a name. -/
lemma readName_of_notMem {r : List Char} (hr : '\\' ∉ r) :
    readName r = ((r.takeWhile isNameChar).map shownChar, (r.takeWhile isNameChar).length) :=
  readName_eq fun h => hr ((List.dropWhile_suffix _).subset (List.mem_of_head? h))

lemma startsIdent_cons {c : Char} (hdash : c ≠ '-') (hback : c ≠ '\\') {r : List Char} :
    startsIdent (c :: r) = isNameStart c := by
  unfold startsIdent
  split <;> simp_all

lemma unstopped_isNameChar : Unstopped isNameChar := by decide

section

variable {t : List Char} (ht : Stops t) {r : List Char} (hr : '\\' ∉ r)

include ht hr

/-- In front of a delimiter the name that a text begins with is its run of name characters. -/
lemma readName_append :
    readName (r ++ t) =
      ((r.takeWhile isNameChar).map shownChar, (r.takeWhile isNameChar).length) := by
  rw [readName_eq, ht.takeWhile_append unstopped_isNameChar]
  rw [ht.dropWhile_append unstopped_isNameChar, List.head?_append]
  intro h
  cases hdrop : r.dropWhile isNameChar with
  | nil =>
    rw [hdrop] at h
    exact ht.head?_ne (by decide) h
  | cons c rest =>
    rw [hdrop] at h
    obtain rfl : c = '\\' := by simpa using h
    exact hr ((List.dropWhile_suffix _).subset (hdrop ▸ List.mem_cons_self))

/-- Whether an identifier begins a text does not depend on what follows. -/
lemma startsIdent_append : startsIdent (r ++ t) = startsIdent r := by
  cases r with
  | nil =>
    cases t with
    | nil => rfl
    | cons c t =>
      have hdash : c ≠ '-' := fun h => ht.head?_ne (by decide) (congrArg some h)
      have hback : c ≠ '\\' := fun h => ht.head?_ne (by decide) (congrArg some h)
      rw [List.nil_append, startsIdent_cons hdash hback]
      exact Stops.eq_false (by decide) (ht c rfl)
  | cons c r =>
    have hback : c ≠ '\\' := fun h => hr (h ▸ List.mem_cons_self)
    by_cases hdash : c = '-'
    · subst hdash
      exact ht.head?_any_append (by decide) r
    · rw [List.cons_append, startsIdent_cons hdash hback, startsIdent_cons hdash hback]

end

/-! ## Numerals -/

/-- The characters that numerals are made of. -/
def isNumeralChar (c : Char) : Bool :=
  c.isDigit || c == '+' || c == '-' || c == '.' || c == 'e' || c == 'E'

lemma spans_signSize (s : List Char) : Spans isNumeralChar s (signSize (signOf? s)) := by
  unfold signOf?
  split
  · exact Spans.zero.cons rfl
  · exact Spans.zero.cons rfl
  · exact .zero

lemma isNumeralChar_of_isDigit {c : Char} (h : c.isDigit) : isNumeralChar c := by
  simp [isNumeralChar, h]

lemma spans_digits (s : List Char) :
    Spans isNumeralChar s (s.takeWhile Char.isDigit).length :=
  (Spans.takeWhile s).mono fun _ => isNumeralChar_of_isDigit

lemma spans_fractionSize (s : List Char) : Spans isNumeralChar s (fractionSize (fractionOf s)) := by
  unfold fractionOf
  split
  · unfold fractionSize
    split
    · exact .zero
    · exact (spans_digits _).cons rfl
  · exact .zero

/-- The characters of an exponent with its letter. -/
lemma spans_exponent {s digits : List Char} {sign : Option Sign}
    (h : exponentOf? s = some (sign, digits)) :
    Spans isNumeralChar s (1 + signSize sign + digits.length) := by
  cases s with
  | nil => exact absurd h (by simp [exponentOf?])
  | cons c r =>
    rw [exponentOf?] at h
    split_ifs at h with hc
    simp only [Option.some.injEq, Prod.mk.injEq] at h
    obtain ⟨rfl, rfl⟩ := h
    have hletter : isNumeralChar c := by
      rcases hc.1 with rfl | rfl <;> rfl
    have hrest := (spans_signSize r).add (spans_digits (afterSign r))
    rw [Nat.add_assoc, Nat.add_comm 1]
    exact hrest.cons hletter

/-- What is left behind the characters of a class. -/
lemma drop_length_takeWhile (p : Char → Bool) (s : List Char) :
    s.drop (s.takeWhile p).length = s.dropWhile p := by
  induction s with
  | nil => rfl
  | cons c s ih =>
    rw [List.takeWhile_cons, List.dropWhile_cons]
    split
    · rw [List.length_cons, List.drop_succ_cons, ih]
    · rfl

/-- A numeral is made of numeral characters. -/
lemma spans_readNumeral (s : List Char) : Spans isNumeralChar s (readNumeral s).size := by
  have hwhole := (spans_signSize s).add (spans_digits (afterSign s))
  have hbehind : (afterSign s).dropWhile Char.isDigit =
      s.drop (signSize (signOf? s) + ((afterSign s).takeWhile Char.isDigit).length) := by
    rw [← drop_length_takeWhile, afterSign, List.drop_drop]
  have hfraction : Spans isNumeralChar
      (s.drop (signSize (signOf? s) + ((afterSign s).takeWhile Char.isDigit).length))
      (fractionSize (fractionOf ((afterSign s).dropWhile Char.isDigit))) := by
    rw [← hbehind]
    exact spans_fractionSize _
  have hmantissa := hwhole.add hfraction
  rw [readNumeral, Numeral.size]
  split
  · exact hmantissa
  · rename_i sign digits hexponent
    refine hmantissa.add ?_
    rw [← List.drop_drop, ← hbehind]
    exact spans_exponent hexponent

section

variable {t : List Char} (ht : Stops t) (r : List Char)

include ht

lemma startsWithDigit_append : startsWithDigit (r ++ t) = startsWithDigit r :=
  ht.head?_any_append (by decide) r

lemma signOf?_append : signOf? (r ++ t) = signOf? r := by
  cases r with
  | nil =>
    cases t with
    | nil => rfl
    | cons c t =>
      have hplus := ht.head?_ne (c := '+') (by decide)
      have hminus := ht.head?_ne (c := '-') (by decide)
      rw [List.nil_append]
      unfold signOf?
      split <;> simp_all
  | cons c r =>
    rw [List.cons_append]
    unfold signOf?
    split <;> simp_all

lemma afterSign_append : afterSign (r ++ t) = afterSign r ++ t := by
  rw [afterSign, signOf?_append ht, List.drop_append_of_le_length (spans_signSize r).le_length,
    afterSign]

lemma fractionOf_append : fractionOf (r ++ t) = fractionOf r := by
  cases r with
  | nil =>
    cases t with
    | nil => rfl
    | cons c t =>
      have hpoint := ht.head?_ne (c := '.') (by decide)
      rw [List.nil_append]
      unfold fractionOf
      split <;> simp_all
  | cons c r =>
    by_cases hpoint : c = '.'
    · subst hpoint
      exact ht.takeWhile_append (by decide) r
    · simp [fractionOf, hpoint]

lemma exponentOf?_append : exponentOf? (r ++ t) = exponentOf? r := by
  cases r with
  | nil =>
    cases t with
    | nil => rfl
    | cons c t =>
      have hc : ¬ (c = 'e' ∨ c = 'E') := by
        rintro (rfl | rfl)
        · exact ht.head?_ne (c := 'e') (by decide) rfl
        · exact ht.head?_ne (c := 'E') (by decide) rfl
      simp [exponentOf?, hc]
  | cons c r =>
    rw [List.cons_append, exponentOf?, exponentOf?, signOf?_append ht, afterSign_append ht,
      startsWithDigit_append ht,
      ht.takeWhile_append (p := Char.isDigit) (by decide)]

/-- The numeral that a text begins with does not depend on what follows. -/
lemma readNumeral_append : readNumeral (r ++ t) = readNumeral r := by
  have hlength := (spans_fractionSize ((afterSign r).dropWhile Char.isDigit)).le_length
  simp only [readNumeral, signOf?_append ht, afterSign_append ht,
    ht.takeWhile_append (p := Char.isDigit) (by decide),
    ht.dropWhile_append (p := Char.isDigit) (by decide), fractionOf_append ht,
    List.drop_append_of_le_length hlength, exponentOf?_append ht]

lemma startsUnsigned_append : startsUnsigned (r ++ t) = startsUnsigned r := by
  have hdigit := startsWithDigit_append ht r
  cases r with
  | nil =>
    cases t with
    | nil => rfl
    | cons c t =>
      have hpoint := ht.head?_ne (c := '.') (by decide)
      rw [List.nil_append] at hdigit ⊢
      unfold startsUnsigned
      split <;> simp_all
  | cons c r =>
    by_cases hpoint : c = '.'
    · subst hpoint
      exact startsWithDigit_append ht r
    · simp [startsUnsigned, hpoint, startsWithDigit]

/-- Whether a numeral begins a text does not depend on what follows. -/
lemma startsNumeral_append : startsNumeral (r ++ t) = startsNumeral r := by
  rw [startsNumeral, startsNumeral, afterSign_append ht, startsUnsigned_append ht]

end

end StyleSplit.Css
