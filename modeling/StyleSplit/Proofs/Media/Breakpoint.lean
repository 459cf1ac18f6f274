import StyleSplit.Proofs.Media.Numeral
set_option autoImplicit false

/-!
# Breakpoints by their bytes

The first number of a condition may be looked for in the bytes of its UTF-8 form. Digits and the
point are single bytes there, and no byte of another character looks like one of them. So the scan of
the bytes begins and ends between characters, and what it cuts out is the first numeral, which is
always read as a number.

## Main definitions

* `StyleSplit.Condition.byteRange?` — the bytes that the scan cuts out.
* `StyleSplit.Condition.IsCut` — a range of bytes that begins and ends between characters.
* `StyleSplit.Double.parse?` — the double nearest to a decimal number.

## Main results

* `StyleSplit.Condition.byteRange?_eq` — the scan finds the bytes of the first numeral.
* `StyleSplit.Condition.parse?_written` — a numeral is read as a number.
* `StyleSplit.Condition.breakpoint_spec` — the breakpoint, by characters and by bytes.
-/

namespace StyleSplit

/-! ## Scanning bytes -/

namespace Condition

/-- Whether a byte is that of a digit. -/
def isDigitByte (b : UInt8) : Bool :=
  0x30 ≤ b.toNat && b.toNat ≤ 0x39

/-- Whether a byte is that of a point. -/
def isPointByte (b : UInt8) : Bool :=
  b.toNat == 0x2E

/-- Whether the first byte is that of a digit. -/
def startsDigitByte (bytes : List UInt8) : Bool :=
  bytes.head?.any isDigitByte

/-- The number of bytes before the first digit, or before the first point that a digit follows. -/
def startByte? : List UInt8 → Option ℕ
  | [] => none
  | b :: r =>
    if isDigitByte b || (isPointByte b && startsDigitByte r) then some 0
    else (startByte? r).map (· + 1)

/-- The number of digits from here on, with a point among them if a digit follows it and none was
seen before. -/
def scannedBytes (seenPoint : Bool) : List UInt8 → ℕ
  | [] => 0
  | b :: r =>
    if isDigitByte b then scannedBytes seenPoint r + 1
    else if isPointByte b && !seenPoint && startsDigitByte r then scannedBytes true r + 1
    else 0

/-- **The scan** — the first and the last position of what is cut out of bytes. -/
def byteRange? (bytes : List UInt8) : Option (ℕ × ℕ) :=
  (startByte? bytes).map fun start =>
    (start, start + scannedBytes false (bytes.drop start))

/-- **Cuts** — a text stands in another one between two positions, counted in bytes, that are both
between characters. -/
def IsCut (s : String) (first last : ℕ) (text : String) : Prop :=
  ∃ before behind, s = before ++ text ++ behind ∧
    before.utf8ByteSize = first ∧ first + text.utf8ByteSize = last

end Condition

/-- **Reading a decimal number** — digits with a point before, between or behind them, or none; at
least one digit. Texts with a sign or a power of ten are not read. -/
def Double.parse? (text : String) : Option Double :=
  let whole := text.toList.takeWhile Char.isDigit
  match text.toList.dropWhile Char.isDigit with
  | [] =>
    if whole = [] then none else some (Double.nearest (Condition.ofDigits whole) 1)
  | '.' :: fraction =>
    if fraction.all Char.isDigit ∧ (whole ≠ [] ∨ fraction ≠ []) then
      some (Double.nearest (Condition.ofDigits (whole ++ fraction)) (powerOfTen fraction.length))
    else none
  | _ => none

namespace Condition

/-! ## The bytes of a character -/

/-- The bytes of a text. -/
def utf8 (s : List Char) : List UInt8 :=
  s.flatMap String.utf8EncodeChar

lemma utf8_append (s u : List Char) : utf8 (s ++ u) = utf8 s ++ utf8 u :=
  List.flatMap_append

lemma utf8_cons (c : Char) (s : List Char) : utf8 (c :: s) = String.utf8EncodeChar c ++ utf8 s :=
  rfl

/-- The bytes of a character that is not in ASCII are not in ASCII either. -/
lemma le_of_mem_utf8EncodeChar {c : Char} (h : 0x80 ≤ c.toNat) {b : UInt8}
    (hb : b ∈ String.utf8EncodeChar c) : 0x80 ≤ b.toNat := by
  rw [← Char.toNat_val] at h
  rw [String.utf8EncodeChar] at hb
  split_ifs at hb <;> simp only [List.mem_cons, List.not_mem_nil, or_false] at hb <;>
    rcases hb with rfl | rfl | rfl | rfl <;> simp only [UInt8.toNat_ofNat'] <;> omega

/-- **The bytes of a character** — either a single one, which looks like a digit or a point exactly
if the character is one, or several, none of which does. -/
lemma utf8EncodeChar_cases (c : Char) :
    (∃ b, String.utf8EncodeChar c = [b] ∧ isDigitByte b = c.isDigit ∧
      isPointByte b = (c == '.')) ∨
    c.isDigit = false ∧ (c == '.') = false ∧ String.utf8EncodeChar c ≠ [] ∧
      ∀ b ∈ String.utf8EncodeChar c, isDigitByte b = false ∧ isPointByte b = false := by
  have hdigit : c.isDigit = (0x30 ≤ c.toNat && c.toNat ≤ 0x39) := by
    simp [Char.isDigit, UInt32.le_iff_toNat_le]
  have hpoint : (c == '.') = (c.toNat == 0x2E) := by
    rw [Bool.eq_iff_iff, beq_iff_eq, beq_iff_eq, ← Char.toNat_inj]
    rfl
  rcases Nat.lt_or_ge c.toNat 0x80 with hascii | hlarge
  · left
    have hbyte : (UInt8.ofNat c.toNat).toNat = c.toNat := by
      simp only [UInt8.toNat_ofNat']
      omega
    refine ⟨UInt8.ofNat c.toNat, ?_, ?_, ?_⟩
    · rw [← Char.toNat_val] at hascii ⊢
      exact if_pos (Nat.le_of_lt_succ hascii)
    · rw [hdigit, isDigitByte, hbyte]
    · rw [hpoint, isPointByte, hbyte]
  · right
    refine ⟨?_, ?_, String.utf8EncodeChar_ne_nil, fun b hb => ?_⟩
    · rw [hdigit, Bool.and_eq_false_iff, decide_eq_false_iff_not, decide_eq_false_iff_not]
      omega
    · rw [hpoint, beq_eq_false_iff_ne]
      omega
    · have hbyte := le_of_mem_utf8EncodeChar hlarge hb
      simp only [isDigitByte, isPointByte, Bool.and_eq_false_iff, decide_eq_false_iff_not,
        beq_eq_false_iff_ne]
      omega

/-! ## The scan in the bytes of a text -/

lemma startsDigitByte_utf8 (s : List Char) : startsDigitByte (utf8 s) = startsDigit s := by
  cases s with
  | nil => rfl
  | cons c s =>
    rw [utf8_cons]
    obtain ⟨b, hb, hdigit, -⟩ | ⟨hdigit, -, hne, hbytes⟩ := utf8EncodeChar_cases c
    · rw [hb]
      exact hdigit
    · obtain ⟨b, bs, hb⟩ := List.exists_cons_of_ne_nil hne
      rw [hb] at hbytes ⊢
      exact (hbytes b List.mem_cons_self).1.trans hdigit.symm

/-- Bytes of other characters are passed over. -/
lemma startByte?_append {bs : List UInt8}
    (h : ∀ b ∈ bs, isDigitByte b = false ∧ isPointByte b = false) (u : List UInt8) :
    startByte? (bs ++ u) = (startByte? u).map (· + bs.length) := by
  induction bs with
  | nil => exact Option.map_id'.symm
  | cons b bs ih =>
    obtain ⟨⟨hdigit, hpoint⟩, hbs⟩ := List.forall_mem_cons.mp h
    rw [List.cons_append, startByte?, hdigit, hpoint, ih hbs, Option.map_map]
    rfl

/-- **The search, one character further.** -/
lemma startByte?_utf8_cons (c : Char) (s : List Char) :
    startByte? (utf8 (c :: s)) = if startsNumber (c :: s) then some 0
      else (startByte? (utf8 s)).map (· + (String.utf8EncodeChar c).length) := by
  rw [utf8_cons]
  obtain ⟨b, hb, hdigit, hpoint⟩ | ⟨hdigit, hpoint, -, hbytes⟩ := utf8EncodeChar_cases c
  · rw [hb, List.singleton_append, startByte?, hdigit, hpoint, startsDigitByte_utf8]
    rfl
  · rw [startByte?_append hbytes, startsNumber, hdigit, hpoint]
    rfl

/-- The search in the bytes stops where the search in the characters does. -/
lemma startByte?_utf8 {s : List Char} {i : ℕ} (h : BeginsAt s i) (hfirst : ∀ j < i, ¬ BeginsAt s j) :
    startByte? (utf8 s) = some (utf8 (s.take i)).length := by
  induction i generalizing s with
  | zero =>
    cases s with
    | nil => simp [BeginsAt] at h
    | cons c s =>
      rw [startByte?_utf8_cons, if_pos (startsNumber_iff.mpr h)]
      rfl
  | succ i ih =>
    cases s with
    | nil => simp [BeginsAt] at h
    | cons c s =>
      have hhere : ¬ startsNumber (c :: s) := mt startsNumber_iff.mp (hfirst 0 (Nat.succ_pos i))
      have hmore := ih (beginsAt_succ.mp h) fun j hj =>
        mt beginsAt_succ.mpr (hfirst (j + 1) (Nat.succ_lt_succ hj))
      rw [startByte?_utf8_cons, if_neg hhere, hmore, Option.map_some, List.take_succ_cons, utf8_cons,
        List.length_append, Nat.add_comm]

lemma startByte?_utf8_eq_none {s : List Char} (h : fromNumber? s = none) :
    startByte? (utf8 s) = none := by
  induction s with
  | nil => rfl
  | cons c s ih =>
    rw [fromNumber?] at h
    split_ifs at h with hhere
    rw [startByte?_utf8_cons, if_neg hhere, ih h, Option.map_none]

/-- **The scan, one character further.** -/
lemma scannedBytes_utf8_cons (seenPoint : Bool) (c : Char) (s : List Char) :
    scannedBytes seenPoint (utf8 (c :: s)) =
      if c.isDigit then scannedBytes seenPoint (utf8 s) + 1
      else if c == '.' && !seenPoint && startsDigit s then scannedBytes true (utf8 s) + 1
      else 0 := by
  rw [utf8_cons]
  obtain ⟨b, hb, hdigit, hpoint⟩ | ⟨hdigit, hpoint, hne, hbytes⟩ := utf8EncodeChar_cases c
  · rw [hb, List.singleton_append, scannedBytes, hdigit, hpoint, startsDigitByte_utf8]
  · obtain ⟨b, bs, hb⟩ := List.exists_cons_of_ne_nil hne
    rw [hb] at hbytes ⊢
    obtain ⟨hdigitByte, hpointByte⟩ := hbytes b List.mem_cons_self
    rw [List.cons_append, scannedBytes, hdigitByte, hpointByte, hdigit, hpoint]
    rfl

lemma scannedBytes_utf8_digits (seenPoint : Bool) {ds : List Char} (h : ∀ d ∈ ds, d.isDigit)
    (s : List Char) :
    scannedBytes seenPoint (utf8 (ds ++ s)) = ds.length + scannedBytes seenPoint (utf8 s) := by
  induction ds with
  | nil => rw [List.nil_append, List.length_nil, Nat.zero_add]
  | cons d ds ih =>
    obtain ⟨hd, hds⟩ := List.forall_mem_cons.mp h
    rw [List.cons_append, scannedBytes_utf8_cons, if_pos hd, ih hds, List.length_cons]
    omega

/-- The scan stops where no digit follows, and no point before a digit unless one was seen. -/
lemma scannedBytes_utf8_eq_zero {seenPoint : Bool} {s : List Char} (hdigit : startsDigit s = false)
    (hpoint : seenPoint = false → startsNumber s = false) :
    scannedBytes seenPoint (utf8 s) = 0 := by
  cases s with
  | nil => rfl
  | cons c s =>
    have hc : c.isDigit = false := hdigit
    rw [scannedBytes_utf8_cons, hc]
    cases seenPoint with
    | true => simp
    | false =>
      have hnone := hpoint rfl
      rw [startsNumber, hc, Bool.false_or] at hnone
      simp [hnone]

/-- **The scan takes a numeral** as far as its digits go. -/
lemma scannedBytes_utf8_written {n : List Char × List Char} (h : HasDigits n) {behind : List Char}
    (hdigit : startsDigit behind = false) (hpoint : n.2 = [] → startsNumber behind = false) :
    scannedBytes false (utf8 (written n ++ behind)) = (written n).length := by
  obtain ⟨ws, _ | ⟨f, fs⟩⟩ := n
  · rw [written, scannedBytes_utf8_digits false h.whole,
      scannedBytes_utf8_eq_zero hdigit fun _ => hpoint rfl, Nat.add_zero]
  · have hnext : startsDigit (f :: fs ++ behind) = true := h.fraction f List.mem_cons_self
    rw [written, List.append_assoc, scannedBytes_utf8_digits false h.whole, List.cons_append,
      scannedBytes_utf8_cons, hnext, scannedBytes_utf8_digits true h.fraction,
      scannedBytes_utf8_eq_zero hdigit fun h => absurd h (by decide), List.length_append,
      List.length_cons]
    rfl

/-- Digits and points have one byte each. -/
lemma length_utf8_written {n : List Char × List Char} (h : HasDigits n) :
    (utf8 (written n)).length = (written n).length := by
  have hone : ∀ c ∈ written n, (String.utf8EncodeChar c).length = 1 := by
    intro c hc
    obtain ⟨b, hb, -⟩ | ⟨hdigit, hpoint, -⟩ := utf8EncodeChar_cases c
    · rw [hb, List.length_singleton]
    · exfalso
      obtain ⟨ws, _ | ⟨f, fs⟩⟩ := n
      · exact absurd (h.whole c hc) (by simp [hdigit])
      · rcases List.mem_append.mp hc with hws | hfs
        · exact absurd (h.whole c hws) (by simp [hdigit])
        · rcases List.mem_cons.mp hfs with rfl | hfs
          · exact absurd hpoint (by decide)
          · exact absurd (h.fraction c hfs) (by simp [hdigit])
  rw [utf8, List.length_flatMap, List.map_congr_left hone, List.map_const', List.sum_replicate,
    smul_eq_mul, Nat.mul_one]

/-- **The scan finds the bytes of the first numeral.** -/
lemma byteRange?_eq {s text : List Char} {i : ℕ} {value : ℚ} (h : IsFirstNumeral s i text value) :
    byteRange? (utf8 s) = some ((utf8 (s.take i)).length,
      (utf8 (s.take i)).length + (utf8 text).length) := by
  have hn := hasDigits_numeral (startsNumber_drop.mpr h.begins)
  obtain ⟨-, rfl, -⟩ := isFirstNumeral_iff.mp h
  obtain ⟨behind, hs, hdigit, hpoint⟩ := exists_behind (s.drop i)
  have hdrop : (utf8 s).drop (utf8 (s.take i)).length = utf8 (s.drop i) := by
    conv_lhs => rw [← List.take_append_drop i s]
    rw [utf8_append, List.take_append_drop, List.drop_left]
  have hscanned := scannedBytes_utf8_written hn hdigit hpoint
  rw [← hs] at hscanned
  rw [byteRange?, startByte?_utf8 h.begins h.first, Option.map_some, hdrop, hscanned,
    length_utf8_written hn]

/-! ## Reading what is cut out -/

/-- **A numeral is read as a number.** -/
lemma parse?_written {n : List Char × List Char} (h : HasDigits n) :
    Double.parse? (String.ofList (written n)) =
      some (Double.nearest (ofDigits (n.1 ++ n.2)) (powerOfTen n.2.length)) := by
  obtain ⟨ws, _ | ⟨f, fs⟩⟩ := n
  · have hws : ws ≠ [] := h.nonempty.resolve_right (by simp)
    have htake : ws.takeWhile Char.isDigit = ws := List.takeWhile_eq_self_iff.mpr h.whole
    have hdrop : ws.dropWhile Char.isDigit = [] := List.dropWhile_eq_nil_iff.mpr h.whole
    simp only [Double.parse?, String.toList_ofList, written, htake, hdrop, if_neg hws,
      List.append_nil]
    rfl
  · have htake : (ws ++ '.' :: f :: fs).takeWhile Char.isDigit = ws := by
      rw [List.takeWhile_append_of_pos h.whole, List.takeWhile_cons_of_neg (by decide),
        List.append_nil]
    have hdrop : (ws ++ '.' :: f :: fs).dropWhile Char.isDigit = '.' :: f :: fs := by
      rw [List.dropWhile_append_of_pos h.whole, List.dropWhile_cons_of_neg (by decide)]
    have hall : (f :: fs).all Char.isDigit := List.all_eq_true.mpr h.fraction
    simp only [Double.parse?, String.toList_ofList, written, htake, hdrop]
    rw [if_pos ⟨hall, .inr (List.cons_ne_nil f fs)⟩]

lemma utf8ByteSize_ofList (s : List Char) : (String.ofList s).utf8ByteSize = (utf8 s).length := by
  rw [← String.size_toByteArray, String.toByteArray_ofList, List.utf8Encode, List.size_toByteArray,
    utf8]

lemma toList_toUTF8 (s : String) : s.toUTF8.data.toList = utf8 s.toList := by
  rw [String.toUTF8, ← String.utf8Encode_toList, List.utf8Encode, List.data_toByteArray, utf8]

/-! ## The breakpoint of a condition -/

/-- The scan cuts out the first numeral, between characters. -/
lemma isCut_of_isFirstNumeral {c : String} {i : ℕ} {text : List Char} {value : ℚ}
    (h : IsFirstNumeral c.toList i text value) :
    ∃ first last, byteRange? c.toUTF8.data.toList = some (first, last) ∧
      IsCut c first last (String.ofList text) := by
  obtain ⟨behind, hbehind⟩ := h.isPrefix
  refine ⟨_, _, by rw [toList_toUTF8, byteRange?_eq h], String.ofList (c.toList.take i),
    String.ofList behind, ?_, utf8ByteSize_ofList _, by rw [utf8ByteSize_ofList]⟩
  rw [← String.ofList_append, ← String.ofList_append, List.append_assoc, hbehind,
    List.take_append_drop, String.ofList_toList]

/-- The scan finds nothing exactly if there is no digit. -/
lemma byteRange?_eq_none_iff {c : String} :
    byteRange? c.toUTF8.data.toList = none ↔ breakpoint c = none := by
  constructor
  · intro hnone
    rw [breakpoint_eq_none_iff]
    by_contra hdigit
    push Not at hdigit
    obtain ⟨i, text, value, h⟩ := exists_isFirstNumeral (by simpa using hdigit)
    obtain ⟨first, last, hrange, -⟩ := isCut_of_isFirstNumeral h
    rw [hnone] at hrange
    exact absurd hrange (by simp)
  · intro hnone
    have hfrom := fromNumber?_eq_none_iff.mpr (breakpoint_eq_none_iff.mp hnone)
    rw [toList_toUTF8, byteRange?, startByte?_utf8_eq_none hfrom, Option.map_none]

/-- **Breakpoints** — a condition has no breakpoint exactly if it has no digit. Otherwise it has a
first numeral, the longest one at the first place where one begins, and its breakpoint is the double
nearest to what this stands for. The scan of the bytes cuts out just this numeral, between
characters, and what it cuts out is read as a number, which is the breakpoint. -/
theorem breakpoint_spec (c : String) :
    (breakpoint c = none ↔ ∀ d ∈ c.toList, d.isDigit = false) ∧
    ((∃ d ∈ c.toList, d.isDigit) → ∃ i text value, IsFirstNumeral c.toList i text value) ∧
    (∀ i text value, IsFirstNumeral c.toList i text value →
      (∀ d, breakpoint c = some d ↔ d.IsNearest value) ∧
      ∃ first last d, byteRange? c.toUTF8.data.toList = some (first, last) ∧
        IsCut c first last (String.ofList text) ∧
        Double.parse? (String.ofList text) = some d ∧ breakpoint c = some d) ∧
    (byteRange? c.toUTF8.data.toList = none ↔ breakpoint c = none) := by
  refine ⟨breakpoint_eq_none_iff, exists_isFirstNumeral, fun i text value h => ?_,
    byteRange?_eq_none_iff⟩
  obtain ⟨first, last, hrange, hcut⟩ := isCut_of_isFirstNumeral h
  obtain ⟨n, hn, htext, -, hbreakpoint⟩ := breakpoint_eq h
  exact ⟨breakpoint_eq_some_iff h, first, last, _, hrange, hcut, htext ▸ parse?_written hn,
    hbreakpoint⟩

/-- Of three points the first one begins no numeral, and the third one ends it; before them stands a
character of two bytes. -/
theorem breakpoint_spec_points :
    IsFirstNumeral "é..5.5px".toList 2 ".5".toList (1 / 2) ∧
      (∀ d, breakpoint "é..5.5px" = some d ↔ d.IsNearest (1 / 2)) ∧
      byteRange? "é..5.5px".toUTF8.data.toList = some (3, 5) ∧ IsCut "é..5.5px" 3 5 ".5" := by
  have hnone : ∀ j < 2, startsNumber ("é..5.5px".toList.drop j) = false := by decide
  have hnumeral : numeral ("é..5.5px".toList.drop 2) = ([], ['5']) := by decide
  have hdigits : ofDigits ['5'] = 5 := by decide
  have hfirst : IsFirstNumeral "é..5.5px".toList 2 ".5".toList (1 / 2) := by
    refine isFirstNumeral_iff.mpr ⟨⟨startsNumber_drop.mp (by decide), fun j hj hbegins => ?_⟩, ?_⟩
    · exact Bool.false_ne_true ((hnone j hj).symm.trans (startsNumber_drop.mpr hbegins))
    · rw [hnumeral]
      exact ⟨by decide, by norm_num [valueOf, hdigits]⟩
  have hrange : byteRange? "é..5.5px".toUTF8.data.toList = some (3, 5) := by decide +kernel
  obtain ⟨hnearest, first, last, d, hbytes, hcut, -⟩ :=
    (breakpoint_spec "é..5.5px").2.2.1 2 _ _ hfirst
  obtain ⟨rfl, rfl⟩ := Prod.mk.inj (Option.some.inj (hrange.symm.trans hbytes))
  exact ⟨hfirst, hnearest, hrange, hcut⟩

end Condition

end StyleSplit
