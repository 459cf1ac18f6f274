import StyleSplit.Proofs.Media.Classification
import StyleSplit.Proofs.Sheet.Yields
set_option autoImplicit false

/-!
# Clean sheets

A sheet is clean if each text in it is made of characters that mean nothing where it is written, so
that it is read as the same text again. Only what is written is asked for: a declaration between
rules or a nested `@media` block leaves no trace.

## Main definitions

* `StyleSplit.Clean.isFlat`, `StyleSplit.Clean.isValue`, `StyleSplit.Clean.isProperty` and the
  like — the texts of a clean sheet.
* `StyleSplit.Sheet.isClean` — clean sheets.

## Main results

* `StyleSplit.Clean.isPiece_of_isFlat`, `StyleSplit.Clean.isPiece_of_isValue` — the texts of a clean
  sheet are pieces.
* `StyleSplit.Clean.vendor?_append_keyframes` — the vendor of a keyframes block is found again.
-/

namespace StyleSplit.Clean

open Css Sheet

/-! ## Texts -/

/-- The signs of flat texts. -/
def flatSigns : List Char :=
  " -_.#:>+~%".toList

/-- Whether a text neither begins nor ends with a space. -/
def isBare (s : List Char) : Bool :=
  !s.head?.any (· == ' ') && !s.getLast?.any (· == ' ')

/-- **Flat texts** — letters, digits, spaces and signs, without a space at the ends. -/
def isFlat (s : List Char) : Bool :=
  s.all (isTextChar flatSigns) && isBare s

/-- A selector or the value of a keyframe step: a flat text that begins with a letter, a digit, a
point, a number sign or a colon. -/
def isItem (s : List Char) : Bool :=
  isFlat s && s.head?.any (isTextChar ['.', '#', ':'])

/-- A value or a condition: it may hold some signs more than a flat text, and balanced parentheses,
but no address. -/
def isValue (s : List Char) : Bool :=
  s.all (isTextChar (flatSigns ++ ",/<=!()".toList)) && isBalanced s &&
    !occurs "url(".toList (s.map Char.toLower) && isBare s

/-- Whether a letter begins a word, or a hyphen before a letter or another hyphen. -/
def beginsWord : List Char → Bool
  | '-' :: c :: _ => c.isAlpha || c == '-'
  | c :: _ => c.isAlpha
  | [] => false

/-- A word of letters, digits, hyphens and underscores. -/
def isWord (s : List Char) : Bool :=
  s.all (isTextChar ['-', '_']) && beginsWord s

/-- A property: a word, perhaps behind a star. -/
def isProperty : List Char → Bool
  | '*' :: s => isWord s
  | s => isWord s

/-- The name of an at-rule that is kept verbatim. -/
def isAtRuleName (s : List Char) : Bool :=
  s.all (fun c => c.isLower || c == '-') && s.head?.any Char.isAlpha && s != "media".toList &&
    !"keyframes".toList.isSuffixOf s

/-- A vendor: nothing, or small letters and hyphens between hyphens. -/
def isVendor (s : List Char) : Bool :=
  s.all (fun c => c.isLower || c == '-') &&
    (s.isEmpty || s.head? == some '-' && s.getLast? == some '-')

/-- The block of an at-rule that is kept verbatim. -/
def isBody (s : List Char) : Bool :=
  s.all (isTextChar (flatSigns ++ ";,\n".toList))

/-- The text of a comment: it does not hold the closing mark. -/
def isComment (s : List Char) : Bool :=
  !occurs ['*', '/'] s

/-- Selectors or the values of a keyframe step. -/
def isItems (items : List String) : Bool :=
  !items.isEmpty && items.all fun s => isItem s.toList

end StyleSplit.Clean

namespace StyleSplit

/-! ## Sheets -/

/-- A clean line of a block. Other styles are not written there. -/
def Style.isCleanLine : Style → Bool
  | .declaration property value => Clean.isProperty property.toList && Clean.isValue value.toList
  | .comment text => Clean.isComment text.toList
  | .rule .. | .step .. | .atRule .. => true

/-- A clean style of a rule list. Other styles are not written there. -/
def Style.isClean : Style → Bool
  | .rule selectors children => Clean.isItems selectors && children.all Style.isCleanLine
  | .comment text => Clean.isComment text.toList
  | .atRule name prelude block =>
    Clean.isAtRuleName name.toList && Clean.isFlat prelude.toList &&
      block.all fun body => Clean.isBody body.toList
  | .declaration .. | .step .. => true

/-- A clean style of a keyframes block. Other styles are not written there. -/
def Style.isCleanStep : Style → Bool
  | .step values children => Clean.isItems values && children.all Style.isCleanLine
  | .comment text => Clean.isComment text.toList
  | .declaration .. | .rule .. | .atRule .. => true

/-- A clean keyframes block. -/
def Keyframes.isClean (k : Keyframes) : Bool :=
  Clean.isVendor k.vendor.toList && Clean.isFlat k.name.toList && k.steps.all Style.isCleanStep

/-- A clean statement. Of an `@media` block the condition is asked for, and the styles that it adds
to its group. -/
def Statement.isClean : Statement → Bool
  | .style s => s.isClean
  | .media condition body =>
    Clean.isValue condition.toList && (body.filterMap Statement.grouped?).all Style.isClean
  | .keyframes k => k.isClean

/-- **Clean sheets** — each statement is clean. -/
def Sheet.isClean (sheet : Sheet) : Bool :=
  sheet.statements.all Statement.isClean

end StyleSplit

namespace StyleSplit.Clean

open Css Sheet

/-! ## Clean texts are pieces -/

/-- A text without spaces at its ends is trimmed if its class has no other blanks. -/
lemma isTrimmed_of_all {signs s : List Char}
    (hsigns : signs.all fun c => c == ' ' || isGraphic c) (hs : s.all (isTextChar signs))
    (hbare : isBare s) : IsTrimmed s := by
  have hblank : ∀ c ∈ s, c ≠ ' ' → isBlank c = false := by
    intro c hc hspace
    have htext := List.all_eq_true.mp hs c hc
    rw [isTextChar, Bool.or_eq_true] at htext
    refine isBlank_of_isGraphic (htext.elim isGraphic_of_isAlphanum fun hmem => ?_)
    have hsign := List.all_eq_true.mp hsigns c (by simpa using hmem)
    simpa [hspace] using hsign
  simp only [isBare, Bool.and_eq_true, Bool.not_eq_true'] at hbare
  constructor
  · cases hc : s.head? with
    | none => rfl
    | some c =>
      rw [hc, Option.any_some, beq_eq_false_iff_ne] at hbare
      exact hblank c (List.mem_of_head? hc) hbare.1
  · rw [endsBlank]
    cases hc : s.getLast? with
    | none => rfl
    | some c =>
      rw [hc, Option.any_some, beq_eq_false_iff_ne] at hbare
      exact hblank c (List.mem_of_getLast? hc) hbare.2

section

variable {avoided : List Mark} {s : List Char}

lemma isPiece_of_isFlat (havoided : avoided.all fun m => !isTextChar flatSigns m.char)
    (hs : isFlat s) : IsPiece avoided s := by
  rw [isFlat, Bool.and_eq_true] at hs
  exact isPiece_of_all_of_no_bracket (by decide) havoided (by decide) hs.1

lemma isTrimmed_of_isFlat (hs : isFlat s) : IsTrimmed s := by
  rw [isFlat, Bool.and_eq_true] at hs
  exact isTrimmed_of_all (by decide) hs.1 hs.2

lemma isPiece_of_isValue
    (havoided : avoided.all fun m => !isTextChar (flatSigns ++ ",/<=!()".toList) m.char)
    (hs : isValue s) : IsPiece avoided s := by
  simp only [isValue, Bool.and_eq_true, Bool.not_eq_true'] at hs
  exact isPiece_of_all (by decide) havoided hs.1.1.1 hs.1.1.2 hs.1.2

lemma isTrimmed_of_isValue (hs : isValue s) : IsTrimmed s := by
  simp only [isValue, Bool.and_eq_true] at hs
  exact isTrimmed_of_all (by decide) hs.1.1.1 hs.2

lemma isPiece_of_isBody (hs : isBody s) : IsPiece [] s :=
  isPiece_of_all_of_no_bracket (by decide) rfl (by decide) hs

end

/-! ## Clean names -/

/-- Letters, digits, hyphens and underscores are name characters. -/
lemma isNameChar_of_isTextChar {c : Char} (hc : isTextChar ['-', '_'] c) : isNameChar c := by
  rw [isTextChar, Char.isAlphanum] at hc
  simp only [Bool.or_eq_true, List.contains_cons, List.contains_nil, beq_iff_eq,
    Bool.or_false] at hc
  rcases hc with (halpha | hdigit) | rfl | rfl
  · simp [isNameChar, isNameStart, halpha]
  · simp [isNameChar, hdigit]
  · rfl
  · rfl

/-- A text of such characters is a name if an identifier begins it. -/
lemma isName_of_all {s : List Char} (hs : s.all (isTextChar ['-', '_'])) (hstart : startsIdent s) :
    IsName s where
  all_isNameChar := List.all_eq_true.mpr fun c hc =>
    isNameChar_of_isTextChar (List.all_eq_true.mp hs c hc)
  nul_notMem := notMem_of_all hs (by decide)
  startsIdent := hstart

lemma startsIdent_cons_of_isAlpha {c : Char} (hc : c.isAlpha) (r : List Char) :
    startsIdent (c :: r) := by
  have hne : ∀ {d : Char}, d.isAlpha = false → c ≠ d := by
    rintro d hd rfl
    rw [hc] at hd
    exact Bool.true_eq_false.mp hd
  rw [startsIdent_cons (hne rfl) (hne rfl)]
  simp [isNameStart, hc]

lemma isName_of_isWord {s : List Char} (hs : isWord s) : IsName s := by
  rw [isWord, Bool.and_eq_true] at hs
  refine isName_of_all hs.1 ?_
  have hbegins := hs.2
  unfold beginsWord at hbegins
  split at hbegins
  · rename_i c r
    rw [Bool.or_eq_true, beq_iff_eq] at hbegins
    rcases hbegins with halpha | rfl
    · simp [startsIdent, isNameStart, halpha]
    · rfl
  · exact startsIdent_cons_of_isAlpha hbegins _
  · exact absurd hbegins (by decide)

lemma isProperty_of_isProperty {s : List Char} (hs : isProperty s) : Sheet.IsProperty s := by
  unfold isProperty at hs
  split at hs
  · exact ⟨_, isName_of_isWord hs, .inr rfl⟩
  · exact ⟨s, isName_of_isWord hs, .inl rfl⟩

/-! ## Names of at-rules -/

/-- Small letters and hyphens are among the letters, digits, hyphens and underscores. -/
lemma all_isTextChar_of_small {s : List Char} (hs : s.all fun c => c.isLower || c == '-') :
    s.all (isTextChar ['-', '_']) := by
  refine List.all_eq_true.mpr fun c hc => ?_
  have hsmall := List.all_eq_true.mp hs c hc
  rw [Bool.or_eq_true, beq_iff_eq] at hsmall
  rcases hsmall with hlower | rfl
  · simp [isTextChar, Char.isAlphanum, Char.isAlpha, hlower]
  · rfl

/-- Small letters and hyphens are not in upper case. -/
lemma all_not_isUpper_of_small {s : List Char} (hs : s.all fun c => c.isLower || c == '-') :
    s.all fun c => !c.isUpper := by
  refine List.all_eq_true.mpr fun c hc => ?_
  have hsmall := List.all_eq_true.mp hs c hc
  rw [Bool.or_eq_true, beq_iff_eq] at hsmall
  rcases hsmall with hlower | rfl
  · simpa using Char.not_isUpper_of_isLower hlower
  · rfl

section

variable {s : List Char} (hs : isAtRuleName s)

include hs

lemma isName_of_isAtRuleName : IsName s := by
  simp only [isAtRuleName, Bool.and_eq_true] at hs
  obtain ⟨⟨⟨hsmall, hhead⟩, -⟩, -⟩ := hs
  cases s with
  | nil => exact absurd hhead (by simp)
  | cons c r =>
    exact isName_of_all (all_isTextChar_of_small hsmall) (startsIdent_cons_of_isAlpha hhead r)

lemma toLower_of_isAtRuleName : (String.ofList s).toLower = String.ofList s := by
  simp only [isAtRuleName, Bool.and_eq_true] at hs
  exact toLower_ofList (all_not_isUpper_of_small hs.1.1.1)

lemma ne_media_of_isAtRuleName : String.ofList s ≠ "media" := by
  simp only [isAtRuleName, Bool.and_eq_true, bne_iff_ne] at hs
  intro h
  rw [← h, String.toList_ofList] at hs
  exact hs.1.2 rfl

/-- The name of such an at-rule is none of a keyframes block. -/
lemma vendor?_of_isAtRuleName : vendor? (String.ofList s) = none := by
  simp only [isAtRuleName, Bool.and_eq_true, Bool.not_eq_true'] at hs
  rw [vendor?, if_neg]
  rintro ⟨happend, -⟩
  rw [String.toList_ofList] at happend
  have hsuffix : "keyframes".toList <:+ s := ⟨_, happend⟩
  rw [← List.isSuffixOf_iff_suffix, hs.2] at hsuffix
  exact Bool.false_ne_true hsuffix

end

/-- A name that ends in `keyframes` is longer than `media`. -/
lemma append_keyframes_ne_media (v : List Char) :
    String.ofList (v ++ "keyframes".toList) ≠ "media" := by
  intro h
  have hlength := congrArg (fun s : String => s.toList.length) h
  simp at hlength

section

variable {v : List Char} (hv : isVendor v)

include hv

lemma isName_of_isVendor : IsName (v ++ "keyframes".toList) := by
  simp only [isVendor, Bool.and_eq_true] at hv
  have hall : (v ++ "keyframes".toList).all (isTextChar ['-', '_']) := by
    rw [List.all_append, all_isTextChar_of_small hv.1]
    rfl
  refine isName_of_all hall ?_
  cases v with
  | nil => decide
  | cons c r =>
    have hends : c = '-' ∧ (c :: r).getLast? = some '-' := by simpa using hv.2
    obtain ⟨rfl, -⟩ := hends
    cases r with
    | nil => decide
    | cons d r =>
      have hsmall := List.all_eq_true.mp hv.1 d (by simp)
      rw [Bool.or_eq_true, beq_iff_eq] at hsmall
      rcases hsmall with hlower | rfl
      · simp [startsIdent, isNameStart, Char.isAlpha, hlower]
      · rfl

lemma toLower_of_isVendor : (String.ofList (v ++ "keyframes".toList)).toLower =
    String.ofList (v ++ "keyframes".toList) := by
  simp only [isVendor, Bool.and_eq_true] at hv
  refine toLower_ofList ?_
  rw [List.all_append, all_not_isUpper_of_small hv.1]
  rfl

/-- The vendor of a keyframes block is found again in the name of the at-rule. -/
lemma vendor?_append_keyframes :
    vendor? (String.ofList (v ++ "keyframes".toList)) = some (String.ofList v) := by
  simp only [isVendor, Bool.and_eq_true, Bool.or_eq_true, List.isEmpty_iff, beq_iff_eq] at hv
  have htake : (v ++ "keyframes".toList).take
      ((v ++ "keyframes".toList).length - "keyframes".toList.length) = v := by
    rw [List.length_append, Nat.add_sub_cancel, List.take_left]
  simp only [vendor?, String.toList_ofList, htake]
  rw [if_pos ⟨trivial, hv.2⟩]

end

end StyleSplit.Clean
