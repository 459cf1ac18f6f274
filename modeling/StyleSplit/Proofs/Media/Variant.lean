import StyleSplit.Proofs.Media.Identifier
set_option autoImplicit false

/-!
# Variants of a condition

A condition can be written in many ways: with other blanks, with more or fewer parentheses, in
letters of another case. Such variants go to one group, since they have one key. What a key keeps
can be told from the key alone: the keys are the texts of key characters, and each is its own key.

Variants are what single edits lead to, in any number and in both directions. So a fact about all
variants needs a look at one edit only. That two conditions are variants can be checked by removing
from both what edits may insert, and comparing the rest in lower case.

## Main definitions

* `StyleSplit.Condition.Edit` — one blank or parenthesis more, or one letter in another case.
* `StyleSplit.Condition.IsVariant` — conditions that edits lead between.
* `StyleSplit.Condition.strip` — a text without blanks and parentheses, in lower case.

## Main results

* `StyleSplit.Condition.isVariant_iff` — variants are the conditions of one stripped text.
* `StyleSplit.Condition.key_eq_of_isVariant` — variants have one key.
* `StyleSplit.Condition.key_projection` — this, with the keys as the fixed points of `key`.
-/

namespace StyleSplit.Condition

/-! ## Edits -/

/-- Whether a character only spaces or encloses others: a blank or a parenthesis. -/
def isFiller (c : Char) : Bool :=
  c == '(' || c == ')' || isBlank c

/-- **Edits** — a blank or a parenthesis is inserted at some position, or a character is replaced
by one that is the same in lower case. Lower case is that of ASCII letters: all other characters
are replaced by themselves only. -/
inductive Edit : List Char → List Char → Prop
  | insert (front : List Char) {c : Char} (behind : List Char) (h : isFiller c) :
      Edit (front ++ behind) (front ++ c :: behind)
  | recase (front : List Char) {c d : Char} (behind : List Char) (h : c.toLower = d.toLower) :
      Edit (front ++ c :: behind) (front ++ d :: behind)

/-- **Variants** — conditions that edits lead between, in any number and in both directions. -/
def IsVariant (a b : String) : Prop :=
  Relation.EqvGen Edit a.toList b.toList

/-- **Stripped texts** — without blanks and parentheses, in lower case. -/
def strip (s : List Char) : List Char :=
  (s.filter (!isFiller ·)).map Char.toLower

lemma strip_append (s t : List Char) : strip (s ++ t) = strip s ++ strip t := by
  simp [strip]

lemma strip_cons_of_isFiller {c : Char} (h : isFiller c) (s : List Char) :
    strip (c :: s) = strip s := by
  simp [strip, h]

lemma strip_cons_of_not_isFiller {c : Char} (h : isFiller c = false) (s : List Char) :
    strip (c :: s) = c.toLower :: strip s := by
  simp [strip, h]

/-- Letters are no fillers. -/
lemma isFiller_of_isAlpha {c : Char} (h : c.isAlpha) : isFiller c = false := by
  have hblank : isBlank c = false :=
    Css.isBlank_of_isGraphic (Css.isGraphic_of_isAlphanum (by simp [Char.isAlphanum, h]))
  have hne : ∀ d : Char, d.isAlpha = false → c ≠ d := by
    rintro d hd rfl
    exact Bool.false_ne_true (hd.symm.trans h)
  simp [isFiller, hblank, hne '(' (by decide), hne ')' (by decide)]

/-- Lower case makes no difference to what is a filler. -/
lemma isFiller_toLower (c : Char) : isFiller c.toLower = isFiller c := by
  by_cases hupper : c.isUpper
  · have halpha : c.isAlpha := by simp [Char.isAlpha, hupper]
    rw [isFiller_of_isAlpha halpha, isFiller_of_isAlpha (by simpa using halpha)]
  · rw [Char.toLower_eq_of_not_isUpper hupper]

/-- One edit does not change the stripped text. -/
lemma Edit.strip_eq {s t : List Char} (h : Edit s t) : strip s = strip t := by
  cases h with
  | insert front behind hfiller =>
    rw [strip_append, strip_append, strip_cons_of_isFiller hfiller]
  | @recase front c d behind hlower =>
    have hsame : isFiller c = isFiller d := by rw [← isFiller_toLower c, hlower, isFiller_toLower]
    rw [strip_append, strip_append]
    cases hfiller : isFiller c with
    | true =>
      rw [strip_cons_of_isFiller hfiller, strip_cons_of_isFiller (hsame ▸ hfiller)]
    | false =>
      rw [strip_cons_of_not_isFiller hfiller, strip_cons_of_not_isFiller (hsame ▸ hfiller), hlower]

/-- Edits lead from a text to its stripped form, whatever stands in front of it. -/
lemma eqvGen_edit_strip (front s : List Char) :
    Relation.EqvGen Edit (front ++ s) (front ++ strip s) := by
  -- by induction on what is left to strip; what is stripped already moves to the front
  induction s generalizing front with
  | nil => exact .refl _
  | cons c s ih =>
    cases hfiller : isFiller c with
    | true =>
      rw [strip_cons_of_isFiller hfiller]
      exact .trans _ _ _ (.symm _ _ (.rel _ _ (.insert front s hfiller))) (ih front)
    | false =>
      rw [strip_cons_of_not_isFiller hfiller]
      have hlower : c.toLower = c.toLower.toLower := (Char.toLower_toLower_eq_toLower c).symm
      have hrest := ih (front ++ [c.toLower])
      rw [List.append_cons front c.toLower (strip s)]
      refine .trans _ _ _ (.rel _ _ (.recase front s hlower)) ?_
      rwa [List.append_cons front c.toLower s]

/-- Edits lead from one text to another exactly if both have one stripped text. -/
lemma eqvGen_edit_iff {s t : List Char} : Relation.EqvGen Edit s t ↔ strip s = strip t := by
  constructor
  · intro h
    induction h with
    | rel _ _ hedit => exact hedit.strip_eq
    | refl _ => rfl
    | symm _ _ _ ih => exact ih.symm
    | trans _ _ _ _ _ ihleft ihright => exact ihleft.trans ihright
  · intro h
    have hs := eqvGen_edit_strip [] s
    have ht := eqvGen_edit_strip [] t
    rw [h] at hs
    exact .trans _ _ _ hs (.symm _ _ ht)

/-- **Variants are the conditions of one stripped text.** -/
lemma isVariant_iff {a b : String} : IsVariant a b ↔ strip a.toList = strip b.toList :=
  eqvGen_edit_iff

instance : DecidableRel IsVariant :=
  fun _ _ => decidable_of_iff _ isVariant_iff.symm

/-! ## Keys of variants -/

lemma keyChars_of_isFiller {c : Char} (h : isFiller c) : keyChars c = [] := by
  have hdropped : c = '(' ∨ c = ')' ∨ isBlank c := by simpa [isFiller, or_assoc] using h
  rw [keyChars, if_pos hdropped]

/-- A letter has one key in both cases. -/
lemma keyChars_toLower (c : Char) : keyChars c.toLower = keyChars c := by
  by_cases hupper : c.isUpper
  · have hworded : ∀ d : Char, d.isAlpha → isWorded d := fun d hd => by
      simp [isWorded, Css.isTextChar, Char.isAlphanum, hd]
    have halpha : c.isAlpha := by simp [Char.isAlpha, hupper]
    rw [keyChars_eq, keyChars_eq, if_pos (hworded c halpha),
      if_pos (hworded c.toLower (by simpa using halpha)), Char.toLower_toLower_eq_toLower]
  · rw [Char.toLower_eq_of_not_isUpper hupper]

/-- The key of a text can be read off the stripped text. -/
lemma flatMap_keyChars_strip (s : List Char) : (strip s).flatMap keyChars = s.flatMap keyChars := by
  induction s with
  | nil => rfl
  | cons c s ih =>
    rw [List.flatMap_cons, ← ih]
    cases hfiller : isFiller c with
    | true => rw [strip_cons_of_isFiller hfiller, keyChars_of_isFiller hfiller, List.nil_append]
    | false => rw [strip_cons_of_not_isFiller hfiller, List.flatMap_cons, keyChars_toLower]

/-- **Variants have one key.** The converse fails, since keys spell operators out: those of
`width>1px` and `widthgt1px` are one. -/
lemma key_eq_of_isVariant {a b : String} (h : IsVariant a b) : key a = key b := by
  rw [key, key, ← flatMap_keyChars_strip, isVariant_iff.mp h, flatMap_keyChars_strip]

/-! ## Keys as fixed points -/

/-- A text is its own key exactly if it is made of key characters. -/
lemma key_eq_self_iff {s : String} : key s = s ↔ ∀ c ∈ s.toList, isKeyChar c :=
  ⟨fun h _ hc => isKeyChar_of_mem_key (h.symm ▸ hc), key_eq_self⟩

/-- A text is the key of some condition exactly if it is its own key. -/
lemma exists_key_eq_iff {s : String} : (∃ c, key c = s) ↔ key s = s := by
  refine ⟨?_, fun h => ⟨s, h⟩⟩
  rintro ⟨c, rfl⟩
  exact key_eq_self fun d hd => isKeyChar_of_mem_key hd

/-- **Keys are a projection** that spacing, parentheses and the case of letters make no difference
to. The key of a key is the key itself, the keys are the texts of key characters, no other text is
its own key, and all variants of a condition have its key and its identifier. -/
theorem key_projection :
    (∀ c : String, key (key c) = key c) ∧
    (∀ s : String, (∃ c, key c = s) ↔ ∀ d ∈ s.toList, isKeyChar d) ∧
    (∀ s : String, key s = s ↔ ∀ d ∈ s.toList, isKeyChar d) ∧
    ∀ a b : String, IsVariant a b → key a = key b ∧ groupId a = groupId b := by
  refine ⟨fun _ => exists_key_eq_iff.mp ⟨_, rfl⟩, fun s => ?_, fun s => key_eq_self_iff, ?_⟩
  · rw [exists_key_eq_iff, key_eq_self_iff]
  · intro a b h
    have hkey := key_eq_of_isVariant h
    exact ⟨hkey, groupId_eq_iff.mpr hkey⟩

/-- Two spellings of one condition that differ in parentheses, letter case and a no-break space. -/
theorem key_projection_spellings :
    IsVariant "(min-width: 47.5em)" "( MIN-WIDTH :\u00a047.5Em" ∧
      key "(min-width: 47.5em)" = key "( MIN-WIDTH :\u00a047.5Em" ∧
      groupId "(min-width: 47.5em)" = groupId "( MIN-WIDTH :\u00a047.5Em" := by
  have hvariant : IsVariant "(min-width: 47.5em)" "( MIN-WIDTH :\u00a047.5Em" := by
    decide +kernel
  exact ⟨hvariant, key_projection.2.2.2 _ _ hvariant⟩

end StyleSplit.Condition
