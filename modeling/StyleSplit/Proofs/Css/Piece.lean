import Mathlib
import StyleSplit.Proofs.Css.Excerpt
import StyleSplit.Proofs.Css.Plain
set_option autoImplicit false

/-!
# Pieces of a stylesheet

A piece is a plain text with balanced brackets that certain marks do not stand in: those that would
end it where it is read. Spaces around a piece make no difference, and are trimmed off again.

## Main definitions

* `StyleSplit.Css.IsPiece` — pieces.

## Main results

* `StyleSplit.Css.IsPiece.surround` — spaces around a piece.
* `StyleSplit.Css.trim_surround` — they are trimmed off.
-/

namespace StyleSplit

/-! ## Blanks around a text -/

/-- Blanks in front of a text are dropped. -/
lemma trim_append_left {a : List Char} (ha : ∀ c ∈ a, isBlank c) (s : List Char) :
    trim (a ++ s) = trim s := by
  rw [trim, trim, List.dropWhile_append_of_pos ha]

/-- Blanks behind a text are dropped. -/
lemma trim_append_right {b : List Char} (hb : ∀ c ∈ b, isBlank c) (s : List Char) :
    trim (s ++ b) = trim s := by
  have hend : ∀ r : List Char, trimEnd (r ++ b) = trimEnd r := by
    intro r
    rw [trimEnd, trimEnd, List.reverse_append,
      List.dropWhile_append_of_pos fun c hc => hb c (List.mem_reverse.mp hc)]
  rw [trim, trim, List.dropWhile_append]
  split_ifs with hempty
  · rw [List.isEmpty_iff.mp hempty, List.dropWhile_eq_nil_iff.mpr hb]
  · exact hend _

/-- Blanks around a text without blanks at its ends are dropped. -/
lemma trim_surround {a b s : List Char} (ha : ∀ c ∈ a, isBlank c) (hb : ∀ c ∈ b, isBlank c)
    (hfirst : s.head?.any isBlank = false) (hlast : endsBlank s = false) :
    trim (a ++ s ++ b) = s := by
  rw [trim_append_right hb, trim_append_left ha, trim_eq_self hfirst hlast]

/-! ## Occurrences in a longer text -/

section

variable {pattern : List Char} (hne : pattern ≠ [])

include hne

/-- Characters in front of a text that no occurrence can hold make no difference. -/
lemma occurs_append_left {a : List Char} (ha : ∀ c ∈ a, c ∉ pattern) (s : List Char) :
    occurs pattern (a ++ s) = occurs pattern s := by
  induction a with
  | nil => rfl
  | cons c a ih =>
    rw [List.cons_append, occurs, ih fun d hd => ha d (List.mem_cons_of_mem _ hd)]
    cases pattern with
    | nil => exact absurd rfl hne
    | cons d pattern =>
      have hcd : d ≠ c := by
        rintro rfl
        exact ha d List.mem_cons_self List.mem_cons_self
      simp [List.isPrefixOf, hcd]

/-- Characters behind a text that no occurrence can hold make no difference. -/
lemma occurs_append_right {b : List Char} (hb : ∀ c ∈ b, c ∉ pattern) (s : List Char) :
    occurs pattern (s ++ b) = occurs pattern s := by
  induction s with
  | nil => simpa using occurs_append_left hne hb []
  | cons c s ih =>
    have hhead : ∀ d, b.head? = some d → d ∉ pattern := fun d hd => hb d (List.mem_of_head? hd)
    rw [List.cons_append, occurs, occurs, ih, ← List.cons_append,
      Css.isPrefixOf_append_of_head? hhead]

end

end StyleSplit

namespace StyleSplit.Css

/-! ## Texts over a class of characters -/

/-- Letter case turns no character into another one that is not a small letter. -/
lemma eq_of_toLower {c d : Char} (hd : d.isLower = false) (h : c.toLower = d) : c = d := by
  have halpha : c.isAlpha = false := by rw [← Char.isLower_toLower_eq_isAlpha, h, hd]
  have hupper : ¬ c.isUpper := fun hc => by simp [Char.isAlpha, hc] at halpha
  rwa [Char.toLower_eq_of_not_isUpper hupper] at h

/-- A text without parentheses has no address. -/
lemma no_url_of_paren_notMem {s : List Char} (hs : '(' ∉ s) :
    occurs "url(".toList (s.map Char.toLower) = false := by
  by_contra h
  rw [Bool.not_eq_false, occurs_iff_isInfix] at h
  obtain ⟨c, hc, hlower⟩ := List.mem_map.mp (h.subset (show '(' ∈ "url(".toList by decide))
  exact hs (eq_of_toLower (by decide) hlower ▸ hc)

/-- A text over a class of characters does not hold any other one. -/
lemma notMem_of_all {p : Char → Bool} {s : List Char} (hs : s.all p) {c : Char} (hc : p c = false) :
    c ∉ s := by
  intro h
  rw [List.all_eq_true.mp hs c h] at hc
  exact Bool.true_eq_false.mp hc

/-- A text without addresses over a class without quotes, backslashes and stars is plain. -/
lemma isPlain_of_all {p : Char → Bool} (hp : ['"', '\'', '\\', '*'].all fun c => !p c)
    {s : List Char} (hs : s.all p) (hurl : occurs "url(".toList (s.map Char.toLower) = false) :
    IsPlain s := by
  simp only [List.all_cons, List.all_nil, Bool.and_true, Bool.and_eq_true, Bool.not_eq_true'] at hp
  obtain ⟨hquote, hapostrophe, hback, hstar⟩ := hp
  refine ⟨⟨notMem_of_all hs hquote, notMem_of_all hs hapostrophe, notMem_of_all hs hback, hurl⟩, ?_⟩
  by_contra h
  rw [Bool.not_eq_false, occurs_iff_isInfix] at h
  exact notMem_of_all hs hstar (h.subset (by decide))

/-! ## Letters, digits and signs -/

/-- The class of the letters, the digits and the given signs. -/
def isTextChar (signs : List Char) (c : Char) : Bool :=
  c.isAlphanum || signs.contains c

/-- The characters of ASCII that are neither blanks nor controls. -/
def isGraphic (c : Char) : Bool :=
  0x21 ≤ c.toNat && c.toNat ≤ 0x7E

lemma isGraphic_of_isAlphanum {c : Char} (h : c.isAlphanum) : isGraphic c := by
  simp [Char.isAlphanum, Char.isAlpha, Char.isUpper, Char.isLower, Char.isDigit,
    UInt32.le_iff_toNat_le] at h
  simp only [isGraphic, Bool.and_eq_true, decide_eq_true_eq]
  omega

lemma isBlank_of_isGraphic {c : Char} (h : isGraphic c) : isBlank c = false := by
  simp only [isGraphic, Bool.and_eq_true, decide_eq_true_eq] at h
  simp only [isBlank, Bool.or_eq_false_iff, Bool.and_eq_false_iff, decide_eq_false_iff_not,
    beq_eq_false_iff_ne]
  omega

/-- In a class whose signs are spaces and graphic characters only the spaces are blank. -/
lemma isBlank_of_isTextChar {signs : List Char}
    (hsigns : signs.all fun c => c == ' ' || c == '\n' || isGraphic c) {c : Char}
    (hc : isTextChar signs c) (hspace : c ≠ ' ') (hline : c ≠ '\n') : isBlank c = false := by
  rw [isTextChar, Bool.or_eq_true] at hc
  refine isBlank_of_isGraphic (hc.elim isGraphic_of_isAlphanum fun hmem => ?_)
  have hsign := List.all_eq_true.mp hsigns c (by simpa using hmem)
  simpa [hspace, hline] using hsign

/-! ## Pieces -/

/-- **Pieces** — plain texts with balanced brackets and without the given marks. -/
structure IsPiece (avoided : List Mark) (s : List Char) : Prop where
  isPlain : IsPlain s
  isBalanced : isBalanced s
  avoids : ∀ m ∈ avoided, m.char ∉ s

/-- The spaces that are written around a piece. -/
def isGap (s : List Char) : Bool :=
  s.all fun c => c == ' ' || c == '\n'

/-- What holds of a space and of a line feed holds of each character of a gap. -/
lemma forall_mem_gap {P : Char → Prop} {a : List Char} (ha : isGap a) (hspace : P ' ')
    (hline : P '\n') : ∀ c ∈ a, P c := by
  intro c hc
  have hgap := List.all_eq_true.mp ha c hc
  simp only [Bool.or_eq_true, beq_iff_eq] at hgap
  rcases hgap with rfl | rfl
  · exact hspace
  · exact hline

/-- Letter case makes no difference to spaces. -/
lemma map_toLower_gap {a : List Char} (ha : isGap a) : a.map Char.toLower = a := by
  have hid : a.map Char.toLower = a.map id :=
    List.map_congr_left (forall_mem_gap ha rfl rfl)
  rw [hid, List.map_id]

/-- A character other than these stands in a text if and only if it does with spaces around. -/
lemma mem_surround_iff {a b s : List Char} (ha : isGap a) (hb : isGap b) {c : Char}
    (hspace : c ≠ ' ') (hline : c ≠ '\n') : c ∈ a ++ s ++ b ↔ c ∈ s := by
  have hnot : ∀ {x : List Char}, isGap x → c ∉ x := fun hx h =>
    forall_mem_gap (P := (c ≠ ·)) hx hspace hline c h rfl
  simp [hnot ha, hnot hb]

/-- Spaces are no marks. -/
lemma marks_surround {a b : List Char} (ha : isGap a) (hb : isGap b) (s : List Char) :
    marks (a ++ s ++ b) = marks s := by
  have hnone : ∀ {x : List Char}, isGap x → marks x = [] := fun hx =>
    marks_eq_nil_iff.mpr (forall_mem_gap hx rfl rfl)
  rw [marks_append, marks_append, hnone ha, hnone hb, List.nil_append, List.append_nil]

/-- Spaces take no part in an occurrence of a word. -/
lemma occurs_surround {a b pattern : List Char} (ha : isGap a) (hb : isGap b) (hne : pattern ≠ [])
    (hspace : ' ' ∉ pattern) (hline : '\n' ∉ pattern) (s : List Char) :
    occurs pattern (a ++ s ++ b) = occurs pattern s := by
  rw [occurs_append_right hne (forall_mem_gap hb hspace hline),
    occurs_append_left hne (forall_mem_gap ha hspace hline)]

/-- **Spaces around a piece** make no difference. -/
lemma IsPiece.surround {avoided : List Mark} {a b s : List Char} (hs : IsPiece avoided s)
    (ha : isGap a) (hb : isGap b) : IsPiece avoided (a ++ s ++ b) where
  isPlain :=
    { quote_notMem := by
        rw [mem_surround_iff ha hb (by decide) (by decide)]
        exact hs.isPlain.quote_notMem
      apostrophe_notMem := by
        rw [mem_surround_iff ha hb (by decide) (by decide)]
        exact hs.isPlain.apostrophe_notMem
      backslash_notMem := by
        rw [mem_surround_iff ha hb (by decide) (by decide)]
        exact hs.isPlain.backslash_notMem
      no_comment := by
        rw [occurs_surround ha hb (by decide) (by decide) (by decide)]
        exact hs.isPlain.no_comment
      no_url := by
        rw [List.map_append, List.map_append, map_toLower_gap ha, map_toLower_gap hb,
          occurs_surround ha hb (by decide) (by decide) (by decide)]
        exact hs.isPlain.no_url }
  isBalanced := by
    rw [Css.isBalanced, marks_surround ha hb]
    exact hs.isBalanced
  avoids := by
    intro m hm
    have hnot : m.char ≠ ' ' ∧ m.char ≠ '\n' := by
      rcases m with (_ | _ | _) | (_ | _ | _) | _ | _ <;> exact ⟨by decide, by decide⟩
    rw [mem_surround_iff ha hb hnot.1 hnot.2]
    exact hs.avoids m hm

/-- A text over a class of characters is a piece if the class lacks what a piece must not have, and
the text its addresses and unbalanced brackets. -/
lemma isPiece_of_all {avoided : List Mark} {p : Char → Bool}
    (hp : ['"', '\'', '\\', '*'].all fun c => !p c)
    (havoided : avoided.all fun m => !p m.char) {s : List Char} (hs : s.all p)
    (hbalanced : isBalanced s) (hurl : occurs "url(".toList (s.map Char.toLower) = false) :
    IsPiece avoided s where
  isPlain := isPlain_of_all hp hs hurl
  isBalanced := hbalanced
  avoids := by
    intro m hm
    exact notMem_of_all hs (by simpa using List.all_eq_true.mp havoided m hm)

/-- Separators alone are balanced. -/
lemma closesAll_of_separators {ms : List Mark} (h : ∀ m ∈ ms, m = .comma ∨ m = .semicolon) :
    closesAll [] ms := by
  induction ms with
  | nil => rfl
  | cons m ms ih =>
    have htail := ih fun n hn => h n (List.mem_cons_of_mem _ hn)
    rcases h m List.mem_cons_self with rfl | rfl
    · rwa [closesAll]
    · rwa [closesAll]

/-- The characters of the brackets. -/
def bracketChars : List Char :=
  ['{', '(', '[', '}', ')', ']']

/-- A text without brackets is balanced. -/
lemma isBalanced_of_no_bracket {s : List Char} (h : ∀ c ∈ bracketChars, c ∉ s) : isBalanced s := by
  refine closesAll_of_separators fun m hm => ?_
  obtain ⟨c, hc, hcm⟩ := List.mem_filterMap.mp hm
  have hchar : m.char ∈ s := eq_char_of_markOf? hcm ▸ hc
  rcases m with (_ | _ | _) | (_ | _ | _) | _ | _
  all_goals first | exact absurd hchar (h _ (by decide)) | simp

/-- A text over a class of characters without brackets is a piece if the class lacks what a piece
must not have. -/
lemma isPiece_of_all_of_no_bracket {avoided : List Mark} {p : Char → Bool}
    (hp : ['"', '\'', '\\', '*'].all fun c => !p c)
    (havoided : avoided.all fun m => !p m.char) (hbracket : bracketChars.all fun c => !p c)
    {s : List Char} (hs : s.all p) : IsPiece avoided s := by
  have hnot : ∀ c ∈ bracketChars, c ∉ s := fun c hc =>
    notMem_of_all hs (by simpa using List.all_eq_true.mp hbracket c hc)
  exact isPiece_of_all hp havoided hs (isBalanced_of_no_bracket hnot)
    (no_url_of_paren_notMem (hnot '(' (by decide)))

/-- The components of a piece avoid the marks that it does. -/
lemma ReadsPlainly.mark?_ne {avoided : List Mark} {s t : List Char} {cs : List Component}
    (h : ReadsPlainly s t cs) (hs : IsPiece avoided s) {c : Component} (hc : c ∈ cs) {m : Mark}
    (hm : m ∈ avoided) : c.token.mark? ≠ some m := by
  intro hmark
  have houter : m ∈ outerMarks cs := List.mem_filterMap.mpr ⟨c, hc, hmark⟩
  obtain ⟨d, hd, hdm⟩ := List.mem_filterMap.mp (h.outerMarks_subset houter)
  exact hs.avoids m hm (eq_char_of_markOf? hdm ▸ hd)

/-- A piece is read plainly in front of a delimiter. -/
lemma IsPiece.exists_readsPlainly {avoided : List Mark} {s t : List Char} (hs : IsPiece avoided s)
    (ht : Stops t) : ∃ cs, ReadsPlainly s t cs :=
  hs.isPlain.exists_readsPlainly hs.isBalanced ht

/-! ## What a delimiter leaves of a piece -/

/-- The excerpt of a piece up to its end. -/
lemma ReadsPlainly.toEnd_eq {s t : List Char} {cs : List Component} (h : ReadsPlainly s t cs) :
    (Excerpt.empty.pushAll cs).toEnd = s := by
  rw [Excerpt.toEnd_pushAll_empty, h.reads.componentsText_eq]

/-- The excerpt of a piece that a delimiter ends. -/
lemma ReadsPlainly.upToDelimiter_eq {s t : List Char} {cs : List Component}
    (h : ReadsPlainly s t cs) : (Excerpt.empty.pushAll cs).upToDelimiter = keptPart s := by
  rw [Excerpt.upToDelimiter_pushAll_empty, cutText_eq_keptPart h.isTidy, h.reads.componentsText_eq]

end StyleSplit.Css
