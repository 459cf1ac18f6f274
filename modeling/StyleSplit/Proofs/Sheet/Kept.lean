import StyleSplit.Proofs.Css.Enclosed
import StyleSplit.Proofs.Css.Piece
import StyleSplit.Proofs.Media.Parts
import StyleSplit.Proofs.Sheet.Shape
set_option autoImplicit false

/-!
# The texts that a sheet keeps

The readers keep names, and excerpts of what stands between them. Names have no slash, and excerpts
are without the comments among their components. So none of these texts opens a comment in front of
a bracket in which there is one. The block of an at-rule that is kept verbatim is left out here.

## Main definitions

* `StyleSplit.Statement.texts` — the texts of a statement that are written between fixed signs.
* `StyleSplit.Sheet.IsReadable` — components as they come from an unquoted text.
* `StyleSplit.Sheet.Invariant.uncommented` — excerpts of such components are uncommented.

## Main results

* `StyleSplit.Sheet.parse_keeps` — the texts of a sheet.
-/

namespace StyleSplit

/-! ## Texts of a sheet -/

/-- The texts of a line of a block. Comments and other styles have none. -/
def Style.lineTexts : Style → List String
  | .declaration property value => [property, value]
  | .comment _ | .rule .. | .step .. | .atRule .. => []

/-- **The texts** of a style in a rule list, without its block if it is an at-rule. -/
def Style.texts : Style → List String
  | .rule selectors children => selectors ++ children.flatMap lineTexts
  | .atRule name prelude _ => [name, prelude]
  | .comment _ | .declaration .. | .step .. => []

/-- The block of an at-rule that is kept verbatim. -/
def Style.body? : Style → Option String
  | .atRule _ _ block => block
  | .comment _ | .declaration .. | .rule .. | .step .. => none

/-- The texts of a style in a keyframes block. -/
def Style.stepTexts : Style → List String
  | .step values children => values ++ children.flatMap lineTexts
  | .comment _ | .declaration .. | .rule .. | .atRule .. => []

/-- The texts of a keyframes block. -/
def Keyframes.texts (k : Keyframes) : List String :=
  k.vendor :: k.name :: k.steps.flatMap Style.stepTexts

/-- **The texts** of a statement, of an `@media` block those that it adds to its group. -/
def Statement.texts : Statement → List String
  | .style s => s.texts
  | .media condition body => condition :: (body.filterMap grouped?).flatMap Style.texts
  | .keyframes k => k.texts

end StyleSplit

namespace StyleSplit.Sheet

open Css

/-- Letter case does not bring in a slash. -/
lemma slash_notMem_toLower {name : String} (h : '/' ∉ name.toList) : '/' ∉ name.toLower.toList := by
  intro hslash
  rw [String.toLower, String.toList_map] at hslash
  obtain ⟨c, hc, hlower⟩ := List.mem_map.mp hslash
  exact h (eq_of_toLower (by decide) hlower ▸ hc)

/-! ## What the readers are given -/

section

variable (bare : Bracket → Bool)

/-- **Readable components** — their lexemes are in a row, and brackets of the bare kinds hold no
comment. -/
structure IsReadable (cs : List Component) : Prop where
  isRow : IsRow (componentsLexemes cs)
  isBare : componentsAreBare bare cs

end

variable {bare : Bracket → Bool} {c : Component} {cs : List Component}

namespace IsReadable

lemma tail (h : IsReadable bare (c :: cs)) : IsReadable bare cs where
  isRow := h.isRow.of_isInfix (List.suffix_append _ _).isInfix
  isBare := (Bool.and_eq_true _ _ ▸ h.isBare).2

lemma isBare_head (h : IsReadable bare (c :: cs)) : c.isBare bare :=
  (Bool.and_eq_true _ _ ▸ h.isBare).1

/-- The content of a block is readable. -/
lemma content {opener : Lexeme} {content : List Component} {closer : Option Lexeme}
    (h : IsReadable bare (.block opener content closer :: cs)) : IsReadable bare content where
  isRow := by
    refine h.isRow.of_isInfix ⟨[opener], closer.toList ++ componentsLexemes cs, ?_⟩
    simp [componentsLexemes, Component.lexemes]
  isBare := by
    have hblock := h.isBare_head
    rw [Component.isBare, Bool.and_eq_true] at hblock
    exact hblock.2

/-- A name has no slash. -/
lemma slash_notMem_word (h : IsReadable bare (c :: cs)) : '/' ∉ c.token.word := by
  cases hcomment : c.token.isComment with
  | true =>
    -- a comment is no name
    cases htoken : c.token <;> simp_all [Token.isComment, Token.word]
  | false =>
    have hfirst := first_mem_componentsLexemes c cs
    exact (h.isRow.isApart c.first hfirst hcomment).slash_notMem_word

end IsReadable

/-- Text without blanks at its ends. -/
lemma isUncommented_trimmed {s : List Char} (hs : isUncommented bare s) :
    isUncommented bare (trimmed s).toList := by
  rw [trimmed, String.toList_ofList]
  exact isUncommented_trim hs

/-- **Uncommented texts** — in readable components names have no slash, and excerpts are
uncommented. -/
def Invariant.uncommented (bare : Bracket → Bool) :
    Invariant (fun t => '/' ∉ t.word) (fun s => isUncommented bare s.toList) where
  given := IsReadable bare
  made := Excerpt.IsSound bare
  tail := IsReadable.tail
  content := IsReadable.content
  token := IsReadable.slash_notMem_word
  empty := fun h => .empty h.isRow
  push := fun hcs h hcomment => h.push hcomment hcs.isBare_head
  skipComment := fun _ h => h.skipComment
  toEnd := fun h => isUncommented_trimmed h.toEnd
  upToDelimiter := fun h => isUncommented_trimmed h.upToDelimiter

/-! ## Texts of a shape -/

lemma isUncommented_of_slash_notMem {s : List Char} (hs : '/' ∉ s) : isUncommented bare s :=
  isUncommented_of_opensComment_eq_false (opensComment_eq_false_of_notMem hs)

lemma slash_notMem_property {s : String} (h : IsPropertyOf (fun t => '/' ∉ t.word) s) :
    '/' ∉ s.toList := by
  obtain ⟨name, hname, rfl | rfl⟩ := h
  · exact hname
  · have hslash : '/' ∉ name.toList := hname
    simpa using hslash

lemma slash_notMem_atRuleName {s : String} (h : IsAtRuleNameOf (fun t => '/' ∉ t.word) s) :
    '/' ∉ s.toList := by
  obtain ⟨keyword, hkeyword, rfl⟩ := h
  exact slash_notMem_toLower hkeyword

section

variable {s : Style}

lemma isUncommented_lineTexts
    (h : s.IsLine (fun t => '/' ∉ t.word) fun s => isUncommented bare s.toList) :
    ∀ t ∈ s.lineTexts, isUncommented bare t.toList := by
  cases s with
  | declaration property value =>
    simp only [Style.lineTexts, List.forall_mem_cons]
    exact ⟨isUncommented_of_slash_notMem (slash_notMem_property h.1), h.2, by simp⟩
  | comment => simp [Style.lineTexts]
  | rule => exact h.elim
  | step => exact h.elim
  | atRule => exact h.elim

/-- The texts of items and of the lines behind them. -/
lemma isUncommented_items {items : List String} {children : List Style}
    (hitems : ∀ t ∈ items, t ≠ "" ∧ isUncommented bare t.toList)
    (hchildren : ∀ line ∈ children,
      line.IsLine (fun t => '/' ∉ t.word) fun s => isUncommented bare s.toList) :
    ∀ t ∈ items ++ children.flatMap Style.lineTexts, isUncommented bare t.toList := by
  refine List.forall_mem_append.mpr ⟨fun t ht => (hitems t ht).2, fun t ht => ?_⟩
  obtain ⟨line, hline, hmem⟩ := List.mem_flatMap.mp ht
  exact isUncommented_lineTexts (hchildren line hline) t hmem

lemma isUncommented_texts
    (h : s.IsEntry (fun t => '/' ∉ t.word) fun s => isUncommented bare s.toList) :
    ∀ t ∈ s.texts, isUncommented bare t.toList := by
  cases s with
  | rule selectors children => exact isUncommented_items h.1 h.2
  | comment => simp [Style.texts]
  | atRule name prelude block =>
    simp only [Style.texts, List.forall_mem_cons]
    exact ⟨isUncommented_of_slash_notMem (slash_notMem_atRuleName h.1), h.2.1, by simp⟩
  | declaration => exact h.elim
  | step => exact h.elim

lemma isUncommented_stepTexts
    (h : s.IsStepEntry (fun t => '/' ∉ t.word) fun s => isUncommented bare s.toList) :
    ∀ t ∈ s.stepTexts, isUncommented bare t.toList := by
  cases s with
  | step values children => exact isUncommented_items h.1 h.2
  | comment => simp [Style.stepTexts]
  | declaration => exact h.elim
  | rule => exact h.elim
  | atRule => exact h.elim

end

/-- The texts of a statement that has its shape. -/
lemma isUncommented_statementTexts {s : Statement}
    (h : s.HasShape (fun t => '/' ∉ t.word) fun s => isUncommented bare s.toList) :
    ∀ t ∈ s.texts, isUncommented bare t.toList := by
  cases h with
  | style h => exact isUncommented_texts h
  | @media condition body hcondition hbody =>
    refine List.forall_mem_cons.mpr ⟨hcondition, fun t ht => ?_⟩
    obtain ⟨style, hstyle, hmem⟩ := List.mem_flatMap.mp ht
    obtain ⟨statement, hstatement, hgrouped⟩ := List.mem_filterMap.mp hstyle
    obtain rfl := Statement.eq_style_of_grouped? hgrouped
    cases hbody _ hstatement with
    | style h => exact isUncommented_texts h t hmem
  | @keyframes k h =>
    have hvendor : '/' ∉ k.vendor.toList := fun hslash =>
      slash_notMem_atRuleName h.isAtRuleName (by simp [hslash])
    refine List.forall_mem_cons.mpr ⟨isUncommented_of_slash_notMem hvendor,
      List.forall_mem_cons.mpr ⟨h.name, fun t ht => ?_⟩⟩
    obtain ⟨step, hstep, hmem⟩ := List.mem_flatMap.mp ht
    exact isUncommented_stepTexts (h.steps step hstep) t hmem

/-! ## Sheets -/

/-- **Texts of a sheet** — if an unquoted text has no comments in brackets of the bare kinds, the
texts that its sheet keeps are uncommented. -/
lemma parse_keeps {css : String} {sheet : Sheet} (hcss : IsUnquoted css.toList)
    (hbare : componentsAreBare bare (components (lexemes (withoutMarks css.toList))))
    (hparse : Sheet.parse css = .ok sheet) :
    ∀ s ∈ sheet.statements.flatMap Statement.texts, isUncommented bare s.toList := by
  have hsource : IsUnquoted (withoutMarks css.toList) :=
    hcss.of_isInfix (List.dropWhile_suffix _).isInfix
  have hreadable : IsReadable bare (components (lexemes (withoutMarks css.toList))) := by
    refine ⟨?_, hbare⟩
    rw [componentsLexemes_components]
    exact hsource.isRow_lexemes
  have hshape := Invariant.parse_hasShape (I := .uncommented bare) hreadable hparse
  intro s hs
  obtain ⟨statement, hstatement, hmem⟩ := List.mem_flatMap.mp hs
  exact isUncommented_statementTexts (hshape statement hstatement) s hmem

end StyleSplit.Sheet
