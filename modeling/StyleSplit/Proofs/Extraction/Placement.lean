import StyleSplit.Proofs.Media.Parts
import StyleSplit.Proofs.Sheet.Shape
set_option autoImplicit false

/-!
# Each node has a place

The type of sheets allows nodes where no text can put them: a declaration at the top level, or a
rule in a rule. Classification ignores such nodes at the top level, and the writer skips them. A
sheet that is read from a text has none, so that nothing is ignored there and nothing is skipped.

## Main definitions

* `StyleSplit.Style.children` — the lines of a block.
* `StyleSplit.Writer.Writes` — a style is written, or is a hidden comment.
* `StyleSplit.Writer.SkipsNothing` — all styles of some parts are written.

## Main results

* `StyleSplit.Writer.skipsNothing_classify` — statements in their places are written.
* `StyleSplit.Sheet.parse_places` — the nodes of a sheet are in their places.
-/

namespace StyleSplit

open Css

/-! ## Writing -/

/-- The lines in the block of a rule or of a keyframe step. -/
def Style.children : Style → List Style
  | .rule _ children | .step _ children => children
  | .comment _ | .declaration .. | .atRule .. => []

namespace Writer

/-- **Writing a style** — there is a text for it, or it is a comment and comments are left out. -/
def Writes (w : Writer) (write : Style → String) (s : Style) : Prop :=
  write s ≠ "" ∨ w.hideComments ∧ ∃ text, s = .comment text

/-- **Writing all of a style** — the style and the lines of its block. -/
def WritesAll (w : Writer) (write : Style → String) (s : Style) : Prop :=
  w.Writes write s ∧ ∀ line ∈ s.children, w.Writes w.line line

/-- **Skipping nothing** — all styles of the parts are written, each by the writer for its place. -/
structure SkipsNothing (w : Writer) (parts : Classification) : Prop where
  base : ∀ s ∈ parts.base, w.WritesAll w.style s
  groups : ∀ g ∈ parts.groups, ∀ s ∈ g.rules, w.WritesAll w.style s
  keyframes : ∀ k ∈ parts.keyframes, ∀ s ∈ k.steps, w.WritesAll w.step s

variable {w : Writer} {s : Style}

/-- All that is skipped in a block is what is neither a declaration nor a comment. -/
lemma writes_line_iff : w.Writes w.line s ↔
    (∃ text, s = .comment text) ∨ ∃ property value, s = .declaration property value := by
  cases s with
  | comment text => cases hhide : w.hideComments <;> simp [Writes, line, commentText, hhide]
  | declaration => simp [Writes, line]
  | rule | step | atRule => simp [Writes, line]

/-- All that is skipped in a rule list is what may not stand at the top level. -/
lemma writes_style_iff : w.Writes w.style s ↔ s.isTopLevel := by
  cases s with
  | comment text =>
    cases hhide : w.hideComments <;>
      simp [Writes, style, freeComment, commentText, hhide, Style.isTopLevel]
  | rule => simp [Writes, style, block, Style.isTopLevel]
  | atRule => simp [Writes, style, atRuleText, Style.isTopLevel]
  | declaration | step => simp [Writes, style, Style.isTopLevel]

/-- All that is skipped in a keyframes block is what is neither a step nor a comment. -/
lemma writes_step_iff : w.Writes w.step s ↔
    (∃ text, s = .comment text) ∨ ∃ values children, s = .step values children := by
  cases s with
  | comment text =>
    cases hhide : w.hideComments <;> simp [Writes, step, freeComment, commentText, hhide]
  | step => simp [Writes, step, block]
  | declaration | rule | atRule => simp [Writes, step]

/-! ## Nodes in their places -/

variable {word : Token → Prop} {text : String → Prop}

lemma writes_line_of_isLine (h : s.IsLine word text) : w.Writes w.line s := by
  rw [writes_line_iff]
  cases s with
  | comment text => exact .inl ⟨text, rfl⟩
  | declaration property value => exact .inr ⟨property, value, rfl⟩
  | rule | step | atRule => exact h.elim

/-- What stands in a rule list may stand at the top level. -/
lemma isTopLevel_of_isEntry (h : s.IsEntry word text) : s.isTopLevel := by
  cases s with
  | comment | rule | atRule => rfl
  | declaration | step => exact h.elim

lemma writesAll_of_isEntry (h : s.IsEntry word text) : w.WritesAll w.style s := by
  refine ⟨writes_style_iff.mpr (isTopLevel_of_isEntry h), ?_⟩
  cases s with
  | rule => exact fun line hline => writes_line_of_isLine (h.2 line hline)
  | comment | atRule => exact fun _ hline => absurd hline List.not_mem_nil
  | declaration | step => exact h.elim

lemma writesAll_of_isStepEntry (h : s.IsStepEntry word text) : w.WritesAll w.step s := by
  rw [WritesAll, writes_step_iff]
  cases s with
  | comment text => exact ⟨.inl ⟨text, rfl⟩, fun _ hline => absurd hline List.not_mem_nil⟩
  | step values children =>
    exact ⟨.inr ⟨values, children, rfl⟩, fun line hline => writes_line_of_isLine (h.2 line hline)⟩
  | declaration | rule | atRule => exact h.elim

end Writer

/-! ## Parts -/

section

variable {word : Token → Prop} {text : String → Prop} {statements : List Statement}
  (h : ∀ s ∈ statements, s.HasShape word text)

include h

/-- Nothing is ignored at the top level. -/
lemma topLevel_notMem_ignored_classify (s : Style) :
    Ignored.topLevel s ∉ (classify statements).ignored := by
  rw [classify_eq, partsOf]
  intro hs
  obtain ⟨statement, hstatement, hs⟩ := List.mem_flatMap.mp hs
  cases h statement hstatement with
  | style hentry =>
    rw [Statement.ignored_style, if_pos (Writer.isTopLevel_of_isEntry hentry)] at hs
    exact absurd hs List.not_mem_nil
  | media =>
    obtain ⟨t, -, heq⟩ := List.mem_map.mp hs
    exact absurd heq (by simp)
  | keyframes => exact absurd hs List.not_mem_nil

/-- **Writing parts** — nothing is skipped if all nodes are in their places. -/
lemma Writer.skipsNothing_classify (w : Writer) : w.SkipsNothing (classify statements) where
  base := by
    intro s hs
    cases h _ (Classification.mem_of_mem_base_classify hs).1 with
    | style hentry => exact writesAll_of_isEntry hentry
  groups := by
    intro g hg s hs
    obtain ⟨condition, body, hmedia, hrules⟩ := Classification.exists_media_of_mem_rules hg hs
    cases h _ hmedia with
    | media _ hbody =>
      cases hbody _ (Classification.mem_of_mem_rules hrules) with
      | style hentry => exact writesAll_of_isEntry hentry
  keyframes := by
    intro k hk s hs
    cases h _ (Classification.mem_of_mem_keyframes_classify hk) with
    | keyframes hshape => exact writesAll_of_isStepEntry (hshape.steps s hs)

end

/-! ## Sheets -/

/-- **Places** — each node of a sheet that is read from a text is in its place.

At any depth, rule lists hold rules, comments and at-rules, blocks hold declarations and comments,
and keyframes hold steps and comments. Selectors and the values of steps are not empty; they,
values, conditions, preludes and the names of keyframes have no blanks at their ends. No comment
holds the mark that closes it, and a block behind the name of an `@media` or keyframes rule is not
kept verbatim. So classification ignores nothing at the top level, and no writer skips a style of
the parts.

**Proof sketch.** The shape of the statements is the invariant of the readers; the parts hold
nothing but styles of the statements, and the writer skips only what is not in its place. -/
theorem Sheet.parse_places {css : String} {sheet : Sheet} (hparse : Sheet.parse css = .ok sheet) :
    (∀ s ∈ sheet.statements, s.HasShape Token.IsClosed fun s => IsTrimmed s.toList) ∧
      (∀ s, Ignored.topLevel s ∉ (classify sheet.statements).ignored) ∧
      ∀ w : Writer, w.SkipsNothing (classify sheet.statements) := by
  have hshape : ∀ s ∈ sheet.statements, s.HasShape Token.IsClosed fun s => IsTrimmed s.toList :=
    Invariant.parse_hasShape_of_tokens (fun l hl => isClosed_of_mem_lexemes l hl) hparse
  exact ⟨hshape, topLevel_notMem_ignored_classify hshape, fun w => w.skipsNothing_classify hshape⟩

/-- Nodes of all kinds, one `@media` block in another, and a last block that is left open. -/
def Sheet.nested : String :=
  "@import url(x);/*a*/.a ,b\x7bp : 1 /*c*/ ;*q:2\x7d@media print\x7b@media (x)\x7bi\x7b\x7d\x7d" ++
    "a\x7bb:c\x7d@page\x7bd:e\x7d\x7d@-webkit-keyframes k\x7bfrom\x7bl:0\x7d 50%,to\x7bl:1/*s"

/-- The sheet is read, and all is in its place. -/
theorem Sheet.parse_places_nested :
    ∃ sheet, Sheet.parse nested = .ok sheet ∧
      (sheet.extract {}).buckets.map (·.tag) = ["base", "print", "keyframes"] ∧
      (∀ s ∈ sheet.statements, s.HasShape Token.IsClosed fun s => IsTrimmed s.toList) ∧
      (∀ s, Ignored.topLevel s ∉ (classify sheet.statements).ignored) ∧
      ∀ w : Writer, w.SkipsNothing (classify sheet.statements) := by
  have hread : (Sheet.parse nested).toOption.map (fun sheet =>
      (sheet.extract {}).buckets.map (·.tag)) = some ["base", "print", "keyframes"] := by
    decide +kernel
  obtain ⟨sheet, hparse, htags⟩ := Sheet.exists_of_map_parse hread
  exact ⟨sheet, hparse, htags, Sheet.parse_places hparse⟩

end StyleSplit
