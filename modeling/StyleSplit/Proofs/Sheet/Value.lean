import StyleSplit.Proofs.Sheet.Block
set_option autoImplicit false

/-!
# Values of declarations

A value ends at the first semicolon that stands in no brackets, or where the block does. A text
without quotes, backslashes and slashes in which each bracket has its partner, and each semicolon
stands in brackets, is therefore kept as it is written, save for the blanks around it: no semicolon
and no brace in its brackets ends it, and it does not reach into what follows.

## Main definitions

* `StyleSplit.Sheet.IsValueText` — texts whose brackets have partners, with semicolons in them.

## Main results

* `StyleSplit.Sheet.IsValueText.exists_balanced` — their marks are balanced.
* `StyleSplit.Sheet.IsValueText.exists_readsPlainly` — their components, none of which ends a value.
* `StyleSplit.Sheet.parse_value` — such a value in the last declaration and in front of another one.
-/

namespace StyleSplit.Sheet

open Css

/-! ## Texts of values -/

/-- The characters that stand in such a text only as brackets or as semicolons in brackets, or not
at all. -/
def valueSigns : List Char :=
  ['"', '\'', '\\', '/', ';', '{', '(', '[', '}', ')', ']']

/-- **Texts of values** — texts without quotes, backslashes and slashes in which each bracket has
its partner. A semicolon stands in brackets: either in brackets of the text, or anywhere if the
text as a whole stands in brackets. -/
inductive IsValueText : (inBrackets : Bool) → List Char → Prop
  | nil {inBrackets : Bool} : IsValueText inBrackets []
  | char {inBrackets : Bool} {c : Char} {s : List Char} (hc : c ∉ valueSigns)
      (hs : IsValueText inBrackets s) : IsValueText inBrackets (c :: s)
  | semicolon {s : List Char} (hs : IsValueText true s) : IsValueText true (';' :: s)
  | group {inBrackets : Bool} (b : Bracket) {inner s : List Char} (hinner : IsValueText true inner)
      (hs : IsValueText inBrackets s) :
      IsValueText inBrackets (b.opener :: (inner ++ b.closer :: s))

/-- A character that is none of the signs is a comma or no mark. -/
lemma markOf?_of_notMem_valueSigns {c : Char} (hc : c ∉ valueSigns) :
    markOf? c = none ∨ markOf? c = some .comma := by
  unfold markOf?
  split
  all_goals first | exact absurd (by decide) hc | simp

lemma marks_cons_of_eq_some {c : Char} {m : Mark} (h : markOf? c = some m) (s : List Char) :
    marks (c :: s) = m :: marks s :=
  List.filterMap_cons_some h

namespace IsValueText

variable {inBrackets : Bool} {s : List Char}

/-- No quote, backslash or slash stands in the text. -/
lemma notMem (h : IsValueText inBrackets s) {d : Char} (hd : d ∈ ['"', '\'', '\\', '/']) :
    d ∉ s := by
  have hopener : ∀ b : Bracket, d ≠ b.opener ∧ d ≠ b.closer := by
    intro b
    constructor
    all_goals
      rintro rfl
      cases b <;> exact absurd hd (by decide)
  have hsemicolon : d ≠ ';' := by
    rintro rfl
    exact absurd hd (by decide)
  induction h with
  | nil => exact List.not_mem_nil
  | char hc _ ih =>
    refine List.not_mem_cons_of_ne_of_not_mem ?_ ih
    rintro rfl
    exact hc (List.mem_append_left [';', '{', '(', '[', '}', ')', ']'] hd)
  | semicolon _ ih => exact List.not_mem_cons_of_ne_of_not_mem hsemicolon ih
  | group b _ _ ihinner ih =>
    simp [hopener b, ihinner, ih]

/-- Without addresses the text is plain. -/
lemma isPlain (h : IsValueText inBrackets s)
    (hurl : occurs "url(".toList (s.map Char.toLower) = false) : IsPlain s where
  quote_notMem := h.notMem (by decide)
  apostrophe_notMem := h.notMem (by decide)
  backslash_notMem := h.notMem (by decide)
  no_url := hurl
  no_comment := by
    have hslash : '/' ∉ s := h.notMem (by decide)
    rw [Bool.eq_false_iff]
    exact fun hcomment => hslash ((occurs_iff_isInfix.mp hcomment).subset (by decide))

/-- **The marks** of the text are balanced, and a semicolon that stands in no brackets of the text
is there only if the text stands in brackets.

**Proof sketch.** Induction on the text, as its marks are balanced: a comma or a semicolon is a
separator, and brackets with a text in them are a group, of which the opening bracket counts. -/
lemma exists_balanced (h : IsValueText inBrackets s) :
    ∃ outer, Balanced (marks s) outer ∧ (.semicolon ∈ outer → inBrackets = true) := by
  induction h with
  | nil => exact ⟨[], .nil, fun hmem => absurd hmem List.not_mem_nil⟩
  | @char _ c s hc _ ih =>
    obtain ⟨outer, hbalanced, houter⟩ := ih
    rcases markOf?_of_notMem_valueSigns hc with hnone | hcomma
    · refine ⟨outer, ?_, houter⟩
      rwa [marks, List.filterMap_cons_none hnone]
    · refine ⟨.comma :: outer, ?_, fun hmem => houter (by simpa using hmem)⟩
      rw [marks_cons_of_eq_some hcomma]
      exact .separator (.inl rfl) hbalanced
  | @semicolon s _ ih =>
    obtain ⟨outer, hbalanced, -⟩ := ih
    refine ⟨.semicolon :: outer, ?_, fun _ => rfl⟩
    rw [marks_cons_of_eq_some (m := .semicolon) rfl]
    exact .separator (.inr rfl) hbalanced
  | @group _ b inner s _ _ ihinner ih =>
    obtain ⟨innerOuter, hinner, -⟩ := ihinner
    obtain ⟨outer, hbalanced, houter⟩ := ih
    refine ⟨.opening b :: outer, ?_, fun hmem => houter (by simpa using hmem)⟩
    have hopener : markOf? b.opener = some (.opening b) := markOf?_char (.opening b)
    have hcloser : markOf? b.closer = some (.closing b) := markOf?_char (.closing b)
    rw [marks_cons_of_eq_some hopener, marks_append, marks_cons_of_eq_some hcloser]
    exact .group hinner hbalanced

/-- **The components** of the text: none of them is a semicolon. -/
lemma exists_readsPlainly (h : IsValueText false s)
    (hurl : occurs "url(".toList (s.map Char.toLower) = false) {t : List Char} (ht : Stops t) :
    ∃ vs, ReadsPlainly s t vs ∧ ∀ c ∈ vs, ∀ m ∈ valueMarks, c.token.mark? ≠ some m := by
  obtain ⟨outer, hbalanced, houter⟩ := h.exists_balanced
  obtain ⟨vs, hvs, rfl⟩ := (h.isPlain hurl).exists_readsPlainly_of_balanced hbalanced ht
  refine ⟨vs, hvs, fun c hc m hm hmark => ?_⟩
  obtain rfl : m = .semicolon := List.mem_singleton.mp hm
  exact Bool.false_ne_true (houter (List.mem_filterMap.mpr ⟨c, hc, hmark⟩))

end IsValueText

/-! ## Declarations of such values -/

section

variable {property value : List Char} (hproperty : IsProperty property)
  (hvalue : IsValueText false value)
  (hurl : occurs "url(".toList (value.map Char.toLower) = false)

include hproperty hvalue hurl

/-- In front of a semicolon the value makes up a declaration. -/
lemma yields_value (t : List Char) :
    Yields readDeclarations (property ++ ':' :: value ++ [';']) t
      [.declaration (String.ofList property) (trimmed value)] := by
  obtain ⟨vs, hvs, hmark⟩ := hvalue.exists_readsPlainly hurl (t := ';' :: t) (.cons rfl t)
  exact hproperty.yields_value hvs hmark

/-- At the end of a block the value makes up the last declaration. -/
lemma exists_reads_last_value (t : List Char) :
    ∃ cs, Reads (property ++ ':' :: value) ('}' :: t) cs ∧ ∀ stop,
      readDeclarations stop cs = .ok [.declaration (String.ofList property) (trimmed value)] := by
  obtain ⟨vs, hvs, hmark⟩ := hvalue.exists_readsPlainly hurl (t := '}' :: t) (.cons rfl t)
  obtain ⟨cs, hcs, hread⟩ := hproperty.exists_reads_value hvs hmark
  refine ⟨cs, hcs, fun stop => ?_⟩
  have hend := hread stop []
  rw [List.append_nil, declarationList] at hend
  rw [hend]
  simp only [hvs.toEnd_eq]

end

/-- **Values are kept** — whatever brackets a value has, and whatever semicolons and braces stand in
them, the value is kept as it is written without the blanks around it, in the last declaration of
a block and in front of another one.

**Proof sketch.** In front of a brace and in front of a semicolon the value has components of its
own, and its text is theirs. The semicolons in its brackets are in blocks, so that the declaration
goes on with all of these components, and ends at the semicolon behind them or with the block. -/
theorem parse_value (v : String) (hv : IsValueText false v.toList)
    (hurl : occurs "url(".toList (v.toList.map Char.toLower) = false) :
    parse ("a\x7bp:" ++ v ++ "\x7d") =
        .ok ⟨[.style (.rule ["a"] [.declaration "p" (trimmed v.toList)])]⟩ ∧
      parse ("a\x7bp:" ++ v ++ ";q:r\x7d") =
        .ok ⟨[.style (.rule ["a"]
          [.declaration "p" (trimmed v.toList), .declaration "q" "r"])]⟩ := by
  have hitem : Clean.isItem "a".toList := by decide
  have hgap : isGap [] := rfl
  have hp : IsProperty ['p'] := ⟨['p'], ⟨by decide, by decide, by decide⟩, .inl rfl⟩
  have hq : IsProperty ['q'] := ⟨['q'], ⟨by decide, by decide, by decide⟩, .inl rfl⟩
  have hr : IsValueText false ['r'] := .char (by decide) .nil
  constructor
  · obtain ⟨cs, hcs, hread⟩ := exists_reads_last_value hp hv hurl []
    exact Writer.parse_item_braces hitem hgap (by simp) hcs (hread _)
  · obtain ⟨ds, hds, hread⟩ := exists_reads_last_value hq hr (by decide) []
    obtain ⟨cs, hcs, hyields⟩ := yields_value hp hv hurl (['q'] ++ ':' :: ['r'] ++ ['}'])
    refine Writer.parse_item_braces hitem hgap (by simp) (Reads.append hcs hds) ?_
    have hboth := hyields ['}'] ds
    rw [hread] at hboth
    exact hboth

/-- Brackets of each kind in one another, with semicolons and braces in them. -/
theorem parse_value_nested :
    IsValueText false " a[x;(y;)] \x7bb:c;\x7d , d ".toList ∧
      occurs "url(".toList (" a[x;(y;)] \x7bb:c;\x7d , d ".toList.map Char.toLower) = false ∧
      parse "a\x7bp: a[x;(y;)] \x7bb:c;\x7d , d ;q:r\x7d" =
        .ok ⟨[.style (.rule ["a"]
          [.declaration "p" "a[x;(y;)] \x7bb:c;\x7d , d", .declaration "q" "r"])]⟩ := by
  have hparen : IsValueText true "y;".toList := .char (by decide) (.semicolon .nil)
  have hsquare : IsValueText true "x;(y;)".toList :=
    .char (by decide) (.semicolon (.group .paren hparen .nil))
  have hbrace : IsValueText true "b:c;".toList :=
    .char (by decide) (.char (by decide) (.char (by decide) (.semicolon .nil)))
  have hend : IsValueText false " , d ".toList :=
    .char (by decide) (.char (by decide) (.char (by decide) (.char (by decide)
      (.char (by decide) .nil))))
  have hvalue : IsValueText false " a[x;(y;)] \x7bb:c;\x7d , d ".toList :=
    .char (by decide) (.char (by decide) (.group .square hsquare
      (.char (by decide) (.group .brace hbrace hend))))
  have hurl : occurs "url(".toList
      (" a[x;(y;)] \x7bb:c;\x7d , d ".toList.map Char.toLower) = false := by decide
  have htrim : trimmed " a[x;(y;)] \x7bb:c;\x7d , d ".toList = "a[x;(y;)] \x7bb:c;\x7d , d" := by
    decide
  have hparse := (parse_value " a[x;(y;)] \x7bb:c;\x7d , d " hvalue hurl).2
  rw [htrim] at hparse
  exact ⟨hvalue, hurl, hparse⟩

end StyleSplit.Sheet
