import StyleSplit.Proofs.Css.Comment
set_option autoImplicit false

/-!
# Comments in brackets

An excerpt leaves out the comments among its components, but not those that stand inside of them, in
brackets. So a comment is opened in the text of an excerpt only behind a bracket in which there is
one.

## Main definitions

* `StyleSplit.Css.componentsLexemes` — the lexemes of components.
* `StyleSplit.Css.Nesting.Holds` — what holds of all that has been grouped so far.
* `StyleSplit.Css.componentsAreBare` — whether the brackets of the bare kinds hold no comment.
* `StyleSplit.Css.Excerpt.IsSound` — excerpts as the readers make them.

## Main results

* `StyleSplit.Css.componentsLexemes_components` — grouping leaves the lexemes as they are.
* `StyleSplit.Css.forall_mem_components` — what holds of all components.
* `StyleSplit.Css.componentsAreBare_components` — no comment counts if no kind of bracket is bare.
* `StyleSplit.Css.Excerpt.IsSound.toEnd`, `StyleSplit.Css.Excerpt.IsSound.upToDelimiter` — the text
  of an excerpt.
-/

namespace StyleSplit.Css

/-! ## Lexemes of components -/

mutual

/-- The lexemes of a component. -/
def Component.lexemes : Component → List Lexeme
  | .plain l => [l]
  | .block opener content closer => opener :: (componentsLexemes content ++ closer.toList)

/-- **The lexemes** of a list of components. -/
def componentsLexemes : List Component → List Lexeme
  | [] => []
  | c :: cs => c.lexemes ++ componentsLexemes cs

end

lemma componentsLexemes_append (cs ds : List Component) :
    componentsLexemes (cs ++ ds) = componentsLexemes cs ++ componentsLexemes ds := by
  induction cs with
  | nil => rfl
  | cons c cs ih => rw [List.cons_append, componentsLexemes, ih, componentsLexemes,
      List.append_assoc]

lemma componentsLexemes_concat (cs : List Component) (c : Component) :
    componentsLexemes (cs ++ [c]) = componentsLexemes cs ++ c.lexemes := by
  rw [componentsLexemes_append, componentsLexemes, componentsLexemes, List.append_nil]

/-- The lexemes of components begin with the first lexeme of the first component. -/
lemma exists_componentsLexemes_cons (c : Component) (cs : List Component) :
    ∃ inner, componentsLexemes (c :: cs) = c.first :: (inner ++ componentsLexemes cs) := by
  cases c with
  | plain l => exact ⟨[], rfl⟩
  | block opener content closer => exact ⟨_, rfl⟩

lemma first_mem_componentsLexemes (c : Component) (cs : List Component) :
    c.first ∈ componentsLexemes (c :: cs) := by
  obtain ⟨inner, hlexemes⟩ := exists_componentsLexemes_cons c cs
  rw [hlexemes]
  exact List.mem_cons_self

/-- The lexemes of a block's content are among its own. -/
lemma mem_componentsLexemes_of_mem_content {opener l : Lexeme} {content cs : List Component}
    {closer : Option Lexeme} (h : l ∈ componentsLexemes content) :
    l ∈ componentsLexemes (.block opener content closer :: cs) := by
  simp [componentsLexemes, Component.lexemes, h]

mutual

/-- The text of a component is that of its lexemes. -/
lemma Component.text_eq (c : Component) : c.text = c.lexemes.flatMap (·.raw) := by
  cases c with
  | plain l => simp [Component.text_plain, Component.lexemes]
  | block opener content closer =>
    rw [Component.text_block, Component.lexemes, componentsText_eq content]
    cases closer <;> simp

lemma componentsText_eq (cs : List Component) :
    componentsText cs = (componentsLexemes cs).flatMap (·.raw) := by
  cases cs with
  | nil => rfl
  | cons c cs =>
    rw [componentsText_cons, componentsLexemes, List.flatMap_append, Component.text_eq c,
      componentsText_eq cs]

end

namespace Nesting

/-- The lexemes before the content of the innermost block, which is given with those around it. -/
def lexemesAround : List OpenBlock → List Lexeme
  | [] => []
  | b :: outer => lexemesAround outer ++ componentsLexemes b.before.reverse ++ [b.opener]

/-- The lexemes that have been grouped so far. -/
def lexemes (n : Nesting) : List Lexeme :=
  lexemesAround n.blocks ++ componentsLexemes n.inner.reverse

lemma lexemes_push (n : Nesting) (l : Lexeme) : (n.push l).lexemes = n.lexemes ++ [l] := by
  obtain ⟨inner, blocks⟩ := n
  unfold push
  split
  · simp [lexemes, lexemesAround, componentsLexemes]
  · split
    · rename_i hclosed
      cases blocks with
      | nil => simp [isClosedBy] at hclosed
      | cons b outer =>
        simp [close, lexemes, lexemesAround, componentsLexemes_concat, Component.lexemes]
    · simp [lexemes, componentsLexemes_concat, Component.lexemes]

lemma lexemes_foldl_push (ls : List Lexeme) (n : Nesting) :
    (ls.foldl push n).lexemes = n.lexemes ++ ls := by
  induction ls generalizing n with
  | nil => simp
  | cons l ls ih => rw [List.foldl_cons, ih, lexemes_push, List.append_assoc, List.singleton_append]

lemma componentsLexemes_finishWith (blocks : List OpenBlock) (inner : List Component) :
    componentsLexemes (finishWith blocks inner).reverse =
      lexemesAround blocks ++ componentsLexemes inner.reverse := by
  induction blocks generalizing inner with
  | nil => rfl
  | cons b outer ih =>
    rw [finishWith, ih, List.reverse_cons, componentsLexemes_concat, Component.lexemes]
    simp [lexemesAround]

end Nesting

/-- **Grouping** leaves the lexemes as they are. -/
lemma componentsLexemes_components (ls : List Lexeme) : componentsLexemes (components ls) = ls := by
  have h := Nesting.lexemes_foldl_push ls .start
  rw [Nesting.lexemes, ← Nesting.componentsLexemes_finishWith] at h
  exact h

/-! ## What holds of all components -/

section

variable {P : Component → Prop}
  (hplain : ∀ l : Lexeme, l.token.opens? = none → P (.plain l))
  (hblock : ∀ (opener : Lexeme) (content : List Component) (closer : Option Lexeme),
    opener.token.opens?.isSome → (∀ c ∈ content, P c) → P (.block opener content closer))

/-- A property holds of what has been grouped so far, and brackets have opened the open blocks. -/
structure Nesting.Holds (P : Component → Prop) (n : Nesting) : Prop where
  inner : ∀ c ∈ n.inner, P c
  blocks : ∀ b ∈ n.blocks, b.opener.token.opens?.isSome ∧ ∀ c ∈ b.before, P c

include hblock

/-- A closed block takes its place behind what stands before it. -/
lemma Nesting.Holds.close {b : OpenBlock} {outer : List OpenBlock} {inner : List Component}
    (h : Holds P ⟨inner, b :: outer⟩) (closer : Option Lexeme) :
    Holds P ⟨.block b.opener inner.reverse closer :: b.before, outer⟩ := by
  obtain ⟨⟨hopens, hbefore⟩, houter⟩ := List.forall_mem_cons.mp h.blocks
  have hcontent : ∀ c ∈ inner.reverse, P c := fun c hc => h.inner c (List.mem_reverse.mp hc)
  exact ⟨List.forall_mem_cons.mpr ⟨hblock _ _ closer hopens hcontent, hbefore⟩, houter⟩

lemma forall_mem_finishWith {blocks : List OpenBlock} {inner : List Component}
    (h : Nesting.Holds P ⟨inner, blocks⟩) : ∀ c ∈ Nesting.finishWith blocks inner, P c := by
  induction blocks generalizing inner with
  | nil => exact h.inner
  | cons b outer ih => exact ih (h.close hblock none)

include hplain

lemma Nesting.Holds.push {n : Nesting} (h : n.Holds P) (l : Lexeme) : (n.push l).Holds P := by
  obtain ⟨inner, blocks⟩ := n
  unfold Nesting.push
  split
  · rename_i b hb
    exact ⟨by simp, List.forall_mem_cons.mpr ⟨⟨by simp [hb], h.inner⟩, h.blocks⟩⟩
  · rename_i hnone
    split
    · cases blocks with
      | nil => exact h
      | cons b outer => exact h.close hblock (some l)
    · exact ⟨List.forall_mem_cons.mpr ⟨hplain l hnone, h.inner⟩, h.blocks⟩

/-- **All components** of a text have a property if lexemes that open nothing have it, and blocks
that brackets open and whose content has it. -/
lemma forall_mem_components (ls : List Lexeme) : ∀ c ∈ components ls, P c := by
  have hholds : ∀ n : Nesting, n.Holds P → (ls.foldl Nesting.push n).Holds P := by
    induction ls with
    | nil => exact fun _ h => h
    | cons l ls ih => exact fun n h => ih _ (h.push hplain hblock l)
  have hstart : Nesting.start.Holds P := ⟨by simp [Nesting.start], by simp [Nesting.start]⟩
  exact fun c hc =>
    forall_mem_finishWith hblock (hholds .start hstart) c (List.mem_reverse.mp hc)

end

/-- An opening bracket begins a block, and the lexemes of its content follow. -/
lemma exists_components_cons_of_opens {l : Lexeme} (hopens : l.token.opens?.isSome)
    (ls : List Lexeme) : ∃ content closer cs,
      components (l :: ls) = .block l content closer :: cs ∧ componentsLexemes content <+: ls := by
  have hlexemes := componentsLexemes_components (l :: ls)
  have hfirst : ∀ c ∈ components (l :: ls), ∀ m, c = .plain m → m.token.opens? = none :=
    forall_mem_components (fun _ hm _ h => Component.plain.inj h ▸ hm)
      (fun _ _ _ _ _ _ h => nomatch h) _
  cases hcs : components (l :: ls) with
  | nil =>
    rw [hcs] at hlexemes
    exact nomatch hlexemes
  | cons c cs =>
    rw [hcs] at hlexemes hfirst
    cases c with
    | plain m =>
      obtain ⟨rfl, -⟩ := List.cons.inj hlexemes
      rw [hfirst _ List.mem_cons_self _ rfl] at hopens
      exact nomatch hopens
    | block opener content closer =>
      rw [componentsLexemes, Component.lexemes, List.cons_append, List.append_assoc] at hlexemes
      obtain ⟨rfl, rfl⟩ := List.cons.inj hlexemes
      exact ⟨content, closer, cs, rfl, List.prefix_append _ _⟩

/-! ## Bare brackets -/

section

variable (bare : Bracket → Bool)

mutual

/-- Whether the brackets of the bare kinds in a component hold no comment. -/
def Component.isBare : Component → Bool
  | .plain _ => true
  | .block opener content closer =>
    (opener.opens bare ||
      (opener :: (componentsLexemes content ++ closer.toList)).all (!·.token.isComment)) &&
        componentsAreBare content

/-- **Bare brackets** — whether the brackets of the bare kinds in components hold no comment. -/
def componentsAreBare : List Component → Bool
  | [] => true
  | c :: cs => c.isBare && componentsAreBare cs

end

end

lemma componentsAreBare_iff {bare : Bracket → Bool} {cs : List Component} :
    componentsAreBare bare cs ↔ ∀ c ∈ cs, c.isBare bare := by
  induction cs with
  | nil => simp [componentsAreBare]
  | cons c cs ih => rw [componentsAreBare, Bool.and_eq_true, ih, List.forall_mem_cons]

/-- **Every bracket may count** — if no kind of bracket is bare, nothing is asked of components. -/
lemma componentsAreBare_components (ls : List Lexeme) :
    componentsAreBare (fun _ => false) (components ls) := by
  refine componentsAreBare_iff.mpr (forall_mem_components (fun _ _ => rfl) ?_ ls)
  intro opener content closer hopens hcontent
  obtain ⟨b, hb⟩ := Option.isSome_iff_exists.mp hopens
  have hcounts : opener.opens fun _ => false := by simp [Lexeme.opens, hb]
  rw [Component.isBare, hcounts, Bool.true_or, Bool.true_and]
  exact componentsAreBare_iff.mpr hcontent

/-! ## Components without comments among them -/

section

variable {bare : Bracket → Bool}

lemma IsUncommented.append {ls ms : List Lexeme} (hl : IsUncommented bare ls)
    (hm : IsUncommented bare ms) : IsUncommented bare (ls ++ ms) := by
  rw [IsUncommented, List.takeWhile_append] at *
  split_ifs with hall
  · rw [(List.takeWhile_prefix _).eq_of_length hall] at hl
    exact fun l hl' => (List.mem_append.mp hl').elim (hl l) (hm l)
  · exact hl

lemma Component.isUncommented_lexemes {c : Component} (hcomment : c.token.isComment = false)
    (hbare : c.isBare bare) : IsUncommented bare c.lexemes := by
  cases c with
  | plain l =>
    intro m hm
    obtain rfl := List.mem_singleton.mp ((List.takeWhile_prefix _).subset hm)
    exact hcomment
  | block opener content closer =>
    rw [Component.isBare, Bool.and_eq_true, Bool.or_eq_true] at hbare
    rw [Component.lexemes]
    obtain ⟨hopens | hnone, -⟩ := hbare
    · rw [IsUncommented, List.takeWhile_cons_of_neg (by simp [hopens])]
      exact fun _ h => absurd h List.not_mem_nil
    · intro l hl
      simpa using List.all_eq_true.mp hnone l ((List.takeWhile_prefix _).subset hl)

/-- Components none of which is a comment have no comment in front of a bracket that counts. -/
lemma isUncommented_componentsLexemes {cs : List Component}
    (h : ∀ c ∈ cs, c.token.isComment = false ∧ c.isBare bare) :
    IsUncommented bare (componentsLexemes cs) := by
  induction cs with
  | nil => exact fun _ h => absurd h List.not_mem_nil
  | cons c cs ih =>
    obtain ⟨⟨hcomment, hbare⟩, hcs⟩ := List.forall_mem_cons.mp h
    exact (Component.isUncommented_lexemes hcomment hbare).append (ih hcs)

/-! ## Excerpts -/

/-- A block at the end of a run is cut behind its opening bracket. -/
lemma cutText_prefix_runText (run : List Component) : cutText run <+: runText run := by
  cases run with
  | nil => exact List.nil_prefix
  | cons last before =>
    rw [cutText, runText_cons]
    refine (List.prefix_append_right_inj _).mpr ?_
    cases last with
    | plain l => rw [Component.text_plain]; exact List.prefix_refl _
    | block opener content closer =>
      rw [Component.text_block, List.append_assoc]
      exact List.prefix_append _ _

/-- A text that ends with a blank opens no comment with what follows. -/
lemma getLast?_ne_of_endsBlank {s : List Char} (h : endsBlank s) : s.getLast? ≠ some '/' := by
  intro hslash
  rw [endsBlank, hslash] at h
  exact absurd h (by decide)

namespace Excerpt

/-- **Sound excerpts** — an excerpt in front of the components `cs`: the texts before the last comment
are uncommented, and each ends with a blank; the components behind it are no comments, and they are
in a row with the components that follow. -/
structure IsSound (bare : Bracket → Bool) (e : Excerpt) (cs : List Component) : Prop where
  before : ∀ t ∈ e.before, isUncommented bare t ∧ endsBlank t
  run : ∀ c ∈ e.run, c.token.isComment = false ∧ c.isBare bare
  isRow : IsRow (componentsLexemes (e.run.reverse ++ cs))

namespace IsSound

variable {e : Excerpt} {c : Component} {cs : List Component}

lemma empty (h : IsRow (componentsLexemes cs)) : Excerpt.empty.IsSound bare cs :=
  ⟨by simp [Excerpt.empty], by simp [Excerpt.empty], h⟩

lemma push (h : e.IsSound bare (c :: cs)) (hcomment : c.token.isComment = false)
    (hbare : c.isBare bare) : (e.push c).IsSound bare cs where
  before := h.before
  run := List.forall_mem_cons.mpr ⟨⟨hcomment, hbare⟩, h.run⟩
  isRow := by
    have hrow := h.isRow
    rwa [← List.singleton_append, ← List.append_assoc, ← List.reverse_cons] at hrow

/-- The components that follow are in a row. -/
lemma isRow_follow (h : e.IsSound bare cs) : IsRow (componentsLexemes cs) := by
  refine h.isRow.of_isInfix ?_
  rw [componentsLexemes_append]
  exact (List.suffix_append _ _).isInfix

lemma isUncommented_runText (h : e.IsSound bare cs) : isUncommented bare (runText e.run) := by
  have hrow : IsRow (componentsLexemes e.run.reverse) := by
    refine h.isRow.of_isInfix ?_
    rw [componentsLexemes_append]
    exact (List.prefix_append _ _).isInfix
  rw [runText, componentsText_eq]
  refine hrow.isUncommented_flatMap_raw (isUncommented_componentsLexemes fun c hc => ?_)
  exact h.run c (List.mem_reverse.mp hc)

lemma isUncommented_cutText (h : e.IsSound bare cs) : isUncommented bare (cutText e.run) :=
  isUncommented_of_prefix (cutText_prefix_runText e.run) h.isUncommented_runText

/-- A comment that is cut out leaves a blank. -/
lemma skipComment (h : e.IsSound bare (c :: cs)) : e.skipComment.IsSound bare cs := by
  have hrow : IsRow (componentsLexemes cs) := by
    refine h.isRow_follow.of_isInfix ?_
    rw [componentsLexemes]
    exact (List.suffix_append _ _).isInfix
  have hcut := h.isUncommented_cutText
  unfold Excerpt.skipComment
  dsimp only
  split_ifs with hempty hblank
  · exact ⟨h.before, by simp, hrow⟩
  · exact ⟨List.forall_mem_cons.mpr ⟨⟨hcut, hblank⟩, h.before⟩, by simp, hrow⟩
  · have hspace : isUncommented bare (cutText e.run ++ [' ']) :=
      isUncommented_append hcut rfl fun _ => by simp
    have hends : endsBlank (cutText e.run ++ [' ']) := by simp [endsBlank, isBlank]
    exact ⟨List.forall_mem_cons.mpr ⟨⟨hspace, hends⟩, h.before⟩, by simp, hrow⟩

/-- The texts before the last comment with an uncommented text behind them. -/
lemma isUncommented_textBefore (h : e.IsSound bare cs) {s : List Char}
    (hs : isUncommented bare s) : isUncommented bare (e.textBefore ++ s) := by
  have hbefore : ∀ t ∈ e.before.reverse, isUncommented bare t ∧ endsBlank t := fun t ht =>
    h.before t (List.mem_reverse.mp ht)
  rw [textBefore]
  generalize e.before.reverse = texts at hbefore ⊢
  induction texts with
  | nil => exact hs
  | cons t ts ih =>
    obtain ⟨⟨ht, hends⟩, hts⟩ := List.forall_mem_cons.mp hbefore
    rw [List.flatten_cons, List.append_assoc]
    have hlast := getLast?_ne_of_endsBlank hends
    exact isUncommented_append ht (ih hts) fun h => absurd h hlast

/-- **Excerpts** — the text of a sound excerpt is uncommented. -/
lemma toEnd (h : e.IsSound bare cs) : isUncommented bare e.toEnd :=
  h.isUncommented_textBefore h.isUncommented_runText

lemma upToDelimiter (h : e.IsSound bare cs) : isUncommented bare e.upToDelimiter :=
  h.isUncommented_textBefore h.isUncommented_cutText

end IsSound

end Excerpt

end

end StyleSplit.Css
