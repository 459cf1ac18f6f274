import StyleSplit.Proofs.Sheet.Block
import StyleSplit.Proofs.Sheet.PreludeText
set_option autoImplicit false

/-!
# Comments in selectors

A comment in a prelude is cut out, and a space is left where it stood unless one is there already.
In a selector a space is a combinator: the two parts around the comment are then read as if they had
been written apart, whether or not they would have been one word without it.

## Main results

* `StyleSplit.Css.ReadsPlainly.skipComment_eq` — what a comment leaves behind a piece.
* `StyleSplit.Sheet.parse_comment_in_selector` — a selector with a comment in it, with a space in
  the place of the comment, and with nothing there.
-/

namespace StyleSplit

open Css Sheet

/-! ## A comment behind a piece -/

/-- **A comment behind a piece** leaves a space. -/
lemma Css.ReadsPlainly.skipComment_eq {s t : List Char} {cs : List Component}
    (h : ReadsPlainly s t cs) (hne : keptPart s ≠ []) (hend : endsBlank s = false) :
    (Excerpt.empty.pushAll cs).skipComment = ⟨[keptPart s ++ [' ']], []⟩ := by
  have hcut : cutText (Excerpt.empty.pushAll cs).run = keptPart s := by
    simpa [Excerpt.upToDelimiter, Excerpt.textBefore, Excerpt.pushAll, Excerpt.empty] using
      h.upToDelimiter_eq
  rw [Excerpt.skipComment, hcut]
  simp [hne, endsBlank_keptPart hend, Excerpt.pushAll, Excerpt.empty]

/-- The excerpt of a piece behind a text that a comment left. -/
lemma Css.ReadsPlainly.upToDelimiter_behind {s t : List Char} {cs : List Component}
    (h : ReadsPlainly s t cs) (before : List Char) :
    ((⟨[before], []⟩ : Excerpt).pushAll cs).upToDelimiter = before ++ keptPart s := by
  have hcut : cutText cs.reverse = keptPart s := by
    rw [cutText_eq_keptPart h.isTidy, h.reads.componentsText_eq]
  simp [Excerpt.upToDelimiter, Excerpt.textBefore, Excerpt.pushAll, hcut]

/-- A comment in a prelude leaves what it leaves in the item at hand, and the text in front of it
ends there. -/
lemma Sheet.exists_reads_commentText {c : String} (hc : Clean.isComment c.toList) (t : List Char) :
    Stops ((commentText c).toList ++ t) ∧
      ∃ d, Reads (commentText c).toList t [d] ∧ ∀ (p : Prelude) (cs : List Component),
        p.run (d :: cs) = (⟨p.items, p.current.skipComment⟩ : Prelude).run cs := by
  have hclosed : occurs ['*', '/'] c.toList = false := by
    simpa [Clean.isComment] using hc
  have htext : (commentText c).toList = '/' :: '*' :: c.toList ++ ['*', '/'] := by
    simp [commentText]
  rw [htext]
  exact ⟨.cons rfl _, _, reads_comment hclosed t, fun _ _ => rfl⟩

/-- **Pieces around a comment** are an item with a space between what is kept of them. -/
lemma Sheet.exists_run_comment {s u t : List Char} {c : String} (hs : IsPiece itemMarks s)
    (hkept : keptPart s ≠ []) (hend : endsBlank s = false) (hc : Clean.isComment c.toList)
    (hu : IsPiece itemMarks u) (ht : Stops t) :
    ∃ cs ds p, Reads (s ++ (commentText c).toList ++ u) t (cs ++ ds) ∧
      ReadsPlainly s ((commentText c).toList ++ (u ++ t)) cs ∧
      (⟨[], .empty⟩ : Prelude).run (cs ++ ds) = some p ∧ p.items = [] ∧
      p.current.upToDelimiter = keptPart s ++ [' '] ++ keptPart u := by
  obtain ⟨hstops, comment, hcomment, hskip⟩ := exists_reads_commentText hc (u ++ t)
  obtain ⟨cs, hcs⟩ := hs.exists_readsPlainly hstops
  obtain ⟨es, hes⟩ := hu.exists_readsPlainly ht
  have hmarks : ∀ d ∈ es, ∀ m ∈ itemMarks, d.token.mark? ≠ some m :=
    fun _ hd _ hm => hes.mark?_ne hu hd hm
  have hreads : Reads (s ++ (commentText c).toList ++ u) t (cs ++ [comment] ++ es) :=
    (hcs.reads.append hcomment).append hes.reads
  have hrun : (⟨[], .empty⟩ : Prelude).run (cs ++ (comment :: es)) =
      some ⟨[], (⟨[keptPart s ++ [' ']], []⟩ : Excerpt).pushAll es⟩ := by
    rw [Prelude.run_append (Prelude.run_of_piece hcs hs []), hskip, hcs.skipComment_eq hkept hend]
    exact Prelude.run_eq_pushAll hes.isComment_eq hmarks _
  rw [List.append_assoc cs, List.singleton_append] at hreads
  exact ⟨cs, comment :: es, _, hreads, hcs, hrun, rfl, hes.upToDelimiter_behind _⟩

/-! ## Items of two parts -/

/-- An item goes on with a flat text, perhaps behind a space. -/
lemma Clean.isItem_append {x gap y : List Char} (hx : isItem x)
    (hgap : gap.all (isTextChar flatSigns)) (hy : isFlat y) (hne : y ≠ []) :
    isItem (x ++ gap ++ y) := by
  obtain ⟨c, r, rfl, -⟩ := Writer.exists_cons_of_isItem hx
  simp only [isItem, isFlat, isBare, Bool.and_eq_true] at hx hy ⊢
  refine ⟨⟨?_, ?_, ?_⟩, hx.2⟩
  · rw [List.all_append, List.all_append, hx.1.1, hgap, hy.1]
    rfl
  · exact hx.1.2.1
  · rw [List.getLast?_append_of_ne_nil _ hne]
    exact hy.2.2

namespace Sheet

/-- A rule with one selector and a space in front of its block. -/
lemma parse_item {x : String} (hx : Clean.isItem x.toList) :
    parse (x ++ " " ++ "\x7b\x7d") = .ok ⟨[.style (.rule [x] [])]⟩ := by
  have hgap : isGap [' '] := rfl
  exact Writer.parse_item_braces hx hgap (by simp) Reads.nil rfl

section

variable {x y c : String} (hx : Clean.isItem x.toList) (hy : Clean.isFlat y.toList)
  (hne : y ≠ "") (hc : Clean.isComment c.toList)

include hx hy hne

/-- Two parts with a space between them, or with nothing. -/
lemma isItem_append_string (gap : String) (hgap : gap.toList.all (isTextChar Clean.flatSigns)) :
    Clean.isItem (x ++ gap ++ y).toList := by
  rw [String.toList_append, String.toList_append]
  exact Clean.isItem_append hx hgap hy (by simpa using hne)

include hc

/-- A prelude with a comment in it is an item with a space in the place of the comment. -/
lemma parse_item_comment :
    parse (x ++ commentText c ++ y ++ " " ++ "\x7b\x7d") =
      .ok ⟨[.style (.rule [x ++ " " ++ y] [])]⟩ := by
  have hitem := isItem_append_string hx hy hne " " (by decide)
  have hmark := (Writer.endsBlanks_of_isItem hx
    ((commentText c ++ y ++ " " ++ "\x7b\x7d").toList)).head?_ne_mark
  obtain ⟨e, r, hxr, he⟩ := Writer.exists_cons_of_isItem hx
  rw [Clean.isItem, Bool.and_eq_true] at hx hitem
  have hnone : isGap [] := rfl
  have hspace : isGap [' '] := rfl
  have hxkept := Writer.keptPart_of_isFlat hnone hnone hx.1
  have hykept := Writer.keptPart_of_isFlat hnone hspace hy
  rw [List.nil_append, List.append_nil] at hxkept
  obtain ⟨cs, ds, p, hreads, hcs, hp, hitems, hexcerpt⟩ :=
    exists_run_comment (Clean.isPiece_of_isFlat (by decide) hx.1) (by rw [hxkept, hxr]; simp)
      (Clean.isTrimmed_of_isFlat hx.1).2 hc
      ((Clean.isPiece_of_isFlat (by decide) hy).surround hnone hspace) (t := ['{', '}'])
      (.cons rfl _)
  have hended : p.ended = [x ++ " " ++ y] := by
    have htrim := Clean.isTrimmed_of_isFlat hitem.1
    have htext : p.current.upToDelimiter = [] ++ (x ++ " " ++ y).toList ++ [' '] := by
      rw [hexcerpt, hxkept, hykept]
      simp
    rw [Prelude.ended, htext, trim_surround (forall_mem_gap hnone rfl rfl)
      (forall_mem_gap hspace rfl rfl) htrim.1 htrim.2, String.ofList_toList, hitems]
    simp [hxr]
  rw [hxr] at hcs
  obtain ⟨d, es, rfl, htoken⟩ := exists_cons_of_readsPlainly hcs
  rw [parse_empty_rule (by simpa using hreads) (htoken ▸ beginsRule_readToken he r) hp
    (by simpa using hmark), hended]
  rfl

/-- **Comments in selectors** — a comment between two parts of a selector is read as a space between
them, whatever the parts are. With nothing between them, the parts are a selector without the
space. -/
theorem parse_comment_in_selector :
    parse (x ++ commentText c ++ y ++ " \x7b\x7d") =
        .ok ⟨[.style (.rule [x ++ " " ++ y] [])]⟩ ∧
      parse (x ++ " " ++ y ++ " \x7b\x7d") = .ok ⟨[.style (.rule [x ++ " " ++ y] [])]⟩ ∧
      parse (x ++ y ++ " \x7b\x7d") = .ok ⟨[.style (.rule [x ++ y] [])]⟩ := by
  have hbraces : ∀ s : String, s ++ " \x7b\x7d" = s ++ " " ++ "\x7b\x7d" := fun s => by
    rw [String.append_assoc]
    rfl
  refine ⟨?_, ?_, ?_⟩
  · rw [hbraces, parse_item_comment hx hy hne hc]
  · rw [hbraces, parse_item (isItem_append_string hx hy hne " " (by decide))]
  · have hitem := isItem_append_string hx hy hne "" rfl
    rw [String.append_empty] at hitem
    rw [hbraces, parse_item hitem]

end

/-- A comment between two classes that are asked for together: the space makes the second one a
descendant. -/
theorem parse_comment_in_selector_classes :
    Clean.isItem ".a".toList ∧ Clean.isFlat ".b".toList ∧ ".b" ≠ "" ∧ Clean.isComment "c".toList ∧
      parse (".a" ++ commentText "c" ++ ".b" ++ " \x7b\x7d") =
        .ok ⟨[.style (.rule [".a .b"] [])]⟩ ∧
      parse (".a" ++ ".b" ++ " \x7b\x7d") = .ok ⟨[.style (.rule [".a.b"] [])]⟩ := by
  have hx : Clean.isItem ".a".toList := by decide
  have hy : Clean.isFlat ".b".toList := by decide
  have hc : Clean.isComment "c".toList := by decide
  obtain ⟨hcomment, -, hjoined⟩ := parse_comment_in_selector hx hy (by decide) hc
  exact ⟨hx, hy, by decide, hc, hcomment, hjoined⟩

end Sheet

end StyleSplit
