import StyleSplit.Proofs.Sheet.Prelude
set_option autoImplicit false

/-!
# What is kept of a prelude

A selector, a condition or another prelude without comments is kept as it is written, unless a
closing bracket ends it right before the delimiter. Then the inside of that bracket group is lost:
the position up to which the text is taken stands still while the group is passed over.

## Main definitions

* `StyleSplit.Sheet.isPreludeText` — texts that can be a selector, a condition or another prelude.

## Main results

* `StyleSplit.Sheet.parse_prelude` — what is kept of such a text in front of each delimiter, and
  when that is all of it.
-/

namespace StyleSplit.Sheet

open Css

/-! ## Texts of preludes -/

/-- The signs of preludes. -/
def preludeSigns : List Char :=
  " -_.#:>+~=()[]".toList

/-- **Texts of preludes** — without a space at their ends, with balanced brackets and without
addresses; a letter, a point, a number sign, a colon or an opening bracket begins them. -/
def isPreludeText (s : List Char) : Bool :=
  s.all (isTextChar preludeSigns) && isBalanced s && !occurs "url(".toList (s.map Char.toLower) &&
    s.head?.any (fun c => c.isAlpha || ['.', '#', ':', '(', '['].contains c) &&
    !s.getLast?.any (· == ' ')

section

variable {s : List Char} (hs : isPreludeText s)

include hs

lemma isPiece_of_isPreludeText {avoided : List Mark}
    (havoided : avoided.all fun m => !isTextChar preludeSigns m.char) : IsPiece avoided s := by
  simp only [isPreludeText, Bool.and_eq_true, Bool.not_eq_true'] at hs
  exact isPiece_of_all (by decide) havoided hs.1.1.1.1 hs.1.1.1.2 hs.1.1.2

/-- A text of a prelude is not empty and can begin a rule. -/
lemma exists_cons_of_isPreludeText : ∃ c r, s = c :: r ∧ isRuleStart c := by
  simp only [isPreludeText, Bool.and_eq_true] at hs
  have hhead := hs.1.2
  cases s with
  | nil => exact absurd hhead (by simp)
  | cons c r =>
    refine ⟨c, r, rfl, ?_⟩
    rw [List.head?_cons, Option.any_some, Bool.or_eq_true] at hhead
    rw [isRuleStart, isTextChar, Char.isAlphanum, Bool.or_eq_true, Bool.or_eq_true]
    exact hhead.imp_left .inl

lemma endsBlank_of_isPreludeText : endsBlank s = false := by
  simp only [isPreludeText, Bool.and_eq_true, Bool.not_eq_true'] at hs
  obtain ⟨⟨⟨⟨hall, -⟩, -⟩, -⟩, hlast⟩ := hs
  rw [endsBlank]
  cases hc : s.getLast? with
  | none => rfl
  | some c =>
    have hchar := List.all_eq_true.mp hall c (List.mem_of_getLast? hc)
    rw [hc, Option.any_some, beq_eq_false_iff_ne] at hlast
    refine isBlank_of_isTextChar (by decide) hchar hlast ?_
    rintro rfl
    exact absurd hchar (by decide)

end

/-! ## The kept part -/

/-- A space in front of a text of a prelude leaves a piece. -/
lemma isPiece_space {s : List Char} (hs : isPreludeText s) : IsPiece atRuleMarks (' ' :: s) := by
  have hpiece : IsPiece atRuleMarks ([' '] ++ s ++ []) :=
    (isPiece_of_isPreludeText hs (by decide)).surround (by decide) (by decide)
  rwa [List.append_nil, List.singleton_append] at hpiece

/-- Something is kept of each piece. -/
lemma keptPart_ne_nil {avoided : List Mark} {s : List Char} (hs : IsPiece avoided s)
    (hne : s ≠ []) : keptPart s ≠ [] := by
  obtain ⟨cs, hcs⟩ := hs.exists_readsPlainly .nil
  have htext := hcs.reads.componentsText_eq
  rw [← htext, ← cutText_eq_keptPart hcs.isTidy]
  rcases List.eq_nil_or_concat cs with rfl | ⟨before, last, rfl⟩
  · exact absurd htext.symm hne
  · rw [List.concat_eq_append] at hcs ⊢
    have hlast := hcs.isTidy last (by simp)
    have hraw : last.first.raw ≠ [] := by
      cases last with
      | plain l => exact hlast.1.1
      | block opener content closer =>
        obtain ⟨b, x, outer, -, hopener, -⟩ := hlast
        exact hopener.1
    simp [cutText, hraw]

section

variable {s : List Char} (hs : isPreludeText s)

include hs

lemma keptPart_ne_nil_of_isPreludeText : keptPart s ≠ [] := by
  have hpiece : IsPiece [] s := isPiece_of_isPreludeText hs rfl
  obtain ⟨c, r, rfl, -⟩ := exists_cons_of_isPreludeText hs
  exact keptPart_ne_nil hpiece (List.cons_ne_nil c r)

/-- The kept part of a text of a prelude has no blanks at its ends. -/
lemma trim_keptPart : trim (keptPart s) = keptPart s := by
  refine trim_eq_self ?_ (endsBlank_keptPart (endsBlank_of_isPreludeText hs))
  have hne := keptPart_ne_nil_of_isPreludeText hs
  obtain ⟨c, r, rfl, hc⟩ := exists_cons_of_isPreludeText hs
  obtain ⟨d, kept, hkept⟩ := List.exists_cons_of_ne_nil hne
  have hpre := keptPart_prefix (c :: r)
  rw [hkept, List.cons_prefix_cons] at hpre
  rw [hkept, List.head?_cons, Option.any_some, hpre.1]
  exact isBlank_of_isRuleStart hc

/-- A space in front of the text is trimmed off. -/
lemma trim_keptPart_space : trim (keptPart (' ' :: s)) = keptPart s := by
  have hspace := keptPart_append_left (keptPart_ne_nil_of_isPreludeText hs) [' ']
  rw [List.singleton_append] at hspace
  rw [hspace, trim_append_left (List.forall_mem_singleton.mpr rfl), trim_keptPart hs]

/-- The text begins a rule, in front of a delimiter. -/
lemma exists_run_of_isPreludeText {t : List Char} (ht : Stops t) :
    ∃ c cs, Reads s t (c :: cs) ∧ beginsRule c.token ∧ ∃ p : Prelude,
      (⟨[], .empty⟩ : Prelude).run (c :: cs) = some p ∧
        p.ended = [String.ofList (keptPart s)] := by
  have hpiece : IsPiece itemMarks s := isPiece_of_isPreludeText hs (by decide)
  have hne := keptPart_ne_nil_of_isPreludeText hs
  have htrim := trim_keptPart hs
  obtain ⟨cs, hcs⟩ := hpiece.exists_readsPlainly ht
  obtain ⟨c, r, rfl, hc⟩ := exists_cons_of_isPreludeText hs
  obtain ⟨d, ds, rfl, htoken⟩ := exists_cons_of_readsPlainly hcs
  refine ⟨d, ds, hcs.reads, htoken ▸ beginsRule_readToken hc r, _,
    Prelude.run_of_piece hcs hpiece [], ?_⟩
  rw [Prelude.ended_of_piece hcs (by rwa [htrim]), trimmed, htrim]

end

/-- An empty block in braces at the end of a text. -/
lemma reads_empty_braces : Reads ['{', '}'] [] [.braces [] [] []] :=
  Reads.braces Reads.nil

/-- A prelude in front of an empty block is a rule without declarations. -/
lemma parse_empty_rule {P : String} {c : Component} {cs : List Component} {p : Prelude}
    (hreads : Reads P.toList ['{', '}'] (c :: cs)) (hc : beginsRule c.token)
    (hp : (⟨[], .empty⟩ : Prelude).run (c :: cs) = some p)
    (hmark : (P ++ "\x7b\x7d").toList.head? ≠ some '\uFEFF') :
    parse (P ++ "\x7b\x7d") = .ok ⟨[.style (.rule p.ended.reverse [])]⟩ :=
  parse_rule_braces String.toList_append hmark hreads hc hp Reads.nil rfl

section

variable {P : String} (hP : isPreludeText P.toList)

include hP

lemma head?_ne_mark (s : String) : (P ++ s).toList.head? ≠ some '\uFEFF' := by
  obtain ⟨c, r, hcr, hc⟩ := exists_cons_of_isPreludeText hP
  rw [String.toList_append, hcr, List.cons_append, List.head?_cons]
  intro h
  obtain rfl := Option.some.inj h
  exact absurd hc (by decide)

/-- The text as the selector of a rule. -/
lemma parse_rule :
    parse (P ++ "\x7b\x7d") = .ok ⟨[.style (.rule [String.ofList (keptPart P.toList)] [])]⟩ := by
  obtain ⟨c, cs, hreads, hc, p, hp, hended⟩ :=
    exists_run_of_isPreludeText hP (t := ['{', '}']) (.cons rfl _)
  rw [parse_empty_rule hreads hc hp (head?_ne_mark hP _), hended]
  rfl

/-- The text as the first of two selectors. -/
lemma parse_rule_comma {Q : String} (hQ : isPreludeText Q.toList) :
    parse (P ++ ("," ++ Q ++ "\x7b\x7d")) = .ok ⟨[.style (.rule
      [String.ofList (keptPart P.toList), String.ofList (keptPart Q.toList)] [])]⟩ := by
  have hpiece : IsPiece itemMarks Q.toList := isPiece_of_isPreludeText hQ (by decide)
  have htrim := trim_keptPart hQ
  have hne := keptPart_ne_nil_of_isPreludeText hQ
  obtain ⟨ds, hds⟩ := hpiece.exists_readsPlainly (t := ['{', '}']) (.cons rfl _)
  obtain ⟨c, cs, hreads, hc, p, hp, hended⟩ :=
    exists_run_of_isPreludeText hP (t := ',' :: (Q.toList ++ ['{', '}']))
      (.cons rfl _)
  obtain ⟨comma, hcomma, hnext⟩ := exists_reads_comma (Q.toList ++ ['{', '}'])
  have hrun : (⟨[], .empty⟩ : Prelude).run (c :: (cs ++ comma :: ds)) =
      some ⟨p.ended, Excerpt.empty.pushAll ds⟩ := by
    rw [← List.cons_append, Prelude.run_append hp, hnext]
    exact Prelude.run_of_piece hds hpiece p.ended
  have hall : Reads (P ++ ("," ++ Q)).toList ['{', '}'] (c :: (cs ++ comma :: ds)) := by
    have htext : (P ++ ("," ++ Q)).toList = P.toList ++ ([','] ++ Q.toList) := by simp
    rw [htext, ← List.cons_append]
    exact Reads.append (by simpa using hreads) (Reads.append (by simpa using hcomma) hds.reads)
  have htext : P ++ ("," ++ Q ++ "\x7b\x7d") = P ++ ("," ++ Q) ++ "\x7b\x7d" := by
    simp only [String.append_assoc]
  have hmark := head?_ne_mark hP ("," ++ Q ++ "\x7b\x7d")
  rw [htext] at hmark ⊢
  rw [parse_empty_rule hall hc hrun hmark, Prelude.ended_of_piece hds (by rwa [htrim]), hended,
    trimmed, htrim]
  rfl

/-- The text as a condition. -/
lemma parse_media :
    parse ("@media " ++ P ++ "\x7b\x7d") =
      .ok ⟨[.media (String.ofList (keptPart P.toList)) []]⟩ := by
  have hpiece : IsPiece atRuleMarks (' ' :: P.toList) := isPiece_space hP
  obtain ⟨cs, e, hreads, he, hread⟩ := isName_media.exists_reads_atRule hpiece (t := ['{', '}']) rfl
    (.cons rfl _)
  refine parse_of_reads (cs ++ [.braces [] [] []]) ?_ (by simp) ?_
  · simp only [String.toList_append]
    exact hreads.append reads_empty_braces
  · rw [hread, ruleList_atRule_braces, toLower_ofList (by decide), he, trimmed,
      trim_keptPart_space hP]
    simp only [Component.braces, atRuleWithBlock, String.ofList_toList, if_pos, ruleList]
    rfl

/-- The text behind the name of another at-rule. -/
lemma parse_atRule :
    parse ("@x " ++ P ++ ";") =
      .ok ⟨[.style (.atRule "x" (String.ofList (keptPart P.toList)) none)]⟩ := by
  have hname : IsName ['x'] := ⟨by decide, by decide, by decide⟩
  have hpiece : IsPiece atRuleMarks (' ' :: P.toList) := isPiece_space hP
  obtain ⟨cs, e, hreads, he, hread⟩ := hname.exists_reads_atRule hpiece (t := [';']) rfl
    (.cons rfl _)
  have hsemicolon : Reads [';'] [] [.plain ⟨.semicolon, [';'], []⟩] := Reads.plain rfl rfl rfl
  refine parse_of_reads (cs ++ [.plain ⟨.semicolon, [';'], []⟩]) ?_ (by simp) ?_
  · simp only [String.toList_append]
    exact hreads.append hsemicolon
  · rw [hread, toLower_ofList (by decide), ruleList]
    simp only [Component.token, Component.first, ruleList, he, trimmed, trim_keptPart_space hP]
    rfl

end

/-- **What is kept of a prelude** — in front of the braces of a rule, in front of a comma, in front
of the braces of an `@media` block and in front of the semicolon of an at-rule it is the kept part
of the text. That is all of the text exactly if no closing bracket ends it. -/
theorem parse_prelude (P : String) (hP : isPreludeText P.toList) :
    parse (P ++ "\x7b\x7d") = .ok ⟨[.style (.rule [String.ofList (keptPart P.toList)] [])]⟩ ∧
      parse (P ++ ",b\x7b\x7d") =
        .ok ⟨[.style (.rule [String.ofList (keptPart P.toList), "b"] [])]⟩ ∧
      parse ("@media " ++ P ++ "\x7b\x7d") =
        .ok ⟨[.media (String.ofList (keptPart P.toList)) []]⟩ ∧
      parse ("@x " ++ P ++ ";") =
        .ok ⟨[.style (.atRule "x" (String.ofList (keptPart P.toList)) none)]⟩ ∧
      (String.ofList (keptPart P.toList) = P ↔ endsClosed P.toList = false) := by
  refine ⟨parse_rule hP, ?_, parse_media hP, parse_atRule hP, ?_⟩
  · exact parse_rule_comma hP (Q := "b") (by decide)
  · rw [← keptPart_eq_self_iff, ← String.toList_inj, String.toList_ofList]

/-- A selector that ends with the arguments of a pseudo-class loses them. -/
theorem parse_prelude_arguments :
    isPreludeText ":is(.a)".toList ∧
      parse (":is(.a)" ++ "\x7b\x7d") = .ok ⟨[.style (.rule [":is("] [])]⟩ := by
  have hkept : String.ofList (keptPart ":is(.a)".toList) = ":is(" := by decide
  refine ⟨by decide, ?_⟩
  rw [(parse_prelude ":is(.a)" (by decide)).1, hkept]

end StyleSplit.Sheet
