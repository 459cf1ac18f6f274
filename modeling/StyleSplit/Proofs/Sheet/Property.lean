import StyleSplit.Proofs.Css.Spelling
import StyleSplit.Proofs.Sheet.Block
import StyleSplit.Proofs.Sheet.Shape
set_option autoImplicit false

/-!
# Properties that are written again

A property is kept as its name and written as it is kept, whatever escapes the source spells it
with. So it is read back as itself exactly if it is a name that needs no escapes, perhaps behind a
star. All properties of a text without backslashes are of this kind.

## Main definitions

* `StyleSplit.Sheet.declarations` — the declarations of a sheet, wherever they stand.
* `StyleSplit.Sheet.Spells` — lexemes that spell a property.

## Main results

* `StyleSplit.Sheet.isProperty_of_mem_declarations` — the properties of a text without backslashes.
* `StyleSplit.Sheet.parse_of_isProperty`, `StyleSplit.Sheet.isProperty_of_parse` — properties that
  are read back.
* `StyleSplit.Sheet.parse_property_again` — when a property of a sheet is read back as itself.
-/

namespace StyleSplit

open Css

/-! ## Declarations of a sheet -/

mutual

/-- The declarations of a style, with their values: the style itself, or those in its block. -/
def Style.declarations : Style → List (String × String)
  | .declaration property value => [(property, value)]
  | .rule _ children | .step _ children => Style.declarationsOf children
  | .comment _ | .atRule .. => []

/-- The declarations of several styles. -/
def Style.declarationsOf : List Style → List (String × String)
  | [] => []
  | s :: rest => s.declarations ++ Style.declarationsOf rest

end

mutual

/-- The declarations of a statement, in rules and in keyframe steps, at any depth. -/
def Statement.declarations : Statement → List (String × String)
  | .style s => s.declarations
  | .media _ body => Statement.declarationsOf body
  | .keyframes k => Style.declarationsOf k.steps

/-- The declarations of several statements. -/
def Statement.declarationsOf : List Statement → List (String × String)
  | [] => []
  | s :: rest => s.declarations ++ Statement.declarationsOf rest

end

/-- **The declarations** of a sheet with their values, wherever they stand. -/
def Sheet.declarations (sheet : Sheet) : List (String × String) :=
  Statement.declarationsOf sheet.statements

section

variable {word : Token → Prop} {text : String → Prop}

lemma forall_mem_styleDeclarationsOf {P : String × String → Prop} {styles : List Style}
    (h : ∀ s ∈ styles, ∀ d ∈ s.declarations, P d) : ∀ d ∈ Style.declarationsOf styles, P d := by
  induction styles with
  | nil => exact fun _ hd => absurd hd List.not_mem_nil
  | cons s rest ih =>
    obtain ⟨hs, hrest⟩ := List.forall_mem_cons.mp h
    exact List.forall_mem_append.mpr ⟨hs, ih hrest⟩

lemma forall_mem_declarationsOf {P : String × String → Prop} {statements : List Statement}
    (h : ∀ s ∈ statements, ∀ d ∈ s.declarations, P d) :
    ∀ d ∈ Statement.declarationsOf statements, P d := by
  induction statements with
  | nil => exact fun _ hd => absurd hd List.not_mem_nil
  | cons s rest ih =>
    obtain ⟨hs, hrest⟩ := List.forall_mem_cons.mp h
    exact List.forall_mem_append.mpr ⟨hs, ih hrest⟩

lemma Style.IsLine.isPropertyOf {s : Style} (hs : s.IsLine word text) :
    ∀ d ∈ s.declarations, IsPropertyOf word d.1 := by
  cases s with
  | declaration property value => exact List.forall_mem_singleton.mpr hs.1
  | comment => exact fun _ hd => absurd hd List.not_mem_nil
  | rule => exact hs.elim
  | step => exact hs.elim
  | atRule => exact hs.elim

lemma Style.IsEntry.isPropertyOf {s : Style} (hs : s.IsEntry word text) :
    ∀ d ∈ s.declarations, IsPropertyOf word d.1 := by
  cases s with
  | rule selectors children =>
    exact forall_mem_styleDeclarationsOf fun line hline => (hs.2 line hline).isPropertyOf
  | comment => exact fun _ hd => absurd hd List.not_mem_nil
  | atRule => exact fun _ hd => absurd hd List.not_mem_nil
  | declaration => exact hs.elim
  | step => exact hs.elim

lemma Style.IsStepEntry.isPropertyOf {s : Style} (hs : s.IsStepEntry word text) :
    ∀ d ∈ s.declarations, IsPropertyOf word d.1 := by
  cases s with
  | step values children =>
    exact forall_mem_styleDeclarationsOf fun line hline => (hs.2 line hline).isPropertyOf
  | comment => exact fun _ hd => absurd hd List.not_mem_nil
  | declaration => exact hs.elim
  | rule => exact hs.elim
  | atRule => exact hs.elim

/-- The properties of a statement that has its shape are given by tokens. -/
lemma Statement.HasShape.isPropertyOf {s : Statement} (hs : s.HasShape word text) :
    ∀ d ∈ s.declarations, IsPropertyOf word d.1 := by
  induction hs with
  | style h => exact h.isPropertyOf
  | media _ _ ih => exact forall_mem_declarationsOf ih
  | keyframes h => exact forall_mem_styleDeclarationsOf fun step hstep =>
      (h.steps step hstep).isPropertyOf

end

namespace Sheet

/-! ## Names without escapes -/

lemma shownChar_ne_nul (c : Char) : shownChar c ≠ '\x00' := by
  rw [shownChar]
  split_ifs with hnul
  · decide
  · exact hnul

lemma isNameStart_shownChar {c : Char} (hc : isNameStart c) : isNameStart (shownChar c) := by
  rw [shownChar]
  split_ifs
  · rfl
  · exact hc

lemma isNameChar_shownChar {c : Char} (hc : Css.isNameChar c) : Css.isNameChar (shownChar c) := by
  rw [shownChar]
  split_ifs
  · rfl
  · exact hc

/-- Where an identifier begins, the name that is shown begins like one. -/
lemma startsIdent_shown {s : List Char} (hback : '\\' ∉ s) (h : startsIdent s) :
    startsIdent ((s.takeWhile Css.isNameChar).map shownChar) := by
  cases s with
  | nil => exact absurd h (by decide)
  | cons c r =>
    have hc : c ≠ '\\' := fun hc => hback (hc ▸ List.mem_cons_self)
    by_cases hdash : c = '-'
    · subst hdash
      cases r with
      | nil => exact absurd h (by decide)
      | cons d r =>
        have hd : d ≠ '\\' := fun hd => hback (by simp [hd])
        have hnext : isNameStart d ∨ d = '-' := by simpa [startsIdent, hd] using h
        have hname : Css.isNameChar d := by
          rcases hnext with hnext | rfl
          · simp [Css.isNameChar, hnext]
          · rfl
        rw [List.takeWhile_cons_of_pos rfl, List.takeWhile_cons_of_pos hname]
        rcases hnext with hnext | rfl
        · have hshown := isNameStart_shownChar hnext
          have hdashShown : shownChar '-' = '-' := rfl
          simp [startsIdent, hdashShown, hshown]
        · rfl
    · rw [startsIdent_cons hdash hc] at h
      have hname : Css.isNameChar c := by simp [Css.isNameChar, h]
      have hshown := isNameStart_shownChar h
      have hnot : ∀ d, isNameStart d = false → shownChar c ≠ d := by
        rintro d hd rfl
        rw [hd] at hshown
        exact Bool.false_ne_true hshown
      rw [List.takeWhile_cons_of_pos hname, List.map_cons,
        startsIdent_cons (hnot '-' (by decide)) (hnot '\\' (by decide))]
      exact hshown

/-- **Tokens that show their names** — an identifier is a name that is read as it is written. -/
def ShowsName (t : Token) : Prop :=
  ∀ name, t = .ident name → IsName name.toList

/-- Without backslashes, a token shows its name. -/
lemma showsName_readToken {c : Char} {r : List Char} (hback : '\\' ∉ c :: r) :
    ShowsName (readToken c r).1 := by
  intro name h
  obtain ⟨hstart, rfl, -⟩ := readName_of_readToken_eq_ident h
  rw [String.toList_ofList, readName_of_notMem hback]
  refine ⟨List.all_eq_true.mpr fun d hd => ?_, fun hnul => ?_, startsIdent_shown hback hstart⟩
  · obtain ⟨e, he, rfl⟩ := List.mem_map.mp hd
    exact isNameChar_shownChar (List.mem_takeWhile_imp he)
  · obtain ⟨e, -, he⟩ := List.mem_map.mp hnul
    exact shownChar_ne_nul e he

lemma showsName_of_mem_lexemes {s : List Char} (hback : '\\' ∉ s) :
    ∀ l ∈ lexemes s, ShowsName l.token := by
  fun_induction lexemes s with
  | case1 => exact fun _ h => absurd h List.not_mem_nil
  | case2 c r ih =>
    have hrest : (Lexeme.first c r).rest ⊆ c :: r := by
      have hhere := Lexeme.here_first c r
      rw [← hhere]
      exact List.subset_append_right _ _
    exact List.forall_mem_cons.mpr
      ⟨showsName_readToken hback, ih fun hmem => hback (hrest hmem)⟩

/-- **Properties of a text without backslashes** — each of them is a name that is read as it is
written, perhaps behind a star. -/
lemma isProperty_of_mem_declarations {css : String} {sheet : Sheet} (hback : '\\' ∉ css.toList)
    (hparse : parse css = .ok sheet) :
    ∀ d ∈ sheet.declarations, IsProperty d.1.toList := by
  have hmarks : '\\' ∉ withoutMarks css.toList := fun hmem =>
    hback ((List.dropWhile_suffix _).subset hmem)
  have hshape := Invariant.parse_hasShape_of_tokens (showsName_of_mem_lexemes hmarks) hparse
  refine forall_mem_declarationsOf fun s hs d hd => ?_
  obtain ⟨name, hname, hproperty⟩ := (hshape s hs).isPropertyOf d hd
  refine ⟨name.toList, hname name rfl, hproperty.imp (congrArg String.toList) ?_⟩
  intro hstar
  rw [hstar, String.toList_append]
  rfl

/-! ## Properties that are read back -/

section

variable {property : String}

/-- A property that needs no escapes is read back as it is written. -/
lemma parse_of_isProperty (h : IsProperty property.toList) :
    parse ("x \x7b" ++ declarationText property "1" ++ "\x7d") =
      .ok ⟨[.style (.rule ["x"] [.declaration property "1"])]⟩ := by
  have hitem : Clean.isItem "x".toList := by decide
  have hgap : isGap [' '] := rfl
  have hvalue : IsPiece valueMarks ['1'] :=
    isPiece_of_all_of_no_bracket (p := isTextChar []) (by decide) (by decide) (by decide)
      (by decide)
  have hyields := yields_declaration h hvalue ⟨rfl, rfl⟩ ['}']
  obtain ⟨ds, hds, hread⟩ := hyields
  have hend := hread ['}'] []
  rw [List.append_nil, String.ofList_toList] at hend
  exact Writer.parse_item_braces hitem hgap (by simp [declarationText]) hds hend

end

/-! ## Spellings of a property -/

/-- **Spelling a property** — an identifier among the lexemes names the property, behind `lead` and
at least as many lexemes as that has characters, and a colon stands behind the identifier. -/
def Spells (lead : List Char) (property : String) (ls : List Lexeme) : Prop :=
  ∃ pre l post name, ls = pre ++ l :: post ∧ l.token = .ident name ∧
    property.toList = lead ++ name.toList ∧ lead.length ≤ pre.length ∧
    ∃ m ∈ post, m.token = .colon

variable {stop rest : List Char} {cs : List Component} {property name value : String}
  {more : List Style}

/-- More lexemes in front make no difference. -/
lemma Spells.behind {lead : List Char} {ls : List Lexeme} (h : Spells lead property ls)
    (front : List Lexeme) : Spells lead property (front ++ ls) := by
  obtain ⟨pre, l, post, name, rfl, hl, hname, hlead, hcolon⟩ := h
  refine ⟨front ++ pre, l, post, name, (List.append_assoc _ _ _).symm, hl, hname, ?_, hcolon⟩
  rw [List.length_append]
  omega

/-- What a declaration list gives behind an element of its own. -/
lemma eq_of_map_cons_eq_ok {α : Type} {r : Except Fault (List α)} {x y : α} {ys : List α}
    (h : r.map (x :: ·) = .ok (y :: ys)) : y = x := by
  cases r with
  | error f => cases h
  | ok xs => exact (List.cons.inj (Except.ok.inj h)).1.symm

/-- A value belongs to the property in front of it. -/
lemma eq_of_declarationList_value {property' : String} {e : Excerpt}
    (h : declarationList stop (.value property' e) cs = .ok (.declaration property value :: more)) :
    property = property' := by
  induction cs generalizing e with
  | nil => exact (Style.declaration.inj (List.cons.inj (Except.ok.inj h)).1).1.symm
  | cons c cs ih =>
    rw [declarationList] at h
    split at h
    · exact ih h
    · exact (Style.declaration.inj (eq_of_map_cons_eq_ok h)).1
    · exact ih h

/-- A colon stands behind a property. -/
lemma exists_colon_of_declarationList_property
    (h : declarationList stop (.property name rest) cs =
      .ok (.declaration property value :: more)) :
    property = name ∧ ∃ m ∈ componentsLexemes cs, m.token = .colon := by
  induction cs with
  | nil => cases h
  | cons c cs ih =>
    obtain ⟨inner, hlexemes⟩ := exists_componentsLexemes_cons c cs
    have htail : (∃ m ∈ componentsLexemes cs, m.token = .colon) →
        ∃ m ∈ componentsLexemes (c :: cs), m.token = .colon := by
      rintro ⟨m, hm, hcolon⟩
      exact ⟨m, by simp [hlexemes, hm], hcolon⟩
    rw [declarationList] at h
    split at h
    · exact (ih h).imp_right htail
    · exact (ih h).imp_right htail
    · rename_i hcolon
      exact ⟨eq_of_declarationList_value h, c.first, by simp [hlexemes], hcolon⟩
    · cases h

/-- An identifier with what follows it spells a property. -/
lemma spells_of_declarationList_property {lead : List Char} {c : Component} {name' : String}
    (hc : c.token = .ident name) (hname : name'.toList = lead ++ name.toList)
    (h : declarationList stop (.property name' rest) cs =
      .ok (.declaration property value :: more)) (front : List Lexeme)
    (hfront : lead.length ≤ front.length) :
    Spells lead property (front ++ componentsLexemes (c :: cs)) := by
  obtain ⟨rfl, m, hm, hcolon⟩ := exists_colon_of_declarationList_property h
  obtain ⟨inner, hlexemes⟩ := exists_componentsLexemes_cons c cs
  exact ⟨front, c.first, inner ++ componentsLexemes cs, name, by rw [hlexemes], hc, hname, hfront,
    m, List.mem_append_right _ hm, hcolon⟩

/-- Behind a star, the identifier that follows spells a property. -/
lemma spells_of_declarationList_star
    (h : declarationList stop (.star rest) cs = .ok (.declaration property value :: more))
    (front : List Lexeme) (hfront : front ≠ []) :
    Spells ['*'] property (front ++ componentsLexemes cs) := by
  induction cs generalizing front with
  | nil => cases h
  | cons c cs ih =>
    have hskip : declarationList stop (.star rest) cs = .ok (.declaration property value :: more) →
        Spells ['*'] property (front ++ componentsLexemes (c :: cs)) := by
      intro h
      obtain ⟨inner, hlexemes⟩ := exists_componentsLexemes_cons c cs
      have hspells := ih h (front ++ c.first :: inner) (by simp)
      rwa [hlexemes, ← List.cons_append, ← List.append_assoc]
    rw [declarationList] at h
    split at h
    · exact hskip h
    · exact hskip h
    · rename_i hc
      refine spells_of_declarationList_property hc ?_ h front (List.length_pos_iff.mpr hfront)
      rw [String.toList_append]
      rfl
    · cases h

/-- **The first declaration of a list** has a property that lexemes of the list spell. -/
lemma spells_of_declarationList
    (h : declarationList stop .none cs = .ok (.declaration property value :: more)) :
    ∃ lead, (lead = [] ∨ lead = ['*']) ∧ Spells lead property (componentsLexemes cs) := by
  induction cs with
  | nil => cases h
  | cons c cs ih =>
    obtain ⟨inner, hlexemes⟩ := exists_componentsLexemes_cons c cs
    have hskip : declarationList stop .none cs = .ok (.declaration property value :: more) →
        ∃ lead, (lead = [] ∨ lead = ['*']) ∧
          Spells lead property (componentsLexemes (c :: cs)) := by
      intro h
      obtain ⟨lead, hlead, hspells⟩ := ih h
      exact ⟨lead, hlead, by simpa [hlexemes] using hspells.behind (c.first :: inner)⟩
    rw [declarationList] at h
    split at h
    · exact hskip h
    · exact hskip h
    · cases eq_of_map_cons_eq_ok h
    · rename_i hc
      exact ⟨[], .inl rfl, spells_of_declarationList_property hc rfl h [] (Nat.le_refl _)⟩
    · have hspells := spells_of_declarationList_star h (c.first :: inner) (by simp)
      exact ⟨['*'], .inr rfl, by simpa [hlexemes] using hspells⟩
    · cases h

/-! ## Spelling a property as itself -/

/-- A part in front of a colon does not reach beyond the last colon. -/
lemma length_le_of_append_colon_eq {a b s t : List Char} (h : a ++ ':' :: b = s ++ ':' :: t)
    (ht : ':' ∉ t) : a.length ≤ s.length := by
  rcases List.append_eq_append_iff.mp h with ⟨d, rfl, -⟩ | ⟨d, rfl, hd⟩
  · simp
  · cases d with
    | nil => simp
    | cons e d =>
      obtain ⟨-, rfl⟩ := List.cons.inj hd
      exact absurd (by simp) ht

/-- **A property that spells itself** is a name that is read as it is written, perhaps behind a
star.

**Proof sketch.** The identifier is not longer than its spelling, and its spelling and all that
stands in front of it end before the last colon, where the property does. So nothing else stands in
front of it but the star, and the name is its own spelling. -/
lemma isProperty_of_spells {lead : List Char} (hlead : lead = [] ∨ lead = ['*']) {t : List Char}
    (ht : ':' ∉ t) {ls : List Lexeme} (hls : ls <+: lexemes (property.toList ++ ':' :: t))
    (h : Spells lead property ls) : IsProperty property.toList := by
  obtain ⟨pre, l, post, name, rfl, hl, hproperty, hcount, m, hm, hcolon⟩ := h
  obtain ⟨behind, hlexemes⟩ := hls
  obtain ⟨between, after, rfl⟩ := List.append_of_mem hm
  rw [List.append_assoc, List.cons_append] at hlexemes
  have hpre := length_le_length_flatMap_raw hlexemes.symm
  obtain ⟨c, r, rfl, htext, hrest⟩ := exists_first_of_lexemes_eq_append hlexemes.symm
  rw [List.append_assoc, List.cons_append] at hrest
  obtain ⟨d, u, rfl, hbetween, -⟩ := exists_first_of_lexemes_eq_append hrest
  obtain rfl : d = ':' := eq_of_readToken_eq_colon hcolon
  obtain ⟨hstart, rfl, hsize⟩ := readName_of_readToken_eq_ident hl
  -- what is read as the name, and its length
  have hhere := Lexeme.here_first c r
  have hraw : (Lexeme.first c r).raw.length = (readName (c :: r)).2 := by
    have hbound := readName_size_le (c :: r)
    rw [List.length_cons] at hbound
    simp only [Lexeme.first, List.length_cons, List.length_take]
    omega
  have hname := length_readName_le (c :: r)
  have hend : (pre.flatMap (·.raw) ++ ((Lexeme.first c r).raw ++
      between.flatMap (·.raw))) ++ ':' :: u = property.toList ++ ':' :: t := by
    rw [htext, ← hhere, Lexeme.here, hbetween]
    simp only [List.append_assoc]
  have hwithin := length_le_of_append_colon_eq hend ht
  rw [hproperty, String.toList_ofList] at hwithin htext
  simp only [List.length_append] at hwithin
  -- so nothing but the star stands in front of it, and it has no escapes
  have hlengths : lead.length = (pre.flatMap (·.raw)).length ∧
      (readName (c :: r)).1.length = (readName (c :: r)).2 := by omega
  rw [List.append_assoc] at htext
  obtain ⟨-, hsource⟩ := List.append_inj htext hlengths.1
  have hspelled : ((readName (c :: r)).1 ++ ':' :: t).take (readName (c :: r)).1.length =
      (readName (c :: r)).1 := List.take_left
  rw [hsource, hlengths.2] at hspelled
  have hchars := isNameChar_of_readName_eq_take hspelled.symm
  have hback : '\\' ∉ (readName (c :: r)).1 := fun hmem =>
    absurd (hchars _ hmem).1 (by decide)
  have hname : IsName (readName (c :: r)).1 := by
    refine ⟨List.all_eq_true.mpr fun e he => (hchars e he).1, fun hnul => (hchars _ hnul).2 rfl, ?_⟩
    rwa [← hsource, startsIdent_append (.cons rfl t) hback] at hstart
  rw [hproperty, String.toList_ofList]
  rcases hlead with rfl | rfl
  · exact ⟨_, hname, .inl rfl⟩
  · exact ⟨_, hname, .inr rfl⟩

/-! ## Reading a property again -/

/-- The declarations of the first rule come from what stands behind its brace. -/
lemma exists_content_of_parse {css : String} {gap s : List Char} {x : String}
    (hx : Clean.isItem x.toList) (hgap : isGap gap)
    (hcss : css.toList = x.toList ++ gap ++ '{' :: s)
    {selectors : List String} {children : List Style} {statements : List Statement}
    (h : parse css = .ok ⟨.style (.rule selectors children) :: statements⟩) :
    ∃ content stop, componentsLexemes content <+: lexemes s ∧
      declarationList stop .none content = .ok children := by
  have hnone : isGap [] := rfl
  obtain ⟨cs, hcs, hbegins, hrun⟩ :=
    Writer.exists_run_item hnone hgap (t := '{' :: s) (.cons rfl s) hx
  obtain ⟨c, es, rfl, hc⟩ := hbegins rfl
  obtain ⟨q, hq, -⟩ := hrun []
  have hopener : Lexeme.first '{' s = ⟨.opening .brace, ['{'], s⟩ := rfl
  obtain ⟨content, closer, ds, hblock, hcontent⟩ :=
    exists_components_cons_of_opens (l := ⟨.opening .brace, ['{'], s⟩) rfl (lexemes s)
  refine ⟨content, stopOf closer, hcontent, ?_⟩
  have hmark : css.toList.head? ≠ some '\uFEFF' := by
    rw [hcss, List.append_assoc]
    exact (Writer.endsBlanks_of_isItem hx _).head?_ne_mark
  have hread : ruleList [] (.rule q) (.block ⟨.opening .brace, ['{'], s⟩ content closer :: ds) =
      .ok (.style (.rule selectors children) :: statements) := by
    have hstatements := read_of_parse h
    rwa [withoutMarks_eq_self hmark, read, hcss, ← List.nil_append x.toList, hcs.components_append,
      ruleList_none_append_of_run hc hq, lexemes, hopener, hblock] at hstatements
  rw [ruleList_rule_block [] q rfl] at hread
  cases hchildren : declarationList (stopOf closer) .none content with
  | error f =>
    rw [hchildren] at hread
    cases hread
  | ok xs =>
    rw [hchildren] at hread
    cases hmore : ruleList [] .none ds with
    | error f =>
      rw [hmore] at hread
      cases hread
    | ok more =>
      rw [hmore] at hread
      obtain ⟨hrule, -⟩ := List.cons.inj (Except.ok.inj hread)
      exact congrArg Except.ok (Style.rule.inj (Statement.style.inj hrule)).2

/-- A property that is read back as it is written needs no escapes. -/
lemma isProperty_of_parse
    (h : parse ("x \x7b" ++ declarationText property "1" ++ "\x7d") =
      .ok ⟨[.style (.rule ["x"] [.declaration property "1"])]⟩) : IsProperty property.toList := by
  have hitem : Clean.isItem "x".toList := by decide
  have hgap : isGap [' '] := rfl
  have hcss : ("x \x7b" ++ declarationText property "1" ++ "\x7d").toList =
      "x".toList ++ [' '] ++ '{' :: (property.toList ++ ':' :: [' ', '1', ';', '}']) := by
    simp [declarationText]
  obtain ⟨content, stop, hcontent, hread⟩ := exists_content_of_parse hitem hgap hcss h
  obtain ⟨lead, hlead, hspells⟩ := spells_of_declarationList hread
  exact isProperty_of_spells hlead (by decide) hcontent hspells

/-- **Properties that are written again** — the property of a declaration, wherever it stands in a
sheet, is written and read back as itself exactly if it is a name that needs no escapes, perhaps
behind a star. So are all properties of a text without backslashes.

**Proof sketch.** A name that needs no escapes is one lexeme in front of a colon. If a property is
read back, an identifier in front of the colon spells it, and that is too short for anything but the
property itself. Without backslashes, the characters of a name are those of the text. -/
theorem parse_property_again {css : String} {sheet : Sheet} (hparse : parse css = .ok sheet)
    {property value : String} (h : (property, value) ∈ sheet.declarations) :
    (parse ("x \x7b" ++ declarationText property "1" ++ "\x7d") =
        .ok ⟨[.style (.rule ["x"] [.declaration property "1"])]⟩ ↔
      IsProperty property.toList) ∧
    ('\\' ∉ css.toList →
      parse ("x \x7b" ++ declarationText property "1" ++ "\x7d") =
        .ok ⟨[.style (.rule ["x"] [.declaration property "1"])]⟩) :=
  ⟨⟨isProperty_of_parse, parse_of_isProperty⟩,
    fun hback => parse_of_isProperty (isProperty_of_mem_declarations hback hparse _ h)⟩

/-- A digit that an escape spells begins no name when it is written as itself. -/
theorem parse_property_again_digit :
    ∃ sheet, parse "a\x7b\\31 x:2\x7d" = .ok sheet ∧ sheet.declarations = [("1x", "2")] ∧
      parse ("x \x7b" ++ declarationText "1x" "1" ++ "\x7d") ≠
        .ok ⟨[.style (.rule ["x"] [.declaration "1x" "1"])]⟩ := by
  have hread : (parse "a\x7b\\31 x:2\x7d").toOption.map declarations = some [("1x", "2")] := by
    decide +kernel
  obtain ⟨sheet, hparse, hdeclarations⟩ := exists_of_map_parse hread
  have hmem : ("1x", "2") ∈ sheet.declarations := hdeclarations ▸ List.mem_cons_self
  refine ⟨sheet, hparse, hdeclarations, fun hagain => ?_⟩
  obtain ⟨name, hname, rfl | hstar⟩ := (parse_property_again hparse hmem).1.mp hagain
  · exact absurd hname.startsIdent (by decide)
  · exact absurd (congrArg List.head? hstar) (by simp)

end Sheet

end StyleSplit
