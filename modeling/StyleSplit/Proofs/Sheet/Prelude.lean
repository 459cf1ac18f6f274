import StyleSplit.Proofs.Css.Piece
import StyleSplit.Sheet.Parser
set_option autoImplicit false

/-!
# Preludes of plain text

What stands before a block or a semicolon is read as an item, or as items between commas. A piece
without commas is one item, of which the kept part is left; behind the name of an at-rule it is the
prelude of the at-rule.

## Main definitions

* `StyleSplit.Sheet.Prelude.run` — a prelude with several more components.
* `StyleSplit.Sheet.isRuleStart` — characters that can begin a rule.
* `StyleSplit.Sheet.IsName` — names that are read as they are written.

## Main results

* `StyleSplit.Sheet.parse_of_reads` — what a text is read as, by its components.
* `StyleSplit.Sheet.Prelude.run_of_piece`, `StyleSplit.Sheet.Prelude.ended_of_piece` — a piece as an
  item.
* `StyleSplit.Sheet.IsName.exists_reads_atRule` — the header of an at-rule.
-/

namespace StyleSplit.Sheet

open Css

/-! ## Sheets -/

/-- A text that does not begin with a byte order mark is read from its beginning. -/
lemma withoutMarks_eq_self {s : List Char} (h : s.head? ≠ some '\uFEFF') : withoutMarks s = s := by
  cases s with
  | nil => rfl
  | cons c r => exact List.dropWhile_cons_of_neg (by simpa using h)

/-- The statements of a sheet are those of its text. -/
lemma read_of_parse {css : String} {sheet : Sheet} (h : parse css = .ok sheet) :
    read (withoutMarks css.toList) = .ok sheet.statements := by
  rw [parse] at h
  cases hread : read (withoutMarks css.toList) with
  | error f => simp [hread] at h
  | ok statements =>
    simp only [hread, Except.ok.injEq] at h
    rw [← h]

/-- What a text is read as, by its components. -/
lemma parse_of_reads {css : String} (cs : List Component) {xs : List Statement}
    (h : Reads css.toList [] cs) (hmark : css.toList.head? ≠ some '\uFEFF')
    (hxs : ruleList [] .none cs = .ok xs) : parse css = .ok ⟨xs⟩ := by
  have hread : read css.toList = .ok xs := by rw [read, h.components_eq, hxs]
  simp only [parse, withoutMarks_eq_self hmark, hread]

/-! ## Components in front of a block -/

namespace Prelude

/-- Several more components, none of which ends the prelude. -/
def run (p : Prelude) : List Component → Option Prelude
  | [] => some p
  | c :: cs =>
    match p.step c with
    | .more q => q.run cs
    | .block _ | .fault _ => none

/-- The first component of several ones goes on with the prelude. -/
lemma exists_step_of_run_cons {p q : Prelude} {c : Component} {cs : List Component}
    (h : p.run (c :: cs) = some q) : ∃ p', p.step c = .more p' ∧ p'.run cs = some q := by
  rw [run] at h
  split at h
  · exact ⟨_, ‹_›, h⟩
  · exact absurd h (by simp)
  · exact absurd h (by simp)

lemma run_append {p q : Prelude} {cs : List Component} (h : p.run cs = some q)
    (ds : List Component) : p.run (cs ++ ds) = q.run ds := by
  induction cs generalizing p with
  | nil =>
    obtain rfl : p = q := Option.some.inj h
    rfl
  | cons c cs ih =>
    obtain ⟨p', hstep, hrun⟩ := exists_step_of_run_cons h
    rw [List.cons_append, run, hstep]
    exact ih hrun

end Prelude

section

variable {p q : Prelude} {cs : List Component} (h : p.run cs = some q) (stop : List Char)
  (ds : List Component)

include h

/-- Components of a prelude are read into it, in a rule list. -/
lemma ruleList_append_of_run :
    ruleList stop (.rule p) (cs ++ ds) = ruleList stop (.rule q) ds := by
  induction cs generalizing p with
  | nil =>
    obtain rfl : p = q := Option.some.inj h
    rfl
  | cons c cs ih =>
    obtain ⟨p', hstep, hrun⟩ := Prelude.exists_step_of_run_cons h
    rw [List.cons_append, ruleList, hstep]
    exact ih hrun

/-- Components of a prelude are read into it, in the steps of a keyframes block. -/
lemma stepList_append_of_run :
    stepList stop (some p) (cs ++ ds) = stepList stop (some q) ds := by
  induction cs generalizing p with
  | nil =>
    obtain rfl : p = q := Option.some.inj h
    rfl
  | cons c cs ih =>
    obtain ⟨p', hstep, hrun⟩ := Prelude.exists_step_of_run_cons h
    rw [List.cons_append, stepList, hstep]
    exact ih hrun

end

/-- Whether a token can begin a rule, and a keyframe step as well. -/
def beginsRule : Token → Bool
  | .whitespace _ | .cdo | .cdc | .semicolon | .comma | .comment _ | .atKeyword _ => false
  | .opening .brace | .closing .brace => false
  | _ => true

/-- The characters that a rule can begin with. -/
def isRuleStart (c : Char) : Bool :=
  isTextChar ['.', '#', ':', '(', '['] c

lemma isBlank_of_isRuleStart {c : Char} (hc : isRuleStart c) : isBlank c = false := by
  refine isBlank_of_isTextChar (by decide) hc ?_ ?_
  all_goals
    rintro rfl
    exact absurd hc (by decide)

lemma beginsRule_urlToken (word : String) (r : List Char) : beginsRule (urlToken word r).1 := by
  rw [urlToken]
  dsimp only
  split
  · rfl
  · dsimp only
    split <;> rfl

/-- A word can begin a rule, with or without arguments. -/
lemma beginsRule_withArguments (name r : List Char) : beginsRule (withArguments name r).1 := by
  unfold withArguments
  split
  · split_ifs
    · exact beginsRule_urlToken _ _
    · rfl
  · rfl

/-- A token that such a character begins can begin a rule. -/
lemma beginsRule_readToken {c : Char} (hc : isRuleStart c) (r : List Char) :
    beginsRule (readToken c r).1 := by
  have hspace : ¬ isSpace c := by
    have hnot := notMem_of_class hc [' ', '\t', '\n', '\r', '\x0c'] (by decide)
    simpa [isSpace, isNewline, or_assoc] using hnot
  have hother := notMem_of_class hc ['"', '\'', '@'] (by decide)
  simp only [List.mem_cons, List.not_mem_nil, or_false, not_or] at hother
  rw [readToken, if_neg hspace, if_neg (by tauto)]
  split_ifs with hhash hat hnumeral hident
  · rw [hashToken]
    dsimp only
    split_ifs <;> rfl
  · exact absurd hat hother.2.2
  · dsimp only
    rw [withUnit]
    split_ifs <;> rfl
  · exact beginsRule_withArguments _ _
  · rw [symbolToken_eq_nil (notMem_of_class hc _ (by decide))]
    have hmark := notMem_of_class hc [',', ';', '{', '}'] (by decide)
    unfold symbolToken
    split <;> simp_all [beginsRule]

lemma step_of_beginsRule {c : Component} (hc : beginsRule c.token) :
    (⟨[], .empty⟩ : Prelude).step c = .more (.start c) := by
  rw [Prelude.step]
  split <;> simp_all [beginsRule, Prelude.start]

section

variable {q : Prelude} {c : Component} {cs : List Component} (hc : beginsRule c.token)
  (h : (⟨[], .empty⟩ : Prelude).run (c :: cs) = some q) (stop : List Char) (ds : List Component)

include hc h

/-- The prelude of a rule begins with its first component. -/
lemma ruleList_none_append_of_run :
    ruleList stop .none (c :: cs ++ ds) = ruleList stop (.rule q) ds := by
  rw [Prelude.run, step_of_beginsRule hc] at h
  rw [← ruleList_append_of_run h, List.cons_append, ruleList]
  split <;> simp_all [beginsRule]

/-- The prelude of a keyframe step begins with its first component. -/
lemma stepList_none_append_of_run :
    stepList stop none (c :: cs ++ ds) = stepList stop (some q) ds := by
  rw [Prelude.run, step_of_beginsRule hc] at h
  rw [← stepList_append_of_run h, List.cons_append, stepList]
  split <;> simp_all [beginsRule]

end

/-! ## Pieces in a prelude -/

/-- The marks that end an item of a prelude. -/
def itemMarks : List Mark :=
  [.comma, .semicolon, .opening .brace, .closing .brace]

namespace Prelude

/-- A component without such a mark goes on with the item. -/
lemma step_eq_push {c : Component} (hcomment : c.token.isComment = false)
    (hmark : ∀ m ∈ itemMarks, c.token.mark? ≠ some m) (p : Prelude) :
    p.step c = .more { p with current := p.current.push c } := by
  rw [step]
  split <;> simp_all [Token.isComment, Token.mark?, itemMarks]

lemma run_eq_pushAll {cs : List Component} (hcomment : ∀ c ∈ cs, c.token.isComment = false)
    (hmark : ∀ c ∈ cs, ∀ m ∈ itemMarks, c.token.mark? ≠ some m) (p : Prelude) :
    p.run cs = some { p with current := p.current.pushAll cs } := by
  induction cs generalizing p with
  | nil => rfl
  | cons c cs ih =>
    rw [run, step_eq_push (hcomment c List.mem_cons_self) (hmark c List.mem_cons_self),
      Excerpt.pushAll_cons]
    exact ih (fun d hd => hcomment d (List.mem_cons_of_mem _ hd))
      (fun d hd => hmark d (List.mem_cons_of_mem _ hd)) _

/-- A piece becomes the item at hand. -/
lemma run_of_piece {s t : List Char} {cs : List Component} (h : ReadsPlainly s t cs)
    (hs : IsPiece itemMarks s) (items : List String) :
    (⟨items, .empty⟩ : Prelude).run cs = some ⟨items, Excerpt.empty.pushAll cs⟩ :=
  run_eq_pushAll h.isComment_eq (fun _ hc _ hm => h.mark?_ne hs hc hm) _

/-- The item that a piece leaves when a delimiter ends it. -/
lemma ended_of_piece {s t : List Char} {cs : List Component} (h : ReadsPlainly s t cs)
    (hne : trim (keptPart s) ≠ []) (items : List String) :
    (⟨items, Excerpt.empty.pushAll cs⟩ : Prelude).ended = trimmed (keptPart s) :: items := by
  rw [ended, h.upToDelimiter_eq, if_neg (by simpa using hne)]
  rfl

end Prelude

/-- The components of a text that is not empty begin with its first token. -/
lemma exists_cons_of_readsPlainly {c : Char} {r t : List Char} {cs : List Component}
    (h : ReadsPlainly (c :: r) t cs) : ∃ d ds, cs = d :: ds ∧ d.token = (readToken c r).1 := by
  have hhead := h.head?_eq
  rw [lexemes, List.head?_cons, Option.map_some] at hhead
  obtain ⟨d, hd, htoken⟩ := Option.map_eq_some_iff.mp hhead
  obtain ⟨ds, rfl⟩ := List.head?_eq_some_iff.mp hd
  exact ⟨d, ds, rfl, htoken⟩

/-- A comma goes on with the next item. -/
lemma exists_reads_comma (t : List Char) :
    ∃ c, Reads [','] t [c] ∧
      ∀ (p : Prelude) (cs : List Component),
        p.run (c :: cs) = (⟨p.ended, .empty⟩ : Prelude).run cs :=
  ⟨.plain ⟨.comma, [','], t⟩, Reads.plain rfl rfl rfl, fun _ _ => rfl⟩

/-- A block that a brace opens ends the prelude of a rule. -/
lemma ruleList_rule_block (stop : List Char) (p : Prelude) {opener : Lexeme}
    (hopener : opener.token = .opening .brace) (content : List Component) (closer : Option Lexeme)
    (ds : List Component) :
    ruleList stop (.rule p) (.block opener content closer :: ds) = do
      let children ← declarationList (stopOf closer) .none content
      let more ← ruleList stop .none ds
      return .style (.rule p.ended.reverse children) :: more := by
  rw [ruleList, Prelude.step, Component.token, Component.first, hopener]
  rfl

/-- The block of a rule ends its prelude. -/
lemma ruleList_rule_braces (stop : List Char) (p : Prelude) (s t : List Char)
    (cs ds : List Component) :
    ruleList stop (.rule p) (.braces s t cs :: ds) = do
      let children ← declarationList ('}' :: t) .none cs
      let more ← ruleList stop .none ds
      return .style (.rule p.ended.reverse children) :: more :=
  ruleList_rule_block stop p rfl cs _ ds

/-- A prelude in front of a block is a rule with the declarations of the block. -/
lemma parse_rule_braces {css : String} {head content : List Char} {c : Component}
    {cs ds : List Component} {p : Prelude} {children : List Style}
    (hcss : css.toList = head ++ ('{' :: content ++ ['}']))
    (hmark : css.toList.head? ≠ some '\uFEFF')
    (hhead : Reads head ('{' :: content ++ ['}']) (c :: cs)) (hc : beginsRule c.token)
    (hp : (⟨[], .empty⟩ : Prelude).run (c :: cs) = some p) (hcontent : Reads content ['}'] ds)
    (hds : declarationList ['}'] .none ds = .ok children) :
    parse css = .ok ⟨[.style (.rule p.ended.reverse children)]⟩ := by
  refine parse_of_reads (c :: cs ++ [.braces content [] ds]) ?_ hmark ?_
  · rw [hcss]
    exact Reads.append (by rwa [List.append_nil]) hcontent.braces
  · rw [ruleList_none_append_of_run hc hp, ruleList_rule_braces, hds, ruleList]
    rfl

/-- The block of a keyframe step ends its prelude. -/
lemma stepList_step_braces (stop : List Char) (p : Prelude) (s t : List Char)
    (cs ds : List Component) :
    stepList stop (some p) (.braces s t cs :: ds) = do
      let children ← declarationList ('}' :: t) .none cs
      let more ← stepList stop none ds
      return .step p.ended.reverse children :: more := by
  rw [stepList]
  rfl

/-! ## Pieces behind an at-rule's name -/

/-- An identifier begins a text if it does without what follows. -/
lemma startsIdent_append_of_startsIdent {s : List Char} (hback : '\\' ∉ s) (h : startsIdent s)
    (t : List Char) : startsIdent (s ++ t) := by
  cases s with
  | nil => exact absurd h (by decide)
  | cons c r =>
    have hc : c ≠ '\\' := fun hc => hback (hc ▸ List.mem_cons_self)
    by_cases hdash : c = '-'
    · subst hdash
      cases r with
      | nil => exact absurd h (by decide)
      | cons d r => exact h
    · rw [startsIdent_cons hdash hc] at h
      rw [List.cons_append, startsIdent_cons hdash hc]
      exact h

/-- Names are read whole in front of a character that can go on with none. -/
structure IsName (name : List Char) : Prop where
  all_isNameChar : name.all isNameChar
  nul_notMem : '\x00' ∉ name
  startsIdent : startsIdent name

lemma IsName.isNameChar {name : List Char} (h : IsName name) : ∀ c ∈ name, Css.isNameChar c :=
  List.all_eq_true.mp h.all_isNameChar

lemma isName_media : IsName "media".toList :=
  ⟨by decide, by decide, by decide⟩

lemma IsName.backslash_notMem {name : List Char} (h : IsName name) : '\\' ∉ name := fun hmem =>
  absurd (h.isNameChar _ hmem) (by decide)

/-- An at-keyword in front of a character that its name cannot go on with. -/
lemma IsName.reads_atKeyword {name t : List Char} (hname : IsName name)
    (ht : t.head?.any (fun c => Css.isNameChar c || c == '\\') = false) :
    Reads ('@' :: name) t [.plain ⟨.atKeyword (String.ofList name), '@' :: name, t⟩] := by
  refine Reads.plain ?_ rfl rfl
  have hstart := startsIdent_append_of_startsIdent hname.backslash_notMem hname.startsIdent t
  have hread := readName_of_isNameChar hname.isNameChar hname.nul_notMem ht
  have htoken : readToken '@' (name ++ t) = atToken (name ++ t) := rfl
  rw [htoken, atToken, if_pos hstart, hread]

/-- The marks that end the prelude of an at-rule. -/
def atRuleMarks : List Mark :=
  [.semicolon, .opening .brace]

lemma ruleList_atRule_append {cs : List Component}
    (hcomment : ∀ c ∈ cs, c.token.isComment = false)
    (hmark : ∀ c ∈ cs, ∀ m ∈ atRuleMarks, c.token.mark? ≠ some m) (stop : List Char)
    (name : String) (e : Excerpt) (ds : List Component) :
    ruleList stop (.atRule name e) (cs ++ ds) = ruleList stop (.atRule name (e.pushAll cs)) ds := by
  induction cs generalizing e with
  | nil => rfl
  | cons c cs ih =>
    have hc := hcomment c List.mem_cons_self
    have hm := hmark c List.mem_cons_self
    rw [List.cons_append, ruleList, Excerpt.pushAll_cons,
      ← ih (fun d hd => hcomment d (List.mem_cons_of_mem _ hd))
        (fun d hd => hmark d (List.mem_cons_of_mem _ hd))]
    split <;> simp_all [Token.isComment, Token.mark?, atRuleMarks]

/-- A word without upper-case letters is its own lower-case form. -/
lemma toLower_ofList {name : List Char} (h : name.all fun c => !c.isUpper) :
    (String.ofList name).toLower = String.ofList name := by
  have hid : name.map Char.toLower = name.map id := by
    refine List.map_congr_left fun c hc => ?_
    have hupper := List.all_eq_true.mp h c hc
    exact Char.toLower_eq_of_not_isUpper (by simpa using hupper)
  rw [← String.toList_inj, String.toLower, String.toList_map, String.toList_ofList, hid,
    List.map_id]

/-- The braces behind the name and the prelude of an at-rule are its block. -/
lemma ruleList_atRule_braces (stop : List Char) (name : String) (e : Excerpt) (s t : List Char)
    (cs ds : List Component) :
    ruleList stop (.atRule name e) (.braces s t cs :: ds) = do
      let x ← atRuleWithBlock name (trimmed e.upToDelimiter) (.braces s t cs)
      let more ← ruleList stop .none ds
      return x :: more := by
  rw [ruleList]
  rfl

/-- **A piece behind an at-rule's name** becomes the prelude of the at-rule. -/
lemma IsName.exists_reads_atRule {name s t : List Char} (hname : IsName name)
    (hs : IsPiece atRuleMarks s)
    (hnext : (s ++ t).head?.any (fun c => Css.isNameChar c || c == '\\') = false) (ht : Stops t) :
    ∃ cs e, Reads ('@' :: name ++ s) t cs ∧ e.upToDelimiter = keptPart s ∧
      ∀ stop ds, ruleList stop .none (cs ++ ds) =
        ruleList stop (.atRule (String.ofList name).toLower e) ds := by
  obtain ⟨cs, hcs⟩ := hs.exists_readsPlainly ht
  refine ⟨_, Excerpt.empty.pushAll cs, (hname.reads_atKeyword hnext).append hcs.reads,
    hcs.upToDelimiter_eq, fun stop ds => ?_⟩
  rw [List.append_assoc, List.singleton_append, ruleList]
  exact ruleList_atRule_append hcs.isComment_eq (fun _ hc _ hm => hcs.mark?_ne hs hc hm) ..

end StyleSplit.Sheet
