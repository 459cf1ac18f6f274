import StyleSplit.Proofs.Css.Enclosed
import StyleSplit.Proofs.Sheet.Yields
set_option autoImplicit false

/-!
# What the readers build

The readers of a sheet build its tree from two kinds of texts: names, which tokens give, and
excerpts of the components between them. So what holds of the tokens and of the excerpts holds of
the texts of the tree, and each node of the tree stands where such a node may stand. The readers are
gone through once here, for any such properties.

## Main definitions

* `StyleSplit.Statement.HasShape` — statements of words and texts with given properties, each node
  in its place.
* `StyleSplit.Sheet.Invariant` — properties that pass from the components of a text to its excerpts.
* `StyleSplit.Sheet.Invariant.ofTokens` — what is known of tokens is known of words, and all other
  texts are trimmed.

## Main results

* `StyleSplit.Sheet.Invariant.declarationList_gives`, `StyleSplit.Sheet.Invariant.stepList_gives`,
  `StyleSplit.Sheet.Invariant.ruleList_gives` — what the readers give.
* `StyleSplit.Sheet.Invariant.parse_hasShape` — the statements of a sheet.
-/

namespace StyleSplit

open Css

/-! ## Shapes -/

/-- A vendor in front of the word `keyframes`: nothing, or a text between hyphens. -/
def IsVendor (s : String) : Prop :=
  s = "" ∨ s.toList.head? = some '-' ∧ s.toList.getLast? = some '-'

section

variable (word : Token → Prop) (text : String → Prop)

/-- A property is an identifier, perhaps behind a star. -/
def IsPropertyOf (s : String) : Prop :=
  ∃ name, word (.ident name) ∧ (s = name ∨ s = "*" ++ name)

/-- The name of an at-rule is an at-keyword in lower case. -/
def IsAtRuleNameOf (s : String) : Prop :=
  ∃ keyword, word (.atKeyword keyword) ∧ s = keyword.toLower

/-- **Lines** — a block holds declarations and comments. -/
def Style.IsLine : Style → Prop
  | .comment s => word (.comment s)
  | .declaration property value => IsPropertyOf word property ∧ text value
  | .rule .. | .step .. | .atRule .. => False

/-- **Entries** — a rule list holds rules, comments and at-rules that are kept verbatim. An at-rule
with a block is neither `@media` nor one of keyframes. -/
def Style.IsEntry : Style → Prop
  | .comment s => word (.comment s)
  | .rule selectors children =>
    (∀ s ∈ selectors, s ≠ "" ∧ text s) ∧ ∀ line ∈ children, line.IsLine word text
  | .atRule name prelude block =>
    IsAtRuleNameOf word name ∧ text prelude ∧
      (block.isSome → name ≠ "media" ∧ ∀ vendor, IsVendor vendor → name ≠ vendor ++ "keyframes")
  | .declaration .. | .step .. => False

/-- **Steps** — a keyframes block holds steps and comments. -/
def Style.IsStepEntry : Style → Prop
  | .comment s => word (.comment s)
  | .step values children =>
    (∀ s ∈ values, s ≠ "" ∧ text s) ∧ ∀ line ∈ children, line.IsLine word text
  | .declaration .. | .rule .. | .atRule .. => False

/-- A keyframes block has a vendor, a name and steps. -/
structure Keyframes.HasShape (k : Keyframes) : Prop where
  isVendor : IsVendor k.vendor
  isAtRuleName : IsAtRuleNameOf word (k.vendor ++ "keyframes")
  name : text k.name
  steps : ∀ s ∈ k.steps, s.IsStepEntry word text

/-- **Shapes** — statements in which each node stands in its place, at any depth. Comments,
properties and names of at-rules are given by tokens of which `word` holds, and `text` holds of all
other texts. -/
inductive Statement.HasShape : Statement → Prop
  | style {s : Style} (h : s.IsEntry word text) : HasShape (.style s)
  | media {condition : String} {body : List Statement} (hcondition : text condition)
      (hbody : ∀ s ∈ body, HasShape s) : HasShape (.media condition body)
  | keyframes {k : Keyframes} (h : k.HasShape word text) : HasShape (.keyframes k)

end

end StyleSplit

namespace StyleSplit.Sheet

open Css

/-! ## Vendors -/

/-- The vendor of a name is what stands in front of the word. -/
lemma vendor?_eq_some_iff {name vendor : String} :
    vendor? name = some vendor ↔ name = vendor ++ "keyframes" ∧ IsVendor vendor := by
  have hvendor : ∀ head : List Char, IsVendor (String.ofList head) ↔
      head = [] ∨ head.head? = some '-' ∧ head.getLast? = some '-' := by
    intro head
    rw [IsVendor, String.toList_ofList, ← String.toList_inj, String.toList_ofList]
    rfl
  simp only [vendor?]
  constructor
  · intro h
    split_ifs at h with hname
    obtain rfl := Option.some.inj h
    refine ⟨?_, (hvendor _).mpr hname.2⟩
    rw [← String.toList_inj, String.toList_append, String.toList_ofList, hname.1]
  · rintro ⟨rfl, h⟩
    have htake : ((vendor ++ "keyframes").toList.take
        ((vendor ++ "keyframes").toList.length - "keyframes".toList.length)) = vendor.toList := by
      rw [String.toList_append, List.length_append, Nat.add_sub_cancel, List.take_left]
    rw [← String.ofList_toList (s := vendor), hvendor, ← htake] at h
    rw [if_pos ⟨by rw [htake, String.toList_append], h⟩, htake, String.ofList_toList]

lemma ne_append_of_vendor?_eq_none {name : String} (h : vendor? name = none) :
    ∀ vendor, IsVendor vendor → name ≠ vendor ++ "keyframes" := by
  intro vendor hvendor hname
  rw [vendor?_eq_some_iff.mpr ⟨hname, hvendor⟩] at h
  exact absurd h (by simp)

/-! ## What a reader gives -/

/-- **Giving** — if a reader gives a list at all, the property holds of its elements. -/
def Gives {α : Type} (P : α → Prop) (r : Except Fault (List α)) : Prop :=
  ∀ xs, r = .ok xs → ∀ x ∈ xs, P x

namespace Gives

variable {α β : Type} {P : α → Prop} {r : Except Fault (List α)}

lemma nil : Gives P (.ok []) := by
  rintro _ ⟨⟩ x hx
  exact absurd hx List.not_mem_nil

lemma error (f : Fault) : Gives P (.error f) :=
  fun _ h => nomatch h

/-- One more element in front. -/
lemma map_cons {x : α} (hx : P x) (h : Gives P r) : Gives P (r.map (x :: ·)) := by
  cases r with
  | error f => exact error f
  | ok more =>
    rintro _ ⟨⟩
    exact List.forall_mem_cons.mpr ⟨hx, h more rfl⟩

/-- One more element in front, from a reader of its own. -/
lemma bind_cons {first : Except Fault β} {f : β → α} (hfirst : ∀ y, first = .ok y → P (f y))
    (h : Gives P r) :
    Gives P (do
      let y ← first
      let more ← r
      return f y :: more) := by
  cases first with
  | error f => exact error f
  | ok y =>
    have hcons := h.map_cons (hfirst y rfl)
    cases r with
    | error f => exact error f
    | ok more => exact hcons

end Gives

/-! ## Invariants -/

/-- **Invariants** — what is known of the components that a reader is given, and of an excerpt in
front of the components that follow it; it tells `word` of each token and `text` of each text that
an excerpt leaves. -/
structure Invariant (word : Token → Prop) (text : String → Prop) where
  given : List Component → Prop
  made : Excerpt → List Component → Prop
  tail : ∀ {c cs}, given (c :: cs) → given cs
  content : ∀ {opener content closer cs}, given (.block opener content closer :: cs) → given content
  token : ∀ {c cs}, given (c :: cs) → word c.token
  empty : ∀ {cs}, given cs → made .empty cs
  push : ∀ {e c cs}, given (c :: cs) → made e (c :: cs) → c.token.isComment = false →
    made (e.push c) cs
  skipComment : ∀ {e c cs}, given (c :: cs) → made e (c :: cs) → made e.skipComment cs
  toEnd : ∀ {e cs}, made e cs → text (trimmed e.toEnd)
  upToDelimiter : ∀ {e cs}, made e cs → text (trimmed e.upToDelimiter)

namespace Invariant

variable {word : Token → Prop} {text : String → Prop} (I : Invariant word text)
  {c : Component} {cs : List Component}

/-- What is known of what is at hand of a declaration. -/
def OfDeclaration (cs : List Component) : InDeclaration → Prop
  | .none | .star _ => True
  | .property property _ => IsPropertyOf word property
  | .value property e => IsPropertyOf word property ∧ I.made e cs

/-- What is known of a prelude: its items are not empty. -/
structure OfPrelude (cs : List Component) (p : Prelude) : Prop where
  items : ∀ s ∈ p.items, s ≠ "" ∧ text s
  current : I.made p.current cs

/-- What is known of what is at hand of a statement. -/
def OfStatement (cs : List Component) : InStatement → Prop
  | .none => True
  | .rule p => I.OfPrelude cs p
  | .atRule name e => IsAtRuleNameOf word name ∧ I.made e cs

variable {I}

/-- A token that is known. -/
lemma word_of_token_eq {t : Token} (h : I.given (c :: cs)) (ht : c.token = t) : word t :=
  ht ▸ I.token h

/-! ## Declarations -/

/-- **Declaration lists** — declarations and comments. -/
lemma declarationList_gives (stop : List Char) {pending : InDeclaration} (hcs : I.given cs)
    (hp : I.OfDeclaration cs pending) :
    Gives (Style.IsLine word text) (declarationList stop pending cs) := by
  fun_induction declarationList stop pending cs with
  -- the end of the list
  | case1 => exact .nil
  | case2 property e =>
    have hline : (Style.declaration property (trimmed e.toEnd)).IsLine word text :=
      ⟨hp.1, I.toEnd hp.2⟩
    exact .map_cons hline .nil
  | case3 => exact .error _
  | case4 => exact .error _
  -- nothing at hand
  | case5 c cs raw htoken ih => exact ih (I.tail hcs) trivial
  | case6 c cs htoken ih => exact ih (I.tail hcs) trivial
  | case7 c cs s htoken ih =>
    exact .map_cons (word_of_token_eq hcs htoken) (ih (I.tail hcs) trivial)
  | case8 c cs name htoken ih =>
    exact ih (I.tail hcs) ⟨name, word_of_token_eq hcs htoken, .inl rfl⟩
  | case9 c cs htoken ih => exact ih (I.tail hcs) trivial
  | case10 => exact .error _
  -- a star
  | case11 c cs rest raw htoken ih => exact ih (I.tail hcs) trivial
  | case12 c cs rest s htoken ih => exact ih (I.tail hcs) trivial
  | case13 c cs rest name htoken ih =>
    exact ih (I.tail hcs) ⟨name, word_of_token_eq hcs htoken, .inr rfl⟩
  | case14 => exact .error _
  -- a property
  | case15 c cs name rest raw htoken ih => exact ih (I.tail hcs) hp
  | case16 c cs name rest s htoken ih => exact ih (I.tail hcs) hp
  | case17 c cs name rest htoken ih => exact ih (I.tail hcs) ⟨hp, I.empty (I.tail hcs)⟩
  | case18 => exact .error _
  -- a part of a value
  | case19 c cs property e s htoken ih =>
    exact ih (I.tail hcs) ⟨hp.1, I.skipComment hcs hp.2⟩
  | case20 c cs property e htoken ih =>
    exact .map_cons ⟨hp.1, I.toEnd hp.2⟩ (ih (I.tail hcs) trivial)
  | case21 c cs property e hcomment hsemicolon ih =>
    exact ih (I.tail hcs) ⟨hp.1, I.push hcs hp.2 (Token.isComment_eq_false hcomment)⟩

/-- The declarations of a block. -/
lemma blockDeclarations_gives (h : I.given (c :: cs)) :
    Gives (Style.IsLine word text) (blockDeclarations c) := by
  cases c with
  | plain => exact .nil
  | block opener content closer => exact declarationList_gives _ (I.content h) trivial

/-! ## Preludes -/

variable {p : Prelude}

/-- The items when one of them ends. -/
lemma OfPrelude.ended (h : I.OfPrelude cs p) : ∀ s ∈ p.ended, s ≠ "" ∧ text s := by
  rw [Prelude.ended]
  split_ifs with hempty
  · exact h.items
  · refine List.forall_mem_cons.mpr ⟨⟨fun hnil => hempty ?_, I.upToDelimiter h.current⟩, h.items⟩
    rw [← String.toList_inj, String.toList_ofList] at hnil
    exact List.isEmpty_iff.mpr hnil

/-- A prelude that begins with a component. -/
lemma ofPrelude_start (hcs : I.given (c :: cs)) (hcomment : c.token.isComment = false) :
    I.OfPrelude cs (.start c) :=
  ⟨by simp [Prelude.start], I.push hcs (I.empty hcs) hcomment⟩

/-- **One more component** of a prelude. -/
lemma OfPrelude.step (h : I.OfPrelude (c :: cs) p) (hcs : I.given (c :: cs)) :
    (∀ q, p.step c = .more q → I.OfPrelude cs q) ∧
      ∀ items, p.step c = .block items → ∀ s ∈ items, s ≠ "" ∧ text s := by
  unfold Prelude.step
  split
  · refine ⟨fun q hq => ?_, fun _ h => nomatch h⟩
    exact Prelude.Step.more.inj hq ▸ ⟨h.items, I.skipComment hcs h.current⟩
  · refine ⟨fun q hq => ?_, fun _ h => nomatch h⟩
    exact Prelude.Step.more.inj hq ▸ ⟨h.ended, I.empty (I.tail hcs)⟩
  · refine ⟨fun _ h => (nomatch h), fun items hitems s hs => ?_⟩
    rw [← Prelude.Step.block.inj hitems, List.mem_reverse] at hs
    exact h.ended s hs
  · exact ⟨fun _ h => (nomatch h), fun _ h => (nomatch h)⟩
  · exact ⟨fun _ h => (nomatch h), fun _ h => (nomatch h)⟩
  · rename_i hcomment _ _ _ _
    refine ⟨fun q hq => ?_, fun _ h => (nomatch h)⟩
    rw [← Prelude.Step.more.inj hq]
    exact ⟨h.items, I.push hcs h.current (Token.isComment_eq_false hcomment)⟩

/-! ## Keyframes -/

/-- **Keyframe steps** — steps and comments. -/
lemma stepList_gives (stop : List Char) {pending : Option Prelude} (hcs : I.given cs)
    (hp : ∀ p ∈ pending, I.OfPrelude cs p) :
    Gives (Style.IsStepEntry word text) (stepList stop pending cs) := by
  fun_induction stepList stop pending cs with
  -- the end of the list
  | case1 => exact .nil
  | case2 => exact .error _
  -- nothing at hand
  | case3 c cs raw htoken ih => exact ih (I.tail hcs) (by simp)
  | case4 c cs htoken ih => exact ih (I.tail hcs) (by simp)
  | case5 c cs s htoken ih =>
    exact .map_cons (word_of_token_eq hcs htoken) (ih (I.tail hcs) (by simp))
  | case6 => exact .error _
  | case7 c cs _ _ hcomment _ ih =>
    refine ih (I.tail hcs) fun p hp => ?_
    rw [← Option.some.inj hp]
    exact ofPrelude_start hcs (Token.isComment_eq_false hcomment)
  -- values
  | case8 c cs p q hstep ih =>
    have hq := ((hp p rfl).step hcs).1 q hstep
    exact ih (I.tail hcs) fun _ h => Option.some.inj h ▸ hq
  | case9 => exact .error _
  | case10 c cs p values hstep ih =>
    have hvalues := ((hp p rfl).step hcs).2 values hstep
    refine .bind_cons (fun children hchildren => ?_) (ih (I.tail hcs) (by simp))
    exact ⟨hvalues, blockDeclarations_gives hcs children hchildren⟩

/-! ## Statements -/

/-- An at-rule without a block. -/
lemma hasShape_atRule {name prelude : String} (hname : IsAtRuleNameOf word name)
    (hprelude : text prelude) : (Statement.style (.atRule name prelude none)).HasShape word text :=
  .style ⟨hname, hprelude, fun h => absurd h (by simp)⟩

/-- **Rule lists** — each statement has its shape. -/
lemma ruleList_gives (stop : List Char) (pending : InStatement) (cs : List Component) :
    I.given cs → I.OfStatement cs pending →
      Gives (Statement.HasShape word text) (ruleList stop pending cs) := by
  -- the two readers call each other, so that what the second one gives is shown along with it
  refine ruleList.induct
    (fun stop pending cs => I.given cs → I.OfStatement cs pending →
      Gives (Statement.HasShape word text) (ruleList stop pending cs))
    (fun name condition c => ∀ cs, I.given (c :: cs) → IsAtRuleNameOf word name →
      text condition → ∀ statement, atRuleWithBlock name condition c = .ok statement →
        statement.HasShape word text)
    ?plain ?media ?keyframes ?verbatim ?nil ?nilInRule ?nilInAtRule ?blank ?cdo ?cdc ?semicolon
    ?comment ?atKeyword ?brace ?closing ?rule ?moreInRule ?faultInRule ?blockInRule ?blockInAtRule
    ?semicolonInAtRule ?commentInAtRule ?moreInAtRule stop pending cs
  -- at-rules with a block
  case plain =>
    intro name condition l cs hcs hname hcondition statement h
    rw [← Except.ok.inj h]
    exact hasShape_atRule hname hcondition
  case media =>
    intro condition opener content closer ih cs hcs hname hcondition statement h
    rw [atRuleWithBlock, if_pos rfl] at h
    cases hbody : ruleList (stopOf closer) .none content with
    | error f => rw [hbody] at h; exact nomatch h
    | ok body =>
      rw [hbody] at h
      obtain rfl : Statement.media condition body = statement := Except.ok.inj h
      exact .media hcondition (ih (I.content hcs) trivial body hbody)
  case keyframes =>
    intro name condition opener content closer hmedia vendor hvendor cs hcs hname hcondition
      statement h
    rw [atRuleWithBlock, if_neg hmedia, hvendor] at h
    cases hsteps : stepList (stopOf closer) none content with
    | error f => rw [hsteps] at h; exact nomatch h
    | ok steps =>
      rw [hsteps] at h
      obtain rfl : Statement.keyframes ⟨vendor, condition, steps⟩ = statement := Except.ok.inj h
      obtain ⟨rfl, hisVendor⟩ := vendor?_eq_some_iff.mp hvendor
      have hgives : Gives (Style.IsStepEntry word text) (stepList (stopOf closer) none content) :=
        stepList_gives _ (I.content hcs) (by simp)
      exact .keyframes ⟨hisVendor, hname, hcondition, hgives steps hsteps⟩
  case verbatim =>
    intro name condition opener content closer hmedia hvendor cs hcs hname hcondition statement h
    rw [atRuleWithBlock, if_neg hmedia, hvendor] at h
    rw [← Except.ok.inj h]
    exact .style ⟨hname, hcondition, fun _ => ⟨hmedia, ne_append_of_vendor?_eq_none hvendor⟩⟩
  -- the end of the list
  case nil =>
    intro stop hcs hp
    exact .nil
  case nilInRule =>
    intro stop p hcs hp
    exact .error _
  case nilInAtRule =>
    intro stop name e hcs hp
    exact .map_cons (hasShape_atRule hp.1 (I.toEnd hp.2)) .nil
  -- nothing at hand
  case blank =>
    intro stop c cs raw htoken ih hcs hp
    simpa only [ruleList, htoken] using ih (I.tail hcs) trivial
  case cdo | cdc | semicolon =>
    intro stop c cs htoken ih hcs hp
    simpa only [ruleList, htoken] using ih (I.tail hcs) trivial
  case comment =>
    intro stop c cs s htoken ih hcs hp
    simp only [ruleList, htoken]
    exact .map_cons (.style (word_of_token_eq hcs htoken)) (ih (I.tail hcs) trivial)
  case atKeyword =>
    intro stop c cs name htoken ih hcs hp
    have hname : IsAtRuleNameOf word name.toLower := ⟨name, word_of_token_eq hcs htoken, rfl⟩
    simpa only [ruleList, htoken] using ih (I.tail hcs) ⟨hname, I.empty (I.tail hcs)⟩
  case brace | closing =>
    intro stop c cs htoken hcs hp
    simp only [ruleList, htoken]
    exact .error _
  case rule =>
    intro stop c cs hblank hcdo hcdc hsemicolon hcomment hkeyword hbrace hclosing ih hcs hp
    have hstart := ofPrelude_start hcs (Token.isComment_eq_false hcomment)
    simpa only [ruleList, *] using ih (I.tail hcs) hstart
  -- the selectors of a rule
  case moreInRule =>
    intro stop c cs p q hstep ih hcs hp
    simpa only [ruleList, hstep] using ih (I.tail hcs) ((hp.step hcs).1 q hstep)
  case faultInRule =>
    intro stop c cs p f hstep hcs hp
    simp only [ruleList, hstep]
    exact .error _
  case blockInRule =>
    intro stop c cs p selectors hstep ih hcs hp
    simp only [ruleList, hstep]
    refine .bind_cons (fun children hchildren => ?_) (ih (I.tail hcs) trivial)
    exact .style ⟨(hp.step hcs).2 selectors hstep, blockDeclarations_gives hcs children hchildren⟩
  -- the prelude of an at-rule
  case blockInAtRule =>
    intro stop c cs name e htoken hblock ih hcs hp
    simp only [ruleList, htoken]
    exact .bind_cons (hblock cs hcs hp.1 (I.upToDelimiter hp.2)) (ih (I.tail hcs) trivial)
  case semicolonInAtRule =>
    intro stop c cs name e htoken ih hcs hp
    simp only [ruleList, htoken]
    exact .map_cons (hasShape_atRule hp.1 (I.upToDelimiter hp.2)) (ih (I.tail hcs) trivial)
  case commentInAtRule =>
    intro stop c cs name e s htoken ih hcs hp
    simpa only [ruleList, htoken] using ih (I.tail hcs) ⟨hp.1, I.skipComment hcs hp.2⟩
  case moreInAtRule =>
    intro stop c cs name e hbrace hsemicolon hcomment ih hcs hp
    have hpush := I.push hcs hp.2 (Token.isComment_eq_false hcomment)
    simpa only [ruleList, *] using ih (I.tail hcs) ⟨hp.1, hpush⟩

/-! ## Sheets -/

/-- **Sheets** — the statements of a sheet have their shape, if the components of its text are as
the invariant asks. -/
lemma parse_hasShape {css : String} {sheet : Sheet}
    (hcss : I.given (components (lexemes (withoutMarks css.toList))))
    (hparse : Sheet.parse css = .ok sheet) :
    ∀ s ∈ sheet.statements, s.HasShape word text :=
  ruleList_gives [] .none _ hcss trivial _ (read_of_parse hparse)

/-! ## Words and trimmed texts -/

/-- What is left of a text has no blanks at its ends. -/
lemma isTrimmed_trim (s : List Char) : IsTrimmed (trim s) := by
  have hends : endsBlank (trim s) = false := by
    rw [endsBlank, trim, trimEnd, List.getLast?_reverse]
    have hnot := List.head?_dropWhile_not isBlank (s.dropWhile isBlank).reverse
    cases hhead : ((s.dropWhile isBlank).reverse.dropWhile isBlank).head? with
    | none => rfl
    | some c => simpa [hhead] using hnot
  refine ⟨?_, hends⟩
  have hprefix : trim s <+: s.dropWhile isBlank := by
    rw [trim, trimEnd, ← List.reverse_suffix, List.reverse_reverse]
    exact List.dropWhile_suffix _
  have hnot := List.head?_dropWhile_not isBlank s
  cases hs : trim s with
  | nil => rfl
  | cons c r =>
    rw [hs] at hprefix
    obtain ⟨t, ht⟩ := hprefix
    rw [← ht] at hnot
    simpa using hnot

/-- **Tokens and excerpts** — the words of a sheet are given by tokens of its text, and its other
texts are trimmed. -/
def ofTokens (word : Token → Prop) : Invariant word fun s => IsTrimmed s.toList where
  given := fun cs => ∀ l ∈ componentsLexemes cs, word l.token
  made := fun _ _ => True
  tail := fun h l hl => h l (List.mem_append_right _ hl)
  content := fun h l hl => h l (mem_componentsLexemes_of_mem_content hl)
  token := fun h => h _ (first_mem_componentsLexemes _ _)
  empty := fun _ => trivial
  push := fun _ _ _ => trivial
  skipComment := fun _ _ => trivial
  toEnd := fun _ => by
    rw [trimmed, String.toList_ofList]
    exact isTrimmed_trim _
  upToDelimiter := fun _ => by
    rw [trimmed, String.toList_ofList]
    exact isTrimmed_trim _

/-- **Words of a sheet** — what holds of the tokens of a text holds of the words of its sheet. -/
lemma parse_hasShape_of_tokens {word : Token → Prop} {css : String} {sheet : Sheet}
    (hword : ∀ l ∈ lexemes (withoutMarks css.toList), word l.token)
    (hparse : Sheet.parse css = .ok sheet) :
    ∀ s ∈ sheet.statements, s.HasShape word fun s => IsTrimmed s.toList := by
  refine parse_hasShape (I := ofTokens word) (fun l hl => hword l ?_) hparse
  rwa [componentsLexemes_components] at hl

end Invariant

end StyleSplit.Sheet
