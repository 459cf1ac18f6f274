import StyleSplit.Proofs.Sheet.Shape
set_option autoImplicit false

/-!
# Where an error is

A reader that fails says what is unread, and that is always an end part of the text. So the location
of an error is that of a place in the text, and it moves along with the text: line feeds in front
change what a text is read as in nothing but the lines of its errors.

## Main definitions

* `StyleSplit.Sheet.LiesIn` — components of a part of a text.
* `StyleSplit.Sheet.FailsIn` — a reader whose faults leave an end part of a text unread.

## Main results

* `StyleSplit.Sheet.declarationList_failsIn`, `StyleSplit.Sheet.stepList_failsIn`,
  `StyleSplit.Sheet.ruleList_failsIn` — the faults of the readers.
* `StyleSplit.Sheet.rest_suffix_of_read_eq_error` — the faults of a text.
* `StyleSplit.Sheet.read_append_of_isSpace` — blanks in front of a text.
* `StyleSplit.Location.ofRest_replicate_newline` — line feeds in front of a text.
* `StyleSplit.Sheet.parse_behind_newlines` — errors move along with their text.
-/

namespace StyleSplit

/-! ## Locations -/

namespace Location

/-- A location further down leads further down. -/
lemma after_line_add (k : Nat) (l : Location) (s : List Char) :
    after ⟨l.line + k, l.column⟩ s = ⟨(l.after s).line + k, (l.after s).column⟩ := by
  fun_induction after l s with
  | case1 l => rfl
  | case2 l r ih =>
    rw [after, ← ih, Nat.add_right_comm]
  | case3 l c r hreturn ih =>
    rw [after, ← ih]
    · split <;> simp [Nat.add_right_comm]
    · exact hreturn

/-- **Line feeds in front** of a text move each place in it down by their number. -/
lemma ofRest_replicate_newline (k : Nat) {s rest : List Char} (h : rest <:+ s) :
    ofRest (List.replicate k '\n' ++ s) rest =
      ⟨(ofRest s rest).line + k, (ofRest s rest).column⟩ := by
  have hlength := h.length_le
  have htake : (List.replicate k '\n' ++ s).take
      ((List.replicate k '\n' ++ s).length - rest.length) =
        List.replicate k '\n' ++ s.take (s.length - rest.length) := by
    rw [List.length_append, List.length_replicate, Nat.add_sub_assoc hlength, List.take_append,
      List.length_replicate, Nat.add_sub_cancel_left, List.take_of_length_le (by simp)]
  rw [ofRest, htake, start, after_replicate_newline, ofRest]
  exact after_line_add k start _

end Location

namespace Sheet

open Css

/-! ## Lexemes in a text -/

/-- **Components in a text** — each of their lexemes begins an end part of the text. -/
def LiesIn (s : List Char) (cs : List Component) : Prop :=
  ∀ l ∈ componentsLexemes cs, l.here <:+ s

lemma here_suffix_of_mem_lexemes {s : List Char} : ∀ l ∈ lexemes s, l.here <:+ s := by
  fun_induction lexemes s with
  | case1 => exact fun _ h => absurd h List.not_mem_nil
  | case2 c r ih =>
    have hhere := Lexeme.here_first c r
    refine List.forall_mem_cons.mpr ⟨hhere ▸ List.suffix_refl _, fun l hl => (ih l hl).trans ?_⟩
    exact hhere ▸ List.suffix_append _ _

lemma liesIn_components (s : List Char) : LiesIn s (components (lexemes s)) := by
  rw [LiesIn, componentsLexemes_components]
  exact here_suffix_of_mem_lexemes

namespace LiesIn

variable {s : List Char} {c : Component} {cs : List Component}

lemma tail (h : LiesIn s (c :: cs)) : LiesIn s cs :=
  fun l hl => h l (List.mem_append_right _ hl)

lemma content {opener : Lexeme} {content : List Component} {closer : Option Lexeme}
    (h : LiesIn s (.block opener content closer :: cs)) : LiesIn s content :=
  fun l hl => h l (mem_componentsLexemes_of_mem_content hl)

/-- What follows the first lexeme is an end part of the text. -/
lemma afterFirst_suffix (h : LiesIn s (c :: cs)) : c.afterFirst <:+ s :=
  (List.suffix_append _ _).trans (h c.first (first_mem_componentsLexemes c cs))

/-- The content of a block ends at an end part of the text. -/
lemma stopOf_suffix {opener : Lexeme} {content : List Component} {closer : Option Lexeme}
    (h : LiesIn s (.block opener content closer :: cs)) : stopOf closer <:+ s := by
  cases closer with
  | none => exact List.nil_suffix
  | some l => exact h l (by simp [componentsLexemes, Component.lexemes])

end LiesIn

/-! ## Faults in a text -/

/-- **Failing in a text** — if a reader fails, what it leaves unread is an end part of the text. -/
def FailsIn {α : Type} (s : List Char) (r : Except Fault α) : Prop :=
  ∀ f, r = .error f → f.rest <:+ s

namespace FailsIn

variable {α β : Type} {s : List Char} {r : Except Fault α}

lemma ok (x : α) : FailsIn s (.ok x : Except Fault α) :=
  fun _ h => nomatch h

lemma error {f : Fault} (h : f.rest <:+ s) : FailsIn s (.error f : Except Fault α) := by
  rintro _ ⟨⟩
  exact h

lemma map (f : α → β) (h : FailsIn s r) : FailsIn s (r.map f) := by
  cases r with
  | error fault => exact error (h fault rfl)
  | ok x => exact ok (f x)

/-- One reader after the other. -/
lemma bind {next : α → Except Fault β} (h : FailsIn s r) (hnext : ∀ x, FailsIn s (next x)) :
    FailsIn s (r >>= next) := by
  cases r with
  | error fault => exact error (h fault rfl)
  | ok x => exact hnext x

end FailsIn

/-- What is at hand of a declaration is behind a place in the text. -/
def InDeclaration.LiesIn (s : List Char) : InDeclaration → Prop
  | .none | .value .. => True
  | .star rest | .property _ rest => rest <:+ s

variable {s stop : List Char} {cs : List Component}

/-- **Declaration lists** fail at a component, at what is at hand or at the end. -/
lemma declarationList_failsIn (hstop : stop <:+ s) {pending : InDeclaration} (hcs : LiesIn s cs)
    (hp : pending.LiesIn s) : FailsIn s (declarationList stop pending cs) := by
  fun_induction declarationList stop pending cs with
  -- the end of the list
  | case1 => exact .ok _
  | case2 => exact .ok _
  | case3 => exact .error hstop
  | case4 => exact .error hstop
  -- nothing at hand
  | case5 c cs raw htoken ih => exact ih hcs.tail trivial
  | case6 c cs htoken ih => exact ih hcs.tail trivial
  | case7 c cs text htoken ih => exact (ih hcs.tail trivial).map _
  | case8 c cs name htoken ih => exact ih hcs.tail hcs.afterFirst_suffix
  | case9 c cs htoken ih => exact ih hcs.tail hcs.afterFirst_suffix
  | case10 => exact .error hcs.afterFirst_suffix
  -- a star
  | case11 c cs rest raw htoken ih => exact ih hcs.tail hp
  | case12 c cs rest text htoken ih => exact ih hcs.tail hp
  | case13 c cs rest name htoken ih => exact ih hcs.tail hcs.afterFirst_suffix
  | case14 => exact .error hp
  -- a property
  | case15 c cs name rest raw htoken ih => exact ih hcs.tail hp
  | case16 c cs name rest text htoken ih => exact ih hcs.tail hp
  | case17 c cs name rest htoken ih => exact ih hcs.tail trivial
  | case18 => exact .error hp
  -- a part of a value
  | case19 c cs property e text htoken ih => exact ih hcs.tail trivial
  | case20 c cs property e htoken ih => exact (ih hcs.tail trivial).map _
  | case21 c cs property e hcomment hsemicolon ih => exact ih hcs.tail trivial

/-- The declarations of a block. -/
lemma blockDeclarations_failsIn {c : Component} (hcs : LiesIn s (c :: cs)) :
    FailsIn s (blockDeclarations c) := by
  cases c with
  | plain => exact .ok _
  | block opener content closer =>
    exact declarationList_failsIn hcs.stopOf_suffix hcs.content trivial

/-- A prelude fails at the component that it is given. -/
lemma Prelude.rest_eq_of_step_eq_fault {p : Prelude} {c : Component} {f : Fault}
    (h : p.step c = .fault f) : f.rest = c.afterFirst := by
  unfold step at h
  split at h
  all_goals
    cases h
    try rfl

/-- **Keyframe steps** fail at a component, in a block or at the end. -/
lemma stepList_failsIn (hstop : stop <:+ s) (pending : Option Prelude) (hcs : LiesIn s cs) :
    FailsIn s (stepList stop pending cs) := by
  fun_induction stepList stop pending cs with
  -- the end of the list
  | case1 => exact .ok _
  | case2 => exact .error hstop
  -- nothing at hand
  | case3 c cs raw htoken ih => exact ih hcs.tail
  | case4 c cs htoken ih => exact ih hcs.tail
  | case5 c cs text htoken ih => exact (ih hcs.tail).map _
  | case6 => exact .error hcs.afterFirst_suffix
  | case7 c cs _ _ _ _ ih => exact ih hcs.tail
  -- values
  | case8 c cs p q hstep ih => exact ih hcs.tail
  | case9 c cs p f hstep =>
    exact .error (Prelude.rest_eq_of_step_eq_fault hstep ▸ hcs.afterFirst_suffix)
  | case10 c cs p values hstep ih =>
    exact (blockDeclarations_failsIn hcs).bind fun _ => (ih hcs.tail).bind fun _ => .ok _

/-- **Rule lists** fail at a component, in a block or at the end. -/
lemma ruleList_failsIn (stop : List Char) (pending : InStatement) (cs : List Component) :
    stop <:+ s → LiesIn s cs → FailsIn s (ruleList stop pending cs) := by
  refine ruleList.induct
    (fun stop pending cs => stop <:+ s → LiesIn s cs → FailsIn s (ruleList stop pending cs))
    (fun name condition c =>
      ∀ cs, LiesIn s (c :: cs) → FailsIn s (atRuleWithBlock name condition c))
    ?plain ?media ?keyframes ?verbatim ?nil ?nilInRule ?nilInAtRule ?blank ?cdo ?cdc ?semicolon
    ?comment ?atKeyword ?brace ?closing ?rule ?moreInRule ?faultInRule ?blockInRule ?blockInAtRule
    ?semicolonInAtRule ?commentInAtRule ?moreInAtRule stop pending cs
  -- at-rules with a block
  case plain =>
    intro name condition l cs hcs
    exact .ok _
  case media =>
    intro condition opener content closer ih cs hcs
    rw [atRuleWithBlock, if_pos rfl]
    exact (ih hcs.stopOf_suffix hcs.content).map _
  case keyframes =>
    intro name condition opener content closer hmedia vendor hvendor cs hcs
    rw [atRuleWithBlock, if_neg hmedia, hvendor]
    exact (stepList_failsIn hcs.stopOf_suffix none hcs.content).map _
  case verbatim =>
    intro name condition opener content closer hmedia hvendor cs hcs
    rw [atRuleWithBlock, if_neg hmedia, hvendor]
    exact .ok _
  -- the end of the list
  case nil | nilInAtRule =>
    intros
    exact .ok _
  case nilInRule =>
    intro stop p hstop hcs
    exact .error hstop
  -- nothing at hand
  case blank =>
    intro stop c cs raw htoken ih hstop hcs
    simpa only [ruleList, htoken] using ih hstop hcs.tail
  case cdo | cdc | semicolon =>
    intro stop c cs htoken ih hstop hcs
    simpa only [ruleList, htoken] using ih hstop hcs.tail
  case comment =>
    intro stop c cs text htoken ih hstop hcs
    simpa only [ruleList, htoken] using (ih hstop hcs.tail).map _
  case atKeyword =>
    intro stop c cs name htoken ih hstop hcs
    simpa only [ruleList, htoken] using ih hstop hcs.tail
  case brace | closing =>
    intro stop c cs htoken hstop hcs
    simp only [ruleList, htoken]
    exact .error hcs.afterFirst_suffix
  case rule =>
    intro stop c cs hblank hcdo hcdc hsemicolon hcomment hkeyword hbrace hclosing ih hstop hcs
    simpa only [ruleList, *] using ih hstop hcs.tail
  -- the selectors of a rule
  case moreInRule =>
    intro stop c cs p q hstep ih hstop hcs
    simpa only [ruleList, hstep] using ih hstop hcs.tail
  case faultInRule =>
    intro stop c cs p f hstep hstop hcs
    simp only [ruleList, hstep]
    exact .error (Prelude.rest_eq_of_step_eq_fault hstep ▸ hcs.afterFirst_suffix)
  case blockInRule =>
    intro stop c cs p selectors hstep ih hstop hcs
    simp only [ruleList, hstep]
    exact (blockDeclarations_failsIn hcs).bind fun _ => (ih hstop hcs.tail).bind fun _ => .ok _
  -- the prelude of an at-rule
  case blockInAtRule =>
    intro stop c cs name e htoken hblock ih hstop hcs
    simp only [ruleList, htoken]
    exact (hblock cs hcs).bind fun _ => (ih hstop hcs.tail).bind fun _ => .ok _
  case semicolonInAtRule =>
    intro stop c cs name e htoken ih hstop hcs
    simpa only [ruleList, htoken] using (ih hstop hcs.tail).map _
  case commentInAtRule =>
    intro stop c cs name e text htoken ih hstop hcs
    simpa only [ruleList, htoken] using ih hstop hcs.tail
  case moreInAtRule =>
    intro stop c cs name e hbrace hsemicolon hcomment ih hstop hcs
    simpa only [ruleList, *] using ih hstop hcs.tail

/-- **Faults of a text** leave an end part of it unread. -/
lemma rest_suffix_of_read_eq_error {f : Fault} (h : read s = .error f) : f.rest <:+ s :=
  ruleList_failsIn [] .none _ List.nil_suffix (liesIn_components s) f h

/-! ## Blanks in front -/

/-- Blanks in front of a text that begins with none are passed over. -/
lemma read_append_of_isSpace {a t : List Char} (ha : a.all isSpace)
    (ht : t.takeWhile isSpace = []) : read (a ++ t) = read t := by
  cases a with
  | nil => rfl
  | cons c r =>
    have hreads := reads_blanks (List.cons_ne_nil c r) ha ht
    rw [read, hreads.components_append, List.singleton_append, ruleList]
    rfl

/-- **Blanks in front** of a text are passed over. -/
lemma read_dropWhile_isSpace (s : List Char) : read (s.dropWhile isSpace) = read s := by
  have hnone : (s.dropWhile isSpace).takeWhile isSpace = [] := by
    have hhead := List.head?_dropWhile_not isSpace s
    cases hs : s.dropWhile isSpace with
    | nil => rfl
    | cons c r =>
      rw [hs] at hhead
      exact List.takeWhile_cons_of_neg (by simpa using hhead)
  have hspace : (s.takeWhile isSpace).all isSpace := List.all_takeWhile
  have hread := read_append_of_isSpace hspace hnone
  rw [List.takeWhile_append_dropWhile] at hread
  exact hread.symm

lemma read_replicate_newline (k : Nat) (s : List Char) :
    read (List.replicate k '\n' ++ s) = read s := by
  have hdrop : (List.replicate k '\n' ++ s).dropWhile isSpace = s.dropWhile isSpace :=
    List.dropWhile_append_of_pos fun c hc => List.eq_of_mem_replicate hc ▸ rfl
  rw [← read_dropWhile_isSpace, hdrop, read_dropWhile_isSpace]

/-! ## Errors behind line feeds -/

/-- **Errors move along with their text** — line feeds in front of a text leave its sheet as it is,
and its error as well, save that the line grows by their number.

**Proof sketch.** The line feeds and the blanks behind them are one lexeme, which a rule list passes
over, so that the same sheet or the same fault comes out. The fault leaves an end part of the text
unread, and the location of an end part moves down with the text. -/
theorem parse_behind_newlines (css : String) (k : Nat) (hmark : css.toList.head? ≠ some '\uFEFF') :
    parse (String.ofList (List.replicate k '\n') ++ css) =
      match parse css with
      | .ok sheet => .ok sheet
      | .error e =>
        .error { e with location := ⟨e.location.line + k, e.location.column⟩ } := by
  have hsource : withoutMarks (String.ofList (List.replicate k '\n') ++ css).toList =
      List.replicate k '\n' ++ css.toList := by
    rw [String.toList_append, String.toList_ofList]
    refine withoutMarks_eq_self ?_
    cases k with
    | zero => exact hmark
    | succ k => simp [List.replicate_succ]
  have hread := read_replicate_newline k css.toList
  cases hcss : read css.toList with
  | ok statements =>
    simp only [parse, hsource, withoutMarks_eq_self hmark, hread, hcss]
  | error f =>
    have hlocation := Location.ofRest_replicate_newline k (rest_suffix_of_read_eq_error hcss)
    simp only [parse, hsource, withoutMarks_eq_self hmark, hread, hcss, Fault.inText, hlocation]

/-- A declaration without a colon, three lines down. -/
theorem parse_behind_newlines_missing_colon :
    "a \x7bb\x7d".toList.head? ≠ some '\uFEFF' ∧
      parse "a \x7bb\x7d" = .error ⟨.endOfInput, ⟨1, 5⟩⟩ ∧
      parse (String.ofList (List.replicate 3 '\n') ++ "a \x7bb\x7d") =
        .error ⟨.endOfInput, ⟨4, 5⟩⟩ := by
  have hmark : "a \x7bb\x7d".toList.head? ≠ some '\uFEFF' := by decide
  have hparse : parse "a \x7bb\x7d" = .error ⟨.endOfInput, ⟨1, 5⟩⟩ := by
    have herror : (match parse "a \x7bb\x7d" with
        | .ok _ => none
        | .error e => some e) = some ⟨.endOfInput, ⟨1, 5⟩⟩ := by decide +kernel
    split at herror
    · exact nomatch herror
    · rename_i e hcss
      rw [hcss, Option.some.inj herror]
  have hbehind := parse_behind_newlines "a \x7bb\x7d" 3 hmark
  rw [hparse] at hbehind
  exact ⟨hmark, hparse, hbehind⟩

end Sheet

end StyleSplit
