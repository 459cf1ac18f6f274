import Mathlib.Data.List.Basic
import Mathlib.Tactic.Common
import StyleSplit.Css.Component
set_option autoImplicit false

/-!
# Reading a part of a text

What a text reads as depends on the text behind it: a name goes on as long as it can, and a bracket
waits for its partner. This module says of a text, standing in front of another one, that it makes
up components of its own. Such statements can be put together like the texts themselves.

## Main definitions

* `StyleSplit.Css.Nesting.behind` — a nesting with components in front of all that is grouped.
* `StyleSplit.Css.Groups` — lexemes that are grouped among themselves.
* `StyleSplit.Css.Reads` — a text that reads as components in front of another text.
* `StyleSplit.Css.Component.braces` — the block of a text between braces.

## Main results

* `StyleSplit.Css.Reads.append`, `StyleSplit.Css.Reads.braces` — texts one after the other and in
  brackets.
* `StyleSplit.Css.Reads.components_append`, `StyleSplit.Css.Reads.components_eq` — the components
  of a whole text.
-/

namespace StyleSplit.Css

/-! ## Components in front -/

namespace Nesting

/-- **In front of a nesting** — the components `front`, the nearest first, stand before all that the
nesting has. -/
def behind (front : List Component) : List OpenBlock → List Component → Nesting
  | [], inner => ⟨inner ++ front, []⟩
  | b :: outer, inner =>
    let n := behind front outer b.before
    ⟨inner, { b with before := n.inner } :: n.blocks⟩

variable {front : List Component}

/-- One more component of the innermost block. -/
lemma behind_cons (blocks : List OpenBlock) (c : Component) (inner : List Component) :
    behind front blocks (c :: inner) =
      ⟨c :: (behind front blocks inner).inner, (behind front blocks inner).blocks⟩ := by
  cases blocks <;> rfl

/-- What a lexeme opens or closes does not depend on what stands in front. -/
lemma push_behind (n : Nesting) (l : Lexeme) :
    (behind front n.blocks n.inner).push l =
      behind front (n.push l).blocks (n.push l).inner := by
  obtain ⟨inner, blocks⟩ := n
  unfold push
  split
  · rfl
  · have hclosed : (behind front blocks inner).isClosedBy l = isClosedBy ⟨inner, blocks⟩ l := by
      cases blocks with
      | nil => rfl
      | cons b outer => cases h : l.token.closes? <;> simp [isClosedBy, behind, h]
    rw [hclosed]
    split
    · cases blocks with
      | nil => rfl
      | cons b outer => exact (behind_cons outer _ b.before).symm
    · exact (behind_cons blocks _ inner).symm

lemma foldl_push_behind (ls : List Lexeme) (n : Nesting) :
    ls.foldl push (behind front n.blocks n.inner) =
      behind front (ls.foldl push n).blocks (ls.foldl push n).inner := by
  induction ls generalizing n with
  | nil => rfl
  | cons l ls ih => rw [List.foldl_cons, push_behind, ih, List.foldl_cons]

/-- When the text ends, what stands in front is in front of all components. -/
lemma finishWith_behind (blocks : List OpenBlock) (inner : List Component) :
    finishWith (behind front blocks inner).blocks (behind front blocks inner).inner =
      finishWith blocks inner ++ front := by
  induction blocks generalizing inner with
  | nil => rfl
  | cons b outer ih =>
    have hblock := ih (.block b.opener inner.reverse none :: b.before)
    rw [behind_cons] at hblock
    exact hblock

end Nesting

/-! ## Grouping among themselves -/

/-- **Grouped among themselves** — whatever is open before them, the lexemes add the components to
the innermost open block and leave the same blocks open. -/
def Groups (ls : List Lexeme) (cs : List Component) : Prop :=
  ∀ n : Nesting, ls.foldl Nesting.push n = { n with inner := cs.reverse ++ n.inner }

namespace Groups

variable {ls ms : List Lexeme} {cs ds : List Component}

lemma nil : Groups [] [] := fun _ => rfl

lemma append (hl : Groups ls cs) (hm : Groups ms ds) : Groups (ls ++ ms) (cs ++ ds) := by
  intro n
  rw [List.foldl_append, hl, hm, List.reverse_append, List.append_assoc]

/-- A lexeme that neither opens nor closes a bracket is a component. -/
lemma plain {l : Lexeme} (hopens : l.token.opens? = none) (hcloses : l.token.closes? = none) :
    Groups [l] [.plain l] := by
  intro n
  have hclosed : n.isClosedBy l = false := by
    simp [Nesting.isClosedBy, hcloses]
  simp [Nesting.push, hopens, hclosed]

/-- Lexemes between two brackets of one kind are the content of a block. -/
lemma block {opener closer : Lexeme} {b : Bracket} (hopens : opener.token.opens? = some b)
    (hcloses : closer.token.closes? = some b) (h : Groups ls cs) :
    Groups (opener :: ls ++ [closer]) [.block opener cs (some closer)] := by
  intro n
  have hplain : closer.token.opens? = none := by
    cases htoken : closer.token <;> simp_all [Token.opens?, Token.closes?]
  have hopen : n.push opener = ⟨[], ⟨opener, b, n.inner⟩ :: n.blocks⟩ := by
    simp [Nesting.push, hopens]
  have hfold : (opener :: ls).foldl Nesting.push n =
      ⟨cs.reverse, ⟨opener, b, n.inner⟩ :: n.blocks⟩ := by
    rw [List.foldl_cons, hopen, h, List.append_nil]
  rw [List.foldl_append, hfold]
  simp [Nesting.push, hplain, Nesting.isClosedBy, hcloses, Nesting.close]

/-- The components have the text of the lexemes. -/
lemma componentsText_eq (h : Groups ls cs) : componentsText cs = ls.flatMap (·.raw) := by
  have htext := Nesting.text_foldl_push ls .start
  rw [h] at htext
  simpa [Nesting.text, Nesting.start, Nesting.textAround, runText, componentsText_nil] using htext

/-- Lexemes behind them are grouped as if nothing stood in front. -/
lemma components_append (h : Groups ls cs) (ms : List Lexeme) :
    components (ls ++ ms) = cs ++ components ms := by
  have hfront : ls.foldl Nesting.push .start = Nesting.behind cs.reverse [] [] := by
    rw [h]
    exact congrArg (Nesting.mk · []) (List.append_nil cs.reverse)
  have hfold : ms.foldl Nesting.push (Nesting.behind cs.reverse [] []) = _ :=
    Nesting.foldl_push_behind ms .start
  rw [components, List.foldl_append, hfront, hfold, Nesting.finish, Nesting.finishWith_behind,
    List.reverse_append, List.reverse_reverse]
  rfl

end Groups

/-! ## Reading in front of a text -/

/-- The block of the components `cs` that the text `s` between braces makes up in front of the
text `t`. -/
def Component.braces (s t : List Char) (cs : List Component) : Component :=
  .block ⟨.opening .brace, ['{'], s ++ '}' :: t⟩ cs (some ⟨.closing .brace, ['}'], t⟩)

/-- **Reading** — the text `s` in front of the text `t` makes up the components `cs`. -/
def Reads (s t : List Char) (cs : List Component) : Prop :=
  ∃ ls, lexemes (s ++ t) = ls ++ lexemes t ∧ Groups ls cs

namespace Reads

variable {s t u : List Char} {cs ds : List Component}

lemma nil : Reads [] t [] := ⟨[], rfl, .nil⟩

/-- Texts one after the other read as their components one after the other. -/
lemma append (hs : Reads s (t ++ u) cs) (ht : Reads t u ds) : Reads (s ++ t) u (cs ++ ds) := by
  obtain ⟨ls, hls, hcs⟩ := hs
  obtain ⟨ms, hms, hds⟩ := ht
  refine ⟨ls ++ ms, ?_, hcs.append hds⟩
  rw [List.append_assoc, hls, hms, List.append_assoc]

/-- The components have the text that was read. -/
lemma componentsText_eq (h : Reads s t cs) : componentsText cs = s := by
  obtain ⟨ls, hls, hcs⟩ := h
  have hraw := flatMap_raw_lexemes (s ++ t)
  rw [hls, List.flatMap_append, flatMap_raw_lexemes] at hraw
  rw [hcs.componentsText_eq]
  exact List.append_cancel_right hraw

/-- The components of a text and of what follows it. -/
lemma components_append (h : Reads s t cs) :
    components (lexemes (s ++ t)) = cs ++ components (lexemes t) := by
  obtain ⟨ls, hls, hcs⟩ := h
  rw [hls, hcs.components_append]

/-- The components of a text that nothing follows. -/
lemma components_eq (h : Reads s [] cs) : components (lexemes s) = cs := by
  have hwhole := h.components_append
  rw [List.append_nil, lexemes] at hwhole
  rw [hwhole]
  exact List.append_nil cs

/-- A text that is one lexeme. -/
lemma plain {token : Token} {c : Char} {r : List Char}
    (hread : readToken c (r ++ t) = (token, r.length)) (hopens : token.opens? = none)
    (hcloses : token.closes? = none) : Reads (c :: r) t [.plain ⟨token, c :: r, t⟩] := by
  have hfirst : Lexeme.first c (r ++ t) = ⟨token, c :: r, t⟩ := by
    simp [Lexeme.first, hread]
  refine ⟨[⟨token, c :: r, t⟩], ?_, .plain hopens hcloses⟩
  rw [List.cons_append, lexemes, hfirst, List.singleton_append]

/-- A text between braces is a block. -/
lemma braces (h : Reads s ('}' :: t) cs) : Reads ('{' :: s ++ ['}']) t [.braces s t cs] := by
  obtain ⟨ls, hls, hcs⟩ := h
  have hopener : Lexeme.first '{' (s ++ '}' :: t) =
      ⟨.opening .brace, ['{'], s ++ '}' :: t⟩ := rfl
  have hcloser : Lexeme.first '}' t = ⟨.closing .brace, ['}'], t⟩ := rfl
  refine ⟨_, ?_, Groups.block rfl rfl hcs⟩
  rw [List.append_assoc, List.cons_append, List.singleton_append, lexemes, hopener, hls, lexemes,
    hcloser, List.cons_append, List.cons_append, List.append_assoc, List.singleton_append]

end Reads

end StyleSplit.Css
