import StyleSplit.Css.Lexeme
import StyleSplit.Text.Blank
set_option autoImplicit false

/-!
# Components

The lexemes of a text are grouped by their brackets: a component is a single lexeme or a block, that
is an opening bracket with everything up to the bracket that closes it. A closing bracket that does
not match the innermost open one is an ordinary lexeme, and the end of the text closes all blocks.

## Main definitions

* `StyleSplit.Css.Component` — a lexeme or a block.
* `StyleSplit.Css.Nesting` — the open blocks while a text is grouped.
* `StyleSplit.Css.components` — the components of a list of lexemes.
* `StyleSplit.Css.Excerpt` — text from which comments are cut out.

## Main results

* `StyleSplit.Css.Excerpt.toEnd_push`, `StyleSplit.Css.Excerpt.upToDelimiter_push` — what one more
  component adds to a text.
* `StyleSplit.Css.componentsText_components` — nothing is lost by grouping.
-/

namespace StyleSplit.Css

/-- **Components** — a single lexeme, or a block with its brackets. The closing bracket is absent
where the text ends first. -/
inductive Component
  | plain (l : Lexeme)
  | block (opener : Lexeme) (content : List Component) (closer : Option Lexeme)
  deriving Repr, Inhabited

namespace Component

/-- The lexeme that a component begins with. -/
def first : Component → Lexeme
  | plain l => l
  | block opener _ _ => opener

/-- The token that a component begins with. -/
def token (c : Component) : Token :=
  c.first.token

/-- What follows the first lexeme of a component. -/
def afterFirst (c : Component) : List Char :=
  c.first.rest

end Component

mutual

/-- The raw text of a component, with a text behind it. -/
def Component.textThen : Component → List Char → List Char
  | .plain l, s => l.raw ++ s
  | .block opener content closer, s =>
    opener.raw ++ componentsTextThen content ((closer.map (·.raw)).getD [] ++ s)

/-- The raw text of a list of components, with a text behind it. -/
def componentsTextThen : List Component → List Char → List Char
  | [], s => s
  | c :: cs, s => c.textThen (componentsTextThen cs s)

end

/-- The raw text of a component. -/
def Component.text (c : Component) : List Char :=
  c.textThen []

/-- The raw text of a list of components. -/
def componentsText (cs : List Component) : List Char :=
  componentsTextThen cs []

/-- Where the content of a block ends: at its closing bracket, or with the text. -/
def stopOf (closer : Option Lexeme) : List Char :=
  (closer.map (·.here)).getD []

/-! ## Grouping -/

/-- A block that is still open. -/
structure OpenBlock where
  opener : Lexeme
  bracket : Bracket
  /-- The components before the block, the nearest first. -/
  before : List Component
  deriving Repr, Inhabited

/-- **Nestings** — the state of grouping: the components of the innermost open block, the nearest
first, and the open blocks, the innermost first. -/
structure Nesting where
  inner : List Component
  blocks : List OpenBlock
  deriving Repr, Inhabited

namespace Nesting

/-- The beginning of a text. -/
def start : Nesting := ⟨[], []⟩

/-- The innermost block is closed. -/
def close (n : Nesting) (closer : Option Lexeme) : Nesting :=
  match n.blocks with
  | [] => n
  | b :: outer => ⟨.block b.opener n.inner.reverse closer :: b.before, outer⟩

/-- Whether a lexeme closes the innermost block. -/
def isClosedBy (n : Nesting) (l : Lexeme) : Bool :=
  match n.blocks, l.token.closes? with
  | b :: _, some bracket => b.bracket == bracket
  | _, _ => false

/-- **One more lexeme** — it opens a block, closes the innermost one, or stands in it. -/
def push (n : Nesting) (l : Lexeme) : Nesting :=
  match l.token.opens? with
  | some bracket => ⟨[], ⟨l, bracket, n.inner⟩ :: n.blocks⟩
  | none => if n.isClosedBy l then n.close (some l) else { n with inner := .plain l :: n.inner }

/-- The components that open blocks leave when the text ends, the nearest first. -/
def finishWith : List OpenBlock → List Component → List Component
  | [], inner => inner
  | b :: outer, inner => finishWith outer (.block b.opener inner.reverse none :: b.before)

/-- The components when the text ends. -/
def finish (n : Nesting) : List Component :=
  (finishWith n.blocks n.inner).reverse

end Nesting

/-- **Grouping** — the components of a list of lexemes. -/
def components (ls : List Lexeme) : List Component :=
  (ls.foldl Nesting.push .start).finish

/-! ## Text without comments -/

/-- The text of a run of components, given from the last one on. -/
def runText (run : List Component) : List Char :=
  componentsText run.reverse

/-- The same text, save that a block at the very end is cut behind its opening bracket. -/
def cutText : List Component → List Char
  | [] => []
  | last :: before => runText before ++ last.first.raw

/-- **Excerpts** — the text of a run of components without the comments among them. -/
structure Excerpt where
  /-- The texts before the comments, the last one first. Each ends with a blank. -/
  before : List (List Char)
  /-- The components behind the last comment, the last one first. -/
  run : List Component
  deriving Repr, Inhabited

namespace Excerpt

/-- Nothing yet. -/
def empty : Excerpt := ⟨[], []⟩

/-- One more component, which is not a comment. -/
def push (e : Excerpt) (c : Component) : Excerpt :=
  { e with run := c :: e.run }

/-- The text before the last comment. -/
def textBefore (e : Excerpt) : List Char :=
  e.before.reverse.flatten

/-- The text when a comment or another delimiter comes next. A block that stands right before it
counts only up to its opening bracket. -/
def upToDelimiter (e : Excerpt) : List Char :=
  e.textBefore ++ cutText e.run

/-- The text when nothing comes next. -/
def toEnd (e : Excerpt) : List Char :=
  e.textBefore ++ runText e.run

/-- **Comments** — a comment leaves a blank, so that it does not glue two words together, unless a
blank, another comment or nothing stands before it. -/
def skipComment (e : Excerpt) : Excerpt :=
  let text := cutText e.run
  if text.isEmpty then { e with run := [] }
  else ⟨(if endsBlank text then text else text ++ [' ']) :: e.before, []⟩

end Excerpt

/-! ## Raw texts -/

mutual

theorem Component.textThen_append (c : Component) (s t : List Char) :
    c.textThen (s ++ t) = c.textThen s ++ t := by
  cases c with
  | plain l => rw [Component.textThen, Component.textThen, List.append_assoc]
  | block opener content closer =>
    rw [Component.textThen, Component.textThen, ← List.append_assoc _ s t,
      componentsTextThen_append content, List.append_assoc]

theorem componentsTextThen_append (cs : List Component) (s t : List Char) :
    componentsTextThen cs (s ++ t) = componentsTextThen cs s ++ t := by
  cases cs with
  | nil => rfl
  | cons c cs =>
    rw [componentsTextThen, componentsTextThen, componentsTextThen_append cs,
      Component.textThen_append c]

end

theorem Component.textThen_eq (c : Component) (s : List Char) : c.textThen s = c.text ++ s :=
  c.textThen_append [] s

theorem componentsTextThen_eq (cs : List Component) (s : List Char) :
    componentsTextThen cs s = componentsText cs ++ s :=
  componentsTextThen_append cs [] s

theorem Component.text_plain (l : Lexeme) : (plain l).text = l.raw := by
  simp [text, textThen]

theorem Component.text_block (opener : Lexeme) (content : List Component)
    (closer : Option Lexeme) :
    (block opener content closer).text =
      opener.raw ++ componentsText content ++ (closer.map (·.raw)).getD [] := by
  simp [text, textThen, componentsTextThen_eq]

theorem componentsText_nil : componentsText [] = [] := rfl

theorem componentsText_cons (c : Component) (cs : List Component) :
    componentsText (c :: cs) = c.text ++ componentsText cs :=
  c.textThen_eq (componentsText cs)

theorem componentsText_append (cs ds : List Component) :
    componentsText (cs ++ ds) = componentsText cs ++ componentsText ds := by
  induction cs with
  | nil => rfl
  | cons c cs ih =>
    rw [List.cons_append, componentsText_cons, componentsText_cons, ih, List.append_assoc]

theorem runText_cons (c : Component) (run : List Component) :
    runText (c :: run) = runText run ++ c.text := by
  simp [runText, componentsText_append, componentsText_cons, componentsText_nil]

/-- One more component adds its text. -/
theorem Excerpt.toEnd_push (e : Excerpt) (c : Component) :
    (e.push c).toEnd = e.toEnd ++ c.text := by
  simp [Excerpt.toEnd, Excerpt.push, Excerpt.textBefore, runText_cons]

/-- One more component adds its text up to the end of its first lexeme. -/
theorem Excerpt.upToDelimiter_push (e : Excerpt) (c : Component) :
    (e.push c).upToDelimiter = e.toEnd ++ c.first.raw := by
  simp [Excerpt.upToDelimiter, Excerpt.toEnd, Excerpt.push, Excerpt.textBefore, cutText]

/-! ## The text of a grouping -/

namespace Nesting

/-- The text before the content of the innermost block, which is given with those around it. -/
def textAround : List OpenBlock → List Char
  | [] => []
  | b :: outer => textAround outer ++ runText b.before ++ b.opener.raw

/-- The text that has been grouped so far. -/
def text (n : Nesting) : List Char :=
  textAround n.blocks ++ runText n.inner

/-- A lexeme adds its text, whatever it opens or closes. -/
theorem text_push (n : Nesting) (l : Lexeme) : (n.push l).text = n.text ++ l.raw := by
  obtain ⟨inner, blocks⟩ := n
  unfold push
  split
  · simp [text, textAround, runText, componentsText_nil]
  · split
    · rename_i hclosed
      cases blocks with
      | nil => simp [isClosedBy] at hclosed
      | cons b outer =>
        simp [close, text, textAround, runText, componentsText_append, componentsText_cons,
          componentsText_nil, Component.text_block]
    · simp [text, runText_cons, Component.text_plain]

theorem text_foldl_push (ls : List Lexeme) (n : Nesting) :
    (ls.foldl push n).text = n.text ++ ls.flatMap (·.raw) := by
  induction ls generalizing n with
  | nil => simp
  | cons l ls ih => rw [List.foldl_cons, ih, text_push, List.flatMap_cons, List.append_assoc]

/-- The end of the text adds nothing to the blocks that it closes. -/
theorem runText_finishWith (blocks : List OpenBlock) (inner : List Component) :
    runText (finishWith blocks inner) = textAround blocks ++ runText inner := by
  induction blocks generalizing inner with
  | nil => rfl
  | cons b outer ih =>
    rw [finishWith, ih, runText_cons]
    simp [textAround, Component.text_block, runText]

end Nesting

/-- Nothing is lost: the components of a list of lexemes have the text of the lexemes. -/
theorem componentsText_components (ls : List Lexeme) :
    componentsText (components ls) = ls.flatMap (·.raw) := by
  have h := Nesting.text_foldl_push ls .start
  rw [Nesting.text, ← Nesting.runText_finishWith] at h
  exact h

end StyleSplit.Css
