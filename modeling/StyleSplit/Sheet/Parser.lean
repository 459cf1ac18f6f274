import StyleSplit.Css.Component
import StyleSplit.Sheet.Basic
import StyleSplit.Sheet.Fault
set_option autoImplicit false

/-!
# Reading a stylesheet

The components of a text are read as statements. Three grammars are at work: rule lists, at the top
level and in `@media` blocks; declaration lists, in rules and keyframe steps; and the steps of a
keyframes block. Each reader goes through a list of components once and keeps what it has of the
statement at hand; the text at which its list ends is given to it for messages.

## Main definitions

* `StyleSplit.Sheet.Prelude` — the selectors or values before a block.
* `StyleSplit.Sheet.declarationList`, `StyleSplit.Sheet.stepList`, `StyleSplit.Sheet.ruleList` — the
  readers.
* `StyleSplit.Sheet.parse` — the sheet of a text.
-/

namespace StyleSplit.Sheet

open Css

/-! ## Declarations -/

/-- What is at hand of a declaration. -/
inductive InDeclaration
  /-- Nothing. -/
  | none
  /-- A star, which a property name must follow; `rest` is what follows the star. -/
  | star (rest : List Char)
  /-- A property, which a colon must follow; `rest` is what follows the property. -/
  | property (name : String) (rest : List Char)
  /-- A property, its colon, and a part of its value. -/
  | value (property : String) (e : Excerpt)
  deriving Repr, Inhabited

/-- **Declaration lists** — declarations and comments. A value ends at a semicolon or with the list;
blocks in it are passed over, so that a semicolon in them does not end it. A star before a property
name becomes a part of the name. -/
def declarationList (stop : List Char) (pending : InDeclaration) :
    List Component → Except Fault (List Style)
  | [] =>
    match pending with
    | .none => .ok []
    | .value property e => .ok [.declaration property (trimmed e.toEnd)]
    | .star _ | .property .. => .error ⟨.endOfInput, stop⟩
  | c :: cs =>
    match pending with
    | .none =>
      match c.token with
      | .whitespace _ | .semicolon => declarationList stop .none cs
      | .comment text => (declarationList stop .none cs).map (.comment text :: ·)
      | .ident name => declarationList stop (.property name c.afterFirst) cs
      | .delim '*' => declarationList stop (.star c.afterFirst) cs
      | t => .error ⟨.unexpected t, c.afterFirst⟩
    | .star rest =>
      match c.token with
      | .whitespace _ | .comment _ => declarationList stop (.star rest) cs
      | .ident name => declarationList stop (.property ("*" ++ name) c.afterFirst) cs
      | t => .error ⟨.unexpected t, rest⟩
    | .property name rest =>
      match c.token with
      | .whitespace _ | .comment _ => declarationList stop (.property name rest) cs
      | .colon => declarationList stop (.value name .empty) cs
      | t => .error ⟨.unexpected t, rest⟩
    | .value property e =>
      match c.token with
      | .comment _ => declarationList stop (.value property e.skipComment) cs
      | .semicolon =>
        (declarationList stop .none cs).map (.declaration property (trimmed e.toEnd) :: ·)
      | _ => declarationList stop (.value property (e.push c)) cs

/-- The declarations of a block. -/
def blockDeclarations : Component → Except Fault (List Style)
  | .plain _ => .ok []
  | .block _ content closer => declarationList (stopOf closer) .none content

/-! ## Preludes -/

/-- **Preludes** — selectors or step values, separated by commas, before a block. -/
structure Prelude where
  /-- The items that a comma has ended, the last one first. -/
  items : List String
  current : Excerpt
  deriving Repr, Inhabited

namespace Prelude

/-- The prelude that begins with a component of whatever kind. -/
def start (c : Component) : Prelude :=
  ⟨[], Excerpt.empty.push c⟩

/-- All items when a delimiter ends the current one, the last one first. Blanks around items are
dropped, and so are empty items. -/
def ended (p : Prelude) : List String :=
  let item := trim p.current.upToDelimiter
  if item.isEmpty then p.items else String.ofList item :: p.items

/-- What a component makes of a prelude. -/
inductive Step
  | more (p : Prelude)
  /-- The component is the block that the items stand before. -/
  | block (items : List String)
  | fault (f : Fault)

/-- One more component: a comma ends an item, and braces end the prelude. -/
def step (p : Prelude) (c : Component) : Step :=
  match c.token with
  | .comment _ => .more { p with current := p.current.skipComment }
  | .comma => .more ⟨p.ended, .empty⟩
  | .opening .brace => .block p.ended.reverse
  | .semicolon => .fault ⟨.missingBlock, c.afterFirst⟩
  | .closing .brace => .fault ⟨.unexpected c.token, c.afterFirst⟩
  | _ => .more { p with current := p.current.push c }

end Prelude

/-! ## Keyframes -/

/-- **Keyframe steps** — steps and comments. -/
def stepList (stop : List Char) (pending : Option Prelude) :
    List Component → Except Fault (List Style)
  | [] =>
    match pending with
    | none => .ok []
    | some _ => .error ⟨.missingBlock, stop⟩
  | c :: cs =>
    match pending with
    | none =>
      match c.token with
      | .whitespace _ | .semicolon => stepList stop none cs
      | .comment text => (stepList stop none cs).map (.comment text :: ·)
      | .opening .brace => .error ⟨.missingSelector, c.afterFirst⟩
      | _ => stepList stop (some (.start c)) cs
    | some p =>
      match p.step c with
      | .more p => stepList stop (some p) cs
      | .fault f => .error f
      | .block values => do
        let children ← blockDeclarations c
        let more ← stepList stop none cs
        return .step values children :: more

/-- The vendor of an at-rule whose name ends in `keyframes`: what stands before that word, if it is
nothing or stands between hyphens. -/
def vendor? (name : String) : Option String :=
  let word := "keyframes".toList
  let head := name.toList.take (name.toList.length - word.length)
  if head ++ word = name.toList ∧
      (head = [] ∨ (head.head? = some '-' ∧ head.getLast? = some '-')) then
    some (String.ofList head)
  else none

/-! ## Statements -/

/-- What is at hand of a statement. -/
inductive InStatement
  /-- Nothing. -/
  | none
  /-- A part of the selectors of a rule. -/
  | rule (p : Prelude)
  /-- The lower-case name of an at-rule and a part of its prelude. -/
  | atRule (name : String) (e : Excerpt)
  deriving Repr, Inhabited

mutual

/-- **Rule lists** — rules, at-rules and comments. An at-rule ends with its block, at a semicolon or
with the list; a rule must have a block. -/
def ruleList (stop : List Char) (pending : InStatement) :
    List Component → Except Fault (List Statement)
  | [] =>
    match pending with
    | .none => .ok []
    | .rule _ => .error ⟨.missingBlock, stop⟩
    | .atRule name e => .ok [.style (.atRule name (trimmed e.toEnd) .none)]
  | c :: cs =>
    match pending with
    | .none =>
      match c.token with
      | .whitespace _ | .cdo | .cdc | .semicolon => ruleList stop .none cs
      | .comment text => (ruleList stop .none cs).map (.style (.comment text) :: ·)
      | .atKeyword name => ruleList stop (.atRule name.toLower .empty) cs
      | .opening .brace => .error ⟨.missingSelector, c.afterFirst⟩
      | .closing .brace => .error ⟨.unexpected c.token, c.afterFirst⟩
      | _ => ruleList stop (.rule (.start c)) cs
    | .rule p =>
      match p.step c with
      | .more p => ruleList stop (.rule p) cs
      | .fault f => .error f
      | .block selectors => do
        let children ← blockDeclarations c
        let more ← ruleList stop .none cs
        return .style (.rule selectors children) :: more
    | .atRule name e =>
      match c.token with
      | .opening .brace => do
        let s ← atRuleWithBlock name (trimmed e.upToDelimiter) c
        let more ← ruleList stop .none cs
        return s :: more
      | .semicolon =>
        (ruleList stop .none cs).map
          (.style (.atRule name (trimmed e.upToDelimiter) .none) :: ·)
      | .comment _ => ruleList stop (.atRule name e.skipComment) cs
      | _ => ruleList stop (.atRule name (e.push c)) cs
termination_by structural cs => cs

/-- **At-rules with a block** — `@media` and keyframes are read further, all others are kept. -/
def atRuleWithBlock (name : String) (condition : String) : Component → Except Fault Statement
  | .plain _ => .ok (.style (.atRule name condition .none))
  | .block _ content closer =>
    if name = "media" then
      (ruleList (stopOf closer) .none content).map (.media condition)
    else
      match vendor? name with
      | some vendor =>
        (stepList (stopOf closer) .none content).map fun steps =>
          .keyframes ⟨vendor, condition, steps⟩
      | .none => .ok (.style (.atRule name condition (String.ofList (componentsText content))))
termination_by structural c => c

end

/-! ## Sheets -/

/-- A text without the byte order marks in front of it. -/
def withoutMarks (s : List Char) : List Char :=
  s.dropWhile (· == '\uFEFF')

/-- The statements of a text, or the fault that makes it unreadable. -/
def read (s : List Char) : Except Fault (List Statement) :=
  ruleList [] .none (components (lexemes s))

/-- **Parsing** — the sheet of a text, or the error that makes it unreadable. Byte order marks in
front are ignored. -/
def parse (css : String) : Except ParseError Sheet :=
  let source := withoutMarks css.toList
  match read source with
  | .ok statements => .ok ⟨statements⟩
  | .error fault => .error (fault.inText source)

/-- A text is read if something can be told of its sheet. -/
theorem exists_of_map_parse {α : Type} {f : Sheet → α} {css : String} {a : α}
    (h : (parse css).toOption.map f = some a) : ∃ sheet, parse css = .ok sheet ∧ f sheet = a := by
  cases hparse : parse css with
  | error e =>
    rw [hparse] at h
    exact nomatch h
  | ok sheet =>
    rw [hparse] at h
    exact ⟨sheet, rfl, Option.some.inj h⟩

end StyleSplit.Sheet
