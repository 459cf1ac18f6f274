set_option autoImplicit false

/-!
# Line endings

Stylesheets are built with a line feed at the end of each line. When a text is written out, its
line ends are brought to one convention.

## Main definitions

* `StyleSplit.LineEnding` — the conventions a caller may ask for.
* `StyleSplit.LineEnding.apply` — a text with its line ends in that convention.

## Main results

* `StyleSplit.LineEnding.collapse_expand` — collapsing undoes widening.
-/

namespace StyleSplit

/-- **Line endings** — a line feed, a carriage return and a line feed, or the convention of the
system, which is the line feed. -/
inductive LineEnding
  | lf
  | crlf
  | native
  deriving DecidableEq, Repr, Inhabited

namespace LineEnding

/-- Each carriage return that stands before a line feed is dropped. -/
def collapse : List Char → List Char
  | '\r' :: '\n' :: r => '\n' :: collapse r
  | c :: r => c :: collapse r
  | [] => []

/-- A carriage return is put before each line feed. -/
def expand (s : List Char) : List Char :=
  s.flatMap fun c => if c = '\n' then ['\r', '\n'] else [c]

/-- The line ends of `s` are first collapsed to line feeds, so that a text which already has
two-character line ends is not widened twice. -/
def convert (e : LineEnding) (s : List Char) : List Char :=
  match e with
  | crlf => expand (collapse s)
  | lf | native => collapse s

/-- **Conversion** — a text with its line ends in the given convention. -/
def apply (e : LineEnding) (text : String) : String :=
  String.ofList (e.convert text.toList)

/-- The word that names a convention in task files and on the command line. -/
def name : LineEnding → String
  | lf => "lf"
  | crlf => "crlf"
  | native => "native"

/-- All conventions, in the order in which messages list them. -/
def all : List LineEnding := [lf, crlf, native]

/-- The convention that a word names. -/
def ofName? (s : String) : Option LineEnding :=
  all.find? (·.name == s)

theorem ofName?_name (e : LineEnding) : ofName? e.name = some e := by
  cases e <;> decide

/-! ## Widening and collapsing -/

@[simp] theorem expand_nil : expand [] = [] := rfl

theorem expand_cons (c : Char) (s : List Char) :
    expand (c :: s) = (if c = '\n' then ['\r', '\n'] else [c]) ++ expand s := rfl

/-- A widened text never begins with a bare line feed. -/
theorem expand_ne_lf_cons (s u : List Char) : expand s ≠ '\n' :: u := by
  intro h
  cases s with
  | nil => simp at h
  | cons c r =>
    rw [expand_cons] at h
    by_cases hc : c = '\n' <;> simp [hc] at h

/-- Collapsing undoes widening: in a widened text a carriage return stands before a line feed
exactly where widening put it. -/
theorem collapse_expand (s : List Char) : collapse (expand s) = s := by
  induction s with
  | nil => rfl
  | cons c r ih =>
    rw [expand_cons]
    by_cases hn : c = '\n'
    · subst hn
      simp [collapse, ih]
    · simp only [if_neg hn, List.singleton_append]
      rw [collapse, ih]
      intro u _ hu
      exact expand_ne_lf_cons r u hu

end LineEnding

end StyleSplit
