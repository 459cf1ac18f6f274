set_option autoImplicit false

/-!
# Locations in a text

A message about a text names a line and a column, both counted from one. A line ends at a line
feed, a carriage return, the two together, or a form feed; a column is a count of UTF-16 units,
so a character outside the basic plane takes two.

## Main definitions

* `StyleSplit.Location` — a line and a column.
* `StyleSplit.Location.after` — the location reached by reading a text from a given one.
* `StyleSplit.Location.ofRest` — the location in a text at which a given end part is unread.

## Main results

* `StyleSplit.Location.after_replicate_newline` — line feeds in front move a location down by
  their number.
-/

namespace StyleSplit

/-- **Locations** — a line and a column, both counted from one. -/
structure Location where
  line : Nat
  column : Nat
  deriving DecidableEq, Repr, Inhabited

namespace Location

/-- The beginning of a text. -/
def start : Location := ⟨1, 1⟩

/-- Whether a character ends a line. -/
def isLineEnd (c : Char) : Bool :=
  c == '\n' || c == '\r' || c == '\x0c'

/-- The number of UTF-16 units of a character. -/
def units16 (c : Char) : Nat :=
  if c.toNat < 0x10000 then 1 else 2

/-- The location reached by reading the given text. -/
def after (l : Location) : List Char → Location
  | [] => l
  | '\r' :: '\n' :: r => after ⟨l.line + 1, 1⟩ r
  | c :: r => after (if isLineEnd c then ⟨l.line + 1, 1⟩ else ⟨l.line, l.column + units16 c⟩) r

/-- **The location of an end part** — where one stands in `source` when `rest`, an end part of
it, is what remains to be read. -/
def ofRest (source rest : List Char) : Location :=
  start.after (source.take (source.length - rest.length))

/-- Each line feed in front of a text moves the beginning of the text down by one line. -/
theorem after_replicate_newline (k line : Nat) (s : List Char) :
    after ⟨line, 1⟩ (List.replicate k '\n' ++ s) = after ⟨line + k, 1⟩ s := by
  induction k generalizing line with
  | zero => rfl
  | succ k ih =>
    rw [List.replicate_succ, List.cons_append, after]
    · simp only [isLineEnd, beq_self_eq_true, Bool.true_or, if_true]
      rw [ih, Nat.add_right_comm, Nat.add_assoc]
    · intro r h
      simp at h

end Location

end StyleSplit
