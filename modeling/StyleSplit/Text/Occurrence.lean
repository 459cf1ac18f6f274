set_option autoImplicit false

/-!
# Occurrences in a text

## Main definitions

* `StyleSplit.occurs` — whether a text stands somewhere in another one.

## Main results

* `StyleSplit.occurs_iff_isInfix` — in the sense of lists.
-/

namespace StyleSplit

/-- Whether a pattern stands somewhere in a text. -/
def occurs (pattern : List Char) : List Char → Bool
  | [] => pattern.isEmpty
  | c :: r => pattern.isPrefixOf (c :: r) || occurs pattern r

/-- A pattern occurs in a text when it is a contiguous part of it. -/
theorem occurs_iff_isInfix {pattern s : List Char} : occurs pattern s ↔ pattern <:+: s := by
  induction s with
  | nil => simp [occurs, List.isEmpty_iff]
  | cons c r ih => rw [occurs, Bool.or_eq_true, ih, List.isPrefixOf_iff_prefix, List.infix_cons_iff]

end StyleSplit
