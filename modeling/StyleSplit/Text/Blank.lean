set_option autoImplicit false

/-!
# Blank characters and trimming

The characters that separate words in a stylesheet's text are those with the Unicode property
`White_Space`. This module holds that table and the removal of blanks from the two ends of a
text. Texts are lists of characters here, so that the statements below are statements on lists.

## Main definitions

* `StyleSplit.isBlank` — the table of the property.
* `StyleSplit.trim` — a text without the blanks at its ends.
* `StyleSplit.endsBlank` — whether the last character of a text is blank.

## Main results

* `StyleSplit.trim_eq_self` — a text whose ends are not blank is left alone.
-/

namespace StyleSplit

/-- **Blank characters** — the code points with the Unicode property `White_Space`: the controls
from tab to carriage return, the space, the next-line control, and the space, line and paragraph
separators. The zero-width space and the byte order mark are not among them. -/
def isBlank (c : Char) : Bool :=
  let n := c.toNat
  (0x09 ≤ n && n ≤ 0x0D) || n == 0x20 || n == 0x85 || n == 0xA0 || n == 0x1680 ||
    (0x2000 ≤ n && n ≤ 0x200A) || n == 0x2028 || n == 0x2029 || n == 0x202F || n == 0x205F ||
    n == 0x3000

/-- A text without the blanks at its end. -/
def trimEnd (s : List Char) : List Char :=
  (s.reverse.dropWhile isBlank).reverse

/-- **Trimming** — a text without the blanks at its two ends. -/
def trim (s : List Char) : List Char :=
  trimEnd (s.dropWhile isBlank)

/-- Whether a text ends with a blank; the empty text does not. -/
def endsBlank (s : List Char) : Bool :=
  s.getLast?.any isBlank

/-- `trim` on strings. -/
def trimmed (s : List Char) : String :=
  String.ofList (trim s)

/-! ## Small facts -/

theorem trim_nil : trim [] = [] := rfl

/-- A text with no blank at its end keeps its end. -/
theorem trimEnd_eq_self {s : List Char} (h : endsBlank s = false) : trimEnd s = s := by
  unfold trimEnd
  cases hs : s.reverse with
  | nil => simp_all
  | cons c r =>
    have hl : s.getLast? = some c := by rw [List.getLast?_eq_head?_reverse, hs]; rfl
    have hc : isBlank c = false := by simpa [endsBlank, hl] using h
    rw [List.dropWhile_cons_of_neg (by simp [hc]), ← hs, List.reverse_reverse]

/-- A text with no blank at either end is left alone. -/
theorem trim_eq_self {s : List Char} (hfirst : s.head?.any isBlank = false)
    (hlast : endsBlank s = false) : trim s = s := by
  unfold trim
  cases s with
  | nil => rfl
  | cons c r =>
    rw [List.dropWhile_cons_of_neg (by simpa using hfirst)]
    exact trimEnd_eq_self hlast

end StyleSplit
