import StyleSplit.Number.Double
import StyleSplit.Tag
import StyleSplit.Text.Blank
set_option autoImplicit false

/-!
# Media conditions

Two `@media` blocks are merged when their conditions say the same up to spacing, parentheses and
letter case. This module maps a condition to a key that forgets those, to the identifier that the
merged group is written under, and to the number that orders the groups.

## Main definitions

* `StyleSplit.Condition.key` — the key of a condition.
* `StyleSplit.Condition.groupId` — the key, or a prefixed key where it is reserved.
* `StyleSplit.Condition.breakpoint` — the first number of a condition.
-/

namespace StyleSplit.Condition

/-! ## Keys -/

/-- The characters that keys are made of: lower-case letters, digits and four signs, all of which
a file name may hold. -/
def isKeyChar (c : Char) : Bool :=
  c.isLower || c.isDigit || c == '.' || c == '_' || c == ',' || c == '-'

/-- **The key of a character** — blanks and parentheses are dropped, letters lose their case, and
the operators of ratios and ranges are spelled out. A character that has no spelling is dropped. -/
def keyChars (c : Char) : List Char :=
  if c = '(' ∨ c = ')' ∨ isBlank c then []
  else if c = ':' then ['-']
  else if c = '/' then ['_']
  else if c = '>' then ['g', 't']
  else if c = '<' then ['l', 't']
  else if c = '=' then ['e', 'q']
  else if c.isAlphanum then [c.toLower]
  else if c = '.' ∨ c = '_' ∨ c = ',' ∨ c = '-' then [c]
  else []

/-- **The key of a condition** — the keys of its characters in order. -/
def key (condition : String) : String :=
  String.ofList (condition.toList.flatMap keyChars)

/-- **The identifier of a condition** — the name that its media group is merged under and tagged
with: its key, prefixed where the key is reserved for other parts. -/
def groupId (condition : String) : String :=
  let k := key condition
  if k = "" then Tag.unconditional
  else if Tag.isReserved k then Tag.mediaPrefix ++ k
  else k

/-! ## Breakpoints -/

/-- Whether a text begins with a digit. -/
def startsDigit (s : List Char) : Bool :=
  s.head?.any Char.isDigit

/-- Whether a number begins here: a digit, or a point before a digit. -/
def startsNumber : List Char → Bool
  | c :: r => c.isDigit || (c == '.' && startsDigit r)
  | [] => false

/-- The part of a text from its first number on. -/
def fromNumber? : List Char → Option (List Char)
  | [] => none
  | c :: r => if startsNumber (c :: r) then some (c :: r) else fromNumber? r

/-- The whole digits and the digits after the point of the number that a text begins with; a point
counts only before a digit. -/
def numeral (s : List Char) : List Char × List Char :=
  let whole := s.takeWhile Char.isDigit
  match s.dropWhile Char.isDigit with
  | '.' :: r => (whole, r.takeWhile Char.isDigit)
  | _ => (whole, [])

/-- The number that a list of decimal digits stands for. -/
def ofDigits (ds : List Char) : Nat :=
  ds.foldl (fun n d => 10 * n + (d.toNat - '0'.toNat)) 0

/-- **The breakpoint of a condition** — the double nearest to the first number in it. -/
def breakpoint (condition : String) : Option Double :=
  (fromNumber? condition.toList).map fun s =>
    let (whole, fraction) := numeral s
    Double.nearest (ofDigits (whole ++ fraction)) (powerOfTen fraction.length)

end StyleSplit.Condition
