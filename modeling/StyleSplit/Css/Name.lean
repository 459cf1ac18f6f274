set_option autoImplicit false

/-!
# Names and escapes

A name is a run of letters, digits, hyphens, underscores and characters outside ASCII. Any other
character can stand in a name behind a backslash, or by its number in hexadecimal digits.

Readers take the text at hand and give what they read together with the number of characters that it
takes there.

## Main definitions

* `StyleSplit.Css.readEscape` — the character that an escape stands for.
* `StyleSplit.Css.readName` — the longest name that a text begins with.
* `StyleSplit.Css.startsIdent` — whether an identifier begins here.

## Main results

* `StyleSplit.Css.readName_of_isNameChar` — a run of name characters is read as it is.
-/

namespace StyleSplit.Css

/-! ## Classes of characters -/

/-- The characters that end a line. -/
def isNewline (c : Char) : Bool :=
  c == '\n' || c == '\r' || c == '\x0c'

/-- The characters that separate tokens. -/
def isSpace (c : Char) : Bool :=
  c == ' ' || c == '\t' || isNewline c

/-- The hexadecimal digits. -/
def isHexDigit (c : Char) : Bool :=
  c.isDigit || ('a' ≤ c && c ≤ 'f') || ('A' ≤ c && c ≤ 'F')

/-- The value of a hexadecimal digit. -/
def hexValue (c : Char) : Nat :=
  if c.isDigit then c.toNat - '0'.toNat
  else if 'a' ≤ c then c.toNat - 'a'.toNat + 10
  else c.toNat - 'A'.toNat + 10

/-- The characters that a name can begin with: letters, the underscore, NUL, and what is not
ASCII. -/
def isNameStart (c : Char) : Bool :=
  c.isAlpha || c == '_' || c == '\x00' || 0x80 ≤ c.toNat

/-- The characters that a name can go on with. -/
def isNameChar (c : Char) : Bool :=
  isNameStart c || c.isDigit || c == '-'

/-- The character that stands for what cannot be shown. -/
def replacement : Char := '\uFFFD'

/-- A character as a value holds it: NUL is replaced. -/
def shownChar (c : Char) : Char :=
  if c = '\x00' then replacement else c

/-! ## Escapes -/

/-- The length of the line end that a text begins with; a carriage return and a line feed are one. -/
def newlineSize : List Char → Nat
  | '\r' :: '\n' :: _ => 2
  | c :: _ => if isNewline c then 1 else 0
  | [] => 0

/-- The length of the single blank that a text begins with. -/
def blankSize (s : List Char) : Nat :=
  if s.head?.any isNewline then newlineSize s
  else if s.head?.any isSpace then 1
  else 0

/-- The character of a code point that an escape names. Zero, surrogates and numbers beyond the
last code point have none. -/
def charOfEscape (n : Nat) : Char :=
  if n ≠ 0 ∧ n.isValidChar then Char.ofNat n else replacement

/-- **Escapes** — the character that a backslash and the given text stand for: up to six hexadecimal
digits name a code point and take one blank with them; any other character stands for itself. -/
def readEscape : List Char → Char × Nat
  | [] => (replacement, 0)
  | c :: r =>
    if isHexDigit c then
      let digits := ((c :: r).take 6).takeWhile isHexDigit
      (charOfEscape (digits.foldl (fun n d => 16 * n + hexValue d) 0),
        digits.length + blankSize ((c :: r).drop digits.length))
    else (shownChar c, 1)

/-- Whether a backslash before the given text is an escape: it is, unless a line ends there. -/
def isEscape (afterBackslash : List Char) : Bool :=
  !afterBackslash.head?.any isNewline

/-! ## Names -/

/-- **Names** — the longest name that a text begins with, which may be empty. -/
def readName (s : List Char) : List Char × Nat :=
  match s with
  | [] => ([], 0)
  | c :: r =>
    if isNameChar c then
      let (name, size) := readName r
      (shownChar c :: name, size + 1)
    else if c = '\\' ∧ isEscape r then
      let (d, taken) := readEscape r
      let (name, size) := readName (r.drop taken)
      (d :: name, taken + size + 1)
    else ([], 0)
termination_by s.length
decreasing_by
  · simp
  · simp only [List.length_drop, List.length_cons]
    omega

/-- **The beginning of an identifier** — a character that begins names, or an escape, or a hyphen
before one of these or before another hyphen. Behind a hyphen any backslash will do. -/
def startsIdent : List Char → Bool
  | [] => false
  | '-' :: r => r.head?.any fun c => isNameStart c || c == '-' || c == '\\'
  | '\\' :: r => isEscape r
  | c :: _ => isNameStart c

/-- A run of name characters, none of them NUL, is read as it is, up to a character that can go on
with no name. -/
theorem readName_of_isNameChar {name : List Char} (hname : ∀ c ∈ name, isNameChar c)
    (hnul : '\x00' ∉ name) {s : List Char}
    (hs : s.head?.any (fun c => isNameChar c || c == '\\') = false) :
    readName (name ++ s) = (name, name.length) := by
  induction name with
  | nil =>
    cases s with
    | nil => rw [List.nil_append, readName]; rfl
    | cons c r =>
      simp only [List.head?_cons, Option.any_some, Bool.or_eq_false_iff, beq_eq_false_iff_ne] at hs
      rw [List.nil_append, readName, if_neg (by simp [hs.1]), if_neg (by simp [hs.2])]
      rfl
  | cons c name ih =>
    have hc : c ≠ '\x00' := fun h => hnul (h ▸ List.mem_cons_self)
    rw [List.cons_append, readName, if_pos (hname c List.mem_cons_self),
      ih (fun d hd => hname d (List.mem_cons_of_mem _ hd))
        (fun h => hnul (List.mem_cons_of_mem _ h))]
    simp [shownChar, hc]

end StyleSplit.Css
