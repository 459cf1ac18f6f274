import StyleSplit.Css.Name
set_option autoImplicit false

/-!
# Strings, addresses and comments

The tokens that run up to a closing mark: strings in quotes, addresses in `url(...)`, comments.

## Main definitions

* `StyleSplit.Css.readString` — a string behind its opening quote.
* `StyleSplit.Css.readUrl?` — an address behind `url(`, unless a quoted one follows.
* `StyleSplit.Css.commentSize` — the length of a comment behind its opening mark.
-/

namespace StyleSplit.Css

/-! ## Strings -/

/-- What was read of a string. -/
structure StringRead where
  value : List Char
  /-- Whether the string ended at its quote or with the text, and not at a line end. -/
  closed : Bool
  /-- The number of characters read, with the closing quote. -/
  size : Nat
  deriving DecidableEq, Repr, Inhabited

/-- The same string behind more text that stands for the given characters. -/
def StringRead.after (s : StringRead) (value : List Char) (size : Nat) : StringRead :=
  { s with value := value ++ s.value, size := size + s.size }

/-- **Strings** — what stands up to the quote `q`. A line end breaks the string off and stays
unread; behind a backslash it is dropped. A backslash at the very end is dropped as well. -/
def readString (q : Char) (s : List Char) : StringRead :=
  match s with
  | [] => ⟨[], true, 0⟩
  | c :: r =>
    if c = q then ⟨[], true, 1⟩
    else if isNewline c then ⟨[], false, 0⟩
    else if c = '\\' then
      if r.isEmpty then ⟨[], true, 1⟩
      else if isEscape r then
        let (d, taken) := readEscape r
        (readString q (r.drop taken)).after [d] (taken + 1)
      else (readString q (r.drop (newlineSize r))).after [] (newlineSize r + 1)
    else (readString q r).after [shownChar c] 1
termination_by s.length
decreasing_by
  · simp only [List.length_drop, List.length_cons]
    omega
  · simp only [List.length_drop, List.length_cons]
    omega
  · simp

/-! ## Addresses -/

/-- **Broken addresses** — the number of characters up to the next closing parenthesis. A backslash
hides a parenthesis or a backslash that follows it. -/
def badUrlSize : List Char → Nat
  | [] => 0
  | ')' :: _ => 0
  | '\\' :: ')' :: r => badUrlSize r + 2
  | '\\' :: '\\' :: r => badUrlSize r + 2
  | _ :: r => badUrlSize r + 1

/-- The characters that break an address: quotes, an opening parenthesis, and controls. -/
def breaksUrl (c : Char) : Bool :=
  let n := c.toNat
  (1 ≤ n && n ≤ 8) || n == 0x0B || (0x0E ≤ n && n ≤ 0x1F) || n == 0x7F || c == '"' ||
    c == '\'' || c == '('

/-- What was read of an address. -/
structure UrlRead where
  /-- The address; none if it is broken. -/
  value? : Option (List Char)
  /-- The number of characters before the closing parenthesis, or before the end of the text. -/
  size : Nat
  deriving DecidableEq, Repr, Inhabited

/-- The same address behind more text that stands for the given characters. -/
def UrlRead.after (u : UrlRead) (value : List Char) (size : Nat) : UrlRead :=
  ⟨u.value?.map (value ++ ·), size + u.size⟩

/-- An address that is broken by the first character of a text. That character is passed over as it
is, so a backslash there hides nothing. -/
def brokenUrl (r : List Char) : UrlRead :=
  ⟨none, badUrlSize r + 1⟩

/-- The end of an address that a blank has closed: only blanks may stand before the
parenthesis. -/
def readUrlEnd : List Char → UrlRead
  | [] => ⟨some [], 0⟩
  | c :: r =>
    if c = ')' then ⟨some [], 0⟩
    else if isSpace c then (readUrlEnd r).after [] 1
    else brokenUrl r

/-- The characters of an address up to its closing parenthesis. -/
def readUrlBody (s : List Char) : UrlRead :=
  match s with
  | [] => ⟨some [], 0⟩
  | c :: r =>
    if c = ')' then ⟨some [], 0⟩
    else if isSpace c then readUrlEnd (c :: r)
    else if breaksUrl c then brokenUrl r
    else if c = '\\' then
      if isEscape r then
        let (d, taken) := readEscape r
        (readUrlBody (r.drop taken)).after [d] (taken + 1)
      else brokenUrl r
    else (readUrlBody r).after [shownChar c] 1
termination_by s.length
decreasing_by
  · simp only [List.length_drop, List.length_cons]
    omega
  · simp

/-- **Addresses** — the address whose first character that is not blank begins the text. Where that
character is a quote there is no address: a function with a string begins. -/
def readUrl? (body : List Char) : Option UrlRead :=
  if body.head?.any (fun c => c == '"' || c == '\'') then none else some (readUrlBody body)

/-! ## Comments -/

/-- **Comments** — the number of characters up to the closing mark, or up to the end where there is
none. -/
def commentSize : List Char → Nat
  | [] => 0
  | '*' :: '/' :: _ => 0
  | _ :: r => commentSize r + 1

end StyleSplit.Css
