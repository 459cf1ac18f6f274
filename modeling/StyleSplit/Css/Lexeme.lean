import StyleSplit.Css.Numeral
import StyleSplit.Css.Quoted
set_option autoImplicit false

/-!
# Lexemes

A lexeme is a token together with the raw text it was read from and the text that follows it. Any
text is a sequence of lexemes: there are no errors at this stage, since every character that begins
nothing else is a token of its own.

## Main definitions

* `StyleSplit.Css.readToken` — the token that a text begins with.
* `StyleSplit.Css.Lexeme` — a token with its place.
* `StyleSplit.Css.lexemes` — the lexemes of a text.

## Main results

* `StyleSplit.Css.flatMap_raw_lexemes` — nothing is lost: the raw texts of the lexemes make up
  the text.
-/

namespace StyleSplit.Css

/-! ## Tokens -/

/-- The numeric token that a numeral and the text behind it make: a percent sign or a unit may
follow. -/
def withUnit (n : Numeral) (s : List Char) : Token × Nat :=
  if s.head? = some '%' then (.percentage n, 1)
  else if startsIdent s then
    let (unit, size) := readName s
    (.dimension n (String.ofList unit), size)
  else (.number n, 0)

/-- The token of an address behind `url(`: blanks may stand in front of it, and the closing
parenthesis belongs to it. Without an address it is the token of a function. -/
def urlToken (word : String) (s : List Char) : Token × Nat :=
  let blanks := (s.takeWhile isSpace).length
  let body := s.drop blanks
  match readUrl? body with
  | none => (.function word, 0)
  | some u =>
    let token : Token := match u.value? with
      | some value => .url (String.ofList value)
      | none => .badUrl (String.ofList (body.take u.size))
    (token, blanks + u.size + 1)

/-- The token that a name and the text behind it make: an identifier, or a function where a
parenthesis follows, or an address. -/
def withArguments (name : List Char) (s : List Char) : Token × Nat :=
  let word := String.ofList name
  match s with
  | '(' :: r =>
    if name.map Char.toLower = "url".toList then
      let (token, size) := urlToken word r
      (token, size + 1)
    else (.function word, 1)
  | _ => (.ident word, 0)

/-- The string token behind an opening quote. -/
def stringToken (q : Char) (r : List Char) : Token × Nat :=
  let s := readString q r
  let value := String.ofList s.value
  (if s.closed then .string value else .badString value, s.size)

/-- The token that begins with a number sign: a hash, if a name follows it. -/
def hashToken (r : List Char) : Token × Nat :=
  let (name, size) := readName r
  if startsIdent r then (.idHash (String.ofList name), size)
  else if r.head?.any (fun c => c.isDigit || c == '-') then (.hash (String.ofList name), size)
  else (.delim '#', 0)

/-- The token that begins with an at sign: an at-keyword, if an identifier follows it. -/
def atToken (r : List Char) : Token × Nat :=
  if startsIdent r then
    let (name, size) := readName r
    (.atKeyword (String.ofList name), size)
  else (.delim '@', 0)

/-- The token of a comment behind its opening slash and star. -/
def commentToken (s : List Char) : Token × Nat :=
  let size := commentSize s
  (.comment (String.ofList (s.take size)), size + 2)

/-- The token that a character makes which begins no longer token. -/
def symbolToken (c : Char) (r : List Char) : Token × Nat :=
  match c, r with
  | '/', '*' :: s => let (token, size) := commentToken s; (token, size + 1)
  | '<', '!' :: '-' :: '-' :: _ => (.cdo, 3)
  | '-', '-' :: '>' :: _ => (.cdc, 2)
  | '$', '=' :: _ => (.comparison '$', 1)
  | '*', '=' :: _ => (.comparison '*', 1)
  | '^', '=' :: _ => (.comparison '^', 1)
  | '|', '=' :: _ => (.comparison '|', 1)
  | '~', '=' :: _ => (.comparison '~', 1)
  | ',', _ => (.comma, 0)
  | ':', _ => (.colon, 0)
  | ';', _ => (.semicolon, 0)
  | '{', _ => (.opening .brace, 0)
  | '(', _ => (.opening .paren, 0)
  | '[', _ => (.opening .square, 0)
  | '}', _ => (.closing .brace, 0)
  | ')', _ => (.closing .paren, 0)
  | ']', _ => (.closing .square, 0)
  | c, _ => (.delim c, 0)

/-- **Tokens** — the token that begins with the character `c` before the text `r`, and how much of
`r` it takes. Blanks come in runs. A numeral goes before the mark that closes a comment of the
document, and that mark before an identifier. -/
def readToken (c : Char) (r : List Char) : Token × Nat :=
  if isSpace c then
    let blanks := r.takeWhile isSpace
    (.whitespace (String.ofList (c :: blanks)), blanks.length)
  else if c = '"' ∨ c = '\'' then stringToken c r
  else if c = '#' then hashToken r
  else if c = '@' then atToken r
  else if startsNumeral (c :: r) then
    let n := readNumeral (c :: r)
    let (token, size) := withUnit n ((c :: r).drop n.size)
    (token, n.size + size - 1)
  else if startsIdent (c :: r) ∧ ¬ (c = '-' ∧ ['-', '>'].isPrefixOf r) then
    let (name, taken) := readName (c :: r)
    let (token, size) := withArguments name ((c :: r).drop taken)
    (token, taken + size - 1)
  else symbolToken c r

/-! ## Lexemes -/

/-- **Lexemes** — a token with its place in the text. -/
structure Lexeme where
  token : Token
  /-- What the token was read from. -/
  raw : List Char
  /-- What stands behind it. -/
  rest : List Char
  deriving DecidableEq, Repr, Inhabited

/-- The text from a lexeme on. -/
def Lexeme.here (l : Lexeme) : List Char :=
  l.raw ++ l.rest

/-- The lexeme that a text begins with. -/
def Lexeme.first (c : Char) (r : List Char) : Lexeme :=
  let (token, size) := readToken c r
  ⟨token, c :: r.take size, r.drop size⟩

/-- The text at a lexeme is its raw text and what follows. -/
theorem Lexeme.here_first (c : Char) (r : List Char) : (Lexeme.first c r).here = c :: r := by
  simp [Lexeme.here, Lexeme.first]

/-- **Lexemes of a text** — its tokens one after the other, each as long as its kind allows. -/
def lexemes (s : List Char) : List Lexeme :=
  match s with
  | [] => []
  | c :: r => Lexeme.first c r :: lexemes (Lexeme.first c r).rest
termination_by s.length
decreasing_by
  simp only [Lexeme.first, List.length_drop, List.length_cons]
  omega

/-- Nothing is lost: the raw texts of the lexemes make up the text. -/
theorem flatMap_raw_lexemes (s : List Char) : (lexemes s).flatMap (·.raw) = s := by
  fun_induction lexemes s with
  | case1 => rfl
  | case2 c r ih =>
    rw [List.flatMap_cons, ih]
    exact Lexeme.here_first c r

end StyleSplit.Css
