import StyleSplit.Toml.Scalar
set_option autoImplicit false

/-!
# Reading a task file

A reader takes the text at hand and gives what it read with the unread rest, or nothing where the
text is not well formed: a task file is refused as a whole, whatever is wrong with it.

## Main definitions

* `StyleSplit.Toml.readString` — a string in one of four kinds of quotes.
* `StyleSplit.Toml.readValue` — a value, in which arrays and tables may be nested.
* `StyleSplit.Toml.readKey` — a dotted key.
* `StyleSplit.Toml.parse` — the entries of a document.
-/

namespace StyleSplit.Toml

/-- **Readers** — what a text begins with, and the rest. -/
abbrev Reader (α : Type) := List Char → Option (α × List Char)

/-! ## Characters -/

/-- The blanks within a line. -/
def isBlankInLine (c : Char) : Bool :=
  c == ' ' || c == '\t'

/-- The characters that a comment or a literal string may hold: all but the controls, of which only
the tab is allowed. -/
def isPlain (c : Char) : Bool :=
  c == '\t' || (0x20 ≤ c.toNat && c.toNat ≠ 0x7F)

/-- What follows a line end. -/
def afterLineEnd? : List Char → Option (List Char)
  | '\n' :: r => some r
  | '\r' :: '\n' :: r => some r
  | _ => none

/-- A text behind the blanks of its line. -/
def skipBlanks (s : List Char) : List Char :=
  s.dropWhile isBlankInLine

/-- A text behind blanks, line ends and comments. -/
def skipFiller (inComment : Bool) : List Char → List Char
  | [] => []
  | '\n' :: r => skipFiller false r
  | '\r' :: '\n' :: r => skipFiller false r
  | c :: r =>
    if inComment then if isPlain c then skipFiller true r else c :: r
    else if isBlankInLine c then skipFiller false r
    else if c = '#' then skipFiller true r
    else c :: r

/-- What follows the end of a line, before which blanks and a comment may stand. The end of the text
ends the last line. -/
def afterLine? (s : List Char) : Option (List Char) :=
  let s := skipBlanks s
  let s := if s.head? = some '#' then s.dropWhile isPlain else s
  if s.isEmpty then some [] else afterLineEnd? s

/-! ## Strings -/

/-- The character that a letter behind a backslash stands for. -/
def shortEscape? (c : Char) : Option Char :=
  match c with
  | 'b' => some '\x08'
  | 't' => some '\t'
  | 'n' => some '\n'
  | 'f' => some '\x0c'
  | 'r' => some '\r'
  | '"' => some '"'
  | '\\' => some '\\'
  | _ => none

/-- The character with a number in hexadecimal digits, if there is one. -/
def charOfHex? (ds : List Char) : Option Char :=
  let n := ofDigits 16 ds
  if ds.all (isDigitIn 16) ∧ n.isValidChar then some (Char.ofNat n) else none

/-- The character that an escape stands for. -/
def readEscape : Reader Char
  | 'u' :: r =>
    if 4 ≤ r.length then (charOfHex? (r.take 4)).map (·, r.drop 4) else none
  | 'U' :: r =>
    if 8 ≤ r.length then (charOfHex? (r.take 8)).map (·, r.drop 8) else none
  | c :: r => (shortEscape? c).map (·, r)
  | [] => none

theorem length_of_readEscape {s rest : List Char} {c : Char} (h : readEscape s = some (c, rest)) :
    rest.length < s.length := by
  unfold readEscape at h
  split at h
  · split at h
    · obtain ⟨d, -, hd⟩ := Option.map_eq_some_iff.1 h
      obtain ⟨-, rfl⟩ := Prod.mk.inj hd
      simp only [List.length_drop, List.length_cons]
      omega
    · simp at h
  · split at h
    · obtain ⟨d, -, hd⟩ := Option.map_eq_some_iff.1 h
      obtain ⟨-, rfl⟩ := Prod.mk.inj hd
      simp only [List.length_drop, List.length_cons]
      omega
    · simp at h
  · obtain ⟨d, -, hd⟩ := Option.map_eq_some_iff.1 h
    obtain ⟨-, rfl⟩ := Prod.mk.inj hd
    simp
  · simp at h

/-- A string in double quotes, behind the opening one. -/
def readBasic (s : List Char) : Option (List Char × List Char) :=
  match s with
  | [] => none
  | c :: r =>
    if c = '"' then some ([], r)
    else if c = '\\' then
      match _hr : readEscape r with
      | none => none
      | some (d, rest) => (readBasic rest).map fun (value, rest) => (d :: value, rest)
    else if isPlain c then (readBasic r).map fun (value, rest) => (c :: value, rest)
    else none
termination_by s.length
decreasing_by
  · have := length_of_readEscape _hr
    simp only [List.length_cons]
    omega
  · simp

/-- A string in single quotes, behind the opening one. -/
def readLiteral : Reader (List Char)
  | [] => none
  | c :: r =>
    if c = '\'' then some ([], r)
    else if isPlain c then (readLiteral r).map fun (value, rest) => (c :: value, rest)
    else none

/-- The end of a string over several lines: three quotes, before which two more may stand as
characters of the string. -/
def readLastQuotes? (q : Char) (s : List Char) : Option (List Char × List Char) :=
  let run := (s.takeWhile (· == q)).length
  if 3 ≤ run then some (List.replicate (min (run - 3) 2) q, s.drop (min run 5)) else none

/-- A string over several lines in single quotes, behind the opening ones. A line end counts as a
line feed. -/
def readLongLiteral : Reader (List Char)
  | [] => none
  | '\r' :: '\n' :: r => (readLongLiteral r).map fun (value, rest) => ('\n' :: value, rest)
  | c :: r =>
    match readLastQuotes? '\'' (c :: r) with
    | some found => some found
    | none =>
      if isPlain c || c == '\n' then
        (readLongLiteral r).map fun (value, rest) => (c :: value, rest)
      else none

/-- A string over several lines in double quotes, behind the opening ones. A backslash at the end of
a line drops the line end and all blanks and line ends behind it; `skipping` says that these are
being dropped. -/
def readLongBasic (skipping : Bool) (s : List Char) : Option (List Char × List Char) :=
  match s with
  | [] => none
  | '\r' :: '\n' :: r =>
    if skipping then readLongBasic true r
    else (readLongBasic false r).map fun (value, rest) => ('\n' :: value, rest)
  | c :: r =>
    if skipping ∧ (isBlankInLine c ∨ c = '\n') then readLongBasic true r
    else
      match readLastQuotes? '"' (c :: r) with
      | some found => some found
      | none =>
        if c = '\\' then
          if (afterLineEnd? (skipBlanks r)).isSome then readLongBasic true r
          else
            match _hr : readEscape r with
            | none => none
            | some (d, rest) =>
              (readLongBasic false rest).map fun (value, rest) => (d :: value, rest)
        else if isPlain c || c == '\n' then
          (readLongBasic false r).map fun (value, rest) => (c :: value, rest)
        else none
termination_by s.length
decreasing_by
  · simp only [List.length_cons]
    omega
  · simp only [List.length_cons]
    omega
  · simp
  · simp
  · have := length_of_readEscape _hr
    simp only [List.length_cons]
    omega
  · simp

/-- A text behind the line end that it may begin with. -/
def skipFirstLineEnd (s : List Char) : List Char :=
  (afterLineEnd? s).getD s

/-- **Strings** — in double or single quotes, or in three of either over several lines. -/
def readString (s : List Char) : Option (String × List Char) :=
  let found := match s with
    | '"' :: '"' :: '"' :: r => readLongBasic false (skipFirstLineEnd r)
    | '"' :: r => readBasic r
    | '\'' :: '\'' :: '\'' :: r => readLongLiteral (skipFirstLineEnd r)
    | '\'' :: r => readLiteral r
    | _ => none
  found.map fun (value, rest) => (String.ofList value, rest)

/-! ## Keys -/

/-- The characters of a key without quotes. -/
def isKeyChar (c : Char) : Bool :=
  c.isAlphanum || c == '-' || c == '_'

/-- One part of a key: a string on one line, or a word. -/
def readKeyPart (s : List Char) : Option (String × List Char) :=
  match s with
  | '"' :: r => (readBasic r).map fun (value, rest) => (String.ofList value, rest)
  | '\'' :: r => (readLiteral r).map fun (value, rest) => (String.ofList value, rest)
  | s =>
    let word := s.takeWhile isKeyChar
    if word.isEmpty then none else some (String.ofList word, s.dropWhile isKeyChar)

/-- The number of levels that keys, arrays and tables may not reach. -/
def depthLimit : Nat := 80

/-- The parts of a key with points between them; blanks may stand around each. There are no more
than `n`. -/
def readKeyParts : Nat → List Char → Option (List String × List Char)
  | 0, _ => none
  | n + 1, s => do
    let (part, rest) ← readKeyPart (skipBlanks s)
    match skipBlanks rest with
    | '.' :: rest => (readKeyParts n rest).map fun (parts, rest) => (part :: parts, rest)
    | rest => return ([part], rest)

/-- **Keys** — the path and the last part of a dotted key. -/
def readKey (s : List Char) : Option ((List String × String) × List Char) := do
  let (parts, rest) ← readKeyParts (depthLimit - 1) s
  return ((parts.dropLast, ← parts.getLast?), rest)

/-! ## Values -/

/-- Whether a character ends a word. -/
def endsWord (c : Char) : Bool :=
  isBlankInLine c || c == '\n' || c == '\r' || c == '#' || c == ',' || c == ']' || c == '}'

/-- A value without quotes and brackets. Behind a date and a single blank, a time of day belongs to
it. -/
def readWord (s : List Char) : Option (Value × List Char) :=
  let word := s.takeWhile (!endsWord ·)
  let rest := s.dropWhile (!endsWord ·)
  match rest with
  | ' ' :: r =>
    if isDate word && isOffsetTime (r.takeWhile (!endsWord ·)) then
      some (.dateTime, r.dropWhile (!endsWord ·))
    else (scalar? word).map (·, rest)
  | _ => (scalar? word).map (·, rest)

/-- The items of an array behind its opening bracket or a comma; a comma may stand behind the last
one. There are no more than `bound` is long. -/
def readItems (item : Reader Value) :
    List Char → List Char → Option (List Value × List Char)
  | [], _ => none
  | _ :: bound, s =>
    match skipFiller false s with
    | ']' :: rest => some ([], rest)
    | s => do
      let (v, rest) ← item s
      match skipFiller false rest with
      | ']' :: rest => return ([v], rest)
      | ',' :: rest => (readItems item bound rest).map fun (items, rest) => (v :: items, rest)
      | _ => none

/-- A key, an equals sign, and a value. -/
def readEntry (value : Reader Value) (s : List Char) :
    Option ((List String × String × Value) × List Char) := do
  let ((path, key), rest) ← readKey s
  match rest with
  | '=' :: rest => do
    let (v, rest) ← value (skipBlanks rest)
    return ((path, key, v), rest)
  | _ => none

/-- The entries of a table in braces, behind its opening brace or a comma. They stand on one line.
There are no more than `bound` is long. -/
def readInline (value : Reader Value) (entries : Entries) :
    List Char → List Char → Option (Entries × List Char)
  | [], _ => none
  | _ :: bound, s => do
    let ((path, key, v), rest) ← readEntry value s
    let entries ← insert path key v entries
    match skipBlanks rest with
    | '}' :: rest => return (entries, rest)
    | ',' :: rest => readInline value entries bound rest
    | _ => none

/-- **Values** — arrays and tables are nested less than `depth` deep. -/
def readValue : Nat → List Char → Option (Value × List Char)
  | depth, '[' :: r =>
    match depth with
    | 0 => none
    | depth + 1 =>
      (readItems (readValue depth) r r).map fun (items, rest) => (.array items, rest)
  | depth, '{' :: r =>
    match depth with
    | 0 => none
    | depth + 1 =>
      match skipBlanks r with
      | '}' :: rest => some (.table .inline [], rest)
      | s =>
        (readInline (readValue depth) [] s s).map fun (entries, rest) =>
          (.table .inline entries, rest)
  | _, '"' :: r => (readString ('"' :: r)).map fun (s, rest) => (.string s, rest)
  | _, '\'' :: r => (readString ('\'' :: r)).map fun (s, rest) => (.string s, rest)
  | _, s => readWord s

/-! ## Documents -/

/-- A header behind its opening brackets, which is closed by the given ones. -/
def readHeader (closing : List Char) (s : List Char) :
    Option ((List String × String) × List Char) := do
  let (key, rest) ← readKey s
  if closing.isPrefixOf rest then
    let rest ← afterLine? (rest.drop closing.length)
    return (key, rest)
  else none

/-- The lines of a document from a given one on. There are no more than `n`. -/
def readLines : Nat → Document → List Char → Option Entries
  | 0, _, _ => none
  | n + 1, d, s =>
    match skipBlanks s with
    | [] => d.finish
    | '[' :: '[' :: r => do
      let ((path, key), rest) ← readHeader [']', ']'] r
      readLines n (← d.beginMember path key) rest
    | '[' :: r => do
      let ((path, key), rest) ← readHeader [']'] r
      readLines n (← d.beginTable path key) rest
    | s =>
      if s.head? = some '#' ∨ (afterLineEnd? s).isSome then do readLines n d (← afterLine? s)
      else do
        let ((path, key, v), rest) ← readEntry (readValue (depthLimit - 1)) s
        readLines n (← d.set path key v) (← afterLine? rest)

/-- **Parsing** — the entries of a document, if it is well formed. A byte order mark in front is
ignored. -/
def parse (text : String) : Option Entries :=
  let s := match text.toList with
    | '\uFEFF' :: r => r
    | s => s
  readLines (s.length + 1) .empty s

end StyleSplit.Toml
