set_option autoImplicit false

/-!
# Values of a task file

Task files are written in TOML. A document is a table, and a table is a list of entries in the order
in which their keys first appear. How a table came about decides whether more can be added to it.

## Main definitions

* `StyleSplit.Toml.Value` — the values.
* `StyleSplit.Toml.descend` — a change to a table that a path of keys leads to.
* `StyleSplit.Toml.insert` — a table with the value of a dotted key.
* `StyleSplit.Toml.Document` — a document while its lines are read.
-/

namespace StyleSplit.Toml

/-- **Origins** — how a table came about. -/
inductive Origin
  /-- By a header of its own. -/
  | header
  /-- As a part of a longer header. -/
  | implied
  /-- As a part of a dotted key. -/
  | dotted
  /-- In braces, as a value. -/
  | inline
  deriving DecidableEq, Repr, Inhabited

/-- **Values** — numbers and times are told apart from all else and not kept. -/
inductive Value
  | string (s : String)
  | boolean (b : Bool)
  | number
  | dateTime
  | array (items : List Value)
  | table (origin : Origin) (entries : List (String × Value))
  /-- Tables under headers with double brackets, in the order of the headers. -/
  | tables (members : List (List (String × Value)))
  deriving Inhabited

/-- The entries of a table in the order in which their keys first appear. -/
abbrev Entries := List (String × Value)

/-- The entries with the value of a key replaced. -/
def replaceValue (key : String) (v : Value) : Entries → Entries
  | [] => []
  | (k, old) :: more => if k = key then (k, v) :: more else (k, old) :: replaceValue key v more

/-- **Descending** — the entries with a change made in the table that a path leads to; missing tables
on the way are made. The change is told how the table came about. With `dotted` the path belongs to
a dotted key, which must not go through a table with a header of its own; other paths go through any
table with a name, and both go to the last one of several. -/
def descend (dotted : Bool) (change : Origin → Entries → Option Entries) :
    Origin → List String → Entries → Option Entries
  | origin, [], entries => change origin entries
  | _, key :: path, entries =>
    match entries.lookup key with
    | none =>
      let origin : Origin := if dotted then .dotted else .implied
      (descend dotted change origin path []).map fun new => entries ++ [(key, .table origin new)]
    | some (.table origin inner) =>
      if origin = .inline ∨ (dotted ∧ origin = .header) then none
      else (descend dotted change origin path inner).map fun new =>
        replaceValue key (.table origin new) entries
    | some (.tables members) =>
      match members.getLast? with
      | none => none
      | some last =>
        (descend dotted change .header path last).map fun new =>
          replaceValue key (.tables (members.dropLast ++ [new])) entries
    | some _ => none

/-- The entries of the table that a path leads to. -/
def tableAt : List String → Entries → Entries
  | [], entries => entries
  | key :: path, entries =>
    match entries.lookup key with
    | some (.table _ inner) => tableAt path inner
    | some (.tables members) => tableAt path (members.getLast?.getD [])
    | _ => []

/-- The entries with one more key, unless it is there already. -/
def addKey (key : String) (v : Value) (entries : Entries) : Option Entries :=
  if (entries.lookup key).isSome then none else some (entries ++ [(key, v)])

/-- **Dotted keys** — the entries with a value behind a path and a key. Only a table that came about
by dotted keys can be added to by one. -/
def insert (path : List String) (key : String) (v : Value) (entries : Entries) : Option Entries :=
  descend true
    (fun origin inner =>
      if path ≠ [] ∧ origin ≠ .dotted then none else addKey key v inner)
    .header path entries

/-! ## Documents -/

/-- **Documents** — a document while its lines are read: the entries up to the last header, and those
since then, which belong to the table that the header names. -/
structure Document where
  root : Entries
  /-- The path and the key of the last header, and whether it has double brackets. -/
  header : Option (List String × String × Bool)
  current : Entries
  deriving Inhabited

namespace Document

/-- No line yet. -/
def empty : Document := ⟨[], none, []⟩

/-- The entries of the document when the table at hand ends. It stands behind all that its parent
holds by then, also where a part of it came about before. -/
def finish (d : Document) : Option Entries :=
  match d.header with
  | none => some d.current
  | some (path, key, false) =>
    descend false
      (fun _ inner => some (inner.filter (·.1 ≠ key) ++ [(key, .table .header d.current)]))
      .header path d.root
  | some (path, key, true) =>
    descend false
      (fun _ inner =>
        match inner.lookup key with
        | some (.tables members) =>
          some (replaceValue key (.tables (members ++ [d.current])) inner)
        | _ => none)
      .header path d.root

/-- The value of a dotted key in the table at hand. -/
def set (d : Document) (path : List String) (key : String) (v : Value) : Option Document :=
  (insert path key v d.current).map fun current => { d with current }

/-- **A header** — the table at hand ends, and another begins. One that came about as a part of longer
headers is taken up; no other table can be begun twice. -/
def beginTable (d : Document) (path : List String) (key : String) : Option Document := do
  let root ← d.finish
  let root ← descend false (fun _ => some) .header path root
  match (tableAt path root).lookup key with
  | none => return ⟨root, some (path, key, false), []⟩
  | some (.table .implied inner) => return ⟨root, some (path, key, false), inner⟩
  | some _ => none

/-- **A header with double brackets** — the table at hand ends, and one more table of an array
begins. -/
def beginMember (d : Document) (path : List String) (key : String) : Option Document := do
  let root ← d.finish
  let root ← descend false
    (fun _ inner =>
      match inner.lookup key with
      | none => some (inner ++ [(key, .tables [])])
      | some (.tables _) => some inner
      | some _ => none)
    .header path root
  return ⟨root, some (path, key, true), []⟩

end Document

end StyleSplit.Toml
