import StyleSplit.Options
import StyleSplit.Run.Discovery
import StyleSplit.Toml.Parser
set_option autoImplicit false

/-!
# Task files

A task file holds the options of a run and its targets. It is checked strictly: a field that does not
exist is an error, so that a misspelt option does not go unnoticed.

## Main definitions

* `StyleSplit.Config` — options and targets.
* `StyleSplit.ConfigError` — what can be wrong with a task file.
* `StyleSplit.Config.parse`, `StyleSplit.Config.load` — the configuration of a text and of a file.
-/

namespace StyleSplit

/-- **Configurations** — the options and the targets of a run. -/
structure Config where
  options : Options
  targets : List Target
  deriving DecidableEq, Repr, Inhabited

/-- **Configuration errors** — what can be wrong with a task file. -/
inductive ConfigError
  /-- The file cannot be read. -/
  | unreadable (e : SystemError)
  /-- The text is no document. -/
  | malformed
  /-- A value is not of the kind that its field asks for. -/
  | wrongKind
  | unknownField (name : String) (expected : List String)
  | missingField (name : String)
  /-- A word that names no choice. -/
  | unknownVariant (name : String) (expected : List String)
  deriving DecidableEq, Repr, Inhabited

namespace ConfigError

/-- Names in quotes as a list of choices. -/
def choices (names : List String) : String :=
  let quoted := names.map fun n => "`" ++ n ++ "`"
  if names.length = 2 then " or ".intercalate quoted
  else "one of " ++ ", ".intercalate quoted

/-- What is said about an error in a document that can be read. -/
def detail : ConfigError → String
  | unreadable e => e.message
  | malformed => "not a valid document"
  | wrongKind => "a value of another kind was expected"
  | unknownField name expected =>
    "unknown field `" ++ name ++ "`, expected " ++ choices expected
  | missingField name => "missing field `" ++ name ++ "`"
  | unknownVariant name expected =>
    "unknown variant `" ++ name ++ "`, expected " ++ choices expected

/-- What is said about an error. -/
def message (e : ConfigError) : String :=
  match e with
  | unreadable _ => e.detail
  | _ => "TOML parse error\n" ++ e.detail

end ConfigError

namespace Config

open Toml

/-! ## Values of fields -/

/-- A truth value. -/
def flag : Value → Except ConfigError Bool
  | .boolean b => .ok b
  | _ => .error .wrongKind

/-- A string. -/
def text : Value → Except ConfigError String
  | .string s => .ok s
  | _ => .error .wrongKind

/-- The items of a value that is a list, also of tables. -/
def items : Value → Except ConfigError (List Value)
  | .array vs => .ok vs
  | .tables members => .ok (members.map (.table .header))
  | _ => .error .wrongKind

/-- Whether a value holds nothing. -/
def isHollow : Value → Bool
  | .array vs => vs.isEmpty
  | .table _ entries => entries.isEmpty
  | .tables members => members.isEmpty
  | _ => false

/-- **Choices** — one of several words: a string, or the only key of a table whose value holds
nothing. -/
def choice {α : Type} (ofName? : String → Option α) (names : List String) (v : Value) :
    Except ConfigError α := do
  let (name, hollow) ← match v with
    | .string s => .ok (s, true)
    | .table _ [(key, inner)] => .ok (key, isHollow inner)
    | _ => .error .wrongKind
  match ofName? name with
  | none => .error (.unknownVariant name names)
  | some a => if hollow then .ok a else .error .wrongKind

/-! ## Records -/

/-- The field that a point in time has where a record is expected. -/
def dateTimeField : String := "$__toml_private_datetime"

/-- **Records** — a value with named fields, which are set one after the other; the first error
counts. Beside a table, a list of values will do: these go to the fields in order, and what is left
over is ignored. A point in time is a record with a single field, which no record has. -/
def record {α : Type} (fields : List (String × (Value → α → Except ConfigError α))) (start : α)
    (v : Value) : Except ConfigError α := do
  let setNamed (a : α) (entry : String × Value) : Except ConfigError α :=
    match fields.lookup entry.1 with
    | none => .error (.unknownField entry.1 (fields.map (·.1)))
    | some set => set entry.2 a
  match v with
  | .table _ entries => entries.foldlM setNamed start
  | .dateTime => setNamed start (dateTimeField, v)
  | v => (fields.zip (← items v)).foldlM (fun a (field, item) => field.2 item a) start

/-- The fields of the options. -/
def optionFields : List (String × (Value → Options → Except ConfigError Options)) :=
  [("log", fun v o => do return { o with log := ← flag v }),
    ("hide_comments", fun v o => do return { o with hideComments := ← flag v }),
    ("breakpoint_collections", fun v o => do return { o with collections := ← flag v }),
    ("sort", fun v o => do
      return { o with sort := ← choice SortPolicy.ofName? (SortPolicy.all.map (·.name)) v }),
    ("newline", fun v o => do
      return { o with lineEnding := ← choice LineEnding.ofName? (LineEnding.all.map (·.name)) v }),
    ("fail_on_missing_media", fun v o => do return { o with failOnMissingMedia := ← flag v })]

/-- A target whose fields need not be there yet. -/
structure PartialTarget where
  sources : Option (List String) := none
  destination : Option Path := none

/-- The fields of a target. -/
def targetFields : List (String × (Value → PartialTarget → Except ConfigError PartialTarget)) :=
  [("src", fun v t => do return { t with sources := some (← (← items v).mapM text) }),
    ("dest", fun v t => do return { t with destination := some ⟨← text v⟩ })]

/-- Whether a value names its fields. -/
def hasNames : Value → Bool
  | .table .. => true
  | _ => false

/-- A target, both fields of which must be there. -/
def target (v : Value) : Except ConfigError Target := do
  let t ← record targetFields {} v
  let missing (name : String) : ConfigError := if hasNames v then .missingField name else .wrongKind
  match t.sources, t.destination with
  | some sources, some destination => return ⟨sources, destination⟩
  | none, _ => .error (missing "src")
  | _, none => .error (missing "dest")

/-- The fields of a configuration. -/
def configFields : List (String × (Value → Config → Except ConfigError Config)) :=
  [("options", fun v c => do return { c with options := ← record optionFields {} v }),
    ("target", fun v c => do return { c with targets := ← (← items v).mapM target })]

/-! ## Task files -/

/-- A configuration without targets, in which all options are as by default. -/
def empty : Config := ⟨{}, []⟩

/-- **Parsing** — the configuration of a text. -/
def parse (text : String) : Except ConfigError Config :=
  match Toml.parse text with
  | none => .error .malformed
  | some entries => record configFields empty (.table .header entries)

/-- **Loading** — the configuration of a file. -/
def load (tree : FileTree) (path : Path) : Except ConfigError Config :=
  match tree.read path with
  | .error e => .error (.unreadable e)
  | .ok text => parse text

end Config

end StyleSplit
