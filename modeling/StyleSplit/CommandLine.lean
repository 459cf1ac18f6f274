import StyleSplit.Config
import StyleSplit.Run.Extract
import StyleSplit.Text.ControlSequence
set_option autoImplicit false

/-!
# The command line

The arguments name source files, a destination, a task file and options. They are read strictly: no
option may be given twice, and no option is known by a part of its name.

## Main definitions

* `StyleSplit.Arguments` — what the arguments ask for.
* `StyleSplit.Arguments.read` — the meaning of a list of arguments.
* `StyleSplit.execute` — what the program does with a list of arguments.
-/

namespace StyleSplit

/-! ## Arguments -/

/-- **Arguments** — what the arguments ask for. -/
structure Arguments where
  sources : List String := []
  destination : Option Path := none
  config : Option Path := none
  log : Bool := false
  hideComments : Bool := false
  collections : Bool := false
  sort : Option SortPolicy := none
  lineEnding : Option LineEnding := none
  strict : Bool := false
  deriving DecidableEq, Repr, Inhabited

/-- The options that take a value. -/
inductive ValueOption
  | destination
  | config
  | sort
  | lineEnding
  deriving DecidableEq, Repr, Inhabited

/-- The option that a long name means. -/
def ValueOption.ofName? : String → Option ValueOption
  | "dest" => some destination
  | "config" => some config
  | "sort" => some sort
  | "newline" => some lineEnding
  | _ => none

/-- **Usage errors** — what is wrong with the arguments. -/
inductive UsageError
  | unknown (argument : String)
  | repeated (argument : String)
  | missingValue (argument : String)
  | badValue (argument value : String)
  /-- A flag has a value. -/
  | needlessValue (argument : String)
  deriving DecidableEq, Repr, Inhabited

/-- What is said about a usage error. -/
def UsageError.message : UsageError → String
  | unknown a => "unexpected argument '" ++ a ++ "'"
  | repeated a => "the argument '" ++ a ++ "' cannot be used more than once"
  | missingValue a => "the argument '" ++ a ++ "' needs a value"
  | badValue a v => "invalid value '" ++ v ++ "' for '" ++ a ++ "'"
  | needlessValue a => "the argument '" ++ a ++ "' takes no value"

/-- What a list of arguments means. -/
inductive Request
  | run (a : Arguments)
  | help
  | misuse (e : UsageError)
  deriving DecidableEq, Repr, Inhabited

namespace Arguments

/-- The first value of an option; a second one is an error. -/
def once {α : Type} (argument : String) (old : Option α) (new : Except UsageError α) :
    Except UsageError α :=
  if old.isSome then
    match new with
    | .ok _ => .error (.repeated argument)
    | .error e => .error e
  else new

/-- A path as a value, which must not be empty. -/
def pathValue (argument value : String) : Except UsageError Path :=
  if value = "" then .error (.missingValue argument) else .ok ⟨value⟩

/-- A word as a value, which must name a choice. -/
def wordValue {α : Type} (ofName? : String → Option α) (argument value : String) :
    Except UsageError α :=
  match ofName? value with
  | some a => .ok a
  | none => .error (.badValue argument value)

/-- The arguments with the value of an option. -/
def setValue (a : Arguments) (o : ValueOption) (argument value : String) :
    Except UsageError Arguments := do
  match o with
  | .destination =>
    return { a with destination := ← once argument a.destination (pathValue argument value) }
  | .config => return { a with config := ← once argument a.config (pathValue argument value) }
  | .sort =>
    return { a with sort := ← once argument a.sort (wordValue SortPolicy.ofName? argument value) }
  | .lineEnding =>
    return { a with
      lineEnding := ← once argument a.lineEnding (wordValue LineEnding.ofName? argument value) }

/-- The arguments with a flag. -/
def setFlag (a : Arguments) (name : String) : Except UsageError Arguments :=
  let raise (old : Bool) (new : Arguments) : Except UsageError Arguments :=
    if old then .error (.repeated name) else .ok new
  match name with
  | "log" => raise a.log { a with log := true }
  | "hide-comments" => raise a.hideComments { a with hideComments := true }
  | "collections" => raise a.collections { a with collections := true }
  | "strict" => raise a.strict { a with strict := true }
  | _ => .error (.unknown name)

/-- What an argument is by its form. -/
inductive Form
  /-- A source, or the value of the option before it. -/
  | word
  /-- Two hyphens, behind which all arguments are sources. -/
  | escape
  | long (name : String) (value : Option String)
  /-- A letter and what follows it in the same argument. -/
  | short (letter : Char) (rest : List Char)
  deriving DecidableEq, Repr, Inhabited

/-- **The form of an argument.** A hyphen alone is a word. -/
def form (argument : String) : Form :=
  match argument.toList with
  | ['-', '-'] => .escape
  | '-' :: '-' :: r =>
    let name := String.ofList (r.takeWhile (· != '='))
    match r.dropWhile (· != '=') with
    | [] => .long name none
    | _ :: value => .long name (some (String.ofList value))
  | '-' :: c :: r => .short c r
  | _ => .word

/-- The option that a letter means. -/
def optionOfLetter? : Char → Option ValueOption
  | 'd' => some .destination
  | 'c' => some .config
  | _ => none

/-- What a single argument asks for by itself. -/
inductive Asked
  | done (a : Arguments)
  /-- The next argument is the value of an option. -/
  | value (o : ValueOption)
  | escape
  | help
  | misuse (e : UsageError)

/-- The arguments that an option leads to. -/
def Asked.ofResult : Except UsageError Arguments → Asked
  | .ok a => done a
  | .error e => misuse e

/-- **One argument** — what it adds to those before it. -/
def ask (a : Arguments) (argument : String) : Asked :=
  match form argument with
  | .word => .done { a with sources := a.sources ++ [argument] }
  | .escape => .escape
  | .long name value =>
    match ValueOption.ofName? name, value with
    | some o, some v => .ofResult (a.setValue o argument v)
    | some o, none => .value o
    | none, some _ => .misuse (.needlessValue argument)
    | none, none => if name = "help" then .help else .ofResult (a.setFlag name)
  | .short letter rest =>
    if letter = 'h' then .help
    else
      match optionOfLetter? letter, rest with
      | some o, [] => .value o
      | some o, '=' :: value => .ofResult (a.setValue o argument (String.ofList value))
      | some o, value => .ofResult (a.setValue o argument (String.ofList value))
      | none, _ => .misuse (.unknown argument)

/-- **Reading arguments** — one after the other, up to the first that asks for help or is wrong. -/
def readFrom (a : Arguments) : List String → Request
  | [] => .run a
  | argument :: more =>
    match a.ask argument with
    | .done a => a.readFrom more
    | .escape => .run { a with sources := a.sources ++ more }
    | .help => .help
    | .misuse e => .misuse e
    | .value o =>
      match more with
      | [] => .misuse (.missingValue argument)
      | value :: more =>
        if form value = .word then
          match a.setValue o argument value with
          | .ok a => a.readFrom more
          | .error e => .misuse e
        else .misuse (.missingValue argument)

/-- The request of a list of arguments. -/
def read (args : List String) : Request :=
  readFrom {} args

/-! ## Configurations -/

/-- A configuration with the options of the arguments added, and their sources as the last
target. -/
def addTo (a : Arguments) (c : Config) : Config where
  options :=
    { log := c.options.log || a.log
      hideComments := c.options.hideComments || a.hideComments
      collections := c.options.collections || a.collections
      sort := a.sort.getD c.options.sort
      lineEnding := a.lineEnding.getD c.options.lineEnding
      failOnMissingMedia := c.options.failOnMissingMedia || a.strict }
  targets :=
    if a.sources.isEmpty then c.targets
    else c.targets ++ [⟨a.sources, a.destination.getD ⟨"."⟩⟩]

end Arguments

/-! ## The program -/

/-- What a run of the program leaves. -/
structure Exit where
  code : Nat
  /-- What is written to the standard output. -/
  output : String
  /-- What is written to the standard error output. -/
  log : String
  tree : FileTree

/-- The name of a level in the width of the longest. -/
def Level.label (l : Level) : String :=
  "[" ++ l.name ++ String.ofList (List.replicate (5 - l.name.length) ' ') ++ "] "

/-- Words of several lines, those behind the first indented. -/
def indented (words : String) : String :=
  String.ofList (words.toList.flatMap fun c => if c = '\n' then "\n    ".toList else [c])

/-- **A line of the log** — the level and the words. Words may quote foreign text, so the line is
written without control sequences; one that is still open at the end takes the line end with it. -/
def logLine (l : Level) (words : String) : String :=
  String.ofList (withoutControls (l.label ++ indented words ++ "\n").toList)

/-- The lines of the log for notices; those for developers are not shown. -/
def logLines (notices : List Notice) : String :=
  String.join ((notices.filter (·.level ≠ .debug)).map fun n => logLine n.level n.text)

/-- What the program says it is. -/
def introduction : String :=
  "mqextract - split stylesheets into mobile-first breakpoint files"

/-- What is said when help is asked for. -/
def helpText : String :=
  "Combine and extract media queries for mobile-first responsive design

Usage: mqextract [OPTIONS] [SOURCES]...

Arguments:
  [SOURCES]...  Source files or glob patterns

Options:
  -d, --dest <DEST>        Destination directory (or file) for the sources [default: .]
  -c, --config <CONFIG>    TOML task file with [options] and [[target]] tables
      --log                Log every processed media query
      --hide-comments      Leave comments out of the output
      --collections        Also write cumulative base_<breakpoint> files
      --sort <SORT>        Breakpoint order: ascending or min-width-last
      --newline <NEWLINE>  Line endings of written files: lf, crlf or native
      --strict             Fail on files without any media query
  -h, --help               Print help
"

/-- What a run with a configuration leaves. -/
def executeConfig (tree : FileTree) (c : Config) : Exit :=
  if c.targets.isEmpty then
    let words := "No sources given; pass files or a config with [[target]] entries"
    ⟨1, "", logLine .error words, tree⟩
  else
    let intro := if c.options.log then logLine .info introduction else ""
    let outcome := run tree c.options c.targets
    let failures := match outcome.result with
      | .ok summary => summary.failures
      | .error f => [f]
    let log := intro ++ logLines outcome.notices ++
      String.join (failures.map fun f => logLine .error f.text)
    ⟨if failures.isEmpty then 0 else 1, "", log, outcome.tree⟩

/-- The configuration that arguments start from. -/
def startConfig (tree : FileTree) (a : Arguments) : Except (Path × ConfigError) Config :=
  match a.config with
  | none => .ok Config.empty
  | some path =>
    match Config.load tree path with
    | .ok c => .ok c
    | .error e => .error (path, e)

/-- **The program** — what it does with a list of arguments and the files it finds. -/
def execute (tree : FileTree) (args : List String) : Exit :=
  match Arguments.read args with
  | .help => ⟨0, helpText, "", tree⟩
  | .misuse e => ⟨2, "", "error: " ++ e.message ++ "\n\nFor more information, try '--help'.\n", tree⟩
  | .run a =>
    match startConfig tree a with
    | .error (path, e) =>
      ⟨1, "", logLine .error ("Invalid config " ++ path.text ++ ": " ++ e.message), tree⟩
    | .ok c => executeConfig tree (a.addTo c)

end StyleSplit
