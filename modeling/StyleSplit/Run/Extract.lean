import StyleSplit.Extraction
import StyleSplit.Files.Creation
import StyleSplit.Run.Discovery
import StyleSplit.Sheet.Parser
set_option autoImplicit false

/-!
# Extraction of files

A source file is read, split into buckets, and these are written beside its destination. A run does
so for all files of all targets; a file that fails does not keep the others from being written.

## Main definitions

* `StyleSplit.Outcome` — the result of an operation with the tree and the notices it leaves.
* `StyleSplit.writeBucket`, `StyleSplit.writeBuckets` — the writing of buckets.
* `StyleSplit.extractFile` — the extraction of one file.
* `StyleSplit.extractAll`, `StyleSplit.run` — those of all files of a target, and of all targets.
-/

namespace StyleSplit

/-- **Outcomes** — the result of an operation on files, with the tree that it leaves and the notices
it gave on the way. -/
structure Outcome (α : Type) where
  result : Except Failure α
  tree : FileTree
  notices : List Notice

/-! ## Writing -/

/-- **Writing a bucket** — the directories around the file are created first. What was created stays
when the writing fails. -/
def writeBucket (tree : FileTree) (path : Path) (css : String) (e : LineEnding) : Outcome Unit :=
  let content := (e.apply css).toUTF8
  let write (tree : FileTree) : Outcome Unit :=
    match tree.write path content with
    | .ok tree => ⟨.ok (), tree, []⟩
    | .error e => ⟨.error (.system path e), tree, []⟩
  match path.parent? with
  | none => write tree
  | some parent =>
    if parent.text = "" then write tree
    else
      let made := tree.createDirectories parent
      match made.error? with
      | some e => ⟨.error (.system parent e), made.tree, []⟩
      | none => write made.tree

/-- **Writing buckets** — one after the other, up to the first that fails; the result is the list of
their paths. -/
def writeBuckets (tree : FileTree) (destination : Path) (e : LineEnding) :
    List Bucket → Outcome (List Path)
  | [] => ⟨.ok [], tree, []⟩
  | b :: bs =>
    let path := bucketPath destination b.tag
    let first := writeBucket tree path b.css e
    match first.result with
    | .error f => ⟨.error f, first.tree, []⟩
    | .ok () =>
      let others := writeBuckets first.tree destination e bs
      ⟨others.result.map (path :: ·), others.tree, .written path :: others.notices⟩

/-! ## One file -/

/-- **Reports** — what happened to a source file. -/
structure FileReport where
  source : Path
  /-- The paths of the buckets in the order of writing. -/
  written : List Path
  mediaGroups : Nat
  deriving DecidableEq, Repr, Inhabited

/-- The sheet of a source file. -/
def readSheet (tree : FileTree) (path : Path) : Except Failure Sheet :=
  match tree.read path with
  | .error e => .error (.system path e)
  | .ok css =>
    match Sheet.parse css with
    | .error e => .error (.parse path e)
    | .ok sheet => .ok sheet

/-- **Extraction of a file** — its sheet is read, split, and written. Nothing is written if the
sheet cannot be read, or has no media group though the options ask for one. -/
def extractFile (tree : FileTree) (source : SourceFile) (options : Options) :
    Outcome FileReport :=
  match readSheet tree source.path with
  | .error f => ⟨.error f, tree, [.found source.path]⟩
  | .ok sheet =>
    let extraction := sheet.extract options
    let notices := .found source.path :: sheet.notices options
    if !extraction.hasMedia && options.failOnMissingMedia then
      ⟨.error (.noMedia source.path), tree, notices⟩
    else
      let warning := if extraction.hasMedia then [] else [.noMedia source.path]
      let written := writeBuckets tree source.destination options.lineEnding extraction.buckets
      ⟨written.result.map fun paths => ⟨source.path, paths, extraction.mediaGroups⟩, written.tree,
        notices ++ warning ++ written.notices⟩

/-! ## All files -/

/-- **Summaries** — the reports of the files that were written, and the failures of the others. -/
structure Summary where
  files : List FileReport
  failures : List Failure
  deriving DecidableEq, Repr, Inhabited

namespace Summary

/-- No file yet. -/
def empty : Summary := ⟨[], []⟩

/-- Whether no file failed. -/
def isSuccess (s : Summary) : Bool :=
  s.failures.isEmpty

/-- Two summaries one after the other. -/
def append (s t : Summary) : Summary :=
  ⟨s.files ++ t.files, s.failures ++ t.failures⟩

/-- The summary of one file. -/
def ofResult : Except Failure FileReport → Summary
  | .ok report => ⟨[report], []⟩
  | .error failure => ⟨[], [failure]⟩

end Summary

/-- What the extraction of several files leaves. -/
structure Processed where
  summary : Summary
  tree : FileTree
  notices : List Notice

/-- **Extraction of several files** — one after the other, each on the tree that the one before it
left, whether that one failed or not. -/
def extractAll (tree : FileTree) (options : Options) : List SourceFile → Processed
  | [] => ⟨.empty, tree, []⟩
  | source :: more =>
    let first := extractFile tree source options
    let others := extractAll first.tree options more
    ⟨(Summary.ofResult first.result).append others.summary, others.tree,
      first.notices ++ others.notices⟩

/-- **Runs** — all targets one after the other, each on the tree that the one before it left. A
target without files ends the run; what was written stays. -/
def run (tree : FileTree) (options : Options) : List Target → Outcome Summary
  | [] => ⟨.ok .empty, tree, []⟩
  | target :: more =>
    match discover tree target with
    | .error f => ⟨.error f, tree, []⟩
    | .ok sources =>
      let first := extractAll tree options sources
      let others := run first.tree options more
      ⟨others.result.map first.summary.append, others.tree, first.notices ++ others.notices⟩

end StyleSplit
