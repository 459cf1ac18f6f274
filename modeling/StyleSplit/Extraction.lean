import StyleSplit.Bucket
import StyleSplit.Notice
import StyleSplit.Options
import StyleSplit.Sheet.Writer
set_option autoImplicit false

/-!
# Extraction

A sheet is split into buckets: the base, the media groups in the order of the chosen policy, the
keyframes, and the collections if they are wanted.

## Main definitions

* `StyleSplit.Extraction` — the buckets of a sheet in the order in which they are written.
* `StyleSplit.Sheet.extract` — the extraction of a sheet.
* `StyleSplit.Sheet.notices` — what the log tells about it.
-/

namespace StyleSplit

/-- **Extractions** — the buckets of one sheet in the order in which they are written. -/
structure Extraction where
  buckets : List Bucket
  /-- The number of media groups. -/
  mediaGroups : Nat
  deriving DecidableEq, Repr, Inhabited

namespace Extraction

/-- Whether the sheet has a media group. -/
def hasMedia (e : Extraction) : Bool :=
  0 < e.mediaGroups

/-- The first bucket with the given tag. -/
def bucket? (e : Extraction) (tag : String) : Option Bucket :=
  e.buckets.find? (·.tag == tag)

end Extraction

/-! ## The parts as buckets -/

namespace Classification

/-- The media groups in the order in which they are written. -/
def sortedGroups (parts : Classification) (options : Options) : List MediaGroup :=
  options.sort.sort parts.groups

/-- The text of the base part. -/
def baseText (parts : Classification) (options : Options) : String :=
  Writer.base ⟨options.hideComments⟩ parts.base

/-- The base bucket, if some statement belongs to it. -/
def baseBucket (parts : Classification) (options : Options) : List Bucket :=
  if parts.base.isEmpty then [] else [⟨Tag.base, parts.baseText options⟩]

/-- The buckets of the media groups. -/
def mediaBuckets (parts : Classification) (options : Options) : List Bucket :=
  (parts.sortedGroups options).map fun g => ⟨g.id, Writer.mediaGroup ⟨options.hideComments⟩ g⟩

/-- The keyframes bucket, if there is a keyframes block. -/
def keyframesBucket (parts : Classification) (options : Options) : List Bucket :=
  if parts.keyframes.isEmpty then []
  else [⟨Tag.keyframes, Writer.keyframes ⟨options.hideComments⟩ parts.keyframes⟩]

/-- The collections, if they are wanted. -/
def collectionBuckets (parts : Classification) (options : Options) : List Bucket :=
  if options.collections then collections (parts.baseText options) (parts.mediaBuckets options)
  else []

/-- The buckets of all parts: the base, the media groups, the keyframes, then the collections. -/
def extract (parts : Classification) (options : Options) : Extraction where
  buckets := parts.baseBucket options ++ parts.mediaBuckets options ++
    parts.keyframesBucket options ++ parts.collectionBuckets options
  mediaGroups := parts.groups.length

/-- What the log tells about the parts: what was ignored, and the media groups in the order in which
they are written if the caller wants them logged. -/
def notices (parts : Classification) (options : Options) : List Notice :=
  parts.ignored.map .ignored ++
    if options.log && parts.hasMedia then
      .mediaHeading :: (parts.sortedGroups options).map .mediaGroup
    else []

end Classification

/-! ## Sheets -/

/-- **Extraction** — the buckets of the parts that the statements of a sheet are sorted into. -/
def Sheet.extract (sheet : Sheet) (options : Options) : Extraction :=
  (classify sheet.statements).extract options

/-- **Notices of an extraction** — what the log tells about the parts of a sheet. -/
def Sheet.notices (sheet : Sheet) (options : Options) : List Notice :=
  (classify sheet.statements).notices options

end StyleSplit
