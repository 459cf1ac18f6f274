import StyleSplit.Files.Path
import StyleSplit.Text.Occurrence
set_option autoImplicit false

/-!
# Destinations

Where the parts of a stylesheet are written follows from the path of the source, the destination
that the caller names, and the tags of the parts.

## Main definitions

* `StyleSplit.destinationOf` — the path that the parts of a source are named after.
* `StyleSplit.bucketPath` — the path of one part.
-/

namespace StyleSplit

/-- **Destinations** — a destination that contains the name of the source, or that names a
stylesheet, is taken as it is; any other is a directory, in which the parts are named after the
source. -/
def destinationOf (source dest : Path) : Path :=
  match source.fileName? with
  | none => dest
  | some name =>
    if occurs name.toList dest.text.toList || dest.extension? == some "css" then dest
    else dest.join ⟨name⟩

/-- **The path of a part** — beside the destination, named by its stem and the tag. -/
def bucketPath (destination : Path) (tag : String) : Path :=
  destination.withFileName (destination.stem ++ "-" ++ tag ++ ".css")

end StyleSplit
