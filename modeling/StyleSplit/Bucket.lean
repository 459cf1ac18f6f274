import StyleSplit.Tag
set_option autoImplicit false

/-!
# Buckets and collections

A bucket is a part of a stylesheet as it is written: a tag and a text. A collection is a bucket
that joins the base with the media groups up to one of them, so that a page can load everything
for a screen width as one file.

## Main definitions

* `StyleSplit.Bucket` — a tag and a text.
* `StyleSplit.collections` — the collections of a base text and a list of buckets.

## Main results

* `StyleSplit.map_tag_collections` — there is one collection for each bucket, tagged after it.
-/

namespace StyleSplit

/-- **Buckets** — a part of a stylesheet, which becomes one file. -/
structure Bucket where
  tag : String
  css : String
  deriving DecidableEq, Repr, Inhabited

/-- What stands between the parts of a collection. -/
def collectionSeparator : String := "\n\n"

/-- The collections that go on from the parts already joined. -/
def collectionsFrom (parts : List String) : List Bucket → List Bucket
  | [] => []
  | g :: gs =>
    let parts := parts ++ [g.css]
    ⟨Tag.collection g.tag, collectionSeparator.intercalate parts⟩ :: collectionsFrom parts gs

/-- **Collections** — for each group the base and all groups up to it, joined. An empty base is left
out, so that no collection begins with a separator. -/
def collections (base : String) (groups : List Bucket) : List Bucket :=
  collectionsFrom (if base = "" then [] else [base]) groups

theorem map_tag_collectionsFrom (parts : List String) (groups : List Bucket) :
    (collectionsFrom parts groups).map (·.tag) = groups.map fun g => Tag.collection g.tag := by
  induction groups generalizing parts with
  | nil => rfl
  | cons g gs ih => rw [collectionsFrom, List.map_cons, List.map_cons, ih]

/-- The tags of collections are those of the groups behind the prefix, in the same order. -/
theorem map_tag_collections (base : String) (groups : List Bucket) :
    (collections base groups).map (·.tag) = groups.map fun g => Tag.collection g.tag :=
  map_tag_collectionsFrom ..

end StyleSplit
