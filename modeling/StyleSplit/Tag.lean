set_option autoImplicit false

/-!
# Tags

Every part that a stylesheet is split into carries a tag, which becomes part of the name of its
file. The base part and the keyframes have fixed tags, a media group is tagged by its identifier,
and a collection by `base_` and the identifier of its last group.

## Main definitions

* `StyleSplit.Tag.base`, `StyleSplit.Tag.keyframes` — the fixed tags.
* `StyleSplit.Tag.collection` — the tag of a collection.
* `StyleSplit.Tag.isReserved` — the words that no media group may have as its tag.
-/

namespace StyleSplit.Tag

/-- The tag of the base part. -/
def base : String := "base"

/-- The tag of the keyframes part. -/
def keyframes : String := "keyframes"

/-- The tag of the media group whose condition says nothing. -/
def unconditional : String := "media"

/-- What is put before the identifier of a condition that reads like a fixed tag. -/
def mediaPrefix : String := "media-"

/-- What the tags of all collections begin with. -/
def collectionPrefix : String := "base_"

/-- The tag of the collection that ends with the media group `id`. -/
def collection (id : String) : String :=
  collectionPrefix ++ id

/-- **Reserved words** — the fixed tags, the tags of collections, the tag of the unconditional
group, and whatever begins like a prefixed identifier: without the last, a prefixed identifier
could be the identifier of another condition. -/
def isReserved (s : String) : Bool :=
  s == base || s == keyframes || collectionPrefix.toList.isPrefixOf s.toList ||
    s == unconditional || mediaPrefix.toList.isPrefixOf s.toList

end StyleSplit.Tag
