import StyleSplit.Proofs.Extraction.Tags
import StyleSplit.Proofs.Files.Parent
import StyleSplit.Sheet.Parser
set_option autoImplicit false

/-!
# Parts stay beside the destination

A part of a sheet is tagged by a condition of the sheet, and its tag is a piece of the path that it
is written to. Whatever the sheet holds, that path leads nowhere but to the directory of the
destination: a tag is made of characters that separate nothing, and stands in the middle of a file
name.

## Main results

* `StyleSplit.bucketPath_of_fileName?` — the path of a part with a plain tag.
* `StyleSplit.Sheet.bucketPath_confined` — the paths of all parts of a sheet.
-/

namespace StyleSplit

/-- **The path of a part** — its file name stands in the place of that of the destination. -/
lemma bucketPath_of_fileName? {destination : Path} {name tag : String}
    (h : destination.fileName? = some name) (hslash : '/' ∉ tag.toList) :
    ∃ parent, destination.parent? = some parent ∧
      (bucketPath destination tag).parent? = some parent ∧
      (bucketPath destination tag).fileName? = some (bucketName destination tag) ∧
      (bucketPath destination tag).components = parent.components ++ [bucketName destination tag] :=
  Path.withFileName_of_fileName? h (slash_notMem_bucketName destination hslash)
    (isIdle_bucketName destination tag) (bucketName_ne destination tag (by decide))

namespace Sheet

/-- **Parts stay beside the destination** — whatever the conditions of a sheet are, the tag of each
bucket is not empty and made of lower-case letters, digits, points, low lines, commas and hyphens.
If the destination has a file name, the path of the bucket has the parent of the destination, and
behind it a single component: the stem of the destination, a hyphen, the tag and `.css`. -/
theorem bucketPath_confined (sheet : Sheet) (options : Options) {destination : Path} {name : String}
    (hname : destination.fileName? = some name) :
    ∀ b ∈ (sheet.extract options).buckets,
      (b.tag ≠ "" ∧ ∀ c ∈ b.tag.toList, Condition.isKeyChar c) ∧
      ∃ parent, destination.parent? = some parent ∧
        (bucketPath destination b.tag).parent? = some parent ∧
        let part := (Path.splitName name).1 ++ "-" ++ b.tag ++ ".css"
        (bucketPath destination b.tag).fileName? = some part ∧
        (bucketPath destination b.tag).components = parent.components ++ [part] := by
  intro b hb
  have htag := List.mem_map_of_mem (f := Bucket.tag) hb
  have hstem : destination.stem = (Path.splitName name).1 := by
    rw [Path.stem, hname]
  rw [← hstem]
  exact ⟨isPlain_of_mem_tags htag, bucketPath_of_fileName? hname (slash_notMem_tag htag)⟩

/-- Conditions that look like paths, one with a NUL. -/
def pathConditions : String :=
  "@media ../../etc/passwd\x7ba\x7b\x7d\x7d@media /\x00\\..\x7bb\x7b\x7d\x7d"

/-- The parts of such a sheet, with collections, beside a destination. -/
theorem bucketPath_confined_pathConditions :
    let options : Options := { collections := true, sort := .minWidthLast }
    let destination : Path := ⟨"out/.././style.min.css/."⟩
    destination.fileName? = some "style.min.css" ∧
      ∃ sheet, Sheet.parse pathConditions = .ok sheet ∧
        (sheet.extract options).buckets.map (·.tag) =
          [".._.._etc_passwd", "_..", "base_.._.._etc_passwd", "base__.."] ∧
        ∀ b ∈ (sheet.extract options).buckets,
          (b.tag ≠ "" ∧ ∀ c ∈ b.tag.toList, Condition.isKeyChar c) ∧
          ∃ parent, destination.parent? = some parent ∧
            (bucketPath destination b.tag).parent? = some parent ∧
            let part := (Path.splitName "style.min.css").1 ++ "-" ++ b.tag ++ ".css"
            (bucketPath destination b.tag).fileName? = some part ∧
            (bucketPath destination b.tag).components = parent.components ++ [part] := by
  intro options destination
  have hname : destination.fileName? = some "style.min.css" := by decide +kernel
  have hread : (Sheet.parse pathConditions).toOption.map (fun sheet =>
      (sheet.extract options).buckets.map (·.tag)) =
        some [".._.._etc_passwd", "_..", "base_.._.._etc_passwd", "base__.."] := by
    decide +kernel
  obtain ⟨sheet, hparse, htags⟩ := Sheet.exists_of_map_parse hread
  exact ⟨hname, sheet, hparse, htags, Sheet.bucketPath_confined sheet options hname⟩

end Sheet

end StyleSplit
