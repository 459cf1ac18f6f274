import StyleSplit.Proofs.Extraction.Confinement
import StyleSplit.Proofs.Files.EmptyDirectory
import StyleSplit.Proofs.Media.Parts
import StyleSplit.Proofs.Run.Writes
set_option autoImplicit false

/-!
# Names that are too long

A tag is as long as its condition, and the system takes file names of some length only. Where
nothing else is in the way, the extraction of a file succeeds exactly if all its parts have names
that are short enough; else it fails at the first part that has not.

## Main definitions

* `StyleSplit.Bucket.fits` — buckets whose file names and paths are short enough.
* `StyleSplit.FileTree.IsInside` — destinations in an empty directory.
* `StyleSplit.FileTree.TakesFiles` — directories that take the file of any part.

## Main results

* `StyleSplit.writeBucket_of_takesFiles` — the writing of a bucket into a directory that takes it.
* `StyleSplit.result_writeBuckets_of_isInside` — the writing of all buckets.
* `StyleSplit.extractFile_isInside` — the extraction of a file into an empty directory.
-/

namespace StyleSplit

open FileTree

/-! ## Lengths -/

/-- **Names that fit** — the system takes the file name and the path of the bucket. -/
def Bucket.fits (b : Bucket) (destination : Path) : Bool :=
  (bucketName destination b.tag).utf8ByteSize ≤ maxNameBytes &&
    (bucketPath destination b.tag).text.utf8ByteSize ≤ maxPathBytes

/-- **Destinations in an empty directory** — the destination has a file name, what is in front of it
leads into the empty directory, and its text is in order. -/
structure FileTree.IsInside (t : FileTree) (destination : Path) (d : Place) : Prop where
  isEmpty : t.IsEmptyDirectory d
  leadsInto : ∃ name parent names, destination.fileName? = some name ∧
    destination.parent? = some parent ∧ t.LeadsInto parent d names
  text : textError? destination = none

/-- **Directories that take files** — the path leads to the directory, and no directory in it has a
name that a file can have. -/
structure FileTree.TakesFiles (t : FileTree) (parent : Path) (d : Place) : Prop where
  enter : t.enter (t.startOf parent) parent.names = .ok d
  kind?_ne : ∀ name, Path.IsFileName name → t.kind? (d ++ [name]) ≠ some .directory

variable {t u : FileTree} {d : Place} {destination parent : Path} {name : String} {b : Bucket}

/-! ## The path of a part -/

lemma Bucket.fits_iff : b.fits destination = true ↔
    (bucketName destination b.tag).utf8ByteSize ≤ maxNameBytes ∧
      (bucketPath destination b.tag).text.utf8ByteSize ≤ maxPathBytes := by
  simp [Bucket.fits]

/-- A name that fits is one that a file can have. -/
lemma isFileName_bucketName (hslash : '/' ∉ b.tag.toList) (hfits : b.fits destination = true) :
    Path.IsFileName (bucketName destination b.tag) where
  isIdle := isIdle_bucketName destination b.tag
  ne_dots := bucketName_ne_dots destination b.tag
  slash_notMem := slash_notMem_bucketName destination hslash
  length_le := (Bucket.fits_iff.mp hfits).1

/-- The path of a part is its file name behind the parent of the destination. -/
lemma bucketPath_eq_join (hname : destination.fileName? = some name)
    (hparent? : destination.parent? = some parent) (tag : String) :
    bucketPath destination tag = parent.join ⟨bucketName destination tag⟩ := by
  rw [bucketPath, Path.withFileName, hname, hparent?]
  rfl

/-- The parent of a path with a file name, unless it is empty, is tidy and in order. -/
lemma isTidy_of_parent? (hname : destination.fileName? = some name)
    (hparent? : destination.parent? = some parent) (htext : textError? destination = none)
    (hne : parent.text ≠ "") : parent.IsTidy ∧ textError? parent = none := by
  obtain ⟨other, hother, hcases⟩ := Path.exists_parent_of_fileName? hname
  obtain rfl := Option.some.inj (hparent?.symm.trans hother)
  exact ⟨hcases.resolve_left hne,
    textError?_of_isPrefix (Path.isPrefix_of_parent? hname hparent?) hne htext⟩

section

variable (hname : destination.fileName? = some name) (hparent? : destination.parent? = some parent)
  (htext : textError? destination = none) (htag : Tag.IsPlain b.tag)

include hname hparent? htag

/-- The path of a part is a path to its file name, in the directory of the destination. -/
lemma exists_endsWith_bucketPath_of_parent? :
    (bucketPath destination b.tag).parent? = some parent ∧
      ∃ before, (bucketPath destination b.tag).EndsWith before (bucketName destination b.tag) := by
  have hslash : '/' ∉ b.tag.toList := htag.notMem (by decide)
  obtain ⟨other, hother, hpath, -⟩ := bucketPath_of_fileName? hname hslash
  obtain rfl := Option.some.inj (hparent?.symm.trans hother)
  obtain ⟨before, hends⟩ := exists_endsWith_bucketPath destination
  exact ⟨hpath, before, hends b.tag hslash⟩

include htext

/-- The path of a part is in order if it is not too long. -/
lemma textError?_bucketPath : textError? (bucketPath destination b.tag) =
    if maxPathBytes < (bucketPath destination b.tag).text.utf8ByteSize then some .nameTooLong
    else none := by
  obtain ⟨hnul, -, -⟩ := textError?_eq_none_iff.mp htext
  have hslash : '/' ∉ b.tag.toList := htag.notMem (by decide)
  have hnulTag : '\x00' ∉ b.tag.toList := htag.notMem (by decide)
  have hnulParent : '\x00' ∉ parent.text.toList := fun h =>
    hnul ((Path.isPrefix_of_parent? hname hparent?).subset h)
  have hnulStem : '\x00' ∉ destination.stem.toList := fun h => hnul (Path.mem_of_mem_stem h)
  have hnulName : '\x00' ∉ (bucketName destination b.tag).toList := by
    simp [bucketName, hnulTag, hnulStem]
  have hnulPath : '\x00' ∉ (bucketPath destination b.tag).text.toList := by
    rw [bucketPath_eq_join hname hparent?,
      Path.join_of_slash_notMem _ (slash_notMem_bucketName destination hslash)]
    split_ifs <;> simp [hnulParent, hnulName]
  obtain ⟨-, before, hends⟩ := exists_endsWith_bucketPath_of_parent? hname hparent? htag
  rw [textError?, if_neg (by simpa using hnulPath), if_neg hends.text_ne_empty]

/-- **Where a part goes** — to the directory of the destination under its name, if that fits. -/
lemma reach_bucketPath (hd : u.enter (u.startOf parent) parent.names = .ok d) :
    u.reach (bucketPath destination b.tag) =
      if b.fits destination then .ok (d ++ [bucketName destination b.tag])
      else .error .nameTooLong := by
  obtain ⟨hparent, before, hends⟩ := exists_endsWith_bucketPath_of_parent? hname hparent? htag
  have htextPath := textError?_bucketPath hname hparent? htext htag
  by_cases hlong : maxPathBytes < (bucketPath destination b.tag).text.utf8ByteSize
  · rw [if_pos hlong] at htextPath
    have hfits : b.fits destination = false := by simp [Bucket.fits, hlong]
    rw [reach, htextPath, hfits]
    rfl
  · rw [if_neg hlong] at htextPath
    obtain ⟨habsolute, hnames⟩ := hends.parent_eq hparent
    rw [reach_of_endsWith hends htextPath, ← startOf_congr habsolute, ← hnames, hd]
    change u.step d _ = _
    by_cases hlength : (bucketName destination b.tag).utf8ByteSize ≤ maxNameBytes
    · have hfits := Bucket.fits_iff.mpr ⟨hlength, Nat.not_lt.mp hlong⟩
      have hfile := isFileName_bucketName (htag.notMem (by decide)) hfits
      rw [hfits, step_of_isFileName hfile (get?_of_enter hd)]
      rfl
    · have hfits : b.fits destination = false := by simp [Bucket.fits, hlength]
      rw [step_eq, kind?_eq_directory_iff.mpr (get?_of_enter hd), hfits]
      simp [hends.isIdle, bucketName_ne_dots, Nat.not_le.mp hlength]

/-! ## Writing the parts -/

/-- **Writing one part** — it is put under its name if that fits. -/
lemma writeBucket_of_takesFiles (h : u.TakesFiles parent d) (e : LineEnding) :
    writeBucket u (bucketPath destination b.tag) b.css e =
      if b.fits destination then
        ⟨.ok (), u.put (d ++ [bucketName destination b.tag]) (.file (b.content e)), []⟩
      else ⟨.error (.system (bucketPath destination b.tag) .nameTooLong), u, []⟩ := by
  obtain ⟨hparent, before, hends⟩ := exists_endsWith_bucketPath_of_parent? hname hparent? htag
  have hdots := bucketName_ne_dots destination b.tag
  have hreach := reach_bucketPath hname hparent? htext htag h.enter
  cases hfits : b.fits destination with
  | true =>
    rw [hfits] at hreach
    have hfile := isFileName_bucketName (htag.notMem (by decide)) hfits
    exact writeBucket_of_reach hends hdots hreach (h.kind?_ne _ hfile) b.css e
  | false =>
    rw [hfits] at hreach
    have hcontent : ∀ content, writeContent u (bucketPath destination b.tag) content =
        ⟨.error (.system (bucketPath destination b.tag) .nameTooLong), u, []⟩ := by
      intro content
      rw [writeContent, write_eq hends hdots, hreach]
      rfl
    by_cases hempty : parent.text = ""
    · rw [writeBucket_of_parent_empty hparent hempty]
      exact hcontent _
    · obtain ⟨htidy, htextParent⟩ := isTidy_of_parent? hname hparent? htext hempty
      have hthere := isDirectory_of_enter htextParent h.enter
      rw [writeBucket_of_parent hparent hempty, createDirectories_of_isDirectory htidy hthere]
      exact hcontent _

end

/-- A directory that takes files takes further ones. -/
lemma FileTree.TakesFiles.put (h : u.TakesFiles parent d) {file : String}
    (hfile : Path.IsFileName file) (content : ByteArray) :
    (u.put (d ++ [file]) (.file content)).TakesFiles parent d where
  enter := by
    have hkept := keptIn_put_file (h.kind?_ne file hfile) content
    rw [hkept.startOf]
    exact enter_of_keptIn hkept h.enter
  kind?_ne := by
    intro other hother
    rw [kind?, get?_put_file (h.kind?_ne file hfile)]
    split_ifs
    · simp [Entry.kind]
    · exact h.kind?_ne other hother

/-- **Writing all parts** — their paths, or the failure at the first one whose name does not fit. -/
lemma result_writeBuckets_of_takesFiles (hname : destination.fileName? = some name)
    (hparent? : destination.parent? = some parent) (htext : textError? destination = none)
    {buckets : List Bucket} (htags : ∀ b ∈ buckets, Tag.IsPlain b.tag)
    (h : u.TakesFiles parent d) (e : LineEnding) :
    (writeBuckets u destination e buckets).result =
      match buckets.find? (!·.fits destination) with
      | none => .ok (buckets.map fun b => bucketPath destination b.tag)
      | some b => .error (.system (bucketPath destination b.tag) .nameTooLong) := by
  induction buckets generalizing u with
  | nil => rfl
  | cons b bs ih =>
    have htag := htags b List.mem_cons_self
    have hfirst := writeBucket_of_takesFiles hname hparent? htext htag h e
    rw [writeBuckets, hfirst, List.find?_cons]
    cases hfits : b.fits destination with
    | true =>
      have hfile := isFileName_bucketName (htag.notMem (by decide)) hfits
      have hothers := ih (fun x hx => htags x (List.mem_cons_of_mem _ hx))
        (h.put hfile (b.content e))
      simp only [if_true, Bool.not_true, hothers]
      cases bs.find? (!·.fits destination) <;> rfl
    | false => rfl

/-- An empty directory takes files. -/
lemma FileTree.IsEmptyDirectory.takesFiles (h : t.IsEmptyDirectory d)
    (hd : t.enter (t.startOf parent) parent.names = .ok d) : t.TakesFiles parent d where
  enter := hd
  kind?_ne := by
    intro file hfile
    rw [kind?_eq_none_iff.mpr (h.empty file [] hfile)]
    simp

/-- With the first part, the directories around it are created, and they take files. -/
lemma exists_takesFiles (hempty : t.IsEmptyDirectory d) (hname : destination.fileName? = some name)
    (hparent? : destination.parent? = some parent) (htext : textError? destination = none)
    {names : List String} (hleads : t.LeadsInto parent d names) (e : LineEnding) :
    ∃ made, made.TakesFiles parent (d ++ names) ∧ ∀ b : Bucket, Tag.IsPlain b.tag →
      writeBucket t (bucketPath destination b.tag) b.css e =
        writeBucket made (bucketPath destination b.tag) b.css e := by
  by_cases hnone : parent.text = ""
  · obtain ⟨front, hfront, henter⟩ := hleads.enters
    have hnames : parent.names = [] := by
      obtain rfl : parent = ⟨""⟩ := congrArg Path.mk hnone
      decide
    rw [hnames] at hfront
    obtain ⟨rfl, rfl⟩ := List.append_eq_nil_iff.mp hfront.symm
    rw [List.append_nil]
    exact ⟨t, hempty.takesFiles (hnames ▸ henter), fun _ _ => rfl⟩
  · obtain ⟨htidy, htextParent⟩ := isTidy_of_parent? hname hparent? htext hnone
    obtain ⟨made, hmade, -, hmadeEmpty, hmadeEnter⟩ :=
      exists_createDirectories hempty htidy htextParent hleads
    refine ⟨made, hmadeEmpty.takesFiles hmadeEnter, fun b htag => ?_⟩
    obtain ⟨hparent, -⟩ := exists_endsWith_bucketPath_of_parent? hname hparent? htag
    have hthere := isDirectory_of_enter htextParent hmadeEnter
    rw [writeBucket_of_parent hparent hnone, writeBucket_of_parent hparent hnone, hmade,
      createDirectories_of_isDirectory htidy hthere]

/-- **Writing all parts into an empty directory** — their paths, or the failure at the first one
whose name does not fit. -/
lemma result_writeBuckets_of_isInside (h : t.IsInside destination d) {buckets : List Bucket}
    (htags : ∀ b ∈ buckets, Tag.IsPlain b.tag) (e : LineEnding) :
    (writeBuckets t destination e buckets).result =
      match buckets.find? (!·.fits destination) with
      | none => .ok (buckets.map fun b => bucketPath destination b.tag)
      | some b => .error (.system (bucketPath destination b.tag) .nameTooLong) := by
  obtain ⟨name, parent, names, hname, hparent?, hleads⟩ := h.leadsInto
  obtain ⟨made, htakes, hmade⟩ := exists_takesFiles h.isEmpty hname hparent? h.text hleads e
  rw [← result_writeBuckets_of_takesFiles hname hparent? h.text htags htakes e]
  cases buckets with
  | nil => rfl
  | cons b bs => rw [writeBuckets, writeBuckets, hmade b (htags b List.mem_cons_self)]

/-! ## Lengths that suffice -/

/-- The file name of a part has the bytes of the stem and of the tag, and five more. -/
lemma utf8ByteSize_bucketName_le (hname : destination.fileName? = some name) (tag : String) :
    (bucketName destination tag).utf8ByteSize ≤ name.utf8ByteSize + tag.utf8ByteSize + 5 := by
  have hstem : destination.stem.utf8ByteSize ≤ name.utf8ByteSize := by
    rw [Path.stem, hname]
    exact utf8ByteSize_le_of_isPrefix (Path.isPrefix_splitName name)
  have hhyphen : "-".utf8ByteSize = 1 := by decide
  have hextension : ".css".utf8ByteSize = 4 := by decide
  simp only [bucketName, String.utf8ByteSize_append]
  omega

/-- The path of a part has the bytes of the parent and of the file name, and perhaps a slash. -/
lemma utf8ByteSize_bucketPath_le (hname : destination.fileName? = some name)
    (hparent? : destination.parent? = some parent) {tag : String} (hslash : '/' ∉ tag.toList) :
    (bucketPath destination tag).text.utf8ByteSize ≤
      parent.text.utf8ByteSize + (bucketName destination tag).utf8ByteSize + 1 := by
  have hbytes : "/".utf8ByteSize = 1 := by decide
  rw [bucketPath_eq_join hname hparent?,
    Path.join_of_slash_notMem _ (slash_notMem_bucketName destination hslash)]
  split_ifs
  · simp only [String.utf8ByteSize_append]
    omega
  · simp only [String.utf8ByteSize_append]
    omega

/-- **Lengths that suffice** — the parts of a sheet fit if the identifiers of its conditions, the
file name of the destination and the path in front of it are not too long. -/
lemma fits_of_utf8ByteSize_le {sheet : Sheet} {options : Options}
    (hname : destination.fileName? = some name) (hparent? : destination.parent? = some parent)
    (hnameLength : name.utf8ByteSize ≤ 100) (hparentLength : parent.text.utf8ByteSize ≤ 3839)
    (hids : ∀ condition body, .media condition body ∈ sheet.statements →
      (Condition.groupId condition).utf8ByteSize ≤ 145) :
    ∀ b ∈ (sheet.extract options).buckets, b.fits destination = true := by
  have htags : ∀ tag ∈ (sheet.extract options).buckets.map (·.tag), tag.utf8ByteSize ≤ 150 := by
    refine Classification.forall_mem_tags (by decide) (by decide) fun g hg => ?_
    have hid : g.id.utf8ByteSize ≤ 145 := by
      obtain ⟨body, hmedia⟩ := Classification.exists_media_of_mem_groups hg
      rw [Sheet.id_eq_of_mem_groups hg]
      exact hids g.condition body hmedia
    have hprefix : Tag.collectionPrefix.utf8ByteSize = 5 := by decide
    rw [Tag.collection, String.utf8ByteSize_append]
    omega
  intro b hb
  have htag := List.mem_map_of_mem (f := Bucket.tag) hb
  have htagLength := htags _ htag
  have hbucketName := utf8ByteSize_bucketName_le hname b.tag
  have hbucketPath := utf8ByteSize_bucketPath_le hname hparent? (Sheet.slash_notMem_tag htag)
  rw [Bucket.fits_iff, maxNameBytes, maxPathBytes]
  omega

/-! ## Extracting a file -/

section

variable {source : SourceFile} {options : Options} {css : String} {sheet : Sheet}
  (hread : t.read source.path = .ok css) (hparse : Sheet.parse css = .ok sheet)
  (hmissing : options.failOnMissingMedia = false) (h : t.IsInside source.destination d)

include hread hparse hmissing h

/-- The extraction of a file into an empty directory gives its report, or fails at the first part
whose name does not fit. -/
lemma result_extractFile_of_isInside :
    let buckets := (sheet.extract options).buckets
    (extractFile t source options).result =
      match buckets.find? (!·.fits source.destination) with
      | none => .ok ⟨source.path, buckets.map fun b => bucketPath source.destination b.tag,
          (sheet.extract options).mediaGroups⟩
      | some b => .error (.system (bucketPath source.destination b.tag) .nameTooLong) := by
  intro buckets
  have htags : ∀ b ∈ buckets, Tag.IsPlain b.tag := fun b hb =>
    Sheet.isPlain_of_mem_tags (List.mem_map_of_mem hb)
  have hmedia : (!(sheet.extract options).hasMedia && options.failOnMissingMedia) = false := by
    rw [hmissing, Bool.and_false]
  have hwritten := congrArg Outcome.result
    (extractFile_of_sheet (readSheet_of_parse hread hparse) hmedia)
  rw [result_writeBuckets_of_isInside h htags] at hwritten
  refine hwritten.trans ?_
  cases buckets.find? (!·.fits source.destination) <;> rfl

/-- It succeeds exactly if all names fit. -/
lemma exists_report_iff_of_isInside :
    (∃ report, (extractFile t source options).result = .ok report) ↔
      ∀ b ∈ (sheet.extract options).buckets, b.fits source.destination = true := by
  rw [result_extractFile_of_isInside hread hparse hmissing h]
  cases hfind : (sheet.extract options).buckets.find? (!·.fits source.destination) with
  | none => simpa using hfind
  | some b =>
    have hlong := List.find?_some hfind
    simp only [reduceCtorEq, exists_false, false_iff, not_forall]
    exact ⟨b, List.mem_of_find?_eq_some hfind, by simpa using hlong⟩

/-- **Extraction into an empty directory** — if the destination is in an empty directory, the
extraction of a sheet succeeds exactly if the file names and the paths of all its parts are short
enough; else it fails at the first part whose name or path is too long. It succeeds if the
identifiers of the conditions have up to 145 bytes, the file name of the destination up to 100 and
the path in front of it up to 3839.

**Proof sketch.** Nothing is in the way of the directories that are missing, and the last of them is
empty, so that no part meets a directory. What is left to go wrong is the length of its name. -/
theorem extractFile_isInside :
    let buckets := (sheet.extract options).buckets
    let result := (extractFile t source options).result
    (result = match buckets.find? (!·.fits source.destination) with
      | none => .ok ⟨source.path, buckets.map fun b => bucketPath source.destination b.tag,
          (sheet.extract options).mediaGroups⟩
      | some b => .error (.system (bucketPath source.destination b.tag) .nameTooLong)) ∧
    ((∃ report, result = .ok report) ↔ ∀ b ∈ buckets, b.fits source.destination = true) ∧
    ∀ name parent, source.destination.fileName? = some name →
      source.destination.parent? = some parent → name.utf8ByteSize ≤ 100 →
      parent.text.utf8ByteSize ≤ 3839 →
      (∀ condition body, .media condition body ∈ sheet.statements →
        (Condition.groupId condition).utf8ByteSize ≤ 145) →
      ∃ report, result = .ok report :=
  have hiff := exists_report_iff_of_isInside hread hparse hmissing h
  ⟨result_extractFile_of_isInside hread hparse hmissing h, hiff,
    fun _ _ hname hparent? hnameLength hparentLength hids =>
      hiff.mpr (fits_of_utf8ByteSize_le hname hparent? hnameLength hparentLength hids)⟩

end

/-- A stylesheet with a media block, and an empty directory. -/
def printTree : FileTree where
  entries := [(["css"], .directory), (["css", "a.css"], .file "@media print\x7b\x7d".toUTF8),
    (["out"], .directory)]

/-- The stylesheet, with a destination in directories that are missing. -/
def printSource : SourceFile := ⟨⟨"css/a.css"⟩, ⟨"./out/b//c/a.css"⟩⟩

lemma isInside_printTree : printTree.IsInside printSource.destination ["out"] where
  isEmpty := ⟨rfl, fun name rest _ => by simp [printTree, get?, isAround, List.lookup]⟩
  leadsInto := ⟨"a.css", ⟨"./out/b//c"⟩, ["b", "c"], by decide, by decide,
    ⟨["out"], by decide, rfl⟩, by decide⟩
  text := by decide

/-- Its only part is written. -/
theorem extractFile_isInside_printTree :
    printTree.IsInside printSource.destination ["out"] ∧
      ∃ sheet, printTree.read printSource.path = .ok "@media print\x7b\x7d" ∧
        Sheet.parse "@media print\x7b\x7d" = .ok sheet ∧
        (extractFile printTree printSource {}).result =
          .ok ⟨⟨"css/a.css"⟩, [⟨"./out/b//c/a-print.css"⟩], 1⟩ := by
  have hread : printTree.read printSource.path = .ok "@media print\x7b\x7d" := by decide +kernel
  have hextract : (Sheet.parse "@media print\x7b\x7d").toOption.map (·.extract {}) =
      some ⟨[⟨"print", "@media print \x7b\n\n\x7d\n\n"⟩], 1⟩ := by decide +kernel
  obtain ⟨sheet, hparse, hsheet⟩ := Sheet.exists_of_map_parse hextract
  obtain ⟨hresult, -⟩ := extractFile_isInside hread hparse
    (show ({} : Options).failOnMissingMedia = false from rfl) isInside_printTree
  refine ⟨isInside_printTree, sheet, hread, hparse, hresult.trans ?_⟩
  rw [hsheet]
  decide +kernel

/-! ## Conditions that are too long -/

/-- A condition of 125 operators, each of which is spelled by two letters in the tag. -/
def longCondition : String := String.ofList (List.replicate 125 '>')

/-- A sheet with a block of this condition. -/
def longCss : String := "@media " ++ longCondition ++ "\x7b\x7d"

/-- The sheet, and an empty directory. -/
def longTree : FileTree where
  entries := [(["out"], .directory), (["x"], .directory), (["x", "s.css"], .file longCss.toUTF8)]

/-- The sheet, with a destination in the empty directory. -/
def longSource : SourceFile := ⟨⟨"x/s.css"⟩, ⟨"out/s.css"⟩⟩

/-- An extraction into an empty directory can fail for the tag of a condition, be the file name of
the source short. -/
theorem extractFile_longCondition :
    ¬ ∀ (t : FileTree) (source : SourceFile) (options : Options) (css : String) (sheet : Sheet)
        (name : String) (d : Place),
      t.read source.path = .ok css → Sheet.parse css = .ok sheet →
      source.path.fileName? = some name → name.utf8ByteSize ≤ 100 →
      options.failOnMissingMedia = false → t.IsInside source.destination d →
      ∃ report, (extractFile t source options).result = .ok report := by
  intro hall
  have hread : longTree.read longSource.path = .ok longCss := by decide +kernel
  have hlong : (Sheet.parse longCss).toOption.map (fun sheet =>
      (sheet.extract {}).buckets.all (·.fits longSource.destination)) = some false := by
    decide +kernel
  obtain ⟨sheet, hparse, hfits⟩ := Sheet.exists_of_map_parse hlong
  have hinside : longTree.IsInside longSource.destination ["out"] :=
    ⟨⟨rfl, fun name rest _ => by simp [longTree, get?, isAround, List.lookup]⟩,
      ⟨"s.css", ⟨"out"⟩, [], by decide, by decide, ⟨["out"], by decide, rfl⟩, by decide⟩, by decide⟩
  have hreport := hall longTree longSource {} longCss sheet "s.css" ["out"] hread hparse
    (by decide) (by decide) rfl hinside
  rw [exists_report_iff_of_isInside hread hparse rfl hinside, ← List.all_eq_true, hfits] at hreport
  exact Bool.noConfusion hreport

end StyleSplit
