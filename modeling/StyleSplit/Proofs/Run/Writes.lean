import StyleSplit.Proofs.Extraction.Tags
import StyleSplit.Proofs.Files.Creation
import StyleSplit.Proofs.Files.History
import StyleSplit.Run.Extract
set_option autoImplicit false

/-!
# The files of one stylesheet

The extraction of a file writes its buckets one after the other, up to the first that fails. Which
of them were written, and to which places, is a history of the tree; what stands in the files at the
end and what else there may be in the tree follows from it.

## Main definitions

* `StyleSplit.bucketWrites` — what the writing of buckets puts into the tree.
* `StyleSplit.FilesWritten` — a tree that differs from another one in the files of some buckets.

## Main results

* `StyleSplit.history_writeBuckets`, `StyleSplit.result_writeBuckets` — the writing of buckets.
* `StyleSplit.extractFile_frame` — what the extraction of a file changes and what it leaves.
-/

namespace StyleSplit

open FileTree

/-- The content of the file of a bucket. -/
def Bucket.content (b : Bucket) (e : LineEnding) : ByteArray :=
  (e.apply b.css).toUTF8

variable {t u : FileTree} {path parent : Path} {before : List String} {name : String}

/-! ## One bucket -/

/-- The writing of a file when the directories around it have been seen to. -/
def writeContent (t : FileTree) (path : Path) (content : ByteArray) : Outcome Unit :=
  match t.write path content with
  | .ok tree => ⟨.ok (), tree, []⟩
  | .error e => ⟨.error (.system path e), t, []⟩

lemma writeBucket_of_parent_empty (hparent? : path.parent? = some parent) (h : parent.text = "")
    (t : FileTree) (css : String) (e : LineEnding) :
    writeBucket t path css e = writeContent t path (e.apply css).toUTF8 := by
  rw [writeBucket, hparent?]
  dsimp only
  rw [if_pos h]
  rfl

lemma writeBucket_of_parent (hparent? : path.parent? = some parent) (h : parent.text ≠ "")
    (t : FileTree) (css : String) (e : LineEnding) :
    writeBucket t path css e =
      match (t.createDirectories parent).error? with
      | some cause => ⟨.error (.system parent cause), (t.createDirectories parent).tree, []⟩
      | none => writeContent (t.createDirectories parent).tree path (e.apply css).toUTF8 := by
  rw [writeBucket, hparent?]
  dsimp only
  rw [if_neg h]
  rfl

lemma writeContent_of_reach (hp : path.EndsWith before name) (hdots : name ≠ "..") {q : Place}
    (hreach : t.reach path = .ok q) (hkind : t.kind? q ≠ some .directory) (content : ByteArray) :
    writeContent t path content = ⟨.ok (), t.put q (.file content), []⟩ := by
  have hwrite : t.write path content = .ok (t.put q (.file content)) := by
    rw [write_eq hp hdots, hreach]
    exact if_neg hkind
  rw [writeContent, hwrite]

/-- If nothing is missing on the way, the file is put, or cannot be put in any later tree. -/
lemma writeContent_cases (hp : path.EndsWith before name) (hdots : name ≠ "..")
    (hmissing : t.reach path ≠ .error .notFound) (content : ByteArray) :
    (∃ q, t.reach path = .ok q ∧ t.kind? q ≠ some .directory) ∨
      ∃ cause, ∀ u, t.KeptIn u →
        writeContent u path content = ⟨.error (.system path cause), u, []⟩ := by
  have hfails : ∀ {u : FileTree} {cause : SystemError}, u.write path content = .error cause →
      writeContent u path content = ⟨.error (.system path cause), u, []⟩ := by
    intro u cause hwrite
    rw [writeContent, hwrite]
  cases hreach : t.reach path with
  | error cause =>
    have hne : cause ≠ .notFound := by
      rintro rfl
      exact hmissing hreach
    refine .inr ⟨cause, fun u hkept => hfails ?_⟩
    rw [write_eq hp hdots, (reach_settled hkept path).error hreach hne]
    rfl
  | ok q =>
    by_cases hkind : t.kind? q = some .directory
    · refine .inr ⟨.isADirectory, fun u hkept => hfails ?_⟩
      rw [write_eq hp hdots, (reach_settled hkept path).ok hreach]
      exact if_pos (hkept.kind?_eq q _ hkind)
    · exact .inl ⟨q, rfl, hkind⟩

/-- A bucket is written where its path leads to, if no directory is there. -/
lemma writeBucket_of_reach (hp : path.EndsWith before name) (hdots : name ≠ "..") {q : Place}
    (hreach : t.reach path = .ok q) (hkind : t.kind? q ≠ some .directory) (css : String)
    (e : LineEnding) :
    writeBucket t path css e = ⟨.ok (), t.put q (.file (e.apply css).toUTF8), []⟩ := by
  obtain ⟨parent, hparent?, ⟨-, hempty⟩ | ⟨-, hparent⟩⟩ := hp.exists_parent
  · rw [writeBucket_of_parent_empty hparent? hempty, writeContent_of_reach hp hdots hreach hkind]
  · have hmade := createDirectories_of_isDirectory hparent.isTidy
      (isDirectory_of_reach hp hparent hreach)
    rw [writeBucket_of_parent hparent? hparent.ne_empty, hmade]
    exact writeContent_of_reach hp hdots hreach hkind _

/-- **Lasting failures** — in a tree and all later ones the writing of a bucket fails and changes
nothing. The cause may be another one later. -/
def FailsFrom (u : FileTree) (path : Path) (css : String) (e : LineEnding) (failed : Path)
    (cause : SystemError) : Prop :=
  ∀ v, u.KeptIn v → ∃ cause', cause.Becomes cause' ∧
    writeBucket v path css e = ⟨.error (.system failed cause'), v, []⟩

/-- **Writing one bucket** — directories are added and the file is put, or directories are added and
the failure lasts. -/
lemma writeBucket_cases (hp : path.EndsWith before name) (hdots : name ≠ "..") (t : FileTree)
    (css : String) (e : LineEnding) :
    (∃ made q, t.GrowsTo made ∧ made.reach path = .ok q ∧ made.kind? q ≠ some .directory ∧
        writeBucket t path css e = ⟨.ok (), made.put q (.file (e.apply css).toUTF8), []⟩) ∨
      ∃ u failed cause, t.GrowsTo u ∧
        writeBucket t path css e = ⟨.error (.system failed cause), u, []⟩ ∧
        FailsFrom u path css e failed cause := by
  obtain ⟨parent, hparent?, ⟨rfl, hempty⟩ | ⟨-, hparent⟩⟩ := hp.exists_parent
  · -- the file is in the working directory
    rcases writeContent_cases hp hdots (reach_ne_notFound_of_single (t := t) hp)
      (e.apply css).toUTF8 with ⟨q, hreach, hkind⟩ | ⟨cause, hfails⟩
    · exact .inl ⟨t, q, GrowsTo.refl t, hreach, hkind,
        writeBucket_of_reach hp hdots hreach hkind ..⟩
    · simp only [← writeBucket_of_parent_empty hparent? hempty] at hfails
      exact .inr ⟨t, path, cause, GrowsTo.refl t, hfails t (KeptIn.refl t),
        fun v hkept => ⟨cause, .inl rfl, hfails v hkept⟩⟩
  · have hattempted := attempted_createDirectories hparent.isTidy t
    generalize ha : t.createDirectories parent = a at hattempted
    have hwrite := writeBucket_of_parent hparent? hparent.ne_empty t css e
    rw [ha] at hwrite
    cases herror : a.error? with
    | some cause =>
      obtain ⟨cause', hbecomes, hblocked⟩ := hattempted.blocked cause herror
      rw [herror] at hwrite
      refine .inr ⟨a.tree, parent, cause, hattempted.grows, hwrite, fun v hkept => ?_⟩
      have hlater := createDirectories_of_blocked (hblocked.mono hparent.isTidy hkept)
      refine ⟨cause', hbecomes, ?_⟩
      rw [writeBucket_of_parent hparent? hparent.ne_empty, hlater]
    | none =>
      have hmade := hattempted.made herror
      rw [herror] at hwrite
      rcases writeContent_cases hp hdots (reach_ne_notFound_of_isDirectory hp hparent hmade)
        (e.apply css).toUTF8 with ⟨q, hreach, hkind⟩ | ⟨cause, hfails⟩
      · refine .inl ⟨a.tree, q, hattempted.grows, hreach, hkind, ?_⟩
        rw [hwrite]
        exact writeContent_of_reach hp hdots hreach hkind _
      · refine .inr ⟨a.tree, path, cause, hattempted.grows, ?_, fun v hkept => ?_⟩
        · rw [hwrite]
          exact hfails a.tree (KeptIn.refl a.tree)
        · have hlater := createDirectories_of_isDirectory hparent.isTidy (hkept.isDirectory hmade)
          refine ⟨cause, .inl rfl, ?_⟩
          rw [writeBucket_of_parent hparent? hparent.ne_empty, hlater]
          exact hfails v hkept

/-- Where the writing fails, the path leads to no file. -/
lemma FailsFrom.content?_eq_none (hp : path.EndsWith before name) (hdots : name ≠ "..")
    {css : String} {e : LineEnding} {failed : Path} {cause : SystemError}
    (h : FailsFrom u path css e failed cause) : u.content? path = none := by
  by_contra hne
  obtain ⟨c, hc⟩ := Option.ne_none_iff_exists'.mp hne
  obtain ⟨q, hreach, hget⟩ := content?_eq_some_iff.mp hc
  have hkind : u.kind? q ≠ some .directory := by
    rw [kind?_eq_file_iff.mpr ⟨c, hget⟩]
    simp
  obtain ⟨cause', -, hfails⟩ := h u (KeptIn.refl u)
  rw [writeBucket_of_reach hp hdots hreach hkind] at hfails
  exact absurd (congrArg Outcome.result hfails) (by simp)

/-! ## All buckets of a destination -/

section

variable (destination : Path) (e : LineEnding)

/-- What the writing of a bucket puts into the tree, if it does not fail. -/
def bucketWrite? (tree : FileTree) (b : Bucket) : Option Write :=
  let path := bucketPath destination b.tag
  let after := writeBucket tree path b.css e
  after.result.toOption.bind fun _ =>
    (after.tree.place? path).map fun place => ⟨path, place, b.content e⟩

/-- **Writes of buckets** — what is put into the tree, up to the first bucket that fails. -/
def bucketWrites (tree : FileTree) : List Bucket → List Write
  | [] => []
  | b :: bs =>
    (bucketWrite? destination e tree b).elim [] fun w =>
      w :: bucketWrites (writeBucket tree (bucketPath destination b.tag) b.css e).tree bs

/-- The file name of a part is not the way out of a directory. -/
lemma bucketName_ne_dots (tag : String) : bucketName destination tag ≠ ".." :=
  bucketName_ne destination tag (by decide)

/-- **Writing the first of several buckets** — it is put and the others follow, or the failure
lasts and nothing more is done. -/
lemma writeBuckets_cons_cases {b : Bucket} (hslash : '/' ∉ b.tag.toList) (bs : List Bucket)
    (t : FileTree) :
    let path := bucketPath destination b.tag
    (∃ made q, t.GrowsTo made ∧ made.reach path = .ok q ∧ made.kind? q ≠ some .directory ∧
        q.getLast? = some (bucketName destination b.tag) ∧
        let others := writeBuckets (made.put q (.file (b.content e))) destination e bs
        writeBuckets t destination e (b :: bs) =
            ⟨others.result.map (path :: ·), others.tree, .written path :: others.notices⟩ ∧
          bucketWrites destination e t (b :: bs) = ⟨path, q, b.content e⟩ ::
            bucketWrites destination e (made.put q (.file (b.content e))) bs) ∨
      ∃ u failed cause, t.GrowsTo u ∧
        writeBuckets t destination e (b :: bs) = ⟨.error (.system failed cause), u, []⟩ ∧
        bucketWrites destination e t (b :: bs) = [] ∧
        FailsFrom u path b.css e failed cause := by
  obtain ⟨before, hends⟩ := exists_endsWith_bucketPath destination
  have hp := hends b.tag hslash
  have hdots := bucketName_ne_dots destination b.tag
  rcases writeBucket_cases hp hdots t b.css e with
    ⟨made, q, hgrows, hreach, hkind, hwrite⟩ | ⟨u, failed, cause, hgrows, hwrite, hfails⟩
  · have hkept := keptIn_put_file hkind (b.content e)
    have hget := get?_put_file hkind (b.content e) q
    have hnext : writeBucket t (bucketPath destination b.tag) b.css e =
        ⟨.ok (), made.put q (.file (b.content e)), []⟩ := hwrite
    refine .inl ⟨made, q, hgrows, hreach, hkind, getLast?_of_reach hp hdots hreach, ?_⟩
    generalize made.put q (.file (b.content e)) = next at hkept hget hnext
    have hplace : next.place? (bucketPath destination b.tag) = some q :=
      place?_eq_some_iff.mpr ⟨(reach_settled hkept _).ok hreach, .file (b.content e), by
        rw [hget, if_pos rfl]⟩
    refine ⟨?_, ?_⟩
    · rw [writeBuckets, hnext]
    · have hfirst : bucketWrite? destination e t b =
          some ⟨bucketPath destination b.tag, q, b.content e⟩ := by
        rw [bucketWrite?, hnext]
        dsimp only
        rw [hplace]
        rfl
      rw [bucketWrites, hfirst, hnext]
      rfl
  · refine .inr ⟨u, failed, cause, hgrows, ?_, ?_, hfails⟩
    · rw [writeBuckets, hwrite]
    · rw [bucketWrites, bucketWrite?, hwrite]
      rfl

/-- The writes of buckets are a history of the tree. -/
lemma history_writeBuckets {buckets : List Bucket} (hslash : ∀ b ∈ buckets, '/' ∉ b.tag.toList)
    (t : FileTree) :
    History t (bucketWrites destination e t buckets)
      (writeBuckets t destination e buckets).tree := by
  induction buckets generalizing t with
  | nil => exact .nil (GrowsTo.refl t)
  | cons b bs ih =>
    have htail := fun x hx => hslash x (List.mem_cons_of_mem b hx)
    rcases writeBuckets_cons_cases destination e (hslash b List.mem_cons_self) bs t with
      ⟨made, q, hgrows, hreach, hkind, -, hwrite, hwrites⟩ | ⟨u, _, _, hgrows, hwrite, hwrites, -⟩
    · rw [hwrite, hwrites]
      exact .cons hgrows hreach hkind (ih htail _)
    · rw [hwrite, hwrites]
      exact .nil hgrows

/-- The log tells of each file that was written. -/
lemma notices_writeBuckets {buckets : List Bucket} (hslash : ∀ b ∈ buckets, '/' ∉ b.tag.toList)
    (t : FileTree) :
    (writeBuckets t destination e buckets).notices =
      (bucketWrites destination e t buckets).map (.written ·.path) := by
  induction buckets generalizing t with
  | nil => rfl
  | cons b bs ih =>
    have htail := fun x hx => hslash x (List.mem_cons_of_mem b hx)
    rcases writeBuckets_cons_cases destination e (hslash b List.mem_cons_self) bs t with
      ⟨made, q, -, -, -, -, hwrite, hwrites⟩ | ⟨_, _, _, -, hwrite, hwrites, -⟩
    · rw [hwrite, hwrites, List.map_cons, ih htail]
    · rw [hwrite, hwrites]
      rfl

/-- The buckets are written in their order, each to a place of the name of its file. -/
lemma map_bucketWrites {buckets : List Bucket} (hslash : ∀ b ∈ buckets, '/' ∉ b.tag.toList)
    (t : FileTree) :
    (bucketWrites destination e t buckets).map (fun w => (w.path, w.place.getLast?, w.content)) =
      (buckets.take (bucketWrites destination e t buckets).length).map fun b =>
        (bucketPath destination b.tag, some (bucketName destination b.tag), b.content e) := by
  induction buckets generalizing t with
  | nil => rfl
  | cons b bs ih =>
    have htail := fun x hx => hslash x (List.mem_cons_of_mem b hx)
    rcases writeBuckets_cons_cases destination e (hslash b List.mem_cons_self) bs t with
      ⟨made, q, -, -, -, hlast, -, hwrites⟩ | ⟨_, _, _, -, -, hwrites, -⟩
    · rw [hwrites, List.map_cons, List.length_cons, List.take_succ_cons, List.map_cons, ih htail,
        hlast]
    · rw [hwrites]
      rfl

lemma length_bucketWrites_le {buckets : List Bucket} (hslash : ∀ b ∈ buckets, '/' ∉ b.tag.toList)
    (t : FileTree) : (bucketWrites destination e t buckets).length ≤ buckets.length := by
  have hlength := congrArg List.length (map_bucketWrites destination e hslash t)
  rw [List.length_map, List.length_map, List.length_take] at hlength
  omega

/-- **The result of writing buckets** — the paths of all of them, or a failure of the system at the
bucket behind those that were written. No file is where its path leads, before or after. -/
lemma result_writeBuckets {buckets : List Bucket} (hslash : ∀ b ∈ buckets, '/' ∉ b.tag.toList)
    (t : FileTree) :
    (∀ paths, (writeBuckets t destination e buckets).result = .ok paths →
        (bucketWrites destination e t buckets).length = buckets.length ∧
          paths = buckets.map fun b => bucketPath destination b.tag) ∧
      ∀ f, (writeBuckets t destination e buckets).result = .error f →
        ∃ failed cause b, f = .system failed cause ∧
          buckets[(bucketWrites destination e t buckets).length]? = some b ∧
          t.content? (bucketPath destination b.tag) = none ∧
          (writeBuckets t destination e buckets).tree.content? (bucketPath destination b.tag) =
            none := by
  induction buckets generalizing t with
  | nil =>
    refine ⟨fun paths h => ⟨rfl, (Except.ok.inj h).symm⟩, fun f h => ?_⟩
    exact absurd h (by simp [writeBuckets])
  | cons b bs ih =>
    have htail := fun x hx => hslash x (List.mem_cons_of_mem b hx)
    rcases writeBuckets_cons_cases destination e (hslash b List.mem_cons_self) bs t with
      ⟨made, q, hgrows, hreach, hkind, -, hwrite, hwrites⟩ |
      ⟨u, failed, cause, hgrows, hwrite, hwrites, hfails⟩
    · obtain ⟨hok, herror⟩ := ih htail (made.put q (.file (b.content e)))
      have hkept := hgrows.keptIn.trans (keptIn_put_file hkind (b.content e))
      rw [hwrite, hwrites]
      refine ⟨fun paths h => ?_, fun f h => ?_⟩
      · obtain ⟨others, hothers, rfl⟩ := map_eq_ok_iff.mp h
        obtain ⟨hlength, rfl⟩ := hok others hothers
        exact ⟨by rw [List.length_cons, List.length_cons, hlength], rfl⟩
      · obtain ⟨failed, cause, x, hf, hx, hbefore, hafter⟩ := herror f (map_eq_error_iff.mp h)
        exact ⟨failed, cause, x, hf, hx, hkept.content?_eq_none hbefore, hafter⟩
    · obtain ⟨before, hends⟩ := exists_endsWith_bucketPath destination
      have hnone := hfails.content?_eq_none (hends b.tag (hslash b List.mem_cons_self))
        (bucketName_ne_dots destination b.tag)
      rw [hwrite, hwrites]
      refine ⟨fun paths h => absurd h (by simp), fun f h => ?_⟩
      exact ⟨failed, cause, b, (Except.error.inj h).symm, rfl,
        hgrows.keptIn.content?_eq_none hnone, hnone⟩

/-- The files of different buckets are at different places. -/
lemma nodup_place_bucketWrites {buckets : List Bucket}
    (hslash : ∀ b ∈ buckets, '/' ∉ b.tag.toList) (htags : (buckets.map (·.tag)).Nodup)
    (t : FileTree) : ((bucketWrites destination e t buckets).map (·.place)).Nodup := by
  have hmap := congrArg (List.map fun x => x.2.1) (map_bucketWrites destination e hslash t)
  rw [List.map_map, List.map_map] at hmap
  refine List.Nodup.of_map List.getLast? ?_
  rw [List.map_map]
  refine Eq.subst (motive := List.Nodup) hmap.symm ?_
  have hsublist := List.take_sublist (bucketWrites destination e t buckets).length buckets
  have hnames := (htags.sublist (hsublist.map _)).map (some_bucketName_injective destination)
  rw [List.map_map] at hnames
  exact hnames

/-- **Written files** — the second tree has the files of the buckets, and no other file differs
from the first tree or is missing. -/
structure FilesWritten (t u : FileTree) (buckets : List Bucket) : Prop where
  changed : ∀ p, t.kind? p = some .file ∨ u.kind? p = some .file → u.get? p ≠ t.get? p →
    ∃ b ∈ buckets, u.place? (bucketPath destination b.tag) = some p
  content : ∀ b ∈ buckets, u.content? (bucketPath destination b.tag) = some (b.content e)
  kept : ∀ p, t.kind? p = some .file → u.kind? p = some .file

/-- What the writing of buckets leaves are the files of those that were written. -/
lemma filesWritten_writeBuckets {buckets : List Bucket}
    (hslash : ∀ b ∈ buckets, '/' ∉ b.tag.toList) (htags : (buckets.map (·.tag)).Nodup)
    (t : FileTree) :
    FilesWritten destination e t (writeBuckets t destination e buckets).tree
      (buckets.take (bucketWrites destination e t buckets).length) := by
  have hhistory := history_writeBuckets destination e hslash t
  have hmap := map_bucketWrites destination e hslash t
  refine ⟨fun p hfile hne => ?_, fun b hb => ?_, fun p hp => hhistory.keptIn.kind?_eq p _ hp⟩
  · by_contra hnone
    refine hne (hhistory.get?_file_of_forall_ne (fun w hw hp => hnone ?_) hfile)
    obtain ⟨b, hb, heq⟩ := List.mem_map.mp (hmap ▸ List.mem_map_of_mem hw)
    refine ⟨b, hb, ?_⟩
    rw [(Prod.mk.inj heq).1, hhistory.place?_of_mem hw, hp]
  · obtain ⟨w, hw, heq⟩ := List.mem_map.mp (hmap.symm ▸ List.mem_map_of_mem hb)
    obtain ⟨hpath, hrest⟩ := Prod.mk.inj heq
    have hnodup := nodup_place_bucketWrites destination e hslash htags t
    have hlast := Write.contentAt?_of_nodup hnodup hw
    rw [← hpath, ← (Prod.mk.inj hrest).2]
    exact content?_of_place? (hhistory.place?_of_mem hw) (hhistory.get?_of_contentAt? hlast)

end

/-! ## One file -/

section

variable {tree : FileTree} {source : SourceFile} {options : Options}

lemma readSheet_of_read_error {e : SystemError} (h : tree.read source.path = .error e) :
    readSheet tree source.path = .error (.system source.path e) := by
  rw [readSheet, h]

lemma readSheet_of_parse_error {css : String} (h : tree.read source.path = .ok css)
    {e : Sheet.ParseError} (hparse : Sheet.parse css = .error e) :
    readSheet tree source.path = .error (.parse source.path e) := by
  rw [readSheet, h]
  dsimp only
  rw [hparse]

lemma readSheet_of_parse {css : String} (h : tree.read source.path = .ok css) {sheet : Sheet}
    (hparse : Sheet.parse css = .ok sheet) : readSheet tree source.path = .ok sheet := by
  rw [readSheet, h]
  dsimp only
  rw [hparse]

lemma extractFile_of_error {f : Failure} (h : readSheet tree source.path = .error f) :
    extractFile tree source options = ⟨.error f, tree, [.found source.path]⟩ := by
  rw [extractFile, h]

lemma extractFile_of_noMedia {sheet : Sheet} (h : readSheet tree source.path = .ok sheet)
    (hmedia : (!(sheet.extract options).hasMedia && options.failOnMissingMedia) = true) :
    extractFile tree source options =
      ⟨.error (.noMedia source.path), tree, .found source.path :: sheet.notices options⟩ := by
  rw [extractFile, h]
  dsimp only
  rw [if_pos hmedia]

/-- The buckets of a sheet that may be written are written. -/
lemma extractFile_of_sheet {sheet : Sheet} (h : readSheet tree source.path = .ok sheet)
    (hmedia : (!(sheet.extract options).hasMedia && options.failOnMissingMedia) = false) :
    let extraction := sheet.extract options
    let written := writeBuckets tree source.destination options.lineEnding extraction.buckets
    extractFile tree source options =
      ⟨written.result.map fun paths => ⟨source.path, paths, extraction.mediaGroups⟩, written.tree,
        .found source.path :: sheet.notices options ++
          (if extraction.hasMedia then [] else [.noMedia source.path]) ++ written.notices⟩ := by
  rw [extractFile, h]
  dsimp only
  rw [if_neg (by simp [hmedia])]

/-- **What the extraction of a file changes** — nothing if the file cannot be read or parsed, or if
it has no media group where one is asked for. Else some of the first buckets are written, each to
the file of its path, and all other files are as before: all buckets if the extraction succeeds, and
if it fails those before one whose path leads to no changed file. -/
theorem extractFile_frame (tree : FileTree) (source : SourceFile) (options : Options) :
    let after := extractFile tree source options
    match tree.read source.path with
    | .error e => after.result = .error (.system source.path e) ∧ after.tree = tree
    | .ok css =>
      match Sheet.parse css with
      | .error e => after.result = .error (.parse source.path e) ∧ after.tree = tree
      | .ok sheet =>
        let buckets := (sheet.extract options).buckets
        if !(sheet.extract options).hasMedia && options.failOnMissingMedia then
          after.result = .error (.noMedia source.path) ∧ after.tree = tree
        else
          ∃ k ≤ buckets.length,
            FilesWritten source.destination options.lineEnding tree after.tree (buckets.take k) ∧
            match after.result with
            | .ok report => k = buckets.length ∧ report = ⟨source.path,
                buckets.map fun b => bucketPath source.destination b.tag,
                (classify sheet.statements).groups.length⟩
            | .error f => (∃ path cause, f = .system path cause) ∧
                ∃ b, buckets[k]? = some b ∧
                  after.tree.content? (bucketPath source.destination b.tag) =
                    tree.content? (bucketPath source.destination b.tag) := by
  intro after
  cases hread : tree.read source.path with
  | error e =>
    have hafter : after = _ := extractFile_of_error (readSheet_of_read_error hread)
    rw [hafter]
    exact ⟨rfl, rfl⟩
  | ok css =>
    dsimp only
    cases hparse : Sheet.parse css with
    | error e =>
      have hafter : after = _ := extractFile_of_error (readSheet_of_parse_error hread hparse)
      rw [hafter]
      exact ⟨rfl, rfl⟩
    | ok sheet =>
      have hsheet := readSheet_of_parse hread hparse
      dsimp only
      split
      · rename_i hmedia
        have hafter : after = _ := extractFile_of_noMedia hsheet hmedia
        rw [hafter]
        exact ⟨rfl, rfl⟩
      · rename_i hmedia
        have hafter : after = _ := extractFile_of_sheet hsheet (by simpa using hmedia)
        have hslash : ∀ b ∈ (sheet.extract options).buckets, '/' ∉ b.tag.toList := fun b hb =>
          Sheet.slash_notMem_tag (List.mem_map_of_mem hb)
        have hfiles := filesWritten_writeBuckets source.destination options.lineEnding hslash
          (sheet.nodup_map_tag_buckets options) tree
        obtain ⟨hok, herror⟩ :=
          result_writeBuckets source.destination options.lineEnding hslash tree
        have hle := length_bucketWrites_le source.destination options.lineEnding hslash tree
        rw [hafter]
        refine ⟨_, hle, hfiles, ?_⟩
        dsimp only
        split
        · rename_i report hreport
          obtain ⟨paths, hpaths, rfl⟩ := map_eq_ok_iff.mp hreport
          obtain ⟨hlength, rfl⟩ := hok paths hpaths
          exact ⟨hlength, rfl⟩
        · rename_i f hf
          obtain ⟨failed, cause, b, rfl, hb, hbefore, hnone⟩ := herror f (map_eq_error_iff.mp hf)
          exact ⟨⟨failed, cause, rfl⟩, b, hb, hnone.trans hbefore.symm⟩

end

end StyleSplit
