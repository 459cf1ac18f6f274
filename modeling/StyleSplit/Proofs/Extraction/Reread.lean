import StyleSplit.Extraction
import StyleSplit.Proofs.Media.Order
import StyleSplit.Proofs.Media.Parts
import StyleSplit.Proofs.Sheet.Written
set_option autoImplicit false

/-!
# Extracting what was extracted

The buckets of a clean sheet, put together to one text, are a stylesheet again, and its extraction
has the same buckets: what is written is read as it was, the groups are found under the same
identifiers, and they stand in the order of the policy already.

## Main definitions

* `StyleSplit.Classification.IsClean` — parts with clean texts.
* `StyleSplit.Classification.shown`, `StyleSplit.Classification.text` — what is written of the
  parts, and its text.
* `StyleSplit.Extraction.css`, `StyleSplit.Extraction.withoutEmpty` — the text of all buckets, and
  an extraction without the buckets that have none.

## Main results

* `StyleSplit.Classification.parse_text` — the text of the parts is read as what is written of them.
* `StyleSplit.Classification.extract_shown` — the extraction of what is written.
* `StyleSplit.Sheet.extract_again` — extracting again.
-/

namespace StyleSplit

/-! ## Clean parts -/

namespace Classification

/-- **Clean parts** — the texts of the base, the groups and the keyframes are clean. -/
structure IsClean (parts : Classification) : Prop where
  base : parts.base.all Style.isClean
  condition : ∀ g ∈ parts.groups, Clean.isValue g.condition.toList
  rules : ∀ g ∈ parts.groups, g.rules.all Style.isClean
  keyframes : ∀ k ∈ parts.keyframes, k.isClean

/-- The parts of a clean sheet are clean, and without the keyframes they are even if the keyframes
of the sheet are not. -/
lemma isClean_without_keyframes {statements : List Statement}
    (h : ∀ t ∈ statements, t.keyframes? = none → t.isClean) :
    { classify statements with keyframes := [] }.IsClean := by
  have hblock : ∀ b ∈ statements.filterMap Statement.mediaBlock?,
      Clean.isValue b.1.toList ∧ b.rules.all Style.isClean := by
    intro b hb
    obtain ⟨t, ht, htb⟩ := List.mem_filterMap.mp hb
    obtain rfl := Statement.eq_media_of_mediaBlock? htb
    have hmedia := h _ ht rfl
    rwa [Statement.isClean, Bool.and_eq_true] at hmedia
  refine ⟨List.all_eq_true.mpr fun s hs => ?_, fun g hg => ?_, fun g hg => ?_, by simp⟩
  · exact h _ (mem_of_mem_base_classify hs).1 rfl
  · rw [groups_classify] at hg
    obtain ⟨b, hb, heq⟩ := exists_block_of_mem_mergedGroups hg
    rw [heq]
    exact (hblock b hb).1
  · rw [groups_classify] at hg
    refine List.all_eq_true.mpr fun s hs => ?_
    obtain ⟨b, hb, hmem⟩ := exists_block_of_mem_rules hg hs
    exact List.all_eq_true.mp (hblock b hb).2 s hmem

lemma isClean_classify {statements : List Statement} (h : statements.all Statement.isClean) :
    (classify statements).IsClean := by
  have hclean := List.all_eq_true.mp h
  obtain ⟨hbase, hcondition, hrules, -⟩ := isClean_without_keyframes fun t ht _ => hclean t ht
  exact ⟨hbase, hcondition, hrules, fun k hk => hclean _ (mem_of_mem_keyframes_classify hk)⟩

/-! ## What is written of the parts -/

/-- **Shown parts** — what is written of the parts, the groups in the order of the policy. -/
def shown (parts : Classification) (options : Options) : Classification where
  base := Writer.shown ⟨options.hideComments⟩ parts.base
  groups := (parts.sortedGroups options).map (Writer.shownGroup ⟨options.hideComments⟩)
  keyframes := parts.keyframes.map (Writer.shownKeyframes ⟨options.hideComments⟩)
  ignored := []

/-- The groups of the shown parts are those of the parts. -/
lemma mem_sortedGroups {parts : Classification} {options : Options} {g : MediaGroup} :
    g ∈ parts.sortedGroups options ↔ g ∈ parts.groups :=
  (SortPolicy.sort_perm ..).mem_iff

lemma length_sortedGroups (parts : Classification) (options : Options) :
    (parts.sortedGroups options).length = parts.groups.length :=
  (SortPolicy.sort_perm ..).length_eq

/-- What is written of proper parts is proper. -/
lemma IsProper.shown {parts : Classification} (h : parts.IsProper) (options : Options) :
    (parts.shown options).IsProper where
  isTopLevel := by
    intro s hs
    obtain ⟨t, -, ht⟩ := List.mem_filterMap.mp (show s ∈ List.filterMap _ _ from hs)
    exact (Writer.shown?_spec _ ht).1
  nodup_id := by
    have hid : (parts.shown options).groups.map (·.id) =
        (parts.sortedGroups options).map (·.id) := by
      rw [Classification.shown, List.map_map]
      rfl
    rw [hid]
    exact ((SortPolicy.sort_perm ..).map _).nodup_iff.mpr h.nodup_id
  eq_ofCondition := by
    intro g hg
    obtain ⟨k, hk, rfl⟩ := List.mem_map.mp hg
    have hof := h.eq_ofCondition k (mem_sortedGroups.mp hk)
    rw [hof]
    rfl
  isGrouped := by
    intro g hg s hs
    obtain ⟨k, hk, rfl⟩ := List.mem_map.mp hg
    obtain ⟨t, ht, hts⟩ := List.mem_filterMap.mp (show s ∈ List.filterMap _ _ from hs)
    exact (Writer.shown?_spec _ hts).2.1 (h.isGrouped k (mem_sortedGroups.mp hk) t ht)

/-- The text of media groups is read as one `@media` block each. -/
lemma yields_mediaGroups (w : Writer) {groups : List MediaGroup}
    (hcondition : ∀ g ∈ groups, Clean.isValue g.condition.toList)
    (hrules : ∀ g ∈ groups, g.rules.all Style.isClean) {t : List Char} (ht : Sheet.EndsBlanks t) :
    Sheet.Yields Sheet.readStatements (String.join (groups.map w.mediaGroup)).toList t
        ((groups.map w.shownGroup).map MediaGroup.toStatement) ∧
      Sheet.EndsBlanks ((String.join (groups.map w.mediaGroup)).toList ++ t) := by
  rw [List.map_map]
  exact Writer.yields_map _ Sheet.skipsBlanks_readStatements
    (fun g hg => w.isParagraph_mediaGroup (hcondition g hg) (hrules g hg)) ht

/-- The text of keyframes blocks is read as these blocks. -/
lemma yields_keyframes (w : Writer) {blocks : List Keyframes} (h : ∀ k ∈ blocks, k.isClean)
    {t : List Char} (ht : Sheet.EndsBlanks t) :
    Sheet.Yields Sheet.readStatements (w.keyframes blocks).toList t
        ((blocks.map w.shownKeyframes).map Statement.keyframes) ∧
      Sheet.EndsBlanks ((w.keyframes blocks).toList ++ t) := by
  rw [List.map_map]
  exact Writer.yields_map _ Sheet.skipsBlanks_readStatements
    (fun k hk => w.isParagraph_keyframesBlock (h k hk)) ht

/-- **The text of the parts** — the base, the groups in the order of the policy, the keyframes. -/
def text (parts : Classification) (options : Options) : String :=
  parts.baseText options ++ (String.join ((parts.sortedGroups options).map
    (Writer.mediaGroup ⟨options.hideComments⟩)) ++
      Writer.keyframes ⟨options.hideComments⟩ parts.keyframes)

/-- **Reading the text of the parts** — the text of clean parts is read as what is written of
them. -/
lemma yields_text {parts : Classification} (h : parts.IsClean) (options : Options) :
    Sheet.Yields Sheet.readStatements (parts.text options).toList []
        (parts.shown options).statements ∧
      Sheet.EndsBlanks (parts.text options).toList := by
  obtain ⟨hkeyframes, hends⟩ := yields_keyframes ⟨options.hideComments⟩ h.keyframes (t := []) rfl
  have hcondition : ∀ g ∈ parts.sortedGroups options, Clean.isValue g.condition.toList :=
    fun g hg => h.condition g (mem_sortedGroups.mp hg)
  have hrules : ∀ g ∈ parts.sortedGroups options, g.rules.all Style.isClean := fun g hg =>
    h.rules g (mem_sortedGroups.mp hg)
  obtain ⟨hgroups, hendsGroups⟩ :=
    yields_mediaGroups ⟨options.hideComments⟩ hcondition hrules hends
  obtain ⟨hbase, hendsBase⟩ := Writer.yields_styles ⟨options.hideComments⟩ h.base hendsGroups
  rw [List.append_nil] at hbase hendsBase
  rw [text, String.toList_append, String.toList_append]
  refine ⟨Sheet.Yields.append ?_ (hgroups.append hkeyframes), hendsBase⟩
  rw [List.append_nil]
  exact hbase

/-- The text of clean parts can be read, as what is written of them. -/
lemma parse_text {parts : Classification} (h : parts.IsClean) (options : Options) :
    Sheet.parse (parts.text options) = .ok ⟨(parts.shown options).statements⟩ := by
  obtain ⟨hyields, hends⟩ := yields_text h options
  exact Sheet.parse_of_yields hyields hends

end Classification

/-! ## Extractions -/

namespace Extraction

/-- The text of all buckets in their order. -/
def css (e : Extraction) : String :=
  String.join (e.buckets.map (·.css))

/-- The extraction without the buckets that have no text. -/
def withoutEmpty (e : Extraction) : Extraction :=
  { e with buckets := e.buckets.filter (·.css != "") }

end Extraction

/-- The texts of collections are not empty if those of the groups are not. -/
lemma css_ne_of_mem_collectionsFrom {parts : List String} {groups : List Bucket}
    (h : ∀ g ∈ groups, g.css ≠ "") : ∀ b ∈ collectionsFrom parts groups, b.css ≠ "" := by
  induction groups generalizing parts with
  | nil => exact fun b hb => absurd hb List.not_mem_nil
  | cons g groups ih =>
    intro b hb
    rcases List.mem_cons.mp hb with rfl | hmem
    · have hg := h g List.mem_cons_self
      cases parts with
      | nil => simpa using hg
      | cons p parts =>
        rw [String.intercalate_append_of_ne_nil (List.cons_ne_nil p parts) (by simp)]
        simp [hg]
    · exact ih (fun k hk => h k (List.mem_cons_of_mem _ hk)) b hmem

namespace Classification

section

variable (parts : Classification) (options : Options)

/-- The buckets but the collections hold the text of the parts. -/
lemma css_extract : (parts.extract { options with collections := false }).css =
    parts.text options := by
  have hbase : String.join ((parts.baseBucket options).map (·.css)) = parts.baseText options := by
    rw [baseBucket]
    split
    · rename_i hempty
      rw [List.isEmpty_iff] at hempty
      rw [baseText, hempty]
      rfl
    · simp
  have hkeyframes : String.join ((parts.keyframesBucket options).map (·.css)) =
      Writer.keyframes ⟨options.hideComments⟩ parts.keyframes := by
    rw [keyframesBucket]
    split
    · rename_i hempty
      rw [List.isEmpty_iff] at hempty
      rw [hempty]
      rfl
    · simp
  have hmedia : (parts.mediaBuckets options).map (·.css) =
      (parts.sortedGroups options).map (Writer.mediaGroup ⟨options.hideComments⟩) := by
    rw [mediaBuckets, List.map_map]
    rfl
  have hbuckets : (parts.extract { options with collections := false }).buckets =
      parts.baseBucket options ++ parts.mediaBuckets options ++ parts.keyframesBucket options :=
    List.append_nil _
  rw [Extraction.css, hbuckets, List.map_append, List.map_append, String.join_append,
    String.join_append, hbase, hkeyframes, hmedia, text, String.append_assoc]

lemma css_ne_of_mem_mediaBuckets : ∀ b ∈ parts.mediaBuckets options, b.css ≠ "" := by
  intro b hb
  obtain ⟨g, -, rfl⟩ := List.mem_map.mp hb
  simp [Writer.mediaGroup]

lemma css_ne_of_mem_keyframesBucket : ∀ b ∈ parts.keyframesBucket options, b.css ≠ "" := by
  intro b hb
  rw [keyframesBucket] at hb
  split at hb
  · exact absurd hb List.not_mem_nil
  · rename_i hne
    obtain rfl := List.mem_singleton.mp hb
    cases hblocks : parts.keyframes with
    | nil => exact absurd (by rw [hblocks]; rfl) hne
    | cons k blocks => simp [Writer.keyframes, Writer.keyframesBlock]

lemma css_ne_of_mem_collectionBuckets : ∀ b ∈ parts.collectionBuckets options, b.css ≠ "" := by
  intro b hb
  rw [collectionBuckets] at hb
  split at hb
  · exact css_ne_of_mem_collectionsFrom (css_ne_of_mem_mediaBuckets parts options) b hb
  · exact absurd hb List.not_mem_nil

/-- Only the base bucket can have no text. -/
lemma buckets_withoutEmpty : (parts.extract options).withoutEmpty.buckets =
    (parts.baseBucket options).filter (·.css != "") ++ parts.mediaBuckets options ++
      parts.keyframesBucket options ++ parts.collectionBuckets options := by
  have hself : ∀ {buckets : List Bucket}, (∀ b ∈ buckets, b.css ≠ "") →
      buckets.filter (·.css != "") = buckets := fun h =>
    List.filter_eq_self.mpr fun b hb => bne_iff_ne.mpr (h b hb)
  rw [Extraction.withoutEmpty, extract, List.filter_append, List.filter_append, List.filter_append,
    hself (css_ne_of_mem_mediaBuckets parts options),
    hself (css_ne_of_mem_keyframesBucket parts options),
    hself (css_ne_of_mem_collectionBuckets parts options)]

lemma baseText_shown : (parts.shown options).baseText options = parts.baseText options :=
  Writer.base_shown _ parts.base

/-- The groups of what is written are in the order of the policy. -/
lemma sortedGroups_shown : (parts.shown options).sortedGroups options =
    (parts.sortedGroups options).map (Writer.shownGroup ⟨options.hideComments⟩) := by
  have hmap := options.sort.sort_map (f := Writer.shownGroup ⟨options.hideComments⟩)
    (fun _ => rfl) (fun _ => rfl) (parts.sortedGroups options)
  have hsort : options.sort.sort (parts.sortedGroups options) = parts.sortedGroups options :=
    options.sort.sort_sort parts.groups
  rw [hsort] at hmap
  exact hmap

lemma mediaBuckets_shown :
    (parts.shown options).mediaBuckets options = parts.mediaBuckets options := by
  rw [mediaBuckets, mediaBuckets, sortedGroups_shown, List.map_map]
  refine List.map_congr_left fun g _ => ?_
  exact congrArg (Bucket.mk g.id) (Writer.mediaGroup_shownGroup _ g)

lemma keyframesBucket_shown :
    (parts.shown options).keyframesBucket options = parts.keyframesBucket options := by
  have htext := Writer.keyframes_shownKeyframes ⟨options.hideComments⟩ parts.keyframes
  rw [keyframesBucket, keyframesBucket, shown, List.isEmpty_map]
  simp only [htext]

lemma collectionBuckets_shown :
    (parts.shown options).collectionBuckets options = parts.collectionBuckets options := by
  rw [collectionBuckets, collectionBuckets, baseText_shown, mediaBuckets_shown]

/-- The base of what is written is left out if it has no text. -/
lemma baseBucket_shown : (parts.shown options).baseBucket options =
    (parts.baseBucket options).filter (·.css != "") := by
  have hnil := Writer.shown_eq_nil_iff ⟨options.hideComments⟩ parts.base
  have hbase : (parts.shown options).base.isEmpty = (parts.baseText options == "") := by
    rw [Bool.eq_iff_iff, List.isEmpty_iff, beq_iff_eq]
    exact hnil
  rw [baseBucket, baseBucket, baseText_shown, hbase]
  by_cases hempty : parts.base.isEmpty
  · have htext : parts.baseText options = "" := by
      rw [baseText, List.isEmpty_iff.mp hempty]
      rfl
    simp [hempty, htext]
  · by_cases htext : parts.baseText options = "" <;> simp [hempty, htext]

/-- **Extracting what is written** — the buckets are those of the parts that have a text. -/
lemma extract_shown :
    (parts.shown options).extract options = (parts.extract options).withoutEmpty := by
  have hcount : (parts.shown options).groups.length = parts.groups.length := by
    rw [shown, List.length_map, length_sortedGroups]
  have hbuckets : ((parts.shown options).extract options).buckets =
      (parts.extract options).withoutEmpty.buckets := by
    rw [buckets_withoutEmpty, extract, baseBucket_shown, mediaBuckets_shown, keyframesBucket_shown,
      collectionBuckets_shown]
  exact congr (congrArg Extraction.mk hbuckets) hcount

end

/-- If comments are written, the base bucket has a text. -/
lemma filter_baseBucket {parts : Classification} (h : parts.IsProper) {options : Options}
    (hshow : options.hideComments = false) :
    (parts.baseBucket options).filter (·.css != "") = parts.baseBucket options := by
  refine List.filter_eq_self.mpr fun b hb => bne_iff_ne.mpr fun htext => ?_
  rw [baseBucket] at hb
  split at hb
  · exact absurd hb List.not_mem_nil
  · rename_i hne
    obtain rfl := List.mem_singleton.mp hb
    have hnil := (Writer.shown_eq_nil_iff _ parts.base).mpr htext
    obtain ⟨s, base, hcons⟩ := List.exists_cons_of_ne_nil fun h => hne (List.isEmpty_iff.mpr h)
    have hmem : s ∈ parts.base := hcons ▸ List.mem_cons_self
    obtain ⟨t, ht⟩ := Writer.exists_shown? ⟨options.hideComments⟩ (h.isTopLevel s hmem) hshow
    have hnone := List.filterMap_eq_nil_iff.mp hnil s hmem
    rw [ht] at hnone
    exact absurd hnone (by simp)

/-- If comments are written, each bucket has a text. -/
lemma withoutEmpty_extract {parts : Classification} (h : parts.IsProper) {options : Options}
    (hshow : options.hideComments = false) :
    (parts.extract options).withoutEmpty = parts.extract options := by
  have hbuckets := buckets_withoutEmpty parts options
  rw [filter_baseBucket h hshow] at hbuckets
  exact congrArg (Extraction.mk · _) hbuckets

end Classification

/-! ## Extracting again -/

/-- **Extracting again** — the text of all buckets but the collections of a clean sheet can be read,
and its extraction is that of the sheet, save for a base of comments that are hidden.

**Proof sketch.** The text is read as what is written of the parts, part by part. These are parts
that a sheet can have, so that they are found again; and what is not written of them, like the order
in which the groups were found, leaves no trace in the buckets. -/
theorem Sheet.extract_again (sheet : Sheet) (hsheet : sheet.isClean) (options : Options) :
    ∃ again, Sheet.parse (sheet.extract { options with collections := false }).css = .ok again ∧
      again.extract options = (sheet.extract options).withoutEmpty ∧
      (options.hideComments = false → again.extract options = sheet.extract options) := by
  have hclean := Classification.isClean_classify hsheet
  have hproper := Classification.isProper_classify sheet.statements
  have hparse : Sheet.parse (sheet.extract { options with collections := false }).css =
      .ok ⟨((classify sheet.statements).shown options).statements⟩ := by
    rw [Sheet.extract, Classification.css_extract]
    exact Classification.parse_text hclean options
  have hextract : Sheet.extract ⟨((classify sheet.statements).shown options).statements⟩ options =
      (sheet.extract options).withoutEmpty := by
    rw [Sheet.extract, Classification.classify_statements (hproper.shown options)]
    exact Classification.extract_shown (classify sheet.statements) options
  refine ⟨_, hparse, hextract, fun hshow => ?_⟩
  rw [hextract]
  exact Classification.withoutEmpty_extract hproper hshow

/-- A clean sheet with two media blocks of one group, a comment, keyframes and an import. -/
def Sheet.sample : Sheet where
  statements :=
    [.style (.atRule "import" "" none),
      .media "(min-width: 600px)" [.style (.rule ["a", ".b > c"] [.declaration "width" "1px"])],
      .style (.rule ["#d:hover"] [.comment "e", .declaration "*zoom" "1"]),
      .media "(MIN-WIDTH:600px)" [.style (.comment "f")],
      .keyframes ⟨"-webkit-", "g", [.step ["0%", "to"] [.declaration "--h" ""]]⟩]

/-- What is extracted from the sample is extracted again. -/
theorem Sheet.extract_again_sample :
    Sheet.sample.isClean ∧ ∃ again, Sheet.parse (Sheet.sample.extract {}).css = .ok again ∧
      again.extract {} = Sheet.sample.extract {} := by
  have hclean : Sheet.sample.isClean := by decide
  obtain ⟨again, hparse, -, hextract⟩ := Sheet.sample.extract_again hclean {}
  exact ⟨hclean, again, hparse, hextract rfl⟩

end StyleSplit
