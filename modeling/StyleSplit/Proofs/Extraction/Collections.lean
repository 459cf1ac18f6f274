import StyleSplit.Proofs.Extraction.Reread
set_option autoImplicit false

/-!
# Extracting a collection

A collection of a clean sheet is a stylesheet again, and its extraction gives what it stands for:
the base, and the media groups up to the one that it is named after. The empty lines between its
parts are skipped, and the first groups in the order of the policy are in this order already.

## Main definitions

* `StyleSplit.Sheet.isCleanButKeyframes` — sheets that are clean but for their keyframes blocks.
* `StyleSplit.Classification.upTo` — the base and the first groups.
* `StyleSplit.Classification.joined` — the texts that the collection of the first groups joins.

## Main results

* `StyleSplit.Classification.isParagraph_joined` — the text of a collection yields what is written
  of the base and the first groups.
* `StyleSplit.Classification.extract_upTo` — the extraction of the base and the first groups.
* `StyleSplit.Sheet.extract_collection` — extracting a collection.
-/

namespace StyleSplit

/-- **Clean but for keyframes** — a sheet whose statements are clean, but perhaps for keyframes
blocks. -/
def Sheet.isCleanButKeyframes (sheet : Sheet) : Bool :=
  sheet.statements.all fun s => s.keyframes?.isSome || s.isClean

/-! ## The text of a collection -/

/-- The text of a collection joins what goes before with the groups up to its own. -/
lemma getElem?_collectionsFrom (parts : List String) (groups : List Bucket) (k : Nat) :
    (collectionsFrom parts groups)[k]? = groups[k]?.map fun g =>
      ⟨Tag.collection g.tag,
        collectionSeparator.intercalate (parts ++ (groups.take (k + 1)).map (·.css))⟩ := by
  induction groups generalizing parts k with
  | nil => rfl
  | cons g groups ih =>
    cases k with
    | zero => rfl
    | succ k =>
      rw [collectionsFrom, List.getElem?_cons_succ, List.getElem?_cons_succ, ih]
      simp

namespace Writer

open Sheet

/-- A clean base that is written at all is a paragraph. -/
lemma isParagraph_base {w : Writer} {styles : List Style} (hs : styles.all Style.isClean)
    (hne : w.shown styles ≠ []) :
    IsParagraph readStatements (w.base styles).toList ((w.shown styles).map .style) := by
  induction styles with
  | nil => exact absurd rfl hne
  | cons s styles ih =>
    rw [List.all_cons, Bool.and_eq_true] at hs
    have htext : w.base (s :: styles) = w.style s ++ w.base styles := by simp [base]
    rw [shown, List.filterMap_cons] at hne ⊢
    cases hshown : w.shown? s with
    | none =>
      rw [htext, style_eq_of_shown? hshown, String.empty_append]
      rw [hshown] at hne
      exact ih hs.2 hne
    | some x =>
      have hfirst := isParagraph_style hs.1 hshown
      rw [htext]
      by_cases hrest : w.shown styles = []
      · rw [(w.shown_eq_nil_iff styles).mp hrest, String.append_empty]
        rw [shown] at hrest
        rwa [hrest]
      · have hnone : ([] : List Char).all Css.isSpace := rfl
        have happend := hfirst.append skipsBlanks_readStatements hnone (ih hs.2 hrest)
        simpa [shown] using happend

end Writer

namespace Classification

/-! ## The first groups -/

/-- **Up to a group** — the base and the first groups, without the keyframes. -/
def upTo (parts : Classification) (n : Nat) : Classification where
  base := parts.base
  groups := parts.groups.take n
  keyframes := []
  ignored := []

/-- Some of proper parts are proper. -/
lemma IsProper.upTo {parts : Classification} (h : parts.IsProper) (n : Nat) :
    (parts.upTo n).IsProper where
  isTopLevel := h.isTopLevel
  nodup_id := h.nodup_id.sublist ((List.take_sublist n parts.groups).map _)
  eq_ofCondition := fun g hg => h.eq_ofCondition g (List.mem_of_mem_take hg)
  isGrouped := fun g hg => h.isGrouped g (List.mem_of_mem_take hg)

section

variable (parts : Classification) (options : Options) (n : Nat)

/-- The first of the sorted groups are sorted. -/
lemma sortedGroups_upTo : ((parts.shown options).upTo n).sortedGroups options =
    ((parts.shown options).sortedGroups options).take n := by
  have hgroups : (parts.shown options).groups = (parts.shown options).sortedGroups options :=
    (sortedGroups_shown parts options).symm
  rw [sortedGroups, upTo, hgroups]
  exact options.sort.sort_of_sublist (List.take_sublist n _)

/-- **Extracting the base and the first groups** — the buckets are those of the base and of these
groups. -/
lemma extract_upTo (hn : n ≤ parts.groups.length) :
    ((parts.shown options).upTo n).extract { options with collections := false } =
      ⟨(parts.baseBucket options).filter (·.css != "") ++ (parts.mediaBuckets options).take n,
        n⟩ := by
  have hmedia : ((parts.shown options).upTo n).mediaBuckets options =
      (parts.mediaBuckets options).take n := by
    rw [← mediaBuckets_shown parts, mediaBuckets, mediaBuckets, sortedGroups_upTo, List.map_take]
  have hbase : ((parts.shown options).upTo n).baseBucket options =
      (parts.baseBucket options).filter (·.css != "") := baseBucket_shown parts options
  have hcount : ((parts.shown options).upTo n).groups.length = n := by
    rw [upTo, List.length_take, shown, List.length_map, length_sortedGroups, Nat.min_eq_left hn]
  have hbuckets : (((parts.shown options).upTo n).extract
      { options with collections := false }).buckets =
      ((parts.shown options).upTo n).baseBucket options ++
        ((parts.shown options).upTo n).mediaBuckets options := by
    simp [extract, keyframesBucket, collectionBuckets, upTo, baseBucket, mediaBuckets, sortedGroups,
      baseText]
  rw [hbase, hmedia] at hbuckets
  exact congr (congrArg Extraction.mk hbuckets) hcount

/-! ## Reading a collection -/

/-- The texts that the collection of the first groups joins. -/
def joined : List String :=
  (if parts.baseText options = "" then [] else [parts.baseText options]) ++
    ((parts.mediaBuckets options).take n).map (·.css)

variable {parts n}

/-- **The text of a collection** — the joined texts are a paragraph, which yields what is written of
the base and the first groups. -/
lemma isParagraph_joined (h : { parts with keyframes := [] }.IsClean) (hn : 0 < n)
    (hgroups : parts.groups ≠ []) :
    Sheet.IsParagraph Sheet.readStatements
      (collectionSeparator.intercalate (parts.joined options n)).toList
      ((parts.shown options).upTo n).statements := by
  have hbase : List.Forall₂ (fun text xs => Sheet.IsParagraph Sheet.readStatements text.toList xs)
      (if parts.baseText options = "" then [] else [parts.baseText options])
      (if parts.baseText options = "" then [] else
        [(parts.shown options).base.map Statement.style]) := by
    split
    · exact .nil
    · rename_i hne
      refine .cons (Writer.isParagraph_base h.base fun hnil => hne ?_) .nil
      exact (Writer.shown_eq_nil_iff _ _).mp hnil
  have hmedia : List.Forall₂ (fun text xs => Sheet.IsParagraph Sheet.readStatements text.toList xs)
      (((parts.mediaBuckets options).take n).map (·.css))
      (((parts.shown options).groups.take n).map fun g => [g.toStatement]) := by
    rw [mediaBuckets, shown, ← List.map_take, ← List.map_take, List.map_map, List.map_map,
      List.forall₂_map_left_iff, List.forall₂_map_right_iff, List.forall₂_same]
    intro g hg
    have hmem := mem_sortedGroups.mp (List.mem_of_mem_take hg)
    exact Writer.isParagraph_mediaGroup _ (h.condition g hmem) (h.rules g hmem)
  have hne : parts.joined options n ≠ [] := by
    have hpos := List.length_pos_iff.mpr hgroups
    rw [← List.length_pos_iff, joined, List.length_append, List.length_map, List.length_take,
      mediaBuckets, List.length_map, length_sortedGroups]
    omega
  have hlists : ((if parts.baseText options = "" then [] else
        [(parts.shown options).base.map Statement.style]) ++
      ((parts.shown options).groups.take n).map fun g => [MediaGroup.toStatement g]).flatten =
      ((parts.shown options).upTo n).statements := by
    have hnil : parts.baseText options = "" → (parts.shown options).base = [] :=
      (Writer.shown_eq_nil_iff _ _).mpr
    rw [List.flatten_append, ← List.flatMap_def, ← List.map_eq_flatMap]
    split <;> rename_i htext <;> simp [statements, upTo, htext, hnil]
  rw [← hlists]
  exact Sheet.IsParagraph.intercalate Sheet.skipsBlanks_readStatements (by decide)
    (List.rel_append hbase hmedia) hne

end

end Classification

/-! ## Extracting a collection -/

/-- **Extracting a collection** — the collection of a media group can be read, and its extraction
has the base bucket, unless it has no text, and the media buckets up to the one of the group.

**Proof sketch.** The collection joins paragraphs with empty lines, which are skipped, so that it is
read as what is written of the base and of the first groups. These are parts that a sheet can have,
so that they are found again, and the first of the sorted groups are sorted. -/
theorem Sheet.extract_collection (sheet : Sheet) (hsheet : sheet.isCleanButKeyframes)
    (options : Options) (hcollections : options.collections = true) :
    let parts := classify sheet.statements
    ∀ k < (sheet.extract options).mediaGroups, ∃ media c again,
      (parts.mediaBuckets options)[k]? = some media ∧
        (parts.collectionBuckets options)[k]? = some c ∧
        c ∈ (sheet.extract options).buckets ∧ c.tag = Tag.collection media.tag ∧
        Sheet.parse c.css = .ok again ∧
        again.extract { options with collections := false } =
          ⟨(parts.baseBucket options).filter (·.css != "") ++
            (parts.mediaBuckets options).take (k + 1), k + 1⟩ ∧
        (options.hideComments = false → again.extract { options with collections := false } =
          ⟨parts.baseBucket options ++ (parts.mediaBuckets options).take (k + 1), k + 1⟩) := by
  intro parts k hk
  have hproper : parts.IsProper := Classification.isProper_classify sheet.statements
  have hclean : { parts with keyframes := [] }.IsClean := by
    refine Classification.isClean_without_keyframes fun t ht hnone => ?_
    simpa [hnone] using List.all_eq_true.mp hsheet t ht
  have hlt : k < (parts.mediaBuckets options).length := by
    rw [Classification.mediaBuckets, List.length_map, Classification.length_sortedGroups]
    exact hk
  have hcollection : (parts.collectionBuckets options)[k]? =
      some ⟨Tag.collection (parts.mediaBuckets options)[k].tag,
        collectionSeparator.intercalate (parts.joined options (k + 1))⟩ := by
    rw [Classification.collectionBuckets, if_pos hcollections, collections,
      getElem?_collectionsFrom, List.getElem?_eq_getElem hlt]
    rfl
  have hjoined := Classification.isParagraph_joined options hclean (Nat.succ_pos k)
    (List.ne_nil_of_length_pos (Nat.zero_lt_of_lt hk))
  have hparse := Sheet.parse_of_yields
    (hjoined.yields Sheet.skipsBlanks_readStatements rfl) hjoined.endsBlanks
  have hextract : Sheet.extract ⟨((parts.shown options).upTo (k + 1)).statements⟩
      { options with collections := false } =
      ⟨(parts.baseBucket options).filter (·.css != "") ++
        (parts.mediaBuckets options).take (k + 1), k + 1⟩ := by
    rw [Sheet.extract, Classification.classify_statements ((hproper.shown options).upTo (k + 1))]
    exact Classification.extract_upTo parts options (k + 1) hk
  refine ⟨_, _, _, List.getElem?_eq_getElem hlt, hcollection, ?_, rfl, hparse, hextract,
    fun hshow => ?_⟩
  · exact List.mem_append_right _ (List.mem_of_getElem? hcollection)
  · rw [hextract, Classification.filter_baseBucket hproper hshow]

/-- Two media groups, the first of which comes last in the order that puts least widths last, a
comment, and keyframes whose name cannot be read. -/
def Sheet.leastWidthFirst : Sheet where
  statements :=
    [.media "(min-width: 900px)" [.style (.rule ["a"] [])], .style (.comment "b"),
      .keyframes ⟨"", "*/", []⟩, .media "print" [.style (.rule ["c"] [.comment "d"])]]

/-- The collection of both groups has the comment and both groups. -/
theorem Sheet.extract_collection_leastWidthFirst :
    let options : Options := { sort := .minWidthLast, collections := true }
    leastWidthFirst.isCleanButKeyframes ∧ 1 < (leastWidthFirst.extract options).mediaGroups ∧
      ∃ c again, c ∈ (leastWidthFirst.extract options).buckets ∧ Sheet.parse c.css = .ok again ∧
        again.extract { sort := .minWidthLast } =
          ⟨(leastWidthFirst.extract options).buckets.take 3, 2⟩ := by
  intro options
  have hclean : leastWidthFirst.isCleanButKeyframes := by decide
  have hgroups : 1 < (leastWidthFirst.extract options).mediaGroups := by decide +kernel
  obtain ⟨media, c, again, -, -, hmem, -, hparse, -, hextract⟩ :=
    leastWidthFirst.extract_collection hclean options rfl 1 hgroups
  refine ⟨hclean, hgroups, c, again, hmem, hparse, (hextract rfl).trans ?_⟩
  decide +kernel

end StyleSplit
