import StyleSplit.Proofs.Extraction.Collections
import StyleSplit.Proofs.Extraction.Tags
import StyleSplit.Proofs.Media.Sorting
set_option autoImplicit false

/-!
# The layout of an extraction

The buckets of a sheet come in a fixed order: the base, the media groups in the order of the policy,
the keyframes, and the collections, one for each media group. A collection goes on where the one
before it ends.

## Main definitions

* `StyleSplit.AreCumulative` — collections that grow by one media bucket each.

## Main results

* `StyleSplit.length_mergedGroups` — there is one group for each identifier.
* `StyleSplit.areCumulative_collections` — each collection begins with the one before it.
* `StyleSplit.Sheet.extract_layout` — the buckets of a sheet in their order.
-/

namespace StyleSplit

/-! ## The number of groups -/

/-- **The number of groups** — one for each identifier. -/
lemma length_mergedGroups (blocks : List MediaBlock) :
    (mergedGroups blocks).length = (blocks.map (Condition.groupId ·.1)).toFinset.card := by
  have hids : (blocks.map (Condition.groupId ·.1)).toFinset =
      ((mergedGroups blocks).map (·.id)).toFinset := by
    ext id
    rw [List.mem_toFinset, List.mem_toFinset, mem_map_id_mergedGroups]
  rw [hids, List.toFinset_card_of_nodup (nodup_map_id_mergedGroups blocks), List.length_map]

/-! ## Cumulative collections -/

/-- **Cumulative collections** — there is one for each media bucket, which joins the base, unless it
is empty, with the media buckets up to its own. -/
structure AreCumulative (base : String) (media collections : List Bucket) : Prop where
  length : collections.length = media.length
  /-- A collection is named after its last media bucket. -/
  tag : ∀ (k : ℕ) (c m : Bucket), collections[k]? = some c → media[k]? = some m →
    c.tag = "base_" ++ m.tag
  /-- Two line feeds stand between the joined texts. -/
  css : ∀ (k : ℕ) (c : Bucket), collections[k]? = some c →
    c.css = "\n\n".intercalate
      ((if base = "" then [] else [base]) ++ (media.take (k + 1)).map (·.css))
  /-- The next collection goes on where a collection ends. -/
  grows : ∀ (k : ℕ) (c d : Bucket), collections[k]? = some c → collections[k + 1]? = some d →
    ∃ more ≠ "", d.css = c.css ++ more
  /-- A media bucket is joined once in each collection from its own on, and in no other one. -/
  once : ∀ (j k : ℕ) (m : Bucket), media[j]? = some m → k < collections.length →
    (media.take (k + 1)).count m = if j ≤ k then 1 else 0

/-- The first elements of a list without repeats hold an element once, or not at all. -/
lemma count_take_of_nodup {α : Type} [DecidableEq α] {l : List α} (h : l.Nodup) {j : ℕ} {a : α}
    (ha : l[j]? = some a) (n : ℕ) : (l.take n).count a = if j < n then 1 else 0 := by
  obtain ⟨hj, rfl⟩ := List.getElem?_eq_some_iff.mp ha
  have hmem : l[j] ∈ l.take n ↔ j < n := by
    rw [List.mem_take_iff_idxOf_lt (List.getElem_mem hj), h.idxOf_getElem]
  rw [(h.sublist (List.take_sublist n l)).count, if_congr hmem rfl rfl]

/-- One more text is joined behind a separator. -/
lemma intercalate_append_singleton {separator text : String} {texts : List String}
    (h : texts ≠ []) : separator.intercalate (texts ++ [text]) =
      separator.intercalate texts ++ (separator ++ text) := by
  rw [String.intercalate_append_of_ne_nil h (List.cons_ne_nil _ _), String.intercalate_singleton,
    String.append_assoc]

/-- The collections of media buckets with different tags are cumulative. -/
lemma areCumulative_collections (base : String) {media : List Bucket}
    (h : (media.map (·.tag)).Nodup) : AreCumulative base media (collections base media) where
  length := by
    have htags := congrArg List.length (map_tag_collections base media)
    simpa using htags
  tag := by
    intro k c m hc hm
    rw [collections, getElem?_collectionsFrom, hm] at hc
    obtain rfl := Option.some.inj hc
    rfl
  css := by
    intro k c hc
    rw [collections, getElem?_collectionsFrom] at hc
    obtain ⟨g, -, rfl⟩ := Option.map_eq_some_iff.mp hc
    rfl
  grows := by
    intro k c d hc hd
    rw [collections, getElem?_collectionsFrom] at hc hd
    obtain ⟨g, hg, rfl⟩ := Option.map_eq_some_iff.mp hc
    obtain ⟨m, hm, rfl⟩ := Option.map_eq_some_iff.mp hd
    have hk := (List.getElem?_eq_some_iff.mp hg).1
    have hne : (if base = "" then [] else [base]) ++ (media.take (k + 1)).map (·.css) ≠ [] := by
      rw [← List.length_pos_iff, List.length_append, List.length_map, List.length_take]
      omega
    refine ⟨collectionSeparator ++ m.css, by simp [collectionSeparator], ?_⟩
    simp only [List.take_add_one (i := k + 1), hm, Option.toList_some, List.map_append,
      List.map_singleton, ← List.append_assoc]
    exact intercalate_append_singleton hne
  once := by
    intro j k m hm _
    rw [count_take_of_nodup h.of_map hm]
    exact if_congr Nat.lt_succ_iff rfl rfl

/-! ## All buckets -/

/-- The media buckets of a sheet have different tags. -/
lemma nodup_map_tag_mediaBuckets (sheet : Sheet) (options : Options) :
    (((classify sheet.statements).mediaBuckets options).map (·.tag)).Nodup := by
  have htags := sheet.nodup_map_tag_buckets options
  rw [Sheet.extract, Classification.extract, List.map_append, List.map_append, List.map_append]
    at htags
  exact htags.of_append_left.of_append_left.of_append_right

/-- There are keyframes exactly if a statement of the top level is a keyframes block. -/
lemma keyframes_classify_ne_nil_iff {statements : List Statement} :
    (classify statements).keyframes ≠ [] ↔ ∃ k, .keyframes k ∈ statements := by
  constructor
  · intro h
    obtain ⟨k, hk⟩ := List.exists_mem_of_ne_nil _ h
    exact ⟨k, Classification.mem_of_mem_keyframes_classify hk⟩
  · rintro ⟨k, hk⟩
    rw [classify_eq]
    exact List.ne_nil_of_mem (List.mem_filterMap.mpr ⟨_, hk, rfl⟩)

/-- **Layout** — an extraction counts the identifiers of the `@media` blocks of the top level. Its
buckets are the base, if there is some, with its text; the media groups in the order of the policy,
one for each identifier; the keyframes, if there is a keyframes block; and, if collections are
wanted, one for each media bucket, which are cumulative.

**Proof sketch.** The identifiers of groups differ, so that there are as many groups as there are
identifiers, and no media bucket comes twice. A collection joins the texts of the one before it and
one more text, so that it begins with the former. -/
theorem Sheet.extract_layout (sheet : Sheet) (options : Options) :
    let blocks := sheet.statements.filterMap Statement.mediaBlock?
    let writer : Writer := ⟨options.hideComments⟩
    let baseText := writer.base (sheet.statements.filterMap Statement.base?)
    let n := (blocks.map (Condition.groupId ·.1)).toFinset.card
    ∃ groups base media keyframes collections,
      sheet.extract options = ⟨base ++ media ++ keyframes ++ collections, n⟩ ∧
      (base.length ≤ 1 ∧ ∀ b ∈ base, b = ⟨"base", baseText⟩) ∧
      (options.sort.IsOrder (mergedGroups blocks) groups ∧ media.length = n ∧
        media = groups.map fun g => ⟨g.id, writer.mediaGroup g⟩) ∧
      (keyframes.length ≤ 1 ∧ (∀ b ∈ keyframes, b.tag = "keyframes") ∧
        (keyframes ≠ [] ↔ ∃ k, .keyframes k ∈ sheet.statements)) ∧
      if options.collections then AreCumulative baseText media collections
      else collections = [] := by
  intro blocks writer baseText n
  let parts := classify sheet.statements
  have hparts : parts = partsOf sheet.statements := classify_eq sheet.statements
  have hcount : parts.groups.length = n := by
    rw [hparts]
    exact length_mergedGroups blocks
  have hmedia : (parts.mediaBuckets options).length = n := by
    rw [Classification.mediaBuckets, List.length_map, Classification.length_sortedGroups, hcount]
  have hbase : parts.baseText options = baseText := by
    rw [hparts]
    rfl
  refine ⟨parts.sortedGroups options, parts.baseBucket options, parts.mediaBuckets options,
    parts.keyframesBucket options, parts.collectionBuckets options, ?_, ?_, ⟨?_, hmedia, rfl⟩, ?_,
    ?_⟩
  · rw [← hcount]
    rfl
  · rw [Classification.baseBucket, hbase]
    split_ifs <;> simp [Tag.base]
  · rw [Classification.sortedGroups, groups_classify]
    exact options.sort.isOrder_sort _
  · rw [← keyframes_classify_ne_nil_iff, Classification.keyframesBucket]
    split_ifs with hempty
    · simpa using hempty
    · simpa [Tag.keyframes] using hempty
  · rw [Classification.collectionBuckets, hbase]
    split_ifs
    · exact areCumulative_collections baseText (nodup_map_tag_mediaBuckets sheet options)
    · rfl

end StyleSplit
