import StyleSplit.Proofs.Files.Path
import StyleSplit.Proofs.Media.Classification
import StyleSplit.Proofs.Media.Condition
set_option autoImplicit false

/-!
# Tags tell buckets apart

The base, the media groups, the keyframes and the collections share one space of names, and the
conditions of a sheet have a say in it. No two buckets of a sheet have one tag all the same: the
identifiers of groups differ, no identifier is taken by another part, and a collection is named
after its last group.

## Main definitions

* `StyleSplit.Tag.IsPlain` — tags that a file name may hold.

## Main results

* `StyleSplit.Sheet.isPlain_of_mem_tags` — the tags of an extraction are plain.
* `StyleSplit.Classification.nodup_map_tag` — the tags of an extraction differ.
* `StyleSplit.Sheet.tags_nodup` — so a tag finds its bucket, and buckets have different files.
-/

namespace StyleSplit

/-! ## Look-up by a key without repeats -/

/-- The first element with the key of an element is that element, where keys do not repeat. -/
lemma find?_eq_some_of_nodup_map {α β : Type} [BEq β] [LawfulBEq β] {f : α → β} {l : List α}
    (h : (l.map f).Nodup) {a : α} (ha : a ∈ l) : l.find? (f · == f a) = some a := by
  obtain ⟨b, hb⟩ := Option.isSome_iff_exists.mp
    (List.find?_isSome.mpr ⟨a, ha, BEq.refl (f a)⟩ : (l.find? (f · == f a)).isSome)
  have hkey : f b = f a := eq_of_beq (List.find?_some hb :)
  rw [hb, List.inj_on_of_nodup_map h (List.mem_of_find?_eq_some hb) ha hkey]

/-! ## Tags of an extraction -/

namespace Tag

/-- **Plain tags** — texts that are not empty and are made of key characters. -/
def IsPlain (s : String) : Prop :=
  s ≠ "" ∧ ∀ c ∈ s.toList, Condition.isKeyChar c

/-- Other characters are not in a plain tag. -/
lemma IsPlain.notMem {s : String} (h : IsPlain s) {c : Char} (hc : Condition.isKeyChar c = false) :
    c ∉ s.toList :=
  fun hmem => absurd (h.2 c hmem) (by simp [hc])

lemma collection_injective : Function.Injective collection := by
  intro a b h
  have hlist := congrArg String.toList h
  rw [collection, collection, String.toList_append, String.toList_append] at hlist
  exact String.toList_inj.mp (List.append_cancel_left hlist)

lemma isTaken_collection (id : String) : isTaken (collection id) := by
  simp [isTaken, collection]

/-- A text that begins otherwise is not the tag of a collection. -/
lemma collection_ne_of_isPrefixOf {s : String}
    (h : collectionPrefix.toList.isPrefixOf s.toList = false) {id : String} :
    collection id ≠ s := by
  rintro rfl
  rw [collection, String.toList_append,
    List.isPrefixOf_iff_prefix.mpr (List.prefix_append _ _)] at h
  exact Bool.noConfusion h

end Tag

namespace Classification

/-- The tags of the buckets: the base, the identifiers of the groups in the order of the policy,
the keyframes, and the collections of the identifiers. -/
lemma map_tag_extract (parts : Classification) (options : Options) :
    let ids := (parts.sortedGroups options).map (·.id)
    (parts.extract options).buckets.map (·.tag) =
      (if parts.base.isEmpty then [] else [Tag.base]) ++ ids ++
        (if parts.keyframes.isEmpty then [] else [Tag.keyframes]) ++
        if options.collections then ids.map Tag.collection else [] := by
  have hmedia : (parts.mediaBuckets options).map (·.tag) =
      (parts.sortedGroups options).map (·.id) := by
    rw [mediaBuckets, List.map_map]
    rfl
  have hcollections : (parts.collectionBuckets options).map (·.tag) =
      if options.collections then
        ((parts.sortedGroups options).map (·.id)).map Tag.collection
      else [] := by
    unfold collectionBuckets
    split
    · rw [map_tag_collections, ← hmedia, List.map_map]
      rfl
    · rfl
  simp only [extract, List.map_append, hmedia, hcollections]
  congr 2
  · unfold baseBucket
    split <;> rfl
  · unfold keyframesBucket
    split <;> rfl

/-- What holds of the fixed tags, of the identifiers and of the collections of these holds of all
tags. -/
lemma forall_mem_tags {P : String → Prop} {parts : Classification} {options : Options}
    (hbase : P Tag.base) (hkeyframes : P Tag.keyframes)
    (hgroups : ∀ g ∈ parts.groups, P g.id ∧ P (Tag.collection g.id)) :
    ∀ tag ∈ (parts.extract options).buckets.map (·.tag), P tag := by
  have hids : ∀ id ∈ (parts.sortedGroups options).map (·.id), P id ∧ P (Tag.collection id) := by
    intro id hid
    obtain ⟨g, hg, rfl⟩ := List.mem_map.mp hid
    exact hgroups g ((SortPolicy.sort_perm ..).mem_iff.mp hg)
  intro tag h
  rw [map_tag_extract] at h
  simp only [List.mem_append] at h
  obtain ((h | h) | h) | h := h
  · split at h
    · exact absurd h List.not_mem_nil
    · exact List.mem_singleton.mp h ▸ hbase
  · exact (hids tag h).1
  · split at h
    · exact absurd h List.not_mem_nil
    · exact List.mem_singleton.mp h ▸ hkeyframes
  · split at h
    · obtain ⟨id, hid, rfl⟩ := List.mem_map.mp h
      exact (hids id hid).2
    · exact absurd h List.not_mem_nil

/-- With all parts present, the two fixed tags, the identifiers and the tags of the collections
differ.

**Proof sketch.** The tags of collections differ among each other as the identifiers do, and all but
the identifiers are taken. -/
lemma nodup_tags_of_all_parts {ids : List String} (hids : ids.Nodup)
    (hfree : ∀ id ∈ ids, Tag.isTaken id = false) :
    ([Tag.base] ++ ids ++ [Tag.keyframes] ++ ids.map Tag.collection).Nodup := by
  have hbase : Tag.base ∉ ids := fun h => absurd (hfree _ h) (by decide)
  have hkeyframes : Tag.keyframes ∉ ids := fun h => absurd (hfree _ h) (by decide)
  have hcollection : ∀ other, Tag.collection other ∉ ids := fun other h =>
    absurd (Tag.isTaken_collection other) (by rw [hfree _ h]; decide)
  have hfixed : ∀ id, Tag.collection id ≠ Tag.base ∧ Tag.collection id ≠ Tag.keyframes := fun id =>
    ⟨Tag.collection_ne_of_isPrefixOf (by decide), Tag.collection_ne_of_isPrefixOf (by decide)⟩
  have hdiffer : Tag.base ≠ Tag.keyframes := by decide
  have hcollections := hids.map Tag.collection_injective
  simp only [List.nodup_append, List.nodup_singleton, List.mem_append, List.mem_singleton,
    List.mem_map]
  refine ⟨⟨⟨trivial, hids, ?_⟩, trivial, ?_⟩, hcollections, ?_⟩
  · rintro _ rfl id hid rfl
    exact hbase hid
  · rintro id (rfl | hid) _ rfl heq
    · exact hdiffer heq
    · exact hkeyframes (heq ▸ hid)
  · rintro tag ((rfl | hid) | rfl) _ ⟨id, -, rfl⟩ heq
    · exact (hfixed id).1 heq.symm
    · exact hcollection id (heq ▸ hid)
    · exact (hfixed id).2 heq.symm

/-- The tags of an extraction differ, if the identifiers of the groups do and none is taken. -/
lemma nodup_map_tag {parts : Classification} (options : Options)
    (hids : (parts.groups.map (·.id)).Nodup)
    (hfree : ∀ g ∈ parts.groups, Tag.isTaken g.id = false) :
    ((parts.extract options).buckets.map (·.tag)).Nodup := by
  have hperm : (parts.sortedGroups options).Perm parts.groups := SortPolicy.sort_perm ..
  have hsorted : ((parts.sortedGroups options).map (·.id)).Nodup :=
    (hperm.map _).nodup_iff.mpr hids
  have hsortedFree : ∀ id ∈ (parts.sortedGroups options).map (·.id), Tag.isTaken id = false := by
    intro id hid
    obtain ⟨g, hg, rfl⟩ := List.mem_map.mp hid
    exact hfree g (hperm.mem_iff.mp hg)
  -- leaving out a part only leaves out tags
  rw [map_tag_extract]
  refine (nodup_tags_of_all_parts hsorted hsortedFree).sublist
    (List.Sublist.append (List.Sublist.append (List.Sublist.append ?_ ?_) ?_) ?_)
  · split
    · exact List.nil_sublist _
    · exact List.Sublist.refl _
  · exact List.Sublist.refl _
  · split
    · exact List.nil_sublist _
    · exact List.Sublist.refl _
  · split
    · exact List.Sublist.refl _
    · exact List.nil_sublist _

end Classification

/-! ## Tags of a sheet -/

namespace Sheet

lemma nodup_map_id_groups (sheet : Sheet) :
    ((classify sheet.statements).groups.map (·.id)).Nodup := by
  rw [groups_classify]
  exact nodup_map_id_mergedGroups _

/-- The identifier of each group is that of its condition. -/
lemma id_eq_of_mem_groups {sheet : Sheet} {g : MediaGroup}
    (h : g ∈ (classify sheet.statements).groups) : g.id = Condition.groupId g.condition := by
  rw [groups_classify] at h
  rw [eq_ofCondition_of_mem_mergedGroups h, MediaGroup.ofCondition]

/-- The tags of the buckets of a sheet differ. -/
lemma nodup_map_tag_buckets (sheet : Sheet) (options : Options) :
    ((sheet.extract options).buckets.map (·.tag)).Nodup := by
  refine Classification.nodup_map_tag options sheet.nodup_map_id_groups fun g hg => ?_
  rw [id_eq_of_mem_groups hg]
  exact Condition.isTaken_groupId _

/-- The tags of an extraction are plain. -/
lemma isPlain_of_mem_tags {sheet : Sheet} {options : Options} {tag : String}
    (h : tag ∈ (sheet.extract options).buckets.map (·.tag)) : Tag.IsPlain tag := by
  have hplain : ∀ text : String, (text != "" && text.toList.all Condition.isKeyChar) →
      Tag.IsPlain text := fun text h => by
    rw [Bool.and_eq_true, bne_iff_ne] at h
    exact ⟨h.1, List.all_eq_true.mp h.2⟩
  refine Classification.forall_mem_tags (hplain _ (by decide)) (hplain _ (by decide))
    (fun g hg => ?_) tag h
  rw [id_eq_of_mem_groups hg]
  refine ⟨⟨Condition.groupId_ne_empty _, fun c => Condition.isKeyChar_of_mem_groupId⟩,
    Tag.collection_ne_of_isPrefixOf (by decide), fun c hc => ?_⟩
  have hprefix : Tag.collectionPrefix.toList.all Condition.isKeyChar := by decide
  rw [Tag.collection, String.toList_append, List.mem_append] at hc
  exact hc.elim (List.all_eq_true.mp hprefix c) Condition.isKeyChar_of_mem_groupId

/-- No tag of an extraction holds a slash. -/
lemma slash_notMem_tag {sheet : Sheet} {options : Options} {tag : String}
    (h : tag ∈ (sheet.extract options).buckets.map (·.tag)) : '/' ∉ tag.toList :=
  (isPlain_of_mem_tags h).notMem (by decide)

/-- **Tags tell buckets apart** — the buckets of a sheet have different tags. So a look-up by the
tag of a bucket finds that bucket and there is no other, and whatever the destination, the paths of
the buckets lead to different places. -/
theorem tags_nodup (sheet : Sheet) (options : Options) :
    ((sheet.extract options).buckets.map (·.tag)).Nodup ∧
      (∀ b ∈ (sheet.extract options).buckets, (sheet.extract options).bucket? b.tag = some b ∧
        ∀ other ∈ (sheet.extract options).buckets, other.tag = b.tag → other = b) ∧
      ∀ destination : Path, ((sheet.extract options).buckets.map fun b =>
        (bucketPath destination b.tag).components).Nodup := by
  have htags := sheet.nodup_map_tag_buckets options
  refine ⟨htags, fun b hb => ⟨find?_eq_some_of_nodup_map htags hb, fun other hother heq => ?_⟩,
    fun destination => ?_⟩
  · exact List.inj_on_of_nodup_map htags hother hb heq
  · -- equal components have equal last components, which differ in the tag only
    have hbuckets : (sheet.extract options).buckets.Nodup := htags.of_map
    refine hbuckets.map_on fun b hb other hother heq => ?_
    have hlast := congrArg List.getLast? heq
    rw [getLast?_components_bucketPath _ (slash_notMem_tag (List.mem_map_of_mem hb)),
      getLast?_components_bucketPath _ (slash_notMem_tag (List.mem_map_of_mem hother))] at hlast
    have hname := congrArg String.toList (Option.some.inj hlast)
    simp only [String.toList_append] at hname
    have htag := List.append_cancel_left (List.append_cancel_right hname)
    exact List.inj_on_of_nodup_map htags hb hother (String.toList_inj.mp htag)

end Sheet

end StyleSplit
