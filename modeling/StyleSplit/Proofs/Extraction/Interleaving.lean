import StyleSplit.Proofs.Extraction.Tags
import StyleSplit.Proofs.Media.Order
set_option autoImplicit false

/-!
# The order of statements of different kinds

A sheet is extracted part by part, so it makes no difference how the statements of different parts
stand among each other. In ascending order it does not even matter in which order the groups are
found, as long as no two of them have one breakpoint: then there is only one ascending order.

## Main definitions

* `StyleSplit.Sheet.base`, `StyleSplit.Sheet.mediaBlocks`, `StyleSplit.Sheet.keyframes` — the
  statements of a sheet by their kind.
* `StyleSplit.Sheet.blocksOf` — the `@media` blocks of one identifier.

## Main results

* `StyleSplit.mergedGroups_perm` — the groups of blocks that agree for each identifier.
* `StyleSplit.MediaGroup.ascending_eq_of_perm` — the ascending order of different breakpoints.
* `StyleSplit.Sheet.extract_interleaved` — extraction does not depend on how parts interleave.
-/

namespace StyleSplit

/-! ## Groups by their identifier -/

/-- The group that the blocks of one identifier make up, if there is one. -/
def groupOf? : List MediaBlock → Option MediaGroup
  | [] => none
  | head :: others => some (.ofCondition head.1 ((head :: others).flatMap MediaBlock.rules))

/-- The group of an identifier is made up of the blocks of the identifier. -/
lemma find?_mergedGroups (blocks : List MediaBlock) (id : String) :
    (mergedGroups blocks).find? (·.id == id) =
      groupOf? (blocks.filter (Condition.groupId ·.1 == id)) := by
  have hid : (·.id == id) ∘ mergedGroup blocks = fun b => Condition.groupId b.1 == id := by
    funext b
    rw [Function.comp_apply, id_mergedGroup]
  have hcongr : ∀ a b : MediaBlock, b.sameGroup a →
      (Condition.groupId b.1 == id) = (Condition.groupId a.1 == id) := fun a b h => by
    rw [MediaBlock.sameGroup_iff.mp h]
  rw [mergedGroups, List.find?_map, hid, find?_eraseDupsBy hcongr, ← List.head?_filter]
  cases hfilter : blocks.filter (Condition.groupId ·.1 == id) with
  | nil => rfl
  | cons head others =>
    have hhead : Condition.groupId head.1 = id := by
      have hmem : head ∈ blocks.filter (Condition.groupId ·.1 == id) :=
        hfilter ▸ List.mem_cons_self
      simpa using (List.mem_filter.mp hmem).2
    have hsame : (head.sameGroup ·) = fun b : MediaBlock => Condition.groupId b.1 == id := by
      funext b
      rw [MediaBlock.sameGroup, hhead, BEq.comm]
    rw [List.head?_cons, Option.map_some, mergedGroup, hsame, hfilter, groupOf?]

/-- **Blocks of each identifier** — if two lists have the same blocks of each identifier in the same
order, they have the same groups, perhaps found in another order. -/
lemma mergedGroups_perm {blocks blocks' : List MediaBlock}
    (h : ∀ id, blocks.filter (Condition.groupId ·.1 == id) =
      blocks'.filter (Condition.groupId ·.1 == id)) :
    (mergedGroups blocks).Perm (mergedGroups blocks') := by
  -- where identifiers differ, a group is in a list exactly if it is found under its identifier
  have hmem : ∀ bs g, g ∈ mergedGroups bs ↔ (mergedGroups bs).find? (·.id == g.id) = some g :=
    fun bs g => ⟨find?_eq_some_of_nodup_map (nodup_map_id_mergedGroups bs),
      List.mem_of_find?_eq_some⟩
  have hnodup : ∀ bs, (mergedGroups bs).Nodup := fun bs =>
    List.Nodup.of_map _ (nodup_map_id_mergedGroups bs)
  refine (List.perm_ext_iff_of_nodup (hnodup blocks) (hnodup blocks')).mpr fun g => ?_
  rw [hmem, hmem, find?_mergedGroups, find?_mergedGroups, h]

/-! ## Ascending order -/

namespace MediaGroup

/-- **One ascending order** — groups of different breakpoints have only one ascending order, in
whatever order they are found. -/
lemma ascending_eq_of_perm {groups groups' : List MediaGroup} (hperm : groups.Perm groups')
    (hnodup : (groups.map (·.breakpoint)).Nodup) : ascending groups = ascending groups' := by
  have hsorted : (ascending groups).Perm (ascending groups') :=
    ((List.mergeSort_perm ..).trans hperm).trans (List.mergeSort_perm ..).symm
  refine hsorted.eq_of_pairwise (fun g k hg hk hle hge => ?_) (pairwise_ascending groups)
    (pairwise_ascending groups')
  have hrank : g.rank = k.rank := Nat.le_antisymm (of_decide_eq_true hle) (of_decide_eq_true hge)
  exact List.inj_on_of_nodup_map hnodup (mem_ascending.mp hg)
    (hperm.mem_iff.mpr (mem_ascending.mp hk)) (breakpoint_eq_of_rank_eq hrank)

end MediaGroup

/-! ## Extraction -/

/-- The extraction sees the base, the keyframes and the sorted groups. -/
lemma Classification.extract_congr {parts parts' : Classification} {options : Options}
    (hbase : parts.base = parts'.base) (hkeyframes : parts.keyframes = parts'.keyframes)
    (hgroups : parts.sortedGroups options = parts'.sortedGroups options) :
    parts.extract options = parts'.extract options := by
  have hcount : parts.groups.length = parts'.groups.length := by
    have hlength := congrArg List.length hgroups
    rwa [sortedGroups, sortedGroups, (SortPolicy.sort_perm ..).length_eq,
      (SortPolicy.sort_perm ..).length_eq] at hlength
  simp only [extract, baseBucket, mediaBuckets, keyframesBucket, collectionBuckets, baseText, hbase,
    hkeyframes, hgroups, hcount]

namespace Sheet

/-- What a sheet has for its base: rules, comments and at-rules of the top level. -/
def base (s : Sheet) : List Style :=
  s.statements.filterMap Statement.base?

/-- The `@media` blocks of the top level. -/
def mediaBlocks (s : Sheet) : List MediaBlock :=
  s.statements.filterMap Statement.mediaBlock?

/-- The keyframes blocks of the top level. -/
def keyframes (s : Sheet) : List Keyframes :=
  s.statements.filterMap Statement.keyframes?

/-- The `@media` blocks whose conditions have an identifier. -/
def blocksOf (s : Sheet) (id : String) : List MediaBlock :=
  s.mediaBlocks.filter (Condition.groupId ·.1 == id)

/-- The parts of a sheet are made of its statements of each kind. -/
lemma classify_statements_eq (s : Sheet) : (classify s.statements).base = s.base ∧
    (classify s.statements).groups = mergedGroups s.mediaBlocks ∧
    (classify s.statements).keyframes = s.keyframes := by
  rw [classify_eq]
  exact ⟨rfl, rfl, rfl⟩

/-- **Interleaving** — two sheets with the same base and the same keyframes have the same extraction
if they have the same `@media` blocks in the same order. In ascending order it is enough that they
have the same blocks of each identifier in the same order, if the groups have different breakpoints:
then the groups of either sheet have only one ascending order, which the collections follow. -/
theorem extract_interleaved {s s' : Sheet} {options : Options} (hbase : s.base = s'.base)
    (hkeyframes : s.keyframes = s'.keyframes)
    (hmedia : s.mediaBlocks = s'.mediaBlocks ∨
      options.sort = .ascending ∧ (∀ id, s.blocksOf id = s'.blocksOf id) ∧
        ((classify s.statements).groups.map (·.breakpoint)).Nodup) :
    s.extract options = s'.extract options := by
  obtain ⟨hb, hg, hk⟩ := s.classify_statements_eq
  obtain ⟨hb', hg', hk'⟩ := s'.classify_statements_eq
  refine Classification.extract_congr (by rw [hb, hb', hbase]) (by rw [hk, hk', hkeyframes]) ?_
  rw [Classification.sortedGroups, Classification.sortedGroups]
  rcases hmedia with hsame | ⟨hsort, hblocks, hnodup⟩
  · rw [hg, hg', hsame]
  · rw [hg] at hnodup
    rw [hg, hg', hsort]
    exact MediaGroup.ascending_eq_of_perm (mergedGroups_perm hblocks) hnodup

/-- Two groups, one of them in two blocks, with a rule between the blocks. -/
def wideFirst : Sheet where
  statements :=
    [.media "(min-width: 900px)" [.style (.rule ["a"] [])], .style (.rule ["b"] []),
      .media "(min-width: 600px)" [.style (.rule ["c"] [])],
      .media "(MIN-WIDTH:900px)" [.style (.rule ["d"] [])]]

/-- The same statements with the other group first and the rule last. -/
def narrowFirst : Sheet where
  statements :=
    [.media "(min-width: 600px)" [.style (.rule ["c"] [])],
      .media "(min-width: 900px)" [.style (.rule ["a"] [])],
      .media "(MIN-WIDTH:900px)" [.style (.rule ["d"] [])], .style (.rule ["b"] [])]

/-- In ascending order both sheets have the same buckets and collections. -/
theorem extract_wideFirst :
    (∀ id, wideFirst.blocksOf id = narrowFirst.blocksOf id) ∧
      ((classify wideFirst.statements).groups.map (·.breakpoint)).Nodup ∧
      wideFirst.extract { collections := true } = narrowFirst.extract { collections := true } := by
  have hnodup : ((classify wideFirst.statements).groups.map (·.breakpoint)).Nodup := by
    decide +kernel
  have hwide : Condition.groupId "(min-width: 900px)" = "min-width-900px" := by decide +kernel
  have hupper : Condition.groupId "(MIN-WIDTH:900px)" = "min-width-900px" := by decide +kernel
  have hnarrow : Condition.groupId "(min-width: 600px)" = "min-width-600px" := by decide +kernel
  have hblocks : ∀ id, wideFirst.blocksOf id = narrowFirst.blocksOf id := by
    intro id
    have hdiffer : ¬ ("min-width-900px" = id ∧ "min-width-600px" = id) := by
      rintro ⟨rfl, h⟩
      exact absurd h (by decide)
    simp only [blocksOf, mediaBlocks, wideFirst, narrowFirst, Statement.mediaBlock?,
      List.filterMap_cons, List.filterMap_nil, List.filter_cons, List.filter_nil, hwide, hupper,
      hnarrow, beq_iff_eq]
    split_ifs with h900 h600
    · exact absurd ⟨h900, h600⟩ hdiffer
    all_goals rfl
  exact ⟨hblocks, hnodup, extract_interleaved rfl rfl (.inr ⟨rfl, hblocks, hnodup⟩)⟩

end Sheet

end StyleSplit
