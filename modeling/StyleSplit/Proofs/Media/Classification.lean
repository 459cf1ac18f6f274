import Mathlib.Data.List.Basic
import Mathlib.Data.List.Induction
import Mathlib.Tactic.Common
import StyleSplit.Extraction
set_option autoImplicit false

/-!
# What a classification holds

The parts that the statements of a sheet are sorted into can be read off the statements, without
going through them one by one: the base and the keyframes are subsequences, and each identifier that
heads an `@media` block has one group, which stands where its first block does and holds the rules
and comments of all its blocks.

## Main definitions

* `StyleSplit.mergedGroups` — the groups of a list of `@media` blocks.
* `StyleSplit.partsOf` — the parts of a list of statements.
* `StyleSplit.Classifier.Tracks` — a classifier has the parts of what it has read, and its index
  leads to the groups.

## Main results

* `StyleSplit.mergedGroups_concat_of_any`, `StyleSplit.mergedGroups_concat_of_not_any` — the groups
  with one more block.
* `StyleSplit.Classifier.Tracks.push`, `StyleSplit.Classifier.Tracks.foldl` — one more statement, and
  a list of statements.
* `StyleSplit.groups_classify` — the groups of a classification are the merged blocks.
* `StyleSplit.classify_eq_partsOf` — classification loses, repeats and reorders nothing, and each
  statement without a place has one line of the log.
-/

namespace StyleSplit

/-! ## Parts by a look at the whole list -/

/-- **Blocks** — an `@media` block of the top level: its condition and its statements. -/
abbrev MediaBlock := String × List Statement

/-- The style that a statement of the top level adds to the base: a rule, a comment or an
at-rule. -/
def Statement.base? : Statement → Option Style
  | .style (.rule selectors children) => some (.rule selectors children)
  | .style (.comment text) => some (.comment text)
  | .style (.atRule name prelude block) => some (.atRule name prelude block)
  | .style (.declaration ..) | .style (.step ..) | .media .. | .keyframes _ => none

/-- The `@media` block that a statement of the top level is. -/
def Statement.mediaBlock? : Statement → Option MediaBlock
  | .media condition body => some (condition, body)
  | .style _ | .keyframes _ => none

/-- The keyframes block that a statement of the top level is. -/
def Statement.keyframes? : Statement → Option Keyframes
  | .keyframes k => some k
  | .style _ | .media .. => none

/-- The style that a statement adds to its media group: a rule or a comment. -/
def Statement.grouped? : Statement → Option Style
  | .style (.rule selectors children) => some (.rule selectors children)
  | .style (.comment text) => some (.comment text)
  | _ => none

/-- What has no place of a statement of the top level: a declaration or a step, or what stands in an
`@media` block and is neither a rule nor a comment. -/
def Statement.ignored : Statement → List Ignored
  | .style (.declaration property value) => [.topLevel (.declaration property value)]
  | .style (.step values children) => [.topLevel (.step values children)]
  | .style (.rule ..) | .style (.comment _) | .style (.atRule ..) | .keyframes _ => []
  | .media condition body => (body.filter (·.grouped?.isNone)).map (Ignored.inMedia condition)

/-- Whether two blocks belong to one group. -/
def MediaBlock.sameGroup (a b : MediaBlock) : Bool :=
  Condition.groupId a.1 == Condition.groupId b.1

/-- The rules and comments that a block adds to its group. -/
def MediaBlock.rules (b : MediaBlock) : List Style :=
  b.2.filterMap Statement.grouped?

/-- **Merging** — the group that a block heads: its identifier, condition and breakpoint are those
of the block, and its rules those of all blocks of the identifier in their order. -/
def mergedGroup (blocks : List MediaBlock) (head : MediaBlock) : MediaGroup :=
  .ofCondition head.1 ((blocks.filter (head.sameGroup ·)).flatMap MediaBlock.rules)

/-- The groups of a list of blocks: one for each identifier, headed by its first block. -/
def mergedGroups (blocks : List MediaBlock) : List MediaGroup :=
  (blocks.eraseDupsBy MediaBlock.sameGroup).map (mergedGroup blocks)

/-- **Parts** — what the statements of a sheet are sorted into. -/
def partsOf (statements : List Statement) : Classification where
  base := statements.filterMap Statement.base?
  groups := mergedGroups (statements.filterMap Statement.mediaBlock?)
  keyframes := statements.filterMap Statement.keyframes?
  ignored := statements.flatMap Statement.ignored

/-! ## First occurrences -/

section FirstOccurrences

variable {α : Type} {r : α → α → Bool}

/-- A choice that never splits related elements can be made before or after the later of them are
dropped. -/
lemma filter_eraseDupsBy {p : α → Bool} (hp : ∀ a b, r b a → p b = p a) (l : List α) :
    (l.eraseDupsBy r).filter p = (l.filter p).eraseDupsBy r := by
  induction hn : l.length using Nat.strongRecOn generalizing l with
  | _ n ih =>
    cases l with
    | nil => rfl
    | cons a l =>
      have hlen : (l.filter fun b => r b a = false).length < n := by
        have := List.length_filter_le (fun b => r b a = false) l
        simp only [List.length_cons] at hn
        omega
      rw [List.eraseDupsBy_cons, List.filter_cons, List.filter_cons, ih _ hlen _ rfl]
      split
      · rw [List.eraseDupsBy_cons, List.filter_filter, List.filter_filter]
        simp only [Bool.and_comm]
      · -- nothing that is chosen is related to `a`, so `a` drops none of it
        rename_i ha
        rw [List.filter_filter]
        refine congrArg (List.eraseDupsBy r) (List.filter_congr fun b _ => ?_)
        cases hb : r b a with
        | false => simp
        | true => simp [hp a b hb, ha]

/-- The first element of a choice that never splits related elements is not dropped. -/
lemma find?_eraseDupsBy {p : α → Bool} (hp : ∀ a b, r b a → p b = p a) (l : List α) :
    (l.eraseDupsBy r).find? p = l.find? p := by
  rw [← List.head?_filter, ← List.head?_filter, filter_eraseDupsBy hp]
  cases l.filter p with
  | nil => rfl
  | cons a l => rw [List.eraseDupsBy_cons, List.head?_cons, List.head?_cons]

/-- One more element at the end is dropped if it is related to one before it. -/
lemma eraseDupsBy_concat {c : α} (hc : ∀ a b, r b a → r c b = r c a) (l : List α) :
    (l ++ [c]).eraseDupsBy r = l.eraseDupsBy r ++ if l.any (r c) then [] else [c] := by
  induction hn : l.length using Nat.strongRecOn generalizing l with
  | _ n ih =>
    cases l with
    | nil => rfl
    | cons a l =>
      have hlen : (l.filter fun b => r b a = false).length < n := by
        have := List.length_filter_le (fun b => r b a = false) l
        simp only [List.length_cons] at hn
        omega
      rw [List.cons_append, List.eraseDupsBy_cons, List.filter_append, List.eraseDupsBy_cons,
        List.any_cons, List.cons_append]
      refine congrArg (a :: ·) ?_
      cases hca : r c a with
      | true => simp [hca]
      | false =>
        -- what is related to `a` is not related to `c`
        have hany : (l.filter fun b => r b a = false).any (r c) = l.any (r c) := by
          rw [List.any_filter]
          refine List.any_congr rfl fun b => ?_
          cases hb : r b a with
          | false => simp
          | true => simp [hc a b hb, hca]
        rw [List.filter_cons_of_pos (by simp [hca]), List.filter_nil, ih _ hlen _ rfl, hany,
          Bool.false_or]

end FirstOccurrences

/-! ## Slots -/

lemma modify_self {α : Type} (l : List α) (slot : ℕ) : (l.modify slot fun a => a) = l :=
  List.modify_id slot l

/-- The slot behind a list is that of an element at its end. -/
lemma modify_length_concat {α : Type} (l : List α) (a : α) (f : α → α) :
    (l ++ [a]).modify l.length f = l ++ [f a] := by
  induction l with
  | nil => rfl
  | cons b l ih =>
    rw [List.cons_append, List.length_cons, List.modify_succ_cons, ih]
    rfl

/-- If the keys of a list differ, a change at the slot of a key is a change of what has the key. -/
lemma modify_eq_map_of_findIdx? {α : Type} {key : α → String} {l : List α}
    (hl : (l.map key).Nodup) {k : String} {slot : ℕ} (hslot : l.findIdx? (key · == k) = some slot)
    (f : α → α) : l.modify slot f = l.map fun a => if key a = k then f a else a := by
  induction l generalizing slot with
  | nil => exact absurd hslot (by simp)
  | cons a l ih =>
    rw [List.map_cons, List.nodup_cons] at hl
    rw [List.findIdx?_cons] at hslot
    by_cases ha : key a = k
    · -- no other element has the key
      have hother : ∀ b ∈ l, (if key b = k then f b else b) = b := fun b hb =>
        if_neg fun hk : key b = k => hl.1 (ha.trans hk.symm ▸ List.mem_map_of_mem hb)
      rw [if_pos (beq_iff_eq.mpr ha), Option.some.injEq] at hslot
      rw [← hslot, List.modify_zero_cons, List.map_cons, if_pos ha, List.map_congr_left hother,
        List.map_id']
    · rw [if_neg (by simpa using ha), Option.map_eq_some_iff] at hslot
      obtain ⟨j, hj, rfl⟩ := hslot
      rw [List.modify_succ_cons, ih hl.2 hj, List.map_cons, if_neg ha]

/-! ## One more block -/

lemma MediaBlock.sameGroup_iff {a b : MediaBlock} :
    a.sameGroup b ↔ Condition.groupId a.1 = Condition.groupId b.1 :=
  beq_iff_eq

lemma id_mergedGroup (blocks : List MediaBlock) (b : MediaBlock) :
    (mergedGroup blocks b).id = Condition.groupId b.1 := by
  rw [mergedGroup, MediaGroup.ofCondition]

/-- Blocks of one group are in the same groups. -/
lemma MediaBlock.sameGroup_congr {a b : MediaBlock} (h : b.sameGroup a) (c : MediaBlock) :
    c.sameGroup b = c.sameGroup a := by
  rw [sameGroup_iff] at h
  rw [sameGroup, sameGroup, h]

/-- Whether a block joins a group that there is depends on the identifiers of the blocks only. -/
lemma eraseDupsBy_sameGroup_concat (blocks : List MediaBlock) (b : MediaBlock) :
    (blocks ++ [b]).eraseDupsBy MediaBlock.sameGroup =
      blocks.eraseDupsBy MediaBlock.sameGroup ++ if blocks.any (b.sameGroup ·) then [] else [b] :=
  eraseDupsBy_concat (r := MediaBlock.sameGroup)
    (fun _ _ h => MediaBlock.sameGroup_congr h b) blocks

/-- One more block adds its rules to the group that it belongs to. -/
lemma mergedGroup_concat (blocks : List MediaBlock) (b head : MediaBlock) :
    mergedGroup (blocks ++ [b]) head =
      if (mergedGroup blocks head).id = Condition.groupId b.1 then
        (mergedGroup blocks head).append b.rules
      else mergedGroup blocks head := by
  rw [id_mergedGroup, mergedGroup, List.filter_append, List.flatMap_append]
  split
  · rw [List.filter_cons_of_pos (MediaBlock.sameGroup_iff.mpr ‹_›)]
    simp [mergedGroup, MediaGroup.append, MediaGroup.ofCondition]
  · rw [List.filter_cons_of_neg (mt MediaBlock.sameGroup_iff.mp ‹_›)]
    simp [mergedGroup]

/-- **A block of a known identifier** adds its rules to the group of the identifier. -/
lemma mergedGroups_concat_of_any {blocks : List MediaBlock} {b : MediaBlock}
    (h : blocks.any (b.sameGroup ·)) : mergedGroups (blocks ++ [b]) =
      (mergedGroups blocks).map fun g =>
        if g.id = Condition.groupId b.1 then g.append b.rules else g := by
  rw [mergedGroups, eraseDupsBy_sameGroup_concat, if_pos h, List.append_nil, mergedGroups,
    List.map_map]
  exact List.map_congr_left fun head _ => mergedGroup_concat blocks b head

/-- The identifiers of the merged groups are those of the heads. -/
lemma map_id_mergedGroups (blocks : List MediaBlock) : (mergedGroups blocks).map (·.id) =
    (blocks.eraseDupsBy MediaBlock.sameGroup).map (Condition.groupId ·.1) := by
  rw [mergedGroups, List.map_map]
  exact List.map_congr_left fun head _ => id_mergedGroup blocks head

lemma any_sameGroup_iff {blocks : List MediaBlock} {b : MediaBlock} :
    blocks.any (b.sameGroup ·) ↔ Condition.groupId b.1 ∈ blocks.map (Condition.groupId ·.1) := by
  rw [List.any_eq_true, List.mem_map]
  exact exists_congr fun a => and_congr_right fun _ => MediaBlock.sameGroup_iff.trans eq_comm

/-- The identifiers of the merged groups are those of the blocks. -/
lemma mem_map_id_mergedGroups {blocks : List MediaBlock} {id : String} :
    id ∈ (mergedGroups blocks).map (·.id) ↔ id ∈ blocks.map (Condition.groupId ·.1) := by
  induction blocks using List.reverseRecOn with
  | nil => rfl
  | append_singleton blocks b ih =>
    rw [map_id_mergedGroups] at ih ⊢
    rw [eraseDupsBy_sameGroup_concat, List.map_append, List.map_append, List.mem_append,
      List.mem_append, ih]
    split
    · -- the identifier of the block is there already
      rename_i hany
      rw [any_sameGroup_iff] at hany
      simp only [List.map_nil, List.not_mem_nil, or_false, List.map_cons, List.mem_singleton]
      exact ⟨.inl, fun h => h.elim (fun hmem => hmem) fun heq => heq ▸ hany⟩
    · rfl

/-- Each identifier has one group. -/
lemma nodup_map_id_mergedGroups (blocks : List MediaBlock) :
    ((mergedGroups blocks).map (·.id)).Nodup := by
  induction blocks using List.reverseRecOn with
  | nil => exact List.nodup_nil
  | append_singleton blocks b ih =>
    have hmem := @mem_map_id_mergedGroups blocks (Condition.groupId b.1)
    rw [map_id_mergedGroups] at ih hmem ⊢
    rw [eraseDupsBy_sameGroup_concat]
    split
    · rwa [List.append_nil]
    · rename_i hnew
      rw [any_sameGroup_iff, ← hmem] at hnew
      rw [List.map_append, List.nodup_append]
      refine ⟨ih, List.pairwise_singleton _ _, fun id hid other hother heq => hnew ?_⟩
      rwa [heq, List.mem_singleton.mp hother] at hid

/-- **A block of a new identifier** becomes a group behind all others. -/
lemma mergedGroups_concat_of_not_any {blocks : List MediaBlock} {b : MediaBlock}
    (h : ¬ blocks.any (b.sameGroup ·)) :
    mergedGroups (blocks ++ [b]) = mergedGroups blocks ++ [.ofCondition b.1 b.rules] := by
  have hhead : mergedGroup (blocks ++ [b]) b = .ofCondition b.1 b.rules := by
    have hnone : blocks.filter (b.sameGroup ·) = [] := by
      simpa using h
    rw [mergedGroup, List.filter_append, hnone, List.nil_append,
      List.filter_cons_of_pos (MediaBlock.sameGroup_iff.mpr rfl), List.filter_nil,
      List.flatMap_singleton]
  have hother : ∀ head ∈ blocks.eraseDupsBy MediaBlock.sameGroup,
      mergedGroup (blocks ++ [b]) head = mergedGroup blocks head := by
    intro head hmem
    have hid : (mergedGroup blocks head).id ∈ (mergedGroups blocks).map (·.id) :=
      List.mem_map_of_mem (List.mem_map_of_mem hmem)
    rw [mergedGroup_concat, if_neg]
    intro heq
    rw [heq, mem_map_id_mergedGroups, ← any_sameGroup_iff] at hid
    exact h hid
  rw [mergedGroups, eraseDupsBy_sameGroup_concat, if_neg h, List.map_append, List.map_singleton,
    hhead, List.map_congr_left hother, mergedGroups]

/-- The identifier and the breakpoint of a merged group are those of its condition. -/
lemma eq_ofCondition_of_mem_mergedGroups {blocks : List MediaBlock} {g : MediaGroup}
    (h : g ∈ mergedGroups blocks) : g = .ofCondition g.condition g.rules := by
  obtain ⟨head, -, rfl⟩ := List.mem_map.mp h
  rfl

/-! ## One more statement -/

/-- The parts with one more statement at the end. -/
lemma partsOf_concat (seen : List Statement) (s : Statement) : partsOf (seen ++ [s]) =
    { base := (partsOf seen).base ++ s.base?.toList
      groups := mergedGroups (seen.filterMap Statement.mediaBlock? ++ s.mediaBlock?.toList)
      keyframes := (partsOf seen).keyframes ++ s.keyframes?.toList
      ignored := (partsOf seen).ignored ++ s.ignored } := by
  have hsingle {α : Type} (f : Statement → Option α) : [s].filterMap f = (f s).toList := by
    rw [List.filterMap_cons]
    cases f s <;> rfl
  simp only [partsOf, List.filterMap_append, List.flatMap_append, hsingle, List.flatMap_singleton]

/-- The parts with one more `@media` block at the end. -/
lemma partsOf_concat_media (seen : List Statement) (condition : String) (body : List Statement) :
    partsOf (seen ++ [.media condition body]) =
      { partsOf seen with
        groups := mergedGroups (seen.filterMap Statement.mediaBlock? ++ [(condition, body)])
        ignored := (partsOf seen).ignored ++
          (body.filter (·.grouped?.isNone)).map (Ignored.inMedia condition) } := by
  rw [partsOf_concat]
  simp [Statement.base?, Statement.mediaBlock?, Statement.keyframes?, Statement.ignored]

namespace Classifier

/-- A rule or a comment goes to the group in the slot, and a line of the log tells of the rest. -/
lemma pushInner_eq (condition : String) (slot : ℕ) (c : Classifier) (s : Statement) :
    pushInner condition slot c s =
      ⟨{ c.parts with
          groups := c.parts.groups.modify slot (·.append s.grouped?.toList)
          ignored := c.parts.ignored ++
            ([s].filter (·.grouped?.isNone)).map (Ignored.inMedia condition) }, c.index⟩ := by
  cases s with
  | style s => cases s <;> simp [pushInner, addRule, ignore, Statement.grouped?, modify_self]
  | media | keyframes => simp [pushInner, ignore, Statement.grouped?, modify_self]

/-- The statements of a block, one after the other. -/
lemma foldl_pushInner (condition : String) (slot : ℕ) (c : Classifier) (body : List Statement) :
    body.foldl (pushInner condition slot) c =
      ⟨{ c.parts with
          groups := c.parts.groups.modify slot (·.append (body.filterMap Statement.grouped?))
          ignored := c.parts.ignored ++
            (body.filter (·.grouped?.isNone)).map (Ignored.inMedia condition) }, c.index⟩ := by
  induction body generalizing c with
  | nil => simp [modify_self]
  | cons s body ih =>
    rw [List.foldl_cons, ih, pushInner_eq]
    cases hs : s.grouped? <;>
      simp [hs, List.modify_modify_eq, Function.comp_def, modify_self]

/-- More rules leave the slots of the identifiers as they are. -/
lemma findIdx?_modify_append (groups : List MediaGroup) (slot : ℕ) (rules : List Style)
    (id : String) : (groups.modify slot (·.append rules)).findIdx? (·.id == id) =
      groups.findIdx? (·.id == id) := by
  induction groups generalizing slot with
  | nil => cases slot <;> rfl
  | cons g groups ih =>
    cases slot with
    | zero => simp [List.findIdx?_cons]
    | succ slot => simp [List.findIdx?_cons, ih]

/-- **Tracking** — a classifier has the parts of the statements that it has read, and its index
leads each identifier to the slot of its group. -/
structure Tracks (c : Classifier) (seen : List Statement) : Prop where
  parts_eq : c.parts = partsOf seen
  lookup_eq : ∀ id, c.index.lookup id = c.parts.groups.findIdx? (·.id == id)

namespace Tracks

variable {c : Classifier} {seen : List Statement}

lemma empty : Classifier.empty.Tracks [] :=
  ⟨rfl, fun _ => rfl⟩

lemma groups_eq (h : c.Tracks seen) :
    c.parts.groups = mergedGroups (seen.filterMap Statement.mediaBlock?) := by
  rw [h.parts_eq, partsOf]

/-- An identifier has a slot exactly if a block of it was read. -/
lemma any_sameGroup_iff (h : c.Tracks seen) (b : MediaBlock) :
    (seen.filterMap Statement.mediaBlock?).any (b.sameGroup ·) ↔
      (c.index.lookup (Condition.groupId b.1)).isSome := by
  rw [StyleSplit.any_sameGroup_iff, ← mem_map_id_mergedGroups, ← h.groups_eq, h.lookup_eq,
    List.findIdx?_isSome, List.any_eq_true, List.mem_map]
  simp only [beq_iff_eq]

/-- **A block of a known identifier** is added to the group in the slot of the identifier. -/
lemma push_media_of_some (h : c.Tracks seen) {condition : String} (body : List Statement)
    {slot : ℕ} (hslot : c.index.lookup (Condition.groupId condition) = some slot) :
    (c.push (.media condition body)).Tracks (seen ++ [.media condition body]) := by
  have hany := (h.any_sameGroup_iff (condition, body)).mpr (Option.isSome_of_eq_some hslot)
  have hnodup : (c.parts.groups.map (·.id)).Nodup := by
    rw [h.groups_eq]
    exact nodup_map_id_mergedGroups _
  have hpush : c.push (.media condition body) = body.foldl (pushInner condition slot) c := by
    rw [push, groupFor, hslot]
  rw [hpush, foldl_pushInner]
  constructor
  · rw [h.lookup_eq] at hslot
    rw [partsOf_concat_media, mergedGroups_concat_of_any hany, ← h.groups_eq,
      modify_eq_map_of_findIdx? hnodup hslot, ← h.parts_eq]
    rfl
  · intro id
    rw [findIdx?_modify_append, h.lookup_eq]

/-- **A block of a new identifier** gets a slot behind all others. -/
lemma push_media_of_none (h : c.Tracks seen) {condition : String} (body : List Statement)
    (hslot : c.index.lookup (Condition.groupId condition) = none) :
    (c.push (.media condition body)).Tracks (seen ++ [.media condition body]) := by
  have hnew := mt (h.any_sameGroup_iff (condition, body)).mp (by simp [hslot])
  have hpush : c.push (.media condition body) =
      body.foldl (pushInner condition c.parts.groups.length)
        ⟨{ c.parts with groups := c.parts.groups ++ [.ofCondition condition []] },
          (Condition.groupId condition, c.parts.groups.length) :: c.index⟩ := by
    rw [push, groupFor, hslot]
  rw [hpush, foldl_pushInner]
  constructor
  · rw [partsOf_concat_media, mergedGroups_concat_of_not_any hnew, ← h.groups_eq,
      modify_length_concat, ← h.parts_eq]
    rfl
  · intro id
    rw [findIdx?_modify_append, List.findIdx?_append, List.lookup_cons, h.lookup_eq]
    by_cases hid : id = Condition.groupId condition
    · rw [hid, ← h.lookup_eq, hslot]
      simp [MediaGroup.ofCondition]
    · rw [beq_false_of_ne hid]
      simp [MediaGroup.ofCondition, Ne.symm hid]

/-- A condition always has a group in the slot that is looked up for it. -/
lemma getElem?_groupFor (h : c.Tracks seen) (condition : String) :
    ∃ g, (c.groupFor condition).1.parts.groups[(c.groupFor condition).2]? = some g ∧
      g.id = Condition.groupId condition := by
  cases hslot : c.index.lookup (Condition.groupId condition) with
  | some slot =>
    have hfind := hslot
    rw [h.lookup_eq, List.findIdx?_eq_some_iff_getElem] at hfind
    obtain ⟨hlt, hid, -⟩ := hfind
    simp only [groupFor, hslot]
    exact ⟨_, List.getElem?_eq_getElem hlt, beq_iff_eq.mp hid⟩
  | none =>
    simp only [groupFor, hslot]
    exact ⟨_, List.getElem?_concat_length, rfl⟩

/-- **One more statement** — the classifier has its part behind those of all others. -/
lemma push (h : c.Tracks seen) (s : Statement) : (c.push s).Tracks (seen ++ [s]) := by
  cases s with
  | media condition body =>
    cases hslot : c.index.lookup (Condition.groupId condition) with
    | some slot => exact h.push_media_of_some body hslot
    | none => exact h.push_media_of_none body hslot
  | keyframes k =>
    refine ⟨?_, h.lookup_eq⟩
    rw [partsOf_concat, Classifier.push, h.parts_eq]
    simp [partsOf, Statement.base?, Statement.mediaBlock?, Statement.keyframes?, Statement.ignored]
  | style s =>
    refine ⟨?_, by cases s <;> exact h.lookup_eq⟩
    rw [partsOf_concat]
    cases s <;>
      simp [Classifier.push, ignore, h.parts_eq, partsOf, Statement.base?, Statement.mediaBlock?,
        Statement.keyframes?, Statement.ignored]

/-- **A list of statements** — by induction, one statement after the other. -/
lemma foldl (h : c.Tracks seen) (statements : List Statement) :
    (statements.foldl Classifier.push c).Tracks (seen ++ statements) := by
  induction statements generalizing c seen with
  | nil => rwa [List.append_nil]
  | cons s statements ih =>
    rw [List.append_cons]
    exact ih (h.push s)

end Tracks

end Classifier

/-- The parts that the statements are sorted into one by one are those of the whole list. -/
lemma classify_eq (statements : List Statement) : classify statements = partsOf statements :=
  (Classifier.Tracks.empty.foldl statements).parts_eq

/-- The groups of a classification are the merged blocks of the top level. -/
lemma groups_classify (statements : List Statement) :
    (classify statements).groups = mergedGroups (statements.filterMap Statement.mediaBlock?) := by
  rw [classify_eq, partsOf]

/-! ## The log -/

/-- The lines of the log for developers are those about what was ignored, whatever the caller
chooses. -/
lemma filter_debug_notices (parts : Classification) (options : Options) :
    (parts.notices options).filter (·.level == .debug) = parts.ignored.map .ignored := by
  have hignored : (parts.ignored.map Notice.ignored).filter (·.level == .debug) =
      parts.ignored.map .ignored := by
    refine List.filter_eq_self.mpr fun n hn => ?_
    obtain ⟨i, -, rfl⟩ := List.mem_map.mp hn
    rfl
  rw [Classification.notices, List.filter_append, hignored, List.append_right_eq_self,
    List.filter_eq_nil_iff]
  intro n hn
  split at hn
  · obtain rfl | hn := List.mem_cons.mp hn
    · decide
    · obtain ⟨g, -, rfl⟩ := List.mem_map.mp hn
      exact Bool.false_ne_true
  · exact absurd hn List.not_mem_nil

/-- **Classification** — the base, the keyframes and the groups are those of the whole list, and so
is what was ignored: each statement without a place is in no part and has one line of the log, in
the order of the sheet. -/
theorem classify_eq_partsOf (statements : List Statement) (options : Options) :
    classify statements = partsOf statements ∧
      ((classify statements).notices options).filter (·.level == .debug) =
        (statements.flatMap Statement.ignored).map .ignored := by
  rw [filter_debug_notices, classify_eq]
  exact ⟨rfl, rfl⟩

end StyleSplit
