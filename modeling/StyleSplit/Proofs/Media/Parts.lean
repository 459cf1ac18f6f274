import StyleSplit.Proofs.Media.Classification
set_option autoImplicit false

/-!
# Parts as statements

The parts of a sheet can be listed as statements: the base, one `@media` block for each group, and
the keyframes. The classification of this list is made of the same parts.

## Main definitions

* `StyleSplit.Classification.statements` — parts as a list of statements.
* `StyleSplit.Classification.IsProper` — parts that a sheet can have.

## Main results

* `StyleSplit.Classification.isProper_classify` — the parts of a sheet are proper.
* `StyleSplit.Classification.classify_statements` — proper parts are found again.
-/

namespace StyleSplit

/-- A media group as one `@media` block. -/
def MediaGroup.toStatement (g : MediaGroup) : Statement :=
  .media g.condition (g.rules.map .style)

/-- Whether a style may stand at the top level. -/
def Style.isTopLevel : Style → Bool
  | .rule .. | .comment _ | .atRule .. => true
  | .declaration .. | .step .. => false

/-- Whether a style can stand in a media group: it is a rule or a comment. -/
def Style.isGrouped (s : Style) : Bool :=
  (Statement.style s).grouped?.isSome

namespace Classification

/-- **Parts as statements** — the base, the groups and the keyframes one after the other. -/
def statements (parts : Classification) : List Statement :=
  parts.base.map .style ++ (parts.groups.map MediaGroup.toStatement ++
    parts.keyframes.map .keyframes)

/-- **Proper parts** — the base holds what may stand at the top level; each group has the identifier
and the breakpoint of its condition and holds rules and comments; the identifiers differ. -/
structure IsProper (parts : Classification) : Prop where
  isTopLevel : ∀ s ∈ parts.base, s.isTopLevel
  nodup_id : (parts.groups.map (·.id)).Nodup
  eq_ofCondition : ∀ g ∈ parts.groups, g = .ofCondition g.condition g.rules
  isGrouped : ∀ g ∈ parts.groups, ∀ s ∈ g.rules, s.isGrouped

end Classification

/-! ## What the parts of a statement say of it -/

namespace Statement

lemma base?_style (s : Style) :
    (Statement.style s).base? = if s.isTopLevel then some s else none := by
  cases s <;> rfl

lemma ignored_style (s : Style) :
    (Statement.style s).ignored = if s.isTopLevel then [] else [.topLevel s] := by
  cases s <;> rfl

lemma eq_style_of_base? {t : Statement} {s : Style} (h : t.base? = some s) :
    t = .style s ∧ s.isTopLevel := by
  cases t with
  | style t =>
    rw [base?_style] at h
    split at h
    · obtain rfl := Option.some.inj h
      exact ⟨rfl, ‹_›⟩
    · exact absurd h (by simp)
  | media => exact absurd h (by simp [base?])
  | keyframes => exact absurd h (by simp [base?])

lemma eq_media_of_mediaBlock? {t : Statement} {b : MediaBlock} (h : t.mediaBlock? = some b) :
    t = .media b.1 b.2 := by
  cases t with
  | media condition body =>
    obtain rfl := Option.some.inj h
    rfl
  | style => exact absurd h (by simp [mediaBlock?])
  | keyframes => exact absurd h (by simp [mediaBlock?])

lemma eq_keyframes_of_keyframes? {t : Statement} {k : Keyframes} (h : t.keyframes? = some k) :
    t = .keyframes k := by
  cases t with
  | keyframes k =>
    obtain rfl := Option.some.inj h
    rfl
  | style => exact absurd h (by simp [keyframes?])
  | media => exact absurd h (by simp [keyframes?])

/-- A statement adds itself to its media group. -/
lemma eq_style_of_grouped? {s : Statement} {t : Style} (h : s.grouped? = some t) :
    s = .style t := by
  unfold grouped? at h
  split at h
  · exact congrArg Statement.style (Option.some.inj h)
  · exact congrArg Statement.style (Option.some.inj h)
  · exact absurd h (by simp)

end Statement

/-! ## The parts of a sheet -/

namespace Classification

/-- The base is made of statements of the top level that may stand there. -/
lemma mem_of_mem_base_classify {statements : List Statement} {s : Style}
    (h : s ∈ (classify statements).base) : .style s ∈ statements ∧ s.isTopLevel := by
  rw [classify_eq] at h
  obtain ⟨t, ht, hts⟩ := List.mem_filterMap.mp (show s ∈ List.filterMap _ _ from h)
  obtain ⟨rfl, htop⟩ := Statement.eq_style_of_base? hts
  exact ⟨ht, htop⟩

/-- The keyframes are statements of the top level. -/
lemma mem_of_mem_keyframes_classify {statements : List Statement} {k : Keyframes}
    (h : k ∈ (classify statements).keyframes) : .keyframes k ∈ statements := by
  rw [classify_eq] at h
  obtain ⟨t, ht, htk⟩ := List.mem_filterMap.mp (show k ∈ List.filterMap _ _ from h)
  exact Statement.eq_keyframes_of_keyframes? htk ▸ ht

/-- What a statement adds to a group can stand there. -/
lemma isGrouped_of_grouped? {s : Statement} {t : Style} (h : s.grouped? = some t) :
    t.isGrouped := by
  obtain rfl := Statement.eq_style_of_grouped? h
  rw [Style.isGrouped, h, Option.isSome_some]

/-- The rules of a merged group come from the blocks. -/
lemma exists_block_of_mem_rules {blocks : List MediaBlock} {g : MediaGroup}
    (hg : g ∈ mergedGroups blocks) {s : Style} (hs : s ∈ g.rules) :
    ∃ b ∈ blocks, s ∈ b.rules := by
  obtain ⟨head, -, rfl⟩ := List.mem_map.mp hg
  obtain ⟨b, hb, hmem⟩ := List.mem_flatMap.mp (show s ∈ List.flatMap _ _ from hs)
  exact ⟨b, (List.mem_filter.mp hb).1, hmem⟩

/-- The rules of a block are statements of it. -/
lemma mem_of_mem_rules {b : MediaBlock} {s : Style} (h : s ∈ b.rules) : .style s ∈ b.2 := by
  obtain ⟨t, ht, hgrouped⟩ := List.mem_filterMap.mp h
  exact Statement.eq_style_of_grouped? hgrouped ▸ ht

/-- The rules of a group of a sheet are rules of its `@media` blocks. -/
lemma exists_media_of_mem_rules {statements : List Statement} {g : MediaGroup}
    (hg : g ∈ (classify statements).groups) {s : Style} (hs : s ∈ g.rules) :
    ∃ condition body, .media condition body ∈ statements ∧
      s ∈ MediaBlock.rules (condition, body) := by
  rw [groups_classify] at hg
  obtain ⟨b, hb, hmem⟩ := exists_block_of_mem_rules hg hs
  obtain ⟨media, hmedia, hblock⟩ := List.mem_filterMap.mp hb
  exact ⟨b.1, b.2, Statement.eq_media_of_mediaBlock? hblock ▸ hmedia, hmem⟩

/-- First occurrences are occurrences. -/
lemma mem_of_mem_eraseDupsBy {α : Type} {r : α → α → Bool} {l : List α} {a : α}
    (h : a ∈ l.eraseDupsBy r) : a ∈ l := by
  induction hn : l.length using Nat.strongRecOn generalizing l with
  | _ n ih =>
    cases l with
    | nil => exact h
    | cons b l =>
      rw [List.eraseDupsBy_cons] at h
      rcases List.mem_cons.mp h with rfl | hmem
      · exact List.mem_cons_self
      · rw [List.length_cons] at hn
        have hlength : ∀ p : α → Bool, (l.filter p).length < n := fun p =>
          Nat.lt_of_le_of_lt (List.length_filter_le p l) (by omega)
        exact List.mem_cons_of_mem _ (List.mem_filter.mp (ih _ (hlength _) hmem rfl)).1

/-- The condition of a merged group is that of a block. -/
lemma exists_block_of_mem_mergedGroups {blocks : List MediaBlock} {g : MediaGroup}
    (hg : g ∈ mergedGroups blocks) : ∃ b ∈ blocks, g.condition = b.1 := by
  obtain ⟨head, hhead, rfl⟩ := List.mem_map.mp hg
  exact ⟨head, mem_of_mem_eraseDupsBy hhead, rfl⟩

/-- The condition of a group of a sheet is that of an `@media` block. -/
lemma exists_media_of_mem_groups {statements : List Statement} {g : MediaGroup}
    (hg : g ∈ (classify statements).groups) : ∃ body, .media g.condition body ∈ statements := by
  rw [groups_classify] at hg
  obtain ⟨b, hb, hcondition⟩ := exists_block_of_mem_mergedGroups hg
  obtain ⟨media, hmedia, hblock⟩ := List.mem_filterMap.mp hb
  rw [Statement.eq_media_of_mediaBlock? hblock] at hmedia
  exact ⟨b.2, hcondition ▸ hmedia⟩

/-- The parts of a sheet are proper. -/
lemma isProper_classify (statements : List Statement) : (classify statements).IsProper where
  isTopLevel := fun _ hs => (mem_of_mem_base_classify hs).2
  nodup_id := by
    rw [groups_classify]
    exact nodup_map_id_mergedGroups _
  eq_ofCondition := by
    rw [groups_classify]
    exact fun g hg => eq_ofCondition_of_mem_mergedGroups hg
  isGrouped := by
    rw [groups_classify]
    intro g hg s hs
    obtain ⟨b, -, hb⟩ := exists_block_of_mem_rules hg hs
    obtain ⟨t, -, ht⟩ := List.mem_filterMap.mp hb
    exact isGrouped_of_grouped? ht

/-! ## Proper parts are found again -/

/-- All of a group can stand in a group. -/
lemma filterMap_grouped?_map_style {rules : List Style} (h : ∀ s ∈ rules, s.isGrouped) :
    (rules.map Statement.style).filterMap Statement.grouped? = rules ∧
      (rules.map Statement.style).filter (·.grouped?.isNone) = [] := by
  have hgrouped : ∀ s ∈ rules, (Statement.style s).grouped? = some s := by
    intro s hs
    have hsome := h s hs
    cases s <;> first | rfl | exact absurd hsome (by simp [Style.isGrouped, Statement.grouped?])
  constructor
  · rw [List.filterMap_map]
    exact (List.filterMap_congr hgrouped).trans List.filterMap_some
  · refine List.filter_eq_nil_iff.mpr fun t ht => ?_
    obtain ⟨s, hs, rfl⟩ := List.mem_map.mp ht
    simp [hgrouped s hs]

/-- The `@media` block that a group is listed as. -/
def blockOf (g : MediaGroup) : MediaBlock :=
  (g.condition, g.rules.map .style)

/-- Blocks of different identifiers become the groups that they were listed for. -/
lemma mergedGroups_map_blockOf {groups : List MediaGroup} (hid : (groups.map (·.id)).Nodup)
    (hof : ∀ g ∈ groups, g = .ofCondition g.condition g.rules)
    (hgrouped : ∀ g ∈ groups, ∀ s ∈ g.rules, s.isGrouped) :
    mergedGroups (groups.map blockOf) = groups := by
  induction groups using List.reverseRecOn with
  | nil => rfl
  | append_singleton groups g ih =>
    have hg := hof g (by simp)
    have hids : groups.map (Condition.groupId ·.condition) = groups.map (·.id) :=
      List.map_congr_left fun k hk =>
        (congrArg MediaGroup.id (hof k (List.mem_append_left _ hk))).symm
    rw [List.map_append, List.nodup_append] at hid
    have hnew : ¬ (groups.map blockOf).any ((blockOf g).sameGroup ·) := by
      have hgid : g.id = Condition.groupId g.condition := congrArg MediaGroup.id hg
      rw [any_sameGroup_iff, List.map_map]
      intro hmem
      exact hid.2.2 _ (hids ▸ hmem) g.id (by simp) hgid.symm
    have hrules : (blockOf g).rules = g.rules :=
      (filterMap_grouped?_map_style (hgrouped g (by simp))).1
    rw [List.map_append, List.map_singleton, mergedGroups_concat_of_not_any hnew, hrules,
      ih hid.1 (fun k hk => hof k (List.mem_append_left _ hk))
        fun k hk => hgrouped k (List.mem_append_left _ hk), blockOf, ← hg]

/-- **Proper parts are found again** — the classification of parts listed as statements. -/
lemma classify_statements {parts : Classification} (h : parts.IsProper) :
    classify parts.statements = { parts with ignored := [] } := by
  have hlist {α : Type} (f : Statement → Option α) : parts.statements.filterMap f =
      parts.base.filterMap (f <| .style ·) ++ (parts.groups.filterMap (f ·.toStatement) ++
        parts.keyframes.filterMap (f <| .keyframes ·)) := by
    simp [statements]
  have hbase : parts.statements.filterMap Statement.base? = parts.base := by
    have htop : ∀ s ∈ parts.base, (Statement.style s).base? = some s := fun s hs => by
      rw [Statement.base?_style, if_pos (h.isTopLevel s hs)]
    rw [hlist, List.filterMap_congr htop]
    simp [MediaGroup.toStatement, Statement.base?]
  have hblocks : parts.statements.filterMap Statement.mediaBlock? = parts.groups.map blockOf := by
    rw [hlist, ← List.filterMap_eq_map]
    simp [MediaGroup.toStatement, Statement.mediaBlock?, blockOf]
  have hkeyframes : parts.statements.filterMap Statement.keyframes? = parts.keyframes := by
    rw [hlist]
    simp [MediaGroup.toStatement, Statement.keyframes?]
  have hignored : parts.statements.flatMap Statement.ignored = [] := by
    have htop : ∀ s ∈ parts.base, (Statement.style s).ignored = [] := fun s hs => by
      rw [Statement.ignored_style, if_pos (h.isTopLevel s hs)]
    have hinner : ∀ g ∈ parts.groups, g.toStatement.ignored = [] := fun g hg => by
      rw [MediaGroup.toStatement, Statement.ignored,
        (filterMap_grouped?_map_style (h.isGrouped g hg)).2, List.map_nil]
    simpa [statements, Statement.ignored, or_imp, forall_and] using ⟨htop, hinner⟩
  rw [classify_eq, partsOf, hbase, hblocks, hkeyframes, hignored,
    mergedGroups_map_blockOf h.nodup_id h.eq_ofCondition h.isGrouped]

end Classification

end StyleSplit
