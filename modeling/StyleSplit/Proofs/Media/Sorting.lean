import StyleSplit.Proofs.Media.Order
import StyleSplit.Proofs.Number.TotalOrder
set_option autoImplicit false

/-!
# What sorting gives

Sorting is told here by its result: groups without a value in the order of discovery, behind them
the groups with a value in an order that does not decrease, those of one value in the order of
discovery. Under the other policy this is the order of the groups that ask for a least width, and
all others stand before them as they were discovered. The result determines the order of all groups.
Sorting in place by comparisons, with a binary search for the first group that asks for a least
width, gives the same.

## Main definitions

* `StyleSplit.partitionPoint` — the binary search.
* `StyleSplit.MediaGroup.IsArrangement` — groups with a value in their order.
* `StyleSplit.MediaGroup.AsksMinWidth` — groups that ask for a least width.
* `StyleSplit.SortPolicy.IsOrder` — the groups in the order of a policy.
* `StyleSplit.SortPolicy.sortInPlace` — sorting by comparisons and a binary search.

## Main results

* `StyleSplit.eq_of_filter_key_eq` — stable orders are unique.
* `StyleSplit.MediaGroup.ascending_eq_iff` — the ascending order.
* `StyleSplit.SortPolicy.sortInPlace_eq_sort` — sorting in place is sorting.
* `StyleSplit.SortPolicy.sort_eq_iff_isOrder` — sorting gives the order of the policy, and nothing
  else does.
-/

namespace StyleSplit

/-! ## Lists that are in order -/

section

variable {α : Type}

/-- Where a property is kept from each element on, the elements without it come first. -/
lemma eq_filter_append_filter {p : α → Bool} {xs : List α}
    (h : xs.Pairwise fun a b => p a → p b) : xs = xs.filter (!p ·) ++ xs.filter p := by
  induction xs with
  | nil => rfl
  | cons x xs ih =>
    obtain ⟨hx, hxs⟩ := List.pairwise_cons.mp h
    cases hp : p x with
    | false =>
      rw [List.filter_cons_of_pos (by simp [hp]), List.filter_cons_of_neg (by simp [hp]),
        List.cons_append, ← ih hxs]
    | true =>
      have hall : ∀ y ∈ x :: xs, p y = true :=
        List.forall_mem_cons.mpr ⟨hp, fun y hy => hx y hy hp⟩
      rw [List.filter_eq_self.mpr hall,
        List.filter_eq_nil_iff.mpr fun y hy => by simp [hall y hy], List.nil_append]

/-- Elements of which any two may stand in either order keep their order. -/
lemma filter_mergeSort {le : α → α → Bool} (htrans : ∀ a b c, le a b → le b c → le a c)
    (htotal : ∀ a b, le a b || le b a) {p : α → Bool} {xs : List α}
    (h : (xs.filter p).Pairwise fun a b => le a b) :
    (xs.mergeSort le).filter p = xs.filter p := by
  have hsub : (xs.filter p).Sublist ((xs.mergeSort le).filter p) := by
    have hfilter := (List.sublist_mergeSort htrans htotal h List.filter_sublist).filter p
    simpa only [List.filter_filter, Bool.and_self] using hfilter
  exact (hsub.eq_of_length ((List.mergeSort_perm xs le).filter p).length_eq.symm).symm

/-- **Stable orders are unique** — two lists in the order of a key are equal if for each key they
have the same elements in the same order. -/
lemma eq_of_filter_key_eq {key : α → Nat} {xs ys : List α}
    (hxs : xs.Pairwise fun a b => key a ≤ key b) (hys : ys.Pairwise fun a b => key a ≤ key b)
    (h : ∀ x, xs.filter (key · = key x) = ys.filter (key · = key x)) : xs = ys := by
  have hmem : ∀ {as bs : List α}, (∀ x, as.filter (key · = key x) = bs.filter (key · = key x)) →
      ∀ a ∈ as, a ∈ bs := by
    intro as bs h a ha
    have hfilter : a ∈ as.filter (key · = key a) := List.mem_filter.mpr ⟨ha, by simp⟩
    rw [h] at hfilter
    exact (List.mem_filter.mp hfilter).1
  have hleast : ∀ {a : α} {as : List α}, (a :: as).Pairwise (fun a b => key a ≤ key b) →
      ∀ b ∈ a :: as, key a ≤ key b := by
    intro a as has
    exact List.forall_mem_cons.mpr ⟨Nat.le_refl _, (List.pairwise_cons.mp has).1⟩
  induction xs generalizing ys with
  | nil =>
    cases ys with
    | nil => rfl
    | cons y ys => exact absurd (hmem (fun z => (h z).symm) y List.mem_cons_self) List.not_mem_nil
  | cons x xs ih =>
    cases ys with
    | nil => exact absurd (hmem h x List.mem_cons_self) List.not_mem_nil
    | cons y ys =>
      -- both lists begin with the first element of the least key
      have hle : key x ≤ key y := hleast hxs y (hmem (fun z => (h z).symm) y List.mem_cons_self)
      have hge : key y ≤ key x := hleast hys x (hmem h x List.mem_cons_self)
      have hkey : key y = key x := Nat.le_antisymm hge hle
      have hfirst := h x
      rw [List.filter_cons_of_pos (by simp), List.filter_cons_of_pos (by simp [hkey])] at hfirst
      obtain rfl := (List.cons.inj hfirst).1
      refine congrArg (x :: ·) (ih hxs.of_cons hys.of_cons fun z => ?_)
      have hz := h z
      by_cases hx : key x = key z
      · rw [List.filter_cons_of_pos (by simp [hx]), List.filter_cons_of_pos (by simp [hx])] at hz
        exact (List.cons.inj hz).2
      · rwa [List.filter_cons_of_neg (by simp [hx]), List.filter_cons_of_neg (by simp [hx])] at hz

/-! ## Binary search -/

/-- **The partition point** — the first position of the positions from `low` to `high` at which a
property ends that holds up to there, by halving. -/
def partitionPoint (p : α → Bool) (xs : List α) (low high : Nat) : Nat :=
  if low < high then
    let middle := (low + high) / 2
    if xs[middle]?.any p then partitionPoint p xs (middle + 1) high
    else partitionPoint p xs low middle
  else low
termination_by high - low

/-- The search finds where the part with the property ends. -/
lemma partitionPoint_eq {p : α → Bool} {xs ys : List α} (hxs : ∀ x ∈ xs, p x)
    (hys : ∀ y ∈ ys, p y = false) (low high : Nat) (hlow : low ≤ xs.length)
    (hhigh : xs.length ≤ high) (hsize : high ≤ (xs ++ ys).length) :
    partitionPoint p (xs ++ ys) low high = xs.length := by
  fun_induction partitionPoint p (xs ++ ys) low high with
  | case1 low high hlt middle hany ih =>
    have hmiddle : middle < xs.length := by
      by_contra hle
      rw [List.getElem?_append_right (Nat.le_of_not_lt hle)] at hany
      obtain ⟨y, hy, hp⟩ := (Option.any_eq_true _ _).mp hany
      rw [hys y (List.mem_of_getElem? hy)] at hp
      exact Bool.false_ne_true hp
    exact ih hmiddle hhigh hsize
  | case2 low high hlt middle hany ih =>
    have hmiddle : xs.length ≤ middle := by
      by_contra hgt
      have hget : (xs ++ ys)[middle]? = some xs[middle] := by
        rw [List.getElem?_append_left (Nat.lt_of_not_le hgt), List.getElem?_eq_getElem]
      rw [hget, Option.any_some] at hany
      exact hany (hxs _ (List.getElem_mem _))
    exact ih hlow hmiddle (by omega)
  | case3 low high hle => omega

end

/-! ## Ascending order -/

namespace MediaGroup

/-- Whether two groups have values, the first of them not after the second in the total order. -/
def ValueLE (a b : MediaGroup) : Prop :=
  ∃ d e, a.breakpoint = some d ∧ b.breakpoint = some e ∧ d.signed ≤ e.signed

/-- **Arrangements** — the same groups with values that do not decrease, those of one value in the
order in which they were. -/
structure IsArrangement (groups arranged : List MediaGroup) : Prop where
  perm : arranged.Perm groups
  nondecreasing : arranged.Pairwise ValueLE
  stable : ∀ d, arranged.filter (·.breakpoint = some d) = groups.filter (·.breakpoint = some d)

/-- **Ascending order** — first the groups without a value as they were, then an arrangement of the
groups with one. -/
def IsAscending (groups sorted : List MediaGroup) : Prop :=
  ∃ valued, IsArrangement (groups.filter (·.breakpoint.isSome)) valued ∧
    sorted = groups.filter (!·.breakpoint.isSome) ++ valued

/-- Groups have one place exactly if they have one value, or none. -/
lemma rank_eq_rank_iff {g k : MediaGroup} : g.rank = k.rank ↔ g.breakpoint = k.breakpoint :=
  ⟨breakpoint_eq_of_rank_eq, fun h => by rw [rank, rank, h]⟩

lemma rank_of_breakpoint {g : MediaGroup} {d : Double} (h : g.breakpoint = some d) :
    g.rank = d.rank + 1 := by
  rw [rank, h]

/-- The ascending order keeps the order of the groups of one place. -/
lemma filter_ascending {p : MediaGroup → Bool} (hp : ∀ g k, p g → p k → g.rank = k.rank)
    (groups : List MediaGroup) : (ascending groups).filter p = groups.filter p := by
  refine filter_mergeSort ?_ ?_ ?_
  · intro a b c hab hbc
    simp only [decide_eq_true_eq] at *
    exact Nat.le_trans hab hbc
  · intro a b
    simp only [Bool.or_eq_true, decide_eq_true_eq]
    exact Nat.le_total ..
  · refine List.pairwise_of_forall_mem_list fun g hg k hk => decide_eq_true (Nat.le_of_eq ?_)
    exact hp g k (List.mem_filter.mp hg).2 (List.mem_filter.mp hk).2

/-- Sorted groups are in ascending order. -/
lemma isAscending_ascending (groups : List MediaGroup) :
    IsAscending groups (ascending groups) := by
  have hle : (ascending groups).Pairwise fun a b => a.rank ≤ b.rank :=
    (pairwise_ascending groups).imp of_decide_eq_true
  have hvalued : (ascending groups).Pairwise
      fun a b => a.breakpoint.isSome → b.breakpoint.isSome := by
    refine hle.imp fun {a b} hab ha => ?_
    obtain ⟨d, hd⟩ := Option.isSome_iff_exists.mp ha
    cases hb : b.breakpoint with
    | some e => rfl
    | none =>
      rw [rank_of_breakpoint hd, rank, hb] at hab
      exact absurd hab (Nat.not_succ_le_zero _)
  have hnone : (ascending groups).filter (!·.breakpoint.isSome) =
      groups.filter (!·.breakpoint.isSome) := by
    refine filter_ascending (fun g k hg hk => rank_eq_rank_iff.mpr ?_) groups
    simp only [Bool.not_eq_true', Option.isSome_eq_false_iff, Option.isNone_iff_eq_none] at hg hk
    rw [hg, hk]
  refine ⟨(ascending groups).filter (·.breakpoint.isSome), ⟨?_, ?_, fun d => ?_⟩, ?_⟩
  · exact (List.mergeSort_perm ..).filter _
  · refine (hle.filter _).imp_of_mem fun {a b} ha hb hab => ?_
    obtain ⟨d, hd⟩ := Option.isSome_iff_exists.mp (List.mem_filter.mp ha).2
    obtain ⟨e, he⟩ := Option.isSome_iff_exists.mp (List.mem_filter.mp hb).2
    rw [rank_of_breakpoint hd, rank_of_breakpoint he] at hab
    exact ⟨d, e, hd, he, Double.rank_le_rank_iff.mp (Nat.le_of_succ_le_succ hab)⟩
  · have hsome : ∀ gs : List MediaGroup, (gs.filter (·.breakpoint.isSome)).filter
        (·.breakpoint = some d) = gs.filter (·.breakpoint = some d) := by
      intro gs
      rw [List.filter_filter]
      refine List.filter_congr fun g _ => ?_
      by_cases hg : g.breakpoint = some d <;> simp [hg]
    rw [hsome, hsome]
    refine filter_ascending (fun g k hg hk => rank_eq_rank_iff.mpr ?_) groups
    rw [of_decide_eq_true hg, of_decide_eq_true hk]
  · rw [← hnone]
    exact eq_filter_append_filter hvalued

/-- The places of groups in ascending order do not decrease. -/
lemma IsAscending.pairwise {groups sorted : List MediaGroup} (h : IsAscending groups sorted) :
    sorted.Pairwise fun a b => a.rank ≤ b.rank := by
  obtain ⟨valued, hvalued, rfl⟩ := h
  have hzero : ∀ g ∈ groups.filter (!·.breakpoint.isSome), g.rank = 0 := by
    intro g hg
    have hnone := (List.mem_filter.mp hg).2
    simp only [Bool.not_eq_true', Option.isSome_eq_false_iff, Option.isNone_iff_eq_none] at hnone
    rw [rank, hnone]
  refine List.pairwise_append.mpr ⟨?_, ?_, fun a ha b _ => ?_⟩
  · exact List.pairwise_of_forall_mem_list fun a ha b _ => by rw [hzero a ha]; exact Nat.zero_le _
  · refine hvalued.nondecreasing.imp ?_
    rintro a b ⟨d, e, hd, he, hle⟩
    rw [rank_of_breakpoint hd, rank_of_breakpoint he]
    exact Nat.succ_le_succ (Double.rank_le_rank_iff.mpr hle)
  · rw [hzero a ha]
    exact Nat.zero_le _

/-- Groups of one value, or of none, are in ascending order as they were. -/
lemma IsAscending.filter_eq {groups sorted : List MediaGroup} (h : IsAscending groups sorted)
    (value : Option Double) :
    sorted.filter (·.breakpoint = value) = groups.filter (·.breakpoint = value) := by
  obtain ⟨valued, hvalued, rfl⟩ := h
  rw [List.filter_append]
  cases value with
  | none =>
    have hvaluedNone : valued.filter (·.breakpoint = none) = [] := by
      refine List.filter_eq_nil_iff.mpr fun g hg => ?_
      have hsome := (List.mem_filter.mp (hvalued.perm.mem_iff.mp hg)).2
      simpa [Option.isSome_iff_ne_none] using hsome
    rw [hvaluedNone, List.append_nil, List.filter_filter]
    refine List.filter_congr fun g _ => ?_
    cases g.breakpoint <;> simp
  | some d =>
    have hnone : (groups.filter (!·.breakpoint.isSome)).filter (·.breakpoint = some d) = [] := by
      refine List.filter_eq_nil_iff.mpr fun g hg => ?_
      have hg := (List.mem_filter.mp hg).2
      cases hb : g.breakpoint <;> simp_all
    rw [hnone, List.nil_append, hvalued.stable d, List.filter_filter]
    refine List.filter_congr fun g _ => ?_
    by_cases hg : g.breakpoint = some d <;> simp [hg]

/-- **Sorting in ascending order** gives the groups in ascending order, and nothing else is in
ascending order. -/
lemma ascending_eq_iff {groups sorted : List MediaGroup} :
    ascending groups = sorted ↔ IsAscending groups sorted := by
  refine ⟨fun h => h ▸ isAscending_ascending groups, fun h => ?_⟩
  have hsorted := isAscending_ascending groups
  refine eq_of_filter_key_eq hsorted.pairwise h.pairwise fun g => ?_
  simp only [rank_eq_rank_iff]
  rw [hsorted.filter_eq, h.filter_eq]

/-! ## Least widths -/

/-- Whether the words `min-width`, in any letter case, stand in the condition of a group. -/
def AsksMinWidth (g : MediaGroup) : Prop :=
  ∃ word, word <:+: g.condition.toList ∧ word.map Char.toLower = "min-width".toList

lemma isMinWidth_iff {g : MediaGroup} : g.isMinWidth ↔ g.AsksMinWidth := by
  rw [isMinWidth, occurs_iff_isInfix]
  constructor
  · rintro ⟨before, after, h⟩
    obtain ⟨front, back, hsplit, hfront, hback⟩ := List.map_eq_append_iff.mp h.symm
    obtain ⟨head, word, rfl, hhead, hword⟩ := List.map_eq_append_iff.mp hfront
    exact ⟨word, ⟨head, back, hsplit.symm⟩, hword⟩
  · rintro ⟨word, hinfix, hword⟩
    rw [← hword]
    exact hinfix.map _

instance : DecidablePred AsksMinWidth := fun _ =>
  decidable_of_iff _ isMinWidth_iff

lemma decide_asksMinWidth (g : MediaGroup) : decide g.AsksMinWidth = g.isMinWidth := by
  rw [Bool.eq_iff_iff, decide_eq_true_iff, isMinWidth_iff]

end MediaGroup

/-! ## Policies -/

namespace SortPolicy

/-- **The order of a policy** — ascending order, of all groups or of those that ask for a least
width, behind the others as they were. -/
def IsOrder : SortPolicy → List MediaGroup → List MediaGroup → Prop
  | ascending, groups, sorted => MediaGroup.IsAscending groups sorted
  | minWidthLast, groups, sorted =>
    ∃ last, MediaGroup.IsAscending (groups.filter (·.AsksMinWidth)) last ∧
      sorted = groups.filter (¬ ·.AsksMinWidth) ++ last

/-- Comparing values: none is less than any, and two are compared in the total order. -/
def compareValues : Option Double → Option Double → Ordering
  | none, none => .eq
  | none, some _ => .lt
  | some _, none => .gt
  | some d, some e => compare d.signed e.signed

/-- Sorting by comparing values. -/
def sortByValue (groups : List MediaGroup) : List MediaGroup :=
  groups.mergeSort fun a b => (compareValues a.breakpoint b.breakpoint).isLE

/-- **Sorting in place** — by value; or by whether a least width is asked for, and then the part in
which it is, which a binary search finds, by value. -/
def sortInPlace (policy : SortPolicy) (groups : List MediaGroup) : List MediaGroup :=
  match policy with
  | ascending => sortByValue groups
  | minWidthLast =>
    let keyed := groups.mergeSort fun a b => (compare a.isMinWidth b.isMinWidth).isLE
    let split := partitionPoint (!·.isMinWidth) keyed 0 keyed.length
    keyed.take split ++ sortByValue (keyed.drop split)

/-- The comparison of values is that of ranks. -/
lemma isLE_compareValues (a b : MediaGroup) :
    (compareValues a.breakpoint b.breakpoint).isLE = decide (a.rank ≤ b.rank) := by
  rw [Bool.eq_iff_iff, decide_eq_true_iff, MediaGroup.rank, MediaGroup.rank]
  cases a.breakpoint with
  | none => cases b.breakpoint <;> simp [compareValues]
  | some d =>
    cases b.breakpoint with
    | none => simp [compareValues]
    | some e =>
      rw [compareValues, Int.isLE_compare, Nat.add_le_add_iff_right, Double.rank_le_rank_iff]

lemma sortByValue_eq (groups : List MediaGroup) :
    sortByValue groups = MediaGroup.ascending groups := by
  simp only [sortByValue, MediaGroup.ascending, isLE_compareValues]

lemma isLE_compare_bool (a b : Bool) : (compare a b).isLE = (!a || b) := by
  cases a <;> cases b <;> rfl

/-- Sorting by a property puts the elements with it behind the others, all as they were. -/
lemma mergeSort_compare_bool {α : Type} (p : α → Bool) (xs : List α) :
    (xs.mergeSort fun a b => (compare (p a) (p b)).isLE) = xs.filter (!p ·) ++ xs.filter p := by
  simp only [isLE_compare_bool]
  have htrans : ∀ a b c : α, (!p a || p b) → (!p b || p c) → (!p a || p c) := by
    intro a b c
    cases p a <;> cases p b <;> simp
  have htotal : ∀ a b : α, (!p a || p b) || (!p b || p a) := by
    intro a b
    cases p a <;> cases p b <;> rfl
  have hsorted := eq_filter_append_filter (p := p)
    ((List.pairwise_mergeSort htrans htotal xs).imp fun {a b} hle ha => by
      rwa [ha, Bool.not_true, Bool.false_or] at hle)
  rw [filter_mergeSort htrans htotal, filter_mergeSort htrans htotal] at hsorted
  · exact hsorted
  · refine List.pairwise_of_forall_mem_list fun a _ b hb => ?_
    simp [(List.mem_filter.mp hb).2]
  · refine List.pairwise_of_forall_mem_list fun a ha b _ => ?_
    rw [(List.mem_filter.mp ha).2, Bool.true_or]

/-- Sorting in place is sorting. -/
lemma sortInPlace_eq_sort (policy : SortPolicy) (groups : List MediaGroup) :
    policy.sortInPlace groups = policy.sort groups := by
  cases policy with
  | ascending => exact sortByValue_eq groups
  | minWidthLast =>
    have hothers : ∀ g ∈ groups.filter (!·.isMinWidth), (!g.isMinWidth) = true :=
      fun g hg => (List.mem_filter.mp hg).2
    have hlast : ∀ g ∈ groups.filter (·.isMinWidth), (!g.isMinWidth) = false :=
      fun g hg => by simp [(List.mem_filter.mp hg).2]
    have hsplit := partitionPoint_eq (p := fun g : MediaGroup => !g.isMinWidth) hothers hlast
      0 (groups.filter (!·.isMinWidth) ++ groups.filter (·.isMinWidth)).length (Nat.zero_le _)
      (by simp) (Nat.le_refl _)
    simp only [sortInPlace, mergeSort_compare_bool, hsplit, List.take_left, List.drop_left,
      sortByValue_eq, sort]

/-- The groups are sorted in the order of the policy. -/
lemma isOrder_sort (policy : SortPolicy) (groups : List MediaGroup) :
    policy.IsOrder groups (policy.sort groups) := by
  cases policy with
  | ascending => exact MediaGroup.isAscending_ascending groups
  | minWidthLast =>
    refine ⟨_, MediaGroup.isAscending_ascending _, ?_⟩
    simp only [sort, decide_not, MediaGroup.decide_asksMinWidth]

/-- **Sorting** gives the groups in the order of the policy, and no other list is in that order.

Under the one policy the groups without a value come first, as they were; then those with a value in
an order that does not decrease in the total order of doubles, those of one value as they were.
Under the other policy the groups whose condition does not hold `min-width`, in any letter case,
come first, as they were, and then the others in the order of the first policy. Sorting in place, by
comparisons and a binary search, gives the same. The result holds the groups that were given, and
sorting it again changes nothing.

**Proof sketch.** The sort is stable, so that the groups of one value, and those without one, are
left as they were; and two lists in the order of a key with the same groups for each key, in the
same order, are equal. -/
theorem sort_eq_iff_isOrder (policy : SortPolicy) (groups : List MediaGroup) :
    (∀ sorted, policy.sort groups = sorted ↔ policy.IsOrder groups sorted) ∧
      policy.sortInPlace groups = policy.sort groups ∧
      (policy.sort groups).Perm groups ∧
      policy.sort (policy.sort groups) = policy.sort groups := by
  refine ⟨fun sorted => ?_, policy.sortInPlace_eq_sort groups, policy.sort_perm groups,
    policy.sort_sort groups⟩
  cases policy with
  | ascending => exact MediaGroup.ascending_eq_iff
  | minWidthLast =>
    simp only [sort, IsOrder, decide_not, MediaGroup.decide_asksMinWidth,
      ← MediaGroup.ascending_eq_iff]
    constructor
    · intro h
      exact ⟨_, rfl, h.symm⟩
    · rintro ⟨last, rfl, rfl⟩
      rfl

end SortPolicy

end StyleSplit
