import Mathlib.Data.List.Basic
import Mathlib.Tactic.Common
import StyleSplit.Media.Order
set_option autoImplicit false

/-!
# Sorting what is in order

Sorting groups that are in the order of a policy leaves them alone, and sorting sees no more of a
group than its breakpoint and whether its condition asks for a least width.

## Main definitions

* `StyleSplit.SortPolicy.InOrder` — whether a policy lets a group stand in front of another one.

## Main results

* `StyleSplit.SortPolicy.pairwise_sort` — sorted groups are in order.
* `StyleSplit.SortPolicy.sort_of_sublist`, `StyleSplit.SortPolicy.sort_sort` — sorted groups, or
  some of them, are sorted already.
* `StyleSplit.SortPolicy.sort_map` — a change that sorting does not see goes through it.
-/

namespace StyleSplit

namespace MediaGroup

/-- Groups of one place have one breakpoint. -/
lemma breakpoint_eq_of_rank_eq {g k : MediaGroup} (h : g.rank = k.rank) :
    g.breakpoint = k.breakpoint := by
  unfold rank at h
  cases hg : g.breakpoint with
  | none =>
    cases hk : k.breakpoint with
    | none => rfl
    | some e => simp [hg, hk] at h
  | some d =>
    cases hk : k.breakpoint with
    | none => simp [hg, hk] at h
    | some e =>
      rw [hg, hk] at h
      exact congrArg some (Double.rank_injective (Nat.succ.inj h))

/-- Groups in ascending order. -/
lemma pairwise_ascending (groups : List MediaGroup) :
    (ascending groups).Pairwise fun a b => decide (a.rank ≤ b.rank) = true := by
  refine List.pairwise_mergeSort ?_ ?_ groups
  · intro a b c hab hbc
    simp only [decide_eq_true_eq] at *
    exact Nat.le_trans hab hbc
  · intro a b
    simp only [Bool.or_eq_true, decide_eq_true_eq]
    exact Nat.le_total ..

lemma mem_ascending {groups : List MediaGroup} {g : MediaGroup} :
    g ∈ ascending groups ↔ g ∈ groups :=
  List.mem_mergeSort

lemma ascending_map {f : MediaGroup → MediaGroup} (hrank : ∀ g, (f g).rank = g.rank)
    (groups : List MediaGroup) : ascending (groups.map f) = (ascending groups).map f := by
  rw [ascending, ascending, List.map_mergeSort]
  intro a _ b _
  rw [hrank, hrank]

end MediaGroup

namespace SortPolicy

/-- **In order** — whether a group may stand in front of another one. -/
def InOrder : SortPolicy → MediaGroup → MediaGroup → Prop
  | ascending, a, b => a.rank ≤ b.rank
  | minWidthLast, a, b => a.isMinWidth → b.isMinWidth ∧ a.rank ≤ b.rank

/-- Sorted groups are in order. -/
lemma pairwise_sort (policy : SortPolicy) (groups : List MediaGroup) :
    (policy.sort groups).Pairwise policy.InOrder := by
  cases policy with
  | ascending => exact (MediaGroup.pairwise_ascending groups).imp of_decide_eq_true
  | minWidthLast =>
    refine List.pairwise_append.mpr ⟨?_, ?_, ?_⟩
    · refine List.pairwise_of_forall_mem_list fun a ha b _ hmin => ?_
      simp [hmin] at ha
    · refine (MediaGroup.pairwise_ascending _).imp_of_mem fun _ hb hle _ => ?_
      exact ⟨(List.mem_filter.mp (MediaGroup.mem_ascending.mp hb)).2, of_decide_eq_true hle⟩
    · intro a ha b _ hmin
      simp [hmin] at ha

/-- Groups that are in order are left alone. -/
lemma sort_of_pairwise (policy : SortPolicy) {groups : List MediaGroup}
    (h : groups.Pairwise policy.InOrder) : policy.sort groups = groups := by
  cases policy with
  | ascending =>
    have hle : groups.Pairwise fun a b => a.rank ≤ b.rank := h
    exact List.mergeSort_of_pairwise (hle.imp fun h => decide_eq_true h)
  | minWidthLast =>
    induction groups with
    | nil => simp [sort, MediaGroup.ascending]
    | cons g groups ih =>
      obtain ⟨hg, hrest⟩ := List.pairwise_cons.mp h
      cases hmin : g.isMinWidth with
      | false =>
        rw [sort, List.filter_cons_of_pos (by simp [hmin]),
          List.filter_cons_of_neg (by simp [hmin])]
        exact congrArg (g :: ·) (ih hrest)
      | true =>
        -- behind a group that asks for a least width all do, and they are ascending
        have hall : ∀ k ∈ g :: groups, k.isMinWidth = true :=
          List.forall_mem_cons.mpr ⟨hmin, fun k hk => (hg k hk hmin).1⟩
        have hnone : (g :: groups).filter (!·.isMinWidth) = [] :=
          List.filter_eq_nil_iff.mpr fun k hk => by simp [hall k hk]
        rw [sort, hnone, List.filter_eq_self.mpr hall]
        refine List.mergeSort_of_pairwise (h.imp_of_mem fun ha _ hle => ?_)
        exact decide_eq_true (hle (hall _ ha)).2

/-- Some of the sorted groups, in the order in which they stand, are left alone. -/
lemma sort_of_sublist (policy : SortPolicy) {some groups : List MediaGroup}
    (h : some.Sublist (policy.sort groups)) : policy.sort some = some :=
  policy.sort_of_pairwise ((policy.pairwise_sort groups).sublist h)

/-- **Sorting twice** is sorting once. -/
lemma sort_sort (policy : SortPolicy) (groups : List MediaGroup) :
    policy.sort (policy.sort groups) = policy.sort groups :=
  policy.sort_of_sublist (List.Sublist.refl _)

/-- **Unseen changes** — sorting sees the rank of a group and whether it asks for a least width. -/
lemma sort_map (policy : SortPolicy) {f : MediaGroup → MediaGroup}
    (hrank : ∀ g, (f g).rank = g.rank) (hmin : ∀ g, (f g).isMinWidth = g.isMinWidth)
    (groups : List MediaGroup) : policy.sort (groups.map f) = (policy.sort groups).map f := by
  cases policy with
  | ascending => exact MediaGroup.ascending_map hrank groups
  | minWidthLast =>
    have hothers : (fun g : MediaGroup => !g.isMinWidth) ∘ f = fun g => !g.isMinWidth :=
      funext fun g => congrArg (!·) (hmin g)
    have hlast : (fun g : MediaGroup => g.isMinWidth) ∘ f = fun g => g.isMinWidth := funext hmin
    rw [sort, sort, List.filter_map, List.filter_map, hothers, hlast,
      MediaGroup.ascending_map hrank, List.map_append]

end SortPolicy

end StyleSplit
