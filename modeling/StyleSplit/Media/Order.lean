import StyleSplit.Media.Group
import StyleSplit.Text.Occurrence
set_option autoImplicit false

/-!
# The order of media groups

Groups are written in an order that suits styles for small screens first. The breakpoint of a
group decides; both policies keep the order of discovery among groups that they do not tell apart.

## Main definitions

* `StyleSplit.SortPolicy` — the policies.
* `StyleSplit.MediaGroup.ascending` — groups by ascending breakpoint.
* `StyleSplit.SortPolicy.sort` — groups in the order of a policy.

## Main results

* `StyleSplit.SortPolicy.sort_perm` — sorting neither loses nor repeats a group.
-/

namespace StyleSplit

/-- **Policies** — ascending by breakpoint, or the `min-width` groups ascending after all
others. -/
inductive SortPolicy
  | ascending
  | minWidthLast
  deriving DecidableEq, Repr, Inhabited

namespace MediaGroup

/-- The place of a breakpoint: a group without one comes before all others. -/
def rank (g : MediaGroup) : Nat :=
  match g.breakpoint with
  | none => 0
  | some d => d.rank + 1

/-- **Ascending order** — by breakpoint in the total order of doubles; the sort is stable, so groups
of one place keep their order. -/
def ascending (groups : List MediaGroup) : List MediaGroup :=
  groups.mergeSort fun a b => a.rank ≤ b.rank

/-- Whether the condition of a group asks for a least width, in any letter case. -/
def isMinWidth (g : MediaGroup) : Bool :=
  occurs "min-width".toList (g.condition.toList.map Char.toLower)

end MediaGroup

namespace SortPolicy

/-- **Sorting** — the groups in the order of a policy. -/
def sort (policy : SortPolicy) (groups : List MediaGroup) : List MediaGroup :=
  match policy with
  | ascending => MediaGroup.ascending groups
  | minWidthLast =>
    groups.filter (!·.isMinWidth) ++ MediaGroup.ascending (groups.filter (·.isMinWidth))

/-- Either policy gives the same groups again. -/
theorem sort_perm (policy : SortPolicy) (groups : List MediaGroup) :
    (policy.sort groups).Perm groups := by
  cases policy with
  | ascending => exact List.mergeSort_perm ..
  | minWidthLast =>
    have hsplit := List.filter_append_perm (fun g : MediaGroup => !g.isMinWidth) groups
    simp only [Bool.not_not] at hsplit
    exact ((List.mergeSort_perm ..).append_left _).trans hsplit

/-- The word that names a policy in task files and on the command line. -/
def name : SortPolicy → String
  | ascending => "ascending"
  | minWidthLast => "min-width-last"

/-- All policies, in the order in which messages list them. -/
def all : List SortPolicy := [ascending, minWidthLast]

/-- The policy that a word names. -/
def ofName? (s : String) : Option SortPolicy :=
  all.find? (·.name == s)

theorem ofName?_name (p : SortPolicy) : ofName? p.name = some p := by
  cases p <;> decide

end SortPolicy

end StyleSplit
