import StyleSplit.Media.Condition
import StyleSplit.Sheet.Basic
set_option autoImplicit false

/-!
# Media groups

All `@media` blocks of a sheet whose conditions have one identifier are merged into a media group.

## Main definitions

* `StyleSplit.MediaGroup` — a merged group.
* `StyleSplit.MediaGroup.append` — a group with the rules of one more block.
-/

namespace StyleSplit

/-- **Media groups** — the merged blocks of one identifier. -/
structure MediaGroup where
  /-- What the group is merged under and tagged with. -/
  id : String
  /-- The condition of the first block, which heads the written group. -/
  condition : String
  /-- The number that orders the group. -/
  breakpoint : Option Double
  /-- Rules and comments, block after block. -/
  rules : List Style
  deriving Repr, Inhabited

namespace MediaGroup

/-- The group that begins with a block of the given condition and rules. -/
def ofCondition (condition : String) (rules : List Style) : MediaGroup :=
  ⟨Condition.groupId condition, condition, Condition.breakpoint condition, rules⟩

/-- More rules behind those of a group. -/
def append (g : MediaGroup) (rules : List Style) : MediaGroup :=
  { g with rules := g.rules ++ rules }

@[simp]
theorem id_append (g : MediaGroup) (rules : List Style) : (g.append rules).id = g.id :=
  rfl

@[simp]
theorem append_nil (g : MediaGroup) : g.append [] = g := by
  simp [append]

@[simp]
theorem append_append (g : MediaGroup) (rules others : List Style) :
    (g.append rules).append others = g.append (rules ++ others) := by
  simp [append]

/-- A line that says what a group holds. -/
def summary (g : MediaGroup) : String :=
  "@media " ++ g.condition ++ " - " ++ toString g.rules.length ++ " rules"

end MediaGroup

end StyleSplit
