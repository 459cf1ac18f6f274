import StyleSplit.Proofs.Sheet.Shown
set_option autoImplicit false

/-!
# Parts without comments

Comments can be taken out of the parts of a sheet before they are written, at every depth, or they
can be hidden when the parts are written. It comes to the same: a hidden comment leaves no separator
behind, and makes no difference to what stands around it.

## Main definitions

* `StyleSplit.withoutComments`, `StyleSplit.MediaGroup.withoutComments`,
  `StyleSplit.Keyframes.withoutComments` — styles, a media group and a keyframes block without their
  comments.

## Main results

* `StyleSplit.Writer.base_withoutComments`, `StyleSplit.Writer.mediaGroup_withoutComments`,
  `StyleSplit.Writer.keyframes_withoutComments` — the texts of the parts.
* `StyleSplit.Writer.hide_eq_withoutComments` — hiding comments is taking them out.
-/

namespace StyleSplit

/-! ## Taking comments out -/

mutual

/-- What is left of a style without the comments in it: nothing of a comment. -/
def Style.withoutComments? : Style → Option Style
  | .comment _ => none
  | .declaration property value => some (.declaration property value)
  | .rule selectors children => some (.rule selectors (withoutComments children))
  | .step values children => some (.step values (withoutComments children))
  | .atRule name prelude block => some (.atRule name prelude block)

/-- **Styles without comments** — the comments among the styles are taken out, and those in rules
and steps at any depth. -/
def withoutComments : List Style → List Style
  | [] => []
  | s :: styles => s.withoutComments?.toList ++ withoutComments styles

end

/-- The media group without the comments among its rules and in them. -/
def MediaGroup.withoutComments (g : MediaGroup) : MediaGroup :=
  { g with rules := StyleSplit.withoutComments g.rules }

/-- The keyframes block without the comments between its steps and in them. -/
def Keyframes.withoutComments (k : Keyframes) : Keyframes :=
  { k with steps := StyleSplit.withoutComments k.steps }

/-- Comments are taken out of each style by itself. -/
lemma withoutComments_eq_filterMap (styles : List Style) :
    withoutComments styles = styles.filterMap Style.withoutComments? := by
  induction styles with
  | nil => rw [withoutComments, List.filterMap_nil]
  | cons s styles ih =>
    rw [withoutComments, ih, List.filterMap_cons]
    cases s.withoutComments? <;> rfl

namespace Writer

/-- The writer that leaves comments out. -/
def concealing : Writer := ⟨true⟩

variable (w : Writer)

/-! ## What is written without comments -/

lemma line_withoutComments? (s : Style) :
    (s.withoutComments?.map w.line).getD "" = concealing.line s := by
  cases s <;> rw [Style.withoutComments?] <;> rfl

lemma block_withoutComments (head : String) (children : List Style) :
    w.block head (withoutComments children) = concealing.block head children := by
  rw [block, block, withoutComments_eq_filterMap,
    join_filterMap fun s _ => w.line_withoutComments? s]

lemma style_withoutComments? (s : Style) :
    (s.withoutComments?.map w.style).getD "" = concealing.style s := by
  cases s with
  | rule selectors children =>
    rw [Style.withoutComments?]
    exact w.block_withoutComments _ children
  | comment | declaration | step | atRule => rw [Style.withoutComments?]; rfl

lemma step_withoutComments? (s : Style) :
    (s.withoutComments?.map w.step).getD "" = concealing.step s := by
  cases s with
  | step values children =>
    rw [Style.withoutComments?]
    exact w.block_withoutComments _ children
  | comment | declaration | rule | atRule => rw [Style.withoutComments?]; rfl

/-- **Rule lists** — without their comments they are written as with hidden ones. -/
lemma base_withoutComments (styles : List Style) :
    w.base (withoutComments styles) = concealing.base styles := by
  rw [withoutComments_eq_filterMap]
  exact join_filterMap fun s _ => w.style_withoutComments? s

/-- **Media groups** — without its comments a group is written as with hidden ones. -/
lemma mediaGroup_withoutComments (g : MediaGroup) :
    w.mediaGroup g.withoutComments = concealing.mediaGroup g := by
  have hrules := w.base_withoutComments g.rules
  rw [base, base] at hrules
  rw [mediaGroup, mediaGroup, MediaGroup.withoutComments, hrules]

lemma keyframesBlock_withoutComments (k : Keyframes) :
    w.keyframesBlock k.withoutComments = concealing.keyframesBlock k := by
  rw [keyframesBlock, keyframesBlock, Keyframes.withoutComments, withoutComments_eq_filterMap,
    join_filterMap fun s _ => w.step_withoutComments? s]

/-- **Keyframes** — without their comments the blocks are written as with hidden ones. -/
lemma keyframes_withoutComments (blocks : List Keyframes) :
    w.keyframes (blocks.map Keyframes.withoutComments) = concealing.keyframes blocks := by
  rw [keyframes, keyframes, List.map_map]
  exact congrArg String.join (List.map_congr_left fun k _ => w.keyframesBlock_withoutComments k)

/-! ## Hiding comments -/

/-- **Hiding comments is taking them out** — whatever the styles are, and whether or not the writer
hides comments, the base, a media group and keyframes without their comments have the text that is
written of them if comments are hidden. So parts that differ in their comments only have one text
then. -/
theorem hide_eq_withoutComments :
    (∀ w : Writer,
      (∀ styles, w.base (withoutComments styles) = concealing.base styles) ∧
      (∀ g : MediaGroup, w.mediaGroup g.withoutComments = concealing.mediaGroup g) ∧
      ∀ blocks, w.keyframes (blocks.map Keyframes.withoutComments) = concealing.keyframes blocks) ∧
    (∀ styles others, withoutComments styles = withoutComments others →
      concealing.base styles = concealing.base others) ∧
    (∀ g g' : MediaGroup, g.withoutComments = g'.withoutComments →
      concealing.mediaGroup g = concealing.mediaGroup g') ∧
    ∀ blocks others, blocks.map Keyframes.withoutComments = others.map Keyframes.withoutComments →
      concealing.keyframes blocks = concealing.keyframes others := by
  refine ⟨fun w => ⟨w.base_withoutComments, w.mediaGroup_withoutComments,
    w.keyframes_withoutComments⟩, fun styles others h => ?_, fun g g' h => ?_,
    fun blocks others h => ?_⟩
  · rw [← concealing.base_withoutComments, h, base_withoutComments]
  · rw [← concealing.mediaGroup_withoutComments, h, mediaGroup_withoutComments]
  · rw [← concealing.keyframes_withoutComments, h, keyframes_withoutComments]

/-- A rule and a step that holds a rule, with comments in front of, in and between them. -/
def commented : List Style :=
  [.comment "a", .rule ["b"] [.comment "c", .declaration "d" "e"], .comment "*/",
    .step ["to"] [.rule ["f"] [.comment "g"], .declaration "h" "i"]]

/-- The same styles with a comment behind them. -/
def commentedBehind : List Style :=
  [.rule ["b"] [.declaration "d" "e"], .step ["to"] [.rule ["f"] [], .declaration "h" "i"],
    .comment "j"]

/-- The styles differ in their comments only, so they have one text as a base, as a media group and
as keyframes. -/
theorem hide_eq_withoutComments_commented :
    withoutComments commented = withoutComments commentedBehind ∧
      concealing.base commented = "b \x7b\n\td: e;\n\x7d\n\n" ∧
      concealing.base commented = concealing.base commentedBehind ∧
      concealing.mediaGroup ⟨"k", "K", none, commented⟩ =
        concealing.mediaGroup ⟨"k", "K", none, commentedBehind⟩ ∧
      concealing.keyframes [⟨"", "m", commented⟩] =
        concealing.keyframes [⟨"", "m", commentedBehind⟩] := by
  have h : withoutComments commented = withoutComments commentedBehind := by
    simp [commented, commentedBehind, withoutComments, Style.withoutComments?]
  obtain ⟨-, hbase, hgroup, hkeyframes⟩ := hide_eq_withoutComments
  refine ⟨h, by decide, hbase _ _ h, hgroup _ _ ?_, hkeyframes _ _ ?_⟩
  · rw [MediaGroup.withoutComments, MediaGroup.withoutComments, h]
  · rw [List.map_singleton, List.map_singleton, Keyframes.withoutComments,
      Keyframes.withoutComments, h]

end Writer

end StyleSplit
