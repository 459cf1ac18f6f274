import StyleSplit.Proofs.Media.Parts
import StyleSplit.Proofs.Sheet.Block
set_option autoImplicit false

/-!
# What is written, and what leaves no trace

What is not written of a style, a group or a keyframes block makes no difference to its text, and
what is written makes some.

## Main definitions

* `StyleSplit.Writer.shown`, `StyleSplit.Writer.shownGroup`, `StyleSplit.Writer.shownKeyframes` —
  what is written of a rule list, of a media group and of a keyframes block.

## Main results

* `StyleSplit.Writer.base_shown`, `StyleSplit.Writer.mediaGroup_shownGroup`,
  `StyleSplit.Writer.keyframes_shownKeyframes` — the texts of the parts.
* `StyleSplit.Writer.shown_eq_nil_iff` — the text is empty exactly if nothing is written.
-/

namespace StyleSplit.Writer

/-! ## What is written -/

/-- What is written of a style in a rule list. -/
def shown? (w : Writer) : Style → Option Style
  | .rule selectors children => some (.rule selectors (w.shownLines children))
  | .comment text => if w.hideComments then none else some (.comment text)
  | .atRule name prelude block => some (.atRule name prelude block)
  | .declaration .. | .step .. => none

/-- **Shown styles** — what is written of a rule list. -/
def shown (w : Writer) (styles : List Style) : List Style :=
  styles.filterMap w.shown?

/-- What is written of a style in a keyframes block. -/
def shownStep? (w : Writer) : Style → Option Style
  | .step values children => some (.step values (w.shownLines children))
  | .comment text => if w.hideComments then none else some (.comment text)
  | .declaration .. | .rule .. | .atRule .. => none

/-- **Shown keyframes** — what is written of a keyframes block. -/
def shownKeyframes (w : Writer) (k : Keyframes) : Keyframes :=
  { k with steps := k.steps.filterMap w.shownStep? }

/-! ## What leaves no trace -/

/-- Things that are written as nothing can be left out, and things that are changed without a trace
can be changed, be it for another way of writing. -/
lemma join_filterMap {α : Type} {write write' : α → String} {shown? : α → Option α} {xs : List α}
    (h : ∀ x ∈ xs, ((shown? x).map write).getD "" = write' x) :
    String.join ((xs.filterMap shown?).map write) = String.join (xs.map write') := by
  induction xs with
  | nil => rfl
  | cons x xs ih =>
    have hx := h x List.mem_cons_self
    have htail := ih fun y hy => h y (List.mem_cons_of_mem _ hy)
    rw [List.filterMap_cons]
    cases hshown : shown? x with
    | none =>
      rw [hshown] at hx
      simpa [← hx] using htail
    | some y =>
      rw [hshown] at hx
      simpa [← hx] using htail

section

variable (w : Writer)

/-- Lines that are not written leave no trace. -/
lemma line_shownLine? (s : Style) : ((w.shownLine? s).map w.line).getD "" = w.line s := by
  cases s with
  | comment text =>
    rw [shownLine?]
    cases h : w.hideComments <;> simp [line, h]
  | declaration => rfl
  | rule => rfl
  | step => rfl
  | atRule => rfl

lemma block_shownLines (head : String) (children : List Style) :
    w.block head (w.shownLines children) = w.block head children := by
  rw [block, block, shownLines, join_filterMap fun s _ => w.line_shownLine? s]

lemma style_shown? (s : Style) : ((w.shown? s).map w.style).getD "" = w.style s := by
  cases s with
  | rule selectors children => exact w.block_shownLines _ children
  | comment text =>
    rw [shown?]
    cases h : w.hideComments <;> simp [style, freeComment, h]
  | atRule => rfl
  | declaration => rfl
  | step => rfl

lemma step_shownStep? (s : Style) : ((w.shownStep? s).map w.step).getD "" = w.step s := by
  cases s with
  | step values children => exact w.block_shownLines _ children
  | comment text =>
    rw [shownStep?]
    cases h : w.hideComments <;> simp [step, freeComment, h]
  | atRule => rfl
  | declaration => rfl
  | rule => rfl

/-- **Rule lists** — styles that are not written leave no trace. -/
lemma base_shown (styles : List Style) : w.base (w.shown styles) = w.base styles :=
  join_filterMap fun s _ => w.style_shown? s

/-- What is written of a group. -/
def shownGroup (g : MediaGroup) : MediaGroup :=
  { g with rules := w.shown g.rules }

/-- **Media groups** — what is not written of a group leaves no trace. -/
lemma mediaGroup_shownGroup (g : MediaGroup) : w.mediaGroup (w.shownGroup g) = w.mediaGroup g := by
  have hrules := w.base_shown g.rules
  rw [base, base] at hrules
  rw [mediaGroup, mediaGroup, shownGroup, hrules]

lemma keyframesBlock_shownKeyframes (k : Keyframes) :
    w.keyframesBlock (w.shownKeyframes k) = w.keyframesBlock k := by
  rw [keyframesBlock, keyframesBlock, shownKeyframes, join_filterMap fun s _ => w.step_shownStep? s]

/-- **Keyframes** — what is not written of the blocks leaves no trace. -/
lemma keyframes_shownKeyframes (blocks : List Keyframes) :
    w.keyframes (blocks.map w.shownKeyframes) = w.keyframes blocks := by
  rw [keyframes, keyframes, List.map_map]
  exact congrArg String.join (List.map_congr_left fun k _ => w.keyframesBlock_shownKeyframes k)

/-- What is written of a style of a rule list is such a style, and has a text. -/
lemma shown?_spec {s t : Style} (h : w.shown? s = some t) :
    t.isTopLevel ∧ (s.isGrouped → t.isGrouped) ∧ w.style t ≠ "" := by
  cases s with
  | rule selectors children =>
    obtain rfl := Option.some.inj h
    exact ⟨rfl, fun _ => rfl, by simp [style, block]⟩
  | comment text =>
    rw [shown?] at h
    cases hhide : w.hideComments with
    | true => simp [hhide] at h
    | false =>
      rw [hhide] at h
      obtain rfl := Option.some.inj h
      exact ⟨rfl, fun _ => rfl, by simp [style, freeComment, commentText, hhide]⟩
  | atRule name prelude body =>
    obtain rfl := Option.some.inj h
    exact ⟨rfl, id, by simp [style, atRuleText]⟩
  | declaration => exact absurd h (by simp [shown?])
  | step => exact absurd h (by simp [shown?])

/-- A style that may stand at the top level is written if comments are. -/
lemma exists_shown? {s : Style} (hs : s.isTopLevel) (hshow : w.hideComments = false) :
    ∃ t, w.shown? s = some t := by
  cases s with
  | rule => exact ⟨_, rfl⟩
  | atRule => exact ⟨_, rfl⟩
  | comment text => exact ⟨.comment text, by simp [shown?, hshow]⟩
  | declaration => exact absurd hs (by simp [Style.isTopLevel])
  | step => exact absurd hs (by simp [Style.isTopLevel])

/-- **Nothing written** — the text of styles is empty exactly if none of them is written. -/
lemma shown_eq_nil_iff (styles : List Style) : w.shown styles = [] ↔ w.base styles = "" := by
  rw [← base_shown]
  constructor
  · intro h
    rw [h]
    rfl
  · intro h
    by_contra hne
    obtain ⟨t, ts, hshown⟩ := List.exists_cons_of_ne_nil hne
    have hmem : t ∈ w.shown styles := hshown ▸ List.mem_cons_self
    obtain ⟨s, -, hs⟩ := List.mem_filterMap.mp hmem
    rw [hshown, base, List.map_cons, String.join_cons, String.append_eq_empty_iff] at h
    exact (w.shown?_spec hs).2.2 h.1

end

end StyleSplit.Writer
