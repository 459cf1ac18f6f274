import Mathlib.Data.List.Infix
import Mathlib.Tactic.Common
import StyleSplit.Text.LineEnding
set_option autoImplicit false

/-!
# Conversions one after the other

A text that has been given wide line ends is converted from there as it would have been at once:
widening puts one carriage return before each line feed, and collapsing takes just this one away.
Collapsing by itself may leave a pair of carriage return and line feed behind, where two carriage
returns stand before one line feed. Only in such texts does a second conversion find something to
collapse.

## Main results

* `StyleSplit.LineEnding.isInfix_collapse_iff` — when a collapsed text still has a wide line end.
* `StyleSplit.LineEnding.collapse_eq_self_iff` — the texts that collapsing leaves alone.
* `StyleSplit.LineEnding.apply_apply` — conversions compose.
-/

namespace StyleSplit.LineEnding

/-! ## Collapsing twice -/

/-- A collapsed text begins with a line feed where the text begins with a line end of either
kind. -/
lemma isPrefix_collapse_iff {s : List Char} :
    ['\n'] <+: collapse s ↔ ['\n'] <+: s ∨ ['\r', '\n'] <+: s := by
  fun_cases collapse s with
  | case1 r => simp [List.cons_prefix_cons]
  | case2 c r hwide =>
    rw [List.cons_prefix_cons, List.cons_prefix_cons, List.cons_prefix_cons]
    refine ⟨fun h => .inl ⟨h.1, List.nil_prefix⟩, ?_⟩
    rintro (⟨h, -⟩ | ⟨hc, u, hu⟩)
    · exact ⟨h, List.nil_prefix⟩
    · exact absurd hu.symm (hwide u hc.symm)
  | case3 => simp

/-- **Wide line ends in a collapsed text** come from two carriage returns before a line feed, of
which collapsing drops the second one only. -/
lemma isInfix_collapse_iff {s : List Char} :
    ['\r', '\n'] <:+: collapse s ↔ ['\r', '\r', '\n'] <:+: s := by
  fun_induction collapse s with
  | case1 r ih => simp [List.infix_cons_iff, List.cons_prefix_cons, ih]
  | case2 c r hwide ih =>
    rw [List.infix_cons_iff, List.infix_cons_iff, ih, List.cons_prefix_cons, List.cons_prefix_cons,
      isPrefix_collapse_iff]
    refine or_congr_left (and_congr_right fun hc => or_iff_right ?_)
    -- a line feed right behind this carriage return would have been the first case
    rintro ⟨u, hu⟩
    exact hwide u hc.symm hu.symm
  | case3 => simp

/-- **Collapsing leaves a text alone** exactly if it has no wide line end. -/
lemma collapse_eq_self_iff {s : List Char} : collapse s = s ↔ ¬ ['\r', '\n'] <:+: s := by
  fun_induction collapse s with
  | case1 r => simp [List.infix_cons_iff, List.cons_prefix_cons]
  | case2 c r hwide ih =>
    rw [List.cons_eq_cons, ih, List.infix_cons_iff, List.cons_prefix_cons, not_or]
    refine ⟨fun h => ⟨?_, h.2⟩, fun h => ⟨rfl, h.2⟩⟩
    rintro ⟨hc, u, hu⟩
    exact hwide u hc.symm hu.symm
  | case3 => simp

/-- Collapsing twice is collapsing once exactly if no two carriage returns stand before a line
feed. -/
lemma collapse_collapse_iff {s : List Char} :
    collapse (collapse s) = collapse s ↔ ¬ ['\r', '\r', '\n'] <:+: s := by
  rw [collapse_eq_self_iff, isInfix_collapse_iff]

/-! ## Conversions -/

/-- A conversion looks only at the collapsed text. -/
lemma convert_congr {s u : List Char} (h : collapse s = collapse u) (e : LineEnding) :
    e.convert s = e.convert u := by
  cases e <;> simp only [convert, h]

/-- What has been given wide line ends collapses to what it was collapsed to before. -/
lemma collapse_convert_crlf (s : List Char) : collapse (crlf.convert s) = collapse s :=
  collapse_expand _

/-- Two conversions are the second one alone, whichever they are, exactly if no two carriage
returns stand before a line feed. -/
lemma forall_convert_convert_iff {s : List Char} :
    (∀ a b : LineEnding, a.convert (b.convert s) = a.convert s) ↔
      ¬ ['\r', '\r', '\n'] <:+: s := by
  rw [← collapse_collapse_iff]
  refine ⟨fun h => h lf lf, fun h a b => convert_congr ?_ a⟩
  cases b with
  | lf => exact h
  | crlf => exact collapse_convert_crlf s
  | native => exact h

/-- In a widened text each line feed stands behind a carriage return. -/
lemma isSuffix_of_expand_eq {s before behind : List Char}
    (h : expand s = before ++ '\n' :: behind) : ['\r'] <:+ before := by
  induction s generalizing before with
  | nil => simp at h
  | cons c r ih =>
    rw [expand_cons] at h
    split_ifs at h with hc
    · -- the line feed is the one that was widened here, or it stands in the rest
      rcases before with _ | ⟨d, _ | ⟨e, more⟩⟩
      · exact absurd (List.cons.inj h).1 (by decide)
      · rw [← (List.cons.inj h).1]
      · obtain ⟨hd, hmore⟩ := List.cons.inj h
        have hrest : expand r = more ++ '\n' :: behind := (List.cons.inj hmore).2
        exact (ih hrest).trans (List.suffix_append [d, e] more)
    · rcases before with _ | ⟨d, more⟩
      · exact absurd (List.cons.inj h).1 hc
      · have hrest : expand r = more ++ '\n' :: behind := (List.cons.inj h).2
        exact (ih hrest).trans (List.suffix_cons d more)

lemma toList_apply (e : LineEnding) (text : String) : (e.apply text).toList = e.convert text.toList :=
  String.toList_ofList

lemma apply_apply_eq_iff {a b : LineEnding} {text : String} :
    a.apply (b.apply text) = a.apply text ↔
      a.convert (b.convert text.toList) = a.convert text.toList := by
  rw [← String.toList_inj, toList_apply, toList_apply, toList_apply]

/-- **Conversions compose** — a conversion of what has been given wide line ends is that conversion
of the text itself, and in the former each line feed stands behind a carriage return. If no two
carriage returns stand before a line feed, then any two conversions are the second one alone, and a
text with narrow line ends has no wide one; both hold for no other text. The line ends of the system
are the narrow ones. -/
theorem apply_apply (text : String) :
    (∀ a : LineEnding, a.apply (crlf.apply text) = a.apply text) ∧
    (∀ before behind, (crlf.apply text).toList = before ++ '\n' :: behind → ['\r'] <:+ before) ∧
    ((∀ a b : LineEnding, a.apply (b.apply text) = a.apply text) ↔
      ¬ "\r\r\n".toList <:+: text.toList) ∧
    (¬ "\r\n".toList <:+: (lf.apply text).toList ↔ ¬ "\r\r\n".toList <:+: text.toList) ∧
    native.apply text = lf.apply text := by
  refine ⟨fun a => ?_, fun before behind h => ?_, ?_, ?_, rfl⟩
  · exact apply_apply_eq_iff.mpr (convert_congr (collapse_convert_crlf text.toList) a)
  · exact isSuffix_of_expand_eq ((toList_apply crlf text).symm.trans h)
  · simp only [apply_apply_eq_iff]
    exact forall_convert_convert_iff
  · rw [toList_apply]
    exact not_congr isInfix_collapse_iff

/-- Where two carriage returns stand before a line feed, the wide line ends are right, and collapsing
leaves one of them behind. -/
theorem apply_apply_doubled :
    (crlf.apply "a\r\r\n\n").toList = "a\r\r\n\r".toList ++ '\n' :: [] ∧
      ['\r'] <:+ "a\r\r\n\r".toList ∧
      "\r\r\n".toList <:+: "a\r\r\n\n".toList ∧ "\r\n".toList <:+: (lf.apply "a\r\r\n\n").toList ∧
      ¬ ∀ a b : LineEnding, a.apply (b.apply "a\r\r\n\n") = a.apply "a\r\r\n\n" := by
  obtain ⟨-, hbehind, hcompose, hwide, -⟩ := apply_apply "a\r\r\n\n"
  have hcrlf : (crlf.apply "a\r\r\n\n").toList = "a\r\r\n\r".toList ++ '\n' :: [] := by decide
  have hdoubled : "\r\r\n".toList <:+: "a\r\r\n\n".toList := ⟨['a'], ['\n'], by decide⟩
  exact ⟨hcrlf, hbehind _ _ hcrlf, hdoubled, not_not.mp fun h => hwide.mp h hdoubled,
    fun h => hcompose.mp h hdoubled⟩

end StyleSplit.LineEnding
