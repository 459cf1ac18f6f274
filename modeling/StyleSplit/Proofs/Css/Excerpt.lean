import StyleSplit.Proofs.Css.Mark
import StyleSplit.Text.Blank
set_option autoImplicit false

/-!
# Excerpts of tidy components

An excerpt that a delimiter ends loses the inside of a block at its very end. For tidy components
what is left can be told from the text: it reaches to its end, or, where its last character closes a
bracket, to the partner of that bracket.

## Main definitions

* `StyleSplit.Css.Excerpt.pushAll` — an excerpt with several more components.
* `StyleSplit.Css.keptPart` — a text up to the bracket whose partner ends it.

## Main results

* `StyleSplit.Css.cutText_eq_keptPart` — what is left of tidy components.
* `StyleSplit.Css.keptPart_eq_self_iff` — the whole text, unless a closing bracket ends it.
-/

namespace StyleSplit.Css

/-! ## Several components -/

namespace Excerpt

/-- Several more components, none of them a comment. -/
def pushAll (e : Excerpt) (cs : List Component) : Excerpt :=
  { e with run := cs.reverse ++ e.run }

lemma pushAll_cons (e : Excerpt) (c : Component) (cs : List Component) :
    e.pushAll (c :: cs) = (e.push c).pushAll cs := by
  simp [pushAll, push]

/-- The components of an excerpt have their text, if nothing ends it. -/
lemma toEnd_pushAll_empty (cs : List Component) : (empty.pushAll cs).toEnd = componentsText cs := by
  simp [toEnd, textBefore, pushAll, empty, runText]

lemma upToDelimiter_pushAll_empty (cs : List Component) :
    (empty.pushAll cs).upToDelimiter = cutText cs.reverse := by
  simp [upToDelimiter, textBefore, pushAll, empty]

end Excerpt

/-! ## Back to the partner of a bracket -/

/-- A text, given from its end, behind which `n` more brackets and one more are closed: what is left
of it from the bracket on that the last one closes. -/
def fromOpener : Nat → List Char → List Char
  | _, [] => []
  | n, c :: r =>
    match markOf? c with
    | some (.closing _) => fromOpener (n + 1) r
    | some (.opening _) => if n = 0 then c :: r else fromOpener (n - 1) r
    | _ => fromOpener n r

/-- Whether a closing bracket ends a text. -/
def endsClosed (s : List Char) : Bool :=
  s.getLast?.any fun c => c == '}' || c == ')' || c == ']'

/-- **The kept part of a text** — all of it, unless a closing bracket ends it: then the text up to
the partner of that bracket. -/
def keptPart (s : List Char) : List Char :=
  if endsClosed s then (fromOpener 0 s.dropLast.reverse).reverse else s

lemma isClosing_iff {c : Char} :
    (c == '}' || c == ')' || c == ']') ↔ ∃ b, markOf? c = some (.closing b) := by
  constructor
  · intro h
    simp only [Bool.or_eq_true, beq_iff_eq] at h
    obtain (rfl | rfl) | rfl := h
    · exact ⟨.brace, rfl⟩
    · exact ⟨.paren, rfl⟩
    · exact ⟨.square, rfl⟩
  · rintro ⟨b, h⟩
    rw [eq_char_of_markOf? h]
    cases b <;> rfl

section

variable {n : Nat} {c : Char} {r s : List Char}

lemma fromOpener_cons_closing {b : Bracket} (hc : markOf? c = some (.closing b)) :
    fromOpener n (c :: r) = fromOpener (n + 1) r := by
  simp [fromOpener, hc]

lemma fromOpener_cons_opening {b : Bracket} (hc : markOf? c = some (.opening b)) :
    fromOpener (n + 1) (c :: r) = fromOpener n r := by
  simp [fromOpener, hc]

lemma fromOpener_zero_cons_opening {b : Bracket} (hc : markOf? c = some (.opening b)) :
    fromOpener 0 (c :: r) = c :: r := by
  simp [fromOpener, hc]

lemma fromOpener_cons_of_ne
    (hc : ∀ b, markOf? c ≠ some (.opening b) ∧ markOf? c ≠ some (.closing b)) :
    fromOpener n (c :: r) = fromOpener n r := by
  rw [fromOpener]
  split <;> simp_all

/-- Characters without marks are passed over. -/
lemma fromOpener_append_of_none (hs : ∀ c ∈ s, markOf? c = none) :
    fromOpener n (s ++ r) = fromOpener n r := by
  induction s with
  | nil => rfl
  | cons c s ih =>
    rw [List.cons_append, fromOpener_cons_of_ne (by simp [hs c List.mem_cons_self]),
      ih fun d hd => hs d (List.mem_cons_of_mem _ hd)]

end

/-- **Balanced texts are passed over.**

**Proof sketch.** Induction on the balanced marks. The text is cut at its first mark, and behind an
opening bracket again at its partner; the pieces are met from the last one on. -/
lemma fromOpener_append_of_balanced {ms outer : List Mark} (h : Balanced ms outer) {s : List Char}
    (hms : marks s = ms) (n : Nat) (r : List Char) :
    fromOpener n (s.reverse ++ r) = fromOpener n r := by
  induction h generalizing s n r with
  | nil =>
    exact fromOpener_append_of_none fun c hc =>
      marks_eq_nil_iff.mp hms c (List.mem_reverse.mp hc)
  | @separator m ms outer hm h ih =>
    obtain ⟨before, c, after, rfl, hbefore, hc, hafter⟩ := List.filterMap_eq_cons_iff.mp hms
    have hne : ∀ b, markOf? c ≠ some (.opening b) ∧ markOf? c ≠ some (.closing b) := by
      rcases hm with rfl | rfl <;> simp [hc]
    rw [List.reverse_append, List.reverse_cons, List.append_assoc, List.append_assoc, ih hafter,
      List.singleton_append, fromOpener_cons_of_ne hne]
    exact fromOpener_append_of_none fun d hd => hbefore d (List.mem_reverse.mp hd)
  | @group b inner innerOuter ms outer hinner h ihinner ih =>
    obtain ⟨before, opener, behind, rfl, hbefore, hopener, hbehind⟩ :=
      List.filterMap_eq_cons_iff.mp hms
    obtain ⟨content, tail, rfl, hcontent, htail⟩ := List.filterMap_eq_append_iff.mp hbehind
    obtain ⟨last, closer, after, rfl, hlast, hcloser, hafter⟩ :=
      List.filterMap_eq_cons_iff.mp htail
    have hreverse : (before ++ opener :: (content ++ (last ++ closer :: after))).reverse ++ r =
        after.reverse ++ (closer :: (last.reverse ++ (content.reverse ++ (opener ::
          (before.reverse ++ r))))) := by simp
    rw [hreverse, ih hafter, fromOpener_cons_closing hcloser,
      fromOpener_append_of_none fun c hc => hlast c (List.mem_reverse.mp hc), ihinner hcontent,
      fromOpener_cons_opening hopener]
    exact fromOpener_append_of_none fun c hc => hbefore c (List.mem_reverse.mp hc)

/-- What is left of a text is the end of it. -/
lemma fromOpener_suffix (n : Nat) (s : List Char) : fromOpener n s <:+ s := by
  induction s generalizing n with
  | nil => exact List.suffix_refl _
  | cons c r ih =>
    have htail := fun m => (ih m).trans (List.suffix_cons c r)
    rw [fromOpener]
    split
    · exact htail _
    · split
      · exact List.suffix_refl _
      · exact htail _
    · exact htail _

/-- What is left of a text begins, seen from its end, with an opening bracket. -/
lemma exists_opening_of_fromOpener {n : Nat} {s r : List Char} {c : Char}
    (h : fromOpener n s = c :: r) : ∃ b, markOf? c = some (.opening b) := by
  induction s generalizing n with
  | nil => exact absurd h (by simp [fromOpener])
  | cons d s ih =>
    rw [fromOpener] at h
    split at h
    · exact ih h
    · rename_i b hb
      split at h
      · obtain ⟨rfl, -⟩ := List.cons.inj h
        exact ⟨b, hb⟩
      · exact ih h
    · exact ih h

/-- Where the bracket is found, what stands beyond it makes no difference. -/
lemma fromOpener_append {n : Nat} {s : List Char} (h : fromOpener n s ≠ []) (t : List Char) :
    fromOpener n (s ++ t) = fromOpener n s ++ t := by
  induction s generalizing n with
  | nil => exact absurd rfl h
  | cons d s ih =>
    rw [fromOpener] at h
    rw [List.cons_append, fromOpener, fromOpener]
    split at h
    · exact ih h
    · split at h
      · rw [if_pos ‹_›, if_pos ‹_›, List.cons_append]
      · rw [if_neg ‹_›, if_neg ‹_›]
        exact ih h
    · exact ih h

/-! ## What a delimiter leaves -/

lemma keptPart_of_not_endsClosed {s : List Char} (h : endsClosed s = false) : keptPart s = s := by
  simp [keptPart, h]

/-- The kept part of a text begins it. -/
lemma keptPart_prefix (s : List Char) : keptPart s <+: s := by
  rw [keptPart]
  split
  · have hsuffix := List.reverse_prefix.mpr (fromOpener_suffix 0 s.dropLast.reverse)
    rw [List.reverse_reverse] at hsuffix
    exact hsuffix.trans (List.dropLast_prefix s)
  · exact List.prefix_refl _

/-- **The whole text is kept** exactly if no closing bracket ends it. -/
lemma keptPart_eq_self_iff {s : List Char} : keptPart s = s ↔ endsClosed s = false := by
  refine ⟨fun h => ?_, keptPart_of_not_endsClosed⟩
  by_contra hclosed
  rw [Bool.not_eq_false] at hclosed
  have hne : s ≠ [] := by
    rintro rfl
    exact absurd hclosed (by decide)
  have hlength := congrArg List.length h
  rw [keptPart, if_pos hclosed, List.length_reverse] at hlength
  have hle := (fromOpener_suffix 0 s.dropLast.reverse).length_le
  rw [List.length_reverse, List.length_dropLast] at hle
  have hpos := List.length_pos_of_ne_nil hne
  omega

/-- A text in front of another one is kept whole. -/
lemma keptPart_append_left {s : List Char} (h : keptPart s ≠ []) (a : List Char) :
    keptPart (a ++ s) = a ++ keptPart s := by
  have hne : s ≠ [] := by
    rintro rfl
    exact h rfl
  have hclosed : endsClosed (a ++ s) = endsClosed s := by
    rw [endsClosed, endsClosed, List.getLast?_append_of_ne_nil a hne]
  rw [keptPart] at h
  rw [keptPart, keptPart, hclosed]
  split_ifs at h ⊢
  · rw [List.dropLast_append_of_ne_nil hne, List.reverse_append,
      fromOpener_append (by simpa using h), List.reverse_append, List.reverse_reverse]
  · rfl

/-- The kept part of a text ends with a blank only if the text does. -/
lemma endsBlank_keptPart {s : List Char} (h : endsBlank s = false) :
    endsBlank (keptPart s) = false := by
  rw [keptPart]
  split
  · cases hkept : fromOpener 0 s.dropLast.reverse with
    | nil => rfl
    | cons c r =>
      obtain ⟨b, hb⟩ := exists_opening_of_fromOpener hkept
      rw [eq_char_of_markOf? hb]
      cases b <;> simp [endsBlank, Mark.char, Bracket.opener, isBlank]
  · exact h

/-- The last character of a text decides whether a closing bracket ends it. -/
lemma endsClosed_concat (s : List Char) (c : Char) :
    endsClosed (s ++ [c]) = (c == '}' || c == ')' || c == ']') := by
  simp [endsClosed]

/-- A lexeme that is no bracket does not end with a closing one. -/
lemma Lexeme.ShowsMark.endsClosed_eq {l : Lexeme} (h : l.ShowsMark)
    (hmark : ∀ b, l.token.mark? ≠ some (.opening b) ∧ l.token.mark? ≠ some (.closing b))
    (s : List Char) : endsClosed (s ++ l.raw) = false := by
  obtain ⟨init, c, hraw⟩ := (List.eq_nil_or_concat l.raw).resolve_left h.1
  rw [List.concat_eq_append] at hraw
  rw [hraw, ← List.append_assoc, endsClosed_concat]
  by_contra hclosing
  rw [Bool.not_eq_false, isClosing_iff] at hclosing
  obtain ⟨b, hb⟩ := hclosing
  have hmem : Mark.closing b ∈ marks l.raw := by
    rw [hraw, marks_append]
    exact List.mem_append_right _ (List.mem_filterMap.mpr ⟨c, List.mem_singleton_self c, hb⟩)
  rw [h.marks_raw, Option.mem_toList] at hmem
  exact (hmark b).2 hmem

/-- **The kept part of a text that a group ends** reaches to the opening bracket of the group. -/
lemma keptPart_group {inner : List Char} {outer : List Mark}
    (hinner : Balanced (marks inner) outer) (s : List Char) (b : Bracket) :
    keptPart (s ++ b.opener :: inner ++ [b.closer]) = s ++ [b.opener] := by
  have hclosed : endsClosed (s ++ b.opener :: inner ++ [b.closer]) := by
    rw [endsClosed_concat, isClosing_iff]
    exact ⟨b, markOf?_char (.closing b)⟩
  have hopens : markOf? b.opener = some (.opening b) := markOf?_char (.opening b)
  have hreverse : (s ++ b.opener :: inner).reverse = inner.reverse ++ b.opener :: s.reverse := by
    simp
  rw [keptPart, if_pos hclosed, List.dropLast_concat, hreverse,
    fromOpener_append_of_balanced hinner rfl, fromOpener_zero_cons_opening hopens,
    List.reverse_cons, List.reverse_reverse]

example : keptPart "a:not(.b) c:is(.d)".toList = "a:not(.b) c:is(".toList := by decide

/-- What is left of tidy components that a delimiter ends is the kept part of their text. -/
lemma cutText_eq_keptPart {cs : List Component} (hcs : ∀ c ∈ cs, c.IsTidy) :
    cutText cs.reverse = keptPart (componentsText cs) := by
  rcases List.eq_nil_or_concat cs with rfl | ⟨before, last, rfl⟩
  · rfl
  rw [List.concat_eq_append] at hcs ⊢
  rw [List.reverse_append, List.reverse_singleton, List.singleton_append, cutText,
    componentsText_append, componentsText_cons, componentsText_nil, List.append_nil, runText,
    List.reverse_reverse]
  have hlast := hcs last (by simp)
  cases last with
  | plain l =>
    rw [Component.text_plain, keptPart_of_not_endsClosed (hlast.1.endsClosed_eq hlast.2 _)]
    rfl
  | block opener content closer =>
    obtain ⟨b, x, outer, rfl, hopener, hcloser, hopens, hcloses, hinner⟩ := hlast
    obtain ⟨-, head, hhead, hraw⟩ := hopener
    obtain ⟨-, tail, htail, hraw'⟩ := hcloser
    simp only [hopens, hcloses, Option.toList_some, List.map_cons, List.map_nil, Mark.char]
      at hraw hraw'
    have hbalanced : Balanced (marks (componentsText content ++ tail)) outer := by
      rwa [marks_append, htail, List.append_nil]
    have htext : componentsText before ++ (Component.block opener content (some x)).text =
        componentsText before ++ head ++ b.opener :: (componentsText content ++ tail) ++
          [b.closer] := by
      simp [Component.text_block, hraw, hraw']
    rw [htext, keptPart_group hbalanced, List.append_assoc, ← hraw]
    rfl

end StyleSplit.Css
