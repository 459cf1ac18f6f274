import StyleSplit.Proofs.Sheet.Yields
set_option autoImplicit false

/-!
# Paragraphs

Rules, comments and at-rules are written as paragraphs: a text that yields the same whatever follows
it, and an empty line. A reader skips blanks, so that paragraphs can stand one after the other, and
with further blanks between them.

## Main definitions

* `StyleSplit.Sheet.SkipsBlanks` — readers that skip blanks.
* `StyleSplit.Sheet.IsParagraph` — paragraphs, and what they yield.

## Main results

* `StyleSplit.Sheet.IsParagraph.yields` — what a paragraph yields in front of another text.
* `StyleSplit.Sheet.IsParagraph.append`, `StyleSplit.Sheet.IsParagraph.intercalate` — paragraphs
  with blanks between them are a paragraph.
-/

namespace StyleSplit.Sheet

open Css

variable {α : Type} {read : List Char → List Component → Except Fault (List α)}

/-- **Skipping blanks** — blanks up to a text yield nothing. -/
def SkipsBlanks (read : List Char → List Component → Except Fault (List α)) : Prop :=
  ∀ a t, a ≠ [] → a.all isSpace → EndsBlanks t → Yields read a t []

lemma skipsBlanks_readStatements : SkipsBlanks readStatements := fun _ _ =>
  yields_blanks_statements

lemma skipsBlanks_readSteps : SkipsBlanks readSteps := fun _ _ =>
  yields_blanks_steps

/-- **Paragraphs** — the text does not begin with a blank, and what stands in front of the empty
line that ends it yields the list `xs` whatever follows. -/
structure IsParagraph (read : List Char → List Component → Except Fault (List α)) (s : List Char)
    (xs : List α) : Prop where
  endsBlanks : EndsBlanks s
  exists_body : ∃ body, s = body ++ ['\n', '\n'] ∧ ∀ t, Yields read body t xs

/-- Whether a text ends blanks lies in its first character. -/
lemma EndsBlanks.append {s : List Char} (hs : EndsBlanks s) (hne : s ≠ []) (t : List Char) :
    EndsBlanks (s ++ t) := by
  cases s with
  | nil => exact absurd rfl hne
  | cons c s => exact hs

namespace IsParagraph

variable {s t : List Char} {xs ys : List α}

lemma ne_nil (h : IsParagraph read s xs) : s ≠ [] := by
  obtain ⟨body, rfl, -⟩ := h.exists_body
  simp

/-- What stands in front of the empty line ends blanks. -/
lemma endsBlanks_body {body : List Char} (h : EndsBlanks (body ++ ['\n', '\n'])) (t : List Char) :
    EndsBlanks (body ++ t) := by
  cases body with
  | nil => exact absurd h (by rw [EndsBlanks]; decide)
  | cons c body => exact h

/-- **In front of another text** a paragraph yields its list. -/
lemma yields (h : IsParagraph read s xs) (hskips : SkipsBlanks read) (ht : EndsBlanks t) :
    Yields read s t xs := by
  obtain ⟨body, rfl, hbody⟩ := h.exists_body
  exact (hbody _).append_nil (hskips _ _ (by simp) (by decide) ht)

/-- **Two paragraphs** with blanks between them are one. -/
lemma append (hs : IsParagraph read s xs) (hskips : SkipsBlanks read) {gap : List Char}
    (hgap : gap.all isSpace) (ht : IsParagraph read t ys) :
    IsParagraph read (s ++ gap ++ t) (xs ++ ys) := by
  have hends : EndsBlanks (s ++ gap ++ t) := by
    rw [List.append_assoc]
    exact hs.endsBlanks.append hs.ne_nil _
  obtain ⟨first, rfl, hfirst⟩ := hs.exists_body
  obtain ⟨last, rfl, hlast⟩ := ht.exists_body
  refine ⟨hends, first ++ (['\n', '\n'] ++ gap) ++ last, by simp, fun u => ?_⟩
  have hall : (['\n', '\n'] ++ gap).all isSpace := by
    rw [List.all_append, hgap]
    rfl
  have hblanks : Yields read (['\n', '\n'] ++ gap) (last ++ u) [] :=
    hskips _ _ (by simp) hall (endsBlanks_body ht.endsBlanks u)
  exact ((hfirst _).append_nil hblanks).append (hlast u)

/-- **Several paragraphs** with blanks between them are one. -/
lemma intercalate (hskips : SkipsBlanks read) {separator : String}
    (hseparator : separator.toList.all isSpace) {texts : List String} {lists : List (List α)}
    (h : List.Forall₂ (fun text xs => IsParagraph read text.toList xs) texts lists)
    (hne : texts ≠ []) :
    IsParagraph read (separator.intercalate texts).toList lists.flatten := by
  induction h with
  | nil => exact absurd rfl hne
  | @cons text xs texts lists htext hrest ih =>
    cases hrest with
    | nil => simpa using htext
    | @cons text' ys texts lists htext' hrest =>
      rw [String.intercalate_cons_cons, String.toList_append, String.toList_append,
        List.flatten_cons]
      exact htext.append hskips hseparator (ih (by simp))

end IsParagraph

/-- A text that yields statements, and does not begin with a byte order mark, is a sheet of them. -/
lemma parse_of_yields {css : String} {xs : List Statement}
    (h : Yields readStatements css.toList [] xs) (hends : EndsBlanks css.toList) :
    parse css = .ok ⟨xs⟩ := by
  obtain ⟨cs, hcs, hread⟩ := h
  have hstatements := hread [] []
  simp only [readStatements, List.append_nil] at hstatements
  refine parse_of_reads cs hcs hends.head?_ne_mark ?_
  rw [hstatements, ruleList]
  exact congrArg Except.ok (List.append_nil _)

end StyleSplit.Sheet
