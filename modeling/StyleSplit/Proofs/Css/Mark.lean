import StyleSplit.Proofs.Css.Reading
set_option autoImplicit false

/-!
# Brackets and separators of a text

Brackets, commas and semicolons are the marks of a text. If each lexeme shows the mark of its token
as its last character and has no other mark, then the grouping of the lexemes can be told from the
marks of the text alone: a text with balanced brackets is grouped among itself.

## Main definitions

* `StyleSplit.Css.marks` — the marks of a text.
* `StyleSplit.Css.isBalanced` — whether each bracket of a text has its partner.
* `StyleSplit.Css.Balanced` — balanced marks, with those outside of all brackets.
* `StyleSplit.Css.Component.IsTidy` — components whose brackets are those of their text.

## Main results

* `StyleSplit.Css.Balanced.exists_tidyGroups` — lexemes with balanced marks are grouped among
  themselves.
-/

namespace StyleSplit.Css

/-! ## Marks -/

/-- **Marks** — the brackets and the separators. -/
inductive Mark
  | opening (b : Bracket)
  | closing (b : Bracket)
  | comma
  | semicolon
  deriving DecidableEq, Repr

/-- The character of a mark. -/
def Mark.char : Mark → Char
  | opening b => b.opener
  | closing b => b.closer
  | comma => ','
  | semicolon => ';'

/-- The mark that a character is. -/
def markOf? : Char → Option Mark
  | '{' => some (.opening .brace)
  | '(' => some (.opening .paren)
  | '[' => some (.opening .square)
  | '}' => some (.closing .brace)
  | ')' => some (.closing .paren)
  | ']' => some (.closing .square)
  | ',' => some .comma
  | ';' => some .semicolon
  | _ => none

/-- The marks of a text in their order. -/
def marks (s : List Char) : List Mark :=
  s.filterMap markOf?

/-- The mark that a token is or ends with. -/
def Token.mark? : Token → Option Mark
  | opening b => some (.opening b)
  | function _ => some (.opening .paren)
  | closing b => some (.closing b)
  | comma => some .comma
  | semicolon => some .semicolon
  | _ => none

lemma markOf?_char (m : Mark) : markOf? m.char = some m := by
  rcases m with (_ | _ | _) | (_ | _ | _) | _ | _ <;> rfl

lemma eq_char_of_markOf? {c : Char} {m : Mark} (h : markOf? c = some m) : c = m.char := by
  unfold markOf? at h
  split at h <;> cases h <;> rfl

/-- The characters of the marks. -/
def markChars : List Char :=
  ['{', '(', '[', '}', ')', ']', ',', ';']

/-- A character of a class that no mark belongs to is no mark. -/
lemma markOf?_eq_none {p : Char → Bool} (hp : markChars.all fun d => !p d) {c : Char} (hc : p c) :
    markOf? c = none := by
  have hnot : c ∉ markChars := by
    intro h
    have hpc := List.all_eq_true.mp hp c h
    rw [hc] at hpc
    exact Bool.false_ne_true hpc
  unfold markOf?
  split
  all_goals first | rfl | exact absurd (by decide) hnot

lemma marks_append (s t : List Char) : marks (s ++ t) = marks s ++ marks t :=
  List.filterMap_append

lemma marks_eq_nil_iff {s : List Char} : marks s = [] ↔ ∀ c ∈ s, markOf? c = none :=
  List.filterMap_eq_nil_iff

lemma marks_map_char (ms : List Mark) : marks (ms.map Mark.char) = ms := by
  have hcomp : markOf? ∘ Mark.char = some := funext markOf?_char
  rw [marks, List.filterMap_map, hcomp, List.filterMap_some]

/-! ## Balanced marks -/

/-- Whether marks close the open brackets, the innermost first, and those that they open. -/
def closesAll : List Bracket → List Mark → Bool
  | stack, [] => stack.isEmpty
  | stack, .opening b :: ms => closesAll (b :: stack) ms
  | b :: stack, .closing c :: ms => b == c && closesAll stack ms
  | [], .closing _ :: _ => false
  | stack, .comma :: ms => closesAll stack ms
  | stack, .semicolon :: ms => closesAll stack ms

/-- **Balanced texts** — each bracket of the text has its partner. -/
def isBalanced (s : List Char) : Bool :=
  closesAll [] (marks s)

/-- **Balanced marks** — a list of marks in which each bracket has its partner, and the marks of it
that stand in no brackets: separators and opening brackets. -/
inductive Balanced : List Mark → List Mark → Prop
  | nil : Balanced [] []
  | separator {m : Mark} {ms outer : List Mark} (hm : m = .comma ∨ m = .semicolon)
      (h : Balanced ms outer) : Balanced (m :: ms) (m :: outer)
  | group {b : Bracket} {inner innerOuter ms outer : List Mark} (hinner : Balanced inner innerOuter)
      (h : Balanced ms outer) :
      Balanced (.opening b :: (inner ++ .closing b :: ms)) (.opening b :: outer)

/-- The marks outside of all brackets are among the marks. -/
lemma Balanced.subset {ms outer : List Mark} (h : Balanced ms outer) : outer ⊆ ms := by
  induction h with
  | nil => exact List.Subset.refl _
  | separator hm h ih => exact List.cons_subset_cons _ ih
  | group hinner h _ ih =>
    refine List.cons_subset_cons _ fun m hm => ?_
    exact List.mem_append_right _ (List.mem_cons_of_mem _ (ih hm))

/-- What follows balanced marks where brackets are open: the one that closes the innermost of them
and marks that close the others; nothing where none is open. -/
def ClosesFirst : List Bracket → List Mark → Prop
  | [], rest => rest = []
  | b :: stack, rest => ∃ more, rest = .closing b :: more ∧ closesAll stack more

/-- Marks that close all open brackets begin with balanced marks, up to the one that closes the
innermost of them.

**Proof sketch.** Induction on the length. Behind an opening bracket the statement is used twice:
for what stands in the brackets, with the new bracket open, and for what follows its partner. -/
lemma exists_balanced_of_closesAll (ms : List Mark) (stack : List Bracket)
    (h : closesAll stack ms) :
    ∃ first outer rest, Balanced first outer ∧ ms = first ++ rest ∧ ClosesFirst stack rest := by
  induction hn : ms.length using Nat.strongRecOn generalizing ms stack with
  | _ n ih =>
    match ms, stack, h with
    | [], [], _ => exact ⟨[], [], [], .nil, rfl, rfl⟩
    | .closing b :: ms, c :: stack, h =>
      simp only [closesAll, Bool.and_eq_true, beq_iff_eq] at h
      obtain ⟨rfl, h⟩ := h
      exact ⟨[], [], _, .nil, rfl, ms, rfl, h⟩
    | .comma :: ms, stack, h =>
      rw [List.length_cons] at hn
      obtain ⟨first, outer, rest, hfirst, rfl, hrest⟩ :=
        ih ms.length (by omega) ms stack (by simpa [closesAll] using h) rfl
      exact ⟨_, _, rest, .separator (.inl rfl) hfirst, rfl, hrest⟩
    | .semicolon :: ms, stack, h =>
      rw [List.length_cons] at hn
      obtain ⟨first, outer, rest, hfirst, rfl, hrest⟩ :=
        ih ms.length (by omega) ms stack (by simpa [closesAll] using h) rfl
      exact ⟨_, _, rest, .separator (.inr rfl) hfirst, rfl, hrest⟩
    | .opening b :: ms, stack, h =>
      rw [List.length_cons] at hn
      obtain ⟨inner, innerOuter, _, hinner, hms, more, rfl, hmore⟩ :=
        ih ms.length (by omega) ms (b :: stack) (by simpa [closesAll] using h) rfl
      have hlength := congrArg List.length hms
      rw [List.length_append, List.length_cons] at hlength
      obtain ⟨first, outer, rest, hfirst, rfl, hrest⟩ :=
        ih more.length (by omega) more stack hmore rfl
      exact ⟨.opening b :: (inner ++ .closing b :: first), _, rest, .group hinner hfirst,
        by simp [hms], hrest⟩

/-- The marks of a balanced text are balanced. -/
lemma exists_balanced {s : List Char} (h : isBalanced s) : ∃ outer, Balanced (marks s) outer := by
  obtain ⟨first, outer, rest, hfirst, hms, rfl⟩ := exists_balanced_of_closesAll (marks s) [] h
  rw [List.append_nil] at hms
  exact ⟨outer, hms ▸ hfirst⟩

/-! ## Lexemes that show their marks -/

/-- A lexeme shows its mark if its raw text ends with the mark of its token and has no other. -/
def Lexeme.ShowsMark (l : Lexeme) : Prop :=
  l.raw ≠ [] ∧ ∃ head, marks head = [] ∧ l.raw = head ++ l.token.mark?.toList.map Mark.char

lemma Lexeme.ShowsMark.marks_raw {l : Lexeme} (h : l.ShowsMark) :
    marks l.raw = l.token.mark?.toList := by
  obtain ⟨-, head, hhead, hraw⟩ := h
  rw [hraw, marks_append, hhead, marks_map_char, List.nil_append]

/-- The marks of lexemes that show them are those of their raw texts. -/
lemma marks_flatMap_raw {ls : List Lexeme} (h : ∀ l ∈ ls, l.ShowsMark) :
    marks (ls.flatMap (·.raw)) = ls.filterMap (·.token.mark?) := by
  induction ls with
  | nil => rfl
  | cons l ls ih =>
    rw [List.flatMap_cons, marks_append, (h l List.mem_cons_self).marks_raw,
      ih fun m hm => h m (List.mem_cons_of_mem _ hm), List.filterMap_cons]
    cases l.token.mark? <;> rfl

/-- **Tidy components** — a lexeme that shows its mark and is no bracket, or a block whose brackets
show their marks and whose content has balanced marks. -/
def Component.IsTidy : Component → Prop
  | .plain l =>
    l.ShowsMark ∧ ∀ b, l.token.mark? ≠ some (.opening b) ∧ l.token.mark? ≠ some (.closing b)
  | .block opener content closer => ∃ b x outer, closer = some x ∧ opener.ShowsMark ∧ x.ShowsMark ∧
      opener.token.mark? = some (.opening b) ∧ x.token.mark? = some (.closing b) ∧
      Balanced (marks (componentsText content)) outer

/-- A token that is no bracket opens and closes nothing. -/
lemma Token.opens?_closes?_eq_none {t : Token}
    (h : ∀ b, t.mark? ≠ some (.opening b) ∧ t.mark? ≠ some (.closing b)) :
    t.opens? = none ∧ t.closes? = none := by
  cases t <;> simp_all [mark?, opens?, closes?]

lemma Token.opens?_of_mark? {t : Token} {b : Bracket} (h : t.mark? = some (.opening b)) :
    t.opens? = some b := by
  cases t <;> simp_all [mark?, opens?]

lemma Token.closes?_of_mark? {t : Token} {b : Bracket} (h : t.mark? = some (.closing b)) :
    t.closes? = some b := by
  cases t <;> simp_all [mark?, closes?]

/-- **Tidy groups** — lexemes that are grouped among themselves to tidy components, each of which
begins with one of the lexemes, the first with the first. -/
structure TidyGroups (ls : List Lexeme) (cs : List Component) : Prop where
  groups : Groups ls cs
  isTidy : ∀ c ∈ cs, c.IsTidy
  first_mem : ∀ c ∈ cs, c.first ∈ ls
  head?_eq : cs.head?.map (·.first) = ls.head?

namespace TidyGroups

variable {ls ms : List Lexeme} {cs ds : List Component}

lemma nil : TidyGroups [] [] :=
  ⟨.nil, fun _ h => absurd h List.not_mem_nil, fun _ h => absurd h List.not_mem_nil, rfl⟩

lemma append (hl : TidyGroups ls cs) (hm : TidyGroups ms ds) :
    TidyGroups (ls ++ ms) (cs ++ ds) where
  groups := hl.groups.append hm.groups
  isTidy := fun c hc => (List.mem_append.mp hc).elim (hl.isTidy c) (hm.isTidy c)
  first_mem := fun c hc => List.mem_append.mpr
    ((List.mem_append.mp hc).imp (hl.first_mem c) (hm.first_mem c))
  head?_eq := by
    rw [List.head?_append, List.head?_append, ← hl.head?_eq, ← hm.head?_eq]
    cases cs.head? <;> rfl

/-- A lexeme that is no bracket is a component. -/
lemma plain {l : Lexeme} (hshows : l.ShowsMark)
    (hmark : ∀ b, l.token.mark? ≠ some (.opening b) ∧ l.token.mark? ≠ some (.closing b)) :
    TidyGroups [l] [.plain l] where
  groups :=
    Groups.plain (Token.opens?_closes?_eq_none hmark).1 (Token.opens?_closes?_eq_none hmark).2
  isTidy := by
    intro c hc
    obtain rfl := List.mem_singleton.mp hc
    exact ⟨hshows, hmark⟩
  first_mem := by
    intro c hc
    obtain rfl := List.mem_singleton.mp hc
    exact List.mem_cons_self
  head?_eq := rfl

/-- Lexemes without marks are components, each on its own. -/
lemma map_plain (hshows : ∀ l ∈ ls, l.ShowsMark) (hmark : ∀ l ∈ ls, l.token.mark? = none) :
    TidyGroups ls (ls.map .plain) := by
  induction ls with
  | nil => exact .nil
  | cons l ls ih =>
    have hl : l.token.mark? = none := hmark l List.mem_cons_self
    exact (plain (hshows l List.mem_cons_self) (by simp [hl])).append
      (ih (fun m hm => hshows m (List.mem_cons_of_mem _ hm))
        fun m hm => hmark m (List.mem_cons_of_mem _ hm))

/-- Lexemes with balanced marks between two brackets are a block. -/
lemma block {opener closer : Lexeme} {b : Bracket} {outer : List Mark}
    (hopener : opener.ShowsMark) (hcloser : closer.ShowsMark)
    (hopens : opener.token.mark? = some (.opening b))
    (hcloses : closer.token.mark? = some (.closing b)) (h : TidyGroups ls cs)
    (hbalanced : Balanced (marks (ls.flatMap (·.raw))) outer) :
    TidyGroups (opener :: ls ++ [closer]) [.block opener cs (some closer)] where
  groups := h.groups.block (Token.opens?_of_mark? hopens) (Token.closes?_of_mark? hcloses)
  isTidy := by
    intro c hc
    obtain rfl := List.mem_singleton.mp hc
    exact ⟨b, closer, outer, rfl, hopener, hcloser, hopens, hcloses,
      h.groups.componentsText_eq ▸ hbalanced⟩
  first_mem := by
    intro c hc
    obtain rfl := List.mem_singleton.mp hc
    exact List.mem_cons_self
  head?_eq := rfl

end TidyGroups

/-- The marks of components outside of all brackets. -/
def outerMarks (cs : List Component) : List Mark :=
  cs.filterMap (·.token.mark?)

lemma outerMarks_append (cs ds : List Component) :
    outerMarks (cs ++ ds) = outerMarks cs ++ outerMarks ds :=
  List.filterMap_append

lemma outerMarks_singleton {c : Component} {m : Mark} (h : c.token.mark? = some m) :
    outerMarks [c] = [m] := by
  simp [outerMarks, h]

lemma outerMarks_map_plain {ls : List Lexeme} (h : ∀ l ∈ ls, l.token.mark? = none) :
    outerMarks (ls.map .plain) = [] := by
  rw [outerMarks, List.filterMap_map]
  exact List.filterMap_eq_nil_iff.mpr h

/-- **Balanced lexemes** — lexemes that show their marks are grouped among themselves if the marks
are balanced; the marks of the components are those outside of all brackets.

**Proof sketch.** Induction on the balanced marks. The lexemes are cut at the first mark, and behind
an opening bracket again at its partner; those before a cut have no marks. -/
lemma Balanced.exists_tidyGroups {ms outer : List Mark} (h : Balanced ms outer) {ls : List Lexeme}
    (hms : ls.filterMap (·.token.mark?) = ms) (hshows : ∀ l ∈ ls, l.ShowsMark) :
    ∃ cs, TidyGroups ls cs ∧ outerMarks cs = outer := by
  induction h generalizing ls with
  | nil =>
    have hnone := List.filterMap_eq_nil_iff.mp hms
    exact ⟨ls.map .plain, .map_plain hshows hnone, outerMarks_map_plain hnone⟩
  | @separator m ms outer hm h ih =>
    obtain ⟨before, l, after, rfl, hbefore, hl, hafter⟩ := List.filterMap_eq_cons_iff.mp hms
    simp only [List.mem_append, List.mem_cons] at hshows
    obtain ⟨cs, hcs, rfl⟩ := ih hafter fun l hl => hshows l (.inr (.inr hl))
    have hplain : ∀ b, l.token.mark? ≠ some (.opening b) ∧ l.token.mark? ≠ some (.closing b) := by
      rcases hm with rfl | rfl <;> simp [hl]
    have hsingle : TidyGroups [l] [.plain l] := .plain (hshows l (.inr (.inl rfl))) hplain
    refine ⟨before.map .plain ++ ([.plain l] ++ cs), ?_, ?_⟩
    · exact (TidyGroups.map_plain (fun l hl => hshows l (.inl hl)) hbefore).append
        (hsingle.append hcs)
    · rw [outerMarks_append, outerMarks_append, outerMarks_map_plain hbefore,
        outerMarks_singleton (c := .plain l) hl]
      rfl
  | @group b inner innerOuter ms outer hinner h ihinner ih =>
    obtain ⟨before, opener, behind, rfl, hbefore, hopener, hbehind⟩ :=
      List.filterMap_eq_cons_iff.mp hms
    obtain ⟨content, tail, rfl, hcontent, htail⟩ := List.filterMap_eq_append_iff.mp hbehind
    obtain ⟨last, closer, after, rfl, hlast, hcloser, hafter⟩ :=
      List.filterMap_eq_cons_iff.mp htail
    simp only [List.mem_append, List.mem_cons] at hshows
    have hmarks : (content ++ last).filterMap (·.token.mark?) = inner := by
      rw [List.filterMap_append, hcontent, List.filterMap_eq_nil_iff.mpr hlast, List.append_nil]
    have hshowsContent : ∀ l ∈ content ++ last, l.ShowsMark := fun l hl =>
      hshows l (.inr (.inr ((List.mem_append.mp hl).imp id .inl)))
    obtain ⟨cs, hcs, -⟩ := ihinner hmarks hshowsContent
    obtain ⟨ds, hds, rfl⟩ := ih hafter fun l hl => hshows l (.inr (.inr (.inr (.inr (.inr hl)))))
    have hblock : TidyGroups (opener :: (content ++ last) ++ [closer])
        [.block opener cs (some closer)] :=
      .block (hshows opener (.inr (.inl rfl)))
        (hshows closer (.inr (.inr (.inr (.inr (.inl rfl)))))) hopener hcloser hcs
        (by rwa [marks_flatMap_raw hshowsContent, hmarks])
    refine ⟨before.map .plain ++ ([.block opener cs (some closer)] ++ ds), ?_, ?_⟩
    · have hall := (TidyGroups.map_plain (fun l hl => hshows l (.inl hl)) hbefore).append
        (hblock.append hds)
      simpa using hall
    · rw [outerMarks_append, outerMarks_append, outerMarks_map_plain hbefore,
        outerMarks_singleton (c := .block opener cs (some closer)) hopener]
      rfl

end StyleSplit.Css
