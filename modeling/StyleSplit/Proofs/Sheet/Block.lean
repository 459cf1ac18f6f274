import StyleSplit.Proofs.Sheet.Clean
import StyleSplit.Proofs.Sheet.Paragraph
import StyleSplit.Sheet.Writer
set_option autoImplicit false

/-!
# Written blocks

A clean block is read as it was written: its lines are its declarations and comments again, and what
heads it is read as the same selectors or values.

## Main definitions

* `StyleSplit.Writer.shownLines` — the lines of a block that are written.

## Main results

* `StyleSplit.Writer.yields_lines` — the lines of a block.
* `StyleSplit.Writer.isParagraph_rule`, `StyleSplit.Writer.isParagraph_step` — a rule and a keyframe
  step.
-/

namespace StyleSplit.Writer

open Css Sheet

/-! ## Lines -/

/-- What is written of a style as a line of a block. -/
def shownLine? (w : Writer) : Style → Option Style
  | .declaration property value => some (.declaration property value)
  | .comment text => if w.hideComments then none else some (.comment text)
  | .rule .. | .step .. | .atRule .. => none

/-- **Shown lines** — what is written of the content of a block. -/
def shownLines (w : Writer) (children : List Style) : List Style :=
  children.filterMap w.shownLine?

/-- A blank does not go on in front of a property. -/
lemma endsBlanks_of_isProperty {s : List Char} (hs : Clean.isProperty s) (t : List Char) :
    EndsBlanks (s ++ ':' :: t) := by
  unfold Clean.isProperty at hs
  split at hs
  · rfl
  · rw [Clean.isWord, Bool.and_eq_true] at hs
    cases s with
    | nil => rfl
    | cons c r =>
      have hc := List.all_eq_true.mp hs.1 c List.mem_cons_self
      exact endsBlanks_cons hc (by decide) _

/-- A clean line in front of any text yields itself, if it is written at all. -/
lemma yields_line (w : Writer) {s : Style} (hs : s.isCleanLine) (t : List Char) :
    Yields readDeclarations (w.line s).toList t (w.shownLine? s).toList := by
  have hindent : ['\n', '\t'].all isSpace := by decide
  cases s with
  | declaration property value =>
    rw [Style.isCleanLine, Bool.and_eq_true] at hs
    have hproperty := Clean.isProperty_of_isProperty hs.1
    have htext : (w.line (.declaration property value)).toList =
        ['\n', '\t'] ++ (property.toList ++ ':' :: ' ' :: value.toList ++ [';']) := by
      simp [line, declarationText]
    have hdeclaration := yields_declaration hproperty (Clean.isPiece_of_isValue (by decide) hs.2)
      (Clean.isTrimmed_of_isValue hs.2) t
    rw [String.ofList_toList, String.ofList_toList] at hdeclaration
    rw [htext]
    refine Yields.nil_append (yields_blanks_declarations (by simp) hindent ?_) hdeclaration
    simpa using endsBlanks_of_isProperty hs.1 (' ' :: value.toList ++ ';' :: t)
  | comment text =>
    rw [shownLine?, line]
    cases w.hideComments with
    | true => exact Yields.nil
    | false =>
      have hcomment := yields_comment_declarations (s := text.toList)
        (by simpa [Style.isCleanLine, Clean.isComment] using hs) t
      rw [String.ofList_toList] at hcomment
      have htext : ("\n\t" ++ commentText text).toList =
          ['\n', '\t'] ++ ('/' :: '*' :: text.toList ++ ['*', '/']) := by simp [commentText]
      simp only [Bool.false_eq_true, if_false, htext]
      exact Yields.nil_append (yields_blanks_declarations (by simp) hindent rfl) hcomment
  | rule => exact Yields.nil
  | step => exact Yields.nil
  | atRule => exact Yields.nil

/-- The lines of a list of styles. -/
lemma toList_join_map {α : Type} (write : α → String) (xs : List α) :
    (String.join (xs.map write)).toList = xs.flatMap fun x => (write x).toList := by
  rw [String.toList_join, List.flatMap_map]

/-- Texts one after the other that each yield one thing or nothing. -/
lemma yields_filterMap {α β : Type} {read : List Char → List Component → Except Fault (List β)}
    {write : α → String} (shown? : α → Option β) {P : List Char → Prop} {xs : List α}
    (hyields : ∀ x ∈ xs, ∀ t, P t → Yields read (write x).toList t (shown? x).toList)
    (hfollows : ∀ x ∈ xs, ∀ t, P t → P ((write x).toList ++ t)) {t : List Char} (ht : P t) :
    Yields read (String.join (xs.map write)).toList t (xs.filterMap shown?) ∧
      P ((String.join (xs.map write)).toList ++ t) := by
  have hshown : xs.filterMap shown? = xs.flatMap fun x => (shown? x).toList :=
    List.filterMap_eq_flatMap_toList ..
  rw [toList_join_map, hshown]
  exact Yields.flatMap hyields hfollows ht

/-- **Lines** — the clean lines of a block yield those of them that are written. -/
lemma yields_lines (w : Writer) {children : List Style} (hs : children.all Style.isCleanLine)
    (t : List Char) :
    Yields readDeclarations ((String.join (children.map w.line)).toList ++ ['\n']) ('}' :: t)
      (w.shownLines children) := by
  have hlines := (yields_filterMap w.shownLine? (P := fun _ => True)
    (fun s hmem u _ => w.yields_line (List.all_eq_true.mp hs s hmem) u)
    (fun _ _ _ _ => trivial) (t := ['\n'] ++ '}' :: t) trivial).1
  have hend : Yields readDeclarations ['\n'] ('}' :: t) [] :=
    yields_blanks_declarations (by simp) (by decide) rfl
  exact hlines.append_nil hend

/-! ## What heads a block -/

/-- A text without brackets is kept whole. -/
lemma endsClosed_of_notMem {s : List Char} (hs : ∀ c ∈ bracketChars, c ∉ s) :
    endsClosed s = false := by
  rw [endsClosed]
  cases hlast : s.getLast? with
  | none => rfl
  | some c =>
    by_contra hclosing
    rw [Bool.not_eq_false, Option.any_some, isClosing_iff] at hclosing
    obtain ⟨b, hb⟩ := hclosing
    refine hs c ?_ (List.mem_of_getLast? hlast)
    rw [eq_char_of_markOf? hb]
    cases b <;> decide

/-- A flat text is kept whole, with spaces around it. -/
lemma keptPart_of_isFlat {a b s : List Char} (ha : isGap a) (hb : isGap b) (hs : Clean.isFlat s) :
    keptPart (a ++ s ++ b) = a ++ s ++ b := by
  refine keptPart_of_not_endsClosed (endsClosed_of_notMem fun c hc => ?_)
  have hne : c ≠ ' ' ∧ c ≠ '\n' := by
    constructor
    all_goals
      rintro rfl
      exact absurd hc (by decide)
  have hflat : isTextChar Clean.flatSigns c = false := by
    have hall : bracketChars.all fun d => !isTextChar Clean.flatSigns d := by decide
    simpa using List.all_eq_true.mp hall c hc
  rw [Clean.isFlat, Bool.and_eq_true] at hs
  rw [mem_surround_iff ha hb hne.1 hne.2]
  exact notMem_of_all hs.1 hflat

/-- A flat text with spaces around it leaves itself. -/
lemma trimmed_keptPart_of_isFlat {a b : List Char} {x : String} (ha : isGap a) (hb : isGap b)
    (hx : Clean.isFlat x.toList) : trimmed (keptPart (a ++ x.toList ++ b)) = x := by
  have htrim := Clean.isTrimmed_of_isFlat hx
  rw [keptPart_of_isFlat ha hb hx, trimmed,
    trim_surround (forall_mem_gap ha rfl rfl) (forall_mem_gap hb rfl rfl) htrim.1 htrim.2,
    String.ofList_toList]

/-- A clean item begins with a character that rules can begin with. -/
lemma exists_cons_of_isItem {s : List Char} (hs : Clean.isItem s) :
    ∃ c r, s = c :: r ∧ isRuleStart c := by
  rw [Clean.isItem, Bool.and_eq_true] at hs
  cases s with
  | nil => exact absurd hs.2 (by simp)
  | cons c r =>
    refine ⟨c, r, rfl, ?_⟩
    have hc := hs.2
    simp only [List.head?_cons, Option.any_some, isTextChar, Bool.or_eq_true,
      List.contains_iff_mem] at hc
    rw [isRuleStart, isTextChar, Bool.or_eq_true, List.contains_iff_mem]
    exact hc.imp_right fun hmem => List.mem_append_left ['(', '['] hmem

/-- A clean item with spaces around it is the next item of a prelude. -/
lemma exists_run_item {a b t : List Char} (ha : isGap a) (hb : isGap b) (ht : Stops t) {x : String}
    (hx : Clean.isItem x.toList) :
    ∃ cs, Reads (a ++ x.toList ++ b) t cs ∧
      (a = [] → ∃ c ds, cs = c :: ds ∧ beginsRule c.token) ∧
      ∀ acc, ∃ q : Prelude, (⟨acc, .empty⟩ : Prelude).run cs = some q ∧ q.ended = x :: acc := by
  obtain ⟨c, r, hcr, hc⟩ := exists_cons_of_isItem hx
  rw [Clean.isItem, Bool.and_eq_true] at hx
  have hpiece : IsPiece itemMarks (a ++ x.toList ++ b) :=
    (Clean.isPiece_of_isFlat (by decide) hx.1).surround ha hb
  have hitem := trimmed_keptPart_of_isFlat ha hb hx.1
  obtain ⟨cs, hcs⟩ := hpiece.exists_readsPlainly ht
  refine ⟨cs, hcs.reads, ?_, fun acc => ⟨_, Prelude.run_of_piece hcs hpiece acc, ?_⟩⟩
  · rintro rfl
    rw [List.nil_append, hcr, List.cons_append] at hcs
    obtain ⟨d, ds, rfl, htoken⟩ := exists_cons_of_readsPlainly hcs
    exact ⟨d, ds, rfl, htoken ▸ beginsRule_readToken hc _⟩
  · rw [Prelude.ended_of_piece hcs, hitem]
    intro hempty
    rw [trimmed, hempty] at hitem
    rw [← hitem] at hcr
    exact absurd hcr (by simp)

/-- **Items** — clean items with commas and spaces between them and spaces around them are the
items of a prelude; the first of them can begin a rule.

**Proof sketch.** Induction on the items. The spaces behind a comma go in front of the next item,
and the spaces at the end behind the last one; each piece ends at a comma or where the prelude
does. -/
lemma exists_run_items {separator : String} {gap tail t : List Char}
    (hseparator : separator.toList = ',' :: gap) (hgap : isGap gap) (htail : isGap tail)
    (ht : Stops t) {items : List String} (hne : items ≠ [])
    (hitems : ∀ x ∈ items, Clean.isItem x.toList) {lead : List Char} (hlead : isGap lead) :
    ∃ cs, Reads (lead ++ (separator.intercalate items).toList ++ tail) t cs ∧
      (lead = [] → ∃ c ds, cs = c :: ds ∧ beginsRule c.token) ∧
      ∀ acc, ∃ q : Prelude, (⟨acc, .empty⟩ : Prelude).run cs = some q ∧
        q.ended = items.reverse ++ acc := by
  induction items generalizing lead with
  | nil => exact absurd rfl hne
  | cons x xs ih =>
    have hx := hitems x List.mem_cons_self
    cases xs with
    | nil =>
      rw [String.intercalate_singleton]
      exact exists_run_item hlead htail ht hx
    | cons y ys =>
      obtain ⟨ds, hds, -, hrunTail⟩ :=
        ih (by simp) (fun z hz => hitems z (List.mem_cons_of_mem _ hz)) hgap
      obtain ⟨cs, hcs, hbegins, hrun⟩ := exists_run_item hlead (b := []) rfl
        (t := ',' :: (gap ++ (separator.intercalate (y :: ys)).toList ++ tail ++ t))
        (.cons rfl _) hx
      have htext : lead ++ (separator.intercalate (x :: y :: ys)).toList ++ tail =
          lead ++ x.toList ++ [] ++ ([','] ++ (gap ++ (separator.intercalate (y :: ys)).toList ++
            tail)) := by
        simp [String.intercalate_cons_cons, hseparator]
      obtain ⟨comma, hcomma, hnext⟩ :=
        exists_reads_comma (gap ++ (separator.intercalate (y :: ys)).toList ++ tail ++ t)
      refine ⟨cs ++ comma :: ds, ?_, ?_, fun acc => ?_⟩
      · rw [htext]
        exact Reads.append (by simpa using hcs) (hcomma.append hds)
      · intro hnil
        obtain ⟨c, es, rfl, hc⟩ := hbegins hnil
        exact ⟨c, _, rfl, hc⟩
      · obtain ⟨p, hp, hended⟩ := hrun acc
        obtain ⟨q, hq, hqended⟩ := hrunTail p.ended
        refine ⟨q, ?_, by rw [hqended, hended]; simp⟩
        rw [Prelude.run_append hp, hnext, hq]

/-! ## Rules and keyframe steps -/

/-- A block is its head, its lines in braces and an empty line. -/
lemma toList_block (w : Writer) (head : String) (children : List Style) :
    (w.block head children).toList = head.toList ++ [' '] ++
      (('{' :: ((String.join (children.map w.line)).toList ++ ['\n']) ++ ['}']) ++
        ['\n', '\n']) := by
  simp [block]

/-- No blank begins an item. -/
lemma endsBlanks_of_isItem {s : List Char} (hs : Clean.isItem s) (t : List Char) :
    EndsBlanks (s ++ t) := by
  obtain ⟨c, r, rfl, hc⟩ := exists_cons_of_isItem hs
  exact endsBlanks_cons hc (by decide) (r ++ t)

/-- A clean item in front of a block is the selector of a rule. -/
lemma parse_item_braces {css x : String} (hx : Clean.isItem x.toList) {gap content : List Char}
    (hgap : isGap gap) (hcss : css.toList = x.toList ++ gap ++ ('{' :: content ++ ['}']))
    {ds : List Component} (hcontent : Reads content ['}'] ds) {children : List Style}
    (hds : declarationList ['}'] .none ds = .ok children) :
    parse css = .ok ⟨[.style (.rule [x] children)]⟩ := by
  have hnone : isGap [] := rfl
  obtain ⟨cs, hcs, hbegins, hrun⟩ := exists_run_item hnone hgap
    (t := '{' :: content ++ ['}']) (.cons rfl _) hx
  obtain ⟨c, es, rfl, hc⟩ := hbegins rfl
  obtain ⟨q, hq, hended⟩ := hrun []
  have hmark : css.toList.head? ≠ some '\uFEFF' := by
    rw [hcss, List.append_assoc]
    exact (endsBlanks_of_isItem hx _).head?_ne_mark
  rw [parse_rule_braces hcss hmark hcs hc hq hcontent hds, hended]
  rfl

/-- No blank begins a clean block. -/
lemma endsBlanks_block (w : Writer) {separator : String} {items : List String}
    (hitems : Clean.isItems items) (children : List Style) (t : List Char) :
    EndsBlanks ((w.block (separator.intercalate items) children).toList ++ t) := by
  rw [Clean.isItems, Bool.and_eq_true] at hitems
  rw [toList_block]
  cases items with
  | nil => exact absurd hitems.1 (by simp)
  | cons x xs =>
    have hx := List.all_eq_true.mp hitems.2 x List.mem_cons_self
    cases xs with
    | nil =>
      rw [String.intercalate_singleton, List.append_assoc, List.append_assoc]
      exact endsBlanks_of_isItem hx _
    | cons y ys =>
      rw [String.intercalate_cons_cons]
      simp only [String.toList_append, List.append_assoc]
      exact endsBlanks_of_isItem hx _

/-- What heads a block is read as its items. -/
lemma exists_run_head {separator : String} {gap : List Char}
    (hseparator : separator.toList = ',' :: gap) (hgap : isGap gap) {items : List String}
    (hitems : Clean.isItems items) {t : List Char} (ht : Stops t) :
    ∃ c cs q, Reads ((separator.intercalate items).toList ++ [' ']) t (c :: cs) ∧
      beginsRule c.token ∧ (⟨[], .empty⟩ : Prelude).run (c :: cs) = some q ∧
      q.ended.reverse = items := by
  rw [Clean.isItems, Bool.and_eq_true, Bool.not_eq_true', List.isEmpty_eq_false_iff] at hitems
  have hnone : isGap [] := rfl
  have hspace : isGap [' '] := rfl
  obtain ⟨cs, hcs, hbegins, hrun⟩ := exists_run_items hseparator hgap hspace ht hitems.1
    (List.all_eq_true.mp hitems.2) hnone
  obtain ⟨c, ds, rfl, hc⟩ := hbegins rfl
  obtain ⟨q, hq, hended⟩ := hrun []
  exact ⟨c, ds, q, hcs, hc, hq, by simp [hended]⟩

section

variable (w : Writer) {items : List String} {children : List Style} (hitems : Clean.isItems items)
  (hchildren : children.all Style.isCleanLine)

include hitems hchildren

/-- A clean block is read as a prelude that its items make up, and a block of its lines. -/
lemma exists_reads_block (separator : String) {gap : List Char}
    (hseparator : separator.toList = ',' :: gap) (hgap : isGap gap) (t : List Char) :
    ∃ c cs s ds q, Reads ((separator.intercalate items).toList ++ [' '] ++
        ('{' :: ((String.join (children.map w.line)).toList ++ ['\n']) ++ ['}'])) t
        (c :: cs ++ [.braces s t ds]) ∧
      beginsRule c.token ∧ (⟨[], .empty⟩ : Prelude).run (c :: cs) = some q ∧
      q.ended.reverse = items ∧
      ∀ stop, declarationList stop .none ds = .ok (w.shownLines children) := by
  obtain ⟨ds, hds, hlines⟩ := (w.yields_lines hchildren t).exists_braces fun _ => rfl
  obtain ⟨c, cs, q, hcs, hc, hq, hended⟩ := exists_run_head hseparator hgap hitems
    (t := '{' :: ((String.join (children.map w.line)).toList ++ ['\n']) ++ ['}'] ++ t)
    (.cons rfl _)
  exact ⟨c, cs, _, ds, q, hcs.append hds, hc, hq, hended, hlines⟩

/-- **Rules** — a clean rule yields itself with what is written of its block. -/
lemma isParagraph_rule :
    IsParagraph readStatements (w.block (",\n".intercalate items) children).toList
      [.style (.rule items (w.shownLines children))] where
  endsBlanks := by simpa using w.endsBlanks_block hitems children []
  exists_body := by
    refine ⟨_, by rw [toList_block, ← List.append_assoc], fun t => ?_⟩
    obtain ⟨c, cs, s, ds, q, hreads, hc, hq, hended, hlines⟩ :=
      w.exists_reads_block hitems hchildren ",\n" rfl rfl t
    refine ⟨_, hreads, fun stop es => ?_⟩
    simp only [readStatements]
    rw [List.append_assoc, ruleList_none_append_of_run hc hq, List.singleton_append,
      ruleList_rule_braces, hended, hlines]
    cases ruleList stop .none es <;> rfl

/-- **Keyframe steps** — a clean step yields itself with what is written of its block. -/
lemma isParagraph_step :
    IsParagraph readSteps (w.block (",".intercalate items) children).toList
      [.step items (w.shownLines children)] where
  endsBlanks := by simpa using w.endsBlanks_block hitems children []
  exists_body := by
    refine ⟨_, by rw [toList_block, ← List.append_assoc], fun t => ?_⟩
    obtain ⟨c, cs, s, ds, q, hreads, hc, hq, hended, hlines⟩ :=
      w.exists_reads_block hitems hchildren "," rfl rfl t
    refine ⟨_, hreads, fun stop es => ?_⟩
    simp only [readSteps]
    rw [List.append_assoc, stepList_none_append_of_run hc hq, List.singleton_append,
      stepList_step_braces, hended, hlines]
    cases stepList stop none es <;> rfl

end

end StyleSplit.Writer
