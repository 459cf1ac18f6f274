import StyleSplit.Proofs.Sheet.Shown
set_option autoImplicit false

/-!
# Written parts

The parts of a clean sheet are read as they were written: at-rules, `@media` blocks and keyframes
blocks give themselves again, without what is not written of them.

## Main results

* `StyleSplit.Writer.yields_styles` — the styles of a rule list.
* `StyleSplit.Writer.isParagraph_mediaGroup`, `StyleSplit.Writer.isParagraph_keyframesBlock` — the
  blocks.
-/

namespace StyleSplit.Writer

open Css Sheet

/-! ## Comments between rules -/

/-- A comment with an empty line behind it. -/
lemma toList_freeComment (text : String) :
    (commentText text ++ "\n\n").toList =
      ('/' :: '*' :: text.toList ++ ['*', '/']) ++ ['\n', '\n'] := by
  simp [commentText]

section

variable {text : String} (htext : Clean.isComment text.toList)

include htext

lemma isParagraph_comment_statements :
    IsParagraph readStatements (commentText text ++ "\n\n").toList [.style (.comment text)] where
  endsBlanks := by
    rw [toList_freeComment]
    rfl
  exists_body := by
    refine ⟨_, toList_freeComment text, fun t => ?_⟩
    have hcomment := yields_comment_statements (s := text.toList)
      (by simpa [Clean.isComment] using htext) t
    rwa [String.ofList_toList] at hcomment

lemma isParagraph_comment_steps :
    IsParagraph readSteps (commentText text ++ "\n\n").toList [.comment text] where
  endsBlanks := by
    rw [toList_freeComment]
    rfl
  exists_body := by
    refine ⟨_, toList_freeComment text, fun t => ?_⟩
    have hcomment := yields_comment_steps (s := text.toList)
      (by simpa [Clean.isComment] using htext) t
    rwa [String.ofList_toList] at hcomment

end

/-! ## Headers of at-rules -/

/-- Whether a character goes on with a name, or a backslash may. -/
def goesOn (c : Char) : Bool :=
  isNameChar c || c == '\\'

/-- No name goes on with spaces. -/
lemma goesOn_of_mem_gap {a : List Char} (ha : isGap a) : ∀ c ∈ a, goesOn c = false :=
  forall_mem_gap ha rfl rfl

/-- The header of an at-rule: its name, and a prelude with spaces around it. -/
lemma exists_reads_header {name lead s tail t : List Char} (hname : IsName name)
    (hs : IsPiece atRuleMarks s) (hlead : isGap lead) (htail : isGap tail)
    (hnil : lead = [] → s = []) (ht : Stops t) :
    ∃ cs e, Reads ('@' :: name ++ (lead ++ s ++ tail)) t cs ∧
      e.upToDelimiter = keptPart (lead ++ s ++ tail) ∧
      ∀ stop ds, ruleList stop .none (cs ++ ds) =
        ruleList stop (.atRule (String.ofList name).toLower e) ds := by
  refine hname.exists_reads_atRule (hs.surround hlead htail) ?_ ht
  cases lead with
  | nil =>
    cases tail with
    | nil =>
      rw [hnil rfl]
      exact ht.head?_any_append (p := goesOn) (by decide) []
    | cons c tail =>
      rw [hnil rfl]
      exact goesOn_of_mem_gap htail c List.mem_cons_self
  | cons c lead => exact goesOn_of_mem_gap hlead c List.mem_cons_self

/-- An at-rule with its block. -/
lemma yields_of_header {head s t : List Char} {cs ds : List Component} {name : String}
    {e : Excerpt} {x : Statement} (hhead : Reads head ('{' :: s ++ ['}'] ++ t) cs)
    (hread : ∀ stop ds, ruleList stop .none (cs ++ ds) = ruleList stop (.atRule name e) ds)
    (hbraces : Reads ('{' :: s ++ ['}']) t [.braces s t ds])
    (hx : atRuleWithBlock name (trimmed e.upToDelimiter) (.braces s t ds) = .ok x) :
    Yields readStatements (head ++ ('{' :: s ++ ['}'])) t [x] := by
  refine ⟨_, hhead.append hbraces, fun stop es => ?_⟩
  simp only [readStatements]
  rw [List.append_assoc, hread, List.singleton_append, ruleList_atRule_braces, hx]
  cases ruleList stop .none es <;> rfl

/-! ## At-rules -/

/-- What stands between the name of an at-rule and its prelude. -/
def leadOf (prelude : String) : List Char :=
  if prelude = "" then [] else [' ']

lemma isGap_leadOf (prelude : String) : isGap (leadOf prelude) := by
  rw [leadOf]
  split <;> rfl

lemma toList_eq_nil_of_leadOf {prelude : String} (h : leadOf prelude = []) :
    prelude.toList = [] := by
  rw [leadOf] at h
  split at h
  · rename_i hempty
    rw [hempty]
    rfl
  · exact absurd h (by simp)

lemma toList_prelude (prelude : String) :
    (if prelude = "" then "" else " " ++ prelude).toList = leadOf prelude ++ prelude.toList := by
  rw [leadOf]
  split
  · rename_i hempty
    rw [hempty]
    rfl
  · simp

section

variable {name prelude : String} (hname : Clean.isAtRuleName name.toList)
  (hprelude : Clean.isFlat prelude.toList)

include hname hprelude

/-- The header of a clean at-rule holds its name and its prelude. -/
lemma exists_reads_atRuleHeader {tail t : List Char} (htail : isGap tail) (ht : Stops t) :
    ∃ cs e, Reads ('@' :: name.toList ++ (leadOf prelude ++ prelude.toList ++ tail)) t cs ∧
      trimmed e.upToDelimiter = prelude ∧
      ∀ stop ds, ruleList stop .none (cs ++ ds) = ruleList stop (.atRule name e) ds := by
  obtain ⟨cs, e, hcs, he, hread⟩ := exists_reads_header (Clean.isName_of_isAtRuleName hname)
    (Clean.isPiece_of_isFlat (by decide) hprelude) (isGap_leadOf prelude) htail
    toList_eq_nil_of_leadOf ht
  have hlower := Clean.toLower_of_isAtRuleName hname
  rw [String.ofList_toList] at hlower
  refine ⟨cs, e, hcs, ?_, fun stop ds => ?_⟩
  · rw [he, trimmed_keptPart_of_isFlat (isGap_leadOf prelude) htail hprelude]
  · rw [hread, String.ofList_toList, hlower]

/-- A clean at-rule without a block yields itself. -/
lemma isParagraph_atRule_none :
    IsParagraph readStatements (atRuleText name prelude none).toList
      [.style (.atRule name prelude none)] := by
  have htext : (atRuleText name prelude none).toList =
      ('@' :: name.toList ++ (leadOf prelude ++ prelude.toList ++ [])) ++ [';'] ++
        ['\n', '\n'] := by
    simp [atRuleText, toList_prelude]
  have hnone : isGap [] := rfl
  refine ⟨by rw [htext]; rfl, _, htext, fun t => ?_⟩
  obtain ⟨cs, e, hcs, he, hread⟩ := exists_reads_atRuleHeader hname hprelude
    (t := ';' :: t) hnone (.cons rfl _)
  refine ⟨_, Reads.append hcs (reads_semicolon t), fun stop es => ?_⟩
  simp only [readStatements]
  rw [List.append_assoc, hread, List.singleton_append, ruleList]
  simp only [Component.token, Component.first, he]
  rfl

/-- A clean at-rule with a block yields itself. -/
lemma isParagraph_atRule_some {body : String} (hbody : Clean.isBody body.toList) :
    IsParagraph readStatements (atRuleText name prelude (some body)).toList
      [.style (.atRule name prelude (some body))] := by
  have htext : (atRuleText name prelude (some body)).toList =
      ('@' :: name.toList ++ (leadOf prelude ++ prelude.toList ++ [' '])) ++
        ('{' :: body.toList ++ ['}']) ++ ['\n', '\n'] := by
    simp [atRuleText, toList_prelude]
  have hspace : isGap [' '] := rfl
  have hmedia := Clean.ne_media_of_isAtRuleName hname
  have hvendor := Clean.vendor?_of_isAtRuleName hname
  rw [String.ofList_toList] at hmedia hvendor
  refine ⟨by rw [htext]; rfl, _, htext, fun t => ?_⟩
  obtain ⟨ds, hds⟩ := (Clean.isPiece_of_isBody hbody).exists_readsPlainly
    (t := '}' :: t) (.cons rfl _)
  obtain ⟨cs, e, hcs, he, hread⟩ := exists_reads_atRuleHeader hname hprelude
    (t := '{' :: body.toList ++ ['}'] ++ t) hspace (.cons rfl _)
  refine yields_of_header hcs hread hds.reads.braces ?_
  rw [he, Component.braces, atRuleWithBlock, if_neg hmedia, hvendor,
    hds.reads.componentsText_eq]
  dsimp only
  rw [String.ofList_toList]

end

/-- **At-rules** — a clean at-rule yields itself. -/
lemma isParagraph_atRule {name prelude : String} {block : Option String}
    (h : (Style.atRule name prelude block).isClean) :
    IsParagraph readStatements (atRuleText name prelude block).toList
      [.style (.atRule name prelude block)] := by
  simp only [Style.isClean, Bool.and_eq_true] at h
  obtain ⟨⟨hname, hprelude⟩, hblock⟩ := h
  cases block with
  | none => exact isParagraph_atRule_none hname hprelude
  | some body => exact isParagraph_atRule_some hname hprelude hblock

/-! ## Rule lists -/

/-- Texts one after the other that are paragraphs or empty. -/
lemma yields_paragraphs {α β : Type} {read : List Char → List Component → Except Fault (List β)}
    (hskips : SkipsBlanks read) {write : α → String} {shown? : α → Option β} {xs : List α}
    (hnone : ∀ x ∈ xs, shown? x = none → write x = "")
    (hsome : ∀ x ∈ xs, ∀ y, shown? x = some y → IsParagraph read (write x).toList [y])
    {t : List Char} (ht : EndsBlanks t) :
    Yields read (String.join (xs.map write)).toList t (xs.filterMap shown?) ∧
      EndsBlanks ((String.join (xs.map write)).toList ++ t) := by
  refine yields_filterMap shown? (fun x hx u hu => ?_) (fun x hx u hu => ?_) ht
  all_goals cases hshown : shown? x
  · rw [hnone x hx hshown]
    exact Yields.nil
  · exact (hsome x hx _ hshown).yields hskips hu
  · rwa [hnone x hx hshown]
  · have hparagraph := hsome x hx _ hshown
    exact hparagraph.endsBlanks.append hparagraph.ne_nil u

/-- Paragraphs one after the other. -/
lemma yields_map {α β : Type} {read : List Char → List Component → Except Fault (List β)}
    {write : α → String} (shown : α → β) (hskips : SkipsBlanks read) {xs : List α}
    (h : ∀ x ∈ xs, IsParagraph read (write x).toList [shown x]) {t : List Char}
    (ht : EndsBlanks t) :
    Yields read (String.join (xs.map write)).toList t (xs.map shown) ∧
      EndsBlanks ((String.join (xs.map write)).toList ++ t) := by
  have hsome : ∀ x ∈ xs, ∀ y, (some ∘ shown) x = some y →
      IsParagraph read (write x).toList [y] := by
    intro x hx y hy
    obtain rfl := Option.some.inj hy
    exact h x hx
  have hmap := yields_paragraphs hskips (fun _ _ hnone => absurd hnone (by simp)) hsome ht
  rwa [List.filterMap_eq_map] at hmap

/-- A style that is not written has no text. -/
lemma style_eq_of_shown? {w : Writer} {s : Style} (h : w.shown? s = none) : w.style s = "" := by
  rw [← style_shown?, h]
  rfl

/-- A clean style of a rule list that is written is a paragraph. -/
lemma isParagraph_style {w : Writer} {s shown : Style} (hs : s.isClean)
    (h : w.shown? s = some shown) :
    IsParagraph readStatements (w.style s).toList [.style shown] := by
  cases s with
  | rule selectors children =>
    obtain rfl := Option.some.inj h
    rw [Style.isClean, Bool.and_eq_true] at hs
    exact w.isParagraph_rule hs.1 hs.2
  | comment text =>
    obtain ⟨hshow, rfl⟩ : w.hideComments = false ∧ .comment text = shown := by
      simpa [shown?] using h
    rw [style, freeComment, if_neg (by simp [hshow])]
    exact isParagraph_comment_statements hs
  | atRule name prelude block =>
    obtain rfl := Option.some.inj h
    exact isParagraph_atRule hs
  | declaration => exact absurd h (by simp [shown?])
  | step => exact absurd h (by simp [shown?])

/-- **Rule lists** — clean styles yield what is written of them. -/
lemma yields_styles (w : Writer) {styles : List Style} (hs : styles.all Style.isClean)
    {t : List Char} (ht : EndsBlanks t) :
    Yields readStatements (String.join (styles.map w.style)).toList t
        ((w.shown styles).map Statement.style) ∧
      EndsBlanks ((String.join (styles.map w.style)).toList ++ t) := by
  rw [shown, List.map_filterMap]
  refine yields_paragraphs skipsBlanks_readStatements (fun s _ hnone => ?_)
    (fun s hmem x hsome => ?_) ht
  · exact style_eq_of_shown? (Option.map_eq_none_iff.mp hnone)
  · obtain ⟨shown, hshown, rfl⟩ := Option.map_eq_some_iff.mp hsome
    exact isParagraph_style (List.all_eq_true.mp hs s hmem) hshown

/-! ## Media blocks -/

/-- An `@media` block is its header, its rules in braces and an empty line. -/
lemma toList_mediaGroup (w : Writer) (g : MediaGroup) :
    (w.mediaGroup g).toList =
      ('@' :: "media".toList ++ ([' '] ++ g.condition.toList ++ [' '])) ++
        ('{' :: (['\n', '\n'] ++ (String.join (g.rules.map w.style)).toList) ++ ['}']) ++
          ['\n', '\n'] := by
  simp [mediaGroup]

/-- A clean condition with spaces around it leaves itself. -/
lemma trimmed_keptPart_of_isValue {s : String} (hs : Clean.isValue s.toList) :
    trimmed (keptPart ([' '] ++ s.toList ++ [' '])) = s := by
  have htrim := Clean.isTrimmed_of_isValue hs
  have hspace : ∀ c ∈ [' '], isBlank c := List.forall_mem_singleton.mpr rfl
  rw [keptPart_of_not_endsClosed (by rw [endsClosed_concat]; rfl), trimmed,
    trim_surround hspace hspace htrim.1 htrim.2, String.ofList_toList]

/-- **Media blocks** — a written media group is one `@media` block. -/
lemma isParagraph_mediaGroup (w : Writer) {g : MediaGroup}
    (hcondition : Clean.isValue g.condition.toList) (hrules : g.rules.all Style.isClean) :
    IsParagraph readStatements (w.mediaGroup g).toList
      [.media g.condition ((w.shown g.rules).map Statement.style)] := by
  refine ⟨by rw [toList_mediaGroup]; rfl, _, w.toList_mediaGroup g, fun t => ?_⟩
  obtain ⟨hstyles, hends⟩ := w.yields_styles hrules (t := '}' :: t) rfl
  have hcontent : Yields readStatements
      (['\n', '\n'] ++ (String.join (g.rules.map w.style)).toList) ('}' :: t)
      ((w.shown g.rules).map Statement.style) :=
    Yields.nil_append (yields_blanks_statements (by simp) (by decide) hends) hstyles
  obtain ⟨ds, hds, hread⟩ := hcontent.exists_braces fun _ => rfl
  have hspace : isGap [' '] := rfl
  obtain ⟨cs, e, hcs, he, hheader⟩ := exists_reads_header isName_media
    (Clean.isPiece_of_isValue (by decide) hcondition) hspace hspace (by simp)
    (t := '{' :: (['\n', '\n'] ++ (String.join (g.rules.map w.style)).toList) ++ ['}'] ++ t)
    (.cons rfl _)
  refine yields_of_header hcs hheader hds ?_
  simp only [readStatements] at hread
  rw [toLower_ofList (by decide), he, trimmed_keptPart_of_isValue hcondition, Component.braces,
    atRuleWithBlock, if_pos (by rfl), hread]
  rfl

/-! ## Keyframes blocks -/

/-- A style of a keyframes block that is not written has no text. -/
lemma step_eq_of_shownStep? {w : Writer} {s : Style} (h : w.shownStep? s = none) :
    w.step s = "" := by
  rw [← step_shownStep?, h]
  rfl

/-- A clean style of a keyframes block that is written is a paragraph. -/
lemma isParagraph_stepStyle {w : Writer} {s shown : Style} (hs : s.isCleanStep)
    (h : w.shownStep? s = some shown) : IsParagraph readSteps (w.step s).toList [shown] := by
  cases s with
  | step values children =>
    obtain rfl := Option.some.inj h
    rw [Style.isCleanStep, Bool.and_eq_true] at hs
    exact w.isParagraph_step hs.1 hs.2
  | comment text =>
    obtain ⟨hshow, rfl⟩ : w.hideComments = false ∧ .comment text = shown := by
      simpa [shownStep?] using h
    rw [step, freeComment, if_neg (by simp [hshow])]
    exact isParagraph_comment_steps hs
  | declaration => exact absurd h (by simp [shownStep?])
  | rule => exact absurd h (by simp [shownStep?])
  | atRule => exact absurd h (by simp [shownStep?])

/-- A keyframes block is its header, its steps in braces and an empty line. -/
lemma toList_keyframesBlock (w : Writer) (k : Keyframes) :
    (w.keyframesBlock k).toList =
      ('@' :: (k.vendor.toList ++ "keyframes".toList) ++ ([' '] ++ k.name.toList ++ [' '])) ++
        ('{' :: (['\n', '\n'] ++ (String.join (k.steps.map w.step)).toList) ++ ['}']) ++
          ['\n', '\n'] := by
  simp [keyframesBlock]

/-- **Keyframes blocks** — a clean keyframes block yields what is written of it. -/
lemma isParagraph_keyframesBlock (w : Writer) {k : Keyframes} (hk : k.isClean) :
    IsParagraph readStatements (w.keyframesBlock k).toList [.keyframes (w.shownKeyframes k)] := by
  simp only [Keyframes.isClean, Bool.and_eq_true] at hk
  obtain ⟨⟨hvendor, hname⟩, hsteps⟩ := hk
  refine ⟨by rw [toList_keyframesBlock]; rfl, _, w.toList_keyframesBlock k, fun t => ?_⟩
  obtain ⟨hwritten, hends⟩ := yields_paragraphs skipsBlanks_readSteps
    (fun _ _ => step_eq_of_shownStep?)
    (fun s hmem _ => isParagraph_stepStyle (w := w) (List.all_eq_true.mp hsteps s hmem))
    (t := '}' :: t) rfl
  have hcontent : Yields readSteps
      (['\n', '\n'] ++ (String.join (k.steps.map w.step)).toList) ('}' :: t)
      (k.steps.filterMap w.shownStep?) :=
    Yields.nil_append (yields_blanks_steps (by simp) (by decide) hends) hwritten
  obtain ⟨ds, hds, hread⟩ := hcontent.exists_braces fun _ => rfl
  have hspace : isGap [' '] := rfl
  obtain ⟨cs, e, hcs, he, hheader⟩ := exists_reads_header (Clean.isName_of_isVendor hvendor)
    (Clean.isPiece_of_isFlat (by decide) hname) hspace hspace (by simp)
    (t := '{' :: (['\n', '\n'] ++ (String.join (k.steps.map w.step)).toList) ++ ['}'] ++ t)
    (.cons rfl _)
  refine yields_of_header hcs hheader hds ?_
  simp only [readSteps] at hread
  rw [Clean.toLower_of_isVendor hvendor, he, trimmed_keptPart_of_isFlat hspace hspace hname,
    Component.braces, atRuleWithBlock, if_neg (Clean.append_keyframes_ne_media _),
    Clean.vendor?_append_keyframes hvendor, hread, String.ofList_toList]
  rfl

end StyleSplit.Writer
