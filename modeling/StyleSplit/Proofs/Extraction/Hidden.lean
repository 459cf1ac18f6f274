import StyleSplit.Proofs.Extraction.Collections
import StyleSplit.Proofs.Sheet.Kept
set_option autoImplicit false

/-!
# Hidden comments

If comments are left out, a bucket is made of the texts that the sheet keeps and of fixed signs
between them, in which no comment is opened. So one is opened in a bucket exactly if it is opened in
a text, and that happens only in brackets and in the blocks of at-rules that are kept verbatim.

## Main definitions

* `StyleSplit.Frames` — texts made of given texts and of signs between them.
* `StyleSplit.Classification.texts`, `StyleSplit.Classification.bodies` — the texts of the parts.

## Main results

* `StyleSplit.Writer.frames_base`, `StyleSplit.Writer.frames_mediaGroup`,
  `StyleSplit.Writer.frames_keyframes` — the texts of the parts.
* `StyleSplit.Classification.opensComment_extract_iff` — the buckets in which a comment is opened.
* `StyleSplit.Sheet.extract_hideComments` — what is left of the comments of an unquoted text.
-/

namespace StyleSplit

open Css

/-! ## Texts between signs -/

/-- Signs that may stand between texts: none of them is a part of the mark that opens a comment. -/
def isSign (s : String) : Bool :=
  !s.toList.isEmpty && s.toList.all fun c => c != '/' && c != '*'

/-- **Frames** — a text is made of given texts and of signs between them: a comment is opened in it
exactly if one is opened in a given text, and no mark can begin at its end. -/
structure Frames (s : String) (texts : List String) : Prop where
  opens_iff : opensComment s.toList ↔ ∃ t ∈ texts, opensComment t.toList
  last_ne : s.toList.getLast? ≠ some '/'

namespace Frames

variable {s s' : String} {texts texts' : List String}

lemma nil : Frames "" [] :=
  ⟨by simp, by simp⟩

lemma append (h : Frames s texts) (h' : Frames s' texts') : Frames (s ++ s') (texts ++ texts') where
  opens_iff := by
    rw [String.toList_append, opensComment_append fun hlast => absurd hlast h.last_ne,
      Bool.or_eq_true, h.opens_iff, h'.opens_iff]
    simp [or_and_right, exists_or]
  last_ne := by
    rw [String.toList_append, List.getLast?_append]
    cases hlast : s'.toList.getLast? with
    | none => simpa using h.last_ne
    | some c => simpa [hlast] using h'.last_ne

end Frames

section

variable {g : String} (hg : isSign g)

include hg

lemma slash_notMem_of_isSign : '/' ∉ g.toList := by
  rw [isSign, Bool.and_eq_true, List.all_eq_true] at hg
  intro h
  exact absurd (hg.2 _ h) (by decide)

/-- A sign goes on with no mark. -/
lemma head?_ne_of_isSign : g.toList.head? ≠ some '*' := by
  rw [isSign, Bool.and_eq_true, List.all_eq_true] at hg
  intro h
  exact absurd (hg.2 _ (List.mem_of_head? h)) (by decide)

namespace Frames

/-- Signs alone. -/
lemma sign : Frames g [] where
  opens_iff := by simp [opensComment_eq_false_of_notMem (slash_notMem_of_isSign hg)]
  last_ne := fun h => slash_notMem_of_isSign hg (List.mem_of_getLast? h)

/-- A text with a sign behind it. -/
lemma text (s : String) : Frames (s ++ g) [s] where
  opens_iff := by
    rw [String.toList_append, opensComment_append fun _ => head?_ne_of_isSign hg,
      opensComment_eq_false_of_notMem (slash_notMem_of_isSign hg)]
    simp
  last_ne := by
    rw [isSign, Bool.and_eq_true, Bool.not_eq_true', List.isEmpty_eq_false_iff] at hg
    rw [String.toList_append, List.getLast?_append_of_ne_nil _ hg.1]
    exact (sign (by simpa [isSign] using hg)).last_ne

/-- Texts with signs between them and a sign behind the last one. -/
lemma intercalate {separator : String} (hseparator : isSign separator) (texts : List String) :
    Frames (separator.intercalate texts ++ g) texts := by
  induction texts with
  | nil => simpa using sign hg
  | cons s texts ih =>
    cases texts with
    | nil => simpa using text hg s
    | cons t texts =>
      rw [String.intercalate_cons_cons, String.append_assoc]
      exact (text hseparator s).append ih

end Frames

end

/-- A comment that is opened in a text with signs between its parts is opened in one of them. -/
lemma exists_opensComment_of_intercalate {separator : String} {texts : List String}
    (hseparator : isSign separator) (h : opensComment (separator.intercalate texts).toList) :
    ∃ s ∈ texts, opensComment s.toList := by
  rw [← (Frames.intercalate hseparator hseparator texts).opens_iff]
  by_contra hnone
  rw [Bool.not_eq_true] at hnone
  rw [opensComment_eq_false_of_isInfix ?_ hnone] at h
  · exact Bool.false_ne_true h
  · rw [String.toList_append]
    exact (List.prefix_append _ _).isInfix

/-- Texts one after the other. -/
lemma Frames.join {α : Type} {write : α → String} {texts : α → List String} {xs : List α}
    (h : ∀ x ∈ xs, Frames (write x) (texts x)) :
    Frames (String.join (xs.map write)) (xs.flatMap texts) := by
  induction xs with
  | nil => exact .nil
  | cons x xs ih =>
    obtain ⟨hx, hxs⟩ := List.forall_mem_cons.mp h
    rw [List.map_cons, String.join_cons, List.flatMap_cons]
    exact hx.append (ih hxs)

/-! ## The texts of the parts -/

/-- The texts of a style in a rule list, and its block if it is an at-rule. -/
def Style.allTexts (s : Style) : List String :=
  s.texts ++ s.body?.toList

/-- The texts of a media group, with such blocks. -/
def MediaGroup.texts (g : MediaGroup) : List String :=
  g.condition :: g.rules.flatMap Style.allTexts

namespace Writer

/-- The header of an at-rule with a sign behind it. -/
lemma frames_atRule_header (name prelude : String) {g : String} (hg : isSign g) :
    Frames ("@" ++ name ++ (if prelude = "" then "" else " " ++ prelude) ++ g) [name, prelude] := by
  have hat : Frames "@" [] := .sign (by decide)
  split_ifs with hprelude
  · have hempty : Frames "" [""] := ⟨by simp, by simp⟩
    simpa [hprelude, String.append_assoc] using hat.append ((Frames.text hg name).append hempty)
  · have hname : Frames (name ++ " ") [name] := .text (by decide) name
    simpa [String.append_assoc] using hat.append (hname.append (.text hg prelude))

lemma frames_atRule (name prelude : String) (block : Option String) :
    Frames (atRuleText name prelude block) (Style.atRule name prelude block).allTexts := by
  cases block with
  | none => exact frames_atRule_header name prelude (by decide)
  | some body =>
    have hheader := frames_atRule_header name prelude (g := " \x7b") (by decide)
    have hbody : Frames (body ++ "\x7d\n\n") [body] := .text (by decide) body
    simpa [atRuleText, Style.allTexts, Style.texts, Style.body?, String.append_assoc] using
      hheader.append hbody

variable {w : Writer} (hw : w.hideComments = true)

include hw

lemma frames_line (s : Style) : Frames (w.line s) s.lineTexts := by
  cases s with
  | comment text => simpa [line, hw, Style.lineTexts] using Frames.nil
  | declaration property value =>
    have hindent : Frames "\n\t" [] := .sign (by decide)
    have hproperty : Frames (property ++ ": ") [property] := .text (by decide) property
    have hvalue : Frames (value ++ ";") [value] := .text (by decide) value
    simpa [line, declarationText, Style.lineTexts, String.append_assoc] using
      hindent.append (hproperty.append hvalue)
  | rule | step | atRule => exact .nil

/-- The items before a block, and the block. -/
lemma frames_block {separator : String} (hseparator : isSign separator) (items : List String)
    (children : List Style) :
    Frames (w.block (separator.intercalate items) children)
      (items ++ children.flatMap Style.lineTexts) := by
  have hitems : Frames (separator.intercalate items ++ " \x7b") items :=
    .intercalate (by decide) hseparator items
  have hlines := Frames.join fun s (_ : s ∈ children) => frames_line hw s
  have hend : Frames "\n\x7d\n\n" [] := .sign (by decide)
  simpa [block, String.append_assoc] using hitems.append (hlines.append hend)

lemma frames_style (s : Style) : Frames (w.style s) s.allTexts := by
  cases s with
  | comment text =>
    simpa [style, freeComment, hw, Style.allTexts, Style.texts, Style.body?] using Frames.nil
  | declaration | step => exact .nil
  | rule selectors children =>
    simpa [style, Style.allTexts, Style.texts, Style.body?] using
      frames_block hw (by decide) selectors children
  | atRule name prelude block => exact frames_atRule name prelude block

lemma frames_step (s : Style) : Frames (w.step s) s.stepTexts := by
  cases s with
  | comment text => simpa [step, freeComment, hw, Style.stepTexts] using Frames.nil
  | declaration | rule | atRule => exact .nil
  | step values children => exact frames_block hw (by decide) values children

/-- **The base part** frames the texts of its styles. -/
lemma frames_base (styles : List Style) : Frames (w.base styles) (styles.flatMap Style.allTexts) :=
  .join fun s _ => frames_style hw s

/-- **A media group** frames its condition and the texts of its styles. -/
lemma frames_mediaGroup (g : MediaGroup) :
    Frames (w.mediaGroup g) g.texts := by
  have hat : Frames "@media " [] := .sign (by decide)
  have hcondition : Frames (g.condition ++ " \x7b\n\n") [g.condition] := .text (by decide) _
  have hend : Frames "\x7d\n\n" [] := .sign (by decide)
  have hrules := frames_base hw g.rules
  simpa [mediaGroup, MediaGroup.texts, base, String.append_assoc] using
    hat.append (hcondition.append (hrules.append hend))

lemma frames_keyframesBlock (k : Keyframes) : Frames (w.keyframesBlock k) k.texts := by
  have hat : Frames "@" [] := .sign (by decide)
  have hvendor : Frames (k.vendor ++ "keyframes ") [k.vendor] := .text (by decide) _
  have hname : Frames (k.name ++ " \x7b\n\n") [k.name] := .text (by decide) _
  have hsteps := Frames.join fun s (_ : s ∈ k.steps) => frames_step hw s
  have hend : Frames "\x7d\n\n" [] := .sign (by decide)
  simpa [keyframesBlock, Keyframes.texts, String.append_assoc] using
    hat.append (hvendor.append (hname.append (hsteps.append hend)))

/-- **The keyframes part** frames the texts of its blocks. -/
lemma frames_keyframes (blocks : List Keyframes) :
    Frames (w.keyframes blocks) (blocks.flatMap Keyframes.texts) :=
  .join fun k _ => frames_keyframesBlock hw k

end Writer

/-! ## The buckets -/

namespace Classification

variable (parts : Classification)

/-- The styles of the base and of the media groups. -/
def styles : List Style :=
  parts.base ++ parts.groups.flatMap (·.rules)

/-- **The texts** of the parts, without the blocks of at-rules that are kept verbatim. -/
def texts : List String :=
  parts.styles.flatMap Style.texts ++ parts.groups.map (·.condition) ++
    parts.keyframes.flatMap Keyframes.texts

/-- **The blocks** of the at-rules that are kept verbatim. -/
def bodies : List String :=
  parts.styles.filterMap Style.body?

variable {parts}

/-- Each text and each block belongs to the base, to a media group or to the keyframes. -/
lemma mem_texts_append_bodies {s : String} : s ∈ parts.texts ++ parts.bodies ↔
    s ∈ parts.base.flatMap Style.allTexts ++ parts.groups.flatMap MediaGroup.texts ++
      parts.keyframes.flatMap Keyframes.texts := by
  have hstyles : s ∈ parts.styles.flatMap Style.texts ∨ s ∈ parts.bodies ↔
      s ∈ parts.styles.flatMap Style.allTexts := by
    simp only [bodies, List.mem_flatMap, List.mem_filterMap, Style.allTexts, List.mem_append,
      Option.mem_toList, and_or_left, exists_or]
  have hsplit : s ∈ parts.styles.flatMap Style.allTexts ↔ s ∈ parts.base.flatMap Style.allTexts ∨
      ∃ g ∈ parts.groups, s ∈ g.rules.flatMap Style.allTexts := by
    rw [styles, List.flatMap_append, List.mem_append, List.flatMap_assoc]
    exact or_congr_right List.mem_flatMap
  have hgroups : s ∈ parts.groups.flatMap MediaGroup.texts ↔
      s ∈ parts.groups.map (·.condition) ∨
        ∃ g ∈ parts.groups, s ∈ g.rules.flatMap Style.allTexts := by
    simp only [List.mem_flatMap, MediaGroup.texts, List.mem_cons, List.mem_map, and_or_left,
      exists_or, eq_comm]
  simp only [texts, List.mem_append, hgroups]
  grind

variable {options : Options}

/-- A collection brings in nothing that is not in the base or in a media bucket. -/
lemma opensComment_collectionBuckets
    (h : ∃ b ∈ parts.collectionBuckets options, opensComment b.css.toList) :
    opensComment (parts.baseText options).toList ∨
      ∃ b ∈ parts.mediaBuckets options, opensComment b.css.toList := by
  obtain ⟨b, hb, hopens⟩ := h
  rw [collectionBuckets] at hb
  split_ifs at hb
  · obtain ⟨k, hk⟩ := List.mem_iff_getElem?.mp hb
    rw [collections, getElem?_collectionsFrom] at hk
    obtain ⟨g, -, rfl⟩ := Option.map_eq_some_iff.mp hk
    obtain ⟨s, hs, hopens⟩ := exists_opensComment_of_intercalate (by decide) hopens
    obtain hs | hs := List.mem_append.mp hs
    · refine .inl ?_
      split_ifs at hs
      · exact absurd hs List.not_mem_nil
      · rwa [← List.mem_singleton.mp hs]
    · obtain ⟨b, hb, rfl⟩ := List.mem_map.mp hs
      exact .inr ⟨b, List.mem_of_mem_take hb, hopens⟩
  · exact absurd hb List.not_mem_nil

section

variable (hhide : options.hideComments = true)

include hhide

lemma frames_baseText : Frames (parts.baseText options) (parts.base.flatMap Style.allTexts) :=
  Writer.frames_base hhide parts.base

/-- The base bucket is absent only if the base is empty. -/
lemma opensComment_baseBucket_iff : (∃ b ∈ parts.baseBucket options, opensComment b.css.toList) ↔
    ∃ s ∈ parts.base.flatMap Style.allTexts, opensComment s.toList := by
  rw [← (frames_baseText hhide).opens_iff, baseBucket]
  cases hbase : parts.base with
  | nil => simp [baseText, Writer.base, hbase]
  | cons => simp

lemma opensComment_mediaBuckets_iff :
    (∃ b ∈ parts.mediaBuckets options, opensComment b.css.toList) ↔
      ∃ s ∈ parts.groups.flatMap MediaGroup.texts, opensComment s.toList := by
  have hframes : ∀ g, _ := fun g =>
    (Writer.frames_mediaGroup (w := ⟨options.hideComments⟩) hhide g).opens_iff
  simp only [mediaBuckets, List.mem_map, exists_exists_and_eq_and, mem_sortedGroups, hframes,
    List.mem_flatMap]
  grind

/-- The keyframes bucket is absent only if there are no keyframes. -/
lemma opensComment_keyframesBucket_iff :
    (∃ b ∈ parts.keyframesBucket options, opensComment b.css.toList) ↔
      ∃ s ∈ parts.keyframes.flatMap Keyframes.texts, opensComment s.toList := by
  rw [← (Writer.frames_keyframes (w := ⟨options.hideComments⟩) hhide _).opens_iff, keyframesBucket]
  cases hkeyframes : parts.keyframes with
  | nil => simp [Writer.keyframes]
  | cons => simp

/-- **The buckets** — a comment is opened in a bucket exactly if one is opened in a text or in a
block of the parts. -/
lemma opensComment_extract_iff :
    (∃ b ∈ (parts.extract options).buckets, opensComment b.css.toList) ↔
      ∃ s ∈ parts.texts ++ parts.bodies, opensComment s.toList := by
  have hcollections : (∃ b ∈ parts.collectionBuckets options, opensComment b.css.toList) →
      (∃ b ∈ parts.baseBucket options, opensComment b.css.toList) ∨
        ∃ b ∈ parts.mediaBuckets options, opensComment b.css.toList := fun h => by
    rw [opensComment_baseBucket_iff hhide, ← (frames_baseText hhide).opens_iff]
    exact opensComment_collectionBuckets h
  calc (∃ b ∈ (parts.extract options).buckets, opensComment b.css.toList) ↔
      (∃ b ∈ parts.baseBucket options, opensComment b.css.toList) ∨
        (∃ b ∈ parts.mediaBuckets options, opensComment b.css.toList) ∨
        ∃ b ∈ parts.keyframesBucket options, opensComment b.css.toList := by
        simp only [extract, List.mem_append, or_and_right, exists_or]
        rw [or_iff_left_of_imp fun h => .inl (hcollections h), or_assoc]
    _ ↔ (∃ s ∈ parts.base.flatMap Style.allTexts, opensComment s.toList) ∨
        (∃ s ∈ parts.groups.flatMap MediaGroup.texts, opensComment s.toList) ∨
        ∃ s ∈ parts.keyframes.flatMap Keyframes.texts, opensComment s.toList := by
        rw [opensComment_baseBucket_iff hhide, opensComment_mediaBuckets_iff hhide,
          opensComment_keyframesBucket_iff hhide]
    _ ↔ ∃ s ∈ parts.texts ++ parts.bodies, opensComment s.toList := by
        simp only [mem_texts_append_bodies]
        simp only [List.mem_append, or_and_right, exists_or, or_assoc]

end

/-! ## Where the texts come from -/

/-- The texts of the parts are texts of the statements. -/
lemma mem_of_mem_texts_classify {statements : List Statement} {s : String}
    (h : s ∈ (classify statements).texts) : s ∈ statements.flatMap Statement.texts := by
  simp only [texts, styles, List.mem_append, List.mem_flatMap, List.mem_map] at h
  rcases h with (⟨x, hx | ⟨g, hg, hx⟩, hs⟩ | ⟨g, hg, rfl⟩) | ⟨k, hk, hs⟩
  · exact List.mem_flatMap.mpr ⟨_, (mem_of_mem_base_classify hx).1, hs⟩
  · obtain ⟨condition, body, hmedia, hrules⟩ := exists_media_of_mem_rules hg hx
    refine List.mem_flatMap.mpr ⟨_, hmedia, ?_⟩
    exact List.mem_cons_of_mem _ (List.mem_flatMap.mpr ⟨x, hrules, hs⟩)
  · obtain ⟨body, hmedia⟩ := exists_media_of_mem_groups hg
    exact List.mem_flatMap.mpr ⟨_, hmedia, List.mem_cons_self⟩
  · exact List.mem_flatMap.mpr ⟨_, mem_of_mem_keyframes_classify hk, hs⟩

end Classification

/-! ## Extracting without comments -/

/-- **Hidden comments** — what is left of the comments of an unquoted text if they are left out.

A bucket opens a comment exactly if one is opened in a text that the sheet keeps or in the block of
an at-rule that is kept verbatim. No kept text opens one in front of its first bracket, nor in front
of the first bracket of another kind than the `bare` ones, if these hold no comment in the text of
the sheet.

**Proof sketch.** Between the texts of a bucket there are fixed signs only, none of which is a part
of the mark. The readers cut out the comments among the components of a text, and in what is left of
an unquoted text a slash with a star behind it can only be a comment in brackets. -/
theorem Sheet.extract_hideComments {css : String} (hcss : IsUnquoted css.toList) {sheet : Sheet}
    (hparse : Sheet.parse css = .ok sheet) {options : Options}
    (hhide : options.hideComments = true) :
    let parts := classify sheet.statements
    ((∃ b ∈ (sheet.extract options).buckets, opensComment b.css.toList) ↔
      ∃ s ∈ parts.texts ++ parts.bodies, opensComment s.toList) ∧
    (∀ s ∈ parts.texts, isUncommented (fun _ => false) s.toList) ∧
    ∀ bare, componentsAreBare bare (components (lexemes (withoutMarks css.toList))) →
      ∀ s ∈ parts.texts, isUncommented bare s.toList := by
  intro parts
  have hkept : ∀ bare, componentsAreBare bare (components (lexemes (withoutMarks css.toList))) →
      ∀ s ∈ parts.texts, isUncommented bare s.toList := fun bare hbare s hs =>
    Sheet.parse_keeps hcss hbare hparse s (Classification.mem_of_mem_texts_classify hs)
  exact ⟨Classification.opensComment_extract_iff hhide,
    hkept _ (componentsAreBare_components _), hkept⟩

/-- A comment in the arguments of a function, and one behind them. -/
def Sheet.commentInArguments : String :=
  "a\x7bb:c(1 /*x*/) /*y*/ d\x7d"

/-- The comment in the arguments is left, and it is the text of the value that opens it. -/
theorem Sheet.extract_hideComments_arguments :
    let options : Options := { hideComments := true }
    IsUnquoted commentInArguments.toList ∧ ∃ sheet, Sheet.parse commentInArguments = .ok sheet ∧
      (sheet.extract options).buckets = [⟨"base", "a \x7b\n\tb: c(1 /*x*/)  d;\n\x7d\n\n"⟩] ∧
      (∃ s ∈ (classify sheet.statements).texts ++ (classify sheet.statements).bodies,
        opensComment s.toList) ∧
      ∀ s ∈ (classify sheet.statements).texts, isUncommented (fun _ => false) s.toList := by
  intro options
  have hcss : IsUnquoted commentInArguments.toList :=
    ⟨by decide, by decide, by decide, by decide⟩
  have hextract : (Sheet.parse commentInArguments).toOption.map (·.extract options) =
      some ⟨[⟨"base", "a \x7b\n\tb: c(1 /*x*/)  d;\n\x7d\n\n"⟩], 0⟩ := by decide +kernel
  cases hparse : Sheet.parse commentInArguments with
  | error e =>
    rw [hparse] at hextract
    exact nomatch hextract
  | ok sheet =>
    rw [hparse] at hextract
    have hbuckets := congrArg Extraction.buckets (Option.some.inj hextract)
    obtain ⟨hopens, hkept, -⟩ :=
      Sheet.extract_hideComments hcss hparse (show options.hideComments = true from rfl)
    rw [hbuckets] at hopens
    refine ⟨hcss, sheet, rfl, hbuckets, hopens.mp ⟨_, List.mem_singleton_self _, ?_⟩, hkept⟩
    decide

end StyleSplit
