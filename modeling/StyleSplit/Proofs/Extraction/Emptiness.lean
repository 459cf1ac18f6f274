import StyleSplit.Proofs.Extraction.Reread
import StyleSplit.Proofs.Extraction.Tags
set_option autoImplicit false

/-!
# Buckets without text

A sheet has a base bucket if some statement belongs to the base, while the collections begin with
the base if it has a text. The two differ on a base of nothing but comments, if comments are left
out: its bucket is written without text. No other bucket has none.

## Main definitions

* `StyleSplit.Classification.hidesBase` — bases of comments that are left out.

## Main results

* `StyleSplit.Classification.hidesBase_iff` — these are the bases without text.
* `StyleSplit.Classification.mem_baseBucket_iff` — a bucket is the base bucket by its tag.
* `StyleSplit.Sheet.extract_css_eq_empty` — when a bucket, and the file written of it, is empty.
-/

namespace StyleSplit

/-! ## Texts in another convention -/

namespace LineEnding

lemma collapse_eq_nil_iff {s : List Char} : collapse s = [] ↔ s = [] := by
  cases s with
  | nil => simp [collapse]
  | cons c r => unfold collapse; split <;> simp_all

lemma expand_eq_nil_iff {s : List Char} : expand s = [] ↔ s = [] := by
  cases s with
  | nil => simp
  | cons c r => rw [expand_cons]; split_ifs <;> simp

/-- A text has no line ends to convert if it is empty, and is not emptied otherwise. -/
lemma apply_eq_empty_iff {e : LineEnding} {text : String} : e.apply text = "" ↔ text = "" := by
  have hconvert : e.convert text.toList = [] ↔ text.toList = [] := by
    cases e <;> simp [convert, expand_eq_nil_iff, collapse_eq_nil_iff]
  simpa [apply] using hconvert

end LineEnding

/-! ## Bases without text -/

/-- Whether a style is a comment. -/
def Style.isComment : Style → Bool
  | .comment _ => true
  | .declaration .. | .rule .. | .step .. | .atRule .. => false

/-- Of the styles of the top level, only comments that are left out are not written. -/
lemma Writer.shown?_eq_none_iff {w : Writer} {s : Style} (hs : s.isTopLevel) :
    w.shown? s = none ↔ w.hideComments ∧ s.isComment := by
  cases s with
  | comment => cases h : w.hideComments <;> simp [shown?, Style.isComment, h]
  | rule => simp [shown?, Style.isComment]
  | atRule => simp [shown?, Style.isComment]
  | declaration => exact absurd hs (by simp [Style.isTopLevel])
  | step => exact absurd hs (by simp [Style.isTopLevel])

namespace Classification

/-- **Hidden bases** — a base that is made of comments, while comments are left out. -/
def hidesBase (parts : Classification) (options : Options) : Bool :=
  options.hideComments && !parts.base.isEmpty && parts.base.all Style.isComment

variable {parts : Classification} (h : parts.IsProper) {options : Options}

include h

/-- A base is hidden exactly if it has styles, but no text. -/
lemma hidesBase_iff :
    parts.hidesBase options ↔ parts.base ≠ [] ∧ parts.baseText options = "" := by
  have htext : parts.baseText options = "" ↔
      ∀ s ∈ parts.base, options.hideComments ∧ s.isComment := by
    rw [baseText, ← Writer.shown_eq_nil_iff, Writer.shown, List.filterMap_eq_nil_iff]
    exact forall₂_congr fun s hs => Writer.shown?_eq_none_iff (h.isTopLevel s hs)
  rw [htext, hidesBase]
  cases hbase : parts.base with
  | nil => simp
  | cons s base =>
    rw [List.forall_mem_cons]
    cases options.hideComments <;> simp

/-- A bucket is the base bucket, or has another tag and a text. -/
lemma mem_baseBucket_or {b : Bucket} (hb : b ∈ (parts.extract options).buckets) :
    b ∈ parts.baseBucket options ∨ b.tag ≠ Tag.base ∧ b.css ≠ "" := by
  simp only [extract, List.mem_append] at hb
  obtain ((hb | hb) | hb) | hb := hb
  · exact .inl hb
  · refine .inr ⟨fun hbase => ?_, css_ne_of_mem_mediaBuckets _ _ b hb⟩
    -- the identifier of a group is not taken, but `base` is
    obtain ⟨g, hg, rfl⟩ := List.mem_map.mp hb
    have hid : g.id = Condition.groupId g.condition :=
      congrArg MediaGroup.id (h.eq_ofCondition g (mem_sortedGroups.mp hg))
    have hfree : Tag.isTaken g.id = false := hid ▸ Condition.isTaken_groupId _
    rw [show g.id = Tag.base from hbase] at hfree
    exact absurd hfree (by decide)
  · refine .inr ⟨fun hbase => ?_, css_ne_of_mem_keyframesBucket _ _ b hb⟩
    rw [keyframesBucket] at hb
    split_ifs at hb
    · exact absurd hb List.not_mem_nil
    · obtain rfl := List.mem_singleton.mp hb
      exact absurd (show Tag.keyframes = Tag.base from hbase) (by decide)
  · refine .inr ⟨fun hbase => ?_, css_ne_of_mem_collectionBuckets _ _ b hb⟩
    rw [collectionBuckets] at hb
    split_ifs at hb
    · have hmem := List.mem_map_of_mem (f := Bucket.tag) hb
      rw [map_tag_collections, hbase] at hmem
      obtain ⟨g, -, heq⟩ := List.mem_map.mp hmem
      exact absurd heq (Tag.collection_ne_of_isPrefixOf (by decide))
    · exact absurd hb List.not_mem_nil

/-- No other bucket has the tag of the base bucket. -/
lemma mem_baseBucket_iff {b : Bucket} :
    b ∈ parts.baseBucket options ↔ b ∈ (parts.extract options).buckets ∧ b.tag = Tag.base := by
  constructor
  · intro hb
    refine ⟨by simp [extract, hb], ?_⟩
    rw [baseBucket] at hb
    split_ifs at hb
    · exact absurd hb List.not_mem_nil
    · rw [List.mem_singleton.mp hb]
  · rintro ⟨hb, hbase⟩
    exact (mem_baseBucket_or h hb).resolve_right fun hother => hother.1 hbase

/-- There is a base bucket if the base has styles. -/
lemma exists_tag_base_iff :
    (∃ b ∈ (parts.extract options).buckets, b.tag = Tag.base) ↔ parts.base ≠ [] := by
  simp only [← mem_baseBucket_iff h]
  rw [baseBucket]
  cases hbase : parts.base with
  | nil => simp
  | cons s base => simp

/-- The base bucket has the text that the collections begin with. -/
lemma css_of_tag_base {b : Bucket} (hb : b ∈ (parts.extract options).buckets)
    (hbase : b.tag = Tag.base) : b.css = parts.baseText options := by
  have hmem := (mem_baseBucket_iff h).mpr ⟨hb, hbase⟩
  rw [baseBucket] at hmem
  split_ifs at hmem
  · exact absurd hmem List.not_mem_nil
  · rw [List.mem_singleton.mp hmem]

/-- Only the bucket of a hidden base has no text. -/
lemma css_eq_empty_iff {b : Bucket} (hb : b ∈ (parts.extract options).buckets) :
    b.css = "" ↔ b.tag = Tag.base ∧ parts.hidesBase options := by
  constructor
  · intro hempty
    have hmem := (mem_baseBucket_or h hb).resolve_right fun hother => hother.2 hempty
    obtain ⟨-, hbase⟩ := (mem_baseBucket_iff h).mp hmem
    refine ⟨hbase, (hidesBase_iff h).mpr ⟨?_, css_of_tag_base h hb hbase ▸ hempty⟩⟩
    exact (exists_tag_base_iff h).mp ⟨b, hb, hbase⟩
  · rintro ⟨hbase, hhides⟩
    rw [css_of_tag_base h hb hbase, ((hidesBase_iff h).mp hhides).2]

end Classification

/-! ## Empty buckets -/

/-- **Empty buckets** — a sheet has a base bucket if some statement of the top level belongs to the
base, and the text of the bucket is the one that the collections begin with. That there is such a
bucket and that there is such a text comes to the same unless the base is hidden. Then its bucket,
and the file that is written of it, is empty; no other one ever is. -/
theorem Sheet.extract_css_eq_empty (sheet : Sheet) (options : Options) :
    let parts := classify sheet.statements
    let buckets := (sheet.extract options).buckets
    ((∃ b ∈ buckets, b.tag = Tag.base) ↔ ∃ t ∈ sheet.statements, t.base?.isSome) ∧
      (∀ b ∈ buckets, b.tag = Tag.base → b.css = parts.baseText options) ∧
      (((∃ b ∈ buckets, b.tag = Tag.base) ↔ parts.baseText options ≠ "") ↔
        parts.hidesBase options = false) ∧
      (parts.hidesBase options → ⟨Tag.base, ""⟩ ∈ buckets) ∧
      ∀ b ∈ buckets, (b.css = "" ↔ b.tag = Tag.base ∧ parts.hidesBase options) ∧
        ((options.lineEnding.apply b.css).toUTF8.size = 0 ↔ b.css = "") := by
  intro parts buckets
  have hproper : parts.IsProper := Classification.isProper_classify sheet.statements
  have hexists : (∃ b ∈ buckets, b.tag = Tag.base) ↔ parts.base ≠ [] :=
    Classification.exists_tag_base_iff hproper
  have hhides : parts.hidesBase options ↔ parts.base ≠ [] ∧ parts.baseText options = "" :=
    Classification.hidesBase_iff hproper
  have hbase : parts.base = sheet.statements.filterMap Statement.base? :=
    congrArg Classification.base (classify_eq sheet.statements)
  refine ⟨?_, fun b hb => Classification.css_of_tag_base hproper hb, ?_, fun h => ?_, fun b hb =>
    ⟨Classification.css_eq_empty_iff hproper hb, ?_⟩⟩
  · rw [hexists, hbase, Ne, List.filterMap_eq_nil_iff]
    simp [Option.isSome_iff_ne_none]
  · -- a base without styles has no text either
    have hnone : parts.base = [] → parts.baseText options = "" := fun hnil => by
      rw [Classification.baseText, hnil]
      rfl
    rw [hexists, ← Bool.not_eq_true, hhides]
    tauto
  · obtain ⟨b, hb, htag⟩ := hexists.mpr (hhides.mp h).1
    have hcss := (Classification.css_eq_empty_iff hproper hb).mpr ⟨htag, h⟩
    obtain ⟨tag, css⟩ := b
    obtain rfl : tag = Tag.base := htag
    obtain rfl : css = "" := hcss
    exact hb
  · rw [← LineEnding.apply_eq_empty_iff (e := options.lineEnding)]
    exact String.utf8ByteSize_eq_zero_iff

/-- A sheet with a comment and a media group. -/
def Sheet.commentOnly : Sheet where
  statements := [.style (.comment "a"), .media "print" []]

/-- If comments are left out, its base bucket is empty, and its collection does not begin with an
empty line. -/
theorem Sheet.extract_css_eq_empty_commentOnly :
    let options : Options := { hideComments := true, collections := true }
    (commentOnly.extract options).buckets = [⟨"base", ""⟩,
        ⟨"print", "@media print \x7b\n\n\x7d\n\n"⟩,
        ⟨"base_print", "@media print \x7b\n\n\x7d\n\n"⟩] ∧
      ¬ ((∃ b ∈ (commentOnly.extract options).buckets, b.tag = Tag.base) ↔
        (classify commentOnly.statements).baseText options ≠ "") := by
  intro options
  obtain ⟨-, -, hiff, -⟩ := commentOnly.extract_css_eq_empty options
  refine ⟨by decide +kernel, fun h => ?_⟩
  exact absurd (hiff.mp h) (by decide +kernel)

end StyleSplit
