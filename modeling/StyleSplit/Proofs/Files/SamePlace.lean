import StyleSplit.Proofs.Files.Creation
set_option autoImplicit false

/-!
# Paths that meet

Two paths meet in a tree if they lead to the same place. If both lead anywhere, this is settled by
their texts and the working directory alone: a path names a place by the segments that it takes from
the root or from the working directory. Paths with the same components always meet, and so do a
relative path and an absolute one to the same file; paths to names meet only if the names are the
same and the directories around them meet.

## Main definitions

* `StyleSplit.FileTree.SamePlace` — paths that lead to the same file or directory.
* `StyleSplit.FileTree.resolve` — the place that a path names.
* `StyleSplit.Path.directory` — the directory around what a path leads to.

## Main results

* `StyleSplit.FileTree.eq_resolve_of_reach` — a path leads to the place that it names, or nowhere.
* `StyleSplit.FileTree.samePlace_iff_resolve` — when paths that lead somewhere meet.
* `StyleSplit.FileTree.resolve_eq_of_components` — paths with the same components.
* `StyleSplit.FileTree.place?_directory` — the place of the directory.
-/

namespace StyleSplit

open FileTree

variable {t : FileTree} {p q : Path} {place : Place} {before : List String} {name : String}

/-- **Meeting paths** — both lead to the same file or to the same directory. -/
def FileTree.SamePlace (t : FileTree) (p q : Path) : Prop :=
  ∃ place, t.place? p = some place ∧ t.place? q = some place

lemma FileTree.SamePlace.symm (h : t.SamePlace p q) : t.SamePlace q p := by
  obtain ⟨place, hp, hq⟩ := h
  exact ⟨place, hq, hp⟩

lemma FileTree.samePlace_iff (hp : t.place? p = some place) :
    t.SamePlace p q ↔ t.place? q = some place := by
  constructor
  · rintro ⟨other, hother, hq⟩
    rw [hq, ← hother, hp]
  · exact fun hq => ⟨place, hp, hq⟩

/-! ## Resolution -/

namespace FileTree

/-- **Resolution** — the place that a path names, from the root or from the working directory. -/
def resolve (t : FileTree) (p : Path) : Place :=
  p.segments.foldl Place.go (t.startOf p)

lemma eq_foldl_go_of_walk {start : Place} {segments : List String}
    (h : t.walk start segments = .ok place) : place = segments.foldl Place.go start := by
  rw [walk_eq_foldlM] at h
  induction segments generalizing start with
  | nil => exact (Except.ok.inj h).symm
  | cons s more ih =>
    obtain ⟨next, hnext, hmore⟩ := bind_eq_ok_iff.mp (List.foldlM_cons.symm.trans h)
    rw [List.foldl_cons, ← eq_go_of_step hnext]
    exact ih hmore

/-- **A path leads to the place that it names**, if it leads anywhere. -/
lemma eq_resolve_of_reach (h : t.reach p = .ok place) : place = t.resolve p := by
  rw [reach, textError?_of_reach h] at h
  exact eq_foldl_go_of_walk h

lemma place?_eq_some_resolve (h : t.place? p = some place) : t.place? p = some (t.resolve p) := by
  rw [h, ← eq_resolve_of_reach (place?_eq_some_iff.mp h).1]

/-- Paths that lead somewhere meet if they name the same place. -/
theorem samePlace_iff_resolve {place' : Place} (hp : t.place? p = some place)
    (hq : t.place? q = some place') : t.SamePlace p q ↔ t.resolve p = t.resolve q := by
  rw [samePlace_iff (place?_eq_some_resolve hp), place?_eq_some_resolve hq, Option.some_inj]
  exact eq_comm

example :
    let t : FileTree := { entries := [], origin := ["w"] }
    ["out", "./out", "../w/out", "/w/out", "/../w//out/."].map (fun p => t.resolve ⟨p⟩) =
      List.replicate 5 ["w", "out"] := by
  decide +kernel

end FileTree

/-! ## Components -/

namespace Path

/-- The segments that name something. -/
def names (p : Path) : List String :=
  p.segments.filter (!isIdle ·)

/-- The name at the end is one of them. -/
lemma EndsWith.names (hp : p.EndsWith before name) :
    p.names = before.filter (!Path.isIdle ·) ++ [name] := by
  rw [Path.names, hp.segments, List.filter_append, List.filter_cons_of_pos (by simp [hp.isIdle]),
    List.filter_nil]

/-- A slash is no segment; as a component it stands for the root. -/
lemma ne_slash_of_mem_segments {s : String} (hs : s ∈ p.segments) : s ≠ "/" := by
  rintro rfl
  exact slash_notMem_of_mem_segments hs (by decide)

/-- The names are the components without the root and the dot in front. -/
lemma names_eq (p : Path) : p.names = p.components.filter fun s => !isIdle s && s != "/" := by
  have hslash : ∀ s ∈ p.segments, s ≠ "/" := fun _ => ne_slash_of_mem_segments
  have hnames : ∀ l : List String, (∀ s ∈ l, s ≠ "/") →
      (l.filter (!isIdle ·)).filter (fun s => !isIdle s && s != "/") = l.filter (!isIdle ·) := by
    intro l hl
    refine List.filter_eq_self.mpr fun s hs => ?_
    obtain ⟨hmem, hidle⟩ := List.mem_filter.mp hs
    rw [hidle, Bool.true_and, bne_iff_ne]
    exact hl s hmem
  obtain ⟨s, more, hs⟩ := List.exists_cons_of_ne_nil p.segments_ne_nil
  rw [hs, List.forall_mem_cons] at hslash
  have hempty : isIdle "" = true := by decide
  rw [names, components, hs]
  dsimp only
  rw [List.filter_append, hnames more hslash.2]
  by_cases h : s = ""
  · rw [if_pos h, h, List.filter_cons_of_neg (by simp [hempty])]
    split <;> rfl
  · rw [if_neg h, List.filter_cons, List.filter_cons]
    have hne : (s != "/") = true := bne_iff_ne.mpr hslash.1
    rw [hne, Bool.and_true]
    split <;> rfl

lemma isAbsolute_iff_components : p.isAbsolute = true ↔ p.components.head? = some "/" := by
  have hslash : ∀ s ∈ p.segments, s ≠ "/" := fun _ => ne_slash_of_mem_segments
  obtain ⟨s, more, hs⟩ := List.exists_cons_of_ne_nil p.segments_ne_nil
  rw [hs, List.forall_mem_cons] at hslash
  rw [components, hs]
  dsimp only
  by_cases h : s = ""
  · rw [if_pos h]
    cases habsolute : p.isAbsolute with
    | true => simp
    | false =>
      -- an empty path has no components
      have hmore : more = [] := by
        by_contra hmore
        obtain ⟨r, rest, rfl⟩ := List.exists_cons_of_ne_nil hmore
        rw [isAbsolute_iff.mpr ⟨r, rest, by rw [hs, h]⟩] at habsolute
        exact Bool.noConfusion habsolute
      simp [hmore]
  · rw [if_neg h]
    have hrelative : p.isAbsolute = false := by
      by_contra habsolute
      obtain ⟨r, rest, hr⟩ := isAbsolute_iff.mp (by simpa using habsolute)
      exact h (List.cons.inj (hs.symm.trans hr)).1
    simp [hrelative, hslash.1]

/-- The directory around what the path leads to. A single name is in the working directory. -/
def directory (p : Path) : Path :=
  (p.parent?.filter (·.text != "")).getD ⟨"."⟩

/-- The parent depends on the segments in front of the name only. -/
lemma EndsWith.parent?_eq {name' : String} (hp : p.EndsWith before name)
    (hq : q.EndsWith before name') : p.parent? = q.parent? := by
  rw [parent?, parent?, hp.backward, hq.backward]
  cases before.reverse with
  | nil => simp [hp.ne_empty, hq.ne_empty]
  | cons s more => rfl

end Path

namespace FileTree

/-- Segments that name nothing lead nowhere else. -/
lemma foldl_go_filter (segments : List String) (start : Place) :
    (segments.filter (!Path.isIdle ·)).foldl Place.go start = segments.foldl Place.go start := by
  induction segments generalizing start with
  | nil => rfl
  | cons s more ih =>
    rw [List.foldl_cons, ← ih]
    by_cases hs : Path.isIdle s = true
    · rw [List.filter_cons_of_neg (by simp [hs]), Place.go, if_pos hs]
    · rw [List.filter_cons_of_pos (by simpa using hs), List.foldl_cons]

/-- **Components tell where a path leads** — paths with the same components name the same place. -/
lemma resolve_eq_of_components (h : p.components = q.components) : t.resolve p = t.resolve q := by
  have hnames : p.names = q.names := by rw [p.names_eq, q.names_eq, h]
  have habsolute : p.isAbsolute = q.isAbsolute := by
    rw [Bool.eq_iff_iff, Path.isAbsolute_iff_components, Path.isAbsolute_iff_components, h]
  rw [resolve, resolve, ← foldl_go_filter p.segments, ← foldl_go_filter q.segments,
    startOf_congr habsolute]
  exact congrArg (List.foldl Place.go (t.startOf q)) hnames

/-! ## Directories -/

/-- **The directory of a name** — it leads to the place around that of the path. -/
lemma place?_directory (hp : p.EndsWith before name) (hdots : name ≠ "..")
    (h : t.reach p = .ok place) : t.place? p.directory = some place.dropLast := by
  have htext := textError?_of_reach h
  have hstep : ∀ {d : Place}, t.step d name = .ok place → d = place.dropLast := by
    intro d hd
    rw [eq_concat_of_step hp.isIdle hdots hd, List.dropLast_concat]
  obtain ⟨parent, hparent?, ⟨rfl, hempty⟩ | ⟨-, hparent⟩⟩ := hp.exists_parent
  · have hdirectory : p.directory = ⟨"."⟩ := by
      rw [Path.directory, hparent?, Option.filter_some_neg (by simp [hempty])]
      rfl
    rw [reach_of_single hp htext] at h
    rw [hdirectory, ← hstep h]
    exact place?_eq_some_iff.mpr ⟨reach_dot t, _, t.get?_origin⟩
  · have hdirectory : p.directory = parent := by
      rw [Path.directory, hparent?, Option.filter_some_pos (by simpa using hparent.ne_empty)]
      rfl
    rw [reach_of_isParent hp hparent htext] at h
    obtain ⟨d, hd, hstepd⟩ := bind_eq_ok_iff.mp h
    rw [hdirectory, ← hstep hstepd]
    exact place?_eq_some_iff.mpr ⟨hd, _, get?_of_step hstepd⟩

end FileTree

end StyleSplit
