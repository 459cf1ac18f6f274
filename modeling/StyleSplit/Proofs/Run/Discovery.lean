import StyleSplit.Proofs.Files.Shape
import StyleSplit.Run.Discovery
set_option autoImplicit false

/-!
# What discovery finds

Discovery finds files, and it does not look at what is in them: in trees of the same shape it finds
the same.

## Main results

* `StyleSplit.isFile_of_mem_discover` — the sources of a target are files.
* `StyleSplit.FileTree.SameShape.discover` — discovery in trees of the same shape.
-/

namespace StyleSplit

open FileTree

variable {t u : FileTree}

lemma isFile_iff {p : Path} :
    t.isFile p = true ↔ ∃ q c, t.reach p = .ok q ∧ t.get? q = some (.file c) := by
  simp only [← follow_eq_ok_iff]
  unfold isFile
  split
  · rename_i q c hq
    exact ⟨fun _ => ⟨q, c, hq⟩, fun _ => rfl⟩
  · rename_i hne
    constructor
    · exact fun h => absurd h (by simp)
    · rintro ⟨q, c, hq⟩
      exact absurd hq (hne q c)

/-- A path to a file goes on to lead to a file. -/
lemma FileTree.KeptIn.isFile {p : Path} (h : t.KeptIn u) (hp : t.isFile p = true) :
    u.isFile p = true := by
  obtain ⟨q, c, hreach, hget⟩ := isFile_iff.mp hp
  obtain ⟨c', hget'⟩ := h.file hget
  exact isFile_iff.mpr ⟨q, c', (reach_settled h p).ok hreach, hget'⟩

lemma mem_of_mem_distinctFrom {seen : List (List String)} {paths : List Path} {p : Path}
    (h : p ∈ distinctFrom seen paths) : p ∈ paths := by
  induction paths generalizing seen with
  | nil => exact h
  | cons q more ih =>
    rw [distinctFrom] at h
    split at h
    · exact List.mem_cons_of_mem q (ih h)
    · rcases List.mem_cons.mp h with rfl | h
      · exact List.mem_cons_self
      · exact List.mem_cons_of_mem q (ih h)

lemma mapM_eq_ok {α β ε : Type} {f : α → Except ε β} {l : List α} {ys : List β}
    (h : l.mapM f = .ok ys) : ∀ y ∈ ys, ∃ x ∈ l, f x = .ok y := by
  induction l generalizing ys with
  | nil =>
    obtain rfl := Except.ok.inj (show Except.ok [] = Except.ok ys from h)
    exact fun y hy => absurd hy List.not_mem_nil
  | cons x l ih =>
    rw [List.mapM_cons] at h
    cases hx : f x with
    | error e =>
      rw [hx] at h
      exact absurd (show Except.error e = Except.ok ys from h) (by simp)
    | ok y =>
      cases hl : l.mapM f with
      | error e =>
        rw [hx, hl] at h
        exact absurd (show Except.error e = Except.ok ys from h) (by simp)
      | ok rest =>
        rw [hx, hl] at h
        obtain rfl := Except.ok.inj (show Except.ok (y :: rest) = Except.ok ys from h)
        intro z hz
        rcases List.mem_cons.mp hz with rfl | hz
        · exact ⟨x, List.mem_cons_self, hx⟩
        · obtain ⟨x', hx', hfx⟩ := ih hl z hz
          exact ⟨x', List.mem_cons_of_mem x hx', hfx⟩

/-- The sources of a target are files. -/
lemma isFile_of_mem_discover {target : Target} {sources : List SourceFile}
    (h : discover t target = .ok sources) {s : SourceFile} (hs : s ∈ sources) :
    t.isFile s.path = true := by
  unfold discover at h
  cases hfound : target.sources.mapM (filesOf t) with
  | error f =>
    rw [hfound] at h
    exact absurd (show Except.error f = Except.ok sources from h) (by simp)
  | ok found =>
    rw [hfound] at h
    dsimp only [bind, Except.bind] at h
    have hmem : ∃ p ∈ distinct found.flatten, s.path = p := by
      split at h
      · exact absurd h (by simp)
      · obtain ⟨p, hp, rfl⟩ := List.mem_map.mp (Except.ok.inj h ▸ hs)
        exact ⟨p, hp, rfl⟩
    obtain ⟨p, hp, heq⟩ := hmem
    obtain ⟨paths, hpaths, hmem⟩ := List.mem_flatten.mp (mem_of_mem_distinctFrom hp)
    obtain ⟨pattern, -, hpattern⟩ := mapM_eq_ok hfound paths hpaths
    unfold filesOf at hpattern
    split at hpattern
    · exact absurd hpattern (by simp)
    · rw [← Except.ok.inj hpattern, List.mem_filter] at hmem
      rw [heq]
      exact hmem.2

/-! ## Trees of the same shape -/

namespace FileTree.SameShape

lemma isDirectory (h : t.SameShape u) : u.isDirectory = t.isDirectory := by
  funext p
  rw [Bool.eq_iff_iff, isDirectory_iff, isDirectory_iff]
  simp only [← kind?_eq_directory_iff, h.kind?, h.reach]

lemma isFile (h : t.SameShape u) : u.isFile = t.isFile := by
  funext p
  rw [Bool.eq_iff_iff, isFile_iff, isFile_iff]
  simp only [exists_and_left, ← kind?_eq_file_iff, h.kind?, h.reach]

lemma isThere (h : t.SameShape u) : u.isThere = t.isThere := by
  have hplace : ∀ (v : FileTree) (p : Path), v.isThere p = (v.place? p).isSome := fun v p => by
    rw [FileTree.isThere, FileTree.place?, Option.isSome_map]
  funext p
  rw [hplace, hplace, h.place?]

lemma children (h : t.SameShape u) : u.children = t.children := by
  have hplaces : u.entries.map Prod.fst = t.entries.map Prod.fst := by
    have hshape := congrArg (List.map Prod.fst) h.shape_eq
    rwa [shape, shape, List.map_map, List.map_map] at hshape
  have hahead : u.ahead? = t.ahead? := by
    funext p
    rw [ahead?, ahead?, isAround, isAround, h.origin_eq]
  funext p
  rw [FileTree.children, FileTree.children, hahead, hplaces]

lemma list (h : t.SameShape u) : u.list = t.list := by
  have hlist : ∀ (v : FileTree) (p : Path), v.list p =
      if v.isDirectory p then (v.place? p).elim [] v.children else [] := by
    intro v p
    rw [FileTree.list, FileTree.isDirectory, FileTree.place?]
    cases v.follow p with
    | error e => rfl
    | ok x =>
      obtain ⟨place, e⟩ := x
      cases e <;> rfl
  funext p
  rw [hlist, hlist, h.isDirectory, h.place?, h.children]

lemma descendantsWith (h : t.SameShape u) : u.descendantsWith = t.descendantsWith := by
  have hbound : u.depthBound = t.depthBound := by
    have hlength := congrArg List.length h.shape_eq
    rw [shape, shape, List.length_map, List.length_map] at hlength
    rw [depthBound, depthBound, hlength, h.origin_eq]
  have hdescendants : ∀ depth, u.descendants depth = t.descendants depth := by
    intro depth
    induction depth with
    | zero =>
      funext p
      rfl
    | succ depth ih =>
      funext p
      rw [descendants, descendants, h.list, ih]
  funext accepts paths
  rw [FileTree.descendantsWith, FileTree.descendantsWith, hbound, hdescendants]

lemma expandSegment (h : t.SameShape u) : u.expandSegment = t.expandSegment := by
  funext segment path
  unfold FileTree.expandSegment
  rw [h.isDirectory, h.isThere, h.list]

lemma expandFrom (h : t.SameShape u) (segments : List Segment) (paths : List Path) :
    u.expandFrom segments paths = t.expandFrom segments paths := by
  fun_induction FileTree.expandFrom t segments paths with
  | case1 paths => rw [FileTree.expandFrom]
  | case2 paths => rw [FileTree.expandFrom, h.descendantsWith, h.isDirectory]
  | case3 more paths ih => rw [FileTree.expandFrom, ih]
  | case4 segment more paths hsegment ih =>
    rw [FileTree.expandFrom, h.descendantsWith, ih]
    exact hsegment
  | case5 segment more paths hend hdepth hsegment ih =>
    rw [FileTree.expandFrom, h.expandSegment, ih]
    · exact hend
    · exact hdepth
    · exact hsegment

/-- Discovery does not look at what is in files. -/
lemma discover (h : t.SameShape u) (target : Target) :
    StyleSplit.discover u target = StyleSplit.discover t target := by
  have hfiles : filesOf u = filesOf t := by
    funext pattern
    unfold filesOf expand
    simp only [h.isFile, h.isDirectory, h.expandFrom]
  rw [StyleSplit.discover, StyleSplit.discover, hfiles]

end FileTree.SameShape

end StyleSplit
