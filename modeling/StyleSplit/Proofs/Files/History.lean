import StyleSplit.Proofs.Files.Kind
set_option autoImplicit false

/-!
# What was written to the files of a tree

A run creates directories and puts files, one after the other. Its history is the list of the files
that it put; what a file holds at the end follows from it: the content of the last write to the
file, or what the file held before if there is none.

## Main definitions

* `StyleSplit.Write` — a file that was put.
* `StyleSplit.FileTree.History` — a tree, what was written to it, and the tree that came of it.
* `StyleSplit.Write.contentAt?` — the content of the last write to a place.

## Main results

* `StyleSplit.FileTree.History.append` — one history after another.
* `StyleSplit.FileTree.History.get?_eq` — what is at a place in the end.
-/

namespace StyleSplit

/-- **Writes** — a file that was put: the path that was asked for, the place it reached, and the
content. -/
structure Write where
  path : Path
  place : Place
  content : ByteArray

/-- The content of the last write to a place. -/
def Write.contentAt? (p : Place) : List Write → Option ByteArray
  | [] => none
  | w :: ws => (contentAt? p ws).or (if w.place = p then some w.content else none)

namespace Write

variable {p : Place} {c : ByteArray}

lemma contentAt?_append (p : Place) (ws vs : List Write) :
    contentAt? p (ws ++ vs) = (contentAt? p vs).or (contentAt? p ws) := by
  induction ws with
  | nil => simp [contentAt?]
  | cons w ws ih => rw [List.cons_append, contentAt?, contentAt?, ih, Option.or_assoc]

lemma exists_mem_of_contentAt? {ws : List Write} (h : contentAt? p ws = some c) :
    ∃ w ∈ ws, w.place = p ∧ w.content = c := by
  induction ws with
  | nil => exact absurd h (by simp [contentAt?])
  | cons w ws ih =>
    rw [contentAt?, Option.or_eq_some_iff] at h
    rcases h with h | ⟨-, h⟩
    · obtain ⟨v, hv, hvp⟩ := ih h
      exact ⟨v, List.mem_cons_of_mem _ hv, hvp⟩
    · split at h
      · rename_i hp
        exact ⟨w, List.mem_cons_self, hp, Option.some.inj h⟩
      · exact absurd h (by simp)

lemma contentAt?_eq_none_iff {ws : List Write} :
    contentAt? p ws = none ↔ ∀ w ∈ ws, w.place ≠ p := by
  induction ws with
  | nil => simp [contentAt?]
  | cons w ws ih =>
    rw [contentAt?, Option.or_eq_none_iff, ih, List.forall_mem_cons, and_comm]
    refine and_congr_left' ?_
    split <;> simp_all

/-- If no two writes go to one place, each write is the last one to its place. -/
lemma contentAt?_of_nodup {ws : List Write} (h : (ws.map (·.place)).Nodup) {w : Write}
    (hw : w ∈ ws) : contentAt? w.place ws = some w.content := by
  induction ws with
  | nil => exact absurd hw List.not_mem_nil
  | cons v ws ih =>
    obtain ⟨hv, hnodup⟩ := List.nodup_cons.mp h
    rw [contentAt?]
    rcases List.mem_cons.mp hw with rfl | hmem
    · have hnone : contentAt? w.place ws = none :=
        contentAt?_eq_none_iff.mpr fun x hx heq => hv (List.mem_map.mpr ⟨x, hx, heq⟩)
      rw [hnone, if_pos rfl]
      rfl
    · rw [ih hnodup hmem]
      rfl

/-- What is written in several parts was written last in one of them. -/
lemma exists_of_contentAt?_flatMap {α : Type} {f : α → List Write} {l : List α}
    (h : contentAt? p (l.flatMap f) = some c) :
    ∃ before a after, l = before ++ a :: after ∧ contentAt? p (f a) = some c ∧
      ∀ x ∈ after, ∀ w ∈ f x, w.place ≠ p := by
  induction l with
  | nil => exact absurd h (by simp [contentAt?])
  | cons a l ih =>
    rw [List.flatMap_cons, contentAt?_append, Option.or_eq_some_iff] at h
    rcases h with h | ⟨hnone, h⟩
    · obtain ⟨before, b, after, rfl, hb⟩ := ih h
      exact ⟨a :: before, b, after, rfl, hb⟩
    · refine ⟨[], a, l, rfl, h, fun x hx w hw => ?_⟩
      exact contentAt?_eq_none_iff.mp hnone w (List.mem_flatMap.mpr ⟨x, hx, hw⟩)

end Write

namespace FileTree

/-- **Histories** — directories are added to the tree and files are put, in the order of the list,
each where its path leads to and no directory is. -/
inductive History : FileTree → List Write → FileTree → Prop
  | nil {t u : FileTree} : t.GrowsTo u → History t [] u
  | cons {t made u : FileTree} {w : Write} {ws : List Write} : t.GrowsTo made →
      made.reach w.path = .ok w.place → made.kind? w.place ≠ some .directory →
      History (made.put w.place (.file w.content)) ws u → History t (w :: ws) u

namespace History

variable {t u v : FileTree} {ws vs : List Write}

lemma of_growsTo (hgrows : t.GrowsTo u) (h : History u ws v) : History t ws v := by
  cases h with
  | nil h => exact .nil (hgrows.trans h)
  | cons h hreach hkind hrest => exact .cons (hgrows.trans h) hreach hkind hrest

/-- One history after another. -/
lemma append (h : History t ws u) (h' : History u vs v) : History t (ws ++ vs) v := by
  induction h with
  | nil hgrows => exact h'.of_growsTo hgrows
  | cons hgrows hreach hkind _ ih => exact .cons hgrows hreach hkind (ih h')

/-- No file and no directory is taken away. -/
lemma keptIn (h : History t ws u) : t.KeptIn u := by
  induction h with
  | nil hgrows => exact hgrows.keptIn
  | cons hgrows _ hkind _ ih => exact (hgrows.keptIn.trans (keptIn_put_file hkind _)).trans ih

/-- The path of a write leads to its place from then on. -/
lemma place?_of_mem (h : History t ws u) {w : Write} (hw : w ∈ ws) :
    u.place? w.path = some w.place := by
  induction h with
  | nil => exact absurd hw List.not_mem_nil
  | cons hgrows hreach hkind hrest ih =>
    rename_i v ws
    rcases List.mem_cons.mp hw with rfl | hw
    · have hput := keptIn_put_file hkind w.content
      refine hrest.keptIn.place? (place?_eq_some_iff.mpr ⟨(reach_settled hput _).ok hreach, ?_⟩)
      exact ⟨_, by rw [get?_put_file hkind, if_pos rfl]⟩
    · exact ih hw

/-- **What is at a place in the end** — the content of the last write to it, or what was there
before, or a new directory. -/
lemma get?_eq (h : History t ws u) (p : Place) :
    match Write.contentAt? p ws with
    | some c => u.get? p = some (.file c)
    | none => u.get? p = t.get? p ∨ t.get? p = none ∧ u.get? p = some .directory := by
  induction h with
  | nil hgrows => exact hgrows.get?_eq p
  | cons hgrows _ hkind _ ih =>
    rename_i made u w ws _ _
    rw [Write.contentAt?]
    cases hlast : Write.contentAt? p ws with
    | some c =>
      rw [hlast] at ih
      exact ih
    | none =>
      rw [hlast, get?_put_file hkind] at ih
      rw [Option.none_or]
      by_cases hp : w.place = p
      · rw [if_pos hp]
        rw [if_pos hp.symm] at ih
        exact ih.resolve_right fun h => absurd h.1 (by simp)
      · rw [if_neg hp]
        rw [if_neg (Ne.symm hp)] at ih
        rcases ih with ih | ⟨hmade, hu⟩
        · rw [ih]
          exact hgrows.get?_eq p
        · rcases hgrows.get?_eq p with ht | ⟨-, ht⟩
          · exact .inr ⟨ht ▸ hmade, hu⟩
          · exact absurd (hmade.symm.trans ht) (by simp)

lemma get?_of_contentAt? (h : History t ws u) {p : Place} {c : ByteArray}
    (hc : Write.contentAt? p ws = some c) : u.get? p = some (.file c) := by
  have hp := h.get?_eq p
  rwa [hc] at hp

lemma get?_of_contentAt?_eq_none (h : History t ws u) {p : Place}
    (hc : Write.contentAt? p ws = none) :
    u.get? p = t.get? p ∨ t.get? p = none ∧ u.get? p = some .directory := by
  have hp := h.get?_eq p
  rwa [hc] at hp

/-- What was written is a file. -/
lemma kind?_of_mem (h : History t ws u) {w : Write} (hw : w ∈ ws) :
    u.kind? w.place = some .file := by
  cases hlast : Write.contentAt? w.place ws with
  | none => exact absurd rfl (Write.contentAt?_eq_none_iff.mp hlast w hw)
  | some c => exact kind?_eq_file_iff.mpr ⟨c, h.get?_of_contentAt? hlast⟩

/-- A file that is not written to holds what it held. -/
lemma get?_file_of_forall_ne (h : History t ws u) {p : Place} (hp : ∀ w ∈ ws, w.place ≠ p)
    (hfile : t.kind? p = some .file ∨ u.kind? p = some .file) : u.get? p = t.get? p := by
  rcases h.get?_of_contentAt?_eq_none (Write.contentAt?_eq_none_iff.mpr hp) with heq | ⟨ht, hu⟩
  · exact heq
  · rcases hfile with hfile | hfile
    · obtain ⟨c, hc⟩ := kind?_eq_file_iff.mp hfile
      exact absurd (ht.symm.trans hc) (by simp)
    · obtain ⟨c, hc⟩ := kind?_eq_file_iff.mp hfile
      exact absurd (hu.symm.trans hc) (by simp)

end History

end FileTree

end StyleSplit
