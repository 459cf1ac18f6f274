import StyleSplit.Files.SystemError
import StyleSplit.Files.Tree
set_option autoImplicit false

/-!
# Walks through a file tree

A walk leads from a directory along the segments of a path. Whoever walks carries the part of the
table that is below the place reached so far, so that the next segment is looked up among what is
below it and not in the whole tree.

## Main definitions

* `StyleSplit.Place.go` — the place that one segment names.
* `StyleSplit.FileTree.step` — the place that one segment leads to.
* `StyleSplit.FileTree.below` — the part of a table that is below a place.
* `StyleSplit.Standpoint` — a place in a tree with what is below it.
* `StyleSplit.FileTree.walk` — the place that segments lead to.

## Main results

* `StyleSplit.FileTree.lookup_below` — what is below a place is found under the rest of its own
  place.
* `StyleSplit.FileTree.walk_eq_foldlM` — a walk takes one step after the other.
-/

namespace StyleSplit

/-- The place that a segment names from another one. Two dots name the place around it, and at the
root the root. Whether anything is there does not matter. -/
def Place.go (p : Place) (segment : String) : Place :=
  if Path.isIdle segment then p
  else if segment = ".." then p.dropLast
  else p ++ [segment]

namespace FileTree

/-- The number of bytes that a name may have. -/
def maxNameBytes : Nat := 255

/-- **One segment** — the place that a segment leads to from a directory. Two dots lead to the
directory around it, and from the root to the root. The place need not exist. -/
def step (t : FileTree) (p : Place) (segment : String) : Except SystemError Place :=
  match t.get? p with
  | none => .error .notFound
  | some (.file _) => .error .notADirectory
  | some .directory =>
    if Path.isIdle segment then .ok p
    else if segment = ".." then .ok p.dropLast
    else if maxNameBytes < segment.utf8ByteSize then .error .nameTooLong
    else .ok (p ++ [segment])

/-! ## Parts of a table -/

/-- The part of a table that is below a name, by the places from there. -/
def under (name : String) (table : List (Place × Entry)) : List (Place × Entry) :=
  table.filterMap fun
    | (first :: rest, e) => if first = name then some (rest, e) else none
    | ([], _) => none

/-- The part of a table that is below a place, by the places from there. -/
def below : Place → List (Place × Entry) → List (Place × Entry)
  | [], table => table
  | name :: p, table => below p (under name table)

theorem lookup_under (name : String) (q : Place) (table : List (Place × Entry)) :
    (under name table).lookup q = table.lookup (name :: q) := by
  have hne {a b : Place} (h : ¬ a = b) : (a == b) = false := by simpa using h
  induction table with
  | nil => rfl
  | cons x more ih =>
    obtain ⟨k, e⟩ := x
    unfold under at ih ⊢
    rw [List.filterMap_cons, List.lookup_cons]
    cases k with
    | nil => simpa [hne] using ih
    | cons first rest =>
      by_cases hf : first = name
      · subst hf
        by_cases hq : q = rest
        · simp [hq]
        · simpa [List.lookup_cons, hne hq] using ih
      · simpa [hf, hne fun h => hf (List.cons.inj h).1.symm] using ih

/-- What is below a place is found under the rest of its own place. -/
theorem lookup_below (p q : Place) (table : List (Place × Entry)) :
    (below p table).lookup q = table.lookup (p ++ q) := by
  induction p generalizing table with
  | nil => rfl
  | cons name p ih => rw [below, ih, lookup_under, List.cons_append]

theorem below_append (p q : Place) (table : List (Place × Entry)) :
    below (p ++ q) table = below q (below p table) := by
  induction p generalizing table with
  | nil => rfl
  | cons name p ih => rw [List.cons_append, below, ih, below]

end FileTree

/-! ## Standpoints -/

/-- **Standpoints** — a place in a tree and the part of the tree's table that is below it. The place
need not exist. -/
structure Standpoint (t : FileTree) where
  place : Place
  below : List (Place × Entry) := FileTree.below place t.entries
  below_eq : below = FileTree.below place t.entries := by rfl

namespace Standpoint

variable {t : FileTree}

/-- What is at a standpoint. -/
def found? (s : Standpoint t) : Option Entry :=
  if t.isAround s.place then some .directory else s.below.lookup []

/-- A standpoint shows what the tree has at its place. -/
theorem found?_eq_get? (s : Standpoint t) : s.found? = t.get? s.place := by
  rw [found?, FileTree.get?, s.below_eq, FileTree.lookup_below, List.append_nil]

/-- The standpoint of a name in a directory. -/
def enter (s : Standpoint t) (name : String) : Standpoint t where
  place := s.place ++ [name]
  below := FileTree.under name s.below
  below_eq := by rw [s.below_eq, FileTree.below_append]; rfl

/-- The standpoint that a segment leads to from a directory. -/
def step (s : Standpoint t) (segment : String) : Except SystemError (Standpoint t) :=
  match s.found? with
  | none => .error .notFound
  | some (.file _) => .error .notADirectory
  | some .directory =>
    if Path.isIdle segment then .ok s
    else if segment = ".." then .ok { place := s.place.dropLast }
    else if FileTree.maxNameBytes < segment.utf8ByteSize then .error .nameTooLong
    else .ok (s.enter segment)

/-- A step leads to the place that it leads to without a standpoint. -/
theorem map_place_step (s : Standpoint t) (segment : String) :
    (s.step segment).map (·.place) = t.step s.place segment := by
  unfold step FileTree.step
  rw [found?_eq_get?]
  split
  · rfl
  · rfl
  · split
    · rfl
    · split
      · rfl
      · split <;> rfl

end Standpoint

namespace FileTree

/-- **Walking** — the place that segments lead to. -/
def walk (t : FileTree) (start : Place) (segments : List String) : Except SystemError Place :=
  (segments.foldlM Standpoint.step ({ place := start } : Standpoint t)).map (·.place)

theorem map_place_foldlM (t : FileTree) (s : Standpoint t) (segments : List String) :
    (segments.foldlM Standpoint.step s).map (·.place) = segments.foldlM t.step s.place := by
  induction segments generalizing s with
  | nil => rfl
  | cons x more ih =>
    rw [List.foldlM_cons, List.foldlM_cons, ← s.map_place_step]
    cases s.step x with
    | error e => rfl
    | ok s => exact ih s

/-- A walk takes one step after the other. -/
theorem walk_eq_foldlM (t : FileTree) (start : Place) (segments : List String) :
    t.walk start segments = segments.foldlM t.step start :=
  map_place_foldlM t { place := start } segments

end FileTree

end StyleSplit
