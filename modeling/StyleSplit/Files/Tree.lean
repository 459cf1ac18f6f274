import StyleSplit.Files.Path
set_option autoImplicit false

/-!
# File trees

The files that a run reads and writes. A tree is a finite table of files and directories by their
place, with the place of the working directory. Operations take a tree and give the changed one.
There are no links: what is in a tree has one place, however the paths that lead to it are written.

## Main definitions

* `StyleSplit.Place`, `StyleSplit.Entry` — where something is, and what it is.
* `StyleSplit.FileTree` — the table and the working directory.
* `StyleSplit.FileTree.get?`, `StyleSplit.FileTree.put`, `StyleSplit.FileTree.erase` — what is at a
  place, and trees with a place changed.

## Main results

* `StyleSplit.FileTree.get?_put` — a put changes its own place and no other.
-/

namespace StyleSplit

/-- A file or a directory. -/
inductive Entry
  | file (content : ByteArray)
  | directory
  deriving Inhabited

/-- **Places** — the names that lead from the root to a file or a directory. The root is at no
name. -/
abbrev Place := List String

/-- **File trees** — files and directories by their places, and the place of the working
directory. -/
structure FileTree where
  entries : List (Place × Entry)
  /-- Where relative paths begin. -/
  origin : Place := []
  deriving Inhabited

namespace FileTree

/-- The tree without files, at the root. -/
def empty : FileTree := { entries := [] }

/-- Whether a place is the working directory or one of those around it. These are directories in
every tree. -/
def isAround (t : FileTree) (p : Place) : Bool :=
  p.isPrefixOf t.origin

/-- What is at a place. -/
def get? (t : FileTree) (p : Place) : Option Entry :=
  if t.isAround p then some .directory else t.entries.lookup p

/-- The table with an entry replaced, or added at its end. -/
def replace (p : Place) (e : Entry) : List (Place × Entry) → List (Place × Entry)
  | [] => [(p, e)]
  | (q, old) :: more => if q = p then (p, e) :: more else (q, old) :: replace p e more

/-- The tree with an entry at a place. -/
def put (t : FileTree) (p : Place) (e : Entry) : FileTree :=
  { t with entries := replace p e t.entries }

/-- The tree without a file, or without a directory and all that is in it. -/
def erase (t : FileTree) (p : Place) : FileTree :=
  { t with entries := t.entries.filter fun (q, _) => !p.isPrefixOf q }

/-! ## The table -/

theorem lookup_replace (p q : Place) (e : Entry) (l : List (Place × Entry)) :
    (replace p e l).lookup q = if q = p then some e else l.lookup q := by
  have hne {a b : Place} (h : ¬ a = b) : (a == b) = false := by simpa using h
  induction l with
  | nil => by_cases h : q = p <;> simp [replace, h]
  | cons x more ih =>
    obtain ⟨k, old⟩ := x
    unfold replace
    by_cases hk : k = p
    · subst hk
      by_cases h : q = k <;> simp [List.lookup_cons, h, hne]
    · rw [if_neg hk]
      by_cases hq : q = k
      · subst hq
        simp [hk]
      · simp [List.lookup_cons, hne hq, ih]

@[simp]
theorem origin_put (t : FileTree) (p : Place) (e : Entry) : (t.put p e).origin = t.origin :=
  rfl

/-- A put changes its own place and no other. -/
theorem get?_put {t : FileTree} {p : Place} (e : Entry) (q : Place) (hp : t.isAround p = false) :
    (t.put p e).get? q = if q = p then some e else t.get? q := by
  have haround : (t.put p e).isAround q = t.isAround q := rfl
  rw [get?, get?, haround, put, lookup_replace]
  by_cases h : q = p
  · subst h
    simp [hp]
  · simp [h]

end FileTree

end StyleSplit
