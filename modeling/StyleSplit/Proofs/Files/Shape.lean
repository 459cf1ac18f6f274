import StyleSplit.Proofs.Files.History
set_option autoImplicit false

/-!
# Trees of the same shape

Two trees have the same shape if they differ in the contents of files only. Paths lead to the same
places in them. Putting files where files are keeps the shape, and putting what was written last
changes nothing at all.

## Main definitions

* `StyleSplit.FileTree.SameShape` — trees that differ in the contents of files only.
* `StyleSplit.FileTree.putAll` — a tree with files put one after the other.

## Main results

* `StyleSplit.FileTree.SameShape.reach` — paths in trees of the same shape.
* `StyleSplit.FileTree.sameShape_putAll`, `StyleSplit.FileTree.read_putAll` — files put where files
  are.
* `StyleSplit.FileTree.putAll_eq_self` — files that hold what is put into them last.
-/

namespace StyleSplit.FileTree

/-- The table of a tree without the contents of files. -/
def shape (t : FileTree) : List (Place × Kind) :=
  t.entries.map fun x => (x.1, x.2.kind)

/-- **Trees of the same shape** — they differ in the contents of files only. -/
structure SameShape (t u : FileTree) : Prop where
  origin_eq : u.origin = t.origin
  shape_eq : u.shape = t.shape

variable {t u v : FileTree} {p q : Place} {e : Entry} {l : List (Place × Entry)} {path : Path}

lemma SameShape.refl (t : FileTree) : t.SameShape t :=
  ⟨rfl, rfl⟩

lemma SameShape.trans (h : t.SameShape u) (h' : u.SameShape v) : t.SameShape v :=
  ⟨h'.origin_eq.trans h.origin_eq, h'.shape_eq.trans h.shape_eq⟩

/-! ## Look-ups -/

lemma lookup_map_kind (p : Place) (l : List (Place × Entry)) :
    (l.map fun x => (x.1, x.2.kind)).lookup p = (l.lookup p).map Entry.kind := by
  induction l with
  | nil => rfl
  | cons x l ih =>
    rw [List.map_cons, List.lookup_cons, List.lookup_cons, ih]
    split <;> rfl

lemma kind?_eq (t : FileTree) (p : Place) :
    t.kind? p = if t.isAround p then some .directory else t.shape.lookup p := by
  rw [kind?, get?, shape, lookup_map_kind]
  split <;> rfl

lemma exists_get?_iff : (∃ e, t.get? p = some e) ↔ ∃ k, t.kind? p = some k := by
  simp [kind?]

namespace SameShape

lemma kind? (h : t.SameShape u) (p : Place) : u.kind? p = t.kind? p := by
  rw [kind?_eq, kind?_eq, isAround, isAround, h.origin_eq, h.shape_eq]

lemma keptIn (h : t.SameShape u) : t.KeptIn u :=
  ⟨h.origin_eq, fun p _ hk => (h.kind? p).trans hk⟩

/-- A path reaches the same place. -/
lemma reach (h : t.SameShape u) (path : Path) : u.reach path = t.reach path := by
  have hstep : u.step = t.step := by
    funext p s
    rw [step_eq, step_eq, h.kind? p]
  unfold FileTree.reach
  simp only [walk_eq_foldlM, hstep, h.keptIn.startOf]

lemma place? (h : t.SameShape u) (path : Path) : u.place? path = t.place? path := by
  refine Option.ext fun p => ?_
  rw [place?_eq_some_iff, place?_eq_some_iff, h.reach, exists_get?_iff, exists_get?_iff, h.kind?]

end SameShape

/-! ## Entries that are replaced -/

lemma replace_cons_self (p : Place) (e old : Entry) (l : List (Place × Entry)) :
    replace p e ((p, old) :: l) = (p, e) :: l :=
  if_pos rfl

lemma replace_cons_of_ne (h : q ≠ p) (e old : Entry) (l : List (Place × Entry)) :
    replace p e ((q, old) :: l) = (q, old) :: replace p e l :=
  if_neg h

lemma lookup_cons_of_ne (h : q ≠ p) (old : Entry) (l : List (Place × Entry)) :
    ((q, old) :: l).lookup p = l.lookup p := by
  have hne : (p == q) = false := beq_eq_false_iff_ne.mpr (Ne.symm h)
  rw [List.lookup_cons, hne]

lemma replace_eq_self (h : l.lookup p = some e) : replace p e l = l := by
  induction l with
  | nil => exact absurd h (by simp)
  | cons x l ih =>
    obtain ⟨k, old⟩ := x
    by_cases hk : k = p
    · subst hk
      rw [List.lookup_cons_self] at h
      rw [replace_cons_self, Option.some.inj h]
    · rw [lookup_cons_of_ne hk] at h
      rw [replace_cons_of_ne hk, ih h]

lemma replace_replace_self (p : Place) (e f : Entry) (l : List (Place × Entry)) :
    replace p e (replace p f l) = replace p e l := by
  induction l with
  | nil => exact replace_cons_self p e f []
  | cons x l ih =>
    obtain ⟨k, old⟩ := x
    by_cases hk : k = p
    · subst hk
      rw [replace_cons_self, replace_cons_self, replace_cons_self]
    · rw [replace_cons_of_ne hk, replace_cons_of_ne hk, replace_cons_of_ne hk, ih]

/-- Replacements at two places may be made in either order, if one of the places is in the table. -/
lemma replace_comm (hne : p ≠ q) (e f : Entry) (h : (l.lookup p).isSome) :
    replace p e (replace q f l) = replace q f (replace p e l) := by
  induction l with
  | nil => exact absurd h (by simp)
  | cons x l ih =>
    obtain ⟨k, old⟩ := x
    by_cases hp : k = p
    · subst hp
      rw [replace_cons_of_ne hne, replace_cons_self, replace_cons_self, replace_cons_of_ne hne]
    · rw [lookup_cons_of_ne hp] at h
      rw [replace_cons_of_ne hp]
      by_cases hq : k = q
      · subst hq
        rw [replace_cons_self, replace_cons_self, replace_cons_of_ne hp]
      · rw [replace_cons_of_ne hq, replace_cons_of_ne hq, replace_cons_of_ne hp, ih h]

lemma shape_replace (h : (l.lookup p).map Entry.kind = some e.kind) :
    (replace p e l).map (fun x => (x.1, x.2.kind)) = l.map fun x => (x.1, x.2.kind) := by
  induction l with
  | nil => exact absurd h (by simp)
  | cons x l ih =>
    obtain ⟨k, old⟩ := x
    by_cases hk : k = p
    · subst hk
      rw [List.lookup_cons_self] at h
      rw [replace_cons_self, List.map_cons, List.map_cons, ← Option.some.inj h]
    · rw [lookup_cons_of_ne hk] at h
      rw [replace_cons_of_ne hk, List.map_cons, List.map_cons, ih h]

/-! ## Files that are put where files are -/

/-- A file is in the table. -/
lemma lookup_of_file (h : t.kind? p = some .file) :
    ∃ c, t.entries.lookup p = some (.file c) := by
  obtain ⟨c, hc⟩ := kind?_eq_file_iff.mp h
  have haround : t.isAround p = false := isAround_eq_false (by simp [h])
  rw [get?, if_neg (by simp [haround])] at hc
  exact ⟨c, hc⟩

lemma sameShape_put (h : t.kind? p = some .file) (c : ByteArray) :
    t.SameShape (t.put p (.file c)) := by
  obtain ⟨c', hc'⟩ := lookup_of_file h
  exact ⟨rfl, shape_replace (by rw [hc']; rfl)⟩

lemma put_eq_self {c : ByteArray} (h : t.get? p = some (.file c)) : t.put p (.file c) = t := by
  obtain ⟨c', hc'⟩ := lookup_of_file (kind?_eq_file_iff.mpr ⟨c, h⟩)
  have haround : t.isAround p = false :=
    isAround_eq_false (by simp [FileTree.kind?, h, Entry.kind])
  rw [get?, if_neg (by simp [haround])] at h
  rw [put, replace_eq_self h]

/-- The tree with files put one after the other. -/
def putAll (t : FileTree) (ws : List Write) : FileTree :=
  ws.foldl (fun t w => t.put w.place (.file w.content)) t

lemma putAll_cons (t : FileTree) (w : Write) (ws : List Write) :
    t.putAll (w :: ws) = (t.put w.place (.file w.content)).putAll ws :=
  rfl

lemma putAll_append (t : FileTree) (ws vs : List Write) :
    t.putAll (ws ++ vs) = (t.putAll ws).putAll vs :=
  List.foldl_append

variable {ws : List Write}

/-- Files that are put where files are keep the shape. -/
lemma sameShape_putAll (h : ∀ w ∈ ws, t.kind? w.place = some .file) :
    t.SameShape (t.putAll ws) := by
  induction ws generalizing t with
  | nil => exact SameShape.refl t
  | cons w ws ih =>
    rw [List.forall_mem_cons] at h
    have hput := sameShape_put h.1 w.content
    exact hput.trans (ih fun x hx => (hput.kind? x.place).trans (h.2 x hx))

lemma get?_putAll_of_forall_ne (h : ∀ w ∈ ws, t.kind? w.place = some .file)
    (hne : ∀ w ∈ ws, w.place ≠ p) : (t.putAll ws).get? p = t.get? p := by
  induction ws generalizing t with
  | nil => rfl
  | cons w ws ih =>
    rw [List.forall_mem_cons] at h hne
    have hput := sameShape_put h.1 w.content
    rw [putAll_cons, ih (fun x hx => (hput.kind? x.place).trans (h.2 x hx)) hne.2,
      get?_put_file (by simp [h.1]), if_neg (Ne.symm hne.1)]

/-- What a path leads to determines what is read. -/
lemma read_eq_of_get? (hreach : u.reach path = t.reach path)
    (hget : ∀ p, t.reach path = .ok p → u.get? p = t.get? p) : u.read path = t.read path := by
  have hfollow : u.follow path = t.follow path := by
    rw [follow_eq, follow_eq, hreach]
    cases hp : t.reach path with
    | error e => rfl
    | ok p =>
      simp only [bind, Except.bind, hget p hp]
  rw [read, read, hfollow]

/-- Files that are put elsewhere do not change what is read. -/
lemma read_putAll (h : ∀ w ∈ ws, t.kind? w.place = some .file)
    (hne : ∀ w ∈ ws, t.place? path ≠ some w.place) : (t.putAll ws).read path = t.read path := by
  refine read_eq_of_get? ((sameShape_putAll h).reach path) fun p hp => ?_
  refine get?_putAll_of_forall_ne h fun w hw heq => hne w hw ?_
  obtain ⟨c, hc⟩ := kind?_eq_file_iff.mp (h w hw)
  exact place?_eq_some_iff.mpr ⟨heq ▸ hp, _, hc⟩

/-- What is put at a place that is written to later is lost. -/
lemma putAll_put {c : ByteArray} (hp : t.kind? p = some .file)
    (hws : ∀ w ∈ ws, t.kind? w.place = some .file) (h : ∃ w ∈ ws, w.place = p) :
    (t.put p (.file c)).putAll ws = t.putAll ws := by
  induction ws generalizing t with
  | nil => exact absurd h (by simp)
  | cons w ws ih =>
    rw [List.forall_mem_cons] at hws
    rw [putAll_cons, putAll_cons]
    by_cases hw : w.place = p
    · rw [hw, put, put, put, replace_replace_self]
    · have hput := sameShape_put hws.1 w.content
      have hcomm : (t.put p (.file c)).put w.place (.file w.content) =
          (t.put w.place (.file w.content)).put p (.file c) := by
        obtain ⟨c', hc'⟩ := lookup_of_file hws.1
        rw [put, put, put, put]
        exact congrArg (FileTree.mk · t.origin) (replace_comm hw _ _ (by simp [hc']))
      rw [hcomm]
      refine ih ((hput.kind? p).trans hp) (fun x hx => (hput.kind? x.place).trans (hws.2 x hx)) ?_
      obtain ⟨x, hx, hxp⟩ := h
      rcases List.mem_cons.mp hx with rfl | hx
      · exact absurd hxp hw
      · exact ⟨x, hx, hxp⟩

/-- **Files that hold what is put into them last** — putting them changes nothing. -/
lemma putAll_eq_self
    (h : ∀ p c, Write.contentAt? p ws = some c → t.get? p = some (.file c)) : t.putAll ws = t := by
  have hkind : ∀ w ∈ ws, t.kind? w.place = some .file := by
    intro w hw
    cases hc : Write.contentAt? w.place ws with
    | none => exact absurd rfl (Write.contentAt?_eq_none_iff.mp hc w hw)
    | some c => exact kind?_eq_file_iff.mpr ⟨c, h _ c hc⟩
  induction ws with
  | nil => rfl
  | cons w ws ih =>
    rw [List.forall_mem_cons] at hkind
    have htail : t.putAll ws = t := by
      refine ih (fun p c hc => h p c ?_) hkind.2
      rw [Write.contentAt?, hc]
      rfl
    rw [putAll_cons]
    cases hc : Write.contentAt? w.place ws with
    | some c =>
      obtain ⟨x, hx, hxp, -⟩ := Write.exists_mem_of_contentAt? hc
      rw [putAll_put hkind.1 hkind.2 ⟨x, hx, hxp⟩, htail]
    | none =>
      have hlast := h w.place w.content (by rw [Write.contentAt?, hc, if_pos rfl]; rfl)
      rw [put_eq_self hlast, htail]

end StyleSplit.FileTree
