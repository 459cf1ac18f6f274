import Mathlib.Data.List.Induction
import StyleSplit.Proofs.Files.SamePlace
set_option autoImplicit false

/-!
# Directories in an empty directory

In an empty directory nothing is in the way. Whatever names a path goes on by, all directories that
are missing can be created, and the innermost one is empty again.

## Main definitions

* `StyleSplit.Path.IsFileName` — segments that a file can be named by.
* `StyleSplit.FileTree.IsEmptyDirectory` — places of empty directories.
* `StyleSplit.FileTree.LeadsInto` — paths that go on from a directory by such segments.
* `StyleSplit.FileTree.Made` — directories that are added, the last of them empty.

## Main results

* `StyleSplit.FileTree.exists_createDirectories` — the directories of a path into an empty one.
-/

namespace StyleSplit

open FileTree

variable {t u : FileTree} {d : Place} {p parent : Path} {before front names : List String}
  {name : String}

/-! ## Names -/

/-- **File names** — segments that name something in the directory that they are looked up in, and
that are not too long for it. -/
structure Path.IsFileName (name : String) : Prop where
  isIdle : Path.isIdle name = false
  ne_dots : name ≠ ".."
  slash_notMem : '/' ∉ name.toList
  length_le : name.utf8ByteSize ≤ maxNameBytes

instance : DecidablePred Path.IsFileName := fun name =>
  decidable_of_iff (Path.isIdle name = false ∧ name ≠ ".." ∧ '/' ∉ name.toList ∧
      name.utf8ByteSize ≤ maxNameBytes)
    ⟨fun ⟨hidle, hdots, hslash, hlength⟩ => ⟨hidle, hdots, hslash, hlength⟩,
      fun h => ⟨h.isIdle, h.ne_dots, h.slash_notMem, h.length_le⟩⟩

/-- A path with a name is tidy only if the name is its last segment. -/
lemma Path.IsTidy.exists_endsWith (hp : p.IsTidy) (h : p.names = names ++ [name]) :
    ∃ before, p.EndsWith before name ∧ before.filter (!Path.isIdle ·) = names := by
  obtain ⟨text⟩ := p
  obtain rfl | rfl | ⟨before, last, hends⟩ := hp
  · exact absurd h (by simp [show Path.names ⟨"/"⟩ = [] by decide])
  · exact absurd h (by simp [show Path.names ⟨"."⟩ = [] by decide])
  · obtain ⟨hbefore, hlast⟩ := List.append_inj' (hends.names.symm.trans h) rfl
    obtain rfl := (List.cons.inj hlast).1
    exact ⟨before, hends, hbefore⟩

/-- **The parent by its names** — it begins where the path does, and its names are those in front of
the last one. -/
lemma Path.EndsWith.parent_eq (hp : p.EndsWith before name) (hparent? : p.parent? = some parent) :
    parent.isAbsolute = p.isAbsolute ∧ parent.names = before.filter (!Path.isIdle ·) := by
  obtain ⟨other, hother, hcases⟩ := hp.exists_parent
  obtain rfl := Option.some.inj (hparent?.symm.trans hother)
  obtain ⟨rfl, hempty⟩ | ⟨-, hisParent⟩ := hcases
  · obtain rfl : parent = ⟨""⟩ := congrArg Path.mk hempty
    exact ⟨(isAbsolute_of_single hp).symm, by decide⟩
  · exact ⟨hisParent.isAbsolute_eq, hisParent.filter_segments⟩

namespace FileTree

/-! ## Paths by their names -/

/-- A path reaches the directory that its names enter. -/
lemma reach_of_enter (htext : textError? p = none) (h : t.enter (t.startOf p) p.names = .ok d) :
    t.reach p = .ok d := by
  rw [Path.names, ← enter_filter, enter_eq] at h
  obtain ⟨q, hwalk, hstep⟩ := bind_eq_ok_iff.mp h
  obtain ⟨rfl, -⟩ := step_dot_eq_ok_iff.mp hstep
  rw [reach, htext]
  exact hwalk

lemma isDirectory_of_enter (htext : textError? p = none)
    (h : t.enter (t.startOf p) p.names = .ok d) : t.isDirectory p = true :=
  isDirectory_iff.mpr ⟨d, reach_of_enter htext h, get?_of_enter h⟩

lemma reach_of_endsWith (hp : p.EndsWith before name) (htext : textError? p = none)
    (t : FileTree) : t.reach p =
      t.enter (t.startOf p) (before.filter (!Path.isIdle ·)) >>= fun q => t.step q name := by
  rw [reach, htext, hp.segments, ← enter_filter]
  exact walk_concat t (t.startOf p) before name

/-- What is entered stays entered. -/
lemma enter_of_keptIn (hkept : t.KeptIn u) {start : Place} {segments : List String}
    (h : t.enter start segments = .ok d) : u.enter start segments = .ok d :=
  (foldlM_step_settled hkept start (segments ++ ["."])).ok h

/-- A name is looked up in its directory. -/
lemma step_of_isFileName (hname : Path.IsFileName name) (hd : t.get? d = some .directory) :
    t.step d name = .ok (d ++ [name]) := by
  rw [step_eq, kind?_eq_directory_iff.mpr hd]
  simp only [hname.isIdle, Bool.false_eq_true, if_false, if_neg hname.ne_dots,
    if_neg (Nat.not_lt.mpr hname.length_le)]

/-- Nothing can be entered where nothing is. -/
lemma enter_of_get?_eq_none (hd : t.get? d = none) (segments : List String) :
    t.enter d segments = .error .notFound := by
  have hstep : t.step d "." = .error .notFound := by
    rw [step_eq, kind?_eq_none_iff.mpr hd]
  rw [← step_dot_bind_enter, hstep]
  rfl

/-! ## Empty directories -/

/-- **Empty directories** — a directory is at the place, and nothing is in it. -/
structure IsEmptyDirectory (t : FileTree) (d : Place) : Prop where
  directory : t.get? d = some .directory
  empty : ∀ name rest, Path.IsFileName name → t.get? (d ++ name :: rest) = none

/-- **Paths into a directory** — the path enters the directory and goes on by names that a file can
have. -/
structure LeadsInto (t : FileTree) (p : Path) (d : Place) (names : List String) : Prop where
  enters : ∃ front, p.names = front ++ names ∧ t.enter (t.startOf p) front = .ok d
  isFileName : ∀ name ∈ names, Path.IsFileName name

/-- Something is missing on the way to what is in a directory of an empty one. -/
lemma IsEmptyDirectory.enter_eq_notFound (h : t.IsEmptyDirectory d) (hne : names ≠ [])
    (hnames : ∀ name ∈ names, Path.IsFileName name) : t.enter d names = .error .notFound := by
  cases names with
  | nil => exact absurd rfl hne
  | cons name names =>
    have hname := hnames name List.mem_cons_self
    rw [enter_cons, step_of_isFileName hname h.directory]
    exact enter_of_get?_eq_none (h.empty name [] hname) names

/-- What is missing on the way to a directory are the directories around it, if there are any. -/
lemma IsEmptyDirectory.createDirectory_eq_notFound_iff (h : t.IsEmptyDirectory d)
    (hp : p.EndsWith before name) (hname : Path.IsFileName name) (htext : textError? p = none)
    (hd : t.enter (t.startOf p) (before.filter (!Path.isIdle ·)) = t.enter d names)
    (hnames : ∀ name ∈ names, Path.IsFileName name) :
    t.createDirectory p = .error .notFound ↔ names ≠ [] := by
  have hreach := reach_of_endsWith hp htext t
  rw [hd] at hreach
  rw [createDirectory_eq_error_iff (.inr (.inr ⟨before, name, hp⟩)), hreach]
  by_cases hnil : names = []
  · rw [hnil, enter_nil, step_dot_bind, step_of_isFileName hname h.directory]
    simp
  · rw [h.enter_eq_notFound hnil hnames]
    exact iff_of_true (.inl rfl) hnil

/-! ## Creating directories -/

/-- **Made directories** — directories are added, and the path enters an empty one. -/
structure Made (t made : FileTree) (p : Path) (d : Place) : Prop where
  grows : t.GrowsTo made
  isEmpty : made.IsEmptyDirectory d
  enter : made.enter (made.startOf p) p.names = .ok d

/-- **A directory in an empty one** — it can be created. -/
lemma IsEmptyDirectory.exists_ensureDirectory (h : t.IsEmptyDirectory d)
    (hp : p.EndsWith before name) (hname : Path.IsFileName name) (htext : textError? p = none)
    (hd : t.enter (t.startOf p) (before.filter (!Path.isIdle ·)) = .ok d) :
    ∃ made, t.ensureDirectory p = ⟨made, none⟩ ∧ t.Made made p (d ++ [name]) := by
  have hreach : t.reach p = .ok (d ++ [name]) := by
    rw [reach_of_endsWith hp htext, hd]
    exact step_of_isFileName hname h.directory
  have hnone := h.empty name [] hname
  have hcreate : t.createDirectory p = .ok (t.put (d ++ [name]) .directory) :=
    (createDirectory_eq_ok_iff (.inr (.inr ⟨before, name, hp⟩))).mpr ⟨_, hreach, hnone, rfl⟩
  have hgrows := growsTo_put hnone
  have haround : t.isAround (d ++ [name]) = false :=
    isAround_eq_false (by simp [kind?, hnone])
  have hget : ∀ q, (t.put (d ++ [name]) .directory).get? q =
      if q = d ++ [name] then some .directory else t.get? q := fun q => get?_put _ q haround
  generalize t.put (d ++ [name]) .directory = made at hcreate hgrows hget
  have hmade : made.get? (d ++ [name]) = some .directory := by rw [hget, if_pos rfl]
  refine ⟨made, by rw [ensureDirectory, hcreate], hgrows, ⟨hmade, fun other rest _ => ?_⟩, ?_⟩
  · have hne : d ++ [name] ++ other :: rest ≠ d ++ [name] := by simp
    rw [hget, if_neg hne, List.append_assoc]
    exact h.empty name (other :: rest) hname
  · have hstep := step_of_isFileName hname (hgrows.keptIn.directory h.directory)
    have hdot : made.step (d ++ [name]) "." = .ok (d ++ [name]) :=
      step_dot_eq_ok_iff.mpr ⟨rfl, hmade⟩
    rw [hp.names, hgrows.keptIn.startOf, enter_concat, enter_of_keptIn hgrows.keptIn hd]
    change (made.step d name >>= fun q => made.step q ".") = _
    rw [hstep]
    exact hdot

/-- **Creating up to a number of directories** — in an empty directory all can be created.

**Proof sketch.** By induction on the names. If there is one, it is put into the directory. Else
something is missing on the way to the last one, so that those in front of it come first; they are
created, and the last of them is empty. -/
lemma exists_createUpTo (hempty : t.IsEmptyDirectory d) (n : ℕ) (hp : p.IsTidy)
    (hn : p.text = "/" ∨ p.segments.length ≤ n) (htext : textError? p = none)
    (hleads : t.LeadsInto p d names) :
    ∃ made, t.createUpTo p n = ⟨made, none⟩ ∧ t.Made made p (d ++ names) := by
  induction names using List.reverseRecOn generalizing p n with
  | nil =>
    obtain ⟨⟨front, hfront, henter⟩, -⟩ := hleads
    rw [List.append_nil] at hfront ⊢
    rw [← hfront] at henter
    refine ⟨t, ?_, GrowsTo.refl t, hempty, henter⟩
    exact createUpTo_of_isDirectory hp (isDirectory_of_enter htext henter) n
  | append_singleton names name ih =>
    obtain ⟨⟨front, hfront, henter⟩, hnames⟩ := hleads
    obtain ⟨hothers, hname⟩ := List.forall_mem_append.mp hnames
    rw [List.forall_mem_singleton] at hname
    rw [← List.append_assoc] at hfront ⊢
    obtain ⟨before, hends, hbefore⟩ := hp.exists_endsWith hfront
    have hd : t.enter (t.startOf p) (before.filter (!Path.isIdle ·)) = t.enter d names := by
      rw [hbefore, enter_append, henter]
      rfl
    have hmissing := hempty.createDirectory_eq_notFound_iff hends hname htext hd hothers
    by_cases hnil : names = []
    · rw [createUpTo_eq_ensureDirectory fun h => hmissing.mp h hnil]
      rw [hnil, List.append_nil]
      rw [hnil, List.append_nil] at hbefore
      exact hempty.exists_ensureDirectory hends hname htext (hbefore ▸ henter)
    · -- the parent comes first
      obtain ⟨before', name', parent, hends', hparent?, hparent, -⟩ :=
        exists_parent_of_notFound hp (hmissing.mpr hnil)
      obtain ⟨rfl, -⟩ := List.append_inj' (hends'.segments.symm.trans hends.segments) rfl
      obtain ⟨habsolute, hparentNames⟩ := hends.parent_eq hparent?
      obtain ⟨m, rfl⟩ := exists_eq_succ hends hn
      obtain ⟨around, haround, hmadeAround⟩ := ih m hparent.isTidy
        (length_segments_parent hends hparent hn)
        (textError?_of_isPrefix hparent.isPrefix hparent.ne_empty htext)
        ⟨⟨front, hparentNames.trans hbefore, startOf_congr habsolute t ▸ henter⟩, hothers⟩
      have henterAround := hmadeAround.enter
      rw [hparentNames, startOf_congr habsolute] at henterAround
      obtain ⟨made, hmade, hmadeLast⟩ :=
        hmadeAround.isEmpty.exists_ensureDirectory hends hname htext henterAround
      refine ⟨made, ?_, hmadeAround.grows.trans hmadeLast.grows, hmadeLast.isEmpty, hmadeLast.enter⟩
      rw [createUpTo_succ_of_notFound (hmissing.mpr hnil) hparent? hparent.ne_empty, haround]
      exact hmade

/-- **Creating directories in an empty one** — all can be created, and the last one is empty. -/
lemma exists_createDirectories (hempty : t.IsEmptyDirectory d) (hp : p.IsTidy)
    (htext : textError? p = none) (hleads : t.LeadsInto p d names) :
    ∃ made, t.createDirectories p = ⟨made, none⟩ ∧ t.Made made p (d ++ names) :=
  exists_createUpTo hempty _ hp (.inr (Nat.le_refl _)) htext hleads

end FileTree

end StyleSplit
