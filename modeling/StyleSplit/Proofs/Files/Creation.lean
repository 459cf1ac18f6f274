import StyleSplit.Proofs.Files.Parent
set_option autoImplicit false

/-!
# Files and directories that are created

What the operations that create files and directories do is said in terms of the place that a path
reaches. A directory that cannot be created cannot be created later either, though the cause may be
another one: while directories are missing on the way, a file that is in the way is met as what
exists already, and afterwards as what is no directory.

## Main definitions

* `StyleSplit.SystemError.Becomes` — a cause, and the one that takes its place.
* `StyleSplit.FileTree.Blocked` — a directory that cannot be created now or later.

## Main results

* `StyleSplit.FileTree.write_eq`, `StyleSplit.FileTree.createDirectory_eq` — the operations by the
  place that is reached.
* `StyleSplit.FileTree.attempted_createDirectories` — a directory with all around it.
-/

namespace StyleSplit

/-- **Causes that change** — what exists already where a directory is wanted may be told to be no
directory later. -/
def SystemError.Becomes (e e' : SystemError) : Prop :=
  e' = e ∨ e = .alreadyExists ∧ e' = .notADirectory

lemma SystemError.Becomes.trans {e e' e'' : SystemError} (h : e.Becomes e')
    (h' : e'.Becomes e'') : e.Becomes e'' := by
  rcases h' with rfl | ⟨rfl, rfl⟩
  · exact h
  · rcases h with rfl | ⟨-, h⟩
    · exact .inr ⟨rfl, rfl⟩
    · exact absurd h (by simp)

namespace FileTree

variable {t u : FileTree} {p parent : Path} {before : List String} {name : String}

/-! ## Names in directories -/

lemma textError?_of_reach {q : Place} (h : t.reach p = .ok q) : textError? p = none := by
  unfold reach at h
  split at h
  · exact absurd h (by simp)
  · assumption

lemma walk_concat (t : FileTree) (start : Place) (before : List String) (name : String) :
    t.walk start (before ++ [name]) =
      t.enter start before >>= fun d => t.step d name := by
  rw [enter_eq, bind_assoc, walk_eq_foldlM, walk_eq_foldlM, List.foldlM_append]
  simp only [step_dot_bind, List.foldlM_cons, List.foldlM_nil, bind_pure]

/-- A path to a name reaches that name in the directory of the parent. -/
lemma reach_of_isParent (hp : p.EndsWith before name) (hparent : Path.IsParent parent p before)
    (htext : textError? p = none) (t : FileTree) :
    t.reach p = t.reach parent >>= fun d => t.step d name := by
  have hwalk : t.walk (t.startOf p) p.segments =
      t.walk (t.startOf parent) parent.segments >>= fun d => t.step d name := by
    rw [hp.segments, walk_concat, ← hparent.enter_eq, enter_eq, bind_assoc]
    simp only [step_dot_bind]
  rw [reach, reach, htext, textError?_of_isPrefix hparent.isPrefix hparent.ne_empty htext]
  exact hwalk

/-- A single name begins in the working directory. -/
lemma isAbsolute_of_single (hp : p.EndsWith [] name) : p.isAbsolute = false := by
  by_contra habsolute
  obtain ⟨s, more, h⟩ := Path.isAbsolute_iff.mp (by simpa using habsolute)
  rw [hp.segments] at h
  exact absurd (List.cons.inj h).2 (by simp)

lemma startOf_of_isAbsolute_eq_false (h : p.isAbsolute = false) (t : FileTree) :
    t.startOf p = t.origin := by
  rw [startOf, h]
  rfl

/-- A single name is looked up in the working directory. -/
lemma reach_of_single (hp : p.EndsWith [] name) (htext : textError? p = none) (t : FileTree) :
    t.reach p = t.step t.origin name := by
  rw [reach, htext, hp.segments, startOf_of_isAbsolute_eq_false (isAbsolute_of_single hp),
    walk_eq_foldlM]
  exact bind_pure _

/-- Nothing is missing on the way to a name in a directory. -/
lemma step_ne_notFound {d : Place} (h : t.get? d = some .directory) (name : String) :
    t.step d name ≠ .error .notFound := by
  rw [step_eq, kind?_eq_directory_iff.mpr h]
  dsimp only
  split
  · simp
  · split
    · simp
    · split <;> simp

lemma textError?_ne_notFound (hp : p.EndsWith before name) : textError? p ≠ some .notFound := by
  unfold textError?
  rw [if_neg hp.text_ne_empty]
  split_ifs <;> simp

lemma reach_ne_notFound_of_isDirectory (hp : p.EndsWith before name)
    (hparent : Path.IsParent parent p before) (h : t.isDirectory parent = true) :
    t.reach p ≠ .error .notFound := by
  cases htext : textError? p with
  | some e =>
    rw [reach, htext]
    intro heq
    exact textError?_ne_notFound hp (htext.trans (congrArg some (Except.error.inj heq)))
  | none =>
    obtain ⟨d, hd, hget⟩ := isDirectory_iff.mp h
    rw [reach_of_isParent hp hparent htext, hd]
    exact step_ne_notFound hget name

lemma reach_ne_notFound_of_single (hp : p.EndsWith [] name) : t.reach p ≠ .error .notFound := by
  cases htext : textError? p with
  | some e =>
    rw [reach, htext]
    intro heq
    exact textError?_ne_notFound hp (htext.trans (congrArg some (Except.error.inj heq)))
  | none =>
    rw [reach_of_single hp htext]
    exact step_ne_notFound t.get?_origin name

/-- The parent of what is reached is a directory. -/
lemma isDirectory_of_reach (hp : p.EndsWith before name) (hparent : Path.IsParent parent p before)
    {q : Place} (h : t.reach p = .ok q) : t.isDirectory parent = true := by
  have htext := textError?_of_reach h
  rw [reach_of_isParent hp hparent htext] at h
  obtain ⟨d, hd, hstep⟩ := bind_eq_ok_iff.mp h
  exact isDirectory_iff.mpr ⟨d, hd, get?_of_step hstep⟩

/-- A step to a name goes into a directory. -/
lemma eq_concat_of_step (hidle : Path.isIdle name = false) (hdots : name ≠ "..") {d q : Place}
    (h : t.step d name = .ok q) : q = d ++ [name] := by
  rw [eq_go_of_step h, Place.go, if_neg (by simp [hidle]), if_neg hdots]

/-- A path to a name reaches a place of that name. -/
lemma getLast?_of_reach (hp : p.EndsWith before name) (hdots : name ≠ "..") {q : Place}
    (h : t.reach p = .ok q) : q.getLast? = some name := by
  rw [reach, textError?_of_reach h, hp.segments] at h
  dsimp only at h
  rw [walk_concat] at h
  obtain ⟨d, -, hstep⟩ := bind_eq_ok_iff.mp h
  rw [eq_concat_of_step hp.isIdle hdots hstep, List.getLast?_concat]

/-! ## The operations -/

lemma entrance_eq (hp : p.EndsWith before name) (htext : textError? p = none) (t : FileTree) :
    t.entrance p = t.enter (t.startOf p) before >>= fun d => .ok (d, name, false) := by
  have hname : (name == "") = false := by simpa using hp.ne_empty
  have hbackward : p.segments.reverse = name :: before.reverse := by
    rw [hp.segments, List.reverse_append, List.reverse_singleton, List.singleton_append]
  have hdrop : (name :: before.reverse).dropWhile (· == "") = name :: before.reverse := by
    rw [List.dropWhile_cons, hname]
    rfl
  have hslash : ((name :: before.reverse).head? == some "") = false := by simpa using hp.ne_empty
  unfold entrance
  rw [htext]
  dsimp only
  rw [hbackward, hdrop]
  dsimp only
  rw [List.reverse_reverse, enter_eq, bind_assoc, hslash]
  rfl

/-- **Writing** — the file is put at the place that the path reaches. -/
lemma write_eq (hp : p.EndsWith before name) (hdots : name ≠ "..") (t : FileTree)
    (content : ByteArray) :
    t.write p content = t.reach p >>= fun q =>
      if t.kind? q = some .directory then .error .isADirectory
      else .ok (t.put q (.file content)) := by
  have hname : ¬ (name = "." ∨ name = ".." ∨ false = true) := by
    rintro (rfl | rfl | h)
    · exact absurd hp.isIdle (by decide)
    · exact hdots rfl
    · exact Bool.noConfusion h
  unfold write
  cases htext : textError? p with
  | some e =>
    rw [entrance, reach, htext]
    rfl
  | none =>
    have hreach : t.reach p = t.enter (t.startOf p) before >>= fun d => t.step d name := by
      rw [reach, htext, hp.segments]
      exact walk_concat t _ before name
    rw [entrance_eq hp htext, hreach, bind_assoc, bind_assoc]
    congr 1
    funext d
    change (if name = "." ∨ name = ".." ∨ false = true then _ else _) = _
    rw [if_neg hname]
    congr 1
    funext q
    rw [kind?]
    cases t.get? q with
    | none => rfl
    | some e => cases e <;> rfl

lemma reach_root (t : FileTree) : t.reach ⟨"/"⟩ = .ok [] :=
  rfl

lemma reach_dot (t : FileTree) : t.reach ⟨"."⟩ = .ok t.origin := by
  have hstep := step_dot_eq_ok_iff.mpr ⟨rfl, t.get?_origin⟩
  change t.walk t.origin ["."] = _
  rw [walk_eq_foldlM]
  exact (bind_pure _).trans hstep

/-- The working directory exists. -/
lemma createDirectory_dot (t : FileTree) : t.createDirectory ⟨"."⟩ = .error .alreadyExists := by
  have hstep := step_dot_eq_ok_iff.mpr ⟨rfl, t.get?_origin⟩
  have hentrance : t.entrance ⟨"."⟩ = .ok (t.origin, ".", false) := by
    change (t.walk t.origin [] >>= fun p => t.step p "." >>= fun d => .ok (d, ".", false)) = _
    rw [walk_eq_foldlM]
    change (t.step t.origin "." >>= fun d => .ok (d, ".", false)) = _
    rw [hstep]
    rfl
  rw [createDirectory, hentrance]
  rfl

/-- **Creating a directory** — it is put at the place that the path reaches, if nothing is there. -/
lemma createDirectory_eq (hp : p.IsTidy) (t : FileTree) :
    t.createDirectory p = t.reach p >>= fun q =>
      match t.get? q with
      | some _ => .error .alreadyExists
      | none => .ok (t.put q .directory) := by
  obtain ⟨text⟩ := p
  rcases hp with htext | htext | ⟨before, name, hp⟩
  · obtain rfl : text = "/" := htext
    rfl
  · obtain rfl : text = "." := htext
    rw [createDirectory_dot, reach_dot]
    change _ = match t.get? t.origin with | some _ => _ | none => _
    rw [get?_origin]
  unfold createDirectory
  cases htext : textError? ⟨text⟩ with
  | some e =>
    rw [entrance, reach, htext]
    rfl
  | none =>
    have hreach : t.reach ⟨text⟩ =
        t.enter (t.startOf ⟨text⟩) before >>= fun d => t.step d name := by
      rw [reach, htext, hp.segments]
      exact walk_concat t _ before name
    rw [entrance_eq hp htext, hreach, bind_assoc, bind_assoc]
    cases hd : t.enter (t.startOf ⟨text⟩) before with
    | error e => rfl
    | ok d =>
      change (if name = "." ∨ name = ".." then _ else _) =
        t.step d name >>= _
      by_cases hdots : name = ".."
      · -- what two dots lead to exists
        obtain ⟨hstep, hget⟩ := step_dots_of_enter hd
        rw [if_pos (.inr hdots), hdots, hstep]
        change _ = match t.get? d.dropLast with | some _ => _ | none => _
        rw [hget]
      · have hdot : name ≠ "." := by
          rintro rfl
          exact absurd hp.isIdle (by decide)
        rw [if_neg (by simp [hdot, hdots])]
        rfl

lemma createDirectory_eq_ok_iff (hp : p.IsTidy) :
    t.createDirectory p = .ok u ↔
      ∃ q, t.reach p = .ok q ∧ t.get? q = none ∧ u = t.put q .directory := by
  rw [createDirectory_eq hp, bind_eq_ok_iff]
  refine exists_congr fun q => and_congr_right fun _ => ?_
  cases t.get? q <;> simp [eq_comm]

lemma createDirectory_eq_error_iff (hp : p.IsTidy) {cause : SystemError} :
    t.createDirectory p = .error cause ↔ t.reach p = .error cause ∨
      cause = .alreadyExists ∧ ∃ q, t.reach p = .ok q ∧ ∃ e, t.get? q = some e := by
  rw [createDirectory_eq hp, bind_eq_error_iff]
  refine or_congr_right ⟨?_, ?_⟩
  · rintro ⟨q, hreach, hq⟩
    cases hget : t.get? q with
    | none =>
      rw [hget] at hq
      exact absurd hq (by simp)
    | some e =>
      rw [hget] at hq
      exact ⟨(Except.error.inj hq).symm, q, hreach, e, hget⟩
  · rintro ⟨rfl, q, hreach, e, hget⟩
    exact ⟨q, hreach, by rw [hget]⟩

lemma growsTo_of_createDirectory (hp : p.IsTidy) (h : t.createDirectory p = .ok u) :
    t.GrowsTo u ∧ u.isDirectory p = true := by
  obtain ⟨q, hreach, hget, rfl⟩ := (createDirectory_eq_ok_iff hp).mp h
  have hgrows := growsTo_put hget
  refine ⟨hgrows, isDirectory_iff.mpr ⟨q, (reach_settled hgrows.keptIn p).ok hreach, ?_⟩⟩
  rcases hgrows.get?_eq q with hq | ⟨-, hq⟩
  · rw [get?_put _ q (isAround_eq_false (by simp [kind?, hget])), if_pos rfl]
  · exact hq

/-! ## Directories that cannot be created -/

/-- **Blocked paths** — no directory is at the path, none can be created there, and nothing is
missing that could be added. -/
structure Blocked (t : FileTree) (p : Path) (cause : SystemError) : Prop where
  create : t.createDirectory p = .error cause
  ne_notFound : cause ≠ .notFound
  isDirectory : t.isDirectory p = false

/-- What blocks a path is a failure on the way, or a file at its end. -/
lemma blocked_iff (hp : p.IsTidy) {cause : SystemError} :
    t.Blocked p cause ↔
      cause ≠ .notFound ∧ t.reach p = .error cause ∨
        cause = .alreadyExists ∧ ∃ q, t.reach p = .ok q ∧ t.kind? q = some .file := by
  constructor
  · rintro ⟨hcreate, hne, hdirectory⟩
    rcases (createDirectory_eq_error_iff hp).mp hcreate with hreach | ⟨rfl, q, hreach, e, he⟩
    · exact .inl ⟨hne, hreach⟩
    · cases e with
      | file c => exact .inr ⟨rfl, q, hreach, kind?_eq_file_iff.mpr ⟨c, he⟩⟩
      | directory =>
        rw [isDirectory_iff.mpr ⟨q, hreach, he⟩] at hdirectory
        exact Bool.noConfusion hdirectory
  · have hfalse : (∀ q, t.reach p = .ok q → t.get? q ≠ some .directory) →
        t.isDirectory p = false := by
      intro h
      rw [Bool.eq_false_iff]
      intro hdirectory
      obtain ⟨q, hq, hget⟩ := isDirectory_iff.mp hdirectory
      exact h q hq hget
    rintro (⟨hne, hreach⟩ | ⟨rfl, q, hreach, hkind⟩)
    · refine ⟨(createDirectory_eq_error_iff hp).mpr (.inl hreach), hne, hfalse fun q hq => ?_⟩
      rw [hreach] at hq
      exact absurd hq (by simp)
    · obtain ⟨c, hc⟩ := kind?_eq_file_iff.mp hkind
      refine ⟨(createDirectory_eq_error_iff hp).mpr (.inr ⟨rfl, q, hreach, _, hc⟩), by simp,
        hfalse fun r hr => ?_⟩
      rw [← Except.ok.inj (hreach.symm.trans hr), hc]
      simp

/-- A blocked path stays blocked. -/
lemma Blocked.mono (hp : p.IsTidy) {cause : SystemError} (h : t.Blocked p cause)
    (hkept : t.KeptIn u) : u.Blocked p cause := by
  have hsettled := reach_settled hkept p
  rcases (blocked_iff hp).mp h with ⟨hne, hreach⟩ | ⟨rfl, q, hreach, hkind⟩
  · exact (blocked_iff hp).mpr (.inl ⟨hne, hsettled.error hreach hne⟩)
  · exact (blocked_iff hp).mpr (.inr ⟨rfl, q, hsettled.ok hreach, hkept.kind?_eq q _ hkind⟩)

/-- A path behind a blocked one is blocked. What was told to exist there is met as no directory. -/
lemma Blocked.of_isParent (hp : p.EndsWith before name) (hparent : Path.IsParent parent p before)
    (htext : textError? p = none) {cause : SystemError} (h : t.Blocked parent cause) :
    ∃ cause', cause.Becomes cause' ∧ t.Blocked p cause' := by
  have htidy : p.IsTidy := .inr (.inr ⟨before, name, hp⟩)
  have hreach := reach_of_isParent hp hparent htext t
  rcases (blocked_iff hparent.isTidy).mp h with ⟨hne, hparentReach⟩ | ⟨rfl, q, hq, hkind⟩
  · rw [hparentReach] at hreach
    exact ⟨cause, .inl rfl, (blocked_iff htidy).mpr (.inl ⟨hne, hreach⟩)⟩
  · have hstep : t.step q name = .error .notADirectory := by rw [step_eq, hkind]
    rw [hq] at hreach
    exact ⟨.notADirectory, .inr ⟨rfl, rfl⟩,
      (blocked_iff htidy).mpr (.inl ⟨by simp, hreach.trans hstep⟩)⟩

/-! ## Directories with all around them -/

/-- **Attempts at a directory** — the directory is there afterwards, or it is blocked. -/
structure Attempted (t : FileTree) (p : Path) (a : Attempt) : Prop where
  grows : t.GrowsTo a.tree
  made : a.error? = none → a.tree.isDirectory p = true
  blocked : ∀ cause, a.error? = some cause →
    ∃ cause', cause.Becomes cause' ∧ a.tree.Blocked p cause'

/-- Where the directory is there, nothing is created. -/
lemma ensureDirectory_of_isDirectory (hp : p.IsTidy) (h : t.isDirectory p = true) :
    t.ensureDirectory p = ⟨t, none⟩ := by
  obtain ⟨q, hreach, hget⟩ := isDirectory_iff.mp h
  have hcreate : t.createDirectory p = .error .alreadyExists :=
    (createDirectory_eq_error_iff hp).mpr (.inr ⟨rfl, q, hreach, _, hget⟩)
  rw [ensureDirectory, hcreate]
  dsimp only
  rw [if_pos h]

lemma ensureDirectory_of_blocked {cause : SystemError} (h : t.Blocked p cause) :
    t.ensureDirectory p = ⟨t, some cause⟩ := by
  rw [ensureDirectory, h.create]
  dsimp only
  rw [h.isDirectory]
  rfl

lemma attempted_ensureDirectory (hp : p.IsTidy) (h : t.createDirectory p ≠ .error .notFound) :
    t.Attempted p (t.ensureDirectory p) := by
  by_cases hdirectory : t.isDirectory p = true
  · rw [ensureDirectory_of_isDirectory hp hdirectory]
    exact ⟨GrowsTo.refl t, fun _ => hdirectory, by simp⟩
  cases hcreate : t.createDirectory p with
  | ok u =>
    obtain ⟨hgrows, hmade⟩ := growsTo_of_createDirectory hp hcreate
    rw [ensureDirectory, hcreate]
    exact ⟨hgrows, fun _ => hmade, by simp⟩
  | error cause =>
    have hblocked : t.Blocked p cause :=
      ⟨hcreate, by rintro rfl; exact h hcreate, by simpa using hdirectory⟩
    rw [ensureDirectory_of_blocked hblocked]
    exact ⟨GrowsTo.refl t, by simp, fun c hc => ⟨cause, .inl (Option.some.inj hc), hblocked⟩⟩

/-- If something is missing on the way to a directory, it is around the path. -/
lemma exists_parent_of_notFound (hp : p.IsTidy) (h : t.createDirectory p = .error .notFound) :
    ∃ before name parent, p.EndsWith before name ∧ p.parent? = some parent ∧
      Path.IsParent parent p before ∧ textError? p = none := by
  have hreach : t.reach p = .error .notFound := by
    simpa using (createDirectory_eq_error_iff hp).mp h
  obtain ⟨text⟩ := p
  rcases hp with htext | htext | ⟨before, name, hp⟩
  · obtain rfl : text = "/" := htext
    exact absurd hreach (by simp [reach_root])
  · obtain rfl : text = "." := htext
    exact absurd hreach (by simp [reach_dot])
  obtain ⟨parent, hparent?, ⟨rfl, -⟩ | ⟨-, hparent⟩⟩ := hp.exists_parent
  · exact absurd hreach (reach_ne_notFound_of_single hp)
  · refine ⟨before, name, parent, hp, hparent?, hparent, ?_⟩
    by_contra htext
    obtain ⟨e, he⟩ := Option.ne_none_iff_exists'.mp htext
    rw [reach, he] at hreach
    exact textError?_ne_notFound hp (he.trans (congrArg some (Except.error.inj hreach)))

/-- Only the empty path has no components. -/
lemma components_ne_nil (h : p.text ≠ "") : p.components ≠ [] := by
  obtain ⟨s, more, hs⟩ := List.exists_cons_of_ne_nil p.segments_ne_nil
  rw [Path.components, hs]
  by_cases hempty : s = ""
  · subst hempty
    have habsolute : p.isAbsolute = true := by
      refine Path.isAbsolute_iff.mpr ?_
      cases more with
      | nil =>
        have htext := congrArg Path.text (Path.ofSegments_segments p)
        rw [hs] at htext
        exact absurd htext.symm h
      | cons r rest => exact ⟨r, rest, hs⟩
    simp [habsolute]
  · simp [hempty]

/-- If nothing is missing, no directory around the path is created. -/
lemma createUpTo_eq_ensureDirectory (h : t.createDirectory p ≠ .error .notFound) (n : Nat) :
    t.createUpTo p n = t.ensureDirectory p := by
  cases n with
  | zero => rfl
  | succ n =>
    unfold createUpTo
    split
    · rename_i heq _
      exact absurd heq h
    · rfl

/-- If something is missing, the parent comes first. -/
lemma createUpTo_succ_of_notFound (h : t.createDirectory p = .error .notFound)
    (hparent? : p.parent? = some parent) (hne : parent.text ≠ "") (n : Nat) :
    t.createUpTo p (n + 1) =
      match (t.createUpTo parent n).error? with
      | some _ => t.createUpTo parent n
      | none => (t.createUpTo parent n).tree.ensureDirectory p := by
  rw [createUpTo, h, hparent?]
  exact if_neg (components_ne_nil hne)

/-- The last of the directories on the way, where the ones around it have been attempted. -/
lemma Attempted.of_parent (hp : p.EndsWith before name) (hparent : Path.IsParent parent p before)
    (htext : textError? p = none) {a : Attempt} (h : t.Attempted parent a) :
    t.Attempted p (match a.error? with | some _ => a | none => a.tree.ensureDirectory p) := by
  have htidy : p.IsTidy := .inr (.inr ⟨before, name, hp⟩)
  cases herror : a.error? with
  | some cause =>
    refine ⟨h.grows, fun hnone => absurd (herror.symm.trans hnone) (by simp), fun c hc => ?_⟩
    obtain ⟨cause', hbecomes, hblocked⟩ := h.blocked c hc
    obtain ⟨cause'', hbecomes', hblocked'⟩ := hblocked.of_isParent hp hparent htext
    exact ⟨cause'', hbecomes.trans hbecomes', hblocked'⟩
  | none =>
    -- nothing is missing where the parent is there
    have hne : a.tree.createDirectory p ≠ .error .notFound := by
      intro heq
      refine reach_ne_notFound_of_isDirectory hp hparent (h.made herror) ?_
      simpa using (createDirectory_eq_error_iff htidy).mp heq
    have hattempted := attempted_ensureDirectory htidy hne
    exact ⟨h.grows.trans hattempted.grows, hattempted.made, hattempted.blocked⟩

/-- A path to a name has a segment more than its parent, if that is not the root. -/
lemma length_segments_parent (hp : p.EndsWith before name) (hparent : Path.IsParent parent p before)
    {n : ℕ} (hn : p.text = "/" ∨ p.segments.length ≤ n + 1) :
    parent.text = "/" ∨ parent.segments.length ≤ n := by
  have hlength : p.segments.length = before.length + 1 := by
    rw [hp.segments, List.length_append, List.length_singleton]
  have hbound := hn.resolve_left hp.text_ne_slash
  exact hparent.length_segments.imp_right fun hle => by omega

/-- A path to a name has a segment at least. -/
lemma exists_eq_succ (hp : p.EndsWith before name) {n : ℕ}
    (hn : p.text = "/" ∨ p.segments.length ≤ n) : ∃ m, n = m + 1 := by
  have hlength := hn.resolve_left hp.text_ne_slash
  rw [hp.segments, List.length_append, List.length_singleton] at hlength
  exact Nat.exists_eq_succ_of_ne_zero (by omega)

/-- **Creating up to a number of directories** — if the number is that of the segments, the
directory is there afterwards or is blocked.

**Proof sketch.** By induction on the number. If nothing is missing, the path itself decides. Else
the directories around the path come first, which have fewer segments: where these are blocked the
path is, and where they are there nothing is missing any more. -/
lemma attempted_createUpTo (n : Nat) (hp : p.IsTidy) (hn : p.text = "/" ∨ p.segments.length ≤ n)
    (t : FileTree) : t.Attempted p (t.createUpTo p n) := by
  induction n generalizing p with
  | zero =>
    have hroot : p = ⟨"/"⟩ := by
      rcases hn with htext | hlength
      · exact congrArg Path.mk htext
      · exact absurd (List.length_eq_zero_iff.mp (Nat.le_zero.mp hlength)) p.segments_ne_nil
    subst hroot
    exact attempted_ensureDirectory hp (by simp [show t.createDirectory ⟨"/"⟩ =
      .error .alreadyExists from rfl])
  | succ n ih =>
    by_cases h : t.createDirectory p = .error .notFound
    · obtain ⟨before, name, parent, hends, hparent?, hparent, htext⟩ :=
        exists_parent_of_notFound hp h
      rw [createUpTo_succ_of_notFound h hparent? hparent.ne_empty]
      refine Attempted.of_parent hends hparent htext (ih hparent.isTidy ?_)
      exact length_segments_parent hends hparent hn
    · rw [createUpTo_eq_ensureDirectory h]
      exact attempted_ensureDirectory hp h

/-- **Creating directories** — the directory is there afterwards, or it is blocked. -/
lemma attempted_createDirectories (hp : p.IsTidy) (t : FileTree) :
    t.Attempted p (t.createDirectories p) :=
  attempted_createUpTo _ hp (.inr (Nat.le_refl _)) t

/-- Where the directory is there, no directory around it is created. -/
lemma createUpTo_of_isDirectory (hp : p.IsTidy) (h : t.isDirectory p = true) (n : ℕ) :
    t.createUpTo p n = ⟨t, none⟩ := by
  obtain ⟨q, hreach, -⟩ := isDirectory_iff.mp h
  have hne : t.createDirectory p ≠ .error .notFound := by
    intro heq
    have hmissing : t.reach p = .error .notFound := by
      simpa using (createDirectory_eq_error_iff hp).mp heq
    exact absurd (hreach.symm.trans hmissing) (by simp)
  rw [createUpTo_eq_ensureDirectory hne, ensureDirectory_of_isDirectory hp h]

lemma createDirectories_of_isDirectory (hp : p.IsTidy) (h : t.isDirectory p = true) :
    t.createDirectories p = ⟨t, none⟩ :=
  createUpTo_of_isDirectory hp h _

lemma createDirectories_of_blocked {cause : SystemError} (h : t.Blocked p cause) :
    t.createDirectories p = ⟨t, some cause⟩ := by
  have hne : t.createDirectory p ≠ .error .notFound := by
    rw [h.create]
    exact fun heq => h.ne_notFound (Except.error.inj heq)
  rw [createDirectories, createUpTo_eq_ensureDirectory hne, ensureDirectory_of_blocked h]

end FileTree

end StyleSplit
