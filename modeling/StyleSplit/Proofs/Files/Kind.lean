import Mathlib.Data.List.Basic
import Mathlib.Tactic.Common
import StyleSplit.Files.Creation
set_option autoImplicit false

/-!
# Trees that keep their files and directories

Operations on files take nothing away: what is a file stays a file, what is a directory stays a
directory. A path that leads somewhere in a tree therefore leads there in all later ones, and a
look-up that fails goes on to fail, unless it failed because something was missing.

## Main definitions

* `StyleSplit.FileTree.kind?` — whether a file or a directory is at a place.
* `StyleSplit.FileTree.KeptIn` — a tree whose files and directories are in another one.
* `StyleSplit.FileTree.GrowsTo` — a tree to which directories are added.
* `StyleSplit.FileTree.Settled` — an answer that stays as it is, unless something was missing.
* `StyleSplit.FileTree.enter` — the directory that segments lead to.
* `StyleSplit.FileTree.reach`, `StyleSplit.FileTree.place?`, `StyleSplit.FileTree.content?` — where
  a path leads to, and the content of the file there.

## Main results

* `StyleSplit.FileTree.mem_children_iff` — the names in a directory.
* `StyleSplit.FileTree.reach_settled` — paths in later trees.
* `StyleSplit.FileTree.step_dots_of_enter` — the way out of a directory leads to a directory.
-/

namespace StyleSplit

/-- **Kinds** — what an entry is, whatever its content. -/
inductive Kind
  | file
  | directory
  deriving DecidableEq

/-- The kind of an entry. -/
def Entry.kind : Entry → Kind
  | .file _ => .file
  | .directory => .directory

namespace FileTree

/-- Whether a file or a directory is at a place. -/
def kind? (t : FileTree) (p : Place) : Option Kind :=
  (t.get? p).map Entry.kind

/-- **Kept trees** — every file of the tree is a file of the other one, and every directory a
directory; the working directory is the same. -/
structure KeptIn (t u : FileTree) : Prop where
  origin_eq : u.origin = t.origin
  kind?_eq : ∀ p k, t.kind? p = some k → u.kind? p = some k

/-- **Growth** — some directories are added where nothing was, and all else is the same. -/
structure GrowsTo (t u : FileTree) : Prop where
  origin_eq : u.origin = t.origin
  get?_eq : ∀ p, u.get? p = t.get? p ∨ t.get? p = none ∧ u.get? p = some .directory

variable {t u v : FileTree} {p : Place}

lemma kind?_eq_directory_iff : t.kind? p = some .directory ↔ t.get? p = some .directory := by
  unfold kind?
  cases t.get? p with
  | none => simp
  | some e => cases e <;> simp [Entry.kind]

lemma kind?_eq_file_iff : t.kind? p = some .file ↔ ∃ c, t.get? p = some (.file c) := by
  unfold kind?
  cases t.get? p with
  | none => simp
  | some e => cases e <;> simp [Entry.kind]

lemma kind?_eq_none_iff : t.kind? p = none ↔ t.get? p = none :=
  Option.map_eq_none_iff

lemma KeptIn.refl (t : FileTree) : t.KeptIn t :=
  ⟨rfl, fun _ _ h => h⟩

lemma KeptIn.trans (h : t.KeptIn u) (h' : u.KeptIn v) : t.KeptIn v :=
  ⟨h'.origin_eq.trans h.origin_eq, fun p k hk => h'.kind?_eq p k (h.kind?_eq p k hk)⟩

/-- A directory stays one. -/
lemma KeptIn.directory (h : t.KeptIn u) (hp : t.get? p = some .directory) :
    u.get? p = some .directory :=
  kind?_eq_directory_iff.mp (h.kind?_eq p _ (kind?_eq_directory_iff.mpr hp))

/-- A file stays one. -/
lemma KeptIn.file (h : t.KeptIn u) {c : ByteArray} (hp : t.get? p = some (.file c)) :
    ∃ c', u.get? p = some (.file c') :=
  kind?_eq_file_iff.mp (h.kind?_eq p _ (kind?_eq_file_iff.mpr ⟨c, hp⟩))

lemma GrowsTo.refl (t : FileTree) : t.GrowsTo t :=
  ⟨rfl, fun _ => .inl rfl⟩

lemma GrowsTo.trans (h : t.GrowsTo u) (h' : u.GrowsTo v) : t.GrowsTo v := by
  refine ⟨h'.origin_eq.trans h.origin_eq, fun p => ?_⟩
  rcases h'.get?_eq p with hv | ⟨hu, hv⟩
  · rw [hv]
    exact h.get?_eq p
  · rcases h.get?_eq p with ht | ⟨-, hu'⟩
    · exact .inr ⟨ht ▸ hu, hv⟩
    · rw [hu] at hu'
      exact absurd hu' (by simp)

lemma GrowsTo.keptIn (h : t.GrowsTo u) : t.KeptIn u := by
  refine ⟨h.origin_eq, fun p k hk => ?_⟩
  rcases h.get?_eq p with hu | ⟨hnone, -⟩
  · rwa [kind?, hu]
  · rw [kind?_eq_none_iff.mpr hnone] at hk
    exact absurd hk (by simp)

/-! ## Changed trees -/

lemma isAround_iff : t.isAround p = true ↔ p <+: t.origin :=
  List.isPrefixOf_iff_prefix

/-- The working directory and those around it are directories. -/
lemma get?_of_isPrefix (h : p <+: t.origin) : t.get? p = some .directory := by
  rw [get?, if_pos (isAround_iff.mpr h)]

lemma get?_origin (t : FileTree) : t.get? t.origin = some .directory :=
  get?_of_isPrefix List.prefix_rfl

lemma isAround_eq_false (h : t.kind? p ≠ some .directory) : t.isAround p = false := by
  rw [Bool.eq_false_iff, ne_eq, isAround_iff]
  exact fun hprefix => h (kind?_eq_directory_iff.mpr (get?_of_isPrefix hprefix))

/-- A new directory makes a tree grow. -/
lemma growsTo_put (h : t.get? p = none) : t.GrowsTo (t.put p .directory) := by
  have haround : t.isAround p = false := isAround_eq_false (by simp [kind?, h])
  refine ⟨rfl, fun q => ?_⟩
  rw [get?_put _ q haround]
  by_cases hq : q = p
  · subst hq
    exact .inr ⟨h, by simp⟩
  · exact .inl (by simp [hq])

/-- A file may be put where no directory is. -/
lemma get?_put_file (h : t.kind? p ≠ some .directory) (c : ByteArray) (q : Place) :
    (t.put p (.file c)).get? q = if q = p then some (.file c) else t.get? q :=
  get?_put _ q (isAround_eq_false h)

/-- A file that is put takes no file and no directory away. -/
lemma keptIn_put_file (h : t.kind? p ≠ some .directory) (c : ByteArray) :
    t.KeptIn (t.put p (.file c)) := by
  refine ⟨rfl, fun q k hk => ?_⟩
  rw [kind?, get?_put_file h]
  by_cases hq : q = p
  · subst hq
    cases k with
    | file => simp [Entry.kind]
    | directory => exact absurd hk h
  · rwa [if_neg hq]

/-! ## What is in a directory -/

lemma ahead?_eq_some_iff {name : String} : t.ahead? p = some name ↔ p ++ [name] <+: t.origin := by
  rw [ahead?, Option.ite_none_right_eq_some, isAround_iff]
  constructor
  · rintro ⟨⟨rest, hrest⟩, hhead⟩
    rw [← hrest, List.drop_left] at hhead
    obtain ⟨more, rfl⟩ := List.head?_eq_some_iff.mp hhead
    exact ⟨more, by rw [← hrest, List.append_assoc, List.singleton_append]⟩
  · rintro ⟨more, hmore⟩
    rw [List.append_assoc] at hmore
    exact ⟨⟨[name] ++ more, hmore⟩, by rw [← hmore, List.drop_left]; rfl⟩

lemma get?_ne_none_iff : t.get? p ≠ none ↔ p <+: t.origin ∨ p ∈ t.entries.map (·.1) := by
  rw [get?, ← isAround_iff]
  cases t.isAround p with
  | true => simp
  | false => simp

/-- **A directory lists what is in it** — the names at which there is something. -/
theorem mem_children_iff {name : String} :
    name ∈ t.children p ↔ t.get? (p ++ [name]) ≠ none := by
  have hlast : ∀ q : Place,
      (if q.dropLast = p then q.getLast? else none) = some name ↔ q = p ++ [name] := by
    intro q
    rw [Option.ite_none_right_eq_some, List.getLast?_eq_some_iff]
    constructor
    · rintro ⟨rfl, front, rfl⟩
      rw [List.dropLast_concat]
    · rintro rfl
      exact ⟨List.dropLast_concat, p, rfl⟩
  rw [children, List.mem_mergeSort, List.mem_append, Option.mem_toList, get?_ne_none_iff,
    ← ahead?_eq_some_iff]
  simp only [List.mem_filter, List.mem_filterMap, hlast, exists_eq_right, bne_iff_ne]
  rw [or_and_left, and_iff_left]
  exact (eq_or_ne _ _).imp Eq.symm id

/-! ## Answers that stay -/

lemma bind_eq_ok_iff {α β : Type} {x : Except SystemError α} {f : α → Except SystemError β}
    {b : β} : x >>= f = .ok b ↔ ∃ a, x = .ok a ∧ f a = .ok b := by
  cases x with
  | error e => simp [bind, Except.bind]
  | ok a => simp [bind, Except.bind]

lemma bind_eq_error_iff {α β : Type} {x : Except SystemError α} {f : α → Except SystemError β}
    {e : SystemError} :
    x >>= f = .error e ↔ x = .error e ∨ ∃ a, x = .ok a ∧ f a = .error e := by
  cases x with
  | error e => simp [bind, Except.bind]
  | ok a => simp [bind, Except.bind]

/-- **Settled answers** — the second answer is the first one, unless something was missing at
first. -/
def Settled {α : Type} (x y : Except SystemError α) : Prop :=
  x ≠ .error .notFound → y = x

lemma Settled.ok {α : Type} {x y : Except SystemError α} (h : Settled x y) {a : α}
    (hx : x = .ok a) : y = .ok a := by
  rw [h (by simp [hx]), hx]

lemma Settled.error {α : Type} {x y : Except SystemError α} (h : Settled x y) {e : SystemError}
    (hx : x = .error e) (he : e ≠ .notFound) : y = .error e := by
  rw [h (by simpa [hx] using he), hx]

lemma Settled.bind {α β : Type} {x y : Except SystemError α} {f g : α → Except SystemError β}
    (h : Settled x y) (hf : ∀ a, Settled (f a) (g a)) : Settled (x >>= f) (y >>= g) := by
  intro hne
  cases x with
  | error e =>
    have hy : y = .error e := h.error rfl (by rintro rfl; exact hne rfl)
    rw [hy]
    rfl
  | ok a =>
    have hy : y = .ok a := h.ok rfl
    rw [hy]
    exact hf a hne

lemma map_eq_ok_iff {ε α β : Type} {x : Except ε α} {f : α → β} {b : β} :
    x.map f = .ok b ↔ ∃ a, x = .ok a ∧ f a = b := by
  cases x <;> simp [Except.map]

lemma map_eq_error_iff {ε α β : Type} {x : Except ε α} {f : α → β} {e : ε} :
    x.map f = .error e ↔ x = .error e := by
  cases x <;> simp [Except.map]

/-- A step needs to know the kind of what is at a place only. -/
lemma step_eq (t : FileTree) (p : Place) (s : String) :
    t.step p s =
      match t.kind? p with
      | none => .error .notFound
      | some .file => .error .notADirectory
      | some .directory =>
        if Path.isIdle s then .ok p
        else if s = ".." then .ok p.dropLast
        else if maxNameBytes < s.utf8ByteSize then .error .nameTooLong
        else .ok (p ++ [s]) := by
  unfold step kind?
  cases t.get? p with
  | none => rfl
  | some e => cases e <;> rfl

lemma step_settled (h : t.KeptIn u) (p : Place) (s : String) :
    Settled (t.step p s) (u.step p s) := by
  intro hne
  rw [step_eq] at hne
  rw [step_eq, step_eq t]
  cases hk : t.kind? p with
  | none => exact absurd (by rw [hk]) hne
  | some k => rw [h.kind?_eq p k hk]

lemma foldlM_step_settled (h : t.KeptIn u) (p : Place) (segments : List String) :
    Settled (segments.foldlM t.step p) (segments.foldlM u.step p) := by
  induction segments generalizing p with
  | nil => exact fun _ => rfl
  | cons s segments ih =>
    rw [List.foldlM_cons, List.foldlM_cons]
    exact (step_settled h p s).bind ih

/-- A walk leads to the same place in a later tree. -/
lemma walk_settled (h : t.KeptIn u) (p : Place) (segments : List String) :
    Settled (t.walk p segments) (u.walk p segments) := by
  rw [walk_eq_foldlM, walk_eq_foldlM]
  exact foldlM_step_settled h p segments

/-! ## Directories -/

/-- **Entering** — the directory that segments lead to. -/
def enter (t : FileTree) (start : Place) (segments : List String) : Except SystemError Place :=
  (segments ++ ["."]).foldlM t.step start

lemma enter_eq (t : FileTree) (start : Place) (segments : List String) :
    t.enter start segments = t.walk start segments >>= fun p => t.step p "." := by
  rw [enter, walk_eq_foldlM, List.foldlM_append]
  simp

/-- A segment that names nothing leads from a directory to itself. -/
lemma step_of_isIdle {s : String} (hs : Path.isIdle s) (t : FileTree) (p : Place) :
    t.step p s = t.step p "." := by
  have hdot : Path.isIdle "." = true := by decide
  rw [step_eq, step_eq, hs, hdot]
  simp only [if_true]

lemma step_dot_eq_ok_iff {q : Place} :
    t.step p "." = .ok q ↔ q = p ∧ t.get? p = some .directory := by
  have hdot : Path.isIdle "." = true := by decide
  rw [step_eq, hdot, ← kind?_eq_directory_iff]
  cases t.kind? p with
  | none => simp
  | some k => cases k <;> simp [eq_comm]

/-- Only from a directory leads a step further. -/
lemma step_dot_bind (t : FileTree) (p : Place) (s : String) :
    (t.step p "." >>= fun q => t.step q s) = t.step p s := by
  have hdot : Path.isIdle "." = true := by decide
  rw [step_eq t p ".", step_eq t p s, hdot]
  cases hk : t.kind? p with
  | none => rfl
  | some k =>
    cases k with
    | file => rfl
    | directory =>
      change t.step p s = _
      rw [step_eq, hk]

/-- A step leads on from directories only. -/
lemma get?_of_step {q : Place} {s : String} (h : t.step p s = .ok q) :
    t.get? p = some .directory := by
  rw [← step_dot_bind] at h
  obtain ⟨r, hr, -⟩ := bind_eq_ok_iff.mp h
  exact (step_dot_eq_ok_iff.mp hr).2

/-- A step leads to the place that its segment names. -/
lemma eq_go_of_step {q : Place} {s : String} (h : t.step p s = .ok q) : q = p.go s := by
  rw [step, get?_of_step h] at h
  dsimp only at h
  rw [Place.go]
  split_ifs at h ⊢ with hidle hdots
  · exact (Except.ok.inj h).symm
  · exact (Except.ok.inj h).symm
  · exact (Except.ok.inj h).symm

lemma enter_concat (t : FileTree) (start : Place) (segments : List String) (s : String) :
    t.enter start (segments ++ [s]) =
      t.enter start segments >>= fun p => t.step p s >>= fun q => t.step q "." := by
  rw [enter_eq, enter_eq, walk_eq_foldlM, walk_eq_foldlM, List.foldlM_append, bind_assoc,
    bind_assoc]
  congr 1
  funext p
  rw [← bind_assoc, step_dot_bind]
  simp

lemma enter_nil (t : FileTree) (start : Place) : t.enter start [] = t.step start "." :=
  bind_pure _

lemma enter_cons (t : FileTree) (start : Place) (s : String) (segments : List String) :
    t.enter start (s :: segments) = t.step start s >>= fun p => t.enter p segments := by
  rw [enter, List.cons_append, List.foldlM_cons]
  rfl

/-- Only from a directory can one be entered. -/
lemma step_dot_bind_enter (t : FileTree) (p : Place) (segments : List String) :
    (t.step p "." >>= fun q => t.enter q segments) = t.enter p segments := by
  obtain ⟨s, more, hs⟩ := List.exists_cons_of_ne_nil (l := segments ++ ["."]) (by simp)
  simp only [enter, hs, List.foldlM_cons]
  rw [← bind_assoc, step_dot_bind]

lemma enter_append (t : FileTree) (start : Place) (front segments : List String) :
    t.enter start (front ++ segments) =
      t.enter start front >>= fun d => t.enter d segments := by
  induction front generalizing start with
  | nil => rw [enter_nil, step_dot_bind_enter, List.nil_append]
  | cons s front ih =>
    rw [List.cons_append, enter_cons, enter_cons, bind_assoc]
    simp only [ih]

/-- Segments that name nothing may be left out on the way. -/
lemma enter_filter (t : FileTree) (start : Place) (segments : List String) :
    t.enter start segments = t.enter start (segments.filter (!Path.isIdle ·)) := by
  induction segments generalizing start with
  | nil => rfl
  | cons s segments ih =>
    by_cases hs : Path.isIdle s = true
    · -- the step stays where it is, if it is at a directory
      rw [List.filter_cons_of_neg (by simp [hs]), ← ih, enter_cons, step_of_isIdle hs,
        step_dot_bind_enter]
    · rw [List.filter_cons_of_pos (by simpa using hs), enter_cons, enter_cons]
      congr 1
      funext q
      exact ih q

/-- What is entered is a directory. -/
lemma get?_of_enter {start d : Place} {segments : List String}
    (h : t.enter start segments = .ok d) : t.get? d = some .directory := by
  rw [enter_eq] at h
  obtain ⟨p, -, hp⟩ := bind_eq_ok_iff.mp h
  obtain ⟨rfl, hget⟩ := step_dot_eq_ok_iff.mp hp
  exact hget

/-! ### The way out of a directory -/

/-- **Rooted places** — all that is around a place is a directory. -/
def Rooted (t : FileTree) (p : Place) : Prop :=
  ∀ q, q <+: p → q ≠ p → t.get? q = some .directory

/-- Paths begin at the root or in the working directory. -/
lemma startOf_isPrefix (t : FileTree) (path : Path) : t.startOf path <+: t.origin := by
  unfold startOf
  split
  · exact List.nil_prefix
  · exact List.prefix_rfl

/-- Where a path begins depends on whether it is absolute. -/
lemma startOf_congr {p q : Path} (h : p.isAbsolute = q.isAbsolute) (t : FileTree) :
    t.startOf p = t.startOf q := by
  rw [startOf, startOf, h]

lemma rooted_startOf (t : FileTree) (path : Path) : t.Rooted (t.startOf path) :=
  fun _ hq _ => get?_of_isPrefix (hq.trans (t.startOf_isPrefix path))

/-- All that is around a place is around what the place holds. -/
lemma Rooted.concat {s : String} (h : t.Rooted p) (hp : t.get? p = some .directory) :
    t.Rooted (p ++ [s]) := by
  intro q hq hne
  rcases List.prefix_concat_iff.mp hq with rfl | hq
  · exact absurd rfl hne
  · by_cases heq : q = p
    · rw [heq]
      exact hp
    · exact h q hq heq

lemma Rooted.dropLast (h : t.Rooted p) (hp : t.get? p = some .directory) :
    t.Rooted p.dropLast ∧ t.get? p.dropLast = some .directory := by
  by_cases hnil : p = []
  · rw [hnil] at h hp ⊢
    exact ⟨h, hp⟩
  have hfront : p.dropLast <+: p := List.dropLast_prefix p
  have hdiffer : p.dropLast ≠ p := fun heq => by
    have hlength := congrArg List.length heq
    rw [List.length_dropLast] at hlength
    have := List.length_pos_of_ne_nil hnil
    omega
  refine ⟨fun q hq hqne => h q (hq.trans hfront) ?_, h _ hfront hdiffer⟩
  rintro rfl
  exact hqne (hfront.eq_of_length_le hq.length_le).symm

lemma Rooted.step {q : Place} {s : String} (h : t.Rooted p) (hs : t.step p s = .ok q) :
    t.Rooted q := by
  have hp := get?_of_step hs
  rw [eq_go_of_step hs, Place.go]
  split_ifs with hidle hdots
  · exact h
  · exact (h.dropLast hp).1
  · exact h.concat hp

lemma Rooted.walk {q : Place} {segments : List String} (h : t.Rooted p)
    (hw : t.walk p segments = .ok q) : t.Rooted q := by
  rw [walk_eq_foldlM] at hw
  induction segments generalizing p with
  | nil => rwa [← Except.ok.inj (show Except.ok p = .ok q from hw)]
  | cons s segments ih =>
    rw [List.foldlM_cons] at hw
    obtain ⟨r, hs, hr⟩ := bind_eq_ok_iff.mp hw
    exact ih (h.step hs) hr

/-- The way out of a directory leads to a directory. -/
lemma step_dots_of_enter {path : Path} {segments : List String} {d : Place}
    (h : t.enter (t.startOf path) segments = .ok d) :
    t.step d ".." = .ok d.dropLast ∧ t.get? d.dropLast = some .directory := by
  have hd := get?_of_enter h
  have hrooted : t.Rooted d := by
    rw [enter, ← walk_eq_foldlM] at h
    exact (rooted_startOf t path).walk h
  refine ⟨?_, (hrooted.dropLast hd).2⟩
  rw [step_eq, kind?_eq_directory_iff.mpr hd]
  rfl

/-! ## Paths -/

/-- **Reaching** — the place that the text of a path and the segments in it lead to. Nothing need be
there. -/
def reach (t : FileTree) (path : Path) : Except SystemError Place :=
  match textError? path with
  | some e => .error e
  | none => t.walk (t.startOf path) path.segments

/-- The place of what a path leads to. -/
def place? (t : FileTree) (path : Path) : Option Place :=
  (t.follow path).toOption.map (·.1)

/-- The content of the file that a path leads to. -/
def content? (t : FileTree) (path : Path) : Option ByteArray :=
  match t.follow path with
  | .ok (_, .file c) => some c
  | _ => none

variable {path : Path}

/-- A path begins where it began. -/
lemma KeptIn.startOf (h : t.KeptIn u) (path : Path) : u.startOf path = t.startOf path := by
  rw [FileTree.startOf, FileTree.startOf, h.origin_eq]

lemma reach_settled (h : t.KeptIn u) (path : Path) : Settled (t.reach path) (u.reach path) := by
  unfold reach
  rw [h.startOf]
  cases textError? path with
  | some e => exact fun _ => rfl
  | none => exact walk_settled h _ _

lemma follow_eq (t : FileTree) (path : Path) :
    t.follow path = t.reach path >>= fun p =>
      match t.get? p with
      | none => .error .notFound
      | some e => .ok (p, e) := by
  unfold follow reach
  cases textError? path <;> rfl

lemma follow_eq_ok_iff {e : Entry} :
    t.follow path = .ok (p, e) ↔ t.reach path = .ok p ∧ t.get? p = some e := by
  rw [follow_eq, bind_eq_ok_iff]
  constructor
  · rintro ⟨q, hreach, hq⟩
    split at hq
    · exact absurd hq (by simp)
    · rename_i hget
      obtain ⟨rfl, rfl⟩ := Prod.mk.inj (Except.ok.inj hq)
      exact ⟨hreach, hget⟩
  · rintro ⟨hreach, hget⟩
    exact ⟨p, hreach, by rw [hget]⟩

lemma isDirectory_iff :
    t.isDirectory path = true ↔ ∃ p, t.reach path = .ok p ∧ t.get? p = some .directory := by
  simp only [← follow_eq_ok_iff]
  unfold isDirectory
  split
  · rename_i q hq
    exact ⟨fun _ => ⟨q, hq⟩, fun _ => rfl⟩
  · rename_i hne
    constructor
    · exact fun h => absurd h (by simp)
    · rintro ⟨q, hq⟩
      exact absurd hq (hne q)

lemma place?_eq_some_iff :
    t.place? path = some p ↔ t.reach path = .ok p ∧ ∃ e, t.get? p = some e := by
  have hfollow : t.place? path = some p ↔ ∃ e, t.follow path = .ok (p, e) := by
    unfold place?
    cases t.follow path with
    | error e => simp [Except.toOption]
    | ok x => simp [Except.toOption, Prod.ext_iff]
  simp only [hfollow, follow_eq_ok_iff, exists_and_left]

lemma content?_eq_some_iff {c : ByteArray} :
    t.content? path = some c ↔ ∃ p, t.reach path = .ok p ∧ t.get? p = some (.file c) := by
  simp only [← follow_eq_ok_iff]
  unfold content?
  split
  · rename_i q c' h
    rw [h]
    simp
  · rename_i h
    simp only [reduceCtorEq, false_iff, not_exists]
    exact fun q hq => h q c hq

/-- The file at the place of a path is the file of the path. -/
lemma content?_of_place? (hp : t.place? path = some p) {c : ByteArray}
    (hc : t.get? p = some (.file c)) : t.content? path = some c :=
  content?_eq_some_iff.mpr ⟨p, (place?_eq_some_iff.mp hp).1, hc⟩

/-- A path goes on to lead where it leads. -/
lemma KeptIn.place? (h : t.KeptIn u) (hp : t.place? path = some p) : u.place? path = some p := by
  obtain ⟨hreach, e, he⟩ := place?_eq_some_iff.mp hp
  have hkind : u.kind? p = some e.kind := h.kind?_eq p _ (by rw [kind?, he]; rfl)
  obtain ⟨e', he', -⟩ := Option.map_eq_some_iff.mp hkind
  exact place?_eq_some_iff.mpr ⟨(reach_settled h path).ok hreach, e', he'⟩

/-- A path to a file goes on to lead to a file. -/
lemma KeptIn.content?_eq_none (h : t.KeptIn u) (hp : u.content? path = none) :
    t.content? path = none := by
  by_contra hne
  obtain ⟨c, hc⟩ := Option.ne_none_iff_exists'.mp hne
  obtain ⟨p, hreach, hget⟩ := content?_eq_some_iff.mp hc
  obtain ⟨c', hget'⟩ := h.file hget
  have hsome := content?_eq_some_iff.mpr ⟨p, (reach_settled h path).ok hreach, hget'⟩
  exact absurd (hp.symm.trans hsome) (by simp)

/-- A path to a directory goes on to lead to one. -/
lemma KeptIn.isDirectory (h : t.KeptIn u) (hp : t.isDirectory path = true) :
    u.isDirectory path = true := by
  obtain ⟨p, hreach, hget⟩ := isDirectory_iff.mp hp
  exact isDirectory_iff.mpr ⟨p, (reach_settled h path).ok hreach, h.directory hget⟩

end FileTree

end StyleSplit
