import Mathlib
import StyleSplit.Run.Discovery
set_option autoImplicit false

/-!
# Discovery as a search

Discovery goes through the patterns of a target and through what each of them stands for, and keeps
every file that it has not met before. What patterns stand for is told by a glob, which is any
function here: it may refuse a pattern, and among what it gives there may be places that it could not
look into. Neither these nor directories count as met.

What is found is said without the search: the files that the patterns stand for, one pattern after
the other, each where it stands first.

## Main definitions

* `StyleSplit.Hit`, `StyleSplit.Glob` — what a pattern stands for.
* `StyleSplit.search` — the search, one hit after the other.
* `StyleSplit.matched`, `StyleSplit.firsts` — the files that patterns stand for, and each path of a
  list where it stands first.
* `StyleSplit.FileTree.glob` — the glob of a file tree.

## Main results

* `StyleSplit.search_of_refused` — the first refused pattern decides.
* `StyleSplit.search_of_granted` — what is found if no pattern is refused.
* `StyleSplit.discover_eq_search` — discovery in a file tree is a search.
* `StyleSplit.search_spec` — all of this together.
-/

namespace StyleSplit

/-! ## Globs -/

/-- **Hits** — one of the things that a pattern stands for. -/
inductive Hit
  | path (p : Path)
  /-- A directory that could not be looked into. -/
  | unreadable (directory : Path)
  deriving DecidableEq, Repr, Inhabited

/-- **Globs** — what each pattern stands for, or why it is refused. -/
abbrev Glob := String → Except PatternError (List Hit)

/-- The glob of a file tree, all of which can be looked into. -/
def FileTree.glob (tree : FileTree) : Glob := fun asked =>
  (Pattern.parse asked).map fun p => (tree.expand p).map .path

/-- Whether a glob does not refuse a pattern. -/
def Glob.Grants (glob : Glob) (asked : String) : Prop :=
  ∃ hits, glob asked = .ok hits

/-! ## The search -/

/-- Where a search stands: the components of all files met, and the sources found. -/
structure Search where
  seen : List (List String)
  files : List SourceFile

section

variable (glob : Glob) (isFile : Path → Bool)

/-- **One hit** — a file that was not met before is a source; all else is passed over. -/
def Search.visit (destination : Path) (s : Search) : Hit → Search
  | .unreadable _ => s
  | .path p =>
    if isFile p = false ∨ s.seen.contains p.components then s
    else ⟨p.components :: s.seen, s.files ++ [⟨p, destinationOf p destination⟩]⟩

/-- **One pattern** — all its hits in order. -/
def Search.follow (destination : Path) (s : Search) (asked : String) : Except Failure Search :=
  match glob asked with
  | .error e => .error (.pattern asked e)
  | .ok hits => .ok (hits.foldl (visit isFile destination) s)

/-- **The search** — all patterns in order. It must find at least one file. -/
def search (target : Target) : Except Failure (List SourceFile) := do
  let s ← target.sources.foldlM (Search.follow glob isFile target.destination) ⟨[], []⟩
  if s.files.isEmpty then .error (.noInput target.sources) else return s.files

/-! ## What there is to find -/

/-- The files among hits. -/
def filesAmong (hits : List Hit) : List Path :=
  hits.filterMap fun
    | .path p => if isFile p then some p else none
    | .unreadable _ => none

/-- **Matched files** — the files that patterns stand for, pattern by pattern. -/
def matched (patterns : List String) : List Path :=
  patterns.flatMap fun asked => filesAmong isFile ((glob asked).toOption.getD [])

/-- **First occurrences** — the paths of a list that no path before them equals. Paths are equal if
their components are. -/
def firsts (paths : List Path) : List Path :=
  paths.zipIdx.filterMap fun (p, i) =>
    if ∃ q ∈ paths.take i, p.components = q.components then none else some p

end

/-! ## First occurrences -/

/-- Going through a list with the components met so far keeps the paths that are new: neither met
before nor equal to an earlier path. -/
lemma distinctFrom_eq (seen : List (List String)) (paths : List Path) :
    distinctFrom seen paths = paths.zipIdx.filterMap fun (p, i) =>
      if p.components ∈ seen ∨ ∃ q ∈ paths.take i, p.components = q.components then none
      else some p := by
  induction paths generalizing seen with
  | nil => rfl
  | cons q more ih =>
    rw [List.zipIdx_cons', List.filterMap_cons, List.filterMap_map]
    simp only [distinctFrom, List.take_zero, List.not_mem_nil, false_and, exists_false, or_false]
    split_ifs with hq
    · rw [ih]
      refine List.filterMap_congr fun x _ => ?_
      by_cases hx : x.1.components = q.components <;> simp [hx, hq]
    · rw [ih]
      refine congrArg (q :: ·) (List.filterMap_congr fun x _ => ?_)
      by_cases hx : x.1.components = q.components <;> simp [hx]

lemma distinct_eq_firsts (paths : List Path) : distinct paths = firsts paths := by
  rw [distinct, distinctFrom_eq, firsts]
  simp only [List.not_mem_nil, false_or]

lemma notMem_of_mem_distinctFrom {seen : List (List String)} {paths : List Path} {p : Path}
    (h : p ∈ distinctFrom seen paths) : p.components ∉ seen := by
  induction paths generalizing seen with
  | nil => exact absurd h List.not_mem_nil
  | cons q more ih =>
    rw [distinctFrom] at h
    split_ifs at h with hq
    · exact ih h
    · rcases List.mem_cons.mp h with rfl | h
      · exact hq
      · exact fun hseen => ih h (List.mem_cons_of_mem _ hseen)

lemma nodup_distinctFrom (seen : List (List String)) (paths : List Path) :
    ((distinctFrom seen paths).map Path.components).Nodup := by
  induction paths generalizing seen with
  | nil => exact List.nodup_nil
  | cons q more ih =>
    rw [distinctFrom]
    split_ifs with hq
    · exact ih seen
    · refine List.nodup_cons.mpr ⟨fun hmem => ?_, ih _⟩
      obtain ⟨p, hp, heq⟩ := List.mem_map.mp hmem
      exact notMem_of_mem_distinctFrom hp (heq ▸ List.mem_cons_self)

/-- No path stands twice among first occurrences. -/
lemma nodup_firsts (paths : List Path) : ((firsts paths).map Path.components).Nodup := by
  rw [← distinct_eq_firsts]
  exact nodup_distinctFrom [] paths

/-! ## What the search finds -/

section

variable {glob : Glob} {isFile : Path → Bool}

/-- **Hits in a row** — what they add to the sources are the files among them that are new. -/
lemma files_foldl_visit (destination : Path) (hits : List Hit) (s : Search) :
    (hits.foldl (Search.visit isFile destination) s).files =
      s.files ++ (distinctFrom s.seen (filesAmong isFile hits)).map fun p =>
        ⟨p, destinationOf p destination⟩ := by
  induction hits generalizing s with
  | nil => exact (List.append_nil _).symm
  | cons hit hits ih =>
    rw [List.foldl_cons, ih]
    cases hit with
    | unreadable directory => rfl
    | path p =>
      cases hfile : isFile p with
      | false => simp [Search.visit, filesAmong, hfile]
      | true =>
        by_cases hseen : p.components ∈ s.seen
        · simp [Search.visit, filesAmong, hfile, hseen, distinctFrom]
        · simp [Search.visit, filesAmong, hfile, hseen, distinctFrom]

/-- Patterns in a row, none of them refused, are all their hits in a row. -/
lemma foldlM_follow_of_granted (destination : Path) {patterns : List String}
    (h : ∀ asked ∈ patterns, glob.Grants asked) (s : Search) :
    patterns.foldlM (Search.follow glob isFile destination) s =
      .ok ((patterns.flatMap fun asked => (glob asked).toOption.getD []).foldl
        (Search.visit isFile destination) s) := by
  induction patterns generalizing s with
  | nil => rfl
  | cons asked patterns ih =>
    obtain ⟨⟨hits, hhits⟩, hmore⟩ := List.forall_mem_cons.mp h
    rw [List.foldlM_cons, List.flatMap_cons, List.foldl_append, Search.follow, hhits]
    exact ih hmore _

/-- The first refused pattern decides, whatever the patterns before it stand for. -/
lemma foldlM_follow_of_refused (destination : Path) {before behind : List String} {asked : String}
    {e : PatternError} (h : ∀ q ∈ before, glob.Grants q) (herror : glob asked = .error e)
    (s : Search) :
    (before ++ asked :: behind).foldlM (Search.follow glob isFile destination) s =
      .error (.pattern asked e) := by
  rw [List.foldlM_append, foldlM_follow_of_granted destination h]
  dsimp only [bind, Except.bind]
  rw [List.foldlM_cons, Search.follow, herror]
  rfl

/-- **Refused patterns** — the search fails with the first of them. -/
lemma search_of_refused {target : Target} {before behind : List String} {asked : String}
    {e : PatternError} (hsources : target.sources = before ++ asked :: behind)
    (h : ∀ q ∈ before, glob.Grants q) (herror : glob asked = .error e) :
    search glob isFile target = .error (.pattern asked e) := by
  rw [search, hsources, foldlM_follow_of_refused target.destination h herror]
  rfl

lemma filesAmong_flatMap {patterns : List String} :
    filesAmong isFile (patterns.flatMap fun asked => (glob asked).toOption.getD []) =
      matched glob isFile patterns := by
  rw [filesAmong, List.filterMap_flatMap, matched]
  rfl

/-- **Granted patterns** — the search finds the matched files, each where it stands first, and it
fails if there is none. -/
lemma search_of_granted {target : Target} (h : ∀ asked ∈ target.sources, glob.Grants asked) :
    search glob isFile target =
      match firsts (matched glob isFile target.sources) with
      | [] => .error (.noInput target.sources)
      | paths => .ok (paths.map fun p => ⟨p, destinationOf p target.destination⟩) := by
  have hfiles := @files_foldl_visit isFile target.destination
    (target.sources.flatMap fun asked => (glob asked).toOption.getD []) ⟨[], []⟩
  rw [filesAmong_flatMap, List.nil_append, ← distinct, distinct_eq_firsts] at hfiles
  rw [search, foldlM_follow_of_granted target.destination h]
  dsimp only [bind, Except.bind]
  rw [hfiles]
  cases firsts (matched glob isFile target.sources) with
  | nil => rfl
  | cons p paths => rfl

/-- Patterns of which none is refused, or the first one that is. -/
lemma forall_grants_or_exists_refused (glob : Glob) (patterns : List String) :
    (∀ asked ∈ patterns, glob.Grants asked) ∨
      ∃ before asked behind e, patterns = before ++ asked :: behind ∧
        (∀ q ∈ before, glob.Grants q) ∧ glob asked = .error e := by
  induction patterns with
  | nil => exact .inl fun asked h => absurd h List.not_mem_nil
  | cons asked patterns ih =>
    cases hasked : glob asked with
    | error e => exact .inr ⟨[], asked, patterns, e, rfl, fun q h => absurd h List.not_mem_nil, hasked⟩
    | ok hits =>
      obtain hall | ⟨before, refused, behind, e, rfl, hbefore, herror⟩ := ih
      · exact .inl (List.forall_mem_cons.mpr ⟨⟨hits, hasked⟩, hall⟩)
      · exact .inr ⟨asked :: before, refused, behind, e, rfl,
          List.forall_mem_cons.mpr ⟨⟨hits, hasked⟩, hbefore⟩, herror⟩

end

/-! ## Discovery in a file tree -/

section

variable {tree : FileTree}

lemma filesAmong_map_path {isFile : Path → Bool} (paths : List Path) :
    filesAmong isFile (paths.map .path) = paths.filter isFile := by
  rw [filesAmong, List.filterMap_map, ← List.filterMap_eq_filter]
  rfl

/-- The files of a pattern are those among its hits. -/
lemma filesOf_eq (tree : FileTree) (asked : String) :
    filesOf tree asked = match tree.glob asked with
      | .error e => .error (.pattern asked e)
      | .ok hits => .ok (filesAmong tree.isFile hits) := by
  unfold filesOf FileTree.glob
  cases Pattern.parse asked with
  | error e => rfl
  | ok p => exact congrArg Except.ok (filesAmong_map_path _).symm

lemma mapM_filesOf_of_granted {patterns : List String}
    (h : ∀ asked ∈ patterns, tree.glob.Grants asked) :
    patterns.mapM (filesOf tree) = .ok (patterns.map fun asked =>
      filesAmong tree.isFile ((tree.glob asked).toOption.getD [])) := by
  induction patterns with
  | nil => rfl
  | cons asked patterns ih =>
    obtain ⟨⟨hits, hhits⟩, hmore⟩ := List.forall_mem_cons.mp h
    rw [List.mapM_cons, filesOf_eq, hhits, ih hmore, List.map_cons, hhits]
    rfl

lemma mapM_filesOf_of_refused {before behind : List String} {asked : String} {e : PatternError}
    (h : ∀ q ∈ before, tree.glob.Grants q) (herror : tree.glob asked = .error e) :
    (before ++ asked :: behind).mapM (filesOf tree) = .error (.pattern asked e) := by
  rw [List.mapM_append, mapM_filesOf_of_granted h, List.mapM_cons, filesOf_eq, herror]
  rfl

/-- **Discovery** in a file tree is a search with the glob of the tree. -/
lemma discover_eq_search (tree : FileTree) (target : Target) :
    discover tree target = search tree.glob tree.isFile target := by
  obtain hall | ⟨before, asked, behind, e, hsources, hbefore, herror⟩ :=
    forall_grants_or_exists_refused tree.glob target.sources
  · rw [search_of_granted hall, discover, mapM_filesOf_of_granted hall, ← distinct_eq_firsts,
      matched, List.flatMap]
    rfl
  · rw [search_of_refused hsources hbefore herror, discover, hsources,
      mapM_filesOf_of_refused hbefore herror]
    rfl

end

/-! ## The specification -/

/-- **Discovery** — for every glob, file test and target: the first refused pattern decides, whatever
the patterns before it stand for. If none is refused, there is no source exactly if the patterns
stand for no file, and otherwise the sources are the matched files, each where it stands first and
with its destination; no path is among them twice. Discovery in a file tree is such a search. -/
theorem search_spec (glob : Glob) (isFile : Path → Bool) (target : Target) :
    (∀ before asked behind e, target.sources = before ++ asked :: behind →
      (∀ q ∈ before, glob.Grants q) → glob asked = .error e →
      search glob isFile target = .error (.pattern asked e)) ∧
    ((∀ asked ∈ target.sources, glob.Grants asked) →
      let found := firsts (matched glob isFile target.sources)
      (search glob isFile target = .error (.noInput target.sources) ↔ found = []) ∧
      (found ≠ [] → search glob isFile target =
        .ok (found.map fun p => ⟨p, destinationOf p target.destination⟩)) ∧
      (found.map Path.components).Nodup) ∧
    ∀ tree : FileTree, discover tree target = search tree.glob tree.isFile target := by
  refine ⟨fun before asked behind e => search_of_refused, fun hall => ?_,
    fun tree => discover_eq_search tree target⟩
  have hnodup := nodup_firsts (matched glob isFile target.sources)
  rw [search_of_granted hall]
  cases hfound : firsts (matched glob isFile target.sources) with
  | nil => exact ⟨iff_of_true rfl rfl, fun h => absurd rfl h, List.nodup_nil⟩
  | cons p paths =>
    rw [hfound] at hnodup
    exact ⟨iff_of_false (fun h => by simp at h) (List.cons_ne_nil p paths), fun _ => rfl, hnodup⟩

/-- A glob that could not look into one of the directories. -/
def patchyGlob : Glob := fun asked =>
  if asked = "css/./b.css" then .ok [.path ⟨"css/./b.css"⟩]
  else if asked = "*/*.css" then
    .ok [.path ⟨"css/a.css"⟩, .path ⟨"css/b.css"⟩, .unreadable ⟨"locked"⟩, .path ⟨"old/sub.css"⟩]
  else (Pattern.parse asked).map fun _ => []

/-- The files that it may find; the last of its hits is a directory. -/
def isPatchyFile (p : Path) : Bool :=
  [["css", "a.css"], ["css", "b.css"]].contains p.components

/-- A file that two patterns stand for, in two spellings, is found where it stands first. Of two
refused patterns the first one is reported, though the pattern before it stands for files. -/
theorem search_spec_patchyGlob :
    let target : Target := ⟨["css/./b.css", "*/*.css"], ⟨"out"⟩⟩
    let refused : Target := ⟨["*/*.css", "css/[", "***"], ⟨"out"⟩⟩
    (∀ asked ∈ target.sources, patchyGlob.Grants asked) ∧
      search patchyGlob isPatchyFile target =
        .ok [⟨⟨"css/./b.css"⟩, ⟨"out/b.css"⟩⟩, ⟨⟨"css/a.css"⟩, ⟨"out/a.css"⟩⟩] ∧
      patchyGlob "css/[" = .error ⟨.badClass, 4⟩ ∧
      search patchyGlob isPatchyFile refused = .error (.pattern "css/[" ⟨.badClass, 4⟩) := by
  intro target refused
  have hgranted : ∀ asked ∈ target.sources, patchyGlob.Grants asked :=
    List.forall_mem_cons.mpr ⟨⟨_, rfl⟩, List.forall_mem_singleton.mpr ⟨_, rfl⟩⟩
  have hbefore : ∀ asked ∈ ["*/*.css"], patchyGlob.Grants asked :=
    List.forall_mem_singleton.mpr ⟨_, rfl⟩
  have herror : patchyGlob "css/[" = .error ⟨.badClass, 4⟩ := by decide +kernel
  have hfound : firsts (matched patchyGlob isPatchyFile target.sources) =
      [⟨"css/./b.css"⟩, ⟨"css/a.css"⟩] := by decide +kernel
  have hsearch := ((search_spec patchyGlob isPatchyFile target).2.1 hgranted).2.1
  rw [hfound] at hsearch
  refine ⟨hgranted, (hsearch (List.cons_ne_nil _ _)).trans (by decide +kernel), herror, ?_⟩
  exact (search_spec patchyGlob isPatchyFile refused).1 ["*/*.css"] "css/[" ["***"] _ rfl hbefore
    herror

end StyleSplit
