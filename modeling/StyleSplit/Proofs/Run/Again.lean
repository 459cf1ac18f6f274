import StyleSplit.Proofs.Run.Outputs
set_option autoImplicit false

/-!
# Running again

A second run finds the directories that the first one made and the files that it wrote. If none of
these is a source and the same sources are found, each visit reads the same sheet, writes the same
buckets to the same places and fails where it failed; and what was written last is written last
again, so the tree stays as it is.

Only the cause of a failure may be told in another way: where a directory could not be made because
of a file, and directories on the way to it were made, the file may be met earlier the next time.

## Main definitions

* `StyleSplit.Failure.Becomes`, `StyleSplit.Summary.Becomes` — failures and summaries of a second
  run.

## Main results

* `StyleSplit.run_again` — the second run.
-/

namespace StyleSplit

open FileTree

/-- **Failures that come again** — the same failure, or one of the system at the same path, where
what exists already is told to be no directory. -/
def Failure.Becomes (f g : Failure) : Prop :=
  g = f ∨ ∃ path, f = .system path .alreadyExists ∧ g = .system path .notADirectory

lemma Failure.becomes_system {path : Path} {cause cause' : SystemError}
    (h : cause.Becomes cause') : Failure.Becomes (.system path cause) (.system path cause') := by
  rcases h with rfl | ⟨rfl, rfl⟩
  · exact .inl rfl
  · exact .inr ⟨path, rfl, rfl⟩

/-- **Summaries that come again** — the same reports, and failures that come again in the same
order. -/
structure Summary.Becomes (s s' : Summary) : Prop where
  files : s'.files = s.files
  failures : List.Forall₂ Failure.Becomes s.failures s'.failures

lemma Summary.Becomes.append {r r' s s' : Summary} (hr : r.Becomes r') (hs : s.Becomes s') :
    (r.append s).Becomes (r'.append s') := by
  refine ⟨?_, List.rel_append hr.failures hs.failures⟩
  rw [Summary.append, Summary.append, hr.files, hs.files]

/-- The results of a file in two runs. -/
inductive Recurs {α : Type} : Except Failure α → Except Failure α → Prop
  | ok (a : α) : Recurs (.ok a) (.ok a)
  | error {f g : Failure} : f.Becomes g → Recurs (.error f) (.error g)

lemma Recurs.map {α β : Type} {x y : Except Failure α} (h : Recurs x y) (f : α → β) :
    Recurs (x.map f) (y.map f) := by
  cases h with
  | ok a => exact .ok (f a)
  | error h => exact .error h

lemma Recurs.ofResult {x y : Except Failure FileReport} (h : Recurs x y) :
    (Summary.ofResult x).Becomes (Summary.ofResult y) := by
  cases h with
  | ok a => exact ⟨rfl, .nil⟩
  | error h => exact ⟨rfl, .cons h .nil⟩

variable {t u final : FileTree} {options : Options}

/-! ## One file -/

/-- **Buckets that are written again** — in a tree of the shape that the first run led to, each
bucket is put where it was, and the failure lasts. -/
lemma writeBuckets_again (destination : Path) (e : LineEnding) {buckets : List Bucket}
    (hslash : ∀ b ∈ buckets, '/' ∉ b.tag.toList) (t : FileTree)
    (hkept : (writeBuckets t destination e buckets).tree.KeptIn final)
    (hshape : final.SameShape u) :
    let again := writeBuckets u destination e buckets
    again.tree = u.putAll (bucketWrites destination e t buckets) ∧
      Recurs (writeBuckets t destination e buckets).result again.result := by
  induction buckets generalizing t u with
  | nil => exact ⟨rfl, .ok []⟩
  | cons b bs ih =>
    have hb := hslash b List.mem_cons_self
    have htail := fun x hx => hslash x (List.mem_cons_of_mem b hx)
    obtain ⟨before, hends⟩ := exists_endsWith_bucketPath destination
    have hp := hends b.tag hb
    have hdots := bucketName_ne_dots destination b.tag
    rcases writeBuckets_cons_cases destination e hb bs t with
      ⟨made, q, hgrows, hreach, hkind, -, hwrite, hwrites⟩ |
      ⟨stuck, failed, cause, hgrows, hwrite, hwrites, hfails⟩
    · rw [hwrite] at hkept ⊢
      rw [hwrites, putAll_cons]
      have hput := keptIn_put_file hkind (b.content e)
      have hrest := history_writeBuckets destination e htail (made.put q (.file (b.content e)))
      -- the file is there already, and is put again
      have hfile : u.kind? q = some .file := by
        refine (hshape.kind? q).trans (hkept.kind?_eq q _ (hrest.keptIn.kind?_eq q _ ?_))
        rw [kind?_eq_file_iff]
        exact ⟨b.content e, by rw [get?_put_file hkind, if_pos rfl]⟩
      have hreachAgain : u.reach (bucketPath destination b.tag) = .ok q :=
        (reach_settled ((hput.trans hrest.keptIn).trans (hkept.trans hshape.keptIn)) _).ok hreach
      have hagain : writeBucket u (bucketPath destination b.tag) b.css e =
          ⟨.ok (), u.put q (.file (b.content e)), []⟩ :=
        writeBucket_of_reach hp hdots hreachAgain (by simp [hfile]) b.css e
      obtain ⟨htree, hresult⟩ := ih htail _ hkept (hshape.trans (sameShape_put hfile (b.content e)))
      rw [writeBuckets, hagain]
      exact ⟨htree, hresult.map _⟩
    · rw [hwrite] at hkept ⊢
      rw [hwrites]
      obtain ⟨cause', hbecomes, hagain⟩ := hfails u (hkept.trans hshape.keptIn)
      rw [writeBuckets, hagain]
      exact ⟨rfl, .error (Failure.becomes_system hbecomes)⟩

/-- **A file that is extracted again** — what is read is the same, and so is what is written. -/
lemma outcome_again (v : Visit) (hkept : (v.outcome options).tree.KeptIn final)
    (hshape : final.SameShape u) (hread : u.read v.source.path = v.tree.read v.source.path) :
    let again := extractFile u v.source options
    again.tree = u.putAll (v.writes options) ∧ Recurs (v.outcome options).result again.result := by
  have hsheet : readSheet u v.source.path = readSheet v.tree v.source.path := by
    rw [readSheet, readSheet, hread]
  cases hfirst : readSheet v.tree v.source.path with
  | error f =>
    rw [hfirst] at hsheet
    rw [Visit.outcome, extractFile_of_error hfirst, extractFile_of_error hsheet,
      Visit.writes_of_buckets_eq_nil (Visit.buckets_of_error hfirst)]
    exact ⟨rfl, .error (.inl rfl)⟩
  | ok sheet =>
    rw [hfirst] at hsheet
    cases hmedia : (!(sheet.extract options).hasMedia && options.failOnMissingMedia) with
    | true =>
      rw [Visit.outcome, extractFile_of_noMedia hfirst hmedia, extractFile_of_noMedia hsheet hmedia,
        Visit.writes_of_buckets_eq_nil (Visit.buckets_of_noMedia hfirst hmedia)]
      exact ⟨rfl, .error (.inl rfl)⟩
    | false =>
      have hslash : ∀ b ∈ v.buckets options, '/' ∉ b.tag.toList := fun b hb =>
        Visit.slash_notMem_tag hb
      rw [Visit.outcome, extractFile_of_sheet hfirst hmedia] at hkept ⊢
      rw [extractFile_of_sheet hsheet hmedia, Visit.writes]
      rw [Visit.buckets_of_sheet hfirst hmedia] at hslash ⊢
      obtain ⟨htree, hresult⟩ := writeBuckets_again _ _ hslash v.tree hkept hshape
      exact ⟨htree, hresult.map _⟩

/-! ## All files -/

/-- **Visits that can be made again** — the tree has what they read, and the files that they write,
which are others. -/
structure Repeatable (u : FileTree) (options : Options) (vs : List Visit) : Prop where
  reads : ∀ v ∈ vs, u.read v.source.path = v.tree.read v.source.path
  files : ∀ v ∈ vs, ∀ w ∈ v.writes options, u.kind? w.place = some .file
  apart : ∀ v ∈ vs, ∀ v' ∈ vs, ∀ w ∈ v'.writes options, u.place? v.source.path ≠ some w.place

/-- Visits can be made again after those before them. -/
lemma Repeatable.of_append {vs vs' : List Visit} (h : Repeatable u options (vs ++ vs')) :
    Repeatable u options vs ∧
      u.SameShape (u.putAll (vs.flatMap (·.writes options))) ∧
      Repeatable (u.putAll (vs.flatMap (·.writes options))) options vs' := by
  have hleft := fun (v : Visit) (hv : v ∈ vs) => List.mem_append_left vs' hv
  have hright := fun (v : Visit) (hv : v ∈ vs') => List.mem_append_right vs hv
  have hfiles : ∀ w ∈ vs.flatMap (·.writes options), u.kind? w.place = some .file := by
    intro w hw
    obtain ⟨v, hv, hwv⟩ := List.mem_flatMap.mp hw
    exact h.files v (hleft v hv) w hwv
  have hshape := sameShape_putAll hfiles
  refine ⟨?_, hshape, fun v hv => ?_, fun v hv w hw => ?_, fun v hv v' hv' w hw => ?_⟩
  · exact ⟨fun v hv => h.reads v (hleft v hv), fun v hv => h.files v (hleft v hv),
      fun v hv v' hv' => h.apart v (hleft v hv) v' (hleft v' hv')⟩
  · rw [read_putAll hfiles fun w hw => ?_]
    · exact h.reads v (hright v hv)
    · obtain ⟨v', hv', hwv⟩ := List.mem_flatMap.mp hw
      exact h.apart v (hright v hv) v' (hleft v' hv') w hwv
  · exact (hshape.kind? w.place).trans (h.files v (hright v hv) w hw)
  · rw [hshape.place?]
    exact h.apart v (hright v hv) v' (hright v' hv') w hw

/-- The files of several sources are extracted again. -/
lemma extractAll_again (sources : List SourceFile) (t : FileTree)
    (hkept : (extractAll t options sources).tree.KeptIn final) (hshape : final.SameShape u)
    (h : Repeatable u options (visitsAll t options sources)) :
    let again := extractAll u options sources
    again.tree = u.putAll ((visitsAll t options sources).flatMap (·.writes options)) ∧
      (extractAll t options sources).summary.Becomes again.summary := by
  induction sources generalizing t u with
  | nil => exact ⟨rfl, rfl, .nil⟩
  | cons source more ih =>
    let v : Visit := ⟨source, t⟩
    have hrest := history_extractAll (v.outcome options).tree options more
    have hvisits : Repeatable u options ([v] ++ visitsAll (v.outcome options).tree options more) := h
    obtain ⟨-, hsame, hmore⟩ := hvisits.of_append
    rw [List.flatMap_singleton] at hsame hmore
    obtain ⟨htree, hresult⟩ := outcome_again v (hrest.keptIn.trans hkept) hshape
      (h.reads v List.mem_cons_self)
    obtain ⟨htreeMore, hsummary⟩ := ih (v.outcome options).tree hkept (hshape.trans hsame) hmore
    rw [← htree] at htreeMore hsummary
    refine ⟨?_, hresult.ofResult.append hsummary⟩
    rw [visitsAll, List.flatMap_cons, putAll_append, ← htree]
    exact htreeMore

/-- The targets of a run are gone through again. -/
lemma run_again_of_repeatable (targets : List Target) (t : FileTree) {summary : Summary}
    (hresult : (run t options targets).result = .ok summary)
    (hkept : (run t options targets).tree.KeptIn final) (hshape : final.SameShape u)
    (hdiscover : targets.map (discover final) = (discoveries t options targets).map .ok)
    (h : Repeatable u options (visits t options targets)) :
    let again := run u options targets
    again.tree = u.putAll ((visits t options targets).flatMap (·.writes options)) ∧
      ∃ summary', again.result = .ok summary' ∧ summary.Becomes summary' := by
  induction targets generalizing t u summary with
  | nil =>
    obtain rfl := Except.ok.inj hresult
    exact ⟨rfl, .empty, rfl, rfl, .nil⟩
  | cons target more ih =>
    cases hsources : discover t target with
    | error f =>
      rw [(run_cons_of_error options hsources more).1] at hresult
      exact absurd hresult (by simp)
    | ok sources =>
      rw [run_cons_of_ok hsources] at hresult hkept
      rw [discoveries_cons_of_ok hsources, List.map_cons, List.map_cons] at hdiscover
      rw [visits_cons_of_ok hsources] at h ⊢
      obtain ⟨hfirst, hothers⟩ := List.cons.inj hdiscover
      obtain ⟨others, hothersResult, rfl⟩ := map_eq_ok_iff.mp hresult
      obtain ⟨hall, hsame, hmore⟩ := h.of_append
      have hrest := history_run (extractAll t options sources).tree options more
      obtain ⟨htree, hsummary⟩ :=
        extractAll_again sources t (hrest.keptIn.trans hkept) hshape hall
      have hshapeMore := hshape.trans hsame
      obtain ⟨htreeMore, others', hresultMore, hbecomes⟩ :=
        ih (extractAll t options sources).tree hothersResult hkept hshapeMore hothers hmore
      rw [← htree] at htreeMore hresultMore
      rw [run_cons_of_ok ((hshape.discover target).trans hfirst), List.flatMap_append,
        putAll_append, ← htree]
      exact ⟨htreeMore, _, map_eq_ok_iff.mpr ⟨others', hresultMore, rfl⟩, hsummary.append hbecomes⟩

/-- If no source is where a file was written, the visits of a run can be made again in the tree that
it left: each source was read from the file that is there at the end. -/
lemma repeatable_visits {tree : FileTree} {targets : List Target}
    (happart : ∀ v ∈ visits tree options targets,
      ∀ w ∈ (visits tree options targets).flatMap (·.writes options),
        (run tree options targets).tree.place? v.source.path ≠ some w.place) :
    Repeatable (run tree options targets).tree options (visits tree options targets) := by
  refine ⟨fun v hv => ?_, fun v hv w hw => ?_, fun v hv v' hv' w hw => ?_⟩
  · obtain ⟨-, hfile, ws, hlater, hsubset⟩ := of_mem_visits hv
    obtain ⟨p, c, hreach, hget⟩ := isFile_iff.mp hfile
    have hreachFinal := (reach_settled hlater.keptIn v.source.path).ok hreach
    have hplace := hlater.keptIn.place? (place?_eq_some_iff.mpr ⟨hreach, _, hget⟩)
    refine read_eq_of_get? (hreachFinal.trans hreach.symm) fun q hq => ?_
    obtain rfl : p = q := Except.ok.inj (hreach.symm.trans hq)
    refine hlater.get?_file_of_forall_ne (fun w hw heq => ?_)
      (.inl (kind?_eq_file_iff.mpr ⟨c, hget⟩))
    exact happart v hv w (hsubset hw) (heq ▸ hplace)
  · exact (history_run tree options targets).kind?_of_mem (List.mem_flatMap.mpr ⟨v, hv, hw⟩)
  · exact happart v hv w (List.mem_flatMap.mpr ⟨v', hv', hw⟩)

/-- **Running again** — if no file that was written is a source of the run, and if each target finds
the same sources in the tree that the run left, then a second run on that tree ends with the same
reports and with failures that come again in the same order, and leaves the tree as it is. -/
theorem run_again {tree : FileTree} {targets : List Target} {summary : Summary}
    (hresult : (run tree options targets).result = .ok summary)
    (hwritten : ∀ path, .written path ∈ (run tree options targets).notices →
      ∀ s ∈ (discoveries tree options targets).flatten,
        ¬ (run tree options targets).tree.SamePlace path s.path)
    (hdiscover : targets.map (discover (run tree options targets).tree) =
      (discoveries tree options targets).map .ok) :
    let final := (run tree options targets).tree
    (run final options targets).tree = final ∧
      ∃ summary', (run final options targets).result = .ok summary' ∧
        summary'.files = summary.files ∧
        List.Forall₂ Failure.Becomes summary.failures summary'.failures := by
  intro final
  have hhistory := history_run tree options targets
  have hrepeatable : Repeatable final options (visits tree options targets) := by
    refine repeatable_visits fun v hv w hw heq => ?_
    exact hwritten w.path (written_mem_notices_run_iff.mpr ⟨w, hw, rfl⟩) v.source
      (of_mem_visits hv).1 ⟨w.place, hhistory.place?_of_mem hw, heq⟩
  obtain ⟨htree, summary', hagain, hfiles, hfailures⟩ := run_again_of_repeatable targets tree
    hresult (KeptIn.refl final) (SameShape.refl final) hdiscover hrepeatable
  -- each file holds what was written to it last, and so it does when it is all written again
  refine ⟨htree.trans (putAll_eq_self fun p c hc => hhistory.get?_of_contentAt? hc), summary',
    hagain, hfiles, hfailures⟩

-- a source that was written over is read again: `/w` is the working directory
example :
    let targets : List Target := [⟨["a-base.css", "a.css"], ⟨"/w"⟩⟩]
    let first := (run overlappingTree {} targets).tree
    first.content? ⟨"a-base-base.css"⟩ = some "b \x7b\n\x7d\n\n".toUTF8 ∧
      (run first {} targets).tree.content? ⟨"a-base-base.css"⟩ =
        some "a \x7b\n\x7d\n\n".toUTF8 := by
  decide +kernel

/-- A stylesheet, and a file where a directory is asked for. -/
def blockedTree : FileTree where
  entries := [(["w", "a.css"], .file "a{}".toUTF8), (["w", "f"], .file "".toUTF8)]
  origin := ["w"]

/-- The parts of the stylesheet go to a directory first, and then behind the file. A directory that
is not there is on the way. -/
def blockedTargets : List Target :=
  [⟨["a.css"], ⟨"out"⟩⟩, ⟨["a.css"], ⟨"x/../f/g"⟩⟩]

/-- The summary of the first run. -/
def blockedSummary : Summary :=
  ⟨[⟨⟨"a.css"⟩, [⟨"out/a-base.css"⟩], 0⟩], [.system ⟨"x/../f/g"⟩ .alreadyExists]⟩

theorem run_again_blocked :
    let final := (run blockedTree {} blockedTargets).tree
    (run blockedTree {} blockedTargets).result = .ok blockedSummary ∧
      (∀ path, .written path ∈ (run blockedTree {} blockedTargets).notices →
        ∀ s ∈ (discoveries blockedTree {} blockedTargets).flatten, ¬ final.SamePlace path s.path) ∧
      blockedTargets.map (discover final) =
        (discoveries blockedTree {} blockedTargets).map .ok ∧
      (run final {} blockedTargets).tree = final ∧
      ∃ summary', (run final {} blockedTargets).result = .ok summary' ∧
        summary'.files = blockedSummary.files ∧
        List.Forall₂ Failure.Becomes blockedSummary.failures summary'.failures := by
  have hresult : (run blockedTree {} blockedTargets).result = .ok blockedSummary := by
    decide +kernel
  have hwritten : ∀ path, .written path ∈ (run blockedTree {} blockedTargets).notices →
      ∀ s ∈ (discoveries blockedTree {} blockedTargets).flatten,
        ¬ (run blockedTree {} blockedTargets).tree.SamePlace path s.path := by
    have hplaces : ∀ w ∈ (visits blockedTree {} blockedTargets).flatMap (·.writes {}),
        ∀ s ∈ (discoveries blockedTree {} blockedTargets).flatten,
          (run blockedTree {} blockedTargets).tree.place? s.path ≠ some w.place := by
      decide +kernel
    intro path hpath s hs hsame
    obtain ⟨w, hw, rfl⟩ := written_mem_notices_run_iff.mp hpath
    have hplace := (history_run blockedTree {} blockedTargets).place?_of_mem hw
    exact hplaces w hw s hs ((samePlace_iff hplace).mp hsame)
  have hdiscover : blockedTargets.map (discover (run blockedTree {} blockedTargets).tree) =
      (discoveries blockedTree {} blockedTargets).map .ok := by decide +kernel
  exact ⟨hresult, hwritten, hdiscover, run_again hresult hwritten hdiscover⟩

/-- A second run may tell another cause of a failure. -/
theorem run_again_tells_other_cause :
    ¬ ∀ (tree : FileTree) (options : Options) (targets : List Target) (summary : Summary),
      (run tree options targets).result = .ok summary →
      (∀ path, .written path ∈ (run tree options targets).notices →
        ∀ s ∈ (discoveries tree options targets).flatten,
          ¬ (run tree options targets).tree.SamePlace path s.path) →
      targets.map (discover (run tree options targets).tree) =
        (discoveries tree options targets).map .ok →
      (run (run tree options targets).tree options targets).result = .ok summary ∧
        (run (run tree options targets).tree options targets).tree =
          (run tree options targets).tree := by
  intro h
  let targets : List Target := [⟨["a.css"], ⟨"x/../f/g"⟩⟩]
  have hresult : (run blockedTree {} targets).result =
      .ok ⟨[], [.system ⟨"x/../f/g"⟩ .alreadyExists]⟩ := by decide +kernel
  have hnone : (visits blockedTree {} targets).flatMap (fun v => v.writes {}) = [] := by
    have hlength : ((visits blockedTree {} targets).flatMap fun v => v.writes {}).length = 0 := by
      decide +kernel
    exact List.length_eq_zero_iff.mp hlength
  have hagain := (h blockedTree {} targets _ hresult (fun path hpath => ?_) (by decide +kernel)).1
  · exact absurd hagain (by decide +kernel)
  · obtain ⟨w, hw, -⟩ := written_mem_notices_run_iff.mp hpath
    exact absurd (hnone ▸ hw) List.not_mem_nil

end StyleSplit
