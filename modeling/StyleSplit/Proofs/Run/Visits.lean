import StyleSplit.Proofs.Run.Discovery
import StyleSplit.Proofs.Run.Writes
set_option autoImplicit false

/-!
# The files of a run

A run visits the sources of its targets one after the other, and each visit finds the tree that
those before it left. Put together, the files that the visits write are the history of the whole
run, and their reports and notices are those of the run.

## Main definitions

* `StyleSplit.Visit` — a source file whose turn comes, and the tree that it finds.
* `StyleSplit.discoveries`, `StyleSplit.visits` — the sources of a run, and the visits to them.

## Main results

* `StyleSplit.history_run`, `StyleSplit.files_run`, `StyleSplit.notices_run` — a run by its visits.
* `StyleSplit.of_mem_visits` — what a visit of a run finds, and what becomes of it.
-/

namespace StyleSplit

open FileTree

/-- **Visits** — a source file whose turn comes, and the tree that it finds. -/
structure Visit where
  source : SourceFile
  tree : FileTree

/-! ## One visit -/

namespace Visit

variable (v : Visit) (options : Options)

/-- What the extraction of the source leaves. -/
def outcome : Outcome FileReport :=
  extractFile v.tree v.source options

/-- The report on the source, if it does not fail. -/
def report? : Option FileReport :=
  (v.outcome options).result.toOption

/-- The path of a bucket of the source. -/
def path (b : Bucket) : Path :=
  bucketPath v.source.destination b.tag

/-- The buckets that are to be written: those of the sheet, unless the source is rejected. -/
def buckets : List Bucket :=
  (readSheet v.tree v.source.path).toOption.elim [] fun sheet =>
    let extraction := sheet.extract options
    if !extraction.hasMedia && options.failOnMissingMedia then [] else extraction.buckets

/-- What is put into the tree. -/
def writes : List Write :=
  bucketWrites v.source.destination options.lineEnding v.tree (v.buckets options)

/-- The buckets that are written, up to the first that fails. -/
def written : List Bucket :=
  (v.buckets options).take (v.writes options).length

variable {v options}

lemma buckets_of_error {f : Failure} (h : readSheet v.tree v.source.path = .error f) :
    v.buckets options = [] := by
  rw [buckets, h]
  rfl

lemma buckets_of_noMedia {sheet : Sheet} (h : readSheet v.tree v.source.path = .ok sheet)
    (hmedia : (!(sheet.extract options).hasMedia && options.failOnMissingMedia) = true) :
    v.buckets options = [] := by
  rw [buckets, h]
  exact if_pos hmedia

lemma buckets_of_sheet {sheet : Sheet} (h : readSheet v.tree v.source.path = .ok sheet)
    (hmedia : (!(sheet.extract options).hasMedia && options.failOnMissingMedia) = false) :
    v.buckets options = (sheet.extract options).buckets := by
  rw [buckets, h]
  exact if_neg (by simp [hmedia])

/-- The log tells of no written file while a sheet is sorted into parts. -/
lemma written_notMem_notices (sheet : Sheet) (options : Options) (p : Path) :
    .written p ∉ sheet.notices options := by
  rw [Sheet.notices, Classification.notices]
  split <;> simp

/-- **A visit** — the source is rejected and nothing is written, or its buckets are. -/
lemma outcome_cases (v : Visit) (options : Options) :
    (∃ f notices, v.outcome options = ⟨.error f, v.tree, notices⟩ ∧ v.buckets options = [] ∧
        ∀ p, .written p ∉ notices) ∨
      ∃ groups notices,
        let files := writeBuckets v.tree v.source.destination options.lineEnding (v.buckets options)
        v.outcome options = ⟨files.result.map fun paths => ⟨v.source.path, paths, groups⟩,
            files.tree, notices ++ files.notices⟩ ∧
          (∃ sheet : Sheet, v.buckets options = (sheet.extract options).buckets) ∧
          ∀ p, .written p ∉ notices := by
  cases hread : readSheet v.tree v.source.path with
  | error f => exact .inl ⟨f, _, extractFile_of_error hread, buckets_of_error hread, by simp⟩
  | ok sheet =>
    cases hmedia : (!(sheet.extract options).hasMedia && options.failOnMissingMedia) with
    | true =>
      refine .inl ⟨_, _, extractFile_of_noMedia hread hmedia, buckets_of_noMedia hread hmedia, ?_⟩
      simp [written_notMem_notices]
    | false =>
      have hbuckets := buckets_of_sheet hread hmedia
      rw [hbuckets]
      refine .inr ⟨_, _, extractFile_of_sheet hread hmedia, ⟨sheet, rfl⟩, fun p => ?_⟩
      split <;> simp [written_notMem_notices]

lemma slash_notMem_tag {b : Bucket} (hb : b ∈ v.buckets options) : '/' ∉ b.tag.toList := by
  rcases v.outcome_cases options with ⟨_, _, -, hnil, -⟩ | ⟨_, _, -, ⟨sheet, hsheet⟩, -⟩
  · exact absurd (hnil ▸ hb) List.not_mem_nil
  · exact Sheet.slash_notMem_tag (List.mem_map_of_mem (hsheet ▸ hb))

lemma nodup_map_tag (v : Visit) (options : Options) : ((v.buckets options).map (·.tag)).Nodup := by
  rcases v.outcome_cases options with ⟨_, _, -, hnil, -⟩ | ⟨_, _, -, ⟨sheet, hsheet⟩, -⟩
  · rw [hnil]
    exact List.nodup_nil
  · rw [hsheet]
    exact sheet.nodup_map_tag_buckets options

lemma writes_of_buckets_eq_nil (h : v.buckets options = []) : v.writes options = [] := by
  rw [writes, h]
  rfl

/-- What a visit writes is a history of the tree that it finds. -/
lemma history (v : Visit) (options : Options) :
    History v.tree (v.writes options) (v.outcome options).tree := by
  rcases v.outcome_cases options with ⟨_, _, houtcome, hnil, -⟩ | ⟨_, _, houtcome, -, -⟩
  · rw [houtcome, writes_of_buckets_eq_nil hnil]
    exact .nil (GrowsTo.refl _)
  · rw [houtcome]
    exact history_writeBuckets _ _ (fun b hb => slash_notMem_tag hb) _

lemma map_writes (v : Visit) (options : Options) :
    (v.writes options).map (fun w => (w.path, w.place.getLast?, w.content)) =
      (v.written options).map fun b => (v.path b,
        some (bucketName v.source.destination b.tag), b.content options.lineEnding) :=
  map_bucketWrites _ _ (fun _ hb => slash_notMem_tag hb) _

lemma exists_write_of_mem_written {b : Bucket} (hb : b ∈ v.written options) :
    ∃ w ∈ v.writes options, w.path = v.path b ∧ w.content = b.content options.lineEnding := by
  obtain ⟨w, hw, heq⟩ := List.mem_map.mp ((map_writes v options).symm ▸ List.mem_map_of_mem hb)
  obtain ⟨hpath, hrest⟩ := Prod.mk.inj heq
  exact ⟨w, hw, hpath, (Prod.mk.inj hrest).2⟩

lemma exists_written_of_mem_writes {w : Write} (hw : w ∈ v.writes options) :
    ∃ b ∈ v.written options, w.path = v.path b ∧ w.content = b.content options.lineEnding := by
  obtain ⟨b, hb, heq⟩ := List.mem_map.mp (map_writes v options ▸ List.mem_map_of_mem hw)
  obtain ⟨hpath, hrest⟩ := Prod.mk.inj heq
  exact ⟨b, hb, hpath.symm, (Prod.mk.inj hrest).2.symm⟩

lemma mem_buckets_of_mem_written {b : Bucket} (hb : b ∈ v.written options) :
    b ∈ v.buckets options :=
  List.mem_of_mem_take hb

lemma nodup_place_writes (v : Visit) (options : Options) :
    ((v.writes options).map (·.place)).Nodup :=
  nodup_place_bucketWrites _ _ (fun _ hb => slash_notMem_tag hb) (v.nodup_map_tag options) _

/-- A report tells of all buckets, and all of them are written. -/
lemma of_report? {report : FileReport} (h : v.report? options = some report) :
    v.written options = v.buckets options ∧ report.source = v.source.path ∧
      report.written = (v.buckets options).map v.path := by
  have hresult : (v.outcome options).result = .ok report := by
    unfold report? at h
    cases hr : (v.outcome options).result with
    | error f =>
      rw [hr] at h
      exact absurd h (by simp [Except.toOption])
    | ok r =>
      rw [hr] at h
      exact congrArg Except.ok (Option.some.inj h)
  rcases v.outcome_cases options with ⟨_, _, houtcome, -, -⟩ | ⟨_, _, houtcome, -, -⟩
  · rw [houtcome] at hresult
    exact absurd hresult (by simp)
  · rw [houtcome] at hresult
    obtain ⟨paths, hpaths, rfl⟩ := map_eq_ok_iff.mp hresult
    obtain ⟨hlength, rfl⟩ :=
      (result_writeBuckets _ _ (fun _ hb => slash_notMem_tag hb) _).1 paths hpaths
    refine ⟨?_, rfl, rfl⟩
    rw [written, writes, hlength, List.take_length]

/-- The log tells of the files that are written, and of no others. -/
lemma written_mem_notices_iff {p : Path} :
    .written p ∈ (v.outcome options).notices ↔ ∃ w ∈ v.writes options, w.path = p := by
  rcases v.outcome_cases options with ⟨_, _, houtcome, hnil, hnone⟩ | ⟨_, _, houtcome, -, hnone⟩
  · rw [houtcome, writes_of_buckets_eq_nil hnil]
    simp [hnone p]
  · have hslash : ∀ b ∈ v.buckets options, '/' ∉ b.tag.toList := fun b hb => slash_notMem_tag hb
    have hnotices := notices_writeBuckets v.source.destination options.lineEnding hslash v.tree
    rw [houtcome, List.mem_append, or_iff_right (hnone p), hnotices, List.mem_map]
    simp only [Notice.written.injEq]
    rfl

end Visit

/-! ## The visits of a run -/

/-- The visits to several sources. -/
def visitsAll (tree : FileTree) (options : Options) : List SourceFile → List Visit
  | [] => []
  | source :: more =>
    ⟨source, tree⟩ :: visitsAll (extractFile tree source options).tree options more

/-- **Discoveries** — the sources of each target, found in the tree that the targets before it
left. A target without sources ends the list. -/
def discoveries (tree : FileTree) (options : Options) : List Target → List (List SourceFile)
  | [] => []
  | target :: more =>
    match discover tree target with
    | .error _ => []
    | .ok sources => sources :: discoveries (extractAll tree options sources).tree options more

/-- The visits of a run. -/
def visits (tree : FileTree) (options : Options) : List Target → List Visit
  | [] => []
  | target :: more =>
    match discover tree target with
    | .error _ => []
    | .ok sources =>
      visitsAll tree options sources ++
        visits (extractAll tree options sources).tree options more

variable {tree : FileTree} {options : Options} {targets : List Target}

lemma visits_cons_of_ok {target : Target} {sources : List SourceFile}
    (h : discover tree target = .ok sources) (more : List Target) :
    visits tree options (target :: more) = visitsAll tree options sources ++
      visits (extractAll tree options sources).tree options more := by
  rw [visits, h]

lemma discoveries_cons_of_ok {target : Target} {sources : List SourceFile}
    (h : discover tree target = .ok sources) (more : List Target) :
    discoveries tree options (target :: more) = sources ::
      discoveries (extractAll tree options sources).tree options more := by
  rw [discoveries, h]

lemma run_cons_of_ok {target : Target} {sources : List SourceFile}
    (h : discover tree target = .ok sources) (more : List Target) :
    let first := extractAll tree options sources
    let others := run first.tree options more
    run tree options (target :: more) = ⟨others.result.map first.summary.append, others.tree,
      first.notices ++ others.notices⟩ := by
  rw [run, h]

/-- A target without sources ends the run. -/
lemma run_cons_of_error (options : Options) {target : Target} {f : Failure}
    (h : discover tree target = .error f) (more : List Target) :
    run tree options (target :: more) = ⟨.error f, tree, []⟩ ∧
      visits tree options (target :: more) = [] ∧
      discoveries tree options (target :: more) = [] := by
  rw [run, visits, discoveries, h]
  exact ⟨rfl, rfl, rfl⟩

lemma history_extractAll (tree : FileTree) (options : Options) (sources : List SourceFile) :
    History tree ((visitsAll tree options sources).flatMap (·.writes options))
      (extractAll tree options sources).tree := by
  induction sources generalizing tree with
  | nil => exact .nil (GrowsTo.refl tree)
  | cons source more ih => exact (Visit.history ⟨source, tree⟩ options).append (ih _)

/-- **Runs change trees through their visits** — what the visits write, one after the other, is the
history of the tree. -/
theorem history_run (tree : FileTree) (options : Options) (targets : List Target) :
    History tree ((visits tree options targets).flatMap (·.writes options))
      (run tree options targets).tree := by
  induction targets generalizing tree with
  | nil => exact .nil (GrowsTo.refl tree)
  | cons target more ih =>
    cases hdiscover : discover tree target with
    | error f =>
      obtain ⟨hrun, hvisits, -⟩ := run_cons_of_error options hdiscover more
      rw [hrun, hvisits]
      exact .nil (GrowsTo.refl tree)
    | ok sources =>
      rw [run_cons_of_ok hdiscover, visits_cons_of_ok hdiscover, List.flatMap_append]
      exact (history_extractAll tree options sources).append (ih _)

lemma files_extractAll (tree : FileTree) (options : Options) (sources : List SourceFile) :
    (extractAll tree options sources).summary.files =
      (visitsAll tree options sources).filterMap (·.report? options) := by
  induction sources generalizing tree with
  | nil => rfl
  | cons source more ih =>
    rw [visitsAll, List.filterMap_cons, ← ih]
    change (Summary.ofResult (Visit.outcome ⟨source, tree⟩ options).result).files ++ _ = _
    unfold Visit.report?
    cases (Visit.outcome ⟨source, tree⟩ options).result <;> rfl

/-- The reports of a run are those of its visits. -/
theorem files_run {summary : Summary} (h : (run tree options targets).result = .ok summary) :
    summary.files = (visits tree options targets).filterMap (·.report? options) := by
  induction targets generalizing tree summary with
  | nil =>
    obtain rfl := Except.ok.inj h
    rfl
  | cons target more ih =>
    cases hdiscover : discover tree target with
    | error f =>
      rw [(run_cons_of_error options hdiscover more).1] at h
      exact absurd h (by simp)
    | ok sources =>
      rw [run_cons_of_ok hdiscover] at h
      obtain ⟨others, hothers, rfl⟩ := map_eq_ok_iff.mp h
      rw [visits_cons_of_ok hdiscover, List.filterMap_append, ← ih hothers, ← files_extractAll]
      rfl

lemma notices_extractAll (tree : FileTree) (options : Options) (sources : List SourceFile) :
    (extractAll tree options sources).notices =
      (visitsAll tree options sources).flatMap fun v => (v.outcome options).notices := by
  induction sources generalizing tree with
  | nil => rfl
  | cons source more ih =>
    rw [visitsAll, List.flatMap_cons, ← ih]
    rfl

/-- The log of a run is that of its visits. -/
theorem notices_run (tree : FileTree) (options : Options) (targets : List Target) :
    (run tree options targets).notices =
      (visits tree options targets).flatMap fun v => (v.outcome options).notices := by
  induction targets generalizing tree with
  | nil => rfl
  | cons target more ih =>
    cases hdiscover : discover tree target with
    | error f =>
      obtain ⟨hrun, hvisits, -⟩ := run_cons_of_error options hdiscover more
      rw [hrun, hvisits]
      rfl
    | ok sources =>
      rw [run_cons_of_ok hdiscover, visits_cons_of_ok hdiscover, List.flatMap_append, ← ih,
        ← notices_extractAll]

lemma written_mem_notices_run_iff {p : Path} :
    .written p ∈ (run tree options targets).notices ↔
      ∃ w ∈ (visits tree options targets).flatMap (·.writes options), w.path = p := by
  rw [notices_run]
  simp only [List.mem_flatMap, Visit.written_mem_notices_iff]
  constructor
  · rintro ⟨v, hv, w, hw, rfl⟩
    exact ⟨w, ⟨v, hv, hw⟩, rfl⟩
  · rintro ⟨w, ⟨v, hv, hw⟩, rfl⟩
    exact ⟨v, hv, w, hw, rfl⟩

/-! ## What a visit finds -/

/-- The sources of a run are files at the end. -/
lemma isFile_of_mem_discoveries {s : SourceFile}
    (hs : s ∈ (discoveries tree options targets).flatten) :
    (run tree options targets).tree.isFile s.path = true := by
  induction targets generalizing tree with
  | nil => exact absurd hs List.not_mem_nil
  | cons target more ih =>
    cases hdiscover : discover tree target with
    | error f =>
      rw [(run_cons_of_error options hdiscover more).2.2] at hs
      exact absurd hs List.not_mem_nil
    | ok sources =>
      rw [discoveries_cons_of_ok hdiscover, List.flatten_cons, List.mem_append] at hs
      rcases hs with hs | hs
      · exact (history_run tree options (target :: more)).keptIn.isFile
          (isFile_of_mem_discover hdiscover hs)
      · rw [run_cons_of_ok hdiscover]
        exact ih hs

lemma of_mem_visitsAll {sources : List SourceFile} {v : Visit}
    (hv : v ∈ visitsAll tree options sources) :
    v.source ∈ sources ∧ tree.KeptIn v.tree ∧
      ∃ ws, History v.tree ws (extractAll tree options sources).tree ∧
        ws ⊆ (visitsAll tree options sources).flatMap (·.writes options) := by
  induction sources generalizing tree with
  | nil => exact absurd hv List.not_mem_nil
  | cons source more ih =>
    rcases List.mem_cons.mp hv with rfl | hv
    · exact ⟨List.mem_cons_self, KeptIn.refl tree, _, history_extractAll tree options _,
        List.Subset.refl _⟩
    · obtain ⟨hsource, hkept, ws, hhistory, hsubset⟩ := ih hv
      have hfirst := Visit.history ⟨source, tree⟩ options
      exact ⟨List.mem_cons_of_mem source hsource, hfirst.keptIn.trans hkept, ws, hhistory,
        List.Subset.trans hsubset (List.subset_append_right _ _)⟩

/-- **What a visit finds** — its source is among the discovered ones and is a file of the tree, from
which the tree at the end comes by writes of the run. -/
lemma of_mem_visits {v : Visit} (hv : v ∈ visits tree options targets) :
    v.source ∈ (discoveries tree options targets).flatten ∧ v.tree.isFile v.source.path = true ∧
      ∃ ws, History v.tree ws (run tree options targets).tree ∧
        ws ⊆ (visits tree options targets).flatMap (·.writes options) := by
  induction targets generalizing tree with
  | nil => exact absurd hv List.not_mem_nil
  | cons target more ih =>
    cases hdiscover : discover tree target with
    | error f =>
      rw [(run_cons_of_error options hdiscover more).2.1] at hv
      exact absurd hv List.not_mem_nil
    | ok sources =>
      rw [visits_cons_of_ok hdiscover, List.mem_append] at hv
      rw [visits_cons_of_ok hdiscover, discoveries_cons_of_ok hdiscover, run_cons_of_ok hdiscover,
        List.flatten_cons, List.flatMap_append]
      rcases hv with hv | hv
      · obtain ⟨hsource, hkept, ws, hhistory, hsubset⟩ := of_mem_visitsAll hv
        exact ⟨List.mem_append_left _ hsource,
          hkept.isFile (isFile_of_mem_discover hdiscover hsource), _,
          hhistory.append (history_run _ options more),
          List.append_subset.mpr ⟨List.Subset.trans hsubset (List.subset_append_left _ _),
            List.subset_append_right _ _⟩⟩
      · obtain ⟨hsource, hfile, ws, hhistory, hsubset⟩ := ih hv
        exact ⟨List.mem_append_right _ hsource, hfile, ws, hhistory,
          List.Subset.trans hsubset (List.subset_append_right _ _)⟩

end StyleSplit
