import StyleSplit.Proofs.Run.Visits
set_option autoImplicit false

/-!
# What a run tells of its sources

A run visits each source that it discovers once, in order, and tells of it once: in a report, or as
a failure. A source that is rejected leaves no trace but its failure, so that the others fare as if
it were not there. A target whose discovery fails ends the run on the spot.

## Main definitions

* `StyleSplit.Visit.failure?` — the failure of a source.
* `StyleSplit.Visit.IsRejected` — sources that fail before anything of them is written.

## Main results

* `StyleSplit.visits_eq_visitsAll` — the targets of a run are gone through like one list of sources.
* `StyleSplit.visitsAll_without` — the other sources without a rejected one.
* `StyleSplit.run_accounts` — what a run tells, and where it ends.
-/

namespace StyleSplit

open FileTree

/-! ## One visit -/

namespace Visit

variable {v : Visit} {options : Options} {f : Failure}

/-- The failure of the source, if it fails. -/
def failure? (v : Visit) (options : Options) : Option Failure :=
  match (v.outcome options).result with
  | .ok _ => none
  | .error f => some f

/-- **Rejected sources** — the source fails because it cannot be read, because it cannot be parsed,
or because it has no media group where one is asked for. -/
def IsRejected (v : Visit) (options : Options) (f : Failure) : Prop :=
  (v.outcome options).result = .error f ∧
    ((∃ e, v.tree.read v.source.path = .error e) ∨ (∃ path e, f = .parse path e) ∨
      ∃ path, f = .noMedia path)

/-- A source that is to be written can only fail by the system. -/
lemma exists_system_of_sheet {sheet : Sheet} (h : readSheet v.tree v.source.path = .ok sheet)
    (hmedia : (!(sheet.extract options).hasMedia && options.failOnMissingMedia) = false)
    (hf : (v.outcome options).result = .error f) : ∃ path cause, f = .system path cause := by
  have hslash : ∀ b ∈ (sheet.extract options).buckets, '/' ∉ b.tag.toList := fun b hb =>
    Sheet.slash_notMem_tag (List.mem_map_of_mem hb)
  rw [outcome, extractFile_of_sheet h hmedia] at hf
  obtain ⟨path, cause, -, hsystem, -⟩ := (result_writeBuckets v.source.destination
    options.lineEnding hslash v.tree).2 f (map_eq_error_iff.mp hf)
  exact ⟨path, cause, hsystem⟩

/-- **Rejected sources** leave the tree as it is. -/
lemma IsRejected.tree_eq (h : v.IsRejected options f) : (v.outcome options).tree = v.tree := by
  obtain ⟨hf, hcause⟩ := h
  cases hread : readSheet v.tree v.source.path with
  | error g => rw [outcome, extractFile_of_error hread]
  | ok sheet =>
    cases hmedia : (!(sheet.extract options).hasMedia && options.failOnMissingMedia) with
    | true => rw [outcome, extractFile_of_noMedia hread hmedia]
    | false =>
      -- the source can be read and is written, so its failure has none of the causes
      obtain ⟨path, cause, rfl⟩ := exists_system_of_sheet hread hmedia hf
      rcases hcause with ⟨e, he⟩ | ⟨_, _, hparse⟩ | ⟨_, hnone⟩
      · rw [readSheet_of_read_error he] at hread
        exact absurd hread (by simp)
      · exact absurd hparse (by simp)
      · exact absurd hnone (by simp)

/-- A source has a failure or a report, and not both. -/
lemma failure?_eq_none_iff : v.failure? options = none ↔ (v.report? options).isSome := by
  rw [failure?, report?]
  cases (v.outcome options).result <;> simp [Except.toOption]

end Visit

/-! ## Several sources -/

section Several

variable (tree : FileTree) (options : Options)

lemma failures_extractAll (sources : List SourceFile) :
    (extractAll tree options sources).summary.failures =
      (visitsAll tree options sources).filterMap (·.failure? options) := by
  induction sources generalizing tree with
  | nil => rfl
  | cons source more ih =>
    rw [visitsAll, List.filterMap_cons, ← ih]
    change (Summary.ofResult (Visit.outcome ⟨source, tree⟩ options).result).failures ++ _ = _
    unfold Visit.failure?
    cases (Visit.outcome ⟨source, tree⟩ options).result <;> rfl

/-- The sources of the visits are those that are to be visited. -/
lemma map_source_visitsAll (sources : List SourceFile) :
    (visitsAll tree options sources).map (·.source) = sources := by
  induction sources generalizing tree with
  | nil => rfl
  | cons source more ih => rw [visitsAll, List.map_cons, ih]

/-- Two lists of sources one after the other. -/
lemma visitsAll_append (sources more : List SourceFile) :
    visitsAll tree options (sources ++ more) = visitsAll tree options sources ++
      visitsAll (extractAll tree options sources).tree options more := by
  induction sources generalizing tree with
  | nil => rfl
  | cons source sources ih => exact congrArg _ (ih _)

lemma tree_extractAll_append (sources more : List SourceFile) :
    (extractAll tree options (sources ++ more)).tree =
      (extractAll (extractAll tree options sources).tree options more).tree := by
  induction sources generalizing tree with
  | nil => rfl
  | cons source sources ih => exact ih _

/-- Each visit finds the tree that those before it left. -/
lemma tree_of_visitsAll_eq {sources : List SourceFile} {before after : List Visit} {v : Visit}
    (h : visitsAll tree options sources = before ++ v :: after) :
    v.tree = (extractAll tree options (before.map (·.source))).tree := by
  induction before generalizing tree sources with
  | nil =>
    cases sources with
    | nil => exact absurd h (by simp [visitsAll])
    | cons source more =>
      rw [visitsAll, List.nil_append] at h
      rw [← (List.cons.inj h).1]
      rfl
  | cons x before ih =>
    cases sources with
    | nil => exact absurd h (by simp [visitsAll])
    | cons source more =>
      rw [visitsAll, List.cons_append] at h
      obtain ⟨rfl, htail⟩ := List.cons.inj h
      exact ih _ htail

variable {tree options}

/-- **The others without a rejected source** — their visits and the tree at the end are the same. -/
lemma visitsAll_without {before : List SourceFile} {s : SourceFile} {f : Failure}
    (h : Visit.IsRejected ⟨s, (extractAll tree options before).tree⟩ options f)
    (more : List SourceFile) :
    (∃ later, visitsAll tree options (before ++ s :: more) =
        visitsAll tree options before ++ ⟨s, (extractAll tree options before).tree⟩ :: later ∧
      visitsAll tree options (before ++ more) = visitsAll tree options before ++ later) ∧
      (extractAll tree options (before ++ s :: more)).tree =
        (extractAll tree options (before ++ more)).tree := by
  have htree : (extractFile (extractAll tree options before).tree s options).tree =
      (extractAll tree options before).tree := h.tree_eq
  refine ⟨⟨_, visitsAll_append .., ?_⟩, ?_⟩
  · rw [visitsAll_append, htree]
  · rw [tree_extractAll_append, tree_extractAll_append, extractAll, htree]

end Several

/-! ## Targets -/

section Targets

variable {tree : FileTree} {options : Options}

/-- **One list of sources** — the visits of a run are those to all its sources, one target after the
other. -/
lemma visits_eq_visitsAll (tree : FileTree) (options : Options) (targets : List Target) :
    visits tree options targets =
      visitsAll tree options (discoveries tree options targets).flatten := by
  induction targets generalizing tree with
  | nil => rfl
  | cons target more ih =>
    cases hdiscover : discover tree target with
    | error f =>
      obtain ⟨-, hvisits, hdiscoveries⟩ := run_cons_of_error options hdiscover more
      rw [hvisits, hdiscoveries]
      rfl
    | ok sources =>
      rw [visits_cons_of_ok hdiscover, discoveries_cons_of_ok hdiscover, List.flatten_cons,
        visitsAll_append, ih]

/-- A run that comes to its end has found sources for its first target, and the others come to their
end in the tree that is left. -/
lemma exists_of_run_cons {target : Target} {more : List Target} {summary : Summary}
    (h : (run tree options (target :: more)).result = .ok summary) :
    ∃ sources others, discover tree target = .ok sources ∧
      (run (extractAll tree options sources).tree options more).result = .ok others ∧
      summary = (extractAll tree options sources).summary.append others := by
  cases hdiscover : discover tree target with
  | error f =>
    rw [(run_cons_of_error options hdiscover more).1] at h
    exact absurd h (by simp)
  | ok sources =>
    rw [run_cons_of_ok hdiscover] at h
    obtain ⟨others, hothers, rfl⟩ := map_eq_ok_iff.mp h
    exact ⟨sources, others, rfl, hothers, rfl⟩

/-- A run that comes to its end has found sources for each of its targets. -/
lemma length_discoveries {targets : List Target} {summary : Summary}
    (h : (run tree options targets).result = .ok summary) :
    (discoveries tree options targets).length = targets.length := by
  induction targets generalizing tree summary with
  | nil => rfl
  | cons target more ih =>
    obtain ⟨sources, others, hdiscover, hothers, -⟩ := exists_of_run_cons h
    rw [discoveries_cons_of_ok hdiscover, List.length_cons, List.length_cons, ih hothers]

/-- The failures of a run are those of its visits. -/
lemma failures_run {targets : List Target} {summary : Summary}
    (h : (run tree options targets).result = .ok summary) :
    summary.failures = (visits tree options targets).filterMap (·.failure? options) := by
  induction targets generalizing tree summary with
  | nil =>
    obtain rfl := Except.ok.inj h
    rfl
  | cons target more ih =>
    obtain ⟨sources, others, hdiscover, hothers, rfl⟩ := exists_of_run_cons h
    rw [visits_cons_of_ok hdiscover, List.filterMap_append, ← ih hothers, ← failures_extractAll]
    rfl

/-- **Up to a target** — a run that comes to its end has done so up to each of its targets, and has
found sources for the target in the tree that was left. -/
lemma discover_of_run {before more : List Target} {target : Target} {summary : Summary}
    (h : (run tree options (before ++ target :: more)).result = .ok summary) :
    ∃ found, discover (run tree options before).tree target = .ok found ∧
      (discoveries tree options (before ++ target :: more))[before.length]? = some found := by
  induction before generalizing tree summary with
  | nil =>
    obtain ⟨found, others, hfound, -, -⟩ := exists_of_run_cons h
    exact ⟨found, hfound, by rw [List.nil_append, discoveries_cons_of_ok hfound]; rfl⟩
  | cons first before ih =>
    obtain ⟨sources, others, hdiscover, hothers, -⟩ := exists_of_run_cons h
    obtain ⟨found, hfound, hget⟩ := ih hothers
    refine ⟨found, ?_, ?_⟩
    · rw [run_cons_of_ok hdiscover]
      exact hfound
    · rw [List.cons_append, discoveries_cons_of_ok hdiscover]
      exact hget

/-- **A target whose discovery fails** ends the run where the targets before it left it, whatever
targets follow. -/
lemma run_of_discover_error {before : List Target} {target : Target} {summary : Summary}
    {f : Failure} (h : (run tree options before).result = .ok summary)
    (hf : discover (run tree options before).tree target = .error f) (more : List Target) :
    run tree options (before ++ target :: more) =
      ⟨.error f, (run tree options before).tree, (run tree options before).notices⟩ := by
  induction before generalizing tree summary with
  | nil => exact (run_cons_of_error options hf more).1
  | cons first before ih =>
    obtain ⟨sources, others, hdiscover, hothers, -⟩ := exists_of_run_cons h
    rw [run_cons_of_ok hdiscover] at hf ⊢
    rw [List.cons_append, run_cons_of_ok hdiscover, ih hothers hf]
    rfl

/-- A run fails at a target whose discovery fails. -/
lemma exists_of_run_error {targets : List Target} {f : Failure}
    (h : (run tree options targets).result = .error f) :
    ∃ before target more, targets = before ++ target :: more ∧
      (∃ summary, (run tree options before).result = .ok summary) ∧
      discover (run tree options before).tree target = .error f := by
  induction targets generalizing tree with
  | nil => exact absurd h (by simp [run])
  | cons target more ih =>
    cases hdiscover : discover tree target with
    | error g =>
      rw [(run_cons_of_error options hdiscover more).1] at h
      obtain rfl := Except.error.inj h
      exact ⟨[], target, more, rfl, ⟨.empty, rfl⟩, hdiscover⟩
    | ok sources =>
      rw [run_cons_of_ok hdiscover] at h
      obtain ⟨before, last, others, rfl, ⟨summary, hsummary⟩, hlast⟩ := ih (map_eq_error_iff.mp h)
      refine ⟨target :: before, last, others, rfl, ?_, ?_⟩
      · rw [run_cons_of_ok hdiscover]
        exact ⟨_, map_eq_ok_iff.mpr ⟨summary, hsummary, rfl⟩⟩
      · rw [run_cons_of_ok hdiscover]
        exact hlast

end Targets

/-- **What a run tells of its sources** — a run that comes to its end has found the sources of each
target in the tree that the targets before it left, has visited all of them in order, each in the
tree that the sources before it left, and tells the reports of those that did not fail and the
failures of the others. It fails exactly at a target whose discovery fails, and then it is left as
the targets before it left it, whatever targets follow. Without a source that is rejected, the
reports and the failures of the others and the tree at the end are the same. -/
theorem run_accounts (tree : FileTree) (options : Options) (targets : List Target) :
    (∀ summary, (run tree options targets).result = .ok summary →
      let vs := visits tree options targets
      (∀ before target more, targets = before ++ target :: more →
        ∃ found, discover (run tree options before).tree target = .ok found ∧
          (discoveries tree options targets)[before.length]? = some found) ∧
        (discoveries tree options targets).length = targets.length ∧
        vs.map (·.source) = (discoveries tree options targets).flatten ∧
        (∀ before v more, vs = before ++ v :: more →
          v.tree = (extractAll tree options (before.map (·.source))).tree) ∧
        summary.files = vs.filterMap (·.report? options) ∧
        summary.failures = vs.filterMap (·.failure? options) ∧
        (∀ v ∈ vs, v.failure? options = none ↔ (v.report? options).isSome) ∧
        (summary.isSuccess ↔ ∀ v ∈ vs, v.failure? options = none)) ∧
      (∀ f, (run tree options targets).result = .error f ↔
        ∃ before target more, targets = before ++ target :: more ∧
          (∃ summary, (run tree options before).result = .ok summary) ∧
          discover (run tree options before).tree target = .error f) ∧
      (∀ before target more f, targets = before ++ target :: more →
        (∃ summary, (run tree options before).result = .ok summary) →
        discover (run tree options before).tree target = .error f →
          ∀ others, run tree options (before ++ target :: others) =
            ⟨.error f, (run tree options before).tree, (run tree options before).notices⟩) ∧
      ∀ before s more f, Visit.IsRejected ⟨s, (extractAll tree options before).tree⟩ options f →
        let all := extractAll tree options (before ++ s :: more)
        let others := extractAll tree options (before ++ more)
        all.tree = others.tree ∧ all.summary.files = others.summary.files ∧
          ∃ earlier later, all.summary.failures = earlier ++ f :: later ∧
            others.summary.failures = earlier ++ later ∧
            earlier = (extractAll tree options before).summary.failures := by
  refine ⟨fun summary h => ?_, fun f => ⟨exists_of_run_error, ?_⟩, ?_, ?_⟩
  · have hfailures := failures_run h
    refine ⟨?_, length_discoveries h, ?_, ?_, files_run h, hfailures, ?_, ?_⟩
    · rintro before target more rfl
      exact discover_of_run h
    · rw [visits_eq_visitsAll, map_source_visitsAll]
    · intro before v more hv
      rw [visits_eq_visitsAll] at hv
      exact tree_of_visitsAll_eq tree options hv
    · exact fun v _ => Visit.failure?_eq_none_iff
    · rw [Summary.isSuccess, List.isEmpty_iff, hfailures, List.filterMap_eq_nil_iff]
  · rintro ⟨before, target, more, rfl, ⟨summary, hbefore⟩, hf⟩
    rw [run_of_discover_error hbefore hf more]
  · rintro before target more f - ⟨summary, hbefore⟩ hf others
    exact run_of_discover_error hbefore hf others
  · intro before s more f hrejected
    obtain ⟨⟨later, hall, hothers⟩, htree⟩ := visitsAll_without hrejected more
    have hfailure : Visit.failure? ⟨s, (extractAll tree options before).tree⟩ options = some f := by
      rw [Visit.failure?, hrejected.1]
    have hreport : Visit.report? ⟨s, (extractAll tree options before).tree⟩ options = none := by
      rw [Visit.report?, hrejected.1]
      rfl
    refine ⟨htree, ?_, _, later.filterMap (·.failure? options), ?_, ?_, rfl⟩
    · simp only [files_extractAll, hall, hothers, List.filterMap_append, List.filterMap_cons,
        hreport]
    · simp only [failures_extractAll, hall, List.filterMap_append, List.filterMap_cons, hfailure]
    · rw [failures_extractAll, failures_extractAll, hothers, List.filterMap_append]

/-- A stylesheet that cannot be parsed, beside one that can. -/
def badSheetTree : FileTree where
  entries := [(["bad.css"], .file "a\x7bb\x7d".toUTF8), (["good.css"], .file "a\x7b\x7d".toUTF8)]

/-- The target that asks for both stylesheets. -/
def badSheetTarget : Target :=
  ⟨["bad.css", "good.css"], ⟨"out"⟩⟩

/-- What a run over both stylesheets tells. -/
def badSheetSummary : Summary :=
  ⟨[⟨⟨"good.css"⟩, [⟨"out/good-base.css"⟩], 0⟩], [.parse ⟨"bad.css"⟩ ⟨.endOfInput, ⟨1, 4⟩⟩]⟩

theorem run_accounts_badSheet :
    ((run badSheetTree {} [badSheetTarget]).result = .ok badSheetSummary ∧
      (visits badSheetTree {} [badSheetTarget]).map (·.source) =
        (discoveries badSheetTree {} [badSheetTarget]).flatten ∧
      badSheetSummary.failures =
        (visits badSheetTree {} [badSheetTarget]).filterMap (·.failure? {})) ∧
      (∀ others, (run badSheetTree {} (badSheetTarget :: ⟨["none.css"], ⟨"out"⟩⟩ ::
        others)).result = .error (.noInput ["none.css"])) ∧
      (extractAll badSheetTree {} [⟨⟨"bad.css"⟩, ⟨"out/bad.css"⟩⟩,
          ⟨⟨"good.css"⟩, ⟨"out/good.css"⟩⟩]).tree =
        (extractAll badSheetTree {} [⟨⟨"good.css"⟩, ⟨"out/good.css"⟩⟩]).tree := by
  have hresult : (run badSheetTree {} [badSheetTarget]).result = .ok badSheetSummary := by
    decide +kernel
  have hnone : discover (run badSheetTree {} [badSheetTarget]).tree ⟨["none.css"], ⟨"out"⟩⟩ =
      .error (.noInput ["none.css"]) := by decide +kernel
  have hrejected : Visit.IsRejected ⟨⟨⟨"bad.css"⟩, ⟨"out/bad.css"⟩⟩,
      (extractAll badSheetTree {} []).tree⟩ {} (.parse ⟨"bad.css"⟩ ⟨.endOfInput, ⟨1, 4⟩⟩) :=
    ⟨by decide +kernel, .inr (.inl ⟨_, _, rfl⟩)⟩
  obtain ⟨-, -, hsources, -, -, hfailures, -, -⟩ := (run_accounts badSheetTree {} _).1 _ hresult
  obtain ⟨-, -, hends, hothers⟩ := run_accounts badSheetTree {}
    [badSheetTarget, ⟨["none.css"], ⟨"out"⟩⟩]
  obtain ⟨htree, -⟩ := hothers [] _ [⟨⟨"good.css"⟩, ⟨"out/good.css"⟩⟩] _ hrejected
  refine ⟨⟨hresult, hsources, hfailures⟩, fun others => ?_, htree⟩
  exact congrArg Outcome.result (hends [_] _ [] _ rfl ⟨_, hresult⟩ hnone others)

end StyleSplit
