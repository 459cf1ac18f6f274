import StyleSplit.Proofs.Files.SamePlace
import StyleSplit.Proofs.Run.Visits
set_option autoImplicit false

/-!
# What a run leaves in files

A run writes the parts of its sources one after the other and compares no paths: it may write to a
file that it wrote before, and to a source. At the end a file holds the part that was written to it
last. Sources whose destinations are apart never write to the same file.

## Main definitions

* `StyleSplit.LastWritten` — the part that was written last where a path leads to.
* `StyleSplit.Path.Apart` — destinations whose parts go to different files.

## Main results

* `StyleSplit.run_sources` — what a run leaves in its sources.
* `StyleSplit.run_outputs` — what a run leaves in the files that it reports.
-/

namespace StyleSplit

open FileTree

/-! ## The last part that was written -/

/-- **The last part at a place** — one of the visits wrote it where the path leads to, and none of
those after this one wrote a part there. -/
def LastWritten (final : FileTree) (options : Options) (vs : List Visit) (path : Path)
    (content : ByteArray) : Prop :=
  ∃ before v after, vs = before ++ v :: after ∧
    (∃ b ∈ v.written options, final.SamePlace (v.path b) path ∧
      b.content options.lineEnding = content) ∧
    ∀ x ∈ after, ∀ b ∈ x.written options, ¬ final.SamePlace (x.path b) path

variable {tree final : FileTree} {options : Options} {vs : List Visit} {path : Path} {p : Place}
  {c : ByteArray}

/-- What was written to a place is what was written where a path to it leads. -/
lemma lastWritten_of_contentAt?
    (hplaces : ∀ v ∈ vs, ∀ w ∈ v.writes options, final.place? w.path = some w.place)
    (hpath : final.place? path = some p)
    (h : Write.contentAt? p (vs.flatMap (·.writes options)) = some c) :
    LastWritten final options vs path c := by
  obtain ⟨before, v, after, rfl, hv, hafter⟩ := Write.exists_of_contentAt?_flatMap h
  refine ⟨before, v, after, rfl, ?_, fun x hx b hb hsame => ?_⟩
  · obtain ⟨w, hw, hplace, hcontent⟩ := Write.exists_mem_of_contentAt? hv
    obtain ⟨b, hb, hwpath, hwcontent⟩ := Visit.exists_written_of_mem_writes hw
    refine ⟨b, hb, ⟨p, ?_, hpath⟩, hwcontent.symm.trans hcontent⟩
    rw [← hwpath, hplaces v (by simp) w hw, hplace]
  · obtain ⟨w, hw, hwpath, -⟩ := Visit.exists_write_of_mem_written hb
    have hplace := hplaces x (by simp [hx]) w hw
    rw [hwpath, (samePlace_iff hpath).mp hsame.symm] at hplace
    exact hafter x hx w hw (Option.some.inj hplace).symm

/-! ## Sources -/

/-- The paths of what a run writes lead to where it was written. -/
lemma place?_of_mem_visits {targets : List Target} {v : Visit}
    (hv : v ∈ visits tree options targets) {w : Write} (hw : w ∈ v.writes options) :
    (run tree options targets).tree.place? w.path = some w.place :=
  (history_run tree options targets).place?_of_mem (List.mem_flatMap.mpr ⟨v, hv, hw⟩)

/-- **What a run leaves in its sources** — a source is a file at the end. It holds what was there
before the run, if no path that was written leads to it; else it holds the part that was written to
it last. -/
theorem run_sources {targets : List Target} {s : SourceFile}
    (hs : s ∈ (discoveries tree options targets).flatten) :
    let after := run tree options targets
    ∃ place content, after.tree.place? s.path = some place ∧
      after.tree.get? place = some (.file content) ∧
      ((∀ path, .written path ∈ after.notices → ¬ after.tree.SamePlace path s.path) ∧
          tree.get? place = some (.file content) ∨
        LastWritten after.tree options (visits tree options targets) s.path content) := by
  intro after
  obtain ⟨place, content, hreach, hget⟩ := isFile_iff.mp (isFile_of_mem_discoveries hs)
  have hplace : after.tree.place? s.path = some place :=
    place?_eq_some_iff.mpr ⟨hreach, _, hget⟩
  refine ⟨place, content, hplace, hget, ?_⟩
  have hhistory := history_run tree options targets
  cases hlast : Write.contentAt? place ((visits tree options targets).flatMap
      (·.writes options)) with
  | some c =>
    rw [hhistory.get?_of_contentAt? hlast] at hget
    rw [← Entry.file.inj (Option.some.inj hget)]
    refine .inr (lastWritten_of_contentAt? (fun v hv w hw => ?_) hplace hlast)
    exact place?_of_mem_visits hv hw
  | none =>
    have hnone := Write.contentAt?_eq_none_iff.mp hlast
    refine .inl ⟨fun path hpath hsame => ?_, ?_⟩
    · obtain ⟨w, hw, rfl⟩ := written_mem_notices_run_iff.mp hpath
      have hwplace := hhistory.place?_of_mem hw
      rw [(samePlace_iff hplace).mp hsame.symm] at hwplace
      exact hnone w hw (Option.some.inj hwplace).symm
    · have hfile := kind?_eq_file_iff.mpr ⟨content, hget⟩
      rw [← hhistory.get?_file_of_forall_ne hnone (.inr hfile)]
      exact hget

/-- A stylesheet, and another one with the name of its base part. -/
def overlappingTree : FileTree where
  entries := [(["w", "a.css"], .file "a{}".toUTF8), (["w", "a-base.css"], .file "b{}".toUTF8)]
  origin := ["w"]

/-- Both stylesheets as sources. -/
def overlappingTargets (destination : Path) : List Target :=
  [⟨["a.css", "a-base.css"], destination⟩]

-- the parts are written beside the sources, however the directory is named
example : ∀ destination ∈ [".", "/w", "../w"],
    let targets := overlappingTargets ⟨destination⟩
    (run overlappingTree {} targets).tree.content? ⟨"a-base.css"⟩ =
      some "a \x7b\n\x7d\n\n".toUTF8 := by
  decide +kernel

/-- The source with the name of the base part, where the directory of the sources is named from the
root. -/
def overlappedSource : SourceFile :=
  ⟨⟨"a-base.css"⟩, ⟨"/w/a-base.css"⟩⟩

theorem run_sources_overlapping :
    let targets := overlappingTargets ⟨"/w"⟩
    let after := run overlappingTree {} targets
    overlappedSource ∈ (discoveries overlappingTree {} targets).flatten ∧
      ∃ place content, after.tree.place? overlappedSource.path = some place ∧
        after.tree.get? place = some (.file content) ∧
        ((∀ path, .written path ∈ after.notices →
              ¬ after.tree.SamePlace path overlappedSource.path) ∧
            overlappingTree.get? place = some (.file content) ∨
          LastWritten after.tree {} (visits overlappingTree {} targets) overlappedSource.path
            content) := by
  intro targets after
  have hs : overlappedSource ∈ (discoveries overlappingTree {} targets).flatten := by
    decide +kernel
  exact ⟨hs, run_sources hs⟩

/-- A run does not keep the contents of all its sources. -/
theorem run_overwrites_source :
    ¬ ∀ (tree : FileTree) (options : Options) (targets : List Target) (summary : Summary),
      (run tree options targets).result = .ok summary →
        ∀ s ∈ (discoveries tree options targets).flatten, ∀ content,
          tree.content? s.path = some content →
            (run tree options targets).tree.content? s.path = some content := by
  intro h
  let targets := overlappingTargets ⟨"."⟩
  have hresult : (run overlappingTree {} targets).result = .ok
      ⟨[⟨⟨"a.css"⟩, [⟨"./a-base.css"⟩], 0⟩, ⟨⟨"a-base.css"⟩, [⟨"./a-base-base.css"⟩], 0⟩], []⟩ := by
    decide +kernel
  have hs : (⟨⟨"a-base.css"⟩, ⟨"./a-base.css"⟩⟩ : SourceFile) ∈
      (discoveries overlappingTree {} targets).flatten := by decide +kernel
  have hkept := h overlappingTree {} targets _ hresult _ hs "b{}".toUTF8 (by decide +kernel)
  have hfinal : (run overlappingTree {} targets).tree.content? ⟨"a-base.css"⟩ =
      some "a \x7b\n\x7d\n\n".toUTF8 := by decide +kernel
  exact absurd (hfinal.symm.trans hkept) (by decide +kernel)

/-! ## Reported files -/

/-- The directory that the parts of a destination are written to. -/
def Path.partsDirectory (destination : Path) : Path :=
  (bucketPath destination Tag.base).directory

/-- **Destinations that are apart** — their parts go to different directories, or the names of their
parts begin differently. -/
def Path.Apart (t : FileTree) (p q : Path) : Prop :=
  ¬ t.SamePlace p.partsDirectory q.partsDirectory ∨
    ¬ (p.stem ++ "-").toList <+: (q.stem ++ "-").toList ∧
      ¬ (q.stem ++ "-").toList <+: (p.stem ++ "-").toList

lemma place?_partsDirectory {t : FileTree} {destination : Path} {tag : String}
    (hslash : '/' ∉ tag.toList) (h : t.place? (bucketPath destination tag) = some p) :
    t.place? destination.partsDirectory = some p.dropLast ∧
      p.getLast? = some (bucketName destination tag) := by
  obtain ⟨before, hends⟩ := exists_endsWith_bucketPath destination
  have hreach := (place?_eq_some_iff.mp h).1
  have hp := hends tag hslash
  have hdots := bucketName_ne_dots destination tag
  refine ⟨?_, getLast?_of_reach hp hdots hreach⟩
  have hdirectory : destination.partsDirectory = (bucketPath destination tag).directory := by
    rw [Path.partsDirectory, Path.directory, Path.directory,
      (hends Tag.base (by decide)).parent?_eq hp]
  rw [hdirectory]
  exact place?_directory hp hdots hreach

/-- Parts of destinations that are apart are at different places. -/
lemma Path.Apart.ne_place {t : FileTree} {d d' : Path} (h : d.Apart t d') {tag tag' : String}
    (hslash : '/' ∉ tag.toList) (hslash' : '/' ∉ tag'.toList) {q : Place}
    (hp : t.place? (bucketPath d tag) = some p) (hq : t.place? (bucketPath d' tag') = some q) :
    p ≠ q := by
  rintro rfl
  obtain ⟨hdirectory, hname⟩ := place?_partsDirectory hslash hp
  obtain ⟨hdirectory', hname'⟩ := place?_partsDirectory hslash' hq
  rcases h with h | ⟨h, h'⟩
  · exact h ⟨_, hdirectory, hdirectory'⟩
  · -- of two texts in front of one name one is in front of the other
    have hnames : (d.stem ++ "-").toList ++ (tag ++ ".css").toList =
        (d'.stem ++ "-").toList ++ (tag' ++ ".css").toList := by
      rw [← String.toList_append, ← String.toList_append, ← String.append_assoc,
        ← String.append_assoc]
      have hsame : bucketName d tag = bucketName d' tag' :=
        Option.some.inj (hname.symm.trans hname')
      rw [bucketName, bucketName] at hsame
      rw [hsame]
    have hfirst := List.prefix_append (d.stem ++ "-").toList (tag ++ ".css").toList
    have hother := List.prefix_append (d'.stem ++ "-").toList (tag' ++ ".css").toList
    rw [← hnames] at hother
    rcases List.prefix_or_prefix_of_prefix hfirst hother with hfront | hfront
    · exact h hfront
    · exact h' hfront

/-- The paths of the buckets of a source differ. -/
lemma Visit.nodup_components (v : Visit) (options : Options) :
    (((v.buckets options).map v.path).map Path.components).Nodup := by
  have hnames : (((v.buckets options).map v.path).map Path.components).map List.getLast? =
      ((v.buckets options).map (·.tag)).map
        fun tag => some (bucketName v.source.destination tag) := by
    rw [List.map_map, List.map_map, List.map_map]
    refine List.map_congr_left fun b hb => ?_
    rw [Function.comp_apply, Function.comp_apply, Function.comp_apply]
    exact getLast?_components_bucketPath _ (slash_notMem_tag hb)
  refine List.Nodup.of_map List.getLast? ?_
  rw [hnames]
  exact (v.nodup_map_tag options).map (some_bucketName_injective _)

section

variable {targets : List Target} {v : Visit} {b : Bucket} {report : FileReport}

lemma exists_place_of_report (hv : v ∈ visits tree options targets)
    (hreport : v.report? options = some report) (hb : b ∈ v.buckets options) :
    ∃ w ∈ v.writes options, (run tree options targets).tree.place? (v.path b) = some w.place ∧
      w.content = b.content options.lineEnding := by
  rw [← (Visit.of_report? hreport).1] at hb
  obtain ⟨w, hw, hpath, hcontent⟩ := Visit.exists_write_of_mem_written hb
  exact ⟨w, hw, hpath ▸ place?_of_mem_visits hv hw, hcontent⟩

/-- The file of a bucket holds it, unless a later visit wrote a part there. -/
lemma content?_of_report {before later : List Visit}
    (hvisits : visits tree options targets = before ++ v :: later)
    (hreport : v.report? options = some report) (hb : b ∈ v.buckets options) :
    let final := (run tree options targets).tree
    final.content? (v.path b) = some (b.content options.lineEnding) ∨
      ∃ content, final.content? (v.path b) = some content ∧
        LastWritten final options later (v.path b) content := by
  intro final
  have hmem : ∀ x ∈ v :: later, x ∈ visits tree options targets := fun x hx => by
    rw [hvisits]
    exact List.mem_append_right before hx
  obtain ⟨w, hw, hplace, hcontent⟩ :=
    exists_place_of_report (hmem v List.mem_cons_self) hreport hb
  have hhistory := history_run tree options targets
  rw [hvisits, List.flatMap_append, List.flatMap_cons] at hhistory
  cases hlater : Write.contentAt? w.place (later.flatMap (·.writes options)) with
  | some c =>
    refine .inr ⟨c, content?_of_place? hplace (hhistory.get?_of_contentAt? ?_),
      lastWritten_of_contentAt? (fun x hx y hy =>
        place?_of_mem_visits (hmem x (List.mem_cons_of_mem v hx)) hy) hplace hlater⟩
    rw [Write.contentAt?_append, Write.contentAt?_append, hlater]
    rfl
  | none =>
    refine .inl (content?_of_place? hplace (hhistory.get?_of_contentAt? ?_))
    rw [Write.contentAt?_append, Write.contentAt?_append, hlater,
      Write.contentAt?_of_nodup (v.nodup_place_writes options) hw, hcontent]
    rfl

/-- Files of visits whose destinations are apart differ. -/
lemma ne_components_of_apart {v' : Visit} (hv : v ∈ visits tree options targets)
    (hv' : v' ∈ visits tree options targets)
    (hapart : v.source.destination.Apart (run tree options targets).tree v'.source.destination)
    {report' : FileReport} (hreport : v.report? options = some report)
    (hreport' : v'.report? options = some report') (hb : b ∈ v.buckets options) {b' : Bucket}
    (hb' : b' ∈ v'.buckets options) : (v.path b).components ≠ (v'.path b').components := by
  intro heq
  obtain ⟨w, -, hplace, -⟩ := exists_place_of_report hv hreport hb
  obtain ⟨w', -, hplace', -⟩ := exists_place_of_report hv' hreport' hb'
  have hslash := Visit.slash_notMem_tag hb
  have hslash' := Visit.slash_notMem_tag hb'
  refine hapart.ne_place hslash hslash' hplace hplace' ?_
  rw [eq_resolve_of_reach (place?_eq_some_iff.mp hplace).1,
    eq_resolve_of_reach (place?_eq_some_iff.mp hplace').1, resolve_eq_of_components heq]

/-- The paths of a report differ. -/
lemma Visit.nodup_report (hreport : v.report? options = some report) :
    (report.written.map Path.components).Nodup := by
  rw [(Visit.of_report? hreport).2.2]
  exact v.nodup_components options

/-- If the destinations of all visits are apart, the paths of all reports differ. -/
lemma nodup_components_of_apart
    (hapart : (visits tree options targets).Pairwise fun v v' =>
      v.source.destination.Apart (run tree options targets).tree v'.source.destination) :
    ((((visits tree options targets).filterMap (·.report? options)).flatMap (·.written)).map
      Path.components).Nodup := by
  rw [List.map_flatMap, List.nodup_flatMap]
  refine ⟨fun report hmem => ?_, ?_⟩
  · obtain ⟨v, -, hreport⟩ := List.mem_filterMap.mp hmem
    exact Visit.nodup_report hreport
  · refine List.Pairwise.filterMap _ (fun v v' hboth report hreport report' hreport' => ?_)
      (hapart.imp_of_mem fun {v v'} hv hv' hvv' => And.intro (And.intro hv hv') hvv')
    obtain ⟨⟨hv, hv'⟩, hvv'⟩ := hboth
    intro x hx hx'
    obtain ⟨path, hpath, rfl⟩ := List.mem_map.mp hx
    obtain ⟨path', hpath', heq⟩ := List.mem_map.mp hx'
    rw [(Visit.of_report? hreport).2.2] at hpath
    rw [(Visit.of_report? hreport').2.2] at hpath'
    obtain ⟨b, hb, rfl⟩ := List.mem_map.mp hpath
    obtain ⟨b', hb', rfl⟩ := List.mem_map.mp hpath'
    exact ne_components_of_apart hv hv' hvv' hreport hreport' hb hb' heq.symm

/-- If the destinations of all visits are apart, the file of a bucket holds it. -/
lemma content?_of_apart
    (hapart : (visits tree options targets).Pairwise fun v v' =>
      v.source.destination.Apart (run tree options targets).tree v'.source.destination)
    (hv : v ∈ visits tree options targets) (hreport : v.report? options = some report)
    (hb : b ∈ v.buckets options) :
    (run tree options targets).tree.content? (v.path b) =
      some (b.content options.lineEnding) := by
  obtain ⟨before, later, hvs⟩ := List.append_of_mem hv
  refine (content?_of_report hvs hreport hb).resolve_right ?_
  rintro ⟨content, -, between, v', after, rfl, ⟨b', hb', hsame, -⟩, -⟩
  rw [hvs] at hapart
  have hvv' := (List.pairwise_cons.mp (List.pairwise_append.mp hapart).2.1).1 v' (by simp)
  obtain ⟨place, hplace', hplace⟩ := hsame
  exact hvv'.ne_place (Visit.slash_notMem_tag hb)
    (Visit.slash_notMem_tag (Visit.mem_buckets_of_mem_written hb')) hplace hplace' rfl

end

/-- **What a run leaves in the files that it reports** — the paths of a report differ, and each of
them holds its bucket, or the part that a later visit wrote there last. If the destinations of all
visits are apart, the paths of all reports differ and each of them holds its bucket. -/
theorem run_outputs {targets : List Target} {summary : Summary}
    (h : (run tree options targets).result = .ok summary) :
    let final := (run tree options targets).tree
    let vs := visits tree options targets
    summary.files = vs.filterMap (·.report? options) ∧
      (∀ report ∈ summary.files, (report.written.map Path.components).Nodup) ∧
      (∀ before v later report, vs = before ++ v :: later → v.report? options = some report →
        report.source = v.source.path ∧ report.written = (v.buckets options).map v.path ∧
          ∀ b ∈ v.buckets options,
            final.content? (v.path b) = some (b.content options.lineEnding) ∨
              ∃ content, final.content? (v.path b) = some content ∧
                LastWritten final options later (v.path b) content) ∧
      (vs.Pairwise (fun v v' => v.source.destination.Apart final v'.source.destination) →
        ((summary.files.flatMap (·.written)).map Path.components).Nodup ∧
          ∀ v ∈ vs, ∀ report, v.report? options = some report → ∀ b ∈ v.buckets options,
            final.content? (v.path b) = some (b.content options.lineEnding)) := by
  intro final vs
  have hfiles := files_run h
  refine ⟨hfiles, fun report hmem => ?_, fun before v later report hvs hreport => ?_,
    fun hapart => ⟨?_, fun v hv report hreport b hb => ?_⟩⟩
  · rw [hfiles] at hmem
    obtain ⟨v, -, hreport⟩ := List.mem_filterMap.mp hmem
    exact Visit.nodup_report hreport
  · obtain ⟨-, hsource, hwritten⟩ := Visit.of_report? hreport
    exact ⟨hsource, hwritten, fun b hb => content?_of_report hvs hreport hb⟩
  · rw [hfiles]
    exact nodup_components_of_apart hapart
  · exact content?_of_apart hapart hv hreport hb

/-- Two stylesheets in different directories. -/
def twoDirectoriesTree : FileTree where
  entries :=
    [(["w", "x"], .directory), (["w", "x", "a.css"], .file "a{}".toUTF8),
      (["w", "x", "b.css"], .file "b{}".toUTF8), (["w", "y"], .directory),
      (["w", "y", "a.css"], .file "c{}".toUTF8)]
  origin := ["w"]

/-- The stylesheets with different names go to one directory. -/
def twoDirectoriesTargets : List Target :=
  [⟨["x/b.css", "y/a.css"], ⟨"out"⟩⟩]

/-- The summary of the run. -/
def twoDirectoriesSummary : Summary :=
  ⟨[⟨⟨"x/b.css"⟩, [⟨"out/b-base.css"⟩], 0⟩, ⟨⟨"y/a.css"⟩, [⟨"out/a-base.css"⟩], 0⟩], []⟩

theorem run_outputs_two_directories :
    (run twoDirectoriesTree {} twoDirectoriesTargets).result = .ok twoDirectoriesSummary ∧
      ((twoDirectoriesSummary.files.flatMap (·.written)).map Path.components).Nodup ∧
      ∀ v ∈ visits twoDirectoriesTree {} twoDirectoriesTargets, ∀ report,
        v.report? {} = some report → ∀ b ∈ v.buckets {},
          (run twoDirectoriesTree {} twoDirectoriesTargets).tree.content? (v.path b) =
            some (b.content ({} : Options).lineEnding) := by
  have hresult : (run twoDirectoriesTree {} twoDirectoriesTargets).result =
      .ok twoDirectoriesSummary := by decide +kernel
  have hstems : (visits twoDirectoriesTree {} twoDirectoriesTargets).Pairwise fun v v' =>
      ¬ (v.source.destination.stem ++ "-").toList <+: (v'.source.destination.stem ++ "-").toList ∧
        ¬ (v'.source.destination.stem ++ "-").toList <+:
          (v.source.destination.stem ++ "-").toList := by decide +kernel
  have hapart : (visits twoDirectoriesTree {} twoDirectoriesTargets).Pairwise fun v v' =>
      v.source.destination.Apart (run twoDirectoriesTree {} twoDirectoriesTargets).tree
        v'.source.destination := hstems.imp fun h => .inr h
  obtain ⟨-, -, -, hkept⟩ := run_outputs hresult
  exact ⟨hresult, hkept hapart⟩

/-- Stylesheets with the same name go to two directories. -/
def sameNameTargets (destination destination' : Path) : List Target :=
  [⟨["x/a.css"], destination⟩, ⟨["y/a.css"], destination'⟩]

/-- Parts of different sources may go to one file, and one of them is lost then; also if no two of
the paths are the same. -/
theorem run_outputs_meet :
    (¬ ∀ (tree : FileTree) (options : Options) (targets : List Target) (summary : Summary),
      (run tree options targets).result = .ok summary →
        (summary.files.flatMap (·.written)).Nodup) ∧
    ¬ ∀ (tree : FileTree) (options : Options) (targets : List Target) (summary : Summary),
      (run tree options targets).result = .ok summary →
      ((summary.files.flatMap (·.written)).map Path.components).Nodup →
        ∀ v ∈ visits tree options targets, ∀ report, v.report? options = some report →
          ∀ b ∈ v.buckets options, (run tree options targets).tree.content? (v.path b) =
            some (b.content options.lineEnding) := by
  constructor
  · intro h
    have hresult : (run twoDirectoriesTree {} (sameNameTargets ⟨"out"⟩ ⟨"out"⟩)).result = .ok
        ⟨[⟨⟨"x/a.css"⟩, [⟨"out/a-base.css"⟩], 0⟩, ⟨⟨"y/a.css"⟩, [⟨"out/a-base.css"⟩], 0⟩], []⟩ := by
      decide +kernel
    exact absurd (h _ _ _ _ hresult) (by decide +kernel)
  · intro h
    let targets := sameNameTargets ⟨"out"⟩ ⟨"/w/out"⟩
    have hresult : (run twoDirectoriesTree {} targets).result = .ok
        ⟨[⟨⟨"x/a.css"⟩, [⟨"out/a-base.css"⟩], 0⟩, ⟨⟨"y/a.css"⟩, [⟨"/w/out/a-base.css"⟩], 0⟩],
          []⟩ := by
      decide +kernel
    let b : Bucket := ⟨"base", "a \x7b\n\x7d\n\n"⟩
    obtain ⟨v, hv, hreport, hb, hpath⟩ : ∃ v ∈ visits twoDirectoriesTree {} targets,
        v.report? {} = some ⟨⟨"x/a.css"⟩, [⟨"out/a-base.css"⟩], 0⟩ ∧ b ∈ v.buckets {} ∧
          v.path b = ⟨"out/a-base.css"⟩ := by decide +kernel
    -- the part of the other stylesheet is in its place
    have hkept := h _ _ _ _ hresult (by decide +kernel) v hv _ hreport b hb
    rw [hpath] at hkept
    exact absurd hkept (by decide +kernel)

end StyleSplit
