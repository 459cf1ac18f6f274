import StyleSplit.Proofs.Files.Kind
import StyleSplit.Proofs.Files.Path
set_option autoImplicit false

/-!
# The directory around a path

A path whose last segment is a name leads to that name in the directory that the segments before it
lead to, and its parent is a path to the same directory. The paths of the parts of a stylesheet are
of this kind: those of one destination have the same segments but for the last one.

## Main definitions

* `StyleSplit.Path.EndsWith` — the last segment of a path is a name.
* `StyleSplit.Path.IsTidy` — no segment at the end of a path names nothing.
* `StyleSplit.Path.IsParent` — a path to the directory around a path.

## Main results

* `StyleSplit.Path.EndsWith.exists_parent` — the parent leads to the directory around a path.
* `StyleSplit.Path.withFileName_of_fileName?` — a file name is replaced in the same directory.
* `StyleSplit.exists_endsWith_bucketPath` — the segments of the paths of parts.
-/

namespace StyleSplit

namespace Path

/-! ## Paths from segments -/

lemma segments_ne_nil (p : Path) : p.segments ≠ [] := by
  rw [segments, ne_eq, List.map_eq_nil_iff]
  exact List.splitOn_ne_nil _ _

/-- A path is the path of its segments. -/
lemma ofSegments_segments (p : Path) : ofSegments p.segments = p := by
  have htext : ("/".intercalate p.segments).toList = p.text.toList := by
    rw [String.toList_intercalate, segments, List.map_map]
    have hid : String.toList ∘ String.ofList = id := by
      funext l
      exact String.toList_ofList
    rw [hid, List.map_id]
    exact List.intercalate_splitOn '/'
  rw [ofSegments, String.toList_inj.mp htext]

/-- Segments without slashes are the segments of their path. -/
lemma segments_ofSegments {l : List String} (hne : l ≠ []) (h : ∀ s ∈ l, '/' ∉ s.toList) :
    (ofSegments l).segments = l := by
  have hsplit : (['/'].intercalate (l.map String.toList)).splitOn '/' = l.map String.toList := by
    refine List.splitOn_intercalate '/' (fun part hpart => ?_) (by simpa using hne)
    obtain ⟨s, hs, rfl⟩ := List.mem_map.mp hpart
    exact h s hs
  rw [segments, ofSegments, String.toList_intercalate]
  change ((['/'].intercalate (l.map String.toList)).splitOn '/').map String.ofList = l
  rw [hsplit, List.map_map]
  refine (List.map_congr_left fun s _ => ?_).trans (List.map_id l)
  exact String.ofList_toList

/-- The path of the first segments is the beginning of a path. -/
lemma isPrefix_ofSegments (l more : List String) :
    (ofSegments l).text.toList <+: (ofSegments (l ++ more)).text.toList := by
  by_cases hl : l = []
  · rw [hl]
    exact List.nil_prefix
  by_cases hmore : more = []
  · simp [hmore]
  · rw [ofSegments, ofSegments, String.intercalate_append_of_ne_nil hl hmore, String.toList_append,
      String.toList_append, List.append_assoc]
    exact List.prefix_append _ _

/-- A path begins at the root if nothing stands in front of its first slash. -/
lemma isAbsolute_iff {p : Path} :
    p.isAbsolute = true ↔ ∃ s more, p.segments = "" :: s :: more := by
  unfold isAbsolute segments
  cases hlist : p.text.toList with
  | nil => simp
  | cons c r =>
    rw [List.splitOn_cons_eq_if_modifyHead]
    obtain ⟨first, more, hsplit⟩ := List.exists_cons_of_ne_nil (List.splitOn_ne_nil '/' r)
    rw [hsplit]
    by_cases hc : c = '/'
    · simp [hc]
    · simp [hc]

/-- Paths that agree in the first two segments begin alike. -/
lemma isAbsolute_eq_of_segments {p q : Path} {s s' : String} {more more' : List String}
    (hp : p.segments = s :: more) (hq : q.segments = s :: s' :: more')
    (hmore : s = "" → more ≠ []) : p.isAbsolute = q.isAbsolute := by
  rw [Bool.eq_iff_iff, isAbsolute_iff, isAbsolute_iff, hp, hq]
  constructor
  · rintro ⟨_, _, h⟩
    exact ⟨s', more', by rw [(List.cons.inj h).1]⟩
  · rintro ⟨_, _, h⟩
    obtain ⟨r, rest, hrest⟩ := List.exists_cons_of_ne_nil (hmore (List.cons.inj h).1)
    exact ⟨r, rest, by rw [(List.cons.inj h).1, hrest]⟩

/-! ## The last segment -/

/-- **Paths to names** — the last segment of the path is a name, and `before` are the segments in
front of it. -/
structure EndsWith (p : Path) (before : List String) (name : String) : Prop where
  segments : p.segments = before ++ [name]
  isIdle : isIdle name = false

/-- **Tidy paths** — the root, the working directory, or a path whose last segment names
something. -/
def IsTidy (p : Path) : Prop :=
  p.text = "/" ∨ p.text = "." ∨ ∃ before name, p.EndsWith before name

lemma EndsWith.ne_empty {p : Path} {before : List String} {name : String}
    (h : p.EndsWith before name) : name ≠ "" := by
  rintro rfl
  exact absurd h.isIdle (by decide)

lemma EndsWith.text_ne_empty {p : Path} {before : List String} {name : String}
    (h : p.EndsWith before name) : p.text ≠ "" := by
  intro hempty
  have hsegments : p.segments = [] ++ [""] := by
    rw [Path.segments, hempty]
    rfl
  rw [h.segments] at hsegments
  exact h.ne_empty (List.cons.inj (List.append_inj_right' hsegments rfl)).1

/-- The root is no path to a name. -/
lemma EndsWith.text_ne_slash {p : Path} {before : List String} {name : String}
    (h : p.EndsWith before name) : p.text ≠ "/" := by
  intro hroot
  have hsegments : p.segments = [""] ++ [""] := by
    rw [Path.segments, hroot]
    decide
  rw [h.segments] at hsegments
  exact h.ne_empty (List.cons.inj (List.append_inj_right' hsegments rfl)).1

/-- Only segments that name nothing are dropped. -/
lemma exists_idle_dropIdle (l : List String) :
    ∃ idle, l = idle ++ dropIdle l ∧ ∀ s ∈ idle, Path.isIdle s := by
  fun_induction dropIdle l with
  | case1 s t more hs ih =>
    obtain ⟨idle, hl, hidle⟩ := ih
    refine ⟨s :: idle, by rw [List.cons_append, ← hl], fun x hx => ?_⟩
    rcases List.mem_cons.mp hx with rfl | hx
    · exact hs
    · exact hidle x hx
  | case2 s t more hs => exact ⟨[], rfl, by simp⟩
  | case3 l hl => exact ⟨[], rfl, by simp⟩

/-- What is left begins with a segment that names something, or is a single segment. -/
lemma dropIdle_cons {l : List String} {s : String} {more : List String}
    (h : dropIdle l = s :: more) : Path.isIdle s = false ∨ more = [] := by
  fun_induction dropIdle l with
  | case1 s' t rest hs ih => exact ih h
  | case2 s' t rest hs =>
    rw [← (List.cons.inj h).1]
    exact .inl (by simpa using hs)
  | case3 l hl =>
    cases more with
    | nil => exact .inr rfl
    | cons t rest => exact absurd h (hl s t rest)

/-- Nothing is dropped in front of a segment that names something. -/
lemma dropIdle_of_isIdle_eq_false {s : String} (h : Path.isIdle s = false) (more : List String) :
    dropIdle (s :: more) = s :: more := by
  cases more with
  | nil => rfl
  | cons t more => rw [dropIdle, if_neg (by simp [h])]

lemma dropIdle_ne_nil {l : List String} (h : l ≠ []) : dropIdle l ≠ [] := by
  fun_induction dropIdle l with
  | case1 s t more hs ih => exact ih (by simp)
  | case2 => simp
  | case3 => exact h

lemma EndsWith.backward {p : Path} {before : List String} {name : String}
    (h : p.EndsWith before name) : p.backward = name :: before.reverse := by
  rw [Path.backward, h.segments, List.reverse_append, List.reverse_singleton,
    List.singleton_append, dropIdle_of_isIdle_eq_false h.isIdle]

/-! ## The parent -/

/-- **Parents** — the path leads to the directory that the segments of `p` but the last one lead to,
and its text is in front of that of `p`. -/
structure IsParent (parent p : Path) (before : List String) : Prop where
  ne_empty : parent.text ≠ ""
  isTidy : parent.IsTidy
  isPrefix : parent.text.toList <+: p.text.toList
  length_segments : parent.text = "/" ∨ parent.segments.length ≤ before.length
  isAbsolute_eq : parent.isAbsolute = p.isAbsolute
  filter_segments : parent.segments.filter (!isIdle ·) = before.filter (!isIdle ·)

/-- The parent leads to the directory of the segments in front of the name. -/
lemma IsParent.enter_eq {parent p : Path} {before : List String} (h : IsParent parent p before)
    (t : FileTree) :
    t.enter (t.startOf parent) parent.segments = t.enter (t.startOf p) before := by
  rw [FileTree.enter_filter, FileTree.startOf_congr h.isAbsolute_eq, h.filter_segments,
    ← FileTree.enter_filter]

lemma filter_of_isIdle {idle : List String} (h : ∀ s ∈ idle, Path.isIdle s) :
    idle.filter (!isIdle ·) = [] :=
  List.filter_eq_nil_iff.mpr fun s hs => by simp [h s hs]

/-- The parent of a path from the root whose segments before the name name nothing. -/
lemma isParent_root {p : Path} {name : String} {idle : List String}
    (h : p.EndsWith ("" :: idle) name) (hidle : ∀ s ∈ idle, Path.isIdle s) :
    IsParent ⟨"/"⟩ p ("" :: idle) := by
  have habsolute : p.isAbsolute = true := by
    obtain ⟨t, more, hmore⟩ := List.exists_cons_of_ne_nil (l := idle ++ [name]) (by simp)
    exact isAbsolute_iff.mpr ⟨t, more, by rw [h.segments, List.cons_append, hmore]⟩
  refine ⟨by decide, .inl rfl, ?_, .inl rfl, habsolute.symm, ?_⟩
  · rw [isAbsolute, beq_iff_eq, List.head?_eq_some_iff] at habsolute
    obtain ⟨r, hr⟩ := habsolute
    exact ⟨r, hr.symm⟩
  · have hempty : Path.isIdle "" = true := by decide
    have hroot : (segments ⟨"/"⟩).filter (!isIdle ·) = [] := by decide
    rw [hroot, filter_of_isIdle (List.forall_mem_cons.mpr ⟨hempty, hidle⟩)]

/-- The parent of a path that has segments before the name. -/
lemma isParent_ofSegments {p : Path} {before idle : List String} {name : String}
    {rest : List String} (h : p.EndsWith before name)
    (hbefore : before = rest.reverse ++ idle) (hidle : ∀ s ∈ idle, Path.isIdle s)
    (hrest : rest = dropIdle rest) (hne : rest ≠ []) (hroot : rest ≠ [""]) :
    IsParent (ofSegments rest.reverse) p before := by
  have hreverse : rest.reverse ≠ [] := by simpa using hne
  have hslash : ∀ s ∈ rest.reverse, '/' ∉ s.toList := by
    intro s hs
    refine slash_notMem_of_mem_segments (p := p) ?_
    rw [h.segments, hbefore]
    simp [List.mem_reverse.mp hs]
  have hsegments : (ofSegments rest.reverse).segments = rest.reverse :=
    segments_ofSegments hreverse hslash
  obtain ⟨s, more, hs⟩ := List.exists_cons_of_ne_nil hreverse
  have hmore : s = "" → more ≠ [] := by
    rintro rfl rfl
    exact hroot (by simpa using congrArg List.reverse hs)
  have hp : p.segments = s :: (more ++ idle ++ [name]) := by
    rw [h.segments, hbefore, hs]
    simp
  obtain ⟨t, others, hothers⟩ := List.exists_cons_of_ne_nil
    (l := more ++ idle ++ [name]) (by simp)
  have habsolute : (ofSegments rest.reverse).isAbsolute = p.isAbsolute :=
    isAbsolute_eq_of_segments (hsegments.trans hs) (hp.trans (by rw [hothers])) hmore
  refine ⟨?_, ?_, ?_, .inr ?_, habsolute, ?_⟩
  · intro hempty
    have hnil : (ofSegments rest.reverse).segments = [""] := by
      rw [segments, hempty]
      rfl
    rw [hsegments, List.reverse_eq_iff] at hnil
    exact hroot hnil
  · cases hcase : rest with
    | nil => exact absurd hcase hne
    | cons last front =>
      rcases dropIdle_cons (hrest.symm.trans hcase) with hlast | rfl
      · refine .inr (.inr ⟨front.reverse, last, ?_, hlast⟩)
        rw [← hcase, hsegments, hcase, List.reverse_cons]
      · by_cases hlast : Path.isIdle last
        · have hdot : last = "." := by
            rw [isIdle, Bool.or_eq_true, beq_iff_eq, beq_iff_eq] at hlast
            exact hlast.resolve_left fun h => hroot (by rw [hcase, h])
          exact .inr (.inl (by rw [hdot]; rfl))
        · exact .inr (.inr ⟨[], last, by rw [← hcase, hsegments, hcase]; rfl, by simpa using hlast⟩)
  · rw [← ofSegments_segments p, h.segments, hbefore, List.append_assoc]
    exact isPrefix_ofSegments rest.reverse (idle ++ [name])
  · rw [hsegments, hbefore, List.length_append]
    exact Nat.le_add_right _ _
  · rw [hsegments, hbefore, List.filter_append, filter_of_isIdle hidle, List.append_nil]

/-- **The directory around a path** — the parent leads to it. A single name has the empty path as
its parent, and is looked up in the working directory. -/
lemma EndsWith.exists_parent {p : Path} {before : List String} {name : String}
    (h : p.EndsWith before name) :
    ∃ parent, p.parent? = some parent ∧
      (before = [] ∧ parent.text = "" ∨ before ≠ [] ∧ IsParent parent p before) := by
  rw [parent?, h.backward]
  by_cases hnil : before = []
  · subst hnil
    exact ⟨⟨""⟩, by simp [h.ne_empty], .inl ⟨rfl, rfl⟩⟩
  have hreverse : before.reverse ≠ [] := by simpa using hnil
  obtain ⟨idle, hidle, hall⟩ := exists_idle_dropIdle before.reverse
  have hbefore : before = (dropIdle before.reverse).reverse ++ idle.reverse := by
    rw [← List.reverse_append, ← hidle, List.reverse_reverse]
  have hallReverse : ∀ s ∈ idle.reverse, Path.isIdle s := fun s hs =>
    hall s (List.mem_reverse.mp hs)
  have hidem : dropIdle before.reverse = dropIdle (dropIdle before.reverse) := by
    obtain ⟨s, more, hs⟩ := List.exists_cons_of_ne_nil (dropIdle_ne_nil hreverse)
    rw [hs]
    rcases dropIdle_cons hs with hidle | rfl
    · rw [dropIdle_of_isIdle_eq_false hidle]
    · rfl
  obtain ⟨s, more, hs⟩ := List.exists_cons_of_ne_nil hreverse
  rw [hs]
  dsimp only
  rw [← hs]
  by_cases hroot : dropIdle before.reverse = [""]
  · refine ⟨⟨"/"⟩, by rw [hroot]; rfl, .inr ⟨hnil, ?_⟩⟩
    rw [hroot] at hbefore
    have hcons : before = "" :: idle.reverse := hbefore
    rw [hcons]
    exact isParent_root (hcons ▸ h) hallReverse
  · refine ⟨ofSegments (dropIdle before.reverse).reverse, ?_, .inr ⟨hnil, ?_⟩⟩
    · split
      · rename_i heq
        exact absurd heq hroot
      · rfl
    · exact isParent_ofSegments h hbefore hallReverse hidem (dropIdle_ne_nil hreverse) hroot

/-! ## A name that is joined -/

/-- The segments that a name stands behind if it is joined to the path. -/
def front (p : Path) : List String :=
  if p.text = "" then []
  else if p.text.toList.getLast? = some '/' then p.segments.dropLast
  else p.segments

lemma join_of_slash_notMem (p : Path) {name : String} (hslash : '/' ∉ name.toList) :
    p.join ⟨name⟩ = if p.text = "" ∨ p.text.toList.getLast? = some '/' then ⟨p.text ++ name⟩
      else ⟨p.text ++ "/" ++ name⟩ := by
  have habsolute : isAbsolute ⟨name⟩ = false := by
    rw [isAbsolute, beq_eq_false_iff_ne]
    exact fun h => hslash (List.mem_of_head? h)
  rw [join, if_neg (by simp [habsolute])]

/-- A slash at the end of a path is in front of an empty segment. -/
lemma segments_of_getLast?_eq_slash {p : Path} (h : p.text.toList.getLast? = some '/') :
    ∃ front, p.text.toList = front ++ ['/'] ∧
      p.segments = (front.splitOn '/').map String.ofList ++ [""] := by
  obtain ⟨front, hfront⟩ := List.getLast?_eq_some_iff.mp h
  refine ⟨front, hfront, ?_⟩
  rw [segments, hfront, List.splitOn_append_cons_self]
  simp

/-- A name that is joined to a path is the last segment. -/
lemma endsWith_join (p : Path) {name : String} (hslash : '/' ∉ name.toList)
    (hidle : Path.isIdle name = false) : (p.join ⟨name⟩).EndsWith p.front name := by
  have hbehind : ∀ {front : List Char} {q : Path}, q.text.toList = front ++ '/' :: name.toList →
      q.segments = (front.splitOn '/').map String.ofList ++ [name] := by
    intro front q hq
    rw [segments, hq, List.splitOn_append_cons_self, List.splitOn_eq_singleton hslash]
    simp
  refine ⟨?_, hidle⟩
  rw [join_of_slash_notMem p hslash, front]
  by_cases hempty : p.text = ""
  · rw [if_pos (.inl hempty), if_pos hempty, hempty, segments, String.empty_append,
      List.splitOn_eq_singleton hslash, List.map_singleton, String.ofList_toList]
    rfl
  by_cases hend : p.text.toList.getLast? = some '/'
  · obtain ⟨front, hfront, hsegments⟩ := segments_of_getLast?_eq_slash hend
    rw [if_pos (.inr hend), if_neg hempty, if_pos hend, hsegments, List.dropLast_concat]
    exact hbehind (by simp [hfront])
  · rw [if_neg (not_or.mpr ⟨hempty, hend⟩), if_neg hempty, if_neg hend]
    exact hbehind (by simp)

/-- **Components of a joined name** — those of the path, and the name. -/
lemma components_join (p : Path) {name : String} (hslash : '/' ∉ name.toList)
    (hidle : Path.isIdle name = false) : (p.join ⟨name⟩).components = p.components ++ [name] := by
  have hname : name ≠ "" := (endsWith_join p hslash hidle).ne_empty
  have hsegments := (endsWith_join p hslash hidle).segments
  by_cases hempty : p.text = ""
  · have hnone : p.components = [] := by
      rw [components, isAbsolute, segments, hempty]
      rfl
    rw [front, if_pos hempty] at hsegments
    rw [hnone, components, hsegments]
    simp [hname]
  -- what is in front of the name is not empty, so that both paths begin alike
  have habsolute : (p.join ⟨name⟩).isAbsolute = p.isAbsolute := by
    have hne : p.text.toList ≠ [] := by simpa using hempty
    rw [join_of_slash_notMem p hslash, isAbsolute, isAbsolute]
    split <;> simp [List.head?_append_of_ne_nil _ hne]
  have hbegin : ∃ s more idle, p.front = s :: more ∧ p.segments = s :: (more ++ idle) ∧
      idle.filter (!isIdle ·) = [] := by
    rw [front, if_neg hempty]
    split_ifs with hend
    · obtain ⟨front, -, hfront⟩ := segments_of_getLast?_eq_slash hend
      obtain ⟨s, more, hs⟩ := List.exists_cons_of_ne_nil (List.splitOn_ne_nil '/' front)
      rw [hfront, List.dropLast_concat, hs, List.map_cons]
      exact ⟨_, _, [""], rfl, rfl, by decide⟩
    · obtain ⟨s, more, hs⟩ := List.exists_cons_of_ne_nil p.segments_ne_nil
      exact ⟨s, more, [], hs, by rw [hs, List.append_nil], rfl⟩
  obtain ⟨s, more, idle, hfront, hp, hidles⟩ := hbegin
  rw [hfront, List.cons_append] at hsegments
  rw [components, components, hsegments, hp, habsolute]
  simp [hidle, hidles]

/-- **The parent of a joined name** — the path itself, if it is tidy or empty. -/
lemma parent?_join {p : Path} (hp : p.text = "" ∨ p.IsTidy) {name : String}
    (hslash : '/' ∉ name.toList) (hidle : Path.isIdle name = false) :
    (p.join ⟨name⟩).parent? = some p := by
  obtain ⟨text⟩ := p
  have hends := endsWith_join ⟨text⟩ hslash hidle
  rw [parent?, hends.backward]
  obtain rfl | rfl | rfl | ⟨before, last, hlast⟩ := hp
  · simp [front, hends.ne_empty]
  · rfl
  · rfl
  · have htext : text ≠ "" := by
      rintro rfl
      have hsegments := congrArg List.getLast? hlast.segments
      rw [List.getLast?_concat] at hsegments
      exact hlast.ne_empty (Option.some.inj hsegments).symm
    have hend : text.toList.getLast? ≠ some '/' := by
      intro hend
      obtain ⟨front, -, hfront⟩ := segments_of_getLast?_eq_slash (p := ⟨text⟩) hend
      rw [hlast.segments] at hfront
      exact hlast.ne_empty (List.cons.inj (List.append_inj' hfront rfl).2).1
    rw [front, if_neg htext, if_neg hend, hlast.segments, List.reverse_append,
      List.reverse_singleton, List.singleton_append]
    dsimp only
    rw [dropIdle_of_isIdle_eq_false hlast.isIdle]
    split
    · rename_i heq
      exact absurd (List.cons.inj heq).1 hlast.ne_empty
    · rw [List.reverse_cons, List.reverse_reverse, ← hlast.segments, ofSegments_segments]

/-! ## Another file name -/

/-- A path with a file name is a path to that name, but for what names nothing at its end. -/
lemma exists_endsWith_of_fileName? {p : Path} {name : String} (h : p.fileName? = some name) :
    ∃ q before, EndsWith q before name ∧ q.backward = p.backward := by
  unfold fileName? at h
  split at h
  · rename_i s more hbackward
    split_ifs at h with hidle
    obtain rfl := Option.some.inj h
    have hslash : ∀ t ∈ more.reverse ++ [s], '/' ∉ t.toList := by
      intro t ht
      have hmem : t ∈ p.backward := by
        rw [hbackward]
        simpa [or_comm] using ht
      exact slash_notMem_of_mem_segments (List.mem_reverse.mp (mem_of_mem_dropIdle hmem))
    have hends : (ofSegments (more.reverse ++ [s])).EndsWith more.reverse s :=
      ⟨segments_ofSegments (by simp) hslash, by grind⟩
    exact ⟨_, _, hends, by rw [hends.backward, hbackward, List.reverse_reverse]⟩
  · exact absurd h (by simp)

/-- The parent of a path with a file name is tidy or empty. -/
lemma exists_parent_of_fileName? {p : Path} {name : String} (h : p.fileName? = some name) :
    ∃ parent, p.parent? = some parent ∧ (parent.text = "" ∨ parent.IsTidy) := by
  obtain ⟨q, before, hends, hbackward⟩ := exists_endsWith_of_fileName? h
  obtain ⟨parent, hparent, hcases⟩ := hends.exists_parent
  rw [parent?, hbackward, ← parent?] at hparent
  exact ⟨parent, hparent, hcases.imp (·.2) (·.2.isTidy)⟩

/-- The parent of a path with a file name is the beginning of the path. -/
lemma isPrefix_of_parent? {p parent : Path} {name : String} (h : p.fileName? = some name)
    (hparent : p.parent? = some parent) : parent.text.toList <+: p.text.toList := by
  obtain ⟨q, before, hends, hbackward⟩ := exists_endsWith_of_fileName? h
  have hq : q.text.toList <+: p.text.toList := by
    obtain ⟨idle, hidle, -⟩ := exists_idle_dropIdle p.segments.reverse
    have hsegments : p.segments = q.segments ++ idle.reverse := by
      rw [hends.segments, ← List.reverse_reverse before, ← List.reverse_cons, ← hends.backward,
        hbackward, backward, ← List.reverse_append, ← hidle, List.reverse_reverse]
    rw [← ofSegments_segments p, ← ofSegments_segments q, hsegments]
    exact isPrefix_ofSegments q.segments idle.reverse
  obtain ⟨other, hother, hcases⟩ := hends.exists_parent
  rw [parent?, hbackward, ← parent?, hparent] at hother
  obtain rfl := Option.some.inj hother
  obtain ⟨-, hempty⟩ | ⟨-, hisParent⟩ := hcases
  · simp [hempty]
  · exact hisParent.isPrefix.trans hq

/-- **Another file name** — it stands in the place of the old one, and the directory around it is
the same. -/
lemma withFileName_of_fileName? {p : Path} {name new : String} (h : p.fileName? = some name)
    (hslash : '/' ∉ new.toList) (hidle : Path.isIdle new = false) (hdots : new ≠ "..") :
    ∃ parent, p.parent? = some parent ∧ (p.withFileName new).parent? = some parent ∧
      (p.withFileName new).fileName? = some new ∧
      (p.withFileName new).components = parent.components ++ [new] := by
  obtain ⟨parent, hparent, htidy⟩ := exists_parent_of_fileName? h
  have hjoin : p.withFileName new = parent.join ⟨new⟩ := by
    rw [withFileName, h, hparent]
  refine ⟨parent, hparent, ?_, ?_, ?_⟩
  · rw [hjoin, parent?_join htidy hslash hidle]
  · rw [hjoin, fileName?, (endsWith_join parent hslash hidle).backward]
    simp [hidle, hdots]
  · rw [hjoin, components_join parent hslash hidle]

end Path

/-! ## Paths of parts -/

/-- A name that is joined to a path is behind the segments of the path. -/
lemma Path.exists_endsWith_join (p : Path) :
    ∃ before, ∀ name : String, '/' ∉ name.toList → Path.isIdle name = false →
      (p.join ⟨name⟩).EndsWith before name :=
  ⟨p.front, fun _ hslash hidle => endsWith_join p hslash hidle⟩

/-- The file name of a part. -/
def bucketName (destination : Path) (tag : String) : String :=
  destination.stem ++ "-" ++ tag ++ ".css"

lemma slash_notMem_bucketName (destination : Path) {tag : String} (h : '/' ∉ tag.toList) :
    '/' ∉ (bucketName destination tag).toList := by
  have hstem := destination.slash_notMem_stem
  simp [bucketName, hstem, h]

/-- A name with a suffix of four characters is neither empty nor made of dots. -/
lemma bucketName_ne (destination : Path) (tag : String) {name : String}
    (h : name.toList.length < 4) : bucketName destination tag ≠ name := by
  rintro rfl
  simp only [bucketName, String.toList_append, List.length_append] at h
  exact absurd h (Nat.not_lt.mpr (Nat.le_add_left 4 _))

lemma isIdle_bucketName (destination : Path) (tag : String) :
    Path.isIdle (bucketName destination tag) = false := by
  rw [Path.isIdle, Bool.or_eq_false_iff, beq_eq_false_iff_ne, beq_eq_false_iff_ne]
  exact ⟨bucketName_ne destination tag (by decide), bucketName_ne destination tag (by decide)⟩

/-- Names of parts of one destination differ where the tags do. -/
lemma bucketName_injective (destination : Path) :
    Function.Injective (bucketName destination) := by
  intro a b h
  have hlist := congrArg String.toList h
  simp only [bucketName, String.toList_append] at hlist
  exact String.toList_inj.mp (List.append_cancel_left (List.append_cancel_right hlist))

lemma some_bucketName_injective (destination : Path) :
    Function.Injective fun tag => some (bucketName destination tag) :=
  fun _ _ h => bucketName_injective destination (Option.some.inj h)

/-- The paths of the parts of one destination differ in the last segment only, which is the file
name of the part. -/
lemma exists_endsWith_bucketPath (destination : Path) :
    ∃ before, ∀ tag : String, '/' ∉ tag.toList →
      (bucketPath destination tag).EndsWith before (bucketName destination tag) := by
  unfold bucketPath Path.withFileName
  split
  · rename_i parent _ _
    obtain ⟨before, hbefore⟩ := parent.exists_endsWith_join
    exact ⟨before, fun tag hslash =>
      hbefore _ (slash_notMem_bucketName destination hslash) (isIdle_bucketName destination tag)⟩
  · obtain ⟨before, hbefore⟩ := destination.exists_endsWith_join
    exact ⟨before, fun tag hslash =>
      hbefore _ (slash_notMem_bucketName destination hslash) (isIdle_bucketName destination tag)⟩

/-! ## Texts of paths -/

namespace FileTree

variable {parent p : Path}

/-- A text is in order if it is not empty, holds no NUL and is not too long. -/
lemma textError?_eq_none_iff : textError? p = none ↔
    '\x00' ∉ p.text.toList ∧ p.text ≠ "" ∧ p.text.utf8ByteSize ≤ maxPathBytes := by
  unfold textError?
  split_ifs with hnul hempty hlong
  · simp [List.contains_iff_mem.mp hnul]
  · simp [hempty]
  · simp [Nat.not_le.mpr hlong]
  · simpa [hempty] using ⟨by simpa using hnul, Nat.not_lt.mp hlong⟩

/-- The beginning of a text is not longer. -/
lemma utf8ByteSize_le_of_isPrefix {s text : String} (h : s.toList <+: text.toList) :
    s.utf8ByteSize ≤ text.utf8ByteSize := by
  obtain ⟨rest, hrest⟩ := h
  have htext : text = s ++ String.ofList rest := by
    rw [← String.toList_inj, String.toList_append, String.toList_ofList, hrest]
  rw [htext, String.utf8ByteSize_append]
  exact Nat.le_add_right _ _

/-- What is in front of a text that is in order is in order. -/
lemma textError?_of_isPrefix (h : parent.text.toList <+: p.text.toList)
    (hne : parent.text ≠ "") (hp : textError? p = none) : textError? parent = none := by
  obtain ⟨hnul, -, hlong⟩ := textError?_eq_none_iff.mp hp
  exact textError?_eq_none_iff.mpr ⟨fun hmem => hnul (h.subset hmem), hne,
    Nat.le_trans (utf8ByteSize_le_of_isPrefix h) hlong⟩

end FileTree

end StyleSplit
