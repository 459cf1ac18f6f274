import Mathlib.Data.List.Basic
import Mathlib.Tactic.Common
import StyleSplit.Files.Destination
set_option autoImplicit false

/-!
# The last component of a path

A file name that is put at the end of a path, be it joined or in the place of another one, is the
last component of the new path. The paths of the parts of a stylesheet are made that way, so they
differ where the tags do.

## Main results

* `StyleSplit.Path.slash_notMem_stem` — a stem holds no slash.
* `StyleSplit.Path.getLast?_components_withFileName` — the last component behind a new file name.
* `StyleSplit.getLast?_components_bucketPath` — the last component of the path of a part.
-/

namespace StyleSplit

namespace Path

/-! ## Segments hold no slash -/

/-- What stands between separators holds none. -/
lemma notMem_of_mem_splitOn {α : Type} [BEq α] [LawfulBEq α] {a : α} {s part : List α}
    (h : part ∈ s.splitOn a) : a ∉ part := by
  induction s generalizing part with
  | nil => simp_all
  | cons c s ih =>
    rw [List.splitOn_cons_eq_if_modifyHead] at h
    split at h
    · obtain rfl | h := List.mem_cons.mp h
      · exact List.not_mem_nil
      · exact ih h
    · rename_i hc
      cases hsplit : s.splitOn a with
      | nil => exact absurd hsplit (List.splitOn_ne_nil a s)
      | cons first more =>
        rw [hsplit, List.modifyHead_cons] at h
        rw [hsplit] at ih
        obtain rfl | h := List.mem_cons.mp h
        · have hfirst := ih List.mem_cons_self
          simp only [beq_iff_eq] at hc
          exact fun hmem => (List.mem_cons.mp hmem).elim (fun e => hc e.symm) hfirst
        · exact ih (List.mem_cons_of_mem _ h)

/-- What stands between separators is a part of the list. -/
lemma mem_of_mem_splitOn {α : Type} [BEq α] [LawfulBEq α] {a b : α} {s part : List α}
    (h : part ∈ s.splitOn a) (hb : b ∈ part) : b ∈ s := by
  induction s generalizing part with
  | nil => simp_all
  | cons c s ih =>
    obtain ⟨first, more, hsplit⟩ := List.exists_cons_of_ne_nil (List.splitOn_ne_nil a s)
    rw [List.splitOn_cons_eq_if_modifyHead, hsplit] at h
    rw [hsplit] at ih
    split at h
    · obtain rfl | h := List.mem_cons.mp h
      · exact absurd hb List.not_mem_nil
      · exact List.mem_cons_of_mem _ (ih h hb)
    · obtain rfl | h := List.mem_cons.mp h
      · exact (List.mem_cons.mp hb).elim (fun h => h ▸ List.mem_cons_self)
          fun h => List.mem_cons_of_mem _ (ih List.mem_cons_self h)
      · exact List.mem_cons_of_mem _ (ih (List.mem_cons_of_mem _ h) hb)

lemma slash_notMem_of_mem_segments {p : Path} {segment : String} (h : segment ∈ p.segments) :
    '/' ∉ segment.toList := by
  obtain ⟨part, hpart, rfl⟩ := List.mem_map.mp h
  rw [String.toList_ofList]
  exact notMem_of_mem_splitOn hpart

lemma mem_of_mem_dropIdle {segment : String} {l : List String} (h : segment ∈ dropIdle l) :
    segment ∈ l := by
  fun_induction dropIdle l with
  | case1 s t more hidle ih => exact List.mem_cons_of_mem _ (ih h)
  | case2 => exact h
  | case3 => exact h

/-- A file name is one of the segments. -/
lemma mem_segments_of_fileName? {p : Path} {name : String} (h : p.fileName? = some name) :
    name ∈ p.segments := by
  unfold fileName? at h
  split at h
  · rename_i s more hback
    split at h
    · exact absurd h (by simp)
    · obtain rfl := Option.some.inj h
      have hmem : s ∈ dropIdle p.segments.reverse := by
        rw [← backward, hback]
        exact List.mem_cons_self
      exact List.mem_reverse.mp (mem_of_mem_dropIdle hmem)
  · exact absurd h (by simp)

/-- A file name holds no slash. -/
lemma slash_notMem_fileName {p : Path} {name : String} (h : p.fileName? = some name) :
    '/' ∉ name.toList :=
  slash_notMem_of_mem_segments (mem_segments_of_fileName? h)

/-- The part of a file name in front of its last dot is its beginning. -/
lemma isPrefix_splitName (name : String) : (splitName name).1.toList <+: name.toList := by
  simp only [splitName]
  split
  · rename_i d e stem hdrop
    have hsuffix := List.dropWhile_suffix (l := name.toList.reverse) (· != '.')
    rw [hdrop] at hsuffix
    rw [String.toList_ofList, ← List.reverse_suffix, List.reverse_reverse]
    exact (List.suffix_cons d _).trans hsuffix
  · exact List.prefix_rfl

lemma mem_of_mem_splitName {name : String} {c : Char} (h : c ∈ (splitName name).1.toList) :
    c ∈ name.toList :=
  (isPrefix_splitName name).subset h

/-- A stem holds no slash. -/
lemma slash_notMem_stem (p : Path) : '/' ∉ p.stem.toList := by
  unfold stem
  split
  · rename_i name hname
    exact fun h => slash_notMem_fileName hname (mem_of_mem_splitName h)
  · exact List.not_mem_nil

/-- A stem is made of characters of the path. -/
lemma mem_of_mem_stem {p : Path} {c : Char} (h : c ∈ p.stem.toList) : c ∈ p.text.toList := by
  unfold stem at h
  split at h
  · rename_i name hname
    obtain ⟨part, hpart, rfl⟩ := List.mem_map.mp (mem_segments_of_fileName? hname)
    have hmem := mem_of_mem_splitName h
    rw [String.toList_ofList] at hmem
    exact mem_of_mem_splitOn hpart hmem
  · exact absurd h List.not_mem_nil

/-! ## A name at the end -/

/-- A text that ends with a name behind a slash, or is the name, has it as its last component. -/
lemma getLast?_components_of_text {p : Path} {name : String} (hslash : '/' ∉ name.toList)
    (hidle : isIdle name = false)
    (htext : p.text.toList = name.toList ∨ ∃ before, p.text.toList = before ++ '/' :: name.toList) :
    p.components.getLast? = some name := by
  have hne : name ≠ "" := by
    rintro rfl
    exact absurd hidle (by decide)
  rcases htext with htext | ⟨before, htext⟩
  · have hsegments : p.segments = [name] := by
      rw [segments, htext, List.splitOn_eq_singleton hslash, List.map_singleton,
        String.ofList_toList]
    rw [components, hsegments]
    simp [hne]
  · obtain ⟨first, more, hbefore⟩ := List.exists_cons_of_ne_nil (List.splitOn_ne_nil '/' before)
    have hsegments : p.segments = String.ofList first :: (more.map String.ofList ++ [name]) := by
      rw [segments, htext, List.splitOn_append_cons_self, hbefore,
        List.splitOn_eq_singleton hslash]
      simp
    rw [components, hsegments]
    simp [hidle]

/-- A name that is joined is the last component. -/
lemma getLast?_components_join {p : Path} {name : String} (hslash : '/' ∉ name.toList)
    (hidle : isIdle name = false) : (p.join ⟨name⟩).components.getLast? = some name := by
  apply getLast?_components_of_text hslash hidle
  have habsolute : isAbsolute ⟨name⟩ = false := by
    rw [isAbsolute, beq_eq_false_iff_ne]
    exact fun h => hslash (List.mem_of_head? h)
  rw [join, if_neg (by simp [habsolute])]
  split
  · rename_i hend
    rcases hend with hempty | hlast
    · left
      simp [hempty]
    · right
      obtain ⟨before, hbefore⟩ := List.getLast?_eq_some_iff.mp hlast
      exact ⟨before, by simp [hbefore]⟩
  · right
    exact ⟨p.text.toList, by simp⟩

/-- A name in the place of the file name is the last component. -/
lemma getLast?_components_withFileName {p : Path} {name : String} (hslash : '/' ∉ name.toList)
    (hidle : isIdle name = false) : (p.withFileName name).components.getLast? = some name := by
  unfold withFileName
  split <;> exact getLast?_components_join hslash hidle

end Path

/-! ## The paths of parts -/

/-- The path of a part ends with its file name: the stem of the destination, a hyphen and the
tag. -/
lemma getLast?_components_bucketPath (destination : Path) {tag : String}
    (hslash : '/' ∉ tag.toList) :
    (bucketPath destination tag).components.getLast? =
      some (destination.stem ++ "-" ++ tag ++ ".css") := by
  apply Path.getLast?_components_withFileName
  · have hstem := destination.slash_notMem_stem
    simp [hstem, hslash]
  · -- a name that ends in `.css` is neither empty nor a dot
    have hlength : 4 ≤ (destination.stem ++ "-" ++ tag ++ ".css").toList.length := by
      simp only [String.toList_append, List.length_append]
      exact Nat.le_add_left 4 _
    rw [Path.isIdle, Bool.or_eq_false_iff, beq_eq_false_iff_ne, beq_eq_false_iff_ne]
    constructor <;> intro h <;> rw [h] at hlength <;> exact absurd hlength (by decide)

end StyleSplit
