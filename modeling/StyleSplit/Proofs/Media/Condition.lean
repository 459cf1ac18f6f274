import Mathlib
import StyleSplit.Media.Condition
set_option autoImplicit false

/-!
# The identifiers of conditions

Whatever the characters of a condition are, its identifier is made of few characters, all of which a
file name may hold, and it is never the tag of another part.

## Main definitions

* `StyleSplit.Tag.isTaken` — the tags of the parts that are not media groups.
* `StyleSplit.Condition.keyOfId` — the key behind an identifier.

## Main results

* `StyleSplit.Condition.isKeyChar_of_mem_groupId` — the characters of an identifier.
* `StyleSplit.Condition.keyOfId_groupId` — an identifier tells the key.
* `StyleSplit.Condition.isTaken_groupId` — an identifier is no tag of another part.
-/

namespace StyleSplit

/-! ## Tags of other parts -/

namespace Tag

/-- **Taken tags** — the tags of the base, of the keyframes and of collections. -/
def isTaken (s : String) : Bool :=
  s == base || s == keyframes || collectionPrefix.toList.isPrefixOf s.toList

/-- All taken tags are reserved. -/
lemma isReserved_of_isTaken {s : String} (h : isTaken s) : isReserved s := by
  rw [isReserved, ← isTaken, h]
  rfl

/-- A prefixed identifier is not taken, since no taken tag begins like the prefix. -/
lemma isTaken_mediaPrefix_append (s : String) : isTaken (mediaPrefix ++ s) = false := by
  have hlist : (mediaPrefix ++ s).toList = 'm' :: ("edia-".toList ++ s.toList) := by
    simp [mediaPrefix]
  have hne : ∀ t : String, t.toList.head? = some 'b' ∨ t.toList.head? = some 'k' →
      mediaPrefix ++ s ≠ t := by
    rintro t ht rfl
    rw [hlist, List.head?_cons] at ht
    exact absurd ht (by decide)
  simp only [isTaken, Bool.or_eq_false_iff, beq_eq_false_iff_ne]
  refine ⟨⟨hne base (by decide), hne keyframes (by decide)⟩, ?_⟩
  rw [hlist]
  rfl

end Tag

namespace Condition

/-! ## The characters of an identifier -/

/-- A digit is no capital letter. -/
lemma not_isUpper_of_isDigit {c : Char} (h : c.isDigit) : ¬ c.isUpper := by
  simp only [Char.isDigit, Char.isUpper, Bool.and_eq_true, decide_eq_true_eq,
    UInt32.le_iff_toNat_le] at h ⊢
  intro hupper
  exact absurd (hupper.1.trans h.2) (by decide)

/-- The spelling of a character is made of key characters. -/
lemma isKeyChar_of_mem_keyChars {c d : Char} (h : d ∈ keyChars c) : isKeyChar d := by
  unfold keyChars at h
  split_ifs at h with _ _ _ _ _ _ hletter hsign
  · exact absurd h List.not_mem_nil
  · fin_cases h; decide
  · fin_cases h; decide
  · fin_cases h <;> decide
  · fin_cases h <;> decide
  · fin_cases h <;> decide
  · -- a letter or a digit, which loses its case
    obtain rfl := List.mem_singleton.mp h
    obtain hc | hc : c.isAlpha ∨ c.isDigit := by simpa [Char.isAlphanum] using hletter
    · simp [isKeyChar, hc]
    · simp [isKeyChar, Char.toLower_eq_of_not_isUpper (not_isUpper_of_isDigit hc), hc]
  · obtain rfl := List.mem_singleton.mp h
    rcases hsign with rfl | rfl | rfl | rfl <;> decide
  · exact absurd h List.not_mem_nil

/-- The key of a condition is made of key characters. -/
lemma isKeyChar_of_mem_key {condition : String} {d : Char} (h : d ∈ (key condition).toList) :
    isKeyChar d := by
  rw [key, String.toList_ofList] at h
  obtain ⟨c, -, hd⟩ := List.mem_flatMap.mp h
  exact isKeyChar_of_mem_keyChars hd

/-- The identifier of a condition is made of key characters. -/
lemma isKeyChar_of_mem_groupId {condition : String} {d : Char}
    (h : d ∈ (groupId condition).toList) : isKeyChar d := by
  simp only [groupId] at h
  split_ifs at h
  · have hall : Tag.unconditional.toList.all isKeyChar := by decide
    exact List.all_eq_true.mp hall d h
  · rw [String.toList_append, List.mem_append] at h
    have hall : Tag.mediaPrefix.toList.all isKeyChar := by decide
    exact h.elim (List.all_eq_true.mp hall d) isKeyChar_of_mem_key
  · exact isKeyChar_of_mem_key h

/-- An identifier is not empty. -/
lemma groupId_ne_empty (condition : String) : groupId condition ≠ "" := by
  simp only [groupId]
  split_ifs with hempty hreserved
  · decide
  · intro h
    have hlist := congrArg String.toList h
    rw [String.toList_append] at hlist
    exact absurd (List.append_eq_nil_iff.mp hlist).1 (by decide)
  · exact hempty

/-! ## Identifiers and keys -/

/-- **The key behind an identifier** — an identifier without what was put for a key that is empty or
reserved. -/
def keyOfId (id : String) : String :=
  if id = Tag.unconditional then ""
  else if Tag.mediaPrefix.toList.isPrefixOf id.toList then
    String.ofList (id.toList.drop Tag.mediaPrefix.toList.length)
  else id

/-- The key of a condition can be told from its identifier. -/
lemma keyOfId_groupId (condition : String) : keyOfId (groupId condition) = key condition := by
  simp only [groupId]
  split_ifs with hempty hreserved
  · rw [hempty]
    rfl
  · have hlist : (Tag.mediaPrefix ++ key condition).toList =
        Tag.mediaPrefix.toList ++ (key condition).toList := String.toList_append
    have hne : Tag.mediaPrefix ++ key condition ≠ Tag.unconditional := by
      intro h
      have hlength := congrArg List.length (hlist.symm.trans (congrArg String.toList h))
      rw [List.length_append] at hlength
      have hlong : Tag.unconditional.toList.length < Tag.mediaPrefix.toList.length := by decide
      omega
    have hprefix := List.isPrefixOf_iff_prefix.mpr
      (List.prefix_append Tag.mediaPrefix.toList (key condition).toList)
    rw [keyOfId, if_neg hne, hlist, if_pos hprefix, List.drop_left, String.ofList_toList]
  · -- a key that is not reserved looks like nothing that is put for another key
    simp only [Tag.isReserved, Bool.or_eq_true, beq_iff_eq, not_or] at hreserved
    rw [keyOfId, if_neg hreserved.1.2, if_neg hreserved.2]

/-- Conditions of one identifier have one key. -/
lemma key_eq_of_groupId_eq {a b : String} (h : groupId a = groupId b) : key a = key b := by
  rw [← keyOfId_groupId a, h, keyOfId_groupId]

/-! ## Identifiers and other tags -/

/-- The identifier of a condition is not taken by another part. -/
lemma isTaken_groupId (condition : String) : Tag.isTaken (groupId condition) = false := by
  simp only [groupId]
  split_ifs with hempty hreserved
  · decide
  · exact Tag.isTaken_mediaPrefix_append _
  · exact eq_false_of_ne_true fun h => hreserved (Tag.isReserved_of_isTaken h)

end Condition

end StyleSplit
