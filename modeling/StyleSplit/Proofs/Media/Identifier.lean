import StyleSplit.Proofs.Media.Merging
set_option autoImplicit false

/-!
# Keys and identifiers

Identifiers tell conditions apart exactly as keys do: what is put before a reserved key, or in the
place of an empty one, can be told from every key that is left alone. And an identifier is a text of
key characters, which is its own key.

## Main results

* `StyleSplit.Condition.key_eq_self` — a text of key characters is its own key.
* `StyleSplit.Condition.groupId_eq_iff` — one identifier exactly for one key.
* `StyleSplit.Condition.groupId_separates` — both, with the tags that no identifier is.
-/

namespace StyleSplit.Condition

/-! ## Keys of keys -/

/-- A key character is a small letter, a digit or a sign. -/
lemma isKeyChar_iff {c : Char} : isKeyChar c ↔ (c.isLower ∨ c.isDigit) ∨ c ∈ signs := by
  simp [isKeyChar, signs, or_assoc]

/-- A key character stands in a wording as it is. -/
lemma isWorded_of_isKeyChar {c : Char} (h : isKeyChar c) : isWorded c ∧ c.toLower = c := by
  obtain (hletter | hdigit) | hsign := isKeyChar_iff.mp h
  · have hworded : c.isAlphanum := by simp [Char.isAlphanum, Char.isAlpha, hletter]
    exact ⟨by simp [isWorded, Css.isTextChar, hworded],
      Char.toLower_eq_of_not_isUpper (Char.not_isUpper_of_isLower hletter)⟩
  · have hworded : c.isAlphanum := by simp [Char.isAlphanum, hdigit]
    exact ⟨by simp [isWorded, Css.isTextChar, hworded],
      Char.toLower_eq_of_not_isUpper (not_isUpper_of_isDigit hdigit)⟩
  · have hsigns : signs.all fun c => isWorded c && c.toLower == c := by decide
    simpa using List.all_eq_true.mp hsigns c hsign

/-- A key character is no operator. -/
lemma notMem_operators_of_isKeyChar {c : Char} (h : isKeyChar c) : c ∉ operators := by
  have hnone : operators.all (!isKeyChar ·) := by decide
  exact fun hmem => absurd (List.all_eq_true.mp hnone c hmem) (by simp [h])

/-- **A text of key characters is its own key.** -/
lemma key_eq_self {s : String} (h : ∀ c ∈ s.toList, isKeyChar c) : key s = s := by
  have hwording : wording s = s.toList := by
    rw [wording, List.filter_eq_self.mpr fun c hc => (isWorded_of_isKeyChar (h c hc)).1]
    have hlower : s.toList.map Char.toLower = s.toList.map id :=
      List.map_congr_left fun c hc => (isWorded_of_isKeyChar (h c hc)).2
    rw [hlower, List.map_id]
  rw [key_eq, hwording, spelled_eq_self fun c hc => notMem_operators_of_isKeyChar (h c hc),
    String.ofList_toList]

/-! ## Identifiers -/

/-- Conditions have one identifier exactly if they have one key: the key can be told from the
identifier, which is made from nothing else. -/
lemma groupId_eq_iff {a b : String} : groupId a = groupId b ↔ key a = key b :=
  ⟨key_eq_of_groupId_eq, fun h => by simp only [groupId, h]⟩

/-- **Identifiers** — two conditions have one identifier exactly if they have one key. Whatever a
condition says, its identifier is not empty, it is no tag of the base, of the keyframes or of a
collection, and it is its own key. -/
theorem groupId_separates :
    (∀ a b : String, groupId a = groupId b ↔ key a = key b) ∧
    ∀ c : String, groupId c ≠ "" ∧ groupId c ≠ "base" ∧ groupId c ≠ "keyframes" ∧
      ¬ "base_".toList <+: (groupId c).toList ∧ key (groupId c) = groupId c := by
  refine ⟨fun a b => groupId_eq_iff, fun c => ?_⟩
  have htaken := isTaken_groupId c
  simp only [Tag.isTaken, Bool.or_eq_false_iff, beq_eq_false_iff_ne] at htaken
  obtain ⟨⟨hbase, hkeyframes⟩, hcollection⟩ := htaken
  refine ⟨groupId_ne_empty c, hbase, hkeyframes, fun hfront => ?_, ?_⟩
  · exact Bool.false_ne_true (hcollection.symm.trans (List.isPrefixOf_iff_prefix.mpr hfront))
  · exact key_eq_self fun d hd => isKeyChar_of_mem_groupId hd

/-- The reserved keys and the empty one, next to keys that only look like them. -/
example : ["base", "base_x", "media", "media-base", "", "(baseline)"].map groupId =
    ["media-base", "media-base_x", "media-media", "media-media-base", "media", "baseline"] := by
  decide +kernel

end StyleSplit.Condition
