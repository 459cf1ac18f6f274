import StyleSplit.Proofs.Css.Piece
import StyleSplit.Proofs.Media.Condition
import StyleSplit.Proofs.Media.Classification
set_option autoImplicit false

/-!
# Conditions that are merged

Blocks are merged by the identifiers of their conditions. An identifier keeps the wording of its
condition, that is letters, digits, a few signs and the operators of ratios and ranges, but neither
spacing nor parentheses nor the case of a letter. So the conditions of one group have one wording,
up to the spelling of operators, though they need not mean the same.

## Main definitions

* `StyleSplit.Condition.wording` — the characters that a condition is told apart by.
* `StyleSplit.Condition.spelled` — a wording with its operators spelled out.

## Main results

* `StyleSplit.Condition.key_eq` — the key of a condition is its spelled wording.
* `StyleSplit.merged_wording` — conditions of one identifier, and the rules of a group.
* `StyleSplit.merged_grouping` — conditions of one group that differ in more than spacing and case.
-/

namespace StyleSplit

namespace Condition

/-! ## Wordings -/

/-- The operators of features, ratios and ranges. -/
def operators : List Char := [':', '/', '>', '<', '=']

/-- The signs that stand in keys as they are. -/
def signs : List Char := ['.', '_', ',', '-']

/-- Whether a condition is told apart by a character. All else is passed over: blanks, parentheses
and other characters that keys do not hold. -/
def isWorded (c : Char) : Bool :=
  Css.isTextChar (operators ++ signs) c

/-- **Wordings** — the letters, digits, operators and signs of a condition, in lower case. -/
def wording (condition : String) : List Char :=
  (condition.toList.filter isWorded).map Char.toLower

/-- An operator in characters that a key may hold. -/
def spelling : Char → List Char
  | ':' => ['-']
  | '/' => ['_']
  | '>' => ['g', 't']
  | '<' => ['l', 't']
  | '=' => ['e', 'q']
  | c => [c]

/-- **Spelled wordings** — with each operator spelled out. -/
def spelled (wording : List Char) : List Char :=
  wording.flatMap spelling

/-- All but operators are spelled as they are. -/
lemma spelling_of_notMem_operators {c : Char} (h : c ∉ operators) : spelling c = [c] := by
  simp only [operators, List.mem_cons, List.not_mem_nil, or_false, not_or] at h
  unfold spelling
  split <;> simp_all

/-- No other character becomes an operator in lower case. -/
lemma toLower_notMem_operators {c : Char} (h : c ∉ operators) : c.toLower ∉ operators := by
  by_cases hupper : c.isUpper
  · have hlower : c.toLower.isLower := by simp [Char.isAlpha, hupper]
    have hnone : operators.all (!·.isLower) := by decide
    exact fun hmem => absurd (List.all_eq_true.mp hnone _ hmem) (by simp [hlower])
  · rwa [Char.toLower_eq_of_not_isUpper hupper]

/-- A text without operators is spelled as it is. -/
lemma spelled_eq_self {s : List Char} (h : ∀ c ∈ s, c ∉ operators) : spelled s = s := by
  induction s with
  | nil => rfl
  | cons c s ih =>
    rw [List.forall_mem_cons] at h
    rw [spelled, List.flatMap_cons, spelling_of_notMem_operators h.1, ← spelled, ih h.2]
    rfl

/-- **The key of a character** — its spelling in lower case if it is worded. -/
lemma keyChars_eq (c : Char) :
    keyChars c = if isWorded c then spelling c.toLower else [] := by
  by_cases hoperator : c ∈ operators
  · fin_cases hoperator <;> rfl
  by_cases hsign : c ∈ signs
  · fin_cases hsign <;> rfl
  have hworded : isWorded c = c.isAlphanum := by
    simp [isWorded, Css.isTextChar, hoperator, hsign]
  obtain ⟨hcolon, hslash, hgreater, hless, hequal⟩ :
      c ≠ ':' ∧ c ≠ '/' ∧ c ≠ '>' ∧ c ≠ '<' ∧ c ≠ '=' := by
    simpa [operators] using hoperator
  simp only [signs, List.mem_cons, List.not_mem_nil, or_false] at hsign
  rw [hworded]
  cases halphanum : c.isAlphanum with
  | false => simp [keyChars, hcolon, hslash, hgreater, hless, hequal, halphanum, hsign]
  | true =>
    have hblank : isBlank c = false :=
      Css.isBlank_of_isGraphic (Css.isGraphic_of_isAlphanum halphanum)
    have hopen : ¬ (c = '(' ∨ c = ')' ∨ isBlank c) := by
      rintro (rfl | rfl | h)
      · exact absurd halphanum (by decide)
      · exact absurd halphanum (by decide)
      · exact absurd h (by simp [hblank])
    rw [keyChars, if_neg hopen, if_neg hcolon, if_neg hslash, if_neg hgreater, if_neg hless,
      if_neg hequal, if_pos halphanum, if_pos rfl,
      spelling_of_notMem_operators (toLower_notMem_operators hoperator)]

/-- **Keys are spelled wordings.** -/
lemma key_eq (condition : String) :
    key condition = String.ofList (spelled (wording condition)) := by
  have hchars : ∀ s : List Char, s.flatMap keyChars =
      ((s.filter isWorded).map Char.toLower).flatMap spelling := by
    intro s
    induction s with
    | nil => rfl
    | cons c s ih =>
      rw [List.flatMap_cons, ih, keyChars_eq, List.filter_cons]
      split_ifs with hworded
      · rw [List.map_cons, List.flatMap_cons]
      · rw [List.nil_append]
  rw [key, hchars, spelled, wording]

/-- Without operators, the wording of a condition is spelled as it is. -/
lemma spelled_wording_eq_self {condition : String} (h : ∀ c ∈ operators, c ∉ condition.toList) :
    spelled (wording condition) = wording condition := by
  refine spelled_eq_self fun d hd => ?_
  obtain ⟨c, hc, rfl⟩ := List.mem_map.mp hd
  exact toLower_notMem_operators fun hoperator => h c hoperator (List.mem_of_mem_filter hc)

/-- **The same wording** — once operators are spelled out, or at once if there are none. -/
def SameWording (a b : String) : Prop :=
  spelled (wording a) = spelled (wording b) ∧
    ((∀ c ∈ operators, c ∉ a.toList ∧ c ∉ b.toList) → wording a = wording b)

/-- Conditions of one identifier have the same wording. -/
lemma sameWording_of_groupId_eq {a b : String} (h : groupId a = groupId b) : SameWording a b := by
  have hspelled : spelled (wording a) = spelled (wording b) := by
    have hkey := key_eq_of_groupId_eq h
    rwa [key_eq, key_eq, String.ofList_inj] at hkey
  refine ⟨hspelled, fun hnone => ?_⟩
  rwa [spelled_wording_eq_self fun c hc => (hnone c hc).1,
    spelled_wording_eq_self fun c hc => (hnone c hc).2] at hspelled

end Condition

/-! ## Merged blocks -/

/-- **Merged conditions** — two conditions have one identifier only if they have the same wording.
So each group holds rules of such blocks only whose conditions have the wording of the condition
that heads the group. -/
theorem merged_wording :
    (∀ a b, Condition.groupId a = Condition.groupId b → Condition.SameWording a b) ∧
    ∀ statements, ∀ g ∈ (classify statements).groups, ∃ blocks : List MediaBlock,
      blocks.Sublist (statements.filterMap Statement.mediaBlock?) ∧
      (∀ b ∈ blocks, Condition.SameWording b.1 g.condition) ∧
      g.rules = blocks.flatMap MediaBlock.rules := by
  refine ⟨fun a b => Condition.sameWording_of_groupId_eq, fun statements g hg => ?_⟩
  rw [groups_classify] at hg
  obtain ⟨head, -, rfl⟩ := List.mem_map.mp hg
  refine ⟨_, List.filter_sublist, fun b hb => ?_, rfl⟩
  exact Condition.sameWording_of_groupId_eq
    (MediaBlock.sameGroup_iff.mp (List.mem_filter.mp hb).2).symm

/-- Two blocks whose conditions differ in spacing and case. -/
def spacedBlocks : List Statement :=
  [.media "(Min-width: 1PX)" [.style (.rule ["a"] [])],
    .media "( min-width:1px )" [.style (.rule ["b"] [])]]

/-- They make up one group, whose rules come from both. -/
theorem merged_wording_spacedBlocks :
    Condition.groupId "(Min-width: 1PX)" = Condition.groupId "( min-width:1px )" ∧
      Condition.SameWording "(Min-width: 1PX)" "( min-width:1px )" ∧
      ∃ g ∈ (classify spacedBlocks).groups, g.rules.length = 2 ∧
        ∃ blocks : List MediaBlock,
          blocks.Sublist (spacedBlocks.filterMap Statement.mediaBlock?) ∧
          (∀ b ∈ blocks, Condition.SameWording b.1 g.condition) ∧
          g.rules = blocks.flatMap MediaBlock.rules := by
  have hid : Condition.groupId "(Min-width: 1PX)" = Condition.groupId "( min-width:1px )" := by
    decide +kernel
  have hgroups : (classify spacedBlocks).groups.map (·.rules.length) = [2] := by decide +kernel
  obtain ⟨g, hg, hlength⟩ := List.mem_map.mp (hgroups ▸ List.mem_singleton_self 2)
  exact ⟨hid, merged_wording.1 _ _ hid, g, hg, hlength, merged_wording.2 _ g hg⟩

/-! ## Groupings -/

/-- A condition without blanks and in lower case. -/
def Condition.unspaced (condition : String) : List Char :=
  (condition.toList.filter (!isBlank ·)).map Char.toLower

/-- Conditions that group the same features otherwise, that differ in a character that keys drop, or
in an operator that keys write as another condition does. -/
def otherwiseGrouped : List (String × String) :=
  [("(a) or ((b) and (c))", "((a) or (b)) and (c)"), ("(width)", "width"), ("a + b", "a b"),
    ("a:b", "a-b"), ("a/b", "a_b"), ("a >= b", "a gteq b")]

/-- **Merged groupings** — such conditions have one identifier, though they differ in more than
spacing and case. A rule of one is written under the other. -/
theorem merged_grouping :
    (∀ p ∈ otherwiseGrouped, Condition.groupId p.1 = Condition.groupId p.2 ∧
      Condition.unspaced p.1 ≠ Condition.unspaced p.2) ∧
    (classify [.media "(a) or ((b) and (c))" [.style (.rule ["x"] [])],
      .media "((a) or (b)) and (c)" [.style (.rule ["y"] [])]]).groups.map
        (fun g => (g.condition, g.rules.length)) = [("(a) or ((b) and (c))", 2)] := by
  decide +kernel

end StyleSplit
