import StyleSplit.Proofs.Css.Plain
set_option autoImplicit false

/-!
# Names and their spelling

A name can be spelled in many ways: an escape is longer than the character that it stands for. So a
name is never longer than its spelling, and it is spelled as it is only if its spelling has no
escapes.

## Main definitions

* `StyleSplit.Css.Token.headsDeclaration` — identifiers and colons.

## Main results

* `StyleSplit.Css.length_readName_le`, `StyleSplit.Css.readName_size_le` — the length of a name and
  of its spelling.
* `StyleSplit.Css.isNameChar_of_readName_eq_take` — names that are spelled as they are.
* `StyleSplit.Css.readToken_cases` — how a token is read.
* `StyleSplit.Css.readName_of_readToken_eq_ident` — the name and the spelling of an identifier.
* `StyleSplit.Css.exists_first_of_lexemes_eq_append` — a lexeme among the lexemes of a text.
-/

namespace StyleSplit.Css

/-! ## Lengths -/

lemma newlineSize_le (s : List Char) : newlineSize s ≤ s.length := by
  unfold newlineSize
  split
  · simp
  · split_ifs <;> simp
  · simp

lemma blankSize_le (s : List Char) : blankSize s ≤ s.length := by
  unfold blankSize
  split_ifs with hnewline hspace
  · exact newlineSize_le s
  · cases s with
    | nil => exact absurd hspace (by simp)
    | cons c r => simp
  · exact Nat.zero_le _

/-- An escape lies in its text. -/
lemma readEscape_size_le (s : List Char) : (readEscape s).2 ≤ s.length := by
  cases s with
  | nil => simp [readEscape]
  | cons c r =>
    rw [readEscape]
    split_ifs with hhex
    · have hdigits : (((c :: r).take 6).takeWhile isHexDigit).length ≤ (c :: r).length :=
        ((List.takeWhile_prefix _).trans (List.take_prefix 6 (c :: r))).length_le
      have hblank := blankSize_le ((c :: r).drop (((c :: r).take 6).takeWhile isHexDigit).length)
      rw [List.length_drop] at hblank
      dsimp only
      omega
    · simp

/-- An escape takes a character at least, unless the text ends. -/
lemma readEscape_size_pos (c : Char) (r : List Char) : 0 < (readEscape (c :: r)).2 := by
  rw [readEscape]
  split_ifs with hhex
  · have hdigit :
        ((c :: r).take 6).takeWhile isHexDigit = c :: (r.take 5).takeWhile isHexDigit := by
      rw [List.take_succ_cons, List.takeWhile_cons_of_pos hhex]
    dsimp only
    rw [hdigit, List.length_cons]
    omega
  · exact Nat.one_pos

/-- The spelling of a name lies in its text. -/
lemma readName_size_le (s : List Char) : (readName s).2 ≤ s.length := by
  fun_induction readName s with
  | case1 => exact Nat.le_refl _
  | case2 c r hc name size hread ih =>
    rw [hread] at ih
    exact Nat.succ_le_succ ih
  | case3 c r hc hescape d taken hd name size hread ih =>
    have htaken := readEscape_size_le r
    rw [hread, List.length_drop] at ih
    rw [hd] at htaken
    rw [List.length_cons]
    dsimp only at ih htaken ⊢
    omega
  | case4 => exact Nat.zero_le _

/-- A name is not longer than its spelling. -/
lemma length_readName_le (s : List Char) : (readName s).1.length ≤ (readName s).2 := by
  fun_induction readName s with
  | case1 => exact Nat.le_refl _
  | case2 c r hc name size hread ih =>
    rw [hread] at ih
    exact Nat.succ_le_succ ih
  | case3 c r hc hescape d taken hd name size hread ih =>
    rw [hread] at ih
    rw [List.length_cons]
    dsimp only at ih ⊢
    omega
  | case4 => exact Nat.zero_le _

/-! ## Names that are spelled as they are -/

/-- **A name that is spelled as it is** consists of characters of names other than NUL.

**Proof sketch.** Induction on the text, as a name is read. A character other than NUL stands for
itself. An escape cannot be spelled as what it stands for: it takes more characters than one, so
that the name behind it would be longer than its spelling, or it is the replacement for what the end
of the text cuts off. -/
lemma isNameChar_of_readName_eq_take {s : List Char}
    (h : (readName s).1 = s.take (readName s).2) :
    ∀ c ∈ (readName s).1, isNameChar c ∧ c ≠ '\x00' := by
  fun_induction readName s with
  | case1 => exact fun _ hc => absurd hc List.not_mem_nil
  | case2 c r hc name size hread ih =>
    rw [hread] at ih
    obtain ⟨hshown, hname⟩ := List.cons.inj h
    have hnul : c ≠ '\x00' := by
      rintro rfl
      exact absurd hshown (by decide)
    rw [hshown]
    exact List.forall_mem_cons.mpr ⟨⟨hc, hnul⟩, ih hname⟩
  | case3 c r hc hescape d taken hd name size hread ih =>
    obtain ⟨rfl, -⟩ := hescape
    obtain ⟨rfl, hname⟩ := List.cons.inj h
    have hsize := readName_size_le (r.drop taken)
    have hlength := length_readName_le (r.drop taken)
    have htaken := readEscape_size_le r
    rw [hread] at hsize hlength
    rw [hd] at htaken
    have hwhole := congrArg List.length hname
    rw [List.length_take] at hwhole
    rw [List.length_drop] at hsize
    dsimp only at hsize hlength htaken hwhole
    cases r with
    | nil =>
      have hreplacement : replacement = '\\' := congrArg Prod.fst hd
      exact absurd hreplacement (by decide)
    | cons e r =>
      have hpos := readEscape_size_pos e r
      rw [hd] at hpos
      dsimp only at hpos
      omega
  | case4 => exact fun _ hc => absurd hc List.not_mem_nil

/-! ## Identifiers -/

/-- Where an identifier begins, its name takes a character at least. -/
lemma readName_size_pos {c : Char} {r : List Char} (h : startsIdent (c :: r)) :
    0 < (readName (c :: r)).2 := by
  rw [readName]
  by_cases hback : c = '\\'
  · subst hback
    rw [if_neg (by decide), if_pos ⟨rfl, h⟩]
    exact Nat.succ_pos _
  · rw [if_pos (isNameChar_of_startsIdent hback h)]
    exact Nat.succ_pos _

/-- Whether a token can head a declaration: an identifier or a colon. -/
def Token.headsDeclaration : Token → Bool
  | ident _ | colon => true
  | _ => false

/-- **How a token is read** — as a name, as a symbol, or as something else, which is neither an
identifier nor a colon. -/
lemma readToken_cases (c : Char) (r : List Char) :
    (startsIdent (c :: r) ∧ readToken c r =
        let arguments := withArguments (readName (c :: r)).1 ((c :: r).drop (readName (c :: r)).2)
        (arguments.1, (readName (c :: r)).2 + arguments.2 - 1)) ∨
      readToken c r = symbolToken c r ∨ (readToken c r).1.headsDeclaration = false := by
  rw [readToken]
  split_ifs with hspace hquote hhash hat hnumeral hident
  · exact .inr (.inr rfl)
  · rw [stringToken]
    dsimp only
    split_ifs <;> exact .inr (.inr rfl)
  · rw [hashToken]
    dsimp only
    split_ifs <;> exact .inr (.inr rfl)
  · rw [atToken]
    split_ifs <;> exact .inr (.inr rfl)
  · unfold withUnit
    dsimp only
    split_ifs <;> exact .inr (.inr rfl)
  · exact .inl ⟨hident.1, rfl⟩
  · exact .inr (.inl rfl)

/-- A name is an identifier without arguments, or no identifier. -/
lemma withArguments_cases (word s : List Char) :
    withArguments word s = (.ident (String.ofList word), 0) ∨
      (withArguments word s).1.headsDeclaration = false := by
  unfold withArguments
  split
  · split_ifs
    · unfold urlToken
      dsimp only
      split
      · exact .inr rfl
      · dsimp only
        split <;> exact .inr rfl
    · exact .inr rfl
  · exact .inl rfl

/-- No symbol is an identifier, and only a colon is one. -/
lemma eq_colon_of_headsDeclaration_symbolToken {c : Char} {r : List Char}
    (h : (symbolToken c r).1.headsDeclaration) : c = ':' ∧ symbolToken c r = (.colon, 0) := by
  unfold symbolToken at h ⊢
  split at h
  all_goals first | exact ⟨rfl, rfl⟩ | exact absurd h Bool.false_ne_true

/-- **An identifier** is read where one begins; its name and its spelling are those of a name. -/
lemma readName_of_readToken_eq_ident {c : Char} {r : List Char} {name : String}
    (h : (readToken c r).1 = .ident name) :
    startsIdent (c :: r) ∧ name = String.ofList (readName (c :: r)).1 ∧
      (readToken c r).2 + 1 = (readName (c :: r)).2 := by
  have hheads : (readToken c r).1.headsDeclaration := by rw [h]; rfl
  rcases readToken_cases c r with ⟨hstart, hread⟩ | hread | hother
  · rw [hread] at h hheads
    rcases withArguments_cases (readName (c :: r)).1 ((c :: r).drop (readName (c :: r)).2) with
      hword | hother
    · have hpos := readName_size_pos hstart
      rw [hword] at h
      refine ⟨hstart, (Token.ident.inj h).symm, ?_⟩
      rw [hread, hword]
      dsimp only
      omega
    · rw [hother] at hheads
      cases hheads
  · rw [hread] at h hheads
    rw [(eq_colon_of_headsDeclaration_symbolToken hheads).2] at h
    cases h
  · rw [hother] at hheads
    cases hheads

/-- **A colon** is read from a colon. -/
lemma eq_of_readToken_eq_colon {c : Char} {r : List Char} (h : (readToken c r).1 = .colon) :
    c = ':' := by
  have hheads : (readToken c r).1.headsDeclaration := by rw [h]; rfl
  rcases readToken_cases c r with ⟨-, hread⟩ | hread | hother
  · rw [hread] at h hheads
    rcases withArguments_cases (readName (c :: r)).1 ((c :: r).drop (readName (c :: r)).2) with
      hword | hother
    · rw [hword] at h
      cases h
    · rw [hother] at hheads
      cases hheads
  · rw [hread] at hheads
    exact (eq_colon_of_headsDeclaration_symbolToken hheads).1
  · rw [hother] at hheads
    cases hheads

/-! ## Lexemes of a text -/

/-- A lexeme among the lexemes of a text is the first one of what stands behind those before it. -/
lemma exists_first_of_lexemes_eq_append {s : List Char} {pre post : List Lexeme} {l : Lexeme}
    (h : lexemes s = pre ++ l :: post) :
    ∃ c r, l = Lexeme.first c r ∧ s = pre.flatMap (·.raw) ++ c :: r ∧ lexemes l.rest = post := by
  induction pre generalizing s with
  | nil =>
    cases s with
    | nil =>
      rw [lexemes] at h
      cases h
    | cons c r =>
      rw [lexemes] at h
      obtain ⟨rfl, hpost⟩ := List.cons.inj h
      exact ⟨c, r, rfl, rfl, hpost⟩
  | cons m pre ih =>
    cases s with
    | nil =>
      rw [lexemes] at h
      cases h
    | cons c r =>
      rw [lexemes] at h
      obtain ⟨rfl, hrest⟩ := List.cons.inj h
      obtain ⟨d, t, hl, htext, hpost⟩ := ih hrest
      refine ⟨d, t, hl, ?_, hpost⟩
      have hhere := Lexeme.here_first c r
      rw [Lexeme.here, htext] at hhere
      rw [List.flatMap_cons, List.append_assoc, hhere]

/-- No lexeme is empty, so there are no more of them than characters. -/
lemma length_le_length_flatMap_raw {s : List Char} {pre post : List Lexeme}
    (h : lexemes s = pre ++ post) : pre.length ≤ (pre.flatMap (·.raw)).length := by
  induction pre generalizing s with
  | nil => exact Nat.zero_le _
  | cons m pre ih =>
    have hcons : lexemes s = [] ++ m :: (pre ++ post) := h
    obtain ⟨c, r, rfl, -, hrest⟩ := exists_first_of_lexemes_eq_append hcons
    have hpos : 0 < (Lexeme.first c r).raw.length := by simp [Lexeme.first]
    have htail := ih hrest
    rw [List.flatMap_cons, List.length_append, List.length_cons]
    omega

end StyleSplit.Css
