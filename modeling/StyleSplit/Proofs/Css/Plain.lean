import StyleSplit.Proofs.Css.Mark
import StyleSplit.Proofs.Css.Stop
import StyleSplit.Text.Occurrence
set_option autoImplicit false

/-!
# Plain texts

An unquoted text has no quotes, backslashes or addresses, and a plain text has no comments either.
Each lexeme of an unquoted text that is no comment shows its mark, and holds a slash only if it is
one. The lexemes of a plain text do not reach beyond a delimiter that follows the text, so a plain
text with balanced brackets makes up components of its own in front of a delimiter.

## Main definitions

* `StyleSplit.Css.IsUnquoted`, `StyleSplit.Css.IsPlain` — unquoted and plain texts.
* `StyleSplit.Css.ReadsPlainly` — a plain text with its components.

## Main results

* `StyleSplit.Css.IsUnquoted.showsToken` — the token that an unquoted text begins with.
* `StyleSplit.Css.IsPlain.exists_lexemes` — the lexemes of a plain text in front of a delimiter.
* `StyleSplit.Css.IsPlain.exists_readsPlainly_of_balanced`,
  `StyleSplit.Css.IsPlain.exists_readsPlainly` — its components.
-/

namespace StyleSplit.Css

/-! ## Plain texts -/

/-- **Unquoted texts** — without quotes and backslashes, and without the beginning of an address. -/
structure IsUnquoted (s : List Char) : Prop where
  quote_notMem : '"' ∉ s
  apostrophe_notMem : '\'' ∉ s
  backslash_notMem : '\\' ∉ s
  no_url : occurs "url(".toList (s.map Char.toLower) = false

/-- **Plain texts** — unquoted texts without the beginning of a comment. -/
structure IsPlain (s : List Char) : Prop extends IsUnquoted s where
  no_comment : occurs ['/', '*'] s = false

/-- What does not occur in a text does not occur in a part of it. -/
lemma occurs_eq_false_of_isInfix {pattern s t : List Char} (ht : t <:+: s)
    (hs : occurs pattern s = false) : occurs pattern t = false := by
  rw [Bool.eq_false_iff] at hs ⊢
  exact fun h => hs (occurs_iff_isInfix.mpr ((occurs_iff_isInfix.mp h).trans ht))

/-- A part of an unquoted text is unquoted. -/
lemma IsUnquoted.of_isInfix {s t : List Char} (hs : IsUnquoted s) (ht : t <:+: s) :
    IsUnquoted t where
  quote_notMem := fun h => hs.quote_notMem (ht.subset h)
  apostrophe_notMem := fun h => hs.apostrophe_notMem (ht.subset h)
  backslash_notMem := fun h => hs.backslash_notMem (ht.subset h)
  no_url := occurs_eq_false_of_isInfix (ht.map Char.toLower) hs.no_url

/-- A part of a plain text is plain. -/
lemma IsPlain.of_isInfix {s t : List Char} (hs : IsPlain s) (ht : t <:+: s) : IsPlain t where
  toIsUnquoted := hs.toIsUnquoted.of_isInfix ht
  no_comment := occurs_eq_false_of_isInfix ht hs.no_comment

/-! ## Tokens with their marks -/

/-- Whether a token is a comment. -/
def Token.isComment : Token → Bool
  | comment _ => true
  | _ => false

/-- The first `n` characters of a text show the mark of a token at their end and no other, and hold
a slash only if they are one; the token is no comment. -/
structure ShowsToken (s : List Char) (t : Token) (n : Nat) : Prop where
  size_le : n ≤ s.length
  shows : ∃ head, marks head = [] ∧ s.take n = head ++ t.mark?.toList.map Mark.char
  slash : '/' ∈ s.take n → s.take n = ['/']
  isComment_eq : t.isComment = false

/-- A slash does not stand in characters of a class without it. -/
lemma Spans.slash_notMem {p : Char → Bool} {s : List Char} {n : Nat} (hs : Spans p s n)
    (hp : p '/' = false) : '/' ∉ s.take n := by
  intro h
  have hslash := hs.of_mem '/' h
  rw [hp] at hslash
  exact Bool.false_ne_true hslash

/-- A token without a mark from characters of a class without marks and without the slash. -/
lemma ShowsToken.of_spans {p : Char → Bool} {s : List Char} {t : Token} {n : Nat}
    (hs : Spans p s n) (hp : ('/' :: markChars).all fun d => !p d) (hmark : t.mark? = none)
    (hcomment : t.isComment = false) : ShowsToken s t n where
  size_le := hs.le_length
  shows := by
    refine ⟨s.take n, ?_, by simp [hmark]⟩
    rw [List.all_cons, Bool.and_eq_true] at hp
    exact marks_eq_nil_iff.mpr fun c hc => markOf?_eq_none hp.2 (hs.of_mem c hc)
  slash := by
    rw [List.all_cons, Bool.and_eq_true, Bool.not_eq_true'] at hp
    exact fun h => absurd h (hs.slash_notMem hp.1)
  isComment_eq := hcomment

section

variable {t : List Char} (ht : Stops t)

include ht

/-- Whether a text begins with a character that no delimiter is does not depend on what follows. -/
lemma Stops.head?_append_iff {c : Char} (hc : c ∉ stopChars) (r : List Char) :
    (r ++ t).head? = some c ↔ r.head? = some c := by
  cases r with
  | nil => simp [ht.head?_ne hc]
  | cons d r => rfl

/-- Whether characters that no delimiter is begin a text does not depend on what follows. -/
lemma Stops.isPrefixOf_append {pattern : List Char} (hpattern : pattern.all fun c => !isStop c)
    (r : List Char) : pattern.isPrefixOf (r ++ t) = pattern.isPrefixOf r :=
  isPrefixOf_append_of_head? (fun _ hc => notMem_of_class (ht _ hc) _ hpattern) r

end

/-! ## Hashes, at-keywords and units -/

section

variable {t : List Char} (ht : Stops t) {r : List Char} (hr : '\\' ∉ r)

include ht hr

lemma hashToken_append : hashToken (r ++ t) = hashToken r := by
  rw [hashToken, hashToken, readName_append ht hr, readName_of_notMem hr, startsIdent_append ht hr,
    ht.head?_any_append (by decide)]

lemma atToken_append : atToken (r ++ t) = atToken r := by
  rw [atToken, atToken, readName_append ht hr, readName_of_notMem hr, startsIdent_append ht hr]

lemma withUnit_append (n : Numeral) : withUnit n (r ++ t) = withUnit n r := by
  simp only [withUnit, ht.head?_append_iff (c := '%') (by decide), startsIdent_append ht hr,
    readName_append ht hr, readName_of_notMem hr]

end

/-! ## What names and units show -/

/-- The characters of words and numerals: none of them is a mark. -/
def isWordChar (c : Char) : Bool :=
  isNameChar c || c == '+' || c == '.' || c == '%' || c == '#' || c == '@'

lemma isWordChar_of_isNameChar {c : Char} (h : isNameChar c) : isWordChar c := by
  simp [isWordChar, h]

lemma isWordChar_of_isNumeralChar {c : Char} (h : isNumeralChar c) : isWordChar c := by
  simp only [isNumeralChar, Bool.or_eq_true, beq_iff_eq] at h
  rcases h with ((((h | rfl) | rfl) | rfl) | rfl) | rfl
  · simp [isWordChar, isNameChar, h]
  all_goals rfl

/-- The name that a text without backslashes begins with. -/
lemma spans_readName {r : List Char} (hr : '\\' ∉ r) : Spans isWordChar r (readName r).2 := by
  rw [readName_of_notMem hr]
  exact (Spans.takeWhile r).mono fun _ => isWordChar_of_isNameChar

/-- A token without a mark from word characters. -/
lemma ShowsToken.of_spans_word {s : List Char} {t : Token} {n : Nat} (hs : Spans isWordChar s n)
    (hmark : t.mark? = none) (hcomment : t.isComment = false) : ShowsToken s t n :=
  .of_spans hs (by decide) hmark hcomment

section

variable {r : List Char} (hr : '\\' ∉ r)

include hr

lemma showsToken_hashToken :
    ShowsToken ('#' :: r) (hashToken r).1 ((hashToken r).2 + 1) := by
  have hname := spans_readName hr
  rw [hashToken]
  rw [readName_of_notMem hr] at hname ⊢
  dsimp only
  split_ifs
  · exact .of_spans_word (hname.cons rfl) rfl rfl
  · exact .of_spans_word (hname.cons rfl) rfl rfl
  · exact .of_spans_word (Spans.zero.cons rfl) rfl rfl

lemma showsToken_atToken : ShowsToken ('@' :: r) (atToken r).1 ((atToken r).2 + 1) := by
  unfold atToken
  split
  · exact .of_spans_word ((spans_readName hr).cons rfl) rfl rfl
  · exact .of_spans_word (Spans.zero.cons rfl) rfl rfl

/-- A numeral with its unit. -/
lemma showsToken_withUnit :
    ShowsToken r (withUnit (readNumeral r) (r.drop (readNumeral r).size)).1
      ((readNumeral r).size + (withUnit (readNumeral r) (r.drop (readNumeral r).size)).2) := by
  have hnumeral := (spans_readNumeral r).mono fun _ => isWordChar_of_isNumeralChar
  have hrest : '\\' ∉ r.drop (readNumeral r).size := fun h => hr ((List.drop_suffix _ r).subset h)
  unfold withUnit
  split_ifs with hpercent
  · have hone : Spans isWordChar (r.drop (readNumeral r).size) 1 := by
      obtain ⟨rest, hdrop⟩ := List.head?_eq_some_iff.mp hpercent
      rw [hdrop]
      exact Spans.zero.cons rfl
    exact .of_spans_word (hnumeral.add hone) rfl rfl
  · exact .of_spans_word (hnumeral.add (spans_readName hrest)) rfl rfl
  · exact .of_spans_word hnumeral rfl rfl

end

/-! ## Words with an argument -/

/-- Letters of `url` that a name shows are letters of it: the replacement of NUL is none. -/
lemma map_toLower_eq_of_map_shownChar {w : List Char}
    (h : (w.map shownChar).map Char.toLower = "url".toList) :
    w.map Char.toLower = "url".toList := by
  rw [← h, List.map_map]
  refine List.map_congr_left fun c hc => ?_
  have hmem : (shownChar c).toLower ∈ "url".toList := by
    rw [← h, List.map_map]
    exact List.mem_map_of_mem hc
  rw [Function.comp_apply, shownChar]
  split_ifs with hnul
  · rw [shownChar, if_pos hnul] at hmem
    exact absurd hmem (by decide)
  · rfl

/-- In an unquoted text no address begins behind a name. -/
lemma IsUnquoted.name_ne_url {s r : List Char} (hs : IsUnquoted s)
    (hr : s.dropWhile isNameChar = '(' :: r) :
    ((s.takeWhile isNameChar).map shownChar).map Char.toLower ≠ "url".toList := by
  intro h
  have hsplit : s.map Char.toLower = "url(".toList ++ r.map Char.toLower := by
    conv_lhs => rw [← List.takeWhile_append_dropWhile (p := isNameChar) (l := s), hr]
    rw [List.map_append, map_toLower_eq_of_map_shownChar h]
    rfl
  have hoccurs : occurs "url(".toList (s.map Char.toLower) := by
    rw [occurs_iff_isInfix, hsplit]
    exact (List.prefix_append _ _).isInfix
  rw [hs.no_url] at hoccurs
  exact Bool.false_ne_true hoccurs

/-- What stands behind a name in an unquoted text: a parenthesis makes it a function. -/
lemma IsUnquoted.withArguments_eq {s t : List Char} (hs : IsUnquoted s) (ht : Stops t) :
    withArguments ((s.takeWhile isNameChar).map shownChar) (s.dropWhile isNameChar ++ t) =
      if (s.dropWhile isNameChar).head? = some '(' then
        (.function (String.ofList ((s.takeWhile isNameChar).map shownChar)), 1)
      else (.ident (String.ofList ((s.takeWhile isNameChar).map shownChar)), 0) := by
  have hhead := ht.head?_append_iff (c := '(') (by decide) (s.dropWhile isNameChar)
  unfold withArguments
  split
  · rename_i r hr
    rw [hr] at hhead
    rw [if_pos (hhead.mp rfl), if_neg]
    obtain ⟨rest, hrest⟩ := List.head?_eq_some_iff.mp (hhead.mp rfl)
    exact hs.name_ne_url hrest
  · rename_i hne
    rw [if_neg]
    intro h
    obtain ⟨rest, hrest⟩ := List.head?_eq_some_iff.mp (hhead.mpr h)
    exact hne rest hrest

/-- A word of an unquoted text, with its parenthesis if it is a function. -/
lemma IsUnquoted.showsToken_withArguments {s : List Char} (hs : IsUnquoted s) :
    ShowsToken s
      (withArguments ((s.takeWhile isNameChar).map shownChar) (s.dropWhile isNameChar)).1
      ((s.takeWhile isNameChar).length +
        (withArguments ((s.takeWhile isNameChar).map shownChar) (s.dropWhile isNameChar)).2) := by
  have hwith := hs.withArguments_eq .nil
  have hname : Spans isNameChar s (s.takeWhile isNameChar).length := .takeWhile s
  rw [List.append_nil] at hwith
  rw [hwith]
  split_ifs with hparen
  · obtain ⟨rest, hrest⟩ := List.head?_eq_some_iff.mp hparen
    have hdrop : s.drop (s.takeWhile isNameChar).length = '(' :: rest := by
      rw [drop_length_takeWhile, hrest]
    have hlength := congrArg List.length hdrop
    rw [List.length_drop, List.length_cons] at hlength
    have htake : s.take ((s.takeWhile isNameChar).length + 1) =
        s.take (s.takeWhile isNameChar).length ++ ['('] := by
      rw [List.take_add, hdrop]
      rfl
    refine ⟨by dsimp only; omega, ⟨s.take (s.takeWhile isNameChar).length, ?_, htake⟩,
      fun hslash => ?_, rfl⟩
    · exact marks_eq_nil_iff.mpr fun c hc => markOf?_eq_none (by decide) (hname.of_mem c hc)
    · rw [htake, List.mem_append] at hslash
      exact absurd hslash (not_or.mpr ⟨hname.slash_notMem (by decide), by decide⟩)
  · exact .of_spans hname (by decide) rfl rfl

/-! ## Single characters -/

/-- The characters that an equals sign makes a comparison of. -/
def comparisonChars : List Char :=
  ['$', '*', '^', '|', '~']

lemma symbolToken_comparison {c : Char} (hc : c ∈ comparisonChars) (r : List Char) :
    symbolToken c r = if r.head? = some '=' then (.comparison c, 1) else (.delim c, 0) := by
  simp only [comparisonChars, List.mem_cons, List.not_mem_nil, or_false] at hc
  split_ifs with h
  · obtain ⟨rest, rfl⟩ := List.head?_eq_some_iff.mp h
    rcases hc with rfl | rfl | rfl | rfl | rfl <;> rfl
  · cases r with
    | nil => rcases hc with rfl | rfl | rfl | rfl | rfl <;> rfl
    | cons d r =>
      have hd : d ≠ '=' := fun hd => h (congrArg some hd)
      rcases hc with rfl | rfl | rfl | rfl | rfl <;> simp [symbolToken, hd]

lemma symbolToken_less (r : List Char) :
    symbolToken '<' r = if ['!', '-', '-'].isPrefixOf r then (.cdo, 3) else (.delim '<', 0) := by
  split_ifs with h
  · obtain ⟨rest, rfl⟩ := List.isPrefixOf_iff_prefix.mp h
    rfl
  · unfold symbolToken
    split <;> simp_all

lemma symbolToken_dash (r : List Char) :
    symbolToken '-' r = if ['-', '>'].isPrefixOf r then (.cdc, 2) else (.delim '-', 0) := by
  split_ifs with h
  · obtain ⟨rest, rfl⟩ := List.isPrefixOf_iff_prefix.mp h
    rfl
  · unfold symbolToken
    split <;> simp_all

lemma symbolToken_slash {r : List Char} (hr : r.head? ≠ some '*') :
    symbolToken '/' r = (.delim '/', 0) := by
  unfold symbolToken
  split <;> simp_all

/-- The characters that make one token with what follows them, if it is the right thing. -/
def pairChars : List Char :=
  ['/', '<', '-'] ++ comparisonChars

/-- Any other character is a token of its own. -/
lemma symbolToken_eq_nil {c : Char} (hc : c ∉ pairChars) (r : List Char) :
    symbolToken c r = symbolToken c [] := by
  simp only [pairChars, comparisonChars, List.mem_append, List.mem_cons, List.not_mem_nil, or_false,
    not_or] at hc
  unfold symbolToken
  split <;> simp_all

lemma mark?_symbolToken_nil (c : Char) : (symbolToken c []).1.mark? = markOf? c := by
  unfold symbolToken markOf?
  split <;> simp_all [Token.mark?]

lemma symbolToken_nil_snd (c : Char) : (symbolToken c []).2 = 0 := by
  unfold symbolToken
  split <;> simp_all

lemma isComment_symbolToken_nil (c : Char) : (symbolToken c []).1.isComment = false := by
  unfold symbolToken
  split <;> simp_all [Token.isComment]

/-- The token of a character in a text without comments does not depend on what follows the
text. -/
lemma symbolToken_append {t : List Char} (ht : Stops t) {c : Char} {r : List Char}
    (hcomment : ¬ (c = '/' ∧ r.head? = some '*')) : symbolToken c (r ++ t) = symbolToken c r := by
  by_cases hc : c ∈ pairChars
  · simp only [pairChars, List.mem_append, List.mem_cons, List.not_mem_nil, or_false] at hc
    obtain (rfl | rfl | rfl) | hc := hc
    · have hr : r.head? ≠ some '*' := fun h => hcomment ⟨rfl, h⟩
      rw [symbolToken_slash hr, symbolToken_slash ((ht.head?_append_iff (by decide) r).not.mpr hr)]
    · rw [symbolToken_less, symbolToken_less, ht.isPrefixOf_append (by decide)]
    · rw [symbolToken_dash, symbolToken_dash, ht.isPrefixOf_append (by decide)]
    · simp only [symbolToken_comparison hc, ht.head?_append_iff (c := '=') (by decide)]
  · rw [symbolToken_eq_nil hc, symbolToken_eq_nil hc r]

/-- The first character shows the mark that it is. -/
lemma ShowsToken.of_char {c : Char} {r : List Char} {t : Token} (hmark : t.mark? = markOf? c)
    (hcomment : t.isComment = false) : ShowsToken (c :: r) t 1 where
  size_le := Nat.succ_le_succ (Nat.zero_le _)
  shows := by
    cases hc : markOf? c with
    | none => exact ⟨[c], by simp [marks, hc], by simp [hmark, hc]⟩
    | some m => exact ⟨[], rfl, by simp [hmark, hc, ← eq_char_of_markOf? hc]⟩
  slash := by
    intro h
    obtain rfl : '/' = c := List.mem_singleton.mp h
    rfl
  isComment_eq := hcomment

/-- The characters of the tokens of more than one symbol: none of them is a mark. -/
def isPairChar (c : Char) : Bool :=
  ['!', '-', '>', '=', '<', '$', '*', '^', '|', '~'].contains c

lemma showsToken_symbolToken {c : Char} {r : List Char}
    (hcomment : ¬ (c = '/' ∧ r.head? = some '*')) :
    ShowsToken (c :: r) (symbolToken c r).1 ((symbolToken c r).2 + 1) := by
  by_cases hc : c ∈ pairChars
  · simp only [pairChars, List.mem_append, List.mem_cons, List.not_mem_nil, or_false] at hc
    obtain (rfl | rfl | rfl) | hc := hc
    · rw [symbolToken_slash fun h => hcomment ⟨rfl, h⟩]
      exact .of_char rfl rfl
    · rw [symbolToken_less]
      split_ifs with h
      · obtain ⟨rest, rfl⟩ := List.isPrefixOf_iff_prefix.mp h
        exact .of_spans (p := isPairChar) ⟨by simp, by simp [isPairChar]⟩ (by decide) rfl rfl
      · exact .of_char rfl rfl
    · rw [symbolToken_dash]
      split_ifs with h
      · obtain ⟨rest, rfl⟩ := List.isPrefixOf_iff_prefix.mp h
        exact .of_spans (p := isPairChar) ⟨by simp, by simp [isPairChar]⟩ (by decide) rfl rfl
      · exact .of_char rfl rfl
    · rw [symbolToken_comparison hc]
      have hmark : markOf? c = none :=
        markOf?_eq_none (p := comparisonChars.contains) (by decide) (by simpa using hc)
      split_ifs with h
      · obtain ⟨rest, rfl⟩ := List.head?_eq_some_iff.mp h
        have hslash : c ≠ '/' := by
          rintro rfl
          exact absurd hc (by decide)
        refine ⟨by simp, ⟨[c, '='], marks_eq_nil_iff.mpr ?_, rfl⟩, ?_, rfl⟩
        · simp [hmark, show markOf? '=' = none from rfl]
        · simp [hslash.symm]
      · exact .of_char hmark.symm rfl
  · rw [symbolToken_eq_nil hc, symbolToken_nil_snd]
    exact .of_char (mark?_symbolToken_nil c) (isComment_symbolToken_nil c)

/-! ## Tokens -/

lemma IsUnquoted.tail {c : Char} {r : List Char} (hs : IsUnquoted (c :: r)) : IsUnquoted r :=
  hs.of_isInfix (List.suffix_cons c r).isInfix

/-- A string does not begin in an unquoted text. -/
lemma IsUnquoted.not_quote {c : Char} {r : List Char} (hs : IsUnquoted (c :: r)) :
    ¬ (c = '"' ∨ c = '\'') := by
  rintro (rfl | rfl)
  · exact hs.quote_notMem List.mem_cons_self
  · exact hs.apostrophe_notMem List.mem_cons_self

/-- A comment does not begin in a plain text. -/
lemma IsPlain.not_comment {c : Char} {r : List Char} (hs : IsPlain (c :: r)) :
    ¬ (c = '/' ∧ r.head? = some '*') := by
  rintro ⟨rfl, hr⟩
  obtain ⟨rest, rfl⟩ := List.head?_eq_some_iff.mp hr
  have hoccurs : occurs ['/', '*'] ('/' :: '*' :: rest) :=
    occurs_iff_isInfix.mpr (List.prefix_append ['/', '*'] rest).isInfix
  rw [hs.no_comment] at hoccurs
  exact Bool.false_ne_true hoccurs

/-- In a text without backslashes an identifier begins with a name character. -/
lemma isNameChar_of_startsIdent {c : Char} {r : List Char} (hback : c ≠ '\\')
    (h : startsIdent (c :: r)) : isNameChar c := by
  by_cases hdash : c = '-'
  · subst hdash
    rfl
  · rw [startsIdent_cons hdash hback] at h
    simp [isNameChar, h]

/-- A numeral takes a character at least. -/
lemma readNumeral_size_pos {s : List Char} (h : startsNumeral s) : 0 < (readNumeral s).size := by
  rw [startsNumeral] at h
  simp only [readNumeral, Numeral.size]
  cases hs : afterSign s with
  | nil => simp [hs, startsUnsigned, startsWithDigit] at h
  | cons c r =>
    by_cases hdigit : c.isDigit
    · rw [List.takeWhile_cons_of_pos hdigit, List.length_cons]
      omega
    · rw [hs] at h
      rw [List.dropWhile_cons_of_neg hdigit]
      have hpoint : c = '.' := by
        by_contra hne
        simp [startsUnsigned, hne, startsWithDigit, hdigit] at h
      subst hpoint
      cases r with
      | nil => exact absurd h (by decide)
      | cons d r =>
        have hd : d.isDigit := h
        have hfraction : 0 < fractionSize (fractionOf ('.' :: d :: r)) := by
          simp [fractionOf, fractionSize, List.takeWhile_cons_of_pos hd]
        omega

/-- **Tokens of plain texts** — the token that a plain text begins with does not depend on what
follows behind a delimiter. -/
lemma IsPlain.readToken_append {c : Char} {r t : List Char} (hs : IsPlain (c :: r))
    (ht : Stops t) : readToken c (r ++ t) = readToken c r := by
  have hback := hs.backslash_notMem
  have hbackTail := hs.tail.backslash_notMem
  have hbackDrop : '\\' ∉ (c :: r).drop (readNumeral (c :: r)).size := fun h =>
    hback ((List.drop_suffix _ _).subset h)
  have hquote := hs.not_quote
  have hunit := withUnit_append ht hbackDrop (readNumeral (c :: r))
  rw [← List.drop_append_of_le_length (spans_readNumeral (c :: r)).le_length] at hunit
  have hword := hs.withArguments_eq ht
  rw [← hs.withArguments_eq .nil, List.append_nil, ← drop_length_takeWhile,
    ← List.drop_append_of_le_length (Spans.takeWhile (c :: r)).le_length] at hword
  have harrow : ['-', '>'].isPrefixOf (r ++ t) = ['-', '>'].isPrefixOf r :=
    ht.isPrefixOf_append (by decide) r
  simp only [readToken, if_neg hquote, ← List.cons_append,
    ht.takeWhile_append (p := isSpace) (by decide), hashToken_append ht hbackTail,
    atToken_append ht hbackTail, startsNumeral_append ht, readNumeral_append ht, hunit,
    startsIdent_append ht hback, harrow, readName_append ht hback, readName_of_notMem hback, hword,
    symbolToken_append ht hs.not_comment]

/-- **Tokens of unquoted texts** — the token that an unquoted text begins with shows its mark,
unless it is a comment. -/
lemma IsUnquoted.showsToken {c : Char} {r : List Char} (hs : IsUnquoted (c :: r))
    (hcomment : ¬ (c = '/' ∧ r.head? = some '*')) :
    ShowsToken (c :: r) (readToken c r).1 ((readToken c r).2 + 1) := by
  have hback := hs.backslash_notMem
  have hbackTail := hs.tail.backslash_notMem
  have hquote := hs.not_quote
  rw [readToken]
  split_ifs with hspace hhash hat hnumeral hident
  · exact .of_spans ((Spans.takeWhile r).cons hspace) (by decide) rfl rfl
  · subst hhash
    exact showsToken_hashToken hbackTail
  · subst hat
    exact showsToken_atToken hbackTail
  · have hpos := readNumeral_size_pos hnumeral
    have hunit := showsToken_withUnit hback
    dsimp only
    rwa [Nat.sub_add_cancel (by omega)]
  · have hname := isNameChar_of_startsIdent (fun h => hback (h ▸ List.mem_cons_self)) hident.1
    have hword := hs.showsToken_withArguments
    rw [readName_of_notMem hback]
    dsimp only
    rw [drop_length_takeWhile, Nat.sub_add_cancel]
    · exact hword
    · rw [List.takeWhile_cons_of_pos hname, List.length_cons]
      omega
  · exact showsToken_symbolToken hcomment

/-! ## Lexemes and components -/

/-- **Lexemes of plain texts** — in front of a delimiter a plain text has lexemes of its own, which
show their marks; the first of them is the first one of the text alone. -/
lemma IsPlain.exists_lexemes {s t : List Char} (hs : IsPlain s) (ht : Stops t) :
    ∃ ls, lexemes (s ++ t) = ls ++ lexemes t ∧
      (∀ l ∈ ls, l.ShowsMark ∧ l.token.isComment = false) ∧
      ls.head?.map (·.token) = (lexemes s).head?.map (·.token) := by
  induction hn : s.length using Nat.strongRecOn generalizing s with
  | _ n ih =>
    cases s with
    | nil => exact ⟨[], rfl, fun _ h => absurd h List.not_mem_nil, by rw [lexemes]⟩
    | cons c r =>
      have hshows := hs.showsToken hs.not_comment
      have hsize : (readToken c r).2 ≤ r.length := Nat.le_of_succ_le_succ hshows.size_le
      have hrest : (Lexeme.first c (r ++ t)).rest = r.drop (readToken c r).2 ++ t := by
        simp only [Lexeme.first, hs.readToken_append ht, List.drop_append_of_le_length hsize]
      have hraw : (Lexeme.first c (r ++ t)).raw = (c :: r).take ((readToken c r).2 + 1) := by
        simp only [Lexeme.first, hs.readToken_append ht, List.take_append_of_le_length hsize,
          List.take_succ_cons]
      have htoken : (Lexeme.first c (r ++ t)).token = (readToken c r).1 := by
        simp only [Lexeme.first, hs.readToken_append ht]
      have hlength : (r.drop (readToken c r).2).length < n := by
        rw [List.length_cons] at hn
        rw [List.length_drop]
        omega
      obtain ⟨ls, hls, hall, -⟩ :=
        ih _ hlength
          (hs.of_isInfix ((List.drop_suffix _ r).trans (List.suffix_cons c r)).isInfix) rfl
      refine ⟨Lexeme.first c (r ++ t) :: ls, ?_, ?_, ?_⟩
      · rw [List.cons_append, lexemes, hrest, hls, List.cons_append]
      · rintro l hl
        obtain rfl | hl := List.mem_cons.mp hl
        · refine ⟨?_, htoken ▸ hshows.isComment_eq⟩
          rw [Lexeme.ShowsMark, hraw, htoken]
          exact ⟨List.cons_ne_nil _ _, hshows.shows⟩
        · exact hall l hl
      · rw [lexemes, List.head?_cons, List.head?_cons, Option.map_some, Option.map_some, htoken,
          Lexeme.first]

/-- **Plain reading** — the text `s` in front of the text `t` makes up tidy components without
comments. Outside of brackets they have no marks but those of the text, and they begin like the text
alone. -/
structure ReadsPlainly (s t : List Char) (cs : List Component) : Prop where
  reads : Reads s t cs
  isTidy : ∀ c ∈ cs, c.IsTidy
  isComment_eq : ∀ c ∈ cs, c.token.isComment = false
  outerMarks_subset : outerMarks cs ⊆ marks s
  head?_eq : cs.head?.map (·.token) = (lexemes s).head?.map (·.token)

/-- **Components of plain texts** — a plain text with balanced marks is read plainly in front of a
delimiter, and its components have the marks outside of all brackets. -/
lemma IsPlain.exists_readsPlainly_of_balanced {s t : List Char} {outer : List Mark}
    (hs : IsPlain s) (houter : Balanced (marks s) outer) (ht : Stops t) :
    ∃ cs, ReadsPlainly s t cs ∧ outerMarks cs = outer := by
  obtain ⟨ls, hls, hall, hhead⟩ := hs.exists_lexemes ht
  have hshows : ∀ l ∈ ls, l.ShowsMark := fun l hl => (hall l hl).1
  have hraw : ls.flatMap (·.raw) = s := by
    have htext := flatMap_raw_lexemes (s ++ t)
    rw [hls, List.flatMap_append, flatMap_raw_lexemes] at htext
    exact List.append_cancel_right htext
  have hms : ls.filterMap (·.token.mark?) = marks s := by
    rw [← marks_flatMap_raw hshows, hraw]
  obtain ⟨cs, hcs, rfl⟩ := houter.exists_tidyGroups hms hshows
  refine ⟨cs, ⟨⟨ls, hls, hcs.groups⟩, hcs.isTidy, ?_, houter.subset, ?_⟩, rfl⟩
  · exact fun c hc => (hall c.first (hcs.first_mem c hc)).2
  · rw [← hhead, ← hcs.head?_eq, Option.map_map]
    rfl

/-- A plain text with balanced brackets is read plainly in front of a delimiter. -/
lemma IsPlain.exists_readsPlainly {s t : List Char} (hs : IsPlain s) (hbalanced : isBalanced s)
    (ht : Stops t) : ∃ cs, ReadsPlainly s t cs := by
  obtain ⟨outer, houter⟩ := exists_balanced hbalanced
  obtain ⟨cs, hcs, -⟩ := hs.exists_readsPlainly_of_balanced houter ht
  exact ⟨cs, hcs⟩

end StyleSplit.Css
