import Mathlib.Data.List.Chain
import StyleSplit.Proofs.Css.Plain
set_option autoImplicit false

/-!
# Where comments begin

In an unquoted text the opening mark of a comment stands nowhere but where a comment begins: a slash
is a lexeme of its own, and a star behind it would have made it a comment. So the text of lexemes
that follow one another holds the mark only if one of them is a comment.

Comments may stand in brackets, where they are not looked for. What is said here of a text is that
the mark does not stand in front of its first opening bracket, and bracket kinds in which there is
no comment do not count.

## Main definitions

* `StyleSplit.Css.opensComment` — whether the opening mark of a comment stands in a text.
* `StyleSplit.Css.isUncommented` — texts in which it does not stand in front of the first bracket
  that counts.
* `StyleSplit.Css.IsRow` — lexemes that follow one another in an unquoted text.
* `StyleSplit.Css.Token.IsClosed` — tokens that are no comment with the closing mark.

## Main results

* `StyleSplit.Css.IsUnquoted.isRow_lexemes` — the lexemes of an unquoted text.
* `StyleSplit.Css.IsRow.isUncommented_flatMap_raw` — the text of lexemes without comments in front
  of a bracket that counts.
* `StyleSplit.Css.isClosed_of_mem_lexemes` — no comment of any text holds the closing mark.
-/

namespace StyleSplit.Css

/-! ## The opening mark -/

/-- **The opening mark** — whether the two characters that open a comment stand in a text. -/
def opensComment (s : List Char) : Bool :=
  occurs ['/', '*'] s

@[simp]
lemma opensComment_nil : opensComment [] = false :=
  rfl

lemma opensComment_cons (c : Char) (s : List Char) :
    opensComment (c :: s) = (c == '/' && s.head? == some '*' || opensComment s) := by
  cases s with
  | nil => simp [opensComment, occurs, List.isPrefixOf]
  | cons d s => simp [opensComment, occurs, List.isPrefixOf, BEq.comm]

/-- Two texts one after the other have the mark where one of them has it, unless it begins at the
end of the first. -/
lemma opensComment_append {s t : List Char} (h : s.getLast? = some '/' → t.head? ≠ some '*') :
    opensComment (s ++ t) = (opensComment s || opensComment t) := by
  induction s with
  | nil => rfl
  | cons c s ih =>
    cases s with
    | nil =>
      have hjoint : (c == '/' && t.head? == some '*') = false := by
        rw [Bool.and_eq_false_imp, beq_iff_eq, beq_eq_false_iff_ne]
        rintro rfl
        exact h rfl
      rw [List.singleton_append, opensComment_cons, opensComment_cons, hjoint, opensComment_nil]
      simp
    | cons d s =>
      have hhead : (d :: s ++ t).head? = (d :: s).head? := rfl
      rw [List.cons_append, opensComment_cons, ih (by simpa using h), opensComment_cons c, hhead,
        Bool.or_assoc]

/-- A part of a text without the mark has no mark. -/
lemma opensComment_eq_false_of_isInfix {s t : List Char} (ht : t <:+: s)
    (hs : opensComment s = false) : opensComment t = false :=
  occurs_eq_false_of_isInfix ht hs

lemma opensComment_eq_false_of_notMem {s : List Char} (hs : '/' ∉ s) : opensComment s = false := by
  rw [Bool.eq_false_iff]
  intro h
  exact hs ((occurs_iff_isInfix.mp h).subset List.mem_cons_self)

/-! ## In front of the first bracket -/

section

variable (bare : Bracket → Bool)

/-- Whether a character opens a bracket that counts: one whose kind is not bare. -/
def opens (c : Char) : Bool :=
  match markOf? c with
  | some (.opening b) => !bare b
  | _ => false

/-- **Uncommented texts** — in front of the first bracket that counts no comment is opened. -/
def isUncommented (s : List Char) : Bool :=
  !opensComment (s.takeWhile fun c => !opens bare c)

variable {bare} {s t : List Char}

lemma isUncommented_of_opensComment_eq_false (h : opensComment s = false) :
    isUncommented bare s := by
  rw [isUncommented, Bool.not_eq_true']
  exact opensComment_eq_false_of_isInfix (List.takeWhile_prefix _).isInfix h

/-- The beginning of an uncommented text is uncommented. -/
lemma isUncommented_of_prefix (hst : s <+: t) (ht : isUncommented bare t) :
    isUncommented bare s := by
  obtain ⟨r, rfl⟩ := hst
  rw [isUncommented, Bool.not_eq_true'] at ht ⊢
  refine opensComment_eq_false_of_isInfix (List.IsPrefix.isInfix ?_) ht
  rw [List.takeWhile_append]
  split_ifs with hall
  · rw [(List.takeWhile_prefix _).eq_of_length hall]
    exact List.prefix_append _ _
  · exact List.prefix_refl _

/-- Two uncommented texts one after the other are uncommented, unless a comment is opened where they
meet. -/
lemma isUncommented_append (hs : isUncommented bare s) (ht : isUncommented bare t)
    (h : s.getLast? = some '/' → t.head? ≠ some '*') : isUncommented bare (s ++ t) := by
  rw [isUncommented, Bool.not_eq_true'] at hs ht ⊢
  rw [List.takeWhile_append]
  split_ifs with hall
  · have hself := (List.takeWhile_prefix (fun c => !opens bare c) (l := s)).eq_of_length hall
    rw [hself] at hs
    have hhead : (t.takeWhile fun c => !opens bare c).head? ≠ some '*' ∨ t.head? = some '*' := by
      rw [List.head?_takeWhile]
      cases t.head? <;> simp [Option.filter]
      tauto
    rw [opensComment_append, hs, ht]
    · rfl
    · intro hlast hstar
      exact hhead.elim (fun hne => hne hstar) (h hlast)
  · exact hs

/-- A text without the mark that holds a bracket that counts is uncommented, whatever follows. -/
lemma isUncommented_append_of_opens (hs : opensComment s = false) {c : Char} (hc : c ∈ s)
    (hopens : opens bare c) (t : List Char) : isUncommented bare (s ++ t) := by
  rw [isUncommented, Bool.not_eq_true', List.takeWhile_append, if_neg]
  · exact opensComment_eq_false_of_isInfix (List.takeWhile_prefix _).isInfix hs
  · intro hall
    have hself := (List.takeWhile_prefix (fun c => !opens bare c) (l := s)).eq_of_length hall
    rw [← hself] at hc
    simpa [hopens] using List.mem_takeWhile_imp hc

/-- Characters in front that open nothing can be dropped. -/
lemma isUncommented_of_append (h : isUncommented bare (s ++ t))
    (hs : ∀ c ∈ s, opens bare c = false) : isUncommented bare t := by
  rw [isUncommented, Bool.not_eq_true'] at h ⊢
  rw [List.takeWhile_append_of_pos fun c hc => by simp [hs c hc]] at h
  exact opensComment_eq_false_of_isInfix (List.suffix_append _ _).isInfix h

/-- No blank opens a bracket. -/
lemma opens_of_isBlank {c : Char} (hc : isBlank c) : opens bare c = false := by
  have hnone : markOf? c = none := markOf?_eq_none (by decide) hc
  simp [opens, hnone]

/-- An uncommented text is uncommented without the blanks at its ends. -/
lemma isUncommented_trim (hs : isUncommented bare s) : isUncommented bare (trim s) := by
  have hblanks : ∀ c ∈ s.takeWhile isBlank, opens bare c = false := fun c hc =>
    opens_of_isBlank (List.mem_takeWhile_imp hc)
  rw [← List.takeWhile_append_dropWhile (p := isBlank) (l := s)] at hs
  refine isUncommented_of_prefix ?_ (isUncommented_of_append hs hblanks)
  rw [trim, trimEnd, ← List.reverse_suffix, List.reverse_reverse]
  exact List.dropWhile_suffix _

end

/-! ## Lexemes in a row -/

/-- The name that a token gives to a property or an at-rule. -/
def Token.word : Token → List Char
  | ident name => name.toList
  | atKeyword name => name.toList
  | _ => []

/-- A token that is no comment. -/
lemma Token.isComment_eq_false {t : Token} (h : ∀ text, t = .comment text → False) :
    t.isComment = false := by
  cases t with
  | comment text => exact (h text rfl).elim
  | _ => rfl

/-- **Lexemes apart** — a lexeme shows its mark, and holds a slash only if it is one, with no star
behind it. A name has no slash. -/
structure Lexeme.IsApart (l : Lexeme) : Prop where
  showsMark : l.ShowsMark
  slash : '/' ∈ l.raw → l.raw = ['/'] ∧ l.rest.head? ≠ some '*'
  slash_notMem_word : '/' ∉ l.token.word

/-- **Rows** — lexemes that follow one another, all of which but the comments are apart. -/
structure IsRow (ls : List Lexeme) : Prop where
  follows : ls.IsChain fun l m => l.rest = m.here
  isApart : ∀ l ∈ ls, l.token.isComment = false → l.IsApart

/-- A name does not show a slash. -/
lemma slash_notMem_shown (s : List Char) : '/' ∉ (s.takeWhile isNameChar).map shownChar := by
  intro h
  obtain ⟨c, hc, hshown⟩ := List.mem_map.mp h
  have hname : isNameChar c := List.mem_takeWhile_imp hc
  rw [shownChar] at hshown
  split_ifs at hshown
  · exact absurd hshown (by decide)
  · rw [hshown] at hname
    exact absurd hname (by decide)

/-- The names of an unquoted text have no slash. -/
lemma IsUnquoted.slash_notMem_word {c : Char} {r : List Char} (hs : IsUnquoted (c :: r)) :
    '/' ∉ (readToken c r).1.word := by
  have hquote := hs.not_quote
  rw [readToken]
  split_ifs
  · exact List.not_mem_nil
  · rw [hashToken]
    dsimp only
    split_ifs <;> exact List.not_mem_nil
  · unfold atToken
    split_ifs
    · rw [readName_of_notMem hs.tail.backslash_notMem]
      simpa [Token.word] using slash_notMem_shown r
    · exact List.not_mem_nil
  · unfold withUnit
    dsimp only
    split_ifs <;> exact List.not_mem_nil
  · have hword := hs.withArguments_eq .nil
    rw [List.append_nil] at hword
    rw [readName_of_notMem hs.backslash_notMem]
    dsimp only
    rw [drop_length_takeWhile, hword]
    split_ifs
    · exact List.not_mem_nil
    · simpa [Token.word] using slash_notMem_shown (c :: r)
  · unfold symbolToken
    split <;> exact List.not_mem_nil

/-- A slash and a star are a comment. -/
lemma isComment_readToken_slash (r : List Char) : (readToken '/' ('*' :: r)).1.isComment :=
  rfl

/-- The first lexeme of an unquoted text is apart, unless it is a comment. -/
lemma IsUnquoted.isApart_first {c : Char} {r : List Char} (hs : IsUnquoted (c :: r))
    (hcomment : (Lexeme.first c r).token.isComment = false) : (Lexeme.first c r).IsApart := by
  have hnot : ¬ (c = '/' ∧ r.head? = some '*') := by
    rintro ⟨rfl, hstar⟩
    obtain ⟨rest, rfl⟩ := List.head?_eq_some_iff.mp hstar
    rw [show (Lexeme.first '/' ('*' :: rest)).token = (readToken '/' ('*' :: rest)).1 from rfl,
      isComment_readToken_slash] at hcomment
    exact Bool.noConfusion hcomment
  have hshows := hs.showsToken hnot
  refine ⟨⟨List.cons_ne_nil _ _, hshows.shows⟩, fun hslash => ?_, hs.slash_notMem_word⟩
  have hraw : (Lexeme.first c r).raw = ['/'] := hshows.slash hslash
  -- nothing of the text is taken behind the slash
  have hhere := Lexeme.here_first c r
  rw [Lexeme.here, hraw, List.singleton_append] at hhere
  obtain ⟨rfl, hrest⟩ := List.cons.inj hhere
  exact ⟨hraw, fun hstar => hnot ⟨rfl, hrest ▸ hstar⟩⟩

/-- What follows the first lexeme begins with the next one. -/
lemma here_of_mem_head?_lexemes {s : List Char} {l : Lexeme} (h : l ∈ (lexemes s).head?) :
    l.here = s := by
  cases s with
  | nil => simp [lexemes] at h
  | cons c r =>
    rw [lexemes] at h
    obtain rfl := Option.some.inj h
    exact Lexeme.here_first c r

/-- **Lexemes of an unquoted text** are in a row. -/
lemma IsUnquoted.isRow_lexemes {s : List Char} (hs : IsUnquoted s) : IsRow (lexemes s) := by
  fun_induction lexemes s with
  | case1 => exact ⟨.nil, fun _ h => absurd h List.not_mem_nil⟩
  | case2 c r ih =>
    have hrest : (Lexeme.first c r).rest <:+: c :: r :=
      ((List.drop_suffix _ r).trans (List.suffix_cons c r)).isInfix
    obtain ⟨hfollows, hapart⟩ := ih (hs.of_isInfix hrest)
    refine ⟨List.isChain_cons.mpr ⟨fun m hm => (here_of_mem_head?_lexemes hm).symm, hfollows⟩, ?_⟩
    rintro l hl
    obtain rfl | hl := List.mem_cons.mp hl
    · exact hs.isApart_first
    · exact hapart l hl

namespace Lexeme.IsApart

variable {l : Lexeme} (h : l.IsApart)

include h

/-- No comment is opened in the raw text of a lexeme that is apart. -/
lemma opensComment_raw : opensComment l.raw = false := by
  by_cases hslash : '/' ∈ l.raw
  · rw [(h.slash hslash).1]
    rfl
  · exact opensComment_eq_false_of_notMem hslash

/-- An opening lexeme holds its bracket. -/
lemma opener_mem_raw {b : Bracket} (hopens : l.token.opens? = some b) : b.opener ∈ l.raw := by
  have hmark : l.token.mark? = some (.opening b) := by
    cases htoken : l.token <;> simp_all [Token.opens?, Token.mark?]
  obtain ⟨-, head, -, hraw⟩ := h.showsMark
  rw [hraw, hmark]
  exact List.mem_append_right _ List.mem_cons_self

end Lexeme.IsApart

/-- Whether a lexeme opens a bracket that counts. -/
def Lexeme.opens (bare : Bracket → Bool) (l : Lexeme) : Bool :=
  l.token.opens?.any fun b => !bare b

lemma Lexeme.isComment_of_opens {bare : Bracket → Bool} {l : Lexeme} (h : l.opens bare) :
    l.token.isComment = false := by
  unfold Lexeme.opens at h
  cases htoken : l.token <;> simp_all [Token.opens?, Token.isComment]

/-- Lexemes without a comment in front of a bracket that counts. -/
def IsUncommented (bare : Bracket → Bool) (ls : List Lexeme) : Prop :=
  ∀ l ∈ ls.takeWhile fun l => !l.opens bare, l.token.isComment = false

namespace IsRow

variable {bare : Bracket → Bool} {ls ms : List Lexeme}

lemma of_isInfix (h : IsRow ls) (hms : ms <:+: ls) : IsRow ms where
  follows := List.IsChain.infix h.follows hms
  isApart := fun l hl => h.isApart l (hms.subset hl)

/-- **The text of a row** — if no comment stands in front of a bracket that counts, none is opened
there. -/
lemma isUncommented_flatMap_raw (h : IsRow ls) (hbare : IsUncommented bare ls) :
    isUncommented bare (ls.flatMap (·.raw)) := by
  induction ls with
  | nil => rfl
  | cons l ls ih =>
    have htail : IsRow ls := h.of_isInfix (List.suffix_cons l ls).isInfix
    rw [List.flatMap_cons]
    cases hopens : l.opens bare with
    | true =>
      obtain ⟨b, hb, hcounts⟩ := (Option.any_eq_true _ _).mp hopens
      have hapart := h.isApart l List.mem_cons_self (Lexeme.isComment_of_opens hopens)
      refine isUncommented_append_of_opens hapart.opensComment_raw (hapart.opener_mem_raw hb) ?_ _
      cases b <;> exact hcounts
    | false =>
      rw [IsUncommented, List.takeWhile_cons_of_pos (by simp [hopens])] at hbare
      have hapart := h.isApart l List.mem_cons_self (hbare l List.mem_cons_self)
      have hls := ih htail fun m hm => hbare m (List.mem_cons_of_mem _ hm)
      have hl : isUncommented bare l.raw :=
        isUncommented_of_opensComment_eq_false hapart.opensComment_raw
      refine isUncommented_append hl hls ?_
      intro hlast hstar
      obtain ⟨-, hnext⟩ := hapart.slash (List.mem_of_getLast? hlast)
      cases ls with
      | nil => exact absurd hstar (by simp)
      | cons m ls =>
        have hm : m.token.isComment = false := by
          cases hm : m.opens bare with
          | true => exact Lexeme.isComment_of_opens hm
          | false => exact hbare m (by simp [hm])
        have hraw : m.raw ≠ [] := (h.isApart m (by simp) hm).showsMark.1
        have hbehind : l.rest = m.here := (List.isChain_cons_cons.mp h.follows).1
        rw [List.flatMap_cons, List.head?_append_of_ne_nil _ hraw] at hstar
        rw [hbehind, Lexeme.here, List.head?_append_of_ne_nil _ hraw] at hnext
        exact hnext hstar

end IsRow

/-! ## The closing mark -/

/-- **Closed comments** — the closing mark stands in no comment, for it would have ended it. -/
def Token.IsClosed : Token → Prop
  | comment s => occurs ['*', '/'] s.toList = false
  | _ => True

/-- A token that is no comment. -/
lemma Token.isClosed_of_isComment_eq_false {t : Token} (h : t.isComment = false) : t.IsClosed := by
  cases t with
  | comment s => exact absurd h (by simp [isComment])
  | _ => trivial

/-- What stands in front of the first closing mark does not hold it. -/
lemma occurs_take_commentSize (s : List Char) :
    occurs ['*', '/'] (s.take (commentSize s)) = false := by
  fun_induction commentSize s with
  | case1 => rfl
  | case2 => rfl
  | case3 c r hmark ih =>
    rw [List.take_succ_cons, occurs, Bool.or_eq_false_iff]
    refine ⟨?_, ih⟩
    by_contra hpre
    rw [Bool.not_eq_false, List.isPrefixOf_iff_prefix, List.cons_prefix_cons] at hpre
    obtain ⟨rfl, hslash⟩ := hpre
    obtain ⟨t, ht⟩ := hslash.trans (List.take_prefix _ r)
    exact hmark t rfl ht.symm

lemma isComment_withUnit (n : Numeral) (s : List Char) : (withUnit n s).1.isComment = false := by
  rw [withUnit]
  dsimp only
  split_ifs <;> rfl

lemma isComment_withArguments (name s : List Char) :
    (withArguments name s).1.isComment = false := by
  unfold withArguments urlToken
  dsimp only
  split
  · split_ifs
    · split
      · rfl
      · dsimp only
        split <;> rfl
    · rfl
  · rfl

/-- The token of a single symbol is a comment only behind a slash and a star. -/
lemma isClosed_symbolToken (c : Char) (r : List Char) : (symbolToken c r).1.IsClosed := by
  unfold symbolToken
  split
  case h_1 s =>
    change occurs ['*', '/'] (String.ofList (s.take (commentSize s))).toList = false
    rw [String.toList_ofList]
    exact occurs_take_commentSize s
  all_goals trivial

/-- Whatever a text is, the token that it begins with is closed. -/
lemma isClosed_readToken (c : Char) (r : List Char) : (readToken c r).1.IsClosed := by
  rw [readToken]
  dsimp only
  split_ifs
  · trivial
  · refine Token.isClosed_of_isComment_eq_false ?_
    rw [stringToken]
    dsimp only
    split_ifs <;> rfl
  · refine Token.isClosed_of_isComment_eq_false ?_
    rw [hashToken]
    dsimp only
    split_ifs <;> rfl
  · refine Token.isClosed_of_isComment_eq_false ?_
    unfold atToken
    split_ifs <;> rfl
  · exact Token.isClosed_of_isComment_eq_false (isComment_withUnit _ _)
  · exact Token.isClosed_of_isComment_eq_false (isComment_withArguments _ _)
  · exact isClosed_symbolToken c r

/-- The tokens of a text are closed. -/
lemma isClosed_of_mem_lexemes {s : List Char} : ∀ l ∈ lexemes s, l.token.IsClosed := by
  fun_induction lexemes s with
  | case1 => exact fun _ h => absurd h List.not_mem_nil
  | case2 c r ih => exact List.forall_mem_cons.mpr ⟨isClosed_readToken c r, ih⟩

end StyleSplit.Css
