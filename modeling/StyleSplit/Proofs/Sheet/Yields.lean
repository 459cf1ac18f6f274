import StyleSplit.Proofs.Sheet.Prelude
set_option autoImplicit false

/-!
# What a text yields

The three readers of a sheet go through components and give a list. A text in front of another one
yields a list of its own if the reader gives that list first, whatever follows. Such statements can
be put together like the texts themselves.

## Main definitions

* `StyleSplit.Sheet.Yields` — a text yields a list in front of another text.

## Main results

* `StyleSplit.Sheet.Yields.append`, `StyleSplit.Sheet.Yields.flatMap` — texts one after the other.
* `StyleSplit.Sheet.reads_blanks`, `StyleSplit.Sheet.reads_comment`,
  `StyleSplit.Sheet.yields_declaration` — the parts that all blocks are made of.
-/

namespace StyleSplit.Sheet

open Css

/-! ## Readers -/

/-- The declarations that components make up. -/
def readDeclarations (stop : List Char) (cs : List Component) : Except Fault (List Style) :=
  declarationList stop .none cs

/-- The keyframe steps that components make up. -/
def readSteps (stop : List Char) (cs : List Component) : Except Fault (List Style) :=
  stepList stop none cs

/-- The statements that components make up. -/
def readStatements (stop : List Char) (cs : List Component) : Except Fault (List Statement) :=
  ruleList stop .none cs

/-- **Yielding** — the text `s` in front of the text `t` makes up components that give the list
`xs`, and then what the components behind them give. -/
def Yields {α : Type} (read : List Char → List Component → Except Fault (List α))
    (s t : List Char) (xs : List α) : Prop :=
  ∃ cs, Reads s t cs ∧ ∀ stop ds, read stop (cs ++ ds) = (read stop ds).map (xs ++ ·)

namespace Yields

variable {α β : Type} {read : List Char → List Component → Except Fault (List α)}
  {s t u : List Char} {xs ys : List α}

/-- The result of a reader with nothing in front of it. -/
lemma map_nil_append (r : Except Fault (List α)) : r.map ([] ++ ·) = r := by
  cases r <;> rfl

lemma nil : Yields read [] t [] :=
  ⟨[], .nil, fun stop ds => (map_nil_append (read stop ds)).symm⟩

/-- Texts one after the other yield their lists one after the other. -/
lemma append (hs : Yields read s (t ++ u) xs) (ht : Yields read t u ys) :
    Yields read (s ++ t) u (xs ++ ys) := by
  obtain ⟨cs, hcs, hxs⟩ := hs
  obtain ⟨ds, hds, hys⟩ := ht
  refine ⟨cs ++ ds, hcs.append hds, fun stop es => ?_⟩
  rw [List.append_assoc, hxs, hys]
  cases read stop es with
  | error f => rfl
  | ok zs => exact congrArg Except.ok (List.append_assoc xs ys zs).symm

/-- A text behind another one that yields nothing. -/
lemma append_nil (hs : Yields read s (t ++ u) xs) (ht : Yields read t u []) :
    Yields read (s ++ t) u xs := by
  have h := hs.append ht
  rwa [List.append_nil] at h

/-- A text in front of another one that yields nothing. -/
lemma nil_append (hs : Yields read s (t ++ u) []) (ht : Yields read t u xs) :
    Yields read (s ++ t) u xs :=
  hs.append ht

/-- Several texts one after the other, where what may follow a text may follow any of them. -/
lemma flatMap {write : β → List Char} {shown : β → List α} {P : List Char → Prop}
    {bs : List β} (hyields : ∀ b ∈ bs, ∀ t, P t → Yields read (write b) t (shown b))
    (hfollows : ∀ b ∈ bs, ∀ t, P t → P (write b ++ t)) (ht : P t) :
    Yields read (bs.flatMap write) t (bs.flatMap shown) ∧ P (bs.flatMap write ++ t) := by
  induction bs with
  | nil => exact ⟨nil, ht⟩
  | cons b bs ih =>
    obtain ⟨htail, hrest⟩ := ih (fun c hc => hyields c (List.mem_cons_of_mem _ hc))
      fun c hc => hfollows c (List.mem_cons_of_mem _ hc)
    rw [List.flatMap_cons, List.flatMap_cons, List.append_assoc]
    exact ⟨(hyields b List.mem_cons_self _ hrest).append htail,
      hfollows b List.mem_cons_self _ hrest⟩

/-- A text that fills braces is the content of a block, and the list is what it is read as. -/
lemma exists_braces (h : Yields read s ('}' :: t) xs)
    (hend : ∀ stop, read stop [] = .ok []) :
    ∃ cs, Reads ('{' :: s ++ ['}']) t [.braces s t cs] ∧ ∀ stop, read stop cs = .ok xs := by
  obtain ⟨cs, hcs, hxs⟩ := h
  refine ⟨cs, hcs.braces, fun stop => ?_⟩
  have hread := hxs stop []
  rw [List.append_nil, hend] at hread
  rw [hread]
  exact congrArg Except.ok (List.append_nil xs)

end Yields

/-! ## Blanks -/

/-- A text that begins with neither a blank nor a byte order mark: blanks in front of it end there,
and nothing of it is left out if nothing stands in front of it. -/
def EndsBlanks (t : List Char) : Prop :=
  t.head?.any (fun c => isSpace c || c == '\uFEFF') = false

lemma EndsBlanks.head?_ne_mark {t : List Char} (h : EndsBlanks t) : t.head? ≠ some '\uFEFF' := by
  intro hmark
  rw [EndsBlanks, hmark] at h
  exact absurd h (by decide)

lemma EndsBlanks.takeWhile_isSpace {t : List Char} (h : EndsBlanks t) :
    t.takeWhile isSpace = [] := by
  cases t with
  | nil => rfl
  | cons c t =>
    rw [EndsBlanks, List.head?_cons, Option.any_some, Bool.or_eq_false_iff] at h
    exact List.takeWhile_cons_of_neg (by simp [h.1])

lemma endsBlanks_cons {p : Char → Bool} {c : Char} (hc : p c)
    (hp : [' ', '\t', '\n', '\r', '\x0c', '\uFEFF'].all fun d => !p d) (t : List Char) :
    EndsBlanks (c :: t) := by
  have hnot := notMem_of_class hc _ hp
  rw [EndsBlanks, List.head?_cons, Option.any_some, Bool.eq_false_iff]
  simpa [isSpace, isNewline, or_assoc] using hnot

/-- A run of blanks is one lexeme. -/
lemma reads_blanks {a t : List Char} (ha : a ≠ []) (hspace : a.all isSpace)
    (ht : t.takeWhile isSpace = []) :
    Reads a t [.plain ⟨.whitespace (String.ofList a), a, t⟩] := by
  cases a with
  | nil => exact absurd rfl ha
  | cons c r =>
    rw [List.all_cons, Bool.and_eq_true] at hspace
    have hrun : (r ++ t).takeWhile isSpace = r := by
      rw [List.takeWhile_append_of_pos (List.all_eq_true.mp hspace.2), ht, List.append_nil]
    exact Reads.plain (by rw [readToken, if_pos hspace.1, hrun]) rfl rfl

section

variable {a t : List Char} (ha : a ≠ []) (hspace : a.all isSpace) (ht : EndsBlanks t)

include ha hspace ht

lemma yields_blanks_declarations : Yields readDeclarations a t [] := by
  refine ⟨_, reads_blanks ha hspace ht.takeWhile_isSpace, fun stop ds => ?_⟩
  rw [Yields.map_nil_append, List.singleton_append, readDeclarations, declarationList]
  rfl

lemma yields_blanks_steps : Yields readSteps a t [] := by
  refine ⟨_, reads_blanks ha hspace ht.takeWhile_isSpace, fun stop ds => ?_⟩
  rw [Yields.map_nil_append, List.singleton_append, readSteps, stepList]
  rfl

lemma yields_blanks_statements : Yields readStatements a t [] := by
  refine ⟨_, reads_blanks ha hspace ht.takeWhile_isSpace, fun stop ds => ?_⟩
  rw [Yields.map_nil_append, List.singleton_append, readStatements, ruleList]
  rfl

end

/-! ## Comments -/

/-- A comment that does not hold its closing mark ends at the first one. -/
lemma commentSize_append {s : List Char} (hs : occurs ['*', '/'] s = false) (t : List Char) :
    commentSize (s ++ '*' :: '/' :: t) = s.length := by
  induction s with
  | nil => rfl
  | cons c s ih =>
    rw [occurs, Bool.or_eq_false_iff] at hs
    rw [List.cons_append]
    unfold commentSize
    split
    · rename_i heq
      exact absurd heq (by simp)
    · rename_i r heq
      -- The mark would begin in the text, or end with the star behind it.
      obtain ⟨rfl, htail⟩ := List.cons.inj heq
      cases s with
      | nil => exact absurd htail (by simp)
      | cons d s =>
        obtain ⟨rfl, -⟩ := List.cons.inj htail
        exact absurd hs.1 (by simp)
    · rename_i heq
      obtain ⟨-, rfl⟩ := List.cons.inj heq
      rw [ih hs.2, List.length_cons]

/-- A comment is one lexeme. -/
lemma reads_comment {s : List Char} (hs : occurs ['*', '/'] s = false) (t : List Char) :
    Reads ('/' :: '*' :: s ++ ['*', '/']) t
      [.plain ⟨.comment (String.ofList s), '/' :: '*' :: s ++ ['*', '/'], t⟩] := by
  refine Reads.plain (c := '/') (r := '*' :: (s ++ ['*', '/'])) ?_ rfl rfl
  have htoken : ∀ r, readToken '/' ('*' :: r) = ((commentToken r).1, (commentToken r).2 + 1) :=
    fun _ => rfl
  have htext : s ++ ['*', '/'] ++ t = s ++ '*' :: '/' :: t := by simp
  rw [List.cons_append, htext, htoken, commentToken]
  simp [commentSize_append hs]

section

variable {s : List Char} (hs : occurs ['*', '/'] s = false) (t : List Char)

include hs

lemma yields_comment_declarations :
    Yields readDeclarations ('/' :: '*' :: s ++ ['*', '/']) t [.comment (String.ofList s)] := by
  refine ⟨_, reads_comment hs t, fun stop ds => ?_⟩
  rw [List.singleton_append, readDeclarations, declarationList]
  rfl

lemma yields_comment_steps :
    Yields readSteps ('/' :: '*' :: s ++ ['*', '/']) t [.comment (String.ofList s)] := by
  refine ⟨_, reads_comment hs t, fun stop ds => ?_⟩
  rw [List.singleton_append, readSteps, stepList]
  rfl

lemma yields_comment_statements :
    Yields readStatements ('/' :: '*' :: s ++ ['*', '/']) t
      [.style (.comment (String.ofList s))] := by
  refine ⟨_, reads_comment hs t, fun stop ds => ?_⟩
  rw [List.singleton_append, readStatements, ruleList]
  rfl

end

/-! ## Declarations -/

/-- A character that names begin with is no digit. -/
lemma isDigit_of_isNameStart {c : Char} (h : isNameStart c) : c.isDigit = false := by
  by_contra hdigit
  rw [Bool.not_eq_false] at hdigit
  simp only [isNameStart, Bool.or_eq_true, beq_iff_eq, decide_eq_true_eq] at h
  rcases h with ((h | rfl) | rfl) | h
  · simp [Char.isAlpha, Char.isUpper, Char.isLower, Char.isDigit, UInt32.le_iff_toNat_le]
      at h hdigit
    omega
  · exact absurd hdigit (by decide)
  · exact absurd hdigit (by decide)
  · simp [Char.isDigit, UInt32.le_iff_toNat_le] at hdigit
    omega

/-- Digits do not begin at a character that is neither a digit nor a point. -/
lemma startsUnsigned_cons_eq_false {c : Char} (hdigit : c.isDigit = false) (hpoint : c ≠ '.')
    (r : List Char) : startsUnsigned (c :: r) = false := by
  simp [startsUnsigned, hpoint, startsWithDigit, hdigit]

/-- In a text without backslashes no numeral begins where an identifier does. -/
lemma startsNumeral_of_startsIdent {s : List Char} (hback : '\\' ∉ s) (h : startsIdent s) :
    startsNumeral s = false := by
  have hstart : ∀ {c}, isNameStart c → c ≠ '.' ∧ c ≠ '+' := by
    intro c hc
    constructor
    all_goals
      rintro rfl
      exact absurd hc (by decide)
  cases s with
  | nil => exact absurd h (by decide)
  | cons c r =>
    have hc : c ≠ '\\' := fun hc => hback (hc ▸ List.mem_cons_self)
    by_cases hdash : c = '-'
    · subst hdash
      cases r with
      | nil => exact absurd h (by decide)
      | cons d r =>
        have hd : d ≠ '\\' := fun hd => hback (by simp [hd])
        have hnext : isNameStart d ∨ d = '-' := by simpa [startsIdent, hd] using h
        rcases hnext with hnext | rfl
        · exact startsUnsigned_cons_eq_false (isDigit_of_isNameStart hnext) (hstart hnext).1 r
        · exact startsUnsigned_cons_eq_false (by decide) (by decide) r
    · rw [startsIdent_cons hdash hc] at h
      have hsign : signOf? (c :: r) = none := by simp [signOf?, hdash, (hstart h).2]
      rw [startsNumeral, afterSign, hsign]
      exact startsUnsigned_cons_eq_false (isDigit_of_isNameStart h) (hstart h).1 r

/-- A name in front of a colon is one lexeme. -/
lemma reads_ident {name : List Char} (hname : IsName name) (t : List Char) :
    Reads name (':' :: t) [.plain ⟨.ident (String.ofList name), name, ':' :: t⟩] := by
  cases name with
  | nil => exact absurd hname.startsIdent (by decide)
  | cons c r =>
    have hc := hname.isNameChar c List.mem_cons_self
    have hstops : Stops (':' :: t) := .cons rfl t
    have hread := readName_of_isNameChar hname.isNameChar hname.nul_notMem (s := ':' :: t) rfl
    have hstart := startsIdent_append_of_startsIdent hname.backslash_notMem hname.startsIdent
      (':' :: t)
    have hnumeral : startsNumeral (c :: r ++ ':' :: t) = false := by
      rw [startsNumeral_append hstops]
      exact startsNumeral_of_startsIdent hname.backslash_notMem hname.startsIdent
    have hne : ∀ {d}, isNameChar d = false → c ≠ d := by
      rintro d hd rfl
      rw [hc] at hd
      exact Bool.true_eq_false.mp hd
    have hspace : isSpace c = false := by
      simp [isSpace, isNewline, hne (d := ' ') rfl, hne (d := '\t') rfl, hne (d := '\n') rfl,
        hne (d := '\r') rfl, hne (d := '\x0c') rfl]
    have harrow : ['-', '>'].isPrefixOf (r ++ ':' :: t) = false := by
      rw [hstops.isPrefixOf_append (by decide)]
      by_contra hpre
      rw [Bool.not_eq_false, List.isPrefixOf_iff_prefix] at hpre
      exact absurd (hname.isNameChar '>' (List.mem_cons_of_mem _ (hpre.subset (by decide))))
        (by decide)
    refine Reads.plain ?_ rfl rfl
    rw [List.cons_append] at hread hstart hnumeral
    simp [readToken, hspace, hne (d := '"') rfl, hne (d := '\'') rfl, hne (d := '#') rfl,
      hne (d := '@') rfl, hnumeral, hstart, harrow, hread, withArguments]

/-- The marks that end a value. -/
def valueMarks : List Mark :=
  [.semicolon]

/-- A value grows by components that do not end it. -/
lemma declarationList_value_append {cs : List Component}
    (hcomment : ∀ c ∈ cs, c.token.isComment = false)
    (hmark : ∀ c ∈ cs, ∀ m ∈ valueMarks, c.token.mark? ≠ some m) (stop : List Char)
    (property : String) (e : Excerpt) (ds : List Component) :
    declarationList stop (.value property e) (cs ++ ds) =
      declarationList stop (.value property (e.pushAll cs)) ds := by
  induction cs generalizing e with
  | nil => rfl
  | cons c cs ih =>
    have hc := hcomment c List.mem_cons_self
    have hm := hmark c List.mem_cons_self
    rw [List.cons_append, declarationList, Excerpt.pushAll_cons,
      ← ih (fun d hd => hcomment d (List.mem_cons_of_mem _ hd))
        (fun d hd => hmark d (List.mem_cons_of_mem _ hd))]
    split <;> simp_all [Token.isComment, Token.mark?, valueMarks]

/-- A text without blanks at its ends. -/
def IsTrimmed (s : List Char) : Prop :=
  s.head?.any isBlank = false ∧ endsBlank s = false

/-- A property: a name, perhaps behind a star. -/
def IsProperty (s : List Char) : Prop :=
  ∃ name, IsName name ∧ (s = name ∨ s = '*' :: name)

lemma reads_colon (t : List Char) : Reads [':'] t [.plain ⟨.colon, [':'], t⟩] :=
  Reads.plain rfl rfl rfl

lemma reads_semicolon (t : List Char) : Reads [';'] t [.plain ⟨.semicolon, [';'], t⟩] :=
  Reads.plain rfl rfl rfl

/-- A star that is not compared with anything is one lexeme. -/
lemma reads_star {t : List Char} (ht : t.head? ≠ some '=') :
    Reads ['*'] t [.plain ⟨.delim '*', ['*'], t⟩] := by
  have htoken : readToken '*' t = symbolToken '*' t := rfl
  refine Reads.plain ?_ rfl rfl
  rw [List.nil_append, htoken, symbolToken_comparison (by decide), if_neg ht, List.length_nil]

/-- A property in front of a colon is read as what a colon must follow. -/
lemma IsProperty.exists_reads {s : List Char} (hs : IsProperty s) (t : List Char) :
    ∃ cs rest, Reads s (':' :: t) cs ∧ ∀ stop ds,
      readDeclarations stop (cs ++ ds) =
        declarationList stop (.property (String.ofList s) rest) ds := by
  obtain ⟨name, hname, rfl | rfl⟩ := hs
  · refine ⟨_, ':' :: t, reads_ident hname t, fun stop ds => ?_⟩
    rw [List.singleton_append, readDeclarations, declarationList]
    rfl
  · have hhead : (name ++ ':' :: t).head? ≠ some '=' := by
      cases name with
      | nil => simp
      | cons c r =>
        intro h
        obtain rfl : c = '=' := by simpa using h
        exact absurd (hname.isNameChar '=' List.mem_cons_self) (by decide)
    refine ⟨_, ':' :: t, (reads_star hhead).append (reads_ident hname t), fun stop ds => ?_⟩
    rw [List.append_assoc, List.singleton_append, List.singleton_append, readDeclarations,
      declarationList]
    simp only [Component.token, Component.first, declarationList]
    rw [show "*" ++ String.ofList name = String.ofList ('*' :: name) by simp]
    rfl

section

variable {property value t : List Char} (hproperty : IsProperty property) {vs : List Component}

include hproperty

/-- A property, a colon and a value are at hand of a declaration, as long as the value does not
end. -/
lemma IsProperty.exists_reads_value (hvs : ReadsPlainly value t vs)
    (hmark : ∀ c ∈ vs, ∀ m ∈ valueMarks, c.token.mark? ≠ some m) :
    ∃ cs, Reads (property ++ ':' :: value) t cs ∧ ∀ stop ds,
      readDeclarations stop (cs ++ ds) =
        declarationList stop (.value (String.ofList property) (Excerpt.empty.pushAll vs)) ds := by
  obtain ⟨ps, rest, hps, hread⟩ := hproperty.exists_reads (value ++ t)
  have htail : Reads (':' :: value) t ([.plain ⟨.colon, [':'], value ++ t⟩] ++ vs) :=
    (reads_colon (value ++ t)).append hvs.reads
  refine ⟨_, Reads.append hps htail, fun stop ds => ?_⟩
  have hvalues := declarationList_value_append hvs.isComment_eq hmark stop (String.ofList property)
    .empty ds
  rw [List.append_assoc, hread, List.append_assoc, List.singleton_append, declarationList]
  exact hvalues

/-- A property and a value with a colon between them and a semicolon behind them are a declaration
of the trimmed value. -/
lemma IsProperty.yields_value (hvs : ReadsPlainly value (';' :: t) vs)
    (hmark : ∀ c ∈ vs, ∀ m ∈ valueMarks, c.token.mark? ≠ some m) :
    Yields readDeclarations (property ++ ':' :: value ++ [';']) t
      [.declaration (String.ofList property) (trimmed value)] := by
  obtain ⟨cs, hcs, hread⟩ := hproperty.exists_reads_value hvs hmark
  refine ⟨_, Reads.append hcs (reads_semicolon t), fun stop ds => ?_⟩
  rw [List.append_assoc, hread, List.singleton_append, declarationList]
  simp only [Component.token, Component.first, hvs.toEnd_eq]
  rfl

end

/-- **Declarations** — a property and a value with a colon and a space between them and a semicolon
behind them are one declaration. -/
lemma yields_declaration {property value : List Char} (hproperty : IsProperty property)
    (hvalue : IsPiece valueMarks value) (htrim : IsTrimmed value) (t : List Char) :
    Yields readDeclarations (property ++ ':' :: ' ' :: value ++ [';']) t
      [.declaration (String.ofList property) (String.ofList value)] := by
  have hpiece : IsPiece valueMarks ([' '] ++ value ++ []) :=
    hvalue.surround (by decide) (by decide)
  rw [List.append_nil, List.singleton_append] at hpiece
  obtain ⟨vs, hvs⟩ := hpiece.exists_readsPlainly (t := ';' :: t) (.cons rfl _)
  have htext : trimmed (' ' :: value) = String.ofList value := by
    rw [trimmed, ← List.singleton_append, trim_append_left (List.forall_mem_singleton.mpr rfl),
      trim_eq_self htrim.1 htrim.2]
  have hyields := hproperty.yields_value hvs fun _ hc _ hm => hvs.mark?_ne hpiece hc hm
  rwa [htext] at hyields

end StyleSplit.Sheet
