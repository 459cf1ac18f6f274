set_option autoImplicit false

/-!
# Control sequences

A terminal takes some characters as commands: the controls, and sequences that an escape begins.
A log that quotes foreign text leaves them out, so that the text cannot command the terminal.

A sequence is told by its second character. Most are that short; others go on with marks, with
parameters up to a letter, or with a text up to a character that ends it.

## Main definitions

* `StyleSplit.ControlSequence` — how much of a sequence has been read.
* `StyleSplit.isShown` — the characters that command nothing.
* `StyleSplit.withoutControls` — a text without its control characters and sequences.

## Main results

* `StyleSplit.isShown_of_mem_withoutControls` — nothing is left that commands a terminal.
* `StyleSplit.withoutControls_eq_self` — a text without control characters is left alone.
-/

namespace StyleSplit

/-! ## Characters -/

/-- The controls that only move on in a text: tab, line feed, form feed and carriage return. -/
def isLayoutControl (c : Char) : Bool :=
  c == '\t' || c == '\n' || c == '\x0c' || c == '\r'

/-- **Characters that command nothing** — those that only move on, and all that are no controls of
ASCII. -/
def isShown (c : Char) : Bool :=
  isLayoutControl c || (0x20 ≤ c.toNat && c.toNat ≠ 0x7F)

/-- Whether the encoding of a character holds the byte that ends a text within a sequence. -/
def holdsTerminator (c : Char) : Bool :=
  (String.utf8EncodeChar c).contains 0x9C

/-! ## Sequences -/

/-- **Control sequences** — how much of a sequence has been read. -/
inductive ControlSequence
  /-- No sequence has begun, or the last one has ended. -/
  | none
  | escape
  /-- An escape and marks. -/
  | marked
  /-- An escape and a square bracket: parameters up to a letter. -/
  | parameters
  /-- An escape and a closing square bracket: a text up to a bell. -/
  | title
  /-- An escape and `P`: parameters and marks up to a letter, behind which there is a text. -/
  | device
  | deviceParameters
  | deviceMarked
  /-- A text up to a terminator. -/
  | payload
  deriving DecidableEq, Repr, Inhabited

namespace ControlSequence

/-- Whether a character is a mark. -/
def isMark (c : Char) : Bool :=
  0x20 ≤ c.toNat && c.toNat < 0x30

/-- Whether a character belongs to parameters. -/
def isParameter (c : Char) : Bool :=
  0x30 ≤ c.toNat && c.toNat < 0x40

/-- Whether a character ends parameters: a letter or one of the signs around the letters. -/
def isFinal (c : Char) : Bool :=
  0x40 ≤ c.toNat && c.toNat < 0x7F

/-- The sequence that an escape and a character begin; most pairs are complete by themselves. -/
def afterEscape (c : Char) : ControlSequence :=
  if c = '[' then parameters
  else if c = ']' then title
  else if c = 'P' then device
  else if c = 'X' ∨ c = '^' ∨ c = '_' then payload
  else if isMark c then marked
  else if isParameter c || isFinal c then none
  else escape

/-- **One more character** — an escape begins a sequence anew, and the two controls for cancelling
end one. What has no place in a sequence does not end it. -/
def next (s : ControlSequence) (c : Char) : ControlSequence :=
  if c = '\x1b' then escape
  else if c = '\x18' ∨ c = '\x1a' then none
  else
    match s with
    | none => none
    | escape => afterEscape c
    | marked => if isParameter c || isFinal c then none else marked
    | parameters => if isFinal c then none else parameters
    | title => if c = '\x07' then none else title
    | device =>
      if isMark c then deviceMarked
      else if isParameter c then deviceParameters
      else if isFinal c then payload
      else device
    | deviceParameters =>
      if isMark c then deviceMarked
      else if isFinal c || (isParameter c && '<' ≤ c) then payload
      else deviceParameters
    | deviceMarked => if isParameter c || isFinal c then payload else deviceMarked
    | payload => if holdsTerminator c then none else payload

/-- Whether a character is shown where a sequence has been read so far. Outside of sequences that is
as its kind says; within a sequence that has no text yet, only layout is. -/
def shows (s : ControlSequence) (c : Char) : Bool :=
  match s with
  | none => isShown c
  | escape | marked | parameters => isLayoutControl c
  | title | device | deviceParameters | deviceMarked | payload => false

end ControlSequence

/-! ## Texts -/

/-- The shown characters of a text before which a sequence has been read so far. A sequence rests
once one of its characters has been shown: with `resting`, characters are shown as outside of
sequences, up to a control that is not shown, which takes the sequence up again. A character outside
ASCII ends a resting sequence. -/
def shownFrom (resting : Bool) (s : ControlSequence) : List Char → List Char
  | [] => []
  | c :: r =>
    if (resting && isShown c) || s.shows c then
      c :: shownFrom true (if c.toNat < 0x80 then s else .none) r
    else shownFrom false (s.next c) r

/-- **A text without controls** — its characters but for the controls that command a terminal and
the sequences that an escape begins. -/
def withoutControls (s : List Char) : List Char :=
  shownFrom false .none s

/-! ## Small facts -/

/-- What a sequence shows is shown outside of sequences as well. -/
theorem ControlSequence.isShown_of_shows {s : ControlSequence} {c : Char} (h : s.shows c) :
    isShown c := by
  cases s <;> simp_all [ControlSequence.shows, isShown]

theorem isShown_of_mem_shownFrom {resting : Bool} {s : ControlSequence} {text : List Char}
    {c : Char} (h : c ∈ shownFrom resting s text) : isShown c := by
  induction text generalizing resting s with
  | nil => simp [shownFrom] at h
  | cons d r ih =>
    unfold shownFrom at h
    split at h
    · rename_i hd
      rcases List.mem_cons.mp h with rfl | h
      · rcases Bool.or_eq_true_iff.mp hd with hd | hd
        · exact (Bool.and_eq_true_iff.mp hd).2
        · exact ControlSequence.isShown_of_shows hd
      · exact ih h
    · exact ih h

/-- Nothing is left that commands a terminal. -/
theorem isShown_of_mem_withoutControls {text : List Char} {c : Char}
    (h : c ∈ withoutControls text) : isShown c :=
  isShown_of_mem_shownFrom h

/-- A text in which nothing commands a terminal is left alone. -/
theorem withoutControls_eq_self {text : List Char} (h : ∀ c ∈ text, isShown c) :
    withoutControls text = text := by
  have hrun : ∀ resting, shownFrom resting .none text = text := by
    induction text with
    | nil => intro resting; rfl
    | cons c r ih =>
      intro resting
      have hc := h c List.mem_cons_self
      rw [shownFrom, if_pos (by simp [ControlSequence.shows, hc]), ite_self,
        ih (fun d hd => h d (List.mem_cons_of_mem c hd))]
  exact hrun false

end StyleSplit
