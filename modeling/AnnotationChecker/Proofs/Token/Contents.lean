import AnnotationChecker.Token.Piece
/-!
# What a text is cut into

The contents of a text are its pieces without the blanks and without their places: what the parser gets to
see of it. Each lemma says what one token's text gives, whatever text follows that does not run on from it.
-/

namespace AnnotationChecker.Piece

/-- What a text holds, in order, but for blanks. -/
def contents (depth : Nat) (cs : List Char) : List Content :=
  ((pieces depth cs).map Piece.content).filter (· ≠ .blank)

@[simp] theorem contents_nil (depth : Nat) : contents depth [] = [] := rfl

variable {d : Nat} {c : Char} {rest : List Char}

/-- A piece of which `run` are the characters after its first one. -/
theorem contents_token {run : List Char} {k : TokenKind} {f : Option TokenFault}
    (h : read d c (run ++ rest) = ⟨.token k f, run.length⟩) :
    contents d (c :: (run ++ rest)) = .token k f :: contents (openAfter d (.token k f)) rest := by
  unfold contents
  rw [pieces_cons, h]
  simp

theorem contents_single {k : TokenKind} (h : read d c rest = .token k 0) :
    contents d (c :: rest) = .token k none :: contents (openAfter d (.token k none)) rest := by
  have hr : read d c ([] ++ rest) = ⟨.token k none, ([] : List Char).length⟩ := h
  have hc := contents_token hr
  rwa [List.nil_append] at hc

@[simp] theorem contents_space : contents d (' ' :: rest) = contents d rest := by
  unfold contents
  rw [pieces_cons]
  simp [read, openAfter]

/-- The end of a line outside of brackets. -/
theorem contents_newline : contents 0 ('\n' :: rest) = .token .newline none :: contents 0 rest :=
  contents_single (by simp [read, lineEnd, Reading.token])

/-! ## Marks -/

/-- A mark of one character. A point is left out, since a digit may follow it. -/
theorem contents_mark {m : Mark} (hm : mark? c = some m) (hc : c ≠ '.') :
    contents d (c :: rest) = .token (.mark m) none :: contents (openAfter d (.token (.mark m) none)) rest := by
  have hm' := hm
  -- one case for each mark, and the last one for a character that makes none
  refine contents_single ?_
  unfold mark? at hm'
  repeat' split at hm'
  all_goals first
    | contradiction
    | simp_all [read, isWordStart]

/-- A point that starts no numeral. -/
theorem contents_dot (h : ∀ e ∈ rest.head?, e.isDigit = false) :
    contents d ('.' :: rest) = .token (.mark .dot) none :: contents d rest := by
  have hd : (rest.head?.any Char.isDigit) = false := by
    cases he : rest.head? with
    | none => rfl
    | some e => exact h e he
  exact contents_single (by simp [read, isWordStart, mark?, hd])

/-- A minus sign that starts no arrow. -/
theorem contents_minus (h : rest.head? ≠ some '>') :
    contents d ('-' :: rest) = .token (.mark .minus) none :: contents d rest :=
  contents_single (by simp [read, isWordStart, h])

/-! ## Words -/

/-- Characters that a test tells apart are different. -/
theorem ne_of_test {p : Char → Bool} {a b : Char} (ha : p a = true) (hb : p b = false) : a ≠ b := by
  rintro rfl
  rw [ha] at hb
  cases hb

/-- A text that no word and no numeral before it runs into, and no quote. -/
def Apart (rest : List Char) : Prop := ∀ e ∈ rest.head?, isWordChar e = false ∧ e ≠ '\x22' ∧ e ≠ '\x27'

theorem takeWhile_append_of_apart {p : Char → Bool} {run : List Char} (hr : ∀ e ∈ run, p e = true)
    (h : ∀ e ∈ rest.head?, p e = false) : (run ++ rest).takeWhile p = run := by
  rw [List.takeWhile_append_of_pos hr]
  cases rest with
  | nil => simp
  | cons e es => simp [h e (by simp)]

theorem word_eq {run : List Char} (hr : ∀ e ∈ run, isWordChar e = true) (h : Apart rest) :
    word c (run ++ rest) = .token (wordKind (c :: run)) run.length := by
  unfold word
  simp only [takeWhile_append_of_apart hr fun e he => (h e he).1, List.drop_left]
  cases rest with
  | nil => rfl
  | cons q rest =>
    obtain ⟨-, hq, hq'⟩ := h q (by simp)
    simp only [hq, hq', or_self, if_false]

theorem not_isDigit_of_isWordStart (h : isWordStart c = true) : c.isDigit = false := by
  rw [← Bool.not_eq_true, Char.isDigit_iff_toNat]
  intro hd
  unfold isWordStart at h
  delta Char.isAlpha Char.isUpper Char.isLower at h
  simp only [UInt32.le_iff_toNat_le, Bool.or_eq_true, Bool.and_eq_true, decide_eq_true_eq, beq_iff_eq] at h
  rcases h with (h | rfl) | h
  · simp only [Char.toNat] at hd
    simp at h hd
    omega
  · simp at hd
  · simp at hd
    omega

theorem read_of_isWordChar {cs : List Char} (h : isWordChar c = true) :
    read d c cs = if c.isDigit then numeral c cs else word c cs := by
  have hne : ∀ e, isWordChar e = false → c ≠ e := fun e => ne_of_test h
  simp only [read, hne ' ' (by decide), hne '\t' (by decide), hne '\r' (by decide), hne '\x0c' (by decide),
    hne '\\' (by decide), hne '\n' (by decide), hne '#' (by decide), hne '\x22' (by decide), hne '\x27' (by decide),
    hne '.' (by decide), or_self, if_false, false_and, or_false]
  by_cases hd : c.isDigit = true
  · rw [if_pos hd, if_pos hd]
  · have hs : isWordStart c = true := by
      simpa [isWordChar, isWordStart, Char.isAlphanum, hd] using h
    rw [if_neg hd, if_neg hd, if_pos hs]

theorem isWordChar_of_isWordStart (h : isWordStart c = true) : isWordChar c = true := by
  simp only [isWordStart, isWordChar, Char.isAlphanum, Bool.or_eq_true] at h ⊢
  rcases h with (h | h) | h
  · exact .inl (.inl (.inl h))
  · exact .inl (.inr h)
  · exact .inr h

theorem read_of_isWordStart {cs : List Char} (h : isWordStart c = true) : read d c cs = word c cs := by
  rw [read_of_isWordChar (isWordChar_of_isWordStart h), not_isDigit_of_isWordStart h]
  rfl

theorem contents_word {run : List Char} (hc : isWordStart c = true) (hr : ∀ e ∈ run, isWordChar e = true)
    (h : Apart rest) :
    contents d (c :: (run ++ rest)) = .token (wordKind (c :: run)) none :: contents d rest := by
  have hw : read d c (run ++ rest) = ⟨.token (wordKind (c :: run)) none, run.length⟩ := by
    rw [read_of_isWordStart hc, word_eq hr h]
    rfl
  rw [contents_token hw]
  unfold wordKind
  cases Keyword.ofText? (String.ofList (c :: run)) <;> rfl

end AnnotationChecker.Piece
