import Mathlib.Data.Nat.Digits.Defs
import AnnotationChecker.Proofs.Token.Stream
/-!
# Integers are read exactly

`IsInteger` says which characters are an integer in some radix with which digits, and that what stands behind them does
not go on with it. Such an integer is one token with the number that the digits stand for when it `Fits`: it has a digit,
all its digits are ones of the radix, and the number has 63 bits. Otherwise it is a faulty zero
(`Piece.read_of_isInteger`). In a file each of them has one token, and no issue but the one that says so
(`Lexed.read_integer`).
-/

namespace AnnotationChecker

/-! ## Integers as they are written -/

/-- A character is the digit for a number below sixteen, in either case. -/
def IsDigitOf (d : Nat) (c : Char) : Prop := d < 16 ∧ (c = d.digitChar ∨ c = d.digitChar.toUpper)

instance (d : Nat) (c : Char) : Decidable (IsDigitOf d c) := inferInstanceAs (Decidable (_ ∧ _))

/-- Characters spell digits, from the highest one on, with any number of underscores in between. -/
def SpellsDigits (cs : List Char) (ds : List Nat) : Prop := List.Forall₂ IsDigitOf ds (cs.filter (· != '_'))

instance (cs : List Char) (ds : List Nat) : Decidable (SpellsDigits cs ds) :=
  inferInstanceAs (Decidable (List.Forall₂ _ _ _))

/-- The letters that announce a radix, behind a zero. -/
def radixLetters : List (Char × Nat) := [('x', 16), ('X', 16), ('o', 8), ('O', 8), ('b', 2), ('B', 2)]

/-- Characters are an integer in a radix with some digits, in front of a text that does not go on with it. -/
inductive IsInteger (behind : List Char) : List Char → Nat → List Nat → Prop
  | decimal {c : Char} {run : List Char} {ds : List Nat} : c ≠ '_' → SpellsDigits (c :: run) ds → (∀ d ∈ ds, d < 10) →
      EndsDecimal behind → (c = '0' → run = [] → ∀ e ∈ behind.head?, ∀ radix, (e, radix) ∉ radixLetters) →
      IsInteger behind (c :: run) 10 ds
  | marked {m : Char} {radix : Nat} {run : List Char} {ds : List Nat} : (m, radix) ∈ radixLetters →
      SpellsDigits run ds → (∀ e ∈ behind.head?, e ≠ '_' ∧ ∀ d, ¬ IsDigitOf d e) →
      IsInteger behind ('0' :: m :: run) radix ds

/-- The number that digits stand for, from the highest one on. -/
def valueOf (radix : Nat) (ds : List Nat) : Nat := Nat.ofDigits radix ds.reverse

/-- Digits are those of an integer: there is one, all are digits of the radix, and the number has 63 bits. -/
def Fits (radix : Nat) (ds : List Nat) : Prop := ds ≠ [] ∧ (∀ d ∈ ds, d < radix) ∧ valueOf radix ds < 2 ^ 63

instance (radix : Nat) (ds : List Nat) : Decidable (Fits radix ds) := inferInstanceAs (Decidable (_ ∧ _ ∧ _))

/-! ## Digits -/

namespace Numeral

variable {c : Char} {cs run rest : List Char} {d radix : Nat} {ds : List Nat}

theorem digitValue_of_isDigitOf (h : IsDigitOf d c) : digitValue c = d := by
  have hall : ∀ d < 16, digitValue d.digitChar = d ∧ digitValue d.digitChar.toUpper = d := by decide
  obtain ⟨hd, rfl | rfl⟩ := h
  · exact (hall d hd).1
  · exact (hall d hd).2

theorem isHexDigit_iff : isHexDigit c = true ↔ ∃ d, IsDigitOf d c := by
  constructor
  · intro h
    have hall : ∀ n < 103, isHexDigit (Char.ofNat n) = true →
        ∃ d < 16, Char.ofNat n = d.digitChar ∨ Char.ofNat n = d.digitChar.toUpper := by decide +kernel
    have hlt : c.toNat < 103 := by
      simp only [isHexDigit, Bool.or_eq_true, Bool.and_eq_true, decide_eq_true_eq, Char.isDigit_iff_toNat, Char.le_def,
        UInt32.le_iff_toNat_le] at h
      have hf : 'f'.val.toNat = 102 := rfl
      have hF : 'F'.val.toNat = 70 := rfl
      have h9 : '9'.toNat = 57 := rfl
      show c.val.toNat < 103
      change (_ ∧ c.val.toNat ≤ _ ∨ _) ∨ _ at h
      omega
    obtain ⟨d, hd, hc⟩ := hall c.toNat hlt (by rwa [Char.ofNat_toNat])
    rw [Char.ofNat_toNat] at hc
    exact ⟨d, hd, hc⟩
  · have hall : ∀ d < 16, isHexDigit d.digitChar = true ∧ isHexDigit d.digitChar.toUpper = true := by decide
    rintro ⟨d, hd, rfl | rfl⟩
    · exact (hall d hd).1
    · exact (hall d hd).2

theorem isDigit_of_isDigitOf (h : IsDigitOf d c) (hd : d < 10) : c.isDigit = true := by
  have hall : ∀ d < 10, d.digitChar.isDigit = true ∧ d.digitChar.toUpper.isDigit = true := by decide
  obtain ⟨-, rfl | rfl⟩ := h
  · exact (hall d hd).1
  · exact (hall d hd).2

/-- What digits are spelled with. -/
theorem gap_or_digit (h : SpellsDigits cs ds) : ∀ e ∈ cs, e = '_' ∨ ∃ d ∈ ds, IsDigitOf d e := by
  intro e he
  by_cases hgap : e = '_'
  · exact .inl hgap
  · have hmem : e ∈ cs.filter (· != '_') := List.mem_filter.2 ⟨he, by simpa using hgap⟩
    right
    unfold SpellsDigits at h
    generalize cs.filter (· != '_') = es at h hmem
    induction h with
    | nil => cases hmem
    | @cons d c ds es hc _ ih =>
      rcases List.mem_cons.1 hmem with rfl | hmem
      · exact ⟨d, by simp, hc⟩
      · obtain ⟨d', hd', hdigit⟩ := ih hmem
        exact ⟨d', List.mem_cons_of_mem _ hd', hdigit⟩

theorem gap_or_isDigit (h : SpellsDigits cs ds) (hten : ∀ d ∈ ds, d < 10) : ∀ e ∈ cs, e = '_' ∨ e.isDigit = true := by
  intro e he
  rcases gap_or_digit h e he with rfl | ⟨d, hmem, hd⟩
  · exact .inl rfl
  · exact .inr (isDigit_of_isDigitOf hd (hten d hmem))

theorem map_digitValue (h : SpellsDigits cs ds) : (dropGaps cs).map digitValue = ds := by
  unfold SpellsDigits at h
  unfold dropGaps
  generalize cs.filter (· != '_') = es at h
  induction h with
  | nil => rfl
  | cons hc _ ih => rw [List.map_cons, digitValue_of_isDigitOf hc, ih]

theorem foldl_eq_ofDigits (radix : Nat) (ds : List Nat) :
    ds.foldl (fun n d => n * radix + d) 0 = Nat.ofDigits radix ds.reverse := by
  rw [Nat.ofDigits_eq_foldr, List.foldr_reverse]
  simp only [Nat.cast_id, Nat.add_comm, Nat.mul_comm]

theorem ofDigits_of_spellsDigits (h : SpellsDigits cs ds) : ofDigits radix (dropGaps cs) = valueOf radix ds := by
  rw [valueOf, ← foldl_eq_ofDigits, ← map_digitValue h, List.foldl_map]
  rfl

/-- The integer of some digits is the number that they stand for, or there is none. -/
theorem integer?_of_spellsDigits (h : SpellsDigits cs ds) :
    integer? radix (dropGaps cs) = if Fits radix ds then some (valueOf radix ds : Int) else none := by
  have hempty : (dropGaps cs).isEmpty = ds.isEmpty := by rw [← map_digitValue h, List.isEmpty_map]
  have hall : (dropGaps cs).all (fun c => digitValue c < radix) = ds.all (· < radix) := by
    rw [← map_digitValue h, List.all_map]
    rfl
  unfold integer?
  rw [hempty, hall, ofDigits_of_spellsDigits h]
  refine if_congr ?_ rfl rfl
  have hlimit : integerLimit = 2 ^ 63 := rfl
  simp [Fits, hlimit, and_assoc]

/-! ## Numerals -/

theorem radixOf?_eq_some_iff : radixOf? c = some radix ↔ (c, radix) ∈ radixLetters := by
  simp only [radixLetters, List.mem_cons, Prod.mk.injEq, List.not_mem_nil, or_false]
  unfold radixOf?
  constructor
  · intro h
    split at h
    · next hc => cases h; rcases hc with rfl | rfl <;> simp
    · split at h
      · next hc => cases h; rcases hc with rfl | rfl <;> simp
      · split at h
        · next hc => cases h; rcases hc with rfl | rfl <;> simp
        · cases h
  · rintro (⟨rfl, rfl⟩ | ⟨rfl, rfl⟩ | ⟨rfl, rfl⟩ | ⟨rfl, rfl⟩ | ⟨rfl, rfl⟩ | ⟨rfl, rfl⟩) <;> decide

/-- An integer is read up to its end, and its value is the number that its digits stand for. -/
theorem read_of_isInteger (h : IsInteger rest (c :: run) radix ds) :
    read c (run ++ rest) =
      ⟨if Fits radix ds then some (.int (valueOf radix ds)) else none, run.length⟩ := by
  cases h with
  | @marked m _ run _ hm hdigits hend =>
    have hrun : (run ++ rest).takeWhile (fun c => isHexDigit c || c == '_') = run := by
      refine Piece.takeWhile_append_of_apart (fun e he => ?_) fun e he => ?_
      · rcases gap_or_digit hdigits e he with rfl | ⟨d, -, hd⟩
        · rfl
        · simp [isHexDigit_iff.2 ⟨d, hd⟩]
      · obtain ⟨hgap, hdigit⟩ := hend e he
        have hhex : isHexDigit e = false := by
          rw [← Bool.not_eq_true, isHexDigit_iff]
          exact fun ⟨d, hd⟩ => hdigit d hd
        simpa [hhex] using hgap
    simp only [read, if_true, List.cons_append, List.head?_cons, Option.bind_some, radixOf?_eq_some_iff.2 hm,
      List.drop_one, List.tail_cons, hrun, integer?_of_spellsDigits hdigits]
    rw [apply_ite (Option.map TokenKind.int), Nat.add_comm]
    rfl
  | @decimal _ _ _ hc hdigits hten hend hradix =>
    have hgap := gap_or_isDigit hdigits hten
    have hrun : ∀ e ∈ run, isDigitOrGap e = true := by
      intro e he
      rcases hgap e (List.mem_cons_of_mem _ he) with rfl | hd
      · rfl
      · simp [isDigitOrGap, hd]
    have hnone : c = '0' → run = [] → ∀ e ∈ rest.head?, radixOf? e = none := by
      intro hzero hnil e he
      rw [Option.eq_none_iff_forall_ne_some]
      exact fun radix hr => hradix hzero hnil e he radix (radixOf?_eq_some_iff.1 hr)
    rw [read_decimal ((hgap c (by simp)).resolve_left hc) hrun hnone hend, integer?_of_spellsDigits hdigits,
      apply_ite (Option.map TokenKind.int)]
    rfl

theorem isDigit_of_isInteger (h : IsInteger rest (c :: run) radix ds) : c.isDigit = true := by
  cases h with
  | marked => rfl
  | decimal hc hdigits hten => exact (gap_or_isDigit hdigits hten c (by simp)).resolve_left hc

end Numeral

/-! ## Pieces -/

/-- The number that an integer is read as. -/
def integerValue (radix : Nat) (ds : List Nat) : Nat := if Fits radix ds then valueOf radix ds else 0

/-- What is wrong with an integer that is read. -/
def integerFault (radix : Nat) (ds : List Nat) : Option TokenFault :=
  if Fits radix ds then none else some .integerTooLarge

namespace Piece

variable {depth radix : Nat} {c : Char} {run rest : List Char} {ds : List Nat}

theorem read_of_isInteger (h : IsInteger rest (c :: run) radix ds) :
    read depth c (run ++ rest) = ⟨.token (.int (integerValue radix ds)) (integerFault radix ds), run.length⟩ := by
  rw [read_of_isDigit (Numeral.isDigit_of_isInteger h), numeral, Numeral.read_of_isInteger h, integerValue, integerFault]
  by_cases hfits : Fits radix ds
  · simp only [if_pos hfits]
    rfl
  · simp only [if_neg hfits]
    rfl

end Piece

/-! ## Files -/

/-- A file has an integer behind some of its text: the cut of the text comes to its first character. -/
inductive SourceFile.HasInteger (f : SourceFile) (before own : List Char) (radix : Nat) (ds : List Nat) : Prop
  | intro (front : List Piece) (piece : Piece) (back : List Piece) (behind : List Char) :
      Piece.pieces 0 f.text.toList = front ++ piece :: back → front.flatMap Piece.text = before →
      f.text.toList = before ++ (own ++ behind) → IsInteger behind own radix ds → f.HasInteger before own radix ds

/-- The span of a part of a text, behind what is before it. -/
def spanBehind (before own : List Char) : Span :=
  .between (Position.start.after before) (Position.start.after (before ++ own))

namespace Lexed

/-- The reading stopped with too many issues, and not behind some text. -/
def StopsBefore (l : Lexed) (before : List Char) : Prop :=
  maxDiagnostics ≤ l.issues.length ∧ ∃ t ∈ l.tokens, t.kind = .eof ∧ t.span.first ≤ Position.start.after before

variable {f : SourceFile} {before own : List Char} {radix : Nat} {ds : List Nat}

/-- An integer of a file is a piece of its text. -/
theorem exists_piece_of_hasInteger (h : f.HasInteger before own radix ds) : ∃ front back,
    Piece.pieces 0 f.text.toList =
        front ++ ⟨.token (.int (integerValue radix ds)) (integerFault radix ds), own⟩ :: back ∧
      front.flatMap Piece.text = before := by
  obtain ⟨front, piece, back, behind, hpieces, rfl, htext, hinteger⟩ := h
  obtain ⟨c, run, rfl⟩ : ∃ c run, own = c :: run := by cases hinteger <;> exact ⟨_, _, rfl⟩
  obtain ⟨e, cs, hcs, hpiece, -⟩ := Piece.pieces_split hpieces
  obtain ⟨rfl, rfl⟩ := List.cons.inj (List.append_cancel_left (htext.symm.trans hcs))
  simp only [List.append_eq, Piece.read_of_isInteger hinteger, List.take_left] at hpiece
  exact ⟨front, back, hpiece ▸ hpieces, rfl⟩

/-- A piece is read, or the reading stopped before it. -/
theorem read_or_stopsBefore {front back : List Piece} {piece : Piece}
    (h : Piece.pieces 0 f.text.toList = front ++ piece :: back) :
    (ofFile f).StopsBefore (front.flatMap Piece.text) ∨ ∃ rest e,
      (ofFile f).tokens = placed .start (front ++ piece :: rest) ++ [e] ∧
        (ofFile f).issues = reported .start (front ++ piece :: rest) ∧ ∀ q ∈ front ++ piece :: rest, q.text ≠ [] := by
  obtain ⟨cut, left, hsplit, htokens, hissues, hall⟩ := exists_read .start 0 (Piece.pieces 0 f.text.toList)
  have hstops : ∀ rest, front = cut ++ rest → left ≠ [] → (ofFile f).StopsBefore (front.flatMap Piece.text) := by
    rintro rest rfl hleft
    have heof : ⟨.eof, .here (Position.start.after (cut.flatMap Piece.text))⟩ ∈ (ofFile f).tokens :=
      htokens ▸ List.mem_append_right _ (List.mem_singleton.2 rfl)
    refine ⟨by simpa [ofFile, ofChars] using hall.resolve_left hleft, _, heof, rfl, ?_⟩
    rw [List.flatMap_append, Position.after_append]
    exact Position.le_after _ _
  rcases List.append_eq_append_iff.1 (h.symm.trans hsplit) with ⟨rest, rfl, hrest⟩ | ⟨rest, hfront, hleft⟩
  · cases rest with
    | nil =>
      obtain rfl : piece :: back = left := hrest
      exact .inl (hstops [] (by simp) (by simp))
    | cons q rest =>
      obtain ⟨rfl, -⟩ := List.cons.inj hrest
      refine .inr ⟨rest, _, htokens, hissues, fun q hq => ?_⟩
      have hmem : q ∈ Piece.pieces 0 f.text.toList := hsplit ▸ List.mem_append_left _ hq
      exact Piece.text_ne_nil hmem
  · exact .inl (hstops rest hfront (by simp [hleft]))

/-- Unless the reading stopped before it, an integer of a file is one token with the number that it is read as, and no
other issues come with it than what is wrong with it. -/
theorem read_integer (h : f.HasInteger before own radix ds) :
    (ofFile f).StopsBefore before ∨
      ((ofFile f).tokens.filter (·.span = spanBehind before own) =
          [⟨.int (integerValue radix ds), spanBehind before own⟩] ∧
        (ofFile f).issues.filter (·.span = spanBehind before own) =
          (integerFault radix ds).toList.map (·.issue (spanBehind before own))) := by
  obtain ⟨front, back, hpieces, rfl⟩ := exists_piece_of_hasInteger h
  refine (read_or_stopsBefore hpieces).imp_right ?_
  rintro ⟨rest, e, htokens, hissues, htext⟩
  constructor
  · have hmem : ⟨.int (integerValue radix ds), spanBehind (front.flatMap Piece.text) own⟩ ∈ (ofFile f).tokens := by
      rw [htokens, placed_append, spanBehind, Position.after_append]
      simp [placed]
    exact (inOrder_ofFile f).filter_span hmem
  · rw [hissues]
    exact filter_reported htext .start

end Lexed

end AnnotationChecker
