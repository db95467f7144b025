import AnnotationChecker.Proofs.Token.LineEnd
/-!
# Decimal numerals

Digits are read as an integer when the text behind them does not go on with a numeral (`Numeral.read_decimal`). So the
digits of a natural number are read as that number when it fits in 63 bits, and as a faulty zero otherwise.
-/

namespace AnnotationChecker

/-- A text that decimal digits in front of it do not run on into: it starts with no digit, no underscore, no fraction
and no exponent. -/
structure EndsDecimal (behind : List Char) : Prop where
  digit : ∀ c ∈ behind.head?, c.isDigit = false ∧ c ≠ '_'
  fraction : ∀ rest, behind = '.' :: rest → ∃ c ∈ rest.head?, c.isAlpha = true ∨ c = '_'
  exponent : ∀ e ∈ ['e', 'E'], ∀ sign ∈ [[], ['+'], ['-']], ∀ c rest, behind = e :: (sign ++ c :: rest) →
    c.isDigit = false

namespace Numeral

open Piece (Apart isWordChar contents ne_of_test)

theorem ofDigits_eq_ofDigitChars {cs : List Char} (h : ∀ c ∈ cs, c.isDigit = true) (n : Nat) :
    cs.foldl (fun n c => n * 10 + digitValue c) n = Nat.ofDigitChars 10 cs n := by
  induction cs generalizing n with
  | nil => rfl
  | cons c cs ih =>
    have hv : digitValue c = c.toNat - '0'.toNat := by simp [digitValue, h c (by simp)]
    rw [List.foldl_cons, ih fun e he => h e (List.mem_cons_of_mem _ he), Nat.ofDigitChars_cons, hv, Nat.mul_comm]

theorem isDigit_of_mem_toDigits {n : Nat} {c : Char} (h : c ∈ Nat.toDigits 10 n) : c.isDigit = true :=
  Nat.isDigit_of_mem_toDigits (by decide) (by decide) h

theorem ofDigits_toDigits (n : Nat) : ofDigits 10 (Nat.toDigits 10 n) = n := by
  unfold ofDigits
  rw [ofDigits_eq_ofDigitChars fun c hc => isDigit_of_mem_toDigits hc, Nat.ofDigitChars_ten_toDigits]

theorem digitValue_lt_of_isDigit {c : Char} (h : c.isDigit = true) : digitValue c < 10 := by
  have hle := (Char.isDigit_iff_toNat.1 h).2
  simp only [digitValue, h, if_true]
  simp at hle
  omega

theorem integer?_toDigits (n : Nat) :
    integer? 10 (Nat.toDigits 10 n) = if n < integerLimit then some (n : Int) else none := by
  have hall : (Nat.toDigits 10 n).all (fun c => digitValue c < 10) = true := by
    simpa using fun c hc => digitValue_lt_of_isDigit (isDigit_of_mem_toDigits hc)
  simp [integer?, hall, ofDigits_toDigits, Nat.toDigits_ne_nil]

theorem dropGaps_of_isDigit {cs : List Char} (h : ∀ c ∈ cs, c.isDigit = true) : dropGaps cs = cs := by
  apply List.filter_eq_self.2
  intro c hc
  have hne : c ≠ '_' := ne_of_test (h c hc) (by decide)
  simpa using hne

variable {c : Char} {cs run rest : List Char}

theorem fraction?_of_endsDecimal (h : EndsDecimal rest) : fraction? rest = none := by
  rcases rest with _ | ⟨e, es⟩
  · rfl
  · by_cases he : e = '.'
    · subst he
      obtain ⟨c, hc, hname⟩ := h.fraction es rfl
      obtain ⟨es', rfl⟩ := List.head?_eq_some_iff.1 hc
      simp [fraction?, hname]
    · simp [fraction?, he]

theorem exponentOf_eq_none {negative : Bool} {before : Nat} (h : ∀ c ∈ cs.head?, c.isDigit = false) :
    exponentOf negative before cs = none := by
  unfold exponentOf
  cases cs with
  | nil => rfl
  | cons c cs => simp [h c (by simp)]

theorem exponent?_of_endsDecimal (h : EndsDecimal rest) : exponent? rest = none := by
  rcases rest with _ | ⟨e, _ | ⟨s, es⟩⟩
  · rfl
  · simp [exponent?, exponentOf]
  · by_cases he : e = 'e' ∨ e = 'E'
    · have hend := h.exponent e (by simpa using he)
      rw [exponent?_eq he]
      split
      · next hs =>
        refine exponentOf_eq_none fun c hc => ?_
        obtain ⟨es', rfl⟩ := List.head?_eq_some_iff.1 hc
        exact hend [s] (by rcases hs with rfl | rfl <;> simp) c es' rfl
      · refine exponentOf_eq_none fun c hc => ?_
        obtain ⟨es', hes⟩ := List.head?_eq_some_iff.1 hc
        exact hend [] (by simp) c es' (by rw [hes]; rfl)
    · exact exponent?_of_ne he _

/-- A numeral of digits and underscores, which does not run on into the text behind it. -/
theorem read_decimal (hc : c.isDigit = true) (hr : ∀ e ∈ run, isDigitOrGap e = true)
    (hradix : c = '0' → run = [] → ∀ e ∈ rest.head?, radixOf? e = none) (h : EndsDecimal rest) :
    read c (run ++ rest) = ⟨(integer? 10 (dropGaps (c :: run))).map .int, run.length⟩ := by
  have hpoint : c ≠ '.' := ne_of_test hc (by decide)
  have hnone : (if c = '0' then (run ++ rest).head?.bind radixOf? else none) = none := by
    split
    · next hzero =>
      rw [Option.bind_eq_none_iff]
      intro e he
      cases run with
      | nil => exact hradix hzero rfl e he
      | cons x run =>
        obtain rfl : x = e := by simpa using he
        exact radixOf?_eq_none (.inr (hr x (by simp)))
    · rfl
  have htake : (run ++ rest).takeWhile isDigitOrGap = run := by
    refine Piece.takeWhile_append_of_apart hr fun e he => ?_
    obtain ⟨hd, hne⟩ := h.digit e he
    simpa [isDigitOrGap, hd] using hne
  have hfraction : fractionOf c (run ++ rest) = none := by
    simp only [fractionOf, htake, hpoint, if_false, List.drop_left, fraction?_of_endsDecimal h]
  have hbefore : beforeExponent c (run ++ rest) = run.length := by
    simp only [beforeExponent, htake, hpoint, if_false, List.drop_left, fraction?_of_endsDecimal h, Nat.add_zero]
  -- no radix, no fraction and no exponent: what is left is the plain integer
  unfold read
  rw [hnone]
  simp only [decimal, hfraction, hbefore, htake, hpoint, if_false, List.drop_left, exponent?_of_endsDecimal h, ofParts]

/-- A text that is apart from a word is apart from digits, unless it starts with a point. -/
theorem endsDecimal_of_apart (h : Apart rest) (hp : rest.head? ≠ some '.') : EndsDecimal rest where
  digit e he := by
    have hgap : isDigitOrGap e = false := by
      rw [← Bool.not_eq_true]
      intro hg
      have hword : isWordChar e = false := (h e he).1
      rw [isWordChar_of_isDigitOrGap hg] at hword
      cases hword
    simpa [isDigitOrGap] using hgap
  fraction := by
    rintro cs rfl
    exact absurd rfl hp
  exponent := by
    rintro e he sign hsign c cs rfl
    have hword : isWordChar e = false := (h e rfl).1
    simp only [List.mem_cons, List.not_mem_nil, or_false] at he
    rcases he with rfl | rfl <;> exact absurd hword (by decide)

/-- A numeral of digits only, when what follows cannot belong to a numeral. -/
theorem read_digits (hc : c.isDigit = true) (hr : ∀ e ∈ run, e.isDigit = true) (h : Apart rest)
    (hp : rest.head? ≠ some '.') : read c (run ++ rest) = ⟨(integer? 10 (c :: run)).map .int, run.length⟩ := by
  have hall : ∀ e ∈ c :: run, e.isDigit = true := List.forall_mem_cons.2 ⟨hc, hr⟩
  have hgap : ∀ e ∈ run, isDigitOrGap e = true := fun e he => by simp [isDigitOrGap, hr e he]
  have hradix : c = '0' → run = [] → ∀ e ∈ rest.head?, radixOf? e = none :=
    fun _ _ e he => radixOf?_eq_none (.inl (h e he).1)
  rw [read_decimal hc hgap hradix (endsDecimal_of_apart h hp), dropGaps_of_isDigit hall]

end Numeral

namespace Piece

/-- What a text with the digits of a number gives. -/
def natContent (n : Nat) : Content :=
  if n < Numeral.integerLimit then .token (.int n) none else .token (.int 0) (some .integerTooLarge)

theorem read_of_isDigit {d : Nat} {c : Char} {cs : List Char} (h : c.isDigit = true) : read d c cs = numeral c cs := by
  have hw : isWordChar c = true := Numeral.isWordChar_of_isDigitOrGap (by simp [Numeral.isDigitOrGap, h])
  rw [read_of_isWordChar hw, if_pos h]

theorem contents_nat {d n : Nat} {rest : List Char} (h : Apart rest) (hp : rest.head? ≠ some '.') :
    contents d ((toString n).toList ++ rest) = natContent n :: contents d rest := by
  have hall : ∀ c ∈ Nat.toDigits 10 n, c.isDigit = true := fun c hc => Numeral.isDigit_of_mem_toDigits hc
  have hint := Numeral.integer?_toDigits n
  rw [Nat.toString_eq_repr, Nat.toList_repr]
  cases hds : Nat.toDigits 10 n with
  | nil => exact absurd hds Nat.toDigits_ne_nil
  | cons c run =>
    rw [hds] at hall hint
    have hread := Numeral.read_digits (hall c (by simp)) (fun e he => hall e (List.mem_cons_of_mem _ he)) h hp
    have hr : read d c (run ++ rest) = numeral c (run ++ rest) := read_of_isDigit (hall c (by simp))
    unfold numeral at hr
    rw [hread, hint] at hr
    unfold natContent
    split
    · next hn =>
      rw [if_pos hn] at hr
      exact contents_token hr
    · next hn =>
      rw [if_neg hn] at hr
      exact contents_token hr

end Piece

end AnnotationChecker
