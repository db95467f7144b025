import AnnotationChecker.Proofs.Statement.RoundTrip
import AnnotationChecker.Proofs.Token.Integer
/-!
# Integers from a text to its statements

An integer of a file is read as the number that its digits stand for (`Lexed.read_integer`), so no token of a file has
a number with more than 63 bits, and none has a sign. The parser gets negative numbers by changing the sign of such a
number, which is never the smallest one of 64 bits. So all numbers in the statements of a file are within the same
bounds (`SourceFile.integers_exact`).
-/

namespace AnnotationChecker

/-! ## Expressions -/

namespace Expr

mutual

/-- The integers in an expression, from the left. -/
def integers : Expr → List Int
  | .int _ v => [v]
  | .list _ items => integersList items
  | .call _ _ args => integersList args
  | _ => []

/-- The integers in the expressions of a list. -/
def integersList : List Expr → List Int
  | [] => []
  | e :: es => integers e ++ integersList es

end

theorem mem_integersList {v : Int} {es : List Expr} : v ∈ integersList es ↔ ∃ e ∈ es, v ∈ e.integers := by
  induction es with
  | nil => simp [integersList]
  | cons e es ih => simp [integersList, ih]

theorem integers_withSpan (e : Expr) (s : Span) : (e.withSpan s).integers = e.integers := by
  cases e <;> rfl

variable {ts : List Token} {n : Nat} {e : Expr} {make : Span → Expr}

/-- The numbers of an expression have 63 bits without their signs when those of the expressions inside of it do. -/
theorem Form.natAbs_lt (hf : Form ts n make) (lexed : ∀ t ∈ ts, t.kind.IsLexed)
    (hinside : ∀ us m e, us <:+: ts → m ≤ n → Derives us m e → ∀ v ∈ e.integers, v.natAbs < Numeral.integerLimit)
    (s : Span) : ∀ v ∈ (make s).integers, v.natAbs < Numeral.integerLimit := by
  have hitems : ∀ {us es}, us <:+: ts → Separated Derives us n es →
      ∀ v ∈ integersList es, v.natAbs < Numeral.integerLimit := by
    intro us es hus hes v hv
    obtain ⟨e, he, hv⟩ := mem_integersList.1 hv
    obtain ⟨vs, m, hvs, hm, hd⟩ := hes.exists_of_mem he
    exact hinside vs m e (hvs.trans hus) hm hd v hv
  cases hf with
  | single hs =>
    cases hs with
    | int =>
      obtain ⟨hpos, hlt⟩ := lexed _ (List.mem_singleton.2 rfl)
      intro v hv
      rw [List.mem_singleton.1 hv]
      omega
    | _ => exact nofun
  | negative hnum =>
    cases hnum with
    | int =>
      obtain ⟨hpos, hlt⟩ := lexed _ (List.mem_cons_of_mem _ (List.mem_singleton.2 rfl))
      intro v hv
      rw [List.mem_singleton.1 hv]
      omega
    | float => exact nofun
  | str | name => exact nofun
  | list hes => exact hitems (infix_enclosed _ _ _) hes
  | call hargs => exact hitems ((List.prefix_append _ _).isInfix.trans (infix_behind _ _ _)) hargs
  | paren hd =>
    rw [integers_withSpan]
    exact hinside _ _ _ (infix_enclosed _ _ _) (Nat.le_refl _) hd

/-- The numbers of an expression that tokens of a text derive have 63 bits without their signs. -/
theorem Derives.natAbs_lt (hd : Derives ts n e) (lexed : ∀ t ∈ ts, t.kind.IsLexed) :
    ∀ v ∈ e.integers, v.natAbs < Numeral.integerLimit := by
  induction n using Nat.strongRecOn generalizing ts e with
  | _ n ih =>
    obtain ⟨hf⟩ := hd
    exact hf.natAbs_lt lexed (fun us m e hus hm hd => ih m (by omega) hd fun t ht => lexed t (hus.subset ht)) _

end Expr

/-! ## Files -/

/-- A number with 63 bits and its negative are exact in 64 bits with a sign. -/
theorem toInt_neg_ofInt {v : Int} (hpos : 0 ≤ v) (hlt : v < 2 ^ 63) :
    (Int64.ofInt v).toInt = v ∧ (-(Int64.ofInt v)).toInt = -v := by
  constructor
  · exact Int64.toInt_ofInt_of_le (by omega) hlt
  · rw [← Int64.ofInt_neg, Int64.toInt_ofInt_of_le (by omega) (by omega)]

namespace SourceFile

open Lexed (ofFile)

variable {f : SourceFile}

theorem natAbs_lt_of_mem_exprs {s : Statement} (hs : s ∈ (Parsed.ofFile f).statements) {e : Expr}
    (he : e ∈ s.kind.exprs) : ∀ v ∈ e.integers, v.natAbs < Numeral.integerLimit := by
  have heof : HasEof (ofFile f).tokens := Lexed.hasEof_ofPieces _ _ _
  obtain ⟨us, n, hus, -, hd⟩ := (Parsed.derived_ofLines heof s hs).exprs e he
  exact hd.natAbs_lt fun t ht => Lexed.isLexed_of_mem_tokens (hus.subset ht)

/-- **Integers are exact, and their signs can be changed.** Unless the reading stopped before it, an integer of a file
is one token with the number that its digits stand for and no issue, when it has a digit, all its digits are ones of its
radix and the number has 63 bits; otherwise the token is a zero, and the only issue is that the number is too large.
So the number of a token is never negative, and neither it nor its negative overflows 64 bits. No number in an
expression or a hint of the file has more than 63 bits without its sign. -/
theorem integers_exact (f : SourceFile) :
    (∀ before own radix ds, f.HasInteger before own radix ds → (ofFile f).StopsBefore before ∨
      (Fits radix ds →
        (ofFile f).tokens.filter (·.span = spanBehind before own) =
            [⟨.int (valueOf radix ds), spanBehind before own⟩] ∧
          (ofFile f).issues.filter (·.span = spanBehind before own) = []) ∧
      (¬ Fits radix ds →
        (ofFile f).tokens.filter (·.span = spanBehind before own) = [⟨.int 0, spanBehind before own⟩] ∧
          ∃ i, (ofFile f).issues.filter (·.span = spanBehind before own) = [i] ∧ i.code.text = "E100")) ∧
    (∀ t ∈ (ofFile f).tokens, ∀ v, t.kind = .int v → 0 ≤ v ∧ v ≤ 2 ^ 63 - 1 ∧
      (Int64.ofInt v).toInt = v ∧ (-(Int64.ofInt v)).toInt = -v) ∧
    ∀ s ∈ (Parsed.ofFile f).statements,
      (∀ e ∈ s.kind.exprs, ∀ v ∈ e.integers, v.natAbs ≤ 2 ^ 63 - 1) ∧
        ∀ h ∈ s.kind.hints, ∀ v, .int v ∈ h.consts → v.natAbs ≤ 2 ^ 63 - 1 := by
  have hlimit : Numeral.integerLimit = 2 ^ 63 := rfl
  refine ⟨?_, ?_, ?_⟩
  · intro before own radix ds hinteger
    refine (Lexed.read_integer hinteger).imp_right ?_
    rintro ⟨htokens, hissues⟩
    rw [htokens, hissues, integerValue, integerFault]
    constructor
    · intro hfits
      rw [if_pos hfits, if_pos hfits]
      exact ⟨rfl, rfl⟩
    · intro hfits
      have hcode : ErrorCode.unexpectedToken.text = "E100" := by decide
      rw [if_neg hfits, if_neg hfits]
      exact ⟨rfl, _, rfl, hcode⟩
  · intro t ht v hv
    have hlexed := Lexed.isLexed_of_mem_tokens ht
    rw [hv] at hlexed
    obtain ⟨hpos, hlt⟩ := hlexed
    rw [hlimit] at hlt
    exact ⟨hpos, by omega, toInt_neg_ofInt hpos hlt⟩
  · intro s hs
    constructor
    · intro e he v hv
      have hlt := natAbs_lt_of_mem_exprs hs he v hv
      omega
    · intro h hh v hv
      have hlt := (Hint.written_of_mem_hints (List.mem_flatMap.2 ⟨s, hs, hh⟩)).isSized_of_mem hv v rfl
      omega

/-- Two integers in one radix, the second one with a digit that the radix does not have. -/
def twoIntegers : SourceFile := ⟨"a.py", "x = [0B1_01, 0b2]"⟩

theorem integers_exact_sample :
    (ofFile twoIntegers).tokens.filter (·.span = ⟨1, 6, 1, 11⟩) = [⟨.int 5, ⟨1, 6, 1, 11⟩⟩] ∧
      (ofFile twoIntegers).tokens.filter (·.span = ⟨1, 14, 1, 16⟩) = [⟨.int 0, ⟨1, 14, 1, 16⟩⟩] ∧
      ∃ i, (ofFile twoIntegers).issues.filter (·.span = ⟨1, 14, 1, 16⟩) = [i] ∧ i.code.text = "E100" := by
  have hstops : ∀ before, ¬ (ofFile twoIntegers).StopsBefore before := fun before h => absurd h.1 (by decide +kernel)
  have hend : ∀ e, Numeral.isHexDigit e = false → ∀ d, ¬ IsDigitOf d e := by
    intro e he d hd
    rw [Numeral.isHexDigit_iff.2 ⟨d, hd⟩] at he
    cases he
  have hfirst : twoIntegers.HasInteger "x = [".toList "0B1_01".toList 2 [1, 0, 1] :=
    .intro ((Piece.pieces 0 twoIntegers.text.toList).take 5) ⟨.token (.int 5) none, "0B1_01".toList⟩
      ((Piece.pieces 0 twoIntegers.text.toList).drop 6) ", 0b2]".toList
      (by decide +kernel) (by decide +kernel) (by decide +kernel)
      (.marked (by decide) (by decide) (by rintro _ ⟨⟩; exact ⟨by decide, hend _ (by decide)⟩))
  have hsecond : twoIntegers.HasInteger "x = [0B1_01, ".toList "0b2".toList 2 [2] :=
    .intro ((Piece.pieces 0 twoIntegers.text.toList).take 8)
      ⟨.token (.int 0) (some .integerTooLarge), "0b2".toList⟩
      ((Piece.pieces 0 twoIntegers.text.toList).drop 9) "]".toList
      (by decide +kernel) (by decide +kernel) (by decide +kernel)
      (.marked (by decide) (by decide) (by rintro _ ⟨⟩; exact ⟨by decide, hend _ (by decide)⟩))
  obtain ⟨hexact, -⟩ := ((integers_exact twoIntegers).1 _ _ _ _ hfirst).resolve_left (hstops _)
  obtain ⟨-, hfaulty⟩ := ((integers_exact twoIntegers).1 _ _ _ _ hsecond).resolve_left (hstops _)
  exact ⟨(hexact (by decide)).1, (hfaulty (by decide)).1, (hfaulty (by decide)).2⟩

end SourceFile

end AnnotationChecker
