import AnnotationChecker.Proofs.Hint.Tokens
import AnnotationChecker.Proofs.Token.Append
/-!
# What the tokens of a text can be

Not every name and not every number is a token of some text: a name is a word that is not reserved, and a number has
no sign and 63 bits (`Lexed.isLexed_of_mem_tokens`).
-/

namespace AnnotationChecker

/-- What a name and a number are when they were read from a text. -/
def TokenKind.IsLexed : TokenKind → Prop
  | .identifier n => IsWord n.toList
  | .int v => 0 ≤ v ∧ v < Numeral.integerLimit
  | _ => True

/-! ## Numerals -/

namespace Numeral

variable {c : Char} {cs : List Char} {k : TokenKind}

/-- The integer that digits stand for is within the limit. -/
theorem integer?_bounds {radix : Nat} {v : Int} (h : integer? radix cs = some v) : 0 ≤ v ∧ v < integerLimit := by
  unfold integer? at h
  split at h
  · next hlimit =>
    cases h
    simp only [Bool.and_eq_true, decide_eq_true_eq] at hlimit
    exact ⟨Int.natCast_nonneg _, Int.ofNat_lt.2 hlimit.2⟩
  · cases h

/-- A numeral with a value is an integer within the limit, or a decimal. -/
theorem kind_read (h : (read c cs).kind = some k) :
    (∃ v : Int, k = .int v ∧ 0 ≤ v ∧ v < integerLimit) ∨ ∃ x, k = .float x := by
  have hinteger : ∀ {radix ds}, (integer? radix ds).map TokenKind.int = some k →
      ∃ v : Int, k = .int v ∧ 0 ≤ v ∧ v < integerLimit := by
    intro radix ds h
    obtain ⟨v, hv, rfl⟩ := Option.map_eq_some_iff.1 h
    exact ⟨v, rfl, integer?_bounds hv⟩
  unfold read at h
  split at h
  · exact .inl (hinteger h)
  · rw [decimal] at h
    unfold ofParts at h
    split at h
    · exact .inl (hinteger h)
    · cases h
      exact .inr ⟨_, rfl⟩

end Numeral

/-! ## Pieces -/

namespace Piece

/-- The shapes of what is read from a first character and the text behind it, under a number of open brackets. -/
inductive HasShape (depth : Nat) (c : Char) (cs : List Char) : Reading → Prop
  | blank (more : Nat) : HasShape depth c cs ⟨.blank, more⟩
  | stray (e : Char) : HasShape depth c cs ⟨.stray e, 0⟩
  | newline : depth = 0 → HasShape depth c cs (.token .newline 0)
  | comment : depth = 0 → HasShape depth c cs
      (.token (.comment (String.ofList (trimReturns (cs.takeWhile (· != '\n'))))) (cs.takeWhile (· != '\n')).length)
  | literal (f : StringBody.Flavor) (before : Nat) (b : StringBody.Body) : HasShape depth c cs (literal f before b)
  | integer {v : Int} (fault : Option TokenFault) (more : Nat) : 0 ≤ v → v < Numeral.integerLimit →
      HasShape depth c cs ⟨.token (.int v) fault, more⟩
  | float (x : Binary64) (more : Nat) : HasShape depth c cs (.token (.float x) more)
  | word : isWordStart c = true →
      HasShape depth c cs (.token (wordKind (c :: cs.takeWhile isWordChar)) (cs.takeWhile isWordChar).length)
  | mark (m : Mark) (more : Nat) : HasShape depth c cs (.token (.mark m) more)
  | operator (e : Char) (more : Nat) : HasShape depth c cs (.token (.operator e) more)

variable {depth : Nat} {c : Char} {cs : List Char}

theorem HasShape.ite {p : Prop} [Decidable p] {r r' : Reading} (h : p → HasShape depth c cs r)
    (h' : ¬ p → HasShape depth c cs r') : HasShape depth c cs (if p then r else r') := by
  split
  · next hp => exact h hp
  · next hp => exact h' hp

theorem hasShape_backslash : HasShape depth c cs (backslash cs) := by
  unfold backslash
  split
  · exact .blank 1
  · exact .blank 2
  · exact .stray _

theorem hasShape_lineEnd : HasShape depth c cs ⟨lineEnd depth, 0⟩ := by
  unfold lineEnd
  split
  · exact .blank 0
  · next hd => exact .newline (Nat.eq_zero_of_not_pos hd)

theorem hasShape_comment : HasShape depth c cs (comment depth cs) := by
  unfold comment commentContent
  dsimp only
  split
  · exact .blank _
  · next hd => exact .comment (Nat.eq_zero_of_not_pos hd)

theorem hasShape_numeral : HasShape depth c cs (numeral c cs) := by
  unfold numeral
  dsimp only
  split
  · next hk =>
    rcases Numeral.kind_read hk with ⟨v, rfl, hpos, hlt⟩ | ⟨x, rfl⟩
    · exact .integer none _ hpos hlt
    · exact .float x _
  · exact .integer _ _ (Int.le_refl 0) (by decide)

theorem hasShape_word (hc : isWordStart c = true) : HasShape depth c cs (word c cs) := by
  rcases word_cases c cs with ⟨q, rest, f, -, hword⟩ | hword
  · rw [hword]
    exact .literal f _ _
  · rw [hword]
    exact .word hc

/-- Whatever is read has one of the shapes. -/
theorem hasShape_read (depth : Nat) (c : Char) (cs : List Char) : HasShape depth c cs (read depth c cs) := by
  unfold read
  refine .ite (fun _ => .blank 0) fun _ => ?_
  refine .ite (fun _ => hasShape_backslash) fun _ => ?_
  refine .ite (fun _ => hasShape_lineEnd) fun _ => ?_
  refine .ite (fun _ => hasShape_comment) fun _ => ?_
  refine .ite (fun _ => .literal _ _ _) fun _ => ?_
  refine .ite (fun _ => hasShape_numeral) fun _ => ?_
  refine .ite (fun hc => hasShape_word hc) fun _ => ?_
  refine .ite (fun _ => .ite (fun _ => .operator _ _) fun _ => .mark _ _) fun _ => ?_
  refine .ite (fun _ => .ite (fun _ => .mark _ _) fun _ => .mark _ _) fun _ => ?_
  split
  · exact .mark _ _
  · exact .ite (fun _ => .operator _ _) fun _ => .stray _

end Piece

/-- A token, if it is one, that was read from a text. -/
def Content.IsLexed : Content → Prop
  | .token k _ => k.IsLexed
  | _ => True

namespace Piece

variable {depth : Nat} {c : Char} {cs run : List Char}

theorem isLexed_literal (f : StringBody.Flavor) (before : Nat) (b : StringBody.Body) :
    (literal f before b).content.IsLexed := by
  obtain ⟨family, raw⟩ := f
  cases family <;> trivial

/-- A name or a number that is read is one of a text. -/
theorem isLexed_read : (read depth c cs).content.IsLexed := by
  have hshape := hasShape_read depth c cs
  generalize read depth c cs = r at hshape
  cases hshape with
  | literal f before b => exact isLexed_literal f before b
  | integer fault more hpos hlt => exact ⟨hpos, hlt⟩
  | word hc =>
    show (wordKind (c :: cs.takeWhile isWordChar)).IsLexed
    unfold wordKind
    split
    · trivial
    · next hfree =>
      rw [TokenKind.IsLexed, String.toList_ofList]
      exact .mk hc (List.all_eq_true.1 List.all_takeWhile) hfree
  | _ => trivial

theorem isLexed_of_mem_pieces {p : Piece} (h : p ∈ pieces depth cs) : p.content.IsLexed := by
  have hall : ∀ skip depth cs, ∀ p ∈ piecesAfter skip depth cs, p.content.IsLexed := by
    intro skip depth cs
    fun_induction piecesAfter skip depth cs with
    | case1 => simp
    | case2 _ _ _ _ ih => exact ih
    | case3 depth c cs r ih => exact List.forall_mem_cons.2 ⟨isLexed_read, ih⟩
  exact hall 0 depth cs p h

end Piece

/-! ## Texts -/

namespace Lexed

theorem isLexed_of_mem_ofPieces {ps : List Piece} (h : ∀ p ∈ ps, p.content.IsLexed) {p : Position} {found : Nat}
    {t : Token} (ht : t ∈ (ofPieces p found ps).tokens) : t.kind.IsLexed := by
  have hending : ∀ q, t ∈ (ending q).tokens → t.kind.IsLexed := by
    intro q hq
    rw [List.mem_singleton.1 hq]
    trivial
  induction ps generalizing p found with
  | nil => exact hending p ht
  | cons piece ps ih =>
    obtain ⟨content, text⟩ := piece
    rw [List.forall_mem_cons] at h
    cases content with
    | blank => exact ih h.2 ht
    | stray c => exact ih h.2 ht
    | token k fault =>
      rw [ofPieces_token] at ht
      rcases List.mem_append.1 ht with ht | ht
      · rw [List.mem_singleton.1 ht]
        exact h.1
      · split at ht
        · exact hending _ ht
        · exact ih h.2 ht

/-- The names and the numbers among the tokens of a file. -/
theorem isLexed_of_mem_tokens {f : SourceFile} {t : Token} (h : t ∈ (ofFile f).tokens) : t.kind.IsLexed :=
  isLexed_of_mem_ofPieces (fun _ hp => Piece.isLexed_of_mem_pieces hp) h

theorem hasEof_ofPieces (p : Position) (found : Nat) (ps : List Piece) :
    ∃ t ∈ (ofPieces p found ps).tokens, t.kind = .eof := by
  have hending : ∀ q, ∃ t ∈ (ending q).tokens, t.kind = .eof := fun q => ⟨_, List.mem_singleton.2 rfl, rfl⟩
  have hafter : ∀ {l : Lexed} ts is, (∃ t ∈ l.tokens, t.kind = .eof) → ∃ t ∈ (l.after ts is).tokens, t.kind = .eof := by
    rintro l ts is ⟨t, ht, hk⟩
    exact ⟨t, List.mem_append_right _ ht, hk⟩
  induction ps generalizing p found with
  | nil => exact hending p
  | cons piece ps ih =>
    obtain ⟨content, text⟩ := piece
    cases content with
    | blank => exact ih _ _
    | stray c => exact hafter _ _ (ih _ _)
    | token k fault =>
      rw [ofPieces_token]
      refine hafter _ _ ?_
      split
      · exact hending _
      · exact ih _ _

end Lexed

end AnnotationChecker
