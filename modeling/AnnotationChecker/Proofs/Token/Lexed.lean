import AnnotationChecker.Proofs.Token.Contents
import AnnotationChecker.Token.Lexer
/-!
# Texts without issues

A text has no issue with its tokens when it holds no stray character and no faulty token. Its tokens are then
what it holds, and the end of the file.
-/

namespace AnnotationChecker

/-- A token without a fault. -/
def Content.IsSound (c : Content) : Prop := ∃ k, c = .token k none

namespace Lexed

open Piece (contents)

theorem issues_eq_nil_iff {p : Position} {ps : List Piece} :
    (ofPieces p 0 ps).issues = [] ↔ ∀ c ∈ (ps.map Piece.content).filter (· ≠ .blank), c.IsSound := by
  induction ps generalizing p with
  | nil => simp [ofPieces, ending]
  | cons piece ps ih =>
    obtain ⟨content, text⟩ := piece
    cases content with
    | blank => simp [ofPieces, ih]
    | stray c => simp [ofPieces, after, Content.IsSound]
    | token k fault =>
      cases fault with
      | none => simp [ofPieces, after, maxDiagnostics, Content.IsSound, ih]
      | some f =>
        -- a faulty token adds an issue, or it ends the reading with one when the limit is reached
        have hs : ¬ (Content.token k (some f)).IsSound := by simp [Content.IsSound]
        simp only [ofPieces, List.map_cons]
        refine iff_of_false ?_ fun h => hs (h _ (by simp))
        split <;> simp [after]

theorem kinds_ofPieces {p : Position} {ps : List Piece} {ks : List TokenKind}
    (h : (ps.map Piece.content).filter (· ≠ .blank) = ks.map (.token · none)) :
    (ofPieces p 0 ps).tokens.map Token.kind = ks ++ [.eof] := by
  induction ps generalizing p ks with
  | nil =>
    have hk : ks = [] := by simpa using h.symm
    simp [hk, ofPieces, ending]
  | cons piece ps ih =>
    obtain ⟨content, text⟩ := piece
    cases content with
    | blank => exact ih (by simpa using h)
    | stray c =>
      cases ks with
      | nil => simp at h
      | cons k ks => simp at h
    | token k fault =>
      cases ks with
      | nil => simp at h
      | cons k' ks =>
        simp only [List.map_cons, ne_eq, reduceCtorEq, not_false_eq_true, decide_true, List.filter_cons_of_pos,
          List.cons.injEq, Content.token.injEq] at h
        obtain ⟨⟨rfl, rfl⟩, h⟩ := h
        simp [ofPieces, after, maxDiagnostics, ih h]

theorem issues_ofChars_eq_nil_iff {cs : List Char} :
    (ofChars cs).issues = [] ↔ ∀ c ∈ contents 0 cs, c.IsSound :=
  issues_eq_nil_iff

theorem kinds_ofChars {cs : List Char} {ks : List TokenKind} (h : contents 0 cs = ks.map (.token · none)) :
    (ofChars cs).tokens.map Token.kind = ks ++ [.eof] :=
  kinds_ofPieces h

/-- A token at the start of a text stands in the first column. -/
theorem startCol_ofChars {c : Char} {cs : List Char} {k : TokenKind} {f : Option TokenFault}
    (h : (Piece.read 0 c cs).content = .token k f) :
    ∃ t ts, (ofChars (c :: cs)).tokens = t :: ts ∧ t.span.startCol = 1 := by
  unfold ofChars
  rw [Piece.pieces_cons, ofPieces]
  simp only [h]
  split <;> exact ⟨_, _, rfl, rfl⟩

end Lexed

end AnnotationChecker
