import AnnotationChecker.Proofs.Statement.Declaration
/-!
# Reading the text of a hint

A source that annotates a name with the text of a legible hint is cut into the tokens of that hint as they are read
back (`Hint.issues_annotated_iff`), and is then read as the declaration of any legible hint that has them
(`Hint.read_annotated`).
-/

namespace AnnotationChecker

/-- The source that annotates `x` with a text. -/
def annotated (name text : String) : SourceFile := ⟨name, "x: " ++ text ++ "\n"⟩

namespace Hint

open Piece (contents Delimited contents_word contents_mark)

variable {h h' : Hint}

/-- The tokens that the annotation of `x` is written with. -/
def declared (h : Hint) : List TokenKind := .identifier "x" :: .mark .colon :: (h.kinds ++ [.newline])

theorem toList_annotated (name text : String) :
    (annotated name text).text.toList = 'x' :: ':' :: ' ' :: (text.toList ++ ['\n']) := by
  simp [annotated]

theorem apart_colon (cs : List Char) : Piece.Apart (':' :: cs) := Delimited.apart (.cons (by decide))

theorem startCol_annotated (name text : String) :
    (Line.head (Lexed.ofFile (annotated name text)).tokens).span.startCol ≤ 1 := by
  have hword : Piece.word 'x' ([] ++ ':' :: ' ' :: (text.toList ++ ['\n'])) = .token (Piece.wordKind ['x']) 0 :=
    Piece.word_eq (by simp) (apart_colon _)
  have hread : (Piece.read 0 'x' (':' :: ' ' :: (text.toList ++ ['\n']))).content =
      .token (Piece.wordKind ['x']) none := by
    rw [Piece.read_of_isWordStart (by decide), ← List.nil_append (':' :: _), hword]
    rfl
  obtain ⟨t, ts, ht, hcol⟩ := Lexed.startCol_ofChars hread
  rw [Lexed.ofFile, toList_annotated, ht]
  exact Nat.le_of_eq hcol

theorem contents_annotated (hl : h.Legible) (name : String) :
    contents 0 (annotated name h.text).text.toList = (declared h).map TokenKind.readBack := by
  have hname : contents 0 ('x' :: ([] ++ ':' :: ' ' :: (h.text.toList ++ ['\n']))) =
      .token (Piece.wordKind ['x']) none :: contents 0 (':' :: ' ' :: (h.text.toList ++ ['\n'])) :=
    contents_word (by decide) (by simp) (apart_colon _)
  have hcolon : contents 0 (':' :: ' ' :: (h.text.toList ++ ['\n'])) =
      .token (.mark .colon) none :: contents 0 (' ' :: (h.text.toList ++ ['\n'])) := contents_mark rfl (by decide)
  have hword : Piece.wordKind ['x'] = .identifier "x" := by decide +kernel
  rw [List.nil_append, hword] at hname
  rw [toList_annotated, hname, hcolon, Piece.contents_space, contents_text hl (.cons (by decide)),
    Piece.contents_newline]
  simp [declared, TokenKind.readBack, TokenKind.reread]

/-- The tokens have no issue when the numbers among them are small enough. -/
theorem issues_annotated_iff (hl : h.Legible) (name : String) :
    (Lexed.ofFile (annotated name h.text)).issues = [] ↔ ∀ v, .int v ∈ h.kinds → v.toNat < Numeral.integerLimit := by
  rw [Lexed.ofFile, Lexed.issues_ofChars_eq_nil_iff, contents_annotated hl, List.forall_mem_map]
  simp only [TokenKind.isSound_readBack, declared]
  constructor
  · exact fun hall v hv => hall _ (by simp [hv]) v rfl
  · rintro hall k hk v rfl
    exact hall v (by simpa using hk)

/-- The tokens of the annotation, when they have no issue. -/
theorem kinds_annotated (hl : h.Legible) {name : String} (hi : (Lexed.ofFile (annotated name h.text)).issues = []) :
    (Lexed.ofFile (annotated name h.text)).tokens.map Token.kind = (declared h).map TokenKind.reread ++ [.eof] := by
  rw [Lexed.ofFile, Lexed.issues_ofChars_eq_nil_iff, contents_annotated hl, List.forall_mem_map] at hi
  refine Lexed.kinds_ofChars ?_
  rw [contents_annotated hl, List.map_map]
  exact List.map_congr_left fun k hk => TokenKind.readBack_of_isSound (hi k hk)

/-- The annotation is read as a hint that has the tokens which are read back. -/
theorem read_annotated (hl : h.Legible) (hl' : h'.Legible) (hk : h'.kinds = h.kinds.map TokenKind.reread)
    {name : String} (hi : (Lexed.ofFile (annotated name h.text)).issues = []) :
    (Parsed.ofFile (annotated name h.text)).IsTooDeep ∨
      (Parsed.ofFile (annotated name h.text)).issues = [] ∧
        ∃ s, (Parsed.ofFile (annotated name h.text)).statements = [s] ∧ s.kind.Declares "x" h' := by
  have hkinds := kinds_annotated hl hi
  refine Parsed.ofTokens_declaration hl' ?_ (startCol_annotated name h.text)
  rw [hkinds, hk]
  simp [declared, TokenKind.reread]

end Hint

end AnnotationChecker
