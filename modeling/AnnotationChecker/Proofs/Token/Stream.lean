import AnnotationChecker.Proofs.Token.Kinds
import AnnotationChecker.Proofs.Token.Places
/-!
# What readers of tokens may rely on

Whatever is in a text, and wherever the reading stops with too many issues, its tokens end where the parser expects them
to (`Lexed.orderly_ofFile`): with the only end of the file, behind each comment with the end of its line, and never a
line inside of brackets.
-/

namespace AnnotationChecker

/-! ## Orderly tokens -/

/-- The brackets that open. -/
def Mark.opens : Mark → Bool
  | .leftParen | .leftBracket | .leftBrace => true
  | _ => false

/-- The brackets that close. -/
def Mark.closes : Mark → Bool
  | .rightParen | .rightBracket | .rightBrace => true
  | _ => false

/-- The number of open brackets behind one more token. There are never fewer than none. -/
def TokenKind.bracketStep (depth : Nat) : TokenKind → Nat
  | .mark m => if m.opens then depth + 1 else if m.closes then depth - 1 else depth
  | _ => depth

/-- The number of brackets that tokens leave open. -/
def bracketDepth (ts : List Token) : Nat := ts.foldl (fun depth t => t.kind.bracketStep depth) 0

/-- What is assumed of tokens where they are read: the last one, and no other, is the end of the file; behind a comment
comes the end of its line; at line ends and comments no bracket is open; and names are not reserved. -/
structure Orderly (ts : List Token) : Prop where
  ends : ∃ front last, ts = front ++ [last] ∧ last.kind = .eof ∧ ∀ t ∈ front, t.kind ≠ .eof
  comment : ∀ front t back body, ts = front ++ t :: back → t.kind = .comment body →
    ∃ next rest, back = next :: rest ∧ (next.kind = .newline ∨ next.kind = .eof)
  balanced : ∀ front t back, ts = front ++ t :: back → (t.kind = .newline ∨ ∃ body, t.kind = .comment body) →
    bracketDepth front = 0
  free : ∀ t ∈ ts, ∀ n, t.kind = .identifier n → ∀ w : Keyword, n ≠ w.text

/-! ## Pieces -/

theorem TokenKind.bracketStep_eq (depth : Nat) (k : TokenKind) :
    k.bracketStep depth = Piece.openAfter depth (.token k none) := by
  cases k with
  | mark m => cases m <;> rfl
  | _ => rfl

theorem bracketDepth_eq (ts : List Token) : bracketDepth ts = Token.openBehind 0 ts := by
  simp only [bracketDepth, Token.openBehind, TokenKind.bracketStep_eq]

/-- A token that may be read under a number of open brackets: the ends of lines and comments are outside of them, and
the end of the file is not read. -/
def Content.Fits (depth : Nat) : Content → Prop
  | .token .newline _ | .token (.comment _) _ => depth = 0
  | .token .eof _ => False
  | _ => True

namespace Piece

variable {depth : Nat} {c : Char} {cs : List Char} {body : String} {fault : Option TokenFault}

theorem fits_read : (read depth c cs).content.Fits depth := by
  have hshape := hasShape_read depth c cs
  generalize read depth c cs = r at hshape
  cases hshape with
  | newline hd => exact hd
  | comment hd => exact hd
  | literal f before b =>
    obtain ⟨family, raw⟩ := f
    cases family <;> trivial
  | word hc =>
    show Content.Fits depth (.token (wordKind (c :: cs.takeWhile isWordChar)) none)
    unfold wordKind
    split <;> trivial
  | _ => trivial

theorem drop_toLineEnd (cs : List Char) :
    cs.drop (cs.takeWhile (· != '\n')).length = [] ∨
      ∃ rest, cs.drop (cs.takeWhile (· != '\n')).length = '\n' :: rest := by
  induction cs with
  | nil => exact .inl rfl
  | cons c cs ih =>
    by_cases hc : c = '\n'
    · exact .inr ⟨cs, by simp [hc]⟩
    · simpa [hc] using ih

/-- A comment takes all of its line. -/
theorem drop_comment (h : (read depth c cs).content = .token (.comment body) fault) :
    cs.drop (read depth c cs).more = [] ∨ ∃ rest, cs.drop (read depth c cs).more = '\n' :: rest := by
  have hshape := hasShape_read depth c cs
  generalize read depth c cs = r at h hshape
  cases hshape with
  | comment hd => exact drop_toLineEnd cs
  | literal f before b =>
    obtain ⟨family, raw⟩ := f
    cases family <;> cases h
  | word hc =>
    simp only [Reading.token, wordKind] at h
    split at h <;> cases h
  | _ => cases h

theorem openBehind_concat (depth : Nat) (ps : List Piece) (p : Piece) :
    openBehind depth (ps ++ [p]) = openAfter (openBehind depth ps) p.content := by
  simp [openBehind]

variable {front back : List Piece} {p : Piece}

/-- A piece fits the brackets that the pieces before it leave open. -/
theorem fits_of_pieces (h : pieces depth cs = front ++ p :: back) : p.content.Fits (openBehind depth front) := by
  obtain ⟨c, ds, -, rfl, -⟩ := pieces_split h
  exact fits_read

/-- What stands behind a comment is the end of its line, if anything does. -/
theorem behind_comment (h : pieces depth cs = front ++ p :: back) (hp : p.content = .token (.comment body) fault) :
    back = [] ∨ ∃ rest, back = ⟨.token .newline none, ['\n']⟩ :: rest := by
  have hzero : openBehind depth front = 0 := by
    have hfits := fits_of_pieces h
    rwa [hp] at hfits
  obtain ⟨c, ds, -, rfl, rfl⟩ := pieces_split h
  rw [openBehind_concat, hp, hzero]
  rw [hzero] at hp
  rcases drop_comment hp with hrest | ⟨rest, hrest⟩
  · exact .inl (by rw [hrest]; rfl)
  · exact .inr ⟨_, by rw [hrest]; exact pieces_cons 0 '\n' rest⟩

end Piece

/-! ## Files -/

namespace Lexed

variable {f : SourceFile} {front back : List Token} {t : Token}

/-- A token that is not the end of the file is that of a piece, and the tokens before and behind it are those of the
pieces before and behind that one, up to the last one that was read. -/
theorem exists_piece (h : (ofFile f).tokens = front ++ t :: back) (ht : t.kind ≠ .eof) :
    ∃ qs own fault rs rest p e, Piece.pieces 0 f.text.toList = qs ++ ⟨.token t.kind fault, own⟩ :: (rs ++ rest) ∧
      front = placed .start qs ∧ back = placed p rs ++ [⟨.eof, e⟩] := by
  obtain ⟨read, left, hpieces, htokens, -, -⟩ := exists_read .start 0 (Piece.pieces 0 f.text.toList)
  have hsplit := htokens.symm.trans h
  rcases List.append_eq_append_iff.1 hsplit with ⟨ts, hfront, hback⟩ | ⟨ts, hplaced, hback⟩
  · cases ts with
    | nil =>
      obtain ⟨rfl, -⟩ := List.cons.inj hback
      exact absurd rfl ht
    | cons u us => simp at hback
  · cases ts with
    | nil =>
      obtain ⟨rfl, -⟩ := List.cons.inj hback
      exact absurd rfl ht
    | cons u us =>
      obtain ⟨rfl, rfl⟩ := List.cons.inj hback
      obtain ⟨qs, own, fault, rs, rfl, rfl, -, rfl⟩ := placed_split hplaced
      exact ⟨qs, own, fault, rs, left, _, _, by rw [hpieces]; simp, rfl, rfl⟩

/-- **Tokens are what the parser assumes.** Whatever is in a file, and whatever is wrong with it, its tokens end with the
only end of the file, comments are followed by the end of their line, no bracket is open at the end of a line or at a
comment, and no name is a reserved word. -/
theorem orderly_ofFile (f : SourceFile) : Orderly (ofFile f).tokens where
  ends := by
    obtain ⟨read, left, hpieces, htokens, -, -⟩ := exists_read .start 0 (Piece.pieces 0 f.text.toList)
    refine ⟨placed .start read, _, htokens, rfl, fun t ht heof => ?_⟩
    obtain ⟨qs, own, fault, rs, rfl, -⟩ := mem_placed ht
    rw [List.append_assoc, List.cons_append, heof] at hpieces
    exact Piece.fits_of_pieces hpieces
  comment := by
    intro front t back body h ht
    obtain ⟨qs, own, fault, rs, rest, p, e, hpieces, -, rfl⟩ := exists_piece h (by simp [ht])
    rcases Piece.behind_comment hpieces (by rw [ht]) with hnil | ⟨_, hline⟩
    · obtain ⟨rfl, -⟩ := List.append_eq_nil_iff.1 hnil
      exact ⟨_, [], rfl, .inr rfl⟩
    · cases rs with
      | nil => exact ⟨_, [], rfl, .inr rfl⟩
      | cons piece rs =>
        obtain ⟨rfl, -⟩ := List.cons.inj hline
        exact ⟨_, _, rfl, .inl rfl⟩
  balanced := by
    intro front t back h ht
    obtain ⟨qs, own, fault, rs, rest, p, e, hpieces, rfl, -⟩ := exists_piece h (by rintro heof; simp [heof] at ht)
    have hfits := Piece.fits_of_pieces hpieces
    rw [bracketDepth_eq, openBehind_placed]
    rcases ht with ht | ⟨body, ht⟩ <;> rwa [ht] at hfits
  free := by
    intro t ht n hn w hw
    have hlexed := isLexed_of_mem_tokens ht
    rw [hn, hw] at hlexed
    obtain ⟨-, -, hfree⟩ := isWord_iff.1 hlexed
    rw [String.ofList_toList, Keyword.ofText?_text] at hfree
    cases hfree

end Lexed

end AnnotationChecker
