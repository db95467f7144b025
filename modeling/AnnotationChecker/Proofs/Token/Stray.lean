import AnnotationChecker.Proofs.Token.Blanked
import AnnotationChecker.Proofs.Token.Kinds
import AnnotationChecker.Proofs.Token.Places
/-!
# Stray characters are blanks

A character that starts no token is reported and passed over. With a blank in its place a text is cut into the same
pieces, but for that one (`Piece.pieces_cleared`): whatever stands in front of it ends there either way, and what stands
behind it is read in the same way. So a text in which blanks stand for the stray characters has the same tokens in the
same places, and the same issues but for those about stray characters (`Lexed.ofFile_withoutStrays`).
-/

namespace AnnotationChecker

/-! ## Stray characters -/

namespace Piece

variable {depth : Nat} {c e : Char} {cs : List Char} {p : Piece}

theorem not_stray_numeral : (numeral c cs).content ≠ .stray e := by
  unfold numeral
  dsimp only
  split <;> exact Content.noConfusion

theorem not_stray_word : (word c cs).content ≠ .stray e := by
  rcases word_cases c cs with ⟨q, rest, f, -, hword⟩ | hword <;> rw [hword] <;> exact Content.noConfusion

/-- A stray character ends whatever runs up to it. -/
theorem inert_of_stray (h : (read depth c cs).content = .stray e) : IsInert c ∧ ¬ IsBreak c := by
  have hword : isWordChar c = false := by
    rw [← Bool.not_eq_true]
    intro hc
    rw [read_of_isWordChar hc] at h
    split at h
    · exact not_stray_numeral h
    · exact not_stray_word h
  have hne : c ∉ ['\x22', '\x27', '.', '+', '-', '=', '>', '\n', '\r'] := by
    intro hc
    simp only [List.mem_cons, List.not_mem_nil, or_false] at hc
    rcases hc with rfl | rfl | rfl | rfl | rfl | rfl | rfl | rfl | rfl
    · rw [read_of_quote (.inl rfl)] at h
      cases h
    · rw [read_of_quote (.inr rfl)] at h
      cases h
    · by_cases hd : cs.head?.any Char.isDigit = true
      · simp [read, hd, not_stray_numeral] at h
      · simp [read, hd, isWordStart, mark?, Reading.token] at h
    · cases h
    · by_cases ha : cs.head? = some '>' <;> simp [read, ha, isWordStart, Reading.token] at h
    · by_cases ha : cs.head? = some '=' <;> simp [read, ha, isWordStart, Reading.token] at h
    · cases h
    · by_cases hd : 0 < depth <;> simp [read, lineEnd, hd] at h
    · cases h
  simp only [List.mem_cons, List.not_mem_nil, or_false, not_or] at hne
  simp only [IsInert, IsBreak, List.mem_cons, List.not_mem_nil, or_false, not_or]
  tauto

/-- It is a piece by itself. -/
theorem more_of_stray (h : (read depth c cs).content = .stray e) : (read depth c cs).more = 0 := by
  have hshape := hasShape_read depth c cs
  generalize read depth c cs = r at hshape h
  cases hshape with
  | stray => rfl
  | _ => cases h

/-- The piece, or a blank for a stray character. -/
def cleared (p : Piece) : Piece :=
  match p.content with
  | .stray _ => ⟨.blank, [' ']⟩
  | _ => p

/-- The text of pieces with blanks for the stray characters. -/
def clearedText (ps : List Piece) : List Char := ps.flatMap fun p => p.cleared.text

theorem cleared_of_stray {text : List Char} : cleared ⟨.stray e, text⟩ = ⟨.blank, [' ']⟩ := rfl

theorem cleared_of_not_stray (h : ∀ e, p.content ≠ .stray e) : p.cleared = p := by
  unfold cleared
  split
  · next e he => exact absurd he (h e)
  · rfl

/-- The first piece of a text, when it is a stray character and when it is not. -/
theorem clearedText_cons_of_stray (h : (read depth c cs).content = .stray e) :
    clearedText (pieces depth (c :: cs)) = ' ' :: clearedText (pieces depth cs) := by
  rw [pieces_cons, more_of_stray h, h]
  rfl

theorem clearedText_cons (h : ∀ e, (read depth c cs).content ≠ .stray e) :
    clearedText (pieces depth (c :: cs)) = c :: (cs.take (read depth c cs).more ++
      clearedText (pieces (openAfter depth (read depth c cs).content) (cs.drop (read depth c cs).more))) := by
  rw [pieces_cons, clearedText, List.flatMap_cons, cleared_of_not_stray h]
  rfl

theorem blanked_clearedText (depth : Nat) (cs : List Char) : Blanked cs (clearedText (pieces depth cs)) := by
  induction depth, cs using piecesInduction with
  | nil depth => exact .nil
  | cons depth c cs ih =>
    by_cases h : ∃ e, (read depth c cs).content = .stray e
    · obtain ⟨e, h⟩ := h
      rw [h, more_of_stray h] at ih
      rw [clearedText_cons_of_stray h]
      exact .cons (.inr ⟨(inert_of_stray h).1, (inert_of_stray h).2, rfl⟩) ih
    · rw [not_exists] at h
      have hrest := (Blanked.refl (cs.take (read depth c cs).more)).append ih
      rw [List.take_append_drop] at hrest
      rw [clearedText_cons h]
      exact .cons (.refl c) hrest

/-- **Blanks do not change how the rest of a text is cut.** -/
theorem pieces_cleared (depth : Nat) (cs : List Char) :
    pieces depth (clearedText (pieces depth cs)) = (pieces depth cs).map cleared := by
  induction depth, cs using piecesInduction with
  | nil depth => rfl
  | cons depth c cs ih =>
    by_cases h : ∃ e, (read depth c cs).content = .stray e
    · obtain ⟨e, h⟩ := h
      rw [h, more_of_stray h] at ih
      have hblank : ∀ ds, pieces depth (' ' :: ds) = ⟨.blank, [' ']⟩ :: pieces depth ds := by
        intro ds
        rw [pieces_cons]
        rfl
      rw [clearedText_cons_of_stray h, hblank, pieces_cons, h, more_of_stray h, List.map_cons, cleared_of_stray]
      exact congrArg (_ :: ·) ih
    · rw [not_exists] at h
      have hle : (cs.take (read depth c cs).more).length = (read depth c cs).more := by simpa using more_read_le
      generalize hds : clearedText (pieces (openAfter depth (read depth c cs).content) (cs.drop (read depth c cs).more)) =
        ds at ih
      have hblanked : Blanked cs (cs.take (read depth c cs).more ++ ds) := by
        have := blanked_clearedText depth (c :: cs)
        rw [clearedText_cons h, hds] at this
        exact (List.forall₂_cons.1 this).2
      have hread : read depth c (cs.take (read depth c cs).more ++ ds) = read depth c cs :=
        read_blanked hblanked (List.take_left' hle)
      rw [clearedText_cons h, hds, pieces_cons, hread, List.take_left' hle, List.drop_left' hle, ih, pieces_cons,
        List.map_cons, cleared_of_not_stray h]

/-- What pieces of a text are: they have characters, and a stray one is a character within its line. -/
structure IsCut (p : Piece) : Prop where
  text_ne_nil : p.text ≠ []
  stray : ∀ e, p.content = .stray e → ∃ c, p.text = [c] ∧ c ≠ '\n'

theorem isCut_of_mem_pieces (h : p ∈ pieces depth cs) : p.IsCut where
  text_ne_nil := text_ne_nil h
  stray e he := by
    obtain ⟨d, c, ds, rfl⟩ := exists_read_of_mem_pieces h
    refine ⟨c, ?_, fun hc => (inert_of_stray he).2 (.inl hc)⟩
    dsimp only
    rw [more_of_stray he, List.take_zero]

/-- A blank moves the place of the reading as a stray character does. -/
theorem IsCut.after_cleared (h : p.IsCut) (q : Position) : q.after p.cleared.text = q.after p.text := by
  obtain ⟨content, text⟩ := p
  cases content with
  | stray e =>
    obtain ⟨c, rfl, hc⟩ := h.stray e rfl
    simp [cleared, Position.step, hc]
  | _ => rfl

end Piece

/-! ## Places -/

/-- A text from a place on, with blanks for the characters that stand at some places. -/
def blankAt (places : List Position) (p : Position) : List Char → List Char
  | [] => []
  | c :: cs => (if p ∈ places then ' ' else c) :: blankAt places (p.step c) cs

theorem blankAt_append (places : List Position) (p : Position) (cs ds : List Char) :
    blankAt places p (cs ++ ds) = blankAt places p cs ++ blankAt places (p.after cs) ds := by
  induction cs generalizing p with
  | nil => rfl
  | cons c cs ih => rw [List.cons_append, blankAt, blankAt, ih, List.cons_append, Position.after_cons]

/-- A text with none of the places in it stays. -/
theorem blankAt_of_not_mem {places : List Position} {p : Position} {cs : List Char}
    (h : ∀ q ∈ places, p ≤ q → p.after cs ≤ q) : blankAt places p cs = cs := by
  induction cs generalizing p with
  | nil => rfl
  | cons c cs ih =>
    have hp : p ∉ places := fun hp => absurd (h p hp le_rfl) (not_le.2 (p.lt_after (List.cons_ne_nil c cs)))
    rw [blankAt, if_neg hp, ih fun q hq hle => h q hq ((p.lt_step c).le.trans hle)]

/-- The places of the stray characters that issues are about. -/
def strayPlaces (issues : List Issue) : List Position :=
  (issues.filter (·.code = .unexpectedCharacter)).map (·.span.first)

/-- A file with blanks for the stray characters that are reported. -/
def SourceFile.withoutStrays (f : SourceFile) : SourceFile :=
  ⟨f.name, String.ofList (blankAt (strayPlaces (Lexed.ofFile f).issues) .start f.text.toList)⟩

theorem strayPlaces_append (is js : List Issue) : strayPlaces (is ++ js) = strayPlaces is ++ strayPlaces js := by
  rw [strayPlaces, List.filter_append, List.map_append]
  rfl

namespace Content

theorem strayPlaces_issues_of_not_stray {content : Content} (h : ∀ e, content ≠ .stray e) (span : Span) :
    strayPlaces (content.issues span) = [] ∧
      (content.issues span).filter (fun i => i.code ≠ .unexpectedCharacter) = content.issues span := by
  cases content with
  | blank => exact ⟨rfl, rfl⟩
  | stray e => exact absurd rfl (h e)
  | token kind fault => rcases fault with _ | _ | _ <;> exact ⟨rfl, rfl⟩

end Content

namespace Lexed

open Piece

variable {p : Position} {ps : List Piece}

/-- Blanks for stray characters leave all tokens in their places. -/
theorem placed_cleared (h : ∀ piece ∈ ps, piece.IsCut) (p : Position) : placed p (ps.map cleared) = placed p ps := by
  induction ps generalizing p with
  | nil => rfl
  | cons piece ps ih =>
    obtain ⟨hpiece, hps⟩ := List.forall_mem_cons.1 h
    have ih := ih hps (p.after piece.text)
    have hafter := hpiece.after_cleared p
    obtain ⟨content, text⟩ := piece
    cases content with
    | stray e =>
      rw [List.map_cons, cleared_of_stray]
      rw [cleared_of_stray] at hafter
      show placed (p.after [' ']) _ = placed (p.after text) ps
      rw [hafter, ih]
    | blank => exact ih
    | token kind fault => exact congrArg (_ :: ·) ih

/-- They leave the issues about other things. -/
theorem reported_cleared (h : ∀ piece ∈ ps, piece.IsCut) (p : Position) :
    reported p (ps.map cleared) = (reported p ps).filter (fun i => i.code ≠ .unexpectedCharacter) := by
  induction ps generalizing p with
  | nil => rfl
  | cons piece ps ih =>
    obtain ⟨hpiece, hps⟩ := List.forall_mem_cons.1 h
    have ih := ih hps (p.after piece.text)
    rw [List.map_cons, reported, reported, hpiece.after_cleared, ih, List.filter_append]
    congr 1
    by_cases hstray : ∃ e, piece.content = .stray e
    · obtain ⟨e, he⟩ := hstray
      simp [cleared, he, Content.issues, strayIssue]
    · rw [not_exists] at hstray
      rw [cleared_of_not_stray hstray, (Content.strayPlaces_issues_of_not_stray hstray _).2]

theorem after_clearedText (h : ∀ piece ∈ ps, piece.IsCut) (p : Position) :
    p.after (clearedText ps) = p.after (ps.flatMap Piece.text) := by
  induction ps generalizing p with
  | nil => rfl
  | cons piece ps ih =>
    obtain ⟨hpiece, hps⟩ := List.forall_mem_cons.1 h
    rw [clearedText, List.flatMap_cons, List.flatMap_cons, Position.after_append, Position.after_append,
      hpiece.after_cleared]
    exact ih hps _

theorem le_of_mem_strayPlaces (h : ∀ piece ∈ ps, piece.IsCut) {q : Position} (hq : q ∈ strayPlaces (reported p ps)) :
    p ≤ q := by
  obtain ⟨i, hi, rfl⟩ := List.mem_map.1 hq
  exact (first_of_mem_reported (fun piece hp => (h piece hp).text_ne_nil) (List.mem_of_mem_filter hi)).1

/-- The places of the stray characters are where the pieces have them. -/
theorem blankAt_strayPlaces (h : ∀ piece ∈ ps, piece.IsCut) {places : List Position}
    (hplaces : ∀ q, p ≤ q → (q ∈ places ↔ q ∈ strayPlaces (reported p ps))) :
    blankAt places p (ps.flatMap Piece.text) = clearedText ps := by
  induction ps generalizing p with
  | nil => rfl
  | cons piece ps ih =>
    obtain ⟨hpiece, hps⟩ := List.forall_mem_cons.1 h
    have hlt : p < p.after piece.text := p.lt_after hpiece.text_ne_nil
    simp only [reported, strayPlaces_append, List.mem_append] at hplaces
    rw [List.flatMap_cons, blankAt_append, clearedText, List.flatMap_cons]
    by_cases hstray : ∃ e, piece.content = .stray e
    · obtain ⟨e, he⟩ := hstray
      obtain ⟨c, hc, -⟩ := hpiece.stray e he
      have hown : strayPlaces (piece.content.issues (.between p (p.after piece.text))) = [p] := by
        rw [he]
        rfl
      rw [hown] at hplaces
      have hmem : p ∈ places := (hplaces p le_rfl).2 (.inl (List.mem_singleton_self p))
      have hfirst : blankAt places p piece.text = piece.cleared.text := by
        rw [hc, blankAt, if_pos hmem, cleared, he]
        rfl
      rw [hfirst]
      refine congrArg (_ ++ ·) (ih hps fun q hq => ?_)
      rw [hplaces q (hlt.le.trans hq), List.mem_singleton]
      exact or_iff_right (hlt.trans_le hq).ne'
    · rw [not_exists] at hstray
      rw [(Content.strayPlaces_issues_of_not_stray hstray _).1] at hplaces
      simp only [List.not_mem_nil, false_or] at hplaces
      have hfirst : blankAt places p piece.text = piece.cleared.text := by
        rw [cleared_of_not_stray hstray]
        exact blankAt_of_not_mem fun q hq hle => le_of_mem_strayPlaces hps ((hplaces q hle).1 hq)
      rw [hfirst]
      exact congrArg (_ ++ ·) (ih hps fun q hq => hplaces q (hlt.le.trans hq))

variable {cs : List Char}

/-- No more issues are found than pieces have. -/
theorem length_issues_le (cs : List Char) : (ofChars cs).issues.length ≤ (reported .start (pieces 0 cs)).length := by
  obtain ⟨qs, rs, hsplit, -, hissues, -⟩ := exists_read .start 0 (pieces 0 cs)
  rw [ofChars, hissues, hsplit, reported_append, List.length_append]
  exact Nat.le_add_right ..

/-- Below the limit for issues, the tokens and the issues of a text are those of all its pieces. -/
theorem ofChars_eq (h : (ofChars cs).issues.length < maxDiagnostics) : ofChars cs =
    ⟨placed .start (pieces 0 cs) ++ [⟨.eof, .here (Position.start.after cs)⟩], reported .start (pieces 0 cs)⟩ := by
  obtain ⟨qs, rs, hsplit, htokens, hissues, hall⟩ := exists_read .start 0 (pieces 0 cs)
  obtain rfl : rs = [] := hall.resolve_right fun hfull => absurd (hfull.trans_eq (Nat.zero_add _)) (not_le.2 h)
  rw [List.append_nil] at hsplit
  have htext : qs.flatMap Piece.text = cs := by rw [← hsplit, text_pieces]
  rw [htext, ← hsplit] at htokens
  rw [← hsplit] at hissues
  rw [ofChars, ← htokens, ← hissues]

/-- **A stray character is like a blank.** When fewer issues are found than are stored, blanks for all characters that are
reported as stray leave the same tokens with the same spans, and the other issues as they are. -/
theorem ofFile_withoutStrays {f : SourceFile} (h : (ofFile f).issues.length < maxDiagnostics) :
    (ofFile f.withoutStrays).tokens = (ofFile f).tokens ∧
      (ofFile f.withoutStrays).issues = (ofFile f).issues.filter (fun i => i.code ≠ .unexpectedCharacter) := by
  have hcut : ∀ piece ∈ pieces 0 f.text.toList, piece.IsCut := fun piece hp => isCut_of_mem_pieces hp
  have hf : ofFile f = _ := ofChars_eq h
  have htext : f.withoutStrays.text.toList = clearedText (pieces 0 f.text.toList) := by
    have hblank := blankAt_strayPlaces hcut fun q _ => (Iff.rfl : q ∈ strayPlaces (reported .start _) ↔ _)
    rw [text_pieces] at hblank
    rw [SourceFile.withoutStrays, String.toList_ofList, hf, hblank]
  have hpieces : pieces 0 f.withoutStrays.text.toList = (pieces 0 f.text.toList).map cleared := by
    rw [htext, pieces_cleared]
  have hreported := reported_cleared hcut .start
  have hend : Position.start.after f.withoutStrays.text.toList = Position.start.after f.text.toList := by
    rw [htext, after_clearedText hcut, text_pieces]
  have hlt : (ofFile f.withoutStrays).issues.length < maxDiagnostics := by
    refine (length_issues_le _).trans_lt (lt_of_le_of_lt ?_ h)
    rw [hpieces, hreported, hf]
    exact List.length_filter_le _ _
  have hg : ofFile f.withoutStrays = _ := ofChars_eq hlt
  rw [hf, hg, hpieces, hreported, placed_cleared hcut, hend]
  exact ⟨rfl, rfl⟩

/-- Stray characters in a name, in front of an operator, behind a backslash and in front of an open literal. -/
def messyText : String := "a$b: int = 1 ?= 2 \\`\n?'z\n"

theorem ofFile_withoutStrays_sample :
    (ofFile ⟨"a.py", messyText⟩).issues.length < maxDiagnostics ∧
      SourceFile.withoutStrays ⟨"a.py", messyText⟩ = ⟨"a.py", "a b: int = 1  = 2   \n 'z\n"⟩ ∧
      (ofFile ⟨"a.py", "a b: int = 1  = 2   \n 'z\n"⟩).tokens = (ofFile ⟨"a.py", messyText⟩).tokens ∧
      (ofFile ⟨"a.py", "a b: int = 1  = 2   \n 'z\n"⟩).issues =
        (ofFile ⟨"a.py", messyText⟩).issues.filter (fun i => i.code ≠ .unexpectedCharacter) := by
  have h : (ofFile ⟨"a.py", messyText⟩).issues.length < maxDiagnostics := by decide +kernel
  have htext : (SourceFile.withoutStrays ⟨"a.py", messyText⟩).text = "a b: int = 1  = 2   \n 'z\n" := by decide +kernel
  have hblank : SourceFile.withoutStrays ⟨"a.py", messyText⟩ = ⟨"a.py", "a b: int = 1  = 2   \n 'z\n"⟩ :=
    congrArg (SourceFile.mk "a.py") htext
  have hsame := ofFile_withoutStrays h
  rw [hblank] at hsame
  exact ⟨h, hblank, hsame⟩

end Lexed

end AnnotationChecker
