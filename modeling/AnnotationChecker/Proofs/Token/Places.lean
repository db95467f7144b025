import AnnotationChecker.Proofs.Span
import AnnotationChecker.Proofs.Token.Append
/-!
# Where tokens stand

Blanks, joined lines, comments and faulty tokens move the place of the reading like all other characters, so a token
starts behind the characters that come before it (`Lexed.reads_of_mem_tokens`), whatever these are. Tokens follow each
other without overlap (`Lexed.inOrder_ofFile`), and a token is found on its source line where its span says
(`SourceFile.line?_getElem?`).
-/

namespace AnnotationChecker

open Position (lastLine)

/-! ## Source lines -/

theorem splitLines_head? (cs : List Char) : (splitLines cs)[0]? = some (cs.takeWhile (· ≠ '\n')) := by
  induction cs with
  | nil => rfl
  | cons c cs ih =>
    by_cases hc : c = '\n'
    · simp [splitLines, hc]
    · obtain ⟨l, ls, hlines, hcons⟩ := splitLines_cons hc cs
      rw [hlines] at ih
      rw [hcons, List.takeWhile_cons_of_pos (by simpa using hc)]
      simpa using ih

/-- The line on which a text goes on with another one. -/
theorem splitLines_getElem? (before behind : List Char) :
    (splitLines (before ++ behind))[before.count '\n']? =
      some (lastLine before ++ behind.takeWhile (· ≠ '\n')) := by
  induction before using List.reverseRecOn generalizing behind with
  | nil => exact splitLines_head? behind
  | append_singleton before c ih =>
    rw [List.append_assoc, List.singleton_append, List.count_append]
    by_cases hc : c = '\n'
    · subst hc
      rw [splitLines_line, List.getElem?_append_right (by simp [length_splitLines])]
      simpa [length_splitLines] using splitLines_head? behind
    · have hline := ih (c :: behind)
      rw [List.takeWhile_cons_of_pos (by simpa using hc)] at hline
      simpa [hc] using hline

/-- Carriage returns are only trimmed behind what is none. -/
theorem trimReturns_append_cons {c : Char} (hc : c ≠ '\r') (cs ds : List Char) :
    trimReturns (cs ++ c :: ds) = cs ++ c :: trimReturns ds := by
  induction ds using List.reverseRecOn with
  | nil => simp [trimReturns, hc]
  | append_singleton ds d ih =>
    by_cases hd : d = '\r'
    · subst hd
      have htrim : ∀ es : List Char, trimReturns (es ++ ['\r']) = trimReturns es := fun es => by simp [trimReturns]
      rw [← List.cons_append, ← List.append_assoc, htrim, htrim, ih]
    · simp [trimReturns, hd]

namespace SourceFile

variable {f : SourceFile} {before behind : List Char}

/-- The line at a place, with what is before the place on this line and what is behind it. -/
theorem line?_of_append (h : f.text.toList = before ++ behind) :
    f.line? (before.count '\n' + 1) =
      some (String.ofList (trimReturns (lastLine before ++ behind.takeWhile (· ≠ '\n')))) := by
  show (f.lines[before.count '\n']?).map String.ofList = _
  rw [lines, h, List.getElem?_map, splitLines_getElem?]
  rfl

/-- A character that belongs to a line is found on it at its column. -/
theorem line?_getElem? {c : Char} (h : f.text.toList = before ++ c :: behind) (hn : c ≠ '\n') (hr : c ≠ '\r') :
    ∃ line, f.line? (before.count '\n' + 1) = some line ∧ line.toList[(lastLine before).length]? = some c := by
  refine ⟨_, line?_of_append h, ?_⟩
  rw [String.toList_ofList, List.takeWhile_cons_of_pos (by simpa using hn), trimReturns_append_cons hr]
  simp

end SourceFile

/-! ## Pieces -/

namespace Piece

variable {depth : Nat} {c : Char} {cs : List Char} {p : Piece} {k : TokenKind} {fault : Option TokenFault}

/-- A piece was read from its first character on, under the brackets that the pieces before it leave open. What is
behind it is cut in the same way. -/
theorem pieces_split {front back : List Piece} (h : pieces depth cs = front ++ p :: back) :
    ∃ c ds, cs = front.flatMap Piece.text ++ c :: ds ∧
      p = ⟨(read (openBehind depth front) c ds).content, c :: ds.take (read (openBehind depth front) c ds).more⟩ ∧
      back = pieces (openBehind depth (front ++ [p])) (ds.drop (read (openBehind depth front) c ds).more) := by
  induction front generalizing depth cs with
  | nil =>
    cases cs with
    | nil => cases h
    | cons c ds =>
      rw [pieces_cons, List.nil_append, List.cons.injEq] at h
      obtain ⟨rfl, rfl⟩ := h
      exact ⟨c, ds, rfl, rfl, rfl⟩
  | cons q front ih =>
    cases cs with
    | nil => cases h
    | cons c ds =>
      rw [pieces_cons, List.cons_append, List.cons.injEq] at h
      obtain ⟨rfl, h⟩ := h
      obtain ⟨e, es, hds, hp, hback⟩ := ih h
      refine ⟨e, es, ?_, hp, hback⟩
      rw [List.flatMap_cons, List.append_assoc, ← hds, List.cons_append, List.take_append_drop]

theorem exists_read_of_mem_pieces (h : p ∈ pieces depth cs) :
    ∃ d c ds, p = ⟨(read d c ds).content, c :: ds.take (read d c ds).more⟩ := by
  obtain ⟨front, back, h⟩ := List.append_of_mem h
  obtain ⟨c, ds, -, hp, -⟩ := pieces_split h
  exact ⟨_, c, ds, hp⟩

theorem text_ne_nil (h : p ∈ pieces depth cs) : p.text ≠ [] := by
  obtain ⟨d, c, ds, rfl⟩ := exists_read_of_mem_pieces h
  simp

/-- A line feed is a token by itself, and a carriage return is blank. -/
theorem first_of_token (h : (read depth c cs).content = .token k fault) (hk : k ≠ .newline) : c ≠ '\n' ∧ c ≠ '\r' := by
  constructor <;> rintro rfl
  · have hline : (read depth '\n' cs).content = lineEnd depth := by simp [read]
    rw [hline, lineEnd] at h
    split at h
    · cases h
    · cases h
      exact hk rfl
  · simp [read] at h

end Piece

/-! ## Tokens in order -/

/-- Tokens follow each other in a text: they start one behind the other, and each of them ends at the latest where the
next one starts. -/
structure InOrder (ts : List Token) : Prop where
  proper : ∀ t ∈ ts, t.span.first ≤ t.span.last
  apart : ts.Pairwise fun t u => t.span.last ≤ u.span.first
  increasing : ts.Pairwise fun t u => t.span.first < u.span.first

namespace InOrder

variable {t : Token} {ts us : List Token}

theorem cons (h : InOrder ts) (hproper : t.span.first ≤ t.span.last) (hapart : ∀ u ∈ ts, t.span.last ≤ u.span.first)
    (hlt : ∀ u ∈ ts, t.span.first < u.span.first) : InOrder (t :: ts) where
  proper := List.forall_mem_cons.2 ⟨hproper, h.proper⟩
  apart := List.pairwise_cons.2 ⟨hapart, h.apart⟩
  increasing := List.pairwise_cons.2 ⟨hlt, h.increasing⟩

theorem tail (h : InOrder (t :: ts)) : InOrder ts :=
  ⟨(List.forall_mem_cons.1 h.proper).2, (List.pairwise_cons.1 h.apart).2, (List.pairwise_cons.1 h.increasing).2⟩

theorem sublist (h : InOrder ts) (hsub : us.Sublist ts) : InOrder us :=
  ⟨fun t ht => h.proper t (hsub.subset ht), h.apart.sublist hsub, h.increasing.sublist hsub⟩

/-- Only one of the tokens has its span. -/
theorem filter_span (h : InOrder ts) (ht : t ∈ ts) : ts.filter (fun u => u.span = t.span) = [t] := by
  obtain ⟨front, back, rfl⟩ := List.append_of_mem ht
  obtain ⟨-, hback, hfront⟩ := List.pairwise_append.1 h.increasing
  have hbefore : front.filter (fun u => u.span = t.span) = [] := by
    refine List.filter_eq_nil_iff.2 fun u hu => ?_
    have hlt := hfront u hu t (by simp)
    simpa using fun heq : u.span = t.span => lt_irrefl _ (heq ▸ hlt)
  have hbehind : back.filter (fun u => u.span = t.span) = [] := by
    refine List.filter_eq_nil_iff.2 fun u hu => ?_
    have hlt := (List.pairwise_cons.1 hback).1 u hu
    simpa using fun heq : u.span = t.span => lt_irrefl _ (heq ▸ hlt)
  rw [List.filter_append, List.filter_cons_of_pos (by simp), hbefore, hbehind, List.nil_append]

end InOrder

/-! ## Issues of pieces -/

/-- What is wrong with a piece that stands somewhere. -/
def Content.issues (span : Span) : Content → List Issue
  | .blank => []
  | .stray c => [strayIssue c span]
  | .token _ fault => fault.toList.map (·.issue span)

theorem Content.span_of_mem_issues {c : Content} {span : Span} {i : Issue} (h : i ∈ c.issues span) : i.span = span := by
  cases c with
  | blank => cases h
  | stray c => exact List.mem_singleton.1 h ▸ rfl
  | token kind fault =>
    obtain ⟨e, -, rfl⟩ := List.mem_map.1 h
    rfl

/-- The issues of pieces that are read from a place on. -/
def Lexed.reported (p : Position) : List Piece → List Issue
  | [] => []
  | piece :: rest =>
    piece.content.issues (.between p (p.after piece.text)) ++ reported (p.after piece.text) rest

namespace Lexed

/-! ## Which pieces are read -/

variable {p : Position} {found : Nat} {ps : List Piece} {t : Token}

/-- The tokens and the issues are those of some pieces at the front, and the end of the file is behind these. Pieces are
left only when the limit for issues is reached. -/
theorem exists_read (p : Position) (found : Nat) (ps : List Piece) : ∃ qs rs, ps = qs ++ rs ∧
    (ofPieces p found ps).tokens = placed p qs ++ [⟨.eof, .here (p.after (qs.flatMap Piece.text))⟩] ∧
    (ofPieces p found ps).issues = reported p qs ∧
    (rs = [] ∨ maxDiagnostics ≤ found + (ofPieces p found ps).issues.length) := by
  induction ps generalizing p found with
  | nil => exact ⟨[], [], rfl, rfl, rfl, .inl rfl⟩
  | cons piece ps ih =>
    obtain ⟨content, text⟩ := piece
    cases content with
    | blank =>
      obtain ⟨qs, rs, rfl, htokens, hissues, hall⟩ := ih (p.after text) found
      refine ⟨⟨.blank, text⟩ :: qs, rs, rfl, ?_, hissues, hall⟩
      rw [List.flatMap_cons, Position.after_append]
      exact htokens
    | stray c =>
      obtain ⟨qs, rs, rfl, htokens, hissues, hall⟩ := ih (p.after text) (found + 1)
      refine ⟨⟨.stray c, text⟩ :: qs, rs, rfl, ?_, congrArg (_ :: ·) hissues, ?_⟩
      · rw [List.flatMap_cons, Position.after_append]
        exact htokens
      · refine hall.imp_right fun h => ?_
        show maxDiagnostics ≤ found + ((ofPieces (p.after text) (found + 1) (qs ++ rs)).issues.length + 1)
        omega
    | token kind fault =>
      rw [ofPieces_token]
      split
      · next hfull =>
        refine ⟨[⟨.token kind fault, text⟩], ps, rfl, ?_, rfl, .inr ?_⟩
        · simp [after, ending, placed]
        · simpa [after, ending] using hfull
      · obtain ⟨qs, rs, rfl, htokens, hissues, hall⟩ := ih (p.after text) (found + fault.toList.length)
        refine ⟨⟨.token kind fault, text⟩ :: qs, rs, rfl, ?_, congrArg (_ ++ ·) hissues, ?_⟩
        · rw [List.flatMap_cons, Position.after_append]
          exact congrArg (_ :: ·) htokens
        · refine hall.imp_right fun h => h.trans_eq ?_
          simp [after]
          omega

theorem placed_append (p : Position) (qs rs : List Piece) :
    placed p (qs ++ rs) = placed p qs ++ placed (p.after (qs.flatMap Piece.text)) rs := by
  induction qs generalizing p with
  | nil => rfl
  | cons piece qs ih =>
    obtain ⟨content, text⟩ := piece
    rw [List.flatMap_cons, Position.after_append]
    cases content with
    | blank | stray c => exact ih _
    | token kind fault => exact congrArg (_ :: ·) (ih _)

theorem reported_append (p : Position) (qs rs : List Piece) :
    reported p (qs ++ rs) = reported p qs ++ reported (p.after (qs.flatMap Piece.text)) rs := by
  induction qs generalizing p with
  | nil => rfl
  | cons piece qs ih =>
    rw [List.flatMap_cons, Position.after_append, List.cons_append, reported, ih, reported, List.append_assoc]

/-- A token that is placed is that of a piece, the tokens before it are those of the pieces before, and the tokens
behind it are those of the pieces behind. -/
theorem placed_split {front back : List Token} (h : placed p ps = front ++ t :: back) :
    ∃ qs own fault rs, ps = qs ++ ⟨.token t.kind fault, own⟩ :: rs ∧ front = placed p qs ∧
      t.span = .between (p.after (qs.flatMap Piece.text)) (p.after (qs.flatMap Piece.text ++ own)) ∧
      back = placed (p.after (qs.flatMap Piece.text ++ own)) rs := by
  induction ps generalizing p front with
  | nil => simp [placed] at h
  | cons piece ps ih =>
    obtain ⟨content, text⟩ := piece
    have hlater {front' : List Token} (h : placed (p.after text) ps = front' ++ t :: back) : ∃ qs own fault rs,
        ps = qs ++ ⟨.token t.kind fault, own⟩ :: rs ∧ front' = placed (p.after text) qs ∧
        t.span = .between (p.after (text ++ qs.flatMap Piece.text)) (p.after (text ++ qs.flatMap Piece.text ++ own)) ∧
        back = placed (p.after (text ++ qs.flatMap Piece.text ++ own)) rs := by
      obtain ⟨qs, own, fault, rs, rfl, hfront, hspan, hback⟩ := ih h
      simp only [List.append_assoc, Position.after_append p]
      exact ⟨qs, own, fault, rs, rfl, hfront, hspan, hback⟩
    cases content with
    | blank | stray c =>
      obtain ⟨qs, own, fault, rs, rfl, hfront, hspan, hback⟩ := hlater h
      exact ⟨⟨_, text⟩ :: qs, own, fault, rs, rfl, hfront, hspan, hback⟩
    | token kind fault =>
      cases front with
      | nil =>
        obtain ⟨rfl, rfl⟩ := List.cons.inj h
        exact ⟨[], text, fault, ps, rfl, rfl, rfl, rfl⟩
      | cons u front =>
        rw [List.cons_append] at h
        obtain ⟨rfl, hrest⟩ := List.cons.inj h
        obtain ⟨qs, own, fault', rs, rfl, rfl, hspan, hback⟩ := hlater hrest
        exact ⟨⟨.token kind fault, text⟩ :: qs, own, fault', rs, rfl, rfl, hspan, hback⟩

theorem mem_placed (h : t ∈ placed p ps) : ∃ qs own fault rs, ps = qs ++ ⟨.token t.kind fault, own⟩ :: rs ∧
    t.span = .between (p.after (qs.flatMap Piece.text)) (p.after (qs.flatMap Piece.text ++ own)) := by
  obtain ⟨front, back, h⟩ := List.append_of_mem h
  obtain ⟨qs, own, fault, rs, hps, -, hspan, -⟩ := placed_split h
  exact ⟨qs, own, fault, rs, hps, hspan⟩

/-- An issue has the span of its piece. -/
theorem mem_reported {i : Issue} (h : i ∈ reported p ps) : ∃ qs piece rs, ps = qs ++ piece :: rs ∧
    i.span = .between (p.after (qs.flatMap Piece.text)) (p.after (qs.flatMap Piece.text ++ piece.text)) := by
  induction ps generalizing p with
  | nil => cases h
  | cons piece ps ih =>
    rcases List.mem_append.1 h with h | h
    · exact ⟨[], piece, ps, rfl, Content.span_of_mem_issues h⟩
    · obtain ⟨qs, piece', rs, rfl, hspan⟩ := ih h
      refine ⟨piece :: qs, piece', rs, rfl, ?_⟩
      rw [hspan, List.flatMap_cons, List.append_assoc, Position.after_append p, Position.after_append p]

theorem first_of_mem_reported (htext : ∀ piece ∈ ps, piece.text ≠ []) {i : Issue} (h : i ∈ reported p ps) :
    p ≤ i.span.first ∧ i.span.first < p.after (ps.flatMap Piece.text) := by
  obtain ⟨qs, piece, rs, rfl, hspan⟩ := mem_reported h
  rw [hspan, Span.first_between, List.flatMap_append, List.flatMap_cons, Position.after_append]
  have hne : piece.text ++ rs.flatMap Piece.text ≠ [] := by simp [htext piece (by simp)]
  exact ⟨p.le_after _, Position.lt_after _ hne⟩

/-- The issues that have the span of a piece are its own. -/
theorem filter_reported {qs rs : List Piece} {piece : Piece}
    (htext : ∀ q ∈ qs ++ piece :: rs, q.text ≠ []) (p : Position) :
    let span := Span.between (p.after (qs.flatMap Piece.text)) (p.after (qs.flatMap Piece.text ++ piece.text))
    (reported p (qs ++ piece :: rs)).filter (fun i => i.span = span) = piece.content.issues span := by
  intro span
  rw [List.forall_mem_append, List.forall_mem_cons] at htext
  obtain ⟨hqs, hpiece, hrs⟩ := htext
  have hbefore : (reported p qs).filter (fun i => i.span = span) = [] := by
    refine List.filter_eq_nil_iff.2 fun i hi => ?_
    have hlt := (first_of_mem_reported hqs hi).2
    simpa using fun heq : i.span = span => lt_irrefl _ (heq ▸ hlt)
  have hbehind : (reported (p.after (qs.flatMap Piece.text ++ piece.text)) rs).filter (fun i => i.span = span) = [] := by
    refine List.filter_eq_nil_iff.2 fun i hi => ?_
    have hle := (first_of_mem_reported hrs hi).1
    rw [Position.after_append] at hle
    have hlt := (Position.lt_after _ hpiece).trans_le hle
    simpa using fun heq : i.span = span => lt_irrefl _ (heq ▸ hlt)
  have hown : (piece.content.issues span).filter (fun i => i.span = span) = piece.content.issues span :=
    List.filter_eq_self.2 fun i hi => decide_eq_true (Content.span_of_mem_issues hi)
  rw [reported_append, reported, ← Position.after_append, List.filter_append, List.filter_append, hbefore, hbehind,
    List.nil_append, List.append_nil]
  exact hown

theorem le_first_of_mem_placed (h : t ∈ placed p ps) : p ≤ t.span.first := by
  obtain ⟨qs, own, fault, rs, -, hspan⟩ := mem_placed h
  rw [hspan, Span.first_between]
  exact p.le_after _

/-- The tokens of pieces, and the end of the file behind them. -/
theorem inOrder_placed (hp : 1 ≤ p.col) (htext : ∀ piece ∈ ps, piece.text ≠ []) :
    InOrder (placed p ps ++ [⟨.eof, .here (p.after (ps.flatMap Piece.text))⟩]) := by
  induction ps generalizing p with
  | nil => exact ⟨by simp [placed, Span.here, Span.point, Span.first, Span.last], by simp [placed], by simp [placed]⟩
  | cons piece ps ih =>
    obtain ⟨content, text⟩ := piece
    obtain ⟨hne, htext⟩ := List.forall_mem_cons.1 htext
    have hcol : 1 ≤ (p.after text).col := Position.one_le_col_after hp text
    have hrest := ih hcol htext
    rw [List.flatMap_cons, Position.after_append]
    cases content with
    | blank | stray c => exact hrest
    | token kind fault =>
      have hlt : p < p.after text := p.lt_after hne
      -- the tokens behind it, and the end of the file, start at the earliest where its text ends
      have hlater : ∀ u ∈ placed (p.after text) ps ++ [⟨.eof, .here ((p.after text).after (ps.flatMap Piece.text))⟩],
          p.after text ≤ u.span.first := by
        intro u hu
        rcases List.mem_append.1 hu with hu | hu
        · exact le_first_of_mem_placed hu
        · rw [List.mem_singleton.1 hu]
          exact Position.le_after _ _
      exact hrest.cons (Span.first_le_last_between hlt) (fun u hu => (Span.last_between_le hcol).trans (hlater u hu))
        fun u hu => hlt.trans_le (hlater u hu)

/-! ## Files -/

variable {f : SourceFile}

theorem inOrder_ofFile (f : SourceFile) : InOrder (ofFile f).tokens := by
  obtain ⟨qs, rs, hsplit, htokens, -, -⟩ := exists_read .start 0 (Piece.pieces 0 f.text.toList)
  show InOrder (ofPieces _ _ _).tokens
  rw [htokens]
  refine inOrder_placed (Nat.le_refl 1) fun piece hp => ?_
  have hmem : piece ∈ Piece.pieces 0 f.text.toList := by
    rw [hsplit]
    exact List.mem_append_left _ hp
  exact Piece.text_ne_nil hmem

/-- A token of a file with the characters that it was read from and those before it. The end of the file has no
characters, and all of the file is before it, unless the reading stopped with too many issues. -/
inductive Reads (f : SourceFile) (before : List Char) : List Char → TokenKind → Prop
  | piece {ps qs : List Piece} {kind : TokenKind} {fault : Option TokenFault} {own : List Char} :
      Piece.pieces 0 f.text.toList = ps ++ ⟨.token kind fault, own⟩ :: qs → before = ps.flatMap Piece.text →
      Reads f before own kind
  | ending : before = f.text.toList ∨ maxDiagnostics ≤ (ofFile f).issues.length → Reads f before [] .eof

/-- A token stands where the characters before it lead to, and it is a part of the text. -/
theorem reads_of_mem_tokens (h : t ∈ (ofFile f).tokens) :
    ∃ before own behind, f.text.toList = before ++ own ++ behind ∧ Reads f before own t.kind ∧
      t.span.first = Position.start.after before := by
  obtain ⟨qs, rs, hsplit, htokens, -, hall⟩ := exists_read .start 0 (Piece.pieces 0 f.text.toList)
  have htext : (qs ++ rs).flatMap Piece.text = f.text.toList := by rw [← hsplit, Piece.text_pieces]
  rw [List.flatMap_append] at htext
  have hmem : t ∈ placed .start qs ++ [⟨.eof, .here (Position.start.after (qs.flatMap Piece.text))⟩] := htokens ▸ h
  rcases List.mem_append.1 hmem with h | h
  · obtain ⟨ps, own, fault, ps', rfl, hspan⟩ := mem_placed h
    refine ⟨ps.flatMap Piece.text, own, ps'.flatMap Piece.text ++ rs.flatMap Piece.text, ?_, ?_, by rw [hspan]; rfl⟩
    · rw [← htext]
      simp
    · have hpieces : Piece.pieces 0 f.text.toList = ps ++ ⟨.token t.kind fault, own⟩ :: (ps' ++ rs) := by
        rw [hsplit, List.append_assoc, List.cons_append]
      exact .piece hpieces rfl
  · rw [List.mem_singleton.1 h]
    refine ⟨qs.flatMap Piece.text, [], rs.flatMap Piece.text, ?_, .ending ?_, rfl⟩
    · rw [← htext, List.append_nil]
    · refine hall.imp (fun hrs => ?_) fun hfull => ?_
      · rw [← htext, hrs]
        simp
      · rwa [Nat.zero_add] at hfull

end Lexed

end AnnotationChecker
