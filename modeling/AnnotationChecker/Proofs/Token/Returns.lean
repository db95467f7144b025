import AnnotationChecker.Proofs.Token.Append
import AnnotationChecker.Proofs.Token.Closing
/-!
# Carriage returns in front of line ends

A carriage return in front of a line end is blank, joins lines as the line end does, and is cut off behind a comment. Only
within a literal it takes the place of the line end behind a backslash. So the pieces of a text change as `Piece.Returned`
says, and a text without literals that run over a line end gives the same tokens in the same places
(`Lexed.ofFile_withReturns`).
-/

namespace AnnotationChecker

/-- A text with a carriage return in front of every line end. -/
def withReturns (cs : List Char) : List Char := cs.flatMap fun c => if c = '\n' then ['\r', '\n'] else [c]

@[simp] theorem withReturns_nil : withReturns [] = [] := rfl

@[simp] theorem withReturns_line (cs : List Char) : withReturns ('\n' :: cs) = '\r' :: '\n' :: withReturns cs := rfl

theorem withReturns_cons {c : Char} (hc : c ≠ '\n') (cs : List Char) : withReturns (c :: cs) = c :: withReturns cs := by
  simp [withReturns, hc]

@[simp] theorem withReturns_append (cs ds : List Char) : withReturns (cs ++ ds) = withReturns cs ++ withReturns ds :=
  List.flatMap_append

theorem withReturns_of_not_mem {cs : List Char} (h : '\n' ∉ cs) : withReturns cs = cs := by
  induction cs with
  | nil => rfl
  | cons c cs ih =>
    obtain ⟨hc, hcs⟩ : c ≠ '\n' ∧ '\n' ∉ cs := by simpa [eq_comm] using h
    rw [withReturns_cons hc, ih hcs]

theorem withReturns_append_line {xs : List Char} (h : '\n' ∉ xs) (ds : List Char) :
    withReturns (xs ++ '\n' :: ds) = xs ++ '\r' :: '\n' :: withReturns ds := by
  rw [withReturns_append, withReturns_of_not_mem h, withReturns_line]

/-- Characters in front of the first line end stay where they are. -/
theorem take_withReturns {cs : List Char} {n : Nat} (h : '\n' ∉ cs.take n) :
    (withReturns cs).take n = cs.take n ∧ (withReturns cs).drop n = withReturns (cs.drop n) := by
  induction n generalizing cs with
  | zero => exact ⟨rfl, rfl⟩
  | succ n ih =>
    cases cs with
    | nil => exact ⟨rfl, rfl⟩
    | cons c cs =>
      obtain ⟨hc, hcs⟩ : c ≠ '\n' ∧ '\n' ∉ cs.take n := by simpa [eq_comm] using h
      obtain ⟨htake, hdrop⟩ := ih hcs
      rw [withReturns_cons hc]
      exact ⟨congrArg (c :: ·) htake, hdrop⟩

theorem trimReturns_return (cs : List Char) : trimReturns (cs ++ ['\r']) = trimReturns cs := by
  simp [trimReturns]

/-! ## Pieces -/

/-- Is the token a literal between quotes? -/
def TokenKind.isLiteral : TokenKind → Bool
  | .string _ | .bytes _ | .formatted _ => true
  | _ => false

/-- Is it a literal, with or without a fault? -/
def Content.isLiteral : Content → Bool
  | .token k _ => k.isLiteral
  | _ => false

namespace Piece

/-- A literal in triple quotes, perhaps with a marker. -/
def IsTriple (p : Piece) : Prop := ∃ q ∈ ['\x22', '\x27'], [q, q, q] <+: p.text.dropWhile isWordChar

-- Named, since a search over all characters would be an instance too.
instance (p : Piece) : Decidable p.IsTriple := List.decidableBEx _ _

/-- A literal that runs over the end of a line. -/
def RunsOver (p : Piece) : Prop := p.content.isLiteral = true ∧ '\n' ∈ p.text

instance (p : Piece) : Decidable p.RunsOver := inferInstanceAs (Decidable (_ ∧ _))

/-- How the pieces of a text change with carriage returns in front of its line ends. A literal that runs over a line end
is left open, and nothing is said of what is behind it. -/
inductive Returned : List Piece → List Piece → Prop
  | nil : Returned [] []
  | inLine {p : Piece} {ps qs : List Piece} : '\n' ∉ p.text → Returned ps qs → Returned (p :: ps) (p :: qs)
  | line {depth : Nat} {ps qs : List Piece} : Returned ps qs →
      Returned (⟨lineEnd depth, ['\n']⟩ :: ps) (⟨.blank, ['\r']⟩ :: ⟨lineEnd depth, ['\n']⟩ :: qs)
  | comment {content : Content} {text : List Char} {depth : Nat} {ps qs : List Piece} : '\n' ∉ text → Returned ps qs →
      Returned (⟨content, text⟩ :: ⟨lineEnd depth, ['\n']⟩ :: ps)
        (⟨content, text ++ ['\r']⟩ :: ⟨lineEnd depth, ['\n']⟩ :: qs)
  | join {ps qs : List Piece} : Returned ps qs →
      Returned (⟨.blank, ['\\', '\n']⟩ :: ps) (⟨.blank, ['\\', '\r', '\n']⟩ :: qs)
  | broken {p q : Piece} {k : TokenKind} {ps qs : List Piece} : p.RunsOver →
      q.content = .token k (some .unterminatedString) → Returned (p :: ps) (q :: qs)

variable {depth : Nat} {c : Char} {cs xs ds : List Char}

theorem openAfter_lineEnd (depth : Nat) : openAfter depth (lineEnd depth) = depth := by
  unfold lineEnd
  split <;> rfl

theorem pieces_line (depth : Nat) (cs : List Char) :
    pieces depth ('\n' :: cs) = ⟨lineEnd depth, ['\n']⟩ :: pieces depth cs := by
  have hread : read depth '\n' cs = ⟨lineEnd depth, 0⟩ := by simp [read]
  rw [pieces_cons, hread, openAfter_lineEnd]
  rfl

theorem pieces_return (depth : Nat) (cs : List Char) :
    pieces depth ('\r' :: cs) = ⟨.blank, ['\r']⟩ :: pieces depth cs := by
  rw [pieces_cons]
  rfl

theorem commentContent_return (depth : Nat) (body : List Char) :
    commentContent depth (body ++ ['\r']) = commentContent depth body := by
  rw [commentContent, trimReturns_return, commentContent]

/-- A comment in front of the end of its line. -/
theorem pieces_comment (h : '\n' ∉ xs) (depth : Nat) (ds : List Char) :
    pieces depth ('#' :: (xs ++ '\n' :: ds)) =
      ⟨commentContent depth xs, '#' :: xs⟩ :: ⟨lineEnd depth, ['\n']⟩ :: pieces depth ds := by
  have hrun : (xs ++ '\n' :: ds).takeWhile (· != '\n') = xs :=
    takeWhile_append_of_apart (fun e he => by simpa using ne_of_mem_of_not_mem he h) (by simp)
  have hread : read depth '#' (xs ++ '\n' :: ds) = ⟨commentContent depth xs, xs.length⟩ := by
    simp [read, comment, hrun]
  have hopen : openAfter depth (commentContent depth xs) = depth := by
    unfold commentContent
    split <;> rfl
  rw [pieces_cons, hread, hopen]
  dsimp only
  rw [List.take_left, List.drop_left, pieces_line]

/-- A literal is in triple quotes when its first quote completes them. -/
theorem isTriple_of_completes {marker zs : List Char} {q : Char} (hmarker : ∀ e ∈ marker, isWordChar e = true)
    (hq : q = '\x22' ∨ q = '\x27') (hc : StringBody.completes q zs = true) {n : Nat} (hn : 2 ≤ n) (content : Content) :
    IsTriple ⟨content, marker ++ q :: zs.take n⟩ := by
  have hword : isWordChar q = false := by rcases hq with rfl | rfl <;> decide
  refine ⟨q, by simpa using hq, ?_⟩
  show [q, q, q] <+: List.dropWhile isWordChar _
  rw [List.dropWhile_append_of_pos hmarker, List.dropWhile_cons_of_neg (by simp [hword])]
  obtain ⟨n, rfl⟩ : ∃ m, n = m + 2 := ⟨n - 2, by omega⟩
  unfold StringBody.completes at hc
  split at hc
  · next a b zs =>
    obtain ⟨rfl, rfl⟩ : a = q ∧ b = q := by simpa using hc
    exact ⟨zs.take n, rfl⟩
  · cases hc

theorem isLiteral_literal (f : StringBody.Flavor) (before : Nat) (b : StringBody.Body) :
    (literal f before b).content.isLiteral = true := by
  obtain ⟨family, raw⟩ := f
  cases family <;> rfl

/-- A text without carriage returns in which every literal is closed, and none is in triple quotes. -/
structure Simple (depth : Nat) (cs : List Char) : Prop where
  noReturn : '\r' ∉ cs
  closed : ∀ p ∈ pieces depth cs, ∀ k, p.content ≠ .token k (some .unterminatedString)
  single : ∀ p ∈ pieces depth cs, ¬ p.IsTriple

/-- What stands behind pieces of a simple text is simple. -/
theorem Simple.behind {d : Nat} (h : Simple depth cs) (hps : pieces d ds <:+ pieces depth cs) (hds : ds ⊆ cs) :
    Simple d ds where
  noReturn hr := h.noReturn (hds hr)
  closed p hp := h.closed p (hps.subset hp)
  single p hp := h.single p (hps.subset hp)

/-- The claim for texts of fewer characters. -/
def ReturnedBelow (n : Nat) : Prop :=
  ∀ depth cs, cs.length < n → Simple depth cs → Returned (pieces depth cs) (pieces depth (withReturns cs))

section

variable (ih : ReturnedBelow (cs.length + 1))

include ih

theorem returned_line (h : Simple depth ('\n' :: cs)) :
    Returned (pieces depth ('\n' :: cs)) (pieces depth (withReturns ('\n' :: cs))) := by
  have hrest : Simple depth cs := h.behind ⟨[_], (pieces_line depth cs).symm⟩ (List.subset_cons_self ..)
  rw [withReturns_line, pieces_return, pieces_line, pieces_line]
  exact .line (ih depth cs (Nat.lt_succ_self _) hrest)

/-- A piece within a line that is read in the same way stays what it is. -/
theorem returned_inLine (h : Simple depth (c :: cs)) (hc : c ≠ '\n')
    (hread : read depth c (withReturns cs) = read depth c cs) (hline : '\n' ∉ cs.take (read depth c cs).more) :
    Returned (pieces depth (c :: cs)) (pieces depth (withReturns (c :: cs))) := by
  obtain ⟨htake, hdrop⟩ := take_withReturns hline
  have hsub : cs.drop (read depth c cs).more ⊆ c :: cs :=
    List.Subset.trans (List.drop_subset ..) (List.subset_cons_self ..)
  have hle : (cs.drop (read depth c cs).more).length < cs.length + 1 := by
    rw [List.length_drop]
    omega
  have hrest := ih _ _ hle (h.behind ⟨[_], (pieces_cons depth c cs).symm⟩ hsub)
  rw [withReturns_cons hc, pieces_cons, pieces_cons, hread, htake, hdrop]
  refine .inLine ?_ hrest
  simpa [eq_comm] using ⟨hc, hline⟩

/-- In the last line nothing changes. -/
theorem returned_lastLine (h : Simple depth (c :: cs)) (hc : c ≠ '\n') (hcs : '\n' ∉ cs) :
    Returned (pieces depth (c :: cs)) (pieces depth (withReturns (c :: cs))) :=
  returned_inLine ih h hc (by rw [withReturns_of_not_mem hcs]) fun hn => hcs (List.mem_of_mem_take hn)

theorem returned_backslash (h : Simple depth ('\\' :: cs)) :
    Returned (pieces depth ('\\' :: cs)) (pieces depth (withReturns ('\\' :: cs))) := by
  rcases cs with _ | ⟨x, cs⟩
  · exact returned_lastLine ih h (by decide) (by simp)
  · by_cases hx : x = '\n'
    · subst hx
      have hjoin : pieces depth ('\\' :: '\n' :: cs) = ⟨.blank, ['\\', '\n']⟩ :: pieces depth cs := by
        rw [pieces_cons]
        rfl
      have hreturn : pieces depth ('\\' :: '\r' :: '\n' :: withReturns cs) =
          ⟨.blank, ['\\', '\r', '\n']⟩ :: pieces depth (withReturns cs) := by
        rw [pieces_cons]
        rfl
      have hrest : Simple depth cs := h.behind ⟨[_], hjoin.symm⟩ fun e he => by simp [he]
      rw [withReturns_cons (by decide), withReturns_line, hjoin, hreturn]
      exact .join (ih depth cs (by simp only [List.length_cons]; omega) hrest)
    · have hr : x ≠ '\r' := fun hr => h.noReturn (by simp [hr])
      have hstray : ∀ es, read depth '\\' (x :: es) = ⟨.stray '\\', 0⟩ := fun es => by simp [read, backslash, hx, hr]
      refine returned_inLine ih h (by decide) ?_ ?_
      · rw [withReturns_cons hx, hstray, hstray]
      · rw [hstray]
        simp

theorem returned_comment (h : Simple depth ('#' :: cs)) :
    Returned (pieces depth ('#' :: cs)) (pieces depth (withReturns ('#' :: cs))) := by
  by_cases hn : '\n' ∈ cs
  · obtain ⟨xs, ds, rfl, hxs⟩ := List.eq_append_cons_of_mem hn
    have hrest : Simple depth ds := h.behind ⟨[_, _], (pieces_comment hxs depth ds).symm⟩ fun e he => by simp [he]
    have hreturn : withReturns ('#' :: (xs ++ '\n' :: ds)) = '#' :: ((xs ++ ['\r']) ++ '\n' :: withReturns ds) := by
      rw [withReturns_cons (by decide), withReturns_append_line hxs, List.append_assoc]
      rfl
    rw [hreturn, pieces_comment hxs, pieces_comment (by simp [hxs]), commentContent_return]
    refine .comment (by simp [hxs]) (ih depth ds ?_ hrest)
    simp only [List.length_append, List.length_cons]
    omega
  · exact returned_lastLine ih h (by decide) hn

end

section

variable {f : StringBody.Flavor} {marker rest : List Char} {q b : Char} (hl : StartsLiteral depth c xs f marker q rest)

include hl

/-- The first piece of a text that starts with a literal. -/
theorem pieces_literal (hb : IsBreak b) (es : List Char) :
    ∃ ps, pieces depth (c :: (xs ++ b :: es)) =
      ⟨(literal f marker.length (StringBody.readQuoted q f.raw (rest ++ b :: es))).content,
        marker ++ q :: (rest ++ b :: es).take (StringBody.readQuoted q f.raw (rest ++ b :: es)).length⟩ :: ps := by
  have hwhole : c :: (xs ++ b :: es) = marker ++ (q :: (rest ++ b :: es)) := by
    rw [← List.cons_append, hl.split, List.append_assoc, List.cons_append]
  generalize hbody : StringBody.readQuoted q f.raw (rest ++ b :: es) = body
  have htext : c :: (xs ++ b :: es).take (marker.length + body.length) =
      marker ++ q :: (rest ++ b :: es).take body.length := by
    calc c :: (xs ++ b :: es).take (marker.length + body.length)
        = (c :: (xs ++ b :: es)).take (marker.length + (body.length + 1)) := rfl
      _ = marker ++ q :: (rest ++ b :: es).take body.length := by
        rw [hwhole, List.take_length_add_append, List.take_succ_cons]
  rw [pieces_cons, hl.read_eq b es hb, hbody, ← htext]
  exact ⟨_, rfl⟩

/-- The literals of a simple text are closed. -/
theorem closed_of_simple (hb : IsBreak b) {es : List Char} (h : Simple depth (c :: (xs ++ b :: es))) :
    (StringBody.readQuoted q f.raw (rest ++ b :: es)).closed = true := by
  obtain ⟨ps, hps⟩ := pieces_literal hl hb es
  refine @closed_of_not_isOpen f marker.length _ fun ⟨k, hk⟩ => ?_
  exact h.closed _ (hps ▸ List.mem_cons_self) k hk

/-- The literals of a simple text have one quote at either end. -/
theorem not_completes_of_simple (hb : IsBreak b) {es : List Char} (h : Simple depth (c :: (xs ++ b :: es))) :
    StringBody.completes q (rest ++ b :: es) = false := by
  obtain ⟨ps, hps⟩ := pieces_literal hl hb es
  rw [← Bool.not_eq_true]
  intro htriple
  refine h.single _ (hps ▸ List.mem_cons_self) (isTriple_of_completes hl.word hl.quote htriple ?_ _)
  rw [StringBody.readQuoted, if_pos htriple, StringBody.Body.length_after]
  omega

/-- A literal that runs over the end of its line is left open. -/
theorem returned_runsOver (h : Simple depth (c :: (xs ++ '\n' :: ds))) (hxs : '\n' ∉ c :: xs)
    (hlen : rest.length < (StringBody.readQuoted q f.raw (rest ++ '\n' :: ds)).length) :
    Returned (pieces depth (c :: (xs ++ '\n' :: ds))) (pieces depth (c :: (xs ++ '\r' :: '\n' :: withReturns ds))) := by
  have hrest : '\n' ∉ rest := fun hmem => hxs (by rw [hl.split]; simp [hmem])
  have hclosed := closed_of_simple hl (.inl rfl) h
  have hsingle := not_completes_of_simple hl (.inl rfl) h
  have hopen := StringBody.not_closed_readQuoted hl.quote hclosed hrest hsingle hlen (withReturns ds)
  have hover : '\n' ∈ (rest ++ '\n' :: ds).take (StringBody.readQuoted q f.raw (rest ++ '\n' :: ds)).length := by
    obtain ⟨n, hn⟩ := Nat.exists_eq_add_of_lt hlen
    rw [hn, Nat.add_assoc, List.take_length_add_append]
    simp
  obtain ⟨ps, hps⟩ := pieces_literal hl (.inl rfl) ds
  obtain ⟨qs, hqs⟩ := pieces_literal hl (.inr rfl) ('\n' :: withReturns ds)
  rw [hps, hqs]
  refine .broken (k := f.kind (StringBody.readQuoted q f.raw (rest ++ '\r' :: '\n' :: withReturns ds)).value) ?_ ?_
  · exact ⟨isLiteral_literal f marker.length _, List.mem_append_right _ (List.mem_cons_of_mem q hover)⟩
  · rw [literal, if_neg hopen]

/-- A literal stays what it is when it is closed within its line, and is left open otherwise. -/
theorem returned_literal (ih : ReturnedBelow ((xs ++ '\n' :: ds).length + 1))
    (h : Simple depth (c :: (xs ++ '\n' :: ds))) (hxs : '\n' ∉ c :: xs) :
    Returned (pieces depth (c :: (xs ++ '\n' :: ds))) (pieces depth (withReturns (c :: (xs ++ '\n' :: ds)))) := by
  obtain ⟨hc, hline⟩ : c ≠ '\n' ∧ '\n' ∉ xs := by simpa [eq_comm] using hxs
  have hreturn := withReturns_append_line hline ds
  by_cases hlen : (StringBody.readQuoted q f.raw (rest ++ '\n' :: ds)).length ≤ rest.length
  · have hclosed := closed_of_simple hl (.inl rfl) h
    have hread := hl.read_eq '\n' ds (.inl rfl)
    have hwithin : marker.length + (StringBody.readQuoted q f.raw (rest ++ '\n' :: ds)).length ≤ xs.length := by
      have hsplit := congrArg List.length hl.split
      simp only [List.length_cons, List.length_append] at hsplit
      omega
    refine returned_inLine ih h hc ?_ ?_
    · rw [hreturn, hl.read_eq _ _ (.inr rfl), hread, StringBody.readQuoted_within hl.quote hclosed hlen]
    · rw [hread]
      show '\n' ∉ (xs ++ '\n' :: ds).take (marker.length + _)
      rw [List.take_append_of_le_length hwithin]
      exact fun hmem => hline (List.mem_of_mem_take hmem)
  · rw [withReturns_cons hc, hreturn]
    exact returned_runsOver hl h hxs (Nat.lt_of_not_le hlen)

end

theorem returned_other (ih : ReturnedBelow (cs.length + 1)) (h : Simple depth (c :: cs)) (hb : c ≠ '\\') (hn : c ≠ '\n')
    (hc : c ≠ '#') :
    Returned (pieces depth (c :: cs)) (pieces depth (withReturns (c :: cs))) := by
  by_cases hline : '\n' ∈ cs
  · obtain ⟨xs, ds, rfl, hxs⟩ := List.eq_append_cons_of_mem hline
    have hreturn := withReturns_append_line hxs ds
    rcases @read_split depth c hb hn hc xs with ⟨f, marker, q, rest, hl⟩ | hread
    · exact returned_literal hl ih h (by simpa [eq_comm] using And.intro hn hxs)
    · have hsame := hread '\n' ds (.inl rfl)
      refine returned_inLine ih h hn ?_ ?_
      · rw [hreturn, hsame, hread _ _ (.inr rfl)]
      · rw [hsame, List.take_append_of_le_length more_read_le]
        exact fun hmem => hxs (List.mem_of_mem_take hmem)
  · exact returned_lastLine ih h hn hline

/-- **What carriage returns do to the pieces of a text.** -/
theorem returned_pieces (h : Simple depth cs) : Returned (pieces depth cs) (pieces depth (withReturns cs)) := by
  have hbelow : ∀ n, ReturnedBelow n := by
    intro n
    induction n with
    | zero =>
      intro depth cs hlt
      omega
    | succ n ih =>
      intro depth cs hlt h
      cases cs with
      | nil => exact .nil
      | cons c cs =>
        have ih : ReturnedBelow (cs.length + 1) := fun d ds hds => ih d ds (Nat.lt_of_lt_of_le hds (Nat.le_of_lt_succ hlt))
        by_cases hn : c = '\n'
        · subst hn
          exact returned_line ih h
        · by_cases hb : c = '\\'
          · subst hb
            exact returned_backslash ih h
          · by_cases hc : c = '#'
            · subst hc
              exact returned_comment ih h
            · exact returned_other ih h hb hn hc
  exact hbelow (cs.length + 1) depth cs (Nat.lt_succ_self _) h

theorem isLiteral_lineEnd (depth : Nat) : (lineEnd depth).isLiteral = false := by
  unfold lineEnd
  split <;> rfl

variable {ps qs : List Piece}

/-- Without literals that run over a line end, a text with returns holds what it held before. -/
theorem Returned.contents_eq (h : Returned ps qs) (hps : ∀ p ∈ ps, ¬ p.RunsOver) :
    (qs.map Piece.content).filter (· ≠ .blank) = (ps.map Piece.content).filter (· ≠ .blank) := by
  induction h with
  | nil => rfl
  | inLine _ _ ih =>
    have hrest := ih (List.forall_mem_cons.1 hps).2
    simp only [List.map_cons, List.filter_cons, hrest]
  | line _ ih =>
    have hrest := ih (List.forall_mem_cons.1 hps).2
    simp only [List.map_cons, List.filter_cons, hrest]
    rfl
  | join _ ih => exact ih (List.forall_mem_cons.1 hps).2
  | comment _ _ ih =>
    have hrest := ih (List.forall_mem_cons.1 (List.forall_mem_cons.1 hps).2).2
    simp only [List.map_cons, List.filter_cons, hrest]
  | broken hover => exact absurd hover (hps _ List.mem_cons_self)

/-- If a text with returns has no open literal, no literal ran over a line end. -/
theorem Returned.not_runsOver (h : Returned ps qs)
    (hqs : ∀ q ∈ qs, ∀ k, q.content ≠ .token k (some .unterminatedString)) : ∀ p ∈ ps, ¬ p.RunsOver := by
  have hend : ∀ depth text, ¬ RunsOver ⟨lineEnd depth, text⟩ := fun depth text hover => by
    have hliteral := hover.1
    rw [isLiteral_lineEnd] at hliteral
    cases hliteral
  induction h with
  | nil => simp
  | inLine hline _ ih =>
    exact List.forall_mem_cons.2 ⟨fun hover => hline hover.2, ih (List.forall_mem_cons.1 hqs).2⟩
  | line _ ih =>
    have hrest := (List.forall_mem_cons.1 (List.forall_mem_cons.1 hqs).2).2
    exact List.forall_mem_cons.2 ⟨hend _ _, ih hrest⟩
  | comment hline _ ih =>
    have hrest := (List.forall_mem_cons.1 (List.forall_mem_cons.1 hqs).2).2
    exact List.forall_mem_cons.2 ⟨fun hover => hline hover.2, List.forall_mem_cons.2 ⟨hend _ _, ih hrest⟩⟩
  | join _ ih =>
    refine List.forall_mem_cons.2 ⟨fun hover => ?_, ih (List.forall_mem_cons.1 hqs).2⟩
    cases hover.1
  | broken _ hopen => exact absurd hopen (hqs _ List.mem_cons_self _)

end Piece

/-- The kind of a token with its payload, and where the token starts unless it ends a line. -/
def Token.landmark (t : Token) : TokenKind × Option Position :=
  (t.kind, if t.kind.isLineEnd then none else some t.span.first)

namespace Lexed

open Piece

variable {ps qs : List Piece}

theorem placed_cons (p : Position) (piece : Piece) (ps : List Piece) :
    placed p (piece :: ps) = placed p [piece] ++ placed (p.after piece.text) ps := by
  obtain ⟨content, text⟩ := piece
  cases content <;> rfl

/-- Where a piece ends does not matter to its landmark. -/
theorem landmark_placed (p : Position) (content : Content) (text text' : List Char) :
    (placed p [⟨content, text⟩]).map Token.landmark = (placed p [⟨content, text'⟩]).map Token.landmark := by
  cases content <;> rfl

/-- Where a line ends does not matter to its landmark. -/
theorem landmark_lineEnd (p q : Position) (depth : Nat) (text : List Char) :
    (placed p [⟨lineEnd depth, text⟩]).map Token.landmark = (placed q [⟨lineEnd depth, text⟩]).map Token.landmark := by
  unfold lineEnd
  split <;> rfl

theorem landmarks_returned (h : Returned ps qs) (hps : ∀ p ∈ ps, ¬ p.RunsOver) (p : Position) :
    (placed p qs).map Token.landmark = (placed p ps).map Token.landmark := by
  have hreturn : ∀ p : Position, (p.after ['\r']).after ['\n'] = p.after ['\n'] := fun _ => rfl
  induction h generalizing p with
  | nil => rfl
  | inLine _ _ ih =>
    have hrest := ih (List.forall_mem_cons.1 hps).2
    rw [placed_cons, List.map_append, hrest, ← List.map_append, ← placed_cons]
  | @line depth ps qs _ ih =>
    have hrest := ih (List.forall_mem_cons.1 hps).2 (p.after ['\n'])
    have hend := landmark_lineEnd (p.after ['\r']) p depth ['\n']
    show (placed (p.after ['\r']) (⟨lineEnd depth, ['\n']⟩ :: qs)).map Token.landmark = _
    rw [placed_cons, placed_cons p _ ps, List.map_append, List.map_append, hend, hreturn, hrest]
  | @comment content text depth ps qs _ _ ih =>
    have hrest := ih (List.forall_mem_cons.1 (List.forall_mem_cons.1 hps).2).2 ((p.after text).after ['\n'])
    have hfirst := landmark_placed p content (text ++ ['\r']) text
    have hend := landmark_lineEnd ((p.after text).after ['\r']) (p.after text) depth ['\n']
    rw [placed_cons, placed_cons p _ (_ :: ps), placed_cons _ _ ps, placed_cons _ _ qs]
    simp only [List.map_append, Position.after_append]
    rw [hfirst, hend, hreturn, hrest]
  | join _ ih => exact ih (List.forall_mem_cons.1 hps).2 _
  | broken hover => exact absurd hover (hps _ List.mem_cons_self)

/-- The landmarks of a text without issues are those of its pieces, and the end of the file. -/
theorem landmarks_ofChars {cs : List Char} (h : (ofChars cs).issues = []) :
    (ofChars cs).tokens.map Token.landmark =
      (placed .start (pieces 0 cs)).map Token.landmark ++ [(.eof, none)] := by
  have hself := ofPieces_append h []
  rw [List.append_nil] at hself
  rw [ofChars, hself]
  exact List.map_append

/-- **What line endings matter to.** In a text without carriage returns and without triple quotes that has no issue, line
ends are replaced by a carriage return and a line end. There is still no issue just when no literal ran over a line end,
and then the tokens are the same and start in the same places. A literal that did so, by a backslash in front of the line
end, is left open. -/
theorem ofFile_withReturns {name s : String} (hr : '\r' ∉ s.toList) (hissues : (ofFile ⟨name, s⟩).issues = [])
    (htriple : ∀ p ∈ Piece.pieces 0 s.toList, ¬ p.IsTriple) :
    ((ofFile ⟨name, String.ofList (withReturns s.toList)⟩).issues = [] ↔
        ∀ p ∈ Piece.pieces 0 s.toList, ¬ p.RunsOver) ∧
      ((∀ p ∈ Piece.pieces 0 s.toList, ¬ p.RunsOver) →
        (ofFile ⟨name, String.ofList (withReturns s.toList)⟩).tokens.map Token.landmark =
          (ofFile ⟨name, s⟩).tokens.map Token.landmark) := by
  have hreturned : Returned (pieces 0 s.toList) (pieces 0 (withReturns s.toList)) :=
    returned_pieces ⟨hr, not_isOpen_of_issues_eq_nil hissues, htriple⟩
  have hclean : (∀ p ∈ Piece.pieces 0 s.toList, ¬ p.RunsOver) → (ofChars (withReturns s.toList)).issues = [] := by
    intro hps
    rw [ofChars, issues_eq_nil_iff, hreturned.contents_eq hps]
    exact issues_ofChars_eq_nil_iff.1 hissues
  simp only [ofFile, String.toList_ofList] at hissues ⊢
  refine ⟨⟨fun h => ?_, hclean⟩, fun hps => ?_⟩
  · exact hreturned.not_runsOver (not_isOpen_of_issues_eq_nil h)
  · rw [landmarks_ofChars hissues, landmarks_ofChars (hclean hps), landmarks_returned hreturned hps]

/-- Brackets over several lines, a comment, two lines that are joined, and a literal that fills its line. -/
def plainLines : String := "x: Dict[str,  # both\n  int] = f(\n)  # OK\ny = 1 + \\\n  'a\\'b'\n"

theorem ofFile_withReturns_lines :
    '\r' ∉ plainLines.toList ∧ (ofFile ⟨"a.py", plainLines⟩).issues = [] ∧
      (∀ p ∈ Piece.pieces 0 plainLines.toList, ¬ p.IsTriple) ∧
      (ofFile ⟨"a.py", String.ofList (withReturns plainLines.toList)⟩).issues = [] ∧
      (ofFile ⟨"a.py", String.ofList (withReturns plainLines.toList)⟩).tokens.map Token.landmark =
        (ofFile ⟨"a.py", plainLines⟩).tokens.map Token.landmark := by
  have hr : '\r' ∉ plainLines.toList := by decide +kernel
  have hissues : (ofFile ⟨"a.py", plainLines⟩).issues = [] := by decide +kernel
  have htriple : ∀ p ∈ Piece.pieces 0 plainLines.toList, ¬ p.IsTriple := by decide +kernel
  have hover : ∀ p ∈ Piece.pieces 0 plainLines.toList, ¬ p.RunsOver := by decide +kernel
  obtain ⟨hclean, hsame⟩ := ofFile_withReturns hr hissues htriple
  exact ⟨hr, hissues, htriple, hclean.2 hover, hsame hover⟩

/-- A literal that goes on behind an escaped line end is read without an issue, and is left open with a carriage return in
front of the line end. -/
theorem joined_literal_broken :
    '\r' ∉ "x = \"a\\\nb\"\n".toList ∧ (ofFile ⟨"a.py", "x = \"a\\\nb\"\n"⟩).issues = [] ∧
      (∀ p ∈ Piece.pieces 0 "x = \"a\\\nb\"\n".toList, ¬ p.IsTriple) ∧
      (ofFile ⟨"a.py", String.ofList (withReturns "x = \"a\\\nb\"\n".toList)⟩).issues ≠ [] := by
  decide +kernel

end Lexed

end AnnotationChecker
