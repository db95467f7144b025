import Mathlib.Data.List.Forall2
import AnnotationChecker.Proofs.Token.LineEnd
/-!
# Blanks in a text

Blanks stand for some inert characters of a text. Where none of its own characters is replaced, a piece is read as it was
before (`Piece.read_blanked`): what reads ahead finds a blank where it found an inert character, and stops there as well.
-/

namespace AnnotationChecker

/-! ## Texts with blanks -/

/-- A character that stays, or the blank for an inert one that does not belong to the end of a line. -/
def BlankFor (c d : Char) : Prop := d = c ∨ (IsInert c ∧ ¬ IsBreak c ∧ d = ' ')

/-- A text with blanks for some of its characters. -/
def Blanked : List Char → List Char → Prop := List.Forall₂ BlankFor

/-- No blank takes the place of these characters. -/
def Stays (c : Char) : Prop := ¬ IsInert c ∨ IsBreak c

theorem BlankFor.refl (c : Char) : BlankFor c c := .inl rfl

theorem BlankFor.eq_iff {c d q : Char} (h : BlankFor c d) (hq : Stays q) : d = q ↔ c = q := by
  have hblank : ' ' ≠ q := by
    rintro rfl
    exact hq.elim (fun h => h (by decide)) (by simp [IsBreak])
  rcases h with rfl | ⟨hc, hbreak, rfl⟩
  · rfl
  · refine iff_of_false hblank ?_
    rintro rfl
    exact hq.elim (fun h => h hc) hbreak

namespace Blanked

variable {c : Char} {cs ds xs ys : List Char} {n : Nat}

theorem refl (cs : List Char) : Blanked cs cs := List.forall₂_same.2 fun c _ => .refl c

theorem append (h : Blanked cs ds) (h' : Blanked xs ys) : Blanked (cs ++ xs) (ds ++ ys) := List.rel_append h h'

theorem drop (h : Blanked cs ds) (n : Nat) : Blanked (cs.drop n) (ds.drop n) := List.forall₂_drop n h

theorem agree (h : Blanked cs ds) : Agree cs ds := by
  induction h with
  | nil => exact .stop (by simp) (by simp)
  | @cons c d cs ds hc _ ih =>
    rcases hc with rfl | ⟨hc, -, rfl⟩
    · exact .cons d ih
    · exact .stop (by simpa using hc) (by simp; decide)

/-- A character that stays is the first one of both. -/
theorem cons_of_stays (h : Blanked (c :: cs) ds) (hc : Stays c) : ∃ es, ds = c :: es ∧ Blanked cs es := by
  obtain ⟨d, es, hd, hes, rfl⟩ := List.forall₂_cons_left_iff.1 h
  exact ⟨es, by rw [(hd.eq_iff hc).2 rfl], hes⟩

/-- So is one that is taken in both. -/
theorem cons_of_take (h : Blanked (c :: cs) ds) (ht : ds.take (n + 1) = (c :: cs).take (n + 1)) :
    ∃ es, ds = c :: es ∧ Blanked cs es ∧ es.take n = cs.take n := by
  obtain ⟨d, es, -, hes, rfl⟩ := List.forall₂_cons_left_iff.1 h
  rw [List.take_succ_cons, List.take_succ_cons, List.cons.injEq] at ht
  obtain ⟨rfl, ht⟩ := ht
  exact ⟨es, rfl, hes, ht⟩

theorem head?_eq_some_iff (h : Blanked cs ds) (hc : Stays c) : ds.head? = some c ↔ cs.head? = some c := by
  cases h with
  | nil => rfl
  | cons hd _ => rw [List.head?_cons, List.head?_cons, Option.some_inj, Option.some_inj, hd.eq_iff hc]

/-- A line whose own characters stay is the same. -/
theorem takeWhile_line (h : Blanked cs ds)
    (ht : ds.take (cs.takeWhile (· != '\n')).length = cs.take (cs.takeWhile (· != '\n')).length) :
    ds.takeWhile (· != '\n') = cs.takeWhile (· != '\n') := by
  induction cs generalizing ds with
  | nil => rw [List.forall₂_nil_left_iff.1 h]
  | cons c cs ih =>
    by_cases hc : c = '\n'
    · subst hc
      obtain ⟨es, rfl, -⟩ := h.cons_of_stays (.inr (.inl rfl))
      rfl
    · rw [List.takeWhile_cons_of_pos (by simpa using hc)] at ht ⊢
      obtain ⟨es, rfl, hes, ht⟩ := h.cons_of_take ht
      rw [List.takeWhile_cons_of_pos (by simpa using hc), ih hes ht]

end Blanked

theorem take_drop_congr {cs ds : List Char} {m n : Nat} (h : ds.take (m + n) = cs.take (m + n)) :
    (ds.drop m).take n = (cs.drop m).take n := by
  simpa [List.drop_take] using congrArg (List.drop m) h

/-! ## Literals -/

namespace StringBody

variable {q : Char} {triple raw : Bool} {cs ds : List Char}

theorem completes_blanked (hq : Stays q) (h : Blanked cs ds) : completes q ds = completes q cs := by
  rcases h with _ | ⟨ha, _ | ⟨hb, _⟩⟩
  · rfl
  · rfl
  · rw [completes, completes, Bool.eq_iff_iff]
    simp only [Bool.and_eq_true, beq_iff_eq, ha.eq_iff hq, hb.eq_iff hq]

/-- A body whose own characters stay is the same. -/
theorem read_blanked (hq : Stays q) (h : Blanked cs ds)
    (ht : ds.take (read q triple raw cs).length = cs.take (read q triple raw cs).length) :
    read q triple raw ds = read q triple raw cs := by
  fun_induction read q triple raw cs generalizing ds with
  | case1 =>
    cases h
    rfl
  | case2 c cs hn =>
    obtain ⟨es, rfl, -⟩ := h.cons_of_stays (.inr (.inl hn.1))
    rw [read.eq_def]
    simp [hn]
  | case3 cs htriple hn =>
    obtain ⟨es, rfl, -⟩ := h.cons_of_stays hq
    subst htriple
    exact read_quote (fun hq => hn ⟨hq, rfl⟩) raw es
  | case4 cs htriple hc =>
    obtain ⟨es, rfl, hes⟩ := h.cons_of_stays hq
    have hc' : completes q es = true := by rw [completes_blanked hq hes, hc]
    rw [read.eq_def]
    simp [htriple, hc']
  | case5 cs htriple hc _ ih =>
    rw [Body.length_after, Nat.add_comm] at ht
    obtain ⟨es, rfl, hes, ht⟩ := h.cons_of_take ht
    simp only [Bool.not_eq_false] at htriple
    subst htriple
    have hc' : completes q es = false := by
      rw [completes_blanked hq hes]
      simpa using hc
    rw [read.eq_def]
    simp [hc', ih hes ht]
  | case6 hn hq' =>
    obtain ⟨es, rfl, hes, -⟩ := h.cons_of_take ht
    cases hes
    rw [read.eq_def]
    simp [hq']
  | case7 cs hraw hn hq' ih =>
    subst hraw
    rw [Body.length_after, Nat.add_comm] at ht
    obtain ⟨es, rfl, hes, ht⟩ := h.cons_of_take ht
    have ih := ih hes ht
    obtain ⟨fs, rfl, -⟩ := hes.cons_of_stays (.inr (.inl rfl))
    rw [read.eq_def]
    simp [hq', ih]
  | case8 d cs hraw hd hn hq' ih =>
    subst hraw
    rw [Body.length_after, Nat.add_comm] at ht
    obtain ⟨es, rfl, hes, ht⟩ := h.cons_of_take ht
    obtain ⟨fs, rfl, hfs, ht⟩ := hes.cons_of_take ht
    rw [read_protected hq' hd, ih hfs ht]
  | case9 d cs hraw hn hq' ih =>
    simp only [Bool.not_eq_true] at hraw
    subst hraw
    rw [Body.length_after, Nat.add_comm] at ht
    obtain ⟨es, rfl, hes, ht⟩ := h.cons_of_take ht
    obtain ⟨fs, rfl, hfs, ht⟩ := hes.cons_of_take ht
    rw [read_escape hq', ih hfs ht]
  | case10 d cs hn hq' hb ih =>
    rw [Body.length_after, Nat.add_comm] at ht
    obtain ⟨es, rfl, hes, ht⟩ := h.cons_of_take ht
    rw [read_other hn hq' hb, ih hes ht]

theorem readQuoted_blanked (hq : Stays q) (h : Blanked cs ds)
    (ht : ds.take (readQuoted q raw cs).length = cs.take (readQuoted q raw cs).length) :
    readQuoted q raw ds = readQuoted q raw cs := by
  unfold readQuoted at ht ⊢
  rw [completes_blanked hq h]
  split at ht
  · next hc =>
    rw [if_pos hc, if_pos hc, read_blanked hq (h.drop 2) (take_drop_congr ht)]
  · next hc => rw [if_neg hc, if_neg hc, read_blanked hq h ht]

end StringBody

/-! ## Pieces -/

namespace Piece

variable {depth : Nat} {c : Char} {cs ds : List Char}

theorem stays_of_quote {q : Char} (hq : q = '\x22' ∨ q = '\x27') : Stays q := by
  rcases hq with rfl | rfl <;> exact .inl (by decide)

theorem word_blanked (h : Blanked cs ds) (ht : ds.take (word c cs).more = cs.take (word c cs).more) :
    word c ds = word c cs := by
  have hdrop := h.drop (cs.takeWhile isWordChar).length
  unfold word at ht ⊢
  dsimp only at ht ⊢
  rw [h.agree.takeWhile And.left]
  cases hcs : cs.drop (cs.takeWhile isWordChar).length with
  | nil =>
    rw [hcs] at hdrop
    rw [List.forall₂_nil_left_iff.1 hdrop]
  | cons q rest =>
    rw [hcs] at hdrop ht
    obtain ⟨d, rest', hd, hrest, hds⟩ := List.forall₂_cons_left_iff.1 hdrop
    have hquote : (d = '\x22' ∨ d = '\x27') ↔ (q = '\x22' ∨ q = '\x27') := by
      rw [hd.eq_iff (stays_of_quote (.inl rfl)), hd.eq_iff (stays_of_quote (.inr rfl))]
    rw [hds]
    dsimp only at ht ⊢
    by_cases hq : q = '\x22' ∨ q = '\x27'
    · rw [if_pos hq] at ht
      rw [if_pos (hquote.2 hq), if_pos hq, (hd.eq_iff (stays_of_quote hq)).2 rfl]
      cases hf : StringBody.Flavor.ofMarker? (c :: cs.takeWhile isWordChar) with
      | none => rfl
      | some f =>
        rw [hf] at ht
        have hbody := take_drop_congr ht
        rw [← List.drop_drop, ← List.drop_drop, hcs, hds] at hbody
        dsimp only
        rw [StringBody.readQuoted_blanked (stays_of_quote hq) hrest hbody]
    · rw [if_neg (hquote.not.2 hq), if_neg hq]

theorem backslash_eq (cs : List Char) : backslash cs =
    if cs.head? = some '\n' then ⟨.blank, 1⟩
    else if cs.head? = some '\r' ∧ (cs.drop 1).head? = some '\n' then ⟨.blank, 2⟩
    else ⟨.stray '\\', 0⟩ := by
  unfold backslash
  split
  · rfl
  · rfl
  · next hline hreturn =>
    rw [if_neg, if_neg]
    · rintro ⟨h, h'⟩
      obtain ⟨es, rfl⟩ := List.head?_eq_some_iff.1 h
      obtain ⟨fs, rfl⟩ := List.head?_eq_some_iff.1 h'
      exact hreturn fs rfl
    · intro h
      obtain ⟨es, rfl⟩ := List.head?_eq_some_iff.1 h
      exact hline es rfl

theorem backslash_blanked (h : Blanked cs ds) : backslash ds = backslash cs := by
  have hline : Stays '\n' := .inr (.inl rfl)
  have hreturn : Stays '\r' := .inr (.inr rfl)
  simp only [backslash_eq, h.head?_eq_some_iff hline, h.head?_eq_some_iff hreturn, (h.drop 1).head?_eq_some_iff hline]

theorem comment_blanked (h : Blanked cs ds) (ht : ds.take (comment depth cs).more = cs.take (comment depth cs).more) :
    comment depth ds = comment depth cs := by
  rw [comment, comment, h.takeWhile_line ht]

/-- A piece whose own characters stay is the same. -/
theorem read_blanked (h : Blanked cs ds)
    (ht : ds.take (read depth c cs).more = cs.take (read depth c cs).more) : read depth c ds = read depth c cs := by
  by_cases hb : c = '\\'
  · subst hb
    simp [read, backslash_blanked h]
  · by_cases hn : c = '\n'
    · subst hn
      simp [read]
    · by_cases hc : c = '#'
      · subst hc
        exact comment_blanked h ht
      · by_cases hq : c = '\x22' ∨ c = '\x27'
        · rw [read_of_quote hq] at ht ⊢
          rw [read_of_quote hq, StringBody.readQuoted_blanked (stays_of_quote hq) h (by simpa [literal] using ht)]
        · by_cases hw : isWordStart c = true
          · rw [read_of_isWordStart hw] at ht ⊢
            rw [read_of_isWordStart hw, word_blanked h ht]
          · exact read_of_agree h.agree hb hn hc hq hw

end Piece

end AnnotationChecker
