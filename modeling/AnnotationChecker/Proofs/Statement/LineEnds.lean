import AnnotationChecker.Proofs.Statement.Recovery
/-!
# Where a line is over

What drops the rest of a line, skips blank lines or a block, or ends a line, stops where a line is over: behind a
newline, or at the end of the file (`Line.Past`).
-/

namespace AnnotationChecker.Line

theorem endsHere_iff {ts : List Token} :
    endsHere ts = true ↔ (head ts).kind = .newline ∨ (head ts).kind = .eof := by
  unfold endsHere
  generalize (head ts).kind = k
  cases k <;> simp [TokenKind.isLineEnd]

/-- The line at the front of some tokens is over: its newline was taken, or only the end of the file is left. -/
def Past (ts rest : List Token) : Prop :=
  ∃ taken, ts = taken ++ rest ∧ ((∃ t ∈ taken.getLast?, t.kind = .newline) ∨ (head rest).kind = .eof)

namespace Past

variable {t : Token} {ts us rest : List Token}

theorem of_eof (h : (head ts).kind = .eof) : Past ts ts := ⟨[], rfl, .inr h⟩

theorem of_newline (h : t.kind = .newline) : Past (t :: ts) ts := ⟨[t], rfl, .inl ⟨t, rfl, h⟩⟩

/-- More tokens in front. -/
theorem append (h : Past us rest) (ts : List Token) : Past (ts ++ us) rest := by
  obtain ⟨taken, rfl, hover⟩ := h
  refine ⟨ts ++ taken, (List.append_assoc ..).symm, hover.imp_left ?_⟩
  rintro ⟨t, ht, hk⟩
  refine ⟨t, ?_, hk⟩
  rw [List.getLast?_append, Option.mem_def.1 ht]
  rfl

theorem cons (h : Past us rest) (t : Token) : Past (t :: us) rest := h.append [t]

theorem trans (h : Past ts us) (h' : Past us rest) : Past ts rest := by
  obtain ⟨taken, rfl, -⟩ := h
  exact h'.append taken

theorem of_took {P : TokenKind → Prop} (h : Took P ts us) (h' : Past us rest) : Past ts rest := by
  obtain ⟨taken, rfl, -⟩ := h
  exact h'.append taken

/-- A token was taken, and what is left is behind it, unless that is the end of the file. -/
theorem behind (h : Past ts rest) : (head rest).kind = .eof ∨ ∃ t us, ts = t :: us ∧ rest <:+ us := by
  obtain ⟨taken, rfl, hover⟩ := h
  cases taken with
  | nil => exact .inl (hover.resolve_left (by simp))
  | cons t taken => exact .inr ⟨t, taken ++ rest, rfl, List.suffix_append taken rest⟩

end Past

theorem past_drop (ts : List Token) : Past ts (drop ts) := by
  induction ts with
  | nil => exact .of_eof rfl
  | cons t ts ih =>
    rw [drop]
    split
    · next heof => exact .of_eof heof
    · split
      · next hnl => exact .of_newline hnl
      · exact ih.cons t

theorem past_close (expectation : Option Expectation) (ts : List Token) : Past ts (close expectation ts).rest := by
  unfold close
  simp only
  split
  · next heof => exact .of_eof heof
  · split
    · next hnl =>
      cases ts with
      | nil => cases hnl
      | cons t ts => exact .of_newline hnl
    · exact past_drop ts

theorem past_finish (ts : List Token) : Past ts (finish ts).rest := by
  unfold finish
  split
  · next hbody =>
    cases ts with
    | nil => cases hbody
    | cons t ts => exact (past_close _ ts).cons t
  · exact past_close _ ts

/-- Skipping a block takes nothing, or whole lines. -/
theorem skipBlock_eq_or_past (ts : List Token) : (skipBlock ts).2 = ts ∨ Past ts (skipBlock ts).2 := by
  -- a line that is dropped is over, whether there are more of them or not
  have hover {t : Token} {us : List Token} (h : (skipBlock (drop us)).2 = drop us ∨ Past (drop us) (skipBlock (drop us)).2) :
      Past (t :: us) (skipBlock (drop us)).2 := by
    rcases h with h | h
    · rw [h]
      exact (past_drop us).cons t
    · exact ((past_drop us).cons t).trans h
  fun_induction skipBlock ts with
  | case1 => exact .inl rfl
  | case2 t ts hnl ih =>
    rcases ih with ih | ih
    · rw [ih]
      exact .inr (.of_newline hnl)
    · exact .inr (ih.cons t)
  | case3 => exact .inl rfl
  | case4 t ts _ _ _ ih => exact .inr (hover ih)
  | case5 t ts _ _ _ _ _ ih => exact .inr (hover ih)
  | case6 => exact .inl rfl

theorem Past.skipBlock {ts us : List Token} (h : Past ts us) : Past ts (Line.skipBlock us).2 := by
  rcases skipBlock_eq_or_past us with heq | hpast
  · rwa [heq]
  · exact h.trans hpast

/-- Skipping blank lines takes nothing, or whole lines. -/
theorem skipBlank_eq_or_past (ts : List Token) : skipBlank ts = ts ∨ Past ts (skipBlank ts) := by
  induction ts with
  | nil => exact .inl rfl
  | cons t ts ih =>
    rw [skipBlank]
    split
    · next hblank =>
      rcases ih with ih | ih
      · rw [ih]
        rcases hblank with hnl | ⟨-, hends⟩
        · exact .inr (.of_newline hnl)
        · -- a comment that no newline follows stands at the end of the file
          have hnl : (head ts).kind ≠ .newline := ih ▸ Parsed.head_skipBlank_ne_newline ts
          have heof : (head ts).kind = .eof := (endsHere_iff.1 hends).resolve_left hnl
          exact .inr ((Past.of_eof heof).cons t)
      · exact .inr (ih.cons t)
    · exact .inl rfl

theorem Past.skipBlank {ts us : List Token} (h : Past ts us) : Past ts (Line.skipBlank us) := by
  rcases skipBlank_eq_or_past us with heq | hpast
  · rwa [heq]
  · exact h.trans hpast

end AnnotationChecker.Line
