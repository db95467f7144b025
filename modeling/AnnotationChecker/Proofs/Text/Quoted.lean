import AnnotationChecker.Text.Quoted
/-!
# Reading a quoted text back

Between quotes a character that does not show is written `\u\x7bhex\x7d`, an escape that the readers of source
texts do not know: they keep it as it is written. `reread` is the text that they find.
-/

namespace AnnotationChecker.Text

/-- Is a character written by its number? -/
def IsHexEscaped (c : Char) : Prop := ['\\', 'u', '\x7b'] <+: quoteChar c

instance (c : Char) : Decidable (IsHexEscaped c) := inferInstanceAs (Decidable (_ <+: _))

/-- What a quoted character is read as. -/
def rereadChar (c : Char) : List Char := if IsHexEscaped c then quoteChar c else [c]

/-- What a quoted text is read as. -/
def rereadChars (cs : List Char) : List Char := cs.flatMap rereadChar

/-- A text as it is read between its quotes. -/
def reread (s : String) : String := String.ofList (rereadChars s.toList)

theorem isHexEscaped_iff {c : Char} : IsHexEscaped c ↔ escapeLetter c = none ∧ showsItself c = false := by
  unfold IsHexEscaped quoteChar
  constructor
  · intro h
    split at h
    · next l _ => simp at h
    · next he =>
      split at h
      · simp at h
      · next hs => exact ⟨he, by simpa using hs⟩
  · rintro ⟨he, hs⟩
    simp [he, hs]

/-- The three ways in which a character is written between quotes. -/
theorem quoteChar_cases (c : Char) :
    (∃ l, escapeLetter c = some l ∧ quoteChar c = ['\\', l] ∧ ¬ IsHexEscaped c) ∨
      (escapeLetter c = none ∧ quoteChar c = [c] ∧ ¬ IsHexEscaped c) ∨
      (quoteChar c = ['\\', 'u', '\x7b'] ++ hexDigits c.toNat ++ ['\x7d'] ∧ IsHexEscaped c) := by
  rw [isHexEscaped_iff]
  unfold quoteChar
  cases he : escapeLetter c with
  | some l => simp
  | none =>
    cases hs : showsItself c with
    | true => simp
    | false => simp

theorem rereadChar_of_not {c : Char} (h : ¬ IsHexEscaped c) : rereadChar c = [c] := if_neg h

theorem two_le_length_quoteChar {c : Char} (h : IsHexEscaped c) : 2 ≤ (quoteChar c).length := by
  obtain ⟨t, ht⟩ := h
  simp [← ht]

/-- A text is not read as a shorter one. -/
theorem length_le_rereadChars (cs : List Char) : cs.length ≤ (rereadChars cs).length := by
  induction cs with
  | nil => simp
  | cons c cs ih =>
    have hc : 1 ≤ (rereadChar c).length := by
      unfold rereadChar
      split
      · next h => exact Nat.le_of_succ_le (two_le_length_quoteChar h)
      · simp
    simp only [rereadChars, List.flatMap_cons, List.length_cons, List.length_append] at ih ⊢
    omega

/-- A text is read as itself when no character of it is written by its number, and only then. -/
theorem rereadChars_eq_self_iff {cs : List Char} : rereadChars cs = cs ↔ ∀ c ∈ cs, ¬ IsHexEscaped c := by
  induction cs with
  | nil => simp [rereadChars]
  | cons c cs ih =>
    have hcons : rereadChars (c :: cs) = rereadChar c ++ rereadChars cs := List.flatMap_cons
    rw [hcons, List.forall_mem_cons]
    by_cases hc : IsHexEscaped c
    · -- one escaped character is read as several, and nothing makes up for them
      have htwo := two_le_length_quoteChar hc
      have hle := length_le_rereadChars cs
      refine iff_of_false (fun he => ?_) fun h => h.1 hc
      have hlen := congrArg List.length he
      simp only [rereadChar, if_pos hc, List.length_append, List.length_cons] at hlen
      omega
    · rw [rereadChar_of_not hc, List.singleton_append, List.cons.injEq, ih]
      simp [hc]

theorem reread_eq_self_iff {s : String} : reread s = s ↔ ∀ c ∈ s.toList, ¬ IsHexEscaped c := by
  rw [← rereadChars_eq_self_iff, reread, ← String.toList_inj, String.toList_ofList]

end AnnotationChecker.Text
