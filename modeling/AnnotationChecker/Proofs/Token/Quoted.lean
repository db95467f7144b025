import AnnotationChecker.Proofs.Text.Quoted
import AnnotationChecker.Proofs.Token.Contents
/-!
# Quoted texts as tokens

A quoted text is one string token. What it stands for is the text that `Text.rereadChars` gives.
-/

namespace AnnotationChecker.StringBody

open AnnotationChecker.Text (escapeLetter quoteChar rereadChar rereadChars hexDigits quoteChar_cases)

/-- A character that stands for itself in a body. -/
def IsPlain (c : Char) : Prop := c ≠ '\n' ∧ c ≠ '\x22' ∧ c ≠ '\\'

variable {c : Char} {cs : List Char}

theorem read_plain (h : IsPlain c) : read '\x22' false false (c :: cs) = (read '\x22' false false cs).after 1 [c] := by
  obtain ⟨hn, hq, hb⟩ := h
  exact read_other (fun h => hn h.1) hq hb false cs

theorem after_after (m n : Nat) (vs ws : List Char) (b : Body) :
    (b.after n ws).after m vs = b.after (m + n) (vs ++ ws) := by
  simp [Body.after, Nat.add_assoc]

theorem read_plains {xs : List Char} (h : ∀ c ∈ xs, IsPlain c) :
    read '\x22' false false (xs ++ cs) = (read '\x22' false false cs).after xs.length xs := by
  induction xs with
  | nil => simp [Body.after]
  | cons x xs ih =>
    rw [List.cons_append, read_plain (h x (by simp)), ih fun e he => h e (List.mem_cons_of_mem _ he), after_after]
    simp [Nat.add_comm]

theorem read_backslash (l : Char) :
    read '\x22' false false ('\\' :: l :: cs) = (read '\x22' false false cs).after 2 (escape l) :=
  read_escape (by decide) false l cs

theorem escape_of_escapeLetter {l : Char} (h : escapeLetter c = some l) : escape l = [c] := by
  unfold escapeLetter at h
  repeat' split at h
  all_goals first
    | cases h; simp_all [escape]
    | cases h

theorem isPlain_of_escapeLetter (h : escapeLetter c = none) : IsPlain c := by
  refine ⟨?_, ?_, ?_⟩ <;> rintro rfl <;> simp [escapeLetter] at h

theorem isPlain_digitChar (n : Nat) : IsPlain n.digitChar := by
  unfold IsPlain
  simp

theorem isPlain_of_mem_hexDigits {n : Nat} (h : c ∈ hexDigits n) : IsPlain c := by
  induction n using Nat.strongRecOn with
  | _ n ih =>
    unfold hexDigits at h ih
    rw [Nat.toDigits_eq_if (by decide)] at h
    split at h
    · rw [List.mem_singleton] at h
      exact h ▸ isPlain_digitChar n
    · rcases List.mem_append.1 h with h | h
      · exact ih (n / 16) (by omega) h
      · rw [List.mem_singleton] at h
        exact h ▸ isPlain_digitChar _

theorem read_quoteChar (c : Char) (cs : List Char) :
    read '\x22' false false (quoteChar c ++ cs) =
      (read '\x22' false false cs).after (quoteChar c).length (rereadChar c) := by
  unfold rereadChar
  rcases quoteChar_cases c with ⟨l, hl, hq, hn⟩ | ⟨hl, hq, hn⟩ | ⟨hq, hx⟩
  · rw [if_neg hn, hq, ← escape_of_escapeLetter hl]
    exact read_backslash l
  · rw [if_neg hn, hq]
    exact read_plain (isPlain_of_escapeLetter hl)
  · -- the reader knows no escape `u`: it keeps the backslash and takes the braces and digits as they stand
    have hdigits : ∀ e ∈ '\x7b' :: (hexDigits c.toNat ++ ['\x7d']), IsPlain e := by
      intro e he
      simp only [List.mem_cons, List.mem_append, List.not_mem_nil, or_false] at he
      rcases he with rfl | he | rfl
      · unfold IsPlain; decide
      · exact isPlain_of_mem_hexDigits he
      · unfold IsPlain; decide
    have hu : escape 'u' = ['\\', 'u'] := by decide
    have hlen : (['\\', 'u', '\x7b'] ++ hexDigits c.toNat ++ ['\x7d']).length =
        2 + ('\x7b' :: (hexDigits c.toNat ++ ['\x7d'])).length := by
      simp only [List.length_append, List.length_cons, List.length_nil]
      omega
    rw [if_pos hx, hq, hlen]
    show read '\x22' false false ('\\' :: 'u' :: ('\x7b' :: (hexDigits c.toNat ++ ['\x7d']) ++ cs)) = _
    rw [read_backslash, read_plains hdigits, after_after, hu]
    rfl

/-- The characters of a text between quotes, with the closing quote. -/
theorem read_quoteChars (vs rest : List Char) :
    read '\x22' false false (vs.flatMap quoteChar ++ '\x22' :: rest) =
      ⟨rereadChars vs, (vs.flatMap quoteChar).length + 1, true⟩ := by
  induction vs with
  | nil =>
    rw [List.flatMap_nil, List.nil_append, read.eq_def]
    simp [rereadChars]
  | cons v vs ih =>
    rw [List.flatMap_cons, List.append_assoc, read_quoteChar, ih]
    simp [Body.after, rereadChars, Nat.add_assoc]

theorem head?_quoteChar (c : Char) : (quoteChar c).head? ≠ some '\x22' ∧ quoteChar c ≠ [] := by
  rcases quoteChar_cases c with ⟨l, -, hq, -⟩ | ⟨hl, hq, -⟩ | ⟨hq, -⟩
  · simp [hq]
  · have hp := isPlain_of_escapeLetter hl
    simp [hq, hp.2.1]
  · simp [hq]

/-- Neither the first character of a quoted text nor what follows an empty one completes three quotes. -/
theorem completes_quoteChars (vs : List Char) {rest : List Char} (h : rest.head? ≠ some '\x22') :
    completes '\x22' (vs.flatMap quoteChar ++ '\x22' :: rest) = false := by
  cases vs with
  | nil =>
    cases rest with
    | nil => rfl
    | cons e es =>
      have he : e ≠ '\x22' := by simpa using h
      simp [completes, he]
  | cons v vs =>
    obtain ⟨hh, hne⟩ := head?_quoteChar v
    rw [List.flatMap_cons]
    cases hv : quoteChar v with
    | nil => exact absurd hv hne
    | cons a as =>
      have ha : a ≠ '\x22' := by
        rw [hv] at hh
        simpa using hh
      unfold completes
      split
      · next heq =>
        simp only [List.cons_append, List.cons.injEq] at heq
        simp [← heq.1, ha]
      · rfl

end AnnotationChecker.StringBody

namespace AnnotationChecker.Piece

open AnnotationChecker.Text (quoteChar quoteChars rereadChars)

theorem contents_quoted {d : Nat} (vs : List Char) {rest : List Char} (h : Apart rest) :
    contents d (quoteChars vs ++ rest) =
      .token (.string (String.ofList (rereadChars vs))) none :: contents d rest := by
  have hq : rest.head? ≠ some '\x22' := fun he => (h _ he).2.1 rfl
  have hrun : read d '\x22' (vs.flatMap quoteChar ++ ['\x22'] ++ rest) =
      ⟨.token (.string (String.ofList (rereadChars vs))) none, (vs.flatMap quoteChar ++ ['\x22']).length⟩ := by
    rw [List.append_assoc, List.singleton_append]
    simp [read, literal, StringBody.readQuoted, StringBody.completes_quoteChars vs hq, StringBody.read_quoteChars,
      StringBody.Flavor.plain, StringBody.Flavor.kind]
  exact contents_token hrun

end AnnotationChecker.Piece
