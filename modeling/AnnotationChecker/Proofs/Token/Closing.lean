import AnnotationChecker.Proofs.Token.LineEnd
/-!
# Where literals are closed

The body of a literal that is closed is read from no more than its own characters (`read_take`). So a literal that is
closed within its line is the same however the line ends (`readQuoted_within`), but one that goes on behind an escaped
line end is left open when a carriage return stands in between (`not_closed_readQuoted`).
-/

namespace AnnotationChecker.StringBody

variable {q : Char} {triple raw : Bool} {cs xs ys : List Char}

theorem completes_take {n : Nat} (hn : 2 ≤ n) : completes q (cs.take n) = completes q cs := by
  obtain ⟨n, rfl⟩ : ∃ m, n = m + 2 := ⟨n - 2, by omega⟩
  rcases cs with _ | ⟨a, _ | ⟨b, cs⟩⟩ <;> rfl

theorem length_pos_of_closed (h : (read q triple raw cs).closed = true) : 0 < (read q triple raw cs).length := by
  fun_induction read q triple raw cs with
  | case1 | case2 | case6 => cases h
  | case3 | case4 => exact Nat.succ_pos _
  | case5 | case7 | case8 | case9 | case10 =>
    simp only [Body.after]
    omega

/-- A body that is closed is read from just the characters that it takes. -/
theorem read_take (h : (read q triple raw cs).closed = true) :
    read q triple raw (cs.take (read q triple raw cs).length) = read q triple raw cs := by
  fun_induction read q triple raw cs with
  | case1 | case2 | case6 => cases h
  | case3 cs htriple hn =>
    have hq : q ≠ '\n' := by simpa [htriple] using hn
    rw [List.take_succ_cons, read.eq_def]
    simp [htriple, hq]
  | case4 cs htriple hc =>
    have hc' : completes q (cs.take 2) = true := by rw [completes_take (Nat.le_refl 2), hc]
    rw [List.take_succ_cons, read.eq_def]
    simp [htriple, hc']
  | case5 cs htriple hc _ ih =>
    -- the closing quotes are further behind
    simp only [Bool.not_eq_false] at htriple
    subst htriple
    have hlen : 3 ≤ (read q true raw cs).length := three_le_of_closed h
    have hc' : completes q (cs.take (read q true raw cs).length) = false := by
      rw [completes_take (by omega)]
      simpa using hc
    rw [Body.after, Nat.add_comm, List.take_succ_cons, read.eq_def]
    simp [hc', ih h, Body.after, Nat.add_comm]
  | case7 cs hraw hn hq ih =>
    -- the line end behind the backslash is one of the characters
    subst hraw
    have ih := ih h
    obtain ⟨n, hn⟩ : ∃ n, (read q triple true ('\n' :: cs)).length = n + 1 :=
      Nat.exists_eq_add_one.2 (length_pos_of_closed h)
    rw [hn, List.take_succ_cons] at ih
    rw [Body.after, hn, Nat.add_comm, List.take_succ_cons, List.take_succ_cons, read.eq_def]
    simp [hq, ih, Body.after, hn, Nat.add_comm]
  | case8 d cs hraw hd hn hq ih =>
    subst hraw
    rw [Body.length_after, Nat.add_comm, List.take_succ_cons, List.take_succ_cons, read_protected hq hd, ih h]
  | case9 d cs hraw hn hq ih =>
    simp only [Bool.not_eq_true] at hraw
    subst hraw
    rw [Body.length_after, Nat.add_comm, List.take_succ_cons, List.take_succ_cons, read_escape hq, ih h]
  | case10 d cs hn hq hb ih =>
    rw [Body.length_after, Nat.add_comm, List.take_succ_cons, read_other hn hq hb, ih h]

/-- A body that is closed within a text is the same whatever comes behind that text. -/
theorem read_within (h : (read q triple raw (xs ++ ys)).closed = true)
    (hlen : (read q triple raw (xs ++ ys)).length ≤ xs.length) (zs : List Char) :
    read q triple raw (xs ++ zs) = read q triple raw (xs ++ ys) := by
  have htake := read_take h
  rw [List.take_append_of_le_length hlen] at htake
  generalize (read q triple raw (xs ++ ys)).length = n at htake
  calc read q triple raw (xs ++ zs)
      = read q triple raw (xs.take n ++ (xs.drop n ++ zs)) := by rw [← List.append_assoc, List.take_append_drop]
    _ = read q triple raw (xs.take n) := read_append (by rw [htake, h]) _
    _ = read q triple raw (xs ++ ys) := htake

/-- What a one-quote literal runs over is a line end behind a backslash. With a carriage return in between the
backslash protects that one, and the line end stays. -/
theorem not_closed_of_return (hxs : '\n' ∉ xs) (h : (read q false raw (xs ++ '\n' :: ys)).closed = true)
    (hlen : xs.length < (read q false raw (xs ++ '\n' :: ys)).length) (zs : List Char) :
    ¬ (read q false raw (xs ++ '\r' :: '\n' :: zs)).closed = true := by
  generalize ht : false = triple at h hlen ⊢
  fun_induction read q triple raw xs with
  | case1 =>
    subst ht
    rw [List.nil_append, read_newline] at h
    cases h
  | case2 c cs hn =>
    rw [hn.1] at hxs
    simp at hxs
  | case3 cs htriple hn =>
    -- the quote closes it before the line end
    subst ht
    rw [List.cons_append, read_quote fun hq => hn ⟨hq, rfl⟩] at hlen
    simp at hlen
  | case4 _ htriple | case5 _ htriple => simp [← ht] at htriple
  | case6 hn hq =>
    subst ht
    rw [List.singleton_append] at h ⊢
    cases raw with
    | true =>
      rw [read.eq_def] at h
      simp [hq, read_newline] at h
    | false =>
      rw [read_escape hq, Body.closed_after, read_newline]
      exact Bool.false_ne_true
  | case7 => simp at hxs
  | case8 d cs hraw hd hn hq ih =>
    subst ht hraw
    rw [List.cons_append, List.cons_append, read_protected hq hd] at h hlen ⊢
    rw [Body.length_after, List.length_cons, List.length_cons] at hlen
    exact ih (by simp_all) h (by omega)
  | case9 d cs hraw hn hq ih =>
    simp only [Bool.not_eq_true] at hraw
    subst ht hraw
    rw [List.cons_append, List.cons_append, read_escape hq] at h hlen ⊢
    rw [Body.length_after, List.length_cons, List.length_cons] at hlen
    exact ih (by simp_all) h (by omega)
  | case10 d cs hn hq hb ih =>
    subst ht
    rw [List.cons_append, read_other hn hq hb] at h hlen ⊢
    rw [Body.length_after, List.length_cons] at hlen
    exact ih (by simp_all) h (by omega)

/-- No character but the quote helps to complete a triple quote. -/
theorem completes_congr {b b' : Char} (hb : b ≠ q) (hb' : b' ≠ q) (xs ys zs : List Char) :
    completes q (xs ++ b :: ys) = completes q (xs ++ b' :: zs) := by
  rw [← beq_eq_false_iff_ne] at hb hb'
  rcases xs with _ | ⟨x, _ | ⟨y, xs⟩⟩
  · cases ys <;> cases zs <;> simp [completes, hb, hb']
  · simp [completes, hb, hb']
  · rfl

/-- A triple quote stands before any other character. -/
theorem two_le_of_completes_append {b : Char} (hb : b ≠ q) (h : completes q (xs ++ b :: ys) = true) : 2 ≤ xs.length := by
  rw [← beq_eq_false_iff_ne] at hb
  rcases xs with _ | ⟨x, _ | ⟨y, xs⟩⟩
  · cases ys <;> simp [completes, hb] at h
  · simp [completes, hb] at h
  · simp

section

variable (hq : q = '\x22' ∨ q = '\x27') (h : (readQuoted q raw (xs ++ '\n' :: ys)).closed = true)

include hq h

/-- A literal that is closed within its line is the same with a carriage return at the end of the line. -/
theorem readQuoted_within (hlen : (readQuoted q raw (xs ++ '\n' :: ys)).length ≤ xs.length) (zs : List Char) :
    readQuoted q raw (xs ++ '\r' :: zs) = readQuoted q raw (xs ++ '\n' :: ys) := by
  have hn : '\n' ≠ q := by rcases hq with rfl | rfl <;> decide
  have hr : '\r' ≠ q := by rcases hq with rfl | rfl <;> decide
  unfold readQuoted at h hlen ⊢
  rw [completes_congr hr hn xs zs ys]
  split at h
  · next hc =>
    have htwo : 2 ≤ xs.length := two_le_of_completes_append hn hc
    rw [if_pos hc] at hlen
    rw [if_pos hc, if_pos hc]
    rw [List.drop_append_of_le_length htwo] at h hlen ⊢
    have hlen' : (read q true raw (xs.drop 2 ++ '\n' :: ys)).length ≤ (xs.drop 2).length := by
      rw [Body.length_after] at hlen
      rw [List.length_drop]
      omega
    rw [List.drop_append_of_le_length htwo, read_within h hlen']
  · next hc =>
    rw [if_neg hc] at hlen
    rw [if_neg hc, if_neg hc]
    exact read_within h hlen _

/-- A one-quote literal that runs over the end of its line is open with a carriage return there. -/
theorem not_closed_readQuoted (hxs : '\n' ∉ xs) (hc : completes q (xs ++ '\n' :: ys) = false)
    (hlen : xs.length < (readQuoted q raw (xs ++ '\n' :: ys)).length) (zs : List Char) :
    ¬ (readQuoted q raw (xs ++ '\r' :: '\n' :: zs)).closed = true := by
  have hn : '\n' ≠ q := by rcases hq with rfl | rfl <;> decide
  have hr : '\r' ≠ q := by rcases hq with rfl | rfl <;> decide
  have hc' : completes q (xs ++ '\r' :: '\n' :: zs) = false := by rw [completes_congr hr hn, hc]
  unfold readQuoted at h hlen ⊢
  rw [hc] at h hlen
  rw [hc']
  exact not_closed_of_return hxs h hlen zs

end

end AnnotationChecker.StringBody
