import AnnotationChecker.Proofs.Token.Contents
/-!
# What reading looks ahead to

Whatever runs up to an inert character ends there, and whatever reads ahead stops there. So texts that agree up to such a
character start with the same numeral (`Numeral.read_congr`), and with the same piece unless that is about the end of a
line or may be a literal (`Piece.read_of_agree`).
-/

namespace AnnotationChecker

theorem length_takeWhile_le (p : Char → Bool) (cs : List Char) : (cs.takeWhile p).length ≤ cs.length :=
  (List.takeWhile_prefix p).length_le

/-- The characters that end whatever runs up to them and that no piece goes on with: those that make no part of a word,
no quote, no point, no sign, and no second character of an operator. -/
def IsInert (c : Char) : Prop := Piece.isWordChar c = false ∧ c ∉ ['\x22', '\x27', '.', '+', '-', '=', '>']

instance (c : Char) : Decidable (IsInert c) := inferInstanceAs (Decidable (_ ∧ _))

theorem IsInert.ne {b c : Char} (hb : IsInert b) (hc : ¬ IsInert c) : b ≠ c := fun h => hc (h ▸ hb)

/-- Two texts that are the same up to where each of them ends or goes on with an inert character. -/
inductive Agree : List Char → List Char → Prop
  | stop {cs ds : List Char} : (∀ c ∈ cs.head?, IsInert c) → (∀ d ∈ ds.head?, IsInert d) → Agree cs ds
  | cons (c : Char) {cs ds : List Char} : Agree cs ds → Agree (c :: cs) (c :: ds)

theorem agree_line {b : Char} (hb : IsInert b) (xs ds : List Char) : Agree xs (xs ++ b :: ds) := by
  induction xs with
  | nil => exact .stop (by simp) (by simpa using hb)
  | cons x xs ih => exact .cons x ih

namespace Agree

variable {cs ds : List Char} {p : Char → Bool}

section

variable (h : Agree cs ds) (hp : ∀ {c}, IsInert c → p c = false)

include h hp

theorem takeWhile : ds.takeWhile p = cs.takeWhile p := by
  induction h with
  | stop hc hd =>
    have hnil : ∀ {es : List Char}, (∀ e ∈ es.head?, IsInert e) → es.takeWhile p = [] := by
      intro es he
      cases es with
      | nil => rfl
      | cons e es => exact List.takeWhile_cons_of_neg (by simp [hp (he e rfl)])
    rw [hnil hc, hnil hd]
  | cons c _ ih => rw [List.takeWhile_cons, List.takeWhile_cons, ih]

theorem drop : Agree (cs.drop (cs.takeWhile p).length) (ds.drop (cs.takeWhile p).length) := by
  induction h with
  | @stop cs ds hc hd =>
    cases cs with
    | nil => exact .stop hc hd
    | cons c cs =>
      rw [List.takeWhile_cons_of_neg (by simp [hp (hc c rfl)])]
      exact .stop hc hd
  | cons c h ih =>
    rw [List.takeWhile_cons]
    split
    · exact ih
    · exact .cons c h

theorem any_head? : ds.head?.any p = cs.head?.any p := by
  have hstop : ∀ {es : List Char}, (∀ e ∈ es.head?, IsInert e) → es.head?.any p = false := by
    intro es he
    cases es with
    | nil => rfl
    | cons e es => exact hp (he e rfl)
  cases h with
  | stop hc hd => rw [hstop hc, hstop hd]
  | cons c h => rfl

end

/-- A character that is not inert is next in both or in none. -/
theorem head?_eq_some_iff (h : Agree cs ds) {e : Char} (he : ¬ IsInert e) : ds.head? = some e ↔ cs.head? = some e := by
  cases h with
  | stop hc hd => exact ⟨fun h => absurd (hd e h) he, fun h => absurd (hc e h) he⟩
  | cons c h => rfl

end Agree

/-! ## Numerals -/

namespace Numeral

open Piece (isWordChar ne_of_test)

variable {c : Char} {cs xs ys : List Char}

theorem isWordChar_of_isDigitOrGap {c : Char} (h : isDigitOrGap c = true) : isWordChar c = true := by
  simp only [isDigitOrGap, isWordChar, Char.isAlphanum, Bool.or_eq_true] at h ⊢
  rcases h with h | h
  · exact .inl (.inl (.inr h))
  · exact .inl (.inr h)

/-- What goes on with a decimal numeral announces no radix, and neither does what ends a word. -/
theorem radixOf?_eq_none {e : Char} (h : isWordChar e = false ∨ isDigitOrGap e = true) : radixOf? e = none := by
  have hne : ∀ x, isWordChar x = true → isDigitOrGap x = false → e ≠ x := by
    intro x hw hx
    rcases h with h | h
    · exact (ne_of_test hw h).symm
    · exact ne_of_test h hx
  simp [radixOf?, hne 'x' (by decide) (by decide), hne 'X' (by decide) (by decide), hne 'o' (by decide) (by decide),
    hne 'O' (by decide) (by decide), hne 'b' (by decide) (by decide), hne 'B' (by decide) (by decide)]

/-- A test that only characters of words pass fails for inert ones. -/
theorem eq_false_of_isInert {p : Char → Bool} (hp : p c = true → isWordChar c = true) (hc : IsInert c) : p c = false := by
  rw [← Bool.not_eq_true]
  intro h
  have hword := hp h
  rw [hc.1] at hword
  cases hword

theorem isDigitOrGap_of_isInert (hc : IsInert c) : isDigitOrGap c = false :=
  eq_false_of_isInert isWordChar_of_isDigitOrGap hc

theorem isNameStart_of_isInert (hc : IsInert c) : (c.isAlpha || c == '_') = false := by
  refine @eq_false_of_isInert c (fun c => c.isAlpha || c == '_') (fun h => ?_) hc
  simp only [isWordChar, Char.isAlphanum, Bool.or_eq_true] at h ⊢
  exact .inl (h.imp_left .inl)

theorem isHexDigitOrGap_of_isInert (hc : IsInert c) : (isHexDigit c || c == '_') = false := by
  refine @eq_false_of_isInert c (fun c => isHexDigit c || c == '_') (fun h => ?_) hc
  simp only [isHexDigit, Bool.or_eq_true, Bool.and_eq_true, decide_eq_true_eq, Char.le_def] at h
  simp only [isWordChar, Char.isAlphanum, Bool.or_eq_true]
  delta Char.isAlpha Char.isUpper Char.isLower
  simp only [Bool.or_eq_true, Bool.and_eq_true, decide_eq_true_eq, UInt32.le_iff_toNat_le] at h ⊢
  simp at h ⊢
  rcases h with ((h | h) | h) | h
  · exact .inl (.inl (.inr h))
  · exact .inl (.inl (.inl (.inr (by omega))))
  · exact .inl (.inl (.inl (.inl (by omega))))
  · exact .inl (.inr h)

theorem isDigit_of_isInert (hc : IsInert c) : c.isDigit = false := (Bool.or_eq_false_iff.1 (isDigitOrGap_of_isInert hc)).1

theorem length_fraction?_le {fs : List Char} (h : fraction? cs = some fs) : 1 + fs.length ≤ cs.length := by
  unfold fraction? at h
  split at h
  · split at h
    · split at h
      · cases h
      · next c es _ =>
        cases h
        have hle := length_takeWhile_le isDigitOrGap (c :: es)
        simp only [List.length_cons] at hle ⊢
        omega
    · cases h
      simp
  · cases h

theorem exponent?_eq {e : Char} (he : e = 'e' ∨ e = 'E') (s : Char) (cs : List Char) :
    exponent? (e :: s :: cs) =
      if s = '+' ∨ s = '-' then exponentOf (s = '-') 2 cs else exponentOf false 1 (s :: cs) := by
  by_cases hplus : s = '+'
  · subst hplus
    simp [exponent?, he]
  · by_cases hminus : s = '-'
    · subst hminus
      simp [exponent?, he]
    · simp [exponent?, he, hplus, hminus]

theorem exponent?_of_ne {e : Char} (he : ¬ (e = 'e' ∨ e = 'E')) (cs : List Char) : exponent? (e :: cs) = none := by
  simp only [exponent?, if_neg he]

theorem length_exponentOf_le {negative : Bool} {before : Nat} {e : Int × Nat}
    (h : exponentOf negative before cs = some e) : e.2 ≤ before + cs.length := by
  have hle := length_takeWhile_le isDigitOrGap cs
  unfold exponentOf at h
  split at h
  · cases h
    exact Nat.add_le_add_left hle before
  · cases h

theorem length_exponent?_le {e : Int × Nat} (h : exponent? cs = some e) : e.2 ≤ cs.length := by
  rcases cs with _ | ⟨x, _ | ⟨s, ds⟩⟩
  · cases h
  · simp [exponent?, exponentOf] at h
  · by_cases he : x = 'e' ∨ x = 'E'
    · rw [exponent?_eq he] at h
      split at h
      · have hle := length_exponentOf_le h
        simp only [List.length_cons]
        omega
      · have hle := length_exponentOf_le h
        simp only [List.length_cons] at hle ⊢
        omega
    · rw [exponent?_of_ne he] at h
      cases h

theorem more_ofParts {whole : List Char} {fraction : Option (List Char)} {taken : Nat} {exponent : Option (Int × Nat)} :
    (ofParts whole fraction taken exponent).more = taken + (exponent.getD (0, 0)).2 := by
  cases fraction <;> cases exponent <;> rfl

theorem beforeExponent_le : beforeExponent c cs ≤ cs.length := by
  have hrun := length_takeWhile_le isDigitOrGap cs
  unfold beforeExponent
  dsimp only
  split
  · exact hrun
  · split
    · next fs hf =>
      have hle : 1 + fs.length ≤ (cs.drop (cs.takeWhile isDigitOrGap).length).length := length_fraction?_le hf
      rw [List.length_drop] at hle
      show (cs.takeWhile isDigitOrGap).length + (1 + fs.length) ≤ cs.length
      omega
    · exact hrun

/-- A numeral takes nothing that is not there. -/
theorem more_read_le : (read c cs).more ≤ cs.length := by
  unfold read
  split
  · next radix hradix =>
    have hle := length_takeWhile_le (fun c => isHexDigit c || c == '_') (cs.drop 1)
    cases cs with
    | nil => simp at hradix
    | cons x xs =>
      simp only [List.drop_one, List.tail_cons, List.length_cons] at hle ⊢
      omega
  · have hbefore : beforeExponent c cs ≤ cs.length := beforeExponent_le
    rw [decimal, more_ofParts]
    cases he : exponent? (cs.drop (beforeExponent c cs)) with
    | none => exact hbefore
    | some e =>
      have hle := length_exponent?_le he
      rw [List.length_drop] at hle
      simp only [Option.getD_some]
      omega

theorem fraction?_point (cs : List Char) : fraction? ('.' :: cs) =
    if cs.head?.any (fun c => c.isAlpha || c == '_') then none else some (cs.takeWhile isDigitOrGap) := by
  cases cs <;> rfl

theorem fraction?_of_ne (hc : c ≠ '.') (cs : List Char) : fraction? (c :: cs) = none := by
  simp [fraction?, hc]

theorem fraction?_of_inert (h : ∀ c ∈ xs.head?, IsInert c) : fraction? xs = none := by
  cases xs with
  | nil => rfl
  | cons x xs => exact fraction?_of_ne ((h x rfl).ne (by decide)) xs

theorem fraction?_congr (h : Agree xs ys) : fraction? ys = fraction? xs := by
  cases h with
  | stop hx hy => rw [fraction?_of_inert hx, fraction?_of_inert hy]
  | cons x h =>
    by_cases hx : x = '.'
    · subst hx
      rw [fraction?_point, fraction?_point, h.any_head? isNameStart_of_isInert, h.takeWhile isDigitOrGap_of_isInert]
    · rw [fraction?_of_ne hx, fraction?_of_ne hx]

/-- What stands behind a fraction agrees as well. -/
theorem drop_fraction? (h : Agree xs ys) {fs : List Char} (hf : fraction? xs = some fs) :
    Agree (xs.drop (1 + fs.length)) (ys.drop (1 + fs.length)) := by
  cases h with
  | stop hx hy =>
    rw [fraction?_of_inert hx] at hf
    cases hf
  | cons x h =>
    by_cases hx : x = '.'
    · subst hx
      rw [fraction?_point] at hf
      split at hf
      · cases hf
      · cases hf
        rw [Nat.add_comm, List.drop_succ_cons, List.drop_succ_cons]
        exact h.drop isDigitOrGap_of_isInert
    · rw [fraction?_of_ne hx] at hf
      cases hf

theorem exponentOf_congr (h : Agree xs ys) (negative : Bool) (before : Nat) :
    exponentOf negative before ys = exponentOf negative before xs := by
  rw [exponentOf, exponentOf, h.any_head? isDigit_of_isInert, h.takeWhile isDigitOrGap_of_isInert]

theorem exponent?_of_inert {e : Char} (h : ∀ c ∈ xs.head?, IsInert c) : exponent? (e :: xs) = none := by
  by_cases he : e = 'e' ∨ e = 'E'
  · cases xs with
    | nil => simp [exponent?, exponentOf]
    | cons x xs =>
      have hx : IsInert x := h x rfl
      rw [exponent?_eq he, if_neg (not_or.2 ⟨hx.ne (by decide), hx.ne (by decide)⟩), exponentOf, List.head?_cons,
        Option.any_some, isDigit_of_isInert hx]
      rfl
  · exact exponent?_of_ne he xs

theorem exponent?_congr (h : Agree xs ys) : exponent? ys = exponent? xs := by
  have hstop : ∀ {zs : List Char}, (∀ c ∈ zs.head?, IsInert c) → exponent? zs = none := by
    intro zs hz
    cases zs with
    | nil => rfl
    | cons z zs => exact exponent?_of_ne (not_or.2 ⟨(hz z rfl).ne (by decide), (hz z rfl).ne (by decide)⟩) zs
  cases h with
  | stop hx hy => rw [hstop hx, hstop hy]
  | cons e h =>
    by_cases he : e = 'e' ∨ e = 'E'
    · cases h with
      | stop hx hy => rw [exponent?_of_inert hx, exponent?_of_inert hy]
      | cons s h =>
        rw [exponent?_eq he, exponent?_eq he, exponentOf_congr h, exponentOf_congr (.cons s h)]
    · rw [exponent?_of_ne he, exponent?_of_ne he]

theorem beforeExponent_congr (h : Agree xs ys) : beforeExponent c ys = beforeExponent c xs := by
  rw [beforeExponent, beforeExponent, h.takeWhile isDigitOrGap_of_isInert,
    fraction?_congr (h.drop isDigitOrGap_of_isInert)]

/-- What stands behind the digits and the fraction agrees as well. -/
theorem drop_beforeExponent (h : Agree xs ys) :
    Agree (xs.drop (beforeExponent c xs)) (ys.drop (beforeExponent c xs)) := by
  have hrun := h.drop isDigitOrGap_of_isInert
  unfold beforeExponent
  dsimp only
  split
  · exact hrun
  · split
    · next fs hf =>
      have hdrop := drop_fraction? hrun hf
      rw [List.drop_drop, List.drop_drop] at hdrop
      exact hdrop
    · exact hrun

theorem decimal_congr (h : Agree xs ys) : decimal c ys = decimal c xs := by
  simp only [decimal, fractionOf, h.takeWhile isDigitOrGap_of_isInert, fraction?_congr (h.drop isDigitOrGap_of_isInert),
    beforeExponent_congr h, exponent?_congr (drop_beforeExponent h)]

/-- Texts that agree start with the same numeral. -/
theorem read_congr (h : Agree xs ys) : read c ys = read c xs := by
  have hradix : ∀ {zs : List Char}, (∀ c ∈ zs.head?, IsInert c) → zs.head?.bind radixOf? = none := by
    intro zs hz
    rw [Option.bind_eq_none_iff]
    exact fun z hz' => radixOf?_eq_none (.inl (hz z hz').1)
  have hdecimal : decimal c ys = decimal c xs := decimal_congr h
  unfold read
  rw [hdecimal]
  cases h with
  | stop hx hy => simp only [hradix hx, hradix hy, ite_self]
  | cons x h =>
    have hrun := h.takeWhile (p := fun c => isHexDigit c || c == '_') isHexDigitOrGap_of_isInert
    rw [List.head?_cons, List.head?_cons, List.drop_one, List.drop_one, List.tail_cons, List.tail_cons, hrun]

end Numeral

namespace Piece

variable {depth : Nat} {c : Char} {cs ds : List Char}

/-- Texts that agree start with the same piece, unless it may be a literal or is about the end of a line. -/
theorem read_of_agree (h : Agree cs ds) (hb : c ≠ '\\') (hn : c ≠ '\n') (hc : c ≠ '#')
    (hq : ¬ (c = '\x22' ∨ c = '\x27')) (hw : ¬ isWordStart c = true) : read depth c ds = read depth c cs := by
  have hnumeral : numeral c ds = numeral c cs := by rw [numeral, numeral, Numeral.read_congr h]
  unfold read
  rw [if_neg hb, if_neg hb, if_neg hn, if_neg hn, if_neg hc, if_neg hc, if_neg hq, if_neg hq,
    h.any_head? Numeral.isDigit_of_isInert, hnumeral, if_neg hw, if_neg hw]
  -- what is left looks at the next character at most
  simp only [h.head?_eq_some_iff (show ¬ IsInert '=' by decide), h.head?_eq_some_iff (show ¬ IsInert '>' by decide)]

end Piece

end AnnotationChecker
