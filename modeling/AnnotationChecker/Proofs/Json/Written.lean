import Mathlib.Algebra.Group.Nat.Defs
import AnnotationChecker.Json.Reader
import AnnotationChecker.Proofs.Token.Numeral
/-!
# Written values are read back

A value whose numbers are integers of moderate length, and whose containers nest no deeper than the reader allows, is
read from what is written for it, in either layout (`Plain.reads`). A reader takes an integer as far as it goes, so what
stands behind the value may not continue a number (`Ends`).
-/

namespace AnnotationChecker.Json

open Piece (ne_of_test takeWhile_append_of_apart)
open Numeral (isDigit_of_mem_toDigits)

variable {strict : Bool} {rest : List Char}

/-! ## Strings -/

/-- The characters that are written by a letter, and their letters. -/
def letters : List (Char × Char) :=
  [('\x22', '\x22'), ('\\', '\\'), ('\x08', 'b'), ('\x0c', 'f'), ('\n', 'n'), ('\r', 'r'), ('\t', 't')]

/-- The part that a written character is read as: controls without a letter are written by their number. -/
def partOf (c : Char) : StringPart :=
  if c.toNat < 0x20 ∧ ∀ m ∈ letters, c ≠ m.1 then .unit c.toNat else .char c

theorem partOf_cases (c : Char) : c.toNat < 0x20 ∧ partOf c = .unit c.toNat ∨ partOf c = .char c := by
  unfold partOf
  split
  · next h => exact .inl ⟨h.1, rfl⟩
  · exact .inr rfl

theorem escapeChar_of_letter : ∀ m ∈ letters,
    escapeChar m.1 = ['\\', m.2] ∧ m.2 ≠ 'u' ∧ unescape? m.2 = some m.1 ∧ partOf m.1 = .char m.1 := by
  decide

theorem escapeChar_of_not_letter {c : Char} (h : ∀ m ∈ letters, c ≠ m.1) : escapeChar c =
    if c.toNat < 0x20 then ['\\', 'u', '0', '0', hexDigit (c.toNat / 16), hexDigit (c.toNat % 16)] else [c] := by
  simp only [letters, List.forall_mem_cons, List.not_mem_nil, false_imp_iff, implies_true, and_true] at h
  simp [escapeChar, h]

theorem hexValue4?_control : ∀ n < 0x20, hexValue4? '0' '0' (hexDigit (n / 16)) (hexDigit (n % 16)) = some n := by
  decide

theorem readParts_quote (cs : List Char) : readParts ('\x22' :: cs) = some ([], cs) := by
  unfold readParts
  simp

theorem readParts_letter {e c : Char} (he : e ≠ 'u') (hc : unescape? e = some c) (cs : List Char) :
    readParts ('\\' :: e :: cs) = (readParts cs).map fun p => (.char c :: p.1, p.2) := by
  rw [readParts.eq_def]
  simp [he, hc]

theorem readParts_unit {a b c d : Char} {n : Nat} (h : hexValue4? a b c d = some n) (cs : List Char) :
    readParts ('\\' :: 'u' :: a :: b :: c :: d :: cs) = (readParts cs).map fun p => (.unit n :: p.1, p.2) := by
  rw [readParts.eq_def]
  simp [h]

theorem readParts_char {c : Char} (hq : c ≠ '\x22') (hb : c ≠ '\\') (hc : ¬ c.toNat < 0x20) (cs : List Char) :
    readParts (c :: cs) = (readParts cs).map fun p => (.char c :: p.1, p.2) := by
  rw [readParts.eq_def]
  simp [hq, hb, hc]

theorem readParts_escapeChar (c : Char) (cs : List Char) :
    readParts (escapeChar c ++ cs) = (readParts cs).map fun p => (partOf c :: p.1, p.2) := by
  by_cases hletter : ∀ m ∈ letters, c ≠ m.1
  · rw [escapeChar_of_not_letter hletter]
    split
    · next hc =>
      have hp : partOf c = .unit c.toNat := if_pos ⟨hc, hletter⟩
      rw [hp]
      exact readParts_unit (hexValue4?_control _ hc) cs
    · next hc =>
      have hp : partOf c = .char c := if_neg fun h => hc h.1
      rw [hp]
      exact readParts_char (hletter ('\x22', '\x22') (by decide)) (hletter ('\\', '\\') (by decide)) hc cs
  · obtain ⟨m, hm, rfl⟩ : ∃ m ∈ letters, c = m.1 := by simpa using hletter
    obtain ⟨hwrite, hu, hread, hp⟩ := escapeChar_of_letter m hm
    rw [hwrite, hp]
    exact readParts_letter hu hread cs

theorem readParts_written (cs : List Char) :
    readParts (cs.flatMap escapeChar ++ '\x22' :: rest) = some (cs.map partOf, rest) := by
  induction cs with
  | nil => exact readParts_quote rest
  | cons c cs ih => rw [List.flatMap_cons, List.append_assoc, readParts_escapeChar, ih]; rfl

/-- A control is no half of a pair. -/
theorem joinParts_control {n : Nat} (h : n < 0x20) (ps : List StringPart) :
    joinParts strict (.unit n :: ps) = (joinParts strict ps).map (Char.ofNat n :: ·) := by
  have hhigh : isHighUnit n = false := by simp [isHighUnit]; omega
  have hlow : isLowUnit n = false := by simp [isLowUnit]; omega
  rcases ps with _ | ⟨_ | _, ps⟩
  · simp [joinParts, singleChar?, hhigh, hlow]
  · simp [joinParts, singleChar?, hhigh, hlow, Function.comp_def]
  · simp [joinParts, singleChar?, hhigh, hlow]

theorem joinParts_partOf (cs : List Char) : joinParts strict (cs.map partOf) = some cs := by
  induction cs with
  | nil => simp [joinParts]
  | cons c cs ih =>
    rw [List.map_cons]
    rcases partOf_cases c with ⟨hc, hp⟩ | hp
    · rw [hp, joinParts_control hc, ih, Option.map_some, Char.ofNat_toNat]
    · rw [hp, joinParts, ih, Option.map_some]

theorem readString_written (s : String) :
    readString strict (s.toList.flatMap escapeChar ++ '\x22' :: rest) = some (s, rest) := by
  simp [readString, readParts_written, joinParts_partOf]

/-! ## Integers -/

/-- A text that does not continue a number. -/
def Ends (rest : List Char) : Prop := ∀ c ∈ rest.head?, c.isDigit = false ∧ c ≠ '.' ∧ c ≠ 'e' ∧ c ≠ 'E'

theorem ofDigits_toDigits (n : Nat) : ofDigits (Nat.toDigits 10 n) = n := by
  have h : ∀ cs : List Char, ∀ m, cs.foldl (fun n c => n * 10 + (c.toNat - 48)) m = Nat.ofDigitChars 10 cs m := by
    intro cs
    induction cs with
    | nil => exact fun _ => rfl
    | cons c cs ih => intro m; rw [List.foldl_cons, ih, Nat.ofDigitChars_cons, Nat.mul_comm]; rfl
  rw [ofDigits, h, Nat.ofDigitChars_ten_toDigits]

/-- Only zero starts with a zero. -/
theorem head?_toDigits {n : Nat} (h : 0 < n) : (Nat.toDigits 10 n).head? ≠ some '0' := by
  induction n using Nat.strongRecOn with
  | ind n ih =>
    by_cases hn : n < 10
    · rw [Nat.toDigits_of_lt_base hn]
      have hdigit : ∀ d < 10, 0 < d → some (Nat.digitChar d) ≠ some '0' := by decide
      exact hdigit n hn h
    · rw [Nat.toDigits_of_base_le (by decide) (by omega), List.head?_append,
        Option.or_of_isSome (by simp)]
      exact ih (n / 10) (by omega) (by omega)

theorem readWhole_toDigits (n : Nat) (h : Ends rest) : readWhole (Nat.toDigits 10 n ++ rest) = Nat.toDigits 10 n := by
  rcases Nat.eq_zero_or_pos n with rfl | hn
  · simp [readWhole, Nat.toDigits_zero]
  · have hhead := head?_toDigits hn
    unfold readWhole
    split
    · next heq =>
      have hsome : (Nat.toDigits 10 n).head?.isSome := by simp
      rw [← Option.or_of_isSome hsome, ← List.head?_append, heq] at hhead
      simp at hhead
    · exact takeWhile_append_of_apart (fun c hc => isDigit_of_mem_toDigits hc) fun c hc => (h c hc).1

theorem readFraction_ends (h : Ends rest) : readFraction rest = some (none, rest) := by
  cases rest with
  | nil => rfl
  | cons c cs =>
    have hc : c ≠ '.' := (h c (by simp)).2.1
    unfold readFraction
    split
    · next heq => exact absurd (List.cons.inj heq).1 hc
    · rfl

theorem readExponent_ends (h : Ends rest) : readExponent rest = some (none, rest) := by
  cases rest with
  | nil => rfl
  | cons c cs =>
    obtain ⟨-, -, he, hE⟩ := h c (by simp)
    simp [readExponent, he, hE]

/-- A number of so few digits cannot be too large. -/
def IsShort (n : Nat) : Prop := (Nat.toDigits 10 n).length ≤ 308

theorem isShort_of_lt {n : Nat} (h : n < 10 ^ 20) : IsShort n :=
  Nat.le_trans ((Nat.length_toDigits_le_iff (by decide) (by decide)).2 h) (by decide)

theorem not_overflows {n : Nat} (h : IsShort n) : overflows (Nat.toDigits 10 n) 0 = false := by
  unfold IsShort at h
  have hlt : ¬ (308 : Int) < (Nat.toDigits 10 n).length + 0 := by omega
  rw [overflows, decide_eq_false hlt, Bool.false_and]

theorem readNumber_digits {n : Nat} (hn : IsShort n) (h : Ends rest) :
    readNumber strict (Nat.toDigits 10 n ++ rest) = some (.int n, rest) := by
  have hsign : (Nat.toDigits 10 n).head? ≠ some '-' := by
    intro he
    have hd := isDigit_of_mem_toDigits (List.mem_of_mem_head? he)
    exact absurd hd (by decide)
  unfold readNumber
  simp [hsign, readWhole_toDigits n h, readFraction_ends h, readExponent_ends h, not_overflows hn, ofDigits_toDigits]

theorem readNumber_negative {n : Nat} (hpos : 0 < n) (hn : IsShort n) (h : Ends rest) :
    readNumber strict ('-' :: (Nat.toDigits 10 n ++ rest)) = some (.int (-n), rest) := by
  have hzero : Nat.toDigits 10 n ≠ ['0'] := by
    intro he
    have hhead := head?_toDigits hpos
    simp [he] at hhead
  unfold readNumber
  simp [readWhole_toDigits n h, readFraction_ends h, readExponent_ends h, not_overflows hn, ofDigits_toDigits, hzero]

theorem readNumber_written {n : Int} (hn : IsShort n.natAbs) (h : Ends rest) :
    readNumber strict ((toString n).toList ++ rest) = some (.int n, rest) := by
  rw [Int.toString_eq_repr, Int.repr_eq_if]
  split
  · next hpos =>
    have habs : n.natAbs = n.toNat := by omega
    rw [Nat.toList_repr, readNumber_digits (habs ▸ hn) h, Int.toNat_of_nonneg hpos]
  · next hneg =>
    have habs : n.natAbs = (-n).toNat := by omega
    have htext : ("-" ++ (-n).toNat.repr).toList ++ rest = '-' :: (Nat.toDigits 10 (-n).toNat ++ rest) := by
      rw [String.toList_append, Nat.toList_repr]
      rfl
    rw [htext, readNumber_negative (by omega) (habs ▸ hn) h, Int.toNat_of_nonneg (by omega), Int.neg_neg]

/-! ## Blanks -/

/-- Nothing but blanks. -/
def Blanks (bs : List Char) : Prop := ∀ c ∈ bs, isBlank c = true

variable {bs : List Char}

theorem skipBlanks_append (h : Blanks bs) (cs : List Char) : skipBlanks (bs ++ cs) = skipBlanks cs :=
  List.dropWhile_append_of_pos h

theorem skipBlanks_cons {c : Char} (h : isBlank c = false) (cs : List Char) : skipBlanks (c :: cs) = c :: cs :=
  List.dropWhile_cons_of_neg (by simp [h])

theorem blanks_nil : Blanks [] := by simp [Blanks]

theorem blanks_lineStart (l : Layout) (level : Nat) : Blanks (l.lineStart level) := by
  cases l with
  | compact => exact blanks_nil
  | indented =>
    refine List.forall_mem_cons.2 ⟨by decide, fun c hc => ?_⟩
    rw [List.eq_of_mem_replicate hc]
    decide

theorem ends_nil : Ends [] := by simp [Ends]

theorem ends_cons {c : Char} (hc : c = ',' ∨ c = ']' ∨ c = '\x7d') (cs : List Char) : Ends (c :: cs) := by
  rcases hc with rfl | rfl | rfl <;> simp [Ends]

theorem ends_of_blanks (hb : Blanks bs) (h : Ends rest) : Ends (bs ++ rest) := by
  cases bs with
  | nil => exact h
  | cons b bs =>
    have hblank : b = ' ' ∨ b = '\n' ∨ b = '\t' ∨ b = '\r' := by simpa [isBlank, or_assoc] using hb b (by simp)
    rcases hblank with rfl | rfl | rfl | rfl <;> simp [Ends]

/-! ## Lists -/

/-- A reader takes a value from a text, whatever blanks stand before it and whatever ends it. -/
def Reads {α : Type} (item : Reader α) (text : List Char) (x : α) : Prop :=
  ∀ bs rest, Blanks bs → Ends rest → item (bs ++ (text ++ rest)) = some (x, rest)

/-- A text starts with neither a blank nor a closing bracket. -/
def Opens (text : List Char) : Prop := ∃ c cs, text = c :: cs ∧ isBlank c = false ∧ c ≠ ']' ∧ c ≠ '\x7d'

section
variable {α : Type} {item : Reader α} {text : α → List Char} {x : α} {xs : List α} {close : Char} {start stop : List Char}

/-- The items behind the first one. -/
def tailText (start : List Char) (text : α → List Char) (xs : List α) : List Char :=
  xs.flatMap fun y => ',' :: (start ++ text y)

theorem tailText_nil : tailText start text [] = [] := rfl

theorem tailText_cons {y : α} {ys : List α} {more : List Char} :
    tailText start text (y :: ys) ++ more = ',' :: (start ++ (text y ++ (tailText start text ys ++ more))) := by
  simp [tailText]

theorem length_le_tailText : xs.length ≤ (tailText start text xs).length := by
  induction xs with
  | nil => simp
  | cons y ys ih =>
    simp only [tailText, List.flatMap_cons, List.length_append, List.length_cons] at ih ⊢
    omega

theorem readItems_written (hr : ∀ y ∈ x :: xs, Reads item (text y) y) (hclose : close = ']' ∨ close = '\x7d')
    (hstart : Blanks start) (hstop : Blanks stop) {n : Nat} (hn : xs.length < n) (hb : Blanks bs) :
    readItems item close n (bs ++ (text x ++ (tailText start text xs ++ (stop ++ close :: rest)))) =
      some (x :: xs, rest) := by
  have hcomma : close ≠ ',' := by rcases hclose with rfl | rfl <;> decide
  have hblank : isBlank close = false := by rcases hclose with rfl | rfl <;> decide
  induction xs generalizing x n bs with
  | nil =>
    obtain ⟨n, rfl⟩ := Nat.exists_eq_add_one_of_ne_zero (Nat.ne_of_gt hn)
    have hends : Ends (stop ++ close :: rest) := ends_of_blanks hstop (ends_cons (.inr hclose) rest)
    rw [tailText_nil, List.nil_append, readItems, hr x (by simp) bs _ hb hends]
    simp only [skipBlanks_append hstop, skipBlanks_cons hblank, hcomma, if_false, if_true]
  | cons y ys ih =>
    obtain ⟨n, rfl⟩ := Nat.exists_eq_add_one_of_ne_zero (Nat.ne_zero_of_lt hn)
    have htail := ih (fun z hz => hr z (List.mem_cons_of_mem _ hz)) (Nat.lt_of_succ_lt_succ hn) hstart
    rw [tailText_cons, readItems, hr x (by simp) bs _ hb (ends_cons (.inl rfl) _)]
    simp only [skipBlanks_cons (show isBlank ',' = false by decide), if_true, htail, Option.map_some]

theorem readList_nil (hclose : close = ']' ∨ close = '\x7d') : readList item close (close :: rest) = some ([], rest) := by
  have hblank : isBlank close = false := by rcases hclose with rfl | rfl <;> decide
  simp [readList, skipBlanks_cons hblank]

theorem readList_written (hr : ∀ y ∈ x :: xs, Reads item (text y) y) (hopen : Opens (text x))
    (hclose : close = ']' ∨ close = '\x7d') (hstart : Blanks start) (hstop : Blanks stop) :
    readList item close (start ++ (text x ++ (tailText start text xs ++ (stop ++ close :: rest)))) =
      some (x :: xs, rest) := by
  obtain ⟨c, cs, htext, hc, hclosing⟩ := hopen
  have hne : c ≠ close := by rcases hclose with rfl | rfl <;> simp [hclosing]
  have hskip : ∀ more, skipBlanks (start ++ (text x ++ more)) = c :: (cs ++ more) := by
    intro more
    rw [skipBlanks_append hstart, htext, List.cons_append, skipBlanks_cons hc]
  unfold readList
  rw [hskip]
  simp only [hne, if_false]
  refine readItems_written hr hclose hstart hstop ?_ hstart
  -- each item takes a comma at least, so the text is a bound for their number
  have hle : xs.length ≤ (tailText start text xs).length := length_le_tailText
  simp only [List.length_append, List.length_cons]
  omega

end

/-! ## Values -/

variable {room level : Nat} {l : Layout} {v : Json}

/-- Values that are read as they are written: their integers are of moderate length, no number is given by its text,
and containers nest at most so deep. -/
inductive Plain : Nat → Json → Prop where
  | null {room : Nat} : Plain room .null
  | bool {room : Nat} (b : Bool) : Plain room (.bool b)
  | int {room : Nat} {n : Int} : IsShort n.natAbs → Plain room (.int n)
  | string {room : Nat} (s : String) : Plain room (.string s)
  | array {room : Nat} {vs : List Json} : (∀ v ∈ vs, Plain room v) → Plain (room + 1) (.array vs)
  | object {room : Nat} {ms : List (String × Json)} : (∀ m ∈ ms, Plain room m.2) → Plain (room + 1) (.object ms)

theorem plain_optional {key : String} {value : Option Json} (h : ∀ v ∈ value, Plain room v) :
    ∀ m ∈ optional key value, Plain room m.2 := by
  cases value with
  | none => simp [optional]
  | some v => simpa [optional] using h

/-- A member as it is written. -/
def writeMember (l : Layout) (level : Nat) (m : String × Json) : List Char :=
  writeString m.1 ++ (l.colon ++ write l level m.2)

theorem writeItems_eq (vs : List Json) : writeItems l level vs = tailText (l.lineStart level) (write l level) vs := by
  induction vs with
  | nil => rfl
  | cons v vs ih => simp [writeItems, ih, tailText]

theorem writeMembers_eq (ms : List (String × Json)) :
    writeMembers l level ms = tailText (l.lineStart level) (writeMember l level) ms := by
  induction ms with
  | nil => rfl
  | cons m ms ih => simp [writeMembers, ih, tailText, writeMember]

theorem write_array (v : Json) (vs : List Json) :
    write l level (.array (v :: vs)) ++ rest = '[' :: (l.lineStart (level + 1) ++ (write l (level + 1) v ++
      (tailText (l.lineStart (level + 1)) (write l (level + 1)) vs ++ (l.lineStart level ++ ']' :: rest)))) := by
  simp [write, writeItems_eq]

theorem write_object (m : String × Json) (ms : List (String × Json)) :
    write l level (.object (m :: ms)) ++ rest = '\x7b' :: (l.lineStart (level + 1) ++ (writeMember l (level + 1) m ++
      (tailText (l.lineStart (level + 1)) (writeMember l (level + 1)) ms ++ (l.lineStart level ++ '\x7d' :: rest)))) := by
  simp [write, writeMembers_eq, writeMember]

/-! ### What a reader does at a value -/

theorem readValue_blanks (h : Blanks bs) (cs : List Char) : readValue strict room (bs ++ cs) = readValue strict room cs := by
  rw [readValue.eq_def, skipBlanks_append h, ← readValue.eq_def]

theorem readValue_string (cs : List Char) :
    readValue strict room ('\x22' :: cs) = (readString strict cs).map fun p => (.string p.1, p.2) := by
  rw [readValue.eq_def, skipBlanks_cons (by decide)]
  simp

theorem readValue_array (cs : List Char) : readValue strict (room + 1) ('[' :: cs) =
    (readList (readValue strict room) ']' cs).map fun p => (.array p.1, p.2) := by
  rw [readValue.eq_def, skipBlanks_cons (by decide)]
  simp

theorem readValue_object (cs : List Char) : readValue strict (room + 1) ('\x7b' :: cs) =
    (readList (readMember strict fun _ => readValue strict room) '\x7d' cs).map fun p => (.object p.1, p.2) := by
  rw [readValue.eq_def, skipBlanks_cons (by decide)]
  simp

theorem readValue_word {word : String} (h : (word, v) ∈ [("null", .null), ("true", .bool true), ("false", .bool false)]) :
    readValue strict room (word.toList ++ rest) = some (v, rest) := by
  have hread : readWord word v (word.toList ++ rest) = some (v, rest) := by
    have hprefix : word.toList <+: word.toList ++ rest := ⟨rest, rfl⟩
    simp [readWord, hprefix, ← String.length_toList]
  simp only [List.mem_cons, Prod.mk.injEq, List.not_mem_nil, or_false] at h
  rcases h with ⟨rfl, rfl⟩ | ⟨rfl, rfl⟩ | ⟨rfl, rfl⟩
  all_goals
    rw [readValue.eq_def]
    exact hread

theorem readValue_number {c : Char} (hc : c = '-' ∨ c.isDigit = true) (cs : List Char) :
    readValue strict room (c :: cs) = readNumber strict (c :: cs) := by
  have hne : ∀ x, x ≠ '-' → x.isDigit = false → c ≠ x := by
    rintro x hx hd rfl
    rcases hc with hc | hc
    · exact hx hc
    · rw [hd] at hc
      cases hc
  have hblank : isBlank c = false := by
    simp [isBlank, hne ' ' (by decide) (by decide), hne '\n' (by decide) (by decide), hne '\t' (by decide) (by decide),
      hne '\r' (by decide) (by decide)]
  rw [readValue.eq_def, skipBlanks_cons hblank]
  simp [hne '\x22' (by decide) (by decide), hne '[' (by decide) (by decide), hne '\x7b' (by decide) (by decide),
    hne 'n' (by decide) (by decide), hne 't' (by decide) (by decide), hne 'f' (by decide) (by decide)]

theorem head_toString (n : Int) : ∃ c cs, (toString n).toList = c :: cs ∧ (c = '-' ∨ c.isDigit = true) := by
  rw [Int.toString_eq_repr, Int.repr_eq_if]
  split
  · rw [Nat.toList_repr]
    cases hds : Nat.toDigits 10 n.toNat with
    | nil => exact absurd hds Nat.toDigits_ne_nil
    | cons c cs => exact ⟨c, cs, rfl, .inr (isDigit_of_mem_toDigits (by rw [hds]; simp))⟩
  · exact ⟨'-', _, by rw [String.toList_append]; rfl, .inl rfl⟩

theorem opens_write (h : Plain room v) : Opens (write l level v) := by
  cases h with
  | null => exact ⟨'n', _, rfl, by decide⟩
  | bool b => cases b <;> exact ⟨_, _, rfl, by decide⟩
  | int =>
    next n _ =>
    obtain ⟨c, cs, htext, hc⟩ := head_toString n
    refine ⟨c, cs, by rw [write, htext], ?_⟩
    rcases hc with rfl | hc
    · decide
    · have hne : ∀ x : Char, x.isDigit = false → c ≠ x := fun x hx => ne_of_test hc hx
      simp [isBlank, hne ' ' (by decide), hne '\n' (by decide), hne '\t' (by decide), hne '\r' (by decide),
        hne ']' (by decide), hne '\x7d' (by decide)]
  | string s => exact ⟨'\x22', _, rfl, by decide⟩
  | @array _ vs => cases vs <;> exact ⟨'[', _, rfl, by decide⟩
  | @object _ ms => rcases ms with _ | ⟨⟨k, v⟩, ms⟩ <;> exact ⟨'\x7b', _, rfl, by decide⟩

theorem opens_writeMember (m : String × Json) : Opens (writeMember l level m) := ⟨'\x22', _, rfl, by decide⟩

/-- A value is read if it is read without blanks before it. -/
theorem reads_value {text : List Char} (h : ∀ rest, Ends rest → readValue strict room (text ++ rest) = some (v, rest)) :
    Reads (readValue strict room) text v :=
  fun bs rest hb he => by rw [readValue_blanks hb, h rest he]

/-- A member is read by a reader for its value. -/
theorem reads_member {value : String → Reader Json} {m : String × Json}
    (h : Reads (value m.1) (write l level m.2) m.2) : Reads (readMember strict value) (writeMember l level m) m := by
  intro bs rest hb he
  have hkey : writeMember l level m ++ rest =
      '\x22' :: (m.1.toList.flatMap escapeChar ++ '\x22' :: (l.colon ++ (write l level m.2 ++ rest))) := by
    simp [writeMember, writeString]
  obtain ⟨gap, hcolon, hgap⟩ : ∃ gap, l.colon = ':' :: gap ∧ Blanks gap := by
    cases l with
    | compact => exact ⟨[], rfl, blanks_nil⟩
    | indented => exact ⟨[' '], rfl, by simp [Blanks, isBlank]⟩
  rw [readMember, skipBlanks_append hb, hkey, skipBlanks_cons (by decide)]
  simp only [readString_written, hcolon, Option.bind_eq_bind, Option.bind_some, List.cons_append,
    skipBlanks_cons (show isBlank ':' = false by decide), h gap rest hgap he]

/-- A list that is read by its items, behind its opening bracket. -/
theorem readList_members (strict : Bool) (value : String → Reader Json) {ms : List (String × Json)}
    (h : ∀ m ∈ ms, Reads (value m.1) (write l (level + 1) m.2) m.2) : ∀ rest, ∃ cs,
      write l level (.object ms) ++ rest = '\x7b' :: cs ∧ readList (readMember strict value) '\x7d' cs = some (ms, rest) := by
  intro rest
  cases ms with
  | nil => exact ⟨'\x7d' :: rest, by simp [write], readList_nil (.inr rfl)⟩
  | cons m ms =>
    exact ⟨_, write_object m ms, readList_written (fun m hm => reads_member (h m hm)) (opens_writeMember m) (.inr rfl)
      (blanks_lineStart l _) (blanks_lineStart l _)⟩

/-- A plain value is read from what is written for it. -/
theorem Plain.reads (h : Plain room v) : ∀ level, Reads (readValue strict room) (write l level v) v := by
  -- the level is that of the writer alone, the room that of the reader alone
  induction h with
  | null => exact fun _ => reads_value fun rest _ => readValue_word (by simp)
  | bool b =>
    refine fun _ => reads_value fun rest _ => ?_
    cases b <;> exact readValue_word (by simp)
  | @int _ n hn =>
    refine fun _ => reads_value fun rest he => ?_
    obtain ⟨c, cs, htext, hc⟩ := head_toString n
    have hread : readNumber strict ((toString n).toList ++ rest) = some (.int n, rest) := readNumber_written hn he
    rw [htext, List.cons_append] at hread
    rw [write, htext, List.cons_append, readValue_number hc, hread]
  | string s =>
    refine fun _ => reads_value fun rest _ => ?_
    simp [write, writeString, readValue_string, readString_written]
  | @array room vs hvs ih =>
    refine fun level => reads_value fun rest _ => ?_
    cases vs with
    | nil => simp [write, readValue_array, readList_nil]
    | cons v vs =>
      rw [write_array, readValue_array, readList_written (fun w hw => ih w hw (level + 1))
        (opens_write (hvs v (by simp))) (.inl rfl) (blanks_lineStart l (level + 1)) (blanks_lineStart l level)]
      rfl
  | @object room _ _ ih =>
    refine fun level => reads_value fun rest _ => ?_
    obtain ⟨cs, hwrite, hlist⟩ := readList_members strict (fun _ => readValue strict room)
      (fun m hm => ih m hm (level + 1)) rest
    rw [hwrite, readValue_object, hlist]
    rfl

/-! ## Whole texts -/

/-- An object of known members is read like any other. -/
theorem reads_outermost {known : String → Bool} {ms : List (String × Json)}
    (h : ∀ m ∈ ms, known m.1 = true ∧ Plain (maxNesting - 1) m.2) :
    Reads (readOutermost known) (write l level (.object ms)) (.object ms) := by
  intro bs rest hb _
  let value (room : Nat) (key : String) : Reader Json :=
    if known key then readValue true (maxNesting - 1) else readValue false room
  have hmembers : ∀ room, ∀ m ∈ ms, Reads (value room m.1) (write l (level + 1) m.2) m.2 := by
    intro room m hm
    simp only [value, (h m hm).1, if_true]
    exact (h m hm).2.reads (level + 1)
  unfold readOutermost
  generalize (bs ++ (write l level (.object ms) ++ rest)).length = room
  obtain ⟨cs, hwrite, hlist⟩ := readList_members true (value room) (hmembers room) rest
  rw [skipBlanks_append hb, hwrite, skipBlanks_cons (by decide)]
  exact congrArg (Option.map fun p => (Json.object p.1, p.2)) hlist

theorem whole?_written {r : Reader Json} (h : Reads r (write l 0 v) v) : whole? r (String.ofList (write l 0 v)) = some v := by
  have hread := h [] [] blanks_nil ends_nil
  rw [List.nil_append, List.append_nil] at hread
  simp [whole?, hread, skipBlanks]

end AnnotationChecker.Json
