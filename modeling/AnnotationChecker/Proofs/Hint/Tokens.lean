import AnnotationChecker.Proofs.Hint.Plain
import AnnotationChecker.Proofs.Token.Lexed
import AnnotationChecker.Proofs.Token.Numeral
import AnnotationChecker.Proofs.Token.Quoted
/-!
# The tokens of a hint

`Hint.kinds` are the tokens that a hint is written with, and `Hint.contents_text` says that they are what its
text is cut into, but for two losses: quoted texts are read back as `Text.rereadChars` says, and a number with
too many digits is faulty. Floats are left out.
-/

namespace AnnotationChecker

open Piece (Apart isWordStart isWordChar contents contents_word contents_mark contents_dot contents_minus natContent
  wordKind)

/-! ## What may follow a token -/

/-- The characters that end whatever token stands before them. -/
def Piece.delimiters : List Char := [' ', ',', '[', ']', ':', '\n']

/-- A text that no token before it runs into. -/
def Piece.Delimited (rest : List Char) : Prop := ∀ e ∈ rest.head?, e ∈ delimiters

theorem Piece.Delimited.cons {c : Char} {cs : List Char} (h : c ∈ delimiters) : Delimited (c :: cs) := by
  simpa [Delimited] using h

theorem Piece.Delimited.apart {rest : List Char} (h : Delimited rest) : Apart rest := by
  have hall : delimiters.all (fun e => isWordChar e = false ∧ e ≠ '\x22' ∧ e ≠ '\x27') = true := by decide
  exact fun e he => of_decide_eq_true (List.all_eq_true.1 hall e (h e he))

theorem Piece.Delimited.head?_ne {rest : List Char} {c : Char} (h : Delimited rest) (hc : c ∉ delimiters) :
    rest.head? ≠ some c :=
  fun he => hc (h c he)

/-! ## Names -/

/-- A word that is not reserved. -/
inductive IsWord : List Char → Prop
  | mk {c : Char} {run : List Char} (start : isWordStart c = true) (chars : ∀ e ∈ run, isWordChar e = true)
      (free : Keyword.ofText? (String.ofList (c :: run)) = none) : IsWord (c :: run)

theorem isWord_iff {cs : List Char} :
    IsWord cs ↔ isWordStart (cs.headD ' ') = true ∧ (cs.drop 1).all isWordChar = true ∧
      Keyword.ofText? (String.ofList cs) = none := by
  constructor
  · rintro ⟨start, chars, free⟩
    exact ⟨start, List.all_eq_true.2 chars, free⟩
  · rintro ⟨start, chars, free⟩
    cases cs with
    | nil => simp [isWordStart] at start
    | cons c run => exact ⟨start, List.all_eq_true.1 chars, free⟩

instance (cs : List Char) : Decidable (IsWord cs) := decidable_of_iff _ isWord_iff.symm

/-- The words of a dotted name. -/
def nameParts (n : String) : List (List Char) := n.toList.splitOn '.'

/-- Words with dots between them. -/
def IsName (n : String) : Prop := ∀ p ∈ nameParts n, IsWord p

instance (n : String) : Decidable (IsName n) := inferInstanceAs (Decidable (∀ p ∈ nameParts n, IsWord p))

theorem exists_nameParts (n : String) : ∃ p ps, nameParts n = p :: ps := by
  cases hn : nameParts n with
  | nil => exact absurd hn (List.splitOn_ne_nil _ _)
  | cons p ps => exact ⟨p, ps, rfl⟩

/-- A name is its words with dots between them. -/
theorem toList_eq_of_nameParts {n : String} {p : List Char} {ps : List (List Char)} (h : nameParts n = p :: ps) :
    n.toList = p ++ ps.flatMap fun q => '.' :: q := by
  have hi : ['.'].intercalate (nameParts n) = n.toList := List.intercalate_splitOn '.'
  rw [← hi, h]
  clear h hi
  induction ps generalizing p with
  | nil => simp
  | cons q qs ih => simp [List.intercalate_cons_cons, ih]

/-- The tokens of a word and those of further words, each behind a dot. -/
def dotted (p : List Char) (ps : List (List Char)) : List TokenKind :=
  .identifier (String.ofList p) :: ps.flatMap fun q => [.mark .dot, .identifier (String.ofList q)]

/-- The tokens of a dotted name. -/
def nameKinds (n : String) : List TokenKind :=
  match nameParts n with
  | [] => []
  | p :: ps => dotted p ps

theorem exists_nameKinds (n : String) : ∃ w ks, nameKinds n = .identifier w :: ks := by
  obtain ⟨p, ps, hp⟩ := exists_nameParts n
  exact ⟨_, _, by rw [nameKinds, hp]; rfl⟩

/-- The tokens of a name are words and dots. -/
theorem mem_nameKinds {n : String} {k : TokenKind} (h : k ∈ nameKinds n) : k = .mark .dot ∨ ∃ w, k = .identifier w := by
  obtain ⟨p, ps, hp⟩ := exists_nameParts n
  have hparts : k ∈ dotted p ps := by simpa only [nameKinds, hp] using h
  simp only [dotted, List.mem_cons, List.mem_flatMap, List.not_mem_nil, or_false] at hparts
  rcases hparts with rfl | ⟨q, -, rfl | rfl⟩
  · exact .inr ⟨_, rfl⟩
  · exact .inl rfl
  · exact .inr ⟨_, rfl⟩

/-! ## Hints -/

/-- The tokens of a constant. -/
def Const.kinds : Const → List TokenKind
  | .int v => if v < 0 then [.mark .minus, .int (-v)] else [.int v]
  | .float v => [.float v]
  | .str s => [.string s]
  | .bool b => [.keyword (if b then .trueWord else .falseWord)]
  | .none => [.keyword .noneWord]

theorem Const.kinds_of_neg {v : Int} (h : v < 0) : (Const.int v).kinds = [.mark .minus, .int (-v)] := if_pos h

theorem Const.kinds_of_nonneg {v : Int} (h : ¬ v < 0) : (Const.int v).kinds = [.int v] := if_neg h

/-- The number in the tokens of a constant is an integer without its sign. -/
theorem Const.int_mem_kinds {c : Const} {n : Int} : .int n ∈ c.kinds ↔ ∃ i, c = .int i ∧ n = i.natAbs := by
  cases c with
  | int i =>
    by_cases hi : i < 0
    · simp only [kinds_of_neg hi, List.mem_cons, List.not_mem_nil, or_false, reduceCtorEq, false_or,
        TokenKind.int.injEq, Const.int.injEq, exists_eq_left']
      omega
    · simp only [kinds_of_nonneg hi, List.mem_cons, List.not_mem_nil, or_false, TokenKind.int.injEq,
        Const.int.injEq, exists_eq_left']
      omega
  | _ => simp [kinds]

namespace Hint

mutual

/-- The tokens that a hint is written with. -/
def kinds : Hint → List TokenKind
  | .name _ n => nameKinds n
  | .subscript _ base args => nameKinds base ++ .mark .leftBracket :: (kindsList args ++ [.mark .rightBracket])
  | .list _ items => .mark .leftBracket :: (kindsList items ++ [.mark .rightBracket])
  | .or _ l r => kinds l ++ .mark .pipe :: kinds r
  | .const _ c => c.kinds

/-- The tokens of hints with commas between them. -/
def kindsList : List Hint → List TokenKind
  | [] => []
  | [h] => kinds h
  | h :: h' :: hs => kinds h ++ .mark .comma :: kindsList (h' :: hs)

end

/-- The tokens of hints are those of each of them and commas. -/
theorem mem_kindsList {k : TokenKind} (hk : k ≠ .mark .comma) {hs : List Hint} :
    k ∈ kindsList hs ↔ ∃ h ∈ hs, k ∈ h.kinds := by
  induction hs with
  | nil => simp [kindsList]
  | cons h hs ih =>
    cases hs with
    | nil => simp [kindsList]
    | cons h' hs => simp only [kindsList, List.mem_append, List.mem_cons, hk, false_or, ih, exists_eq_or_imp]

/-- A hint that its text can give back: its names are made of words, its subscripts have arguments, and it
holds no float. -/
inductive Legible : Hint → Prop
  | name {s : Span} {n : String} (words : IsName n) : Legible (.name s n)
  | subscript {s : Span} {base : String} {args : List Hint} (words : IsName base) (nonempty : args ≠ [])
      (all : ∀ h ∈ args, Legible h) : Legible (.subscript s base args)
  | list {s : Span} {items : List Hint} (all : ∀ h ∈ items, Legible h) : Legible (.list s items)
  | or {s : Span} {l r : Hint} (left : Legible l) (right : Legible r) : Legible (.or s l r)
  | const {s : Span} {c : Const} (noFloat : ∀ v, c ≠ .float v) : Legible (.const s c)

end Hint

/-! ## Reading the text -/

/-- The token that the text of a token is read as. -/
def TokenKind.reread : TokenKind → TokenKind
  | .int v => .int v.toNat
  | .string s => .string (Text.reread s)
  | k => k

theorem Const.reread_int {v : Int} : ∀ k ∈ (Const.int v).kinds, k.reread = k := by
  intro k hk
  by_cases hv : v < 0
  · have hn : ((-v).toNat : Int) = -v := Int.toNat_of_nonneg (by omega)
    rw [kinds_of_neg hv, List.mem_cons, List.mem_singleton] at hk
    rcases hk with rfl | rfl
    · rfl
    · rw [TokenKind.reread, hn]
  · have hn : (v.toNat : Int) = v := Int.toNat_of_nonneg (by omega)
    rw [kinds_of_nonneg hv] at hk
    rw [List.mem_singleton.1 hk, TokenKind.reread, hn]

/-- What the text of a token gives: a token, which is faulty for a number with too many digits. -/
def TokenKind.readBack : TokenKind → Content
  | .int v => natContent v.toNat
  | k => .token k.reread none

@[simp] theorem TokenKind.readBack_mark (m : Mark) : (mark m).readBack = .token (mark m) none := rfl

@[simp] theorem TokenKind.readBack_keyword (w : Keyword) : (keyword w).readBack = .token (keyword w) none := rfl

@[simp] theorem TokenKind.readBack_identifier (n : String) : (identifier n).readBack = .token (identifier n) none := rfl

theorem TokenKind.isSound_readBack {k : TokenKind} :
    k.readBack.IsSound ↔ ∀ v, k = .int v → v.toNat < Numeral.integerLimit := by
  cases k with
  | int v =>
    have hread : (int v).readBack = natContent v.toNat := rfl
    rw [hread]
    unfold natContent
    by_cases hv : v.toNat < Numeral.integerLimit
    · rw [if_pos hv]
      exact iff_of_true ⟨_, rfl⟩ fun w hw => by cases hw; exact hv
    · rw [if_neg hv]
      exact iff_of_false (by simp [Content.IsSound]) fun h => hv (h v rfl)
  | _ => simp [readBack, Content.IsSound]

theorem TokenKind.readBack_of_isSound {k : TokenKind} (h : k.readBack.IsSound) : k.readBack = .token k.reread none := by
  rw [isSound_readBack] at h
  cases k with
  | int v => exact if_pos (h v rfl)
  | _ => rfl

open Piece (Delimited)

variable {d : Nat} {rest : List Char}

theorem contents_isWord {p : List Char} (hp : IsWord p) (h : Apart rest) :
    contents d (p ++ rest) = .token (.identifier (String.ofList p)) none :: contents d rest := by
  obtain ⟨start, chars, free⟩ := hp
  rw [List.cons_append, contents_word start chars h, wordKind, free]

/-- A dot ends a word. -/
theorem apart_dot (cs : List Char) : Apart ('.' :: cs) := by
  intro e he
  simp only [List.head?_cons, Option.mem_some_iff] at he
  subst he
  decide

theorem contents_dotted {p : List Char} {ps : List (List Char)} (hp : IsWord p) (hps : ∀ q ∈ ps, IsWord q)
    (h : Apart rest) :
    contents d ((p ++ ps.flatMap fun q => '.' :: q) ++ rest) =
      (dotted p ps).map TokenKind.readBack ++ contents d rest := by
  induction ps generalizing p with
  | nil => simpa [dotted] using contents_isWord hp h
  | cons q qs ih =>
    have hq := hps q (by simp)
    have ih := ih hq fun e he => hps e (List.mem_cons_of_mem _ he)
    -- the next word starts with no digit, so the dot is a mark and no numeral
    have hdot : ∀ e ∈ (q ++ ((qs.flatMap fun q => '.' :: q) ++ rest)).head?, e.isDigit = false := by
      obtain ⟨start, -, -⟩ := hq
      simpa using Piece.not_isDigit_of_isWordStart start
    rw [List.flatMap_cons, List.append_assoc, List.cons_append, List.cons_append, List.append_assoc,
      contents_isWord hp (apart_dot _), contents_dot hdot, ← List.append_assoc, ih]
    simp [dotted]

theorem contents_name {n : String} (hn : IsName n) (h : Apart rest) :
    contents d (n.toList ++ rest) = (nameKinds n).map TokenKind.readBack ++ contents d rest := by
  obtain ⟨p, ps, hps⟩ := exists_nameParts n
  unfold IsName at hn
  rw [hps, List.forall_mem_cons] at hn
  rw [toList_eq_of_nameParts hps, contents_dotted hn.1 hn.2 h, nameKinds, hps]

theorem toString_of_nonneg {v : Int} (h : 0 ≤ v) : toString v = toString v.toNat := by
  obtain ⟨n, rfl⟩ := Int.eq_ofNat_of_zero_le h
  rfl

theorem toString_of_neg {v : Int} (h : v < 0) : toString v = "-" ++ toString (-v).toNat := by
  obtain ⟨n, rfl⟩ := Int.eq_negSucc_of_lt_zero h
  rfl

/-- A number is no arrow's head. -/
theorem head?_nat_ne (n : Nat) (cs : List Char) : ((toString n).toList ++ cs).head? ≠ some '>' := by
  rw [Nat.toString_eq_repr, Nat.toList_repr]
  cases hds : Nat.toDigits 10 n with
  | nil => exact absurd hds Nat.toDigits_ne_nil
  | cons e es =>
    have he : e.isDigit = true := Numeral.isDigit_of_mem_toDigits (hds ▸ List.mem_cons_self)
    intro hg
    simp only [List.cons_append, List.head?_cons, Option.some.injEq] at hg
    subst hg
    simp at he

theorem contents_int {v : Int} (h : Delimited rest) :
    contents d ((toString v).toList ++ rest) = (Const.int v).kinds.map TokenKind.readBack ++ contents d rest := by
  have hp : rest.head? ≠ some '.' := h.head?_ne (by decide)
  by_cases hv : v < 0
  · rw [toString_of_neg hv, String.toList_append, List.append_assoc]
    show contents d ('-' :: ((toString (-v).toNat).toList ++ rest)) = _
    rw [contents_minus (head?_nat_ne _ _), Piece.contents_nat h.apart hp, Const.kinds_of_neg hv]
    rfl
  · rw [toString_of_nonneg (Int.not_lt.1 hv), Piece.contents_nat h.apart hp, Const.kinds_of_nonneg hv]
    rfl

theorem contents_keyword (w : Keyword) (h : Apart rest) :
    contents d (w.text.toList ++ rest) = .token (.keyword w) none :: contents d rest := by
  have hs : isWordStart (w.text.toList.headD ' ') = true := by cases w <;> decide
  have hall : w.text.toList.all isWordChar = true := by cases w <;> decide
  cases hw : w.text.toList with
  | nil => rw [hw] at hs; simp [isWordStart] at hs
  | cons e es =>
    rw [hw, List.headD_cons] at hs
    rw [hw, List.all_eq_true, List.forall_mem_cons] at hall
    have hk : wordKind (e :: es) = .keyword w := by
      rw [wordKind, ← hw, String.ofList_toList, Keyword.ofText?_text]
    rw [List.cons_append, contents_word hs hall.2 h, hk]

theorem contents_const {c : Const} (hc : ∀ v, c ≠ .float v) (h : Delimited rest) :
    contents d (c.text.toList ++ rest) = c.kinds.map TokenKind.readBack ++ contents d rest := by
  cases c with
  | float v => exact absurd rfl (hc v)
  | int v => exact contents_int h
  | str s =>
    simpa [Const.text, Const.kinds, Text.quote, TokenKind.readBack, TokenKind.reread, Text.reread] using
      Piece.contents_quoted s.toList h.apart
  | none => exact contents_keyword .noneWord h.apart
  | bool b =>
    cases b with
    | true => exact contents_keyword .trueWord h.apart
    | false => exact contents_keyword .falseWord h.apart

namespace Hint

theorem contents_textList {hs : List Hint}
    (ih : ∀ h ∈ hs, ∀ d rest, Delimited rest →
      contents d (h.text.toList ++ rest) = h.kinds.map TokenKind.readBack ++ contents d rest)
    (h : Delimited rest) :
    contents d ((textList hs).toList ++ rest) = (kindsList hs).map TokenKind.readBack ++ contents d rest := by
  induction hs with
  | nil => rfl
  | cons a hs ihs =>
    cases hs with
    | nil => exact ih a (by simp) d rest h
    | cons b hs =>
      have hb := ihs fun e he => ih e (List.mem_cons_of_mem _ he)
      have hcomma : Delimited (',' :: ' ' :: ((textList (b :: hs)).toList ++ rest)) := .cons (by decide)
      have hm : contents d (',' :: ' ' :: ((textList (b :: hs)).toList ++ rest)) =
          .token (.mark .comma) none :: contents d (' ' :: ((textList (b :: hs)).toList ++ rest)) :=
        contents_mark rfl (by decide)
      simp only [textList, kindsList, String.toList_append, List.append_assoc]
      show contents d (a.text.toList ++ (',' :: ' ' :: ((textList (b :: hs)).toList ++ rest))) = _
      rw [ih a (by simp) d _ hcomma, hm, Piece.contents_space, hb]
      simp

/-- The tokens of hints between brackets. -/
theorem contents_bracketed {hs : List Hint}
    (ih : ∀ h ∈ hs, ∀ d rest, Delimited rest →
      contents d (h.text.toList ++ rest) = h.kinds.map TokenKind.readBack ++ contents d rest) :
    contents d ('[' :: ((textList hs).toList ++ ']' :: rest)) =
      (.mark .leftBracket :: (kindsList hs ++ [.mark .rightBracket])).map TokenKind.readBack ++ contents d rest := by
  have hl : contents d ('[' :: ((textList hs).toList ++ ']' :: rest)) =
      .token (.mark .leftBracket) none :: contents (d + 1) ((textList hs).toList ++ ']' :: rest) :=
    contents_mark rfl (by decide)
  have hr : contents (d + 1) (']' :: rest) = .token (.mark .rightBracket) none :: contents d rest :=
    contents_mark rfl (by decide)
  rw [hl, contents_textList ih (.cons (by decide)), hr]
  simp

/-- The tokens of the text of a hint. -/
theorem contents_text {h : Hint} (hl : h.Legible) (hr : Delimited rest) :
    contents d (h.text.toList ++ rest) = h.kinds.map TokenKind.readBack ++ contents d rest := by
  -- what follows a part of the hint is a bracket, a comma or a blank, which ends the last token of it
  induction hl generalizing d rest with
  | name words => exact contents_name words hr.apart
  | const noFloat => exact contents_const noFloat hr
  | list all ih =>
    rw [text, String.toList_append, String.toList_append, List.append_assoc, List.append_assoc]
    exact contents_bracketed fun h hh d rest => ih h hh
  | @subscript s base args words nonempty all ih =>
    have hb : Delimited ('[' :: ((textList args).toList ++ ']' :: rest)) := .cons (by decide)
    simp only [text, String.toList_append, List.append_assoc]
    show contents d (base.toList ++ ('[' :: ((textList args).toList ++ ']' :: rest))) = _
    rw [contents_name words hb.apart, contents_bracketed fun h hh d rest => ih h hh, kinds, List.map_append,
      List.append_assoc]
  | @or s l r left right ihl ihr =>
    have hp : Delimited (' ' :: '|' :: ' ' :: (r.text.toList ++ rest)) := .cons (by decide)
    have hm : contents d ('|' :: ' ' :: (r.text.toList ++ rest)) =
        .token (.mark .pipe) none :: contents d (' ' :: (r.text.toList ++ rest)) := contents_mark rfl (by decide)
    simp only [text, String.toList_append, List.append_assoc]
    show contents d (l.text.toList ++ (' ' :: '|' :: ' ' :: (r.text.toList ++ rest))) = _
    rw [ihl hp, Piece.contents_space, hm, Piece.contents_space, ihr hr]
    simp [kinds]

end Hint

end AnnotationChecker
