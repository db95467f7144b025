import AnnotationChecker.Proofs.Token.Ahead
/-!
# No piece reaches over the end of a line

The last line end of a text ends whatever runs up to it, and whatever reads ahead stops there, but for literals that are
left open. So a text of whole lines in which all literals are closed is cut in the same way whatever text comes after
it (`Piece.pieces_append`).
-/

namespace AnnotationChecker

/-! ## Runs -/

/-- The characters that the end of a line is written with. -/
def IsBreak (b : Char) : Prop := b = '\n' ∨ b = '\r'

theorem IsBreak.inert {b : Char} (hb : IsBreak b) : IsInert b := by
  rcases hb with rfl | rfl <;> decide

/-- A run stops at a character that it does not take. -/
theorem takeWhile_line {p : Char → Bool} {b : Char} (hp : p b = false) (xs ds : List Char) :
    (xs ++ b :: ds).takeWhile p = xs.takeWhile p := by
  induction xs with
  | nil => simp [hp]
  | cons x xs ih => simp [List.takeWhile_cons, ih]

theorem drop_line {b : Char} {xs : List Char} {n : Nat} (h : n ≤ xs.length) (ds : List Char) :
    (xs ++ b :: ds).drop n = xs.drop n ++ b :: ds :=
  List.drop_append_of_le_length h

/-! ## Literals -/

namespace StringBody

variable {q : Char} {triple raw : Bool} {cs : List Char}

theorem two_le_of_completes (h : completes q cs = true) : 2 ≤ cs.length := by
  unfold completes at h
  split at h
  · simp
  · cases h

theorem completes_append (h : 2 ≤ cs.length) (ds : List Char) : completes q (cs ++ ds) = completes q cs := by
  rcases cs with _ | ⟨a, _ | ⟨b, cs⟩⟩
  · simp at h
  · simp at h
  · rfl

/-- A body takes nothing that is not there. -/
theorem length_read_le : (read q triple raw cs).length ≤ cs.length := by
  fun_induction read q triple raw cs with
  | case1 | case2 | case3 | case6 => simp
  | case4 _ _ hc =>
    have hle := two_le_of_completes hc
    simp only [List.length_cons]
    omega
  | case5 _ _ _ _ ih | case7 _ _ _ _ ih | case8 _ _ _ _ _ _ ih | case9 _ _ _ _ _ ih | case10 _ _ _ _ _ ih =>
    simp only [Body.after, List.length_cons] at ih ⊢
    omega

/-- A triple quote has three characters. -/
theorem three_le_of_closed (h : (read q true raw cs).closed = true) : 3 ≤ (read q true raw cs).length := by
  generalize ht : true = triple at h ⊢
  fun_induction read q triple raw cs with
  | case1 | case2 | case3 | case4 | case6 => simp_all
  | case5 _ _ _ _ ih | case7 _ _ _ _ ih | case8 _ _ _ _ _ _ ih | case9 _ _ _ _ _ ih | case10 _ _ _ _ _ ih =>
    exact Nat.le_trans (ih h) (Nat.le_add_left ..)

/-- A body that is closed stays the same whatever comes behind it. -/
theorem read_append (h : (read q triple raw cs).closed = true) (ds : List Char) :
    read q triple raw (cs ++ ds) = read q triple raw cs := by
  fun_induction read q triple raw cs with
  | case1 | case2 | case6 => cases h
  | case3 cs htriple hn =>
    have hq : q ≠ '\n' := by simpa [htriple] using hn
    rw [List.cons_append, read.eq_def]
    simp [htriple, hq]
  | case4 cs htriple hc =>
    have hc' : completes q (cs ++ ds) = true := by rw [completes_append (two_le_of_completes hc), hc]
    rw [List.cons_append, read.eq_def]
    simp [htriple, hc']
  | case5 cs htriple hc _ ih =>
    -- the rest is long enough to hold the closing quotes
    simp only [Bool.not_eq_false] at htriple
    subst htriple
    have hlen : 3 ≤ cs.length := Nat.le_trans (three_le_of_closed h) length_read_le
    have hc' : completes q (cs ++ ds) = false := by
      rw [completes_append (by omega)]
      simpa using hc
    rw [List.cons_append, read.eq_def]
    simp [hc', ih h]
  | case7 cs hraw hn hq ih =>
    subst hraw
    have ih := ih h
    rw [List.cons_append] at ih
    rw [List.cons_append, List.cons_append, read.eq_def]
    simp [hq, ih]
  | case8 d cs hraw hd hn hq ih =>
    subst hraw
    rw [List.cons_append, List.cons_append, read.eq_def]
    simp [hq, hd, ih h]
  | case9 d cs hraw hn hq ih =>
    simp only [Bool.not_eq_true] at hraw
    subst hraw
    rw [List.cons_append, List.cons_append, read.eq_def]
    simp [hq, ih h]
  | case10 d cs hn hq hb ih =>
    rw [List.cons_append, read.eq_def]
    simp [hn, hq, hb, ih h]

theorem length_readQuoted_le : (readQuoted q raw cs).length ≤ cs.length := by
  unfold readQuoted
  split
  · next hc =>
    have hle := two_le_of_completes hc
    have hread : (read q true raw (cs.drop 2)).length ≤ (cs.drop 2).length := length_read_le
    simp only [Body.after, List.length_drop] at hread ⊢
    omega
  · exact length_read_le

/-- A literal that is closed before a line end stays the same whatever comes behind that. -/
theorem readQuoted_line (hq : q ≠ '\n') {xs : List Char} (h : (readQuoted q raw (xs ++ ['\n'])).closed = true)
    (ds : List Char) : readQuoted q raw (xs ++ '\n' :: ds) = readQuoted q raw (xs ++ ['\n']) := by
  have hc : completes q (xs ++ '\n' :: ds) = completes q (xs ++ ['\n']) := by
    rcases xs with _ | ⟨a, _ | ⟨b, xs⟩⟩
    · cases ds <;> simp [completes, hq.symm]
    · rfl
    · rfl
  have happ : xs ++ '\n' :: ds = (xs ++ ['\n']) ++ ds := by simp
  unfold readQuoted at h ⊢
  rw [hc]
  split at h
  · next ht =>
    rw [if_pos ht, if_pos ht, happ, List.drop_append_of_le_length (two_le_of_completes ht), read_append h]
  · next ht => rw [if_neg ht, if_neg ht, happ, read_append h]

end StringBody

namespace Piece

variable {depth : Nat} {c : Char} {cs : List Char}

/-! ## Pieces -/

/-- A word is a literal with a marker, or it is made of its characters alone. -/
theorem word_cases (c : Char) (cs : List Char) :
    (∃ q rest f, cs.drop (cs.takeWhile isWordChar).length = q :: rest ∧
        word c cs = literal f ((cs.takeWhile isWordChar).length + 1) (StringBody.readQuoted q f.raw rest)) ∨
      word c cs = .token (wordKind (c :: cs.takeWhile isWordChar)) (cs.takeWhile isWordChar).length := by
  unfold word
  dsimp only
  split
  · next q rest hdrop =>
    split
    · split
      · next f _ => exact .inl ⟨q, rest, f, hdrop, rfl⟩
      · exact .inr rfl
    · exact .inr rfl
  · exact .inr rfl

/-- A word takes nothing that is not there. -/
theorem more_word_le : (word c cs).more ≤ cs.length := by
  have hrun := length_takeWhile_le isWordChar cs
  rcases word_cases c cs with ⟨q, rest, f, hdrop, hword⟩ | hword
  · have hlen := congrArg List.length hdrop
    have hbody : (StringBody.readQuoted q f.raw rest).length ≤ rest.length := StringBody.length_readQuoted_le
    rw [hword]
    simp only [literal, List.length_drop, List.length_cons] at hlen ⊢
    omega
  · rw [hword]
    exact hrun

theorem more_numeral_le : (numeral c cs).more ≤ cs.length := by
  have hle : (Numeral.read c cs).more ≤ cs.length := Numeral.more_read_le
  unfold numeral
  dsimp only
  split <;> exact hle

theorem more_backslash_le : (backslash cs).more ≤ cs.length := by
  unfold backslash
  split <;> simp

theorem more_comment_le : (comment depth cs).more ≤ cs.length := length_takeWhile_le (· != '\n') cs

theorem more_ite_le {p : Prop} [Decidable p] {r r' : Reading} {n : Nat} (h : r.more ≤ n) (h' : r'.more ≤ n) :
    (if p then r else r').more ≤ n := by
  split
  · exact h
  · exact h'

/-- An operator may have a second character. -/
theorem more_operator_le {e : Char} {k k' : TokenKind} :
    (if cs.head? = some e then Reading.token k 1 else .token k' 0).more ≤ cs.length := by
  split
  · next he =>
    cases cs with
    | nil => cases he
    | cons x xs => simp [Reading.token]
  · exact Nat.zero_le _

/-- A piece takes nothing that is not there. -/
theorem more_read_le : (read depth c cs).more ≤ cs.length := by
  have hquoted : (literal .plain 0 (StringBody.readQuoted c false cs)).more ≤ cs.length := by
    simpa [literal] using StringBody.length_readQuoted_le
  unfold read
  refine more_ite_le (Nat.zero_le _) ?_
  refine more_ite_le more_backslash_le ?_
  refine more_ite_le (Nat.zero_le _) ?_
  refine more_ite_le more_comment_le ?_
  refine more_ite_le hquoted ?_
  refine more_ite_le more_numeral_le ?_
  refine more_ite_le more_word_le ?_
  refine more_ite_le more_operator_le ?_
  refine more_ite_le more_operator_le ?_
  split
  · exact Nat.zero_le _
  · exact more_ite_le (Nat.zero_le _) (Nat.zero_le _)

/-! ## What stands behind a line end -/

/-- A literal is open when it runs into the end of its line or of the text. -/
def Reading.IsOpen (r : Reading) : Prop := ∃ k, r.content = .token k (some .unterminatedString)

theorem closed_of_not_isOpen {f : StringBody.Flavor} {before : Nat} {b : StringBody.Body}
    (h : ¬ (literal f before b).IsOpen) : b.closed = true := by
  rw [← Bool.not_eq_false]
  intro hb
  exact h ⟨_, by rw [literal, hb]; rfl⟩

/-- A word in a line is a literal with a marker, or nothing that stands behind the line matters to it. -/
theorem word_split (c : Char) (xs : List Char) :
    (∃ f q rest, (q = '\x22' ∨ q = '\x27') ∧ xs.drop (xs.takeWhile isWordChar).length = q :: rest ∧
        ∀ b es, IsBreak b → word c (xs ++ b :: es) =
          literal f ((xs.takeWhile isWordChar).length + 1) (StringBody.readQuoted q f.raw (rest ++ b :: es))) ∨
      ∀ b es, IsBreak b → word c (xs ++ b :: es) = word c xs := by
  have hrun : ∀ b es, IsBreak b → (xs ++ b :: es).takeWhile isWordChar = xs.takeWhile isWordChar :=
    fun b es hb => takeWhile_line (by rcases hb with rfl | rfl <;> decide) xs es
  have hdrop : ∀ b es, (xs ++ b :: es).drop (xs.takeWhile isWordChar).length =
      xs.drop (xs.takeWhile isWordChar).length ++ b :: es := fun b es => drop_line (length_takeWhile_le isWordChar xs) es
  cases hrest : xs.drop (xs.takeWhile isWordChar).length with
  | nil =>
    right
    intro b es hb
    have hquote : ¬ (b = '\x22' ∨ b = '\x27') := by rcases hb with rfl | rfl <;> decide
    unfold word
    simp only [hrun b es hb, hdrop, hrest, List.nil_append, if_neg hquote]
  | cons q rest =>
    by_cases hq : q = '\x22' ∨ q = '\x27'
    · cases hf : StringBody.Flavor.ofMarker? (c :: xs.takeWhile isWordChar) with
      | some f =>
        left
        refine ⟨f, q, rest, hq, rfl, fun b es hb => ?_⟩
        unfold word
        simp only [hrun b es hb, hdrop, hrest, List.cons_append, if_pos hq, hf]
      | none =>
        right
        intro b es hb
        unfold word
        simp only [hrun b es hb, hdrop, hrest, List.cons_append, if_pos hq, hf]
    · right
      intro b es hb
      unfold word
      simp only [hrun b es hb, hdrop, hrest, List.cons_append, if_neg hq]

/-- What a backslash is depends on the next two characters. -/
theorem backslash_cons_cons (x y : Char) (cs : List Char) : backslash (x :: y :: cs) = backslash [x, y] := by
  by_cases hn : x = '\n'
  · subst hn
    rfl
  · by_cases hr : x = '\r'
    · subst hr
      by_cases hy : y = '\n'
      · subst hy
        rfl
      · simp [backslash, hy]
    · simp [backslash, hn, hr]

theorem backslash_line (xs ds : List Char) : backslash (xs ++ '\n' :: ds) = backslash (xs ++ ['\n']) := by
  rcases xs with _ | ⟨x, _ | ⟨y, xs⟩⟩
  · rfl
  · exact backslash_cons_cons x '\n' ds
  · exact (backslash_cons_cons x y _).trans (backslash_cons_cons x y _).symm

theorem comment_line (xs ds : List Char) : comment depth (xs ++ '\n' :: ds) = comment depth xs := by
  have hrun : (xs ++ '\n' :: ds).takeWhile (· != '\n') = xs.takeWhile (· != '\n') := takeWhile_line (by decide) xs ds
  simp only [comment, hrun]

theorem read_of_quote (h : c = '\x22' ∨ c = '\x27') :
    read depth c cs = literal .plain 0 (StringBody.readQuoted c false cs) := by
  rcases h with rfl | rfl <;> simp [read]

/-- A literal starts with the first character of a line: a marker, a quote, and the rest of the line. -/
structure StartsLiteral (depth : Nat) (c : Char) (xs : List Char) (f : StringBody.Flavor) (marker : List Char) (q : Char)
    (rest : List Char) : Prop where
  quote : q = '\x22' ∨ q = '\x27'
  word : ∀ e ∈ marker, isWordChar e = true
  split : c :: xs = marker ++ q :: rest
  read_eq : ∀ b es, IsBreak b → read depth c (xs ++ b :: es) =
    literal f marker.length (StringBody.readQuoted q f.raw (rest ++ b :: es))

/-- A piece in a line is a literal, or nothing that stands behind the line matters to it. Joined lines, line ends and
comments are left out. -/
theorem read_split (hb : c ≠ '\\') (hn : c ≠ '\n') (hc : c ≠ '#') (xs : List Char) :
    (∃ f marker q rest, StartsLiteral depth c xs f marker q rest) ∨
      ∀ b es, IsBreak b → read depth c (xs ++ b :: es) = read depth c xs := by
  by_cases hq : c = '\x22' ∨ c = '\x27'
  · exact .inl ⟨.plain, [], c, xs, ⟨hq, by simp, rfl, fun _ _ _ => read_of_quote hq⟩⟩
  · by_cases hw : isWordStart c = true
    · rcases word_split c xs with ⟨f, q, rest, hq, hrest, hword⟩ | hword
      · left
        refine ⟨f, c :: xs.takeWhile isWordChar, q, rest, ⟨hq, ?_, ?_, ?_⟩⟩
        · exact List.forall_mem_cons.2 ⟨isWordChar_of_isWordStart hw, List.all_eq_true.1 List.all_takeWhile⟩
        · rw [← hrest, List.cons_append, List.prefix_iff_eq_append.1 (List.takeWhile_prefix isWordChar)]
        · intro b es hb
          rw [read_of_isWordStart hw]
          exact hword b es hb
      · right
        intro b es hb
        rw [read_of_isWordStart hw, read_of_isWordStart hw, hword b es hb]
    · exact .inr fun b es hbreak => read_of_agree (agree_line hbreak.inert xs es) hb hn hc hq hw

/-- A piece is read without a look at what stands behind a line end after it, unless it is an open literal. -/
theorem read_line (xs ds : List Char) (h : ¬ (read depth c (xs ++ ['\n'])).IsOpen) :
    read depth c (xs ++ '\n' :: ds) = read depth c (xs ++ ['\n']) := by
  by_cases hb : c = '\\'
  · subst hb
    simp [read, backslash_line xs ds]
  · by_cases hn : c = '\n'
    · subst hn
      simp [read]
    · by_cases hc : c = '#'
      · subst hc
        simp [read, comment_line]
      · rcases @read_split depth c hb hn hc xs with ⟨f, marker, q, rest, hl⟩ | hread
        · have hne : q ≠ '\n' := by rcases hl.quote with rfl | rfl <;> decide
          rw [hl.read_eq _ _ (.inl rfl)] at h
          rw [hl.read_eq _ _ (.inl rfl), hl.read_eq _ _ (.inl rfl),
            StringBody.readQuoted_line hne (closed_of_not_isOpen h)]
        · rw [hread _ _ (.inl rfl), hread _ _ (.inl rfl)]

/-- A text of whole lines. -/
def EndsLine (cs : List Char) : Prop := cs = [] ∨ ∃ xs, cs = xs ++ ['\n']

theorem EndsLine.drop (hl : EndsLine cs) (n : Nat) : EndsLine (cs.drop n) := by
  rcases hl with rfl | ⟨xs, rfl⟩
  · exact .inl (by simp)
  · by_cases hn : n ≤ xs.length
    · exact .inr ⟨xs.drop n, List.drop_append_of_le_length hn⟩
    · refine .inl (List.drop_eq_nil_of_le ?_)
      simp only [List.length_append, List.length_singleton]
      omega

/-- A piece of whole lines is read the same whatever text comes behind them, unless it is an open literal. -/
theorem read_append (hl : EndsLine (c :: cs)) (h : ¬ (read depth c cs).IsOpen) (ds : List Char) :
    read depth c (cs ++ ds) = read depth c cs := by
  obtain hnil | ⟨xs, hxs⟩ := hl
  · cases hnil
  cases xs with
  | nil =>
    -- the line end itself
    obtain ⟨rfl, rfl⟩ := List.cons.inj hxs
    simp [read]
  | cons x xs =>
    obtain ⟨rfl, rfl⟩ : c = x ∧ cs = xs ++ ['\n'] := by simpa using hxs
    rw [List.append_assoc]
    exact read_line xs ds h

/-- The number of open brackets behind pieces. -/
def openBehind (depth : Nat) (ps : List Piece) : Nat := ps.foldl (fun d p => openAfter d p.content) depth

/-- Induction over the pieces of a text: what is left behind the first one is cut under the brackets that it leaves
open. -/
@[elab_as_elim]
theorem piecesInduction {P : Nat → List Char → Prop} (nil : ∀ depth, P depth [])
    (cons : ∀ depth c cs, P (openAfter depth (read depth c cs).content) (cs.drop (read depth c cs).more) →
      P depth (c :: cs)) (depth : Nat) (cs : List Char) : P depth cs := by
  induction hn : cs.length using Nat.strongRecOn generalizing depth cs with
  | _ n ih =>
    cases cs with
    | nil => exact nil depth
    | cons c cs =>
      refine cons depth c cs (ih _ ?_ _ _ rfl)
      simp only [List.length_drop, List.length_cons] at hn ⊢
      omega

/-- Whole lines without open literals are cut in the same way whatever text comes behind them. That text is cut under
the brackets that they leave open. -/
theorem pieces_append (hl : EndsLine cs) (h : ∀ p ∈ pieces depth cs, ∀ k, p.content ≠ .token k (some .unterminatedString))
    (ds : List Char) :
    pieces depth (cs ++ ds) = pieces depth cs ++ pieces (openBehind depth (pieces depth cs)) ds := by
  induction depth, cs using piecesInduction with
  | nil depth => rfl
  | cons depth c cs ih =>
    rw [pieces_cons] at h
    obtain ⟨hfirst, hrest⟩ := List.forall_mem_cons.1 h
    have hread : read depth c (cs ++ ds) = read depth c cs := read_append hl (fun ⟨k, hk⟩ => hfirst k hk) ds
    have hle : (read depth c cs).more ≤ cs.length := more_read_le
    have hdrop : EndsLine (cs.drop (read depth c cs).more) := hl.drop ((read depth c cs).more + 1)
    rw [List.cons_append, pieces_cons, pieces_cons, hread, List.take_append_of_le_length hle,
      List.drop_append_of_le_length hle, ih hdrop hrest, List.cons_append]
    rfl

end Piece

end AnnotationChecker
