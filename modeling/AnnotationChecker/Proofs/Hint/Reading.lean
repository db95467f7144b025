import AnnotationChecker.Hint.Parser
import AnnotationChecker.Proofs.Hint.Tokens
import AnnotationChecker.Proofs.Token.Cursor
/-!
# Reading the tokens of a hint

From the tokens that a hint is written with the parser reads a hint with the same plain form, and leaves the
tokens behind them (`Hint.parser_reads`), unless it is stopped by the nesting limit. A part of a chain ends
before any token that does not go on with a name; a whole chain ends before any that is no `|` either.
-/

namespace AnnotationChecker.Parser

variable {c : Cursor}

theorem yields_dottedTail {n : String} {s : Span} {d : Nat} {prev : Span} {ps : List (List Char)}
    {ts : List Token} {ks : List TokenKind}
    (h : ts.map Token.kind = (ps.flatMap fun q => [.mark .dot, .identifier (String.ofList q)]) ++ ks)
    (hk : ks.head? ≠ some (.mark .dot)) :
    ∃ s' c', dottedTail n s d prev ts = .ok (n ++ String.ofList (ps.flatMap fun q => '.' :: q), s') c' ∧
      c'.kinds = ks := by
  induction ps generalizing n s prev ts with
  | nil =>
    -- no dot comes next, so the first equation of the loop does not apply
    rw [List.flatMap_nil, List.nil_append] at h
    subst h
    refine ⟨s, ⟨ts, prev, d⟩, ?_, rfl⟩
    rw [dottedTail.eq_def]
    split
    · simp at hk
    · simp
  | cons q qs ih =>
    match ts, h with
    | [], h => simp at h
    | [t], h => simp at h
    | ⟨kt, st⟩ :: ⟨ku, su⟩ :: ts, h =>
      simp only [List.map_cons, List.flatMap_cons, List.cons_append, List.nil_append, List.cons.injEq] at h
      obtain ⟨rfl, rfl, h⟩ := h
      obtain ⟨s', c', he, hc⟩ := ih h
      refine ⟨s', c', ?_, hc⟩
      rw [dottedTail.eq_def]
      simp only
      rw [he]
      simp [String.append_assoc, String.ofList_append]

theorem Yields.dottedName {n : String} {ks : List TokenKind} (h : c.kinds = nameKinds n ++ ks)
    (hk : ks.head? ≠ some (.mark .dot)) : Yields Parser.dottedName c fun x c' => x.1 = n ∧ c'.kinds = ks := by
  obtain ⟨p, ps, hp⟩ := exists_nameParts n
  rw [nameKinds, hp] at h
  refine .bind (Yields.identifier h) ?_
  rintro ⟨m, s⟩ c' ⟨rfl, hc⟩
  obtain ⟨s', c'', he, hc'⟩ := yields_dottedTail hc hk
  unfold Yields
  simp only
  rw [he]
  refine ⟨?_, hc'⟩
  rw [← String.ofList_append, ← toList_eq_of_nameParts hp, String.ofList_toList]

end AnnotationChecker.Parser

namespace AnnotationChecker.Hint

open AnnotationChecker.Parser

/-- The tokens that end a part of a chain. -/
def EndsAtom (k : TokenKind) : Prop := k ≠ .mark .dot ∧ k ≠ .mark .leftBracket

/-- The tokens that end a chain. -/
def EndsChain (k : TokenKind) : Prop := EndsAtom k ∧ k ≠ .mark .pipe

/-- A parser that reads a hint up to a token that ends it. -/
def Reads (ends : TokenKind → Prop) (p : Parser Hint) (h : Hint) : Prop :=
  ∀ c k ks, ends k → c.kinds = h.kinds ++ k :: ks → Yields p c fun h' c' => h'.plain = h.plain ∧ c'.kinds = k :: ks

/-! ## First tokens -/

/-- The tokens of a hint begin, and neither with a closing bracket nor with the end of the file. -/
theorem exists_kinds {h : Hint} (hl : h.Legible) :
    ∃ k ks, h.kinds = k :: ks ∧ k ≠ .mark .rightBracket ∧ k ≠ .eof := by
  induction hl with
  | @name s n words =>
    obtain ⟨w, ks, hk⟩ := exists_nameKinds n
    exact ⟨_, _, hk, by simp, by simp⟩
  | @subscript s base args words nonempty all ih =>
    obtain ⟨w, ks, hk⟩ := exists_nameKinds base
    exact ⟨_, _, by rw [kinds, hk]; rfl, by simp, by simp⟩
  | list all ih => exact ⟨_, _, by rw [kinds], by decide, by decide⟩
  | @or s l r left right ihl ihr =>
    obtain ⟨k, ks, hk, hne⟩ := ihl
    exact ⟨k, ks ++ .mark .pipe :: r.kinds, by rw [kinds, hk]; rfl, hne⟩
  | @const s c noFloat =>
    cases c with
    | float v => exact absurd rfl (noFloat v)
    | str v => exact ⟨_, _, rfl, by simp, by simp⟩
    | bool b => exact ⟨_, _, rfl, by simp, by simp⟩
    | none => exact ⟨_, _, rfl, by decide, by decide⟩
    | int v =>
      by_cases hv : v < 0
      · exact ⟨_, _, Const.kinds_of_neg hv, by decide, by decide⟩
      · exact ⟨_, _, Const.kinds_of_nonneg hv, by simp, by simp⟩

theorem length_le_kindsList {hs : List Hint} (hl : ∀ h ∈ hs, h.Legible) : hs.length ≤ (kindsList hs).length := by
  induction hs with
  | nil => simp
  | cons h hs ih =>
    obtain ⟨k, ks, hk, -⟩ := exists_kinds (hl h (by simp))
    have ih := ih fun e he => hl e (List.mem_cons_of_mem _ he)
    cases hs with
    | nil => simp [kindsList, hk]
    | cons h' hs =>
      simp only [kindsList, hk, List.length_cons, List.length_append] at ih ⊢
      omega

/-! ## Lists -/

variable {inner : Parser Hint} {c : Cursor} {ks : List TokenKind}

theorem yields_commaLoop {hs : List Hint} {n : Nat} (hl : ∀ h ∈ hs, h.Legible)
    (hi : ∀ h ∈ hs, Reads EndsChain inner h) (hn : hs.length ≤ n)
    (hc : c.kinds = kindsList hs ++ .mark .rightBracket :: ks) :
    Yields (commaLoop (.mark .rightBracket) inner n) c fun hs' c' =>
      hs'.map plain = hs.map plain ∧ c'.kinds = .mark .rightBracket :: ks := by
  induction hs generalizing n c with
  | nil =>
    cases n with
    | zero => exact .pure ⟨rfl, hc⟩
    | succ n =>
      refine .bind_peek hc ?_
      rw [if_pos (.inl rfl)]
      exact .pure ⟨rfl, hc⟩
  | cons h hs ih =>
    cases n with
    | zero => simp at hn
    | succ n =>
      obtain ⟨k, ks', hk, hne⟩ := exists_kinds (hl h (by simp))
      have hpeek : ∃ ks'', c.kinds = k :: ks'' := by
        cases hs <;> exact ⟨_, by rw [hc, kindsList, hk]; rfl⟩
      obtain ⟨ks'', hp⟩ := hpeek
      refine .bind_peek hp ?_
      rw [if_neg (not_or.2 hne)]
      cases hs with
      | nil =>
        -- the last item: no comma follows it
        refine .bind (hi h (by simp) c _ ks (by simp [EndsChain, EndsAtom]) hc) ?_
        rintro x c₁ ⟨hx, hc₁⟩
        refine .bind (Yields.eat_of_ne hc₁ (by decide)) ?_
        rintro b c₂ ⟨rfl, hc₂⟩
        exact .pure ⟨by simp [hx], hc₂⟩
      | cons h' hs =>
        rw [kindsList, List.append_assoc] at hc
        refine .bind (hi h (by simp) c _ _ (by simp [EndsChain, EndsAtom]) hc) ?_
        rintro x c₁ ⟨hx, hc₁⟩
        refine .bind (Yields.eat_self hc₁) ?_
        rintro b c₂ ⟨rfl, hc₂⟩
        have hrec := ih (fun e he => hl e (List.mem_cons_of_mem _ he)) (fun e he => hi e (List.mem_cons_of_mem _ he))
          (Nat.le_of_succ_le_succ hn) hc₂
        refine .bind hrec ?_
        rintro xs c₃ ⟨hxs, hc₃⟩
        exact .pure ⟨by simp [hx, hxs], hc₃⟩

theorem yields_commaList {hs : List Hint} (hl : ∀ h ∈ hs, h.Legible) (hi : ∀ h ∈ hs, Reads EndsChain inner h)
    (hc : c.kinds = kindsList hs ++ .mark .rightBracket :: ks) :
    Yields (commaList (.mark .rightBracket) inner) c fun hs' c' =>
      hs'.map plain = hs.map plain ∧ c'.kinds = .mark .rightBracket :: ks := by
  -- the loop may go round once for every token that is left, and no item is without a token
  have hn : hs.length ≤ c.rest.length := by
    have := length_le_kindsList hl
    rw [Cursor.length_rest, hc, List.length_append]
    omega
  exact yields_commaLoop hl hi hn hc

/-! ## Parts of chains -/

theorem yields_constant {v : Const} (hv : ∀ f, v ≠ .float f) (hc : c.kinds = v.kinds ++ ks) :
    Yields constant c fun v' c' => v' = v ∧ c'.kinds = ks := by
  cases v with
  | float f => exact absurd rfl (hv f)
  | str s =>
    refine .bind_peek hc ?_
    exact .bind (Yields.advance hc) fun _ c' hc' => .pure ⟨rfl, hc'⟩
  | none =>
    refine .bind_peek hc ?_
    exact .bind (Yields.advance hc) fun _ c' hc' => .pure ⟨rfl, hc'⟩
  | bool b =>
    cases b with
    | true | false =>
      refine .bind_peek hc ?_
      exact .bind (Yields.advance hc) fun _ c' hc' => .pure ⟨rfl, hc'⟩
  | int v =>
    by_cases hn : v < 0
    · rw [Const.kinds_of_neg hn] at hc
      refine .bind_peek hc ?_
      refine .bind (Yields.advance hc) ?_
      intro _ c' hc'
      refine .bind_peek hc' ?_
      exact .bind (Yields.advance hc') fun _ c'' hc'' => .pure ⟨by rw [Int.neg_neg], hc''⟩
    · rw [Const.kinds_of_nonneg hn] at hc
      refine .bind_peek hc ?_
      exact .bind (Yields.advance hc) fun _ c' hc' => .pure ⟨rfl, hc'⟩

/-- A token that neither a name nor a list nor parentheses start with. -/
def StartsConst (k : TokenKind) : Prop :=
  (∀ n, k ≠ .identifier n) ∧ k ≠ .mark .leftBracket ∧ k ≠ .mark .leftParen

theorem exists_startsConst {v : Const} : ∃ k ks, v.kinds = k :: ks ∧ StartsConst k := by
  cases v with
  | int v =>
    by_cases hv : v < 0
    · exact ⟨_, _, Const.kinds_of_neg hv, by simp [StartsConst]⟩
    · exact ⟨_, _, Const.kinds_of_nonneg hv, by simp [StartsConst]⟩
  | _ => exact ⟨_, _, rfl, by simp [StartsConst]⟩

/-- The part of a chain that is read behind its first token, its span still to be set. -/
theorem yields_body {a : Hint} {k : TokenKind} (hl : a.Legible) (ha : a.IsAtom)
    (hargs : ∀ s b args, a = .subscript s b args → ∀ h ∈ args, Reads EndsChain inner h)
    (hitems : ∀ s items, a = .list s items → ∀ h ∈ items, Reads EndsChain inner h)
    (hk : EndsAtom k) (hc : c.kinds = a.kinds ++ k :: ks) :
    Yields (body inner) c fun make c' => (∀ s, (make s).plain = a.plain) ∧ c'.kinds = k :: ks := by
  cases hl with
  | @or s l r left right =>
    obtain ⟨x, xs, hx⟩ := exists_atoms l
    obtain ⟨y, ys, hy⟩ := exists_atoms r
    simp [IsAtom, atoms, hx, hy] at ha
  | @name s n words =>
    obtain ⟨w, tail, hw⟩ := exists_nameKinds n
    have hpeek : c.kinds = .identifier w :: (tail ++ k :: ks) := by rw [hc, kinds, hw]; rfl
    refine .bind_peek hpeek ?_
    refine .bind (Yields.dottedName hc (by simpa using hk.1)) ?_
    rintro ⟨m, sp⟩ c₁ ⟨rfl, hc₁⟩
    refine .bind (Yields.eat_of_ne hc₁ hk.2) ?_
    rintro b c₂ ⟨rfl, hc₂⟩
    exact .pure ⟨fun _ => rfl, hc₂⟩
  | @subscript s base args words nonempty all =>
    obtain ⟨w, tail, hw⟩ := exists_nameKinds base
    rw [kinds, List.append_assoc, List.cons_append, List.append_assoc] at hc
    have hpeek := hc
    rw [hw] at hpeek
    refine .bind_peek hpeek ?_
    refine .bind (Yields.dottedName hc (by simp)) ?_
    rintro ⟨m, sp⟩ c₁ ⟨rfl, hc₁⟩
    refine .bind (Yields.eat_self hc₁) ?_
    rintro b c₂ ⟨rfl, hc₂⟩
    refine .bind (yields_commaList all (hargs s m args rfl) hc₂) ?_
    rintro args' c₃ ⟨hargs', hc₃⟩
    have hne : ¬ args'.isEmpty = true := by
      intro he
      rw [List.isEmpty_iff] at he
      rw [he] at hargs'
      exact nonempty (List.map_eq_nil_iff.1 hargs'.symm)
    rw [arguments, if_neg hne]
    refine .bind (Yields.expect hc₃) ?_
    intro _ c₄ hc₄
    exact .pure ⟨fun _ => by simp [plain, hargs'], hc₄⟩
  | @list s items all =>
    rw [kinds, List.cons_append, List.append_assoc] at hc
    refine .bind_peek hc ?_
    refine .bind (Yields.advance hc) ?_
    intro _ c₁ hc₁
    refine .bind (yields_commaList all (hitems s items rfl) hc₁) ?_
    rintro items' c₂ ⟨hitems', hc₂⟩
    refine .bind (Yields.expect hc₂) ?_
    intro _ c₃ hc₃
    exact .pure ⟨fun _ => by simp [plain, hitems'], hc₃⟩
  | @const s v noFloat =>
    obtain ⟨w, tail, hw, hname, hlist, hparen⟩ := exists_startsConst (v := v)
    have hpeek : c.kinds = w :: (tail ++ k :: ks) := by rw [hc, kinds, hw]; rfl
    refine .bind_peek hpeek ?_
    split
    · exact absurd rfl (hname _)
    · exact absurd rfl hlist
    · exact absurd rfl hparen
    · refine .bind (yields_constant noFloat hc) ?_
      rintro v' c₁ ⟨rfl, hc₁⟩
      exact .pure ⟨fun _ => rfl, hc₁⟩

/-! ## Chains -/

/-- The tokens of a chain are those of its parts. -/
theorem kinds_eq_of_atoms {h a : Hint} {as : List Hint} (e : h.atoms = a :: as) :
    h.kinds = a.kinds ++ as.flatMap fun b => .mark .pipe :: b.kinds := by
  induction h using inductionOn generalizing a as with
  | or s l r ihl ihr =>
    obtain ⟨x, xs, hl⟩ := exists_atoms l
    obtain ⟨y, ys, hr⟩ := exists_atoms r
    simp only [atoms, hl, hr, List.cons_append, List.cons.injEq] at e
    obtain ⟨rfl, rfl⟩ := e
    simp [kinds, ihl hl, ihr hr]
  | _ =>
    simp only [atoms, List.cons.injEq] at e
    obtain ⟨rfl, rfl⟩ := e
    simp

/-- What follows a part of a chain is the next `|` or the end of the chain. -/
theorem exists_next {k : TokenKind} (as : List Hint) (ks : List TokenKind) (hk : EndsChain k) :
    ∃ k' ks', (as.flatMap fun b => .mark .pipe :: b.kinds) ++ k :: ks = k' :: ks' ∧ EndsAtom k' := by
  cases as with
  | nil => exact ⟨k, ks, rfl, hk.1⟩
  | cons b as => exact ⟨.mark .pipe, _, by rw [List.flatMap_cons]; rfl, by simp [EndsAtom]⟩

/-- Reading on in a chain, when every part that is left can be read at every level. -/
theorem yields_chainWithin {room : Nat} {left : Hint} {as : List Hint} {k : TokenKind}
    (has : ∀ a ∈ as, ∀ room, Reads EndsAtom (atomWithin room) a) (hk : EndsChain k)
    (hc : c.kinds = (as.flatMap fun b => .mark .pipe :: b.kinds) ++ k :: ks) :
    Yields (chainWithin room left) c fun h' c' =>
      h'.plain = as.foldl (fun l r => chained l r.plain) left.plain ∧ c'.kinds = k :: ks := by
  induction as generalizing room left c with
  | nil =>
    cases room with
    | zero | succ room =>
      refine .bind (Yields.eat_of_ne hc hk.2) ?_
      rintro b c' ⟨rfl, hc'⟩
      exact .pure ⟨rfl, hc'⟩
  | cons a as ih =>
    rw [List.flatMap_cons, List.cons_append, List.cons_append] at hc
    cases room with
    | zero =>
      refine .bind (Yields.eat_self hc) ?_
      rintro b c' ⟨rfl, hc'⟩
      exact .tooDeep
    | succ room =>
      refine .bind (Yields.eat_self hc) ?_
      rintro b c' ⟨rfl, hc'⟩
      refine .bind (Yields.enter c') ?_
      intro _ c₁ hc₁
      rw [hc', List.append_assoc] at hc₁
      -- the part that is read next ends where the rest of the chain begins
      obtain ⟨k', ks', hnext, hk'⟩ := exists_next as ks hk
      rw [hnext] at hc₁
      refine .bind (has a (by simp) room c₁ k' ks' hk' hc₁) ?_
      rintro right c₂ ⟨hr, hc₂⟩
      rw [← hnext] at hc₂
      have hplain : (Hint.or (left.span.merge right.span) left right).plain = chained left.plain a.plain := by
        rw [plain, hr]
      rw [List.foldl_cons, ← hplain]
      exact ih (fun b hb => has b (List.mem_cons_of_mem _ hb)) hc₂

theorem reads_parserWithin {room : Nat} {h : Hint}
    (hatoms : ∀ a ∈ h.atoms, ∀ room, Reads EndsAtom (atomWithin room) a) : Reads EndsChain (parserWithin room) h := by
  intro c k ks hk hc
  obtain ⟨a, as, ha⟩ := exists_atoms h
  obtain ⟨k', ks', hnext, hk'⟩ := exists_next as ks hk
  rw [ha, List.forall_mem_cons] at hatoms
  rw [kinds_eq_of_atoms ha, List.append_assoc, hnext] at hc
  rw [plain_eq_foldl ha]
  refine .levelled ?_
  refine .bind (hatoms.1 room c k' ks' hk' hc) ?_
  rintro first c₁ ⟨hf, hc₁⟩
  rw [← hnext] at hc₁
  rw [← hf]
  exact yields_chainWithin hatoms.2 hk hc₁

theorem reads_level {a : Hint} (hl : a.Legible) (ha : a.IsAtom)
    (hargs : ∀ s b args, a = .subscript s b args → ∀ h ∈ args, Reads EndsChain inner h)
    (hitems : ∀ s items, a = .list s items → ∀ h ∈ items, Reads EndsChain inner h) :
    Reads EndsAtom (level inner) a := by
  intro c k ks hk hc
  refine .nested fun c' hc' => .covered ?_
  rw [hc] at hc'
  exact yields_body hl ha hargs hitems hk hc'

theorem reads_atomWithin_of_level {a : Hint} (h : ∀ room, Reads EndsAtom (level (parserWithin room)) a) (room : Nat) :
    Reads EndsAtom (atomWithin room) a := by
  cases room with
  | zero => exact fun _ _ _ _ _ => .tooDeep
  | succ room => exact h room

/-- Every part of a hint is read at every level. -/
theorem reads_atomWithin {h : Hint} (hl : h.Legible) : ∀ a ∈ h.atoms, ∀ room, Reads EndsAtom (atomWithin room) a := by
  induction hl with
  | or left right ihl ihr =>
    intro a ha
    exact (List.mem_append.1 ha).elim (ihl a) (ihr a)
  | name words =>
    refine List.forall_mem_singleton.2 (reads_atomWithin_of_level fun room => ?_)
    exact reads_level (.name words) rfl (fun _ _ _ he => by cases he) fun _ _ he => by cases he
  | const noFloat =>
    refine List.forall_mem_singleton.2 (reads_atomWithin_of_level fun room => ?_)
    exact reads_level (.const noFloat) rfl (fun _ _ _ he => by cases he) fun _ _ he => by cases he
  | subscript words nonempty all ih =>
    refine List.forall_mem_singleton.2 (reads_atomWithin_of_level fun room => ?_)
    refine reads_level (.subscript words nonempty all) rfl ?_ fun _ _ he => by cases he
    rintro _ _ _ ⟨⟩ b hb
    exact reads_parserWithin (ih b hb)
  | list all ih =>
    refine List.forall_mem_singleton.2 (reads_atomWithin_of_level fun room => ?_)
    refine reads_level (.list all) rfl (fun _ _ _ he => by cases he) ?_
    rintro _ _ ⟨⟩ b hb
    exact reads_parserWithin (ih b hb)

/-- The parser reads every legible hint from its tokens, but for places and grouping. -/
theorem parser_reads {h : Hint} (hl : h.Legible) : Reads EndsChain parser h :=
  fun c => reads_parserWithin (reads_atomWithin hl) c

end AnnotationChecker.Hint
