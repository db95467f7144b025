import AnnotationChecker.Hint.Parser
import AnnotationChecker.Proofs.Expr.Grammar
/-!
# The grammar of hints

Which tokens derive a hint (`Hint.Derives`), with one level for every part of a chain and one more for every `|` in
front of it, and that the parsers of expressions and of hints recognize just what their grammars say
(`Parser.recognizes_grammars`).
-/

namespace AnnotationChecker

open AnnotationChecker.Parser

/-- Names behind dots, as they stand in the joined name. -/
inductive DottedTail : List Token → String → Prop
  | nil : DottedTail [] ""
  | cons {x b : String} {s s' : Span} {ts : List Token} : DottedTail ts b →
      DottedTail (⟨.mark .dot, s⟩ :: ⟨.identifier x, s'⟩ :: ts) ("." ++ x ++ b)

namespace Hint

/-- What a single token stands for. -/
inductive Single : TokenKind → Const → Prop
  | int {v : Int} : Single (.int v) (.int v)
  | float {v : Binary64} : Single (.float v) (.float v)
  | str {v : String} : Single (.string v) (.str v)
  | trueWord : Single (.keyword .trueWord) (.bool true)
  | falseWord : Single (.keyword .falseWord) (.bool false)
  | noneWord : Single (.keyword .noneWord) .none

/-- The tokens of a constant. -/
inductive Constant : List Token → Const → Prop
  | single {k : TokenKind} {s : Span} {v : Const} : Single k v → Constant [⟨k, s⟩] v
  | negative {k : TokenKind} {s s' : Span} {v : Const} : Negated .int .float k v →
      Constant [⟨.mark .minus, s⟩, ⟨k, s'⟩] v

/-- Parts with `|` between them, joined from the left, and how many `|` there are. Behind the n-th of them a part is n
levels deeper. -/
inductive Chained (A : Language Hint) : List Token → Nat → Nat → Hint → Prop
  | first {ts : List Token} {n : Nat} {h : Hint} : A ts n h → Chained A ts 0 n h
  | pipe {ts us : List Token} {s : Span} {k n m : Nat} {l r : Hint} : Chained A ts k n l → A us m r →
      Chained A (ts ++ ⟨.mark .pipe, s⟩ :: us) (k + 1) (max n (k + 1 + m)) (.or (l.span.merge r.span) l r)

mutual

/-- The forms of a part, its span still to be set: how many levels there are inside of it. -/
inductive AtomForm : List Token → Nat → (Span → Hint) → Prop
  | name {x b : String} {s : Span} {ts : List Token} : DottedTail ts b →
      AtomForm (⟨.identifier x, s⟩ :: ts) 0 (.name · (x ++ b))
  | subscript {x b : String} {s s' s'' : Span} {ts us : List Token} {n : Nat} {args : List Hint} : DottedTail ts b →
      Separated Derives us n args → args ≠ [] →
      AtomForm (⟨.identifier x, s⟩ :: (ts ++ ⟨.mark .leftBracket, s'⟩ :: (us ++ [⟨.mark .rightBracket, s''⟩]))) n
        (.subscript · (x ++ b) args)
  | list {s s' : Span} {ts : List Token} {n : Nat} {items : List Hint} : Separated Derives ts n items →
      AtomForm (⟨.mark .leftBracket, s⟩ :: (ts ++ [⟨.mark .rightBracket, s'⟩])) n (.list · items)
  | paren {s s' : Span} {ts : List Token} {n : Nat} {h : Hint} : Derives ts n h →
      AtomForm (⟨.mark .leftParen, s⟩ :: (ts ++ [⟨.mark .rightParen, s'⟩])) n h.withSpan
  | const {ts : List Token} {v : Const} : Constant ts v → AtomForm ts 0 (.const · v)

/-- The tokens of a part, which is one level by itself. -/
inductive Atom : List Token → Nat → Hint → Prop
  | form {ts : List Token} {n : Nat} {make : Span → Hint} : AtomForm ts n make → Atom ts (n + 1) (make (covering ts))

/-- The tokens of a hint. -/
inductive Derives : List Token → Nat → Hint → Prop
  | chain {ts : List Token} {k n : Nat} {h : Hint} : Chained Atom ts k n h → Derives ts n h

end

/-- A part that ends in a name goes on with a further name or with arguments. -/
def AtomGoesOn (ts : List Token) (k : TokenKind) : Prop :=
  match lastKind ts with
  | some (.identifier _) => k = .mark .dot ∨ k = .mark .leftBracket
  | _ => False

/-- A hint goes on with whatever its last part goes on with, or with a further part. -/
def GoesOn (ts : List Token) (k : TokenKind) : Prop := AtomGoesOn ts k ∨ k = .mark .pipe

end Hint

namespace Parser

variable {c c' : Cursor}

theorem dottedTail_eq_ok {name r : String} {s prev : Span} {depth : Nat} {rest : List Token} :
    (∃ s', dottedTail name s depth prev rest = .ok (r, s') c') ↔
      ∃ ts b, Cursor.Takes ⟨rest, prev, depth⟩ ts c' ∧ DottedTail ts b ∧ r = name ++ b ∧ c'.peek.kind ≠ .mark .dot := by
  constructor
  · rintro ⟨s', h⟩
    induction name, s, prev, rest using dottedTail.induct with
    | case1 name s prev dot part s'' rest ih =>
      rw [dottedTail] at h
      obtain ⟨ts, b, htakes, hts, rfl, hend⟩ := ih h
      have hfirst : Cursor.Takes ⟨⟨.mark .dot, dot⟩ :: ⟨.identifier part, s''⟩ :: rest, prev, depth⟩
          [⟨.mark .dot, dot⟩, ⟨.identifier part, s''⟩] ⟨rest, s'', depth⟩ := ⟨rfl, rfl, rfl⟩
      exact ⟨_, _, hfirst.trans htakes, .cons hts, by simp only [String.append_assoc], hend⟩
    | case2 name s prev dot rest hrest =>
      rw [dottedTail.eq_2 _ _ _ _ _ _ hrest] at h
      cases h
    | case3 name s prev rest hrest =>
      rw [dottedTail.eq_3 _ _ _ _ _ hrest] at h
      cases h
      refine ⟨[], "", .refl _, .nil, String.append_empty.symm, fun hdot => ?_⟩
      exact hrest _ _ (Cursor.rest_of_peek hdot (by simp))
  · rintro ⟨ts, b, htakes, hts, rfl, hend⟩
    induction hts generalizing name s prev rest with
    | nil =>
      obtain rfl := htakes.eq_of_nil
      refine ⟨s, ?_⟩
      rw [dottedTail, String.append_empty]
      rintro dot us rfl
      exact hend rfl
    | @cons x b dot s'' ts _ ih =>
      obtain rfl := htakes.rest
      obtain ⟨s', h⟩ := @ih (name ++ "." ++ x) (s.merge s'') _ _ htakes.tail.2.tail.2
      have hassoc : name ++ ("." ++ x ++ b) = name ++ "." ++ x ++ b := by simp only [String.append_assoc]
      rw [List.cons_append, List.cons_append, dottedTail, hassoc]
      exact ⟨s', h⟩

theorem dottedName_eq_ok {r : String} : (∃ s, dottedName c = .ok (r, s) c') ↔
    ∃ x s ts b, c.Takes (⟨.identifier x, s⟩ :: ts) c' ∧ DottedTail ts b ∧ r = x ++ b ∧ c'.peek.kind ≠ .mark .dot := by
  constructor
  · rintro ⟨s, h⟩
    obtain ⟨⟨x, s'⟩, c₁, hx, h⟩ := bind_eq_ok.1 h
    obtain ⟨hname, rfl, rfl⟩ := identifier_eq_ok.1 hx
    obtain ⟨ts, b, htakes, hts, hr, hend⟩ := dottedTail_eq_ok.1 ⟨s, h⟩
    exact ⟨x, _, ts, b, (Cursor.takes_of_peek hname (by simp)).trans htakes, hts, hr, hend⟩
  · rintro ⟨x, s, ts, b, htakes, hts, hr, hend⟩
    have hx : identifier c = .ok (x, s) c.advance := identifier_eq_ok.2 ⟨by rw [htakes.peek], by rw [htakes.peek], rfl⟩
    obtain ⟨s', h⟩ := dottedTail_eq_ok.2 ⟨ts, b, htakes.tail.2, hts, hr, hend⟩
    exact ⟨s', (bind_of_ok hx).trans h⟩

end Parser

namespace Hint

variable {ts us : List Token} {k n : Nat} {h : Hint} {v : Const} {make : Span → Hint} {kind : TokenKind} {c c' : Cursor}

theorem constant_eq_ok : constant c = .ok v c' ↔ ∃ ts, c.Takes ts c' ∧ Constant ts v := by
  constructor
  · intro h
    unfold constant at h
    rw [bind_peek] at h
    generalize hk : c.peek.kind = kind at h
    have hsingle : ∀ {v'}, Single kind v' → (do Parser.advance; pure v' : Parser Const) c = .ok v c' →
        ∃ ts, c.Takes ts c' ∧ Constant ts v := by
      intro v' hl h
      obtain ⟨rfl, rfl⟩ := advance_pure_eq_ok.1 h
      exact ⟨_, Cursor.takes_of_peek hk (by cases hl <;> simp), .single hl⟩
    cases kind with
    | int v => exact hsingle .int h
    | float v => exact hsingle .float h
    | string v => exact hsingle .str h
    | keyword w =>
      cases w with
      | trueWord => exact hsingle .trueWord h
      | falseWord => exact hsingle .falseWord h
      | noneWord => exact hsingle .noneWord h
      | _ => cases h
    | mark m =>
      cases m with
      | minus =>
        obtain ⟨_, _, ⟨⟩, h⟩ := bind_eq_ok.1 h
        obtain ⟨hnum, rfl⟩ := negated_eq_ok.1 h
        have hfirst := Cursor.takes_of_peek hk (by simp)
        have hsecond := Cursor.takes_of_peek (c := c.advance) rfl hnum.ne_eof
        exact ⟨_, hfirst.trans hsecond, .negative hnum⟩
      | _ => cases h
    | _ => cases h
  · rintro ⟨ts, htakes, hv⟩
    unfold constant
    cases hv with
    | single hl =>
      rw [bind_peek_of_takes htakes, ← htakes.advance_eq]
      cases hl <;> rfl
    | negative hnum =>
      obtain ⟨-, hlater⟩ := htakes.tail
      rw [bind_peek_of_takes htakes]
      exact negated_eq_ok.2 ⟨by rw [hlater.peek]; exact hnum, hlater.advance_eq⟩

theorem Constant.begins (h : Constant ts v) :
    ∃ t us, ts = t :: us ∧ t.kind ≠ .eof ∧ t.kind ≠ .mark .rightBracket := by
  cases h with
  | single h => cases h <;> exact ⟨_, _, rfl, by simp, by simp⟩
  | negative => exact ⟨_, _, rfl, by simp, by simp⟩

theorem Constant.not_goesOn (h : Constant ts v) : ¬ AtomGoesOn ts kind := by
  cases h with
  | single h => cases h <;> simp [AtomGoesOn]
  | negative h => cases h <;> simp [AtomGoesOn]

theorem goesOn_dottedTail {x b : String} {s : Span} (h : DottedTail ts b) :
    AtomGoesOn (⟨.identifier x, s⟩ :: ts) kind ↔ kind = .mark .dot ∨ kind = .mark .leftBracket := by
  induction h generalizing x s with
  | nil => simp [AtomGoesOn]
  | @cons x' _ _ s' _ _ ih =>
    rw [← @ih x' s']
    simp [AtomGoesOn]

theorem atom_iff : Atom ts n h ↔ ∃ m make, AtomForm ts m make ∧ n = m + 1 ∧ h = make (covering ts) := by
  constructor
  · rintro ⟨h⟩
    exact ⟨_, _, h, rfl, rfl⟩
  · rintro ⟨m, make, h, rfl, rfl⟩
    exact .form h

/-- A part has a first token, which neither closes a list nor ends the file. -/
theorem AtomForm.begins (h : AtomForm ts n make) :
    ∃ t us, ts = t :: us ∧ t.kind ≠ .eof ∧ t.kind ≠ .mark .rightBracket := by
  cases h with
  | const h => exact h.begins
  | name | subscript | list | paren => exact ⟨_, _, rfl, by simp, by simp⟩

theorem Atom.begins (ha : Atom ts n h) : ∃ t us, ts = t :: us ∧ t.kind ≠ .eof ∧ t.kind ≠ .mark .rightBracket := by
  obtain ⟨hf⟩ := ha
  exact hf.begins

theorem Chained.begins (hc : Chained Atom ts k n h) :
    ∃ t us, ts = t :: us ∧ t.kind ≠ .eof ∧ t.kind ≠ .mark .rightBracket := by
  induction hc with
  | first ha => exact ha.begins
  | pipe _ _ ih =>
    obtain ⟨t, us, rfl, hne⟩ := ih
    exact ⟨t, _, rfl, hne⟩

theorem not_atomGoesOn (hd : kind ≠ .mark .dot) (hb : kind ≠ .mark .leftBracket) : ¬ AtomGoesOn ts kind := by
  unfold AtomGoesOn
  split
  · simp [hd, hb]
  · exact id

theorem not_goesOn (hd : kind ≠ .mark .dot) (hb : kind ≠ .mark .leftBracket) (hp : kind ≠ .mark .pipe) :
    ¬ GoesOn ts kind :=
  not_or.2 ⟨not_atomGoesOn hd hb, hp⟩

/-- Hints end before a comma and before what closes the list. -/
theorem listed : Listed Derives GoesOn (.mark .rightBracket) where
  begins := by
    rintro ts n h ⟨hc⟩
    obtain ⟨t, us, hts, heof, hb⟩ := hc.begins
    exact ⟨t, us, hts, hb, heof⟩
  comma _ := not_goesOn (by simp) (by simp) (by simp)
  ends _ := not_goesOn (by simp) (by simp) (by simp)
  differs := by simp

/-! ## Parts -/

section

variable {inner : Parser Hint} {depth : Nat} (hinner : RecognizesAt Derives GoesOn inner depth)
  (hdepth : depth ≤ maxNesting) (hc : c.depth = depth)

include hinner hdepth hc

theorem sound_body (h : body inner c = .ok make c') :
    ∃ ts n, c.Takes ts c' ∧ AtomForm ts n make ∧ depth + n ≤ maxNesting ∧ ¬ AtomGoesOn ts c'.peek.kind := by
  unfold body at h
  rw [bind_peek] at h
  generalize hk : c.peek.kind = kind at h
  -- whatever begins no other form has to be a constant
  have hconst : (do let value ← constant; pure (.const · value) : Parser (Span → Hint)) c = .ok make c' →
      ∃ ts n, c.Takes ts c' ∧ AtomForm ts n make ∧ depth + n ≤ maxNesting ∧ ¬ AtomGoesOn ts c'.peek.kind := by
    intro h
    obtain ⟨v, c₁, hv, h⟩ := bind_eq_ok.1 h
    obtain ⟨rfl, rfl⟩ := pure_eq_ok.1 h
    obtain ⟨ts, htakes, hd⟩ := constant_eq_ok.1 hv
    exact ⟨ts, 0, htakes, .const hd, hdepth, hd.not_goesOn⟩
  have hlist : ∀ {c₁ c₂ : Cursor} {hs : List Hint}, c₁.depth = depth →
      commaList (.mark .rightBracket) inner c₁ = .ok hs c₂ →
      ∃ ts n, c₁.Takes ts c₂ ∧ Separated Derives ts n hs ∧ depth + n ≤ maxNesting := by
    rintro c₁ c₂ hs rfl hread
    exact sound_commaList (fun c hc => (hinner c hc).toSound) hdepth hread
  cases kind with
  | identifier x =>
    obtain ⟨⟨r, s⟩, c₁, hname, h⟩ := bind_eq_ok.1 h
    obtain ⟨x, s, ts, b, htakes, hts, rfl, hdot⟩ := dottedName_eq_ok.1 ⟨_, hname⟩
    obtain ⟨b', c₂, hopen, h⟩ := bind_eq_ok.1 h
    by_cases hbracket : c₁.peek.kind = .mark .leftBracket
    · rw [eat_of_eq hbracket] at hopen
      cases hopen
      have hmark := Cursor.takes_of_peek hbracket (by simp)
      obtain ⟨args, c₃, hargs, h⟩ := bind_eq_ok.1 h
      unfold arguments at h
      split at h
      · cases h
      · next hne =>
        obtain ⟨rfl, s', hlast⟩ := closed_eq_ok.1 h
        obtain ⟨us, n, hinside, hd, hn⟩ := hlist (hmark.depth.trans (htakes.depth.trans hc)) hargs
        refine ⟨_, n, htakes.trans (hmark.trans (hinside.trans hlast)), .subscript hts hd ?_, hn, by simp [AtomGoesOn]⟩
        simpa using hne
    · rw [eat_of_ne hbracket] at hopen
      cases hopen
      obtain ⟨rfl, rfl⟩ := pure_eq_ok.1 h
      exact ⟨_, 0, htakes, .name hts, hdepth, fun hgo => ((goesOn_dottedTail hts).1 hgo).elim hdot hbracket⟩
  | mark m =>
    have hfirst := Cursor.takes_of_peek hk (by simp)
    cases m with
    | leftBracket =>
      obtain ⟨_, _, ⟨⟩, h⟩ := bind_eq_ok.1 h
      obtain ⟨items, c₁, hitems, h⟩ := bind_eq_ok.1 h
      obtain ⟨rfl, s, hlast⟩ := closed_eq_ok.1 h
      obtain ⟨ts, n, htakes, hd, hn⟩ := hlist (hfirst.depth.trans hc) hitems
      exact ⟨_, n, hfirst.trans (htakes.trans hlast), .list hd, hn, by simp [AtomGoesOn]⟩
    | leftParen =>
      obtain ⟨_, _, ⟨⟩, h⟩ := bind_eq_ok.1 h
      obtain ⟨h', c₁, hh, h⟩ := bind_eq_ok.1 h
      obtain ⟨rfl, s, hlast⟩ := closed_eq_ok.1 h
      obtain ⟨ts, n, htakes, hd, hn, -⟩ := (hinner _ (hfirst.depth.trans hc)).sound h' c₁ hh
      rw [hfirst.depth, hc] at hn
      exact ⟨_, n, hfirst.trans (htakes.trans hlast), .paren hd, hn, by simp [AtomGoesOn]⟩
    | _ => exact hconst h
  | _ => exact hconst h

theorem reads_bracketed {hs : List Hint} {s : Span} {f : List Hint → Parser (Span → Hint)}
    (htakes : c.Takes (ts ++ [⟨.mark .rightBracket, s⟩]) c') (hd : Separated Derives ts n hs)
    (hf : ∀ c₁, f hs c₁ = (do expect (.mark .rightBracket); pure make : Parser (Span → Hint)) c₁) :
    Parser.Reads (commaList (.mark .rightBracket) inner >>= f) c (ts ++ [⟨.mark .rightBracket, s⟩]) c' make
      (depth + n ≤ maxNesting) (maxNesting < depth + n) := by
  subst hc
  obtain ⟨c₁, hitems, hlast⟩ := htakes.split
  have hkind : c₁.peek.kind = .mark .rightBracket := by rw [hlast.peek]
  exact (reads_commaList listed hinner hdepth hitems hd hkind).close hlast (hf c₁)

theorem reads_body (htakes : c.Takes ts c') (hf : AtomForm ts n make) :
    Parser.Reads (body inner) c ts c' make (depth + n ≤ maxNesting ∧ ¬ AtomGoesOn ts c'.peek.kind)
      (maxNesting < depth + n) := by
  cases hf with
  | @name x b s us hus =>
    refine .leaf hdepth fun hnot => ?_
    obtain ⟨hdot, hbracket⟩ := not_or.1 (mt (goesOn_dottedTail hus).2 hnot)
    obtain ⟨s', hname⟩ := dottedName_eq_ok.2 ⟨x, s, us, b, htakes, hus, rfl, hdot⟩
    unfold body
    rw [bind_peek_of_takes htakes]
    refine (bind_of_ok hname).trans ?_
    exact bind_of_ok (eat_of_ne hbracket)
  | @subscript x b s s' s'' us vs _ args hus hd hne =>
    obtain ⟨c₁, hname, hlater⟩ : ∃ c₁, c.Takes (⟨.identifier x, s⟩ :: us) c₁ ∧ c₁.Takes _ c' :=
      Cursor.Takes.split htakes
    obtain ⟨hmark, hargs⟩ := hlater.tail
    have hopen : c₁.peek.kind = .mark .leftBracket := by rw [hlater.peek]
    obtain ⟨s₁, hdotted⟩ := dottedName_eq_ok.2 ⟨x, s, us, b, hname, hus, rfl, by simp [hopen]⟩
    have hread := reads_bracketed (f := arguments (x ++ b)) hinner hdepth (hmark.depth.trans (hname.depth.trans hc))
      hargs hd fun c₂ => by rw [arguments, if_neg (by simpa using hne)]
    refine (hread.congr ?_ fun t ht => ?_).mono And.left id
    · unfold body
      rw [bind_peek_of_takes htakes]
      refine (bind_of_ok hdotted).trans ?_
      exact bind_of_ok (eat_of_eq hopen)
    · exact List.mem_cons_of_mem _ (List.mem_append_right _ (List.mem_cons_of_mem _ ht))
  | list hd =>
    obtain ⟨hfirst, hlater⟩ := htakes.tail
    have hread := reads_bracketed (f := fun items => do expect (.mark .rightBracket); pure (.list · items)) hinner
      hdepth (hfirst.depth.trans hc) hlater hd fun _ => rfl
    refine (hread.congr ?_ fun t ht => List.mem_cons_of_mem _ ht).mono And.left id
    unfold body
    rw [bind_peek_of_takes htakes]
    rfl
  | paren hd =>
    obtain ⟨hfirst, hlater⟩ := htakes.tail
    obtain ⟨c₁, hinside, hlast⟩ := hlater.split
    have hread := (hinner _ (hfirst.depth.trans hc)).reads hinside hd
    rw [hfirst.depth, hc] at hread
    have hclosed := hread.close (f := fun h => do expect (.mark .rightParen); pure h.withSpan) hlast rfl
    refine (hclosed.congr ?_ fun t ht => List.mem_cons_of_mem _ ht).mono (fun h => ⟨h.1, ?_⟩) id
    · unfold body
      rw [bind_peek_of_takes htakes]
      rfl
    · rw [hlast.peek]
      exact not_goesOn (by simp) (by simp) (by simp)
  | const hv =>
    refine .leaf hdepth fun _ => ?_
    have hrun : body inner c = (do let value ← constant; pure (.const · value) : Parser (Span → Hint)) c := by
      unfold body
      cases hv with
      | single hl =>
        rw [bind_peek_of_takes htakes]
        cases hl <;> rfl
      | negative => rw [bind_peek_of_takes htakes]
    rw [hrun]
    exact bind_of_ok (constant_eq_ok.2 ⟨_, htakes, hv⟩)

theorem recognizes_body : Recognizes AtomForm AtomGoesOn (body inner) c := by
  subst hc
  exact recognizes_of_reads (fun _ _ => sound_body hinner hdepth rfl) fun _ _ _ _ => reads_body hinner hdepth rfl

end

/-! ## Chains -/

/-- Every part of a chain takes a level of its own. -/
theorem Chained.lt (hc : Chained Atom ts k n h) : k < n := by
  cases hc with
  | first ha =>
    cases ha
    exact Nat.succ_pos _
  | pipe _ ha =>
    cases ha
    omega

theorem chainWithin_of_ne {room : Nat} (hp : c.peek.kind ≠ .mark .pipe) : chainWithin room h c = .ok h c := by
  cases room with
  | zero | succ =>
    unfold chainWithin
    exact bind_of_ok (eat_of_ne hp)

/-- At a `|` the levels that are left are one fewer for the part behind it. -/
theorem chainWithin_of_pipe {room : Nat} {s : Span} (hmark : c.Takes [⟨.mark .pipe, s⟩] c')
    (hc : c.depth < maxNesting) :
    chainWithin (room + 1) h c =
      (atomWithin room >>= fun r => chainWithin room (.or (h.span.merge r.span) h r))
        { c' with depth := c.depth + 1 } := by
  have hpipe : eat (.mark .pipe) c = .ok true c' := by rw [eat_of_eq (by rw [hmark.peek]), hmark.advance_eq]
  have henter : enter c' = .ok () { c' with depth := c.depth + 1 } := by
    unfold enter
    rw [if_neg (by rw [hmark.depth]; omega), hmark.depth]
  rw [chainWithin]
  refine (bind_of_ok hpipe).trans ?_
  exact bind_of_ok henter

/-- Parts are recognized wherever at most `room` levels are left. -/
def RecognizesAtoms (room : Nat) : Prop :=
  ∀ r ≤ room, ∀ c : Cursor, r = maxNesting - c.depth → Recognizes Atom AtomGoesOn (atomWithin r) c

theorem RecognizesAtoms.mono {room r : Nat} (h : RecognizesAtoms room) (hr : r ≤ room) : RecognizesAtoms r :=
  fun r' hr' => h r' (Nat.le_trans hr' hr)

theorem atomGoesOn_append {t : Token} (ha : Atom us n h) : AtomGoesOn (ts ++ t :: us) kind ↔ AtomGoesOn us kind := by
  obtain ⟨u, us, rfl, -⟩ := ha.begins
  simp [AtomGoesOn]

/-- The invariant of the loop: what stands before the cursor is a chain, and every `|` in it has taken a level. -/
structure ChainTo (c : Cursor) (ts : List Token) (k n : Nat) (h : Hint) (c₁ : Cursor) : Prop where
  takes : Cursor.Takes { c with depth := c₁.depth } ts c₁
  chained : Chained Atom ts k n h
  depth : c₁.depth = c.depth + k
  within : c.depth + n ≤ maxNesting
  ends : ¬ AtomGoesOn ts c₁.peek.kind

/-- One round of the loop. -/
theorem ChainTo.pipe {l r : Hint} {m : Nat} {c₁ c₂ : Cursor} (hl : ChainTo c ts k n l c₁)
    (hp : c₁.peek.kind = .mark .pipe) (htakes : Cursor.Takes { c₁.advance with depth := c₁.depth + 1 } us c₂)
    (ha : Atom us m r) (hm : c₁.depth + 1 + m ≤ maxNesting) (hends : ¬ AtomGoesOn us c₂.peek.kind) :
    ChainTo c (ts ++ ⟨.mark .pipe, c₁.peek.span⟩ :: us) (k + 1) (max n (k + 1 + m)) (.or (l.span.merge r.span) l r)
      c₂ where
  takes := by
    have hdepth : c₂.depth = c₁.depth + 1 := htakes.depth
    have hmark := Cursor.takes_of_peek hp (by simp)
    rw [hdepth]
    exact (hl.takes.atDepth _).trans ((hmark.atDepth _).trans htakes)
  chained := .pipe hl.chained ha
  depth := by
    have hdepth : c₂.depth = c₁.depth + 1 := htakes.depth
    rw [hdepth, hl.depth, Nat.add_assoc]
  within := by
    have hdepth := hl.depth
    have hwithin := hl.within
    omega
  ends := mt (atomGoesOn_append ha).1 hends

theorem sound_chainWithin {room : Nat} (hatoms : RecognizesAtoms room) {l : Hint} {c₁ : Cursor}
    (hroom : room = maxNesting - c₁.depth) (hl : ChainTo c ts k n l c₁) (hrun : chainWithin room l c₁ = .ok h c') :
    ∃ us k' n', ChainTo c us k' n' h c' ∧ c'.peek.kind ≠ .mark .pipe := by
  induction room generalizing l c₁ ts k n with
  | zero =>
    by_cases hp : c₁.peek.kind = .mark .pipe
    · rw [chainWithin, bind_of_ok (eat_of_eq hp)] at hrun
      cases hrun
    · rw [chainWithin_of_ne hp] at hrun
      cases hrun
      exact ⟨ts, k, n, hl, hp⟩
  | succ room ih =>
    by_cases hp : c₁.peek.kind = .mark .pipe
    · rw [chainWithin_of_pipe (Cursor.takes_of_peek hp (by simp)) (by omega)] at hrun
      obtain ⟨r, c₂, hr, hrun⟩ := bind_eq_ok.1 hrun
      obtain ⟨us, m, htakes, ha, hm, hends⟩ := (hatoms room (Nat.le_succ _) _ (by simp only; omega)).sound r c₂ hr
      have hdepth : c₂.depth = c₁.depth + 1 := htakes.depth
      exact ih (hatoms.mono (Nat.le_succ _)) (by omega) (hl.pipe hp htakes ha hm hends) hrun
    · rw [chainWithin_of_ne hp] at hrun
      cases hrun
      exact ⟨ts, k, n, hl, hp⟩

/-- A chain, without giving its levels back. -/
def chain (room : Nat) : Parser Hint := atomWithin room >>= chainWithin room

/-- The loop goes through a chain from the left: behind it the loop goes on with what is read so far, unless the nesting
limit stops it before. -/
theorem reads_chain {room : Nat} (hatoms : RecognizesAtoms room) (hroom : room = maxNesting - c.depth)
    (hchain : Chained Atom ts k n h) {c₁ : Cursor} (htakes : c.Takes ts c₁) :
    (c.depth + n ≤ maxNesting → ¬ AtomGoesOn ts c₁.peek.kind →
      chain room c = chainWithin (room - k) h { c₁ with depth := c.depth + k }) ∧
    (maxNesting < c.depth + n → StopsIn (chain room) c ts) := by
  induction hchain generalizing c₁ with
  | @first ts n h ha =>
    have hatom := hatoms room (Nat.le_refl _) c hroom
    constructor
    · intro hn hnot
      rw [chain, bind_of_ok (hatom.complete ts n h c₁ htakes ha hn hnot), ← htakes.depth]
      rfl
    · intro hn
      exact (hatom.limit ts n h c₁ htakes ha hn).bind fun _ ht => ht
  | @pipe ts us s k n m l r hl ha ih =>
    obtain ⟨c₂, hleft, hlater⟩ := htakes.split
    obtain ⟨hmark, hright⟩ := hlater.tail
    have hp : c₂.peek.kind = .mark .pipe := by rw [hlater.peek]
    obtain ⟨hok, hlimit⟩ := ih hleft
    have hnot : ¬ AtomGoesOn ts c₂.peek.kind := by
      rw [hp]
      exact not_atomGoesOn (by simp) (by simp)
    have hlt := hl.lt
    -- up to the `|`
    have hstep : c.depth + n ≤ maxNesting → chain room c =
        (atomWithin (room - (k + 1)) >>= fun r => chainWithin (room - (k + 1)) (.or (l.span.merge r.span) l r))
          { c₂.advance with depth := c.depth + k + 1 } := by
      intro hn
      have hlevel : c.depth + k < maxNesting := by omega
      have hsucc : room - k = room - (k + 1) + 1 := by omega
      rw [hok hn hnot, hsucc]
      exact (chainWithin_of_pipe (hmark.atDepth (c.depth + k)) hlevel).trans rfl
    have hpart := hatoms (room - (k + 1)) (Nat.sub_le _ _) { c₂.advance with depth := c.depth + k + 1 }
      (by simp only; omega)
    constructor
    · intro hn hends
      have hread := hpart.complete us m r { c₁ with depth := c.depth + k + 1 } (hright.atDepth _) ha
        (by simp only; omega) (mt (atomGoesOn_append ha).2 hends)
      rw [hstep (by omega), bind_of_ok hread]
      rfl
    · intro hn
      by_cases hleft : maxNesting < c.depth + n
      · obtain ⟨t, ht, hstop⟩ := hlimit hleft
        exact ⟨t, List.mem_append_left _ ht, hstop⟩
      · have hstop := hpart.limit us m r { c₁ with depth := c.depth + k + 1 } (hright.atDepth _) ha
          (by simp only; omega)
        exact (hstop.bind fun _ ht => ht).congr (hstep (by omega)) fun t ht =>
          List.mem_append_right _ (List.mem_cons_of_mem _ ht)

theorem recognizes_parserWithin {room : Nat} (hatoms : RecognizesAtoms room) (hroom : room = maxNesting - c.depth) :
    Recognizes Derives GoesOn (parserWithin room) c := by
  have hrun : parserWithin room = levelled (chain room) := rfl
  rw [hrun]
  constructor
  · intro h c' hread
    obtain ⟨c₁, hchain, rfl⟩ := levelled_eq_ok.1 hread
    obtain ⟨l, c₂, hl, hmore⟩ := bind_eq_ok.1 hchain
    obtain ⟨ts, n, htakes, ha, hn, hends⟩ := (hatoms room (Nat.le_refl _) c hroom).sound l c₂ hl
    have hdepth := htakes.depth
    have hfirst : ChainTo c ts 0 n l c₂ := ⟨htakes.depth ▸ htakes, .first ha, hdepth, hn, hends⟩
    obtain ⟨us, k, n, hto, hp⟩ := sound_chainWithin hatoms (by omega) hfirst hmore
    exact ⟨us, n, hto.takes.atDepth _, .chain hto.chained, hto.within, not_or.2 ⟨hto.ends, hp⟩⟩
  · rintro ts n h c' htakes ⟨hchain⟩ hn hnot
    obtain ⟨hends, hp⟩ := not_or.1 hnot
    refine levelled_eq_ok.2 ⟨_, ((reads_chain hatoms hroom hchain htakes).1 hn hends).trans (chainWithin_of_ne hp), ?_⟩
    rw [← htakes.depth]
  · rintro ts n h c' htakes ⟨hchain⟩ hn
    exact ((reads_chain hatoms hroom hchain htakes).2 hn).levelled

/-- Parts are recognized by induction on the levels that are left, since what is inside of a part may use all but one
of them. -/
theorem recognizesAtoms (room : Nat) : RecognizesAtoms room := by
  induction room with
  | zero =>
    rintro r hr c hroom
    obtain rfl : r = 0 := Nat.le_zero.1 hr
    refine recognizes_tooDeep ?_ (by omega)
    intro ts n h ha
    obtain ⟨t, us, hts, -⟩ := ha.begins
    exact ⟨by cases ha; exact Nat.succ_pos _, t, us, hts⟩
  | succ room ih =>
    intro r hr c hroom
    by_cases hle : r ≤ room
    · exact ih r hle c hroom
    · obtain rfl : r = room + 1 := by omega
      have hinner : RecognizesAt Derives GoesOn (parserWithin room) (c.depth + 1) :=
        fun c' hc' => recognizes_parserWithin ih (by omega)
      refine recognizes_deeper atom_iff ?_ (by omega) (recognizes_body hinner (by omega) rfl)
      intro ts n make hf
      obtain ⟨t, us, hts, -⟩ := hf.begins
      exact ⟨t, us, hts⟩

theorem parser_recognizes (c : Cursor) : Recognizes Derives GoesOn parser c :=
  have h := recognizes_parserWithin (recognizesAtoms _) rfl
  ⟨h.sound, h.complete, h.limit⟩

end Hint

/-- The parsers of expressions and of hints read just what their grammars say, from every cursor. -/
theorem Parser.recognizes_grammars (c : Cursor) :
    Recognizes Expr.Derives Expr.GoesOn Expr.parser c ∧ Recognizes Hint.Derives Hint.GoesOn Hint.parser c :=
  ⟨Expr.parser_recognizes c, Hint.parser_recognizes c⟩

/-- Three parts in a chain take three levels. -/
example (s : Span) :
    let c := Cursor.mk [⟨.int 1, s⟩, ⟨.mark .pipe, s⟩, ⟨.int 2, s⟩, ⟨.mark .pipe, s⟩, ⟨.int 3, s⟩] s
    (∃ h c', Hint.parser (c 61) = .ok h c') ∧ ∃ c', Hint.parser (c 62) = .error (deepAt s) c' :=
  ⟨⟨_, _, rfl⟩, _, rfl⟩

end AnnotationChecker
