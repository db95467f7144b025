import AnnotationChecker.Token.Cursor
/-!
# Parsers and grammars

A grammar says which tokens derive a value and how deep the derivation is nested (`Language`). `Parser.Recognizes`
says that a parser reads a language from a cursor: it gives what some tokens there derive and nothing else, it gives
it whenever the derivation stays within the nesting limit and the token behind it cannot go on with it, and past the
limit it fails with the issue for that. Here are the rules for parsers that are put together from others: lists with
commas (`sound_commaList`, `reads_commaList`), what closes with a mark (`closed_eq_ok`, `Reads.close`), and values that
are one level deeper (`recognizes_deeper`).
-/

namespace AnnotationChecker

/-! ## Places -/

/-- The span of the last token, or the given one if there is none. -/
def lastSpan (s : Span) (ts : List Token) : Span := ts.foldl (fun _ t => t.span) s

@[simp] theorem lastSpan_nil (s : Span) : lastSpan s [] = s := rfl

@[simp] theorem lastSpan_cons (s : Span) (t : Token) (ts : List Token) :
    lastSpan s (t :: ts) = lastSpan t.span ts := rfl

@[simp] theorem lastSpan_append (s : Span) (ts us : List Token) :
    lastSpan s (ts ++ us) = lastSpan (lastSpan s ts) us := by
  simp [lastSpan]

/-- From the first token to the last one. -/
def covering : List Token → Span
  | [] => .point 1 1
  | t :: ts => t.span.merge (lastSpan t.span ts)

/-- The kind of the last token. -/
def lastKind (ts : List Token) : Option TokenKind := ts.getLast?.map Token.kind

@[simp] theorem lastKind_singleton (t : Token) : lastKind [t] = some t.kind := rfl

@[simp] theorem lastKind_cons_cons (t u : Token) (ts : List Token) : lastKind (t :: u :: ts) = lastKind (u :: ts) := by
  simp [lastKind, List.getLast?_cons]

@[simp] theorem lastKind_append_cons (ts us : List Token) (t : Token) :
    lastKind (ts ++ t :: us) = lastKind (t :: us) := by
  simp [lastKind, List.getLast?_cons]

@[simp] theorem lastKind_cons_append_cons (t u : Token) (ts us : List Token) :
    lastKind (t :: (ts ++ u :: us)) = lastKind (u :: us) :=
  lastKind_append_cons (t :: ts) us u

namespace Cursor

/-- The second cursor stands behind some tokens that are in front of the first one, at the same level. -/
structure Takes (c : Cursor) (ts : List Token) (c' : Cursor) : Prop where
  rest : c.rest = ts ++ c'.rest
  prev : c'.prev = lastSpan c.prev ts
  depth : c'.depth = c.depth

namespace Takes

variable {c c₁ c' : Cursor} {t : Token} {ts us : List Token}

theorem refl (c : Cursor) : c.Takes [] c := ⟨rfl, rfl, rfl⟩

theorem trans (h : c.Takes ts c₁) (h' : c₁.Takes us c') : c.Takes (ts ++ us) c' where
  rest := by rw [h.rest, h'.rest, List.append_assoc]
  prev := by rw [h'.prev, h.prev, lastSpan_append]
  depth := h'.depth.trans h.depth

/-- There is a cursor between two stretches of tokens. -/
theorem split (h : c.Takes (ts ++ us) c') : ∃ c₁, c.Takes ts c₁ ∧ c₁.Takes us c' := by
  refine ⟨⟨us ++ c'.rest, lastSpan c.prev ts, c.depth⟩, ⟨?_, rfl, rfl⟩, ⟨rfl, ?_, h.depth⟩⟩
  · rw [h.rest, List.append_assoc]
  · rw [h.prev, lastSpan_append]

theorem single (h : c.rest = t :: us) : c.Takes [t] c.advance := by
  obtain ⟨rest, prev, depth⟩ := c
  subst h
  exact ⟨rfl, rfl, rfl⟩

theorem advance_eq (h : c.Takes [t] c') : c.advance = c' := by
  obtain ⟨rest, prev, depth⟩ := c
  obtain ⟨rest', prev', depth'⟩ := c'
  obtain ⟨hr, hp, hd⟩ := h
  simp only at hr hp hd
  subst hr hp hd
  rfl

theorem peek (h : c.Takes (t :: ts) c') : c.peek = t := by
  rw [Cursor.peek, h.rest]
  rfl

/-- The first token is taken by itself. -/
theorem tail (h : c.Takes (t :: ts) c') : c.Takes [t] c.advance ∧ c.advance.Takes ts c' := by
  rw [← List.singleton_append] at h
  obtain ⟨c₁, h₁, h₂⟩ := h.split
  obtain rfl := h₁.advance_eq
  exact ⟨h₁, h₂⟩

theorem eq_of_nil (h : c.Takes [] c') : c = c' := by
  obtain ⟨rest, prev, depth⟩ := c
  obtain ⟨rest', prev', depth'⟩ := c'
  obtain ⟨hr, hp, hd⟩ := h
  simp_all

/-- The level does not matter for the tokens. -/
theorem atDepth (h : c.Takes ts c') (d : Nat) : Takes { c with depth := d } ts { c' with depth := d } :=
  ⟨h.rest, h.prev, rfl⟩

theorem span_covering (h : c.Takes (t :: ts) c') : c.peek.span.merge c'.prev = covering (t :: ts) := by
  rw [h.peek, h.prev]
  rfl

end Takes

/-- The token at the cursor, when it is not the end of the file. -/
theorem rest_of_peek {c : Cursor} {k : TokenKind} (h : c.peek.kind = k) (hk : k ≠ .eof) :
    c.rest = ⟨k, c.peek.span⟩ :: c.advance.rest := by
  obtain ⟨rest, prev, depth⟩ := c
  cases rest with
  | nil => exact absurd h.symm hk
  | cons t ts =>
    subst h
    rfl

theorem takes_of_peek {c : Cursor} {k : TokenKind} (h : c.peek.kind = k) (hk : k ≠ .eof) :
    c.Takes [⟨k, c.peek.span⟩] c.advance := .single (rest_of_peek h hk)

end Cursor

/-! ## What a parser does -/

namespace Parser

variable {α β : Type} {p : Parser α} {f : α → Parser β} {c c₁ c' : Cursor} {a : α} {b : β} {k : TokenKind}

theorem bind_of_ok (h : p c = .ok a c₁) : (p >>= f) c = f a c₁ := by
  show EStateM.bind p f c = _
  unfold EStateM.bind
  rw [h]

theorem bind_of_error {i : Issue} (h : p c = .error i c₁) : (p >>= f) c = .error i c₁ := by
  show EStateM.bind p f c = _
  unfold EStateM.bind
  rw [h]

theorem bind_eq_ok : (p >>= f) c = .ok b c' ↔ ∃ a c₁, p c = .ok a c₁ ∧ f a c₁ = .ok b c' := by
  constructor
  · intro h
    cases hp : p c with
    | ok a c₁ =>
      rw [bind_of_ok hp] at h
      exact ⟨a, c₁, rfl, h⟩
    | error i c₁ =>
      rw [bind_of_error hp] at h
      cases h
  · rintro ⟨a, c₁, hp, h⟩
    rw [bind_of_ok hp, h]

theorem pure_eq_ok {a' : α} : (pure a : Parser α) c = .ok a' c' ↔ a = a' ∧ c = c' := by
  show EStateM.Result.ok a c = .ok a' c' ↔ _
  simp

theorem eat_of_eq (h : c.peek.kind = k) : eat k c = .ok true c.advance := if_pos h

theorem eat_of_ne (h : c.peek.kind ≠ k) : eat k c = .ok false c := if_neg h

theorem sees_of_ne (h : c.peek.kind ≠ k) : sees k c = .ok false c := by
  unfold sees
  rw [decide_eq_false h]

theorem expect_of_eq (h : c.peek.kind = k) : expect k c = .ok () c.advance := if_pos h

theorem expect_eq_ok {u : Unit} : expect k c = .ok u c' ↔ c.peek.kind = k ∧ c.advance = c' := by
  unfold expect unexpected
  by_cases h : c.peek.kind = k <;> simp [h]

theorem identifier_eq_ok {x : String} {s : Span} :
    identifier c = .ok (x, s) c' ↔ c.peek.kind = .identifier x ∧ c.peek.span = s ∧ c.advance = c' := by
  unfold identifier unexpected
  cases c.peek.kind <;> simp [and_assoc]

theorem bind_peek {f : TokenKind → Parser β} : (Parser.peek >>= f) c = f c.peek.kind c := rfl

theorem bind_peek_of_takes {f : TokenKind → Parser β} {s : Span} {ts : List Token} (h : c.Takes (⟨k, s⟩ :: ts) c') :
    (Parser.peek >>= f) c = f k c := by
  rw [bind_peek, h.peek]

/-- Taking a token and giving a value. -/
theorem advance_pure_eq_ok {a' : α} :
    (do Parser.advance; pure a : Parser α) c = .ok a' c' ↔ a = a' ∧ c.advance = c' := by
  rw [bind_of_ok (show Parser.advance c = .ok () c.advance from rfl), pure_eq_ok]

/-- Taking a mark and giving a value. -/
theorem closed_eq_ok {m : Mark} {a' : α} :
    (do expect (.mark m); pure a : Parser α) c = .ok a' c' ↔ a = a' ∧ ∃ s, c.Takes [⟨.mark m, s⟩] c' := by
  constructor
  · intro h
    obtain ⟨_, c₁, hm, h⟩ := bind_eq_ok.1 h
    obtain ⟨hkind, rfl⟩ := expect_eq_ok.1 hm
    obtain ⟨rfl, rfl⟩ := pure_eq_ok.1 h
    exact ⟨rfl, _, Cursor.takes_of_peek hkind (by simp)⟩
  · rintro ⟨rfl, s, h⟩
    rw [bind_of_ok (expect_of_eq (by rw [h.peek])), h.advance_eq]
    rfl

theorem levelled_eq_ok : levelled p c = .ok a c' ↔ ∃ c₁, p c = .ok a c₁ ∧ { c₁ with depth := c.depth } = c' := by
  unfold levelled
  constructor
  · intro h
    split at h
    · next hp =>
      cases h
      exact ⟨_, hp, rfl⟩
    · cases h
  · rintro ⟨c₁, hp, rfl⟩
    rw [hp]

/-- The issue of what is nested too deep. -/
def deepAt (s : Span) : Issue := ⟨.nestingTooDeep, "maximum nesting depth is " ++ toString maxNesting, s⟩

/-- The nesting limit stops a parser at one of these tokens. -/
def StopsIn (p : Parser α) (c : Cursor) (ts : List Token) : Prop := ∃ t ∈ ts, ∃ c₁, p c = .error (deepAt t.span) c₁

theorem StopsIn.bind {ts us : List Token} (h : StopsIn p c ts) (hsub : ∀ t ∈ ts, t ∈ us) : StopsIn (p >>= f) c us := by
  obtain ⟨t, ht, c₁, h⟩ := h
  exact ⟨t, hsub t ht, c₁, bind_of_error h⟩

theorem StopsIn.congr {ts us : List Token} {q : Parser α} (h : StopsIn q c₁ ts) (heq : p c = q c₁)
    (hsub : ∀ t ∈ ts, t ∈ us) : StopsIn p c us := by
  obtain ⟨t, ht, c₁, h⟩ := h
  exact ⟨t, hsub t ht, c₁, heq.trans h⟩

theorem stopsIn_tooDeep {t : Token} {ts : List Token} (h : c.Takes (t :: ts) c') :
    StopsIn (tooDeep : Parser α) c (t :: ts) :=
  ⟨t, by simp, c, by rw [← h.peek]; rfl⟩

theorem StopsIn.levelled {ts : List Token} (h : StopsIn p c ts) : StopsIn (levelled p) c ts := by
  obtain ⟨t, ht, c₁, h⟩ := h
  refine ⟨t, ht, { c₁ with depth := c.depth }, ?_⟩
  unfold Parser.levelled
  rw [h]

end Parser

/-! ## Languages -/

/-- Which tokens derive a value, and over how many levels. -/
abbrev Language (α : Type) := List Token → Nat → α → Prop

/-- Which kinds of tokens go on with what some tokens derive. -/
abbrev Continuation := List Token → TokenKind → Prop

/-- A parser reads a language from a cursor. -/
structure Parser.Recognizes {α : Type} (L : Language α) (goesOn : Continuation) (p : Parser α) (c : Cursor) : Prop where
  /-- What is read is derived by the tokens that were taken, within the limit, and the next token does not go on with
  it. -/
  sound : ∀ a c', p c = .ok a c' →
    ∃ ts n, c.Takes ts c' ∧ L ts n a ∧ c.depth + n ≤ maxNesting ∧ ¬ goesOn ts c'.peek.kind
  /-- What is derived within the limit is read, unless the next token goes on with it. -/
  complete : ∀ ts n a c', c.Takes ts c' → L ts n a → c.depth + n ≤ maxNesting → ¬ goesOn ts c'.peek.kind →
    p c = .ok a c'
  /-- What is derived beyond the limit is refused, whatever the next token is. -/
  limit : ∀ ts n a c', c.Takes ts c' → L ts n a → maxNesting < c.depth + n → p.StopsIn c ts

/-- Whatever a parser gives is derived by the tokens that it takes, within the limit. -/
def Parser.Sound {α : Type} (L : Language α) (p : Parser α) (c : Cursor) : Prop :=
  ∀ a c', p c = .ok a c' → ∃ ts n, c.Takes ts c' ∧ L ts n a ∧ c.depth + n ≤ maxNesting

theorem Parser.Recognizes.toSound {α : Type} {L : Language α} {goesOn : Continuation} {p : Parser α} {c : Cursor}
    (h : Recognizes L goesOn p c) : Sound L p c := by
  intro a c' hread
  obtain ⟨ts, n, htakes, hd, hn, -⟩ := h.sound a c' hread
  exact ⟨ts, n, htakes, hd, hn⟩

/-- Items of a language with commas between them; a comma may stand behind the last one. -/
inductive Separated {α : Type} (L : Language α) : Language (List α)
  | nil : Separated L [] 0 []
  | last {ts : List Token} {n : Nat} {a : α} : L ts n a → Separated L ts n [a]
  | cons {ts us : List Token} {s : Span} {n m : Nat} {a : α} {as : List α} : L ts n a → Separated L us m as →
      Separated L (ts ++ ⟨.mark .comma, s⟩ :: us) (max n m) (a :: as)

namespace Parser

variable {α : Type} {L : Language α} {goesOn : Continuation} {c c' : Cursor}

/-! ## Steps of a parser -/

/-- A parser gives a value at the second cursor under one condition, and under another one the nesting limit stops it
at one of the tokens in between. -/
structure Reads (p : Parser α) (c : Cursor) (ts : List Token) (c' : Cursor) (a : α) (good deep : Prop) : Prop where
  ok : good → p c = .ok a c'
  limit : deep → p.StopsIn c ts

section

variable {β : Type} {p : Parser α} {f : α → Parser β} {c₁ : Cursor} {ts us : List Token} {a : α} {b : β}
  {good deep good' deep' : Prop}

theorem Recognizes.reads {n : Nat} (h : Recognizes L goesOn p c) (htakes : c.Takes ts c') (hd : L ts n a) :
    Reads p c ts c' a (c.depth + n ≤ maxNesting ∧ ¬ goesOn ts c'.peek.kind) (maxNesting < c.depth + n) :=
  ⟨fun hgood => h.complete ts n a c' htakes hd hgood.1 hgood.2, h.limit ts n a c' htakes hd⟩

theorem recognizes_of_reads
    (hsound : ∀ a c', p c = .ok a c' →
      ∃ ts n, c.Takes ts c' ∧ L ts n a ∧ c.depth + n ≤ maxNesting ∧ ¬ goesOn ts c'.peek.kind)
    (hreads : ∀ ts n a c', c.Takes ts c' → L ts n a →
      Reads p c ts c' a (c.depth + n ≤ maxNesting ∧ ¬ goesOn ts c'.peek.kind) (maxNesting < c.depth + n)) :
    Recognizes L goesOn p c :=
  ⟨hsound, fun ts n a c' htakes hd hn hnot => (hreads ts n a c' htakes hd).ok ⟨hn, hnot⟩,
    fun ts n a c' htakes hd => (hreads ts n a c' htakes hd).limit⟩

/-- What has no level inside is not too deep. -/
theorem Reads.leaf {depth : Nat} (hdepth : depth ≤ maxNesting) (h : good → p c = .ok a c') :
    Reads p c ts c' a (depth + 0 ≤ maxNesting ∧ good) (maxNesting < depth + 0) :=
  ⟨fun hgood => h hgood.2, fun hdeep => absurd hdeep (Nat.not_lt.2 hdepth)⟩

theorem Reads.mono (h : Reads p c ts c' a good deep) (hgood : good' → good) (hdeep : deep' → deep) :
    Reads p c ts c' a good' deep' :=
  ⟨fun h' => h.ok (hgood h'), fun h' => h.limit (hdeep h')⟩

/-- One parser does what another one does, from another cursor perhaps, with fewer tokens in between. -/
theorem Reads.congr {q : Parser α} (h : Reads q c₁ ts c' a good deep) (heq : p c = q c₁) (hsub : ∀ t ∈ ts, t ∈ us) :
    Reads p c us c' a good deep :=
  ⟨fun h' => heq.trans (h.ok h'), fun h' => (h.limit h').congr heq hsub⟩

theorem Reads.bind (h : Reads p c ts c₁ a good deep) (h' : Reads (f a) c₁ us c' b good' deep') :
    Reads (p >>= f) c (ts ++ us) c' b (good ∧ good') (deep ∨ good ∧ deep') where
  ok hg := by rw [bind_of_ok (h.ok hg.1), h'.ok hg.2]
  limit hd := by
    rcases hd with hd | ⟨hg, hd⟩
    · exact (h.limit hd).bind fun t ht => List.mem_append_left _ ht
    · exact (h'.limit hd).congr (bind_of_ok (h.ok hg)) fun t ht => List.mem_append_right _ ht

/-- What comes behind takes no token and always succeeds. -/
theorem Reads.bind_ok (h : Reads p c ts c₁ a good deep) (h' : f a c₁ = .ok b c') :
    Reads (p >>= f) c ts c' b good deep where
  ok hg := by rw [bind_of_ok (h.ok hg), h']
  limit hd := (h.limit hd).bind fun _ ht => ht

theorem Reads.map (g : α → β) (h : Reads p c ts c' a good deep) :
    Reads (do let x ← p; pure (g x)) c ts c' (g a) good deep :=
  h.bind_ok rfl

/-- A mark comes behind. -/
theorem Reads.close {m : Mark} {s : Span} (h : Reads p c ts c₁ a good deep) (hlast : c₁.Takes [⟨.mark m, s⟩] c')
    (hf : f a c₁ = (do expect (.mark m); pure b : Parser β) c₁) :
    Reads (p >>= f) c (ts ++ [⟨.mark m, s⟩]) c' b good deep :=
  (h.bind_ok (hf.trans (closed_eq_ok.2 ⟨rfl, s, hlast⟩))).congr rfl fun _ ht => List.mem_append_left _ ht

end

/-! ## Lists -/

section

variable {item : Parser α} {close : TokenKind}

/-- The items of a list have tokens, the first of which does not end the list, and a comma or the end of the list does
not go on with them. -/
structure Listed (L : Language α) (goesOn : Continuation) (close : TokenKind) : Prop where
  begins : ∀ {ts n a}, L ts n a → ∃ t us, ts = t :: us ∧ t.kind ≠ close ∧ t.kind ≠ .eof
  comma : ∀ {ts n a}, L ts n a → ¬ goesOn ts (.mark .comma)
  ends : ∀ {ts n a}, L ts n a → ¬ goesOn ts close
  differs : close ≠ .mark .comma

/-- Items are recognized at every cursor of a level. -/
abbrev RecognizesAt (L : Language α) (goesOn : Continuation) (item : Parser α) (depth : Nat) : Prop :=
  ∀ c : Cursor, c.depth = depth → Recognizes L goesOn item c

theorem sound_commaLoop (hitem : ∀ c₀ : Cursor, c₀.depth = c.depth → Sound L item c₀) (hc : c.depth ≤ maxNesting) {room : Nat}
    {as : List α} (h : commaLoop close item room c = .ok as c') :
    ∃ ts n, c.Takes ts c' ∧ Separated L ts n as ∧ c.depth + n ≤ maxNesting := by
  induction room generalizing c as with
  | zero =>
    obtain ⟨rfl, rfl⟩ := pure_eq_ok.1 h
    exact ⟨[], 0, .refl c, .nil, hc⟩
  | succ room ih =>
    rw [commaLoop] at h
    obtain ⟨k, _, ⟨⟩, h⟩ := bind_eq_ok.1 h
    split at h
    · obtain ⟨rfl, rfl⟩ := pure_eq_ok.1 h
      exact ⟨[], 0, .refl c, .nil, hc⟩
    · obtain ⟨a, c₁, ha, h⟩ := bind_eq_ok.1 h
      obtain ⟨ts, n, htakes, hd, hn⟩ := hitem c rfl a c₁ ha
      obtain ⟨b, c₂, hb, h⟩ := bind_eq_ok.1 h
      by_cases hcomma : c₁.peek.kind = .mark .comma
      · -- a comma, and whatever items follow it
        rw [eat_of_eq hcomma] at hb
        cases hb
        obtain ⟨as', c₃, hrest, h⟩ := bind_eq_ok.1 h
        obtain ⟨rfl, rfl⟩ := pure_eq_ok.1 h
        have hmark := Cursor.takes_of_peek hcomma (by simp)
        have hdepth : c₁.advance.depth = c.depth := hmark.depth.trans htakes.depth
        obtain ⟨us, m, htakes', hd', hm⟩ := ih (hdepth ▸ hitem) (hdepth ▸ hc) hrest
        rw [hdepth] at hm
        exact ⟨_, _, htakes.trans (hmark.trans htakes'), .cons hd hd', by omega⟩
      · rw [eat_of_ne hcomma] at hb
        cases hb
        obtain ⟨rfl, rfl⟩ := pure_eq_ok.1 h
        exact ⟨ts, n, htakes, .last hd, hn⟩

/-- What is read behind an item: a comma and more items, or nothing. -/
def commaMore (close : TokenKind) (item : Parser α) (room : Nat) (x : α) : Parser (List α) := do
  if ← eat (.mark .comma) then
    let xs ← commaLoop close item room
    pure (x :: xs)
  else pure [x]

theorem commaLoop_succ {room : Nat} (hclose : c.peek.kind ≠ close) (heof : c.peek.kind ≠ .eof) :
    commaLoop close item (room + 1) c = (item >>= commaMore close item room) c := by
  have hpeek : Parser.peek c = .ok c.peek.kind c := rfl
  rw [commaLoop, bind_of_ok hpeek, if_neg (not_or.2 ⟨hclose, heof⟩)]
  rfl

theorem commaLoop_of_close {room : Nat} (h : c.peek.kind = close) : commaLoop close item room c = .ok [] c := by
  cases room with
  | zero => rfl
  | succ room =>
    have hpeek : Parser.peek c = .ok c.peek.kind c := rfl
    rw [commaLoop, bind_of_ok hpeek, if_pos (.inl h)]
    rfl

theorem reads_commaLoop (hl : Listed L goesOn close) (hitem : RecognizesAt L goesOn item c.depth)
    (hc : c.depth ≤ maxNesting) {room n : Nat} {as : List α} {ts : List Token} (htakes : c.Takes ts c')
    (hd : Separated L ts n as) (hend : c'.peek.kind = close) (hroom : as.length ≤ room) :
    Reads (commaLoop close item room) c ts c' as (c.depth + n ≤ maxNesting) (maxNesting < c.depth + n) := by
  induction hd generalizing c room with
  | nil =>
    obtain rfl := htakes.eq_of_nil
    refine ⟨fun _ => commaLoop_of_close hend, fun h => ?_⟩
    omega
  | @last ts n a hd =>
    obtain ⟨room, rfl⟩ : ∃ r, room = r + 1 := ⟨room - 1, by simp at hroom; omega⟩
    obtain ⟨t, us, rfl, hclose, heof⟩ := hl.begins hd
    rw [← htakes.peek] at hclose heof
    have hnot : ¬ goesOn (t :: us) c'.peek.kind := hend ▸ hl.ends hd
    -- no comma follows the last item
    have hcomma : c'.peek.kind ≠ .mark .comma := hend ▸ hl.differs
    have hmore := (hitem c rfl).reads htakes hd |>.bind_ok (f := commaMore close item room) (bind_of_ok (eat_of_ne hcomma))
    exact (hmore.congr (commaLoop_succ hclose heof) fun _ h => h).mono (fun h => ⟨h, hnot⟩) id
  | @cons ts us s n m a as hd _ ih =>
    obtain ⟨room, rfl⟩ : ∃ r, room = r + 1 := ⟨room - 1, by simp at hroom; omega⟩
    obtain ⟨c₁, hitems, htail⟩ := htakes.split
    obtain ⟨hmark, hlater⟩ := htail.tail
    have hnot : ¬ goesOn ts c₁.peek.kind := by rw [htail.peek]; exact hl.comma hd
    have hdepth : c₁.advance.depth = c.depth := hmark.depth.trans hitems.depth
    have hloop := ih (hdepth ▸ hitem) (hdepth ▸ hc) hlater (Nat.le_of_succ_le_succ hroom)
    rw [hdepth] at hloop
    have heat : eat (.mark .comma) c₁ = .ok true c₁.advance := eat_of_eq (by rw [htail.peek])
    have hmore : Reads (commaMore close item room a) c₁ (⟨.mark .comma, s⟩ :: us) c' (a :: as)
        (c.depth + m ≤ maxNesting) (maxNesting < c.depth + m) :=
      (hloop.map (a :: ·)).congr (bind_of_ok heat) fun t ht => List.mem_cons_of_mem _ ht
    obtain ⟨t, us', rfl, hclose, heof⟩ := hl.begins hd
    rw [← hitems.peek] at hclose heof
    have hread := ((hitem c rfl).reads hitems hd).bind hmore
    have hloop := hread.congr (commaLoop_succ hclose heof) fun _ h => h
    refine hloop.mono (fun h => ⟨⟨by omega, hnot⟩, by omega⟩) fun h => ?_
    by_cases hn : maxNesting < c.depth + n
    · exact .inl hn
    · exact .inr ⟨⟨by omega, hnot⟩, by omega⟩

/-- No item is without a token. -/
theorem Separated.length_le (hl : Listed L goesOn close) {ts : List Token} {n : Nat} {as : List α}
    (h : Separated L ts n as) : as.length ≤ ts.length := by
  induction h with
  | nil => exact Nat.le_refl _
  | last hd =>
    obtain ⟨t, us, rfl, -⟩ := hl.begins hd
    simp
  | cons hd _ ih =>
    simp only [List.length_cons, List.length_append]
    omega

theorem sound_commaList (hitem : ∀ c₀ : Cursor, c₀.depth = c.depth → Sound L item c₀) (hc : c.depth ≤ maxNesting) {as : List α}
    (h : commaList close item c = .ok as c') :
    ∃ ts n, c.Takes ts c' ∧ Separated L ts n as ∧ c.depth + n ≤ maxNesting :=
  sound_commaLoop hitem hc h

theorem reads_commaList (hl : Listed L goesOn close) (hitem : RecognizesAt L goesOn item c.depth)
    (hc : c.depth ≤ maxNesting) {n : Nat} {as : List α} {ts : List Token} (htakes : c.Takes ts c')
    (hd : Separated L ts n as) (hend : c'.peek.kind = close) :
    Reads (commaList close item) c ts c' as (c.depth + n ≤ maxNesting) (maxNesting < c.depth + n) := by
  have hroom : as.length ≤ c.rest.length := by
    have hle := Separated.length_le hl hd
    rw [htakes.rest, List.length_append]
    omega
  have hloop := reads_commaLoop hl hitem hc htakes hd hend hroom
  exact hloop.congr rfl fun _ ht => ht

end

/-! ## One level deeper -/

section

variable {F : Language (Span → α)} {body : Parser (Span → α)}

theorem spanned_of_ok (h : p c = .ok a c') : spanned p c = .ok (a, c.peek.span.merge c'.prev) c' :=
  (bind_of_ok rfl).trans (bind_of_ok h)

theorem spanned_of_error {i : Issue} (h : p c = .error i c') : spanned p c = .error i c' :=
  (bind_of_ok rfl).trans (bind_of_error h)

theorem spanned_eq_ok {s : Span} : spanned p c = .ok (a, s) c' ↔ p c = .ok a c' ∧ s = c.peek.span.merge c'.prev := by
  cases h : p c with
  | ok b c₁ =>
    rw [spanned_of_ok h]
    constructor
    · rintro ⟨⟩
      exact ⟨rfl, rfl⟩
    · rintro ⟨⟨⟩, rfl⟩
      rfl
  | error i c₁ =>
    rw [spanned_of_error h]
    exact ⟨nofun, nofun⟩

theorem nested_covered_of_lt (hc : c.depth < maxNesting) : nested (covered body) c =
    match body { c with depth := c.depth + 1 } with
    | .ok make c' => .ok (make (c.peek.span.merge c'.prev)) { c' with depth := c.depth }
    | .error i c' => .error i { c' with depth := c.depth } := by
  have henter : enter c = .ok () { c with depth := c.depth + 1 } := if_neg (Nat.not_le.2 hc)
  unfold nested levelled covered
  rw [bind_of_ok henter]
  cases hb : body { c with depth := c.depth + 1 } with
  | ok make c' => rw [bind_of_ok (spanned_of_ok hb)]; rfl
  | error i c' => rw [bind_of_error (spanned_of_error hb)]

/-- A value of one more level, its span set to the tokens it was read from. -/
theorem recognizes_deeper (hL : ∀ {ts n a}, L ts n a ↔ ∃ m make, F ts m make ∧ n = m + 1 ∧ a = make (covering ts))
    (hF : ∀ {ts n make}, F ts n make → ∃ t us, ts = t :: us) (hc : c.depth < maxNesting)
    (hbody : Recognizes F goesOn body { c with depth := c.depth + 1 }) : Recognizes L goesOn (nested (covered body)) c := by
  constructor
  · intro a c' h
    rw [nested_covered_of_lt hc] at h
    cases hb : body { c with depth := c.depth + 1 } with
    | error i c₁ =>
      rw [hb] at h
      cases h
    | ok make c₁ =>
      rw [hb] at h
      cases h
      obtain ⟨ts, n, htakes, hf, hn, hnot⟩ := hbody.sound make c₁ hb
      obtain ⟨t, us, rfl⟩ := hF hf
      refine ⟨t :: us, n + 1, htakes.atDepth c.depth, hL.2 ⟨n, make, hf, rfl, ?_⟩, ?_, hnot⟩
      · exact congrArg make htakes.span_covering
      · simp only at hn
        omega
  · intro ts n a c' htakes hd hn hnot
    obtain ⟨m, make, hf, rfl, rfl⟩ := hL.1 hd
    obtain ⟨t, us, rfl⟩ := hF hf
    have hok := hbody.complete _ m make { c' with depth := c.depth + 1 } (htakes.atDepth _) hf
      (by simp only; omega) hnot
    rw [nested_covered_of_lt hc, hok, ← htakes.span_covering, ← htakes.depth]
  · intro ts n a c' htakes hd hn
    obtain ⟨m, make, hf, rfl, rfl⟩ := hL.1 hd
    obtain ⟨t, ht, c₁, hstop⟩ := hbody.limit _ m make { c' with depth := c.depth + 1 } (htakes.atDepth _) hf
      (by simp only; omega)
    exact ⟨t, ht, _, by rw [nested_covered_of_lt hc, hstop]⟩

end

/-- At the limit every value of a level is too deep. -/
theorem recognizes_tooDeep (hL : ∀ {ts n a}, L ts n a → 0 < n ∧ ∃ t us, ts = t :: us) (hc : maxNesting ≤ c.depth) :
    Recognizes L goesOn tooDeep c where
  sound a c' h := by cases h
  complete ts n a c' _ hd hn := by
    have := (hL hd).1
    omega
  limit ts n a c' htakes hd _ := by
    obtain ⟨-, t, us, rfl⟩ := hL hd
    exact stopsIn_tooDeep htakes

end Parser

end AnnotationChecker
