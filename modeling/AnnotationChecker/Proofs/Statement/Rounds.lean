import AnnotationChecker.Proofs.Statement.Depth
/-!
# Every round of a loop takes a token

A loop goes from round to round until one of them leaves it (`Round`). In each of the loops that a module is read with,
a round that does not leave takes a token, and never the end of the file, so there are no more rounds than tokens
(`IsLoop`). The functions that stop at the end of a list, at a bound or by their recursion are shown to give what such
a loop leaves with.

`Parser.reading_disciplined` puts this together with where parsers stop and what they call: levels are given back,
tokens are only taken forward and within the line, and nothing goes on for ever.
-/

namespace AnnotationChecker

open AnnotationChecker.Parser

/-! ## Rounds -/

/-- What a round of a loop comes to: the loop is left with a result, or the next round starts from some state. -/
inductive Round (ρ σ : Type) where
  | leave (result : ρ)
  | next (state : σ)

namespace Round

variable {ρ σ : Type}

/-- What the loop gives in the end, when `run` says what it gives from the next round on. -/
def resume (run : σ → ρ) : Round ρ σ → ρ
  | leave r => r
  | next s => run s

/-- From a state, a loop is left with a result after a number of rounds that go on. -/
inductive Runs (round : σ → Round ρ σ) : Nat → σ → ρ → Prop
  | leave {s : σ} {r : ρ} : round s = .leave r → Runs round 0 s r
  | next {n : Nat} {s s' : σ} {r : ρ} : round s = .next s' → Runs round n s' r → Runs round (n + 1) s r

end Round

/-- A function gives what a loop is left with that starts in some state. Every round that goes on takes a token, and
there are no more of them than tokens. -/
structure IsLoop {ι ρ σ : Type} (tokens : σ → List Token) (round : σ → Round ρ σ) (start : ι → σ) (f : ι → ρ) : Prop where
  advances : ∀ s s', HasEof (tokens s) → round s = .next s' → Line.Advances (tokens s) (tokens s')
  runs : ∀ x, HasEof (tokens (start x)) → ∃ n ≤ (tokens (start x)).length, Round.Runs round n (start x) (f x)

section

variable {ι ρ σ : Type} {tokens : σ → List Token} {round : σ → Round ρ σ} (run : σ → ρ)
  (hadvances : ∀ s s', HasEof (tokens s) → round s = .next s' → Line.Advances (tokens s) (tokens s'))
  (hround : ∀ s, HasEof (tokens s) → run s = (round s).resume run)

include hadvances hround

/-- What agrees with every round is what the loop is left with, by how many tokens there are. -/
theorem Round.exists_runs (s : σ) (hs : HasEof (tokens s)) : ∃ n ≤ (tokens s).length, Runs round n s (run s) := by
  induction hlength : (tokens s).length using Nat.strongRecOn generalizing s with
  | ind length ih =>
    have hrun := hround s hs
    cases h : round s with
    | leave r =>
      rw [h] at hrun
      exact ⟨0, Nat.zero_le _, hrun ▸ .leave h⟩
    | next s' =>
      rw [h] at hrun
      have hadvance := hadvances s s' hs h
      have hlt : (tokens s').length < length := hlength ▸ hadvance.length_lt
      obtain ⟨n, hn, hruns⟩ := ih _ hlt s' (hadvance.sameFile.hasEof hs) rfl
      exact ⟨n + 1, by omega, hrun ▸ .next h hruns⟩

/-- It is enough to look at one round, and to say what the loop gives from any state on. -/
theorem IsLoop.of_round {start : ι → σ} {f : ι → ρ} (hstart : ∀ x, run (start x) = f x) :
    IsLoop tokens round start f where
  advances := hadvances
  runs x hx := hstart x ▸ Round.exists_runs run hadvances hround (start x) hx

end

/-! ## Lines -/

namespace Line

variable {t : Token} {ts : List Token}

/-- Dropping the rest of a line: one token. -/
def dropRound : List Token → Round (List Token) (List Token)
  | [] => .leave []
  | t :: ts => if t.kind = .eof then .leave (t :: ts) else if t.kind = .newline then .leave ts else .next ts

/-- Skipping blank lines: one token. -/
def blankRound : List Token → Round (List Token) (List Token)
  | [] => .leave []
  | t :: ts =>
    if t.kind = .newline ∨ (t.kind.isComment = true ∧ endsHere ts = true) then .next ts else .leave (t :: ts)

/-- Skipping a block: one line, or the newline of an empty one. -/
def blockRound : Nat × List Token → Round (Nat × List Token) (Nat × List Token)
  | (n, []) => .leave (n, [])
  | (n, t :: ts) =>
    if t.kind = .newline then .next (n, ts)
    else if t.kind = .eof then .leave (n, t :: ts)
    else if t.kind.isComment = true ∧ endsHere ts = true then .next (n, drop (t :: ts))
    else if 1 < t.span.startCol then .next (n + 1, drop (t :: ts))
    else .leave (n, t :: ts)

/-- The lines of a block that were counted before, and those that are left. -/
def skipBlockFrom (s : Nat × List Token) : Nat × List Token := (s.1 + (skipBlock s.2).1, (skipBlock s.2).2)

theorem advances_cons (h : t.kind ≠ .eof) : Advances (t :: ts) ts := ⟨.cons h (.refl ts), Nat.lt_succ_self _⟩

theorem isLoop_drop : IsLoop id dropRound id drop := by
  refine .of_round drop ?_ ?_ fun _ => rfl
  · rintro (_ | ⟨t, ts⟩) s' - h
    · cases h
    · rw [dropRound] at h
      split at h
      · cases h
      · next heof =>
        split at h
        · cases h
        · cases h
          exact advances_cons heof
  · rintro (_ | ⟨t, ts⟩) -
    · rfl
    · rw [dropRound, drop]
      split
      · rfl
      · split <;> rfl

theorem isLoop_skipBlank : IsLoop id blankRound id skipBlank := by
  refine .of_round skipBlank ?_ ?_ fun _ => rfl
  · rintro (_ | ⟨t, ts⟩) s' - h
    · cases h
    · rw [blankRound] at h
      split at h
      · next hblank =>
        cases h
        refine advances_cons fun heof => ?_
        simp [heof, TokenKind.isComment] at hblank
      · cases h
  · rintro (_ | ⟨t, ts⟩) -
    · rfl
    · rw [blankRound, skipBlank]
      split <;> rfl

theorem isLoop_skipBlock : IsLoop Prod.snd blockRound (fun ts => (0, ts)) skipBlock := by
  refine .of_round skipBlockFrom ?_ ?_ fun ts => by simp [skipBlockFrom]
  · rintro ⟨n, _ | ⟨t, ts⟩⟩ s' - h
    · cases h
    · rw [blockRound] at h
      split at h
      · next hnl =>
        cases h
        exact advances_cons (by simp [hnl])
      · split at h
        · cases h
        · next heof =>
          split at h
          · cases h
            exact advances_drop heof (.refl _)
          · split at h
            · cases h
              exact advances_drop heof (.refl _)
            · cases h
  · rintro ⟨n, _ | ⟨t, ts⟩⟩ -
    · simp [skipBlockFrom, blockRound, skipBlock, Round.resume]
    · rw [skipBlockFrom, skipBlock, blockRound]
      split
      · rfl
      · next hnl =>
        split
        · rfl
        · next heof =>
          have hdrop : drop (t :: ts) = drop ts := by rw [drop, if_neg heof, if_neg hnl]
          rw [hdrop]
          split
          · rfl
          · split
            · have hcount : n + ((skipBlock (drop ts)).1 + 1) = n + 1 + (skipBlock (drop ts)).1 := by omega
              simp only [Round.resume, skipBlockFrom, hcount]
            · rfl

end Line

/-! ## Lists -/

theorem Cursor.extend_nil (c : Cursor) : c.extend [] = c := by simp [Cursor.extend]

namespace Parser

variable {α : Type} {c c' : Cursor}

theorem Alike.eq_of_nil {p q : Parser α} (h : Alike [] p q c) : q c = p c := by
  have heq := h.extend
  rw [Cursor.extend_nil] at heq
  rw [heq]
  cases p c <;> simp [extended, Cursor.extend_nil]

/-- Taking the comma behind what was read takes a token. -/
theorem advances_comma (hc : HasEof c.rest) (h : SameLine c.rest c'.rest) (hcomma : c'.peek.kind = .mark .comma) :
    Line.Advances c.rest c'.advance.rest where
  sameFile := SameLine.sameFile (h.trans (Cursor.sameLine_advance (by rw [hcomma]; rfl)))
  length_lt := Nat.lt_of_lt_of_le (Cursor.length_advance_lt (h.hasLineEnd hc.hasLineEnd)) h.length_le

/-- Items between commas: one item, and the comma behind it. -/
def commaRound (close : TokenKind) (item : Parser α) (s : List α × Cursor) :
    Round (EStateM.Result Issue Cursor (List α)) (List α × Cursor) :=
  if s.2.peek.kind = close ∨ s.2.peek.kind = .eof then .leave (.ok s.1 s.2)
  else match item s.2 with
    | .error i c => .leave (.error i c)
    | .ok x c =>
      if c.peek.kind = .mark .comma then .next (s.1 ++ [x], c.advance) else .leave (.ok (s.1 ++ [x]) c)

/-- A list is read item by item. -/
abbrev ReadsItems (close : TokenKind) (item : Parser α) : Prop :=
  IsLoop (fun s : List α × Cursor => s.2.rest) (commaRound close item) (fun c => ([], c)) (commaList close item)

/-- Behind a comma, a loop goes on with fewer tokens, so a bound that was above them still is. -/
theorem bound_behind_comma {c₁ c₂ : Cursor} {n : Nat} (hc : HasLineEnd c.rest) (h : SameLine c.rest c₁.rest)
    (hn : c.rest.length = n + 1) (hcomma : eat (.mark .comma) c₁ = .ok true c₂) :
    HasLineEnd c₂.rest ∧ c₂.rest.length ≤ n := by
  have hhere : HasLineEnd c₁.rest := h.hasLineEnd hc
  have hbehind := (Steady.eat rfl).ahead_of_ok hhere hcomma
  have hlt := Cursor.length_advance_lt hhere
  rw [← eat_eq_ok_true hcomma] at hlt
  have hle := h.length_le
  exact ⟨hbehind.sameLine.hasLineEnd hhere, by omega⟩

/-- The equation of a list, without the bound on how many items there are. -/
theorem commaList_eq {close : TokenKind} {item : Parser α} (hitem : InLine item) (hc : HasLineEnd c.rest) :
    commaList close item c = (do
      let k ← peek
      if k = close ∨ k = TokenKind.eof then pure []
      else
        let x ← item
        if ← eat (.mark .comma) then
          let xs ← commaList close item
          pure (x :: xs)
        else pure [x]) c := by
  have hpos := Cursor.length_advance_lt hc
  obtain ⟨n, hn⟩ : ∃ n, c.rest.length = n + 1 := ⟨c.rest.length - 1, by omega⟩
  show commaLoop close item c.rest.length c = _
  rw [hn, commaLoop, bind_peek, bind_peek]
  split
  · rfl
  · refine bind_congr_ok rfl fun x c₁ hx => bind_congr_ok rfl fun more c₂ hmore => ?_
    split
    · next htrue =>
      subst htrue
      obtain ⟨hc₂, hle⟩ := bound_behind_comma hc ((hitem [] c hc).sameLine_of_ok hx) hn hmore
      have hrest : Alike [] (commaLoop close item c₂.rest.length) (commaLoop close item n) c₂ :=
        commaLoop_alike hitem [] _ n c₂ hc₂ (Nat.le_refl _) hle
      exact bind_congr_ok hrest.eq_of_nil fun _ _ _ => rfl
    · rfl

/-- The items that were read before, and those that are left. -/
def commaListFrom (close : TokenKind) (item : Parser α) (s : List α × Cursor) : EStateM.Result Issue Cursor (List α) :=
  match commaList close item s.2 with
  | .ok xs c => .ok (s.1 ++ xs) c
  | .error i c => .error i c

theorem commaListFrom_nil (close : TokenKind) (item : Parser α) (c : Cursor) :
    commaListFrom close item ([], c) = commaList close item c := by
  unfold commaListFrom
  cases commaList close item c <;> rfl

theorem commaListFrom_round {close : TokenKind} {item : Parser α} (hitem : InLine item) (xs : List α)
    (hc : HasLineEnd c.rest) :
    commaListFrom close item (xs, c) = (commaRound close item (xs, c)).resume (commaListFrom close item) := by
  have hlist : commaList close item c = _ := commaList_eq hitem hc
  rw [bind_peek] at hlist
  by_cases hend : c.peek.kind = close ∨ c.peek.kind = .eof
  · have hnone : commaList close item c = .ok [] c := by
      rw [hlist, if_pos hend]
      rfl
    simp [commaListFrom, commaRound, hend, hnone, Round.resume]
  · rw [if_neg hend] at hlist
    cases hread : item c with
    | error i c' =>
      rw [bind_of_error hread] at hlist
      simp [commaListFrom, commaRound, hend, hread, hlist, Round.resume]
    | ok x c' =>
      rw [bind_of_ok hread] at hlist
      by_cases hcomma : c'.peek.kind = .mark .comma
      · rw [bind_of_ok (eat_of_eq hcomma), if_pos rfl] at hlist
        cases hys : commaList close item c'.advance with
        | ok ys c₂ =>
          have hmore : commaList close item c = .ok (x :: ys) c₂ := hlist.trans (bind_of_ok hys)
          simp [commaListFrom, commaRound, hend, hread, hcomma, hys, hmore, Round.resume]
        | error i c₂ =>
          have hfailed : commaList close item c = .error i c₂ := hlist.trans (bind_of_error hys)
          simp [commaListFrom, commaRound, hend, hread, hcomma, hys, hfailed, Round.resume]
      · have hlast : commaList close item c = .ok [x] c' := hlist.trans (bind_of_ok (eat_of_ne hcomma))
        simp [commaListFrom, commaRound, hend, hread, hcomma, hlast, Round.resume]

theorem readsItems {close : TokenKind} {item : Parser α} (hitem : InLine item) : ReadsItems close item := by
  refine .of_round (commaListFrom close item) ?_ (fun s hc => commaListFrom_round hitem s.1 hc.hasLineEnd)
    (commaListFrom_nil close item)
  rintro ⟨xs, c⟩ s' hc h
  unfold commaRound at h
  split at h
  · cases h
  · split at h
    · cases h
    · next x c' hread =>
      split at h
      · next hcomma =>
        cases h
        exact advances_comma hc ((hitem [] c hc.hasLineEnd).sameLine_of_ok hread) hcomma
      · cases h

/-! ## Imported names -/

/-- Imported names: one name, and the comma behind it. A comma in front of the closing parenthesis is the last one. -/
def importRound (name : Parser (String × Span)) (c : Cursor) : Round (EStateM.Result Issue Cursor Unit) Cursor :=
  match importedName name c with
  | .error i c => .leave (.error i c)
  | .ok _ c =>
    if c.peek.kind = .mark .comma then
      if c.advance.peek.kind = .mark .rightParen then .leave (.ok () c.advance) else .next c.advance
    else .leave (.ok () c)

section

variable {name : Parser (String × Span)} (hname : InLine name)

include hname

/-- The equation of imported names, without the bound on how many there are. -/
theorem importNames_eq (hc : HasLineEnd c.rest) :
    importNames name c = (do
      importedName name
      if ← eat (.mark .comma) then
        if ← sees (.mark .rightParen) then pure () else importNames name
      else pure ()) c := by
  have hpos := Cursor.length_advance_lt hc
  obtain ⟨n, hn⟩ : ∃ n, c.rest.length = n + 1 := ⟨c.rest.length - 1, by omega⟩
  show importLoop name c.rest.length c = _
  rw [hn, importLoop]
  refine bind_congr_ok rfl fun _ c₁ hread => bind_congr_ok rfl fun more c₂ hmore => ?_
  split
  · next htrue =>
    subst htrue
    have hsame := (InLine.importedName hname [] c hc).sameLine_of_ok hread
    obtain ⟨hc₂, hle⟩ := bound_behind_comma hc hsame hn hmore
    refine bind_congr_ok rfl ?_
    rintro closing _ ⟨⟩
    split
    · rfl
    · exact (importLoop_alike hname [] _ n c₂ hc₂ (Nat.le_refl _) hle).eq_of_nil
  · rfl

theorem importNames_round (hc : HasLineEnd c.rest) :
    importNames name c = (importRound name c).resume (importNames name) := by
  have hnames := importNames_eq hname hc
  cases hread : importedName name c with
  | error i c' =>
    rw [bind_of_error hread] at hnames
    simp [importRound, hread, hnames, Round.resume]
  | ok u c' =>
    rw [bind_of_ok hread] at hnames
    by_cases hcomma : c'.peek.kind = .mark .comma
    · rw [bind_of_ok (eat_of_eq hcomma), if_pos rfl] at hnames
      by_cases hclose : c'.advance.peek.kind = .mark .rightParen
      · have hsees : sees (.mark .rightParen) c'.advance = .ok true c'.advance := by
          unfold sees
          rw [decide_eq_true hclose]
        have hdone : importNames name c = .ok () c'.advance := hnames.trans (bind_of_ok hsees)
        simp [importRound, hread, hcomma, hclose, hdone, Round.resume]
      · have hmore : importNames name c = importNames name c'.advance :=
          hnames.trans (bind_of_ok (sees_of_ne hclose))
        simp [importRound, hread, hcomma, hclose, hmore, Round.resume]
    · have hlast : importNames name c = .ok () c' := hnames.trans (bind_of_ok (eat_of_ne hcomma))
      simp [importRound, hread, hcomma, hlast, Round.resume]

theorem isLoop_importNames : IsLoop Cursor.rest (importRound name) id (importNames name) := by
  refine .of_round (importNames name) ?_ (fun c hc => importNames_round hname hc.hasLineEnd) fun _ => rfl
  intro c s' hc h
  unfold importRound at h
  split at h
  · cases h
  · next u c' hread =>
    split at h
    · next hcomma =>
      split at h
      · cases h
      · cases h
        exact advances_comma hc ((InLine.importedName hname [] c hc.hasLineEnd).sameLine_of_ok hread) hcomma
    · cases h

end

end Parser

/-! ## Modules -/

namespace Parsed

open AnnotationChecker.Line

/-- What a line has. -/
def ofLine (l : Line) : Parsed := ⟨l.statement.toList, l.issues⟩

/-- A module: the blank lines in front of a line, and the line. -/
def lineRound (s : Parsed × List Token) : Round Parsed (Parsed × List Token) :=
  if (head (skipBlank s.2)).kind = .eof ∨ maxDiagnostics ≤ s.1.issues.length then .leave s.1
  else .next (s.1 ++ ofLine (read (skipBlank s.2)), (read (skipBlank s.2)).rest)

/-- What was read before, and what is read of the lines that are left. -/
def readFrom (s : Parsed × List Token) : Parsed := s.1 ++ ofLines (s.2.length + 1) s.1.issues.length s.2

theorem append_ofLine (p q : Parsed) (l : Line) : p ++ q.after l = p ++ ofLine l ++ q := by
  show (⟨_, _⟩ : Parsed) = ⟨_, _⟩
  simp [after, ofLine]

theorem advances_line {ts : List Token} (hts : HasEof ts) (h : (head (skipBlank ts)).kind ≠ .eof) :
    Advances ts (read (skipBlank ts)).rest := by
  have hblank : SameFile ts (skipBlank ts) := sameFile_skipBlank ts
  have hread := advances_read h (hblank.hasEof hts).hasLineEnd
  exact ⟨hblank.trans hread.sameFile, Nat.lt_of_lt_of_le hread.length_lt hblank.length_le⟩

theorem isLoop_ofTokens : IsLoop Prod.snd lineRound (fun ts => (⟨[], []⟩, ts)) ofTokens := by
  refine .of_round readFrom ?_ ?_ fun _ => rfl
  · rintro ⟨p, ts⟩ s' hts h
    unfold lineRound at h
    split at h
    · cases h
    · next hgo =>
      cases h
      exact advances_line hts (not_or.1 hgo).1
  · rintro ⟨p, ts⟩ hts
    unfold lineRound readFrom
    split
    · next hstop =>
      rw [ofLines_of_stop hstop]
      exact append_nil p
    · next hgo =>
      have hadvance := advances_line hts (not_or.1 hgo).1
      rw [ofLines_succ hgo, append_ofLine, ofLines_congr_room (hadvance.sameFile.hasEof hts) hadvance.length_lt
        (Nat.lt_succ_self _)]
      simp [Round.resume, ofLine]

end Parsed

/-! ## Levels, tokens and rounds -/

namespace Parser

/-- **Levels are given back, tokens are taken forward, and every loop comes to its end.** Whatever is read, and whether
it can be read or not, the cursor stops at the level it started from, and not past the end of its line; an import takes
its reserved word unseen, so that must not be the end of the line. Expressions and hints count the level up and down, and
there is always one to take off; whenever they are called along the way, that is deeper and within the limit. The marks
of a chain take levels, too, so its parts are read at its own level or deeper ones, and the arguments of a call and the
hint of a parameter at its own. In the loops, every round takes a token or is the last one. -/
theorem reading_disciplined :
    (∀ c, HasEof c.rest →
      Expr.parser.Keeps c ∧ Hint.parser.Keeps c ∧ Expr.callParser.Keeps c ∧ (∀ f, (paramParser f).Keeps c) ∧
        (importNames dottedName).Keeps c ∧ (importNames identifier).Keeps c ∧
        (c.peek.kind.isLineEnd = false → importParser.Keeps c ∧ fromParser.Keeps c)) ∧
    (∀ underflow, IsRecursion (fun p => counted underflow (covered (Expr.body p))) Expr.parser ∧
      IsRecursion (fun p => Hint.chainOver (Hint.part underflow p)) Hint.parser ∧
      ∀ c c', HasEof c.rest → Calls Hint.chainOver (Hint.part underflow Hint.parser) c c' → c.Within c') ∧
    (Expr.callParser = Expr.callWith Expr.parser ∧
      ∀ c c', HasEof c.rest → Calls Expr.callWith Expr.parser c c' → c.Ahead c') ∧
    (∀ f, paramParser f = paramWith f Hint.parser ∧
      ∀ c c', HasEof c.rest → Calls (paramWith f) Hint.parser c c' → c.Ahead c') ∧
    IsLoop Prod.snd Parsed.lineRound (fun ts => (⟨[], []⟩, ts)) Parsed.ofTokens ∧
    IsLoop id Line.blankRound id Line.skipBlank ∧ IsLoop id Line.dropRound id Line.drop ∧
    IsLoop Prod.snd Line.blockRound (fun ts => (0, ts)) Line.skipBlock ∧
    (∀ close, ReadsItems close (Expr.item Expr.parser) ∧ ReadsItems close Hint.parser ∧
      ∀ f, ReadsItems close (paramParser f)) ∧
    IsLoop Cursor.rest (importRound dottedName) id (importNames dottedName) ∧
    IsLoop Cursor.rest (importRound identifier) id (importNames identifier) := by
  have hcall : CallsAt Cursor.Ahead Expr.callWith Expr.parser :=
    Composed.callsAt (fun _ => Expr.composed_callWith .inner) Expr.parser_steady
  have hparam (f : String) : CallsAt Cursor.Ahead (paramWith f) Hint.parser :=
    Composed.callsAt (fun _ => composed_paramWith f .inner) Hint.parser_steady
  refine ⟨fun c hc => parsers_keep hc.hasLineEnd,
    fun underflow => ⟨Expr.parser_isRecursion underflow, Hint.parser_isRecursion underflow,
      fun c c' hc => (Hint.calls_chainOver (Hint.steady_part underflow)).rel hc.hasLineEnd⟩,
    ⟨rfl, fun c c' hc => hcall.rel hc.hasLineEnd⟩,
    fun f => ⟨rfl, fun c c' hc => (hparam f).rel hc.hasLineEnd⟩,
    Parsed.isLoop_ofTokens, Line.isLoop_skipBlank, Line.isLoop_drop, Line.isLoop_skipBlock, fun close => ?_,
    isLoop_importNames .dottedName, isLoop_importNames .identifier⟩
  exact ⟨readsItems (Whole.inLine (Expr.composed_item Expr.parser_composed)), readsItems Hint.parser_steady.inLine,
    fun f => readsItems (Whole.inLine (composed_paramWith f Hint.parser_composed))⟩

/-- Two parentheses that are not closed, at level three. -/
def unclosed : Cursor :=
  ⟨[⟨.mark .leftParen, .point 1 1⟩, ⟨.mark .leftParen, .point 1 2⟩, ⟨.eof, .point 1 3⟩], .point 1 1, 3⟩

/-- Behind the first of them, one level deeper. -/
def unclosedInside : Cursor := ⟨[⟨.mark .leftParen, .point 1 2⟩, ⟨.eof, .point 1 3⟩], .point 1 1, 4⟩

theorem place_unclosed : (place (Expr.parser unclosed)).rest.length = 1 := by decide +kernel

/-- There is a call behind the first parenthesis: if it failed at once, the second one would not be taken. -/
theorem calls_unclosedInside (underflow : Issue) :
    Calls (fun p => counted underflow (covered (Expr.body p))) Expr.parser unclosed unclosedInside := by
  classical
  have hfailed : ∀ q : Parser Expr, q unclosedInside = tooDeep unclosedInside →
      (place (counted underflow (covered (Expr.body q)) unclosed)).rest.length = 2 := by
    intro q h
    have hparen : Expr.body q { unclosed with depth := 4 } =
        (q >>= fun e => do expect (.mark .rightParen); pure e.withSpan) unclosedInside := rfl
    have hlevel : covered (Expr.body q) { unclosed with depth := 4 } = tooDeep unclosedInside :=
      bind_of_error (spanned_of_error (hparen.trans (bind_of_error h)))
    show (place (raised underflow (covered (Expr.body q) { unclosed with depth := 4 }))).rest.length = 2
    rw [hlevel]
    rfl
  refine ⟨fun c => if c = unclosedInside then tooDeep c else Expr.parser c, fun c hc => if_neg hc, fun h => ?_⟩
  have hend : HasLineEnd unclosed.rest := ⟨⟨.eof, .point 1 3⟩, by simp [unclosed], rfl⟩
  have hread : (place (counted underflow (covered (Expr.body Expr.parser)) unclosed)).rest.length = 1 := by
    rw [← Expr.parser_unfold underflow hend, place_unclosed]
  have hstopped := hfailed (fun c => if c = unclosedInside then tooDeep c else Expr.parser c) (if_pos rfl)
  have hsame : 2 = 1 := hstopped.symm.trans ((congrArg (fun r => (place r).rest.length) h).trans hread)
  cases hsame

theorem reading_disciplined_sample :
    HasEof unclosed.rest ∧ (place (Expr.parser unclosed)).depth = 3 ∧ (place (Expr.parser unclosed)).rest.length = 1 ∧
      unclosed.Deeper unclosedInside := by
  have heof : HasEof unclosed.rest := ⟨⟨.eof, .point 1 3⟩, by simp [unclosed], rfl⟩
  obtain ⟨hkeeps, hrecursion, -⟩ := reading_disciplined
  refine ⟨heof, (hkeeps unclosed heof).1.depth, place_unclosed, ?_⟩
  exact (hrecursion (deepAt (.point 1 1))).1.deeper _ _ heof (.single (calls_unclosedInside _))

end Parser

end AnnotationChecker
