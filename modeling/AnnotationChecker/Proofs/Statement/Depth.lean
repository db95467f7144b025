import AnnotationChecker.Proofs.Statement.Calls
import AnnotationChecker.Proofs.Statement.Recovery
/-!
# The level is counted up and down

Going one level deeper adds one to the depth of the cursor, and coming back takes one off again (`Parser.counted`).
Taking one off never fails: what a level holds comes back to where it started. A chain of `|` goes deeper for each of
its marks and leaves it to the hint it belongs to to come back. Expressions and hints are recursions of this kind
(`Parser.IsRecursion`), and all calls of a run, however far down, are at deeper levels within the limit.
-/

namespace AnnotationChecker

open AnnotationChecker.Parser

namespace Parser

variable {α : Type} {p q : Parser α} {c c' : Cursor}

/-! ## Counting -/

/-- The outcome of what was read one level deeper, one level up again. At level zero there is none above, and
`underflow` says so. -/
def raised (underflow : Issue) : EStateM.Result Issue Cursor α → EStateM.Result Issue Cursor α
  | .ok a c => if c.depth = 0 then .error underflow c else .ok a { c with depth := c.depth - 1 }
  | .error i c => if c.depth = 0 then .error underflow c else .error i { c with depth := c.depth - 1 }

/-- Reads one level deeper, and takes one off the depth behind it. -/
def counted (underflow : Issue) (p : Parser α) : Parser α := fun c =>
  match enter c with
  | .ok _ c' => raised underflow (p c')
  | .error i c' => .error i c'

theorem enter_of_le (h : maxNesting ≤ c.depth) : enter c = tooDeep c := if_pos h

theorem enter_of_lt (h : c.depth < maxNesting) : enter c = .ok () { c with depth := c.depth + 1 } :=
  if_neg (Nat.not_le.2 h)

theorem nested_of_le (h : maxNesting ≤ c.depth) : nested p c = tooDeep c := by
  show levelled (enter >>= fun _ => p) c = _
  unfold levelled
  rw [bind_of_error (enter_of_le h)]
  rfl

theorem nested_of_lt (h : c.depth < maxNesting) :
    nested p c = levelled (fun _ => p { c with depth := c.depth + 1 }) c := by
  show levelled (enter >>= fun _ => p) c = _
  unfold levelled
  rw [bind_of_ok (enter_of_lt h)]

/-- There is a level to take off. -/
theorem raised_eq_levelled (underflow : Issue) {r : EStateM.Result Issue Cursor α} (h : (place r).depth = c.depth + 1) :
    raised underflow r = levelled (fun _ => r) c := by
  unfold levelled
  cases r with
  | ok a c' =>
    have hdepth : c'.depth = c.depth + 1 := h
    simp [raised, hdepth]
  | error i c' =>
    have hdepth : c'.depth = c.depth + 1 := h
    simp [raised, hdepth]

/-- Counting gives the level from before, and it never fails. -/
theorem counted_eq_nested (underflow : Issue) (h : Restores p) : counted underflow p = nested p := by
  funext c
  unfold counted
  rcases Nat.lt_or_ge c.depth maxNesting with hlt | hle
  · rw [nested_of_lt hlt, enter_of_lt hlt]
    exact raised_eq_levelled underflow (h { c with depth := c.depth + 1 })
  · rw [nested_of_le hle, enter_of_le hle]
    rfl

/-- A family of parsers, by how many levels are left, is one parser that calls itself one level deeper. -/
theorem nested_of_levels {outer within : Nat → Parser α} {f : Parser α → Parser α} (hzero : outer 0 = tooDeep)
    (hsucc : ∀ room, outer (room + 1) = nested (f (within room)))
    (hf : CallsAt Cursor.Ahead f fun c => within (maxNesting - c.depth) c) (hc : HasLineEnd c.rest) :
    outer (maxNesting - c.depth) c = nested (f fun c => within (maxNesting - c.depth) c) c := by
  cases hroom : maxNesting - c.depth with
  | zero => rw [hzero, nested_of_le (by omega)]
  | succ room =>
    have hlt : c.depth < maxNesting := by omega
    rw [hsucc, nested_of_lt hlt, nested_of_lt hlt]
    unfold levelled
    rw [hf (within room) { c with depth := c.depth + 1 } hc fun c' hc' => ?_]
    have hdepth : c'.depth = c.depth + 1 := hc'.depth
    have hleft : maxNesting - c'.depth = room := by omega
    show within room c' = within (maxNesting - c'.depth) c'
    rw [hleft]

/-! ## Calls at deeper levels -/

namespace CallsAt

variable {β γ : Type} {R : Cursor → Cursor → Prop} {f g : Parser α → Parser β}

/-- What does not use the parser does not call it. -/
theorem none (r : Parser β) : CallsAt R (fun _ : Parser α => r) p := fun _ _ _ _ => rfl

/-- The parser itself is called where it starts. -/
theorem self (hR : ∀ c, R c c) (p : Parser α) : CallsAt R (fun q => q) p := fun _ c _ hq => hq c (hR c)

theorem ite {P : Prop} [Decidable P] (hf : CallsAt R f p) (hg : CallsAt R g p) :
    CallsAt R (fun q => if P then f q else g q) p := by
  split
  · exact hf
  · exact hg

theorem levelled (hf : CallsAt R f p) : CallsAt R (fun q => Parser.levelled (f q)) p := by
  intro q c hc hq
  show Parser.levelled (f q) c = Parser.levelled (f p) c
  unfold Parser.levelled
  rw [hf q c hc hq]

/-- What is called behind a parser that stops ahead is called at the level or at deeper ones, too. -/
theorem bind {h : Parser α → β → Parser γ} (hf : CallsAt Cursor.Within f p) (hsteady : Steady (f p))
    (hh : ∀ b, CallsAt Cursor.Within (fun q => h q b) p) : CallsAt Cursor.Within (fun q => f q >>= h q) p := by
  intro q c hc hq
  refine bind_congr_ok (hf q c hc hq) fun b c₁ hb => ?_
  have hahead := hsteady.ahead_of_ok hc hb
  exact hh b q c₁ (hahead.sameLine.hasLineEnd hc) fun c' hc' => hq c' (hahead.within hc')

/-- A parser in front that does not call the other one. -/
theorem after {r : Parser β} {h : Parser α → β → Parser γ} (hsteady : Steady r)
    (hh : ∀ b, CallsAt Cursor.Within (fun q => h q b) p) : CallsAt Cursor.Within (fun q => r >>= h q) p :=
  .bind (.none r) hsteady hh

/-- What is called one level deeper. -/
theorem counted (underflow : Issue) (hf : CallsAt Cursor.Ahead f p) :
    CallsAt Cursor.Deeper (fun q => Parser.counted underflow (f q)) p := by
  intro q c hc hq
  show Parser.counted underflow (f q) c = Parser.counted underflow (f p) c
  unfold Parser.counted
  rcases Nat.lt_or_ge c.depth maxNesting with hlt | hle
  · have hbelow : f q { c with depth := c.depth + 1 } = f p { c with depth := c.depth + 1 } := by
      refine hf q _ hc fun c' hc' => hq c' ?_
      have hdepth : c'.depth = c.depth + 1 := hc'.depth
      exact ⟨by omega, by omega, hc'.sameLine⟩
    rw [enter_of_lt hlt]
    exact congrArg (raised underflow) hbelow
  · rw [enter_of_le hle]
    rfl

/-- A level that is entered and not left. -/
theorem entered (hf : CallsAt Cursor.Within f p) : CallsAt Cursor.Within (fun q => do enter; f q) p := by
  intro q c hc hq
  show (enter >>= fun _ => f q) c = (enter >>= fun _ => f p) c
  rcases Nat.lt_or_ge c.depth maxNesting with hlt | hle
  · rw [bind_of_ok (enter_of_lt hlt), bind_of_ok (enter_of_lt hlt)]
    exact hf q { c with depth := c.depth + 1 } hc fun c' hc' =>
      hq c' ⟨Nat.le_of_succ_le hc'.depth_le, fun _ => hc'.limit hlt, hc'.sameLine⟩
  · rw [bind_of_error (enter_of_le hle), bind_of_error (enter_of_le hle)]

/-- Calls by way of another parser, which is called at the level or at deeper ones. -/
theorem comp {g : Parser β → Parser γ} (hg : CallsAt Cursor.Within g (f p)) (hf : CallsAt Cursor.Deeper f p) :
    CallsAt Cursor.Deeper (fun q => g (f q)) p :=
  fun q c hc hq => hg (f q) c hc fun c₁ hc₁ =>
    hf q c₁ (hc₁.sameLine.hasLineEnd hc) fun c' hc' => hq c' (hc₁.deeper hc')

end CallsAt

/-- A parser that does what `f` makes of it. Whenever it is called along the way, also by one of its own calls, that is
at a deeper level than where it started, within the limit, and in the same line. -/
structure IsRecursion (f : Parser α → Parser α) (p : Parser α) : Prop where
  unfold : ∀ c, HasEof c.rest → p c = f p c
  deeper : ∀ c c', HasEof c.rest → Relation.TransGen (Calls f p) c c' → c.Deeper c'

/-- The calls of a run, by how far down they are: each of them is deeper than the one it is made by. -/
theorem IsRecursion.of_callsAt {f : Parser α → Parser α} (hcalls : CallsAt Cursor.Deeper f p)
    (hunfold : ∀ c, HasLineEnd c.rest → p c = f p c) : IsRecursion f p where
  unfold c hc := hunfold c hc.hasLineEnd
  deeper c c' hc hrun := by
    induction hrun with
    | single hstep => exact hcalls.rel hc.hasLineEnd hstep
    | tail _ hstep ih => exact ih.trans (hcalls.rel (ih.sameLine.hasLineEnd hc.hasLineEnd) hstep)

end Parser

/-! ## Expressions -/

namespace Expr

theorem calls_level : CallsAt Cursor.Ahead (fun q => covered (body q)) parser :=
  Composed.callsAt (fun _ => .covered (composed_body .inner)) parser_steady

theorem parser_unfold (underflow : Issue) {c : Cursor} (hc : HasLineEnd c.rest) :
    parser c = counted underflow (covered (body parser)) c := by
  have hlevel : Whole false (covered (body parser)) := .covered (composed_body parser_composed)
  rw [counted_eq_nested underflow hlevel.restores]
  exact nested_of_levels rfl (fun _ => rfl) calls_level hc

theorem parser_isRecursion (underflow : Issue) : IsRecursion (fun p => counted underflow (covered (body p))) parser :=
  .of_callsAt (.counted underflow calls_level) fun _ => parser_unfold underflow

end Expr

/-! ## Hints -/

namespace Hint

/-- The rest of a chain after its left part, given the parser for its parts, when `room` levels are left. Nothing takes
off again what the marks add. -/
def chainOf (part : Parser Hint) : (room : Nat) → Hint → Parser Hint
  | 0, left => do
    if ← eat (.mark .pipe) then tooDeep else pure left
  | room + 1, left => do
    if ← eat (.mark .pipe) then
      enter
      let right ← part
      chainOf part room (.or (left.span.merge right.span) left right)
    else pure left

/-- A chain, given the parser for its parts. Behind it, the depth is set to what it was. -/
def chainOver (part : Parser Hint) : Parser Hint := fun c =>
  levelled (do
    let first ← part
    chainOf part (maxNesting - c.depth) first) c

/-- A part of a chain, given the parser for the hints inside of it. -/
def part (underflow : Issue) (inner : Parser Hint) : Parser Hint := counted underflow (covered (body inner))

theorem calls_chainOf {part : Parser Hint} (h : Steady part) (room : Nat) (left : Hint) :
    CallsAt Cursor.Within (fun q => chainOf q room left) part := by
  induction room generalizing left with
  | zero => exact .none _
  | succ room ih =>
    refine .after (.eat rfl) fun _ => .ite (.entered ?_) (.none _)
    exact .bind (.self .refl part) h fun right => ih _

theorem calls_chainOver {part : Parser Hint} (h : Steady part) : CallsAt Cursor.Within chainOver part := fun q c =>
  CallsAt.levelled (.bind (.self .refl part) h fun first => calls_chainOf h (maxNesting - c.depth) first) q c

theorem calls_level : CallsAt Cursor.Ahead (fun q => covered (body q)) parser :=
  Composed.callsAt (fun _ => .covered (composed_body .inner)) parser_steady

variable (underflow : Issue)

theorem part_eq_nested : part underflow parser = nested (covered (body parser)) := by
  have hlevel : Whole false (covered (body parser)) := .covered (composed_body parser_composed)
  exact counted_eq_nested underflow hlevel.restores

theorem steady_part : Steady (part underflow parser) := by
  rw [part_eq_nested]
  exact Whole.steady (.nested (.covered (composed_body parser_composed)))

theorem atomWithin_eq {c : Cursor} (hc : HasLineEnd c.rest) :
    atomWithin (maxNesting - c.depth) c = part underflow parser c := by
  rw [part_eq_nested]
  exact nested_of_levels (by rw [atomWithin]) (fun _ => by rw [atomWithin]; rfl) calls_level hc

theorem chainWithin_eq (room : Nat) (left : Hint) {c : Cursor} (hc : HasLineEnd c.rest)
    (hroom : maxNesting - c.depth = room) :
    chainWithin room left c = chainOf (part underflow parser) room left c := by
  induction room generalizing left c with
  | zero => rw [chainWithin, chainOf]
  | succ room ih =>
    rw [chainWithin, chainOf]
    refine bind_congr_ok rfl fun more c₁ hmore => ?_
    have hahead := (Steady.eat rfl).ahead_of_ok hc hmore
    split
    · -- the mark takes a level, which the next part and the rest of the chain no longer have
      obtain ⟨c₂, henter, hc₂, hleft⟩ : ∃ c₂, enter c₁ = .ok () c₂ ∧ HasLineEnd c₂.rest ∧ maxNesting - c₂.depth = room :=
        ⟨_, enter_of_lt (by rw [hahead.depth]; omega), hahead.sameLine.hasLineEnd hc, by
          show maxNesting - (c₁.depth + 1) = room
          rw [hahead.depth]
          omega⟩
      rw [bind_of_ok henter, bind_of_ok henter]
      refine bind_congr_ok (hleft ▸ atomWithin_eq underflow hc₂) fun right c₃ hright => ?_
      have hbehind := (steady_part underflow).ahead_of_ok hc₂ hright
      exact ih _ (hbehind.sameLine.hasLineEnd hc₂) (by rw [hbehind.depth, hleft])
    · rfl

theorem parser_unfold {c : Cursor} (hc : HasLineEnd c.rest) : parser c = chainOver (part underflow parser) c := by
  show levelled _ c = levelled _ c
  unfold levelled
  rw [bind_congr_ok (atomWithin_eq underflow hc) fun first c₁ hfirst => ?_]
  have hahead := (steady_part underflow).ahead_of_ok hc hfirst
  exact chainWithin_eq underflow _ first (hahead.sameLine.hasLineEnd hc) (by rw [hahead.depth])

theorem parser_isRecursion : IsRecursion (fun p => chainOver (part underflow p)) parser :=
  .of_callsAt (.comp (calls_chainOver (steady_part underflow)) (.counted underflow calls_level)) fun _ =>
    parser_unfold underflow

end Hint

end AnnotationChecker
