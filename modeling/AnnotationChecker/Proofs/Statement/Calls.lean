import AnnotationChecker.Proofs.Statement.Level
import AnnotationChecker.Proofs.Token.Derivation
/-!
# Where a parser calls another one

What reads brackets, calls or parameters is given the parser for what stands inside of them. It calls that parser at a
cursor if what the parser does there can make a difference (`Parser.Calls`). The calls of a list, of a call, of a
parameter and of one level of a hint or an expression are all ahead of where it starts: in the same line, at the same
level (`Parser.Composed.callsAt`).
-/

namespace AnnotationChecker

open AnnotationChecker.Parser

/-! ## Cursors behind others -/

namespace Cursor

/-- The second cursor is at the level of the first one, and in its line, not in front of it. -/
structure Ahead (c c' : Cursor) : Prop where
  depth : c'.depth = c.depth
  sameLine : SameLine c.rest c'.rest

/-- The second cursor is at a deeper level, within the limit, and in the line of the first one, not in front of it. -/
structure Deeper (c c' : Cursor) : Prop where
  depth_lt : c.depth < c'.depth
  depth_le : c'.depth ≤ maxNesting
  sameLine : SameLine c.rest c'.rest

/-- The second cursor is at the level of the first one or at a deeper one, not past the limit unless the first one is,
and in its line, not in front of it. -/
structure Within (c c' : Cursor) : Prop where
  depth_le : c.depth ≤ c'.depth
  limit : c.depth ≤ maxNesting → c'.depth ≤ maxNesting
  sameLine : SameLine c.rest c'.rest

variable {c c₁ c' : Cursor}

theorem Ahead.refl (c : Cursor) : c.Ahead c := ⟨rfl, .refl _⟩

theorem Ahead.trans (h : c.Ahead c₁) (h' : c₁.Ahead c') : c.Ahead c' :=
  ⟨h'.depth.trans h.depth, h.sameLine.trans h'.sameLine⟩

theorem Ahead.within (h : c.Ahead c₁) (h' : c₁.Within c') : c.Within c' :=
  ⟨h.depth ▸ h'.depth_le, h.depth ▸ h'.limit, h.sameLine.trans h'.sameLine⟩

theorem Within.refl (c : Cursor) : c.Within c := ⟨Nat.le_refl _, id, .refl _⟩

theorem Within.deeper (h : c.Within c₁) (h' : c₁.Deeper c') : c.Deeper c' :=
  ⟨Nat.lt_of_le_of_lt h.depth_le h'.depth_lt, h'.depth_le, h.sameLine.trans h'.sameLine⟩

theorem Deeper.trans (h : c.Deeper c₁) (h' : c₁.Deeper c') : c.Deeper c' :=
  ⟨Nat.lt_trans h.depth_lt h'.depth_lt, h'.depth_le, h.sameLine.trans h'.sameLine⟩

end Cursor

namespace Parser

variable {α β γ : Type} {p q : Parser α} {c c' : Cursor}

/-! ## Parsers that stay at their level and in their line -/

/-- Whatever the outcome, the parser stops ahead of where it started. -/
def Keeps (p : Parser α) (c : Cursor) : Prop := c.Ahead (place (p c))

/-- The parser stops ahead of where it starts, wherever that is, and does not depend on what is behind the line. -/
structure Steady (p : Parser α) : Prop where
  restores : Restores p
  inLine : InLine p

namespace Steady

theorem keeps (h : Steady p) (hc : HasLineEnd c.rest) : p.Keeps c := ⟨h.restores c, (h.inLine [] c hc).sameLine⟩

theorem ahead_of_ok {a : α} (h : Steady p) (hc : HasLineEnd c.rest) (hp : p c = .ok a c') : c.Ahead c' := by
  have hkeeps := h.keeps hc
  unfold Keeps at hkeeps
  rwa [hp] at hkeeps

end Steady

theorem Whole.steady {x : Parser α} (h : Whole false x) : Steady x := ⟨h.restores, h.inLine⟩

theorem Steady.eat {k : TokenKind} (hk : k.isLineEnd = false) : Steady (Parser.eat k) := Whole.steady (.basic (.eat hk))

theorem Whole.keeps {m : Bool} {x : Parser α} (h : Whole m x) (hc : HasLineEnd c.rest)
    (hm : m = true → c.peek.kind.isLineEnd = false) : x.Keeps c := by
  have halike : Alike [] x x c := h.alike hc hm
  exact ⟨h.depth_place hm, halike.sameLine⟩

/-- Both parts of a parser may be replaced by what gives the same, the second one where the first one leads to. -/
theorem bind_congr_ok {f g : α → Parser β} (hp : q c = p c) (hf : ∀ a c', p c = .ok a c' → g a c' = f a c') :
    (q >>= g) c = (p >>= f) c := by
  cases h : p c with
  | ok a c' => rw [bind_of_ok h, bind_of_ok (hp.trans h), hf a c' h]
  | error i c' => rw [bind_of_error h, bind_of_error (hp.trans h)]

/-! ## Calls -/

/-- Started at the first cursor, `f p` calls `p` at the second one: what `p` does there makes a difference. -/
def Calls (f : Parser α → Parser β) (p : Parser α) (c c' : Cursor) : Prop :=
  ∃ q : Parser α, (∀ d, d ≠ c' → q d = p d) ∧ f q c ≠ f p c

/-- Started before the end of a line, `f p` calls `p` only at cursors that are related to the one it started at: what
gives the same as `p` at those cursors can take its place. -/
def CallsAt (R : Cursor → Cursor → Prop) (f : Parser α → Parser β) (p : Parser α) : Prop :=
  ∀ (q : Parser α) (c : Cursor), HasLineEnd c.rest → (∀ c', R c c' → q c' = p c') → f q c = f p c

theorem CallsAt.rel {R : Cursor → Cursor → Prop} {f : Parser α → Parser β} (h : CallsAt R f p) (hc : HasLineEnd c.rest)
    (hcalls : Calls f p c c') : R c c' := by
  obtain ⟨q, hq, hne⟩ := hcalls
  exact Classical.byContradiction fun hR => hne (h q c hc fun d hd => hq d fun heq => hR (heq ▸ hd))

/-! ## Calls of what is put together -/

/-- Items are read the same if they are read the same from the list on. -/
theorem commaLoop_congr {close : TokenKind} {x y : Parser α} (hy : Steady y) (hc : HasLineEnd c.rest)
    (hxy : ∀ c', c.Ahead c' → x c' = y c') (n : Nat) : commaLoop close x n c = commaLoop close y n c := by
  induction n generalizing c with
  | zero => rfl
  | succ n ih =>
    rw [commaLoop, commaLoop]
    refine bind_congr_ok rfl ?_
    rintro k c₁ ⟨⟩
    split
    · rfl
    · refine bind_congr_ok (hxy c (.refl c)) fun a c₁ ha => bind_congr_ok rfl fun more c₂ hmore => ?_
      have hitem := hy.ahead_of_ok hc ha
      have hbehind := hitem.trans ((Steady.eat rfl).ahead_of_ok (hitem.sameLine.hasLineEnd hc) hmore)
      split
      · refine bind_congr_ok ?_ fun _ _ _ => rfl
        exact ih (hbehind.sameLine.hasLineEnd hc) fun c' hc' => hxy c' (hbehind.trans hc')
      · rfl

namespace Composed

variable {ι : Type} {q p : Parser ι} {d m : Bool} {x y : Parser α}

theorem ahead_of_ok (h : Composed q p false m x y) (hp : Steady p) (hc : HasLineEnd c.rest)
    (hm : m = true → c.peek.kind.isLineEnd = false) {a : α} (hread : y c = .ok a c') : c.Ahead c' := by
  have hdepth := h.depth_place hp.restores hm
  have halike : Alike [] y y c := h.alike hp.inLine hc hm
  rw [hread] at hdepth
  exact ⟨hdepth, halike.sameLine_of_ok hread⟩

/-- What is put together in the same way does the same if the parsers for the inside do, from there on in the line. -/
theorem same (h : Composed q p d m x y) (hd : d = false) (hp : Steady p) (hc : HasLineEnd c.rest)
    (hm : m = true → c.peek.kind.isLineEnd = false) (hq : ∀ c', c.Ahead c' → q c' = p c') : x c = y c := by
  induction h generalizing c with
  | inner => exact hq c (.refl c)
  | bind h _ ih ihf =>
    refine bind_congr_ok (ih hd hc hm hq) fun a c₁ ha => ?_
    subst hd
    have hahead := h.ahead_of_ok hp hc hm ha
    exact ihf a rfl (hahead.sameLine.hasLineEnd hc) nofun fun c' hc' => hq c' (hahead.trans hc')
  | look _ ihf =>
    refine bind_congr_ok rfl ?_
    rintro k c₁ ⟨⟩
    exact ihf _ hd hc (by simp) hq
  | lookBehind _ ihf =>
    refine bind_congr_ok rfl ?_
    rintro b c₁ ⟨⟩
    exact ihf _ hd hc hm hq
  | take _ ih =>
    have hahead : c.Ahead c.advance := ⟨c.depth_advance, Cursor.sameLine_advance (hm rfl)⟩
    refine bind_congr_ok rfl ?_
    rintro _ c₁ ⟨⟩
    exact ih hd (hahead.sameLine.hasLineEnd hc) nofun fun c' hc' => hq c' (hahead.trans hc')
  | named hk _ ihf =>
    refine bind_congr_ok rfl fun name c₁ hname => bind_congr_ok rfl fun found c₂ hfound => ?_
    have hid : Steady identifier := Whole.steady (.basic .identifier)
    have hread := hid.ahead_of_ok hc hname
    have hahead := hread.trans ((Steady.eat hk).ahead_of_ok (hread.sameLine.hasLineEnd hc) hfound)
    split
    · exact ihf name hd (hahead.sameLine.hasLineEnd hc) nofun fun c' hc' => hq c' (hahead.trans hc')
    · rfl
  | spanned _ ih =>
    refine bind_congr_ok rfl ?_
    rintro start c₁ ⟨⟩
    exact bind_congr_ok (ih hd hc hm hq) fun _ _ _ => rfl
  | commaList h ih =>
    subst hd
    have hy : Steady _ := ⟨fun _ => h.depth_place hp.restores nofun, h.inLine hp.inLine⟩
    refine commaLoop_congr hy hc (fun c₁ hc₁ => ?_) c.rest.length
    exact ih rfl (hc₁.sameLine.hasLineEnd hc) nofun fun c' hc' => hq c' (hc₁.trans hc')
  | basic | importNames | enter | levelled | atLevel => rfl

/-- All calls are ahead of where the reading starts. -/
theorem callsAt {f : Parser ι → Parser β} (h : ∀ q, Composed q p false false (f q) (f p)) (hp : Steady p) :
    CallsAt Cursor.Ahead f p := fun q _ hc hq => (h q).same rfl hp hc nofun hq

end Composed

end Parser

/-! ## Where reading stops -/

theorem Expr.parser_steady : Steady Expr.parser := Whole.steady Expr.parser_composed

theorem Hint.parser_steady : Steady Hint.parser := Whole.steady Hint.parser_composed

/-- Whatever the outcome, what is read on a line stops at the level it started from, and before the end of the line. -/
theorem Parser.parsers_keep {c : Cursor} (hc : HasLineEnd c.rest) :
    Expr.parser.Keeps c ∧ Hint.parser.Keeps c ∧ Expr.callParser.Keeps c ∧ (∀ f, (paramParser f).Keeps c) ∧
      (importNames dottedName).Keeps c ∧ (importNames identifier).Keeps c ∧
      (c.peek.kind.isLineEnd = false → importParser.Keeps c ∧ fromParser.Keeps c) := by
  have hcall : Steady Expr.callParser := Whole.steady (Expr.composed_callWith Expr.parser_composed)
  have hparam (f : String) : Steady (paramParser f) := Whole.steady (composed_paramWith f Hint.parser_composed)
  have hdotted : Steady (importNames dottedName) := Whole.steady (.importNames (.basic .dottedName))
  have hplain : Steady (importNames identifier) := Whole.steady (.importNames (.basic .identifier))
  exact ⟨Expr.parser_steady.keeps hc, Hint.parser_steady.keeps hc, hcall.keeps hc, fun f => (hparam f).keeps hc,
    hdotted.keeps hc, hplain.keeps hc, fun hword =>
      ⟨Whole.keeps composed_importParser hc fun _ => hword, Whole.keeps composed_fromParser hc fun _ => hword⟩⟩

end AnnotationChecker
