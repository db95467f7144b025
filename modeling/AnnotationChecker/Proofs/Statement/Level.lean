import AnnotationChecker.Proofs.Statement.Invariant
/-!
# Reading a line gives all levels back

Whether a line can be read or not, the cursor is as deep behind it as it was in front of it, so the next line has all
of `maxNesting` again (`Parser.Whole.depth_place`). Hints and expressions come back to their level by themselves;
nothing else changes it.
-/

namespace AnnotationChecker

open AnnotationChecker.Parser

theorem Cursor.depth_advance (c : Cursor) : c.advance.depth = c.depth := by
  obtain ⟨_ | ⟨t, ts⟩, prev, depth⟩ := c <;> rfl

namespace Parser

variable {ι α : Type} {q p : Parser ι} {m : Bool} {x y : Parser α} {c : Cursor}

/-- Whatever the outcome, the cursor is as deep as before. -/
def Restores (p : Parser α) : Prop := ∀ c, (place (p c)).depth = c.depth

/-- A cursor stays as deep as it is, unless levels may be open. -/
theorem invariant_depth (n : Nat) : Invariant (fun d c => d = false → c.depth = n) fun _ => True where
  advance {_ c} h _ hd := c.depth_advance.trans (h hd)
  blame _ _ _ := trivial
  enter _ := nofun
  relax _ := nofun
  comeBack h _ hd := h hd

theorem Restores.maintains (h : Restores x) (d : Bool) (n : Nat) :
    Maintains (fun c => d = false → c.depth = n) (fun _ => True) x := by
  intro c hc
  have hdepth := h c
  cases hread : x c with
  | ok a c' =>
    rw [hread] at hdepth
    exact .ok hread fun hd => hdepth.trans (hc hd)
  | error i c' =>
    rw [hread] at hdepth
    exact .error hread trivial fun hd => hdepth.trans (hc hd)

/-- All levels that are entered are given back if the parser for the inside gives its own back. -/
theorem Composed.depth_place (h : Composed q p false m x y) (hp : Restores p)
    (hm : m = true → c.peek.kind.isLineEnd = false) : (place (y c)).depth = c.depth :=
  (h.endsIn (invariant_depth c.depth) (fun d => hp.maintains d c.depth) (fun _ => rfl) hm).place rfl

theorem Whole.depth_place (h : Whole m x) (hm : m = true → c.peek.kind.isLineEnd = false) :
    (place (x c)).depth = c.depth :=
  Composed.depth_place h (fun _ => rfl) hm

theorem Whole.restores (h : Whole false x) : Restores x := fun _ => h.depth_place nofun

end Parser

end AnnotationChecker
