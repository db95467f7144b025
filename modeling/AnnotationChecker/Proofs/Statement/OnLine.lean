import AnnotationChecker.Proofs.Span
import AnnotationChecker.Proofs.Statement.Invariant
/-!
# Where a parser that fails puts the blame

Every parser that a line is read with stays in that line, and where it fails its issue starts with one of the tokens of
the line (`Parser.Whole.staysOn`). An issue may be at a token that was taken before, so the line is the one at the front
of some tokens that the cursor is behind (`Cursor.IsOn`).
-/

namespace AnnotationChecker

open AnnotationChecker.Parser

/-! ## Lines -/

/-- The line at the front, with the token that ends it. -/
def firstLine : List Token → List Token
  | [] => []
  | t :: ts => if t.kind.isLineEnd then [t] else t :: firstLine ts

theorem mem_firstLine_head (t : Token) (ts : List Token) : t ∈ firstLine (t :: ts) := by
  unfold firstLine
  split <;> simp

theorem firstLine_subset (ts : List Token) : firstLine ts ⊆ ts := by
  intro t ht
  induction ts with
  | nil => cases ht
  | cons u us ih =>
    unfold firstLine at ht
    split at ht
    · simp_all
    · rcases List.mem_cons.1 ht with rfl | ht
      · simp
      · exact List.mem_cons_of_mem _ (ih ht)

/-- What is left of the line belongs to it. -/
theorem SameLine.firstLine_subset {ts us : List Token} (h : SameLine ts us) : firstLine us ⊆ firstLine ts := by
  obtain ⟨taken, rfl, hall⟩ := h
  intro t ht
  induction taken with
  | nil => exact ht
  | cons u taken ih =>
    obtain ⟨hu, hall⟩ := List.forall_mem_cons.1 hall
    rw [List.cons_append, firstLine, if_neg (by simp [hu])]
    exact List.mem_cons_of_mem _ (ih hall)

/-- A span starts with one of the tokens of the line at the front. -/
def Span.OnLine (ts : List Token) (s : Span) : Prop := ∃ t ∈ firstLine ts, s.first = t.span.first

namespace Span.OnLine

variable {ts us : List Token} {s : Span}

theorem head (t : Token) (ts : List Token) : t.span.OnLine (t :: ts) := ⟨t, mem_firstLine_head t ts, rfl⟩

theorem of_sameLine (h : s.OnLine us) (hus : SameLine ts us) : s.OnLine ts := by
  obtain ⟨t, ht, hfirst⟩ := h
  exact ⟨t, hus.firstLine_subset ht, hfirst⟩

end Span.OnLine

namespace Cursor

/-- A cursor is on the line at the front. -/
structure IsOn (c : Cursor) (ts : List Token) : Prop where
  sameLine : SameLine ts c.rest
  hasLineEnd : HasLineEnd c.rest

variable {c : Cursor} {ts : List Token}

theorem IsOn.of_sameLine {c' : Cursor} (h : c.IsOn ts) (h' : SameLine c.rest c'.rest) : c'.IsOn ts :=
  ⟨h.sameLine.trans h', h'.hasLineEnd h.hasLineEnd⟩

theorem IsOn.advance (h : c.IsOn ts) (hk : c.peek.kind.isLineEnd = false) : c.advance.IsOn ts :=
  h.of_sameLine (sameLine_advance hk)

/-- The token at the cursor belongs to the line. -/
theorem IsOn.onLine_peek (h : c.IsOn ts) : c.peek.span.OnLine ts := by
  obtain ⟨t, us, hrest⟩ := h.hasLineEnd.exists_cons
  have hpeek : c.peek = t := by rw [peek, hrest]; rfl
  have hsame : SameLine ts (t :: us) := hrest ▸ h.sameLine
  rw [hpeek]
  exact (Span.OnLine.head t us).of_sameLine hsame

end Cursor

namespace Parser

variable {α : Type} {x : Parser α} {ts : List Token} {c : Cursor}

/-- A parser ends on the line, and an issue of it starts there. -/
abbrev StaysOn (ts : List Token) (x : Parser α) (c : Cursor) : Prop :=
  EndsIn (fun c => c.IsOn ts) (fun i => i.span.OnLine ts) x c

/-- A cursor that is on a line stays on it, at whatever level, and so do its issues. -/
theorem invariant_isOn (ts : List Token) : Invariant (fun _ c => c.IsOn ts) fun i => i.span.OnLine ts where
  advance := Cursor.IsOn.advance
  blame _ _ h := h.onLine_peek
  enter h := ⟨h.sameLine, h.hasLineEnd⟩
  relax h := h
  comeBack _ h := ⟨h.sameLine, h.hasLineEnd⟩

theorem Whole.staysOn {m : Bool} (h : Whole m x) (hc : c.IsOn ts) (hm : m = true → c.peek.kind.isLineEnd = false) :
    StaysOn ts x c := h.endsIn (invariant_isOn ts) hc hm

end Parser

end AnnotationChecker
