import AnnotationChecker.Proofs.Ty.Reread
/-!
# The tokens of a type

The tokens of the hint of a type, as they are read back, are those of the type that is read back. Their numbers
are the integers in the type without their signs.
-/

namespace AnnotationChecker

open Hint (nowhere kindsList)

theorem map_reread_nameKinds (n : String) : (nameKinds n).map TokenKind.reread = nameKinds n := by
  have hsame : ∀ k ∈ nameKinds n, k.reread = k := by
    intro k hk
    rcases mem_nameKinds hk with rfl | ⟨w, rfl⟩ <;> rfl
  rw [List.map_congr_left hsame, List.map_id']

theorem not_int_mem_nameKinds (n : String) (i : Int) : TokenKind.int i ∉ nameKinds n := by
  intro h
  rcases mem_nameKinds h with h | ⟨w, h⟩ <;> cases h

theorem Literal.kinds_reread (v : Literal) : v.reread.const.kinds = v.const.kinds.map TokenKind.reread := by
  cases v with
  | str s => rfl
  | bool b => cases b <;> rfl
  | int i =>
    show (Const.int i).kinds = (Const.int i).kinds.map TokenKind.reread
    rw [List.map_congr_left Const.reread_int, List.map_id']

theorem Literal.int_mem_kinds {v : Literal} {n : Int} :
    .int n ∈ v.const.kinds ↔ ∃ i, v = .int i ∧ n = i.natAbs := by
  rw [Const.int_mem_kinds]
  cases v <;> simp [Literal.const]

namespace Hint

/-- The tokens of a list of hints, each of which has the tokens of another one after some change. -/
theorem kindsList_map {α : Type} {f g : α → Hint} {xs : List α}
    (h : ∀ x ∈ xs, (g x).kinds = (f x).kinds.map TokenKind.reread) :
    kindsList (xs.map g) = (kindsList (xs.map f)).map TokenKind.reread := by
  induction xs with
  | nil => rfl
  | cons x xs ih =>
    have hx := h x (by simp)
    have ih := ih fun y hy => h y (List.mem_cons_of_mem _ hy)
    cases xs with
    | nil => simpa [kindsList] using hx
    | cons y ys => simpa [kindsList, hx, TokenKind.reread] using ih

theorem kinds_ofAlternatives (h : Hint) (hs : List Hint) :
    (ofAlternatives (h :: hs)).kinds = h.kinds ++ hs.flatMap fun a => .mark .pipe :: a.kinds := by
  induction hs generalizing h with
  | nil => simp [ofAlternatives]
  | cons h' hs ih => simp [ofAlternatives_cons_cons, ih, kinds]

theorem kinds_ofAlternatives_reread {hs ks : List Hint}
    (h : ks.map kinds = hs.map fun a => a.kinds.map TokenKind.reread) :
    (ofAlternatives ks).kinds = (ofAlternatives hs).kinds.map TokenKind.reread := by
  have htail : ∀ hs : List Hint, (hs.flatMap fun a => TokenKind.mark .pipe :: a.kinds) =
      (hs.map kinds).flatMap fun k => .mark .pipe :: k := by
    intro hs
    rw [List.flatMap_map]
  match hs, ks, h with
  | [], [], _ => exact (map_reread_nameKinds "Never").symm
  | a :: as, b :: bs, h =>
    simp only [List.map_cons, List.cons.injEq] at h
    simp [kinds_ofAlternatives, h.1, htail bs, h.2, List.flatMap_map, List.map_flatMap, TokenKind.reread]

theorem int_mem_ofAlternatives {hs : List Hint} {n : Int} :
    .int n ∈ (ofAlternatives hs).kinds ↔ ∃ a ∈ hs, .int n ∈ a.kinds := by
  cases hs with
  | nil => simpa [ofAlternatives, kinds] using not_int_mem_nameKinds "Never" n
  | cons h hs => simp [kinds_ofAlternatives]

theorem int_mem_ofLiterals {vs : List Literal} {n : Int} :
    .int n ∈ (ofLiterals vs).kinds ↔ ∃ v ∈ vs, .int n ∈ v.const.kinds := by
  simp [ofLiterals, kinds, not_int_mem_nameKinds, mem_kindsList]

theorem kinds_ofLiterals_reread (vs : List Literal) :
    (ofLiterals (vs.map Literal.reread)).kinds = (ofLiterals vs).kinds.map TokenKind.reread := by
  have hk : kindsList (vs.map fun v => .const nowhere v.reread.const) =
      (kindsList (vs.map fun v => .const nowhere v.const)).map TokenKind.reread :=
    kindsList_map fun v _ => v.kinds_reread
  simp [ofLiterals, kinds, map_reread_nameKinds, TokenKind.reread, ← hk, Function.comp_def]

end Hint

namespace Ty

/-! ## Read back -/

theorem joins_reread (v : Literal) (vs : List Literal) : joins v.reread (vs.map Literal.reread) = joins v vs := by
  simp [joins, Function.comp_def]

theorem kinds_closed_reread (vs : List Literal) :
    (closed (vs.map Literal.reread)).map Hint.kinds = (closed vs).map fun h => h.kinds.map TokenKind.reread := by
  cases vs with
  | nil => rfl
  | cons v vs =>
    have hk := Hint.kinds_ofLiterals_reread (v :: vs)
    simpa [closed] using hk

theorem kinds_alternatives_reread (vs : List Literal) (ts : List Ty)
    (hts : ∀ t ∈ ts, t.reread.hint.kinds = t.hint.kinds.map TokenKind.reread) :
    (alternatives (vs.map Literal.reread) (ts.map reread)).map Hint.kinds =
      (alternatives vs ts).map fun h => h.kinds.map TokenKind.reread := by
  induction vs, ts using membersInduction with
  | nil vs => simpa only [List.map_nil, alternatives] using kinds_closed_reread vs
  | same vs v ts hj ih =>
    have ih := ih fun t ht => hts t (List.mem_cons_of_mem _ ht)
    rw [List.map_append, List.map_singleton] at ih
    rw [List.map_cons, reread, alternatives_literal, joins_reread, if_pos hj, alternatives_literal, if_pos hj, ih]
  | differs vs v ts hj ih =>
    have ih := ih fun t ht => hts t (List.mem_cons_of_mem _ ht)
    have hn : ¬ joins v vs = true := by simp [hj]
    rw [List.map_singleton] at ih
    rw [List.map_cons, reread, alternatives_literal, joins_reread, if_neg hn, alternatives_literal, if_neg hn,
      List.map_append, ih, kinds_closed_reread, ← List.map_append]
  | other vs t ts ht ih =>
    have ih := ih fun t ht => hts t (List.mem_cons_of_mem _ ht)
    have ht' : ∀ v, t.reread ≠ .literal v := by
      intro v hv
      cases t with
      | literal u => exact ht u rfl
      | _ => simp [reread] at hv
    rw [List.map_nil] at ih
    rw [List.map_cons, alternatives_other ht', alternatives_other ht, List.map_append, List.map_cons, ih,
      kinds_closed_reread, hts t (by simp), List.map_append, List.map_cons]

theorem kinds_reread (t : Ty) : t.reread.hint.kinds = t.hint.kinds.map TokenKind.reread := by
  induction t using inductionOn with
  | primitive k =>
    cases k with
    | none => rfl
    | _ => exact (map_reread_nameKinds _).symm
  | literal v => exact Hint.kinds_ofLiterals_reread [v]
  | never => exact (map_reread_nameKinds "Never").symm
  | container c e v ih => simp [reread, hint, Hint.kinds, kindsList, ih, map_reread_nameKinds, TokenKind.reread]
  | callable ps t ihp iht =>
    have hps : kindsList (ps.map fun p => p.reread.hint) = (kindsList (ps.map hint)).map TokenKind.reread :=
      Hint.kindsList_map ihp
    simp [reread, hint, Hint.kinds, kindsList, hps, iht, map_reread_nameKinds, TokenKind.reread, Function.comp_def]
  | union ts ih =>
    rw [reread, hint, hint, rereadList_eq_map]
    exact Hint.kinds_ofAlternatives_reread (kinds_alternatives_reread [] ts ih)

/-! ## Numbers -/

theorem int_mem_closed {vs : List Literal} {n : Int} :
    (∃ h ∈ closed vs, .int n ∈ h.kinds) ↔ ∃ v ∈ vs, .int n ∈ v.const.kinds := by
  cases vs with
  | nil => simp [closed]
  | cons v vs => simp [closed, Hint.int_mem_ofLiterals]

theorem int_mem_alternatives (n : Int) (vs : List Literal) (ts : List Ty) :
    (∃ h ∈ alternatives vs ts, .int n ∈ h.kinds) ↔
      (∃ v ∈ vs, .int n ∈ v.const.kinds) ∨ ∃ t ∈ ts, .int n ∈ t.hint.kinds := by
  induction vs, ts using membersInduction with
  | nil vs => simpa [alternatives] using int_mem_closed
  | same vs v ts hj ih =>
    rw [alternatives_literal, if_pos hj, ih]
    simp [or_and_right, exists_or, hint, Hint.int_mem_ofLiterals, or_assoc]
  | differs vs v ts hj ih =>
    rw [alternatives_literal, if_neg (by simp [hj])]
    simp only [List.mem_append, or_and_right, exists_or, int_mem_closed, ih]
    simp [hint, Hint.int_mem_ofLiterals]
  | other vs t ts ht ih =>
    rw [alternatives_other ht]
    simp only [List.mem_append, List.mem_cons, or_and_right, exists_or, int_mem_closed, ih]
    simp

theorem int_mem_partsList {ts : List Ty} {n : Int}
    (h : ∀ t ∈ ts, .int n ∈ t.hint.kinds ↔ ∃ i, .literal (.int i) ∈ t.parts ∧ n = i.natAbs) :
    (∃ t ∈ ts, .int n ∈ t.hint.kinds) ↔ ∃ i, .literal (.int i) ∈ partsList ts ∧ n = i.natAbs := by
  constructor
  · rintro ⟨t, ht, hn⟩
    obtain ⟨i, hi, he⟩ := (h t ht).1 hn
    exact ⟨i, mem_partsList.2 ⟨t, ht, hi⟩, he⟩
  · rintro ⟨i, hi, he⟩
    obtain ⟨t, ht, hi⟩ := mem_partsList.1 hi
    exact ⟨t, ht, (h t ht).2 ⟨i, hi, he⟩⟩

/-- The numbers in the tokens of a type are its integers without their signs. -/
theorem int_mem_kinds {t : Ty} {n : Int} :
    .int n ∈ t.hint.kinds ↔ ∃ i, .literal (.int i) ∈ t.parts ∧ n = i.natAbs := by
  induction t using inductionOn with
  | primitive k =>
    cases k with
    | none => simp [hint, Primitive.hint, Hint.kinds, Const.kinds, parts]
    | _ => simp [hint, Primitive.hint, Hint.kinds, not_int_mem_nameKinds, parts]
  | never => simp [hint, Hint.kinds, not_int_mem_nameKinds, parts]
  | literal v => simp [hint, Hint.int_mem_ofLiterals, Literal.int_mem_kinds, parts, eq_comm]
  | container c e v ih => simp [hint, Hint.kinds, kindsList, not_int_mem_nameKinds, ih, parts]
  | callable ps t ihp iht =>
    have hps := int_mem_partsList ihp
    simp [hint, Hint.kinds, kindsList, not_int_mem_nameKinds, Hint.mem_kindsList, hps, iht, parts, or_and_right,
      exists_or]
  | union ts ih =>
    rw [hint, Hint.int_mem_ofAlternatives, int_mem_alternatives, int_mem_partsList ih]
    simp [parts]

end Ty

end AnnotationChecker
