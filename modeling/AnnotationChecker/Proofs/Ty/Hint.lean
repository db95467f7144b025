import AnnotationChecker.Ty.Text
import AnnotationChecker.Proofs.Hint.Tokens
import AnnotationChecker.Proofs.Ty.Canonical
/-!
# The hint of a type

The text of a type is the text of a hint, `Ty.hint`: a union is a chain of `|`, in which literals of one kind
that stand side by side share one `Literal[...]`. Only the empty union has no hint.
-/

namespace AnnotationChecker

open Hint (nowhere)

/-- A value as a constant in a hint. -/
def Literal.const : Literal → Const
  | .int v => .int v
  | .str s => .str s
  | .bool b => .bool b

/-- The name of a built-in type, which for `None` is a constant. -/
def Primitive.hint : Primitive → Hint
  | .none => .const nowhere .none
  | k => .name nowhere k.text

namespace Hint

/-- `Literal[...]` with some values. -/
def ofLiterals (vs : List Literal) : Hint := .subscript nowhere "Literal" (vs.map fun v => .const nowhere v.const)

/-- A chain of `|`. -/
def ofAlternatives : List Hint → Hint
  | [] => .name nowhere "Never"
  | h :: hs => hs.foldl (.or nowhere) h

end Hint

theorem Hint.ofAlternatives_cons_cons (h h' : Hint) (hs : List Hint) :
    ofAlternatives (h :: h' :: hs) = ofAlternatives (.or nowhere h h' :: hs) := rfl

namespace Ty

/-- A group of literals that is closed: a hint, unless it is empty. -/
def closed : List Literal → List Hint
  | [] => []
  | vs => [.ofLiterals vs]

/-- Does a literal have the kind of those in a group? -/
def joins (v : Literal) (vs : List Literal) : Bool := vs.all fun u => u.kind = v.kind

mutual

/-- The hint of a type. -/
def hint : Ty → Hint
  | .primitive k => k.hint
  | .literal v => .ofLiterals [v]
  | .union ts => .ofAlternatives (alternatives [] ts)
  | .container c e _ => .subscript nowhere c [hint e]
  | .callable ps t => .subscript nowhere "Callable" [.list nowhere (hintList ps), hint t]
  | .never => .name nowhere "Never"

/-- The hints of the members of a union, behind an open group of literals. -/
def alternatives (vs : List Literal) : List Ty → List Hint
  | [] => closed vs
  | .literal v :: ts =>
    if joins v vs then alternatives (vs ++ [v]) ts else closed vs ++ alternatives [v] ts
  | t :: ts => closed vs ++ hint t :: alternatives [] ts

/-- The hint of each type of a list. -/
def hintList : List Ty → List Hint
  | [] => []
  | t :: ts => hint t :: hintList ts

end

@[simp] theorem hintList_eq_map (ts : List Ty) : hintList ts = ts.map hint := by
  induction ts with
  | nil => rfl
  | cons t ts ih => simp [hintList, ih]

theorem alternatives_literal (vs : List Literal) (v : Literal) (ts : List Ty) :
    alternatives vs (.literal v :: ts) =
      if joins v vs then alternatives (vs ++ [v]) ts else closed vs ++ alternatives [v] ts := by
  rw [alternatives]

theorem alternatives_other {t : Ty} (h : ∀ v, t ≠ .literal v) (vs : List Literal) (ts : List Ty) :
    alternatives vs (t :: ts) = closed vs ++ hint t :: alternatives [] ts := by
  rw [alternatives]
  exact h

/-- Induction over the members of a union, with the literals before them that are still open. -/
@[elab_as_elim]
theorem membersInduction {P : List Literal → List Ty → Prop} (nil : ∀ vs, P vs [])
    (same : ∀ vs v ts, joins v vs = true → P (vs ++ [v]) ts → P vs (.literal v :: ts))
    (differs : ∀ vs v ts, joins v vs = false → P [v] ts → P vs (.literal v :: ts))
    (other : ∀ vs t ts, (∀ v, t ≠ .literal v) → P [] ts → P vs (t :: ts)) (vs : List Literal) (ts : List Ty) :
    P vs ts := by
  induction ts generalizing vs with
  | nil => exact nil vs
  | cons t ts ih =>
    cases t with
    | literal v =>
      cases hj : joins v vs with
      | true => exact same vs v ts hj (ih _)
      | false => exact differs vs v ts hj (ih _)
    | _ => exact other vs _ ts (fun _ he => by cases he) (ih _)

/-! ## Its text -/

/-- The text of alternatives behind others. -/
def tails : List Hint → String
  | [] => ""
  | h :: hs => " | " ++ h.text ++ tails hs

theorem tails_append (xs ys : List Hint) : tails (xs ++ ys) = tails xs ++ tails ys := by
  induction xs with
  | nil => simp [tails]
  | cons x xs ih => simp [tails, ih, String.append_assoc]

theorem text_ofAlternatives (h : Hint) (hs : List Hint) :
    (Hint.ofAlternatives (h :: hs)).text = h.text ++ tails hs := by
  induction hs generalizing h with
  | nil => simp [Hint.ofAlternatives, tails]
  | cons h' hs ih =>
    rw [Hint.ofAlternatives_cons_cons, ih, Hint.text, tails]
    simp only [String.append_assoc]

/-- The values of a group, with commas between them. -/
def commas (vs : List Literal) : String := Hint.textList (vs.map fun v => .const nowhere v.const)

theorem text_const (v : Literal) : v.const.text = v.text := by
  cases v <;> rfl

theorem commas_singleton (v : Literal) : commas [v] = v.text := text_const v

theorem commas_concat {vs : List Literal} (h : vs ≠ []) (v : Literal) :
    commas (vs ++ [v]) = commas vs ++ ", " ++ v.text := by
  unfold commas
  induction vs with
  | nil => exact absurd rfl h
  | cons u us ih =>
    cases us with
    | nil => simp [Hint.textList, Hint.text, text_const]
    | cons u' us =>
      have ih := ih (by simp)
      simp only [List.cons_append, List.map_cons, Hint.textList] at ih ⊢
      rw [ih]
      simp only [String.append_assoc]

theorem text_ofLiterals (vs : List Literal) : (Hint.ofLiterals vs).text = "Literal[" ++ commas vs ++ "]" := rfl

/-- The text of an open group behind other alternatives. -/
def openText : List Literal → String
  | [] => ""
  | vs => " | Literal[" ++ commas vs

/-- The gap that an open group leaves. -/
def gapOf : List Literal → Gap
  | [] => .complete
  | v :: _ => .group v.kind

/-- All literals of a group have one kind. -/
def Uniform (vs : List Literal) : Prop := ∀ u ∈ vs, ∀ v ∈ vs, u.kind = v.kind

theorem uniform_singleton (v : Literal) : Uniform [v] := by
  simp [Uniform]

theorem joins_iff {v : Literal} {vs : List Literal} : joins v vs = true ↔ ∀ u ∈ vs, u.kind = v.kind := by
  simp [joins]

theorem Uniform.concat {v : Literal} {vs : List Literal} (h : joins v vs = true) : Uniform (vs ++ [v]) := by
  rw [joins_iff] at h
  have hall : ∀ u ∈ vs ++ [v], u.kind = v.kind := by
    intro u hu
    rcases List.mem_append.1 hu with hu | hu
    · exact h u hu
    · rw [List.mem_singleton.1 hu]
  intro u hu w hw
  rw [hall u hu, hall w hw]

/-- A literal that does not join a uniform group has another kind than its first one. -/
theorem Uniform.kind_ne {u v : Literal} {us : List Literal} (h : Uniform (u :: us)) (hj : joins v (u :: us) = false) :
    u.kind ≠ v.kind := by
  intro he
  have : joins v (u :: us) = true := joins_iff.2 fun w hw => (h w hw u (by simp)).trans he
  rw [hj] at this
  cases this

theorem textMembers_other {t : Ty} (h : ∀ v, t ≠ .literal v) (g : Gap) (ts : List Ty) :
    textMembers g (t :: ts) = g.text ++ text t ++ textMembers .complete ts := by
  rw [textMembers]
  exact h

theorem tails_closed (vs : List Literal) : tails (closed vs) = openText vs ++ (gapOf vs).close := by
  cases vs with
  | nil => rfl
  | cons u us => simp [closed, tails, text_ofLiterals, openText, gapOf, Gap.close, ← String.append_assoc]

theorem gap_text_gapOf (vs : List Literal) : (gapOf vs).text = (gapOf vs).close ++ " | " := by
  cases vs <;> rfl

theorem openText_concat {v : Literal} {vs : List Literal} (hj : joins v vs = true) :
    openText (vs ++ [v]) = openText vs ++ (gapOf vs).literalText v ∧ gapOf (vs ++ [v]) = .group v.kind := by
  cases vs with
  | nil => exact ⟨by simp [openText, gapOf, Gap.literalText, Gap.text, commas_singleton], rfl⟩
  | cons u us =>
    have hu : u.kind = v.kind := joins_iff.1 hj u (by simp)
    have hc := commas_concat (List.cons_ne_nil u us) v
    rw [List.cons_append] at hc
    exact ⟨by simp [openText, gapOf, Gap.literalText, hc, hu, String.append_assoc], by simp [gapOf, hu]⟩

/-- A literal that opens a group behind another one. -/
theorem openText_of_differs {v : Literal} {vs : List Literal} (hvs : Uniform vs) (hj : joins v vs = false) :
    openText vs ++ (gapOf vs).close ++ openText [v] = openText vs ++ (gapOf vs).literalText v := by
  cases vs with
  | nil => simp [joins] at hj
  | cons u us =>
    have hu : u.kind ≠ v.kind := hvs.kind_ne hj
    -- the group before it is closed, and the same text opens the next one
    have hbar : "] | " = "]" ++ " | " := rfl
    have hopen : " | Literal[" = " | " ++ "Literal[" := rfl
    simp only [openText, gapOf, Gap.close, Gap.literalText, Gap.text, if_neg hu, commas_singleton, hbar, hopen,
      String.append_assoc]

/-- The text of alternatives behind others is that of the members of the union. -/
theorem tails_alternatives (vs : List Literal) (ts : List Ty) (hvs : Uniform vs)
    (hts : ∀ t ∈ ts, t.hint.text = t.text) :
    tails (alternatives vs ts) = openText vs ++ textMembers (gapOf vs) ts := by
  induction vs, ts using membersInduction with
  | nil vs => rw [alternatives, tails_closed, textMembers]
  | same vs v ts hj ih =>
    obtain ⟨ho, hg⟩ := openText_concat hj
    rw [alternatives_literal, if_pos hj, ih (.concat hj) fun t ht => hts t (List.mem_cons_of_mem _ ht), ho, hg,
      textMembers, String.append_assoc]
  | differs vs v ts hj ih =>
    rw [alternatives_literal, if_neg (by simp [hj]), tails_append, tails_closed,
      ih (uniform_singleton v) fun t ht => hts t (List.mem_cons_of_mem _ ht), ← String.append_assoc,
      openText_of_differs hvs hj, textMembers, String.append_assoc]
    rfl
  | other vs t ts ht ih =>
    rw [alternatives_other ht, tails_append, tails_closed, tails, hts t (by simp),
      ih (by simp [Uniform]) fun t ht => hts t (List.mem_cons_of_mem _ ht), textMembers_other ht, gap_text_gapOf]
    simp [openText, gapOf, String.append_assoc]

theorem exists_alternatives (vs : List Literal) {ts : List Ty} (h : ts ≠ []) :
    ∃ a as, alternatives vs ts = a :: as := by
  -- an open group counts as well, since the induction moves literals into it
  have hne : ∀ vs ts, vs ≠ [] ∨ ts ≠ [] → alternatives vs ts ≠ [] := by
    intro vs ts
    induction vs, ts using membersInduction with
    | nil vs => cases vs <;> simp [alternatives, closed]
    | same vs v ts hj ih => simpa [alternatives_literal, hj] using ih
    | differs vs v ts hj ih => simp [alternatives_literal, hj, ih (.inl (List.cons_ne_nil v []))]
    | other vs t ts ht ih => simp [alternatives_other ht]
  exact List.exists_cons_of_ne_nil (hne vs ts (.inr h))

/-- The first member of a union has no bar before it. -/
theorem textMembers_complete {ts : List Ty} (h : ts ≠ []) :
    textMembers .complete ts = " | " ++ textMembers .first ts := by
  match ts, h with
  | t :: ts, _ =>
    cases t with
    | literal v => simp only [textMembers, Gap.literalText, Gap.text, String.append_assoc, String.empty_append]
    | _ => simp only [textMembers, Gap.text, String.append_assoc, String.empty_append]

theorem textList_hint {ts : List Ty} (h : ∀ t ∈ ts, t.hint.text = t.text) :
    Hint.textList (ts.map hint) = textList ts := by
  induction ts with
  | nil => rfl
  | cons t ts ih =>
    have ht := h t (by simp)
    have ih := ih fun u hu => h u (List.mem_cons_of_mem _ hu)
    cases ts with
    | nil => simpa [Hint.textList, textList] using ht
    | cons u us => simpa [Hint.textList, textList, ht] using ih

/-- The text of a type is that of its hint. -/
theorem text_hint {t : Ty} (h : t.Proper) : t.hint.text = t.text := by
  induction t using inductionOn with
  | primitive k => cases k <;> rfl
  | literal v => rw [hint, text_ofLiterals, commas_singleton, text]
  | never => rfl
  | container c e v ih => rw [hint, Hint.text, Hint.textList, ih h.element, text]
  | callable ps t ihp iht =>
    have hps := textList_hint fun p hp => ihp p hp (h.param hp)
    have hsep : "], " = "]" ++ ", " := rfl
    have hopen : "Callable[[" = "Callable[" ++ "[" := rfl
    simp only [hint, hintList_eq_map, Hint.text, Hint.textList, hps, iht h.ret, text, hsep, hopen, String.append_assoc]
    rfl
  | union ts ih =>
    obtain ⟨a, as, ha⟩ := exists_alternatives [] h.ne_nil
    have htails := tails_alternatives [] ts (by simp [Uniform]) fun t ht => ih t ht (h.member ht)
    rw [ha, tails, openText, gapOf, String.empty_append, textMembers_complete h.ne_nil, String.append_assoc,
      String.append_right_inj] at htails
    rw [hint, ha, text_ofAlternatives, htails, text]

end Ty

end AnnotationChecker
