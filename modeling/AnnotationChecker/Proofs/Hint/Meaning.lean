import AnnotationChecker.Hint.Meaning
import AnnotationChecker.Proofs.Hint.Plain
import AnnotationChecker.Proofs.Ty.Union
import AnnotationChecker.Proofs.Checker.Success
/-!
# What the meaning of a hint depends on

What a hint stands for has every property that the forms of hints pass on (`Inherited.meaning`). The meaning of
a hint is that of its plain form: places do not matter, and neither does the grouping of a chain, since joining
types is associative on those that hints stand for.
-/

namespace AnnotationChecker.Hint

open Checker (bind_eq_ok)

variable {r : Registry}

/-! ## The meaning of each form -/

theorem meaning_name (s : Span) (n : String) : meaning r (.name s n) = named r (stripModule n) := rfl

theorem meaning_list (s : Span) (items : List Hint) :
    meaning r (.list s items) = .error (.strayList ("[" ++ textList items ++ "]")) := rfl

theorem meaning_or (s : Span) (a b : Hint) :
    meaning r (.or s a b) = (do
      let t ← meaning r a
      let u ← meaning r b
      .ok (.join [t, u])) := rfl

theorem meanings_cons (h : Hint) (hs : List Hint) :
    meanings r (h :: hs) = (do
      let t ← meaning r h
      let ts ← meanings r hs
      .ok (t :: ts)) := rfl

/-- The parameter types that the first argument of a callable stands for. -/
def paramTypes (r : Registry) : Hint → Except HintFault (List Ty)
  | .list _ ps => meanings r ps
  | h => .error (.paramsNotList (text h))

theorem meaning_union {s : Span} {base : String} (hb : Form.ofBase (stripModule base) = .union) (args : List Hint) :
    meaning r (.subscript s base args) = (do
      let ts ← meanings r args
      .ok (.join ts)) := by
  conv_lhs => unfold meaning
  rw [hb]

theorem meaning_optional {s : Span} {base : String} (hb : Form.ofBase (stripModule base) = .optional) (h : Hint) :
    meaning r (.subscript s base [h]) = (do
      let t ← meaning r h
      .ok t.optional) := by
  conv_lhs => unfold meaning
  rw [hb]

theorem meaning_callable {s : Span} {base : String} (hb : Form.ofBase (stripModule base) = .callable)
    (params ret : Hint) :
    meaning r (.subscript s base [params, ret]) = (do
      let ts ← paramTypes r params
      let t ← meaning r ret
      .ok (.callable ts t)) := by
  conv_lhs => unfold meaning
  rw [hb]
  cases params <;> rfl

theorem meaning_literal {s : Span} {base : String} (hb : Form.ofBase (stripModule base) = .literal) (args : List Hint) :
    meaning r (.subscript s base args) = literalUnion args := by
  unfold meaning
  rw [hb]

theorem meaning_generic {s : Span} {base ctor : String} {spec : ContainerSpec}
    (hb : Form.ofBase (stripModule base) = .generic) (hr : r.resolve? (stripModule base) = some (ctor, spec))
    (h : Hint) :
    meaning r (.subscript s base [h]) = (do
      let t ← meaning r h
      .ok (.container ctor t spec.variance)) := by
  conv_lhs => unfold meaning
  rw [hb, hr]

theorem meanings_append (hs ks : List Hint) :
    meanings r (hs ++ ks) = (do
      let ts ← meanings r hs
      let us ← meanings r ks
      .ok (ts ++ us)) := by
  induction hs with
  | nil => cases h : meanings r ks <;> simp [meanings, h, bind, Except.bind]
  | cons h hs ih =>
    rw [List.cons_append, meanings_cons, meanings_cons, ih]
    cases meaning r h <;> cases meanings r hs <;> cases meanings r ks <;> rfl

theorem meanings_append_of_ok {hs ks : List Hint} {ts us : List Ty} (hts : meanings r hs = .ok ts)
    (hus : meanings r ks = .ok us) : meanings r (hs ++ ks) = .ok (ts ++ us) := by
  rw [meanings_append, hts, hus]
  rfl

/-! ## What hints stand for -/

/-- A property of types that every form of a hint passes on from the types of its parts to its own. -/
structure Inherited (r : Registry) (P : Ty → Prop) : Prop where
  primitive (k : Primitive) : P (.primitive k)
  literal (v : Literal) : P (.literal v)
  never : P .never
  join {ts : List Ty} : (∀ t ∈ ts, P t) → P (.join ts)
  callable {ps : List Ty} {t : Ty} : (∀ p ∈ ps, P p) → P t → P (.callable ps t)
  container {name ctor : String} {spec : ContainerSpec} {t : Ty} : r.resolve? name = some (ctor, spec) → P t →
    P (.container ctor t spec.variance)

namespace Inherited

variable {P : Ty → Prop}

theorem named (hP : Inherited r P) {n : String} {t : Ty} (h : named r n = .ok t) : P t := by
  unfold Hint.named at h
  split at h
  · cases h
    exact hP.primitive _
  · split at h
    · cases h
      exact hP.never
    · repeat (split at h; · cases h)
      cases h

theorem literalTypes (hP : Inherited r P) {k : Option Primitive} {vs : List (Option Literal)} {ts : List Ty}
    (h : literalTypes k vs = .ok ts) : ∀ t ∈ ts, P t := by
  induction vs generalizing k ts with
  | nil =>
    simp only [Hint.literalTypes, Except.ok.injEq] at h
    simp [← h]
  | cons v vs ih =>
    cases v with
    | none =>
      rw [Hint.literalTypes, bind_eq_ok] at h
      obtain ⟨us, hus, h⟩ := h
      cases h
      exact List.forall_mem_cons.2 ⟨hP.primitive .none, ih hus⟩
    | some v =>
      cases k with
      | none =>
        rw [Hint.literalTypes, bind_eq_ok] at h
        obtain ⟨us, hus, h⟩ := h
        cases h
        exact List.forall_mem_cons.2 ⟨hP.literal v, ih hus⟩
      | some k =>
        rw [Hint.literalTypes] at h
        split at h
        · obtain ⟨us, hus, h⟩ := bind_eq_ok.1 h
          cases h
          exact List.forall_mem_cons.2 ⟨hP.literal v, ih hus⟩
        · cases h

theorem literalUnion (hP : Inherited r P) {args : List Hint} {t : Ty} (h : literalUnion args = .ok t) : P t := by
  obtain ⟨vs, -, h⟩ := bind_eq_ok.1 h
  obtain ⟨ts, hts, h⟩ := bind_eq_ok.1 h
  cases h
  exact hP.join (hP.literalTypes hts)

theorem meanings {hs : List Hint} {ts : List Ty} (hm : meanings r hs = .ok ts)
    (ih : ∀ h ∈ hs, ∀ t, meaning r h = .ok t → P t) : ∀ t ∈ ts, P t := by
  induction hs generalizing ts with
  | nil =>
    simp only [Hint.meanings, Except.ok.injEq] at hm
    simp [← hm]
  | cons h hs ihs =>
    rw [meanings_cons, bind_eq_ok] at hm
    obtain ⟨t, ht, hm⟩ := hm
    obtain ⟨us, hus, hm⟩ := bind_eq_ok.1 hm
    cases hm
    exact List.forall_mem_cons.2 ⟨ih h (by simp) t ht, ihs hus fun a ha => ih a (List.mem_cons_of_mem _ ha)⟩

theorem subscript (hP : Inherited r P) {s : Span} {base : String} {args : List Hint} {t : Ty}
    (ih : ∀ h ∈ args, (∀ t, meaning r h = .ok t → P t) ∧ ∀ ts, paramTypes r h = .ok ts → ∀ t ∈ ts, P t)
    (hm : meaning r (.subscript s base args) = .ok t) : P t := by
  have hm' := hm
  unfold Hint.meaning at hm
  split at hm
  · obtain ⟨ts, hts, hm⟩ := bind_eq_ok.1 hm
    cases hm
    exact hP.join (meanings hts fun a ha => (ih a ha).1)
  · split at hm
    · next h =>
      obtain ⟨u, hu, hm⟩ := bind_eq_ok.1 hm
      cases hm
      have hu' : P u := (ih h (by simp)).1 u hu
      have hn : P .none := hP.primitive .none
      exact hP.join (by simp [hu', hn])
    · cases hm
  · exact hP.literalUnion hm
  · next hb =>
    split at hm
    · next params ret =>
      rw [meaning_callable hb, bind_eq_ok] at hm'
      obtain ⟨ts, hts, hm'⟩ := hm'
      obtain ⟨u, hu, hm'⟩ := bind_eq_ok.1 hm'
      cases hm'
      exact hP.callable ((ih params (by simp)).2 ts hts) ((ih ret (by simp)).1 u hu)
    · cases hm
  · split at hm
    · next hr =>
      split at hm
      · next h =>
        obtain ⟨u, hu, hm⟩ := bind_eq_ok.1 hm
        cases hm
        exact hP.container hr ((ih h (by simp)).1 u hu)
      · cases hm
    · cases hm

/-- A list of parameters stands for no type by itself, so the claim for its items is carried along. -/
theorem meaning_and_paramTypes (hP : Inherited r P) (h : Hint) :
    (∀ t, meaning r h = .ok t → P t) ∧ ∀ ts, paramTypes r h = .ok ts → ∀ t ∈ ts, P t := by
  induction h using inductionOn with
  | name s n => exact ⟨fun t hm => hP.named hm, fun ts hm => by cases hm⟩
  | const s c =>
    refine ⟨fun t hm => ?_, fun ts hm => by cases hm⟩
    cases c with
    | none => cases hm; exact hP.primitive .none
    | _ => cases hm
  | list s items ih =>
    refine ⟨fun t hm => ?_, fun ts hm => meanings hm fun a ha => (ih a ha).1⟩
    cases hm
  | or s a b iha ihb =>
    refine ⟨fun t hm => ?_, fun ts hm => by cases hm⟩
    rw [meaning_or, bind_eq_ok] at hm
    obtain ⟨u, hu, hm⟩ := hm
    obtain ⟨v, hv, hm⟩ := bind_eq_ok.1 hm
    cases hm
    exact hP.join (by simp [iha.1 u hu, ihb.1 v hv])
  | subscript s base args ih => exact ⟨fun t hm => hP.subscript ih hm, fun ts hm => by cases hm⟩

/-- Every type that a hint stands for has the property. -/
theorem meaning (hP : Inherited r P) {h : Hint} {t : Ty} (hm : meaning r h = .ok t) : P t :=
  (hP.meaning_and_paramTypes h).1 t hm

end Inherited

theorem inherited_flat (r : Registry) : Inherited r Ty.Flat where
  primitive _ := Ty.IsMember.flat rfl
  literal _ := Ty.IsMember.flat rfl
  never := Ty.flat_never
  join := Ty.flat_join
  callable _ _ := Ty.IsMember.flat rfl
  container _ _ := Ty.IsMember.flat rfl

/-- The type of a hint has no union and no `Never` among its members. -/
theorem flat_meaning {h : Hint} {t : Ty} (hm : meaning r h = .ok t) : t.Flat := (inherited_flat r).meaning hm

/-! ## Plain forms -/

/-- A chain has the meaning of its two halves joined, wherever it is cut. -/
theorem meaning_chained (a b : Hint) : meaning r (chained a b) = meaning r (.or nowhere a b) := by
  induction b using inductionOn with
  | or s b c ih _ =>
    simp only [chained, meaning_or, ih]
    cases ha : meaning r a with
    | error f => rfl
    | ok t =>
      cases hb : meaning r b with
      | error f => rfl
      | ok u =>
        cases hc : meaning r c with
        | error f => rfl
        | ok v =>
          -- both halves have a type, so the grouping is a matter of joining flat types
          have hj := Ty.join_assoc (flat_meaning ha) (flat_meaning hb) (flat_meaning hc)
          simp only [bind, Except.bind, hj]
  | _ => rfl

theorem constants_chained (a b : Hint) :
    constants (chained a b) = .error (.notConstant (text a ++ " | " ++ text b)) := by
  have ht := text_chained a b
  cases b with
  | or s b c =>
    simp only [chained, text] at ht ⊢
    simp only [constants, text, ht]
  | _ => simp only [chained, text, constants]

theorem constantsList_congr {f : Hint → Hint} {hs : List Hint} (h : ∀ a ∈ hs, constants (f a) = constants a) :
    constantsList (hs.map f) = constantsList hs := by
  induction hs with
  | nil => rfl
  | cons a hs ih =>
    simp only [List.map_cons, constantsList, h a (by simp), ih fun b hb => h b (List.mem_cons_of_mem _ hb)]

theorem constants_plain (h : Hint) : constants h.plain = constants h := by
  induction h using inductionOn with
  | name s n => rfl
  | const s c => cases c <;> rfl
  | or s a b => simp only [plain, constants_chained, text_plain, constants, text]
  | list s items => simp only [plain, plainList_eq_map, constants, text, textList_plain]
  | subscript s base args ih =>
    simp only [plain, plainList_eq_map, constants, text, textList_plain, constantsList_congr ih]

theorem meanings_congr {f : Hint → Hint} {hs : List Hint} (h : ∀ a ∈ hs, meaning r (f a) = meaning r a) :
    meanings r (hs.map f) = meanings r hs := by
  induction hs with
  | nil => rfl
  | cons a hs ih =>
    simp only [List.map_cons, meanings_cons, h a (by simp), ih fun b hb => h b (List.mem_cons_of_mem _ hb)]

theorem paramTypes_chained (a b : Hint) :
    paramTypes r (chained a b) = .error (.paramsNotList (text a ++ " | " ++ text b)) := by
  rw [← text_chained]
  cases b <;> rfl

/-- As the whole of a hint and as a parameter list, a hint means what its plain form means. -/
theorem meaning_plain_and_paramTypes (h : Hint) :
    meaning r h.plain = meaning r h ∧ paramTypes r h.plain = paramTypes r h := by
  induction h using inductionOn with
  | name s n => exact ⟨rfl, rfl⟩
  | const s c => cases c <;> exact ⟨rfl, rfl⟩
  | list s items ih =>
    have hms : meanings r (items.map plain) = meanings r items := meanings_congr fun h hh => (ih h hh).1
    constructor
    · simp only [plain, plainList_eq_map, meaning_list, textList_plain]
    · simp only [plain, plainList_eq_map, paramTypes, hms]
  | or s a b iha ihb =>
    constructor
    · simp only [plain, meaning_chained, meaning_or, iha.1, ihb.1]
    · rw [plain, paramTypes_chained, text_plain, text_plain]
      rfl
  | subscript s base args ih =>
    -- every form looks at its arguments in another way: as types, as constants, or as a parameter list
    have hms : meanings r (args.map plain) = meanings r args := meanings_congr fun h hh => (ih h hh).1
    have hcs : constantsList (args.map plain) = constantsList args := constantsList_congr fun a _ => constants_plain a
    refine ⟨?_, by simp only [plain, plainList_eq_map, paramTypes, text, textList_plain]⟩
    rw [plain, plainList_eq_map]
    cases hb : Form.ofBase (stripModule base) with
    | union => unfold meaning; simp only [hb, hms]
    | literal => unfold meaning; simp only [hb, literalUnion, hcs]
    | callable =>
      rcases args with _ | ⟨p, _ | ⟨t, _ | ⟨a, args⟩⟩⟩
      · unfold meaning; rfl
      · unfold meaning; rw [hb]; rfl
      · simp only [List.map_cons, List.map_nil, meaning_callable hb, (ih p (by simp)).2, (ih t (by simp)).1]
      · unfold meaning; simp only [hb, List.map_cons, List.length_cons, List.length_map]
    | optional | generic =>
      unfold meaning
      rcases args with _ | ⟨h, _ | ⟨a, args⟩⟩
      · rfl
      · simp only [hb, List.map_cons, List.map_nil, (ih h (by simp)).1]
      · simp only [hb, List.map_cons, List.length_cons, List.length_map]

/-- A hint has the meaning of its plain form. -/
theorem meaning_plain (h : Hint) : meaning r h.plain = meaning r h :=
  (meaning_plain_and_paramTypes h).1

end AnnotationChecker.Hint
