import AnnotationChecker.Hint
/-!
# Plain hints

Two hints that read the same differ in the places of their nodes, and in how their chains of `|` are
grouped. The plain form of a hint has neither: every place is the same one, and every chain is grouped from
the left, which is how its text is read.
-/

namespace AnnotationChecker.Hint

/-- Induction on a hint, with the claim for every argument and every item. -/
@[elab_as_elim]
theorem inductionOn {P : Hint → Prop} (h : Hint) (name : ∀ s n, P (.name s n))
    (subscript : ∀ s b args, (∀ h ∈ args, P h) → P (.subscript s b args))
    (list : ∀ s items, (∀ h ∈ items, P h) → P (.list s items)) (or : ∀ s l r, P l → P r → P (.or s l r))
    (const : ∀ s c, P (.const s c)) : P h := by
  -- the arguments are smaller than the hint, but they are not parts of it that `induction` knows
  induction hn : sizeOf h using Nat.strongRecOn generalizing h with
  | _ n ih =>
    cases h with
    | name s n => exact name s n
    | const s c => exact const s c
    | subscript s b args =>
      refine subscript s b args (fun h hh => ih _ ?_ h rfl)
      have := List.sizeOf_lt_of_mem hh
      simp only [Hint.subscript.sizeOf_spec] at hn
      omega
    | list s items =>
      refine list s items (fun h hh => ih _ ?_ h rfl)
      have := List.sizeOf_lt_of_mem hh
      simp only [Hint.list.sizeOf_spec] at hn
      omega
    | or s l r =>
      simp only [Hint.or.sizeOf_spec] at hn
      exact or s l r (ih _ (by omega) l rfl) (ih _ (by omega) r rfl)

/-! ## Chains -/

/-- The place of every node of a plain hint. -/
def nowhere : Span := .point 1 1

/-- A chain of `|` that goes on with those of a second one, grouped from the left. -/
def chained (left : Hint) : Hint → Hint
  | .or _ l r => .or nowhere (chained left l) r
  | h => .or nowhere left h

theorem chained_assoc (a b c : Hint) : chained a (chained b c) = chained (chained a b) c := by
  induction c using inductionOn with
  | or s l r ihl _ => simp only [chained, ihl]
  | _ => simp only [chained]

@[simp] theorem text_chained (a b : Hint) : text (chained a b) = text a ++ " | " ++ text b := by
  induction b using inductionOn with
  | or s l r ihl _ => simp only [chained, text, ihl, String.append_assoc]
  | _ => simp only [chained, text]

/-- The parts of a chain of `|`, in their order. -/
def atoms : Hint → List Hint
  | .or _ l r => l.atoms ++ r.atoms
  | h => [h]

/-- A hint that is no chain. -/
def IsAtom (h : Hint) : Prop := h.atoms = [h]

/-- A chain starts with a part. -/
theorem exists_atoms (h : Hint) : ∃ a as, h.atoms = a :: as := by
  induction h using inductionOn with
  | or s l r ihl ihr =>
    obtain ⟨a, as, hl⟩ := ihl
    exact ⟨a, as ++ r.atoms, by simp [atoms, hl]⟩
  | name s n => exact ⟨_, [], rfl⟩
  | subscript s b args _ => exact ⟨_, [], rfl⟩
  | list s items _ => exact ⟨_, [], rfl⟩
  | const s c => exact ⟨_, [], rfl⟩

/-! ## The plain form -/

mutual

/-- A hint without its places and with its chains grouped from the left. -/
def plain : Hint → Hint
  | .name _ n => .name nowhere n
  | .subscript _ b args => .subscript nowhere b (plainList args)
  | .list _ items => .list nowhere (plainList items)
  | .or _ l r => chained (plain l) (plain r)
  | .const _ c => .const nowhere c

/-- The plain form of each hint of a list. -/
def plainList : List Hint → List Hint
  | [] => []
  | h :: hs => plain h :: plainList hs

end

@[simp] theorem plainList_eq_map (hs : List Hint) : plainList hs = hs.map plain := by
  induction hs with
  | nil => rfl
  | cons h hs ih => simp [plainList, ih]

theorem textList_congr {f : Hint → Hint} {hs : List Hint} (h : ∀ a ∈ hs, text (f a) = text a) :
    textList (hs.map f) = textList hs := by
  induction hs with
  | nil => rfl
  | cons a hs ih =>
    have ha := h a (by simp)
    have ih := ih fun b hb => h b (List.mem_cons_of_mem _ hb)
    cases hs with
    | nil => simpa [textList] using ha
    | cons b hs => simpa [textList, ha] using ih

/-- The plain form of a hint has its text. -/
@[simp] theorem text_plain (h : Hint) : text h.plain = text h := by
  induction h using inductionOn with
  | name s n => rfl
  | const s c => rfl
  | or s l r ihl ihr => simp only [plain, text_chained, text, ihl, ihr]
  | subscript s b args ih => simp only [plain, plainList_eq_map, text, textList_congr ih]
  | list s items ih => simp only [plain, plainList_eq_map, text, textList_congr ih]

/-- A list of hints and their plain forms read the same. -/
@[simp] theorem textList_plain (hs : List Hint) : textList (hs.map plain) = textList hs :=
  textList_congr fun h _ => text_plain h

theorem chained_foldl (p q : Hint) (as : List Hint) :
    chained p (as.foldl (fun l r => chained l r.plain) q) =
      as.foldl (fun l r => chained l r.plain) (chained p q) := by
  induction as generalizing q with
  | nil => rfl
  | cons a as ih => rw [List.foldl_cons, ih, chained_assoc]; rfl

/-- The plain form of a chain is put together from the left. -/
theorem plain_eq_foldl {h a : Hint} {as : List Hint} (e : h.atoms = a :: as) :
    h.plain = as.foldl (fun l r => chained l r.plain) a.plain := by
  induction h using inductionOn generalizing a as with
  | or s l r ihl ihr =>
    obtain ⟨x, xs, hl⟩ := exists_atoms l
    obtain ⟨y, ys, hr⟩ := exists_atoms r
    simp only [atoms, hl, hr, List.cons_append, List.cons.injEq] at e
    obtain ⟨rfl, rfl⟩ := e
    -- the right half is a fold of its own, which `chained` moves behind the left one
    rw [plain, ihl hl, ihr hr, chained_foldl, List.foldl_append, List.foldl_cons]
  | _ =>
    simp only [atoms, List.cons.injEq] at e
    obtain ⟨rfl, rfl⟩ := e
    rfl

end AnnotationChecker.Hint
