import Mathlib.Data.List.Chain
import AnnotationChecker.Proofs.Hint.Grammar
/-!
# How high expressions and hints are

The levels of an expression bound its height (`Expr.Derives.height_le`). The levels of a hint do not: a `|` takes its
level when the part to the left of it is read already, so what stands on the left may use all of the levels by itself
and still ends up deeper than that. Where no `|` stands behind a bracket the parts on the left are single names and
constants, and the levels bound the height again (`Hint.Derives.height_le`). Everywhere else they bound it by a
triangular number (`Hint.Derives.height_le_triangular`), and some hint is as high as that (`Hint.exists_highest`).
-/

namespace AnnotationChecker

/-- Every item of a list is derived by a stretch of its tokens, over no more levels. -/
theorem Separated.exists_of_mem {α : Type} {L : Language α} {ts : List Token} {n : Nat} {as : List α} {a : α}
    (h : Separated L ts n as) (ha : a ∈ as) : ∃ us m, us <:+: ts ∧ m ≤ n ∧ L us m a := by
  induction h with
  | nil => cases ha
  | last hd =>
    obtain rfl := List.mem_singleton.1 ha
    exact ⟨_, _, List.infix_rfl, Nat.le_refl _, hd⟩
  | @cons ts us s n m b as hd _ ih =>
    rcases List.mem_cons.1 ha with rfl | ha
    · exact ⟨_, _, (List.prefix_append _ _).isInfix, Nat.le_max_left _ _, hd⟩
    · obtain ⟨vs, l, hvs, hl, hd⟩ := ih ha
      have hus : us <:+: ts ++ ⟨.mark .comma, s⟩ :: us := ⟨ts ++ [⟨.mark .comma, s⟩], [], by simp⟩
      exact ⟨vs, l, hvs.trans hus, Nat.le_trans hl (Nat.le_max_right _ _), hd⟩

/-- What stands behind two tokens is a stretch of them all. -/
theorem infix_behind (t u : Token) (ts : List Token) : ts <:+: t :: u :: ts := ⟨[t, u], [], by simp⟩

/-- What stands between two tokens is a stretch of them all. -/
theorem infix_enclosed (t u : Token) (ts : List Token) : ts <:+: t :: (ts ++ [u]) := ⟨[t], [u], rfl⟩

/-- What stands between brackets behind a name is a stretch of them all. -/
theorem infix_arguments (t u v : Token) (ts us : List Token) : us <:+: t :: (ts ++ u :: (us ++ [v])) :=
  ⟨t :: (ts ++ [u]), [v], by simp⟩

/-! ## Expressions -/

namespace Expr

mutual

/-- How many nodes there are on the longest way down. -/
def height : Expr → Nat
  | .list _ items => heightList items + 1
  | .call _ _ args => heightList args + 1
  | _ => 1

/-- How high the highest of them is. -/
def heightList : List Expr → Nat
  | [] => 0
  | e :: es => max (height e) (heightList es)

end

theorem heightList_le {es : List Expr} {n : Nat} (h : ∀ e ∈ es, e.height ≤ n) : heightList es ≤ n := by
  induction es with
  | nil => exact Nat.zero_le _
  | cons e es ih =>
    rw [heightList]
    exact Nat.max_le.2 ⟨h e (by simp), ih fun e he => h e (by simp [he])⟩

@[simp] theorem height_withSpan (s : Span) (e : Expr) : (e.withSpan s).height = e.height := by
  cases e <;> simp [withSpan, height]

/-- A form is at most one higher than the expressions inside of it. -/
theorem Form.height_le {ts : List Token} {n b : Nat} {make : Span → Expr} (hf : Form ts n make)
    (hinside : ∀ us m e, m ≤ n → Derives us m e → e.height ≤ b) (s : Span) : (make s).height ≤ b + 1 := by
  have hitems : ∀ {us es}, Separated Derives us n es → heightList es ≤ b := fun hes =>
    heightList_le fun e he => by
      obtain ⟨vs, m, -, hm, hd⟩ := hes.exists_of_mem he
      exact hinside vs m e hm hd
  cases hf with
  | single hl => cases hl <;> simp [height]
  | negative hnum => cases hnum <;> simp [height]
  | str | name => simp [height]
  | list hes | call hes => simpa [height] using hitems hes
  | paren hd =>
    rw [height_withSpan]
    exact Nat.le_succ_of_le (hinside _ _ _ (Nat.le_refl _) hd)

/-- **The levels of an expression bound its height.** -/
theorem Derives.height_le {n : Nat} {ts : List Token} {e : Expr} (h : Derives ts n e) : e.height ≤ n := by
  induction n using Nat.strongRecOn generalizing ts e with
  | _ n ih =>
    obtain @⟨_, n, make, hf⟩ := h
    exact hf.height_le (fun us m e hm hd => Nat.le_trans (ih m (Nat.lt_succ_of_le hm) hd) hm) _

end Expr

/-! ## Hints -/

/-- No `|` stands directly behind a bracket or a parenthesis that closes. -/
def OpenBeforePipe (ts : List Token) : Prop :=
  ts.IsChain fun t u => u.kind = .mark .pipe → t.kind ≠ .mark .rightBracket ∧ t.kind ≠ .mark .rightParen

instance (ts : List Token) : Decidable (OpenBeforePipe ts) := inferInstanceAs (Decidable (List.IsChain _ ts))

theorem OpenBeforePipe.mono {ts us : List Token} (h : OpenBeforePipe ts) (hus : us <:+: ts) : OpenBeforePipe us :=
  List.IsChain.infix h hus

namespace Hint

mutual

/-- How many nodes there are on the longest way down. -/
def height : Hint → Nat
  | .subscript _ _ args => heightList args + 1
  | .list _ items => heightList items + 1
  | .or _ l r => max (height l) (height r) + 1
  | .name _ _ | .const _ _ => 1

/-- How high the highest of them is. -/
def heightList : List Hint → Nat
  | [] => 0
  | h :: hs => max (height h) (heightList hs)

end

theorem heightList_le {hs : List Hint} {n : Nat} (h : ∀ x ∈ hs, x.height ≤ n) : heightList hs ≤ n := by
  induction hs with
  | nil => exact Nat.zero_le _
  | cons x hs ih =>
    rw [heightList]
    exact Nat.max_le.2 ⟨h x (by simp), ih fun x hx => h x (by simp [hx])⟩

@[simp] theorem height_withSpan (s : Span) (h : Hint) : (h.withSpan s).height = h.height := by
  cases h <;> simp [withSpan, height]

variable {ts : List Token} {k n b : Nat} {h : Hint} {make : Span → Hint}

/-- A part is at most one higher than the hints inside of it. -/
theorem AtomForm.height_le (hf : AtomForm ts n make)
    (hinside : ∀ us m h, us <:+: ts → m ≤ n → Derives us m h → h.height ≤ b) (s : Span) :
    (make s).height ≤ b + 1 := by
  have hitems : ∀ {us hs}, us <:+: ts → Separated Derives us n hs → heightList hs ≤ b := fun hus hhs =>
    heightList_le fun h hh => by
      obtain ⟨vs, m, hvs, hm, hd⟩ := hhs.exists_of_mem hh
      exact hinside vs m h (hvs.trans hus) hm hd
  cases hf with
  | name | const => simp [height]
  | subscript _ hargs => simpa [height] using hitems (infix_arguments _ _ _ _ _) hargs
  | list hs => simpa [height] using hitems (infix_enclosed _ _ _) hs
  | paren hd =>
    rw [height_withSpan]
    exact Nat.le_succ_of_le (hinside _ _ _ (infix_enclosed _ _ _) (Nat.le_refl _) hd)

/-- Every `|` adds one to the highest part. -/
theorem Chained.height_le {A : Language Hint} (hc : Chained A ts k n h)
    (hparts : ∀ us m h, m ≤ n → A us m h → h.height ≤ b) : h.height ≤ b + k := by
  induction hc with
  | first ha => exact hparts _ _ _ (Nat.le_refl _) ha
  | pipe _ ha ih =>
    have hleft := ih fun us m h hm => hparts us m h (Nat.le_trans hm (Nat.le_max_left _ _))
    have hright := hparts _ _ _ (by omega) ha
    rw [height]
    omega

/-- Only a name or a constant can stand in front of a `|` that is not behind a bracket. -/
theorem Atom.height_of_open {s : Span} (ha : Atom ts n h) (hts : OpenBeforePipe (ts ++ [⟨.mark .pipe, s⟩])) :
    h.height = 1 := by
  obtain ⟨hf⟩ := ha
  have hlast : ∀ {us m s'}, ts = us ++ [⟨.mark m, s'⟩] → m ≠ .rightBracket ∧ m ≠ .rightParen := by
    rintro us m s' rfl
    have hpair : OpenBeforePipe [⟨.mark m, s'⟩, ⟨.mark .pipe, s⟩] := hts.mono ⟨us, [], by simp⟩
    simpa [OpenBeforePipe] using hpair
  cases hf with
  | name | const => simp [height]
  | @subscript x b s s' s'' us vs =>
    have hend := @hlast (⟨.identifier x, s⟩ :: (us ++ ⟨.mark .leftBracket, s'⟩ :: vs)) .rightBracket s'' (by simp)
    exact absurd rfl hend.1
  | @list s _ us => exact absurd rfl (@hlast (⟨.mark .leftBracket, s⟩ :: us) .rightBracket _ rfl).1
  | @paren s _ us => exact absurd rfl (@hlast (⟨.mark .leftParen, s⟩ :: us) .rightParen _ rfl).2

/-- In front of a `|` that is not behind a bracket a chain is only as high as it is long. -/
theorem Chained.height_of_open {s : Span} (hc : Chained Atom ts k n h)
    (hts : OpenBeforePipe (ts ++ [⟨.mark .pipe, s⟩])) : h.height = k + 1 := by
  induction hc generalizing s with
  | first ha => exact ha.height_of_open hts
  | @pipe ts us s' k n m l r _ ha ih =>
    have hfront : OpenBeforePipe (ts ++ [⟨.mark .pipe, s'⟩]) := hts.mono ⟨[], us ++ [⟨.mark .pipe, s⟩], by simp⟩
    have hback : OpenBeforePipe (us ++ [⟨.mark .pipe, s⟩]) := hts.mono ⟨ts ++ [⟨.mark .pipe, s'⟩], [], by simp⟩
    have hleft := ih hfront
    have hright := ha.height_of_open hback
    rw [height, hleft, hright]
    omega

/-- **The levels of a hint bound its height where no `|` stands behind a bracket.** -/
theorem Derives.height_le (h' : Derives ts n h) (hts : OpenBeforePipe ts) : h.height ≤ n := by
  induction n using Nat.strongRecOn generalizing ts h with
  | _ n ih =>
    -- a part that is within the levels, whether it is the only one or the last one
    have hpart : ∀ {us m r}, us <:+: ts → m ≤ n → Atom us m r → r.height ≤ m := by
      rintro us _ _ hus hm @⟨_, m, make, hf⟩
      refine hf.height_le (fun vs l h hvs hl hd => ?_) _
      exact Nat.le_trans (ih l (by omega) hd (hts.mono (hvs.trans hus))) hl
    obtain ⟨hc⟩ := h'
    cases hc with
    | first ha => exact hpart List.infix_rfl (Nat.le_refl _) ha
    | @pipe ts us s k n m l r hl ha =>
      have hfront : OpenBeforePipe (ts ++ [⟨.mark .pipe, s⟩]) := hts.mono ⟨[], us, by simp⟩
      have hleft := hl.height_of_open hfront
      have hright : r.height ≤ m := hpart ⟨ts ++ [⟨.mark .pipe, s⟩], [], by simp⟩ (by omega) ha
      have hpos : 0 < m := by
        cases ha
        exact Nat.succ_pos _
      rw [height, hleft]
      omega

/-- The sum of the numbers up to a given one. -/
def triangular : Nat → Nat
  | 0 => 0
  | n + 1 => triangular n + (n + 1)

theorem triangular_le {m n : Nat} (h : m ≤ n) : triangular m ≤ triangular n := by
  induction h with
  | refl => exact Nat.le_refl _
  | step _ ih =>
    rw [triangular]
    omega

/-- **How high a hint can be.** A chain of the highest parts has as many `|` as there are levels left. -/
theorem Derives.height_le_triangular (h' : Derives ts n h) : h.height ≤ triangular n := by
  induction n using Nat.strongRecOn generalizing ts h with
  | _ n ih =>
    obtain @⟨_, k, _, _, hc⟩ := h'
    have hk := hc.lt
    obtain ⟨n, rfl⟩ : ∃ m, n = m + 1 := ⟨n - 1, by omega⟩
    have hparts : ∀ us m h, m ≤ n + 1 → Atom us m h → h.height ≤ triangular n + 1 := by
      rintro us _ _ hm ⟨hf⟩
      refine hf.height_le (fun us m h _ hm' hd => ?_) _
      exact Nat.le_trans (ih m (by omega) hd) (triangular_le (by omega))
    have hle := hc.height_le hparts
    rw [triangular]
    omega

/-- A part can be followed by names, one higher with each of them. -/
theorem Atom.exists_chained (ha : Atom ts n h) (k : Nat) :
    ∃ us h', Chained Atom us k (max n (k + 1)) h' ∧ h'.height = h.height + k := by
  induction k with
  | zero =>
    have hpos := (Chained.first ha).lt
    exact ⟨ts, h, by rw [Nat.max_eq_left hpos]; exact .first ha, rfl⟩
  | succ k ih =>
    obtain ⟨us, l, hl, hheight⟩ := ih
    have hname : Atom [⟨.identifier "x", .point 1 1⟩] 1 (.name (.point 1 1) "x") := .form (.name .nil)
    have hc := hl.pipe (s := .point 1 1) hname
    rw [Nat.max_assoc, Nat.max_eq_right (Nat.le_succ (k + 1))] at hc
    have hpos : 1 ≤ l.height := by cases l <;> simp [height]
    refine ⟨_, _, hc, ?_⟩
    rw [height, height, Nat.max_eq_left hpos, hheight, Nat.add_assoc]

/-- No smaller number bounds the height of what has so many levels. -/
theorem exists_derives_triangular (n : Nat) : ∃ ts h, Derives ts (n + 1) h ∧ h.height = triangular (n + 1) := by
  induction n with
  | zero => exact ⟨_, _, .chain (.first (.form (@AtomForm.name "x" _ (.point 1 1) _ .nil))), rfl⟩
  | succ n ih =>
    obtain ⟨ts, h, hd, hheight⟩ := ih
    have hlist : Atom (⟨.mark .leftBracket, .point 1 1⟩ :: (ts ++ [⟨.mark .rightBracket, .point 1 1⟩])) (n + 2) _ :=
      .form (.list (.last hd))
    obtain ⟨us, h', hc, hle⟩ := hlist.exists_chained (n + 1)
    refine ⟨us, h', .chain (Nat.max_self (n + 2) ▸ hc), ?_⟩
    rw [hle]
    simp only [height, heightList, hheight, triangular]
    omega

/-- Some tokens are read as a hint that is as high as a hint can be. -/
theorem exists_highest : ∃ ts h c', parser ⟨ts, .point 1 1, 0⟩ = .ok h c' ∧ h.height = triangular maxNesting := by
  obtain ⟨ts, h, hd, hheight⟩ := exists_derives_triangular 63
  have htakes : Cursor.Takes ⟨ts, .point 1 1, 0⟩ ts ⟨[], lastSpan (.point 1 1) ts, 0⟩ :=
    ⟨(List.append_nil ts).symm, rfl, rfl⟩
  have hends : ¬ GoesOn ts .eof := not_goesOn (by simp) (by simp) (by simp)
  exact ⟨ts, h, _, (parser_recognizes _).complete ts _ h _ htakes hd (Nat.le_refl _) hends, hheight⟩

end Hint

end AnnotationChecker
