import AnnotationChecker.Proofs.Hint.Height
import AnnotationChecker.Proofs.Token.Kinds
/-!
# Hints that come from a text

A hint that is derived by tokens of a text is a written one (`Hint.Derives.written`): words make up its names, its
subscripts have arguments, and its integers have 63 bits without their signs. A written hint without floats is legible,
and what its own text is cut into depends on its constants only: no number in it has too many digits
(`Hint.Written.toNat_lt`), and unless a text in it has a character that is written by its number, every token is read
back as it is (`Hint.map_reread_kinds`).
-/

namespace AnnotationChecker

/-! ## Names -/

theorem IsWord.ne_dot {cs : List Char} (h : IsWord cs) : ∀ e ∈ cs, (e == '.') = false := by
  obtain ⟨start, chars, -⟩ := h
  intro e he
  rw [beq_eq_false_iff_ne]
  rintro rfl
  rcases List.mem_cons.1 he with rfl | he
  · exact absurd start (by decide)
  · exact absurd (chars _ he) (by decide)

theorem IsWord.isName {n : String} (h : IsWord n.toList) : IsName n := by
  have hparts : nameParts n = [n.toList] := List.splitOnP_eq_singleton h.ne_dot
  rw [IsName, hparts]
  exact List.forall_mem_singleton.2 h

/-- A name can be put behind a word and a dot. -/
theorem IsName.behind {w n : String} (hw : IsWord w.toList) (hn : IsName n) : IsName (w ++ ("." ++ n)) := by
  have hparts : nameParts (w ++ ("." ++ n)) = w.toList :: nameParts n := by
    rw [nameParts, String.toList_append, String.toList_append]
    exact List.splitOnP_append_cons_of_forall_mem hw.ne_dot '.' rfl n.toList
  rw [IsName, hparts]
  exact List.forall_mem_cons.2 ⟨hw, hn⟩

theorem DottedTail.isName {ts : List Token} {x b : String} (h : DottedTail ts b) (hx : IsWord x.toList)
    (lexed : ∀ t ∈ ts, t.kind.IsLexed) : IsName (x ++ b) := by
  induction h generalizing x with
  | nil =>
    rw [String.append_empty]
    exact hx.isName
  | @cons y b s s' ts _ ih =>
    rw [List.forall_mem_cons, List.forall_mem_cons] at lexed
    rw [String.append_assoc]
    exact .behind hx (ih lexed.2.1 lexed.2.2)

/-! ## Constants -/

/-- A constant that is no integer, or one that has 63 bits without its sign. -/
def Const.IsSized (c : Const) : Prop := ∀ v, c = .int v → v.natAbs < Numeral.integerLimit

theorem Const.IsSized.toNat_lt {c : Const} (h : c.IsSized) {v : Int} (hv : .int v ∈ c.kinds) :
    v.toNat < Numeral.integerLimit := by
  obtain ⟨i, rfl, rfl⟩ := int_mem_kinds.1 hv
  exact h i rfl

theorem Const.reread_kinds {c : Const} (texts : ∀ v, c = .str v → Text.reread v = v) : ∀ k ∈ c.kinds, k.reread = k := by
  cases c with
  | int v => exact reread_int
  | str v => exact List.forall_mem_singleton.2 (congrArg TokenKind.string (texts v rfl))
  | _ => exact List.forall_mem_singleton.2 rfl

namespace Hint

mutual

/-- The constants in a hint, from the left. -/
def consts : Hint → List Const
  | .name _ _ => []
  | .subscript _ _ args => constsList args
  | .list _ items => constsList items
  | .or _ l r => consts l ++ consts r
  | .const _ c => [c]

/-- The constants in the hints of a list. -/
def constsList : List Hint → List Const
  | [] => []
  | h :: hs => consts h ++ constsList hs

end

theorem mem_constsList {c : Const} {hs : List Hint} : c ∈ constsList hs ↔ ∃ h ∈ hs, c ∈ h.consts := by
  induction hs with
  | nil => simp [constsList]
  | cons h hs ih => simp [constsList, ih]

theorem forall_mem_kindsList {P : TokenKind → Prop} (comma : P (.mark .comma)) {hs : List Hint}
    (ih : ∀ h ∈ hs, (∀ c ∈ h.consts, ∀ k ∈ c.kinds, P k) → ∀ k ∈ h.kinds, P k)
    (consts : ∀ c ∈ constsList hs, ∀ k ∈ c.kinds, P k) : ∀ k ∈ kindsList hs, P k := by
  intro k hk
  by_cases hcomma : k = .mark .comma
  · exact hcomma ▸ comma
  · obtain ⟨h, hh, hk⟩ := (mem_kindsList hcomma).1 hk
    exact ih h hh (fun c hc => consts c (mem_constsList.2 ⟨h, hh, hc⟩)) k hk

/-- What marks, names and the tokens of the constants have in common is true of every token of a hint. -/
theorem forall_mem_kinds {P : TokenKind → Prop} (mark : ∀ m, P (.mark m)) (name : ∀ n, P (.identifier n)) {h : Hint}
    (consts : ∀ c ∈ h.consts, ∀ k ∈ c.kinds, P k) : ∀ k ∈ h.kinds, P k := by
  have hname : ∀ n, ∀ k ∈ nameKinds n, P k := by
    intro n k hk
    rcases mem_nameKinds hk with rfl | ⟨w, rfl⟩
    · exact mark _
    · exact name w
  induction h using inductionOn with
  | name s n => exact hname n
  | const s c => exact consts c (List.mem_singleton.2 rfl)
  | or s l r ihl ihr =>
    rw [Hint.consts, List.forall_mem_append] at consts
    rw [kinds, List.forall_mem_append, List.forall_mem_cons]
    exact ⟨ihl consts.1, mark _, ihr consts.2⟩
  | list s items ih =>
    rw [kinds, List.forall_mem_cons, List.forall_mem_append, List.forall_mem_singleton]
    exact ⟨mark _, forall_mem_kindsList (mark .comma) ih consts, mark _⟩
  | subscript s b args ih =>
    rw [kinds, List.forall_mem_append, List.forall_mem_cons, List.forall_mem_append, List.forall_mem_singleton]
    exact ⟨hname b, mark _, forall_mem_kindsList (mark .comma) ih consts, mark _⟩

/-- The tokens of a hint whose texts survive being quoted are read back as they are. -/
theorem map_reread_kinds {h : Hint} (texts : ∀ v, .str v ∈ h.consts → Text.reread v = v) :
    h.kinds.map TokenKind.reread = h.kinds := by
  have hsame : ∀ k ∈ h.kinds, k.reread = k :=
    forall_mem_kinds (fun _ => rfl) (fun _ => rfl) fun c hc =>
      Const.reread_kinds fun v hv => texts v (hv ▸ hc)
  rw [List.map_congr_left hsame, List.map_id']

/-! ## Written hints -/

/-- A hint as it can come from a text. -/
inductive Written : Hint → Prop
  | name {s : Span} {n : String} (words : IsName n) : Written (.name s n)
  | subscript {s : Span} {base : String} {args : List Hint} (words : IsName base) (nonempty : args ≠ [])
      (all : ∀ h ∈ args, Written h) : Written (.subscript s base args)
  | list {s : Span} {items : List Hint} (all : ∀ h ∈ items, Written h) : Written (.list s items)
  | or {s : Span} {l r : Hint} (left : Written l) (right : Written r) : Written (.or s l r)
  | const {s : Span} {c : Const} (sized : c.IsSized) : Written (.const s c)

variable {ts : List Token} {k n : Nat} {h : Hint} {make : Span → Hint}

theorem Written.withSpan (hw : h.Written) (s : Span) : (h.withSpan s).Written := by
  cases hw with
  | name words => exact .name words
  | subscript words nonempty all => exact .subscript words nonempty all
  | list all => exact .list all
  | or left right => exact .or left right
  | const sized => exact .const sized

theorem Written.isSized_of_mem (hw : h.Written) {c : Const} (hc : c ∈ h.consts) : c.IsSized := by
  induction hw with
  | name => cases hc
  | const sized => exact List.mem_singleton.1 hc ▸ sized
  | or _ _ ihl ihr => exact (List.mem_append.1 hc).elim ihl ihr
  | list _ ih | subscript _ _ _ ih =>
    obtain ⟨x, hx, hc⟩ := mem_constsList.1 hc
    exact ih x hx hc

/-- No number in a written hint has too many digits. -/
theorem Written.toNat_lt (hw : h.Written) {v : Int} (hv : .int v ∈ h.kinds) : v.toNat < Numeral.integerLimit := by
  have hall : ∀ k ∈ h.kinds, ∀ v, k = .int v → v.toNat < Numeral.integerLimit := by
    refine forall_mem_kinds (fun m v => nofun) (fun n v => nofun) ?_
    rintro c hc _ hk v rfl
    exact (hw.isSized_of_mem hc).toNat_lt hk
  exact hall _ hv v rfl

theorem Written.legible (hw : h.Written) (noFloat : ∀ v, .float v ∉ h.consts) : h.Legible := by
  induction hw with
  | name words => exact .name words
  | const => exact .const fun v hv => noFloat v (List.mem_singleton.2 hv.symm)
  | or _ _ ihl ihr =>
    exact .or (ihl fun v hv => noFloat v (List.mem_append_left _ hv))
      (ihr fun v hv => noFloat v (List.mem_append_right _ hv))
  | list _ ih => exact .list fun x hx => ih x hx fun v hv => noFloat v (mem_constsList.2 ⟨x, hx, hv⟩)
  | subscript words nonempty _ ih =>
    exact .subscript words nonempty fun x hx => ih x hx fun v hv => noFloat v (mem_constsList.2 ⟨x, hx, hv⟩)

/-! ## Derived hints -/

theorem Constant.isSized {c : Const} (hc : Constant ts c) (lexed : ∀ t ∈ ts, t.kind.IsLexed) : c.IsSized := by
  rintro v rfl
  cases hc with
  | single hk =>
    cases hk
    obtain ⟨hpos, hlt⟩ := lexed _ (List.mem_singleton.2 rfl)
    omega
  | negative hk =>
    cases hk
    obtain ⟨hpos, hlt⟩ := lexed _ (List.mem_cons_of_mem _ (List.mem_singleton.2 rfl))
    omega

/-- A part is written when the hints inside of it are. -/
theorem AtomForm.written (hf : AtomForm ts n make) (lexed : ∀ t ∈ ts, t.kind.IsLexed)
    (hinside : ∀ us m h, us <:+: ts → m ≤ n → Derives us m h → h.Written) (s : Span) : (make s).Written := by
  have hitems : ∀ {us hs}, us <:+: ts → Separated Derives us n hs → ∀ h ∈ hs, h.Written := fun hus hhs h hh => by
    obtain ⟨vs, m, hvs, hm, hd⟩ := hhs.exists_of_mem hh
    exact hinside vs m h (hvs.trans hus) hm hd
  cases hf with
  | name hb =>
    rw [List.forall_mem_cons] at lexed
    exact .name (hb.isName lexed.1 lexed.2)
  | const hc => exact .const (hc.isSized lexed)
  | subscript hb hargs hne =>
    rw [List.forall_mem_cons, List.forall_mem_append] at lexed
    exact .subscript (hb.isName lexed.1 lexed.2.1) hne (hitems (infix_arguments _ _ _ _ _) hargs)
  | list hs => exact .list (hitems (infix_enclosed _ _ _) hs)
  | paren hd => exact (hinside _ _ _ (infix_enclosed _ _ _) (Nat.le_refl _) hd).withSpan _

theorem Chained.written {A : Language Hint} (hc : Chained A ts k n h)
    (hparts : ∀ us m h, us <:+: ts → m ≤ n → A us m h → h.Written) : h.Written := by
  induction hc with
  | first ha => exact hparts _ _ _ List.infix_rfl (Nat.le_refl _) ha
  | @pipe ts us s k n m l r _ ha ih =>
    have hts : ts <:+: ts ++ ⟨.mark .pipe, s⟩ :: us := (List.prefix_append _ _).isInfix
    have hus : us <:+: ts ++ ⟨.mark .pipe, s⟩ :: us := ⟨ts ++ [⟨.mark .pipe, s⟩], [], by simp⟩
    refine .or (ih fun vs l h hvs hl ha => ?_) (hparts us m r hus (by omega) ha)
    exact hparts vs l h (hvs.trans hts) (Nat.le_trans hl (Nat.le_max_left _ _)) ha

/-- **What tokens of a text derive is written.** -/
theorem Derives.written (hd : Derives ts n h) (lexed : ∀ t ∈ ts, t.kind.IsLexed) : h.Written := by
  -- the tokens of every hint inside are a stretch of the tokens, so they are tokens of a text too
  induction n using Nat.strongRecOn generalizing ts h with
  | _ n ih =>
    obtain ⟨hc⟩ := hd
    refine hc.written ?_
    rintro us _ _ hus hm ⟨hf⟩
    have hlexed : ∀ t ∈ us, t.kind.IsLexed := fun t ht => lexed t (hus.subset ht)
    exact hf.written hlexed (fun vs l h hvs hl hd =>
      ih l (by omega) hd fun t ht => hlexed t (hvs.subset ht)) _

end Hint

end AnnotationChecker
