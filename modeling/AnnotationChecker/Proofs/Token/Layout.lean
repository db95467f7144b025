import Mathlib.Order.MinMax
import AnnotationChecker.Proofs.Token.Derivation
import AnnotationChecker.Proofs.Token.Places
/-!
# Spans over tokens in order

A span lies in some tokens when it starts with one of them and ends with one of them (`Span.IsIn`). What lies in the
tokens before a token ends before what lies in those behind it starts (`Span.IsIn.before`), so parts that are separated
by tokens are disjoint and in order (`LaidOut.append`), and the span from the first token to the last one holds them
(`LaidOut.holds`).
-/

namespace AnnotationChecker

namespace InOrder

variable {t : Token} {ts us vs : List Token}

theorem of_append_left (h : InOrder (ts ++ us)) : InOrder ts := h.sublist (List.sublist_append_left ts us)

theorem of_append_right (h : InOrder (ts ++ us)) : InOrder us := h.sublist (List.sublist_append_right ts us)

theorem of_infix (h : InOrder ts) (hus : us <:+: ts) : InOrder us := h.sublist hus.sublist

/-- What comes before the last token ends before it. -/
theorem last_le_lastSpan (h : InOrder (t :: ts)) : ∀ u ∈ t :: ts, u.span.last ≤ (lastSpan t.span ts).last := by
  induction ts generalizing t with
  | nil => simp
  | cons u ts ih =>
    obtain ⟨hapart, -⟩ := List.pairwise_cons.1 h.apart
    have hrest : InOrder (u :: ts) := h.tail
    refine List.forall_mem_cons.2 ⟨?_, ih hrest⟩
    exact (hapart u (by simp)).trans ((hrest.proper u (by simp)).trans (ih hrest u (by simp)))

theorem first_le (h : InOrder (t :: ts)) : ∀ u ∈ t :: ts, t.span.first ≤ u.span.first := by
  obtain ⟨hlt, -⟩ := List.pairwise_cons.1 h.increasing
  exact List.forall_mem_cons.2 ⟨le_refl _, fun u hu => (hlt u hu).le⟩

end InOrder

theorem exists_lastSpan (t : Token) (ts : List Token) : ∃ u ∈ t :: ts, lastSpan t.span ts = u.span := by
  induction ts generalizing t with
  | nil => exact ⟨t, by simp, rfl⟩
  | cons u ts ih =>
    obtain ⟨v, hv, hspan⟩ := ih u
    exact ⟨v, List.mem_cons_of_mem _ hv, hspan⟩

namespace Span

variable {s s' : Span} {ts us : List Token}

theorem Covers.trans {t u : Span} (h : s.Covers t) (h' : t.Covers u) : s.Covers u :=
  ⟨h.first.trans h'.first, h'.last.trans h.last⟩

/-- A larger span holds the same parts. -/
theorem Holds.of_covers {parts : List Span} (h : s.Holds parts) (hs : s'.Covers s) : s'.Holds parts := by
  obtain ⟨hproper, hparts⟩ := List.forall_mem_cons.1 h.proper
  refine ⟨List.forall_mem_cons.2 ⟨?_, hparts⟩, fun t ht => hs.trans (h.covers t ht), h.ordered⟩
  exact hs.first.trans (hproper.trans hs.last)

/-- A span starts with one of the tokens and ends with one of them. -/
structure IsIn (ts : List Token) (s : Span) : Prop where
  proper : s.first ≤ s.last
  first : ∃ t ∈ ts, s.first = t.span.first
  last : ∃ t ∈ ts, s.last = t.span.last

namespace IsIn

theorem mono (h : IsIn us s) (hsub : us ⊆ ts) : IsIn ts s := by
  obtain ⟨hproper, ⟨t, ht, hfirst⟩, ⟨u, hu, hlast⟩⟩ := h
  exact ⟨hproper, ⟨t, hsub ht, hfirst⟩, ⟨u, hsub hu, hlast⟩⟩

/-- The span of a single token. -/
theorem token {t : Token} (h : InOrder ts) (ht : t ∈ ts) : IsIn ts t.span :=
  ⟨h.proper t ht, ⟨t, ht, rfl⟩, ⟨t, ht, rfl⟩⟩

theorem head {t : Token} (h : InOrder (t :: ts)) : IsIn [t] t.span :=
  .token (h.sublist (.cons_cons t (List.nil_sublist ts))) (by simp)

theorem merge (h : IsIn ts s) (h' : IsIn ts s') : IsIn ts (s.merge s') where
  proper := by
    rw [first_merge, last_merge]
    exact (min_le_left _ _).trans (h.proper.trans (le_max_left _ _))
  first := by
    rw [first_merge]
    rcases min_choice s.first s'.first with hmin | hmin <;> rw [hmin]
    · exact h.first
    · exact h'.first
  last := by
    rw [last_merge]
    rcases max_choice s.last s'.last with hmax | hmax <;> rw [hmax]
    · exact h.last
    · exact h'.last

/-- A token in between keeps two spans apart. -/
theorem before {t : Token} (h : IsIn us s) (hts : InOrder (us ++ t :: ts)) (h' : IsIn ts s') : s.Before s' := by
  obtain ⟨x, hx, hlast⟩ := h.last
  obtain ⟨y, hy, hfirst⟩ := h'.first
  obtain ⟨-, -, hacross⟩ := List.pairwise_append.1 hts.apart
  obtain ⟨hlater, -⟩ := List.pairwise_cons.1 hts.of_append_right.increasing
  show s.last < s'.first
  rw [hlast, hfirst]
  exact (hacross x hx t (by simp)).trans_lt (hlater y hy)

end IsIn

theorem covers_merge_left (s s' : Span) : (s.merge s').Covers s :=
  ⟨by rw [first_merge]; exact min_le_left _ _, by rw [last_merge]; exact le_max_left _ _⟩

theorem covers_merge_right (s s' : Span) : (s.merge s').Covers s' :=
  ⟨by rw [first_merge]; exact min_le_right _ _, by rw [last_merge]; exact le_max_right _ _⟩

end Span

section

variable {ts us : List Token} {s : Span}

theorem isIn_covering (h : InOrder ts) (hne : ts ≠ []) : (covering ts).IsIn ts := by
  obtain ⟨t, ts, rfl⟩ := List.exists_cons_of_ne_nil hne
  obtain ⟨u, hu, hlast⟩ := exists_lastSpan t ts
  rw [covering, hlast]
  exact (Span.IsIn.token h (by simp)).merge (.token h hu)

/-- What starts and ends within the tokens is covered by all of them. -/
theorem covers_covering (h : InOrder ts) (hs : s.IsIn ts) : (covering ts).Covers s := by
  obtain ⟨x, hx, hfirst⟩ := hs.first
  obtain ⟨y, hy, hlast⟩ := hs.last
  obtain ⟨t, ts, rfl⟩ := List.exists_cons_of_ne_nil (List.ne_nil_of_mem hx)
  constructor
  · rw [hfirst]
    exact (Span.covers_merge_left _ _).first.trans (h.first_le x hx)
  · rw [hlast]
    exact (h.last_le_lastSpan y hy).trans (Span.covers_merge_right _ _).last

theorem first_covering {t : Token} (h : InOrder (t :: ts)) : (covering (t :: ts)).first = t.span.first := by
  obtain ⟨u, hu, hlast⟩ := exists_lastSpan t ts
  rw [covering, Span.first_merge, hlast]
  exact min_eq_left (h.first_le u hu)

end

/-! ## Parts -/

/-- Parts lie in the tokens, each of them ends before the next one starts. -/
structure LaidOut (ts : List Token) (parts : List Span) : Prop where
  isIn : ∀ s ∈ parts, s.IsIn ts
  ordered : parts.Pairwise Span.Before

namespace LaidOut

variable {ts us : List Token} {parts others : List Span}

theorem nil (ts : List Token) : LaidOut ts [] := ⟨by simp, .nil⟩

theorem single {s : Span} (h : s.IsIn ts) : LaidOut ts [s] := ⟨by simpa using h, List.pairwise_singleton _ _⟩

theorem mono (h : LaidOut us parts) (hsub : us ⊆ ts) : LaidOut ts parts :=
  ⟨fun s hs => (h.isIn s hs).mono hsub, h.ordered⟩

/-- Parts on both sides of a token. -/
theorem append {t : Token} (hts : InOrder (us ++ t :: ts)) (h : LaidOut us parts) (h' : LaidOut ts others) :
    LaidOut (us ++ t :: ts) (parts ++ others) where
  isIn := List.forall_mem_append.2
    ⟨fun s hs => (h.isIn s hs).mono (by simp), fun s hs => (h'.isIn s hs).mono (by simp)⟩
  ordered := List.pairwise_append.2
    ⟨h.ordered, h'.ordered, fun s hs s' hs' => (h.isIn s hs).before hts (h'.isIn s' hs')⟩

theorem cons {s : Span} {t : Token} (hts : InOrder (us ++ t :: ts)) (h : s.IsIn us) (h' : LaidOut ts others) :
    LaidOut (us ++ t :: ts) (s :: others) :=
  .append hts (.single h) h'

/-- The span of all tokens holds what is laid out over them. -/
theorem holds (h : LaidOut ts parts) (hts : InOrder ts) (hne : ts ≠ []) : (covering ts).Holds parts where
  proper := List.forall_mem_cons.2 ⟨(isIn_covering hts hne).proper, fun s hs => (h.isIn s hs).proper⟩
  covers s hs := covers_covering hts (h.isIn s hs)
  ordered := h.ordered

/-- Items with commas between them, when each of them lies in the tokens that derive it. -/
theorem of_separated {α : Type} {L : Language α} {parts : α → List Span} {n : Nat} {as : List α}
    (h : Separated L ts n as) (hts : InOrder ts)
    (hitem : ∀ us m a, us <:+: ts → m ≤ n → L us m a → LaidOut us (parts a)) : LaidOut ts (as.flatMap parts) := by
  induction h with
  | nil => exact .nil []
  | last hd => simpa using hitem _ _ _ List.infix_rfl (Nat.le_refl _) hd
  | @cons ts us s n m a as hd _ ih =>
    rw [List.flatMap_cons]
    have hrest : us <:+: ts ++ ⟨.mark .comma, s⟩ :: us := ⟨ts ++ [⟨.mark .comma, s⟩], [], by simp⟩
    refine .append hts (hitem ts n a (List.prefix_append _ _).isInfix (Nat.le_max_left _ _) hd) ?_
    refine ih (hts.of_infix hrest) fun vs l b hvs hl hd => hitem vs l b (hvs.trans hrest) ?_ hd
    exact Nat.le_trans hl (Nat.le_max_right _ _)

end LaidOut

end AnnotationChecker
