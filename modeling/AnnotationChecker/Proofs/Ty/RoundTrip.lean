import Mathlib.Algebra.Group.Int.Defs
import Mathlib.Algebra.Group.Nat.Defs
import AnnotationChecker.Proofs.Hint.RoundTrip
import AnnotationChecker.Proofs.Ty.Meaning
import AnnotationChecker.Proofs.Ty.Tokens
/-!
# Types survive their text

An annotation with the text of a canonical type of the default registry is read back as that type
(`Ty.readAs_annotated_iff`), unless it is nested too deeply. There are two exceptions: a text with a character that
is written by its number, and the smallest integer, whose digits alone are those of a number that is too large.
-/

namespace AnnotationChecker.Ty

/-- A source is read without an issue, as the declaration of `x` with a hint that stands for a type. -/
def ReadAs (f : SourceFile) (t : Ty) : Prop :=
  (Lexed.ofFile f).issues = [] ∧ (Parsed.ofFile f).issues = [] ∧
    ∃ s place h, (Parsed.ofFile f).statements = [s] ∧
      s.kind = .declare ⟨"x", place⟩ h Option.none ∧ h.meaning .builtin = .ok t

variable {t : Ty}

/-- The tokens have no issue when every integer has 63 bits, but for its sign. -/
theorem issues_annotated_iff (hc : t.Consistent .builtin) (hp : t.Proper) (name : String) :
    (Lexed.ofFile (annotated name t.text)).issues = [] ↔ ∀ i, .literal (.int i) ∈ t.parts → i.natAbs < 2 ^ 63 := by
  rw [← text_hint hp, Hint.issues_annotated_iff (legible_hint Registry.builtin_readable hc hp)]
  simp only [int_mem_kinds]
  constructor
  · exact fun h i hi => h i.natAbs ⟨i, hi, rfl⟩
  · rintro h v ⟨i, hi, rfl⟩
    exact h i hi

/-- The only type that an annotation without issues is read as. -/
theorem readAs_annotated {u : Ty} (hc : t.Consistent .builtin) (hp : t.Proper) {name : String}
    (hi : (Lexed.ofFile (annotated name t.text)).issues = [])
    (hd : ¬ (Parsed.ofFile (annotated name t.text)).IsTooDeep) :
    ReadAs (annotated name t.text) u ↔ t.reread.normalized = u := by
  have hl := legible_hint Registry.builtin_readable hc hp
  have hl' := legible_hint Registry.builtin_readable hc.reread hp.reread
  -- the tokens are those of the type that is read back, and its hint is what the parser finds in them
  have hread := Hint.read_annotated hl hl' (kinds_reread t) (text_hint hp ▸ hi)
  rw [text_hint hp] at hread
  obtain ⟨hissues, s, hs, place, h, hkind, hplain⟩ := hread.resolve_left hd
  have hmeaning : h.meaning .builtin = .ok t.reread.normalized := by
    rw [← Hint.meaning_plain, hplain, Hint.meaning_plain, meaning_hint Registry.builtin_readable hc.reread hp.reread]
  constructor
  · rintro ⟨-, -, s', place', h', hs', hkind', hu⟩
    rw [hs, List.singleton_inj] at hs'
    subst hs'
    rw [hkind] at hkind'
    cases hkind'
    rw [hmeaning] at hu
    exact Except.ok.inj hu
  · rintro rfl
    exact ⟨hi, hissues, s, place, h, hs, hkind, hmeaning⟩

/-- A canonical type whose containers are those of the default registry, and whose integers have 64 bits, is read back
from its text, when that is not nested too deeply, just when no text in it has a character that is written by its
number and it does not hold the smallest integer. -/
theorem readAs_annotated_iff {name : String} (canonical : t.normalized = t) (consistent : t.Consistent .builtin)
    (sized : ∀ i, .literal (.int i) ∈ t.parts → -2 ^ 63 ≤ i ∧ i < 2 ^ 63)
    (shallow : ¬ (Parsed.ofFile (annotated name t.text)).IsTooDeep) :
    ReadAs (annotated name t.text) t ↔
      (∀ s, .literal (.str s) ∈ t.parts → ∀ c ∈ s.toList, ¬ Text.IsHexEscaped c) ∧
        .literal (.int (-2 ^ 63)) ∉ t.parts := by
  have hcanonical := normalized_eq_iff.1 canonical
  have hproper := hcanonical.proper
  have hissues := issues_annotated_iff consistent hproper name
  have hmin : (∀ i, .literal (.int i) ∈ t.parts → i.natAbs < 2 ^ 63) ↔ .literal (.int (-2 ^ 63)) ∉ t.parts := by
    constructor
    · intro h hm
      exact absurd (h _ hm) (by decide)
    · intro h i hi
      have hne : i ≠ -2 ^ 63 := by
        rintro rfl
        exact h hi
      have := sized i hi
      omega
  have htexts : t.reread = t ↔ ∀ s, .literal (.str s) ∈ t.parts → ∀ c ∈ s.toList, ¬ Text.IsHexEscaped c := by
    simp only [reread_eq_self_iff, Text.reread_eq_self_iff]
  rw [← htexts, ← hmin, ← hissues]
  constructor
  · intro h
    have hi := h.1
    exact ⟨hcanonical.normalized_reread_iff.1 ((readAs_annotated consistent hproper hi shallow).1 h), hi⟩
  · rintro ⟨h, hi⟩
    exact (readAs_annotated consistent hproper hi shallow).2 (hcanonical.normalized_reread_iff.2 h)

/-- A type with literals of two kinds side by side, an escape, a negative number and every way to nest. -/
def sample : Ty :=
  .union [.literal (.int (-7)), .literal (.int 0), .literal (.str "a\n"), .none,
    .container "list" (.union [.int, .str]) .invariant, .callable [.never, .literal (.bool true)] .bytes]

theorem sample_consistent : sample.Consistent .builtin := by
  intro c e v h
  simp only [sample, parts, partsList, List.mem_cons, List.mem_append, List.not_mem_nil, reduceCtorEq, container.injEq,
    false_or, or_false] at h
  obtain ⟨rfl, rfl, rfl⟩ := h
  exact ⟨⟨.invariant, ["Sequence"]⟩, by decide, rfl⟩

/-- The sample is read back. A control character and the smallest integer are not. -/
theorem readAs_annotated_sample :
    ReadAs (annotated "sample" sample.text) sample ∧
      ¬ ReadAs (annotated "sample" (literal (.str "\x01")).text) (.literal (.str "\x01")) ∧
      ¬ ReadAs (annotated "sample" (literal (.int (-2 ^ 63))).text) (.literal (.int (-2 ^ 63))) := by
  refine ⟨?_, ?_, ?_⟩
  · have hsized : ∀ i, .literal (.int i) ∈ sample.parts → -2 ^ 63 ≤ i ∧ i < 2 ^ 63 := by
      simp [sample, parts, partsList]
    have hshallow : ¬ (Parsed.ofFile (annotated "sample" sample.text)).IsTooDeep := by decide +kernel
    have htexts : ∀ s, .literal (.str s) ∈ sample.parts → ∀ c ∈ s.toList, ¬ Text.IsHexEscaped c := by
      intro s hs
      simp only [sample, parts, partsList, List.mem_cons, List.mem_append, List.not_mem_nil, reduceCtorEq,
        literal.injEq, Literal.str.injEq, false_or, or_false] at hs
      subst hs
      have hall : "a\n".toList.all (fun c => ¬ Text.IsHexEscaped c) = true := by decide
      exact fun c hc => of_decide_eq_true (List.all_eq_true.1 hall c hc)
    exact (readAs_annotated_iff (by decide +kernel) sample_consistent hsized hshallow).2 ⟨htexts, by decide +kernel⟩
  · have hshallow : ¬ (Parsed.ofFile (annotated "sample" (literal (.str "\x01")).text)).IsTooDeep := by
      decide +kernel
    rw [readAs_annotated_iff rfl (.literal _) (by simp [parts]) hshallow]
    exact fun h => h.1 "\x01" (self_mem_parts _) '\x01' (by decide) (by decide +kernel)
  · have hshallow : ¬ (Parsed.ofFile (annotated "sample" (literal (.int (-2 ^ 63))).text)).IsTooDeep := by
      decide +kernel
    rw [readAs_annotated_iff rfl (.literal _) (by simp [parts]) hshallow]
    exact fun h => h.2 (self_mem_parts _)

end AnnotationChecker.Ty
