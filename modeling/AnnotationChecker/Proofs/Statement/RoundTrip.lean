import AnnotationChecker.Proofs.Hint.Meaning
import AnnotationChecker.Proofs.Hint.RoundTrip
import AnnotationChecker.Proofs.Hint.Written
import AnnotationChecker.Proofs.Statement.Height
/-!
# Hints survive their text

The text of a hint has no parentheses, so a chain of `|` that was grouped by some is grouped from the left when the
text is read. That is all that changes: a hint of any source is read back, unless its text is nested too deeply, as a
hint with the same text and the same meaning (`Hint.readBack_annotated`). The exceptions are floats, which the text of
a hint does not always keep, and texts with a character that is written by its number.
-/

namespace AnnotationChecker

/-- The hints of the statements of a source, from the top. -/
def SourceFile.hints (f : SourceFile) : List Hint :=
  (Parsed.ofFile f).statements.flatMap fun s => s.kind.hints

namespace Hint

/-- A source is read without an issue, as the declaration of `x` with a hint that has the text of a given one, and its
meaning for every registry: the same type, or the same fault. -/
def ReadBack (f : SourceFile) (h : Hint) : Prop :=
  (Lexed.ofFile f).issues = [] ∧ (Parsed.ofFile f).issues = [] ∧
    ∃ s place h', (Parsed.ofFile f).statements = [s] ∧
      s.kind = .declare ⟨"x", place⟩ h' none ∧ h'.text = h.text ∧ ∀ r, h'.meaning r = h.meaning r

variable {f : SourceFile} {h : Hint}

/-- Every hint of a source is derived by tokens of its text. -/
theorem written_of_mem_hints (read : h ∈ f.hints) : h.Written := by
  obtain ⟨s, hs, hh⟩ := List.mem_flatMap.1 read
  have heof : HasEof (Lexed.ofFile f).tokens := Lexed.hasEof_ofPieces _ _ _
  obtain ⟨us, n, hus, -, hd⟩ := (Parsed.derived_ofLines heof s hs).hints h hh
  exact hd.written fun t ht => Lexed.isLexed_of_mem_tokens (hus.subset ht)

/-- **A hint of a source is read back from its text**, when that is not nested too deeply, with the same meaning for
every registry. -/
theorem readBack_annotated {name : String} (read : h ∈ f.hints) (noFloat : ∀ v, .float v ∉ h.consts)
    (texts : ∀ v, .str v ∈ h.consts → ∀ c ∈ v.toList, ¬ Text.IsHexEscaped c)
    (shallow : ¬ (Parsed.ofFile (annotated name h.text)).IsTooDeep) :
    ReadBack (annotated name h.text) h := by
  have hwritten := written_of_mem_hints read
  have hlegible := hwritten.legible noFloat
  have hlexing : (Lexed.ofFile (annotated name h.text)).issues = [] :=
    (issues_annotated_iff hlegible name).2 fun _ => hwritten.toNat_lt
  have hsame : h.kinds = h.kinds.map TokenKind.reread :=
    (map_reread_kinds fun v hv => Text.reread_eq_self_iff.2 (texts v hv)).symm
  -- the parser finds in the tokens of the hint what it would find in any other grouping of its chains
  obtain ⟨hissues, s, hs, place, h', hkind, hplain⟩ :=
    (read_annotated hlegible hlegible hsame hlexing).resolve_left shallow
  refine ⟨hlexing, hissues, s, place, h', hs, hkind, ?_, fun r => ?_⟩
  · calc h'.text
      _ = h'.plain.text := (text_plain h').symm
      _ = h.text := by rw [hplain, text_plain]
  · calc h'.meaning r
      _ = h'.plain.meaning r := (meaning_plain h').symm
      _ = h.meaning r := by rw [hplain, meaning_plain]

/-- A chain that is grouped from the right, with a dotted name, a negative number and an escape in it. -/
def grouped : SourceFile := ⟨"grouped", "x: int | (str | typing . Literal['a\\n', -7])\n"⟩

theorem readBack_annotated_grouped :
    ∃ h, grouped.hints = [h] ∧ h.text = "int | str | typing.Literal[\"a\\n\", -7]" ∧
      ReadBack (annotated "again" h.text) h := by
  have htexts : grouped.hints.map text = ["int | str | typing.Literal[\"a\\n\", -7]"] := by decide +kernel
  have hconsts : grouped.hints.map consts = [[.str "a\n", .int (-7)]] := by decide +kernel
  obtain ⟨h, hhints, htext⟩ := List.map_eq_singleton_iff.1 htexts
  have hconst : h.consts = [.str "a\n", .int (-7)] := by simpa [hhints] using hconsts
  have hshallow : ¬ (Parsed.ofFile (annotated "again" h.text)).IsTooDeep := by
    rw [htext]
    decide +kernel
  have hshown : "a\n".toList.all (fun c => ¬ Text.IsHexEscaped c) = true := by decide
  have hread : h ∈ grouped.hints := hhints ▸ List.mem_singleton.2 rfl
  refine ⟨h, hhints, htext, readBack_annotated hread (by simp [hconst]) (fun v hv c hc => ?_) hshallow⟩
  obtain rfl : v = "a\n" := by simpa [hconst] using hv
  exact of_decide_eq_true (List.all_eq_true.1 hshown c hc)

end Hint

end AnnotationChecker
