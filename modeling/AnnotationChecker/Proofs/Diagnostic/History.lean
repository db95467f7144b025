import AnnotationChecker.CommandLine
import AnnotationChecker.Proofs.Diagnostic
/-!
# The history of a collection

Diagnostics are collected one by one, or by adding what another collection stored and counted. All that can be told from
such a collection is the list of the diagnostics that were ever pushed: it stores the first `maxDiagnostics` of them
and counts them all (`Collection.diagnostics_eq_ofHistory`). So adding collections is appending their histories, and no
diagnostic is counted twice or lost, however many collections are full (`Collection.counted_exactly`).
-/

namespace AnnotationChecker

/-- What checking a file finds: issues with tokens, issues with statements, and rejected statements, in this order. -/
theorem Outcome.diagnostics_ofFile (r : Registry) (f : SourceFile) :
    (Outcome.ofFile r f).diagnostics =
      .ofHistory (((Lexed.ofFile f).issues ++ (Parsed.ofFile f).issues ++
        (Outcome.ofFile r f).verdicts.filterMap Outcome.issueOf?).map (Issue.locate f)) := by
  have herrors : (Outcome.ofFile r f).syntaxErrors =
      .ofHistory (((Lexed.ofFile f).issues ++ (Parsed.ofFile f).issues).map (Issue.locate f)) := by
    rw [List.map_append, ← Diagnostics.extend_ofHistory, ← Diagnostics.ofIssues_eq_ofHistory,
      ← Diagnostics.ofIssues_eq_ofHistory]
    rfl
  rw [Outcome.diagnostics, herrors, Diagnostics.pushAll_ofHistory]
  exact congrArg Diagnostics.ofHistory List.map_append.symm

/-- How diagnostics are collected: from none, by pushing one more, or by adding what was collected elsewhere. -/
inductive Collection where
  | empty
  | push (before : Collection) (d : Diagnostic)
  | extend (before other : Collection)

namespace Collection

open Diagnostics (ofHistory)
open CommandLine.FileResult (diagnosticLines diagnosticsLines)

/-- What is stored and counted. -/
def diagnostics : Collection → Diagnostics
  | .empty => .empty
  | .push c d => c.diagnostics.push d
  | .extend c other => c.diagnostics.extend other.diagnostics

/-- The diagnostics that were ever pushed, in order; what was added stands where it was added. -/
def history : Collection → List Diagnostic
  | .empty => []
  | .push c d => c.history ++ [d]
  | .extend c other => c.history ++ other.history

theorem diagnostics_eq_ofHistory (c : Collection) : c.diagnostics = ofHistory c.history := by
  induction c with
  | empty => rfl
  | push c d ih => rw [diagnostics, history, ih, Diagnostics.push_ofHistory]
  | extend c other ih ih' => rw [diagnostics, history, ih, ih', Diagnostics.extend_ofHistory]

/-- Collections with one history are the same. -/
theorem diagnostics_congr {a b : Collection} (h : a.history = b.history) : a.diagnostics = b.diagnostics := by
  rw [diagnostics_eq_ofHistory, diagnostics_eq_ofHistory, h]

/-- The lines that show a collection: those of the first diagnostics, and how many more there were. -/
theorem diagnosticsLines_diagnostics (file : String) (c : Collection) :
    diagnosticsLines file c.diagnostics =
      (c.history.take maxDiagnostics).flatMap (diagnosticLines file) ++
        if maxDiagnostics < c.history.length then
          [file ++ ": " ++ toString (c.history.length - maxDiagnostics) ++ " more errors not shown"]
        else [] := by
  rw [diagnosticsLines, diagnostics_eq_ofHistory, Diagnostics.hidden_ofHistory]
  simp only [Nat.sub_pos_iff_lt]
  rfl

/-- **Diagnostics are counted exactly and kept in order.** However they were collected, all diagnostics that were ever
pushed are counted, and the first of them are stored in their order. So it does not matter how additions are grouped, and
adding nothing, or adding to nothing, changes nothing; whether there are errors, and whether there is room for more,
depends on the number of diagnostics alone; and those that are shown and those that are said to be not shown make up
this number. -/
theorem counted_exactly :
    (∀ c : Collection, c.diagnostics.total = c.history.length ∧
        c.diagnostics.stored = c.history.take maxDiagnostics) ∧
      (∀ a b c : Collection, (a.diagnostics.extend b.diagnostics).extend c.diagnostics =
        a.diagnostics.extend (b.diagnostics.extend c.diagnostics)) ∧
      (∀ c : Collection, c.diagnostics.extend .empty = c.diagnostics ∧
        Diagnostics.empty.extend c.diagnostics = c.diagnostics) ∧
      (∀ c : Collection, c.diagnostics.hasErrors = decide (0 < c.history.length) ∧
        c.diagnostics.isSaturated = decide (maxDiagnostics ≤ c.history.length)) ∧
      ∀ c : Collection, c.diagnostics.stored.length + c.diagnostics.hidden = c.history.length ∧
        ∀ file, diagnosticsLines file c.diagnostics =
          (c.history.take maxDiagnostics).flatMap (diagnosticLines file) ++
            if maxDiagnostics < c.history.length then
              [file ++ ": " ++ toString (c.history.length - maxDiagnostics) ++ " more errors not shown"]
            else [] := by
  refine ⟨fun c => ?_, fun a b c => ?_, fun c => ⟨?_, ?_⟩, fun c => ?_, fun c => ⟨?_, fun file => ?_⟩⟩
  · rw [diagnostics_eq_ofHistory]
    exact ⟨rfl, rfl⟩
  · exact diagnostics_congr (a := .extend (.extend a b) c) (b := .extend a (.extend b c)) (List.append_assoc ..)
  · exact diagnostics_congr (a := .extend c .empty) (List.append_nil _)
  · exact diagnostics_congr (a := .extend .empty c) (List.nil_append _)
  · rw [diagnostics_eq_ofHistory]
    exact ⟨rfl, rfl⟩
  · rw [diagnostics_eq_ofHistory, Diagnostics.hidden_ofHistory]
    show (c.history.take maxDiagnostics).length + _ = _
    rw [List.length_take]
    omega
  · exact diagnosticsLines_diagnostics file c

end Collection

end AnnotationChecker
