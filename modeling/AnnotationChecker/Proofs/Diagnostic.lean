import AnnotationChecker.Diagnostic
/-!
# What is stored and what is counted

Diagnostics store the first `maxDiagnostics` of those that are added and count all of them (`Diagnostics.ofHistory`), also
when they are added to those of another stage (`Diagnostics.extend_ofHistory`).
-/

namespace AnnotationChecker.Diagnostics

/-- What is stored goes on with what there is room for. -/
theorem stored_pushAll (ds : Diagnostics) (list : List Diagnostic) :
    (ds.pushAll list).stored = ds.stored ++ list.take (maxDiagnostics - ds.stored.length) := by
  induction list generalizing ds with
  | nil => simp [pushAll]
  | cons d list ih =>
    show ((ds.push d).pushAll list).stored = _
    rw [ih]
    unfold push
    by_cases h : ds.stored.length < maxDiagnostics
    · obtain ⟨room, hroom⟩ : ∃ n, maxDiagnostics - ds.stored.length = n + 1 :=
        ⟨maxDiagnostics - ds.stored.length - 1, by omega⟩
      have hrest : maxDiagnostics - (ds.stored.length + 1) = room := by omega
      simp [h, hroom, hrest]
    · have hfull : maxDiagnostics - ds.stored.length = 0 := by omega
      simp [h, hfull]

variable {ds other : Diagnostics} {list : List Diagnostic} {d : Diagnostic} {f : SourceFile} {issues : List Issue}

theorem mem_of_mem_stored_pushAll (h : d ∈ (ds.pushAll list).stored) : d ∈ ds.stored ∨ d ∈ list := by
  rw [stored_pushAll] at h
  exact (List.mem_append.1 h).imp_right List.mem_of_mem_take

theorem mem_of_mem_stored_extend (h : d ∈ (ds.extend other).stored) : d ∈ ds.stored ∨ d ∈ other.stored :=
  mem_of_mem_stored_pushAll h

theorem exists_of_mem_stored_ofIssues (h : d ∈ (ofIssues f issues).stored) : ∃ i ∈ issues, i.locate f = d := by
  rcases mem_of_mem_stored_pushAll h with h | h
  · cases h
  · exact List.mem_map.1 h

/-- Nothing that another stage counted is lost. -/
theorem total_extend (ds other : Diagnostics) (h : other.stored.length ≤ other.total) :
    (ds.extend other).total = ds.total + other.total := by
  show (ds.pushAll other.stored).total + (other.total - other.stored.length) = _
  rw [total_pushAll]
  omega

/-! ## Histories -/

/-- What is stored and counted of diagnostics that were pushed in this order. -/
def ofHistory (history : List Diagnostic) : Diagnostics := ⟨history.take maxDiagnostics, history.length⟩

theorem eq_ofHistory {ds : Diagnostics} {history : List Diagnostic} (hstored : ds.stored = history.take maxDiagnostics)
    (htotal : ds.total = history.length) : ds = ofHistory history := by
  cases ds
  exact congr (congrArg mk hstored) htotal

theorem pushAll_ofHistory (history list : List Diagnostic) :
    (ofHistory history).pushAll list = ofHistory (history ++ list) := by
  have hroom : maxDiagnostics - (history.take maxDiagnostics).length = maxDiagnostics - history.length := by
    rw [List.length_take]
    omega
  refine eq_ofHistory ?_ ?_
  · rw [stored_pushAll, ofHistory, hroom, List.take_append]
  · rw [total_pushAll, List.length_append]
    rfl

theorem push_ofHistory (history : List Diagnostic) (d : Diagnostic) :
    (ofHistory history).push d = ofHistory (history ++ [d]) :=
  pushAll_ofHistory history [d]

/-- The part that the other collection did not store finds no room here either, and is counted. -/
theorem extend_ofHistory (history other : List Diagnostic) :
    (ofHistory history).extend (ofHistory other) = ofHistory (history ++ other) := by
  refine eq_ofHistory ?_ ?_
  · show ((ofHistory history).pushAll (other.take maxDiagnostics)).stored = _
    rw [pushAll_ofHistory]
    show (history ++ other.take maxDiagnostics).take maxDiagnostics = _
    rw [List.take_append, List.take_append, List.take_take, Nat.min_eq_left (Nat.sub_le ..)]
  · rw [total_extend _ _ (List.length_take_le' ..), List.length_append]
    rfl

theorem hidden_ofHistory (history : List Diagnostic) : (ofHistory history).hidden = history.length - maxDiagnostics := by
  show history.length - (history.take maxDiagnostics).length = _
  rw [List.length_take]
  omega

theorem ofIssues_eq_ofHistory (f : SourceFile) (issues : List Issue) :
    ofIssues f issues = ofHistory (issues.map (Issue.locate f)) :=
  pushAll_ofHistory [] _

theorem ofIssues_of_le (f : SourceFile) {issues : List Issue} (h : issues.length ≤ maxDiagnostics) :
    ofIssues f issues = ⟨issues.map (Issue.locate f), issues.length⟩ := by
  rw [ofIssues_eq_ofHistory, ofHistory, List.length_map, List.take_of_length_le (by rwa [List.length_map])]

@[simp] theorem total_ofIssues (f : SourceFile) (issues : List Issue) : (ofIssues f issues).total = issues.length := by
  rw [ofIssues_eq_ofHistory]
  exact List.length_map _

end AnnotationChecker.Diagnostics
