import Mathlib.Tactic.Choose
import AnnotationChecker.CommandLine
import AnnotationChecker.Proofs.CommandLine.Spelling
/-!
# Files are checked one by one, and all or none

A run over some files prints what runs over each of them alone print, in their order, and passes when all of those
pass. When the registry cannot be used or one of the files cannot be read, nothing is printed, whichever files come
before it (`run_of_files`).
-/

namespace AnnotationChecker.CommandLine

/-! ## Results -/

/-- The registry that the options name can be used. -/
inductive Configured (files : Files) : Option String → Prop where
  | builtin : Configured files none
  | named {name text : String} {r : Registry} : files name = .ok text → Registry.load text = .ok r →
      Configured files (some name)

/-- The file can be read. -/
def Readable (files : Files) (name : String) : Prop := ∃ text, files name = .ok text

theorem configured_iff {files : Files} {config : Option String} :
    Configured files config ↔ ∃ r, loadRegistry files config = .ok r := by
  cases config with
  | none => exact ⟨fun _ => ⟨.builtin, rfl⟩, fun _ => .builtin⟩
  | some name =>
    constructor
    · rintro (_ | ⟨hf, hr⟩)
      exact ⟨_, by simp only [loadRegistry, hf, hr]; rfl⟩
    · rintro ⟨r, h⟩
      simp only [loadRegistry] at h
      split at h
      · cases h
      · next hf =>
        split at h
        · cases h
        · next hr => exact .named hf hr

variable {files : Files} {o : Options} {r : Registry} {names : List String}

/-- The result of a file that can be read. -/
def resultOf (files : Files) (o : Options) (r : Registry) (name : String) : FileResult :=
  .ofFile o r ⟨name, (files name).toOption.getD ""⟩

theorem checkFiles_of_readable (h : ∀ name ∈ names, Readable files name) :
    checkFiles files o r names = .ok (names.map (resultOf files o r)) := by
  induction names with
  | nil => rfl
  | cons name names ih =>
    obtain ⟨text, ht⟩ := h name (by simp)
    rw [checkFiles, ht, ih fun n hn => h n (by simp [hn])]
    simp [bind, Except.bind, resultOf, ht, Except.toOption]

theorem checkFiles_of_not_readable {name : String} (hn : name ∈ names) (h : ¬ Readable files name) :
    ∃ fault, checkFiles files o r names = .error fault := by
  induction names with
  | nil => cases hn
  | cons n names ih =>
    rw [checkFiles]
    cases hf : files n with
    | error fault => exact ⟨_, rfl⟩
    | ok text =>
      rcases List.mem_cons.1 hn with rfl | hn
      · exact absurd ⟨text, hf⟩ h
      · obtain ⟨fault, hfault⟩ := ih hn
        exact ⟨fault, by simp [hfault, bind, Except.bind]⟩

/-! ## Printing -/

theorem unlines_append (xs ys : List String) : unlines (xs ++ ys) = unlines xs ++ unlines ys := by
  simp [unlines]

theorem render_text (results : List FileResult) :
    render .text results = String.join (results.map fun x => render .text [x]) := by
  have hone : ∀ x, render .text [x] = unlines x.lines := fun x => by simp [render]
  simp only [hone]
  show unlines (results.flatMap FileResult.lines) = _
  induction results with
  | nil => rfl
  | cons x xs ih => rw [List.flatMap_cons, unlines_append, ih, List.map_cons, String.join_cons]

theorem exists_members (x : FileResult) : ∃ ms, x.toJson = .object ms := by
  cases x <;> exact ⟨_, rfl⟩

/-- The object of a file does not depend on the files beside it. -/
theorem render_json (files : Files) (o : Options) (r : Registry) :
    ∃ members : String → List (String × Json), ∀ names : List String,
      render .json (names.map (resultOf files o r)) =
        (Json.array (names.map fun name => .object (members name))).pretty ++ "\n" := by
  choose members hmembers using exists_members
  refine ⟨fun name => members (resultOf files o r name), fun names => ?_⟩
  simp only [← hmembers]
  simp [render, Function.comp_def]

theorem format_eq_text {format : Option Format} (h : format ≠ some .json) : format.getD .text = .text := by
  rcases format with _ | _ | _
  · rfl
  · rfl
  · exact absurd rfl h

/-! ## Runs -/

theorem run_of_ready {args : List String} (h : Options.read? args = some o) (hr : loadRegistry files o.config = .ok r)
    (hf : ∀ name ∈ o.files, Readable files name) :
    run files args = .finished ((o.files.map (resultOf files o r)).all FileResult.passed)
      (render (o.format.getD .text) (o.files.map (resultOf files o r))) := by
  have hrun : runWith files o = .ok ((o.files.map (resultOf files o r)).all FileResult.passed,
      render (o.format.getD .text) (o.files.map (resultOf files o r))) := by
    unfold runWith
    rw [hr]
    simp [bind, Except.bind, checkFiles_of_readable hf]
  simp only [run, h, hrun]

theorem run_alone (hr : loadRegistry files o.config = .ok r) {name : String} (hf : Readable files name)
    {line : List String} (hline : Options.read? line = some (o.withFiles [name])) :
    run files line = .finished (resultOf files o r name).passed
      (render (o.format.getD .text) [resultOf files o r name]) := by
  have hsingle : run files line = .finished ([resultOf files o r name].all FileResult.passed)
      (render (o.format.getD .text) [resultOf files o r name]) :=
    run_of_ready hline hr (by simpa [Options.withFiles] using hf)
  simpa using hsingle

theorem run_of_not_ready {args : List String} (h : Options.read? args = some o)
    (hn : ¬ (Configured files o.config ∧ ∀ name ∈ o.files, Readable files name)) :
    ∃ fault, run files args = .failed fault := by
  have hrun : ∃ fault, runWith files o = .error fault := by
    unfold runWith
    cases hr : loadRegistry files o.config with
    | error fault => exact ⟨fault, by simp [bind, Except.bind]⟩
    | ok r =>
      have hc : Configured files o.config := configured_iff.2 ⟨r, hr⟩
      obtain ⟨name, hmem, hname⟩ : ∃ name ∈ o.files, ¬ Readable files name := by
        simpa [hc] using hn
      obtain ⟨fault, hfault⟩ := checkFiles_of_not_readable (o := o) (r := r) hmem hname
      exact ⟨fault, by simp [bind, Except.bind, hfault]⟩
  obtain ⟨fault, hfault⟩ := hrun
  exact ⟨fault, by simp only [run, h, hfault]⟩

/-- Every file can be checked alone under the same options. If all files and the registry can be read, the exit code is
0 exactly if it is 0 for each file alone, and otherwise 1, and what is printed is what is printed for the files alone,
one after the other, or in one array. If not, the exit code is 2 and nothing is printed. -/
theorem run_of_files (files : Files) {args : List String} {o : Options} (h : Options.read? args = some o) :
    (∀ name ∈ o.files, ∃ line, Options.read? line = some (o.withFiles [name])) ∧
      (Configured files o.config ∧ (∀ name ∈ o.files, Readable files name) →
        ∀ alone : String → List String, (∀ name ∈ o.files, Options.read? (alone name) = some (o.withFiles [name])) →
          (run files args).exitCode = (if ∀ name ∈ o.files, (run files (alone name)).exitCode = 0 then 0 else 1) ∧
            (o.format ≠ some .json →
              (run files args).output = String.join (o.files.map fun name => (run files (alone name)).output)) ∧
            (o.format = some .json → ∃ members : String → List (String × Json),
              (∀ name ∈ o.files,
                (run files (alone name)).output = (Json.array [.object (members name)]).pretty ++ "\n") ∧
              (run files args).output = (Json.array (o.files.map fun name => .object (members name))).pretty ++ "\n")) ∧
      (¬ (Configured files o.config ∧ ∀ name ∈ o.files, Readable files name) →
        (run files args).exitCode = 2 ∧ (run files args).output = "") := by
  refine ⟨fun name hn => ⟨_, Options.read?_spell_withFiles h hn⟩, ?_, fun hn => ?_⟩
  · rintro ⟨hc, hf⟩ alone halone
    obtain ⟨r, hr⟩ := configured_iff.1 hc
    have hall := run_of_ready h hr hf
    have hone : ∀ name ∈ o.files, run files (alone name) = .finished (resultOf files o r name).passed
        (render (o.format.getD .text) [resultOf files o r name]) :=
      fun name hn => run_alone hr (hf name hn) (halone name hn)
    refine ⟨?_, fun hformat => ?_, fun hformat => ?_⟩
    · have hcode : ∀ name ∈ o.files, (run files (alone name)).exitCode = 0 ↔ (resultOf files o r name).passed = true := by
        intro name hn
        simp [hone name hn, Ending.exitCode]
      rw [hall, if_congr (forall₂_congr hcode) rfl rfl]
      simp [Ending.exitCode]
    · have hout : ∀ name ∈ o.files, (run files (alone name)).output = render .text [resultOf files o r name] := by
        intro name hn
        rw [hone name hn, format_eq_text hformat]
        rfl
      rw [hall, format_eq_text hformat, List.map_congr_left hout]
      show render .text _ = _
      rw [render_text, List.map_map]
      rfl
    · obtain ⟨members, hmembers⟩ := render_json files o r
      refine ⟨members, fun name hn => ?_, ?_⟩
      · rw [hone name hn, hformat]
        exact hmembers [name]
      · rw [hall, hformat]
        exact hmembers o.files
  · obtain ⟨fault, hfault⟩ := run_of_not_ready h hn
    rw [hfault]
    exact ⟨rfl, rfl⟩

/-- Two files, one of which does not pass, and none else. -/
def sampleFiles : Files := fun name =>
  if name = "a.py" then .ok "x: int = 1  # OK\n"
  else if name = "b.py" then .ok "y: int = 'z'  # OK\n"
  else .error .missing

/-- Both files print after one another what each of them prints; with a third one that is missing, neither does. -/
theorem run_of_files_sample :
    (run sampleFiles ["a.py", "b.py"]).output =
        (run sampleFiles ["a.py"]).output ++ (run sampleFiles ["b.py"]).output ∧
      (run sampleFiles ["a.py", "b.py", "c.py"]).exitCode = 2 ∧
      (run sampleFiles ["a.py", "b.py", "c.py"]).output = "" := by
  have htwo : Options.read? ["a.py", "b.py"] = some { files := ["a.py", "b.py"] } := by decide
  have hthree : Options.read? ["a.py", "b.py", "c.py"] = some { files := ["a.py", "b.py", "c.py"] } := by decide
  constructor
  · have hready : Configured sampleFiles none ∧ ∀ name ∈ ["a.py", "b.py"], Readable sampleFiles name :=
      ⟨.builtin, by simp [Readable, sampleFiles]⟩
    have halone : ∀ name ∈ ["a.py", "b.py"],
        Options.read? [name] = some (Options.withFiles { files := ["a.py", "b.py"] } [name]) := by decide
    obtain ⟨-, houtput, -⟩ := (run_of_files sampleFiles htwo).2.1 hready (fun name => [name]) halone
    simpa [String.join] using houtput
  · refine (run_of_files sampleFiles hthree).2.2 fun hready => ?_
    obtain ⟨text, htext⟩ := hready.2 "c.py" (by simp)
    simp [sampleFiles] at htext

end AnnotationChecker.CommandLine
