import AnnotationChecker.CommandLine.Options
/-!
# Command lines for options

Whatever options a command line asks for can be spelled again (`read?_spell`): every option in an argument of its own,
and the files behind `--`. So the same can be asked for other files.
-/

namespace AnnotationChecker.CommandLine

/-- The word for a format. -/
def Format.word : Format → String
  | .text => "text"
  | .json => "json"

theorem Format.ofText?_word (f : Format) : ofText? f.word = some f := by
  cases f <;> decide

namespace Options

/-- A command line that asks for the options. -/
def spell (o : Options) : List String :=
  (o.config.map ("--config=" ++ ·)).toList ++ ((o.format.map fun f => "--format=" ++ f.word).toList
    ++ (List.replicate o.verbosity "-v" ++ ((if o.verdictsOnly then ["--no-expectations"] else []) ++ "--" :: o.files)))

/-- The same options for other files. -/
def withFiles (o : Options) (names : List String) : Options := { o with files := names }

/-- No file has an empty name. -/
structure Named (o : Options) : Prop where
  files : ∀ name ∈ o.files, name ≠ ""
  config : o.config ≠ some ""

variable {o : Options} {rest : List String}

/-! ## Reading a spelled line -/

theorem readFrom?_value {arg name value : String} {set : Options → String → Option Options} (ha : arg ≠ "--")
    (ho : isOption arg = true) (hv : splitValue arg = (name, some value)) (hs : setter? name = some set) :
    readFrom? o (arg :: rest) = (set o value).bind fun o => readFrom? o rest := by
  rw [readFrom?, if_neg ha, if_pos ho, hv]
  simp only [hs]

theorem readFrom?_flag {arg : String} (ha : arg ≠ "--") (ho : isOption arg = true)
    (hv : splitValue arg = (arg, none)) (hs : setter? arg = none) :
    readFrom? o (arg :: rest) = (o.flag? arg).bind fun o => readFrom? o rest := by
  rw [readFrom?, if_neg ha, if_pos ho, hv]
  simp only [hs]

theorem readFrom?_config {name : String} (hc : o.config = none) (hn : name ≠ "") :
    readFrom? o (("--config=" ++ name) :: rest) = readFrom? { o with config := some name } rest := by
  have hl : ("--config=" ++ name).toList = '-' :: '-' :: 'c' :: 'o' :: 'n' :: 'f' :: 'i' :: 'g' :: '=' :: name.toList := by
    rw [String.toList_append]
    rfl
  have ha : "--config=" ++ name ≠ "--" := by
    intro he
    rw [he] at hl
    simp at hl
  have hv : splitValue ("--config=" ++ name) = ("--config", some name) := by simp [splitValue, hl]
  have hs : setter? "--config" = some setConfig? := by simp [setter?]
  rw [readFrom?_value ha (by simp [isOption, hl]) hv hs]
  simp [setConfig?, hc, hn]

theorem readFrom?_format (hf : o.format = none) (f : Format) :
    readFrom? o (("--format=" ++ f.word) :: rest) = readFrom? { o with format := some f } rest := by
  have hv : splitValue ("--format=" ++ f.word) = ("--format", some f.word) := by
    cases f <;> decide
  have hs : setter? "--format" = some setFormat? := by simp [setter?]
  rw [readFrom?_value (by cases f <;> decide) (by cases f <;> decide) hv hs]
  simp [setFormat?, hf, Format.ofText?_word]

theorem readFrom?_verbose (count : Nat) :
    readFrom? o (List.replicate count "-v" ++ rest) = readFrom? { o with verbosity := o.verbosity + count } rest := by
  induction count generalizing o with
  | zero => rfl
  | succ count ih =>
    rw [List.replicate_succ, List.cons_append, readFrom?_flag (by decide) (by decide) (by decide) (by decide)]
    have hflag : o.flag? "-v" = some { o with verbosity := o.verbosity + 1 } := rfl
    rw [hflag, Option.bind_some, ih, Nat.add_assoc, Nat.add_comm 1]

theorem readFrom?_verdictsOnly (hv : o.verdictsOnly = false) :
    readFrom? o ("--no-expectations" :: rest) = readFrom? { o with verdictsOnly := true } rest := by
  have hflag : o.flag? "--no-expectations" = some { o with verdictsOnly := true } := by
    rw [flag?, if_pos rfl, setVerdictsOnly?, hv, if_neg Bool.false_ne_true]
  rw [readFrom?_flag (by decide) (by decide) (by decide) (by decide), hflag, Option.bind_some]

theorem addFiles?_eq {names : List String} (h : ∀ name ∈ names, name ≠ "") :
    o.addFiles? names = some { o with files := o.files ++ names } := by
  unfold addFiles?
  induction names generalizing o with
  | nil => simp
  | cons name names ih =>
    have hn : name ≠ "" := h name (by simp)
    rw [List.foldlM_cons, addFile?, if_neg hn]
    simp only [Option.bind_eq_bind, Option.bind_some]
    rw [ih fun n hm => h n (by simp [hm])]
    simp

/-- Options with proper names, for one file at least, are those that their own spelling asks for. -/
theorem read?_spell (h : o.Named) (hf : o.files ≠ []) : read? o.spell = some o := by
  obtain ⟨files, config, format, verbosity, verdictsOnly⟩ := o
  have hconfig : ∀ rest, readFrom? {} ((config.map ("--config=" ++ ·)).toList ++ rest) = readFrom? { config } rest := by
    intro rest
    cases config with
    | none => rfl
    | some name => exact readFrom?_config rfl fun hn => h.config (by rw [hn])
  have hformat : ∀ rest, readFrom? { config } ((format.map fun f => "--format=" ++ f.word).toList ++ rest) =
      readFrom? { config, format } rest := by
    intro rest
    cases format with
    | none => rfl
    | some f => exact readFrom?_format rfl f
  have hflag : ∀ rest, readFrom? { config, format, verbosity }
      ((if verdictsOnly then ["--no-expectations"] else []) ++ rest) =
        readFrom? { config, format, verbosity, verdictsOnly } rest := by
    intro rest
    cases verdictsOnly with
    | false => rfl
    | true => exact readFrom?_verdictsOnly rfl
  unfold read? spell
  simp only
  rw [hconfig, hformat, readFrom?_verbose]
  simp only [Nat.zero_add]
  rw [hflag, readFrom?, if_pos rfl, addFiles?_eq h.files]
  simpa using hf

/-! ## What was read is proper -/

theorem Named.addFile? (h : o.Named) {name : String} {o' : Options} (ho : o.addFile? name = some o') : o'.Named := by
  unfold Options.addFile? at ho
  split at ho
  · cases ho
  · next hn =>
    cases ho
    refine ⟨fun n hm => ?_, h.config⟩
    rcases List.mem_append.1 hm with hm | hm
    · exact h.files n hm
    · rwa [List.mem_singleton.1 hm]

theorem Named.addFiles? (h : o.Named) {names : List String} {o' : Options} (ho : o.addFiles? names = some o') :
    o'.Named := by
  unfold Options.addFiles? at ho
  induction names generalizing o with
  | nil =>
    cases ho
    exact h
  | cons name names ih =>
    obtain ⟨o₁, h₁, ho⟩ := Option.bind_eq_some_iff.1 ho
    exact ih (h.addFile? h₁) ho

theorem Named.setter? (h : o.Named) {name value : String} {set : Options → String → Option Options} {o' : Options}
    (hs : setter? name = some set) (ho : set o value = some o') : o'.Named := by
  unfold Options.setter? at hs
  split at hs
  · cases hs
    unfold setConfig? at ho
    split at ho
    · cases ho
    · next hn =>
      cases ho
      exact ⟨h.files, fun he => hn (.inr (Option.some.inj he))⟩
  · split at hs
    · cases hs
      unfold setFormat? at ho
      split at ho
      · cases ho
      · obtain ⟨f, -, rfl⟩ := Option.map_eq_some_iff.1 ho
        exact ⟨h.files, h.config⟩
    · cases hs

theorem Named.flag? (h : o.Named) {arg : String} {o' : Options} (ho : o.flag? arg = some o') : o'.Named := by
  unfold Options.flag? at ho
  split at ho
  · unfold setVerdictsOnly? at ho
    split at ho
    · cases ho
    · cases ho
      exact ⟨h.files, h.config⟩
  · split at ho
    · cases ho
      exact ⟨h.files, h.config⟩
    · split at ho
      · split at ho
        · cases ho
          exact ⟨h.files, h.config⟩
        · cases ho
      · cases ho

theorem Named.readFrom? (h : o.Named) {args : List String} {o' : Options} (ho : readFrom? o args = some o') :
    o'.Named := by
  fun_induction Options.readFrom? o args with
  | case1 => cases ho; exact h
  | case2 => exact h.addFiles? ho
  -- a value behind `=`, for an option that takes one or not
  | case3 _ _ _ _ _ _ _ _ _ hs ih =>
    obtain ⟨o₁, h₁, ho⟩ := Option.bind_eq_some_iff.1 ho
    exact ih o₁ (h.setter? hs h₁) ho
  | case4 => cases ho
  -- an option that takes a value, which is another option, an argument, or missing
  | case5 => cases ho
  | case6 _ _ _ _ _ _ _ hs _ _ _ ih =>
    obtain ⟨o₁, h₁, ho⟩ := Option.bind_eq_some_iff.1 ho
    exact ih o₁ (h.setter? hs h₁) ho
  | case7 => cases ho
  -- an option that takes none, and a file
  | case8 _ _ _ _ _ _ _ _ ih =>
    obtain ⟨o₁, h₁, ho⟩ := Option.bind_eq_some_iff.1 ho
    exact ih o₁ (h.flag? h₁) ho
  | case9 _ _ _ _ _ ih =>
    obtain ⟨o₁, h₁, ho⟩ := Option.bind_eq_some_iff.1 ho
    exact ih o₁ (h.addFile? h₁) ho

theorem named_of_read? {args : List String} (h : read? args = some o) : o.Named := by
  obtain ⟨o', ho, h⟩ := Option.bind_eq_some_iff.1 h
  split at h
  · cases h
  · cases h
    exact Named.readFrom? ⟨by simp, by simp⟩ ho

/-- What was asked for can be asked for one of the files alone. -/
theorem read?_spell_withFiles {args : List String} (h : read? args = some o) {name : String} (hn : name ∈ o.files) :
    read? (o.withFiles [name]).spell = some (o.withFiles [name]) := by
  have hnamed := named_of_read? h
  refine read?_spell ⟨fun n hm => ?_, hnamed.config⟩ (by simp [withFiles])
  rw [List.mem_singleton.1 hm]
  exact hnamed.files name hn

end Options

end AnnotationChecker.CommandLine
