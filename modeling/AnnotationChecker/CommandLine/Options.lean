/-!
# Options of the command line

    [--config FILE] [--format text|json] [-v | --verbose]... [--no-expectations] FILE...

Options and files may stand in any order; behind `--` there are files only. A value may be written behind
`=` in the same argument; in an argument of its own it does not start with a hyphen. Every option but
`-v` is given once at most, no file name is empty, and there is one file at least.
-/

namespace AnnotationChecker.CommandLine

/-- How results are printed. -/
inductive Format where
  | text
  | json
deriving DecidableEq

def Format.ofText? (s : String) : Option Format :=
  if s = "text" then some .text else if s = "json" then some .json else none

/-- What the command line asks for. -/
structure Options where
  files : List String := []
  config : Option String := none
  format : Option Format := none
  verbosity : Nat := 0
  verdictsOnly : Bool := false
deriving DecidableEq

namespace Options

/-- Adds a file, which has a name. -/
def addFile? (o : Options) (name : String) : Option Options :=
  if name = "" then none else some { o with files := o.files ++ [name] }

/-- Adds files behind `--`. -/
def addFiles? (o : Options) (names : List String) : Option Options := names.foldlM addFile? o

/-- Sets the registry's file, once. -/
def setConfig? (o : Options) (name : String) : Option Options :=
  if o.config.isSome ∨ name = "" then none else some { o with config := some name }

/-- Sets the format, once. -/
def setFormat? (o : Options) (word : String) : Option Options :=
  if o.format.isSome then none else (Format.ofText? word).map fun f => { o with format := some f }

/-- Leaves out the expectations, once. -/
def setVerdictsOnly? (o : Options) : Option Options :=
  if o.verdictsOnly then none else some { o with verdictsOnly := true }

/-- Is an argument an option? A single hyphen is a file name. -/
def isOption (arg : String) : Bool :=
  match arg.toList with
  | '-' :: _ :: _ => true
  | _ => false

/-- An option that takes a value. -/
def setter? (name : String) : Option (Options → String → Option Options) :=
  if name = "--config" then some setConfig?
  else if name = "--format" then some setFormat?
  else none

/-- An option that takes no value: a word, or letters that are all `v`. -/
def flag? (o : Options) (arg : String) : Option Options :=
  if arg = "--no-expectations" then o.setVerdictsOnly?
  else if arg = "--verbose" then some { o with verbosity := o.verbosity + 1 }
  else
    match arg.toList with
    | '-' :: letters =>
      if letters.all (· == 'v') then some { o with verbosity := o.verbosity + letters.length } else none
    | _ => none

/-- Cuts an argument at its first `=`. -/
def splitValue (arg : String) : String × Option String :=
  let cs := arg.toList
  let name := cs.takeWhile (· != '=')
  (String.ofList name, if name.length < cs.length then some (String.ofList (cs.drop (name.length + 1))) else none)

/-- Reads arguments into options. -/
def readFrom? (o : Options) : List String → Option Options
  | [] => some o
  | arg :: rest =>
    if arg = "--" then o.addFiles? rest
    else if isOption arg then
      match splitValue arg with
      | (name, some value) =>
        match setter? name with
        | some set => (set o value).bind fun o => readFrom? o rest
        | none => none
      | (name, none) =>
        match setter? name with
        | some set =>
          match rest with
          | value :: rest => if isOption value then none else (set o value).bind fun o => readFrom? o rest
          | [] => none
        | none => (o.flag? arg).bind fun o => readFrom? o rest
    else (o.addFile? arg).bind fun o => readFrom? o rest

/-- Reads a command line, which names a file at least. -/
def read? (args : List String) : Option Options :=
  (readFrom? {} args).bind fun o => if o.files = [] then none else some o

end Options

end AnnotationChecker.CommandLine
