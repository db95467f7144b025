import AnnotationChecker.CommandLine.Options
import AnnotationChecker.Fixture
import AnnotationChecker.Registry.Json
/-!
# The command line

Checks files against their expectations, or only prints the verdicts on their statements. Nothing is printed
before every file was read; a file that cannot be read, or a registry that cannot be loaded, ends the run.
The file system is a function from names to texts.
-/

namespace AnnotationChecker.CommandLine

/-- Why a file cannot be read. -/
inductive ReadFault where
  | missing
  | denied
  | directory
  | notDirectory
  | notText
  | other (message : String)
deriving DecidableEq

def ReadFault.message : ReadFault → String
  | .missing => "No such file or directory (os error 2)"
  | .denied => "Permission denied (os error 13)"
  | .directory => "Is a directory (os error 21)"
  | .notDirectory => "Not a directory (os error 20)"
  | .notText => "stream did not contain valid UTF-8"
  | .other message => message

/-- Why a run ends without a result. -/
inductive RunFault where
  | unreadable (name : String) (fault : ReadFault)
  | badRegistry (name : String) (fault : Registry.LoadFault)
deriving DecidableEq

def RunFault.message : RunFault → String
  | .unreadable name f => "failed to read " ++ name ++ ": " ++ f.message
  | .badRegistry name .malformed => name ++ ": invalid configuration"
  | .badRegistry name (.invalid f) => name ++ ": " ++ f.message

/-- What checking one file gives. -/
inductive FileResult where
  | fixture (result : FixtureResult)
  | verdicts (file : String) (syntaxErrors : Diagnostics) (report : Option Report)

namespace FileResult

/-- Checks a file, with or without its expectations. -/
def ofFile (o : Options) (r : Registry) (f : SourceFile) : FileResult :=
  if o.verdictsOnly then
    let x := Outcome.ofFile r f
    .verdicts f.name x.syntaxErrors x.report
  else .fixture (.ofFile r f)

/-- Without expectations, a file passes when there are no issues with its grammar. -/
def passed : FileResult → Bool
  | .fixture x => x.passed
  | .verdicts _ errors _ => !errors.hasErrors

def toJson : FileResult → Json
  | .fixture x => x.toJson
  | .verdicts file errors report => .object (resultMembers file errors report)

/-- The lines that show a diagnostic. -/
def diagnosticLines (file : String) (d : Diagnostic) : List String :=
  [file ++ ":" ++ d.text]
    ++ (if d.sourceLine = "" then [] else ["    | " ++ d.sourceLine])
    ++ match d.suggestion with
      | some s => ["    = help: " ++ s]
      | none => []

/-- The lines that show diagnostics, and how many more there are. -/
def diagnosticsLines (file : String) (ds : Diagnostics) : List String :=
  ds.stored.flatMap (diagnosticLines file)
    ++ if 0 < ds.hidden then [file ++ ": " ++ toString ds.hidden ++ " more errors not shown"] else []

/-- The lines that show a result. -/
def lines : FileResult → List String
  | .fixture x =>
    diagnosticsLines x.file x.syntaxErrors
      ++ match x.report with
        | some _ =>
          diagnosticsLines x.file x.mismatches
            ++ [x.file ++ ": " ++ toString x.matchedCount ++ "/" ++ toString x.checks.length ++ " expectations met"]
        | none => []
  | .verdicts file errors report =>
    diagnosticsLines file errors
      ++ match report with
        | some r => r.verdicts.map fun v => file ++ ":" ++ v.text
        | none => []

end FileResult

/-- Lines as a text, each with its end. -/
def unlines (lines : List String) : String := String.join (lines.map (· ++ "\n"))

/-- How a run ends. -/
inductive Ending where
  | usage
  | failed (fault : RunFault)
  | finished (passed : Bool) (output : String)

namespace Ending

def exitCode : Ending → Nat
  | .usage | .failed _ => 2
  | .finished passed _ => if passed then 0 else 1

/-- What is printed as the result. -/
def output : Ending → String
  | .usage | .failed _ => ""
  | .finished _ text => text

end Ending

/-- The file system: the text of each file, or why it cannot be read. -/
abbrev Files := String → Except ReadFault String

/-- The registry that the options name, or the built-in one. -/
def loadRegistry (files : Files) : Option String → Except RunFault Registry
  | none => .ok .builtin
  | some name =>
    match files name with
    | .error f => .error (.unreadable name f)
    | .ok text =>
      match Registry.load text with
      | .error f => .error (.badRegistry name f)
      | .ok r => .ok r

/-- The results of files, in order; the first one that cannot be read decides. -/
def checkFiles (files : Files) (o : Options) (r : Registry) : List String → Except RunFault (List FileResult)
  | [] => .ok []
  | name :: names =>
    match files name with
    | .error f => .error (.unreadable name f)
    | .ok text => do
      let rest ← checkFiles files o r names
      .ok (.ofFile o r ⟨name, text⟩ :: rest)

/-- What results look like in a format. -/
def render (format : Format) (results : List FileResult) : String :=
  match format with
  | .text => unlines (results.flatMap FileResult.lines)
  | .json => (Json.array (results.map FileResult.toJson)).pretty ++ "\n"

/-- Runs what the options ask for. -/
def runWith (files : Files) (o : Options) : Except RunFault (Bool × String) := do
  let r ← loadRegistry files o.config
  let results ← checkFiles files o r o.files
  .ok (results.all FileResult.passed, render (o.format.getD .text) results)

/-- Runs a command line. -/
def run (files : Files) (args : List String) : Ending :=
  match Options.read? args with
  | none => .usage
  | some o =>
    match runWith files o with
    | .ok (passed, text) => .finished passed text
    | .error f => .failed f

end AnnotationChecker.CommandLine
