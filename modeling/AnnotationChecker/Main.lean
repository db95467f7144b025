import AnnotationChecker.CommandLine
/-!
# The program

Reads the files that the command line names, runs it, prints, and exits with 0 when every file passes, with
1 when one does not, and with 2 when there is no result.
-/

namespace AnnotationChecker.CommandLine

/-- How to call the program. -/
def usageText : String :=
  "usage: annotation-checker [--config FILE] [--format text|json] [-v]... [--no-expectations] FILE..."

/-- Why reading a file failed. -/
def readFault (e : IO.Error) : ReadFault :=
  match e with
  | .noFileOrDirectory _ _ _ => .missing
  | .permissionDenied _ _ _ => .denied
  | .inappropriateType _ 21 _ => .directory
  | .inappropriateType _ 20 _ => .notDirectory
  | e => .other (toString e)

/-- Reads a file as text. -/
def readText (name : String) : IO (Except ReadFault String) := do
  try
    let bytes ← IO.FS.readBinFile name
    match String.fromUTF8? bytes with
    | some text => return .ok text
    | none => return .error .notText
  catch e => return .error (readFault e)

/-- The file system as far as the options reach: every file they name, read once. -/
def readFiles (o : Options) : IO Files := do
  let names := o.config.toList ++ o.files
  let mut texts : List (String × Except ReadFault String) := []
  for name in names do
    texts := (name, ← readText name) :: texts
  return fun name => ((texts.find? fun t => t.1 == name).map (·.2)).getD (.error .missing)

/-- Runs the program. -/
def runProgram (args : List String) : IO UInt32 := do
  let files ← match Options.read? args with
    | some o => readFiles o
    | none => pure fun _ => .error .missing
  let ending := run files args
  match ending with
  | .usage => IO.eprintln usageText
  | .failed f => IO.eprintln ("error: " ++ f.message)
  | .finished _ text => IO.print text
  return UInt32.ofNat ending.exitCode

end AnnotationChecker.CommandLine

def main (args : List String) : IO UInt32 := AnnotationChecker.CommandLine.runProgram args
