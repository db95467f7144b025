import AnnotationChecker.Verdict
import AnnotationChecker.Digest
import AnnotationChecker.Diagnostic.Json
import AnnotationChecker.Json.Decode
import AnnotationChecker.Json.Reader
/-!
# Reports as JSON

A verdict is one object, with the four members of its span in line; what it has not, it leaves out. Reading
ignores members that are not known. The digest of a report is the hash of its compact text.
-/

namespace AnnotationChecker

/-! ## Writing -/

def Verdict.toJson (v : Verdict) : Json :=
  .object ([("index", .nat v.index)] ++ v.span.members ++ [("status", .string v.status.text)]
    ++ Json.optional "reason" (v.reason.map fun r => .string r.text)
    ++ Json.optional "code" (v.code.map fun c => .nat c.number)
    ++ Json.optional "message" (v.message.map .string))

namespace Report

def toJson (r : Report) : Json := .object [("verdicts", .array (r.verdicts.map Verdict.toJson))]

/-- The hash of the compact text. -/
def digest (r : Report) : String := Digest.hexOfText r.toJson.compact

end Report

/-! ## Reading -/

/-- A line or a column, of 32 bits. -/
def Span.coordinate? : Json → Option Nat := Json.natBelow? 0x100000000

/-- The span among the members of an object. -/
def Span.ofMembers? (ms : List (String × Json)) : Option Span := do
  let l ← Json.member? ms "line"
  let l ← coordinate? l
  let c ← Json.member? ms "column"
  let c ← coordinate? c
  let el ← Json.member? ms "end_line"
  let el ← coordinate? el
  let ec ← Json.member? ms "end_column"
  let ec ← coordinate? ec
  some ⟨l, c, el, ec⟩

def Status.ofJson? : Json → Option Status := Json.choice? [.ok, .err] Status.text

def Reason.ofJson? : Json → Option Reason := Json.choice? Reason.all Reason.text

/-- The number of a code, of 16 bits. -/
def ErrorCode.ofJson? (v : Json) : Option ErrorCode := (v.natBelow? 0x10000).map ErrorCode.mk

namespace Verdict

/-- The members of a verdict that are known. -/
def known : List String :=
  ["index", "line", "column", "end_line", "end_column", "status", "reason", "code", "message"]

/-- Positions have 64 bits. -/
def index? : Json → Option Nat := Json.natBelow? 0x10000000000000000

/-- A verdict from an object in which no known member occurs twice. -/
def ofJson? (v : Json) : Option Verdict := do
  let ms ← v.object?
  if !Json.occurOnce known ms then none
  let index ← Json.member? ms "index"
  let index ← index? index
  let span ← Span.ofMembers? ms
  let status ← Json.member? ms "status"
  let status ← Status.ofJson? status
  let reason ← Json.optionalMember ms "reason" Reason.ofJson?
  let code ← Json.optionalMember ms "code" ErrorCode.ofJson?
  let message ← Json.optionalMember ms "message" Json.string?
  some { index, span, status, reason, code, message }

end Verdict

namespace Report

/-- A report from its verdicts. -/
def ofVerdictsJson? (v : Json) : Option Report := do
  let vs ← v.array?
  let vs ← vs.mapM Verdict.ofJson?
  some ⟨vs⟩

/-- A report from an object, or from an array that holds its verdicts. -/
def ofJson? (v : Json) : Option Report :=
  match v with
  | .array [vs] => ofVerdictsJson? vs
  | v => do
    let ms ← v.object?
    if !Json.occurOnce ["verdicts"] ms then none
    let vs ← Json.member? ms "verdicts"
    ofVerdictsJson? vs

/-- The report that a JSON text describes. -/
def parse? (text : String) : Option Report := do
  let v ← Json.parseKnowing? (· == "verdicts") text
  ofJson? v

end Report

end AnnotationChecker
