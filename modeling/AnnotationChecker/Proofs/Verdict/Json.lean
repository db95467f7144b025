import AnnotationChecker.Verdict.Json
import AnnotationChecker.Proofs.Json.Decoded
import AnnotationChecker.Proofs.Json.Written
/-!
# Reports are read back from their texts

The text of a report, on one line or over several, is read as the same report if its numbers have the widths that the
reader allows (`Report.parse?_written`). So reports with the same text on one line, the text that is hashed, are the same.
-/

namespace AnnotationChecker

open Json (Plain)

/-! ## Parts -/

theorem Status.ofJson?_text (s : Status) : ofJson? (.string s.text) = some s := by
  cases s <;> decide

theorem Reason.ofJson?_text (r : Reason) : ofJson? (.string r.text) = some r := by
  cases r <;> decide

/-- Lines and columns have 32 bits. -/
structure Span.InRange (s : Span) : Prop where
  startLine : s.startLine < 0x100000000
  startCol : s.startCol < 0x100000000
  endLine : s.endLine < 0x100000000
  endCol : s.endCol < 0x100000000

/-- The number of a code has 16 bits. -/
def ErrorCode.InRange (c : ErrorCode) : Prop := c.number < 0x10000

theorem ErrorCode.ofJson?_number {c : ErrorCode} (h : c.InRange) : ofJson? (.nat c.number) = some c := by
  rw [ofJson?, Json.natBelow?_nat h, Option.map_some]

theorem Span.ofMembers?_members {s : Span} (h : s.InRange) {ms ns : List (String × Json)}
    (hm : ∀ key ∈ Json.keys s.members, Json.member? ms key = none) : ofMembers? (ms ++ s.members ++ ns) = some s := by
  have hl : coordinate? (.nat s.startLine) = some s.startLine := Json.natBelow?_nat h.startLine
  have hc : coordinate? (.nat s.startCol) = some s.startCol := Json.natBelow?_nat h.startCol
  have hel : coordinate? (.nat s.endLine) = some s.endLine := Json.natBelow?_nat h.endLine
  have hec : coordinate? (.nat s.endCol) = some s.endCol := Json.natBelow?_nat h.endCol
  simp only [members, Json.keys, List.map_cons, List.map_nil, List.forall_mem_cons] at hm
  obtain ⟨hml, hmc, hmel, hmec, -⟩ := hm
  unfold ofMembers?
  refine Option.bind_eq_some_iff.2 ⟨_, by simp [members, hml], Option.bind_eq_some_iff.2 ⟨_, hl, ?_⟩⟩
  refine Option.bind_eq_some_iff.2 ⟨_, by simp [members, hmc], Option.bind_eq_some_iff.2 ⟨_, hc, ?_⟩⟩
  refine Option.bind_eq_some_iff.2 ⟨_, by simp [members, hmel], Option.bind_eq_some_iff.2 ⟨_, hel, ?_⟩⟩
  exact Option.bind_eq_some_iff.2 ⟨_, by simp [members, hmec], Option.bind_eq_some_iff.2 ⟨_, hec, rfl⟩⟩

/-! ## Verdicts -/

namespace Verdict

/-- The numbers of a verdict have the widths that are read; a position has 64 bits. -/
structure InRange (v : Verdict) : Prop where
  index : v.index < 0x10000000000000000
  span : v.span.InRange
  code : ∀ c ∈ v.code, c.InRange

variable {v : Verdict}

/-- A verdict is decoded from what is written for it. -/
theorem ofJson?_toJson (h : v.InRange) : ofJson? v.toJson = some v := by
  obtain ⟨index, span, status, reason, code, message⟩ := v
  have hindex : index? (.nat index) = some index := Json.natBelow?_nat h.index
  unfold toJson ofJson?
  refine Option.bind_eq_some_iff.2 ⟨_, rfl, ?_⟩
  generalize hms : [("index", Json.nat index)] ++ span.members ++ [("status", .string status.text)]
      ++ Json.optional "reason" (reason.map fun r => .string r.text)
      ++ Json.optional "code" (code.map fun c => .nat c.number)
      ++ Json.optional "message" (message.map .string) = ms
  have honce : Json.occurOnce known ms = true := by
    subst hms
    cases reason <;> cases code <;> cases message <;> simp [Json.occurOnce, Json.keys, Json.optional, known, Span.members]
  have hfirst : Json.member? ms "index" = some (.nat index) := by subst hms; simp
  have hspan : Span.ofMembers? ms = some span := by
    subst hms
    simp only [List.append_assoc]
    rw [← List.append_assoc]
    exact Span.ofMembers?_members h.span (by simp [Span.members, Json.keys])
  have hstatus : Json.member? ms "status" = some (.string status.text) := by subst hms; simp [Span.members]
  have hreason : Json.member? ms "reason" = reason.map fun r => .string r.text := by subst hms; simp [Span.members]
  have hcode : Json.member? ms "code" = code.map fun c => .nat c.number := by subst hms; simp [Span.members]
  have hmessage : Json.member? ms "message" = message.map .string := by subst hms; simp [Span.members]
  have hnumber : ∀ c ∈ code, ErrorCode.ofJson? (.nat c.number) = some c :=
    fun c hc => ErrorCode.ofJson?_number (h.code c hc)
  -- the decoders of the members, in their order
  rw [honce]
  refine Option.bind_eq_some_iff.2 ⟨_, hfirst, Option.bind_eq_some_iff.2 ⟨_, hindex, ?_⟩⟩
  refine Option.bind_eq_some_iff.2 ⟨_, hspan, ?_⟩
  refine Option.bind_eq_some_iff.2 ⟨_, hstatus, Option.bind_eq_some_iff.2 ⟨_, Status.ofJson?_text status, ?_⟩⟩
  refine Option.bind_eq_some_iff.2 ⟨_, Json.optionalMember_written hreason (by simp) fun r _ => Reason.ofJson?_text r, ?_⟩
  refine Option.bind_eq_some_iff.2 ⟨_, Json.optionalMember_written hcode (by simp [Json.nat]) hnumber, ?_⟩
  exact Option.bind_eq_some_iff.2 ⟨_, Json.optionalMember_written hmessage (by simp) fun _ _ => rfl, rfl⟩

theorem plain_toJson (h : v.InRange) (room : Nat) : Plain (room + 1) v.toJson := by
  have hnat : ∀ n < 10 ^ 20, Plain room (.nat n) := fun n hn => .int (Json.isShort_of_lt hn)
  have hspan : ∀ m ∈ v.span.members, Plain room m.2 := by
    obtain ⟨hl, hc, hel, hec⟩ := h.span
    simp only [Span.members, List.forall_mem_cons]
    exact ⟨hnat _ (by omega), hnat _ (by omega), hnat _ (by omega), hnat _ (by omega), by simp⟩
  have hreason : ∀ w ∈ v.reason.map fun r => Json.string r.text, Plain room w := by
    simpa using fun r _ => .string _
  have hcode : ∀ w ∈ v.code.map fun c => Json.nat c.number, Plain room w := by
    intro w hw
    obtain ⟨c, hc, rfl⟩ := Option.map_eq_some_iff.1 hw
    have hlt : c.number < 0x10000 := h.code c hc
    exact hnat _ (by omega)
  have hmessage : ∀ w ∈ v.message.map Json.string, Plain room w := by
    simpa using fun m _ => .string _
  refine .object fun m hm => ?_
  simp only [List.mem_append, List.mem_singleton] at hm
  obtain ((((rfl | hm) | rfl) | hm) | hm) | hm := hm
  · exact hnat _ (by have := h.index; omega)
  · exact hspan m hm
  · exact .string _
  · exact Json.plain_optional hreason m hm
  · exact Json.plain_optional hcode m hm
  · exact Json.plain_optional hmessage m hm

end Verdict

/-! ## Reports -/

namespace Report

/-- Every verdict has numbers of the widths that are read. -/
def InRange (r : Report) : Prop := ∀ v ∈ r.verdicts, v.InRange

variable {r : Report}

theorem ofJson?_toJson (h : r.InRange) : ofJson? r.toJson = some r := by
  have hverdicts : (r.verdicts.map Verdict.toJson).mapM Verdict.ofJson? = some r.verdicts :=
    Json.mapM_written fun v hv => Verdict.ofJson?_toJson (h v hv)
  unfold toJson ofJson? ofVerdictsJson?
  simp [Json.object?, Json.occurOnce, Json.keys, Json.array?, hverdicts]

theorem parse?_write (h : r.InRange) (l : Json.Layout) : parse? (String.ofList (r.toJson.write l 0)) = some r := by
  have hplain : Plain (Json.maxNesting - 1) (.array (r.verdicts.map Verdict.toJson)) := by
    refine .array fun w hw => ?_
    obtain ⟨v, hv, rfl⟩ := List.mem_map.1 hw
    exact Verdict.plain_toJson (h v hv) _
  have hwhole : Json.parseKnowing? (· == "verdicts") (String.ofList (r.toJson.write l 0)) = some r.toJson :=
    Json.whole?_written (Json.reads_outermost (by simpa using hplain))
  unfold parse?
  rw [hwhole]
  exact ofJson?_toJson h

/-- A report whose numbers have the widths that are read is read back from its text, on one line and over several. So no
other such report has the text that is hashed. -/
theorem parse?_written (h : r.InRange) :
    parse? r.toJson.compact = some r ∧ parse? r.toJson.pretty = some r ∧
      ∀ r' : Report, r'.InRange → r'.toJson.compact = r.toJson.compact → r' = r := by
  refine ⟨parse?_write h .compact, parse?_write h .indented, fun r' h' he => ?_⟩
  have hr : parse? r.toJson.compact = some r := parse?_write h .compact
  have hr' : parse? r'.toJson.compact = some r' := parse?_write h' .compact
  rw [he, hr] at hr'
  exact (Option.some.inj hr').symm

/-- A report with numbers at their limits, and with a message of quotes, controls and other characters. -/
def sample : Report :=
  ⟨[.ok 0 ⟨1, 1, 1, 9⟩,
    { index := 0xffffffffffffffff, span := ⟨2, 1, 0xffffffff, 0xffffffff⟩, status := .err, reason := some .invalidHint,
      code := some ⟨0xffff⟩, message := some "\"\\\n\x01\x7f \u00e9\uffff" }]⟩

theorem parse?_written_sample : sample.InRange ∧ parse? sample.toJson.compact = some sample ∧
    parse? sample.toJson.pretty = some sample := by
  have hrange : sample.InRange := by
    intro v hv
    simp only [sample, List.mem_cons, List.not_mem_nil, or_false] at hv
    obtain rfl | rfl := hv
    · exact ⟨by decide, ⟨by decide, by decide, by decide, by decide⟩, by simp [Verdict.ok]⟩
    · exact ⟨by decide, ⟨by decide, by decide, by decide, by decide⟩, by simp [ErrorCode.InRange]⟩
  obtain ⟨hcompact, hpretty, -⟩ := parse?_written hrange
  exact ⟨hrange, hcompact, hpretty⟩

end Report

end AnnotationChecker
