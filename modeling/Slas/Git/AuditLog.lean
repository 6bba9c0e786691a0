/-
  Slas.Git.AuditLog

  The audit log of the broker on disk (`slas_git.audit`): one row of JSON a line, of which only the
  detail is redacted.

  A row is what pydantic accepts: a user and an operation that are not empty, and no negative
  duration.  Times are UTC, and a duration is the decimal number that its text stands for.

  `kept_iff`: when the rows come back and all their texts are redacted.
-/

import Slas.Git.Push
import Slas.Git.Redact
import Slas.Kernel.JournalFile
import Slas.Lib.JsonLines
import Slas.Lib.JsonSpaced

namespace Slas

namespace Git

/-! ## Rows -/

/-- `AuditRow`, with all of its fields. -/
structure LoggedRow extends AuditRow where
  at_ : DateTime
  durationS : Decimal
  detail : String := ""
  traceId : Option String := none
  user_ne : user ≠ ""
  op_ne : op ≠ ""
  duration_nonneg : durationS.neg = false ∨ durationS.mant = 0
  deriving DecidableEq

namespace AuditResult

def value : AuditResult → String
  | ok => "ok"
  | refused => "refused"
  | failed => "failed"

def ofValue (text : String) : Option AuditResult :=
  [ok, refused, failed].find? fun result => result.value = text

theorem ofValue_value (result : AuditResult) : ofValue result.value = some result := by
  cases result <;> decide

def codec : Json.Codec AuditResult := .enum value ofValue ofValue_value

end AuditResult

namespace LoggedRow

variable (row : LoggedRow)

/-- `model_dump` -/
def fields : List (String × Json) :=
  [("at", dateTimeCodec.dump row.at_), ("user", Json.Codec.str.dump row.user),
   ("remote_id", strOpt.dump row.remoteId), ("remote_name", strOpt.dump row.remoteName),
   ("op", Json.Codec.str.dump row.op), ("branch", strOpt.dump row.branch),
   ("sha", strOpt.dump row.sha), ("result", AuditResult.codec.dump row.result),
   ("duration_s", Json.Codec.decimal.dump row.durationS),
   ("detail", Json.Codec.str.dump row.detail), ("trace_id", strOpt.dump row.traceId)]

/-- `model_validate` -/
def ofFields (kvs : List (String × Json)) : Option LoggedRow := do
  guard (Json.onlyKeys ["at", "user", "remote_id", "remote_name", "op", "branch", "sha", "result",
    "duration_s", "detail", "trace_id"] kvs)
  let at_ ← Json.fieldOr dateTimeCodec "at" none kvs
  let user ← Json.fieldOr Json.Codec.str "user" none kvs
  let remoteId ← Json.fieldOr strOpt "remote_id" (some none) kvs
  let remoteName ← Json.fieldOr strOpt "remote_name" (some none) kvs
  let op ← Json.fieldOr Json.Codec.str "op" none kvs
  let branch ← Json.fieldOr strOpt "branch" (some none) kvs
  let sha ← Json.fieldOr strOpt "sha" (some none) kvs
  let result ← Json.fieldOr AuditResult.codec "result" none kvs
  let durationS ← Json.fieldOr Json.Codec.decimal "duration_s" none kvs
  let detail ← Json.fieldOr Json.Codec.str "detail" (some "") kvs
  let traceId ← Json.fieldOr strOpt "trace_id" (some none) kvs
  if h : user ≠ "" ∧ op ≠ "" ∧ (durationS.neg = false ∨ durationS.mant = 0) then
    some { user, remoteId, remoteName, op, branch, sha, result, at_, durationS, detail, traceId
           user_ne := h.1, op_ne := h.2.1, duration_nonneg := h.2.2 }
  else none

theorem ofFields_fields : ofFields row.fields = some row := by
  obtain ⟨⟨user, remoteId, remoteName, op, branch, sha, result⟩, at_, durationS, detail, traceId,
    huser, hop, hduration⟩ := row
  have huser' : user ≠ "" := huser
  have hop' : op ≠ "" := hop
  simp [ofFields, fields, Json.onlyKeys, Json.fieldOr_tail, huser', hop', hduration]

/-- The string fields but for the detail. -/
def labels : List (Option String) :=
  [some row.user, row.remoteId, row.remoteName, some row.op, row.branch, row.sha, row.traceId]

/-- The string fields. -/
def texts : List (Option String) := some row.detail :: row.labels

/-- The characters of the string fields. -/
def chars : List Char := row.texts.flatMap fun text => (text.getD "").toList

end LoggedRow

/-! ## The log -/

/-- How a row is written and read. -/
def auditFormat : JsonLines.Format LoggedRow where
  dump row := Json.dumps (.obj row.fields)
  validate cs :=
    match Json.loadsText cs with
    | some (.obj kvs) => LoggedRow.ofFields kvs
    | _ => none
  chars := LoggedRow.chars

/-- `AuditLog`: the rows of this process, and the file, if there is one. -/
structure AuditLog where
  rows : List LoggedRow := []
  file : Option (List Char) := none

section Log

variable (U : Unicode)

/-- The row that is written. -/
def LoggedRow.clean (row : LoggedRow) : LoggedRow := { row with detail := redact U row.detail }

namespace AuditLog

/-- `record` -/
def record (log : AuditLog) (row : LoggedRow) : LoggedRow × AuditLog :=
  let clean := row.clean U
  (clean, { rows := log.rows ++ [clean]
            file := some (log.file.getD [] ++ (auditFormat.dump clean ++ ['\n'])) })

/-- `read_all`; a line that is no row raises. -/
def readAll (log : AuditLog) : Except (List Char) (List LoggedRow) :=
  match log.file with
  | none => .ok []
  | some text => JsonLines.read auditFormat text

/-- One row after the other: what `record` returns, and the log. -/
def recordAll : AuditLog → List LoggedRow → List LoggedRow × AuditLog
  | log, [] => ([], log)
  | log, row :: rows =>
    let (clean, log) := log.record U row
    let (returned, log) := recordAll log rows
    (clean :: returned, log)

end AuditLog

/-- Every string field is the redaction of the one that was passed. -/
def Redacted (passed written : LoggedRow) : Prop :=
  written.texts = passed.texts.map (Option.map (redact U))

/-- The rows come back, and all their texts are redacted. -/
structure Kept (rows : List LoggedRow) : Prop where
  readBack : (AuditLog.recordAll U {} rows).2.readAll = .ok (AuditLog.recordAll U {} rows).1
  redacted : List.Forall₂ (Redacted U) rows (AuditLog.recordAll U {} rows).1

/-- No text of the row as it is written has a line boundary that JSON leaves as it is, and there
    is nothing to redact in it but for the detail. -/
def Harmless (row : LoggedRow) : Prop :=
  JsonLines.Readable auditFormat (row.clean U) ∧
    ∀ label ∈ row.labels, label.map (redact U) = label

end Log

/-! ## One row -/

theorem ascii_of_mem_value (result : AuditResult) : ∀ c ∈ result.value.toList, Json.Ascii c := by
  cases result <;> simp [AuditResult.value, Json.Ascii]

theorem ascii_of_mem_keys (row : LoggedRow) :
    ∀ kv ∈ row.fields, ∀ c ∈ kv.1.toList, Json.Ascii c := by
  simp [LoggedRow.fields, Json.Ascii]

/-- A field is a text of the row, or a time, a result or a duration. -/
theorem chars_field (row : LoggedRow) : ∀ kv ∈ row.fields,
    (∃ text ∈ row.texts, Json.chars kv.2 = (text.getD "").toList) ∨
      ∀ c ∈ Json.chars kv.2, Json.Ascii c := by
  have htime : ∀ c ∈ Json.chars (dateTimeCodec.dump row.at_), Json.Ascii c := by
    simpa [dateTimeCodec, Json.chars] using DateTime.isoformat_ascii row.at_
  have hlabel : ∀ text ∈ row.texts, ∃ text' ∈ row.texts,
      Json.chars (strOpt.dump text) = (text'.getD "").toList :=
    fun text htext => ⟨text, htext, chars_strOpt text⟩
  simp only [LoggedRow.fields, List.forall_mem_cons, List.not_mem_nil, false_implies,
    implies_true, and_true]
  refine ⟨Or.inr htime, Or.inl (hlabel (some row.user) ?_), Or.inl (hlabel row.remoteId ?_),
    Or.inl (hlabel row.remoteName ?_), Or.inl (hlabel (some row.op) ?_),
    Or.inl (hlabel row.branch ?_), Or.inl (hlabel row.sha ?_),
    Or.inr (ascii_of_mem_value row.result), Or.inr (by simp [Json.Codec.decimal, Json.chars]),
    Or.inl (hlabel (some row.detail) ?_), Or.inl (hlabel row.traceId ?_)⟩
  all_goals simp [LoggedRow.texts, LoggedRow.labels]

/-- Each text of the row is in one of its fields. -/
theorem field_of_text (row : LoggedRow) : ∀ text ∈ row.texts,
    ∃ kv ∈ row.fields, Json.chars kv.2 = (text.getD "").toList := by
  have hfield : ∀ key text, (key, strOpt.dump text) ∈ row.fields →
      ∃ kv ∈ row.fields, Json.chars kv.2 = (text.getD "").toList :=
    fun key text hmem => ⟨_, hmem, chars_strOpt text⟩
  simp only [LoggedRow.texts, LoggedRow.labels, List.forall_mem_cons, List.not_mem_nil,
    false_implies, implies_true, and_true]
  refine ⟨hfield "detail" _ ?_, hfield "user" _ ?_, hfield "remote_id" _ ?_,
    hfield "remote_name" _ ?_, hfield "op" _ ?_, hfield "branch" _ ?_, hfield "sha" _ ?_,
    hfield "trace_id" _ ?_⟩
  all_goals simp [LoggedRow.fields, strOpt, Json.Codec.opt, Json.Codec.str]

theorem spells_loggedRow (row : LoggedRow) :
    Json.Spells (auditFormat.dump row) (auditFormat.chars row) := by
  have hspells := Json.spells_dumps (.obj row.fields)
  have hmem : ∀ c, c ∈ Json.chars (.obj row.fields) ↔
      ∃ kv ∈ row.fields, c ∈ kv.1.toList ∨ c ∈ Json.chars kv.2 := by
    simp [Json.chars, Json.charsFields_eq]
  constructor
  · intro x hx
    rcases hspells.own x hx with hascii | ⟨hx, hlow⟩
    · exact Or.inl hascii
    · obtain ⟨kv, hkv, hkey | hvalue⟩ := (hmem x).mp hx
      · exact Or.inl (ascii_of_mem_keys row kv hkv x hkey)
      · rcases chars_field row kv hkv with ⟨text, htext, heq⟩ | hascii
        · exact Or.inr ⟨List.mem_flatMap.mpr ⟨text, htext, heq ▸ hvalue⟩, hlow⟩
        · exact Or.inl (hascii x hvalue)
  · intro x hx hwide
    obtain ⟨text, htext, hx⟩ := List.mem_flatMap.mp hx
    obtain ⟨kv, hkv, heq⟩ := field_of_text row text htext
    exact hspells.wide x ((hmem x).mpr ⟨kv, hkv, Or.inr (heq ▸ hx)⟩) hwide

theorem auditFormat_lawful : auditFormat.Lawful where
  validate_dump row := by simp [auditFormat, Json.loadsText_dumps, LoggedRow.ofFields_fields]
  spells := spells_loggedRow
  brace row := ⟨_, rfl⟩
  cut row p q hpq hq := by simp [auditFormat, Json.loadsText_cut hpq hq]

/-! ## The rows of a log -/

section Log

variable {U : Unicode}

theorem recordAll_eq (log : AuditLog) (rows : List LoggedRow) :
    AuditLog.recordAll U log rows = (rows.map (LoggedRow.clean U),
      { rows := log.rows ++ rows.map (LoggedRow.clean U)
        file := if rows = [] then log.file
          else some (log.file.getD [] ++
            JsonLines.textOf auditFormat (rows.map (LoggedRow.clean U))) }) := by
  induction rows generalizing log with
  | nil => simp [AuditLog.recordAll]
  | cons row rows ih =>
    rw [AuditLog.recordAll]
    dsimp only
    rw [ih]
    by_cases hnil : rows = []
    · simp [AuditLog.record, JsonLines.textOf, hnil]
    · simp [AuditLog.record, JsonLines.textOf, hnil]

theorem readAll_recordAll (rows : List LoggedRow) :
    (AuditLog.recordAll U {} rows).2.readAll =
      JsonLines.read auditFormat (JsonLines.textOf auditFormat (rows.map (LoggedRow.clean U))) := by
  rw [recordAll_eq]
  cases rows with
  | nil => rfl
  | cons row rows => simp [AuditLog.readAll]

theorem redacted_clean_iff (row : LoggedRow) :
    Redacted U row (row.clean U) ↔ ∀ label ∈ row.labels, label.map (redact U) = label := by
  have htexts : (row.clean U).texts = some (redact U row.detail) :: row.labels := by
    simp only [LoggedRow.texts, LoggedRow.labels, LoggedRow.clean]
  rw [Redacted, htexts, LoggedRow.texts, List.map_cons, Option.map_some]
  have hsame : row.labels.map (Option.map (redact U)) = row.labels ↔
      ∀ label ∈ row.labels, label.map (redact U) = label := by
    conv_lhs => rhs; rw [← List.map_id row.labels]
    exact List.map_inj_left
  rw [← hsame]
  exact ⟨fun h => (List.cons.inj h).2.symm, fun h => congrArg _ h.symm⟩

/-- **The audit log keeps its promise** exactly for rows that are harmless: they come back, and
    all their texts are redacted. -/
theorem kept_iff (rows : List LoggedRow) : Kept U rows ↔ ∀ row ∈ rows, Harmless U row := by
  have hback : (AuditLog.recordAll U {} rows).2.readAll = .ok (AuditLog.recordAll U {} rows).1 ↔
      ∀ row ∈ rows, JsonLines.Readable auditFormat (row.clean U) := by
    rw [readAll_recordAll, recordAll_eq, auditFormat_lawful.read_textOf_iff, List.forall_mem_map]
  have hredacted : List.Forall₂ (Redacted U) rows (AuditLog.recordAll U {} rows).1 ↔
      ∀ row ∈ rows, ∀ label ∈ row.labels, label.map (redact U) = label := by
    rw [recordAll_eq, List.forall₂_map_right_iff, List.forall₂_same]
    simp only [redacted_clean_iff]
  constructor
  · rintro ⟨hread, hall⟩ row hrow
    exact ⟨hback.mp hread row hrow, hredacted.mp hall row hrow⟩
  · intro h
    exact ⟨hback.mpr fun row hrow => (h row hrow).1, hredacted.mpr fun row hrow => (h row hrow).2⟩

end Log

-- Two rows

/-- A push that failed with a line separator in its message. -/
def separated : LoggedRow where
  user := "eva"
  remoteId := none
  remoteName := none
  op := "push_branch"
  branch := none
  sha := none
  result := .failed
  at_ := (0 : Nat)
  durationS := ⟨false, 5, 1⟩
  detail := "\u2028"
  user_ne := by decide
  op_ne := by decide
  duration_nonneg := by decide

/-- The first row does not come back, and the password in the second is written. -/
theorem separated_not_kept : ¬ Kept Unicode.ascii [separated] ∧
    ¬ Kept Unicode.ascii [{ separated with detail := "", branch := some "secret=fix-12345" }] := by
  constructor
  · intro h
    have hback := h.readBack
    rw [readAll_recordAll, recordAll_eq, auditFormat_lawful.read_textOf_iff] at hback
    have hreadable := hback (separated.clean Unicode.ascii) List.mem_cons_self
    have hclean : (separated.clean Unicode.ascii).chars = "\u2028evapush_branch".toList := by
      decide +kernel
    have hmem : '\u2028' ∈ (separated.clean Unicode.ascii).chars := by
      rw [hclean]
      decide
    exact absurd (hreadable _ hmem) (by decide)
  · intro h
    have hredacted := h.redacted
    rw [recordAll_eq, List.forall₂_map_right_iff, List.forall₂_same] at hredacted
    have hlabel := (redacted_clean_iff _).mp (hredacted _ List.mem_cons_self)
      (some "secret=fix-12345") (by decide)
    exact absurd hlabel (by decide +kernel)

end Git

end Slas
