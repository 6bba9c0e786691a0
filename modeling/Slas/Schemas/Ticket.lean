/-
  Slas.Schemas.Ticket

  Every job is a ticket: its state machine, the records it carries and what
  the kernel asks of them, as `slas_schemas.ticket` and `slas_schemas.journal`
  define them.  `Observation.codec` is what the write-ahead journal stores of
  an observation and what recovery reads back.
-/

import Slas.Schemas.Basic

namespace Slas

/-! ## The state machine -/

inductive TicketState where
  | open
  | planned
  | approved
  | running
  | analysing
  | needsReview
  | done
  | failed
  deriving DecidableEq, Repr

namespace TicketState

def value : TicketState → String
  | .open => "Open"
  | .planned => "Planned"
  | .approved => "Approved"
  | .running => "Running"
  | .analysing => "Analysing"
  | .needsReview => "Needs review"
  | .done => "Done"
  | .failed => "Failed"

/-- `TRANSITIONS`: the states each state may become. -/
def transitions : TicketState → List TicketState
  | .open => [.planned, .failed]
  | .planned => [.approved, .failed]
  | .approved => [.running, .failed]
  | .running => [.analysing, .failed]
  | .analysing => [.needsReview, .done, .failed]
  | .needsReview => [.done, .failed]
  | .done => []
  | .failed => []

/-- `TERMINAL_STATES`. -/
def terminal : TicketState → Bool
  | .done => true
  | .failed => true
  | _ => false

def canTransition (current target : TicketState) : Bool := current.transitions.contains target

end TicketState

structure StateChange where
  fromState : TicketState
  toState : TicketState
  at_ : DateTime
  reason : String
  deriving DecidableEq, Repr

/-! ## What a ticket carries -/

/-- A per-run human decision on one destructive step. -/
structure Approval where
  stepId : String
  requestedAt : DateTime
  decidedAt : Option DateTime := none
  decidedBy : Option String := none
  approved : Option Bool := none
  note : String := ""
  deriving DecidableEq, Repr

def Approval.pending (a : Approval) : Bool := a.approved.isNone

inductive ExportKind where
  | zip
  | sop
  | report
  | bundle
  | backup
  deriving DecidableEq, Repr

namespace ExportKind

def value : ExportKind → String
  | .zip => "zip"
  | .sop => "sop"
  | .report => "report"
  | .bundle => "bundle"
  | .backup => "backup"

def ofValue (s : String) : Option ExportKind :=
  if s = "zip" then some .zip
  else if s = "sop" then some .sop
  else if s = "report" then some .report
  else if s = "bundle" then some .bundle
  else if s = "backup" then some .backup
  else none

def codec : Json.Codec ExportKind := .enum value ofValue (by intro a; cases a <;> decide)

end ExportKind

/-- The pattern `^[0-9a-f]{64}$`. -/
def IsSha256 (s : String) : Prop :=
  s.toList.length = 64 ∧ s.toList.all isHexDigit = true

instance : DecidablePred IsSha256 := fun _ => inferInstanceAs (Decidable (_ ∧ _))

structure Export where
  kind : ExportKind
  path : String
  sha256 : Option {s : String // IsSha256 s} := none
  deriving DecidableEq

def sha256Codec : Json.Codec (Option {s : String // IsSha256 s}) :=
  (Json.Codec.str.sub IsSha256).opt (fun _ h => nomatch h)

def Export.codec : Json.Codec Export where
  dump e := .obj
    [("kind", ExportKind.codec.dump e.kind), ("path", Json.Codec.str.dump e.path),
     ("sha256", sha256Codec.dump e.sha256)]
  validate
    | .obj kvs => do
      guard (Json.onlyKeys ["kind", "path", "sha256"] kvs)
      let kind ← Json.fieldOr ExportKind.codec "kind" none kvs
      let path ← Json.fieldOr Json.Codec.str "path" none kvs
      let sha256 ← Json.fieldOr sha256Codec "sha256" (some none) kvs
      some ⟨kind, path, sha256⟩
    | _ => none
  validate_dump := by
    rintro ⟨kind, path, sha256⟩
    simp [Json.onlyKeys, Json.fieldOr_tail]

/-- What the executor saw after performing one step. -/
structure Observation where
  exitCode : Option Int := none
  stdout : String := ""
  stderr : String := ""
  screenshots : List String := []
  summary : String := ""
  votes : List Vote := []
  exports : List Export := []
  findings : List Finding := []
  deriving DecidableEq

namespace Observation

def exitCodeCodec : Json.Codec (Option Int) := Json.Codec.int.opt (fun _ h => nomatch h)

/-- `model_dump(mode="json")`, as the members of the object. -/
def modelDump (o : Observation) : List (String × Json) :=
  [("exit_code", exitCodeCodec.dump o.exitCode), ("stdout", Json.Codec.str.dump o.stdout),
   ("stderr", Json.Codec.str.dump o.stderr),
   ("screenshots", Json.Codec.str.list.dump o.screenshots),
   ("summary", Json.Codec.str.dump o.summary), ("votes", Vote.codec.list.dump o.votes),
   ("exports", Export.codec.list.dump o.exports),
   ("findings", Finding.codec.list.dump o.findings)]

/-- `Observation.model_validate`. -/
def modelValidate (kvs : List (String × Json)) : Option Observation := do
  guard (Json.onlyKeys ["exit_code", "stdout", "stderr", "screenshots", "summary", "votes",
    "exports", "findings"] kvs)
  let exitCode ← Json.fieldOr exitCodeCodec "exit_code" (some none) kvs
  let stdout ← Json.fieldOr Json.Codec.str "stdout" (some "") kvs
  let stderr ← Json.fieldOr Json.Codec.str "stderr" (some "") kvs
  let screenshots ← Json.fieldOr Json.Codec.str.list "screenshots" (some []) kvs
  let summary ← Json.fieldOr Json.Codec.str "summary" (some "") kvs
  let votes ← Json.fieldOr Vote.codec.list "votes" (some []) kvs
  let exports ← Json.fieldOr Export.codec.list "exports" (some []) kvs
  let findings ← Json.fieldOr Finding.codec.list "findings" (some []) kvs
  some ⟨exitCode, stdout, stderr, screenshots, summary, votes, exports, findings⟩

/-- Recovery reads exactly the observation that was journalled. -/
@[simp] theorem modelValidate_modelDump (o : Observation) : modelValidate o.modelDump = some o := by
  obtain ⟨exitCode, stdout, stderr, screenshots, summary, votes, exports, findings⟩ := o
  simp [modelValidate, modelDump, Json.onlyKeys, Json.fieldOr_tail]

end Observation

inductive Outcome where
  | ok
  | fail
  | retry
  deriving DecidableEq, Repr

/-- The agent's judgement of one observation. -/
structure StepVerdict where
  outcome : Outcome
  sentence : String
  deriving DecidableEq, Repr

inductive StepStatus where
  | pending
  | running
  | done
  | failed
  | skipped
  deriving DecidableEq, Repr

structure StepRecord where
  stepId : String
  n : Nat
  title : String
  status : StepStatus := .pending
  startedAt : Option DateTime := none
  finishedAt : Option DateTime := none
  observation : Option Observation := none
  verdict : Option StepVerdict := none
  deriving DecidableEq

structure LogBundle where
  stdoutPath : Option String := none
  stderrPath : Option String := none
  consolePath : Option String := none
  screenshots : List String := []
  lineCounts : List (String × Nat) := []
  deriving DecidableEq, Repr

structure Rca where
  cause : String
  evidence : List String := []
  confidence : Decimal
  uncertain : Bool := true
  fingerprint : Option Fingerprint := none
  deriving DecidableEq

/-- Both renderings and the structured source, always together. -/
structure SopRefs where
  en : String
  zh : String
  data : String
  deriving DecidableEq, Repr

structure Ticket where
  id : String
  agent : AgentName
  user : String
  title : String
  state : TicketState := .open
  job : Job
  plan : Option Plan := none
  approvals : List Approval := []
  votes : List Vote := []
  steps : List StepRecord := []
  logs : Option LogBundle := none
  findings : List Finding := []
  rca : Option Rca := none
  sop : Option SopRefs := none
  exports : List Export := []
  parent : Option String := none
  createdAt : DateTime
  updatedAt : DateTime
  history : List StateChange := []

namespace Ticket

/-- The ticket after a legal change of state. -/
def moved (t : Ticket) (target : TicketState) (at' : DateTime) (reason : String) : Ticket :=
  { t with
    history := t.history ++ [⟨t.state, target, at', reason⟩]
    state := target
    updatedAt := at' }

/-- `Ticket.transition`: the moved ticket, or nothing where the source raises
    `IllegalTransitionError`. -/
def transition (t : Ticket) (target : TicketState) (at' : DateTime) (reason : String) :
    Option Ticket :=
  if t.state.canTransition target then some (t.moved target at' reason) else none

def stepRecord (t : Ticket) (stepId : String) : Option StepRecord :=
  t.steps.find? (·.stepId == stepId)

/-- The records with the first one of that id changed in place. -/
def updateFirst (stepId : String) (f : StepRecord → StepRecord) : List StepRecord → List StepRecord
  | [] => []
  | r :: rs => if r.stepId = stepId then f r :: rs else r :: updateFirst stepId f rs

/-- The ticket with the record `stepRecord` finds changed in place. -/
def updateRecord (t : Ticket) (stepId : String) (f : StepRecord → StepRecord) : Ticket :=
  { t with steps := updateFirst stepId f t.steps }

def pendingApprovals (t : Ticket) : List Approval := t.approvals.filter (·.pending)

def finished (t : Ticket) : Bool := t.state.terminal

/-- One line for lists and the activity feed. -/
def sentence (t : Ticket) : String :=
  let total := match t.plan with
    | some plan => plan.steps.length
    | none => 0
  let done := (t.steps.filter (·.status == .done)).length
  if t.state = .running then
    let place := match t.steps.find? (·.status == .running) with
      | some r => "step " ++ toString r.n ++ " of " ++ toString total
      | none => toString done ++ " of " ++ toString total ++ " steps done"
    t.id ++ " is running: " ++ place ++ "."
  else if t.state = .planned ∧ t.pendingApprovals ≠ [] then
    let count := t.pendingApprovals.length
    let noun := if count = 1 then "step needs" else "steps need"
    t.id ++ " is planned and waiting: " ++ toString count ++ " " ++ noun ++ " your approval."
  else if t.state = .needsReview then
    t.id ++ " needs your review: " ++ toString done ++ " of " ++ toString total ++
      " steps finished."
  else t.id ++ " is " ++ t.state.value.toLower ++ "."

end Ticket

/-! ## Journal entries -/

inductive JournalKind where
  | intent
  | action
  | observation
  | state
  | note
  deriving DecidableEq, Repr

namespace JournalKind

def value : JournalKind → String
  | .intent => "intent"
  | .action => "action"
  | .observation => "observation"
  | .state => "state"
  | .note => "note"

def ofValue (s : String) : Option JournalKind :=
  if s = "intent" then some .intent
  else if s = "action" then some .action
  else if s = "observation" then some .observation
  else if s = "state" then some .state
  else if s = "note" then some .note
  else none

def codec : Json.Codec JournalKind := .enum value ofValue (by intro a; cases a <;> decide)

end JournalKind

/-- One line of a ticket's write-ahead journal. -/
structure JournalEntry where
  seq : Nat
  at_ : DateTime
  ticketId : String
  kind : JournalKind
  stepId : Option String := none
  payload : List (String × Json) := []
  traceId : Option String := none
  seq_pos : 1 ≤ seq

end Slas
