/-
  Slas.Kernel.World

  What the kernel works on: everything that survives the process, and the
  parts it is built from (`slas_kernel.kernel`, `store`, `journal`, `agent`,
  `executor`, `skills`).

  The world holds the ticket files, the ticket sequence, the journals, the bug
  index and the log and SOP files under one data root.  Beside them it keeps
  the calls of `executor.execute` with the stored ticket and the journal at
  that moment, so that a property of the calls is one of the world.

  A journal is its list of entries; `EntryFormat.Lawful.entries_fileOf` is why
  reading it fails exactly when one of them is not readable.
-/

import Slas.Kernel.JournalFile
import Slas.Kernel.Rca
import Slas.Lib.Crash

namespace Slas

open Crash

/-! ## The world -/

/-- What an executor is told beside the step. -/
structure ExecutionContext where
  ticketId : String
  jobId : String
  agent : AgentName
  user : String
  traceId : Option String := none

/-- `slas_hal.hal.CommandResult`: how a program ended. -/
structure CommandResult where
  exitCode : Int
  stdout : String := ""
  stderr : String := ""

/-- One call of `executor.execute`, with what was on disk when it was made. -/
structure ExecCall where
  step : Step
  context : ExecutionContext
  stored : Option Ticket
  journal : List JournalEntry

structure World where
  tickets : String → Option Ticket := fun _ => none
  sequence : AgentName → Nat := fun _ => 0
  journals : String → List JournalEntry := fun _ => []
  bugIndex : BugIndex := []
  files : String → Option String := fun _ => none
  ticks : Nat := 0
  calls : List ExecCall := []

namespace World

def saveTicket (t : Ticket) (w : World) : World :=
  { w with tickets := Function.update w.tickets t.id (some t) }

def bumpSequence (agent : AgentName) (w : World) : World :=
  { w with sequence := Function.update w.sequence agent (w.sequence agent + 1) }

def appendEntry (i : String) (e : JournalEntry) (w : World) : World :=
  { w with journals := Function.update w.journals i (w.journals i ++ [e]) }

def recordBug (digest : Fingerprint) (ticketId seenIn : String) (w : World) : World :=
  { w with bugIndex := w.bugIndex.record digest ticketId seenIn }

def writeFile (path text : String) (w : World) : World :=
  { w with files := Function.update w.files path (some text) }

def tick (w : World) : World := { w with ticks := w.ticks + 1 }

/-- The call of `execute` that the world sees now. -/
def call (w : World) (step : Step) (context : ExecutionContext) : ExecCall :=
  ⟨step, context, w.tickets context.ticketId, w.journals context.ticketId⟩

def logCall (c : ExecCall) (w : World) : World := { w with calls := w.calls ++ [c] }

/-! ### What each update leaves alone -/

section Updates

variable (w : World) (t : Ticket) (a : AgentName) (i path text : String) (e : JournalEntry)
  (d : Fingerprint) (c : ExecCall)

theorem tickets_saveTicket (j : String) :
    (w.saveTicket t).tickets j = if j = t.id then some t else w.tickets j := by
  simp [saveTicket, Function.update_apply]

@[simp] theorem tickets_saveTicket_self : (w.saveTicket t).tickets t.id = some t := by
  simp [tickets_saveTicket]

@[simp] theorem sequence_saveTicket : (w.saveTicket t).sequence = w.sequence := rfl
@[simp] theorem journals_saveTicket : (w.saveTicket t).journals = w.journals := rfl
@[simp] theorem bugIndex_saveTicket : (w.saveTicket t).bugIndex = w.bugIndex := rfl
@[simp] theorem calls_saveTicket : (w.saveTicket t).calls = w.calls := rfl

@[simp] theorem tickets_bumpSequence : (w.bumpSequence a).tickets = w.tickets := rfl
@[simp] theorem journals_bumpSequence : (w.bumpSequence a).journals = w.journals := rfl
@[simp] theorem bugIndex_bumpSequence : (w.bumpSequence a).bugIndex = w.bugIndex := rfl
@[simp] theorem calls_bumpSequence : (w.bumpSequence a).calls = w.calls := rfl

theorem sequence_bumpSequence (b : AgentName) :
    (w.bumpSequence a).sequence b = if b = a then w.sequence a + 1 else w.sequence b := by
  simp [bumpSequence, Function.update_apply]

theorem journals_appendEntry (j : String) :
    (w.appendEntry i e).journals j = if j = i then w.journals i ++ [e] else w.journals j := by
  simp [appendEntry, Function.update_apply]

@[simp] theorem journals_appendEntry_self :
    (w.appendEntry i e).journals i = w.journals i ++ [e] := by
  simp [journals_appendEntry]

@[simp] theorem tickets_appendEntry : (w.appendEntry i e).tickets = w.tickets := rfl
@[simp] theorem sequence_appendEntry : (w.appendEntry i e).sequence = w.sequence := rfl
@[simp] theorem bugIndex_appendEntry : (w.appendEntry i e).bugIndex = w.bugIndex := rfl
@[simp] theorem calls_appendEntry : (w.appendEntry i e).calls = w.calls := rfl

@[simp] theorem bugIndex_recordBug : (w.recordBug d i path).bugIndex = w.bugIndex.record d i path :=
  rfl
@[simp] theorem tickets_recordBug : (w.recordBug d i path).tickets = w.tickets := rfl
@[simp] theorem sequence_recordBug : (w.recordBug d i path).sequence = w.sequence := rfl
@[simp] theorem journals_recordBug : (w.recordBug d i path).journals = w.journals := rfl
@[simp] theorem calls_recordBug : (w.recordBug d i path).calls = w.calls := rfl

@[simp] theorem tickets_writeFile : (w.writeFile path text).tickets = w.tickets := rfl
@[simp] theorem sequence_writeFile : (w.writeFile path text).sequence = w.sequence := rfl
@[simp] theorem journals_writeFile : (w.writeFile path text).journals = w.journals := rfl
@[simp] theorem bugIndex_writeFile : (w.writeFile path text).bugIndex = w.bugIndex := rfl
@[simp] theorem calls_writeFile : (w.writeFile path text).calls = w.calls := rfl

@[simp] theorem tickets_tick : w.tick.tickets = w.tickets := rfl
@[simp] theorem sequence_tick : w.tick.sequence = w.sequence := rfl
@[simp] theorem journals_tick : w.tick.journals = w.journals := rfl
@[simp] theorem bugIndex_tick : w.tick.bugIndex = w.bugIndex := rfl
@[simp] theorem calls_tick : w.tick.calls = w.calls := rfl

@[simp] theorem tickets_logCall : (w.logCall c).tickets = w.tickets := rfl
@[simp] theorem sequence_logCall : (w.logCall c).sequence = w.sequence := rfl
@[simp] theorem journals_logCall : (w.logCall c).journals = w.journals := rfl
@[simp] theorem bugIndex_logCall : (w.logCall c).bugIndex = w.bugIndex := rfl
@[simp] theorem calls_logCall : (w.logCall c).calls = w.calls ++ [c] := rfl

end Updates

end World

/-! ## Errors -/

inductive KernelError where
  | ticketNotFound (ticketId : String)
  | illegalTransition (ticketId : String) (current target : TicketState)
  | approvalPending (ticket : Ticket)
  | noPendingApproval (ticketId stepId : String)
  | planOfAnotherJob (planId planJob ticketJob : String)
  | noRecord (ticketId stepId : String)
  | noStep (stepId : String)
  | noPlan
  | journalUnreadable
  | badObservation
  /-- Raised by an agent, an executor or a service, with its message. -/
  | service (message : String)

/-- `sorted(...)` of texts. -/
def sortTexts (l : List String) : List String := l.mergeSort (· ≤ ·)

def KernelError.message : KernelError → String
  | .ticketNotFound i => "There is no ticket " ++ i ++ "."
  | .illegalTransition i current target =>
    let names := sortTexts (current.transitions.map TicketState.value)
    let allowed := if names = [] then "nothing" else ", ".intercalate names
    i ++ " is " ++ current.value ++ " and cannot become " ++ target.value ++ "; from " ++
      current.value ++ " it can only become " ++ allowed ++ "."
  | .approvalPending ticket => ticket.sentence
  | .noPendingApproval i s => i ++ " has no pending approval for step " ++ s
  | .planOfAnotherJob p j t => "plan " ++ p ++ " belongs to job " ++ j ++ ", not " ++ t
  | .noRecord i s => i ++ " has no record for step " ++ s
  | .noStep s => s
  | .noPlan => ""
  | .journalUnreadable => "the journal could not be read"
  | .badObservation => "the journalled observation is invalid"
  | .service m => m

/-! ## Skill expansion -/

structure ThreePartMessage where
  whatHappened : String
  likelyCause : String
  whatToDo : String

structure SkillGateError where
  step : Step
  message : ThreePartMessage

def Risk.order : Risk → Nat
  | .safe => 0
  | .caution => 1
  | .destructive => 2

/-- The enablement checks and the skill compiler: for a `skill` step, the
    compiled skill and the highest risk of its steps, or why it is refused. -/
structure SkillGate where
  compile : Step → String → AgentName → Except ThreePartMessage (Json × Risk)

namespace SkillGate

/-- `{**args, key: value}` -/
def setArg (key : String) (value : Json) : List (String × Json) → List (String × Json)
  | [] => [(key, value)]
  | (k, v) :: kvs => if k = key then (k, value) :: kvs else (k, v) :: setArg key value kvs

/-- `SkillGate._expand_step` on a `skill` step; other steps stay as they are. -/
def expandStep (gate : SkillGate) (step : Step) (jobId : String) (agent : AgentName) :
    Except SkillGateError {s : Step // s.id = step.id ∧ s.n = step.n} :=
  if step.primitive = "skill" then
    match gate.compile step jobId agent with
    | .error message => .error ⟨step, message⟩
    | .ok (compiled, risk) =>
      let risk := if risk.order < step.risk.order then step.risk else risk
      .ok ⟨{ step with args := setArg "compiled" compiled step.args, risk := risk }, rfl, rfl⟩
  else .ok ⟨step, rfl, rfl⟩

def expandSteps (gate : SkillGate) (jobId : String) (agent : AgentName) : (steps : List Step) →
    Except SkillGateError
      {out : List Step // out.map (·.id) = steps.map (·.id) ∧ out.map (·.n) = steps.map (·.n)}
  | [] => .ok ⟨[], rfl, rfl⟩
  | step :: steps => do
    let s ← gate.expandStep step jobId agent
    let rest ← expandSteps gate jobId agent steps
    return ⟨s.1 :: rest.1, by simp [s.2.1, rest.2.1], by simp [s.2.2, rest.2.2]⟩

/-- `SkillGate.expand`: the same plan with every `skill` step compiled. -/
def expand (gate : SkillGate) (plan : Plan) (agent : AgentName) : Except SkillGateError Plan := do
  let out ← gate.expandSteps plan.jobId agent plan.steps
  have hlen : out.1.length = plan.steps.length := by
    simpa using congrArg List.length out.2.1
  return { plan with
    steps := out.1
    nonempty := by
      intro h
      have := plan.nonempty
      simp_all [List.length_eq_zero_iff.symm]
    capped := by rw [hlen]; exact plan.capped
    unique := by rw [out.2.1]; exact plan.unique
    numbered := by rw [hlen, out.2.2, plan.numbered] }

end SkillGate

/-! ## What a kernel is built from -/

/-- The four things an agent contributes (its SOP template is part of
    `Kernel.renderSop`). -/
structure Agent where
  name : AgentName
  ingest : Raw → Except String Job
  plan : Job → Except String Plan
  verify : Step → Observation → StepVerdict

/-- Agents whose plans the Consensus Router checks before anything runs. -/
def PLAN_CHECKED_AGENTS : List AgentName := [.validation, .factory]

/-- The three files of a rendered SOP and what the journal says of them. -/
structure RenderedSop where
  en : String
  zh : String
  data : String
  translated : Bool
  notes : List String := []

/-- A kernel.  An executor may answer differently each time it is called, so
    its answer depends on all the calls before; the clock on how often it was
    read. -/
structure Kernel where
  dataRoot : String
  agent : Agent
  executor : List (Step × ExecutionContext) → Step → ExecutionContext → Except String Observation
  clock : Nat → DateTime
  traceId : Option String := none
  text : TextTools
  rcaPipeline : Option RcaPipeline := none
  renderSop : Ticket → TicketState → Except String RenderedSop
  planChecker : Option CrossChecker := none
  skillGate : Option SkillGate := none
  afterStep : Option (Ticket → Step → Except String Unit) := none

abbrev KernelM := Prog World KernelError

/-! ## Store, clock and journal -/

def store.save (t : Ticket) : KernelM Unit := Prog.write (World.saveTicket t)

def store.load (i : String) : KernelM Ticket := do
  match ← Prog.look (fun w : World => w.tickets i) with
  | some t => pure t
  | none => Prog.raise (.ticketNotFound i)

/-- `next_ticket_id`: the raised sequence is on disk before the id is used. -/
def store.nextTicketId (agent : AgentName) : KernelM String := do
  let seq ← Prog.look (fun w : World => w.sequence agent + 1)
  Prog.write (World.bumpSequence agent)
  return makeTicketId agent seq

def Kernel.now (K : Kernel) : KernelM DateTime := Prog.quiet fun w => (K.clock w.ticks, w.tick)

def raisedBy {α : Type} (x : Except String α) : KernelM α :=
  Prog.ofExcept (x.mapError KernelError.service)

/-- `Journal.entries` of a ticket's journal. -/
def journal.entries (i : String) : KernelM (List JournalEntry) := do
  let es ← Prog.look (fun w : World => w.journals i)
  if es.all (·.readable) then pure es else Prog.raise .journalUnreadable

/-- `Journal.append`: the number is read, the entry made and written. -/
def journal.append (K : Kernel) (i : String) (kind : JournalKind) (payload : List (String × Json))
    (stepId : Option String) : KernelM Unit := do
  let es ← journal.entries i
  let at_ ← K.now
  let entry : JournalEntry :=
    { seq := es.length + 1, at_, ticketId := i, kind, stepId, payload, traceId := K.traceId
      seq_pos := by omega }
  Prog.write (World.appendEntry i entry)

/-- One turn of the comprehension of `completed_steps`. -/
def noteCompleted (done : String → Option JournalEntry) (e : JournalEntry) :
    String → Option JournalEntry :=
  if e.kind = .observation then
    match e.stepId with
    | some s => Function.update done s (some e)
    | none => done
  else done

/-- `Journal.completed_steps`: step id → its observation entry. -/
def completedSteps (es : List JournalEntry) : String → Option JournalEntry :=
  es.foldl noteCompleted (fun _ => none)

/-- `Journal.interrupted_step`: the intent without an observation, if any. -/
def interruptedStep (es : List JournalEntry) : Option String :=
  es.foldl (fun openIntent e =>
    match e.stepId with
    | none => openIntent
    | some s =>
      if e.kind = .intent then some s
      else if e.kind = .observation ∧ openIntent = some s then none
      else openIntent) none

end Slas
