/-
  Slas.Kernel.Kernel

  The lifecycle every agent runs (`slas_kernel.kernel`):

      INGEST → TICKET → PLAN → (approval) → ACT → COLLECT → RCA → SOP → CLOSE

  Each method of the source is a program over the world under its own name; a
  mutable ticket is passed in and handed back.  The crash points are the
  durable writes and the call of the executor.  Metrics are left out: nothing
  reads them back.
-/

import Slas.Kernel.World

namespace Slas

open Crash

/-! ## Payloads -/

def jStr (s : String) : Json := .str s
def jOptStr (s : Option String) : Json := strOpt.dump s
def jNat (n : Nat) : Json := .num (.ofNat n)
def jStrs (l : List String) : Json := .arr (l.map .str)

def LogBundle.modelDump (b : LogBundle) : Json :=
  .obj [("stdout_path", jOptStr b.stdoutPath), ("stderr_path", jOptStr b.stderrPath),
    ("console_path", jOptStr b.consolePath), ("screenshots", jStrs b.screenshots),
    ("line_counts", .obj (b.lineCounts.map fun kv => (kv.1, jNat kv.2)))]

def Rca.modelDump (r : Rca) : Json :=
  .obj [("cause", jStr r.cause), ("evidence", jStrs r.evidence), ("confidence", .num r.confidence),
    ("uncertain", .bool r.uncertain), ("fingerprint", jOptStr (r.fingerprint.map (·.1)))]

def SopRefs.modelDump (s : SopRefs) : Json :=
  .obj [("en", jStr s.en), ("zh", jStr s.zh), ("data", jStr s.data)]

def ThreePartMessage.asDict (m : ThreePartMessage) : Json :=
  .obj [("what_happened", jStr m.whatHappened), ("likely_cause", jStr m.likelyCause),
    ("what_to_do", jStr m.whatToDo)]

namespace Kernel

variable (K : Kernel)

/-! ## State changes -/

/-- `_transition`: journal the change, then save the ticket. -/
def transition (ticket : Ticket) (target : TicketState) (reason : String) : KernelM Ticket := do
  let at_ ← K.now
  match ticket.transition target at_ reason with
  | none => Prog.raise (.illegalTransition ticket.id ticket.state target)
  | some ticket' =>
    journal.append K ticket.id .state
      [("from", jStr ticket.state.value), ("to", jStr target.value), ("reason", jStr reason)] none
    store.save ticket'
    return ticket'

/-- `_create_ticket` -/
def createTicket (job : Job) : KernelM Ticket := do
  let now ← K.now
  let id ← store.nextTicketId job.agent
  let ticket : Ticket :=
    { id, agent := job.agent, user := job.user, title := job.title, job
      createdAt := now, updatedAt := now }
  store.save ticket
  return ticket

/-- The record a step starts with. -/
def freshRecord (step : Step) : StepRecord := { stepId := step.id, n := step.n, title := step.title }

/-- `_attach_plan` -/
def attachPlan (ticket : Ticket) (plan : Plan) : KernelM Ticket :=
  if plan.jobId ≠ ticket.job.id then
    Prog.raise (.planOfAnotherJob plan.id plan.jobId ticket.job.id)
  else pure { ticket with plan := some plan, steps := plan.steps.map freshRecord }

/-! ## ACT -/

/-- `_attach`: votes and exports an executor handed back go onto the ticket,
    once each, and findings once per fingerprint. -/
def attach (ticket : Ticket) (observation : Observation) : Ticket :=
  let knownVotes := ticket.votes.map fun v => (v.voter, v.reason)
  let votes := ticket.votes ++
    observation.votes.filter fun v => !knownVotes.contains (v.voter, v.reason)
  let knownExports := ticket.exports.map (·.path)
  let exports := ticket.exports ++
    observation.exports.filter fun e => !knownExports.contains e.path
  let findings := if observation.findings = [] then ticket.findings
    else observation.findings.foldl (fun merged f => addFinding f merged)
      (ticket.findings.foldl (fun merged f => setFinding f merged) [])
  { ticket with votes, exports, findings }

def statusOf (verdict : StepVerdict) : StepStatus :=
  if verdict.outcome = .ok then .done else .failed

/-- The record of a step that starts. -/
def startRecord (started : DateTime) (r : StepRecord) : StepRecord :=
  { r with status := .running, startedAt := some started, observation := none, verdict := none }

/-- The record of a step that was observed. -/
def finishRecord (observation : Observation) (verdict : StepVerdict) (finished : DateTime)
    (r : StepRecord) : StepRecord :=
  { r with observation := some observation, verdict := some verdict, finishedAt := some finished
           status := statusOf verdict }

/-- `moment or self.clock.now()` -/
def orNow : Option DateTime → KernelM DateTime
  | some moment => pure moment
  | none => K.now

/-- `_restore_from_journal`: a step observed before a crash but not saved on
    the ticket is rebuilt, not redone. -/
def restoreFromJournal (ticket : Ticket) (plan : Plan) (record : StepRecord)
    (payload : List (String × Json)) : KernelM Ticket :=
  match Observation.modelValidate payload with
  | none => Prog.raise .badObservation
  | some observation =>
    match plan.step record.stepId with
    | none => Prog.raise (.noStep record.stepId)
    | some step => do
      let verdict := K.agent.verify step observation
      let finished ← K.orNow record.finishedAt
      return attach
        (ticket.updateRecord record.stepId (finishRecord observation verdict finished)) observation

/-- The ticket with the verdict on a performed step. -/
def finishStep (ticket : Ticket) (step : Step) (observation : Observation) (verdict : StepVerdict)
    (finished : DateTime) : Ticket :=
  { attach (ticket.updateRecord step.id (finishRecord observation verdict finished)) observation
    with updatedAt := finished }

/-- The payload of an `intent` entry. -/
def intentPayload (step : Step) (resumed : Bool) : List (String × Json) :=
  [("primitive", jStr step.primitive), ("args", .obj step.args), ("risk", jStr step.risk.value)] ++
    (if resumed then [("note", jStr "re-performing after an interruption")] else [])

/-- `executor.execute`; a crash after it leaves an open intent. -/
def execute (step : Step) (context : ExecutionContext) : KernelM Observation :=
  Prog.effect fun w =>
    ((K.executor (w.calls.map fun c => (c.step, c.context)) step context).mapError
      KernelError.service, w.logCall (w.call step context))

/-- The test seam, called after each step's observation is journalled and the
    ticket saved. -/
def runHook (ticket : Ticket) (step : Step) : KernelM Unit :=
  match K.afterStep with
  | some hook => raisedBy (hook ticket step)
  | none => pure ()

/-- `_perform`: write the intent, do the step, write the observation, save the
    verdict.  True if the step failed. -/
def perform (ticket : Ticket) (step : Step) (resumed : Bool) : KernelM (Bool × Ticket) := do
  let started ← K.now
  let ticket := ticket.updateRecord step.id (startRecord started)
  store.save ticket
  journal.append K ticket.id .intent (intentPayload step resumed) (some step.id)
  let observation ← K.execute step
    { ticketId := ticket.id, jobId := ticket.job.id, agent := ticket.agent, user := ticket.user
      traceId := K.traceId }
  journal.append K ticket.id .observation observation.modelDump (some step.id)
  let verdict := K.agent.verify step observation
  let finished ← K.now
  let ticket := finishStep ticket step observation verdict finished
  store.save ticket
  K.runHook ticket step
  return (statusOf verdict == .failed, ticket)

/-- The loop of `_act` over the steps that are left. -/
def actLoop (plan : Plan) (completed : String → Option JournalEntry) (interrupted : Option String) :
    List Step → Ticket → KernelM (Bool × Ticket)
  | [], ticket => pure (false, ticket)
  | step :: steps, ticket =>
    match ticket.stepRecord step.id with
    | none => Prog.raise (.noRecord ticket.id step.id)
    | some record =>
      if record.status = .failed then pure (true, ticket)
      else match completed step.id with
        | some entry =>
          if record.status ≠ .done then do
            let ticket ← K.restoreFromJournal ticket plan record entry.payload
            actLoop plan completed interrupted steps ticket
          else actLoop plan completed interrupted steps ticket
        | none =>
          if record.status = .skipped then actLoop plan completed interrupted steps ticket
          else do
            let (failed, ticket) ← K.perform ticket step (interrupted == some step.id)
            if failed then pure (true, ticket)
            else actLoop plan completed interrupted steps ticket

/-- `_act`: perform every step not yet observed.  True if a step failed. -/
def act (ticket : Ticket) : KernelM (Bool × Ticket) :=
  match ticket.plan with
  | none => Prog.raise .noPlan
  | some plan => do
    let completed ← journal.entries ticket.id
    let interrupted ← journal.entries ticket.id
    K.actLoop plan (completedSteps completed) (interruptedStep interrupted) plan.steps ticket

/-! ## COLLECT → RCA → SOP → CLOSE -/

def ticketDir (i : String) : String := K.dataRoot ++ "/Tickets/" ++ i

def sopDir (i : String) : String := K.dataRoot ++ "/SOP/" ++ i

def fence (record : StepRecord) : String :=
  "--- step " ++ record.stepId ++ ": " ++ record.title ++ " ---\n"

/-- One stream of every observed step, fenced per step. -/
def stream (ticket : Ticket) (pick : Observation → String) : String :=
  String.join (ticket.steps.filterMap fun r => r.observation.map fun o => fence r ++ pick o)

/-- `collect_logs` -/
def collectLogs (ticket : Ticket) : KernelM LogBundle := do
  let stdout := stream ticket (·.stdout)
  let stderr := stream ticket (·.stderr)
  let stdoutPath := K.ticketDir ticket.id ++ "/logs/stdout.log"
  let stderrPath := K.ticketDir ticket.id ++ "/logs/stderr.log"
  Prog.write (World.writeFile stdoutPath stdout)
  Prog.write (World.writeFile stderrPath stderr)
  return { stdoutPath := some stdoutPath, stderrPath := some stderrPath
           screenshots := ticket.steps.flatMap fun r => (r.observation.map (·.screenshots)).getD []
           lineCounts := [("stdout", stdout.toList.count '\n'), ("stderr", stderr.toList.count '\n')] }

/-- The ticket with the result of the pipeline merged in: the votes as they
    come, the findings whose fingerprint it does not have. -/
def merged (ticket : Ticket) (result : RcaResult) : Ticket :=
  { ticket with
    rca := some result.rca
    votes := ticket.votes ++ result.votes
    findings := ticket.findings ++ result.findings.filter fun f =>
      !(fingerprints ticket.findings).contains f.fingerprint }

/-- The RCA part of `_analyse_and_close`: the ticket and the diagnosis votes. -/
def analyse (ticket : Ticket) : KernelM (Ticket × List Vote) :=
  match K.rcaPipeline with
  | none => do
    let rca := placeholderRca K.text ticket
    journal.append K ticket.id .note [("rca", rca.modelDump)] none
    return ({ ticket with rca := some rca }, [])
  | some pipeline => do
    let result ← raisedBy (pipeline.analyse K.text ticket)
    journal.append K ticket.id .note
      [("rca", result.rca.modelDump), ("rca_sentence", jStr result.sentence),
       ("findings", jStrs (result.findings.map (·.headline))), ("votes", jNat result.votes.length),
       ("citations", jStrs result.citations)] none
    return (merged ticket result, result.votes)

/-- `title = headline if len(headline) <= 200 else headline[:197] + "…"` -/
def bugTitle (headline : String) : String :=
  if headline.length ≤ 200 then headline else String.ofList (headline.toList.take 197) ++ "…"

/-- The child ticket of a finding. -/
def childTicket (ticket : Ticket) (votes : List Vote) (finding : Finding) (now : DateTime)
    (id : String) : Ticket :=
  { id, agent := ticket.agent, user := ticket.user, title := bugTitle finding.headline
    job :=
      { id := ticket.job.id ++ "#bug-" ++ finding.fingerprint.short, agent := ticket.agent
        user := ticket.user, title := bugTitle finding.headline, target := ticket.job.target
        createdAt := now }
    findings := [{ finding with ticketId := some id }]
    rca := ticket.rca, votes, parent := some ticket.id, createdAt := now, updatedAt := now }

/-- The child is saved, then its fingerprint recorded in the index. -/
def trackChild (child : Ticket) (digest : Fingerprint) (seenIn : String) : KernelM Unit := do
  Prog.write (World.saveTicket child)
  Prog.write (World.recordBug digest child.id seenIn)

/-- The loop of `_spawn_bug_tickets`: the spawned ids and the linked findings. -/
def spawnLoop (ticket : Ticket) (votes : List Vote) :
    List Finding → KernelM (List String × List Finding)
  | [] => pure ([], [])
  | finding :: findings =>
    if finding.ticketId.isSome then do
      let (spawned, updated) ← spawnLoop ticket votes findings
      return (spawned, finding :: updated)
    else do
      let known ← Prog.look (fun w : World => w.bugIndex.lookup finding.fingerprint)
      match known with
      | some entry =>
        Prog.write (World.recordBug finding.fingerprint entry.ticketId ticket.id)
        let (spawned, updated) ← spawnLoop ticket votes findings
        return (spawned, { finding with ticketId := some entry.ticketId } :: updated)
      | none =>
        let now ← K.now
        let id ← store.nextTicketId ticket.agent
        trackChild (childTicket ticket votes finding now id) finding.fingerprint ticket.id
        let (spawned, updated) ← spawnLoop ticket votes findings
        return (id :: spawned, { finding with ticketId := some id } :: updated)

/-- `_spawn_bug_tickets`: one child per fingerprint across runs. -/
def spawnBugTickets (ticket : Ticket) (votes : List Vote) : KernelM (List String × Ticket) := do
  let (spawned, updated) ← K.spawnLoop ticket votes (triage K.text.route ticket.findings)
  return (spawned, { ticket with findings := updated })

def anyFailed (ticket : Ticket) : Bool := ticket.steps.any (·.status == .failed)

/-- A finding is a person's to confirm: a run with one ends in Needs review. -/
def needsReview (ticket : Ticket) : Bool := anyFailed ticket || !ticket.findings.isEmpty

def finalState (ticket : Ticket) : TicketState :=
  if needsReview ticket then .needsReview else .done

/-- The reason of the last change of state. -/
def closeReason (ticket : Ticket) : String :=
  if anyFailed ticket then
    "A step failed; the logs, the analysis and the SOP are attached for review."
  else if needsReview ticket then
    let count := ticket.findings.length
    let noun := if count = 1 then "finding needs" else "findings need"
    "Every step finished, but " ++ toString count ++ " " ++ noun ++ " your review; " ++
      "the logs, the analysis and the SOP are attached."
  else "Every step finished; the logs, the analysis and the SOP are attached."

/-- `render_sop`: three files, together. -/
def writeSop (ticket : Ticket) : KernelM (Ticket × RenderedSop) := do
  let rendered ← raisedBy (K.renderSop ticket (finalState ticket))
  let dir := K.sopDir ticket.id
  let refs : SopRefs :=
    { en := dir ++ "/sop.en.md", zh := dir ++ "/sop.zh-Hant.md", data := dir ++ "/sop.json" }
  Prog.write (World.writeFile refs.en rendered.en)
  Prog.write (World.writeFile refs.zh rendered.zh)
  Prog.write (World.writeFile refs.data rendered.data)
  journal.append K ticket.id .note
    [("sop", refs.modelDump), ("translated", .bool rendered.translated),
     ("kept_in_english", jStrs rendered.notes)] none
  return ({ ticket with sop := some refs }, rendered)

/-- The journal names the bug tickets that were spawned, if any. -/
def noteSpawned (ticket : Ticket) (spawned : List String) : KernelM Unit :=
  if spawned = [] then pure ()
  else journal.append K ticket.id .note [("bug_tickets", jStrs spawned)] none

/-- `_analyse_and_close` -/
def analyseAndClose (ticket : Ticket) : KernelM Ticket := do
  let logs ← K.collectLogs ticket
  let ticket := { ticket with logs := some logs }
  journal.append K ticket.id .note [("logs", logs.modelDump)] none
  let (ticket, rcaVotes) ← K.analyse ticket
  let (spawned, ticket) ← K.spawnBugTickets ticket rcaVotes
  K.noteSpawned ticket spawned
  let (ticket, _) ← K.writeSop ticket
  store.save ticket
  K.transition ticket (finalState ticket) (closeReason ticket)

/-- An approved ticket starts; a running one goes on. -/
def startSteps (ticket : Ticket) : KernelM Ticket :=
  if ticket.state = .approved then K.transition ticket .running "Starting the steps."
  else pure ticket

/-- `_act_and_close` -/
def actAndClose (ticket : Ticket) : KernelM Ticket := do
  let ticket ← K.startSteps ticket
  let (stoppedEarly, ticket) ← K.act ticket
  let reason := if stoppedEarly then "A step did not finish as expected; collecting logs."
    else "Every step finished; collecting logs."
  let ticket ← K.transition ticket .analysing reason
  K.analyseAndClose ticket

/-! ## The three calls -/

/-- The router's opinion on a Validation or Factory plan, if there is a router. -/
def checkPlan (ticket : Ticket) (plan : Plan) : KernelM Ticket :=
  match K.planChecker with
  | none => pure ticket
  | some check =>
    if PLAN_CHECKED_AGENTS.contains K.agent.name then do
      let verdict ← raisedBy (check "plan_approval" (plan.summary :: plan.steps.map fun s =>
        toString s.n ++ ". " ++ s.title ++ " [" ++ s.risk.value ++ "]"))
      journal.append K ticket.id .note
        [("plan_cross_check", jStr verdict.sentence), ("agreed", .bool verdict.agreed)] none
      return { ticket with votes := ticket.votes ++ verdict.votes }
    else pure ticket

/-- The approvals a plan asks for. -/
def requests (plan : Plan) (now : DateTime) : List Approval :=
  plan.destructiveSteps.map fun s => { stepId := s.id, requestedAt := now }

/-- `_run` once the ticket exists and its plan is compiled. -/
def runPlan (ticket : Ticket) (plan : Plan) : KernelM Ticket := do
  let ticket ← attachPlan ticket plan
  let ticket ← K.checkPlan ticket plan
  let ticket ← K.transition ticket .planned plan.sentence
  if plan.destructive then
    let now ← K.now
    let ticket := { ticket with approvals := requests plan now }
    journal.append K ticket.id .note
      [("approvals_requested", jStrs (ticket.approvals.map (·.stepId)))] none
    store.save ticket
    return ticket
  else
    let ticket ← K.transition ticket .approved "No step needs approval."
    K.actAndClose ticket

/-- `Kernel.run` -/
def run (raw : Raw) : KernelM Ticket := do
  let job ← raisedBy (K.agent.ingest raw)
  let ticket ← K.createTicket job
  journal.append K ticket.id .state
    [("state", jStr ticket.state.value), ("reason", jStr "ingested")] none
  let plan ← raisedBy (K.agent.plan job)
  match K.skillGate with
  | none => K.runPlan ticket plan
  | some gate =>
    match gate.expand plan K.agent.name with
    | .ok plan => K.runPlan ticket plan
    | .error e =>
      journal.append K ticket.id .note
        [("skill_gate", e.message.asDict), ("step", jStr e.step.id)] (some e.step.id)
      K.transition ticket .failed e.message.whatHappened

/-- The approvals with the first pending one of the step decided. -/
def decideFirst (stepId : String) (f : Approval → Approval) : List Approval → Option (List Approval)
  | [] => none
  | a :: as =>
    if a.stepId = stepId ∧ a.pending = true then some (f a :: as)
    else (decideFirst stepId f as).map (a :: ·)

/-- `Kernel.approve`: record one human approval.  Does not start the run. -/
def approve (ticketId stepId decidedBy note : String) : KernelM Ticket := do
  let ticket ← store.load ticketId
  if (ticket.approvals.any fun a => a.stepId = stepId ∧ a.pending = true) then
    let at_ ← K.now
    match decideFirst stepId (fun a => { a with
        decidedAt := some at_, decidedBy := some decidedBy, approved := some true, note })
        ticket.approvals with
    | none => Prog.raise (.noPendingApproval ticketId stepId)
    | some approvals =>
      let ticket := { ticket with approvals }
      journal.append K ticket.id .note [("approved", jStr stepId), ("by", jStr decidedBy)]
        (some stepId)
      store.save ticket
      return ticket
  else Prog.raise (.noPendingApproval ticketId stepId)

/-- `Kernel.resume`: continue a ticket after a crash or an approval. -/
def resume (ticketId : String) : KernelM Ticket := do
  let ticket ← store.load ticketId
  if ticket.finished then return ticket
  if ticket.state = .planned then
    if ticket.pendingApprovals ≠ [] then
      Prog.raise (.approvalPending ticket)
    else
      let ticket ← K.transition ticket .approved "Every destructive step was approved."
      K.actAndClose ticket
  else if ticket.state = .approved ∨ ticket.state = .running then
    K.actAndClose ticket
  else if ticket.state = .analysing then
    K.analyseAndClose ticket
  else return ticket

end Kernel

/-- One call of the kernel. -/
inductive Op where
  | run (raw : Raw)
  | approve (ticketId stepId decidedBy note : String)
  | resume (ticketId : String)

/-- A call and the kernel that serves it. -/
structure KernelCall where
  kernel : Kernel
  op : Op

def KernelCall.prog (c : KernelCall) : KernelM Ticket :=
  match c.op with
  | .run raw => c.kernel.run raw
  | .approve ticketId stepId decidedBy note => c.kernel.approve ticketId stepId decidedBy note
  | .resume ticketId => c.kernel.resume ticketId

end Slas
