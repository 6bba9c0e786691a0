/-
  Slas.Factory.Executor

  The steps of the factory executor (`slas_factory_executor.executor`) and the
  requests its service answers, one step at a time for a ticket: an exception ends
  the request and not the process, and a death loses what was only in memory.

  Every step that acts on a station sends one batch; a refused batch is caught and
  becomes the observation.
-/

import Slas.Factory.Plant

namespace Slas

open Crash

/-- `ThreePartMessage.render` -/
def ThreePartMessage.render (m : ThreePartMessage) : String :=
  "\n".intercalate [m.whatHappened, "Likely cause: " ++ m.likelyCause,
    "What to do: " ++ m.whatToDo]

namespace FactoryExecutor

variable (X : FactoryExecutor)

/-! ## The arguments of a step -/

/-- `str(step.args[key])` -/
def strArg (step : Step) (key : String) : Except String String :=
  match step.args.lookup key with
  | none => .error ("'" ++ key ++ "'")
  | some value => .ok (X.str value)

/-- `str(step.args.get(key, ""))` -/
def strArgOrEmpty (step : Step) (key : String) : String :=
  ((step.args.lookup key).map X.str).getD ""

/-- `int(step.args.get(key, default))` -/
def intArgOr (step : Step) (key : String) (default : Int) : Except String Int :=
  match step.args.lookup key with
  | none => .ok default
  | some value => X.int value

/-- `dict(step.args.get(key, {}))` -/
def dictArg (step : Step) (key : String) : Except String (List (String × Json)) :=
  match step.args.lookup key with
  | none => .ok []
  | some value => X.dict value

/-- `[str(a) for a in step.args["command"]]` -/
def commandArg (step : Step) : Except String (List String) :=
  match step.args.lookup "command" with
  | none => .error "'command'"
  | some value => (Json.iterate value).map fun words => words.map X.str

/-! ## The job's state -/

/-- The whole map from the first step on. -/
def mapCells (s : JobState) (total : Nat) : List StepCell :=
  s.cells ++ (List.range (total - s.cells.length)).map fun i =>
    { n := s.cells.length + i + 1, title := "Step " ++ toString (s.cells.length + i + 1)
      n_pos := by omega }

/-- A cell of the map changed. -/
def editCell (step : Step) (f : StepCell → StepCell) (s : JobState) : JobState :=
  { s with cells := s.cells.modify (step.n - 1) f }

/-- The job's state, from memory, from its file, or a new one; kept in memory. -/
def jobState (step : Step) (context : ExecutionContext) : PlantM JobState := do
  match ← Prog.look (Plant.stateFor context.ticketId) with
  | some s => Prog.quiet fun w => (s, w.remember context.ticketId s)
  | none => do
    let station ← Prog.ofExcept (X.strArg step "station")
    let s : JobState := { ticketId := context.ticketId, station }
    Prog.quiet fun w => (s, w.remember context.ticketId s)

/-- `_state` -/
def enter (step : Step) (context : ExecutionContext) : PlantM Unit := do
  let s ← X.jobState step context
  let total ← Prog.ofExcept (X.intArgOr step "loop_steps" step.n)
  let cells := mapCells s total.toNat
  Prog.quiet fun w => ((), w.edit context.ticketId fun s => { s with cells })
  if cells.length < step.n then Prog.raise "list index out of range"
  else do
    Prog.quiet fun w => ((), w.edit context.ticketId
      (editCell step fun cell => { cell with title := step.title, status := .running }))
    Prog.write (Plant.save context.ticketId)

/-- `_finish` -/
def finish (step : Step) (context : ExecutionContext) (observation : Observation) :
    PlantM Observation := do
  Prog.quiet fun w => ((), w.edit context.ticketId (editCell step fun cell =>
    { cell with
      status := if observation.exitCode = some 0 then .ok else .failed
      sentence := observation.summary
      screenshots := observation.screenshots }))
  Prog.write (Plant.save context.ticketId)
  return observation

/-- The job's state in memory. -/
def current (t : String) : PlantM JobState := do
  match ← Prog.look fun w : Plant => w.memory t with
  | none => Prog.raise t
  | some s => pure s

def editState (t : String) (f : JobState → JobState) : PlantM Unit :=
  Prog.quiet fun w => ((), w.edit t f)

/-! ## Batches -/

/-- What a step puts into its batch. -/
structure BatchFields where
  kind : BatchKind
  compiled : Option CompiledSkill := none
  secrets : List (String × String) := []
  command : List String := []
  timeoutS : Int := 600

/-- The validation of `StepBatch`. -/
def makeBatch (batchId ticketId station : String) (issuedAt : DateTime) (fields : BatchFields) :
    Except String StepBatch :=
  if h : 8 ≤ batchId.length ∧ ticketId ≠ "" ∧ station ≠ "" ∧
      (1 ≤ X.batchTtlS ∧ X.batchTtlS ≤ 3600) ∧ 1 ≤ fields.timeoutS ∧ fields.timeoutS ≤ 7200 then
    .ok { batchId, ticketId, station, issuedAt, ttlS := X.batchTtlS, kind := fields.kind
          compiled := fields.compiled, secrets := fields.secrets, command := fields.command
          timeoutS := fields.timeoutS, batchId_min := h.1, ticketId_ne := h.2.1
          station_ne := h.2.2.1, ttlS_range := h.2.2.2.1, timeoutS_range := h.2.2.2.2 }
  else .error "the batch does not validate"

/-- `_sign` -/
def sign (batch : StepBatch) : Except String SignedBatch :=
  let (keyRef, keyId) := (X.stationKeys.lookup batch.station).getD (X.signingKeyRef, X.signingKeyId)
  match X.resolve keyRef with
  | .error e => .error e
  | .ok key =>
    if h : keyId ≠ "" then
      .ok { batch, keyId, signature := X.signing.hmac key (X.signing.canonical batch), keyId_ne := h }
    else .error "key_id: String should have at least 1 character"

/-- `_batch` -/
def batch (step : Step) (context : ExecutionContext) (fields : BatchFields) : PlantM StepBatch := do
  let number ← Prog.look fun w : Plant => w.batches + 1
  let station ← Prog.ofExcept (X.strArg step "station")
  let now ← X.now
  Prog.ofExcept (X.makeBatch (newBatchId X.digest context.ticketId step.id number)
    context.ticketId station now fields)

/-- The batch is on its way: the decisions that came in before it have been served,
    and it is on record with the holder of the station. -/
def sending (stepId : String) (batch : StepBatch) (w : Plant) : Plant :=
  let w' := X.catchUp w
  let at_ := X.clock w'.ticks
  { w' with
    ticks := w'.ticks + 1
    sent := w'.sent ++ [{ ticketId := batch.ticketId, stepId, station := batch.station
                          batchId := batch.batchId, life := w.life, number := w.batches
                          arrived := X.meanwhile w.ticks, at_
                          holder := LeaseTable.holder w'.leases batch.station at_ }] }

def noRunner (station : String) : ThreePartMessage where
  whatHappened := "No station runner is configured for " ++ station ++ "."
  likelyCause := "The factory executor only knows the stations in its runner table."
  whatToDo := "Register the station's runner address and certificate, then start again."

/-- `self._runner(station).send(self._sign(batch))`; a refusal is a value here. -/
def dispatch (stepId : String) (batch : StepBatch) :
    PlantM (Except ThreePartMessage BatchResult) := do
  match X.runners batch.station with
  | none => pure (.error (noRunner batch.station))
  | some client => do
    let signed ← Prog.ofExcept (X.sign batch)
    Prog.effect fun w => (.ok (client w.sent.length signed), X.sending stepId batch w)

/-- `_journal`: a line that nothing reads. -/
def journal : PlantM Unit := Prog.write Plant.tick

/-- A refused batch, as `execute` reports it. -/
def refused (m : ThreePartMessage) : Observation :=
  { exitCode := some 2, summary := m.whatHappened, stderr := m.render }

/-- `_send`, and what the step makes of the result. -/
def withBatch (step : Step) (context : ExecutionContext) (fields : BatchFields)
    (k : BatchResult → PlantM Observation) : PlantM Observation := do
  let batch ← X.batch step context fields
  Prog.quiet fun w => ((), w.numberBatch)
  match ← X.dispatch step.id batch with
  | .error m => return refused m
  | .ok result => do
    journal
    k result

/-! ## Leases -/

/-- `self.leases.acquire`; a busy station is a value here, for it is caught. -/
def acquire (station : String) (context : ExecutionContext) (now : DateTime) :
    PlantM (Except ThreePartMessage Lease) :=
  Prog.effect fun w =>
    match LeaseTable.acquire "station" w.leases station context.ticketId context.user now
        X.leaseHours with
    | .ok (lease, items) =>
      (.ok (.ok lease), { w.note (.granted context.ticketId station) with leases := items })
    | .error (.busy message) => (.ok (.error message), w)
    | .error .invalid => (.error "String should have at least 1 character", w)

/-- `_lease` -/
def lease (step : Step) (context : ExecutionContext) : PlantM Observation := do
  let station ← Prog.ofExcept (X.strArg step "station")
  let now ← X.now
  match ← X.acquire station context now with
  | .error message =>
    return { exitCode := some 1, summary := message.whatHappened, stderr := message.whatToDo }
  | .ok lease => do
    let unitSn := X.strArgOrEmpty step "unit_sn"
    let mesTicketNo := X.strArgOrEmpty step "mes_ticket_no"
    editState context.ticketId fun s => { s with unitSn, mesTicketNo }
    return { exitCode := some 0
             summary := "Leased " ++ station ++ " for unit " ++ unitSn ++ ". " ++ lease.sentence }

/-- `_release` -/
def release (step : Step) (context : ExecutionContext) : PlantM Observation := do
  let station ← Prog.ofExcept (X.strArg step "station")
  let released ← Prog.effect fun w : Plant =>
    (.ok (LeaseTable.release w.leases station context.ticketId).isSome,
      w.release station context.ticketId)
  editState context.ticketId fun s => { s with held := false }
  let s ← current context.ticketId
  return { exitCode := some 0
           summary := if released then "Released " ++ s.station ++ "."
             else s.station ++ " was not leased to this job." }

/-! ## Commands and skills -/

/-- `_command` -/
def command (step : Step) (context : ExecutionContext) : PlantM Observation := do
  let argv ← Prog.ofExcept (X.commandArg step)
  let timeoutS ← Prog.ofExcept (X.intArgOr step "timeout_s" 600)
  X.withBatch step context { kind := .command, command := argv, timeoutS } fun result => do
    let exitCode := (result.command.map (·.exitCode)).getD 1
    let expected ← Prog.ofExcept (X.intArgOr step "expect_exit" 0)
    return { exitCode := some (if exitCode = expected then 0 else if exitCode = 0 then 1 else exitCode)
             stdout := (result.command.map (·.stdout)).getD ""
             stderr := (result.command.map (·.stderr)).getD ""
             summary := result.sentence }

/-- `re.sub(r"[^A-Za-z0-9_.-]+", "-", name)`; the flag is up inside a run. -/
def safeName : Bool → List Char → List Char
  | _, [] => []
  | inRun, c :: cs =>
    if c.isAlphanum || c == '_' || c == '.' || c == '-' then c :: safeName false cs
    else if inRun then safeName true cs
    else '-' :: safeName true cs

/-- `_store_screens` -/
def storedScreens (ticketId stepId : String) (result : BatchResult) : List String :=
  result.screenshots.map fun name => "Factory/Jobs/" ++ ticketId ++ "/screens/" ++ stepId ++ "-" ++
    String.ofList (safeName false name.toList)

/-- The secrets of a skill, resolved for this batch. -/
def secretsOf (step : Step) (compiled : CompiledSkill) : Except String (List (String × String)) := do
  let refs ← X.dictArg step "secret_refs"
  let named := refs.filterMap fun ref => (compiled.secretHandles.lookup ref.1).map (·, ref.2)
  named.mapM fun ref => (X.resolve (X.str ref.2)).map (ref.1, ·)

def notCompiled (step : Step) : ThreePartMessage where
  whatHappened := "Step " ++ step.id ++ " reached the station without compiled skill steps."
  likelyCause := "The kernel's skill gate did not run for this plan, so the skill " ++
    ((step.args.lookup "skill_id").map X.str).getD "(unnamed)" ++ " was never expanded."
  whatToDo := "Give the kernel a skill gate; the Factory executor never compiles a skill itself."

/-- `_skill` -/
def skill (step : Step) (context : ExecutionContext) : PlantM Observation := do
  match ← Prog.ofExcept (X.compiledFromStep step) with
  | none => return refused (X.notCompiled step)
  | some compiled => do
    let secrets ← Prog.ofExcept (X.secretsOf step compiled)
    X.withBatch step context { kind := .skill, compiled := some compiled, secrets } fun result =>
      return { exitCode := some (if result.ok then 0 else 1)
               summary := result.sentence
               stdout := "\n".intercalate ((result.skill.getD []).map fun r =>
                 toString r.n ++ ". " ++ r.title ++ ": " ++ r.sentence)
               screenshots := storedScreens context.ticketId step.id result }

/-- `_single_step_skill` -/
def singleStepSkill (step : Step) (primitive : String) (args : List (String × Json))
    (createdAt : DateTime) : CompiledSkill where
  skillId := "inline-" ++ primitive
  plan :=
    { id := "plan-" ++ step.id, jobId := "inline", summary := step.title, createdAt
      steps := [{ id := step.id, n := 1, primitive, title := step.title, args }]
      nonempty := by simp, capped := by simp [MAX_STEPS], unique := by simp, numbered := by simp }

/-- `_wait_for_screen` -/
def waitForScreen (step : Step) (context : ExecutionContext) : PlantM Observation := do
  let text ← Prog.ofExcept (X.strArg step "text")
  let timeoutS ← Prog.ofExcept (X.intArgOr step "timeout_s" 300)
  let now ← X.now
  let compiled := singleStepSkill step "wait_for"
    [("text", .str text), ("timeout_s", .num (.ofInt timeoutS))] now
  X.withBatch step context { kind := .skill, compiled := some compiled } fun result =>
    return { exitCode := some (if result.ok then 0 else 1)
             summary := ((result.skill.getD []).head?.map (·.sentence)).getD result.sentence
             screenshots := storedScreens context.ticketId step.id result }

/-- `_config_change`: a step that is not marked destructive is refused. -/
def configChange (step : Step) (context : ExecutionContext) : PlantM Observation := do
  if step.risk ≠ .destructive then
    return { exitCode := some 2
             summary := "Step " ++ toString step.n ++ " (" ++ step.title ++
               ") changes a station setting but is not marked destructive."
             stderr := "Recompile the template; this is a compiler defect, not something to " ++
               "work around." }
  else do
    let setting ← Prog.ofExcept (X.strArg step "setting")
    let value ← Prog.ofExcept (X.strArg step "value")
    let argv := ["station-ctl", "set", setting, value]
    X.withBatch step context { kind := .command, command := argv } fun result =>
      return { exitCode := some (if result.ok then 0 else 1)
               summary := step.title ++ ": " ++ (if result.ok then "done" else "failed") ++
                 " (approved for this job)." }

def backupSentence (snapshot : StateSnapshot) (export_ : Export) : String :=
  let versions := ", ".intercalate ((snapshot.versions.mergeSort fun a b => a.1 ≤ b.1).map
    fun version => version.1 ++ " " ++ version.2)
  "Backed up " ++ toString snapshot.files.length ++ " files and the versions (" ++
    (if versions = "" then "none reported" else versions) ++ ") to " ++ export_.path ++ "."

/-- `_backup` -/
def backup (step : Step) (context : ExecutionContext) : PlantM Observation :=
  X.withBatch step context { kind := .state } fun result => do
    match result.state with
    | none => return { exitCode := some 1, summary := "The station returned no state to back up." }
    | some snapshot => do
      let s ← current context.ticketId
      let now ← X.now
      let export_ ← Prog.ofExcept (X.writeBackup s.station context.ticketId snapshot now)
      return { exitCode := some 0, summary := backupSentence snapshot export_
               exports := [export_] }

/-! ## What the station reports -/

/-- The command of `_read_json`; the step goes on with the object, its text and the
    exit code. -/
def readJson (step : Step) (context : ExecutionContext)
    (k : Readings → String → Int → PlantM Observation) : PlantM Observation := do
  let argv ← Prog.ofExcept (X.commandArg step)
  X.withBatch step context { kind := .command, command := argv } fun result =>
    let text := (result.command.map (·.stdout)).getD ""
    let code := (result.command.map (·.exitCode)).getD 1
    let data := if text = "" then [] else (X.loads text).getD []
    k data text code

/-- The tests of a result that did not pass. -/
def failedTests (result : Readings) : Except String (List String) :=
  match result.lookup "tests" with
  | none => .ok []
  | some tests => (X.entries tests).map fun entries =>
      (entries.filter fun entry => X.upper (X.text entry.2) ≠ "PASS").map (·.1)

/-- `_read_result` -/
def readResult (step : Step) (context : ExecutionContext) : PlantM Observation :=
  X.readJson step context fun data text code => do
    match data.lookup "result", code with
    | some reported, 0 => do
      editState context.ticketId fun s => { s with result := data }
      let failed ← Prog.ofExcept (X.failedTests data)
      return { exitCode := some 0, stdout := text
               summary := "BurnIn reports " ++ X.text reported ++
                 (if failed = [] then "; every test passed."
                  else "; failed: " ++ ", ".intercalate failed ++ ".") }
    | _, _ =>
      return { exitCode := some 1, stdout := text
               summary := "The vendor tool reported no result (exit " ++ toString code ++
                 "); the unit cannot be judged." }

/-- `{str(k): float(v) for ...}` -/
def limitsArg (step : Step) : Except String Limits := do
  let limits ← X.dictArg step "limits"
  limits.mapM fun limit => (X.float limit.2).map (limit.1, ·)

/-- What is wrong with a sensor: it reports a number above its limit. -/
def sensorProblem (data : Readings) (limit : String × FloatValue) :
    Except String (Option String) :=
  match data.lookup limit.1 with
  | none => .ok none
  | some reading =>
    if reading.isNumeric then (X.number reading).map fun x =>
      if x.gt limit.2 then some (limit.1 ++ " is " ++ X.text reading ++ ", above the limit of " ++
        X.general limit.2) else none
    else .ok none

def sensorProblems (data : Readings) (limits : Limits) : Except String (List String) :=
  (limits.mapM (X.sensorProblem data)).map fun problems => problems.filterMap id

/-- `_read_sensors` -/
def readSensors (step : Step) (context : ExecutionContext) : PlantM Observation :=
  X.readJson step context fun data text code => do
    if code ≠ 0 then
      return { exitCode := some 1, stdout := text
               summary := "The sensors could not be read (exit " ++ toString code ++ ")." }
    else do
      let limits ← Prog.ofExcept (X.limitsArg step)
      let problems ← Prog.ofExcept (X.sensorProblems data limits)
      editState context.ticketId fun s =>
        { s with sensors := data, sensorProblems := problems, sensorLimits := some limits }
      let readings := ", ".intercalate (data.map fun entry => entry.1 ++ " " ++ X.text entry.2)
      return { exitCode := some 0, stdout := text
               summary := "Sensors: " ++ readings ++ "." ++
                 (if problems = [] then " All within limits."
                  else " Out of limits: " ++ "; ".intercalate problems ++ ".") }

/-- `_check_event_log` -/
def checkEventLog (step : Step) (context : ExecutionContext) : PlantM Observation := do
  let argv ← Prog.ofExcept (X.commandArg step)
  X.withBatch step context { kind := .command, command := argv } fun result => do
    let lines := (X.splitlines ((result.command.map (·.stdout)).getD "")).filter fun line =>
      X.strip line ≠ ""
    let read := (result.command.map (·.exitCode)) = some 0
    editState context.ticketId fun s => { s with eventLog := lines, eventLogRead := read }
    if read then
      return { exitCode := some 0, stdout := "\n".intercalate lines
               summary := match lines with
                 | [] => "The event log is empty."
                 | line :: rest => "The event log has " ++ toString (rest.length + 1) ++ " " ++
                     (if rest = [] then "entry" else "entries") ++ ": " ++ line }
    else return { exitCode := some 1, summary := "The event log could not be read." }

/-! ## The verdict -/

/-- The result the gate looks at. -/
def reportedResult (s : JobState) : String :=
  X.upper (((s.result.lookup "result").map X.text).getD "")

/-- The deterministic gate: what speaks against a PASS. -/
def gateReasons (s : JobState) : Except String (List String) := do
  let reported ← if X.reportedResult s = "PASS" then pure [] else do
    let failed ← X.failedTests s.result
    pure ["BurnIn reported " ++
      (if X.reportedResult s = "" then "no result" else X.reportedResult s) ++
      (if failed = [] then "" else " (" ++ ", ".intercalate failed ++ ")")]
  return reported ++ s.sensorProblems ++
    (match s.eventLog with
      | [] => []
      | line :: _ => ["the event log is not empty (" ++ line ++ ")"])

def unitOf (s : JobState) : String := if s.unitSn = "" then "the unit" else s.unitSn

/-- What the voters are shown. -/
def evidence (s : JobState) : List String :=
  ["Unit " ++ unitOf s ++ " on " ++ s.station, "BurnIn result: " ++ X.dumps s.result,
   "Sensors: " ++ X.dumps s.sensors ++ " (all within limits)", "Event log: empty"]

/-- Why the station is held. -/
structure HoldReason where
  verdict : Verdict
  reason : String
  decidedBy : String
  votes : List Vote := []
  extra : String := ""

/-- The job's state as a verdict holds the station. -/
def heldState (h : HoldReason) (s : JobState) : JobState :=
  { s with
    verdict := some h.verdict
    held := true
    holdReason := h.reason
    decidedBy := h.decidedBy
    verdictSentence := (if h.verdict = .fail then "FAIL" else "The line lead decides") ++ ": " ++
      h.reason ++ ". The unit stays on and " ++ s.station ++
      " is held; a ticket is drafted for the line lead." ++
      (if h.extra = "" then "" else " " ++ h.extra) }

/-- `_hold` -/
def hold (t : String) (h : HoldReason) : PlantM Observation := do
  let s ← current t
  Prog.quiet fun w => ((), (w.edit t (heldState h)).note (.held t s.station (w.leases s.station)))
  let finding ← Prog.ofExcept (findingFromSentence X.fingerprint
    (if h.verdict = .fail then h.reason
     else h.reason ++ "; line lead decision needed on " ++ s.station)
    ["result: " ++ X.dumps s.result, "sensors: " ++ X.dumps s.sensors,
     "event log: " ++ (if s.eventLog = [] then "empty" else " | ".intercalate s.eventLog)]
    (some (if h.verdict = .fail then .S2 else .S3)) (some "Final test"))
  return { exitCode := some 1, summary := (heldState h s).verdictSentence, findings := [finding]
           votes := h.votes }

/-- The voters are asked; the decisions that came in meanwhile have been served. -/
def askVoters (ask : Nat → String → List String → Except String (ConsensusVerdict × List String))
    (evidence : List String) : PlantM (ConsensusVerdict × List String) :=
  Prog.effect fun w => (ask w.ticks "factory_pass" evidence, (X.catchUp w).tick)

def approvals (votes : List Vote) : Nat := votes.countP (·.verdict == .approve)

/-- The job's state at a PASS. -/
def passedState (verdict : ConsensusVerdict) (s : JobState) : JobState :=
  let tally := toString (approvals verdict.votes) ++ " of " ++ toString verdict.votes.length ++
    " voters"
  { s with
    verdict := some .pass
    decidedBy := tally
    verdictSentence := "PASS: " ++ tally ++ " say PASS. " ++ verdict.sentence }

/-- The voters have answered: PASS needs three approvals and the panel agreed. -/
def concludeVote (t : String) (s : JobState) (verdict : ConsensusVerdict) (concerns : List String) :
    PlantM Observation := do
  let passes := approvals verdict.votes
  editState t fun s => { s with votesSentence := verdict.sentence }
  if verdict.agreed ∧ 3 ≤ passes ∧ 3 ≤ verdict.votes.length then do
    Prog.quiet fun w => ((), { w.edit t (passedState verdict) with
      passes := w.passes ++ [⟨s, verdict.agreed, passes, verdict.votes.length⟩] })
    return { exitCode := some 0, summary := (passedState verdict s).verdictSentence
             votes := verdict.votes }
  else
    X.hold t
      { verdict := .lineLead
        reason := "Unit " ++ unitOf s ++ " passed every check on " ++ s.station ++ ", but only " ++
          toString passes ++ " of " ++ toString verdict.votes.length ++ " voters say PASS (" ++
          (if concerns = [] then "no concern was written down" else "; ".intercalate concerns) ++ ")"
        decidedBy := "nobody yet", votes := verdict.votes, extra := verdict.sentence }

/-- `_verdict` -/
def verdict (t : String) : PlantM Observation := do
  let s ← current t
  match ← Prog.ofExcept (X.gateReasons s) with
  | [] =>
    match X.crossChecker with
    | none =>
      X.hold t
        { verdict := .lineLead
          reason := "Unit " ++ unitOf s ++ " passed every check on " ++ s.station ++
            ", but no voters are configured"
          decidedBy := "nobody yet"
          extra := "Not cross-checked: no voters are configured, so the line lead decides." }
    | some ask => do
      let (verdict, concerns) ← X.askVoters ask (X.evidence s)
      X.concludeVote t s verdict concerns
  | reasons =>
    X.hold t
      { verdict := .fail
        reason := "Unit " ++ unitOf s ++ " failed the final test on " ++ s.station ++ ": " ++
          "; ".intercalate reasons
        decidedBy := "the deterministic gate" }

/-! ## Dispatch -/

/-- The handler of a verb of the table. -/
def handle (step : Step) (context : ExecutionContext) : PlantM Observation :=
  match step.primitive with
  | "lease_station" => X.lease step context
  | "station_command" => X.command step context
  | "skill" => X.skill step context
  | "wait_for_screen" => X.waitForScreen step context
  | "read_result" => X.readResult step context
  | "read_sensors" => X.readSensors step context
  | "check_event_log" => X.checkEventLog step context
  | "verdict" => X.verdict context.ticketId
  | "backup_station" => X.backup step context
  | "release_station" => X.release step context
  | _ => X.configChange step context

/-- `execute` -/
def execute (step : Step) (context : ExecutionContext) : PlantM Observation := do
  match factoryPrimitive? step.primitive with
  | none => Prog.raise step.primitive
  | some _ => do
    X.enter step context
    let observation ← X.handle step context
    finish step context observation

/-- `control`: a batch of its own, numbered before it is made. -/
def control (ticketId : String) (verb : ControlVerb) (by_ : String) : PlantM Unit := do
  match ← Prog.look (Plant.stateFor ticketId) with
  | none => Prog.raise ticketId
  | some s => do
    Prog.quiet fun w => ((), (w.remember ticketId s).numberBatch)
    let number ← Prog.look fun w : Plant => w.batches
    let now ← X.now
    let stepId := "control-" ++ verb.value
    let batch ← Prog.ofExcept (X.makeBatch (newBatchId X.digest ticketId stepId number)
      ticketId s.station now { kind := .control, command := [verb.value, by_] })
    match ← X.dispatch stepId batch with
    | .error m => Prog.raise m.whatHappened
    | .ok _ => journal

end FactoryExecutor

/-! ## Requests -/

/-- What the service is sent: a step that validates, a decision of the line lead, or
    the operator's control. -/
inductive FactoryCall where
  | execute (step : Step) (context : ExecutionContext) (valid : step.make = .ok step)
  | decide (decision : Decision)
  | control (ticketId : String) (verb : ControlVerb) (by_ : String)

/-- A call; the process may have been started anew before it. -/
structure FactoryRequest where
  call : FactoryCall
  restarted : Bool := false

/-- A request begins: a new process, started on purpose or after a death, has
    nothing in memory. -/
def Plant.begin (restarted : Bool) (w : Plant) : Plant :=
  if restarted || w.serving then
    { w with memory := fun _ => none, batches := 0, life := w.life + 1, serving := true }
  else { w with serving := true }

def Plant.answered (w : Plant) : Plant := { w with serving := false }

def FactoryCall.prog (X : FactoryExecutor) : FactoryCall → PlantM Unit
  | .execute step context _ => do
    let _ ← X.execute step context
    pure ()
  | .decide decision => X.decide decision
  | .control ticketId verb by_ => X.control ticketId verb by_

/-- A request is served; an exception is answered, and the process goes on. -/
def FactoryRequest.prog (X : FactoryExecutor) (r : FactoryRequest) : PlantM Unit := do
  Prog.quiet fun w => ((), w.begin r.restarted)
  Prog.attempt (r.call.prog X)
  Prog.quiet fun w => ((), w.answered)

end Slas
