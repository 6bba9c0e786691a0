/-
  Slas.Skills.Runner

  RUN (`slas_skills.runner`): a compiled skill, step by step.

  What the steps act on is a world of any type.  The state of a run keeps beside the
  source's own records each step's turn, with the context it found and whether it
  was taken, and the steps that were dispatched, with the arguments they had then.
-/

import Slas.Skills.Compiler

namespace Slas

namespace Skills

/-! ## Records -/

structure StepOutcome where
  ok : Bool
  sentence : String
  exitCode : Option Int := none
  stdout : String := ""
  stderr : String := ""
  outputs : Bindings := []

/-- `ScreenResult`, with the paths of its screenshots. -/
structure ScreenResult where
  ok : Bool
  sentence : String
  before : Option String := none
  after : Option String := none
  outputs : Bindings := []

inductive ScreenFailure where
  /-- `ScreenStopError` -/
  | stopped (message : ThreePartMessage)
  | raised (message : String)

inductive RunStatus where
  | done
  | failed
  | skipped
  | stopped
  deriving DecidableEq

structure StepRun where
  stepId : String
  n : Nat
  title : String
  status : RunStatus
  sentence : String
  attempts : Nat := 1
  screenshots : List String := []
  outputs : Bindings := []

structure SkillRunResult where
  skillId : String
  status : RunStatus
  steps : List StepRun := []
  outputs : Bindings := []
  sentence : String

structure SkillEntry where
  kind : String
  payload : Bindings
  stepId : String

/-- What leaves `run` as an exception. -/
inductive Escape where
  /-- `ApprovalRequiredError` -/
  | approvalRequired (step : Step)
  | raised (message : String)

/-- What the steps act on: the executor, the screen driver and its screenshot after
    a failure, and `sleep`. -/
structure Devices (σ : Type) where
  execute : Step → Bindings → σ → Except String StepOutcome × σ
  screen : Option (Step → σ → Except ScreenFailure ScreenResult × σ) := none
  failureShot : String → σ → Except String (Option String) × σ := fun _ w => (.ok none, w)
  sleep : FloatValue → Except String Unit := fun _ => .ok ()

/-- A step's turn: the context it finds, and whether its guard lets it through. -/
structure Turn where
  step : Step
  context : Bindings
  taken : Bool

structure RunState (σ : Type) where
  world : σ
  context : Bindings
  runs : List StepRun := []
  journal : List SkillEntry := []
  turns : List Turn := []
  dispatched : List Step := []

namespace RunState

variable {σ : Type}

def jot (entry : SkillEntry) (st : RunState σ) : RunState σ :=
  { st with journal := st.journal ++ [entry] }

def take (turn : Turn) (st : RunState σ) : RunState σ := { st with turns := st.turns ++ [turn] }

def record (run : StepRun) (st : RunState σ) : RunState σ := { st with runs := st.runs ++ [run] }

end RunState

/-! ## One step -/

variable (P : Python) {σ : Type} (D : Devices σ)

/-- `source` of a step, for messages. -/
def stepSource (step : Step) : String := "step " ++ step.id

/-- `_holds` -/
def holds (condition : String) (context : Bindings) (step : Step) : Bool :=
  match evaluate P (find context) (stepSource step) condition with
  | .ok b => b
  | .error _ => false

/-- `not step.when or _holds(...)`: the empty text counts as no guard. -/
def guardHolds (context : Bindings) (step : Step) : Bool :=
  match step.when with
  | none => true
  | some condition => condition == "" || holds P condition context step

/-- `_mask` -/
def mask (masked : Bool) (args : Bindings) : Bindings :=
  if masked then args.map fun kv => (kv.1, .str "[secret]") else args

def optionalInt : Option Int → Json
  | none => .null
  | some i => .num (.ofInt i)

/-- `ctx["steps"][id] = {...}` -/
def recordOutput (id : String) (value : Bindings) (context : Bindings) :
    Except String Bindings :=
  match context.lookup "steps" with
  | some (.obj steps) => .ok (assign "steps" (.obj (assign id (.obj value) steps)) context)
  | _ => .error "'steps' does not support item assignment"

/-- The outputs of a step that succeeded, as later steps read them. -/
def outputsOf (outcome : StepOutcome) : Bindings :=
  assign "stderr" (.str outcome.stderr) (assign "stdout" (.str outcome.stdout)
    (assign "exit_code" (optionalInt outcome.exitCode) outcome.outputs))

/-- `ctx[str(args["var"])] = args["value"]`, for `set` -/
def setVariable (primitive : String) (args context : Bindings) : Except String Bindings :=
  if primitive = "set" then
    match args.lookup "var", args.lookup "value" with
    | some var, some value => .ok (assign (P.str var) value context)
    | none, _ => .error "'var'"
    | _, none => .error "'value'"
  else .ok context

/-- `_screen_step` -/
def screenStep (step : Step) (w : σ) : Except String (StepOutcome × List String) × σ :=
  match D.screen with
  | none => (.ok ({ ok := false
                    sentence := step.title ++ " needs a screen, and this run has no virtual display." },
      []), w)
  | some call =>
    match call step w with
    | (.error (.stopped message), w) => (.ok ({ ok := false, sentence := message.whatHappened }, []), w)
    | (.error (.raised message), w) => (.error message, w)
    | (.ok result, w) =>
      (.ok ({ ok := result.ok, sentence := result.sentence, outputs := result.outputs },
        (result.before.toList ++ result.after.toList).filter (· ≠ "")), w)

/-- `_dispatch` -/
def dispatch (step : Step) (context : Bindings) (w : σ) :
    Except String (StepOutcome × List String) × σ :=
  if step.primitive ∈ SCREEN_PRIMITIVES then screenStep D step w
  else if step.primitive = "wait" then
    match step.args.lookup "seconds" with
    | none => (.error "'seconds'", w)
    | some value =>
      match P.float value with
      | .error e => (.error e, w)
      | .ok seconds =>
        match D.sleep seconds with
        | .error e => (.error e, w)
        | .ok () =>
          (.ok ({ ok := true, sentence := "Waited " ++ P.general seconds ++ " seconds." }, []), w)
  else if step.primitive = "set" then
    match step.args.lookup "var" with
    | none => (.error "'var'", w)
    | some var => (.ok ({ ok := true, sentence := "Set " ++ P.str var ++ "." }, []), w)
  else if step.primitive = "assert" then
    match step.args.lookup "condition" with
    | none => (.error "'condition'", w)
    | some condition =>
      match evaluate P (find context) (stepSource step) (P.str condition) with
      | .error message => (.ok ({ ok := false, sentence := message.whatHappened }, []), w)
      | .ok holds =>
        match step.args.lookup "message" with
        | none => (.error "'message'", w)
        | some message =>
          (.ok ({ ok := holds
                  sentence := (if holds then "Checked: " else "Check failed: ") ++ P.str message ++
                    "." }, []), w)
  else
    match D.execute step context w with
    | (.error e, w) => (.error e, w)
    | (.ok outcome, w) => (.ok (outcome, []), w)

section Perform

variable (compiled : CompiledSkill) (step : Step)

def masked : Bool := decide (step.id ∈ compiled.secretSteps)

/-- How a step is reported that did not succeed. -/
def failedRun (sentence : String) (attempts : Nat) (screenshots : List String)
    (policy : OnFailure) : StepRun :=
  { stepId := step.id, n := step.n, title := step.title
    status := if policy = .continue_ then .done else .failed
    sentence, attempts, screenshots }

/-- `_failed` -/
def failed (sentence : String) (attempts : Nat) (screenshots : List String) (policy : OnFailure)
    (st : RunState σ) : RunState σ × Except Escape StepRun :=
  if policy = .screenshotAndStop ∧ D.screen.isSome then
    match D.failureShot (step.id ++ "-failure") st.world with
    | (.error e, world) => ({ st with world }, .error (.raised e))
    | (.ok shot, world) =>
      ({ st with world }, .ok (failedRun step sentence attempts
        (screenshots ++ shot.toList.filter (· ≠ "")) policy))
  else if policy = .continue_ then
    match recordOutput step.id [("failed", .bool true)] st.context with
    | .error e => (st, .error (.raised e))
    | .ok context =>
      ({ st with context }, .ok (failedRun step sentence attempts screenshots policy))
  else (st, .ok (failedRun step sentence attempts screenshots policy))

/-- What a step that succeeded leaves in the context. -/
def succeed (args : Bindings) (outcome : StepOutcome) (context : Bindings) :
    Except String Bindings :=
  match recordOutput step.id (outputsOf outcome) context with
  | .error e => .error e
  | .ok context => setVariable P step.primitive args context

def intentEntry (args : Bindings) (attempt : Nat) : SkillEntry where
  kind := "intent"
  payload := [("primitive", .str step.primitive),
    ("args", .obj (mask (masked compiled step) args)), ("attempt", .num (.ofNat attempt))]
  stepId := step.id

def observationEntry (outcome : StepOutcome) (shots : List String) : SkillEntry where
  kind := "observation"
  payload :=
    let hidden := masked compiled step
    [("ok", .bool outcome.ok), ("sentence", .str outcome.sentence),
     ("exit_code", optionalInt outcome.exitCode),
     ("stdout", .str (if hidden then "" else outcome.stdout)),
     ("stderr", .str (if hidden then "" else outcome.stderr)),
     ("outputs", .obj (if hidden then [] else outcome.outputs)),
     ("screenshots", .arr (shots.map .str))]
  stepId := step.id

/-- The seconds between two attempts. -/
def retryDelay : Option FloatValue :=
  match compiled.onFailure with
  | .retry _ delayS => if delayS = 0 then none else some (.finite (.ofNat delayS))
  | _ => none

/-- `_perform`, with so many retries left. -/
def perform : Nat → Nat → List String → RunState σ → RunState σ × Except Escape StepRun
  | left, attempt, screenshots, st =>
    match renderFields P (find st.context) (stepSource step) step.args with
    | .error message => failed D step message.whatHappened attempt screenshots .stop st
    | .ok args =>
      let resolved := { step with args }
      let st := { st.jot (intentEntry compiled step args attempt) with
        dispatched := st.dispatched ++ [resolved] }
      match dispatch P D resolved st.context st.world with
      | (.error e, world) => ({ st with world }, .error (.raised e))
      | (.ok (outcome, shots), world) =>
        let st := { st.jot (observationEntry compiled step outcome shots) with world }
        let screenshots := screenshots ++ shots
        if outcome.ok then
          match succeed P step args outcome st.context with
          | .error e => (st, .error (.raised e))
          | .ok context =>
            ({ st with context }, .ok
              { stepId := step.id, n := step.n, title := step.title, status := .done
                sentence := outcome.sentence, attempts := attempt, screenshots
                outputs := outcome.outputs })
        else
          match left with
          | 0 => failed D step outcome.sentence attempt screenshots compiled.onFailure st
          | left + 1 =>
            match (retryDelay compiled).map D.sleep with
            | some (.error e) => (st, .error (.raised e))
            | _ => perform left (attempt + 1) screenshots st

end Perform

/-! ## The run -/

def retries : OnFailure → Nat
  | .retry max _ => max
  | _ => 0

section Run

variable (compiled : CompiledSkill) (approved : List String)

def skippedRun (step : Step) : StepRun :=
  { stepId := step.id, n := step.n, title := step.title, status := .skipped
    sentence := "Skipped: " ++ step.when.getD "" ++ " does not hold." }

/-- The turns of the steps, and how they end. -/
def runSteps : List Step → RunState σ → RunState σ × Except Escape RunStatus
  | [], st => (st, .ok .done)
  | step :: steps, st =>
    let taken := guardHolds P st.context step
    let st := st.take { step, context := st.context, taken }
    if taken = false then
      runSteps steps ((st.record (skippedRun step)).jot
        { kind := "note", payload := [("skipped", .str (step.when.getD ""))], stepId := step.id })
    else if step.needsApproval ∧ step.id ∉ approved then
      (st.jot { kind := "note", payload := [("approval_required", .str step.title)]
                stepId := step.id }, .error (.approvalRequired step))
    else
      match perform P D compiled step (retries compiled.onFailure) 1 [] st with
      | (st, .error e) => (st, .error e)
      | (st, .ok run) =>
        let st := st.record run
        if run.status = .failed ∨ run.status = .stopped then (st, .ok run.status)
        else runSteps steps st

/-- The outputs the skill names, as far as their steps have run. -/
def runOutputs (context : Bindings) : Except String Bindings :=
  match context.lookup "steps" with
  | some (.obj steps) => .ok (compiled.outputs.filterMap fun (name, id) =>
      (steps.lookup id).map (name, ·))
  | _ => if compiled.outputs = [] then .ok [] else .error "'steps' is no mapping"

def RunStatus.value : RunStatus → String
  | .done => "done"
  | .failed => "failed"
  | .skipped => "skipped"
  | .stopped => "stopped"

/-- `run` -/
def run (context : Bindings) (world : σ) : RunState σ × Except Escape SkillRunResult :=
  let context := if (context.lookup "steps").isSome then context else assign "steps" (.obj []) context
  match runSteps P D compiled approved compiled.plan.steps { world, context } with
  | (st, .error e) => (st, .error e)
  | (st, .ok status) =>
    match runOutputs compiled st.context with
    | .error e => (st, .error (.raised e))
    | .ok outputs =>
      let total := compiled.plan.steps.length
      let finished := (st.runs.filter fun run => run.status = .done).length
      (st, .ok
        { skillId := compiled.skillId, status, steps := st.runs, outputs
          sentence :=
            if status = .done then
              compiled.plan.summary ++ ": " ++ toString finished ++ " of " ++ toString total ++
                " steps finished."
            else compiled.plan.summary ++ " " ++ RunStatus.value status ++ " after step " ++
              toString st.runs.length ++ " of " ++ toString total ++ "." })

end Run

end Skills

end Slas
