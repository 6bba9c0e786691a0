/-
  Slas.Validation.Executor

  The steps of the validation executor (`slas_validation_executor.executor`) and
  the requests its service answers, one at a time for a ticket: an exception
  ends the request and not the process, and a death loses what was only in
  memory.
-/

import Slas.Validation.Cycle
import Slas.Validation.Primitives

namespace Slas

open Crash

/-! ## The cycle map -/

namespace RunState

/-- The whole map from the first cycle on. -/
def freshCycles (kind : String) (total : Nat) : List CycleCell :=
  (List.range total).map fun i => { n := i + 1, kind, n_pos := Nat.succ_pos i }

/-- The first cell of a cycle changed. -/
def updateCell (n : Nat) (g : CycleCell → CycleCell) : List CycleCell → List CycleCell
  | [] => []
  | cell :: cells => if cell.n = n then g cell :: cells else cell :: updateCell n g cells

/-- A cell for the cycle, made and sorted in if there is none. -/
def withCell (s : RunState) (n : Nat) (kind : String) (hn : 1 ≤ n) : RunState :=
  if s.cycles.any (·.n == n) then s
  else
    let cell : CycleCell := { n, kind, n_pos := hn }
    { s with cycles := (s.cycles ++ [cell]).mergeSort fun a b => a.n ≤ b.n }

def markRunning (s : RunState) (n : Nat) (kind : String) : RunState :=
  { s with cycles := updateCell n (fun cell => { cell with kind, status := .running }) s.cycles }

/-- The outcome of a cycle: the failure count, and the cell. -/
def finishCell (s : RunState) (result : CycleResult) (findings : List Finding) : RunState :=
  { s with
    consecutiveBootFailures := if result.booted then 0 else s.consecutiveBootFailures + 1
    cycles := updateCell result.n (fun cell =>
      { cell with
        status := if !result.booted then .failed else if findings = [] then .ok else .finding
        sentence := result.sentence }) s.cycles }

/-- `RunState.sentence` -/
def sentence (s : RunState) : String :=
  let count (p : CycleStatus → Bool) := s.cycles.countP fun cell => p cell.status
  let done := count fun status => status == .ok || status == .finding || status == .failed
  let findings := count (· == .finding)
  let failed := count (· == .failed)
  let tail := (if findings = 0 then [] else [toString findings ++ " with findings"]) ++
    (if failed = 0 then [] else [toString failed ++ " did not boot"])
  toString done ++ " of " ++ toString s.cycles.length ++ " cycles done" ++
    (if tail = [] then "" else ": " ++ ", ".intercalate tail) ++ "."

end RunState

namespace ValidationExecutor

variable {Snap : Type} (X : ValidationExecutor Snap)

/-! ## The arguments of a step -/

/-- `int(step.args[key])` -/
def intArg (step : Step) (key : String) : Except String Int :=
  match step.args.lookup key with
  | none => .error ("'" ++ key ++ "'")
  | some value => X.int value

/-- `int(step.args.get(key, default))` -/
def intArgOr (step : Step) (key : String) (default : Int) : Except String Int :=
  match step.args.lookup key with
  | none => .ok default
  | some value => X.int value

/-- `str(step.args.get(key, default))` -/
def strArgOr (step : Step) (key default : String) : String :=
  ((step.args.lookup key).map X.str).getD default

/-- The number and the kind a `power_cycle` step names. -/
def cycleOf (step : Step) : Except String Int := X.intArg step "cycle"

def kindOf (step : Step) : String := X.strArgOr step "kind" "dc"

/-! ## Leases -/

/-- `self.leases.acquire`; a busy target is a value here, for it is caught. -/
def acquire (target : String) (context : ExecutionContext) (now : DateTime) :
    BenchM Snap (Except ThreePartMessage Lease) :=
  Prog.effect fun w =>
    match LeaseTable.acquire "target" w.leases target context.ticketId context.user now
        X.guardrails.maxRunHours with
    | .ok (lease, items) => (.ok (.ok lease), { w with leases := items })
    | .error (.busy message) => (.ok (.error message), w)
    | .error .invalid => (.error "String should have at least 1 character", w)

/-- `_lease` -/
def lease (context : ExecutionContext) (target : String) : BenchM Snap Observation := do
  let now ← X.now
  match ← X.acquire target context now with
  | .ok lease =>
    return { exitCode := some 0
             summary := "Leased " ++ target ++ " for this run. " ++ lease.sentence }
  | .error message =>
    return { exitCode := some 1, summary := message.whatHappened, stderr := message.whatToDo }

/-- `_release` -/
def release (context : ExecutionContext) (target : String) : BenchM Snap Observation := do
  let released ← Prog.effect fun w : Bench Snap =>
    match LeaseTable.release w.leases target context.ticketId with
    | some items => (.ok true, { w with leases := items })
    | none => (.ok false, w)
  return { exitCode := some 0
           summary := if released then "Released " ++ target ++ "."
             else target ++ " was not leased to this run; nothing to release." }

/-! ## Snapshots, tools and logs -/

/-- `_console_on` -/
def consoleOn (context : ExecutionContext) (target : String) : BenchM Snap Observation := do
  X.callHal context.ticketId target fun k => X.hal.consoleOn k target
  return { exitCode := some 0
           summary := "Serial console and syslog of " ++ target ++ " are being captured." }

/-- `_baseline_snapshot` -/
def baselineSnapshot (context : ExecutionContext) (target : String) : BenchM Snap Observation := do
  let snapshot ← X.callHal context.ticketId target fun k => X.hal.snapshot k target
  Prog.write fun w =>
    { w with baselines := Function.update w.baselines context.ticketId (some snapshot) }
  return { exitCode := some 0, summary := "Baseline recorded. " ++ X.snapshotSentence snapshot
           stdout := X.snapshotJson snapshot }

/-- `max(..., key=index, default="OK")` -/
def worstSeverity (entries : List SelEntry) : SelSeverity :=
  if entries.any (·.severity == .critical) then .critical
  else if entries.any (·.severity == .warning) then .warning
  else .ok

def runDir (ticketId : String) : String := "Validation/Runs/" ++ ticketId

/-- `_sel_snapshot`; the file is named by the clock. -/
def selSnapshot (context : ExecutionContext) (target : String) : BenchM Snap Observation := do
  let entries ← X.callHal context.ticketId target fun k => X.hal.sel k target
  let now ← X.now
  Prog.write (Bench.touch (runDir context.ticketId ++ "/findings/sel-" ++ toString now ++ ".json"))
  return { exitCode := some 0
           summary := "SEL read: " ++ toString entries.length ++ " entries, worst severity " ++
             (worstSeverity entries).value ++ "."
           stdout := "\n".intercalate (entries.map (·.line)) }

/-- `_inventory_snapshot` -/
def inventorySnapshot (context : ExecutionContext) (target : String) :
    BenchM Snap Observation := do
  let inventory ← X.callHal context.ticketId target fun k => X.hal.inventory k target
  return { exitCode := some 0
           summary := "Inventory read: " ++ inventory.model ++ " " ++ inventory.serial ++ ", " ++
             toString inventory.devices ++ " PCIe devices, BIOS " ++ inventory.biosVersion ++
             ", BMC " ++ inventory.bmcVersion ++ "."
           stdout := inventory.modelDumpJson }

/-- The command line of a tool, and how long it may take. -/
def toolArgv (step : Step) : Except String (String × List String × Int) := do
  let tool ← match step.args.lookup "tool" with
    | none => .error "'tool'"
    | some value => .ok (X.str value)
  let extra ← Json.iterate ((step.args.lookup "args").getD (.arr []))
  let timeout ← match (step.args.lookup "duration_s").or (step.args.lookup "timeout_s") with
    | none => .ok 600
    | some value => X.int value
  return (tool, extra.map X.str, timeout)

/-- `_tool` -/
def tool (step : Step) (context : ExecutionContext) (target : String) :
    BenchM Snap Observation := do
  let (tool, extra, timeout) ← Prog.ofExcept (X.toolArgv step)
  let result ← X.callHal context.ticketId target fun k =>
    X.hal.ssh k target (tool :: extra) timeout
  return { exitCode := some result.exitCode, stdout := result.stdout, stderr := result.stderr
           summary := tool ++ " " ++ (if result.exitCode = 0 then "finished" else "failed") ++
             " on " ++ target ++ " (exit " ++ toString result.exitCode ++ ")." }

/-- The command line of a destructive step: its arguments in the order of their
    names, without the target. -/
def destructiveArgv (step : Step) : List String :=
  let args := (step.args.mergeSort fun a b => a.1 ≤ b.1).filter fun arg => arg.1 ≠ "target"
  step.primitive :: args.map fun arg => arg.1 ++ "=" ++ X.str arg.2

/-- `_destructive`: a step that is not marked is refused, whatever the plan says. -/
def destructive (spec : PlanPrimitive) (step : Step) (context : ExecutionContext)
    (target : String) : BenchM Snap Observation :=
  if step.risk ≠ .destructive then
    return { exitCode := some 2
             summary := "Step " ++ toString step.n ++ " (" ++ step.title ++ ") is " ++
               (approvalKind X.str spec step.args).getD "None" ++
               " but was not marked destructive."
             stderr := "Recompile the plan; this is a compiler defect, not something to work " ++
               "around." }
  else do
    X.callHal context.ticketId target fun k => X.hal.fence k target
      ("--- slas fence " ++ context.ticketId ++ " " ++ step.primitive ++ " ---")
    let result ← X.callHal context.ticketId target fun k =>
      X.hal.ssh k target (X.destructiveArgv step) 600
    return { exitCode := some result.exitCode, stdout := result.stdout, stderr := result.stderr
             summary := step.title ++ ": " ++ (if result.exitCode = 0 then "done" else "failed") ++
               " on " ++ target ++ " (approved for this run)." }

/-- `state_for` -/
def stateFor (ticketId : String) : BenchM Snap (Option RunState) :=
  Prog.look fun w => (w.states ticketId).or (w.runs ticketId)

/-- `_collect_logs` -/
def collectLogs (context : ExecutionContext) (target : String) : BenchM Snap Observation := do
  let console ← X.callHal context.ticketId target fun k => X.hal.consoleLines k target
  Prog.write (Bench.touch (runDir context.ticketId ++ "/console.log"))
  let state ← stateFor context.ticketId
  return { exitCode := some 0
           summary := "Collected " ++ toString console.length ++ " console lines" ++
             (match state with | some s => "; " ++ s.sentence | none => ".")
           stdout := "\n".intercalate (console.drop (console.length - 50)) }

/-! ## Power cycles -/

/-- `_state`: from memory, from `cycles.json`, or a new one; kept in memory. -/
def state (ticketId target : String) (totalCycles : Int) (kind : String) :
    BenchM Snap RunState :=
  Prog.quiet fun w =>
    let known := (w.states ticketId).or (w.runs ticketId)
    let s := known.getD { ticketId, target }
    let s := if s.cycles.isEmpty then
      { s with cycles := RunState.freshCycles kind totalCycles.toNat } else s
    (s, { w with states := Function.update w.states ticketId (some s) })

/-- `_baseline` -/
def baseline (ticketId : String) : BenchM Snap Snap := do
  match ← Prog.look fun w : Bench Snap => w.baselines ticketId with
  | some b => pure b
  | none => Prog.raise (ticketId ++ " has no baseline; run baseline_snapshot first")

/-- `_save_state`, with the change in memory that it saves: a process that dies
    before the write loses both. -/
def saveState (s : RunState) : BenchM Snap Unit :=
  Prog.write fun w => (w.remember s).saveRun s

/-- The same with the outcome of a cycle, which counts from here on. -/
def saveOutcome (c : CycleCall) (booted : Bool) (s : RunState) : BenchM Snap Unit :=
  Prog.write fun w =>
    ((w.remember s).saveRun s).note c.ticketId (.concluded c.n booted s.consecutiveBootFailures)

/-- The findings of a diff. -/
def diffFindings (c : CycleCall) (diff : Option DiffReport) : Except String (List Finding) :=
  ((diff.map (·.findings)).getD []).mapM fun f =>
    findingFromSentence X.fingerprint f.message
      ["cycle " ++ toString c.n ++ ": " ++ f.before ++ " → " ++ f.after] (some f.severity)
      f.component

/-- The finding of a run that is aborted. -/
def abortFinding (c : CycleCall) (s : RunState) : Except String Finding :=
  let failed := (s.cycles.filter (·.status == .failed)).map (·.sentence)
  findingFromSentence X.fingerprint
    (c.target ++ " failed to boot " ++ toString s.consecutiveBootFailures ++
      " times in a row during " ++ X.upper c.kind ++ " cycling")
    (failed.drop (failed.length - 3)) (some .S1) (some "Boot")

/-- The gate: too many boot failures in a row abort the run. -/
def gate (c : CycleCall) (result : CycleResult) (findings : List Finding) (s : RunState) :
    Except String (RunState × Int × String × List Finding) :=
  if X.guardrails.consecutiveFailureAbort ≤ s.consecutiveBootFailures then do
    let s := { s with aborted := true }
    let finding ← X.abortFinding c s
    return (s, 3, result.sentence ++ " That is " ++ toString s.consecutiveBootFailures ++
      " boot failures in a row; the run is aborted (guardrail consecutive_failure_abort=" ++
      toString X.guardrails.consecutiveFailureAbort ++ "). A person needs to look at the target.",
      findings ++ [finding])
  else return (s, 0, result.sentence, findings)

/-- `_power_cycle` after the cycle: outcome, gate, map and observation. -/
def concludeCycle (c : CycleCall) (s : RunState) (result : CycleResult) :
    BenchM Snap Observation := do
  let findings ← Prog.ofExcept (X.diffFindings c result.diff)
  let (s, exitCode, summary, findings) ←
    Prog.ofExcept (X.gate c result findings (s.finishCell result findings))
  saveOutcome c result.booted s
  let lines ← X.callHal c.ticketId c.target fun k => X.hal.consoleLines k c.target
  return { exitCode := some exitCode, summary, findings
           stdout := "\n".intercalate (lines.drop (lines.length - 20)) }

/-- `_power_cycle` past the gate: the cell is marked, the cycle run. -/
def runAndConclude (step : Step) (context : ExecutionContext) (target : String) (n : Nat)
    (hn : 1 ≤ n) (s : RunState) : BenchM Snap Observation := do
  let kind := X.kindOf step
  let s := (s.withCell n kind hn).markRunning n kind
  saveState s
  let settleS ← Prog.ofExcept (X.intArgOr step "settle_s" (X.guardrails.settleFloor kind))
  let baseline ← baseline context.ticketId
  let c : CycleCall := { ticketId := context.ticketId, target, n, kind, settleS }
  let result ← X.runCycle c baseline
  X.concludeCycle c s result

/-- `_power_cycle` -/
def powerCycle (step : Step) (context : ExecutionContext) (target : String) :
    BenchM Snap Observation := do
  let n ← Prog.ofExcept (X.cycleOf step)
  let total ← Prog.ofExcept (X.intArgOr step "total_cycles" n)
  let s ← state context.ticketId target total (X.kindOf step)
  if s.aborted then
    return { exitCode := some 3
             summary := "Cycle " ++ toString n ++
               " skipped: the run was aborted after repeated boot failures." }
  else if hn : 1 ≤ n then
    X.runAndConclude step context target n.toNat (by omega) s
  else Prog.raise "n: Input should be greater than or equal to 1"

/-! ## Dispatch -/

/-- The handler of a primitive; what the table does not name is destructive. -/
def handle (spec : PlanPrimitive) (step : Step) (context : ExecutionContext) (target : String) :
    BenchM Snap Observation :=
  match step.primitive with
  | "lease_target" => X.lease context target
  | "console_on" => X.consoleOn context target
  | "baseline_snapshot" => X.baselineSnapshot context target
  | "power_cycle" => X.powerCycle step context target
  | "sel_snapshot" => X.selSnapshot context target
  | "inventory_snapshot" => X.inventorySnapshot context target
  | "stress" => X.tool step context target
  | "run_diag" => X.tool step context target
  | "collect_logs" => X.collectLogs context target
  | "release_target" => release context target
  | _ => X.destructive spec step context target

/-- `execute` -/
def execute (step : Step) (context : ExecutionContext) : BenchM Snap Observation :=
  match primitive? step.primitive with
  | none => Prog.raise ("Step " ++ step.id ++ " uses the primitive " ++ X.repr step.primitive ++
      ", which this executor does not know.")
  | some spec =>
    match step.args.lookup "target" with
    | none => Prog.raise "'target'"
    | some target => X.handle spec step context (X.str target)

end ValidationExecutor

/-! ## Requests -/

/-- One step the service is sent.  The process may have been started anew before
    it, with the executor it is then built with. -/
structure Request (Snap : Type) where
  executor : ValidationExecutor Snap
  step : Step
  context : ExecutionContext
  restarted : Bool := false

/-- A request begins: a new process, started on purpose or after a death, has
    nothing in memory. -/
def Bench.begin {Snap : Type} (restarted : Bool) (w : Bench Snap) : Bench Snap :=
  if restarted || w.serving then { w with states := fun _ => none, serving := true }
  else { w with serving := true }

def Bench.answered {Snap : Type} (w : Bench Snap) : Bench Snap := { w with serving := false }

/-- A request is served; an exception is answered, and the process goes on. -/
def Request.prog {Snap : Type} (r : Request Snap) : BenchM Snap Unit := do
  Prog.quiet fun w => ((), w.begin r.restarted)
  Prog.attempt (r.executor.execute r.step r.context)
  Prog.quiet fun w => ((), w.answered)

end Slas
