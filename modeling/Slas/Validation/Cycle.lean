/-
  Slas.Validation.Cycle

  One power cycle as a state machine (`slas_validation_executor.cycle`):

      ARM → QUIESCE → ACT → SETTLE → VERIFY

  Every phase has a line in the cycle's own journal, written ahead of it.  A
  restarted process reads the journal and skips ARM, QUIESCE and ACT when their
  lines are there; SETTLE and VERIFY only observe and are repeated.

  The crash points are the journal writes, the files and the hardware calls.  A
  journal line goes out in pieces, so a process may also die within one.  The
  hardware is a parameter: it answers each call as it likes, by the number of
  calls before.  While a step runs the service goes on serving the lease and
  release requests of other tickets.
-/

import Slas.Kernel.JournalFile
import Slas.Kernel.Leases
import Slas.Lib.Crash
import Slas.Triage.Dedup

namespace Slas

open Crash

/-! ## Hardware -/

inductive PowerAction where
  | on
  | off
  | forceOff
  | gracefulRestart
  | acCycle
  deriving DecidableEq, Repr

def PowerAction.value : PowerAction → String
  | .on => "on"
  | .off => "off"
  | .forceOff => "force_off"
  | .gracefulRestart => "graceful_restart"
  | .acCycle => "ac_cycle"

inductive SelSeverity where
  | ok
  | warning
  | critical
  deriving DecidableEq, Repr

def SelSeverity.value : SelSeverity → String
  | .ok => "OK"
  | .warning => "Warning"
  | .critical => "Critical"

/-- `slas_hal.model.SelEntry`; its id and sensor only go into files. -/
structure SelEntry where
  created : String
  severity : SelSeverity
  message : String

def SelEntry.line (e : SelEntry) : String :=
  "[" ++ e.created ++ "] " ++ e.severity.value ++ ": " ++ e.message

/-- `slas_hal.model.Inventory`: what is said of it, and its dump. -/
structure Inventory where
  model : String
  serial : String
  biosVersion : String
  bmcVersion : String
  devices : Nat
  modelDumpJson : String

/-- The part of `slas_hal.hal.Hal` the executor uses.  Each call is told how many
    calls were made before it; an exception is its message. -/
structure Hal (Snap : Type) where
  ssh : Nat → String → List String → Int → Except String CommandResult
  sel : Nat → String → Except String (List SelEntry)
  inventory : Nat → String → Except String Inventory
  fence : Nat → String → String → Except String Unit
  power : Nat → String → PowerAction → Except String Unit
  waitForOs : Nat → String → Nat → Except String Bool
  snapshot : Nat → String → Except String Snap
  consoleOn : Nat → String → Except String Unit
  consoleLines : Nat → String → Except String (List String)

/-- `slas_diff.diff.DiffFinding`, as far as a cycle reads it. -/
structure DiffFinding where
  message : String
  severity : Severity
  component : Option String := none
  before : String := ""
  after : String := ""
  message_ne : message ≠ ""

structure DiffReport where
  findings : List DiffFinding := []
  context : String := ""

def DiffReport.clean (r : DiffReport) : Bool := r.findings.isEmpty

def DiffReport.sentence (r : DiffReport) : String :=
  if r.clean then
    "No change against the baseline" ++ (if r.context = "" then "" else " " ++ r.context) ++ "."
  else
    let count := r.findings.length
    toString count ++ " " ++ (if count = 1 then "change" else "changes") ++
      " against the baseline" ++ (if r.context = "" then ": " else " " ++ r.context ++ ": ") ++
      " ".intercalate (r.findings.map (·.message))

/-- `slas_validation_executor.guardrails.Guardrails`, the limits of a run. -/
structure Guardrails where
  maxCyclesPerRun : Nat := 100
  minSettleS : Nat := 10
  minAcSettleS : Nat := 30
  bootTimeoutS : Nat := 900
  consecutiveFailureAbort : Nat := 3
  maxRunHours : Nat := 72
  requiresApproval : List String :=
    ["ac_cycle", "firmware_flash", "secure_erase", "bios_reset", "raid_reconfigure"]
  maxCyclesPerRun_range : 1 ≤ maxCyclesPerRun ∧ maxCyclesPerRun ≤ 1000 := by decide
  minSettleS_pos : 1 ≤ minSettleS := by decide
  minAcSettleS_pos : 1 ≤ minAcSettleS := by decide
  bootTimeoutS_min : 30 ≤ bootTimeoutS := by decide
  consecutiveFailureAbort_pos : 1 ≤ consecutiveFailureAbort := by decide
  maxRunHours_pos : 1 ≤ maxRunHours := by decide

/-- `default_guardrails` -/
def defaultGuardrails : Guardrails := {}

def Guardrails.settleFloor (g : Guardrails) (kind : String) : Nat :=
  if kind = "ac" then g.minAcSettleS else g.minSettleS

/-! ## The cycle's journal -/

inductive Phase where
  | arm
  | quiesce
  | act
  | settle
  | verify
  deriving DecidableEq, Repr

structure PhaseEntry where
  phase : Phase
  at_ : DateTime
  detail : List (String × Json) := []

/-- No text of the entry is cut by `splitlines`. -/
def PhaseEntry.readable (e : PhaseEntry) : Bool :=
  (Json.charsFields e.detail).all fun c => !isWideBreak c

/-- How the file ends: with a newline, with an entry that lacks it, with a part
    of an entry, or past a line that is no entry. -/
inductive Tail where
  | clean
  | unterminated
  | torn
  | broken
  deriving DecidableEq, Repr

/-- `Runs/<ticket>/cycles/<n>/journal.jsonl` -/
structure CycleFile where
  entries : List PhaseEntry := []
  tail : Tail := .clean

namespace CycleFile

/-- The first piece of a line goes out. -/
def startLine (f : CycleFile) : CycleFile :=
  { f with tail := if f.tail = .clean then .torn else .broken }

/-- The rest of it does, up to the newline. -/
def finishLine (e : PhaseEntry) (f : CycleFile) : CycleFile :=
  if f.tail = .torn then ⟨f.entries ++ [e], .unterminated⟩ else f

def newline (f : CycleFile) : CycleFile :=
  if f.tail = .unterminated then { f with tail := .clean } else f

/-- Every line parses. -/
def readable (f : CycleFile) : Bool :=
  (f.tail = .clean || f.tail = .unterminated) && f.entries.all (·.readable)

/-- The phases the file has a line for. -/
def phases (f : CycleFile) : List Phase := f.entries.map (·.phase)

/-- A process that reads the file finds the ACT line, or cannot read it. -/
def Sealed (f : CycleFile) : Prop := .act ∈ f.phases ∨ f.tail = .broken

theorem Sealed.startLine {f : CycleFile} (h : f.Sealed) : f.startLine.Sealed := by
  rcases h with h | h
  · exact Or.inl h
  · exact Or.inr (by simp [CycleFile.startLine, h])

theorem Sealed.finishLine {f : CycleFile} (h : f.Sealed) (e : PhaseEntry) :
    (f.finishLine e).Sealed := by
  unfold CycleFile.finishLine
  split
  · rename_i htorn
    rcases h with h | h
    · exact Or.inl (by simpa [phases] using Or.inl (by simpa [phases] using h))
    · rw [htorn] at h
      cases h
  · exact h

theorem Sealed.newline {f : CycleFile} (h : f.Sealed) : f.newline.Sealed := by
  unfold CycleFile.newline
  split
  · rename_i hopen
    rcases h with h | h
    · exact Or.inl h
    · rw [hopen] at h
      cases h
  · exact h

/-- A started line that is finished as an ACT line seals the file. -/
theorem sealed_finishLine {f : CycleFile} (h : f.tail = .torn ∨ f.tail = .broken) {e : PhaseEntry}
    (he : e.phase = .act) : (f.finishLine e).Sealed := by
  unfold CycleFile.finishLine
  split
  · exact Or.inl (by simp [phases, he])
  · rename_i hne
    exact Or.inr (h.resolve_left hne)

theorem tail_startLine (f : CycleFile) : f.startLine.tail = .torn ∨ f.startLine.tail = .broken := by
  unfold CycleFile.startLine
  split
  · exact Or.inl rfl
  · exact Or.inr rfl

/-- A readable file without an ACT line is not sealed. -/
theorem not_sealed {f : CycleFile} (hread : f.readable = true) (hact : .act ∉ f.phases) :
    ¬ f.Sealed := by
  rintro (h | h)
  · exact hact h
  · simp [readable, h] at hread

end CycleFile

/-! ## The world of the executor -/

/-- What happens in a cycle, for the record: a process begins it, its ACT line
    is on disk, a power action is issued, the wait for the OS starts, and the
    result is reported. -/
inductive CycleEvent where
  | begun
  | acted (action : PowerAction)
  | power (action : PowerAction)
  | waited
  | reported (booted : Bool)
  deriving DecidableEq, Repr

/-- What happens to a ticket, over all its cycles: a power action is issued, the
    wait for the OS ends, and the outcome of a cycle is on disk with the count of
    failures in a row. -/
inductive RunEvent where
  | power (n : Nat) (action : PowerAction)
  | answered (n : Nat) (booted : Bool)
  | concluded (n : Nat) (booted : Bool) (count : Nat)
  deriving DecidableEq, Repr

/-- A hardware call of a ticket, and who held the target when it was made. -/
structure Touch where
  ticketId : String
  target : String
  at_ : DateTime
  holder : Option Lease

inductive CycleStatus where
  | waiting
  | running
  | ok
  | finding
  | failed
  | skipped
  deriving DecidableEq, Repr

/-- One cell of the cycle map. -/
structure CycleCell where
  n : Nat
  kind : String
  status : CycleStatus := .waiting
  sentence : String := ""
  n_pos : 1 ≤ n

structure RunState where
  ticketId : String
  target : String
  cycles : List CycleCell := []
  consecutiveBootFailures : Nat := 0
  aborted : Bool := false

/-- The files under the data root with the lease table, the memory of the process
    (`_states`), the clock, and the records: of all cycles by ticket and number,
    of the tickets, and of the hardware calls.  `serving` is up while a request
    is served: who finds it up is a new process. -/
structure Bench (Snap : Type) where
  journals : String → Nat → CycleFile := fun _ _ => {}
  runs : String → Option RunState := fun _ => none
  baselines : String → Option Snap := fun _ => none
  leases : LeaseTable.Items := fun _ => none
  files : List String := []
  states : String → Option RunState := fun _ => none
  serving : Bool := false
  halCalls : Nat := 0
  ticks : Nat := 0
  record : String → Nat → List CycleEvent := fun _ _ => []
  history : String → List RunEvent := fun _ => []
  touches : List Touch := []

/-- A point update of a table by ticket and cycle number. -/
def update₂ {α : Type} (f : String → Nat → α) (t : String) (n : Nat) (g : α → α) :
    String → Nat → α :=
  fun t' n' => if t' = t ∧ n' = n then g (f t n) else f t' n'

@[simp] theorem update₂_self {α : Type} (f : String → Nat → α) (t : String) (n : Nat) (g : α → α) :
    update₂ f t n g t n = g (f t n) := by
  simp [update₂]

theorem update₂_of_ne {α : Type} {f : String → Nat → α} {t t' : String} {n n' : Nat} {g : α → α}
    (h : ¬ (t' = t ∧ n' = n)) : update₂ f t n g t' n' = f t' n' := if_neg h

section World

variable {Snap : Type}

namespace Bench

def editJournal (t : String) (n : Nat) (g : CycleFile → CycleFile) (w : Bench Snap) : Bench Snap :=
  { w with journals := update₂ w.journals t n g }

def log (t : String) (n : Nat) (e : CycleEvent) (w : Bench Snap) : Bench Snap :=
  { w with record := update₂ w.record t n (· ++ [e]) }

def note (t : String) (e : RunEvent) (w : Bench Snap) : Bench Snap :=
  { w with history := Function.update w.history t (w.history t ++ [e]) }

def saveRun (s : RunState) (w : Bench Snap) : Bench Snap :=
  { w with runs := Function.update w.runs s.ticketId (some s) }

def remember (s : RunState) (w : Bench Snap) : Bench Snap :=
  { w with states := Function.update w.states s.ticketId (some s) }

def touch (path : String) (w : Bench Snap) : Bench Snap := { w with files := w.files ++ [path] }

def tick (w : Bench Snap) : Bench Snap := { w with ticks := w.ticks + 1 }

/-- A new process starts with nothing in memory. -/
def restart (w : Bench Snap) : Bench Snap := { w with states := fun _ => none }

end Bench

abbrev BenchM (Snap : Type) := Prog (Bench Snap) String

end World

/-- A request of another ticket that comes in while a step runs. -/
inductive Arrival where
  | lease (target ticketId user : String)
  | release (target ticketId : String)

/-- It is served, unless it is of the ticket whose step runs: that is refused. -/
def Arrival.serve (busy : String) (now : DateTime) (maxHours : Nat) (items : LeaseTable.Items) :
    Arrival → LeaseTable.Items
  | .lease target ticketId user =>
    if ticketId = busy then items
    else match LeaseTable.acquire "target" items target ticketId user now maxHours with
      | .ok (_, items') => items'
      | .error _ => items
  | .release target ticketId =>
    if ticketId = busy then items else (LeaseTable.release items target ticketId).getD items

/-- The executor and what it is built from.  `meanwhile` are the requests of other
    tickets that come in before a reading of the clock. -/
structure ValidationExecutor (Snap : Type) where
  hal : Hal Snap
  guardrails : Guardrails := {}
  clock : Nat → DateTime
  meanwhile : Nat → List Arrival := fun _ => []
  /-- `slas_diff.diff.diff_snapshots` -/
  diffSnapshots : Snap → Snap → String → DiffReport
  /-- `slas_triage.fingerprint.fingerprint` -/
  fingerprint : String → Fingerprint
  /-- `str.upper` -/
  upper : String → String
  /-- `str`, `int` and `repr` -/
  str : Json → String
  int : Json → Except String Int
  repr : String → String
  /-- `Snapshot.sentence` and `Snapshot.model_dump_json` -/
  snapshotSentence : Snap → String
  snapshotJson : Snap → String

/-- The arguments of `run_cycle` that come from the step. -/
structure CycleCall where
  ticketId : String
  target : String
  n : Nat
  kind : String
  settleS : Int

structure CycleResult where
  n : Nat
  kind : String
  booted : Bool
  resumed : Bool := false
  settleS : Nat
  diff : Option DiffReport := none
  fence : String
  sentence : String

/-- `power_action_for`; a kind it does not know raises. -/
def powerActionFor (kind : String) : Option PowerAction :=
  if kind = "warm" then some .gracefulRestart
  else if kind = "dc" then some .off
  else if kind = "ac" then some .acCycle
  else none

/-- The actions ACT issues, in order: an `off` is followed by an `on`. -/
def powerActions (action : PowerAction) : List PowerAction :=
  if action = .off then [.off, .on] else [action]

/-! ## The phases -/

namespace ValidationExecutor

variable {Snap : Type} (X : ValidationExecutor Snap)

def now : BenchM Snap DateTime := Prog.quiet fun w => (X.clock w.ticks, w.tick)

/-- The world after a hardware call: what came in meanwhile is served, and the
    call is on record with the holder of the target. -/
def called (ticketId target : String) (w : Bench Snap) : Bench Snap :=
  let now := X.clock w.ticks
  let leases := (X.meanwhile w.ticks).foldl
    (fun items arrival => arrival.serve ticketId now X.guardrails.maxRunHours items) w.leases
  { w with
    leases, ticks := w.ticks + 1, halCalls := w.halCalls + 1
    touches := w.touches ++ [⟨ticketId, target, now, LeaseTable.holder leases target now⟩] }

/-- A hardware call. -/
def callHal {α : Type} (ticketId target : String) (f : Nat → Except String α) : BenchM Snap α :=
  Prog.effect fun w => (f w.halCalls, X.called ticketId target w)

/-- `CycleJournal.done` -/
def done (c : CycleCall) : BenchM Snap (List Phase) := do
  let file ← Prog.look fun w : Bench Snap => w.journals c.ticketId c.n
  if file.readable then pure file.phases
  else Prog.raise "the cycle journal could not be read"

/-- The rest of a line is on disk; with that of an ACT line the cycle counts as
    acted. -/
def finishEntry (c : CycleCall) (e : PhaseEntry) (action : Option PowerAction) (w : Bench Snap) :
    Bench Snap :=
  let w' := w.editJournal c.ticketId c.n (·.finishLine e)
  match action with
  | some a => w'.log c.ticketId c.n (.acted a)
  | none => w'

/-- `CycleJournal.append`; `action` is that of an ACT line. -/
def append (c : CycleCall) (phase : Phase) (detail : List (String × Json))
    (action : Option PowerAction) : BenchM Snap Unit := do
  let at_ ← X.now
  Prog.write fun w => w.editJournal c.ticketId c.n (·.startLine)
  Prog.write (finishEntry c ⟨phase, at_, detail⟩ action)
  Prog.write fun w => w.editJournal c.ticketId c.n (·.newline)

def settleOf (c : CycleCall) : Nat :=
  max c.settleS.toNat (X.guardrails.settleFloor c.kind)

def fenceOf (c : CycleCall) : String :=
  "--- slas fence " ++ c.ticketId ++ " cycle " ++ toString c.n ++ " " ++ c.kind ++ " ---"

def cycleDir (c : CycleCall) : String :=
  "Validation/Runs/" ++ c.ticketId ++ "/cycles/" ++ String.ofList (zeroPad 3 c.n)

/-- ARM: the intent is journalled. -/
def arm (c : CycleCall) (done : List Phase) : BenchM Snap Unit :=
  if done.contains .arm then pure ()
  else X.append c .arm [("kind", .str c.kind), ("settle_s", .num (.ofNat (X.settleOf c))),
    ("target", .str c.target)] none

/-- QUIESCE: sync, SEL, fence marker. -/
def quiesce (c : CycleCall) (done : List Phase) : BenchM Snap Unit :=
  if done.contains .quiesce then pure ()
  else do
    let _ ← X.callHal c.ticketId c.target fun k => X.hal.ssh k c.target ["sync"] 600
    let before ← X.callHal c.ticketId c.target fun k => X.hal.sel k c.target
    Prog.write (Bench.touch (cycleDir c ++ "/sel-before.json"))
    X.callHal c.ticketId c.target fun k => X.hal.fence k c.target (fenceOf c)
    X.append c .quiesce [("sel_entries", .num (.ofNat before.length)), ("fence", .str (fenceOf c))]
      none

/-- `hal.power`: issued, whatever it answers. -/
def power (c : CycleCall) (action : PowerAction) : BenchM Snap Unit :=
  Prog.effect fun w =>
    (X.hal.power w.halCalls c.target action,
      X.called c.ticketId c.target
        ((w.log c.ticketId c.n (.power action)).note c.ticketId (.power c.n action)))

/-- An `off` is followed by an `on`. -/
def powerOn (c : CycleCall) (action : PowerAction) : BenchM Snap Unit :=
  if action = .off then X.power c .on else pure ()

/-- ACT: journalled ahead, then issued. -/
def act (c : CycleCall) (done : List Phase) : BenchM Snap Unit :=
  if done.contains .act then pure ()
  else match powerActionFor c.kind with
    | none => Prog.raise c.kind
    | some action => do
      X.append c .act [("action", .str action.value)] (some action)
      X.power c action
      X.powerOn c action

/-- SETTLE: wait for the OS. -/
def settle (c : CycleCall) : BenchM Snap Bool := do
  Prog.quiet fun w : Bench Snap => ((), w.log c.ticketId c.n .waited)
  let booted ← X.callHal c.ticketId c.target fun k =>
    X.hal.waitForOs k c.target (max X.guardrails.bootTimeoutS (X.settleOf c))
  Prog.quiet fun w : Bench Snap => ((), w.note c.ticketId (.answered c.n booted))
  X.append c .settle [("booted", .bool booted), ("settle_s", .num (.ofNat (X.settleOf c)))] none
  return booted

/-- VERIFY: the snapshot against the baseline, if the target booted. -/
def verify (c : CycleCall) (baseline : Snap) (booted : Bool) : BenchM Snap (Option DiffReport) :=
  if booted then do
    let snapshot ← X.callHal c.ticketId c.target fun k => X.hal.snapshot k c.target
    Prog.write (Bench.touch (cycleDir c ++ "/snapshot.json"))
    let diff := X.diffSnapshots baseline snapshot
      ("during " ++ X.upper c.kind ++ " cycle " ++ toString c.n)
    X.append c .verify [("findings", .num (.ofNat diff.findings.length))] none
    return some diff
  else do
    X.append c .verify [("skipped", .str "the target did not boot")] none
    return none

def cycleSentence (c : CycleCall) (booted resumed : Bool) (diff : Option DiffReport) : String :=
  let head := "Cycle " ++ toString c.n ++ " (" ++ X.upper c.kind ++ "): "
  let what :=
    if !booted then
      head ++ "the target did not come back within " ++
        toString (max X.guardrails.bootTimeoutS (X.settleOf c)) ++ " s."
    else match diff with
      | some d =>
        if d.clean then head ++ "booted; no change against the baseline."
        else head ++ "booted; " ++ d.sentence
      | none => head ++ "booted; no change against the baseline."
  if resumed then what ++ " Resumed after an interruption without repeating the power action."
  else what

/-- `run_cycle` -/
def runCycle (c : CycleCall) (baseline : Snap) : BenchM Snap CycleResult := do
  Prog.quiet fun w : Bench Snap => ((), w.log c.ticketId c.n .begun)
  let done ← done c
  X.arm c done
  X.quiesce c done
  X.act c done
  let booted ← X.settle c
  let diff ← X.verify c baseline booted
  let _ ← X.callHal c.ticketId c.target fun k => X.hal.consoleLines k c.target
  Prog.write (Bench.touch (cycleDir c ++ "/console.log"))
  Prog.quiet fun w : Bench Snap => ((), w.log c.ticketId c.n (.reported booted))
  return { n := c.n, kind := c.kind, booted, resumed := !done.isEmpty, settleS := X.settleOf c
           diff, fence := fenceOf c
           sentence := X.cycleSentence c booted (!done.isEmpty) diff }

end ValidationExecutor

end Slas
