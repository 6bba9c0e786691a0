/-
  Slas.Factory.Plant

  What the factory executor works on: the job states, the station leases, the
  records, and the parts it is built from (`slas_factory_executor.executor`).

  A job's state is in the memory of the process and in its file; the number of
  the last batch is in memory only.  The line lead's decision is an HTTP request
  of its own that takes no lock: it may come in while a step runs.
-/

import Slas.Factory.Templates
import Slas.Factory.Protocol
import Slas.Skills.Values
import Slas.Kernel.Leases

namespace Slas

open Crash

/-! ## What a station reports -/

/-- A value of the object that a station's text is read as; texts, lists, objects
    and null are as JSON. -/
inductive Reading where
  | bool (b : Bool)
  | int (i : Int)
  | float (x : FloatValue)
  | other (value : Json)

/-- `isinstance(value, int | float)`: a `bool` is one. -/
def Reading.isNumeric : Reading → Bool
  | .other _ => false
  | _ => true

abbrev Readings := List (String × Reading)

abbrev Limits := List (String × FloatValue)

/-! ## Jobs -/

inductive CellStatus where
  | waiting
  | running
  | ok
  | failed
  | skipped
  deriving DecidableEq, Repr

/-- One cell of the test-step map. -/
structure StepCell where
  n : Nat
  title : String
  status : CellStatus := .waiting
  sentence : String := ""
  screenshots : List String := []
  n_pos : 1 ≤ n

inductive Verdict where
  | pass
  | fail
  | lineLead
  deriving DecidableEq, Repr

def Verdict.value : Verdict → String
  | .pass => "PASS"
  | .fail => "FAIL"
  | .lineLead => "line_lead"

/-- The verbs of the operator. -/
inductive ControlVerb where
  | pause
  | resume
  | abort
  | status
  deriving DecidableEq, Repr

def ControlVerb.value : ControlVerb → String
  | .pause => "pause"
  | .resume => "resume"
  | .abort => "abort"
  | .status => "status"

/-- The state of a job.  The last two fields are records: the limits that the
    readings were compared with, and whether the program that dumps the event log
    ended well when the lines were taken. -/
structure JobState where
  ticketId : String
  station : String
  unitSn : String := ""
  mesTicketNo : String := ""
  cells : List StepCell := []
  result : Readings := []
  sensors : Readings := []
  sensorProblems : List String := []
  eventLog : List String := []
  verdict : Option Verdict := none
  verdictSentence : String := ""
  votesSentence : String := ""
  held : Bool := false
  holdReason : String := ""
  decidedBy : String := ""
  sensorLimits : Option Limits := none
  eventLogRead : Bool := false

/-- `decide`: what the line lead says, for which ticket. -/
structure Decision where
  ticketId : String
  verdict : Verdict
  by_ : String
  note : String
  decides : verdict ≠ .lineLead

/-! ## The plant -/

/-- A batch that was sent: for which step, as which batch of which process, which
    decisions had come in while the step ran, and who held the station then. -/
structure Sent where
  ticketId : String
  stepId : String
  station : String
  batchId : String
  life : Nat
  number : Nat
  arrived : List Decision
  at_ : DateTime
  holder : Option Lease

/-- What happens to the stations: a verdict holds one, with the lease that the
    table then has; a ticket is granted one; the line lead decides. -/
inductive StationEvent where
  | held (ticketId station : String) (lease : Option Lease)
  | granted (ticketId station : String)
  | decided (ticketId : String)
  deriving DecidableEq

/-- A PASS: what the job had recorded, and the voters. -/
structure Passed where
  state : JobState
  agreed : Bool
  approvals : Nat
  votes : Nat

/-- The state files with the lease table, the memory of the process (`_states` and
    `_batches`), the clock, and the records.  `life` counts the processes;
    `serving` is up while a request is served. -/
structure Plant where
  files : String → Option JobState := fun _ => none
  leases : LeaseTable.Items := fun _ => none
  memory : String → Option JobState := fun _ => none
  batches : Nat := 0
  serving : Bool := false
  life : Nat := 0
  ticks : Nat := 0
  sent : List Sent := []
  events : List StationEvent := []
  passes : List Passed := []

namespace Plant

def tick (w : Plant) : Plant := { w with ticks := w.ticks + 1 }

def remember (t : String) (s : JobState) (w : Plant) : Plant :=
  { w with memory := Function.update w.memory t (some s) }

/-- A change of the job's state in memory. -/
def edit (t : String) (f : JobState → JobState) (w : Plant) : Plant :=
  { w with memory := Function.update w.memory t ((w.memory t).map f) }

/-- `state_for`: from memory, or from the file. -/
def stateFor (t : String) (w : Plant) : Option JobState := (w.memory t).or (w.files t)

/-- `_save` -/
def save (t : String) (w : Plant) : Plant :=
  { w with files := Function.update w.files t (w.stateFor t) }

def numberBatch (w : Plant) : Plant := { w with batches := w.batches + 1 }

def note (e : StationEvent) (w : Plant) : Plant := { w with events := w.events ++ [e] }

/-- `self.leases.release` -/
def release (station t : String) (w : Plant) : Plant :=
  { w with leases := (LeaseTable.release w.leases station t).getD w.leases }

end Plant

/-! ## The executor -/

/-- What the executor sends over: a runner client answers, or refuses. -/
abbrev RunnerClient := Nat → SignedBatch → Except ThreePartMessage BatchResult

/-- The executor and what it is built from.  `meanwhile` are the decisions of the
    line lead that come in before a batch is sent or the voters have answered. -/
structure FactoryExecutor where
  runners : String → Option RunnerClient
  signing : Signing
  /-- `resolver.resolve` -/
  resolve : String → Except String String
  signingKeyRef : String
  signingKeyId : String
  stationKeys : List (String × String × String) := []
  /-- SHA-256 -/
  digest : String → HexDigest
  clock : Nat → DateTime
  meanwhile : Nat → List Decision := fun _ => []
  /-- The voters' verdict on the evidence, and their concerns. -/
  crossChecker : Option (Nat → String → List String →
    Except String (ConsensusVerdict × List String)) := none
  leaseHours : Nat := 8
  batchTtlS : Nat := 300
  compiledFromStep : Step → Except String (Option CompiledSkill)
  writeBackup : String → String → StateSnapshot → DateTime → Except String Export
  fingerprint : String → Fingerprint
  /-- `str`, `int`, `float` and `dict` of an argument -/
  str : Json → String
  int : Json → Except String Int
  float : Json → Except String FloatValue
  dict : Json → Except String (List (String × Json))
  /-- `str`, `float` and `dict` of what a station reports -/
  text : Reading → String
  number : Reading → Except String FloatValue
  entries : Reading → Except String Readings
  /-- `json.loads`, on the text of an object, and `json.dumps` -/
  loads : String → Option Readings
  dumps : Readings → String
  upper : String → String
  strip : String → String
  splitlines : String → List String
  /-- The format `g` -/
  general : FloatValue → String

/-- The executor's programs; an exception is its message. -/
abbrev PlantM := Prog Plant String

namespace FactoryExecutor

variable (X : FactoryExecutor)

def now : PlantM DateTime := Prog.quiet fun w => (X.clock w.ticks, w.tick)

/-! ## The line lead -/

/-- The job's state after a decision. -/
def decided (d : Decision) (s : JobState) : JobState :=
  { s with
    verdict := some d.verdict
    decidedBy := d.by_ ++ " (line lead)"
    held := false
    verdictSentence := X.strip (d.verdict.value ++ ": decided by " ++ d.by_ ++ ". " ++ d.note) }

/-- The decision in memory. -/
def decideInMemory (d : Decision) (s : JobState) (w : Plant) : Plant :=
  (w.remember d.ticketId (X.decided d s)).note (.decided d.ticketId)

/-- `decide`, on a ticket the executor knows. -/
def decide (d : Decision) : PlantM Unit := do
  match ← Prog.look (Plant.stateFor d.ticketId) with
  | none => Prog.raise d.ticketId
  | some s => do
    Prog.quiet fun w => ((), X.decideInMemory d s w)
    Prog.write (Plant.release s.station d.ticketId)
    Prog.write Plant.tick
    Prog.write (Plant.save d.ticketId)

/-- A decision that comes in while a step runs. -/
def arrive (w : Plant) (d : Decision) : Plant :=
  match w.stateFor d.ticketId with
  | none => w
  | some s => (((X.decideInMemory d s w).release s.station d.ticketId).tick).save d.ticketId

/-- The decisions that have come in by now. -/
def catchUp (w : Plant) : Plant := (X.meanwhile w.ticks).foldl X.arrive w

end FactoryExecutor

end Slas
