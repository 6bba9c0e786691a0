/-
  Slas.Factory.Runner

  The station runner (`slas_station_runner.runner`): verified batches, each handed
  to its kind.

  The ids it has seen are in the memory of the process, so what is performed is
  signed for the station and not expired, but at most once only as long as no
  batch that is still valid comes again after a restart.
-/

import Slas.Factory.Protocol
import Slas.Lib.ReplayGuard

namespace Slas

open ReplayGuard (Event Resent)

/-! ## The runner -/

/-- `SkillRunResult`, with the names of its screenshots. -/
structure SkillRun where
  status : String
  sentence : String
  steps : List StepRun := []
  screenshots : List String := []

/-- The station's configuration and keys, and what the runner drives: the skill
    runner on the screen, programs, the operator's control, the files. -/
structure StationRunner where
  station : String
  allowedPrograms : List String := []
  keys : List (String × String)
  signing : Signing
  runSkill : StepBatch → CompiledSkill → SkillRun
  run : List String → Int → CommandResult
  controller : Option (String → String → String) := none
  collectState : StateSnapshot
  /-- `repr` -/
  repr : String → String

namespace StationRunner

variable (R : StationRunner)

/-! ## The kinds -/

def noCompiledSteps : ThreePartMessage where
  whatHappened := "The skill batch carries no compiled steps."
  likelyCause := "The executor sent kind=skill without a plan."
  whatToDo := "Nothing was performed. This is an executor defect."

def notAllowed (argv : List String) : ThreePartMessage where
  whatHappened := argv.headD "An empty command" ++ " is not on " ++ R.station ++ "'s allowlist."
  likelyCause := "A station runs only the programs its configuration names; nothing else, " ++
    "and never a shell."
  whatToDo := "Add the program to the station's allowlist if it belongs there."

def noControl : ThreePartMessage where
  whatHappened := R.station ++ " has no operator control enabled."
  likelyCause := "The runner was started without VNC and take-over support."
  whatToDo := "Enable vnc on the station record and re-enrol, then restart the runner."

def notAVerb (verb : String) : ThreePartMessage where
  whatHappened := R.repr verb ++ " is not a control verb."
  likelyCause := "Control batches carry pause, resume, abort or status."
  whatToDo := "This is an executor defect; nothing changed on the station."

/-- `_skill` -/
def skill (batch : StepBatch) : Except ThreePartMessage BatchResult :=
  match batch.compiled with
  | none => .error noCompiledSteps
  | some compiled =>
    let result := R.runSkill batch compiled
    .ok { batchId := batch.batchId, kind := .skill, ok := result.status == "done"
          sentence := result.sentence, skill := some result.steps
          screenshots := result.screenshots }

/-- `_command` -/
def command (batch : StepBatch) : Except ThreePartMessage BatchResult :=
  if batch.command = [] ∨ batch.command.headD "" ∉ R.allowedPrograms then
    .error (R.notAllowed batch.command)
  else
    let result := R.run batch.command batch.timeoutS
    .ok { batchId := batch.batchId, kind := .command, ok := result.exitCode == 0
          sentence := batch.command.headD "" ++ " exited " ++ toString result.exitCode ++ " on " ++
            R.station ++ "."
          command := some result }

/-- `_control` -/
def control (batch : StepBatch) : Except ThreePartMessage BatchResult :=
  match R.controller with
  | none => .error R.noControl
  | some act =>
    let verb := batch.command.headD "status"
    let who := (batch.command[1]?).getD "the operator"
    if verb ∈ ["pause", "resume", "abort", "status"] then
      .ok { batchId := batch.batchId, kind := .control, ok := true, sentence := act verb who }
    else .error (R.notAVerb verb)

/-- `_state` -/
def state (batch : StepBatch) : BatchResult :=
  { batchId := batch.batchId, kind := .state, ok := true
    sentence := "Collected " ++ toString R.collectState.files.length ++ " files and " ++
      toString R.collectState.versions.length ++ " versions from " ++ R.station ++ "."
    state := some R.collectState }

/-- A verified batch, handed to its kind. -/
def perform (batch : StepBatch) : Except ThreePartMessage BatchResult :=
  match batch.kind with
  | .skill => R.skill batch
  | .command => R.command batch
  | .control => R.control batch
  | .state => .ok (R.state batch)

/-! ## Deliveries -/

/-- A signed batch, and the time it arrives. -/
abbrev Delivery := SignedBatch × DateTime

def Delivery.id (d : Delivery) : String := d.1.batch.batchId

/-- `seen` and `handled` are in memory, the journal is on disk; `performed` records
    what was handed to its kind. -/
structure State where
  seen : List String := []
  handled : List String := []
  journal : List (String × BatchKind × String) := []
  performed : List Delivery := []

/-- `handle` -/
def handle (st : State) (d : Delivery) : State × Except ThreePartMessage BatchResult :=
  match verifyBatch R.signing R.keys R.station d.2 st.seen d.1 with
  | .error message => (st, .error message)
  | .ok (batch, seen) =>
    ({ seen
       handled := st.handled ++ [batch.batchId]
       journal := st.journal ++ [(batch.batchId, batch.kind, d.1.keyId)]
       performed := st.performed ++ [d] }, R.perform batch)

/-- A new process: what was in memory is gone. -/
def State.restart (st : State) : State := { st with seen := [], handled := [] }

def step (st : State) : Event Delivery → State
  | .message d => (R.handle st d).1
  | .restart => st.restart

/-- A batch is signed for the station and not expired as it arrives. -/
def Fits (d : Delivery) : Prop := d.1.Fits R.signing R.keys R.station d.2

instance : DecidablePred R.Fits := fun d =>
  inferInstanceAs (Decidable (d.1.Fits R.signing R.keys R.station d.2))

/-! ## What is performed -/

/-- One delivery is performed when it fits and its id is not seen yet. -/
theorem handle_state (st : State) (d : Delivery) :
    (R.Fits d ∧ d.id ∉ st.seen ∧ (R.handle st d).1.seen = d.id :: st.seen ∧
        (R.handle st d).1.performed = st.performed ++ [d]) ∨
      (¬ (R.Fits d ∧ d.id ∉ st.seen) ∧ (R.handle st d).1 = st) := by
  unfold handle
  cases hverify : verifyBatch R.signing R.keys R.station d.2 st.seen d.1 with
  | error message =>
    refine Or.inr ⟨fun hfits => ?_, rfl⟩
    have hok := verifyBatch_ok_iff.mpr ⟨hfits, rfl⟩
    rw [hverify] at hok
    cases hok
  | ok passed =>
    obtain ⟨hfits, rfl⟩ := verifyBatch_ok_iff.mp hverify
    exact Or.inl ⟨hfits.1, hfits.2, rfl, rfl⟩

/-- The run lemma: what a run performs is what passes a guard that forgets. -/
theorem performed_run (st : State) (es : List (Event Delivery)) :
    (es.foldl R.step st).performed =
      st.performed ++ ReplayGuard.passed R.Fits Delivery.id st.seen es := by
  induction es generalizing st with
  | nil => simp [ReplayGuard.passed]
  | cons e es ih =>
    rw [List.foldl_cons, ih]
    cases e with
    | restart => rfl
    | message d =>
      show (R.handle st d).1.performed ++ _ = _
      rw [ReplayGuard.passed]
      show _ ++ ReplayGuard.passed R.Fits Delivery.id (R.handle st d).1.seen es = _
      rcases R.handle_state st d with ⟨hfits, hfresh, hseen, hperformed⟩ | ⟨hrefused, hst⟩
      · rw [if_pos ⟨hfits, hfresh⟩, hseen, hperformed, List.append_assoc]
        rfl
      · rw [if_neg hrefused, hst]

/-- **At most once**: what is performed was signed for the station and not expired,
    and each batch id is performed at most once exactly when no batch that fits
    comes again, fitting, after a restart. -/
theorem performed_once_iff (es : List (Event Delivery)) :
    (∀ d ∈ (es.foldl R.step {}).performed, R.Fits d) ∧
      (((es.foldl R.step {}).performed.map Delivery.id).Nodup ↔
        ¬ Resent R.Fits Delivery.id es) := by
  rw [performed_run]
  constructor
  · intro d hd
    exact (ReplayGuard.fits_of_passed (by simpa using hd)).2
  · exact ReplayGuard.nodup_passed_iff

/-! ### A replay after a restart -/

/-- 2026-09-14T08:00:00Z -/
def replayStart : DateTime := 63951408000000000

/-- The command of `power-on`, signed with the key of the line. -/
def powerOnBatch : SignedBatch where
  batch :=
    { batchId := "0af22b65b4a233fdb564691f", ticketId := "T-1", station := "station-07"
      issuedAt := replayStart, kind := .command, command := ["fixture-ctl", "power", "on"]
      batchId_min := by decide +kernel, ticketId_ne := by decide, station_ne := by decide
      ttlS_range := by decide, timeoutS_range := by decide }
  keyId := "line"
  signature := ⟨"120c69854c9c07fa43eba5f3430eaff689c354330c424fceb674f54b525c2740", by
    decide +kernel⟩
  keyId_ne := by decide

/-- The canonical JSON of that batch and its HMAC under the key. -/
def powerOnSigning : Signing where
  canonical _ := "\x7b\"approvals\":[],\"batch_id\":\"0af22b65b4a233fdb564691f\"," ++
    "\"command\":[\"fixture-ctl\",\"power\",\"on\"],\"compiled\":null," ++
    "\"issued_at\":\"2026-09-14T08:00:00Z\",\"kind\":\"command\",\"secrets\":\x7b\x7d," ++
    "\"station\":\"station-07\",\"ticket_id\":\"T-1\",\"timeout_s\":600,\"ttl_s\":300\x7d"
  hmac _ _ := powerOnBatch.signature

def fixtureRunner : StationRunner where
  station := "station-07"
  allowedPrograms := ["fixture-ctl"]
  keys := [("line", "line-key")]
  signing := powerOnSigning
  runSkill _ _ := { status := "done", sentence := "Done." }
  run _ _ := { exitCode := 0 }
  collectState := { takenAt := replayStart }
  repr s := s

/-- The batch, a restart, and the batch again a minute after it was issued. -/
def replayedDeliveries : List (Event Delivery) :=
  [.message (powerOnBatch, replayStart + seconds 1), .restart,
   .message (powerOnBatch, replayStart + seconds 60)]

theorem restart_performs_twice :
    (replayedDeliveries.foldl fixtureRunner.step {}).performed.map Delivery.id =
        ["0af22b65b4a233fdb564691f", "0af22b65b4a233fdb564691f"] ∧
      ¬ ((replayedDeliveries.foldl fixtureRunner.step {}).performed.map Delivery.id).Nodup := by
  have hperformed : (replayedDeliveries.foldl fixtureRunner.step {}).performed.map Delivery.id =
      ["0af22b65b4a233fdb564691f", "0af22b65b4a233fdb564691f"] := by
    decide +kernel
  refine ⟨hperformed, fun hnodup => ?_⟩
  rw [hperformed] at hnodup
  simp at hnodup

end StationRunner

end Slas
