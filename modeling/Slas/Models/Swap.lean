/-
  Slas.Models.Swap

  The blue/green swap of a role (`slas_model_manager.swap`), one atomic step at a time: the
  candidate is started beside the incumbent, probed and smoke-tested, the route is switched, and
  the incumbent is stopped.  A rollback runs the other way.

  How the runtime answers is part of a step; a call that raises ends the swap, as the
  controller's thread does.  Sentences and times are left out.
-/

import Slas.Models.Plan

namespace Slas

namespace Models

inductive Phase where
  | starting
  | smokeTesting
  | switching
  | draining
  | done
  | failed
  | rolledBack
  | expired
  deriving DecidableEq

structure SwapRecord where
  role : Role
  candidate : ModelEntry
  candidateRef : Option ContainerSpec := none
  incumbent : Option (ModelEntry × ContainerSpec) := none
  phase : Phase

/-- A swap under way: what it brings in, and what it takes the place of. -/
structure SwapJob where
  role : Role
  candidate : ModelEntry
  ref : ContainerSpec
  current : Option (ModelEntry × ContainerSpec)

/-- A rollback under way. -/
structure RollbackJob where
  role : Role
  incumbent : ModelEntry
  ref : ContainerSpec
  candidateRef : Option ContainerSpec

/-- Where the thread of a swap is: the step that comes next. -/
inductive SwapPc where
  | idle
  | begun (role : Role) (candidate : ModelEntry) (gpuIds : List Nat)
  | start (job : SwapJob)
  | probe (job : SwapJob)
  | undo (job : SwapJob)
  | smoke (job : SwapJob)
  | switch (job : SwapJob)
  | drain (job : SwapJob) (entry : ModelEntry) (ref : ContainerSpec)
  | rollbackBegun (role : Role)
  | restore (job : RollbackJob)
  | restoreProbe (job : RollbackJob)
  | restoreUndo (job : RollbackJob)
  | switchBack (job : RollbackJob)
  | stopCandidate (job : RollbackJob) (ref : ContainerSpec)
  /-- Only the tick of the thread is left. -/
  | ended (role : Role)

/-- The role of the swap, while its thread lives. -/
def SwapPc.role? : SwapPc → Option Role
  | .idle => none
  | .begun role _ _ | .rollbackBegun role | .ended role => some role
  | .start job | .probe job | .undo job | .smoke job | .switch job | .drain job _ _ => some job.role
  | .restore job | .restoreProbe job | .restoreUndo job | .switchBack job
  | .stopCandidate job _ => some job.role

/-- What a health check or a smoke test comes to. -/
inductive Check where
  | yes
  | no
  | raised

structure SwapAnswer where
  start : StartEnd := .started
  stop : StopEnd := .stopped
  check : Check := .yes
  /-- The rollback window has closed meanwhile. -/
  expired : Bool := false

/-- `SwapManager`, its router, and the containers. -/
structure Swaps where
  containers : Containers := []
  routes : Routes := {}
  records : List (Role × SwapRecord) := []
  serving : List (Role × (ModelEntry × ContainerSpec)) := []
  pc : SwapPc := .idle

namespace Swaps

def candidateName (role : Role) (candidate : ModelEntry) : String :=
  instanceName role ++ "-" ++ candidate.id

/-- `switch` of the router. -/
def switch (role : Role) (name : String) (s : Swaps) : Swaps :=
  { s with routes := { s.routes with roles := Dict.set role name s.routes.roles } }

/-- A record is changed where it is still kept. -/
def updateRecord (role : Role) (f : SwapRecord → SwapRecord) (s : Swaps) : Swaps :=
  { s with records := s.records.map fun item => if item.1 = role then (item.1, f item.2) else item }

def setPhase (role : Role) (phase : Phase) (s : Swaps) : Swaps :=
  s.updateRecord role fun record => { record with phase }

/-- `_note_swap_failure` -/
def noteFailure (role : Role) (candidate : ModelEntry) (s : Swaps) : Swaps :=
  if (s.records.lookup role).isSome then s.setPhase role .failed
  else { s with records := Dict.set role { role, candidate, phase := .failed } s.records }

def goto (pc : SwapPc) (s : Swaps) : Swaps := { s with pc }

/-- What a swap raises ends it. -/
def fail (job : SwapJob) (s : Swaps) : Swaps :=
  (s.noteFailure job.role job.candidate).goto (.ended job.role)

def start (spec : ContainerSpec) (how : StartEnd) (s : Swaps) : Swaps :=
  { s with containers := startContainer spec how s.containers }

def stop (name : String) (how : StopEnd) (s : Swaps) : Swaps :=
  { s with containers := stopContainer name how s.containers }

/-- A container has answered a health check. -/
def answered (name : String) (s : Swaps) : Swaps :=
  { s with containers := updateContainer name (fun c => { c with answered := true }) s.containers }

def serve (role : Role) (entry : ModelEntry) (ref : ContainerSpec) (s : Swaps) : Swaps :=
  { s with serving := Dict.set role (entry, ref) s.serving }

/-- The record of a swap, and its start. -/
def beginJob (image : String) (role : Role) (candidate : ModelEntry) (gpuIds : List Nat)
    (s : Swaps) : Swaps :=
  let current := s.serving.lookup role
  let record : SwapRecord := { role, candidate, incumbent := current, phase := .starting }
  let ref := vllmSpec candidate (candidateName role candidate) gpuIds image .generate none [] []
  { s with records := Dict.set role record s.records }.goto
    (.start { role, candidate, ref, current })

/-- The next step of the thread. -/
def step (image : String) (s : Swaps) (a : SwapAnswer) : Swaps :=
  match s.pc with
  | .idle | .ended _ => s
  | .begun role candidate gpuIds => s.beginJob image role candidate gpuIds
  | .start job =>
    let s := s.start job.ref a.start
    if a.start = .started then
      (s.updateRecord job.role fun record => { record with candidateRef := some job.ref }).goto
        (.probe job)
    else s.fail job
  | .probe job =>
    match a.check with
    | .yes => ((s.answered job.ref.name).setPhase job.role .smokeTesting).goto (.smoke job)
    | .no => s.goto (.undo job)
    | .raised => s.fail job
  | .undo job => (s.stop job.ref.name a.stop).fail job
  | .smoke job =>
    match a.check with
    | .yes => s.goto (.switch job)
    | .no => s.goto (.undo job)
    | .raised => s.goto (.ended job.role)
  | .switch job =>
    let s := ((s.switch job.role job.ref.name).serve job.role job.candidate job.ref).setPhase
      job.role .draining
    match job.current with
    | some (entry, ref) => s.goto (.drain job entry ref)
    | none => (s.setPhase job.role .done).goto (.ended job.role)
  | .drain job _ ref =>
    let s := s.stop ref.name a.stop
    if a.stop = .stopped then (s.setPhase job.role .done).goto (.ended job.role) else s.fail job
  | .rollbackBegun role =>
    match s.records.lookup role with
    | some { incumbent := some (incumbent, ref), candidateRef, phase := .done, .. } =>
      if a.expired then (s.setPhase role .expired).goto (.ended role)
      else s.goto (.restore { role, incumbent, ref, candidateRef })
    | _ => s.goto (.ended role)
  | .restore job =>
    let s := s.start job.ref a.start
    if a.start = .started then s.goto (.restoreProbe job) else s.goto (.ended job.role)
  | .restoreProbe job =>
    match a.check with
    | .yes => (s.answered job.ref.name).goto (.switchBack job)
    | .no => s.goto (.restoreUndo job)
    | .raised => s.goto (.ended job.role)
  | .restoreUndo job => (s.stop job.ref.name a.stop).goto (.ended job.role)
  | .switchBack job =>
    let s := s.switch job.role job.ref.name
    match job.candidateRef with
    | some ref => s.goto (.stopCandidate job ref)
    | none => ((s.serve job.role job.incumbent job.ref).setPhase job.role .rolledBack).goto
        (.ended job.role)
  | .stopCandidate job ref =>
    let s := s.stop ref.name a.stop
    if a.stop = .stopped then
      ((s.serve job.role job.incumbent job.ref).setPhase job.role .rolledBack).goto
        (.ended job.role)
    else s.goto (.ended job.role)

/-- `swap`, of a model that is declared for the role. -/
def beginSwap (role : Role) (candidate : ModelEntry) (gpuIds : List Nat) (s : Swaps) : Swaps :=
  if role ∈ candidate.roles then s.goto (.begun role candidate gpuIds) else s

/-- `rollback` -/
def beginRollback (role : Role) (s : Swaps) : Swaps := s.goto (.rollbackBegun role)

end Swaps

end Models

end Slas
