/-
  Slas.Models.Learnt

  What the manager learns from crash loops (`slas_model_manager.controller`): a context below
  the registry's, and remedies for crashes at start-up.  Both are read back from the command of a
  container that runs, and decide whether a container is outdated.
-/

import Mathlib.Logic.Function.Basic
import Slas.Models.Plan

namespace Slas

namespace Models

/-! ## Remedies -/

inductive RemedyId where
  | fp8KvCache
  | fp8Marlin
  | fp8Triton
  | eager
  deriving DecidableEq

structure Remedy where
  id : RemedyId
  /-- What names the crash in its log; the eager retry goes by the stage. -/
  marker : Option String
  args : List String
  env : List (String × String) := []
  reason : String
  supersedes : Option RemedyId := none

/-- The one eager retry. -/
def eagerRemedy : Remedy where
  id := .eager
  marker := none
  args := [EAGER_FLAG]
  reason := " without an error of its own; started again with eager execution " ++
    "(no torch.compile, no CUDA graphs; slower)"

def REMEDIES : List Remedy :=
  [{ id := .fp8KvCache
     marker := some "fp8_ds_mla layout only supports fp8 kv-cache"
     args := ["--kv-cache-dtype", "fp8_ds_mla"]
     reason := "crashed because its FP8 MLA attention layout needs an FP8 KV cache; started " ++
      "again with --kv-cache-dtype fp8_ds_mla" },
   { id := .fp8Marlin
     marker := some "cutlass_gemm_caller"
     args := ["--linear-backend", "marlin"]
     reason := "crashed inside the CUTLASS FP8 GEMM kernel, which this vLLM build compiled for " ++
      "another Blackwell variant than this GPU; started again on the Marlin FP8 kernels " ++
      "(--linear-backend marlin)" },
   { id := .fp8Triton
     marker := some "cutlass_gemm_caller"
     args := ["--linear-backend", "triton"]
     reason := "crashed inside the CUTLASS FP8 GEMM kernel again with the Marlin kernels " ++
      "selected; started again on the Triton linear kernels (--linear-backend triton)"
     supersedes := some .fp8Marlin },
   eagerRemedy]

/-- `applied_in` -/
def Remedy.appliedIn (remedy : Remedy) (ref : ContainerSpec) : Bool :=
  (!remedy.args.isEmpty && remedy.args.all fun arg => ref.argv.contains arg) ||
    (!remedy.env.isEmpty && remedy.env.all fun item => ref.env.lookup item.1 = some item.2)

def EAGER_STAGES : List String :=
  ["initialising after the weights loaded", "initialising after the model loaded",
    "sizing its KV cache", "allocating its KV cache", "capturing CUDA graphs",
    "finishing its engine start"]

/-- The signatures of `KNOWN_CRASHES`. -/
def KNOWN_CRASHES : List String :=
  ["Error 802: system not yet initialized",
    "no kernel image is available for execution on the device",
    "CUDA driver version is insufficient", "could not select device driver",
    "torch.OutOfMemoryError", "cutlass_gemm_caller"]

def logSays (marker : String) (lines : List String) : Bool := lines.any (isIn marker)

/-! ## What is known of an instance -/

/-- By name: a context, the remedies in force, and those that were tried. -/
structure Learnt where
  contextCap : String → Option Nat := fun _ => none
  applied : String → List RemedyId := fun _ => []
  tried : String → List RemedyId := fun _ => []

namespace Learnt

def setCap (l : Learnt) (name : String) (context : Nat) : Learnt :=
  { l with contextCap := Function.update l.contextCap name (some context) }

/-- A remedy is in force, and what it supersedes is not. -/
def apply (l : Learnt) (name : String) (remedy : Remedy) : Learnt :=
  { l with
    applied := Function.update l.applied name
      (((l.applied name).filter fun id => remedy.supersedes ≠ some id).insert remedy.id)
    tried := Function.update l.tried name ((l.tried name).insert remedy.id) }

/-- A remedy that is found in a command: what it supersedes was tried before it. -/
def find (name : String) (l : Learnt) (remedy : Remedy) : Learnt :=
  { l with
    applied := Function.update l.applied name ((l.applied name).insert remedy.id)
    tried := Function.update l.tried name
      (remedy.supersedes.elim id List.insert ((l.tried name).insert remedy.id)) }

/-- `_extras`: the flags and the environment of the remedies in force. -/
def extras (l : Learnt) (name : String) : List String × List (String × String) :=
  let inForce := REMEDIES.filter fun remedy => remedy.id ∈ l.applied name
  (inForce.flatMap (·.args),
    inForce.foldl (fun env remedy => remedy.env.foldl (fun env item => Dict.set item.1 item.2 env) env) [])

/-- `context_of(…) or entry.context` -/
def currentContext (entry : ModelEntry) (ref : ContainerSpec) : Nat :=
  ((contextOf ref.argv).filter fun n => n ≠ 0).getD entry.context

/-- What the command of a container says of what an earlier manager had learnt. -/
def recover (l : Learnt) (entry : ModelEntry) (ref : ContainerSpec) : Learnt :=
  let current := currentContext entry ref
  let l := if current < entry.context ∧ l.contextCap ref.name = none then l.setCap ref.name current
    else l
  (REMEDIES.filter fun remedy => remedy.appliedIn ref).foldl (find ref.name) l

/-- `_shrink_context_after_crash`: half the context, and never above what would fit. -/
def smallerContext (current : Nat) (report : CrashReport) : Nat :=
  max MIN_CONTEXT (match kvCacheEstimate report.attempt with
    | some estimate => min (current / 2) estimate
    | none => current / 2)

def shrinkContext (l : Learnt) (entry : ModelEntry) (ref : ContainerSpec) (report : CrashReport) :
    Option (Learnt × String) :=
  let current := currentContext entry ref
  if kvCacheTooSmall report.attempt ∧ MIN_CONTEXT < current then
    let smaller := smallerContext current report
    some (l.setCap ref.name smaller,
      "crashed because a context of " ++ toString current ++ " tokens does not fit in the GPU's " ++
        "KV cache next to the weights; started again with " ++ toString smaller)
  else none

/-- The remedies whose signature the log has. -/
def matching (l : Learnt) (name : String) (report : CrashReport) : Option Remedy :=
  REMEDIES.find? fun remedy => remedy.id ∉ l.tried name ∧
    (remedy.marker.any fun marker => logSays marker report.attempt)

/-- A silent death during warm-up. -/
def earnsEager (l : Learnt) (name : String) (role : Option Role) (report : CrashReport) : Bool :=
  RemedyId.eager ∉ l.tried name && taskForRole role = .generate &&
    report.stage.any (fun stage => EAGER_STAGES.contains stage) && !report.engineException &&
    !KNOWN_CRASHES.any fun marker => logSays marker report.attempt

/-- `_remedy_after_crash` -/
def remedyAfterCrash (l : Learnt) (ref : ContainerSpec) (role : Option Role)
    (report : CrashReport) : Option (Learnt × String) :=
  match l.matching ref.name report with
  | some remedy => some (l.apply ref.name remedy, remedy.reason)
  | none =>
    if l.earnsEager ref.name role report then
      some (l.apply ref.name eagerRemedy,
        "crashed while " ++ report.stage.getD "" ++ eagerRemedy.reason)
    else none

/-- The spec of an instance as the manager would make it now. -/
def expectedSpec (l : Learnt) (entry : ModelEntry) (name : String) (gpuIds : List Nat)
    (image : String) : ContainerSpec :=
  vllmSpec entry name gpuIds image (taskForRole (kindAndRole name).2) (l.contextCap name)
    (l.extras name).1 (l.extras name).2

end Learnt

def CRASH_LOOP_RESTARTS : Nat := 3

/-- What the runtime says of a container: its status, how often it was started again after a
    failed exit, and its log. -/
structure Seen where
  status : Option Status
  restarts : Nat := 0
  report : CrashReport := {}

def Seen.crashLoop (seen : Seen) : Bool :=
  seen.status = some .failed ∧ CRASH_LOOP_RESTARTS ≤ seen.restarts

/-- Two environments, as dicts. -/
def sameEnv (a b : List (String × String)) : Bool :=
  a.all (fun item => b.lookup item.1 = some item.2) &&
    b.all fun item => a.lookup item.1 = some item.2

/-- Why a container is not as it would be made now. -/
def specReason (image : String) (ref expected : ContainerSpec) : Option String :=
  if ref.image ≠ image then
    some ("runs " ++ ref.image ++ ", but the image lock names " ++ image)
  else if ref.argv ≠ expected.argv ∨ !sameEnv ref.env expected.env then
    some ("was created with other vLLM flags than the model manager now uses; a container's " ++
      "command is fixed at creation")
  else none

/-- What a crash loop teaches, with the reason to replace the container. -/
def learnFromCrash (l : Learnt) (entry : ModelEntry) (ref : ContainerSpec) (report : CrashReport) :
    Option (Learnt × String) :=
  (l.shrinkContext entry ref report).or
    (l.remedyAfterCrash ref (kindAndRole ref.name).2 report)

/-- `_outdated_reason`, and what is learnt on the way. -/
def outdatedReason (image : String) (r : Registry) (l : Learnt) (ref : ContainerSpec)
    (seen : Seen) : Learnt × Option String :=
  match r.model ref.modelId with
  | none => (l, none)
  | some entry =>
    let l := l.recover entry ref
    match (if seen.crashLoop then learnFromCrash l entry ref seen.report else none) with
    | some (l, reason) => (l, some reason)
    | none => (l, specReason image ref (l.expectedSpec entry ref.name ref.gpuIds image))

/-- The containers that are outdated, each with the reason, in the order they are looked at. -/
def outdatedAll (image : String) (r : Registry) (seen : String → Seen) :
    Refs → Learnt → Learnt × List (String × String)
  | [], l => (l, [])
  | (name, ref) :: refs, l =>
    let (l, reason) := outdatedReason image r l ref (seen name)
    let (l, outdated) := outdatedAll image r seen refs l
    (l, (reason.map fun text => (name, text)).toList ++ outdated)

end Models

end Slas
