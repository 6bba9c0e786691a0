/-
  Slas.Models.Runtime

  The vLLM container of a model (`slas_model_manager.runtime`) and the containers that the
  runtime has (`ContainerApiRuntime` of its `driver`).

  A reference is the container's spec: the runtime stops and removes by name.  Of the
  environment a spec keeps what is added to the airgap flags and the device list.  Names are the
  keys of the containers, as in the runtime.
-/

import Mathlib.Data.List.Infix
import Slas.Models.Registry

namespace Slas

namespace Models

/-! ## The spec of a container -/

inductive VllmTask where
  | generate
  | embed
  | score
  deriving DecidableEq

def MIN_CONTEXT : Nat := 8192

def EAGER_FLAG : String := "--enforce-eager"

def STRUCTURED_OUTPUTS_CONFIG : String := "\x7b\"backend\": \"xgrammar\"\x7d"

def KV_CACHE_TOO_SMALL : List String :=
  ["decreasing \x60max_model_len\x60",
   "larger than the maximum number of tokens that can be stored in KV cache",
   "larger than the available KV cache memory",
   "No available memory for the cache blocks"]

/-- `sub in s` -/
def isIn (sub s : String) : Bool := s.toList.tails.any fun cs => sub.toList.isPrefixOf cs

/-- `s.startswith(start)` -/
def startsWith (s start : String) : Bool := start.toList.isPrefixOf s.toList

/-- `int` of a text of digits. -/
def digits? (s : String) : Option Nat :=
  if s ≠ "" ∧ s.toList.all Char.isDigit then some (Nat.ofDigitChars 10 s.toList 0) else none

def MAX_MODEL_LEN : String := "--max-model-len"

/-- `context_of`: the context a container was created with. -/
def contextOf : List String → Option Nat
  | flag :: value :: rest =>
    match (if flag = MAX_MODEL_LEN then digits? value else none) with
    | some n => some n
    | none => contextOf (value :: rest)
  | _ => none

def kvCacheTooSmall (lines : List String) : Bool :=
  lines.any fun line => KV_CACHE_TOO_SMALL.any fun marker => isIn marker line

def KV_CACHE_ESTIMATE : String := "estimated maximum model length is "

/-- The first number that follows the words of the estimate. -/
def estimateIn (line : String) : Option Nat :=
  line.toList.tails.findSome? fun cs =>
    if KV_CACHE_ESTIMATE.toList.isPrefixOf cs then
      let digits := (cs.drop KV_CACHE_ESTIMATE.length).takeWhile Char.isDigit
      if digits = [] then none else some (Nat.ofDigitChars 10 digits 0)
    else none

/-- `kv_cache_estimate`: of the last line with one, in steps of 1024. -/
def kvCacheEstimate (lines : List String) : Option Nat :=
  (lines.reverse.findSome? estimateIn).map fun n => n / 1024 * 1024

example : kvCacheEstimate ["the estimated maximum model length is 20000."] = some 19456 := by
  decide +kernel

def taskForRole : Option Role → VllmTask
  | some .embed => .embed
  | some .rerank => .score
  | _ => .generate

structure ContainerSpec where
  name : String
  image : String
  argv : List String
  env : List (String × String)
  gpuIds : List Nat
  modelId : String
  deriving DecidableEq

def quantFlags : Quant → List String
  | .fp8 => ["--quantization", "fp8"]
  | .awq4 => ["--quantization", "awq_marlin"]
  | .bf16 => []

def taskFlags : VllmTask → List String
  | .embed => ["--runner", "pooling", "--convert", "embed"]
  | .score => ["--runner", "pooling"]
  | .generate => ["--enable-prefix-caching", "--structured-outputs-config",
      STRUCTURED_OUTPUTS_CONFIG]

/-- The context that an instance is started with. -/
def cappedContext (entry : ModelEntry) (maxModelLen : Option Nat) : Nat :=
  match maxModelLen with
  | none => entry.context
  | some cap => min entry.context cap

/-- `vllm_spec` -/
def vllmSpec (entry : ModelEntry) (name : String) (gpuIds : List Nat) (image : String)
    (task : VllmTask) (maxModelLen : Option Nat) (extraArgs : List String)
    (extraEnv : List (String × String)) : ContainerSpec where
  name := name
  image := image
  argv := ["/data/Models/" ++ entry.path, "--served-model-name", entry.id, MAX_MODEL_LEN,
    toString (cappedContext entry maxModelLen), "--tensor-parallel-size",
    toString gpuIds.length] ++ quantFlags entry.quant ++ taskFlags task ++ extraArgs
  env := extraEnv
  gpuIds := gpuIds
  modelId := entry.id

/-- What the log of a restarted container says about its last failed attempt. -/
structure CrashReport where
  attempt : List String := []
  stage : Option String := none
  engineException : Bool := false

/-! ## The containers -/

structure Container where
  spec : ContainerSpec
  /-- It runs, or is restarting. -/
  up : Bool
  /-- It has answered a health check since it was started. -/
  answered : Bool := false
  deriving DecidableEq

abbrev Containers := List (String × Container)

/-- How a start ends: each way but the first raises. -/
inductive StartEnd where
  | started
  /-- Nothing was done. -/
  | refused
  /-- A container of the name was removed, and no other was created. -/
  | removed
  /-- The container was created, and not started. -/
  | created
  /-- The container was started, and the answer was lost. -/
  | lost
  deriving DecidableEq

/-- How a stop ends: each way but the first raises. -/
inductive StopEnd where
  | stopped
  | refused
  /-- The container was stopped, and not removed. -/
  | halted
  /-- The container was removed, and the answer was lost. -/
  | lost
  deriving DecidableEq

/-- `start`: in place of a container of the name. -/
def startContainer (spec : ContainerSpec) (how : StartEnd) (cs : Containers) : Containers :=
  match how with
  | .started | .lost => Dict.set spec.name ⟨spec, true, false⟩ cs
  | .refused => cs
  | .removed => Dict.pop spec.name cs
  | .created => Dict.set spec.name ⟨spec, false, false⟩ cs

/-- One container as something else is known of it. -/
def updateContainer (name : String) (f : Container → Container) (cs : Containers) : Containers :=
  cs.map fun item => if item.1 = name then (item.1, f item.2) else item

/-- `stop` -/
def stopContainer (name : String) (how : StopEnd) (cs : Containers) : Containers :=
  match how with
  | .stopped | .lost => Dict.pop name cs
  | .refused => cs
  | .halted => updateContainer name (fun c => { c with up := false }) cs

/-- `running`: every container, whatever its state. -/
def runningRefs (cs : Containers) : List (String × ContainerSpec) :=
  cs.map fun item => (item.1, item.2.spec)

end Models

end Slas
