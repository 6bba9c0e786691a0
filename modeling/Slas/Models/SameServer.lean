/-
  Slas.Models.SameServer

  The server that a swap starts for a role (`swap` of `slas_model_manager.swap`) against the
  one that the reconciliation starts for it (`_apply` of the controller): one builder, with
  other arguments.

  Theorems:
    swapSpec_eq_iff — for which roles and learnt values the two differ in their names only.
-/

import Slas.Models.Learnt
import Slas.Models.Swap

namespace Slas

namespace Models

variable {role : Role} {entry : ModelEntry} {gpuIds : List Nat} {image : String} {l : Learnt}

/-- The spec that a swap starts. -/
def swapSpec (role : Role) (candidate : ModelEntry) (gpuIds : List Nat) (image : String) :
    ContainerSpec :=
  vllmSpec candidate (Swaps.candidateName role candidate) gpuIds image .generate none [] []

/-- The spec that the reconciliation starts, with what was learnt of the role's instance. -/
def reconcileSpec (l : Learnt) (role : Role) (entry : ModelEntry) (gpuIds : List Nat)
    (image : String) : ContainerSpec :=
  l.expectedSpec entry (instanceName role) gpuIds image

theorem kindAndRole_instanceName (role : Role) :
    (kindAndRole (instanceName role)).2 = some role := by
  cases role <;> decide

/-- Every remedy has flags, and none adds to the environment. -/
theorem remedy_spec {remedy : Remedy} (h : remedy ∈ REMEDIES) :
    remedy.args ≠ [] ∧ remedy.env = [] := by
  simp only [REMEDIES, List.mem_cons, List.not_mem_nil, or_false] at h
  rcases h with rfl | rfl | rfl | rfl <;> simp [eagerRemedy]

theorem exists_remedy (id : RemedyId) : ∃ remedy ∈ REMEDIES, remedy.id = id := by
  cases id <;> simp [REMEDIES, eagerRemedy]

theorem extras_env (l : Learnt) (name : String) : (l.extras name).2 = [] := by
  have henv : ∀ remedies : List Remedy, (∀ remedy ∈ remedies, remedy.env = []) →
      remedies.foldl (fun env remedy =>
        remedy.env.foldl (fun env item => Dict.set item.1 item.2 env) env) [] = [] := by
    intro remedies h
    induction remedies with
    | nil => rfl
    | cons remedy remedies ih =>
      rw [List.foldl_cons, h remedy List.mem_cons_self, List.foldl_nil]
      exact ih fun other hother => h other (List.mem_cons_of_mem _ hother)
  exact henv _ fun remedy hremedy => (remedy_spec (List.mem_of_mem_filter hremedy)).2

/-- No flag is added exactly when no remedy is in force. -/
theorem extras_args_eq_nil (l : Learnt) (name : String) :
    (l.extras name).1 = [] ↔ l.applied name = [] := by
  constructor
  · intro hnone
    rw [List.eq_nil_iff_forall_not_mem]
    intro id hid
    obtain ⟨remedy, hremedy, rfl⟩ := exists_remedy id
    exact (remedy_spec hremedy).1 (List.flatMap_eq_nil_iff.mp hnone remedy
      (List.mem_filter.mpr ⟨hremedy, decide_eq_true hid⟩))
  · intro hnone
    simp [Learnt.extras, hnone]

theorem taskFlags_append_eq {task : VllmTask} {args : List String} :
    taskFlags .generate = taskFlags task ++ args ↔ task = .generate ∧ args = [] := by
  cases task <;> simp [taskFlags]

theorem cappedContext_eq {cap : Option Nat} :
    cappedContext entry cap = entry.context ↔ ∀ n, cap = some n → entry.context ≤ n := by
  cases cap with
  | none => simp [cappedContext]
  | some n => simp [cappedContext]

/-- **The server of a swap** is the one of the reconciliation but for its name, exactly for
    roles that generate and as long as neither a lower context nor a remedy was learnt. -/
theorem swapSpec_eq_iff (l : Learnt) (role : Role) (entry : ModelEntry) (gpuIds : List Nat)
    (image : String) :
    { swapSpec role entry gpuIds image with name := instanceName role } =
        reconcileSpec l role entry gpuIds image ↔
      taskForRole (some role) = .generate ∧
        (∀ cap, l.contextCap (instanceName role) = some cap → entry.context ≤ cap) ∧
        l.applied (instanceName role) = [] := by
  have hspec : reconcileSpec l role entry gpuIds image = vllmSpec entry (instanceName role) gpuIds
      image (taskForRole (some role)) (l.contextCap (instanceName role))
      (l.extras (instanceName role)).1 [] := by
    rw [reconcileSpec, Learnt.expectedSpec, kindAndRole_instanceName, extras_env]
  have hargv : { swapSpec role entry gpuIds image with name := instanceName role } =
        reconcileSpec l role entry gpuIds image ↔
      toString entry.context =
          toString (cappedContext entry (l.contextCap (instanceName role))) ∧
        taskFlags .generate =
          taskFlags (taskForRole (some role)) ++ (l.extras (instanceName role)).1 := by
    rw [hspec]
    simp [swapSpec, vllmSpec, cappedContext]
  have hcontext : ∀ m n : Nat, toString m = toString n ↔ n = m := by
    intro m n
    refine ⟨fun h => ?_, fun h => by rw [h]⟩
    have hdigits := congrArg (fun s : String => Nat.ofDigitChars 10 s.toList 0) h
    simpa [eq_comm] using hdigits
  rw [hargv, hcontext, cappedContext_eq, taskFlags_append_eq, extras_args_eq_nil]
  tauto

/-- A model for embeddings. -/
def bge : ModelEntry where
  id := "bge-m3"
  displayName := "BGE-M3"
  family := "bge"
  path := "bge-m3"
  quant := .bf16
  vramGib := 3
  context := 8192
  roles := [.embed]

/-- A swap starts a model for embeddings as one that generates. -/
theorem swapSpec_bge :
    { swapSpec .embed bge [0] "vllm" with name := instanceName .embed } ≠
      reconcileSpec {} .embed bge [0] "vllm" := by
  decide

end Models

end Slas
