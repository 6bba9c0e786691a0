/-
  Slas.Models.Plan

  What is to be started, stopped and kept (`slas_model_manager.reconcile`, and what the
  controller makes of its actions): roles with a swap are left alone, and the others wait while
  the coder's instance loads.

  `reconcile_settles`: once a plan is carried out, every instance of the registry runs with its
  model, what may belong to a swap is left alone, and there is nothing left to do.
-/

import Mathlib.Data.List.Sort
import Slas.Models.Placement
import Slas.Models.Runtime

namespace Slas

namespace Models

open Placement (Kind)

inductive ActionKind where
  | start
  | stop
  | keep
  deriving DecidableEq

structure Action where
  kind : ActionKind
  name : String
  modelId : Option String
  reason : String
  deriving DecidableEq

/-- Containers by name. -/
abbrev Refs := List (String × ContainerSpec)

/-- `desired_instances`: by name, the model that it serves. -/
def desiredInstances (r : Registry) : List (String × String) :=
  r.voters.foldl (fun desired modelId => Dict.set (voterInstanceName modelId) modelId desired)
    (r.roles.map fun p => (instanceName p.1, p.2))

/-- `_is_swap_candidate` -/
def isSwapCandidate (name : String) (desired : List (String × String)) : Bool :=
  desired.any fun item => startsWith name (item.1 ++ "-")

def sortedRefs (refs : Refs) : Refs := refs.insertionSort fun a b => a.1 ≤ b.1

/-- The actions for one desired instance. -/
def planOne (actual : Refs) (outdated : List (String × String)) (item : String × String) :
    List Action :=
  let (name, modelId) := item
  match actual.lookup name with
  | none => [⟨.start, name, some modelId, "not running yet"⟩]
  | some ref =>
    match (if ref.modelId = modelId then outdated.lookup name else none) with
    | some reason =>
      [⟨.stop, name, some modelId, reason⟩,
        ⟨.start, name, some modelId, "started again as it should be"⟩]
    | none =>
      if ref.modelId ≠ modelId then
        [⟨.stop, name, some ref.modelId,
            "serves " ++ ref.modelId ++ " but the registry says " ++ modelId⟩,
          ⟨.start, name, some modelId, "registry changed"⟩]
      else [⟨.keep, name, some modelId, "matches"⟩]

/-- A container that the registry does not know, unless it may belong to a swap. -/
def isOrphan (desired : List (String × String)) (name : String) : Bool :=
  (desired.lookup name).isNone && !isIn "-swap-" name && !isSwapCandidate name desired

/-- `plan_reconcile` -/
def planReconcile (r : Registry) (running : Refs) (outdated : List (String × String)) :
    List Action :=
  let desired := desiredInstances r
  let actual := running.filter fun item => startsWith item.1 "vllm-"
  desired.flatMap (planOne actual outdated) ++
    ((sortedRefs actual).filter fun item => isOrphan desired item.1).map fun item =>
      ⟨.stop, item.1, some item.2.modelId, "not in the registry"⟩

/-- `_kind_and_role` -/
def kindAndRole (name : String) : Kind × Option Role :=
  match Role.ROLES.find? fun role =>
      name = instanceName role || startsWith name (instanceName role ++ "-") with
  | some role => (.role, some role)
  | none => (.voter, none)

/-- The role of a container that is not the role's own instance. -/
def swapRole? (name : String) : Option Role :=
  (kindAndRole name).2.filter fun role => name ≠ instanceName role

structure Routes where
  roles : List (Role × String) := []
  voters : List String := []

/-- `Registry.routes` -/
def registryRoutes (r : Registry) : Routes where
  roles := r.roles.map fun p => (p.1, instanceName p.1)
  voters := r.voters.map voterInstanceName

/-- The container that a completed swap has put in the place of the role's own one. -/
def swappedIn (routes : Routes) (refs : Refs) (role : Role) : Option String :=
  (routes.roles.lookup role).filter fun current =>
    current ≠ instanceName role ∧ (refs.lookup current).isSome

/-- The instances that are not to be touched: of a role with a swap. -/
def protectedNames (r : Registry) (routes : Routes) (busy : Option Role) (refs : Refs) :
    List String :=
  ((Dict.keys r.roles).filter fun role => (swappedIn routes refs role).isSome || busy = some role).map
    instanceName

/-- What is left of a swap that no one accounts for. -/
def isLeftover (r : Registry) (routes : Routes) (busy : Option Role) (refs : Refs)
    (name : String) : Bool :=
  match swapRole? name with
  | none => false
  | some owner =>
    !((Dict.keys r.roles).any fun role => swappedIn routes refs role = some name) &&
      !(busy = some owner && (Dict.keys r.roles).contains owner)

/-- `_respect_swaps` -/
def respectSwaps (actions : List Action) (r : Registry) (routes : Routes) (busy : Option Role)
    (refs : Refs) : List Action :=
  (actions.filter fun a => a.name ∉ protectedNames r routes busy refs ∨ a.kind = .keep) ++
    ((sortedRefs refs).filter fun item => isLeftover r routes busy refs item.1).map fun item =>
      ⟨.stop, item.1, some item.2.modelId,
        "left over from a swap the registry has since superseded"⟩

/-! ## The coder first -/

inductive Status where
  | starting
  | healthy
  | stopped
  | failed
  deriving DecidableEq

abbrev Statuses := List (String × Option Status)

def statusOf (statuses : Statuses) (name : String) : Option Status := (statuses.lookup name).join

def coderName : String := instanceName .coder

/-- `_coder_gate_holds` -/
def coderGateHolds (coderFirst : Bool) (starting : List Action) (statuses : Statuses)
    (desired : List (String × String)) (everHealthy : List String) : Bool :=
  coderFirst && (desired.lookup coderName).isSome &&
    (starting.any (fun a => a.name = coderName) ||
      (statusOf statuses coderName = some .starting && !everHealthy.contains coderName))

def waitingReason : String := "waits until " ++ coderName ++ " answers"

/-- A start that has to wait is not a start. -/
def deferStart (deferred : List String) (a : Action) : Action :=
  if a.name ∈ deferred then { a with kind := .keep, reason := waitingReason } else a

/-- An instance that is loading beside the coder. -/
def isPaused (gate : Bool) (statuses : Statuses) (desired : List (String × String))
    (everHealthy : List String) (actions : List Action) (name : String) : Bool :=
  gate && name ≠ coderName && (desired.lookup name).isSome &&
    statusOf statuses name = some .starting && !everHealthy.contains name &&
    actions.any fun a => a.kind = .keep ∧ a.name = name

/-- It is stopped, and will be started when the coder answers. -/
def pause (desired : List (String × String)) (actions : List Action) (name : String) :
    List Action :=
  (actions.filter fun a => a.name ≠ name) ++
    [⟨.stop, name, desired.lookup name, waitingReason ++ "; it was loading beside the coder"⟩]

/-- What a tick does: its actions, the starts among them, and the instances that wait. -/
structure TickPlan where
  actions : List Action
  starting : List Action
  deferred : List String

/-- The plan of a tick, once it is known which containers are outdated. -/
def planTick (coderFirst : Bool) (r : Registry) (routes : Routes) (busy : Option Role)
    (refs : Refs) (statuses : Statuses) (outdated : List (String × String))
    (everHealthy : List String) : TickPlan :=
  let visible := refs.filter fun item => statusOf statuses item.1 ≠ some .stopped
  let actions := respectSwaps (planReconcile r visible outdated) r routes busy refs
  let desired := desiredInstances r
  let starting := actions.filter fun a => a.kind = .start
  let gate := coderGateHolds coderFirst starting statuses desired everHealthy
  let waiting := if gate then
    (starting.filter fun a => a.name ≠ coderName).map (·.name) else []
  let actions := actions.map (deferStart waiting)
  let paused := ((Dict.keys statuses).insertionSort (· ≤ ·)).filter
    (isPaused gate statuses desired everHealthy actions)
  { actions := paused.foldl (pause desired) actions
    starting := starting.filter fun a => a.name ∉ waiting
    deferred := waiting ++ paused }

/-! ## A plan that is carried out -/

/-- The containers once a plan is carried out: of those it starts, all but the model is given. -/
def carryOut (made : Action → ContainerSpec) (actions : List Action) (refs : Refs) : Refs :=
  let spec := fun a => { made a with modelId := a.modelId.getD (made a).modelId }
  (actions.filter fun a => a.kind = .start).foldl (fun refs a => Dict.set a.name (spec a) refs)
    ((actions.filter fun a => a.kind = .stop).foldl (fun refs a => Dict.pop a.name refs) refs)

variable {spec : Action → ContainerSpec} {actions : List Action} {refs actual : Refs}
  {desired : List (String × String)} {outdated : List (String × String)} {a : Action}
  {item : String × String} {name : String} {r : Registry}

theorem lookup_stops : (actions.foldl (fun refs a => Dict.pop a.name refs) refs).lookup name =
    if ∃ a ∈ actions, a.name = name then none else refs.lookup name := by
  induction actions generalizing refs with
  | nil => simp
  | cons a actions ih =>
    rw [List.foldl_cons, ih, Dict.lookup_pop]
    by_cases hname : name = a.name
    · simp [hname]
    · simp [hname, Ne.symm hname]

theorem lookup_starts (spec : Action → ContainerSpec) (actions : List Action) (refs : Refs)
    (name : String) :
    (∃ a ∈ actions, a.name = name ∧
      (actions.foldl (fun refs a => Dict.set a.name (spec a) refs) refs).lookup name =
        some (spec a)) ∨
    (∀ a ∈ actions, a.name ≠ name) ∧
      (actions.foldl (fun refs a => Dict.set a.name (spec a) refs) refs).lookup name =
        refs.lookup name := by
  induction actions generalizing refs with
  | nil => exact .inr ⟨fun a ha => absurd ha List.not_mem_nil, rfl⟩
  | cons a actions ih =>
    rw [List.foldl_cons]
    rcases ih (Dict.set a.name (spec a) refs) with ⟨a', ha', hname, hspec⟩ | ⟨hnone, hsame⟩
    · exact .inl ⟨a', List.mem_cons_of_mem a ha', hname, hspec⟩
    · rw [Dict.lookup_set] at hsame
      split_ifs at hsame with hname
      · exact .inl ⟨a, List.mem_cons_self, hname.symm, hsame⟩
      · exact .inr ⟨List.forall_mem_cons.mpr ⟨Ne.symm hname, hnone⟩, hsame⟩

theorem lookup_filter (p : String → Bool) :
    (refs.filter fun item => p item.1).lookup name = if p name then refs.lookup name else none := by
  induction refs with
  | nil => simp
  | cons item refs ih =>
    rw [List.filter_cons, Dict.lookup_cons_eq_if]
    by_cases hp : p item.1 = true
    · rw [if_pos hp, Dict.lookup_cons_eq_if, ih]
      by_cases hname : name = item.1 <;> simp [hname, hp]
    · rw [if_neg hp, ih]
      by_cases hname : name = item.1 <;> simp [hname, hp]

/-! ### The instances of the registry -/

theorem instanceName_injective : Function.Injective instanceName := by
  intro role role' h
  have hall : ∀ role ∈ Role.ROLES, ∀ role' ∈ Role.ROLES,
      instanceName role = instanceName role' → role = role' := by decide
  exact hall role role.mem_ROLES role' role'.mem_ROLES h

theorem nodup_desired (r : Registry) : (Dict.keys (desiredInstances r)).Nodup := by
  have hfold (voters : List String) (d : List (String × String)) (h : (Dict.keys d).Nodup) :
      (Dict.keys (voters.foldl (fun desired modelId =>
        Dict.set (voterInstanceName modelId) modelId desired) d)).Nodup := by
    induction voters generalizing d with
    | nil => exact h
    | cons modelId voters ih => exact ih _ (Dict.nodup_keys_set h)
  refine hfold r.voters _ ?_
  have hkeys := r.valid.keys.map instanceName_injective
  rwa [Dict.keys, List.map_map] at hkeys ⊢

theorem startsWith_desired (h : item ∈ desiredInstances r) : startsWith item.1 "vllm-" = true := by
  have hfold (voters : List String) (d : List (String × String))
      (hd : ∀ item ∈ d, startsWith item.1 "vllm-" = true) :
      ∀ item ∈ voters.foldl (fun desired modelId =>
        Dict.set (voterInstanceName modelId) modelId desired) d,
        startsWith item.1 "vllm-" = true := by
    induction voters generalizing d with
    | nil => exact hd
    | cons modelId voters ih =>
      refine ih _ fun item hitem => ?_
      rcases Dict.mem_set hitem with rfl | hitem
      · simp [startsWith, voterInstanceName, List.isPrefixOf]
      · exact hd item hitem
  refine hfold r.voters _ (fun item hitem => ?_) item h
  obtain ⟨p, -, rfl⟩ := List.mem_map.mp hitem
  simp [startsWith, instanceName, List.isPrefixOf]

theorem lookup_desired (h : item ∈ desiredInstances r) :
    (desiredInstances r).lookup item.1 = some item.2 :=
  Dict.lookup_eq_of_mem (nodup_desired r) h

/-! ### The actions for them -/

theorem planOne_spec (ha : a ∈ planOne actual outdated item) :
    a.name = item.1 ∧ (a.kind = .start → a.modelId = some item.2) := by
  unfold planOne at ha
  dsimp only at ha
  split at ha
  · obtain rfl := List.mem_singleton.mp ha
    exact ⟨rfl, fun _ => rfl⟩
  · split at ha
    · rcases List.mem_pair.mp ha with rfl | rfl
      · exact ⟨rfl, fun hkind => by cases hkind⟩
      · exact ⟨rfl, fun _ => rfl⟩
    · split_ifs at ha
      · rcases List.mem_pair.mp ha with rfl | rfl
        · exact ⟨rfl, fun hkind => by cases hkind⟩
        · exact ⟨rfl, fun _ => rfl⟩
      · obtain rfl := List.mem_singleton.mp ha
        exact ⟨rfl, fun _ => rfl⟩

/-- An instance is started, or it is there with its model. -/
theorem planOne_cases (actual : Refs) (outdated : List (String × String))
    (item : String × String) : (∃ a ∈ planOne actual outdated item, a.kind = .start) ∨
    (∀ a ∈ planOne actual outdated item, a.kind = .keep) ∧
      ∃ ref, actual.lookup item.1 = some ref ∧ ref.modelId = item.2 := by
  unfold planOne
  dsimp only
  split
  · exact .inl ⟨_, List.mem_singleton_self _, rfl⟩
  · next ref href =>
    split
    · exact .inl ⟨_, List.mem_cons_of_mem _ (List.mem_singleton_self _), rfl⟩
    · split_ifs with hmodel
      · exact .inl ⟨_, List.mem_cons_of_mem _ (List.mem_singleton_self _), rfl⟩
      · exact .inr ⟨List.forall_mem_singleton.mpr rfl, ref, href, not_not.mp hmodel⟩

theorem planOne_keep {ref : ContainerSpec} (hlookup : actual.lookup item.1 = some ref)
    (hmodel : ref.modelId = item.2) : ∀ a ∈ planOne actual [] item, a.kind = .keep := by
  have hnone : (if ref.modelId = item.2 then ([] : List (String × String)).lookup item.1
      else none) = none := ite_self none
  intro a ha
  rw [planOne, hlookup] at ha
  dsimp only at ha
  rw [hnone] at ha
  dsimp only at ha
  rw [if_neg (not_not.mpr hmodel)] at ha
  exact List.mem_singleton.mp ha ▸ rfl

theorem mem_planReconcile : a ∈ planReconcile r refs outdated ↔
    (∃ item ∈ desiredInstances r,
      a ∈ planOne (refs.filter fun item => startsWith item.1 "vllm-") outdated item) ∨
    ∃ item ∈ refs, (startsWith item.1 "vllm-" && isOrphan (desiredInstances r) item.1) = true ∧
      (⟨.stop, item.1, some item.2.modelId, "not in the registry"⟩ : Action) = a := by
  simp only [planReconcile, sortedRefs, List.mem_append, List.mem_flatMap, List.mem_map,
    List.mem_filter, List.mem_insertionSort, Bool.and_eq_true, and_assoc]

/-- What the plan does under the name of an instance, it does for the instance. -/
theorem planned_for (hitem : item ∈ desiredInstances r)
    (ha : a ∈ planReconcile r refs outdated) (hname : a.name = item.1) :
    a ∈ planOne (refs.filter fun item => startsWith item.1 "vllm-") outdated item := by
  rcases mem_planReconcile.mp ha with ⟨item', hitem', ha'⟩ | ⟨orphan, -, horphan, rfl⟩
  · have hkey : item'.1 = item.1 := (planOne_spec ha').1.symm.trans hname
    have hlookup := lookup_desired hitem'
    rw [hkey, lookup_desired hitem] at hlookup
    rwa [show item = item' from Prod.ext hkey.symm (Option.some.inj hlookup)]
  · have hlookup := lookup_desired hitem
    rw [← hname] at hlookup
    simp [isOrphan, hlookup] at horphan

/-! ### What is there afterwards -/

variable (made : Action → ContainerSpec) (refs : Refs) (outdated : List (String × String))

theorem instance_of_carryOut (hitem : item ∈ desiredInstances r) :
    ∃ ref, (carryOut made (planReconcile r refs outdated) refs).lookup item.1 = some ref ∧
      ref.modelId = item.2 := by
  unfold carryOut
  extract_lets spec
  rcases lookup_starts spec ((planReconcile r refs outdated).filter fun a => a.kind = .start)
      (((planReconcile r refs outdated).filter fun a => a.kind = .stop).foldl
        (fun refs a => Dict.pop a.name refs) refs) item.1 with
    ⟨a, ha, hname, hspec⟩ | ⟨hnone, hsame⟩
  -- It is started as the plan says, or it runs already and nothing of the plan stops it.
  · obtain ⟨hplan, hkind⟩ := List.mem_filter.mp ha
    have hmodel := (planOne_spec (planned_for hitem hplan hname)).2 (of_decide_eq_true hkind)
    refine ⟨_, hspec, ?_⟩
    show a.modelId.getD _ = item.2
    rw [hmodel]
    rfl
  · rcases planOne_cases (refs.filter fun item => startsWith item.1 "vllm-") outdated item with
      ⟨a, ha, hstart⟩ | ⟨hkeep, ref, href, hmodel⟩
    · exact absurd (planOne_spec ha).1 (hnone a (List.mem_filter.mpr
        ⟨mem_planReconcile.mpr (.inl ⟨item, hitem, ha⟩), decide_eq_true hstart⟩))
    · refine ⟨ref, ?_, hmodel⟩
      rw [lookup_filter fun name => startsWith name "vllm-",
        if_pos (startsWith_desired hitem)] at href
      rw [hsame, lookup_stops, if_neg, href]
      rintro ⟨a, ha, hname⟩
      obtain ⟨hplan, hkind⟩ := List.mem_filter.mp ha
      rw [hkeep a (planned_for hitem hplan hname)] at hkind
      cases hkind

theorem other_of_carryOut (hother : (desiredInstances r).lookup name = none) :
    (carryOut made (planReconcile r refs outdated) refs).lookup name =
      if startsWith name "vllm-" && isOrphan (desiredInstances r) name then none
      else refs.lookup name := by
  have hplanned : ∀ item ∈ desiredInstances r, ∀ a ∈ planOne
      (refs.filter fun item => startsWith item.1 "vllm-") outdated item, a.name ≠ name := by
    rintro item hitem a ha rfl
    rw [(planOne_spec ha).1, lookup_desired hitem] at hother
    cases hother
  unfold carryOut
  extract_lets spec
  rcases lookup_starts spec ((planReconcile r refs outdated).filter fun a => a.kind = .start)
      (((planReconcile r refs outdated).filter fun a => a.kind = .stop).foldl
        (fun refs a => Dict.pop a.name refs) refs) name with
    ⟨a, ha, hname, -⟩ | ⟨-, hsame⟩
  · obtain ⟨hplan, hkind⟩ := List.mem_filter.mp ha
    rcases mem_planReconcile.mp hplan with ⟨item, hitem, ha'⟩ | ⟨orphan, -, -, rfl⟩
    · exact absurd hname (hplanned item hitem a ha')
    · cases of_decide_eq_true hkind
  · rw [hsame, lookup_stops]
    by_cases horphan : (startsWith name "vllm-" && isOrphan (desiredInstances r) name) = true
    · rw [if_pos horphan, ite_eq_left_iff]
      intro hnone
      by_contra hsome
      obtain ⟨ref, href⟩ := Option.ne_none_iff_exists'.mp hsome
      exact hnone ⟨_, List.mem_filter.mpr ⟨mem_planReconcile.mpr
        (.inr ⟨(name, ref), Dict.mem_of_lookup href, horphan, rfl⟩), rfl⟩, rfl⟩
    · rw [if_neg horphan, if_neg]
      rintro ⟨a, ha, hname⟩
      rcases mem_planReconcile.mp (List.mem_filter.mp ha).1 with
        ⟨item, hitem, ha'⟩ | ⟨orphan, -, horphan', rfl⟩
      · exact hplanned item hitem a ha' hname
      · exact horphan (hname ▸ horphan')

/-- **One plan is enough.** -/
theorem reconcile_settles (r : Registry) :
    (∀ item ∈ desiredInstances r, ∃ ref,
      (carryOut made (planReconcile r refs outdated) refs).lookup item.1 = some ref ∧
        ref.modelId = item.2) ∧
    (∀ name, (desiredInstances r).lookup name = none →
      (carryOut made (planReconcile r refs outdated) refs).lookup name =
        if startsWith name "vllm-" && isOrphan (desiredInstances r) name then none
        else refs.lookup name) ∧
    ∀ a ∈ planReconcile r (carryOut made (planReconcile r refs outdated) refs) [],
      a.kind = .keep := by
  refine ⟨fun item => instance_of_carryOut made refs outdated,
    fun name => other_of_carryOut made refs outdated, fun a ha => ?_⟩
  rcases mem_planReconcile.mp ha with ⟨item, hitem, ha'⟩ | ⟨orphan, hmem, horphan, rfl⟩
  · obtain ⟨ref, href, hmodel⟩ := instance_of_carryOut made refs outdated hitem
    refine planOne_keep ?_ hmodel a ha'
    rw [lookup_filter fun name => startsWith name "vllm-", if_pos (startsWith_desired hitem), href]
  · have hother : (desiredInstances r).lookup orphan.1 = none := by
      rw [isOrphan] at horphan
      cases hlookup : (desiredInstances r).lookup orphan.1 with
      | none => rfl
      | some modelId => simp [hlookup] at horphan
    have hgone := other_of_carryOut made refs outdated hother
    rw [if_pos horphan, ← Option.not_isSome_iff_eq_none, Dict.lookup_isSome_iff] at hgone
    exact absurd (List.mem_map_of_mem hmem) hgone

end Models

end Slas
