/-
  Slas.Models.Placement

  Which GPUs an instance goes to (`slas_model_manager.placement`, `needed_gib` of its `fit`).

  Role instances before voters, the biggest first.  One that fits on a GPU goes to the GPU with
  the most memory left; one that exceeds a GPU takes several, each with an equal share.  What
  already runs is pinned to its GPUs.  Gibibytes are exact here.
-/

import Mathlib.Data.List.Dedup
import Mathlib.Data.List.Sort
import Mathlib.Data.Rat.Floor
import Slas.Lib.Load
import Slas.Models.Registry

namespace Slas

namespace Models

namespace Placement

open Load

/-- `round(x, 1)`: a tie goes to the even digit. -/
def roundTenth (x : ℚ) : ℚ :=
  let n := ⌊x * 10⌋
  let rest := x * 10 - n
  let rounded := if rest < 1 / 2 ∨ (rest = 1 / 2 ∧ n % 2 = 0) then n else n + 1
  rounded / 10

def RUNTIME_OVERHEAD_GIB : ℚ := 2

/-- `needed_gib` -/
def neededGib (entry : ModelEntry) : ℚ := roundTenth (entry.vramGib + RUNTIME_OVERHEAD_GIB)

inductive Kind where
  | role
  | voter
  deriving DecidableEq

structure Candidate where
  instance_ : String
  modelId : String
  kind : Kind
  role : Option Role
  neededGib : ℚ

structure Placed where
  instance_ : String
  modelId : String
  gpuIds : List Nat
  deriving DecidableEq

/-- GPU id → what is left of it. -/
abbrev Free := List (Nat × ℚ)

/-- The key of `candidates`. -/
def Candidate.Before (a b : Candidate) : Prop :=
  if a.kind ≠ b.kind then a.kind = .role
  else if a.neededGib ≠ b.neededGib then b.neededGib < a.neededGib
  else a.instance_ ≤ b.instance_

instance : DecidableRel Candidate.Before := fun a b =>
  inferInstanceAs (Decidable (if a.kind ≠ b.kind then a.kind = .role
    else if a.neededGib ≠ b.neededGib then b.neededGib < a.neededGib
    else a.instance_ ≤ b.instance_))

def roleCandidate (r : Registry) (p : Role × String) : Option Candidate :=
  (r.model p.2).map fun entry =>
    ⟨instanceName p.1, p.2, .role, some p.1, neededGib entry⟩

def voterCandidate (r : Registry) (modelId : String) : Option Candidate :=
  (r.model modelId).map fun entry =>
    ⟨voterInstanceName modelId, modelId, .voter, none, neededGib entry⟩

/-- `candidates`: the desired instances of the names, in the order in which they are placed. -/
def candidates (r : Registry) (only : List String) : List Candidate :=
  ((r.roles.filterMap (roleCandidate r) ++ r.voters.filterMap (voterCandidate r)).filter
    fun c => c.instance_ ∈ only).insertionSort Candidate.Before

def gpuCountFor (needed capacity : ℚ) : Nat :=
  if 0 < capacity then max 1 ⌈needed / capacity⌉.toNat else 1

/-- `_choose`: the GPUs with the most memory left first, the lowest id on a tie. -/
def choose (needed : ℚ) (free : Free) (capacity : ℚ) : Option (List Nat) :=
  let count := gpuCountFor needed capacity
  let share := needed / count
  let ranked := free.insertionSort fun a b => b.2 < a.2 ∨ (a.2 = b.2 ∧ a.1 ≤ b.1)
  let roomy := (ranked.filter fun item => share ≤ item.2).map (·.1)
  if free = [] ∨ roomy.length < count then none
  else some ((roomy.take count).insertionSort (· ≤ ·))

/-- A share of each of the GPUs is taken; what is left of an unknown GPU is nothing. -/
def takeShare (share : ℚ) (gpus : List Nat) (free : Free) : Free :=
  gpus.foldl (fun free gpu => Dict.set gpu ((free.lookup gpu).getD 0 - share) free) free

/-- What runs, by name: its GPUs, and what it needs. -/
abbrev Pinned := List (String × (List Nat × ℚ))

/-- What is left before anything is placed. -/
def freeAfter (gpuIds : List Nat) (capacity : ℚ) (pinned : Pinned) : Free :=
  (pinned.insertionSort fun a b => a.1 ≤ b.1).foldl
    (fun free item => takeShare (item.2.2 / (max item.2.1.length 1 : Nat)) item.2.1 free)
    ((gpuIds.dedup.insertionSort (· ≤ ·)).map fun gpu => (gpu, capacity))

def placeAll (capacity : ℚ) : List Candidate → Free → List Placed
  | [], _ => []
  | candidate :: wanted, free =>
    match choose candidate.neededGib free capacity with
    | none => placeAll capacity wanted free
    | some chosen =>
      ⟨candidate.instance_, candidate.modelId, chosen⟩ ::
        placeAll capacity wanted (takeShare (candidate.neededGib / chosen.length) chosen free)

/-- `place`: what could be placed. -/
def place (wanted : List Candidate) (gpuIds : List Nat) (capacity : ℚ) (pinned : Pinned) :
    List Placed :=
  placeAll capacity wanted (freeAfter gpuIds capacity pinned)

/-- `gpu_ids_for` -/
def gpuIdsFor (placed : List Placed) (instance_ : String) : Option (List Nat) :=
  (placed.find? fun item => item.instance_ = instance_).map (·.gpuIds)

example : place [⟨"vllm-coder", "q", .role, some .coder, 300⟩, ⟨"vllm-embed", "e", .role, none, 4⟩]
    [0, 1, 2] 200 [("vllm-triage", ([0], 120))] =
      [⟨"vllm-coder", "q", [1, 2]⟩, ⟨"vllm-embed", "e", [0]⟩] := by decide +kernel

/-! ## What is placed fits -/

/-- An instance as a tenant of its GPUs. -/
def tenant (need : String → ℚ) (item : Placed) : Tenant Nat ℚ := ⟨item.gpuIds, need item.modelId⟩

def pinnedTenant (item : String × (List Nat × ℚ)) : Tenant Nat ℚ := ⟨item.2.1, item.2.2⟩

/-- What is left of a GPU. -/
def left (free : Free) (gpu : Nat) : ℚ := (free.lookup gpu).getD 0

variable {needed capacity share : ℚ} {free : Free} {gpus chosen gpuIds : List Nat} {gpu : Nat}
  {pinned : Pinned} {ts : List (Tenant Nat ℚ)} {need : String → ℚ} {wanted : List Candidate}

theorem left_takeShare :
    left (takeShare share gpus free) gpu = left free gpu - gpus.count gpu * share := by
  induction gpus generalizing free with
  | nil => simp [takeShare, left]
  | cons first gpus ih =>
    have hcons : takeShare share (first :: gpus) free =
        takeShare share gpus (Dict.set first (left free first - share) free) := rfl
    rw [hcons, ih, left, Dict.lookup_set, List.count_cons]
    by_cases heq : gpu = first
    · subst heq
      simp
      ring
    · have hbeq : (first == gpu) = false := beq_eq_false_iff_ne.mpr (Ne.symm heq)
      rw [if_neg heq, hbeq]
      simp [left]

theorem nodup_takeShare (h : (Dict.keys free).Nodup) :
    (Dict.keys (takeShare share gpus free)).Nodup := by
  induction gpus generalizing free with
  | nil => exact h
  | cons first gpus ih => exact ih (Dict.nodup_keys_set h)

theorem one_le_gpuCountFor : 1 ≤ gpuCountFor needed capacity := by
  unfold gpuCountFor
  split_ifs
  · exact le_max_left _ _
  · exact Nat.le_refl 1

/-- The GPUs that have the share of an instance left, as they are ranked. -/
def roomy (needed capacity : ℚ) (free : Free) : List Nat :=
  ((free.insertionSort fun a b => b.2 < a.2 ∨ (a.2 = b.2 ∧ a.1 ≤ b.1)).filter fun item =>
    needed / gpuCountFor needed capacity ≤ item.2).map (·.1)

theorem choose_eq : choose needed free capacity =
    if free = [] ∨ (roomy needed capacity free).length < gpuCountFor needed capacity then none
    else some (((roomy needed capacity free).take (gpuCountFor needed capacity)).insertionSort
      (· ≤ ·)) := rfl

theorem nodup_roomy (hfree : (Dict.keys free).Nodup) : (roomy needed capacity free).Nodup := by
  have hperm := List.perm_insertionSort
    (fun a b : Nat × ℚ => b.2 < a.2 ∨ (a.2 = b.2 ∧ a.1 ≤ b.1)) free
  have hkeys : (Dict.keys (free.insertionSort fun a b =>
      b.2 < a.2 ∨ (a.2 = b.2 ∧ a.1 ≤ b.1))).Nodup := ((hperm.map _).nodup_iff).mpr hfree
  exact (List.filter_sublist.map _).nodup hkeys

theorem mem_roomy (hfree : (Dict.keys free).Nodup) : gpu ∈ roomy needed capacity free ↔
    gpu ∈ Dict.keys free ∧ needed / gpuCountFor needed capacity ≤ left free gpu := by
  have hperm := List.perm_insertionSort
    (fun a b : Nat × ℚ => b.2 < a.2 ∨ (a.2 = b.2 ∧ a.1 ≤ b.1)) free
  have hleft : ∀ item ∈ free, left free item.1 = item.2 := by
    intro item hitem
    rw [left, Dict.lookup_eq_of_mem hfree hitem]
    rfl
  simp only [roomy, Dict.keys, List.mem_map, List.mem_filter, hperm.mem_iff, decide_eq_true_eq]
  constructor
  · rintro ⟨item, ⟨hitem, hroom⟩, rfl⟩
    exact ⟨⟨item, hitem, rfl⟩, by rwa [hleft item hitem]⟩
  · rintro ⟨⟨item, hitem, rfl⟩, hroom⟩
    exact ⟨item, ⟨hitem, by rwa [← hleft item hitem]⟩, rfl⟩

/-- As many GPUs are chosen as the instance takes, of those with its share left. -/
theorem choose_some (h : choose needed free capacity = some chosen) :
    chosen.length = gpuCountFor needed capacity ∧
      chosen.Subperm (roomy needed capacity free) := by
  rw [choose_eq] at h
  split_ifs at h with hnone
  obtain rfl := Option.some.inj h
  push Not at hnone
  have hsorted := List.perm_insertionSort (· ≤ ·)
    ((roomy needed capacity free).take (gpuCountFor needed capacity))
  refine ⟨?_, hsorted.subperm.trans (List.take_sublist _ _).subperm⟩
  rw [List.length_insertionSort, List.length_take, min_eq_left hnone.2]

/-- The chosen GPUs are different, and each of them has the share left. -/
theorem choose_spec (hfree : (Dict.keys free).Nodup) (h : choose needed free capacity = some chosen) :
    chosen.Nodup ∧ chosen ≠ [] ∧ ∀ gpu ∈ chosen, needed / chosen.length ≤ left free gpu := by
  obtain ⟨hlength, hroomy⟩ := choose_some h
  obtain ⟨few, hperm, hfew⟩ := hroomy
  refine ⟨hperm.nodup_iff.mp (hfew.nodup (nodup_roomy hfree)), fun hnil => ?_, fun gpu hgpu => ?_⟩
  · have hone : 1 ≤ gpuCountFor needed capacity := one_le_gpuCountFor
    rw [hnil, List.length_nil] at hlength
    omega
  · rw [hlength]
    exact ((mem_roomy hfree).mp (hfew.subset (hperm.mem_iff.mpr hgpu))).2

/-- If none are chosen, fewer GPUs than the instance takes have its share left. -/
theorem choose_none (hfree : (Dict.keys free).Nodup) (h : choose needed free capacity = none)
    (hnodup : gpus.Nodup) (hroom : ∀ gpu ∈ gpus, gpu ∈ Dict.keys free ∧
      needed / gpuCountFor needed capacity ≤ left free gpu) :
    gpus.length < gpuCountFor needed capacity := by
  have hsub : gpus ⊆ roomy needed capacity free := fun gpu hgpu =>
    (mem_roomy hfree).mpr (hroom gpu hgpu)
  have hlength := (List.subperm_of_subset hnodup hsub).length_le
  rw [choose_eq] at h
  split_ifs at h with hnone
  rcases hnone with rfl | hfew
  · have hnil : roomy needed capacity [] = [] := rfl
    rw [hnil, List.length_nil] at hlength
    exact Nat.lt_of_lt_of_le (by omega) one_le_gpuCountFor
  · omega

/-- Of no GPU more is left than its tenants leave. -/
def Covers (capacity : ℚ) (ts : List (Tenant Nat ℚ)) (free : Free) : Prop :=
  ∀ gpu, left free gpu ≤ capacity - load ts gpu

theorem Covers.takeShare {t : Tenant Nat ℚ} (h : Covers capacity ts free) :
    Covers capacity (t :: ts) (takeShare t.share t.bins free) := by
  intro gpu
  rw [left_takeShare, load_cons, Tenant.takes]
  linarith [h gpu]

/-- **Placement**: what is placed fits beside what was there. -/
theorem placeAll_within (hneed : ∀ c ∈ wanted, c.neededGib = need c.modelId)
    (hfree : (Dict.keys free).Nodup) (hcovers : Covers capacity ts free)
    (hwithin : Within capacity ts) :
    Within capacity ((placeAll capacity wanted free).map (tenant need) ++ ts) := by
  induction wanted generalizing free ts with
  | nil => exact hwithin
  | cons c wanted ih =>
    have hlater : ∀ c ∈ wanted, c.neededGib = need c.modelId := fun c hc =>
      hneed c (List.mem_cons_of_mem _ hc)
    unfold placeAll
    cases hchosen : choose c.neededGib free capacity with
    | none => exact ih hlater hfree hcovers hwithin
    | some chosen =>
      obtain ⟨hnodup, hne, hroom⟩ := choose_spec hfree hchosen
      set t : Tenant Nat ℚ := ⟨chosen, need c.modelId⟩ with ht
      have hshare : c.neededGib / chosen.length = t.share := by
        have hpos := List.length_pos_of_ne_nil hne
        rw [Tenant.share, hneed c List.mem_cons_self, max_eq_left hpos]
      rw [hshare] at hroom
      have hmore : Within capacity (t :: ts) :=
        hwithin.cons hnodup fun gpu hgpu => (hroom gpu hgpu).trans (hcovers gpu)
      have hrest := ih hlater (nodup_takeShare hfree) (hcovers.takeShare (t := t)) hmore
      have hperm : ((placeAll capacity wanted (Placement.takeShare t.share chosen free)).map
          (tenant need) ++ t :: ts).Perm
          (t :: ((placeAll capacity wanted (Placement.takeShare t.share chosen free)).map
            (tenant need) ++ ts)) := List.perm_middle
      intro gpu
      dsimp only
      rw [hshare]
      exact (load_perm hperm).symm.trans_le (hrest gpu)

theorem nodup_freeAfter : (Dict.keys (freeAfter gpuIds capacity pinned)).Nodup := by
  have hstart : (Dict.keys ((gpuIds.dedup.insertionSort (· ≤ ·)).map fun gpu =>
      (gpu, capacity))).Nodup := by
    have hkeys : Dict.keys ((gpuIds.dedup.insertionSort (· ≤ ·)).map fun gpu => (gpu, capacity)) =
        gpuIds.dedup.insertionSort (· ≤ ·) := by
      rw [Dict.keys, List.map_map]
      exact List.map_id _
    rw [hkeys]
    exact (List.perm_insertionSort _ _).nodup_iff.mpr (List.nodup_dedup _)
  unfold freeAfter
  generalize pinned.insertionSort (fun a b => a.1 ≤ b.1) = items
  generalize (gpuIds.dedup.insertionSort (· ≤ ·)).map (fun gpu => (gpu, capacity)) = free at hstart
  induction items generalizing free with
  | nil => exact hstart
  | cons item items ih => exact ih _ (nodup_takeShare hstart)

theorem left_fromKeys : left ((gpuIds.dedup.insertionSort (· ≤ ·)).map fun gpu => (gpu, capacity)) gpu =
    if gpu ∈ gpuIds then capacity else 0 := by
  have hsorted : gpu ∈ gpuIds.dedup.insertionSort (· ≤ ·) ↔ gpu ∈ gpuIds := by
    rw [(List.perm_insertionSort _ _).mem_iff, List.mem_dedup]
  rw [left]
  split_ifs with hgpu
  · cases hfound : ((gpuIds.dedup.insertionSort (· ≤ ·)).map fun gpu => (gpu, capacity)).lookup gpu with
    | none =>
      have hkey : gpu ∈ Dict.keys ((gpuIds.dedup.insertionSort (· ≤ ·)).map fun gpu =>
          (gpu, capacity)) := by
        simp [Dict.keys, hgpu]
      rw [← Dict.lookup_isSome_iff, hfound] at hkey
      cases hkey
    | some free =>
      obtain ⟨g, -, hg⟩ := List.mem_map.mp (Dict.mem_of_lookup hfound)
      rw [Option.getD_some, ← (Prod.mk.inj hg).2]
  · cases hfound : ((gpuIds.dedup.insertionSort (· ≤ ·)).map fun gpu => (gpu, capacity)).lookup gpu with
    | none => rfl
    | some free =>
      obtain ⟨g, hin, hg⟩ := List.mem_map.mp (Dict.mem_of_lookup hfound)
      rw [(Prod.mk.inj hg).1] at hin
      exact absurd (hsorted.mp hin) hgpu

/-- What is left before anything is placed: of a GPU outside the given ones, nothing. -/
theorem left_freeAfter : left (freeAfter gpuIds capacity pinned) gpu =
    (if gpu ∈ gpuIds then capacity else 0) - load (pinned.map pinnedTenant) gpu := by
  have hitems : ∀ (items : Pinned) (free : Free), left (items.foldl (fun free item =>
      takeShare (item.2.2 / (max item.2.1.length 1 : Nat)) item.2.1 free) free) gpu =
        left free gpu - load (items.map pinnedTenant) gpu := by
    intro items
    induction items with
    | nil => intro free; simp
    | cons item items ih =>
      intro free
      rw [List.foldl_cons, ih, left_takeShare, List.map_cons, load_cons]
      simp only [Tenant.takes, Tenant.share, pinnedTenant]
      ring
  have hsorted := List.perm_insertionSort (fun a b : String × (List Nat × ℚ) => a.1 ≤ b.1) pinned
  rw [freeAfter, hitems, left_fromKeys, load_perm (hsorted.map pinnedTenant)]

theorem covers_freeAfter (hcapacity : 0 ≤ capacity) :
    Covers capacity (pinned.map pinnedTenant) (freeAfter gpuIds capacity pinned) := by
  intro gpu
  rw [left_freeAfter]
  split_ifs <;> linarith

/-- What is placed beside what is pinned. -/
theorem place_within (hneed : ∀ c ∈ wanted, c.neededGib = need c.modelId) (hcapacity : 0 ≤ capacity)
    (hwithin : Within capacity (pinned.map pinnedTenant)) :
    Within capacity ((place wanted gpuIds capacity pinned).map (tenant need) ++
      pinned.map pinnedTenant) :=
  placeAll_within hneed nodup_freeAfter (covers_freeAfter hcapacity) hwithin

end Placement

end Models

end Slas
