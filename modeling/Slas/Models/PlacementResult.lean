/-
  Slas.Models.PlacementResult

  The whole answer of `place` (`slas_model_manager.placement`): what was placed, what was not
  and why, what is left of each GPU and who is on it.  Gibibytes are exact here.

  Theorems:
    placeResult_sound — each candidate is placed within the capacity or, with too few GPUs
                        free when its turn came, not placed; who is pinned stays.
-/

import Slas.Lib.Except
import Slas.Lib.General
import Slas.Models.Placement

namespace Slas

namespace Models

namespace Placement

open Load

/-- A candidate that passed its checks. -/
structure Wanted extends Candidate where
  label : String
  instance_ne : instance_ ≠ ""
  modelId_ne : modelId ≠ ""
  label_ne : label ≠ ""
  needed_pos : 0 < neededGib

structure Unplaced where
  instance_ : String
  modelId : String
  sentence : String

def Unplaced.ids (u : Unplaced) : String × String := (u.instance_, u.modelId)

/-- GPU id → the instances on it. -/
abbrev Occupants := List (Nat × List String)

structure PlacementResult where
  placed : List Placed
  unplaced : List Unplaced
  freeGib : Free
  occupants : Occupants

/-! ## Who is not placed -/

/-- The format `g` of a number that is not negative. -/
def general (q : ℚ) : String := if q = 0 then "0" else General.format q

/-- The GPU with the most memory left, the lowest id on a tie. -/
def roomiest (free : Free) : Option (Nat × ℚ) :=
  free.foldl (fun best item =>
    match best with
    | none => some item
    | some b => if b.2 < item.2 ∨ (b.2 = item.2 ∧ item.1 < b.1) then some item else some b) none

def FIX : String :=
  "Add a GPU, raise SLAS_GPU_VRAM_GIB in .env if it understates the cards, or pick a " ++
    "smaller build on the Models page."

/-- `_no_room_sentence` -/
def noRoomSentence (c : Wanted) (free : Free) (capacity : ℚ) : String :=
  let needs := c.label ++ " needs about " ++ general c.neededGib ++ " GiB of GPU memory, "
  let notStarted := c.instance_ ++ " was not started. "
  match roomiest free with
  | none => needs ++ "but SLAS_GPU_IDS names no GPU; " ++ notStarted ++ "Set SLAS_GPU_IDS in .env."
  | some (gpu, left) =>
    let count := gpuCountFor c.neededGib capacity
    if count = 1 then
      needs ++ "but the most left on one GPU after the other models is " ++
        general (max left 0) ++ " GiB (GPU " ++ toString gpu ++ "); " ++ notStarted ++ FIX
    else
      let share := c.neededGib / count
      needs ++ "which is " ++ toString count ++ " GPUs of " ++ general capacity ++
        " GiB in tensor parallel, but only " ++
        toString (free.countP fun item => share ≤ item.2) ++ " of " ++ toString free.length ++
        " GPUs have " ++ general share ++ " GiB left; " ++ notStarted ++ FIX

/-! ## The loop -/

/-- Who is on a GPU. -/
def occupantsOf (occupants : Occupants) (gpu : Nat) : List String :=
  (occupants.lookup gpu).getD []

/-- Who is on the GPUs before anything is placed. -/
def occupantsAfter (gpuIds : List Nat) (pinned : Pinned) : Occupants :=
  (pinned.insertionSort fun a b => a.1 ≤ b.1).foldl
    (fun occupants item => item.2.1.foldl
      (fun occupants gpu => Dict.set gpu (occupantsOf occupants gpu ++ [item.1]) occupants) occupants)
    ((gpuIds.dedup.insertionSort (· ≤ ·)).map fun gpu => (gpu, []))

/-- `occupants[gpu].append(name)` for each of the GPUs. -/
def occupy (name : String) : List Nat → Occupants → Except String Occupants
  | [], occupants => .ok occupants
  | gpu :: gpus, occupants =>
    match occupants.lookup gpu with
    | some names => occupy name gpus (Dict.set gpu (names ++ [name]) occupants)
    | none => .error "KeyError"

structure Placing where
  free : Free
  occupants : Occupants
  placed : List Placed := []
  unplaced : List Unplaced := []

/-- One turn of the loop of `place`, with the checks of what it makes. -/
def placeOne (capacity : ℚ) (s : Placing) (c : Wanted) : Except String Placing :=
  match choose c.neededGib s.free capacity with
  | none =>
    let sentence := noRoomSentence c s.free capacity
    if sentence = "" then .error "ValidationError: sentence"
    else .ok { s with unplaced := s.unplaced ++ [⟨c.instance_, c.modelId, sentence⟩] }
  | some [] => .error "ZeroDivisionError"
  | some chosen => do
    let occupants ← occupy c.instance_ chosen s.occupants
    return { s with
      free := takeShare (c.neededGib / chosen.length) chosen s.free
      occupants
      placed := s.placed ++ [⟨c.instance_, c.modelId, chosen⟩] }

/-- `place` -/
def placeResult (wanted : List Wanted) (gpuIds : List Nat) (capacity : ℚ) (pinned : Pinned) :
    Except String PlacementResult := do
  let s ← wanted.foldlM (placeOne capacity)
    { free := freeAfter gpuIds capacity pinned, occupants := occupantsAfter gpuIds pinned }
  return {
    placed := s.placed
    unplaced := s.unplaced
    freeGib := (s.free.insertionSort fun a b => a.1 ≤ b.1).map fun item =>
      (item.1, roundTenth item.2)
    occupants := s.occupants.insertionSort fun a b => a.1 ≤ b.1 }

/-! ## What became of the candidates -/

/-- A candidate, and the GPUs it was placed on. -/
abbrev Outcome := Wanted × Option (List Nat)

namespace Outcome

def placed? (o : Outcome) : Option Placed :=
  o.2.map fun gpus => ⟨o.1.instance_, o.1.modelId, gpus⟩

/-- The instance and the model of a candidate that was not placed. -/
def unplaced? (o : Outcome) : Option (String × String) :=
  if o.2 = none then some (o.1.instance_, o.1.modelId) else none

def tenant? (o : Outcome) : Option (Tenant Nat ℚ) := o.2.map fun gpus => ⟨gpus, o.1.neededGib⟩

/-- The name of the candidate, as often as it was placed on the GPU. -/
def on (gpu : Nat) (o : Outcome) : List String :=
  List.replicate ((o.2.getD []).count gpu) o.1.instance_

end Outcome

/-- The tenants of the GPUs after the outcomes: who was placed, and who is pinned. -/
def tenantsAfter (pinned : Pinned) (outcomes : List Outcome) : List (Tenant Nat ℚ) :=
  outcomes.filterMap Outcome.tenant? ++ pinned.map pinnedTenant

/-- The names of those who are pinned to a GPU, in their order. -/
def pinnedOn (pinned : Pinned) (gpu : Nat) : List String :=
  (pinned.insertionSort fun a b => a.1 ≤ b.1).flatMap fun item =>
    List.replicate (item.2.1.count gpu) item.1

/-- The result says what became of each candidate, and that nothing else changed. -/
structure Reports (wanted : List Wanted) (pinned : Pinned) (result : PlacementResult)
    (outcomes : List Outcome) : Prop where
  each : outcomes.map (·.1) = wanted
  placed : result.placed = outcomes.filterMap Outcome.placed?
  unplaced : result.unplaced.map Unplaced.ids = outcomes.filterMap Outcome.unplaced?
  occupants : ∀ gpu, occupantsOf result.occupants gpu =
    pinnedOn pinned gpu ++ outcomes.flatMap (Outcome.on gpu)

/-- The outcomes are what a placement is for. -/
structure Sound (gpuIds : List Nat) (capacity : ℚ) (pinned : Pinned) (outcomes : List Outcome) :
    Prop where
  placed : ∀ c gpus, (c, some gpus) ∈ outcomes → gpus.Nodup ∧ gpus ⊆ gpuIds ∧
    (gpus.length : ℤ) = max 1 ⌈c.neededGib / capacity⌉
  within : ∀ gpu, load (pinned.map pinnedTenant) gpu ≤ capacity →
    load (tenantsAfter pinned outcomes) gpu ≤ capacity
  unplaced : ∀ before c after, outcomes = before ++ (c, none) :: after →
    (gpuIds.dedup.countP fun gpu => c.neededGib / gpuCountFor c.neededGib capacity ≤
      capacity - load (tenantsAfter pinned before) gpu) < gpuCountFor c.neededGib capacity

/-! ## The turns of the candidates -/

/-- What is left after the turn of a candidate. -/
def freeNext (capacity : ℚ) (c : Wanted) (free : Free) : Free :=
  match choose c.neededGib free capacity with
  | none => free
  | some chosen => takeShare (c.neededGib / chosen.length) chosen free

def outcomesOf (capacity : ℚ) : List Wanted → Free → List Outcome
  | [], _ => []
  | c :: wanted, free =>
    (c, choose c.neededGib free capacity) :: outcomesOf capacity wanted (freeNext capacity c free)

/-- What is left of the GPUs is what their tenants leave of them. -/
structure Leaves (gpuIds : List Nat) (capacity : ℚ) (ts : List (Tenant Nat ℚ)) (free : Free) :
    Prop where
  nodup : (Dict.keys free).Nodup
  known : ∀ gpu ∈ gpuIds, gpu ∈ Dict.keys free
  left : ∀ gpu, left free gpu = (if gpu ∈ gpuIds then capacity else 0) - load ts gpu
  nonneg : ∀ t ∈ ts, 0 ≤ t.need

variable {wanted : List Wanted} {gpuIds gpus chosen : List Nat} {gpu : Nat} {capacity share : ℚ}
  {pinned : Pinned} {ts : List (Tenant Nat ℚ)} {free : Free} {c : Wanted} {name : String}
  {occupants : Occupants} {s : Placing}

theorem mem_keys_takeShare :
    gpu ∈ Dict.keys (takeShare share gpus free) ↔ gpu ∈ gpus ∨ gpu ∈ Dict.keys free := by
  induction gpus generalizing free with
  | nil => simp [takeShare]
  | cons first gpus ih =>
    have hcons : takeShare share (first :: gpus) free =
        takeShare share gpus (Dict.set first (left free first - share) free) := rfl
    rw [hcons, ih, Dict.mem_keys_set, List.mem_cons]
    tauto

theorem leaves_freeAfter (hpinned : ∀ item ∈ pinned, 0 ≤ item.2.2) :
    Leaves gpuIds capacity (pinned.map pinnedTenant) (freeAfter gpuIds capacity pinned) where
  nodup := nodup_freeAfter
  known := by
    intro gpu hgpu
    have hstart : gpu ∈ Dict.keys ((gpuIds.dedup.insertionSort (· ≤ ·)).map fun gpu =>
        (gpu, capacity)) := by
      simp [Dict.keys, hgpu]
    unfold freeAfter
    generalize pinned.insertionSort (fun a b => a.1 ≤ b.1) = items
    generalize (gpuIds.dedup.insertionSort (· ≤ ·)).map (fun gpu => (gpu, capacity)) = free at hstart
    induction items generalizing free with
    | nil => exact hstart
    | cons item items ih => exact ih _ (mem_keys_takeShare.mpr (Or.inr hstart))
  left _ := left_freeAfter
  nonneg := by
    intro t ht
    obtain ⟨item, hitem, rfl⟩ := List.mem_map.mp ht
    exact hpinned item hitem

/-- Who is chosen is one of the given GPUs: of others nothing is left. -/
theorem Leaves.choice (h : Leaves gpuIds capacity ts free)
    (hchosen : choose c.neededGib free capacity = some chosen) :
    chosen.Nodup ∧ chosen ≠ [] ∧ chosen ⊆ gpuIds ∧
      ∀ gpu ∈ chosen, c.neededGib / chosen.length ≤ capacity - load ts gpu := by
  obtain ⟨hnodup, hne, hroom⟩ := choose_spec h.nodup hchosen
  have hpos : 0 < c.neededGib / chosen.length :=
    div_pos c.needed_pos (Nat.cast_pos.mpr (List.length_pos_of_ne_nil hne))
  have hsub : chosen ⊆ gpuIds := by
    intro gpu hgpu
    by_contra houtside
    have hleft := hroom gpu hgpu
    rw [h.left, if_neg houtside] at hleft
    have hload : 0 ≤ load ts gpu := load_nonneg h.nonneg
    linarith
  refine ⟨hnodup, hne, hsub, fun gpu hgpu => ?_⟩
  have hleft := hroom gpu hgpu
  rwa [h.left, if_pos (hsub hgpu)] at hleft

/-- The share of a placed candidate is what a tenant takes. -/
theorem share_eq (hne : chosen ≠ []) :
    c.neededGib / chosen.length = (⟨chosen, c.neededGib⟩ : Tenant Nat ℚ).share := by
  rw [Tenant.share, max_eq_left (List.length_pos_of_ne_nil hne)]

theorem Leaves.takeShare (h : Leaves gpuIds capacity ts free)
    (hchosen : choose c.neededGib free capacity = some chosen) :
    Leaves gpuIds capacity (⟨chosen, c.neededGib⟩ :: ts)
      (takeShare (c.neededGib / chosen.length) chosen free) where
  nodup := nodup_takeShare h.nodup
  known gpu hgpu := mem_keys_takeShare.mpr (Or.inr (h.known gpu hgpu))
  left gpu := by
    rw [left_takeShare, h.left, load_cons, Tenant.takes, share_eq (h.choice hchosen).2.1]
    ring
  nonneg := List.forall_mem_cons.mpr ⟨c.needed_pos.le, h.nonneg⟩

/-- Where the tenants go that a turn adds. -/
theorem load_turn {o : Outcome} {rest : List Outcome} {gpus : List Nat} (ho : o.2 = some gpus) :
    load ((o :: rest).filterMap Outcome.tenant? ++ ts) gpu =
      load (rest.filterMap Outcome.tenant? ++ ⟨gpus, o.1.neededGib⟩ :: ts) gpu := by
  rw [List.filterMap_cons, Outcome.tenant?, ho]
  exact (load_perm List.perm_middle).symm

theorem outcomesOf_placed (hcapacity : 0 < capacity) (h : Leaves gpuIds capacity ts free) :
    ∀ c gpus, (c, some gpus) ∈ outcomesOf capacity wanted free → gpus.Nodup ∧ gpus ⊆ gpuIds ∧
      (gpus.length : ℤ) = max 1 ⌈c.neededGib / capacity⌉ := by
  induction wanted generalizing ts free with
  | nil => simp [outcomesOf]
  | cons first wanted ih =>
    intro c gpus hin
    rw [outcomesOf] at hin
    rcases List.mem_cons.mp hin with heq | hin
    · obtain ⟨rfl, hchosen⟩ := Prod.mk.inj heq
      obtain ⟨hnodup, -, hsub, -⟩ := h.choice hchosen.symm
      have hceil : 0 ≤ ⌈c.neededGib / capacity⌉ := Int.ceil_nonneg (div_pos c.needed_pos hcapacity).le
      refine ⟨hnodup, hsub, ?_⟩
      rw [(choose_some hchosen.symm).1, gpuCountFor, if_pos hcapacity, Nat.cast_max,
        Int.toNat_of_nonneg hceil]
      rfl
    · unfold freeNext at hin
      cases hchosen : choose first.neededGib free capacity with
      | none =>
        rw [hchosen] at hin
        exact ih h c gpus hin
      | some chosen =>
        rw [hchosen] at hin
        exact ih (h.takeShare hchosen) c gpus hin

theorem outcomesOf_within (h : Leaves gpuIds capacity ts free) (hload : load ts gpu ≤ capacity) :
    load ((outcomesOf capacity wanted free).filterMap Outcome.tenant? ++ ts) gpu ≤ capacity := by
  induction wanted generalizing ts free with
  | nil => exact hload
  | cons c wanted ih =>
    rw [outcomesOf, freeNext]
    cases hchosen : choose c.neededGib free capacity with
    | none => exact ih h hload
    | some chosen =>
      obtain ⟨hnodup, hne, -, hroom⟩ := h.choice hchosen
      rw [load_turn rfl]
      refine ih (h.takeShare hchosen) (load_cons_le hnodup hload fun hgpu => ?_)
      rw [← share_eq hne]
      exact hroom gpu hgpu

/-- Who is not placed found too few GPUs with its share left. -/
theorem outcomesOf_unplaced (h : Leaves gpuIds capacity ts free) {before after : List Outcome}
    (heq : outcomesOf capacity wanted free = before ++ (c, none) :: after) :
    (gpuIds.dedup.countP fun gpu => c.neededGib / gpuCountFor c.neededGib capacity ≤
      capacity - load (before.filterMap Outcome.tenant? ++ ts) gpu) <
        gpuCountFor c.neededGib capacity := by
  induction wanted generalizing ts free before with
  | nil => simp [outcomesOf] at heq
  | cons first wanted ih =>
    rw [outcomesOf] at heq
    cases before with
    | nil =>
      obtain ⟨heq, -⟩ := List.cons.inj heq
      obtain ⟨rfl, hnone⟩ := Prod.mk.inj heq
      rw [List.countP_eq_length_filter]
      refine choose_none h.nodup hnone ((List.nodup_dedup gpuIds).filter _) fun gpu hgpu => ?_
      obtain ⟨hin, hroom⟩ := List.mem_filter.mp hgpu
      rw [List.mem_dedup] at hin
      refine ⟨h.known gpu hin, ?_⟩
      rw [h.left, if_pos hin]
      exact of_decide_eq_true hroom
    | cons o before =>
      obtain ⟨rfl, hrest⟩ := List.cons.inj heq
      unfold freeNext at hrest
      cases hchosen : choose first.neededGib free capacity with
      | none =>
        rw [hchosen] at hrest
        have hno : Outcome.tenant? (first, none) = none := rfl
        simp only [List.filterMap_cons_none hno]
        exact ih h hrest
      | some chosen =>
        rw [hchosen] at hrest
        simp only [load_turn (o := (first, some chosen)) rfl]
        exact ih (h.takeShare hchosen) hrest

/-! ## The loop takes the turns -/

theorem occupantsOf_set {names : List String} {gpu' : Nat} :
    occupantsOf (Dict.set gpu' names occupants) gpu =
      if gpu = gpu' then names else occupantsOf occupants gpu := by
  rw [occupantsOf, Dict.lookup_set]
  split_ifs <;> rfl

/-- Every GPU of which something is known has a list of who is on it. -/
theorem occupy_ok (name : String) (h : ∀ gpu ∈ gpus, gpu ∈ Dict.keys occupants) :
    ∃ occupied, occupy name gpus occupants = .ok occupied ∧
      (∀ gpu, occupantsOf occupied gpu =
        occupantsOf occupants gpu ++ List.replicate (gpus.count gpu) name) ∧
      (∀ gpu ∈ Dict.keys occupants, gpu ∈ Dict.keys occupied) ∧
      ((Dict.keys occupants).Nodup → (Dict.keys occupied).Nodup) := by
  induction gpus generalizing occupants with
  | nil => exact ⟨occupants, rfl, by simp, fun _ h => h, fun h => h⟩
  | cons first gpus ih =>
    obtain ⟨names, hnames⟩ := Option.isSome_iff_exists.mp
      (Dict.lookup_isSome_iff.mpr (h first List.mem_cons_self))
    obtain ⟨occupied, hoccupied, hof, hkeys, hnodup⟩ :=
      @ih (Dict.set first (names ++ [name]) occupants) fun gpu hgpu =>
        Dict.mem_keys_set.mpr (Or.inr (h gpu (List.mem_cons_of_mem _ hgpu)))
    refine ⟨occupied, by rw [occupy, hnames]; exact hoccupied, fun gpu => ?_,
      fun gpu hgpu => hkeys gpu (Dict.mem_keys_set.mpr (Or.inr hgpu)),
      fun h => hnodup (Dict.nodup_keys_set h)⟩
    rw [hof, occupantsOf_set, List.count_cons]
    by_cases heq : gpu = first
    · subst heq
      rw [if_pos rfl, beq_self_eq_true, if_pos rfl, List.append_assoc, List.singleton_append,
        ← List.replicate_succ, occupantsOf, hnames, Option.getD_some]
    · rw [if_neg heq, if_neg (by simpa using Ne.symm heq), Nat.add_zero]

theorem noRoomSentence_ne : noRoomSentence c free capacity ≠ "" := by
  have hlabel : ∀ rest : String, c.label ++ rest ≠ "" := by
    intro rest hempty
    have hchars := congrArg String.toList hempty
    rw [String.toList_append, String.toList_empty, List.append_eq_nil_iff] at hchars
    exact c.label_ne (String.toList_eq_nil_iff.mp hchars.1)
  unfold noRoomSentence
  dsimp only
  split
  · simp only [String.append_assoc]
    exact hlabel _
  · split_ifs <;> · simp only [String.append_assoc]; exact hlabel _

/-- The loop comes to its end, and does with each candidate what its turn gives. -/
theorem run_placeOne (wanted : List Wanted) (s : Placing) (hfree : (Dict.keys s.free).Nodup)
    (hkeys : ∀ gpu ∈ Dict.keys s.free, gpu ∈ Dict.keys s.occupants)
    (hnodup : (Dict.keys s.occupants).Nodup) :
    ∃ s', wanted.foldlM (placeOne capacity) s = .ok s' ∧
      s'.placed = s.placed ++ (outcomesOf capacity wanted s.free).filterMap Outcome.placed? ∧
      s'.unplaced.map Unplaced.ids = s.unplaced.map Unplaced.ids ++
        (outcomesOf capacity wanted s.free).filterMap Outcome.unplaced? ∧
      (∀ gpu, occupantsOf s'.occupants gpu = occupantsOf s.occupants gpu ++
        (outcomesOf capacity wanted s.free).flatMap (Outcome.on gpu)) ∧
      (Dict.keys s'.occupants).Nodup := by
  induction wanted generalizing s with
  | nil => exact ⟨s, rfl, by simp [outcomesOf], by simp [outcomesOf], by simp [outcomesOf], hnodup⟩
  | cons c wanted ih =>
    rw [List.foldlM_cons, outcomesOf, freeNext]
    cases hchosen : choose c.neededGib s.free capacity with
    | none =>
      obtain ⟨s', hs', hplaced, hunplaced, hon, hnodup'⟩ := ih { s with
        unplaced := s.unplaced ++ [⟨c.instance_, c.modelId, noRoomSentence c s.free capacity⟩] }
        hfree hkeys hnodup
      refine ⟨s', ?_, hplaced, ?_, hon, hnodup'⟩
      · rw [placeOne, hchosen]
        dsimp only
        rw [if_neg noRoomSentence_ne]
        exact hs'
      · rw [hunplaced, List.map_append, List.append_assoc]
        rfl
    | some chosen =>
      obtain ⟨-, hne, -⟩ := choose_spec hfree hchosen
      have hknown : ∀ gpu ∈ chosen, gpu ∈ Dict.keys s.free := fun gpu hgpu =>
        ((mem_roomy hfree).mp ((choose_some hchosen).2.subset hgpu)).1
      obtain ⟨occupied, hoccupied, hof, hmore, hstill⟩ :=
        occupy_ok c.instance_ fun gpu hgpu => hkeys gpu (hknown gpu hgpu)
      obtain ⟨s', hs', hplaced, hunplaced, hon, hnodup'⟩ := ih { s with
        free := takeShare (c.neededGib / chosen.length) chosen s.free
        occupants := occupied
        placed := s.placed ++ [⟨c.instance_, c.modelId, chosen⟩] }
        (nodup_takeShare hfree) (fun gpu hgpu => by
          rcases mem_keys_takeShare.mp hgpu with hgpu | hgpu
          · exact hmore gpu (hkeys gpu (hknown gpu hgpu))
          · exact hmore gpu (hkeys gpu hgpu)) (hstill hnodup)
      refine ⟨s', ?_, ?_, hunplaced, fun gpu => ?_, hnodup'⟩
      · obtain ⟨first, rest, rfl⟩ := List.exists_cons_of_ne_nil hne
        rw [placeOne, hchosen]
        dsimp only
        rw [hoccupied]
        exact hs'
      · rw [hplaced, List.append_assoc]
        rfl
      · rw [hon, hof, List.append_assoc]
        rfl

/-! ## Who is there before -/

/-- A name more on each of the GPUs. -/
def addOccupant (name : String) (gpus : List Nat) (occupants : Occupants) : Occupants :=
  gpus.foldl (fun occupants gpu =>
    Dict.set gpu (occupantsOf occupants gpu ++ [name]) occupants) occupants

theorem addOccupant_cons (first : Nat) : addOccupant name (first :: gpus) occupants =
    addOccupant name gpus (Dict.set first (occupantsOf occupants first ++ [name]) occupants) := rfl

theorem occupantsOf_addOccupant : occupantsOf (addOccupant name gpus occupants) gpu =
    occupantsOf occupants gpu ++ List.replicate (gpus.count gpu) name := by
  induction gpus generalizing occupants with
  | nil => simp [addOccupant]
  | cons first gpus ih =>
    rw [addOccupant_cons, ih, occupantsOf_set, List.count_cons]
    by_cases heq : gpu = first
    · subst heq
      rw [if_pos rfl, beq_self_eq_true, if_pos rfl, List.append_assoc, List.singleton_append,
        ← List.replicate_succ]
    · rw [if_neg heq, if_neg (by simpa using Ne.symm heq), Nat.add_zero]

theorem mem_keys_addOccupant :
    gpu ∈ Dict.keys (addOccupant name gpus occupants) ↔ gpu ∈ gpus ∨ gpu ∈ Dict.keys occupants := by
  induction gpus generalizing occupants with
  | nil => simp [addOccupant]
  | cons first gpus ih =>
    rw [addOccupant_cons, ih, Dict.mem_keys_set, List.mem_cons]
    tauto

theorem nodup_addOccupant (h : (Dict.keys occupants).Nodup) :
    (Dict.keys (addOccupant name gpus occupants)).Nodup := by
  induction gpus generalizing occupants with
  | nil => exact h
  | cons first gpus ih => exact ih (Dict.nodup_keys_set h)

/-- Those who are pinned, and the GPUs that are known with them. -/
theorem occupantsAfter_spec (gpuIds : List Nat) (capacity : ℚ) (pinned : Pinned) :
    (∀ gpu, occupantsOf (occupantsAfter gpuIds pinned) gpu = pinnedOn pinned gpu) ∧
      (∀ gpu ∈ Dict.keys (freeAfter gpuIds capacity pinned),
        gpu ∈ Dict.keys (occupantsAfter gpuIds pinned)) ∧
      (Dict.keys (occupantsAfter gpuIds pinned)).Nodup := by
  have hitems : ∀ (items : Pinned) (free : Free) (occupants : Occupants),
      (∀ gpu ∈ Dict.keys free, gpu ∈ Dict.keys occupants) → (Dict.keys occupants).Nodup →
      (∀ gpu, occupantsOf (items.foldl (fun occupants item =>
          addOccupant item.1 item.2.1 occupants) occupants) gpu =
        occupantsOf occupants gpu ++ items.flatMap fun item =>
          List.replicate (item.2.1.count gpu) item.1) ∧
      (∀ gpu ∈ Dict.keys (items.foldl (fun free item =>
          takeShare (item.2.2 / (max item.2.1.length 1 : Nat)) item.2.1 free) free),
        gpu ∈ Dict.keys (items.foldl (fun occupants item =>
          addOccupant item.1 item.2.1 occupants) occupants)) ∧
      (Dict.keys (items.foldl (fun occupants item =>
        addOccupant item.1 item.2.1 occupants) occupants)).Nodup := by
    intro items
    induction items with
    | nil => exact fun free occupants hkeys hnodup => ⟨by simp, hkeys, hnodup⟩
    | cons item items ih =>
      intro free occupants hkeys hnodup
      obtain ⟨hof, hknown, hstill⟩ := ih
        (takeShare (item.2.2 / (max item.2.1.length 1 : Nat)) item.2.1 free)
        (addOccupant item.1 item.2.1 occupants) (fun gpu hgpu => by
          rw [mem_keys_addOccupant]
          exact (mem_keys_takeShare.mp hgpu).imp_right (hkeys gpu)) (nodup_addOccupant hnodup)
      refine ⟨fun gpu => ?_, hknown, hstill⟩
      rw [List.foldl_cons, hof, occupantsOf_addOccupant, List.append_assoc, List.flatMap_cons]
  have hstart : Dict.keys ((gpuIds.dedup.insertionSort (· ≤ ·)).map fun gpu =>
      (gpu, ([] : List String))) = gpuIds.dedup.insertionSort (· ≤ ·) := by
    rw [Dict.keys, List.map_map]
    exact List.map_id _
  have hsorted : (gpuIds.dedup.insertionSort (· ≤ ·)).Nodup :=
    (List.perm_insertionSort _ _).nodup_iff.mpr (List.nodup_dedup _)
  obtain ⟨hof, hknown, hnodup⟩ := hitems (pinned.insertionSort fun a b => a.1 ≤ b.1)
    ((gpuIds.dedup.insertionSort (· ≤ ·)).map fun gpu => (gpu, capacity))
    ((gpuIds.dedup.insertionSort (· ≤ ·)).map fun gpu => (gpu, [])) (by simp [Dict.keys])
    (by rw [hstart]; exact hsorted)
  refine ⟨fun gpu => (hof gpu).trans ?_, hknown, hnodup⟩
  have hnobody : occupantsOf ((gpuIds.dedup.insertionSort (· ≤ ·)).map fun gpu => (gpu, [])) gpu =
      [] := by
    rw [occupantsOf]
    cases hfound : ((gpuIds.dedup.insertionSort (· ≤ ·)).map fun gpu =>
        (gpu, ([] : List String))).lookup gpu with
    | none => rfl
    | some names =>
      obtain ⟨g, -, hg⟩ := List.mem_map.mp (Dict.mem_of_lookup hfound)
      rw [Option.getD_some, ← (Prod.mk.inj hg).2]
  rw [hnobody, List.nil_append, pinnedOn]

/-- The order of the GPUs changes nothing of who is on them. -/
theorem occupantsOf_sorted (h : (Dict.keys occupants).Nodup) :
    occupantsOf (occupants.insertionSort fun a b => a.1 ≤ b.1) gpu = occupantsOf occupants gpu := by
  have hperm := List.perm_insertionSort (fun a b : Nat × List String => a.1 ≤ b.1) occupants
  have hsorted : (Dict.keys (occupants.insertionSort fun a b => a.1 ≤ b.1)).Nodup :=
    ((hperm.map _).nodup_iff).mpr h
  rw [occupantsOf, occupantsOf]
  cases hfound : occupants.lookup gpu with
  | none =>
    have hno : gpu ∉ Dict.keys (occupants.insertionSort fun a b => a.1 ≤ b.1) := by
      intro hin
      rw [Dict.keys, (hperm.map _).mem_iff, ← Dict.keys, ← Dict.lookup_isSome_iff, hfound] at hin
      cases hin
    rw [← Dict.lookup_isSome_iff, Option.not_isSome_iff_eq_none] at hno
    rw [hno]
  | some names =>
    rw [Dict.lookup_eq_of_mem hsorted (hperm.mem_iff.mpr (Dict.mem_of_lookup hfound))]

theorem outcomesOf_each : (outcomesOf capacity wanted free).map (·.1) = wanted := by
  induction wanted generalizing free with
  | nil => rfl
  | cons c wanted ih => rw [outcomesOf, List.map_cons, ih]

/-- **Placement**: every candidate is placed on as many GPUs as it takes or not placed, the
    capacity is kept where those who are pinned keep it, and who is not placed found too
    few GPUs with its share left. -/
theorem placeResult_sound (wanted : List Wanted) (gpuIds : List Nat) (capacity : ℚ)
    (pinned : Pinned) (hcapacity : 0 < capacity) (hpinned : ∀ item ∈ pinned, 0 ≤ item.2.2) :
    ∃ result outcomes, placeResult wanted gpuIds capacity pinned = .ok result ∧
      Reports wanted pinned result outcomes ∧ Sound gpuIds capacity pinned outcomes := by
  obtain ⟨hof, hknown, hoccupants⟩ := occupantsAfter_spec gpuIds capacity pinned
  obtain ⟨s, hs, hplaced, hunplaced, hon, hnodup⟩ := @run_placeOne capacity wanted
    { free := freeAfter gpuIds capacity pinned, occupants := occupantsAfter gpuIds pinned }
    nodup_freeAfter hknown hoccupants
  have hleaves : Leaves gpuIds capacity (pinned.map pinnedTenant)
      (freeAfter gpuIds capacity pinned) := leaves_freeAfter hpinned
  obtain ⟨result, hresult, hsame⟩ : ∃ result, placeResult wanted gpuIds capacity pinned =
      .ok result ∧ result.placed = s.placed ∧ result.unplaced = s.unplaced ∧
        result.occupants = s.occupants.insertionSort fun a b => a.1 ≤ b.1 :=
    ⟨_, by rw [placeResult, hs]; rfl, rfl, rfl, rfl⟩
  obtain ⟨hplaced', hunplaced', hoccupants'⟩ := hsame
  refine ⟨result, outcomesOf capacity wanted (freeAfter gpuIds capacity pinned), hresult,
    ⟨outcomesOf_each, by rw [hplaced', hplaced, List.nil_append],
      by rw [hunplaced', hunplaced, List.map_nil, List.nil_append], fun gpu => ?_⟩,
    ⟨outcomesOf_placed hcapacity hleaves, fun gpu hload => outcomesOf_within hleaves hload,
      fun before c after heq => outcomesOf_unplaced hleaves heq⟩⟩
  rw [hoccupants', occupantsOf_sorted hnodup, hon, hof]

theorem nonempty_coder : "vllm-coder" ≠ "" := by decide

theorem nonempty_qwen : "qwen3-coder" ≠ "" := by decide

theorem nonempty_label : "Qwen3-Coder" ≠ "" := by decide

theorem three_hundred_pos : (0 : ℚ) < 300 := by decide

/-- An instance that takes more than one GPU has. -/
def coder : Wanted where
  instance_ := "vllm-coder"
  modelId := "qwen3-coder"
  kind := .role
  role := some .coder
  neededGib := 300
  label := "Qwen3-Coder"
  instance_ne := nonempty_coder
  modelId_ne := nonempty_qwen
  label_ne := nonempty_label
  needed_pos := three_hundred_pos

/-- Two GPUs for the coder, beside what is pinned. -/
theorem coder_sound : ∃ result outcomes,
    placeResult [coder] [0, 1, 2] 200 [("vllm-triage", ([0], 120))] = .ok result ∧
      Reports [coder] [("vllm-triage", ([0], 120))] result outcomes ∧
      Sound [0, 1, 2] 200 [("vllm-triage", ([0], 120))] outcomes :=
  placeResult_sound [coder] [0, 1, 2] 200 _ (by norm_num) (by simp)

/-- A pinned need below zero makes room on a GPU that is not one of the given ones. -/
theorem coder_outside :
    (placeResult [coder] [0] 400 [("vllm-docs", ([0], 302)), ("vllm-triage", ([7], -400))]).toOption.map
      (fun result => result.placed.map (·.gpuIds)) = some [[7]] ∧ ¬ [7] ⊆ [0] := by
  decide +kernel

end Placement

end Models

end Slas
