/-
  Slas.Validation.Faithful

  What a compiled suite is made of, and how a compilation fails.

  Every item has its block of steps (`blocksOf`): one step, or one for each of its power
  cycles, numbered through the whole plan.  A plan that is returned is the opening, the
  blocks in the order of the items, and the closing (`compileSuite_faithful`); a
  compilation that does not return one is refused in the compiler's own words exactly when
  the times are numbers and the steps have ids to tell them apart (`faithful_iff`).
-/

import Mathlib.Data.List.Perm.Basic
import Slas.Validation.Brackets
import Std.Data.String.ToNat

namespace Slas

section Faithful

variable (B : Builtins) (guardrails : Guardrails) (target : String)

/-! ## The steps of an item -/

/-- The kind of a power cycle. -/
def CompiledItem.kind (compiled : CompiledItem) : String :=
  ((compiled.args.lookup "kind").map B.str).getD "dc"

def CompiledItem.isCycle (compiled : CompiledItem) : Bool := compiled.primitive == "power_cycle"

def cycleId (number : Nat) : String := "cycle-" ++ String.ofList (zeroPad 3 number)

def itemId (number : Nat) : String := "item-" ++ toString number

/-- The step that `add` adds at a place of the plan. -/
def stepAt (n : Nat) (id primitive title : String) (args : List (String × Json)) : Step where
  id
  n
  primitive
  title := String.ofList (title.toList.take 200)
  args := withTarget target args
  risk := ((primitive? primitive).map fun spec => riskOf B.str spec (withTarget target args)).getD .safe

/-- The step of a power cycle, of all the cycles there are. -/
def cycleStep (compiled : CompiledItem) (grandTotal number n : Nat) : Step :=
  stepAt B target n (cycleId number) "power_cycle"
    (B.upper (compiled.kind B) ++ " cycle " ++ toString number ++ " of " ++ toString grandTotal)
    (cycleArgs B guardrails compiled number grandTotal)

/-- The steps of an item, after some cycles, from a place of the plan on. -/
def blockOf (grandTotal done n : Nat) (entry : SuiteItem × CompiledItem) : List Step :=
  if entry.2.isCycle then
    (List.range entry.1.cycles).map fun i =>
      cycleStep B guardrails target entry.2 grandTotal (done + 1 + i) (n + i)
  else [stepAt B target n (itemId entry.1.n) entry.2.primitive entry.1.title entry.2.args]

/-- The steps an entry takes. -/
def stepCount (entry : SuiteItem × CompiledItem) : Nat :=
  if entry.2.isCycle then entry.1.cycles else 1

/-- The steps of the items, item by item. -/
def blocksOf (grandTotal : Nat) : Nat → Nat → List (SuiteItem × CompiledItem) → List (List Step)
  | _, _, [] => []
  | done, n, entry :: entries =>
    blockOf B guardrails target grandTotal done n entry ::
      blocksOf grandTotal (done + cyclesOf entry.1 entry.2) (n + stepCount entry) entries

variable {B guardrails target}

theorem CompiledItem.isCycle_iff {compiled : CompiledItem} :
    compiled.isCycle = true ↔ compiled.primitive = "power_cycle" := by
  simp [CompiledItem.isCycle]

theorem addStep_eq {steps : List Step} {id primitive title : String}
    {args : List (String × Json)} : addStep B target steps id primitive title args =
      steps ++ [stepAt B target (steps.length + 1) id primitive title args] := rfl

theorem length_blockOf {grandTotal done n : Nat} {entry : SuiteItem × CompiledItem} :
    (blockOf B guardrails target grandTotal done n entry).length = stepCount entry := by
  unfold blockOf stepCount
  split <;> simp

theorem addCycles_eq {compiled : CompiledItem} {grandTotal k total : Nat} {steps : List Step} :
    addCycles B guardrails target compiled grandTotal k steps total =
      (steps ++ (List.range k).map fun i =>
        cycleStep B guardrails target compiled grandTotal (total + 1 + i) (steps.length + 1 + i),
        total + k) := by
  induction k generalizing steps total with
  | zero => simp [addCycles]
  | succ k ih =>
    rw [addCycles, ih, List.range_succ_eq_map, List.map_cons, List.map_map, addStep_eq]
    refine Prod.ext ?_ (by simp only; omega)
    simp only [List.append_assoc, List.singleton_append, List.length_append, List.length_singleton,
      Function.comp_def, Nat.succ_eq_add_one, Nat.add_zero]
    congr 2
    refine List.map_congr_left fun i _ => ?_
    congr 1 <;> omega

theorem addItem_eq {grandTotal total : Nat} {steps : List Step} {item : SuiteItem}
    {compiled : CompiledItem} :
    addItem B guardrails target grandTotal item compiled steps total =
      (steps ++ blockOf B guardrails target grandTotal total (steps.length + 1) (item, compiled),
        total + cyclesOf item compiled) := by
  unfold addItem blockOf cyclesOf
  by_cases hcycle : compiled.primitive = "power_cycle"
  · simp only [if_pos hcycle, CompiledItem.isCycle_iff.mpr hcycle, if_true, addCycles_eq]
  · have hflag : compiled.isCycle = false := by
      rw [← Bool.not_eq_true, CompiledItem.isCycle_iff]
      exact hcycle
    simp only [if_neg hcycle, hflag, Bool.false_eq_true, if_false, Nat.add_zero, addStep_eq, itemId]

/-- The cycles of all the items. -/
def cyclesIn (entries : List (SuiteItem × CompiledItem)) : Nat :=
  (entries.map fun entry => cyclesOf entry.1 entry.2).sum

/-- The steps of all the items. -/
def stepsIn (entries : List (SuiteItem × CompiledItem)) : Nat := (entries.map stepCount).sum

theorem length_blocksOf {grandTotal done n : Nat} {entries : List (SuiteItem × CompiledItem)} :
    (blocksOf B guardrails target grandTotal done n entries).flatten.length = stepsIn entries := by
  induction entries generalizing done n with
  | nil => rfl
  | cons entry entries ih => simp [blocksOf, stepsIn, length_blockOf, ih]

/-- The second pass adds the blocks of the items, or finds that they are too many. -/
theorem unroll_eq {grandTotal total : Nat} {steps : List Step}
    {entries : List (SuiteItem × CompiledItem)} (hsteps : steps.length ≤ MAX_STEPS - 2) :
    unroll B guardrails target grandTotal entries steps total =
      if steps.length + stepsIn entries ≤ MAX_STEPS - 2 then
        .ok (steps ++ (blocksOf B guardrails target grandTotal total (steps.length + 1)
          entries).flatten, total + cyclesIn entries)
      else .error (.refused tooManySteps) := by
  induction entries generalizing steps total with
  | nil => simp [unroll, stepsIn, blocksOf, cyclesIn, hsteps]
  | cons entry entries ih =>
    obtain ⟨item, compiled⟩ := entry
    have hlength : (steps ++ blockOf B guardrails target grandTotal total (steps.length + 1)
        (item, compiled)).length = steps.length + stepCount (item, compiled) := by
      rw [List.length_append, length_blockOf]
    have hsum : stepsIn ((item, compiled) :: entries) =
        stepCount (item, compiled) + stepsIn entries := by simp [stepsIn]
    have hcycles : cyclesIn ((item, compiled) :: entries) =
        cyclesOf item compiled + cyclesIn entries := by simp [cyclesIn]
    rw [unroll, addItem_eq]
    dsimp only
    rw [hlength, hsum, hcycles]
    by_cases hfits : steps.length + stepCount (item, compiled) ≤ MAX_STEPS - 2
    · rw [if_neg (Nat.not_lt.mpr hfits), ih (by rwa [hlength]), hlength, ← Nat.add_assoc]
      simp only [blocksOf, List.flatten_cons, List.append_assoc, Nat.add_assoc, Nat.add_left_comm,
        Nat.add_comm]
    · rw [if_pos (Nat.lt_of_not_le hfits), if_neg (by omega)]

/-! ## The power cycles among them -/

def Step.isCycle (step : Step) : Bool := step.primitive == "power_cycle"

theorem isCycle_of_mem_blockOf {grandTotal done n : Nat} {entry : SuiteItem × CompiledItem} :
    ∀ step ∈ blockOf B guardrails target grandTotal done n entry,
      step.isCycle = entry.2.isCycle := by
  intro step hstep
  unfold blockOf at hstep
  split at hstep
  · rename_i hcycle
    obtain ⟨i, -, rfl⟩ := List.mem_map.mp hstep
    rw [hcycle]
    rfl
  · rw [List.mem_singleton.mp hstep]
    rfl

/-- The cycles of a block are all of it, or none. -/
theorem filter_blockOf {grandTotal done n : Nat} {entry : SuiteItem × CompiledItem} :
    (blockOf B guardrails target grandTotal done n entry).filter Step.isCycle =
      if entry.2.isCycle then blockOf B guardrails target grandTotal done n entry else [] := by
  split
  · rename_i hcycle
    exact List.filter_eq_self.mpr fun step hstep => by
      rw [isCycle_of_mem_blockOf step hstep, hcycle]
  · rename_i hcycle
    exact List.filter_eq_nil_iff.mpr fun step hstep => by
      rwa [isCycle_of_mem_blockOf step hstep]

theorem filter_not_blockOf {grandTotal done n : Nat} {entry : SuiteItem × CompiledItem} :
    (blockOf B guardrails target grandTotal done n entry).filter (fun step => !step.isCycle) =
      if entry.2.isCycle then [] else blockOf B guardrails target grandTotal done n entry := by
  split
  · rename_i hcycle
    exact List.filter_eq_nil_iff.mpr fun step hstep => by
      rw [isCycle_of_mem_blockOf step hstep, hcycle]
      decide
  · rename_i hcycle
    exact List.filter_eq_self.mpr fun step hstep => by
      rw [isCycle_of_mem_blockOf step hstep]
      simpa using hcycle

/-- What is read of the cycles of a block, by their numbers. -/
theorem map_blockOf {β : Type} {f : Step → β} {g : Nat → β} {grandTotal done n : Nat}
    {entry : SuiteItem × CompiledItem} (hcycle : entry.2.isCycle = true)
    (hf : ∀ number n, f (cycleStep B guardrails target entry.2 grandTotal number n) = g number) :
    (blockOf B guardrails target grandTotal done n entry).map f =
      (List.range' (done + 1) (cyclesOf entry.1 entry.2)).map g := by
  have hcount : cyclesOf entry.1 entry.2 = entry.1.cycles := by
    rw [cyclesOf, if_pos (CompiledItem.isCycle_iff.mp hcycle)]
  rw [blockOf, if_pos hcycle, hcount, List.map_map, List.range'_eq_map_range, List.map_map]
  exact List.map_congr_left fun i _ => hf _ _

/-- What is read of the power cycles, by their numbers, is read of the numbers in order. -/
theorem map_cycles {β : Type} {f : Step → β} {g : Nat → β} {grandTotal done n : Nat}
    {entries : List (SuiteItem × CompiledItem)}
    (hf : ∀ entry ∈ entries, ∀ number n,
      f (cycleStep B guardrails target entry.2 grandTotal number n) = g number) :
    ((blocksOf B guardrails target grandTotal done n entries).flatten.filter Step.isCycle).map f =
      (List.range' (done + 1) (cyclesIn entries)).map g := by
  induction entries generalizing done n with
  | nil => rfl
  | cons entry entries ih =>
    have hrest : ((blocksOf B guardrails target grandTotal (done + cyclesOf entry.1 entry.2)
        (n + stepCount entry) entries).flatten.filter Step.isCycle).map f =
          (List.range' (done + cyclesOf entry.1 entry.2 + 1) (cyclesIn entries)).map g :=
      ih fun e he => hf e (List.mem_cons_of_mem _ he)
    have hsum : cyclesIn (entry :: entries) = cyclesOf entry.1 entry.2 + cyclesIn entries := by
      simp [cyclesIn]
    rw [blocksOf, List.flatten_cons, List.filter_append, List.map_append, hrest, hsum,
      filter_blockOf]
    by_cases hcycle : entry.2.isCycle = true
    · rw [if_pos hcycle, map_blockOf hcycle (hf entry List.mem_cons_self), ← List.map_append,
        Nat.add_right_comm, List.range'_append_1]
    · have hnone : cyclesOf entry.1 entry.2 = 0 := by
        rw [cyclesOf, if_neg fun h => hcycle (CompiledItem.isCycle_iff.mpr h)]
      rw [if_neg hcycle, hnone]
      simp

/-- The other steps are those of the items that are no power cycles. -/
theorem ids_others {grandTotal done n : Nat} {entries : List (SuiteItem × CompiledItem)} :
    ((blocksOf B guardrails target grandTotal done n entries).flatten.filter
        fun step => !step.isCycle).map (·.id) =
      ((entries.filter fun entry => !entry.2.isCycle).map fun entry => itemId entry.1.n) := by
  induction entries generalizing done n with
  | nil => rfl
  | cons entry entries ih =>
    rw [blocksOf, List.flatten_cons, List.filter_append, List.map_append, ih, filter_not_blockOf,
      List.filter_cons]
    by_cases hcycle : entry.2.isCycle = true
    · simp [hcycle]
    · simp [hcycle, blockOf, stepAt]

/-! ## Ids and numbers -/

theorem cycleId_injective : Function.Injective cycleId := by
  intro m n h
  have hchars := congrArg String.toList h
  simp only [cycleId, String.toList_append, String.toList_ofList,
    List.append_cancel_left_eq] at hchars
  exact zeroPad_injective 3 hchars

theorem itemId_injective : Function.Injective itemId := by
  intro m n h
  have hchars := congrArg String.toList h
  simp only [itemId, String.toList_append, List.append_cancel_left_eq] at hchars
  exact Nat.repr_injective (String.toList_inj.mp hchars)

/-- An id that begins with a word. -/
theorem take_cycleId (number : Nat) : (cycleId number).toList.take 2 = ['c', 'y'] := by
  rw [cycleId, String.toList_append, List.take_append_of_le_length (by decide)]
  decide

theorem take_itemId (number : Nat) : (itemId number).toList.take 2 = ['i', 't'] := by
  rw [itemId, String.toList_append, List.take_append_of_le_length (by decide)]
  decide

/-- The numbers of the items that are no power cycles. -/
def numbersOf (entries : List (SuiteItem × CompiledItem)) : List Nat :=
  (entries.filter fun entry => !entry.2.isCycle).map fun entry => entry.1.n

/-- The ids of the blocks are distinct exactly when the numbers are. -/
theorem ids_blocks_nodup_iff {grandTotal n : Nat} {entries : List (SuiteItem × CompiledItem)} :
    ((blocksOf B guardrails target grandTotal 0 n entries).flatten.map (·.id)).Nodup ↔
      (numbersOf entries).Nodup := by
  have hperm := ((List.filter_append_perm Step.isCycle
    (blocksOf B guardrails target grandTotal 0 n entries).flatten).map (·.id)).nodup_iff
  have hcycles : ((blocksOf B guardrails target grandTotal 0 n entries).flatten.filter
      Step.isCycle).map (·.id) = (List.range' (0 + 1) (cyclesIn entries)).map cycleId :=
    map_cycles fun _ _ _ _ => rfl
  have hnodup : ((List.range' (0 + 1) (cyclesIn entries)).map cycleId).Nodup :=
    (List.nodup_range').map cycleId_injective
  rw [← hperm, List.map_append, hcycles, ids_others, List.nodup_append]
  have hothers : ((entries.filter fun entry => !entry.2.isCycle).map fun entry =>
      itemId entry.1.n) = (numbersOf entries).map itemId := by
    rw [numbersOf, List.map_map]
    rfl
  rw [hothers]
  constructor
  · exact fun h => h.2.1.of_map
  · refine fun h => ⟨hnodup, h.map itemId_injective, fun a ha b hb hab => ?_⟩
    obtain ⟨i, -, rfl⟩ := List.mem_map.mp ha
    obtain ⟨j, -, rfl⟩ := List.mem_map.mp hb
    have hword := take_cycleId i
    rw [hab, take_itemId j] at hword
    revert hword
    decide

theorem numbers_blockOf {grandTotal done n : Nat} {entry : SuiteItem × CompiledItem} :
    (blockOf B guardrails target grandTotal done n entry).map (·.n) =
      List.range' n (stepCount entry) := by
  unfold blockOf stepCount
  split
  · rw [List.map_map, List.range'_eq_map_range]
    exact List.map_congr_left fun i _ => rfl
  · rfl

theorem numbers_blocksOf {grandTotal done n : Nat} {entries : List (SuiteItem × CompiledItem)} :
    (blocksOf B guardrails target grandTotal done n entries).flatten.map (·.n) =
      List.range' n (stepsIn entries) := by
  induction entries generalizing done n with
  | nil => rfl
  | cons entry entries ih =>
    have hsum : stepsIn (entry :: entries) = stepCount entry + stepsIn entries := by simp [stepsIn]
    rw [blocksOf, List.flatten_cons, List.map_append, numbers_blockOf, ih, hsum,
      List.range'_append_1]

/-- The whole plan: its opening, the blocks and its closing. -/
def stepsOfSuite (B : Builtins) (guardrails : Guardrails) (target : String)
    (entries : List (SuiteItem × CompiledItem)) : List Step :=
  closing B target
    (opening B target ++ (blocksOf B guardrails target (cyclesIn entries) 0 4 entries).flatten)

theorem stepsOfSuite_eq {entries : List (SuiteItem × CompiledItem)} :
    stepsOfSuite B guardrails target entries =
      opening B target ++ (blocksOf B guardrails target (cyclesIn entries) 0 4 entries).flatten ++
        [stepAt B target (stepsIn entries + 4) "collect" "collect_logs"
            "Collect console, syslog and SEL onto the ticket" [],
          stepAt B target (stepsIn entries + 5) "release" "release_target"
            ("Release " ++ target) []] := by
  have hlength : (opening B target).length = 3 := rfl
  rw [stepsOfSuite, closing, addStep_eq, addStep_eq]
  simp only [List.length_append, length_blocksOf, hlength, List.length_singleton,
    List.append_assoc, List.singleton_append]
  rw [show 3 + stepsIn entries + 1 = stepsIn entries + 4 by omega,
    show 3 + (stepsIn entries + 1) + 1 = stepsIn entries + 5 by omega]

theorem length_stepsOfSuite {entries : List (SuiteItem × CompiledItem)} :
    (stepsOfSuite B guardrails target entries).length = 3 + stepsIn entries + 2 := by
  have hlength : (opening B target).length = 3 := rfl
  rw [stepsOfSuite_eq, List.length_append, List.length_append, length_blocksOf, hlength]
  rfl

theorem ids_nodup_iff {entries : List (SuiteItem × CompiledItem)} :
    ((stepsOfSuite B guardrails target entries).map (·.id)).Nodup ↔ (numbersOf entries).Nodup := by
  have hblocks : ((blocksOf B guardrails target (cyclesIn entries) 0 4 entries).flatten.map
      (·.id)).Nodup ↔ (numbersOf entries).Nodup := ids_blocks_nodup_iff
  have hmap : (stepsOfSuite B guardrails target entries).map (·.id) =
      ["lease", "console", "baseline"] ++
        (blocksOf B guardrails target (cyclesIn entries) 0 4 entries).flatten.map (·.id) ++
          ["collect", "release"] := by
    rw [stepsOfSuite_eq, List.map_append, List.map_append]
    rfl
  rw [hmap, ← hblocks]
  have hwords : ∀ id ∈ (blocksOf B guardrails target (cyclesIn entries) 0 4 entries).flatten.map
      (·.id), id.toList.take 2 = ['c', 'y'] ∨ id.toList.take 2 = ['i', 't'] := by
    intro id hid
    obtain ⟨step, hstep, rfl⟩ := List.mem_map.mp hid
    by_cases hcycle : step.isCycle = true
    · have hmem : step.id ∈ ((blocksOf B guardrails target (cyclesIn entries) 0 4
          entries).flatten.filter Step.isCycle).map (·.id) :=
        List.mem_map_of_mem (List.mem_filter.mpr ⟨hstep, hcycle⟩)
      rw [map_cycles (g := cycleId) fun _ _ _ _ => rfl] at hmem
      obtain ⟨number, -, heq⟩ := List.mem_map.mp hmem
      exact .inl (by rw [← heq, take_cycleId])
    · have hmem : step.id ∈ ((blocksOf B guardrails target (cyclesIn entries) 0 4
          entries).flatten.filter fun step => !step.isCycle).map (·.id) :=
        List.mem_map_of_mem (List.mem_filter.mpr ⟨hstep, by simpa using hcycle⟩)
      rw [ids_others] at hmem
      obtain ⟨entry, -, heq⟩ := List.mem_map.mp hmem
      exact .inr (by rw [← heq, take_itemId])
  have hothers : ∀ id ∈ (blocksOf B guardrails target (cyclesIn entries) 0 4 entries).flatten.map
      (·.id), id ∉ ["lease", "console", "baseline", "collect", "release"] := by
    intro id hid hfixed
    have hword := hwords id hid
    simp only [List.mem_cons, List.not_mem_nil, or_false] at hfixed
    rcases hfixed with rfl | rfl | rfl | rfl | rfl <;> revert hword <;> decide
  generalize (blocksOf B guardrails target (cyclesIn entries) 0 4 entries).flatten.map (·.id) = ids
    at hothers
  simp only [List.mem_cons, List.not_mem_nil, or_false, not_or] at hothers
  have hfront : (["lease", "console", "baseline"] : List String).Nodup := by decide
  have hback : (["collect", "release"] : List String).Nodup := by decide
  rw [List.nodup_append, List.nodup_append]
  constructor
  · exact fun h => h.1.2.1
  · refine fun h => ⟨⟨hfront, h, fun a ha b hb hab => ?_⟩, hback, fun a ha b hb hab => ?_⟩
    · subst hab
      obtain ⟨h1, h2, h3, -, -⟩ := hothers a hb
      simp [h1, h2, h3] at ha
    · subst hab
      rcases List.mem_append.mp ha with hfixed | hblock
      · simp only [List.mem_cons, List.not_mem_nil, or_false] at hfixed hb
        rcases hfixed with rfl | rfl | rfl <;> revert hb <;> decide
      · obtain ⟨-, -, -, h4, h5⟩ := hothers a hblock
        simp [h4, h5] at hb

theorem numbers_eq {entries : List (SuiteItem × CompiledItem)} :
    (stepsOfSuite B guardrails target entries).map (·.n) =
      List.range' 1 (stepsOfSuite B guardrails target entries).length := by
  have hmap : (stepsOfSuite B guardrails target entries).map (·.n) =
      List.range' 1 3 ++ List.range' (1 + 3) (stepsIn entries) ++
        [stepsIn entries + 4, stepsIn entries + 5] := by
    rw [stepsOfSuite_eq, List.map_append, List.map_append, numbers_blocksOf]
    rfl
  have hclosing : [stepsIn entries + 4, stepsIn entries + 5] =
      List.range' (1 + (3 + stepsIn entries)) 2 := by
    simp only [List.range'_succ, List.range'_zero, List.cons.injEq, and_true]
    omega
  rw [hmap, hclosing, length_stepsOfSuite, List.range'_append_1, List.range'_append_1]

/-! ## The first pass -/

variable {compiler : Option Compiler} {items : List SuiteItem} {item : SuiteItem}
  {compiled : CompiledItem} {place total total' : Nat}
  {entries : List (SuiteItem × CompiledItem)}

/-- The item is one the table knows, and approved if it is destructive. -/
structure Allowed (B : Builtins) (entry : SuiteItem × CompiledItem) : Prop where
  known : (primitive? entry.2.primitive).isSome = true
  approved : ∀ spec kind, primitive? entry.2.primitive = some spec →
    approvalKind B.str spec entry.2.args = some kind → entry.1.approved = true

theorem checkItem_ok (h : checkItem B guardrails item compiled total = .ok ()) :
    Allowed B (item, compiled) ∧ (compiled.primitive = "power_cycle" →
      total ≤ guardrails.maxCyclesPerRun) := by
  unfold checkItem at h
  split at h
  · cases h
  · rename_i spec hspec
    dsimp only at h
    split at h
    · cases h
    · split at h
      · cases h
      · rename_i hkind
        split at h
        · cases h
        · rename_i hcap
          refine ⟨⟨by simp [hspec], fun spec' kind hspec' hkind' => ?_⟩, fun hcycle => ?_⟩
          · obtain rfl := Option.some.inj (hspec.symm.trans hspec')
            cases happroved : item.approved with
            | true => rfl
            | false => exact absurd happroved (hkind kind hkind')
          · exact Nat.le_of_not_lt fun hmore => hcap ⟨hcycle, hmore⟩

/-- What the first pass has checked, and the cycles it has counted. -/
theorem compileItems_checked
    (h : compileItems B compiler guardrails items place total = .ok (entries, total')) :
    total' = total + cyclesIn entries ∧
      (total ≤ guardrails.maxCyclesPerRun → total' ≤ guardrails.maxCyclesPerRun) ∧
      ∀ entry ∈ entries, Allowed B entry := by
  induction items generalizing place total entries with
  | nil =>
    obtain ⟨rfl, rfl⟩ := Prod.mk.inj (Except.ok.inj h)
    exact ⟨rfl, fun h => h, by simp⟩
  | cons item items ih =>
    rw [compileItems] at h
    rcases hitem : compileItem B compiler place item with e | _ | compiled
    · rw [hitem] at h
      cases h
    · rw [hitem] at h
      cases h
    · rw [hitem] at h
      rcases hcheck : checkItem B guardrails item compiled (total + cyclesOf item compiled)
        with e | ok
      · simp only [bind, Except.bind, hcheck] at h
        cases h
      · rcases hrest : compileItems B compiler guardrails items (place + 1)
          (total + cyclesOf item compiled) with e | ⟨rest, total''⟩
        · simp only [bind, Except.bind, hcheck, hrest] at h
          cases h
        · simp only [bind, Except.bind, hcheck, hrest] at h
          obtain ⟨rfl, rfl⟩ := Prod.mk.inj (Except.ok.inj h)
          obtain ⟨hallowed, hcap⟩ := checkItem_ok hcheck
          obtain ⟨htotal, hlimit, hrestAllowed⟩ := ih hrest
          refine ⟨?_, fun hle => hlimit ?_, List.forall_mem_cons.mpr ⟨hallowed, hrestAllowed⟩⟩
          · rw [htotal]
            simp [cyclesIn, Nat.add_assoc]
          · by_cases hcycle : compiled.primitive = "power_cycle"
            · exact hcap hcycle
            · rwa [cyclesOf, if_neg hcycle, Nat.add_zero]

/-! ## How a compilation fails -/

/-- A result, or the compiler's own error. -/
def CompileError.OwnWords {α : Type} : Except CompileError α → Prop
  | .error (.raised _) => False
  | _ => True

open CompileError (OwnWords)

theorem CompileError.OwnWords.of_error {α β : Type} {failure : CompileError}
    (h : OwnWords (.error failure : Except CompileError α)) :
    OwnWords (.error failure : Except CompileError β) := by
  cases failure with
  | refused message => trivial
  | raised e => exact h

/-- The time that the table reads from the parameters of an item is a number. -/
def Readable (B : Builtins) (item : SuiteItem) : Prop :=
  match RULES.find? fun rule => B.search rule.pattern (itemText item) with
  | some rule => rule.primitive = "power_cycle" → ∀ settle, item.params.lookup "settle_s" =
      some settle → ∃ s, B.int (.str settle) = .ok s
  | none =>
    (∃ word ∈ TOOL_WORDS, contains word.1 (B.lower (itemText item)) = true) →
      ∀ duration, item.params.lookup "duration_s" = some duration → duration ≠ "" →
        ∃ d, B.int (.str duration) = .ok d

theorem map_ok_iff {ε α β : Type} {f : α → β} {x : Except ε α} :
    (∃ y, x.map f = .ok y) ↔ ∃ y, x = .ok y := by
  cases x with
  | error e => exact iff_of_false (fun ⟨_, h⟩ => by cases h) fun ⟨_, h⟩ => by cases h
  | ok y => exact iff_of_true ⟨_, rfl⟩ ⟨_, rfl⟩

theorem settleArg_ok_iff : (∃ args, settleArg B item = .ok args) ↔
    ∀ settle, item.params.lookup "settle_s" = some settle → ∃ s, B.int (.str settle) = .ok s := by
  unfold settleArg
  cases item.params.lookup "settle_s" with
  | none => simp
  | some settle => simp [map_ok_iff]

theorem durationArg_ok_iff {key : String} : (∃ args, durationArg B item key = .ok args) ↔
    ∀ duration, item.params.lookup "duration_s" = some duration → duration ≠ "" →
      ∃ d, B.int (.str duration) = .ok d := by
  unfold durationArg
  cases item.params.lookup "duration_s" with
  | none => simp
  | some duration =>
    by_cases hempty : duration = ""
    · simp [hempty]
    · simp [hempty, map_ok_iff]

/-- The table answers, or says that it does not know, exactly when the time is a number. -/
theorem mapAction_ok_iff : (∃ answer, mapAction B item = .ok answer) ↔ Readable B item := by
  unfold mapAction Readable
  cases RULES.find? fun rule => B.search rule.pattern (itemText item) with
  | some rule =>
    dsimp only
    rw [map_ok_iff]
    unfold ruleArgs
    by_cases hcycle : rule.primitive = "power_cycle"
    · rw [if_pos hcycle, settleArg_ok_iff, forall_prop_of_true hcycle]
    · rw [if_neg hcycle]
      refine iff_of_true ?_ fun h => absurd h hcycle
      split_ifs <;> exact ⟨_, rfl⟩
  | none =>
    dsimp only
    cases hword : TOOL_WORDS.find? fun word => contains word.1 (B.lower (itemText item)) with
    | none =>
      refine iff_of_true ⟨_, rfl⟩ ?_
      rintro ⟨word, hmem, hcontains⟩
      exact absurd hcontains (List.find?_eq_none.mp hword word hmem)
    | some word =>
      have hexists : ∃ word ∈ TOOL_WORDS, contains word.1 (B.lower (itemText item)) = true :=
        ⟨word, List.mem_of_find?_eq_some hword, by simpa using List.find?_some hword⟩
      dsimp only
      rw [map_ok_iff, toolItem, map_ok_iff, durationArg_ok_iff, forall_prop_of_true hexists]

theorem compileItem_own_iff : OwnWords (compileItem B compiler place item) ↔ Readable B item := by
  rw [← mapAction_ok_iff, compileItem]
  rcases mapAction B item with e | _ | compiled
  · refine iff_of_false (fun h => h) ?_
    rintro ⟨_, h⟩
    cases h
  · exact iff_of_true trivial ⟨_, rfl⟩
  · exact iff_of_true trivial ⟨_, rfl⟩

theorem checkItem_own : OwnWords (checkItem B guardrails item compiled total) := by
  unfold checkItem
  split
  · trivial
  · dsimp only
    split
    · trivial
    · split
      · trivial
      · split <;> trivial

/-- Every item that the first pass comes to is readable. -/
def ItemsReadable (B : Builtins) (compiler : Option Compiler) (guardrails : Guardrails)
    (items : List SuiteItem) (place total : Nat) : Prop :=
  ∀ before item after, items = before ++ item :: after →
    (∃ passed, compileItems B compiler guardrails before place total = .ok passed) →
      Readable B item

/-- An item that passes, and what comes after it. -/
theorem compileItems_cons_ok
    (hitem : compileItem B compiler place item = .ok (some compiled))
    (hcheck : checkItem B guardrails item compiled (total + cyclesOf item compiled) = .ok ()) :
    compileItems B compiler guardrails (item :: items) place total =
      (compileItems B compiler guardrails items (place + 1) (total + cyclesOf item compiled)).map
        fun found => ((item, compiled) :: found.1, found.2) := by
  rw [compileItems]
  simp only [bind, Except.bind, hitem, hcheck]
  cases compileItems B compiler guardrails items (place + 1) (total + cyclesOf item compiled) <;> rfl

/-- An item that does not pass is where the pass ends. -/
theorem compileItems_cons_error (h : ¬ ∃ compiled,
      compileItem B compiler place item = .ok (some compiled) ∧
        checkItem B guardrails item compiled (total + cyclesOf item compiled) = .ok ()) :
    ∃ failure, (∀ items, compileItems B compiler guardrails (item :: items) place total =
        .error failure) ∧
      (OwnWords (.error failure : Except CompileError Unit) ↔ Readable B item) := by
  have hown : OwnWords (compileItem B compiler place item) ↔ Readable B item := compileItem_own_iff
  rcases hitem : compileItem B compiler place item with e | _ | compiled
  · rw [hitem] at hown
    refine ⟨e, fun items => by simp [compileItems, hitem, bind, Except.bind], ?_⟩
    exact ⟨fun h => hown.mp h.of_error, fun h => (hown.mpr h).of_error⟩
  · rw [hitem] at hown
    exact ⟨.refused (unknownAction B item item.action),
      fun items => by simp [compileItems, hitem, bind, Except.bind],
      iff_of_true trivial (hown.mp trivial)⟩
  · rw [hitem] at hown
    have hcheckOwn : OwnWords
        (checkItem B guardrails item compiled (total + cyclesOf item compiled)) := checkItem_own
    cases hcheck : checkItem B guardrails item compiled (total + cyclesOf item compiled) with
    | error e =>
      rw [hcheck] at hcheckOwn
      exact ⟨e, fun items => by simp [compileItems, hitem, hcheck, bind, Except.bind],
        iff_of_true hcheckOwn (hown.mp trivial)⟩
    | ok passed => exact absurd ⟨compiled, hitem, hcheck⟩ h

/-- The first pass ends in its own words exactly when every item it comes to is readable. -/
theorem compileItems_own_iff :
    OwnWords (compileItems B compiler guardrails items place total) ↔
      ItemsReadable B compiler guardrails items place total := by
  induction items generalizing place total with
  | nil => exact iff_of_true trivial fun before item after h => by simp at h
  | cons item items ih =>
    by_cases hpass : ∃ compiled, compileItem B compiler place item = .ok (some compiled) ∧
        checkItem B guardrails item compiled (total + cyclesOf item compiled) = .ok ()
    · obtain ⟨compiled, hitem, hcheck⟩ := hpass
      have hown : OwnWords (compileItem B compiler place item) ↔ Readable B item :=
        compileItem_own_iff
      have hreadable : Readable B item := hown.mp (by rw [hitem]; trivial)
      have hmap : ∀ result : Except CompileError (List (SuiteItem × CompiledItem) × Nat),
          OwnWords (result.map fun found => ((item, compiled) :: found.1, found.2)) ↔
            OwnWords result := by
        intro result
        cases result with
        | error e => exact ⟨OwnWords.of_error, OwnWords.of_error⟩
        | ok found => exact Iff.rfl
      rw [compileItems_cons_ok hitem hcheck, hmap, ih]
      constructor
      · intro h before item' after heq hbefore
        cases before with
        | nil =>
          obtain ⟨rfl, -⟩ := List.cons.inj heq
          exact hreadable
        | cons b before =>
          obtain ⟨rfl, hitems⟩ := List.cons.inj heq
          rw [compileItems_cons_ok hitem hcheck, map_ok_iff] at hbefore
          exact h before item' after hitems hbefore
      · intro h before item' after heq hbefore
        refine h (item :: before) item' after (by rw [heq]; rfl) ?_
        rw [compileItems_cons_ok hitem hcheck, map_ok_iff]
        exact hbefore
    · obtain ⟨failure, hfails, hown⟩ := compileItems_cons_error hpass
      rw [hfails]
      constructor
      · intro h before item' after heq hbefore
        cases before with
        | nil =>
          obtain ⟨rfl, -⟩ := List.cons.inj heq
          exact hown.mp h.of_error
        | cons b before =>
          obtain ⟨rfl, -⟩ := List.cons.inj heq
          obtain ⟨passed, hpassed⟩ := hbefore
          rw [hfails] at hpassed
          cases hpassed
      · intro h
        exact (hown.mpr (h [] item items rfl ⟨_, rfl⟩)).of_error

/-! ## Faithful plans -/

/-- The block of an item: a power cycle is as many steps as it asks for, all of its kind;
    any other item is one step.  A destructive one was approved, and is marked. -/
structure IsBlock (B : Builtins) (target : String) (entry : SuiteItem × CompiledItem)
    (block : List Step) : Prop where
  cycles : entry.2.primitive = "power_cycle" → block.length = entry.1.cycles ∧
    ∀ step ∈ block, step.primitive = "power_cycle" ∧
      step.args.lookup "kind" = some (.str (entry.2.kind B))
  single : entry.2.primitive ≠ "power_cycle" → ∃ step, block = [step] ∧
    step.id = itemId entry.1.n ∧ step.primitive = entry.2.primitive ∧
    step.title = entry.1.title ∧ step.args = withTarget target entry.2.args
  destructive : ∀ spec kind, primitive? entry.2.primitive = some spec →
    approvalKind B.str spec entry.2.args = some kind →
      entry.1.approved = true ∧ ∀ step ∈ block, step.risk = .destructive

/-- A faithful plan of a suite: every item is compiled where it stands, and the steps of
    the items stand between the opening and the closing ones, in their order. -/
structure FaithfulPlan (B : Builtins) (compiler : Option Compiler) (guardrails : Guardrails)
    (target : String) (suite : Suite) (entries : List (SuiteItem × CompiledItem))
    (blocks : List (List Step)) (plan : Plan) : Prop where
  items : entries.map (·.1) = suite.items
  compiled : ∀ i item compiled, entries[i]? = some (item, compiled) →
    compileItem B compiler i item = .ok (some compiled)
  order : plan.steps.map (·.primitive) = ["lease_target", "console_on", "baseline_snapshot"] ++
    blocks.flatten.map (·.primitive) ++ ["collect_logs", "release_target"]
  inner : (plan.steps.drop 3).take blocks.flatten.length = blocks.flatten
  block : List.Forall₂ (IsBlock B target) entries blocks
  unique : (plan.steps.map (·.id)).Nodup
  numbered : plan.steps.map (·.n) = List.range' 1 plan.steps.length
  cycles : (plan.steps.filter Step.isCycle).map (·.args.lookup "cycle") =
    (List.range' 1 (cyclesIn entries)).map fun k : Nat => some (intJson k)
  capped : cyclesIn entries ≤ guardrails.maxCyclesPerRun
  settled : ∀ step ∈ plan.steps, step.isCycle = true → ∃ (kind : String) (settle : Int),
    step.args.lookup "kind" = some (.str kind) ∧
      step.args.lookup "settle_s" = some (intJson settle) ∧ guardrails.settleFloor kind ≤ settle

theorem lookup_withTarget_of_ne {args : List (String × Json)} {key : String} (h : key ≠ "target") :
    (withTarget target args).lookup key = args.lookup key := by
  have hkey : (key == "target") = false := by simpa using h
  rw [withTarget, List.lookup_cons, hkey]
  dsimp only
  induction args with
  | nil => rfl
  | cons arg args ih =>
    rw [List.filter_cons]
    by_cases harg : arg.1 = "target"
    · rw [if_neg (by simpa using harg), ih, List.lookup_cons, harg, hkey]
    · rw [if_pos (by simpa using harg), List.lookup_cons, List.lookup_cons, ih]

theorem lookup_cycleStep {grandTotal number n : Nat} :
    (cycleStep B guardrails target compiled grandTotal number n).args.lookup "cycle" =
        some (intJson number) ∧
      (cycleStep B guardrails target compiled grandTotal number n).args.lookup "kind" =
        some (.str (compiled.kind B)) ∧
      ∃ settle : Int, (cycleStep B guardrails target compiled grandTotal number n).args.lookup
        "settle_s" = some (intJson settle) ∧
          guardrails.settleFloor (compiled.kind B) ≤ settle := by
  simp only [cycleStep, stepAt, lookup_withTarget_of_ne (show "cycle" ≠ "target" by decide),
    lookup_withTarget_of_ne (show "kind" ≠ "target" by decide),
    lookup_withTarget_of_ne (show "settle_s" ≠ "target" by decide)]
  exact ⟨rfl, rfl, _, rfl, le_max_right _ _⟩

/-- A destructive item makes destructive steps. -/
theorem risk_stepAt {n : Nat} {id title kind : String} {args : List (String × Json)}
    {spec : PlanPrimitive} (hspec : primitive? compiled.primitive = some spec)
    (hkind : approvalKind B.str spec compiled.args = some kind)
    (hargs : compiled.primitive = "power_cycle" →
      args.lookup "kind" = some (.str (compiled.kind B))) (hstr : ∀ s, B.str (.str s) = s) :
    (stepAt B target n id compiled.primitive title args).risk = .destructive := by
  have hname := primitive?_name hspec
  simp only [stepAt, hspec, Option.map_some, Option.getD_some]
  unfold approvalKind at hkind
  split at hkind
  · rename_i hac
    obtain ⟨hcycle, hac⟩ := hac
    rw [hname] at hcycle
    have hkind : compiled.kind B = "ac" := by rw [CompiledItem.kind, hac, Option.getD_some]
    have hlookup : (withTarget target args).lookup "kind" = some (.str "ac") := by
      rw [lookup_withTarget_of_ne (by decide), hargs hcycle, hkind]
    rw [hcycle] at hspec
    have hwhen : spec.destructiveWhen = [("kind", ["ac"])] := by
      have hfound : (primitive? "power_cycle").map (·.destructiveWhen) =
          some [("kind", ["ac"])] := by decide
      rw [hspec] at hfound
      exact Option.some.inj hfound
    rw [riskOf, hwhen]
    simp [hlookup, hstr]
  · split at hkind
    · rename_i hrisk
      rw [riskOf]
      split
      · rfl
      · exact hrisk
    · cases hkind

theorem isBlock_blockOf {grandTotal done n : Nat} {entry : SuiteItem × CompiledItem}
    (hallowed : Allowed B entry) (hstr : ∀ s, B.str (.str s) = s) :
    IsBlock B target entry (blockOf B guardrails target grandTotal done n entry) where
  cycles := by
    intro hcycle
    have hflag := CompiledItem.isCycle_iff.mpr hcycle
    refine ⟨by rw [length_blockOf, stepCount, if_pos hflag], fun step hstep => ?_⟩
    rw [blockOf, if_pos hflag] at hstep
    obtain ⟨i, -, rfl⟩ := List.mem_map.mp hstep
    exact ⟨rfl, lookup_cycleStep.2.1⟩
  single := by
    intro hcycle
    have hflag : ¬ entry.2.isCycle = true := fun h => hcycle (CompiledItem.isCycle_iff.mp h)
    refine ⟨_, by rw [blockOf, if_neg hflag], rfl, rfl, ?_, rfl⟩
    have hshort : entry.1.title.toList.length ≤ 200 := entry.1.title_le
    simp [stepAt, List.take_of_length_le hshort]
  destructive := by
    intro spec kind hspec hkind
    refine ⟨hallowed.approved spec kind hspec hkind, fun step hstep => ?_⟩
    unfold blockOf at hstep
    split at hstep
    · rename_i hflag
      have hcycle := CompiledItem.isCycle_iff.mp hflag
      obtain ⟨i, -, rfl⟩ := List.mem_map.mp hstep
      rw [cycleStep, ← hcycle]
      exact risk_stepAt hspec hkind (fun _ => rfl) hstr
    · rename_i hflag
      rw [List.mem_singleton.mp hstep]
      exact risk_stepAt hspec hkind
        (fun hcycle => absurd (CompiledItem.isCycle_iff.mpr hcycle) hflag) hstr

theorem isBlock_blocksOf {grandTotal done n : Nat} (hallowed : ∀ entry ∈ entries, Allowed B entry)
    (hstr : ∀ s, B.str (.str s) = s) : List.Forall₂ (IsBlock B target) entries
      (blocksOf B guardrails target grandTotal done n entries) := by
  induction entries generalizing done n with
  | nil => exact .nil
  | cons entry entries ih =>
    obtain ⟨hentry, hentries⟩ := List.forall_mem_cons.mp hallowed
    exact .cons (isBlock_blockOf hentry hstr) (ih hentries)

theorem filter_stepsOfSuite :
    (stepsOfSuite B guardrails target entries).filter Step.isCycle =
      (blocksOf B guardrails target (cyclesIn entries) 0 4 entries).flatten.filter Step.isCycle := by
  have hopening : (opening B target).filter Step.isCycle = [] := rfl
  rw [stepsOfSuite_eq, List.filter_append, List.filter_append, hopening, List.nil_append]
  exact List.append_nil _

theorem mem_cycles {grandTotal done n : Nat} {step : Step}
    (hstep : step ∈ (blocksOf B guardrails target grandTotal done n entries).flatten)
    (hcycle : step.isCycle = true) : ∃ (compiled : CompiledItem) (number place : Nat),
      step = cycleStep B guardrails target compiled grandTotal number place := by
  induction entries generalizing done n with
  | nil => cases hstep
  | cons entry entries ih =>
    rw [blocksOf, List.flatten_cons] at hstep
    rcases List.mem_append.mp hstep with hin | hin
    · have hflag := (isCycle_of_mem_blockOf step hin).symm.trans hcycle
      rw [blockOf, if_pos hflag] at hin
      obtain ⟨i, -, rfl⟩ := List.mem_map.mp hin
      exact ⟨_, _, _, rfl⟩
    · exact ih hin

variable {suite : Suite} {jobId : String} {now : DateTime} {plan : Plan}

/-- The second pass, from the opening on. -/
theorem unroll_opening {grandTotal : Nat} :
    unroll B guardrails target grandTotal entries (opening B target) 0 =
      if 3 + stepsIn entries ≤ MAX_STEPS - 2 then
        .ok (opening B target ++ (blocksOf B guardrails target grandTotal 0 4 entries).flatten,
          0 + cyclesIn entries)
      else .error (.refused tooManySteps) := by
  have hlength : (opening B target).length ≤ MAX_STEPS - 2 := by
    change 3 ≤ 198
    decide
  rw [unroll_eq hlength]
  rfl

/-- The steps of a plan are those of its suite. -/
theorem compileSuite_steps
    (h : compileSuite B suite jobId target guardrails now compiler = .ok plan) :
    ∃ entries, compileItems B compiler guardrails suite.items 0 0 =
        .ok (entries, cyclesIn entries) ∧ plan.steps = stepsOfSuite B guardrails target entries := by
  obtain ⟨entries, grandTotal, steps, totalCycles, hitems, hunroll, hsteps⟩ := compileSuite_ok h
  obtain ⟨htotal, -⟩ := compileItems_checked hitems
  rw [Nat.zero_add] at htotal
  rw [unroll_opening] at hunroll
  split at hunroll
  · obtain ⟨rfl, -⟩ := Prod.mk.inj (Except.ok.inj hunroll)
    refine ⟨entries, htotal ▸ hitems, ?_⟩
    rw [hsteps, htotal, stepsOfSuite]
  · cases hunroll

theorem compileSuite_faithful (hstr : ∀ s, B.str (.str s) = s)
    (h : compileSuite B suite jobId target guardrails now compiler = .ok plan) :
    ∃ entries blocks, FaithfulPlan B compiler guardrails target suite entries blocks plan := by
  obtain ⟨entries, hitems, hsteps⟩ := compileSuite_steps h
  obtain ⟨hsame, hcompiled⟩ := compileItems_ok hitems
  obtain ⟨-, hlimit, hallowed⟩ := compileItems_checked hitems
  refine ⟨entries, blocksOf B guardrails target (cyclesIn entries) 0 4 entries,
    { items := hsame
      compiled := fun i item compiled hi => by simpa using hcompiled i item compiled hi
      order := ?_
      inner := ?_
      block := isBlock_blocksOf hallowed hstr
      unique := plan.unique
      numbered := plan.numbered
      cycles := ?_
      capped := hlimit (Nat.zero_le _)
      settled := ?_ }⟩
  · rw [hsteps, stepsOfSuite_eq, List.map_append, List.map_append]
    rfl
  · have hlength : (opening B target).length = 3 := rfl
    rw [hsteps, stepsOfSuite_eq, List.append_assoc, ← hlength, List.drop_left, List.take_left]
  · rw [hsteps, filter_stepsOfSuite]
    exact map_cycles fun _ _ _ _ => lookup_cycleStep.1
  · intro step hstep hcycle
    have hmem : step ∈ (stepsOfSuite B guardrails target entries).filter Step.isCycle :=
      List.mem_filter.mpr ⟨hsteps ▸ hstep, hcycle⟩
    rw [filter_stepsOfSuite] at hmem
    obtain ⟨compiled, number, place, rfl⟩ := mem_cycles (List.mem_filter.mp hmem).1 hcycle
    exact ⟨_, _, lookup_cycleStep.2.1, lookup_cycleStep.2.2.choose_spec⟩

/-! ## When a compilation fails in its own words -/

/-- The times that the first pass comes to are numbers; and if the items pass and are not
    too many, there is a job, and the items that are no power cycles have numbers of their
    own. -/
structure Compilable (B : Builtins) (compiler : Option Compiler) (guardrails : Guardrails)
    (suite : Suite) (jobId : String) : Prop where
  readable : ItemsReadable B compiler guardrails suite.items 0 0
  distinct : ∀ entries total, compileItems B compiler guardrails suite.items 0 0 =
    .ok (entries, total) → 3 + stepsIn entries ≤ MAX_STEPS - 2 →
      jobId ≠ "" ∧ (numbersOf entries).Nodup

theorem planSummary_ne {cycles : Nat} {steps : List Step} :
    planSummary suite target cycles steps ≠ "" := by
  intro hempty
  have hchars := congrArg String.toList hempty
  simp only [planSummary, String.toList_append] at hchars
  have hon : (" on " : String).toList ≠ [] := by decide
  simp [List.append_eq_nil_iff] at hchars

/-- After the passes, what escapes is what the plan is validated for. -/
theorem compileSuite_own_of_ok
    (hitems : compileItems B compiler guardrails suite.items 0 0 = .ok (entries, total))
    (hfits : 3 + stepsIn entries ≤ MAX_STEPS - 2) :
    OwnWords (compileSuite B suite jobId target guardrails now compiler) ↔
      jobId ≠ "" ∧ (numbersOf entries).Nodup := by
  have htotal : total = cyclesIn entries := by simpa using (compileItems_checked hitems).1
  subst htotal
  have hunroll : unroll B guardrails target (cyclesIn entries) entries (opening B target) 0 =
      .ok (opening B target ++ (blocksOf B guardrails target (cyclesIn entries) 0 4
        entries).flatten, 0 + cyclesIn entries) := by
    rw [unroll_opening, if_pos hfits]
  have hvalid : (∃ plan, Plan.ofSteps jobId (planSummary suite target (0 + cyclesIn entries)
      (stepsOfSuite B guardrails target entries)) (stepsOfSuite B guardrails target entries) now =
        some plan) ↔ jobId ≠ "" ∧ (numbersOf entries).Nodup := by
    have hcap : (stepsOfSuite B guardrails target entries).length ≤ MAX_STEPS := by
      rw [length_stepsOfSuite]
      have hmax : MAX_STEPS = 200 := rfl
      omega
    have hne : stepsOfSuite B guardrails target entries ≠ [] := by
      intro hnil
      have hlength := congrArg List.length hnil
      rw [length_stepsOfSuite, List.length_nil] at hlength
      omega
    rw [Plan.exists_ofSteps_iff, ids_nodup_iff]
    simp only [numbers_eq, planSummary_ne, hcap, hne, ne_eq, not_false_eq_true, and_true]
  rw [← hvalid]
  simp only [compileSuite, bind, Except.bind, hitems, hunroll]
  rw [← stepsOfSuite]
  cases hplan : Plan.ofSteps jobId (planSummary suite target (0 + cyclesIn entries)
      (stepsOfSuite B guardrails target entries)) (stepsOfSuite B guardrails target entries) now with
  | none => exact iff_of_false (fun h => h) (by simp)
  | some plan =>
    refine iff_of_true ?_ ⟨plan, rfl⟩
    dsimp only
    split <;> trivial

theorem compileSuite_own_iff :
    OwnWords (compileSuite B suite jobId target guardrails now compiler) ↔
      Compilable B compiler guardrails suite jobId := by
  have hfirst : OwnWords (compileItems B compiler guardrails suite.items 0 0) ↔
      ItemsReadable B compiler guardrails suite.items 0 0 := compileItems_own_iff
  cases hitems : compileItems B compiler guardrails suite.items 0 0 with
  | error e =>
    have hfails : compileSuite B suite jobId target guardrails now compiler = .error e := by
      simp [compileSuite, bind, Except.bind, hitems]
    rw [hitems] at hfirst
    rw [hfails]
    constructor
    · refine fun h => ⟨hfirst.mp h.of_error, fun entries total hok => ?_⟩
      rw [hitems] at hok
      cases hok
    · exact fun h => (hfirst.mpr h.readable).of_error
  | ok found =>
    obtain ⟨entries, total⟩ := found
    rw [hitems] at hfirst
    have hsplit : Compilable B compiler guardrails suite jobId ↔
        (3 + stepsIn entries ≤ MAX_STEPS - 2 → jobId ≠ "" ∧ (numbersOf entries).Nodup) := by
      constructor
      · exact fun h => h.distinct entries total hitems
      · refine fun h => ⟨hfirst.mp trivial, fun entries' total' hok => ?_⟩
        rw [hitems] at hok
        obtain ⟨rfl, rfl⟩ := Prod.mk.inj (Except.ok.inj hok)
        exact h
    rw [hsplit]
    by_cases hfits : 3 + stepsIn entries ≤ MAX_STEPS - 2
    · rw [forall_prop_of_true hfits]
      exact compileSuite_own_of_ok hitems hfits
    · refine iff_of_true ?_ fun h => absurd h hfits
      have hunroll : unroll B guardrails target total entries (opening B target) 0 =
          .error (.refused tooManySteps) := by
        rw [unroll_opening, if_neg hfits]
      simp [compileSuite, bind, Except.bind, hitems, hunroll, OwnWords]

/-- **Suite compilation**: a plan that is returned is faithful, and no other exception
    than the compiler's own escapes, exactly for a suite that can be compiled. -/
theorem faithful_iff (hstr : ∀ s, B.str (.str s) = s) :
    ((∀ plan, compileSuite B suite jobId target guardrails now compiler = .ok plan →
        ∃ entries blocks, FaithfulPlan B compiler guardrails target suite entries blocks plan) ∧
      OwnWords (compileSuite B suite jobId target guardrails now compiler)) ↔
      Compilable B compiler guardrails suite jobId := by
  have hown : OwnWords (compileSuite B suite jobId target guardrails now compiler) ↔
      Compilable B compiler guardrails suite jobId := compileSuite_own_iff
  rw [← hown]
  exact ⟨fun h => h.2, fun h => ⟨fun plan hplan => compileSuite_faithful hstr hplan, h⟩⟩

theorem faithful_look :
    ((∀ plan, lookPlan faithful = .ok plan → ∃ entries blocks,
        FaithfulPlan plainBuiltins (some faithful) defaultGuardrails "m-1" lookSuite entries blocks
          plan) ∧ OwnWords (lookPlan faithful)) ↔
      Compilable plainBuiltins (some faithful) defaultGuardrails lookSuite "J-1" :=
  faithful_iff fun _ => rfl

instance {α : Type} : (result : Except CompileError α) → Decidable (OwnWords result)
  | .error (.raised _) => .isFalse fun h => h
  | .error (.refused _) => .isTrue trivial
  | .ok _ => .isTrue trivial

/-- A tool that is to run for as long as it takes. -/
def soonSuite : Suite :=
  { title := "soon"
    items := [{ lookItem 1 Nat.one_pos with action := "stress", params := [("duration_s", "soon")]
                                            action_ne := by decide }]
    title_ne := by decide, nonempty := by simp, capped := by simp }

/-- Two items with one number. -/
def twinSuite : Suite :=
  { lookSuite with items := [lookItem 1 Nat.one_pos, lookItem 1 Nat.one_pos]
                   nonempty := by simp, capped := by simp }

theorem words_of_others_escape :
    ¬ OwnWords (compileSuite plainBuiltins soonSuite "J-1" "m-1" defaultGuardrails 0 none) ∧
      ¬ OwnWords (compileSuite plainBuiltins twinSuite "J-1" "m-1" defaultGuardrails 0
        (some faithful)) := by
  constructor <;> decide +kernel

end Faithful

end Slas
