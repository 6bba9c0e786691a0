/-
  Slas.Lib.Counter

  Python's `Counter` over a list, and the value that more than half of a panel
  gave.  There is at most one, it is the most common one, and the order in
  which the values came does not matter: `majority_eq_some_iff`.
-/

import Mathlib.Data.List.Basic
import Mathlib.Data.List.Perm.Basic

namespace Counter

variable {α : Type*}

/-- The first item of the highest count. -/
def top (items : List (α × Nat)) : Option (α × Nat) :=
  items.foldl (fun best item =>
    match best with
    | none => some item
    | some b => if b.2 < item.2 then some item else some b) none

/-- The scan: what is on top is an item, and no item counts more. -/
theorem foldl_top (items : List (α × Nat)) (best : α × Nat) :
    ∃ found, items.foldl (fun best item =>
        match best with
        | none => some item
        | some b => if b.2 < item.2 then some item else some b) (some best) = some found ∧
      found ∈ best :: items ∧ ∀ item ∈ best :: items, item.2 ≤ found.2 := by
  induction items generalizing best with
  | nil => exact ⟨best, rfl, by simp, by simp⟩
  | cons item items ih =>
    rw [List.foldl_cons]
    simp only
    split_ifs with hlt
    · obtain ⟨found, hfound, hmem, hmax⟩ := ih item
      refine ⟨found, hfound, List.mem_cons_of_mem _ hmem, ?_⟩
      rw [List.forall_mem_cons]
      exact ⟨Nat.le_trans (Nat.le_of_lt hlt) (hmax item (by simp)), hmax⟩
    · obtain ⟨found, hfound, hmem, hmax⟩ := ih best
      rw [List.forall_mem_cons] at hmax
      refine ⟨found, hfound, ?_, ?_⟩
      · rcases List.mem_cons.mp hmem with rfl | hmem
        · simp
        · simp [hmem]
      · simp only [List.forall_mem_cons]
        exact ⟨hmax.1, Nat.le_trans (Nat.le_of_not_lt hlt) hmax.1, hmax.2⟩

theorem top_spec (items : List (α × Nat)) : (top items = none ∧ items = []) ∨
    ∃ found ∈ items, top items = some found ∧ ∀ item ∈ items, item.2 ≤ found.2 := by
  cases items with
  | nil => exact Or.inl ⟨rfl, rfl⟩
  | cons item items =>
    obtain ⟨found, hfound, hmem, hmax⟩ := foldl_top items item
    exact Or.inr ⟨found, hmem, hfound, hmax⟩

variable [DecidableEq α]

/-- The items of `Counter(values)`: each value with how often it is there, in the order the
    values came in. -/
def counts (values : List α) : List (α × Nat) :=
  values.eraseDups.map fun value => (value, values.count value)

/-- `most_common()`: the items by their counts, the higher ones first. -/
def mostCommon (values : List α) : List (α × Nat) :=
  (counts values).mergeSort fun a b => b.2 ≤ a.2

/-- The value that more than half of a panel of `n` gave. -/
def majority (n : Nat) (values : List α) : Option α :=
  (top (counts values)).bind fun item => if n < item.2 * 2 then some item.1 else none

variable {values : List α} {value : α} {n : Nat} {item : α × Nat}

theorem mem_counts : item ∈ counts values ↔ item.1 ∈ values ∧ item.2 = values.count item.1 := by
  simp only [counts, List.mem_map, List.mem_eraseDups]
  constructor
  · rintro ⟨value, hmem, rfl⟩
    exact ⟨hmem, rfl⟩
  · rintro ⟨hmem, hcount⟩
    exact ⟨item.1, hmem, by rw [← hcount]⟩

theorem count_add_count_le {other : α} (hne : value ≠ other) (values : List α) :
    values.count value + values.count other ≤ values.length := by
  induction values with
  | nil => simp
  | cons x xs ih =>
    rw [List.count_cons, List.count_cons, List.length_cons]
    by_cases hvalue : x = value
    · have hother : x ≠ other := fun heq => hne (hvalue.symm.trans heq)
      simp only [hvalue, beq_self_eq_true, if_true, beq_iff_eq, hne, if_false]
      omega
    · simp only [beq_iff_eq, hvalue, if_false]
      split_ifs <;> omega

/-- **The majority is a matter of counting**: when no more values than the panel has members
    came in, it is the value that more than half of the panel gave. -/
theorem majority_eq_some_iff (hlen : values.length ≤ n) :
    majority n values = some value ↔ n < 2 * values.count value := by
  rcases top_spec (counts values) with ⟨htop, hnil⟩ | ⟨found, hmem, htop, hmax⟩
  · have hempty : values = [] := by
      by_contra hne
      obtain ⟨x, hx⟩ := List.exists_mem_of_ne_nil values hne
      have hx' : (x, values.count x) ∈ counts values := mem_counts.mpr ⟨hx, rfl⟩
      simp [hnil] at hx'
    rw [majority, htop, hempty]
    simp
  · obtain ⟨hfound, hcount⟩ := mem_counts.mp hmem
    simp only [majority, htop, Option.bind_some, Option.ite_none_right_eq_some, Option.some.injEq]
    constructor
    · rintro ⟨hlt, rfl⟩
      omega
    · intro hlt
      have hvalue : value ∈ values := List.count_pos_iff.mp (by omega)
      have hle := hmax (value, values.count value) (mem_counts.mpr ⟨hvalue, rfl⟩)
      simp only at hle
      refine ⟨by omega, ?_⟩
      by_contra hne
      have hsum := count_add_count_le hne values
      omega

/-- The order in which the values came does not matter. -/
theorem majority_perm {values' : List α} (hperm : values.Perm values')
    (hlen : values.length ≤ n) : majority n values = majority n values' := by
  apply Option.ext
  intro value
  rw [majority_eq_some_iff hlen, majority_eq_some_iff (hperm.length_eq ▸ hlen), hperm.count_eq]

end Counter
