/-
  Slas.Lib.Load

  Tenants of bins.  A tenant takes an equal share of its need in each of its bins; the load of a
  bin is what its tenants take of it.  A tenant more, where each of its bins has its share left,
  keeps every bin within its capacity: `Within.cons`.
-/

import Mathlib.Algebra.Order.BigOperators.Group.List
import Mathlib.Algebra.Order.Field.Basic
import Mathlib.Data.List.Nodup
import Mathlib.Data.List.Perm.Subperm
import Mathlib.Tactic.Linarith

namespace Load

structure Tenant (B α : Type*) where
  bins : List B
  need : α

section Field

variable {B α : Type*} [DecidableEq B] [Field α]

/-- What a tenant takes of each of its bins. -/
def Tenant.share (t : Tenant B α) : α := t.need / (max t.bins.length 1 : Nat)

/-- What a tenant takes of a bin: a bin that is named twice is taken of twice. -/
def Tenant.takes (t : Tenant B α) (b : B) : α := t.bins.count b * t.share

def load (ts : List (Tenant B α)) (b : B) : α := (ts.map fun t => t.takes b).sum

variable {t : Tenant B α} {ts us : List (Tenant B α)} {b : B}

@[simp] theorem load_nil : load ([] : List (Tenant B α)) b = 0 := rfl

@[simp] theorem load_cons : load (t :: ts) b = t.takes b + load ts b := by
  simp [load]

@[simp] theorem load_append : load (ts ++ us) b = load ts b + load us b := by
  simp [load]

theorem load_perm (h : ts.Perm us) : load ts b = load us b := (h.map _).sum_eq

theorem Tenant.takes_of_not_mem (h : b ∉ t.bins) : t.takes b = 0 := by
  rw [takes, List.count_eq_zero_of_not_mem h, Nat.cast_zero, zero_mul]

theorem Tenant.takes_of_nodup (h : t.bins.Nodup) (hb : b ∈ t.bins) : t.takes b = t.share := by
  rw [takes, List.count_eq_one_of_mem h hb, Nat.cast_one, one_mul]

end Field

section Order

variable {B α : Type*} [DecidableEq B] [Field α] [LinearOrder α] [IsStrictOrderedRing α]

/-- No bin has more than its capacity. -/
def Within (capacity : α) (ts : List (Tenant B α)) : Prop := ∀ b, load ts b ≤ capacity

variable {t : Tenant B α} {ts us : List (Tenant B α)} {b : B} {capacity : α}

omit [DecidableEq B] in
theorem Tenant.share_nonneg (h : 0 ≤ t.need) : 0 ≤ t.share := div_nonneg h (Nat.cast_nonneg _)

theorem Tenant.takes_nonneg (h : 0 ≤ t.need) : 0 ≤ t.takes b :=
  mul_nonneg (Nat.cast_nonneg _) (t.share_nonneg h)

theorem load_nonneg (h : ∀ t ∈ ts, 0 ≤ t.need) : 0 ≤ load ts b := by
  refine List.sum_nonneg fun x hx => ?_
  obtain ⟨t, ht, rfl⟩ := List.mem_map.mp hx
  exact t.takes_nonneg (h t ht)

/-- Tenants that leave free what they took. -/
theorem load_le_of_sublist (h : us.Sublist ts) (hneed : ∀ t ∈ ts, 0 ≤ t.need) :
    load us b ≤ load ts b := by
  refine (h.map _).sum_le_sum fun x hx => ?_
  obtain ⟨t, ht, rfl⟩ := List.mem_map.mp hx
  exact t.takes_nonneg (hneed t ht)

theorem load_le_of_subperm (h : us.Subperm ts) (hneed : ∀ t ∈ ts, 0 ≤ t.need) :
    load us b ≤ load ts b := by
  obtain ⟨l, hperm, hsub⟩ := h
  rw [← load_perm hperm]
  exact load_le_of_sublist hsub hneed

theorem Within.of_subperm (h : Within capacity ts) (hsub : us.Subperm ts)
    (hneed : ∀ t ∈ ts, 0 ≤ t.need) : Within capacity us :=
  fun b => (load_le_of_subperm hsub hneed).trans (h b)

/-- A tenant more, in bins of their own, where a bin has its share left. -/
theorem load_cons_le (hnodup : t.bins.Nodup) (hload : load ts b ≤ capacity)
    (hroom : b ∈ t.bins → t.share ≤ capacity - load ts b) : load (t :: ts) b ≤ capacity := by
  rw [load_cons]
  by_cases hb : b ∈ t.bins
  · rw [t.takes_of_nodup hnodup hb]
    have hleft := hroom hb
    linarith
  · rw [t.takes_of_not_mem hb, zero_add]
    exact hload

/-- A tenant more, in bins of their own with its share left in each. -/
theorem Within.cons (h : Within capacity ts) (hnodup : t.bins.Nodup)
    (hroom : ∀ b ∈ t.bins, t.share ≤ capacity - load ts b) : Within capacity (t :: ts) :=
  fun b => load_cons_le hnodup (h b) (hroom b)

end Order

end Load
