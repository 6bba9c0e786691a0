/-
  Slas.Lib.Except

  Inversion of computations that may raise.
-/

import Mathlib.Data.List.Forall2
import Mathlib.Tactic.SplitIfs

namespace Except

universe u v

variable {ε : Type u} {α β : Type v}

theorem bind_eq_ok {x : Except ε α} {f : α → Except ε β} {b : β} :
    (x >>= f) = .ok b ↔ ∃ a, x = .ok a ∧ f a = .ok b := by
  cases x with
  | error e => simp [bind, Except.bind]
  | ok a => simp [bind, Except.bind]

/-- A computation after one of two. -/
theorem ite_bind_eq_ok {c : Prop} [Decidable c] {x y : Except ε α} {f : α → Except ε β} {b : β}
    (h : (if c then x >>= f else y >>= f) = .ok b) : ∃ a, f a = .ok b := by
  split_ifs at h
  · obtain ⟨a, -, h⟩ := bind_eq_ok.mp h
    exact ⟨a, h⟩
  · obtain ⟨a, -, h⟩ := bind_eq_ok.mp h
    exact ⟨a, h⟩

theorem map_eq_ok {x : Except ε α} {f : α → β} {b : β} :
    x.map f = .ok b ↔ ∃ a, x = .ok a ∧ f a = b := by
  cases x with
  | error e => simp [Except.map]
  | ok a => simp [Except.map]

variable {f : α → Except ε β} {xs : List α} {ys : List β} {e : ε}

end Except
