/-
  Slas.Lib.First

  The first element of a list with a property, replaced: what loops do that return at the first
  hit.
-/

import Mathlib.Data.List.Basic
import Mathlib.Data.List.TakeWhile

namespace First

variable {α : Type*}

/-- The first element with the property is changed; `none` where none has it. -/
def update (p : α → Bool) (f : α → α) : List α → Option (List α × α)
  | [] => none
  | a :: as => if p a then some (f a :: as, f a) else (update p f as).map fun r => (a :: r.1, r.2)

variable {p : α → Bool} {f : α → α} {as bs : List α} {a b : α}

theorem update_eq_none_iff : update p f as = none ↔ as.find? p = none := by
  induction as with
  | nil => simp [update]
  | cons a as ih =>
    rw [update]
    by_cases ha : p a = true
    · simp [ha]
    · simp [ha, ih]

/-- What was changed, and where. -/
theorem update_eq_some_iff :
    update p f as = some (bs, b) ↔ ∃ pre a post, as = pre ++ a :: post ∧
      (∀ x ∈ pre, p x = false) ∧ p a = true ∧ bs = pre ++ f a :: post ∧ b = f a := by
  induction as generalizing bs b with
  | nil => simp [update]
  | cons first as ih =>
    rw [update]
    by_cases hfirst : p first = true
    · rw [if_pos hfirst]
      constructor
      · intro h
        obtain ⟨rfl, rfl⟩ := Prod.mk.inj (Option.some.inj h)
        exact ⟨[], first, as, rfl, by simp, hfirst, rfl, rfl⟩
      · rintro ⟨pre, a, post, heq, hpre, -, rfl, rfl⟩
        cases pre with
        | nil =>
          obtain ⟨rfl, rfl⟩ := List.cons.inj heq
          rfl
        | cons x pre =>
          obtain ⟨rfl, -⟩ := List.cons.inj heq
          rw [hpre _ List.mem_cons_self] at hfirst
          cases hfirst
    · rw [if_neg hfirst]
      constructor
      · intro h
        obtain ⟨⟨cs, c⟩, hrest, heq⟩ := Option.map_eq_some_iff.mp h
        obtain ⟨pre, a, post, rfl, hpre, ha, rfl, rfl⟩ := ih.mp hrest
        obtain ⟨rfl, rfl⟩ := Prod.mk.inj heq
        refine ⟨first :: pre, a, post, rfl, fun x hx => ?_, ha, rfl, rfl⟩
        rcases List.mem_cons.mp hx with rfl | hx
        · exact Bool.eq_false_iff.mpr hfirst
        · exact hpre x hx
      · rintro ⟨pre, a, post, heq, hpre, ha, rfl, rfl⟩
        cases pre with
        | nil =>
          obtain ⟨rfl, -⟩ := List.cons.inj heq
          exact absurd ha hfirst
        | cons x pre =>
          obtain ⟨rfl, rfl⟩ := List.cons.inj heq
          have hrest := ih.mpr ⟨pre, a, post, rfl, fun y hy => hpre y (List.mem_cons_of_mem _ hy),
            ha, rfl, rfl⟩
          rw [hrest]
          rfl

/-- The place of what was changed: what is before it does not have the property. -/
theorem getElem?_of_update (h : update p f as = some (bs, b)) :
    ∃ i a, as[i]? = some a ∧ p a = true ∧ b = f a ∧ bs = as.set i b ∧ as.find? p = some a ∧
      ∀ j x, j < i → as[j]? = some x → p x = false := by
  obtain ⟨pre, a, post, rfl, hpre, ha, rfl, rfl⟩ := update_eq_some_iff.mp h
  refine ⟨pre.length, a, by simp, ha, rfl, by simp, ?_, fun j x hj hx => ?_⟩
  · rw [List.find?_append, List.find?_eq_none.mpr fun x hx => by simp [hpre x hx]]
    simp [ha]
  · rw [List.getElem?_append_left hj] at hx
    exact hpre x (List.mem_of_getElem? hx)

/-- The one that is changed is the one a search finds. -/
theorem find?_of_update (h : update p f as = some (bs, b)) : ∃ a, as.find? p = some a ∧ b = f a := by
  obtain ⟨-, a, -, -, hb, -, hfind, -⟩ := getElem?_of_update h
  exact ⟨a, hfind, hb⟩

/-- The places keep what the change keeps. -/
theorem map_of_update {β : Type*} {g : α → β} (hg : ∀ a, g (f a) = g a)
    (h : update p f as = some (bs, b)) : bs.map g = as.map g := by
  obtain ⟨pre, a, post, rfl, -, -, rfl, -⟩ := update_eq_some_iff.mp h
  simp [hg]

end First
