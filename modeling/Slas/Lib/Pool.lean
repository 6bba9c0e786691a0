/-
  Slas.Lib.Pool

  Calls that run side by side over a state they share, one step of one call at a time, in any
  order.  What is invariant of the state and of each call by itself is kept by a step if the call
  that steps keeps it for itself and for the others: `holds_step`.
-/

import Slas.Lib.Dict
import Slas.Lib.Runs

/-- The shared state, and the calls in progress by number. -/
structure Pool (D L : Type) where
  shared : D
  calls : List (Nat × L) := []
  started : Nat := 0

namespace Pool

inductive Event (R E : Type) where
  | start (request : R)
  /-- The call of that number takes its next step, which goes so. -/
  | go (n : Nat) (how : E)

variable {D L R E : Type} (begin_ : R → L) (advance : Nat → D → L → E → D × Option L)

def step (p : Pool D L) : Event R E → Pool D L
  | .start request =>
    { p with calls := Dict.set p.started (begin_ request) p.calls, started := p.started + 1 }
  | .go n how =>
    match p.calls.lookup n with
    | none => p
    | some call =>
      match advance n p.shared call how with
      | (d, some call') => { p with shared := d, calls := Dict.set n call' p.calls }
      | (d, none) => { p with shared := d, calls := Dict.pop n p.calls }

/-- A condition on the steps of the calls. -/
def Each (C : Nat → D → L → E → Prop) (p : Pool D L) : Event R E → Prop
  | .start _ => True
  | .go n how => ∀ call ∈ p.calls.lookup n, C n p.shared call how

/-- The shared state has the one property, and each call with it the other. -/
structure Holds (G : D → Prop) (I : Nat → D → L → Prop) (p : Pool D L) : Prop where
  shared : G p.shared
  calls : ∀ n, ∀ call ∈ p.calls.lookup n, I n p.shared call

variable {begin_ advance} {G : D → Prop} {I : Nat → D → L → Prop} {C : Nat → D → L → E → Prop}

/-- **One step of one call**, that keeps its own invariant, and those of the others. -/
theorem holds_step {p : Pool D L} (e : Event R E) (h : Holds G I p)
    (hbegin : ∀ n d request, G d → I n d (begin_ request))
    (hown : ∀ n d call how, G d → I n d call → C n d call how →
      G (advance n d call how).1 ∧
        ∀ call' ∈ (advance n d call how).2, I n (advance n d call how).1 call')
    (hothers : ∀ n d call how m other, G d → I n d call → C n d call how → m ≠ n →
      I m d other → I m (advance n d call how).1 other)
    (hc : Each C p e) : Holds G I (step begin_ advance p e) := by
  cases e with
  | start request =>
    refine ⟨h.shared, fun n call hcall => ?_⟩
    simp only [step, Dict.lookup_set] at hcall
    split_ifs at hcall with hn
    · rw [← Option.some.inj hcall]
      exact hbegin n _ request h.shared
    · exact h.calls n call hcall
  | go n how =>
    cases hl : p.calls.lookup n with
    | none => simpa only [step, hl] using h
    | some call =>
      obtain ⟨hshared, hnext⟩ := hown n _ call how h.shared (h.calls n call hl) (hc call hl)
      have hkept : ∀ m, m ≠ n → ∀ other ∈ p.calls.lookup m,
          I m (advance n p.shared call how).1 other := fun m hm other hother =>
        hothers n _ call how m other h.shared (h.calls n call hl) (hc call hl) hm
          (h.calls m other hother)
      cases ha : advance n p.shared call how with
      | mk d next =>
        rw [ha] at hshared hnext hkept
        cases next with
        | none =>
          simp only [step, hl, ha]
          refine ⟨hshared, fun m other hother => ?_⟩
          simp only [Dict.lookup_pop] at hother
          split_ifs at hother with hm
          · cases hother
          · exact hkept m hm other hother
        | some call' =>
          simp only [step, hl, ha]
          refine ⟨hshared, fun m other hother => ?_⟩
          simp only [Dict.lookup_set] at hother
          split_ifs at hother with hm
          · rw [hm, ← Option.some.inj hother]
            exact hnext call' rfl
          · exact hkept m hm other hother

end Pool
