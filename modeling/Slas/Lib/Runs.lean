/-
  Slas.Lib.Runs

  Runs of a machine that takes one step for each event.  When a step keeps a
  property of states exactly if it meets a condition, every state of a run has
  the property exactly if every step of the run meets the condition:
  `throughout_iff`.
-/

import Mathlib.Data.List.Induction
import Mathlib.Data.List.Infix
import Slas.Lib.Trace

namespace Runs

variable {S E : Type*} (step : S → E → S)

/-- The state after the events. -/
def run (s : S) (es : List E) : S := es.foldl step s

/-- Every state of the run has the property, the first and the last one too. -/
def Throughout (P : S → Prop) (s : S) (es : List E) : Prop :=
  ∀ pre, pre <+: es → P (run step s pre)

/-- Every step of the run meets the condition, in the state it is taken in. -/
def Meets (C : S → E → Prop) (s : S) (es : List E) : Prop :=
  Trace.Always (fun pre e => C (run step s pre) e) es

variable {step} {P : S → Prop} {C : S → E → Prop} {s : S} {es : List E} {e : E}

@[simp] theorem run_nil : run step s [] = s := rfl

@[simp] theorem run_cons : run step s (e :: es) = run step (step s e) es := rfl

theorem run_append {fs : List E} : run step s (es ++ fs) = run step (run step s es) fs :=
  List.foldl_append ..

theorem run_snoc : run step s (es ++ [e]) = step (run step s es) e := by
  rw [run_append, run_cons, run_nil]

theorem throughout_nil : Throughout step P s [] ↔ P s := by
  constructor
  · exact fun h => h [] (List.prefix_refl [])
  · intro h pre hpre
    rw [List.prefix_nil.mp hpre]
    exact h

theorem throughout_snoc :
    Throughout step P s (es ++ [e]) ↔
      Throughout step P s es ∧ P (step (run step s es) e) := by
  constructor
  · intro h
    refine ⟨fun pre hpre => h pre (hpre.trans (List.prefix_append _ _)), ?_⟩
    have hlast := h (es ++ [e]) (List.prefix_refl _)
    rwa [run_snoc] at hlast
  · rintro ⟨h, hlast⟩ pre hpre
    rcases List.prefix_concat_iff.mp hpre with rfl | hpre
    · rwa [run_snoc]
    · exact h pre hpre

theorem Throughout.last (h : Throughout step P s es) : P (run step s es) :=
  h es (List.prefix_refl es)

theorem meets_nil : Meets step C s [] := Trace.always_nil

theorem meets_snoc :
    Meets step C s (es ++ [e]) ↔ Meets step C s es ∧ C (run step s es) e :=
  Trace.always_snoc

theorem meets_cons :
    Meets step C s (e :: es) ↔ C s e ∧ Meets step C (step s e) es :=
  Trace.always_cons

/-- A test of each step of a run. -/
def allMeet (step : S → E → S) (c : S → E → Bool) : S → List E → Bool
  | _, [] => true
  | s, e :: es => c s e && allMeet step c (step s e) es

theorem meets_of_allMeet {c : S → E → Bool} (hc : ∀ s e, c s e = true → C s e)
    (h : allMeet step c s es = true) : Meets step C s es := by
  induction es generalizing s with
  | nil => exact meets_nil
  | cons e es ih =>
    obtain ⟨he, hes⟩ := (Bool.and_eq_true _ _).mp h
    exact meets_cons.mpr ⟨hc s e he, ih hes⟩

/-- A condition that follows, and an invariant that lasts as long as the condition is met. -/
theorem Meets.imp {I : S → Prop} {C' : S → E → Prop} (h : Meets step C s es) (hi : I s)
    (hstep : ∀ s e, I s → C s e → C' s e ∧ I (step s e)) : Meets step C' s es := by
  induction es generalizing s with
  | nil => exact meets_nil
  | cons e es ih =>
    obtain ⟨he, hes⟩ := meets_cons.mp h
    obtain ⟨he', hi'⟩ := hstep s e hi he
    exact meets_cons.mpr ⟨he', ih hes hi'⟩

/-- Conditions that agree in the states that are reached. -/
theorem meets_congr {I : S → Prop} {C' : S → E → Prop} (hinv : ∀ s e, I s → C' s e → I (step s e))
    (h : ∀ s e, I s → (C s e ↔ C' s e)) (hi : I s) : Meets step C s es ↔ Meets step C' s es := by
  constructor
  · exact fun hm => hm.imp hi fun s e hi he => ⟨(h s e hi).mp he, hinv s e hi ((h s e hi).mp he)⟩
  · exact fun hm => hm.imp hi fun s e hi he => ⟨(h s e hi).mpr he, hinv s e hi he⟩

/-- What each step that meets the condition keeps, the run keeps. -/
theorem throughout_of_meets (hkeep : ∀ s e, P s → C s e → P (step s e)) (hs : P s)
    (h : Meets step C s es) : Throughout step P s es := by
  induction es using List.reverseRecOn with
  | nil => exact throughout_nil.mpr hs
  | append_singleton es e ih =>
    obtain ⟨hes, he⟩ := meets_snoc.mp h
    have hrun := ih hes
    exact throughout_snoc.mpr ⟨hrun, hkeep _ _ hrun.last he⟩

/-- What every step keeps holds after any run. -/
theorem invariant (hkeep : ∀ s e, P s → P (step s e)) (hs : P s) (es : List E) :
    P (run step s es) := by
  induction es generalizing s with
  | nil => exact hs
  | cons e es ih => exact ih (hkeep s e hs)

theorem Throughout.invariant {I : S → Prop} (h : Throughout step P s es)
    (hinv : ∀ s e, I s → P s → I (step s e)) (hi : I s) : I (run step s es) := by
  induction es using List.reverseRecOn with
  | nil => exact hi
  | append_singleton es e ih =>
    obtain ⟨hes, -⟩ := throughout_snoc.mp h
    rw [run_snoc]
    exact hinv _ _ (ih hes) hes.last

/-- **Throughout a run**: when a step keeps the property exactly if it meets the
    condition, so does a run.  An invariant of the states with the property may be used. -/
theorem throughout_iff_of_invariant {I : S → Prop} (hinv : ∀ s e, I s → P s → I (step s e))
    (hkeep : ∀ s e, I s → P s → (P (step s e) ↔ C s e)) (hi : I s) (hs : P s) :
    Throughout step P s es ↔ Meets step C s es := by
  induction es using List.reverseRecOn with
  | nil => exact iff_of_true (throughout_nil.mpr hs) meets_nil
  | append_singleton es e ih =>
    rw [throughout_snoc, meets_snoc, ← ih]
    refine and_congr_right fun hes => ?_
    exact hkeep _ _ (hes.invariant hinv hi) hes.last

/-- The same in any state. -/
theorem throughout_iff (hkeep : ∀ s e, P s → (P (step s e) ↔ C s e)) (hs : P s) :
    Throughout step P s es ↔ Meets step C s es :=
  throughout_iff_of_invariant (I := fun _ => True) (fun _ _ h _ => h) (fun s e _ => hkeep s e)
    trivial hs

end Runs
