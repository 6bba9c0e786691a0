/-
  Slas.Lib.Ends

  Triples that tell an exception from the death of the process.

  `Ends P p Q X D`: from `P`, a return of `p` satisfies `Q`, an exception leaves `X` and a
  death leaves `D`.  A `Triple` has one condition for the last two; here what is torn may be
  torn by a death alone.
-/

import Slas.Lib.Crash

namespace Crash

variable {W ε α β : Type}

def Result.Ended (Q : α → W → Prop) (X D : W → Prop) : Result W ε α → Prop
  | .ok a w _ => Q a w
  | .raised _ w _ => X w
  | .died w => D w

def Ends (P : W → Prop) (p : Prog W ε α) (Q : α → W → Prop) (X D : W → Prop) : Prop :=
  ∀ w n, P w → (p w n).Ended Q X D

namespace Ends

variable {P P' X D : W → Prop} {Q Q' : α → W → Prop} {p : Prog W ε α}

theorem conseq (h : Ends P p Q X D) (hP : ∀ w, P' w → P w) (hQ : ∀ a w, Q a w → Q' a w) :
    Ends P' p Q' X D := by
  intro w n hw
  have hend := h w n (hP w hw)
  cases hrun : p w n with
  | ok a w' n' => rw [hrun] at hend; exact hQ a w' hend
  | raised e w' n' => rw [hrun] at hend; exact hend
  | died w' => rw [hrun] at hend; exact hend

theorem pure {a : α} (h : ∀ w, P w → Q a w) : Ends P (Pure.pure a : Prog W ε α) Q X D :=
  fun w _ hw => h w hw

theorem raise {e : ε} (h : ∀ w, P w → X w) : Ends P (Prog.raise e : Prog W ε α) Q X D :=
  fun w _ hw => h w hw

theorem bind {M : α → W → Prop} {Q₂ : β → W → Prop} {f : α → Prog W ε β}
    (h : Ends P p M X D) (hf : ∀ a, Ends (M a) (f a) Q₂ X D) : Ends P (p >>= f) Q₂ X D := by
  intro w n hw
  have hend := h w n hw
  simp only [Bind.bind]
  cases hrun : p w n with
  | ok a w' n' => rw [hrun] at hend; exact hf a w' n' hend
  | raised e w' n' => rw [hrun] at hend; exact hend
  | died w' => rw [hrun] at hend; exact hend

/-- The rule of an effect: the death condition must hold *before* it. -/
theorem effect {f : W → Except ε α × W} (hdied : ∀ w, P w → D w)
    (hok : ∀ w a w', P w → f w = (.ok a, w') → Q a w')
    (herr : ∀ w e w', P w → f w = (.error e, w') → X w') : Ends P (Prog.effect f) Q X D := by
  intro w n hw
  cases n with
  | zero => exact hdied w hw
  | succ n =>
    simp only [Prog.effect]
    split
    · rename_i a w' hf
      exact hok w a w' hw hf
    · rename_i e w' hf
      exact herr w e w' hw hf

theorem write {f : W → W} {Q : Unit → W → Prop} (hdied : ∀ w, P w → D w)
    (h : ∀ w, P w → Q () (f w)) : Ends P (Prog.write f : Prog W ε Unit) Q X D := by
  apply effect hdied
  · intro w a w' hw hf
    obtain ⟨-, rfl⟩ := Prod.mk.inj hf
    exact h w hw
  · intro w e w' _ hf
    cases (Prod.mk.inj hf).1

theorem quiet {f : W → α × W} (h : ∀ w, P w → Q (f w).1 (f w).2) :
    Ends P (Prog.quiet f : Prog W ε α) Q X D :=
  fun w _ hw => h w hw

theorem look {f : W → α} (h : ∀ w, P w → Q (f w) w) : Ends P (Prog.look f : Prog W ε α) Q X D :=
  fun w _ hw => h w hw

theorem ofExcept {x : Except ε α} (hok : ∀ a, x = .ok a → ∀ w, P w → Q a w)
    (herr : ∀ w, P w → X w) : Ends P (Prog.ofExcept x : Prog W ε α) Q X D := by
  cases x with
  | ok a => exact pure (hok a rfl)
  | error e => exact raise herr

/-- A fact of the precondition that is not about the world may be assumed. -/
theorem assume {φ : Prop} (hφ : ∀ w, P w → φ) (h : φ → Ends P p Q X D) : Ends P p Q X D :=
  fun w n hw => h (hφ w hw) w n hw

end Ends

/-! ## Deaths in a session -/

section Deaths

variable {ι : Type} (prog : ι → Prog W ε α)

/-- How many calls of the session died. -/
def deaths (w : W) : List (ι × Nat) → Nat
  | [] => 0
  | c :: cs => (if (prog c.1 w c.2).dead then 1 else 0) + deaths (after prog w c) cs

variable {prog}

/-- What every call keeps, and a death weakens by one, holds after a session to the number of
    its deaths. -/
theorem session_deaths {I : Nat → W → Prop}
    (hcall : ∀ c k, Ends (I k) (prog c) (fun _ => I k) (I k) (I (k + 1))) {k : Nat} {w : W}
    (cs : List (ι × Nat)) (hw : I k w) : I (k + deaths prog w cs) (session prog w cs) := by
  induction cs generalizing k w with
  | nil => exact hw
  | cons c cs ih =>
    have hend := hcall c.1 k w c.2 hw
    rw [deaths, session_cons, ← Nat.add_assoc]
    unfold after
    cases hrun : prog c.1 w c.2 with
    | ok a w' n' => rw [hrun] at hend; exact ih hend
    | raised e w' n' => rw [hrun] at hend; exact ih hend
    | died w' => rw [hrun] at hend; exact ih hend

end Deaths

end Crash
