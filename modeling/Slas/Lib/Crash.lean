/-
  Slas.Lib.Crash

  Programs whose process may die between any two of their effects, and a
  Hoare logic for them.

  A `Prog W ε α` runs against a world `W` and a budget: the number of effects
  the process still performs before it dies.  Every `effect` spends one unit
  and dies *before* acting when none is left, so quantifying over the budget
  quantifies over every crash point.  A death and a raised exception both
  leave the world as it then is; only the in-memory values are lost.

  `Triple P p Q R` is the crash triple: from a world with `P`, a return of `p`
  satisfies `Q`, and every other way to stop satisfies the crash condition
  `R`.  `Refines S pre p post` is the instance the developments use most: all
  that `p` ever does to the world is a sequence of the atomic steps of `S`,
  whatever the crash point, and a return also gives `post`.  A death inside a
  section of several writes may leave a *torn* step of `S` behind, as the last
  one of its run.
-/

import Mathlib.Logic.Relation

namespace Crash

variable {W ε α β : Type}

/-! ## Programs -/

/-- How a run ends: a value, an exception, or the death of the process.  The
    `Nat` is the budget that is left. -/
inductive Result (W ε α : Type) where
  | ok (a : α) (w : W) (n : Nat)
  | raised (e : ε) (w : W) (n : Nat)
  | died (w : W)

namespace Result

/-- The world a run leaves behind, however it ended. -/
def world : Result W ε α → W
  | ok _ w _ => w
  | raised _ w _ => w
  | died w => w

/-- The value a run returned, if it returned. -/
def value? : Result W ε α → Option α
  | ok a _ _ => some a
  | raised .. => none
  | died _ => none

/-- The process died. -/
def dead : Result W ε α → Bool
  | ok .. => false
  | raised .. => false
  | died _ => true

theorem eq_ok {r : Result W ε α} (h : r.value?.isSome) : ∃ a n, r = .ok a r.world n := by
  cases r with
  | ok a w n => exact ⟨a, n, rfl⟩
  | raised e w n => cases h
  | died w => cases h

theorem eq_died {r : Result W ε α} (h : r.dead = true) : r = .died r.world := by
  cases r with
  | ok a w n => cases h
  | raised e w n => cases h
  | died w => rfl

/-- `Q` of a return, `R` of every other end. -/
def Sat (Q : α → W → Prop) (R : W → Prop) : Result W ε α → Prop
  | ok a w _ => Q a w
  | raised _ w _ => R w
  | died w => R w

end Result

/-- A program over the world `W` that may raise `ε`, as a function of the world
    and of the effects left before the process dies. -/
def Prog (W ε α : Type) : Type := W → Nat → Result W ε α

namespace Prog

instance : Monad (Prog W ε) where
  pure a := fun w n => .ok a w n
  bind p f := fun w n =>
    match p w n with
    | .ok a w' n' => f a w' n'
    | .raised e w' n' => .raised e w' n'
    | .died w' => .died w'

/-- One effect on the world: the point where the process may die. -/
def effect (f : W → Except ε α × W) : Prog W ε α := fun w n =>
  match n with
  | 0 => .died w
  | n + 1 =>
    match f w with
    | (.ok a, w') => .ok a w' n
    | (.error e, w') => .raised e w' n

/-- An effect that returns nothing and cannot fail. -/
def write (f : W → W) : Prog W ε Unit := effect fun w => (.ok (), f w)

/-- An update of the world that is no crash point (a clock reading). -/
def quiet (f : W → α × W) : Prog W ε α := fun w n => .ok (f w).1 (f w).2 n

/-- A look at the world. -/
def look (f : W → α) : Prog W ε α := fun w n => .ok (f w) w n

theorem look_bind (f : W → α) (g : α → Prog W ε β) (w : W) (n : Nat) :
    (look f >>= g) w n = g (f w) w n := rfl

theorem quiet_bind (f : W → α × W) (g : α → Prog W ε β) (w : W) (n : Nat) :
    (quiet f >>= g) w n = g (f w).1 (f w).2 n := rfl

theorem bind_run {p : Prog W ε α} {f : α → Prog W ε β} {w w' : W} {n n' : Nat} {a : α}
    (h : p w n = .ok a w' n') : (p >>= f) w n = f a w' n' := by
  show (match p w n with
    | .ok a w' n' => f a w' n'
    | .raised e w' n' => .raised e w' n'
    | .died w' => .died w') = f a w' n'
  rw [h]

theorem bind_died {p : Prog W ε α} {f : α → Prog W ε β} {w w' : W} {n : Nat}
    (h : p w n = .died w') : (p >>= f) w n = .died w' := by
  show (match p w n with
    | .ok a w' n' => f a w' n'
    | .raised e w' n' => .raised e w' n'
    | .died w' => .died w') = .died w'
  rw [h]

theorem effect_run {f : W → Except ε α × W} {w w' : W} {a : α} (h : f w = (.ok a, w')) (n : Nat) :
    effect f w (n + 1) = .ok a w' n := by
  simp only [effect, h]

/-- Raise an exception. -/
def raise (e : ε) : Prog W ε α := fun w n => .raised e w n

/-- The value of a pure computation, or its exception. -/
def ofExcept : Except ε α → Prog W ε α
  | .ok a => pure a
  | .error e => raise e

/-- Run `p` and go on if it raises; a death is none of it. -/
def attempt (p : Prog W ε α) : Prog W ε Unit := fun w n =>
  match p w n with
  | .ok _ w' n' => .ok () w' n'
  | .raised _ w' n' => .ok () w' n'
  | .died w' => .died w'

end Prog

/-! ## Crash triples -/

/-- From `P`, a return of `p` satisfies `Q` and every other end satisfies the
    crash condition `R`, at every crash point. -/
def Triple (P : W → Prop) (p : Prog W ε α) (Q : α → W → Prop) (R : W → Prop) : Prop :=
  ∀ w n, P w → (p w n).Sat Q R

namespace Triple

variable {P P' : W → Prop} {Q Q' : α → W → Prop} {R R' : W → Prop} {p : Prog W ε α}

theorem conseq (h : Triple P p Q R) (hP : ∀ w, P' w → P w)
    (hQ : ∀ a w, Q a w → Q' a w) (hR : ∀ w, R w → R' w) : Triple P' p Q' R' := by
  intro w n hw
  have hsat := h w n (hP w hw)
  cases hrun : p w n with
  | ok a w' n' => rw [hrun] at hsat; exact hQ a w' hsat
  | raised e w' n' => rw [hrun] at hsat; exact hR w' hsat
  | died w' => rw [hrun] at hsat; exact hR w' hsat

theorem pure {a : α} (h : ∀ w, P w → Q a w) :
    Triple P (Pure.pure a : Prog W ε α) Q R :=
  fun w _ hw => h w hw

theorem raise {e : ε} (h : ∀ w, P w → R w) :
    Triple P (Prog.raise e : Prog W ε α) Q R :=
  fun w _ hw => h w hw

theorem bind {M : α → W → Prop} {Q₂ : β → W → Prop} {f : α → Prog W ε β}
    (h : Triple P p M R) (hf : ∀ a, Triple (M a) (f a) Q₂ R) :
    Triple P (p >>= f) Q₂ R := by
  intro w n hw
  have hsat := h w n hw
  show Result.Sat Q₂ R (match p w n with
    | .ok a w' n' => f a w' n'
    | .raised e w' n' => .raised e w' n'
    | .died w' => .died w')
  cases hrun : p w n with
  | ok a w' n' => rw [hrun] at hsat; exact hf a w' n' hsat
  | raised e w' n' => rw [hrun] at hsat; exact hsat
  | died w' => rw [hrun] at hsat; exact hsat

/-- The rule of an effect: the crash condition must hold *before* it. -/
theorem effect {f : W → Except ε α × W} (hcrash : ∀ w, P w → R w)
    (hok : ∀ w a w', P w → f w = (.ok a, w') → Q a w')
    (herr : ∀ w e w', P w → f w = (.error e, w') → R w') :
    Triple P (Prog.effect f) Q R := by
  intro w n hw
  cases n with
  | zero => exact hcrash w hw
  | succ n =>
    simp only [Prog.effect]
    split
    · rename_i a w' hf
      exact hok w a w' hw hf
    · rename_i e w' hf
      exact herr w e w' hw hf

theorem write {f : W → W} {Q : Unit → W → Prop} (hcrash : ∀ w, P w → R w)
    (h : ∀ w, P w → Q () (f w)) : Triple P (Prog.write f : Prog W ε Unit) Q R := by
  apply effect hcrash
  · intro w a w' hw hf
    obtain ⟨-, rfl⟩ := Prod.mk.inj hf
    exact h w hw
  · intro w e w' _ hf
    cases (Prod.mk.inj hf).1

theorem quiet {f : W → α × W} (h : ∀ w, P w → Q (f w).1 (f w).2) :
    Triple P (Prog.quiet f : Prog W ε α) Q R :=
  fun w _ hw => h w hw

theorem look {f : W → α} (h : ∀ w, P w → Q (f w) w) :
    Triple P (Prog.look f : Prog W ε α) Q R :=
  fun w _ hw => h w hw

theorem ofExcept {x : Except ε α} (hok : ∀ a, x = .ok a → ∀ w, P w → Q a w)
    (herr : ∀ w, P w → R w) : Triple P (Prog.ofExcept x : Prog W ε α) Q R := by
  cases x with
  | ok a => exact pure (hok a rfl)
  | error e => exact raise herr

/-- What holds of every end of `p` holds when its exceptions are caught. -/
theorem attempt {I : W → Prop} (h : Triple P p (fun _ => I) I) :
    Triple P (Prog.attempt p) (fun _ => I) I := by
  intro w n hw
  have hsat := h w n hw
  simp only [Prog.attempt]
  cases hrun : p w n with
  | ok a w' n' => rw [hrun] at hsat; exact hsat
  | raised e w' n' => rw [hrun] at hsat; exact hsat
  | died w' => rw [hrun] at hsat; exact hsat

/-- A triple may be proved for each world of its precondition apart. -/
theorem of_forall (h : ∀ w₀, P w₀ → Triple (fun w => w = w₀) p Q R) : Triple P p Q R :=
  fun w n hw => h w hw w n rfl

theorem weaken (h : Triple P p Q R) (hR : ∀ w, R w → R' w) : Triple P p Q R' :=
  h.conseq (fun _ hw => hw) (fun _ _ hq => hq) hR

/-- A fact of the precondition that is not about the world may be assumed. -/
theorem assume {φ : Prop} (h : φ → Triple P p Q R) : Triple (fun w => φ ∧ P w) p Q R :=
  fun w n hw => h hw.1 w n hw.2

/-- Every end of a program with equal post- and crash conditions satisfies them. -/
theorem world_sat {I : W → Prop} (h : Triple P p (fun _ => I) I) {w : W} (hw : P w) (n : Nat) :
    I (p w n).world := by
  have hsat := h w n hw
  cases hrun : p w n with
  | ok a w' n' => rw [hrun] at hsat; exact hsat
  | raised e w' n' => rw [hrun] at hsat; exact hsat
  | died w' => rw [hrun] at hsat; exact hsat

end Triple

/-- `p` keeps `I`, wherever it ends. -/
abbrev Preserves (I : W → Prop) (p : Prog W ε α) : Prop := Triple I p (fun _ => I) I

namespace Preserves

variable {I : W → Prop}

theorem pure (a : α) : Preserves I (Pure.pure a : Prog W ε α) := Triple.pure fun _ h => h

theorem raise (e : ε) : Preserves I (Prog.raise e : Prog W ε α) := Triple.raise fun _ h => h

theorem bind {p : Prog W ε α} {f : α → Prog W ε β} (h : Preserves I p)
    (hf : ∀ a, Preserves I (f a)) : Preserves I (p >>= f) := Triple.bind h hf

theorem quiet {f : W → α × W} (h : ∀ w, I w → I (f w).2) :
    Preserves I (Prog.quiet f : Prog W ε α) := Triple.quiet h

theorem write {f : W → W} (h : ∀ w, I w → I (f w)) :
    Preserves I (Prog.write f : Prog W ε Unit) := Triple.write (fun _ hw => hw) h

theorem look (f : W → α) : Preserves I (Prog.look f : Prog W ε α) := Triple.look fun _ h => h

theorem ofExcept (x : Except ε α) : Preserves I (Prog.ofExcept x : Prog W ε α) :=
  Triple.ofExcept (fun _ _ _ h => h) fun _ h => h

theorem effect {f : W → Except ε α × W} (h : ∀ w, I w → I (f w).2) :
    Preserves I (Prog.effect f : Prog W ε α) := by
  apply Triple.effect fun _ hw => hw
  · intro w a w' hw hf
    simpa [hf] using h w hw
  · intro w e w' hw hf
    simpa [hf] using h w hw

end Preserves

/-! ## Refinement of a step relation -/

/-- What programs are refined to: the atomic steps, the torn steps a death may
    end with, and an invariant of the atomic steps. -/
structure Steps (W : Type) where
  move : W → W → Prop
  torn : W → W → Prop
  inv : W → Prop
  inv_move : ∀ w w', move w w' → inv w → inv w'

namespace Steps

/-- The worlds a run from `w₀` may leave behind: atomic steps, and at most one
    torn step after them. -/
def Leaves (S : Steps W) (w₀ w : W) : Prop :=
  ∃ w₁, Relation.ReflTransGen S.move w₀ w₁ ∧ (w₁ = w ∨ S.torn w₁ w)

variable {S : Steps W} {w₀ w₁ w : W}

theorem Leaves.refl : S.Leaves w w := ⟨w, .refl, .inl rfl⟩

theorem Leaves.of_reaches (h : Relation.ReflTransGen S.move w₀ w) : S.Leaves w₀ w :=
  ⟨w, h, .inl rfl⟩

theorem Leaves.head (h : Relation.ReflTransGen S.move w₀ w₁) (hl : S.Leaves w₁ w) :
    S.Leaves w₀ w := by
  obtain ⟨w₂, hreach, hend⟩ := hl
  exact ⟨w₂, h.trans hreach, hend⟩

end Steps

/-- What the atomic steps keep holds wherever they lead. -/
theorem invariant_of_reaches {M : W → W → Prop} {I : W → Prop}
    (hstep : ∀ w w', M w w' → I w → I w') {w w' : W}
    (h : Relation.ReflTransGen M w w') (hw : I w) : I w' := by
  induction h with
  | refl => exact hw
  | tail _ hM ih => exact hstep _ _ hM ih

/-- From a world with the invariant and `pre`, `p` only ever takes atomic steps
    of `S`, whatever the crash point, and a return also establishes `post`. -/
def Refines (S : Steps W) (pre : W → Prop) (p : Prog W ε α) (post : α → W → Prop) : Prop :=
  ∀ w₀, S.inv w₀ → pre w₀ → Triple (fun w => w = w₀) p
    (fun a w => Relation.ReflTransGen S.move w₀ w ∧ post a w) (S.Leaves w₀)

namespace Refines

variable {S : Steps W} {pre pre' : W → Prop} {post post' : α → W → Prop} {p : Prog W ε α}

theorem conseq (h : Refines S pre p post) (hpre : ∀ w, S.inv w → pre' w → pre w)
    (hpost : ∀ a w, post a w → post' a w) : Refines S pre' p post' := by
  intro w₀ hinv hw₀
  exact (h w₀ hinv (hpre w₀ hinv hw₀)).conseq (fun _ hw => hw)
    (fun a w hq => ⟨hq.1, hpost a w hq.2⟩) (fun _ hr => hr)

theorem pure {a : α} (h : ∀ w, S.inv w → pre w → post a w) :
    Refines S pre (Pure.pure a : Prog W ε α) post := by
  intro w₀ hinv hw₀
  apply Triple.pure
  rintro w rfl
  exact ⟨.refl, h w hinv hw₀⟩

theorem raise {e : ε} : Refines S pre (Prog.raise e : Prog W ε α) post := by
  intro w₀ _ _
  apply Triple.raise
  rintro w rfl
  exact .refl

theorem bind {m : α → W → Prop} {post : β → W → Prop} {f : α → Prog W ε β}
    (h : Refines S pre p m) (hf : ∀ a, Refines S (m a) (f a) post) :
    Refines S pre (p >>= f) post := by
  intro w₀ hinv hw₀
  refine Triple.bind (h w₀ hinv hw₀) ?_
  intro a
  apply Triple.of_forall
  rintro w₁ ⟨hreach, hmid⟩
  -- what `f a` adds starts where `p` stopped, with the invariant kept so far
  have hinv₁ : S.inv w₁ := invariant_of_reaches S.inv_move hreach hinv
  exact (hf a w₁ hinv₁ hmid).conseq (fun _ hw => hw)
    (fun b w hq => ⟨hreach.trans hq.1, hq.2⟩) (fun w hr => hr.head hreach)

theorem write {f : W → W} {post : Unit → W → Prop}
    (h : ∀ w, S.inv w → pre w → S.move w (f w) ∧ post () (f w)) :
    Refines S pre (Prog.write f : Prog W ε Unit) post := by
  intro w₀ hinv hw₀
  apply Triple.write
  · rintro w rfl
    exact .refl
  · rintro w rfl
    exact ⟨.single (h w hinv hw₀).1, (h w hinv hw₀).2⟩

theorem effect {f : W → Except ε α × W}
    (hok : ∀ w a w', S.inv w → pre w → f w = (.ok a, w') → S.move w w' ∧ post a w')
    (herr : ∀ w e w', S.inv w → pre w → f w = (.error e, w') → S.move w w') :
    Refines S pre (Prog.effect f) post := by
  intro w₀ hinv hw₀
  apply Triple.effect
  · rintro w rfl
    exact .refl
  · rintro w a w' rfl hf
    obtain ⟨hM, hpost⟩ := hok w a w' hinv hw₀ hf
    exact ⟨.single hM, hpost⟩
  · rintro w e w' rfl hf
    exact .of_reaches (.single (herr w e w' hinv hw₀ hf))

theorem quiet {f : W → α × W}
    (h : ∀ w, S.inv w → pre w → S.move w (f w).2 ∧ post (f w).1 (f w).2) :
    Refines S pre (Prog.quiet f : Prog W ε α) post := by
  intro w₀ hinv hw₀
  apply Triple.quiet
  rintro w rfl
  exact ⟨.single (h w hinv hw₀).1, (h w hinv hw₀).2⟩

theorem look {f : W → α} (h : ∀ w, S.inv w → pre w → post (f w) w) :
    Refines S pre (Prog.look f : Prog W ε α) post := by
  intro w₀ hinv hw₀
  apply Triple.look
  rintro w rfl
  exact ⟨.refl, h w hinv hw₀⟩

theorem ofExcept {x : Except ε α} (h : ∀ a, x = .ok a → ∀ w, S.inv w → pre w → post a w) :
    Refines S pre (Prog.ofExcept x : Prog W ε α) post := by
  cases x with
  | ok a => exact pure (h a rfl)
  | error e => exact raise

/-- A fact that the precondition gives of every world may be assumed. -/
theorem assume {φ : Prop} (hφ : ∀ w, S.inv w → pre w → φ) (h : φ → Refines S pre p post) :
    Refines S pre p post :=
  fun w₀ hinv hw₀ => h (hφ w₀ hinv hw₀) w₀ hinv hw₀

/-- What the precondition says exists may be fixed. -/
theorem of_exists {ι : Type} {pre : ι → W → Prop} (h : ∀ x, Refines S (pre x) p post) :
    Refines S (fun w => ∃ x, pre x w) p post := by
  rintro w₀ hinv ⟨x, hw₀⟩
  exact h x w₀ hinv hw₀

/-- The frame rule: what every atomic step keeps, a refining program keeps. -/
theorem frame {X : W → Prop} (h : Refines S pre p post)
    (hX : ∀ w w', S.move w w' → X w → X w') :
    Refines S (fun w => X w ∧ pre w) p (fun a w => X w ∧ post a w) := by
  rintro w₀ hinv ⟨hX₀, hw₀⟩
  exact (h w₀ hinv hw₀).conseq (fun _ hw => hw)
    (fun a w hq => ⟨hq.1, invariant_of_reaches hX hq.1 hX₀, hq.2⟩) (fun _ hr => hr)

/-- Two writes as one atomic step; a death between them leaves a torn one. -/
theorem write_write {f g : W → W} {post : Unit → W → Prop}
    (h : ∀ w, S.inv w → pre w → S.torn w (f w) ∧ S.move w (g (f w)) ∧ post () (g (f w))) :
    Refines S pre ((Prog.write f : Prog W ε Unit) >>= fun _ => Prog.write g) post := by
  intro w₀ hinv hw₀
  obtain ⟨htorn, hmove, hpost⟩ := h w₀ hinv hw₀
  have hfirst : Triple (fun w => w = w₀) (Prog.write f : Prog W ε Unit)
      (fun _ w => w = f w₀) (S.Leaves w₀) := by
    apply Triple.write
    · rintro w rfl
      exact .refl
    · rintro w rfl
      rfl
  refine Triple.bind hfirst fun _ => Triple.write ?_ ?_
  · rintro w rfl
    exact ⟨w₀, .refl, .inr htorn⟩
  · rintro w rfl
    exact ⟨.single hmove, hpost⟩

/-- Every end of a refining program is one its steps leave. -/
theorem leaves (h : Refines S pre p post) {w : W} (hinv : S.inv w) (hw : pre w) (n : Nat) :
    S.Leaves w (p w n).world := by
  have hends : Triple (fun w' => w' = w) p (fun _ => S.Leaves w) (S.Leaves w) :=
    (h w hinv hw).conseq (fun _ hw' => hw') (fun _ _ hq => .of_reaches hq.1) (fun _ hr => hr)
  exact hends.world_sat rfl n

/-- A return leaves nothing torn. -/
theorem reaches (h : Refines S pre p post) {w : W} (hinv : S.inv w) (hw : pre w) {n : Nat}
    (hret : (p w n).value?.isSome) : Relation.ReflTransGen S.move w (p w n).world := by
  have hsat := h w hinv hw w n rfl
  cases hrun : p w n with
  | ok a w' n' => rw [hrun] at hsat; exact hsat.1
  | raised e w' n' => rw [hrun] at hret; cases hret
  | died w' => rw [hrun] at hret; cases hret

end Refines

/-- What atomic and torn steps keep holds of every world a run leaves. -/
theorem Steps.Leaves.invariant {S : Steps W} {I J : W → Prop} {w w' : W} (h : S.Leaves w w')
    (hmove : ∀ w w', S.move w w' → I w → I w') (hweak : ∀ w, I w → J w)
    (htorn : ∀ w w', S.torn w w' → I w → J w') (hw : I w) : J w' := by
  obtain ⟨w₁, hreach, hend⟩ := h
  have h₁ : I w₁ := invariant_of_reaches hmove hreach hw
  rcases hend with rfl | ht
  · exact hweak _ h₁
  · exact htorn _ _ ht h₁

/-! ## Sessions: call after call, each with its own crash point -/

section Session

variable {ι : Type} (prog : ι → Prog W ε α)

/-- The world after one call: what is called, and how many effects it lives for. -/
def after (w : W) (c : ι × Nat) : W := (prog c.1 w c.2).world

/-- The world after a session: the calls in order, each from what the one
    before left behind. -/
def session (w : W) (cs : List (ι × Nat)) : W := cs.foldl (after prog) w

@[simp] theorem session_nil (w : W) : session prog w [] = w := rfl

@[simp] theorem session_cons (w : W) (c : ι × Nat) (cs : List (ι × Nat)) :
    session prog w (c :: cs) = session prog (after prog w c) cs := rfl

theorem session_append (w : W) (cs ds : List (ι × Nat)) :
    session prog w (cs ++ ds) = session prog (session prog w cs) ds := List.foldl_append ..

/-- Every call of the session starts in a world that satisfies its condition. -/
def Starts (C : ι → W → Prop) : W → List (ι × Nat) → Prop
  | _, [] => True
  | w, c :: cs => C c.1 w ∧ Starts C (after prog w c) cs

variable {prog}

theorem Starts.mono {C D : ι → W → Prop} {w : W} {cs : List (ι × Nat)} (h : Starts prog C w cs)
    (hCD : ∀ c ∈ cs, ∀ w, C c.1 w → D c.1 w) : Starts prog D w cs := by
  induction cs generalizing w with
  | nil => trivial
  | cons c cs ih =>
    exact ⟨hCD c (List.mem_cons_self ..) w h.1, ih h.2 fun x hx => hCD x (List.mem_cons_of_mem _ hx)⟩

theorem starts_append {C : ι → W → Prop} {w : W} {cs ds : List (ι × Nat)} :
    Starts prog C w (cs ++ ds) ↔ Starts prog C w cs ∧ Starts prog C (session prog w cs) ds := by
  induction cs generalizing w with
  | nil => exact ⟨fun h => ⟨True.intro, h⟩, fun h => h.2⟩
  | cons c cs ih => rw [List.cons_append, Starts, Starts, ih, and_assoc, session_cons]

theorem Starts.trivial (w : W) (cs : List (ι × Nat)) : Starts prog (fun _ _ => True) w cs := by
  induction cs generalizing w with
  | nil => exact True.intro
  | cons c cs ih => exact ⟨True.intro, ih _⟩

/-- The run rule: what every call keeps, from its start condition, holds after
    the whole session. -/
theorem session_invariant {C : ι → W → Prop} {I : W → Prop}
    (hcall : ∀ c w, C c.1 w → I w → I (after prog w c)) {w : W} {cs : List (ι × Nat)}
    (hstart : Starts prog C w cs) (hw : I w) : I (session prog w cs) := by
  induction cs generalizing w with
  | nil => exact hw
  | cons c cs ih => exact ih hstart.2 (hcall c w hstart.1 hw)

end Session

end Crash
