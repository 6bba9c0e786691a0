/-
  Slas.Validation.Frame

  What the steps leave alone.  A fact that survives a hardware call, a reading of
  the clock and a file survives every step but the leases and the power cycle;
  each property of the executor is then a matter of those three.
-/

import Slas.Validation.Executor

namespace Slas

open Crash

variable {Snap : Type} {X : ValidationExecutor Snap} {I : Bench Snap → Prop}

/-- `I` survives what a step of the ticket does on the target, leases and cycles
    apart. -/
structure Survives (X : ValidationExecutor Snap) (ticketId target : String)
    (I : Bench Snap → Prop) : Prop where
  called : ∀ w, I w → I (X.called ticketId target w)
  tick : ∀ w, I w → I w.tick
  touch : ∀ w path, I w → I (w.touch path)
  baselines : ∀ w b, I w → I { w with baselines := b }

/-- `I` survives the journal and the record of the cycle, too. -/
structure SurvivesPhases (X : ValidationExecutor Snap) (c : CycleCall) (I : Bench Snap → Prop) :
    Prop extends Survives X c.ticketId c.target I where
  editJournal : ∀ w g, I w → I (w.editJournal c.ticketId c.n g)
  log : ∀ w e, I w → I (w.log c.ticketId c.n e)

/-- `I` survives a new lease table. -/
def SurvivesLeases (I : Bench Snap → Prop) : Prop := ∀ w items, I w → I { w with leases := items }

theorem Preserves.callHal {α : Type} {t m : String} (hI : Survives X t m I)
    (f : Nat → Except String α) : Preserves I (X.callHal t m f) := Preserves.effect hI.called

open Preserves in
/-- Every handler but those of the leases and of the power cycle. -/
theorem Survives.handle {context : ExecutionContext} {target : String}
    (hI : Survives X context.ticketId target I) (spec : PlanPrimitive) {step : Step}
    (hlease : step.primitive ≠ "lease_target") (hrelease : step.primitive ≠ "release_target")
    (hpower : step.primitive ≠ "power_cycle") :
    Preserves I (X.handle spec step context target) := by
  have htool : Preserves I (X.tool step context target) :=
    bind (ofExcept _) fun _ => bind (callHal hI _) fun _ => pure _
  unfold ValidationExecutor.handle
  split
  · exact absurd ‹_› hlease
  · exact bind (callHal hI _) fun _ => pure _
  · exact bind (callHal hI _) fun _ => bind (write fun w hw => hI.baselines w _ hw) fun _ => pure _
  · exact absurd ‹_› hpower
  · refine bind (callHal hI _) fun _ => bind (quiet hI.tick) fun _ => ?_
    exact bind (write fun w hw => hI.touch w _ hw) fun _ => pure _
  · exact bind (callHal hI _) fun _ => pure _
  · exact htool
  · exact htool
  · refine bind (callHal hI _) fun _ => bind (write fun w hw => hI.touch w _ hw) fun _ => ?_
    exact bind (look _) fun _ => pure _
  · exact absurd ‹_› hrelease
  · unfold ValidationExecutor.destructive
    split
    · exact pure _
    · exact bind (callHal hI _) fun _ => bind (callHal hI _) fun _ => pure _

open Preserves in
theorem Survives.lease {context : ExecutionContext} {target : String}
    (hI : Survives X context.ticketId target I) (hleases : SurvivesLeases I) :
    Preserves I (X.lease context target) := by
  refine bind (quiet hI.tick) fun now => bind (effect fun w hw => ?_) fun answer => ?_
  · split
    · exact hleases w _ hw
    · exact hw
    · exact hw
  · split <;> exact pure _

open Preserves in
theorem release_preserves (hleases : SurvivesLeases I) (context : ExecutionContext)
    (target : String) : Preserves I (ValidationExecutor.release context target) := by
  refine bind (effect fun w hw => ?_) fun _ => pure _
  split
  · exact hleases w _ hw
  · exact hw

open Preserves in
/-- A step keeps what survives calls, files and leases, if its power cycle does. -/
theorem execute_preserves {step : Step} {context : ExecutionContext}
    (hI : ∀ target, Survives X context.ticketId target I) (hleases : SurvivesLeases I)
    (hpower : step.primitive = "power_cycle" →
      ∀ target, Preserves I (X.powerCycle step context target)) :
    Preserves I (X.execute step context) := by
  unfold ValidationExecutor.execute
  split
  · exact raise _
  · split
    · exact raise _
    · rename_i spec _ _ target _
      by_cases hlease : step.primitive = "lease_target"
      · simp only [ValidationExecutor.handle, hlease]
        exact (hI _).lease hleases
      · by_cases hrelease : step.primitive = "release_target"
        · simp only [ValidationExecutor.handle, hrelease]
          exact release_preserves hleases context _
        · by_cases hcycle : step.primitive = "power_cycle"
          · simp only [ValidationExecutor.handle, hcycle]
            exact hpower hcycle _
          · exact (hI _).handle spec hlease hrelease hcycle

/-! ## The phases of a cycle -/

namespace SurvivesPhases

open Preserves

variable {c : CycleCall} (hI : SurvivesPhases X c I)

include hI

theorem append (phase : Phase) (detail : List (String × Json)) (action : Option PowerAction) :
    Preserves I (X.append c phase detail action) := by
  refine bind (quiet hI.tick) fun at_ => bind (write fun w h => hI.editJournal w _ h) fun _ => ?_
  refine bind (write fun w h => ?_) fun _ => write fun w h => hI.editJournal w _ h
  unfold ValidationExecutor.finishEntry
  split
  · exact hI.log _ _ (hI.editJournal w _ h)
  · exact hI.editJournal w _ h

omit hI in
theorem done : Preserves I (ValidationExecutor.done c : BenchM Snap (List Phase)) := by
  refine bind (look _) fun file => ?_
  split
  · exact pure _
  · exact raise _

theorem arm (done : List Phase) : Preserves I (X.arm c done) := by
  unfold ValidationExecutor.arm
  split
  · exact pure _
  · exact hI.append _ _ _

theorem quiesce (done : List Phase) : Preserves I (X.quiesce c done) := by
  unfold ValidationExecutor.quiesce
  split
  · exact pure _
  · refine bind (callHal hI.toSurvives _) fun _ => bind (callHal hI.toSurvives _) fun before => ?_
    refine bind (write fun w h => hI.touch w _ h) fun _ => ?_
    exact bind (callHal hI.toSurvives _) fun _ => hI.append _ _ _

theorem act (hpower : ∀ p, Preserves I (X.power c p)) (done : List Phase) :
    Preserves I (X.act c done) := by
  unfold ValidationExecutor.act
  split
  · exact pure _
  · split
    · exact raise _
    · refine bind (hI.append _ _ _) fun _ => bind (hpower _) fun _ => ?_
      unfold ValidationExecutor.powerOn
      split
      · exact hpower _
      · exact pure _

theorem verify (baseline : Snap) (booted : Bool) : Preserves I (X.verify c baseline booted) := by
  unfold ValidationExecutor.verify
  split
  · refine bind (callHal hI.toSurvives _) fun snapshot => ?_
    refine bind (write fun w h => hI.touch w _ h) fun _ => ?_
    exact bind (hI.append _ _ _) fun _ => pure _
  · exact bind (hI.append _ _ _) fun _ => pure _

end SurvivesPhases

/-! ## A whole power cycle -/

/-- `I` survives the run state and the history, too. -/
structure SurvivesCycle (X : ValidationExecutor Snap) (c : CycleCall) (I : Bench Snap → Prop) :
    Prop extends SurvivesPhases X c I where
  note : ∀ w e, I w → I (w.note c.ticketId e)
  states : ∀ w states, I w → I { w with states }
  runs : ∀ w runs, I w → I { w with runs }

namespace SurvivesCycle

open Preserves

theorem saveState {c : CycleCall} (hI : SurvivesCycle X c I) (s : RunState) :
    Preserves I (ValidationExecutor.saveState s) :=
  write fun _ h => hI.runs _ _ (hI.states _ _ h)

theorem runCycle {c : CycleCall} (hI : SurvivesCycle X c I) (baseline : Snap) :
    Preserves I (X.runCycle c baseline) := by
  have hpower : ∀ p, Preserves I (X.power c p) := fun p =>
    effect fun w h => hI.called _ (hI.note _ _ (hI.log w _ h))
  refine bind (quiet fun w h => hI.log w _ h) fun _ => bind SurvivesPhases.done fun done => ?_
  refine bind (hI.arm done) fun _ => bind (hI.quiesce done) fun _ => ?_
  refine bind (hI.act hpower done) fun _ => bind ?_ fun booted => ?_
  · refine bind (quiet fun w h => hI.log w _ h) fun _ => bind (callHal hI.toSurvives _) fun booted => ?_
    exact bind (quiet fun w h => hI.note w _ h) fun _ => bind (hI.append _ _ _) fun _ => pure booted
  · refine bind (hI.verify baseline booted) fun _ => bind (callHal hI.toSurvives _) fun _ => ?_
    refine bind (write fun w h => hI.touch w _ h) fun _ => ?_
    exact bind (quiet fun w h => hI.log w _ h) fun _ => pure _

theorem concludeCycle {c : CycleCall} (hI : SurvivesCycle X c I) (s : RunState)
    (result : CycleResult) : Preserves I (X.concludeCycle c s result) := by
  refine bind (ofExcept _) fun findings => bind (ofExcept _) fun gated => ?_
  refine bind (write fun w h => hI.note _ _ (hI.runs _ _ (hI.states w _ h))) fun _ => ?_
  exact bind (callHal hI.toSurvives _) fun _ => pure _

theorem powerCycle {step : Step} {context : ExecutionContext} {target : String}
    (hI : ∀ c : CycleCall, c.ticketId = context.ticketId → c.target = target →
      SurvivesCycle X c I) : Preserves I (X.powerCycle step context target) := by
  have hany := hI ⟨context.ticketId, target, 0, "", 0⟩ rfl rfl
  refine bind (ofExcept _) fun n => bind (ofExcept _) fun total => ?_
  refine bind (quiet fun w h => hany.states w _ h) fun s => ?_
  split
  · exact pure _
  · split
    · refine bind (hany.saveState _) fun _ => bind (ofExcept _) fun settleS => ?_
      refine bind (bind (look _) fun b => ?_) fun baseline => ?_
      · split
        · exact pure _
        · exact raise _
      · have hc := hI ⟨context.ticketId, target, n.toNat, X.kindOf step, settleS⟩ rfl rfl
        exact bind (hc.runCycle baseline) fun result => hc.concludeCycle _ result
    · exact raise _

end SurvivesCycle

end Slas
