/-
  Slas.Factory.Frame

  What the factory steps leave alone.  A step enters the job's state, sends at most
  one batch, edits the state and saves it; a fact about the plant is then a matter
  of these four, and of the leases and the verdict.
-/

import Slas.Factory.Executor

namespace Slas

open Crash

namespace FactoryExecutor

variable (X : FactoryExecutor)

/-- The recorded problems are those of the recorded readings. -/
def Consistent (s : JobState) : Prop :=
  ∀ limits, s.sensorLimits = some limits → X.sensorProblems s.sensors limits = .ok s.sensorProblems

/-- An edit that a step makes: the station stays, and the records agree. -/
structure Keeps (f : JobState → JobState) : Prop where
  station : ∀ s, (f s).station = s.station
  consistent : ∀ s, X.Consistent s → X.Consistent (f s)

end FactoryExecutor

/-- `I` survives what is done with the state of a job. -/
structure Edits (X : FactoryExecutor) (t : String) (I : Plant → Prop) : Prop where
  edit : ∀ w f, I w → X.Keeps f → I (w.edit t f)
  save : ∀ w, I w → I (w.save t)

/-- `I` survives the beginning of a step. -/
structure Enters (X : FactoryExecutor) (step : Step) (context : ExecutionContext)
    (I : Plant → Prop) : Prop extends Edits X context.ticketId I where
  reload : ∀ w s, I w → w.stateFor context.ticketId = some s → I (w.remember context.ticketId s)
  fresh : ∀ w station, I w → w.stateFor context.ticketId = none →
    X.strArg step "station" = .ok station →
    I (w.remember context.ticketId { ticketId := context.ticketId, station })

/-- A batch takes `P` to `I`, which survives what the step then makes of the answer. -/
structure Sends (X : FactoryExecutor) (step : Step) (context : ExecutionContext)
    (P I : Plant → Prop) : Prop where
  le : ∀ w, P w → I w
  tickBefore : ∀ w, P w → P w.tick
  numbered : ∀ w, P w → I w.numberBatch
  send : ∀ w batch, P w → batch.ticketId = context.ticketId →
    batch.batchId = newBatchId X.digest context.ticketId step.id (w.batches + 1) →
    X.strArg step "station" = .ok batch.station → I (X.sending step.id batch w.numberBatch)
  tick : ∀ w, I w → I w.tick
  edit : ∀ w f, I w → X.Keeps f → I (w.edit context.ticketId f)

variable {X : FactoryExecutor} {step : Step} {context : ExecutionContext} {P I : Plant → Prop}

/-! ## Entering and finishing -/

theorem keeps_cells (cells : List StepCell) : X.Keeps fun s => { s with cells } :=
  ⟨fun _ => rfl, fun _ h => h⟩

theorem keeps_editCell (f : StepCell → StepCell) :
    X.Keeps (FactoryExecutor.editCell step f) :=
  ⟨fun _ => rfl, fun _ h => h⟩

/-- After the beginning of a step, the job is in memory. -/
theorem Enters.enter (hI : Enters X step context I) :
    Triple I (X.enter step context) (fun _ w => I w ∧ (w.memory context.ticketId).isSome) I := by
  have hremember : ∀ (w : Plant) s, ((w.remember context.ticketId s).memory context.ticketId).isSome := by
    simp [Plant.remember]
  have hedit : ∀ (w : Plant) f, (w.memory context.ticketId).isSome →
      ((w.edit context.ticketId f).memory context.ticketId).isSome := by
    simp [Plant.edit]
  have hjob : Triple I (X.jobState step context)
      (fun _ w => I w ∧ (w.memory context.ticketId).isSome) I := by
    apply Triple.bind (M := fun found w => I w ∧ w.stateFor context.ticketId = found)
    · exact Triple.look fun w h => ⟨h, rfl⟩
    · intro found
      cases found with
      | some s => exact Triple.quiet fun w h => ⟨hI.reload w s h.1 h.2, hremember w s⟩
      | none =>
        apply Triple.bind (M := fun station w => X.strArg step "station" = .ok station ∧ I w ∧
          w.stateFor context.ticketId = none)
        · exact Triple.ofExcept (fun station hstation w h => ⟨hstation, h⟩) fun w h => h.1
        · exact fun station => Triple.quiet fun w h =>
            ⟨hI.fresh w station h.2.1 h.2.2 h.1, hremember w _⟩
  refine Triple.bind hjob fun s => ?_
  refine Triple.bind (Triple.ofExcept (fun _ _ _ h => h) fun _ h => h.1) fun total => ?_
  apply Triple.bind (M := fun _ w => I w ∧ (w.memory context.ticketId).isSome)
  · exact Triple.quiet fun w h => ⟨hI.edit w _ h.1 (keeps_cells _), hedit w _ h.2⟩
  intro _
  split
  · exact Triple.raise fun _ h => h.1
  · apply Triple.bind (M := fun _ w => I w ∧ (w.memory context.ticketId).isSome)
    · exact Triple.quiet fun w h => ⟨hI.edit w _ h.1 (keeps_editCell _), hedit w _ h.2⟩
    · exact fun _ => Triple.write (fun _ h => h.1) fun w h => ⟨hI.save w h.1, h.2⟩

open Preserves in
theorem Edits.finish (hI : Edits X context.ticketId I) (observation : Observation) :
    Preserves I (FactoryExecutor.finish step context observation) :=
  bind (quiet fun w h => hI.edit w _ h (keeps_editCell _)) fun _ => bind (write hI.save) fun _ =>
    pure _

open Preserves in
theorem current_preserves (t : String) : Preserves I (FactoryExecutor.current t) := by
  refine bind (look _) fun found => ?_
  cases found with
  | none => exact raise _
  | some s => exact pure _

/-- A step: what its handler keeps, when the beginning keeps what the handler needs;
    the handler finds the job in memory. -/
theorem execute_known_spec (henter : Enters X step context P) (hI : Edits X context.ticketId I)
    (hle : ∀ w, P w → I w)
    (hhandle : Triple (fun w => P w ∧ (w.memory context.ticketId).isSome) (X.handle step context)
      (fun _ => I) I) :
    Triple P (X.execute step context) (fun _ => I) I := by
  unfold FactoryExecutor.execute
  split
  · exact Triple.raise hle
  · refine Triple.bind (henter.enter.weaken hle) fun _ => ?_
    exact Triple.bind hhandle fun observation => hI.finish observation

theorem execute_spec (henter : Enters X step context P) (hI : Edits X context.ticketId I)
    (hle : ∀ w, P w → I w)
    (hhandle : Triple P (X.handle step context) (fun _ => I) I) :
    Triple P (X.execute step context) (fun _ => I) I :=
  execute_known_spec henter hI hle (hhandle.conseq (fun _ h => h.1) (fun _ _ h => h) fun _ h => h)

/-! ## Sending -/

/-- Something pure before the batch. -/
theorem Sends.before {α β : Type} (hI : Sends X step context P I) (x : Except String α)
    {f : α → PlantM β} (h : ∀ a, Triple P (f a) (fun _ => I) I) :
    Triple P (Prog.ofExcept x >>= f) (fun _ => I) I :=
  Triple.bind (Triple.ofExcept (fun _ _ _ hw => hw) hI.le) h

/-- The batch that is made names the ticket, the step and the next number. -/
theorem Sends.batch (hI : Sends X step context P I) (fields : FactoryExecutor.BatchFields) :
    Triple P (X.batch step context fields) (fun batch w => P w ∧
      batch.ticketId = context.ticketId ∧
      batch.batchId = newBatchId X.digest context.ticketId step.id (w.batches + 1) ∧
      X.strArg step "station" = .ok batch.station) I := by
  apply Triple.bind (M := fun number w => P w ∧ number = w.batches + 1)
  · exact Triple.look fun w h => ⟨h, rfl⟩
  intro number
  apply Triple.bind (M := fun station w => X.strArg step "station" = .ok station ∧ P w ∧
    number = w.batches + 1)
  · exact Triple.ofExcept (fun station hstation w h => ⟨hstation, h⟩) fun w h => hI.le w h.1
  intro station
  refine Triple.assume fun hstation => ?_
  apply Triple.bind (M := fun _ w => P w ∧ number = w.batches + 1)
  · exact Triple.quiet fun w h => ⟨hI.tickBefore w h.1, h.2⟩
  · refine fun now => Triple.ofExcept ?_ fun w h => hI.le w h.1
    rintro batch hbatch w ⟨hP, rfl⟩
    unfold FactoryExecutor.makeBatch at hbatch
    split at hbatch
    · obtain rfl := Except.ok.inj hbatch
      exact ⟨hP, rfl, rfl, hstation⟩
    · cases hbatch

/-- The rule of a batch: the step goes on from `I`, or the refusal is observed there. -/
theorem Sends.withBatch (hI : Sends X step context P I) (fields : FactoryExecutor.BatchFields)
    {k : BatchResult → PlantM Observation} (hk : ∀ r, Preserves I (k r)) :
    Triple P (X.withBatch step context fields k) (fun _ => I) I := by
  refine Triple.bind (hI.batch fields) fun batch => ?_
  apply Triple.bind (M := fun _ w => ∃ w₀, w = w₀.numberBatch ∧ P w₀ ∧
    batch.ticketId = context.ticketId ∧
    batch.batchId = newBatchId X.digest context.ticketId step.id (w₀.batches + 1) ∧
    X.strArg step "station" = .ok batch.station)
  · exact Triple.quiet fun w h => ⟨w, rfl, h⟩
  intro _
  have hnumbered : ∀ w, (∃ w₀, w = w₀.numberBatch ∧ P w₀ ∧ batch.ticketId = context.ticketId ∧
      batch.batchId = newBatchId X.digest context.ticketId step.id (w₀.batches + 1) ∧
      X.strArg step "station" = .ok batch.station) → I w := by
    rintro w ⟨w₀, rfl, hP, -⟩
    exact hI.numbered w₀ hP
  apply Triple.bind (M := fun _ => I)
  · unfold FactoryExecutor.dispatch
    split
    · exact Triple.pure hnumbered
    · refine Triple.bind (Triple.ofExcept (fun _ _ _ h => h) hnumbered) fun signed => ?_
      refine Triple.effect hnumbered ?_ ?_
      · rintro w answer w' ⟨w₀, rfl, hP, hticket, hid, hstation⟩ heq
        obtain ⟨-, rfl⟩ := Prod.mk.inj heq
        exact hI.send w₀ batch hP hticket hid hstation
      · rintro w e w' - heq
        cases (Prod.mk.inj heq).1
  intro answer
  cases answer with
  | error m => exact Preserves.pure _
  | ok result => exact Preserves.bind (Preserves.write hI.tick) fun _ => hk result

theorem Sends.readJson (hI : Sends X step context P I)
    {k : Readings → String → Int → PlantM Observation} (hk : ∀ d t c, Preserves I (k d t c)) :
    Triple P (X.readJson step context k) (fun _ => I) I :=
  hI.before _ fun _ => hI.withBatch _ fun _ => hk _ _ _

/-! ## What is on record of a batch -/

/-- A decision that comes in leaves the process and the record of batches alone. -/
theorem arrive_counts (w : Plant) (d : Decision) :
    (X.arrive w d).sent = w.sent ∧ (X.arrive w d).batches = w.batches ∧
      (X.arrive w d).life = w.life := by
  unfold FactoryExecutor.arrive
  split <;> exact ⟨rfl, rfl, rfl⟩

theorem catchUp_counts (w : Plant) :
    (X.catchUp w).sent = w.sent ∧ (X.catchUp w).batches = w.batches ∧
      (X.catchUp w).life = w.life := by
  unfold FactoryExecutor.catchUp
  generalize X.meanwhile w.ticks = decisions
  induction decisions generalizing w with
  | nil => exact ⟨rfl, rfl, rfl⟩
  | cons d decisions ih =>
    obtain ⟨hsent, hbatches, hlife⟩ := ih (X.arrive w d)
    obtain ⟨hsent', hbatches', hlife'⟩ := arrive_counts (X := X) w d
    exact ⟨hsent.trans hsent', hbatches.trans hbatches', hlife.trans hlife'⟩

/-- The decisions that came in before a batch, and the batch on record. -/
theorem sending_spec (stepId : String) (batch : StepBatch) (w : Plant) :
    ∃ e : Sent, (X.sending stepId batch w).sent = w.sent ++ [e] ∧
      (e.ticketId = batch.ticketId ∧ e.stepId = stepId ∧ e.station = batch.station ∧
        e.batchId = batch.batchId) ∧ (e.life = w.life ∧ e.number = w.batches) ∧
      e.arrived = X.meanwhile w.ticks ∧
      e.holder = LeaseTable.holder (X.catchUp w).leases e.station e.at_ := by
  refine ⟨_, congrArg (· ++ [_]) (catchUp_counts w).1, ⟨rfl, rfl, rfl, rfl⟩, ⟨rfl, rfl⟩, rfl, rfl⟩

/-! ## The handlers -/

open Preserves

theorem Sends.editState (hI : Sends X step context P I) {f : JobState → JobState}
    (hf : X.Keeps f) : Preserves I (FactoryExecutor.editState context.ticketId f) :=
  quiet fun w h => hI.edit w f h hf

theorem Sends.command (hI : Sends X step context P I) :
    Triple P (X.command step context) (fun _ => I) I :=
  hI.before _ fun _ => hI.before _ fun _ => hI.withBatch _ fun _ => bind (ofExcept _) fun _ => pure _

theorem Sends.skill (hI : Sends X step context P I) :
    Triple P (X.skill step context) (fun _ => I) I := by
  refine hI.before _ fun compiled => ?_
  cases compiled with
  | none => exact Triple.pure hI.le
  | some compiled => exact hI.before _ fun _ => hI.withBatch _ fun _ => pure _

theorem Sends.waitForScreen (hI : Sends X step context P I) :
    Triple P (X.waitForScreen step context) (fun _ => I) I := by
  refine hI.before _ fun _ => hI.before _ fun _ => ?_
  exact Triple.bind (Triple.quiet hI.tickBefore) fun _ => hI.withBatch _ fun _ => pure _

theorem Sends.configChange (hI : Sends X step context P I) :
    Triple P (X.configChange step context) (fun _ => I) I := by
  unfold FactoryExecutor.configChange
  split
  · exact Triple.pure hI.le
  · exact hI.before _ fun _ => hI.before _ fun _ => hI.withBatch _ fun _ => pure _

theorem Sends.backup (hI : Sends X step context P I) :
    Triple P (X.backup step context) (fun _ => I) I := by
  refine hI.withBatch _ fun result => ?_
  split
  · exact pure _
  · refine bind (current_preserves _) fun s => bind (quiet hI.tick) fun now => ?_
    exact bind (ofExcept _) fun _ => pure _

theorem Sends.readResult (hI : Sends X step context P I) :
    Triple P (X.readResult step context) (fun _ => I) I := by
  refine hI.readJson fun data text code => ?_
  split
  · refine bind (hI.editState ⟨fun _ => rfl, fun _ h => h⟩) fun _ => ?_
    exact bind (ofExcept _) fun _ => pure _
  · exact pure _

theorem Sends.readSensors (hI : Sends X step context P I) :
    Triple P (X.readSensors step context) (fun _ => I) I := by
  refine hI.readJson fun data text code => ?_
  split
  · exact pure _
  · refine bind (ofExcept _) fun limits => ?_
    apply Triple.bind (M := fun problems w => X.sensorProblems data limits = .ok problems ∧ I w)
    · exact Triple.ofExcept (fun problems hproblems w h => ⟨hproblems, h⟩) fun w h => h
    · refine fun problems => Triple.assume fun hproblems => ?_
      refine bind (hI.editState ⟨fun _ => rfl, fun s _ limits' hlimits => ?_⟩) fun _ => pure _
      obtain rfl := Option.some.inj hlimits
      exact hproblems

theorem Sends.checkEventLog (hI : Sends X step context P I) :
    Triple P (X.checkEventLog step context) (fun _ => I) I := by
  refine hI.before _ fun _ => hI.withBatch _ fun result => ?_
  refine bind (hI.editState ⟨fun _ => rfl, fun _ h => h⟩) fun _ => ?_
  split <;> exact pure _

/-- Every verb that sends a batch. -/
theorem Sends.handle (hI : Sends X step context P I) (hlease : step.primitive ≠ "lease_station")
    (hrelease : step.primitive ≠ "release_station") (hverdict : step.primitive ≠ "verdict") :
    Triple P (X.handle step context) (fun _ => I) I := by
  unfold FactoryExecutor.handle
  split
  · exact absurd ‹_› hlease
  · exact hI.command
  · exact hI.skill
  · exact hI.waitForScreen
  · exact hI.readResult
  · exact hI.readSensors
  · exact hI.checkEventLog
  · exact absurd ‹_› hverdict
  · exact hI.backup
  · exact absurd ‹_› hrelease
  · exact hI.configChange

/-! ## Leases and verdicts -/

/-- A granted lease takes `P` to `I`. -/
theorem lease_spec (hle : ∀ w, P w → I w.tick)
    (hgranted : ∀ w station lease items, P w → X.strArg step "station" = .ok station →
      LeaseTable.acquire "station" w.leases station context.ticketId context.user (X.clock w.ticks)
        X.leaseHours = .ok (lease, items) →
      I { w.tick.note (.granted context.ticketId station) with leases := items })
    (hraise : ∀ w, P w → I w) (hedit : ∀ w f, I w → X.Keeps f → I (w.edit context.ticketId f)) :
    Triple P (X.lease step context) (fun _ => I) I := by
  apply Triple.bind (M := fun station w => X.strArg step "station" = .ok station ∧ P w)
  · exact Triple.ofExcept (fun station hstation w h => ⟨hstation, h⟩) hraise
  refine fun station => Triple.assume fun hstation => ?_
  apply Triple.bind (M := fun now w => ∃ w₀, w = w₀.tick ∧ now = X.clock w₀.ticks ∧ P w₀)
  · exact Triple.quiet fun w h => ⟨w, rfl, rfl, h⟩
  intro now
  have hI : ∀ w, (∃ w₀, w = w₀.tick ∧ now = X.clock w₀.ticks ∧ P w₀) → I w := by
    rintro w ⟨w₀, rfl, -, h⟩
    exact hle w₀ h
  apply Triple.bind (M := fun _ => I)
  · refine Triple.effect hI ?_ ?_
    · rintro w answer w' ⟨w₀, rfl, rfl, h⟩ heq
      split at heq
      · obtain ⟨-, rfl⟩ := Prod.mk.inj heq
        exact hgranted w₀ station _ _ h hstation ‹_›
      · obtain ⟨-, rfl⟩ := Prod.mk.inj heq
        exact hle w₀ h
      · cases (Prod.mk.inj heq).1
    · rintro w e w' hw heq
      split at heq
      · cases (Prod.mk.inj heq).1
      · cases (Prod.mk.inj heq).1
      · obtain ⟨-, rfl⟩ := Prod.mk.inj heq
        exact hI w hw
  · intro answer
    cases answer with
    | error m => exact pure _
    | ok lease =>
      exact bind (quiet fun w h => hedit w _ h ⟨fun _ => rfl, fun _ h => h⟩) fun _ => pure _

/-- A release keeps `I` when the table's own does. -/
theorem release_spec
    (hrelease : ∀ w station, I w → X.strArg step "station" = .ok station →
      I (w.release station context.ticketId))
    (hedit : ∀ w f, I w → X.Keeps f → I (w.edit context.ticketId f)) :
    Preserves I (X.release step context) := by
  apply Triple.bind (M := fun station w => X.strArg step "station" = .ok station ∧ I w)
  · exact Triple.ofExcept (fun station hstation w h => ⟨hstation, h⟩) fun w h => h
  refine fun station => Triple.assume fun hstation => ?_
  refine bind (effect fun w h => hrelease w station h hstation) fun released => ?_
  refine bind (quiet fun w h => hedit w _ h ⟨fun _ => rfl, fun _ h => h⟩) fun _ => ?_
  exact bind (current_preserves _) fun s => pure _

/-- `I` survives a verdict; `C` is known of the job's states. -/
structure Judges (X : FactoryExecutor) (t : String) (C : JobState → Prop) (I : Plant → Prop) :
    Prop extends Edits X t I where
  known : ∀ w s, I w → w.memory t = some s → C s
  voters : ∀ w, I w → I (X.catchUp w).tick
  held : ∀ w s h, I w → w.memory t = some s →
    I ((w.edit t (FactoryExecutor.heldState h)).note (.held t s.station (w.leases s.station)))
  passed : ∀ w s (verdict : ConsensusVerdict), I w → C s → X.gateReasons s = .ok [] →
    verdict.agreed = true → 3 ≤ FactoryExecutor.approvals verdict.votes → 3 ≤ verdict.votes.length →
    I { w.edit t (FactoryExecutor.passedState verdict) with
        passes := w.passes ++ [⟨s, verdict.agreed, FactoryExecutor.approvals verdict.votes,
          verdict.votes.length⟩] }

theorem current_spec (t : String) :
    Triple I (FactoryExecutor.current t) (fun s w => I w ∧ w.memory t = some s) I := by
  apply Triple.bind (M := fun found w => I w ∧ w.memory t = found)
  · exact Triple.look fun w h => ⟨h, rfl⟩
  · intro found
    cases found with
    | none => exact Triple.raise fun w h => h.1
    | some s => exact Triple.pure fun w h => h

theorem Judges.hold {t : String} {C : JobState → Prop} (hI : Judges X t C I)
    (h : FactoryExecutor.HoldReason) : Preserves I (X.hold t h) := by
  refine Triple.bind (current_spec t) fun s => ?_
  apply Triple.bind (M := fun _ => I)
  · exact Triple.quiet fun w hw => hI.held w s h hw.1 hw.2
  · exact fun _ => bind (ofExcept _) fun _ => pure _

theorem Judges.verdict {t : String} {C : JobState → Prop} (hI : Judges X t C I) :
    Preserves I (X.verdict t) := by
  apply Triple.bind (M := fun s w => C s ∧ I w)
  · exact (current_spec t).conseq (fun _ h => h) (fun s w h => ⟨hI.known w s h.1 h.2, h.1⟩)
      fun _ h => h
  refine fun s => Triple.assume fun hs => ?_
  apply Triple.bind (M := fun reasons w => X.gateReasons s = .ok reasons ∧ I w)
  · exact Triple.ofExcept (fun reasons hreasons w h => ⟨hreasons, h⟩) fun w h => h
  refine fun reasons => Triple.assume fun hreasons => ?_
  split
  · split
    · exact hI.hold _
    · refine bind (effect fun w h => hI.voters w h) fun answer => ?_
      refine bind (quiet fun w h => hI.edit w _ h ⟨fun _ => rfl, fun _ h => h⟩) fun _ => ?_
      split
      · rename_i hpass
        refine bind (quiet fun w h => ?_) fun _ => pure _
        exact hI.passed w s _ h hs hreasons hpass.1 hpass.2.1 hpass.2.2
      · exact hI.hold _
  · exact hI.hold _

/-! ## The other requests -/

/-- A decision takes `I` to `M`, which survives the release of the station. -/
theorem decide_spec {M : Plant → Prop} (d : Decision)
    (hdecided : ∀ w s, I w → w.stateFor d.ticketId = some s → M (X.decideInMemory d s w))
    (hle : ∀ w, M w → I w) (hrelease : ∀ w station, M w → M (w.release station d.ticketId))
    (htick : ∀ w, M w → M w.tick) (hsave : ∀ w, M w → M (w.save d.ticketId)) :
    Preserves I (X.decide d) := by
  apply Triple.bind (M := fun found w => I w ∧ w.stateFor d.ticketId = found)
  · exact Triple.look fun w h => ⟨h, rfl⟩
  intro found
  cases found with
  | none => exact Triple.raise fun w h => h.1
  | some s =>
    apply Triple.bind (M := fun _ => M)
    · exact Triple.quiet fun w h => hdecided w s h.1 h.2
    · have hafter : Preserves M (do
          Prog.write (Plant.release s.station d.ticketId)
          Prog.write Plant.tick
          Prog.write (Plant.save d.ticketId) : PlantM Unit) :=
        bind (write fun w h => hrelease w _ h) fun _ => bind (write htick) fun _ => write hsave
      exact fun _ => hafter.conseq (fun _ h => h) (fun _ => hle) hle

/-- The operator's control sends one batch, on the station of the job. -/
theorem control_spec {t : String} {verb : ControlVerb} {by_ : String} (hle : ∀ w, P w → I w)
    (hnumbered : ∀ w s, P w → w.stateFor t = some s → I (w.remember t s).numberBatch)
    (hsend : ∀ w s batch, P w → w.stateFor t = some s → batch.ticketId = t →
      batch.station = s.station →
      batch.batchId = newBatchId X.digest t ("control-" ++ verb.value) (w.batches + 1) →
      I (X.sending ("control-" ++ verb.value) batch (w.remember t s).numberBatch.tick))
    (htick : ∀ w, I w → I w.tick) : Triple P (X.control t verb by_) (fun _ => I) I := by
  apply Triple.bind (M := fun found w => P w ∧ w.stateFor t = found)
  · exact Triple.look fun w h => ⟨h, rfl⟩
  intro found
  cases found with
  | none => exact Triple.raise fun w h => hle w h.1
  | some s =>
    apply Triple.bind (M := fun _ w => ∃ w₀, w = (w₀.remember t s).numberBatch ∧ P w₀ ∧
      w₀.stateFor t = some s)
    · exact Triple.quiet fun w h => ⟨w, rfl, h⟩
    intro _
    apply Triple.bind (M := fun number w => ∃ w₀, w = (w₀.remember t s).numberBatch ∧
      number = w₀.batches + 1 ∧ P w₀ ∧ w₀.stateFor t = some s)
    · refine Triple.look ?_
      rintro w ⟨w₀, rfl, h⟩
      exact ⟨w₀, rfl, rfl, h⟩
    intro number
    apply Triple.bind (M := fun _ w => ∃ w₀, w = (w₀.remember t s).numberBatch.tick ∧
      number = w₀.batches + 1 ∧ P w₀ ∧ w₀.stateFor t = some s)
    · refine Triple.quiet ?_
      rintro w ⟨w₀, rfl, h⟩
      exact ⟨w₀, rfl, h⟩
    intro now
    have hI : ∀ w, (∃ w₀, w = (w₀.remember t s).numberBatch.tick ∧ number = w₀.batches + 1 ∧
        P w₀ ∧ w₀.stateFor t = some s) → I w := by
      rintro w ⟨w₀, rfl, -, hP, hs⟩
      exact htick _ (hnumbered w₀ s hP hs)
    apply Triple.bind (M := fun batch w => (batch.ticketId = t ∧ batch.station = s.station ∧
      batch.batchId = newBatchId X.digest t ("control-" ++ verb.value) number) ∧
      ∃ w₀, w = (w₀.remember t s).numberBatch.tick ∧ number = w₀.batches + 1 ∧ P w₀ ∧
        w₀.stateFor t = some s)
    · refine Triple.ofExcept (fun batch hbatch w h => ⟨?_, h⟩) hI
      unfold FactoryExecutor.makeBatch at hbatch
      split at hbatch
      · obtain rfl := Except.ok.inj hbatch
        exact ⟨rfl, rfl, rfl⟩
      · cases hbatch
    refine fun batch => Triple.assume fun ⟨hticket, hstation, hid⟩ => ?_
    apply Triple.bind (M := fun _ => I)
    · unfold FactoryExecutor.dispatch
      split
      · exact Triple.pure hI
      · refine Triple.bind (Triple.ofExcept (fun _ _ _ h => h) hI) fun signed => ?_
        refine Triple.effect hI ?_ ?_
        · rintro w answer w' ⟨w₀, rfl, rfl, hP, hs⟩ heq
          obtain ⟨-, rfl⟩ := Prod.mk.inj heq
          exact hsend w₀ s batch hP hs hticket hstation hid
        · rintro w e w' - heq
          cases (Prod.mk.inj heq).1
    · intro answer
      cases answer with
      | error m => exact raise _
      | ok result => exact write htick

/-- A request keeps what its call keeps and what does not depend on who serves it. -/
theorem request_spec {r : FactoryRequest} {B : Plant → Prop}
    (hbegin : ∀ w, B w → P (w.begin r.restarted))
    (hcall : Triple P (r.call.prog X) (fun _ => I) I) (hanswered : ∀ w, I w → I w.answered) :
    Triple B (r.prog X) (fun _ => I) I := by
  apply Triple.bind (M := fun _ => P)
  · exact Triple.quiet hbegin
  · exact fun _ => Triple.bind (Triple.attempt hcall) fun _ => quiet hanswered

end Slas
