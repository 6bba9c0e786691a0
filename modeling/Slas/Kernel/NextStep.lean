/-
  Slas.Kernel.NextStep

  The step that `resume` goes on with.

  `nextStep` reads it off the stored ticket and its journal: the first step of the plan
  without a journalled observation, unless a step before it is saved as failed.  Where there
  is none, `resume` calls no executor, at whatever write it dies (`resume_quiet`).
-/

import Slas.Kernel.RefineCalls

namespace Slas

open Crash

/-! ## The next step -/

/-- The first step that the loop of `_act` performs. -/
def firstOpen (completed : String → Option JournalEntry) (ticket : Ticket) :
    List Step → Option Step
  | [] => none
  | step :: steps =>
    match ticket.stepRecord step.id with
    | none => none
    | some record =>
      if record.status = .failed then none
      else if (completed step.id).isSome ∨ record.status = .skipped then
        firstOpen completed ticket steps
      else some step

/-- `resume` goes on with ACT. -/
def Acts (t : Ticket) : Prop :=
  t.state = .planned ∧ t.pendingApprovals = [] ∨ t.state = .approved ∨ t.state = .running

instance : DecidablePred Acts := fun _ => inferInstanceAs (Decidable (_ ∨ _))

/-- The step that `resume` of a ticket performs first. -/
def nextStep (w : World) (i : String) : Option Step :=
  (w.tickets i).bind fun t =>
    if Acts t then t.plan.bind fun plan => firstOpen (completedSteps (w.journals i)) t plan.steps
    else none

variable {K : Kernel} {completed : String → Option JournalEntry} {interrupted : Option String}
  {t t' : Ticket} {plan : Plan} {steps : List Step} {cs : List ExecCall} {i : String} {w : World}

/-- Only the records of the steps count. -/
theorem firstOpen_congr (h : ∀ s ∈ steps, t.stepRecord s.id = t'.stepRecord s.id) :
    firstOpen completed t steps = firstOpen completed t' steps := by
  induction steps with
  | nil => rfl
  | cons step steps ih =>
    rw [firstOpen, firstOpen, h step List.mem_cons_self,
      ih fun s hs => h s (List.mem_cons_of_mem _ hs)]

/-! ## What calls no executor -/

/-- These calls were made, and these steps are observed in the journal of the ticket. -/
def Still (cs : List ExecCall) (i : String) (completed : String → Option JournalEntry)
    (w : World) : Prop := w.calls = cs ∧ completedSteps (w.journals i) = completed

/-- Wherever the program ends, it has called no executor. -/
abbrev Quiet {α : Type} (p : KernelM α) : Prop :=
  ∀ cs, Preserves (fun w : World => w.calls = cs) p

theorem quiet_entries : Quiet (journal.entries i) := by
  intro cs
  refine Preserves.bind (Preserves.look _) fun es => ?_
  split_ifs
  · exact Preserves.pure _
  · exact Preserves.raise _

theorem quiet_append {kind : JournalKind} {payload : List (String × Json)}
    {stepId : Option String} : Quiet (journal.append K i kind payload stepId) := by
  intro cs
  refine Preserves.bind (quiet_entries cs) fun es => ?_
  refine Preserves.bind (Preserves.quiet fun _ hw => hw) fun at_ => ?_
  exact Preserves.write fun _ hw => hw

theorem quiet_raisedBy {α : Type} (x : Except String α) : Quiet (raisedBy x) :=
  fun _ => Preserves.ofExcept _

theorem quiet_now : Quiet K.now := fun _ => Preserves.quiet fun _ hw => hw

theorem quiet_save : Quiet (store.save t) := fun _ => Preserves.write fun _ hw => hw

theorem quiet_transition {target : TicketState} {reason : String} :
    Quiet (K.transition t target reason) := by
  intro cs
  refine Preserves.bind (quiet_now cs) fun at_ => ?_
  split
  · exact Preserves.raise _
  · refine Preserves.bind (quiet_append cs) fun _ => ?_
    exact Preserves.bind (quiet_save cs) fun _ => Preserves.pure _

theorem quiet_nextTicketId {a : AgentName} : Quiet (store.nextTicketId a) := by
  intro cs
  refine Preserves.bind (Preserves.look _) fun n => ?_
  exact Preserves.bind (Preserves.write fun _ hw => hw) fun _ => Preserves.pure _

theorem quiet_collectLogs : Quiet (K.collectLogs t) := by
  intro cs
  refine Preserves.bind (Preserves.write fun _ hw => hw) fun _ => ?_
  exact Preserves.bind (Preserves.write fun _ hw => hw) fun _ => Preserves.pure _

theorem quiet_analyse : Quiet (K.analyse t) := by
  intro cs
  unfold Kernel.analyse
  split
  · exact Preserves.bind (quiet_append cs) fun _ => Preserves.pure _
  · refine Preserves.bind (quiet_raisedBy _ cs) fun result => ?_
    exact Preserves.bind (quiet_append cs) fun _ => Preserves.pure _

theorem quiet_trackChild {child : Ticket} {digest : Fingerprint} :
    Quiet (Kernel.trackChild child digest i) :=
  fun _ => Preserves.bind (Preserves.write fun _ hw => hw) fun _ =>
    Preserves.write fun _ hw => hw

theorem quiet_spawnLoop {votes : List Vote} (findings : List Finding) :
    Quiet (K.spawnLoop t votes findings) := by
  intro cs
  induction findings with
  | nil => exact Preserves.pure _
  | cons finding findings ih =>
    rw [Kernel.spawnLoop]
    split
    · exact Preserves.bind ih fun _ => Preserves.pure _
    · refine Preserves.bind (Preserves.look _) fun known => ?_
      split
      · refine Preserves.bind (Preserves.write fun _ hw => hw) fun _ => ?_
        exact Preserves.bind ih fun _ => Preserves.pure _
      · refine Preserves.bind (quiet_now cs) fun now => ?_
        refine Preserves.bind (quiet_nextTicketId cs) fun id => ?_
        refine Preserves.bind (quiet_trackChild cs) fun _ => ?_
        exact Preserves.bind ih fun _ => Preserves.pure _

theorem quiet_noteSpawned {spawned : List String} : Quiet (K.noteSpawned t spawned) := by
  intro cs
  unfold Kernel.noteSpawned
  split_ifs
  · exact Preserves.pure _
  · exact quiet_append cs

theorem quiet_writeSop : Quiet (K.writeSop t) := by
  intro cs
  refine Preserves.bind (quiet_raisedBy _ cs) fun rendered => ?_
  refine Preserves.bind (Preserves.write fun _ hw => hw) fun _ => ?_
  refine Preserves.bind (Preserves.write fun _ hw => hw) fun _ => ?_
  refine Preserves.bind (Preserves.write fun _ hw => hw) fun _ => ?_
  exact Preserves.bind (quiet_append cs) fun _ => Preserves.pure _

theorem quiet_analyseAndClose : Quiet (K.analyseAndClose t) := by
  intro cs
  refine Preserves.bind (quiet_collectLogs cs) fun logs => ?_
  refine Preserves.bind (quiet_append cs) fun _ => ?_
  refine Preserves.bind (quiet_analyse cs) fun analysed => ?_
  refine Preserves.bind ?_ fun spawned => ?_
  · exact Preserves.bind (quiet_spawnLoop _ cs) fun _ => Preserves.pure _
  · refine Preserves.bind (quiet_noteSpawned cs) fun _ => ?_
    refine Preserves.bind (quiet_writeSop cs) fun rendered => ?_
    exact Preserves.bind (quiet_save cs) fun _ => quiet_transition cs

/-- A step is restored; the records of the others stay. -/
theorem restore_others {record : StepRecord} {payload : List (String × Json)} :
    Triple (fun w : World => w.calls = cs) (K.restoreFromJournal t plan record payload)
      (fun t' w => w.calls = cs ∧ ∀ s, s ≠ record.stepId → t'.stepRecord s = t.stepRecord s)
      (fun w => w.calls = cs) := by
  unfold Kernel.restoreFromJournal
  split
  · exact Triple.raise fun _ hw => hw
  · split
    · exact Triple.raise fun _ hw => hw
    · refine Triple.bind (M := fun _ w => w.calls = cs) ?_ fun finished => Triple.pure ?_
      · unfold Kernel.orNow
        split
        · exact Triple.pure fun _ hw => hw
        · exact quiet_now cs
      · exact fun w hw => ⟨hw, fun s hs => stepRecord_updateRecord (fun _ => rfl) hs⟩

theorem stepRecord_stepId {s : String} {r : StepRecord} (h : t.stepRecord s = some r) :
    r.stepId = s := by
  simpa using List.find?_some h

/-- Where no step is open, the loop performs none. -/
theorem quiet_actLoop (hopen : firstOpen completed t steps = none)
    (hnodup : (steps.map (·.id)).Nodup) :
    Preserves (fun w : World => w.calls = cs)
      (K.actLoop plan completed interrupted steps t) := by
  induction steps generalizing t with
  | nil => exact Preserves.pure _
  | cons step steps ih =>
    obtain ⟨hstep, hrest⟩ := List.nodup_cons.mp hnodup
    rw [firstOpen] at hopen
    rw [Kernel.actLoop]
    cases hrecord : t.stepRecord step.id with
    | none => exact Preserves.raise _
    | some record =>
      simp only [hrecord] at hopen ⊢
      by_cases hfailed : record.status = .failed
      · rw [if_pos hfailed]
        exact Preserves.pure _
      · rw [if_neg hfailed] at hopen ⊢
        cases hcompleted : completed step.id with
        | none =>
          by_cases hskipped : record.status = .skipped
          · rw [if_pos (Or.inr hskipped)] at hopen
            simp only [if_pos hskipped]
            exact ih hopen hrest
          · simp [hcompleted, hskipped] at hopen
        | some entry =>
          rw [if_pos (Or.inl (by simp [hcompleted]))] at hopen
          dsimp only
          split
          · refine Triple.bind restore_others fun t' => ?_
            apply Triple.of_forall
            rintro w₀ ⟨hcalls, hothers⟩
            have hsame : ∀ s ∈ steps, t.stepRecord s.id = t'.stepRecord s.id := by
              intro s hs
              refine (hothers s.id fun heq => hstep ?_).symm
              have hid : s.id = step.id := heq.trans (stepRecord_stepId hrecord)
              exact List.mem_map.mpr ⟨s, hs, hid⟩
            refine (ih ((firstOpen_congr hsame).symm.trans hopen) hrest).conseq ?_
              (fun _ _ hw => hw) fun _ hw => hw
            rintro w rfl
            exact hcalls
          · exact ih hopen hrest

/-- A ticket in which nothing is open. -/
def Exhausted (completed : String → Option JournalEntry) (t : Ticket) : Prop :=
  ∀ plan, t.plan = some plan → firstOpen completed t plan.steps = none

theorem act_quiet (h : Exhausted completed t) :
    Triple (Still cs t.id completed) (K.act t) (fun _ w => w.calls = cs)
      (fun w => w.calls = cs) := by
  unfold Kernel.act
  cases hplan : t.plan with
  | none => exact Triple.raise fun _ hw => hw.1
  | some plan =>
    have hentries : Triple (Still cs t.id completed) (journal.entries t.id)
        (fun es w => Still cs t.id completed w ∧ completedSteps es = completed)
        (fun w => w.calls = cs) := by
      refine Triple.bind (M := fun es w => Still cs t.id completed w ∧
        completedSteps es = completed) (Triple.look fun w hw => ⟨hw, hw.2⟩) fun es => ?_
      split_ifs
      · exact Triple.pure fun _ hw => hw
      · exact Triple.raise fun _ hw => hw.1.1
    refine Triple.bind hentries fun es => ?_
    refine Triple.bind (M := fun _ w => w.calls = cs ∧ completedSteps es = completed) ?_ ?_
    · apply Triple.of_forall
      rintro w₀ ⟨hstill, hes⟩
      refine hentries.conseq (fun w hw => hw ▸ hstill) (fun _ _ hq => ⟨hq.1.1, hes⟩) fun _ hr => hr
    · intro es'
      apply Triple.of_forall
      rintro w₀ ⟨hcalls, hes⟩
      rw [hes]
      refine (quiet_actLoop (h plan hplan) plan.unique).conseq ?_ (fun _ _ hw => hw)
        fun _ hw => hw
      rintro w rfl
      exact hcalls

/-- A change of state observes nothing. -/
theorem completedSteps_state {es : List JournalEntry} {e : JournalEntry}
    (h : e.kind ≠ .observation) : completedSteps (es ++ [e]) = completedSteps es := by
  simp [completedSteps, noteCompleted, h]

theorem append_still {kind : JournalKind} {payload : List (String × Json)}
    {stepId : Option String} (hk : kind ≠ .observation) :
    Triple (Still cs i completed) (journal.append K i kind payload stepId)
      (fun _ => Still cs i completed) (fun w => w.calls = cs) := by
  unfold journal.append journal.entries
  refine Triple.bind (M := fun _ => Still cs i completed) ?_ fun es => ?_
  · refine Triple.bind (M := fun _ => Still cs i completed) (Triple.look fun _ hw => hw) ?_
    intro es
    split_ifs
    · exact Triple.pure fun _ hw => hw
    · exact Triple.raise fun _ hw => hw.1
  · refine Triple.bind (M := fun _ => Still cs i completed) (Triple.quiet fun _ hw => hw)
      fun at_ => Triple.write (fun _ hw => hw.1) fun w hw => ⟨hw.1, ?_⟩
    rw [World.journals_appendEntry_self, completedSteps_state hk]
    exact hw.2

/-- A transition leaves the plan and the records, and observes nothing. -/
theorem transition_still {target : TicketState} {reason : String} (h : Exhausted completed t) :
    Triple (Still cs t.id completed) (K.transition t target reason)
      (fun t' w => Still cs t'.id completed w ∧ Exhausted completed t')
      (fun w => w.calls = cs) := by
  unfold Kernel.transition
  refine Triple.bind (M := fun _ => Still cs t.id completed) (Triple.quiet fun _ hw => hw)
    fun at_ => ?_
  split
  · exact Triple.raise fun _ hw => hw.1
  · rename_i t' hmoved
    obtain ⟨-, rfl⟩ : t.state.canTransition target ∧ t.moved target at_ reason = t' := by
      simpa [Ticket.transition] using hmoved
    have hexhausted : Exhausted completed (t.moved target at_ reason) := by
      intro plan hplan
      have hsame : firstOpen completed (t.moved target at_ reason) plan.steps =
          firstOpen completed t plan.steps := firstOpen_congr fun _ _ => rfl
      exact hsame.trans (h plan hplan)
    refine Triple.bind (append_still (by simp)) fun _ => ?_
    refine Triple.bind (M := fun _ => Still cs t.id completed)
      (Triple.write (fun _ hw => hw.1) fun _ hw => hw) fun _ => ?_
    exact Triple.pure fun w hw => ⟨hw, hexhausted⟩

theorem startSteps_still (h : Exhausted completed t) :
    Triple (Still cs t.id completed) (K.startSteps t)
      (fun t' w => Still cs t'.id completed w ∧ Exhausted completed t')
      (fun w => w.calls = cs) := by
  unfold Kernel.startSteps
  split
  · exact transition_still h
  · exact Triple.pure fun w hw => ⟨hw, h⟩

/-- A ticket in which nothing is open is closed, and no executor is called. -/
theorem actAndClose_quiet (h : Exhausted completed t) :
    Triple (Still cs t.id completed) (K.actAndClose t) (fun _ w => w.calls = cs)
      (fun w => w.calls = cs) := by
  refine Triple.bind (startSteps_still h) fun t' => Triple.of_forall ?_
  rintro w₀ ⟨hstill, hexhausted⟩
  refine Triple.bind (M := fun _ w => w.calls = cs) ?_ fun acted => ?_
  · exact (act_quiet hexhausted).conseq (fun w hw => hw ▸ hstill) (fun _ _ hq => hq)
      fun _ hr => hr
  · exact Preserves.bind (quiet_transition cs) fun _ => quiet_analyseAndClose cs

/-- **Nothing left to do**: where no step is next, `resume` calls no executor, at whatever
    write it dies. -/
theorem resume_quiet (hw : Sound w) (h : nextStep w i = none) (n : Nat) :
    (after KernelCall.prog w (⟨K, .resume i⟩, n)).calls = w.calls := by
  have hresume : Triple (fun w' => w' = w) (K.resume i) (fun _ w' => w'.calls = w.calls)
      (fun w' => w'.calls = w.calls) := by
    unfold Kernel.resume store.load
    refine Triple.bind (M := fun t w' => w' = w ∧ w.tickets i = some t) ?_ fun t => ?_
    · refine Triple.bind (M := fun o w' => w' = w ∧ o = w.tickets i)
        (Triple.look fun w' hw' => ⟨hw', by rw [hw']⟩) fun o => ?_
      split
      · exact Triple.pure fun w' hw' => ⟨hw'.1, hw'.2.symm⟩
      · exact Triple.raise fun w' hw' => by rw [hw'.1]
    · apply Triple.of_forall
      rintro w₀ ⟨rfl, ht⟩
      obtain rfl := hw.keyed i t ht
      have hexhausted : Acts t → Exhausted (completedSteps (w₀.journals t.id)) t := by
        intro hacts plan hplan
        simpa [nextStep, ht, hacts, hplan] using h
      have hstill : ∀ w', w' = w₀ →
          Still w₀.calls t.id (completedSteps (w₀.journals t.id)) w' := by
        rintro w' rfl
        exact ⟨rfl, rfl⟩
      have hcalls : ∀ w' : World, w' = w₀ → w'.calls = w₀.calls := by
        rintro w' rfl
        rfl
      split
      · exact Triple.pure hcalls
      · split
        · rename_i hplanned
          split
          · exact Triple.raise hcalls
          · rename_i hpending
            rw [not_not] at hpending
            refine Triple.bind ((transition_still
              (hexhausted (Or.inl ⟨hplanned, hpending⟩))).conseq hstill (fun _ _ hq => hq)
              fun _ hr => hr) fun t' => Triple.of_forall ?_
            rintro w₁ ⟨hstill', hexhausted'⟩
            exact (actAndClose_quiet hexhausted').conseq (fun w' hw' => hw' ▸ hstill')
              (fun _ _ hq => hq) fun _ hr => hr
        · split
          · rename_i hstate
            exact (actAndClose_quiet (hexhausted (Or.inr hstate))).conseq hstill
              (fun _ _ hq => hq) fun _ hr => hr
          · split
            · exact (quiet_analyseAndClose _).conseq hcalls (fun _ _ hq => hq) fun _ hr => hr
            · exact Triple.pure hcalls
  exact hresume.world_sat rfl n

end Slas
