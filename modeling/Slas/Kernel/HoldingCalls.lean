/-
  Slas.Kernel.HoldingCalls

  The methods of the kernel keep leases accounted for: outside ACT nothing moves
  a lease, and in ACT a machine is held only while the steps of the plan go on.
-/

import Slas.Kernel.Holding

namespace Slas.Lessor

open Crash

variable {L : Lessor} {verify : Step → Observation → StepVerdict} {K : Kernel} {w w' : World}
  {t t' : Ticket} {X : World → Prop}

/-! ## The ticket in memory -/

/-- The kernel holds `t`, a version of a stored ticket. -/
structure Carried (L : Lessor) (w : World) (t : Ticket) : Prop where
  known : (w.tickets t.id).isSome
  fits : L.Fits w t

theorem Carried.issued (h : L.Carried w t) (hw : L.Accounted w) : Issued w t.id :=
  hw.issued t.id (.inl h.known)

theorem Carried.moved_on (h : L.Carried w t) (hw : Same w w') : L.Carried w' t :=
  ⟨hw.tickets ▸ h.known, h.fits.unmoved hw.toUnmoved⟩

/-- A stored ticket is one the kernel may hold. -/
theorem Carried.of_stored (hw : L.Accounted w) {i : String} (ht : w.tickets i = some t) :
    L.Carried w t := by
  obtain ⟨rfl, hfits⟩ := hw.stored i t ht
  exact ⟨by simp [ht], hfits⟩

/-- A condition on the calls and on what is observed. -/
def Unread (X : World → Prop) : Prop := ∀ w w', Unmoved w w' → X w → X w'

theorem unread_true : Unread fun _ => True := fun _ _ _ _ => trivial

/-- `_transition`: the moved ticket is stored. -/
theorem keeps_transition {target : TicketState} {reason : String} (hX : Unread X) :
    L.Keeps verify
      (fun w => L.Carried w t ∧ (target ≠ .running → L.Free (historyOf w.calls) t) ∧ X w)
      (K.transition t target reason)
      (fun t' w => ((∃ at_, t' = t.moved target at_ reason) ∧ w.tickets t'.id = some t') ∧ X w) := by
  have hlasting : Lasting fun w =>
      L.Carried w t ∧ (target ≠ .running → L.Free (historyOf w.calls) t) ∧ X w := by
    rintro w w' hw ⟨hcarried, hfree, hx⟩
    exact ⟨hcarried.moved_on hw, hw.calls ▸ hfree, hX w w' hw.toUnmoved hx⟩
  refine Keeps.bind (keeps_now hlasting) fun at_ => ?_
  unfold Ticket.transition
  split
  · exact .raise
  · rename_i moved hmoved
    split at hmoved
    · obtain rfl := Option.some.inj hmoved
      refine Keeps.bind (keeps_jot hlasting (fun _ hw => hw.1.known) (by decide)) fun _ => ?_
      refine Keeps.bind (M := fun _ w =>
        w.tickets (t.moved target at_ reason).id = some (t.moved target at_ reason) ∧ X w) ?_
        fun _ => .pure fun w _ hw => ⟨⟨⟨at_, rfl⟩, hw.1⟩, hw.2⟩
      refine .write (fun _ => rfl) fun w hw hr => ⟨?_, World.tickets_saveTicket_self .., ?_⟩
      · exact hw.save (hr.1.fits.moved hr.2.1 at_ reason) (hr.1.issued hw)
      · exact hX w _ ⟨rfl, fun _ => rfl⟩ hr.2.2
    · cases hmoved

/-! ## COLLECT → RCA → SOP → CLOSE -/

/-- The kernel holds a ticket whose steps are over. -/
structure Resting (L : Lessor) (w : World) (t : Ticket) : Prop extends Carried L w t where
  still : t.state ≠ .running

theorem resting_lasting : Lasting fun w => L.Resting w t := fun _ _ hw h =>
  ⟨h.toCarried.moved_on hw, h.still⟩

theorem Resting.same (h : L.Resting w t) (hid : t'.id = t.id) (hplan : t'.plan = t.plan)
    (hstate : t'.state = t.state) (hsteps : t'.steps = t.steps) : L.Resting w t' :=
  ⟨⟨hid ▸ h.known, h.fits.same hid hplan hstate hsteps⟩, hstate ▸ h.still⟩

theorem Resting.free (h : L.Resting w t) : L.Free (historyOf w.calls) t := h.fits.resting h.still

theorem keeps_file {path text : String} :
    L.Keeps verify (fun w => L.Resting w t) (Prog.write (World.writeFile path text))
      (fun _ w => L.Resting w t) :=
  .write_same (fun w => same_file w path text) fun _ _ hw => resting_lasting _ _ (same_file ..) hw

theorem keeps_collectLogs :
    L.Keeps verify (fun w => L.Resting w t) (K.collectLogs t) (fun _ w => L.Resting w t) :=
  Keeps.bind keeps_file fun _ => Keeps.bind keeps_file fun _ => .pure fun _ _ hw => hw

theorem keeps_note {payload : List (String × Json)} {stepId : Option String} :
    L.Keeps verify (fun w => L.Resting w t) (journal.append K t.id .note payload stepId)
      (fun _ w => L.Resting w t) :=
  keeps_jot resting_lasting (fun _ hw => hw.known) (by decide)

theorem keeps_analyse :
    L.Keeps verify (fun w => L.Resting w t) (K.analyse t) (fun a w => L.Resting w a.1) := by
  unfold Kernel.analyse
  split
  · refine Keeps.bind keeps_note fun _ => ?_
    exact .pure fun _ _ hw => hw.same rfl rfl rfl rfl
  · refine Keeps.bind (.raisedBy fun _ _ _ hw => hw) fun result => ?_
    refine Keeps.bind keeps_note fun _ => ?_
    exact .pure fun _ _ hw => hw.same rfl rfl rfl rfl

/-- A child is saved under an id that is not used. -/
theorem keeps_trackChild {child : Ticket} {digest : Fingerprint} {seenIn : String}
    (hsteps : child.steps = []) :
    L.Keeps verify
      (fun w => (Issued w child.id ∧ ¬ Used w child.id) ∧ L.Resting w t)
      (Kernel.trackChild child digest seenIn) (fun _ w => L.Resting w t) := by
  refine Keeps.bind (M := fun _ w => L.Resting w t) ?_ fun _ =>
    .write_same (fun w => same_bug w ..) fun _ _ hw => resting_lasting _ _ (same_bug ..) hw
  refine .write (fun _ => rfl) fun w hw => ?_
  rintro ⟨⟨hissued, hunused⟩, hrest⟩
  have hchild : L.Fits w child := fits_new (fun c hc hid => hunused (.inr (.inr ⟨c, hc, hid⟩))) hsteps
  have hother : t.id ≠ child.id := fun heq => hunused (.inl (heq ▸ hrest.known))
  refine ⟨hw.save hchild hissued, ⟨?_, hrest.fits.unmoved ⟨rfl, fun _ => rfl⟩⟩, hrest.still⟩
  rw [World.tickets_saveTicket, if_neg hother]
  exact hrest.known

theorem keeps_spawnLoop (votes : List Vote) (fs : List Finding) :
    L.Keeps verify (fun w => L.Resting w t) (K.spawnLoop t votes fs)
      (fun _ w => L.Resting w t) := by
  induction fs with
  | nil => exact .pure fun _ _ hw => hw
  | cons f fs ih =>
    unfold Kernel.spawnLoop
    split
    · exact Keeps.bind ih fun _ => .pure fun _ _ hw => hw
    · refine Keeps.bind (.look (Q := fun _ w => L.Resting w t) fun _ _ hw => hw) fun known => ?_
      split
      · refine Keeps.bind (.write_same (fun w => same_bug w ..) fun _ _ hw =>
          resting_lasting _ _ (same_bug ..) hw) fun _ => ?_
        exact Keeps.bind ih fun _ => .pure fun _ _ hw => hw
      · refine Keeps.bind (keeps_now resting_lasting) fun now => ?_
        refine Keeps.bind (keeps_nextTicketId resting_lasting) fun i => ?_
        have hfresh : (Kernel.childTicket t votes f now i).steps = [] := rfl
        refine Keeps.bind (keeps_trackChild hfresh) fun _ => ?_
        exact Keeps.bind ih fun _ => .pure fun _ _ hw => hw

theorem keeps_spawnBugTickets (votes : List Vote) :
    L.Keeps verify (fun w => L.Resting w t) (K.spawnBugTickets t votes)
      (fun a w => L.Resting w a.2) :=
  Keeps.bind (keeps_spawnLoop votes _) fun _ => .pure fun _ _ hw => hw.same rfl rfl rfl rfl

theorem keeps_noteSpawned (spawned : List String) :
    L.Keeps verify (fun w => L.Resting w t) (K.noteSpawned t spawned)
      (fun _ w => L.Resting w t) := by
  unfold Kernel.noteSpawned
  split
  · exact .pure fun _ _ hw => hw
  · exact keeps_note

theorem keeps_writeSop :
    L.Keeps verify (fun w => L.Resting w t) (K.writeSop t) (fun a w => L.Resting w a.1) := by
  refine Keeps.bind (.raisedBy fun _ _ _ hw => hw) fun rendered => ?_
  refine Keeps.bind keeps_file fun _ => Keeps.bind keeps_file fun _ => Keeps.bind keeps_file fun _ => ?_
  refine Keeps.bind keeps_note fun _ => ?_
  exact .pure fun _ _ hw => hw.same rfl rfl rfl rfl

theorem keeps_analyseAndClose :
    L.Keeps verify (fun w => L.Resting w t) (K.analyseAndClose t) (fun t' w => L.Carried w t') := by
  refine Keeps.bind keeps_collectLogs fun logs => ?_
  refine Keeps.bind (keeps_note (t := t)) fun _ => ?_
  refine Keeps.bind (keeps_analyse.pre fun _ _ hw => hw.same rfl rfl rfl rfl) fun a => ?_
  refine Keeps.bind (keeps_spawnBugTickets a.2) fun b => ?_
  refine Keeps.bind (keeps_noteSpawned b.1) fun _ => ?_
  refine Keeps.bind keeps_writeSop fun c => ?_
  refine Keeps.bind (M := fun _ w => L.Resting w c.1) ?_ fun _ => ?_
  · refine .write (fun _ => rfl) fun w hw hr => ⟨hw.save hr.fits (hr.issued hw), ?_⟩
    exact ⟨⟨by simp, hr.fits.unmoved ⟨rfl, fun _ => rfl⟩⟩, hr.still⟩
  · refine (keeps_transition unread_true).conseq (fun w _ hw => ?_) fun t' w hw hq => ?_
    · exact ⟨hw.toCarried, fun _ => hw.free, trivial⟩
    · exact .of_stored hw hq.1.2

/-! ## One call, one observation -/

/-- A call keeps a ticket as it should be: one of another ticket gives it nothing,
    and its own it is running for, with a step still to be observed. -/
theorem Fits.logCall {step : Step} {context : ExecutionContext} (h : L.Fits w t)
    (hown : t.id = context.ticketId → t.state = .running ∧
      ∀ plan, t.plan = some plan → ∃ s ∈ plan.steps, s.id ∉ observed (w.journals t.id)) :
    L.Fits (w.logCall (w.call step context)) t where
  unskipped := h.unskipped
  failed := h.failed
  finished plan hplan hall := by
    by_cases hid : t.id = context.ticketId
    · obtain ⟨s, hs, hopen⟩ := (hown hid).2 plan hplan
      exact absurd (hall s hs) hopen
    · exact (h.finished plan hplan hall).other hid
  resting hstate := by
    by_cases hid : t.id = context.ticketId
    · exact absurd (hown hid).1 hstate
    · exact (h.resting hstate).other hid

/-- An entry keeps it so, when the ticket has given back its machine with the last
    observation. -/
theorem Fits.appendEntry {i : String} {e : JournalEntry} (h : L.Fits w t)
    (hown : t.id = i → ∀ plan, t.plan = some plan →
      (∀ s ∈ plan.steps, s.id ∈ observed (w.journals i ++ [e])) → L.Free (historyOf w.calls) t) :
    L.Fits (w.appendEntry i e) t where
  unskipped := h.unskipped
  failed r hr hfail := by
    have hmem := h.failed r hr hfail
    rw [World.journals_appendEntry]
    split
    · rename_i hi
      rw [observed_append]
      exact List.mem_append_left _ (hi ▸ hmem)
    · exact hmem
  finished plan hplan hall := by
    rw [World.journals_appendEntry] at hall
    split at hall
    · exact hown ‹_› plan hplan hall
    · exact h.finished plan hplan hall
  resting := h.resting

theorem Accounted.logCall {step : Step} {context : ExecutionContext} (hw : L.Accounted w)
    (hknown : (w.tickets context.ticketId).isSome)
    (hown : ∀ T, w.tickets context.ticketId = some T → T.state = .running ∧
      ∀ plan, T.plan = some plan → ∃ s ∈ plan.steps, s.id ∉ observed (w.journals T.id)) :
    L.Accounted (w.logCall (w.call step context)) where
  stored i u hu := by
    obtain ⟨rfl, hfits⟩ := hw.stored i u hu
    exact ⟨rfl, hfits.logCall fun hid => hown u (hid ▸ hu)⟩
  issued i hused := by
    rcases hused with ht | hj | ⟨c, hc, rfl⟩
    · exact hw.issued i (.inl ht)
    · exact hw.issued i (.inr (.inl hj))
    · rcases List.mem_append.mp hc with hc | hc
      · exact hw.issued _ (.inr (.inr ⟨c, hc, rfl⟩))
      · obtain rfl := List.mem_singleton.mp hc
        exact hw.issued _ (.inl hknown)

theorem Accounted.appendEntry {i : String} {e : JournalEntry} (hw : L.Accounted w)
    (hknown : (w.tickets i).isSome)
    (hown : ∀ T, w.tickets i = some T → ∀ plan, T.plan = some plan →
      (∀ s ∈ plan.steps, s.id ∈ observed (w.journals i ++ [e])) → L.Free (historyOf w.calls) T) :
    L.Accounted (w.appendEntry i e) where
  stored j u hu := by
    obtain ⟨rfl, hfits⟩ := hw.stored j u hu
    exact ⟨rfl, hfits.appendEntry fun hid => hown u (hid ▸ hu)⟩
  issued j hused := by
    rcases hused with ht | hj | hc
    · exact hw.issued j (.inl ht)
    · rw [World.journals_appendEntry] at hj
      split at hj
      · rename_i hji
        exact hji ▸ hw.issued i (.inl hknown)
      · exact hw.issued j (.inr (.inl hj))
    · exact hw.issued j (.inr (.inr hc))

/-! ## ACT -/

variable {plan : Plan} {completed : String → Option JournalEntry} {before rest : List Step}
  {step : Step}

/-- The kernel holds a running ticket and stands between two steps of its plan. -/
structure OnPlan (L : Lessor) (w : World) (t : Ticket) (plan : Plan) (before rest : List Step) :
    Prop where
  stored : ∃ T, w.tickets t.id = some T ∧ T.state = .running ∧ T.plan = some plan
  running : t.state = .running
  planned : t.plan = some plan
  fits : L.Fits w t
  split : plan.steps = before ++ rest

/-- At the head of the loop: all before is observed, `completed` tells which of the
    steps to come are, and one of them that is saved as failed has no lease. -/
structure Lap (L : Lessor) (w : World) (t : Ticket) (plan : Plan)
    (completed : String → Option JournalEntry) (before rest : List Step) : Prop
    extends OnPlan L w t plan before rest where
  done : ∀ s ∈ before, s.id ∈ observed (w.journals t.id)
  ordered : observed (w.journals t.id) <+: plan.steps.map (·.id)
  told : ∀ s ∈ rest, completed s.id = none ↔ s.id ∉ observed (w.journals t.id)
  stopped : ∀ s ∈ rest, ∀ r, t.stepRecord s.id = some r → r.status = .failed →
    L.Free (historyOf w.calls) t

/-- The plan is observed up to here and no further. -/
structure Level (L : Lessor) (w : World) (t : Ticket) (plan : Plan)
    (completed : String → Option JournalEntry) (before rest : List Step) : Prop
    extends OnPlan L w t plan before rest where
  turn : observed (w.journals t.id) = before.map (·.id)
  ahead : ∀ s ∈ rest, completed s.id = none

/-- ACT is over or was stopped. -/
structure Halted (L : Lessor) (w : World) (t : Ticket) : Prop extends Carried L w t where
  free : L.Free (historyOf w.calls) t

theorem OnPlan.carried (h : L.OnPlan w t plan before rest) : L.Carried w t := by
  obtain ⟨T, hT, -⟩ := h.stored
  exact ⟨by simp [hT], h.fits⟩

theorem OnPlan.apart (h : L.OnPlan w t plan before rest) :
    ∀ s ∈ rest, s.id ∉ before.map (·.id) := by
  intro s hs hmem
  have hnodup : (before.map (·.id) ++ rest.map (·.id)).Nodup := by
    rw [← List.map_append, ← h.split]
    exact plan.unique
  exact (List.nodup_append.mp hnodup).2.2 _ hmem _ (List.mem_map_of_mem hs) rfl

theorem OnPlan.next (h : L.OnPlan w t plan before (step :: rest)) :
    L.OnPlan w t plan (before ++ [step]) rest :=
  ⟨h.stored, h.running, h.planned, h.fits, by simp [h.split]⟩

theorem OnPlan.same (h : L.OnPlan w t plan before rest) (hw : Same w w') :
    L.OnPlan w' t plan before rest :=
  ⟨hw.tickets ▸ h.stored, h.running, h.planned, h.fits.unmoved hw.toUnmoved, h.split⟩

/-- The ticket in memory with other records. -/
theorem OnPlan.retake (h : L.OnPlan w t plan before rest) (hid : t'.id = t.id)
    (hplan : t'.plan = t.plan) (hstate : t'.state = t.state)
    (hunskipped : ∀ r ∈ t'.steps, r.status ≠ .skipped)
    (hfailed : ∀ r ∈ t'.steps, r.status = .failed → r.stepId ∈ observed (w.journals t.id)) :
    L.OnPlan w t' plan before rest :=
  ⟨hid ▸ h.stored, hstate ▸ h.running, hplan ▸ h.planned,
    h.fits.congr hid hplan hstate hunskipped hfailed, h.split⟩

theorem OnPlan.saved (h : L.OnPlan w t plan before rest) :
    L.OnPlan (w.saveTicket t) t plan before rest :=
  ⟨⟨t, World.tickets_saveTicket_self w t, h.running, h.planned⟩, h.running, h.planned,
    h.fits.unmoved ⟨rfl, fun _ => rfl⟩, h.split⟩

theorem Level.same (h : L.Level w t plan completed before rest) (hw : Same w w') :
    L.Level w' t plan completed before rest :=
  ⟨h.toOnPlan.same hw, (hw.observed t.id).trans h.turn, h.ahead⟩

theorem level_lasting : Lasting fun w => L.Level w t plan completed before rest :=
  fun _ _ hw h => h.same hw

/-- It is the turn of the first step the journal has no observation of. -/
theorem Lap.level (h : L.Lap w t plan completed before (step :: rest))
    (hnone : completed step.id = none) : L.Level w t plan completed before (step :: rest) := by
  have hids : plan.steps.map (·.id) = before.map (·.id) ++ step.id :: rest.map (·.id) := by
    simp [h.split]
  have hturn : observed (w.journals t.id) = before.map (·.id) := by
    refine prefix_eq_before (hids ▸ plan.unique) (hids ▸ h.ordered) (fun s hs => ?_)
      ((h.told step (List.mem_cons_self ..)).mp hnone)
    obtain ⟨x, hx, rfl⟩ := List.mem_map.mp hs
    exact h.done x hx
  exact ⟨h.toOnPlan, hturn, fun s hs => (h.told s hs).mpr (hturn ▸ h.apart s hs)⟩

/-- No step to come is saved as failed, for none is observed. -/
theorem Level.lap (h : L.Level w t plan completed before rest) :
    L.Lap w t plan completed before rest where
  toOnPlan := h.toOnPlan
  done s hs := h.turn ▸ List.mem_map_of_mem hs
  ordered := ⟨rest.map (·.id), by rw [h.turn, h.split, List.map_append]⟩
  told s hs := iff_of_true (h.ahead s hs) (h.turn ▸ h.apart s hs)
  stopped s hs r hr hfail := by
    have hmem := h.fits.failed r (List.mem_of_find?_eq_some hr) hfail
    have hid : r.stepId = s.id := by simpa using List.find?_some hr
    rw [hid, h.turn] at hmem
    exact absurd hmem (h.apart s hs)

theorem Lap.observed_step (h : L.Lap w t plan completed before (step :: rest))
    {entry : JournalEntry} (hentry : completed step.id = some entry) :
    step.id ∈ observed (w.journals t.id) := by
  by_contra hopen
  rw [(h.told step (List.mem_cons_self ..)).mpr hopen] at hentry
  cases hentry

/-- A step that is observed is passed over, whatever its record is now. -/
theorem Lap.pass (h : L.Lap w t plan completed before (step :: rest)) {entry : JournalEntry}
    (hentry : completed step.id = some entry) (hid : t'.id = t.id) (hplan : t'.plan = t.plan)
    (hstate : t'.state = t.state) (hunskipped : ∀ r ∈ t'.steps, r.status ≠ .skipped)
    (hfailed : ∀ r ∈ t'.steps, r.status = .failed → r.stepId ∈ observed (w.journals t.id))
    (hothers : ∀ s ∈ rest, t'.stepRecord s.id = t.stepRecord s.id) :
    L.Lap w t' plan completed (before ++ [step]) rest where
  toOnPlan := h.toOnPlan.next.retake hid hplan hstate hunskipped hfailed
  done s hs := by
    rw [hid]
    rcases List.mem_append.mp hs with hs | hs
    · exact h.done s hs
    · obtain rfl := List.mem_singleton.mp hs
      exact h.observed_step hentry
  ordered := hid ▸ h.ordered
  told s hs := hid ▸ h.told s (List.mem_cons_of_mem _ hs)
  stopped s hs r hr hfail :=
    (h.stopped s (List.mem_cons_of_mem _ hs) r (hothers s hs ▸ hr) hfail).congr hid (.inl hplan)

/-! ### The records of a step -/

theorem updateRecord_unskipped {f : StepRecord → StepRecord} {stepId : String}
    (h : ∀ r ∈ t.steps, r.status ≠ .skipped) (hf : ∀ r, (f r).status ≠ .skipped) :
    ∀ r ∈ (t.updateRecord stepId f).steps, r.status ≠ .skipped := by
  intro r hr
  rcases mem_updateFirst hr with hr | ⟨r', -, -, rfl⟩
  · exact h r hr
  · exact hf r'

/-- A changed record is one of an observed step, or is not failed. -/
theorem updateRecord_failed {f : StepRecord → StepRecord} {stepId : String} {obs : List String}
    (h : ∀ r ∈ t.steps, r.status = .failed → r.stepId ∈ obs)
    (hf : ∀ r, (f r).stepId = r.stepId) (hstep : (∀ r, (f r).status ≠ .failed) ∨ stepId ∈ obs) :
    ∀ r ∈ (t.updateRecord stepId f).steps, r.status = .failed → r.stepId ∈ obs := by
  intro r hr hfail
  rcases mem_updateFirst hr with hr | ⟨r', -, hid, rfl⟩
  · exact h r hr hfail
  · rcases hstep with hne | hmem
    · exact absurd hfail (hne r')
    · exact (hf r').trans hid ▸ hmem

theorem keeps_restoreFromJournal {record : StepRecord} {entry : JournalEntry}
    (hrecord : t.stepRecord step.id = some record) (hentry : completed step.id = some entry) :
    L.Keeps verify (fun w => L.Lap w t plan completed before (step :: rest))
      (K.restoreFromJournal t plan record entry.payload)
      (fun t' w => L.Lap w t' plan completed (before ++ [step]) rest) := by
  have hid : record.stepId = step.id := by simpa using List.find?_some hrecord
  have hlasting : Lasting fun w => L.Lap w t plan completed before (step :: rest) :=
    fun w w' hw h =>
      { h.toOnPlan.same hw with
        done := fun s hs => hw.observed t.id ▸ h.done s hs
        ordered := hw.observed t.id ▸ h.ordered
        told := fun s hs => hw.observed t.id ▸ h.told s hs
        stopped := fun s hs r hr hfail => hw.calls ▸ h.stopped s hs r hr hfail }
  unfold Kernel.restoreFromJournal
  split
  · exact .raise
  · rename_i o ho
    split
    · exact .raise
    · refine Keeps.bind (M := fun _ w => L.Lap w t plan completed before (step :: rest)) ?_
        fun finished => .pure fun w _ hw => ?_
      · unfold Kernel.orNow
        split
        · exact .pure fun _ _ hw => hw
        · exact keeps_now hlasting
      · rw [hid]
        refine hw.pass hentry rfl rfl rfl ?_ ?_ fun s hs => ?_
        · exact updateRecord_unskipped hw.fits.unskipped fun _ => status_ne_skipped _
        · exact updateRecord_failed hw.fits.failed (fun _ => rfl) (.inr (hw.observed_step hentry))
        · have hne : s.id ≠ step.id := by
            intro heq
            have hapart := hw.next.apart s hs
            simp [heq] at hapart
          exact stepRecord_updateRecord (t := t) (fun _ => rfl) hne

/-! ### A step that is performed -/

/-- What the executor answered, where it stands for the lease: a step that failed and
    the last step leave none. -/
structure Answered (L : Lessor) (verify : Step → Observation → StepVerdict) (w : World) (t : Ticket)
    (rest : List Step) (step : Step) (o : Observation) : Prop where
  failing : (verify step o).outcome ≠ .ok → L.Free (historyOf w.calls) t
  last : rest = [] → L.Free (historyOf w.calls) t

theorem Level.open_step (h : L.Level w t plan completed before (step :: rest)) :
    ∃ s ∈ plan.steps, s.id ∉ observed (w.journals t.id) :=
  ⟨step, by simp [h.split], h.turn ▸ h.apart step (List.mem_cons_self ..)⟩

/-- The call of a step, whatever is answered. -/
theorem Level.logCall (h : L.Level w t plan completed before (step :: rest)) (hw : L.Accounted w)
    {context : ExecutionContext} (hcontext : context.ticketId = t.id) :
    L.Accounted (w.logCall (w.call step context)) ∧
      L.Level (w.logCall (w.call step context)) t plan completed before (step :: rest) := by
  have hopen : ∀ plan', some plan = some plan' →
      ∃ s ∈ plan'.steps, s.id ∉ observed (w.journals t.id) := by
    rintro plan' hplan
    exact Option.some.inj hplan ▸ h.open_step
  obtain ⟨T, hT, hrunning, hplan⟩ := h.stored
  constructor
  · refine hw.logCall (by simp [hcontext, hT]) fun T' hT' => ?_
    rw [hcontext, hT, Option.some.injEq] at hT'
    obtain rfl := hT'
    obtain ⟨hid, -⟩ := hw.stored _ _ hT
    exact ⟨hrunning, fun plan' hplan' => hid ▸ hopen plan' (hplan ▸ hplan')⟩
  · refine ⟨⟨⟨T, hT, hrunning, hplan⟩, h.running, h.planned, h.fits.logCall fun _ => ?_, h.split⟩,
      h.turn, h.ahead⟩
    exact ⟨h.running, fun plan' hplan' => hopen plan' (h.planned ▸ hplan')⟩

theorem keeps_execute (hK : K.executor = L.answer) {context : ExecutionContext}
    (hcontext : context.ticketId = t.id) :
    L.Keeps verify (fun w => L.Level w t plan completed before (step :: rest))
      (K.execute step context)
      (fun o w => L.Level w t plan completed before (step :: rest) ∧
        L.Answered verify w t rest step o) := by
  refine Triple.effect (fun _ hw hclean => (hw hclean).1) ?_ ?_
  · intro w o w' hw hf hclean
    obtain ⟨hanswer, rfl⟩ := Prod.mk.inj hf
    obtain ⟨hbefore, hlast⟩ := Trace.always_snoc.mp hclean
    obtain ⟨haccounted, hlevel⟩ := hw hbefore
    have ho : L.answer (historyOf w.calls) step context = .ok o := hK ▸ mapError_ok hanswer
    obtain ⟨hnow, hnext⟩ := hlevel.logCall haccounted hcontext
    refine ⟨hnow, hnext, fun hbad => ?_, fun hend => ?_⟩
    · obtain ⟨T, hT, -, hplan⟩ := hlevel.stored
      obtain ⟨hid, -⟩ := haccounted.stored _ _ hT
      have hstored : w.tickets context.ticketId = some T := hcontext ▸ hT
      have hfree := hlast o ho hbad T hstored (hid.trans hcontext.symm)
      exact hfree.congr hid.symm (.inl (hlevel.planned.trans hplan.symm))
    · intro m hm hheld
      have hsplit : plan.steps = before ++ [step] := hend ▸ hlevel.split
      refine L.returned (historyOf w.calls) plan m before step context o
        (hm plan hlevel.planned) hsplit ho ?_
      rw [hcontext]
      simpa [historyOf, World.call] using hheld
  · intro w e w' hw hf hclean
    obtain ⟨-, rfl⟩ := Prod.mk.inj hf
    obtain ⟨hbefore, -⟩ := Trace.always_snoc.mp hclean
    obtain ⟨haccounted, hlevel⟩ := hw hbefore
    exact (hlevel.logCall haccounted hcontext).1

/-- The observation is journalled: the plan is observed one step further. -/
theorem Level.observe (h : L.Level w t plan completed before (step :: rest)) (hw : L.Accounted w)
    {o : Observation} (ho : L.Answered verify w t rest step o) {e : JournalEntry}
    (hk : e.kind = .observation) (hs : e.stepId = some step.id) :
    L.Accounted (w.appendEntry t.id e) ∧
      L.Level (w.appendEntry t.id e) t plan completed (before ++ [step]) rest := by
  have hturn : observed (w.journals t.id ++ [e]) = (before ++ [step]).map (·.id) := by
    rw [observed_append, observed_observation hk hs, h.turn, List.map_append, List.map_singleton]
  -- with the whole plan observed, its last step was answered
  have hend : ∀ plan', some plan = some plan' →
      (∀ s ∈ plan'.steps, s.id ∈ observed (w.journals t.id ++ [e])) →
        L.Free (historyOf w.calls) t := by
    rintro plan' hplan hall
    obtain rfl := Option.some.inj hplan
    refine ho.last (List.eq_nil_iff_forall_not_mem.mpr fun s hs => ?_)
    exact h.next.apart s hs (hturn ▸ hall s (by simp [h.split, hs]))
  obtain ⟨T, hT, hrunning, hplan⟩ := h.stored
  constructor
  · refine hw.appendEntry (by simp [hT]) fun T' hT' plan' hplan' hall => ?_
    obtain rfl : T = T' := Option.some.inj (hT.symm.trans hT')
    obtain ⟨hid, -⟩ := hw.stored _ _ hT
    exact (hend plan' (hplan ▸ hplan') hall).congr hid (.inl (hplan.trans h.planned.symm))
  · refine ⟨⟨⟨T, hT, hrunning, hplan⟩, h.running, h.planned, h.fits.appendEntry fun _ plan' hplan' =>
      hend plan' (h.planned ▸ hplan'), h.next.split⟩, ?_, fun s hs => ?_⟩
    · rw [World.journals_appendEntry_self, hturn]
    · exact h.ahead s (List.mem_cons_of_mem _ hs)

theorem Answered.congr {o : Observation} (h : L.Answered verify w t rest step o)
    (hcalls : w'.calls = w.calls) (hid : t'.id = t.id) (hplan : t'.plan = t.plan) :
    L.Answered verify w' t' rest step o :=
  ⟨fun hbad => hcalls ▸ (h.failing hbad).congr hid (.inl hplan),
    fun hend => hcalls ▸ (h.last hend).congr hid (.inl hplan)⟩

theorem statusOf_failed {verdict : StepVerdict} :
    Kernel.statusOf verdict = .failed ↔ verdict.outcome ≠ .ok := by
  unfold Kernel.statusOf
  split <;> simp_all

theorem keeps_perform (hK : K.executor = L.answer) (hverify : K.agent.verify = verify)
    {resumed : Bool} :
    L.Keeps verify (fun w => L.Level w t plan completed before (step :: rest))
      (K.perform t step resumed)
      (fun r w => (r.1 = true → L.Halted w r.2) ∧
        (r.1 = false → L.Lap w r.2 plan completed (before ++ [step]) rest)) := by
  unfold Kernel.perform
  refine Keeps.bind (keeps_now level_lasting) fun started => ?_
  dsimp only
  generalize ht₁ : t.updateRecord step.id (Kernel.startRecord started) = t₁
  -- the started record is saved
  refine Keeps.bind (M := fun _ w => L.Level w t₁ plan completed before (step :: rest)) ?_
    fun _ => ?_
  · subst ht₁
    refine .write (fun _ => rfl) fun w hw hlevel => ?_
    have hnew : L.OnPlan w (t.updateRecord step.id (Kernel.startRecord started)) plan before
        (step :: rest) := by
      refine hlevel.toOnPlan.retake rfl rfl rfl ?_ ?_
      · exact updateRecord_unskipped hlevel.fits.unskipped fun _ => by simp [Kernel.startRecord]
      · refine updateRecord_failed hlevel.fits.failed (fun _ => rfl) (.inl fun _ => ?_)
        simp [Kernel.startRecord]
    exact ⟨hw.save hnew.fits (hnew.carried.issued hw), hnew.saved, hlevel.turn, hlevel.ahead⟩
  -- the intent is written ahead, and the executor called
  refine Keeps.bind (keeps_jot level_lasting (fun _ hw => hw.carried.known) (by decide)) fun _ => ?_
  refine Keeps.bind (keeps_execute hK rfl) fun o => ?_
  -- its observation is journalled
  have hlasting : Lasting fun w => L.Level w t₁ plan completed before (step :: rest) ∧
      L.Answered verify w t₁ rest step o :=
    fun w w' hw h => ⟨h.1.same hw, h.2.congr hw.calls rfl rfl⟩
  refine Keeps.bind (M := fun _ w => L.Level w t₁ plan completed (before ++ [step]) rest ∧
    L.Answered verify w t₁ rest step o) (keeps_append hlasting fun w e hw hr hk hs => ?_) fun _ => ?_
  · obtain ⟨hnow, hlevel⟩ := hr.1.observe hw hr.2 hk hs
    exact ⟨hnow, hlevel, hr.2.congr rfl rfl rfl⟩
  refine Keeps.bind (keeps_now fun w w' hw h => ⟨h.1.same hw, h.2.congr hw.calls rfl rfl⟩)
    fun finished => ?_
  -- and the verdict saved
  generalize ht₂ : Kernel.finishStep t₁ step o (K.agent.verify step o) finished = t₂
  refine Keeps.bind (M := fun _ w => L.Level w t₂ plan completed (before ++ [step]) rest ∧
    L.Answered verify w t₂ rest step o) ?_ fun _ => ?_
  · subst ht₂
    refine .write (fun _ => rfl) fun w hw hr => ?_
    have hseen : step.id ∈ observed (w.journals t₁.id) := by
      rw [hr.1.turn]
      simp
    have hnew : L.OnPlan w (Kernel.finishStep t₁ step o (K.agent.verify step o) finished) plan
        (before ++ [step]) rest := by
      refine hr.1.toOnPlan.retake rfl rfl rfl ?_ ?_
      · exact updateRecord_unskipped hr.1.fits.unskipped fun _ => status_ne_skipped _
      · exact updateRecord_failed hr.1.fits.failed (fun _ => rfl) (.inr hseen)
    exact ⟨hw.save hnew.fits (hnew.carried.issued hw), ⟨hnew.saved, hr.1.turn, hr.1.ahead⟩,
      hr.2.congr rfl rfl rfl⟩
  refine Keeps.bind (M := fun _ w => L.Level w t₂ plan completed (before ++ [step]) rest ∧
    L.Answered verify w t₂ rest step o) ?_ fun _ => .pure fun w _ hr => ⟨fun hfail => ?_, fun _ => ?_⟩
  · unfold Kernel.runHook
    split
    · exact .raisedBy fun _ _ _ hw => hw
    · exact .pure fun _ _ hw => hw
  · have hbad := statusOf_failed.mp (beq_iff_eq.mp hfail)
    exact ⟨hr.1.carried, hr.2.failing (hverify ▸ hbad)⟩
  · exact hr.1.lap

/-- The loop of `_act`, by induction on the steps that are left. -/
theorem keeps_actLoop (hK : K.executor = L.answer) (hverify : K.agent.verify = verify)
    {interrupted : Option String} (rest before : List Step) (t : Ticket) :
    L.Keeps verify (fun w => L.Lap w t plan completed before rest)
      (K.actLoop plan completed interrupted rest t) (fun r w => L.Halted w r.2) := by
  induction rest generalizing before t with
  | nil =>
    refine .pure fun w _ hlap => ⟨hlap.carried, ?_⟩
    refine hlap.fits.finished plan hlap.planned fun s hs => hlap.done s ?_
    rwa [hlap.split, List.append_nil] at hs
  | cons step rest ih =>
    unfold Kernel.actLoop
    split
    · exact .raise
    · rename_i record hrecord
      split
      · rename_i hfailed
        refine .pure fun w _ hlap => ⟨hlap.carried, ?_⟩
        exact hlap.stopped step (List.mem_cons_self ..) record hrecord hfailed
      · split
        · rename_i entry hentry
          split
          · exact Keeps.bind (keeps_restoreFromJournal hrecord hentry) fun t' => ih _ t'
          · refine (ih (before ++ [step]) t).pre fun w _ hlap => ?_
            exact hlap.pass hentry rfl rfl rfl hlap.fits.unskipped hlap.fits.failed fun _ _ => rfl
        · rename_i hnone
          split
          · rename_i hskipped
            refine (ih (before ++ [step]) t).pre fun w _ hlap => ?_
            exact absurd hskipped (hlap.fits.unskipped record (List.mem_of_find?_eq_some hrecord))
          · refine Keeps.bind ((keeps_perform hK hverify).pre fun _ _ hlap => hlap.level hnone)
              fun r => ?_
            obtain ⟨failed, t'⟩ := r
            cases failed with
            | true => exact .pure fun _ _ hr => hr.1 rfl
            | false => exact (ih (before ++ [step]) t').pre fun _ _ hr => hr.2 rfl

/-! ## From the start of ACT to the end -/

/-- The observations of the ticket name a prefix of its plan, and if one of its steps
    is saved as failed, it has no lease. -/
structure Poised (L : Lessor) (t : Ticket) (w : World) : Prop where
  ordered : ∀ plan, t.plan = some plan → observed (w.journals t.id) <+: plan.steps.map (·.id)
  stopped : (∃ r ∈ t.steps, r.status = .failed) → L.Free (historyOf w.calls) t

theorem poised_unread : Unread (L.Poised t) := fun _ _ hw h =>
  ⟨fun plan hplan => hw.observed t.id ▸ h.ordered plan hplan, fun hr => hw.calls ▸ h.stopped hr⟩

/-- A ticket that is stored as the kernel holds it, before ACT. -/
def Ready (L : Lessor) (w : World) (t : Ticket) : Prop := w.tickets t.id = some t ∧ L.Poised t w

theorem Poised.moved (h : L.Poised t w) (target : TicketState) (at_ : DateTime) (reason : String) :
    L.Poised (t.moved target at_ reason) w :=
  ⟨h.ordered, fun hr => (h.stopped hr).congr rfl (.inl rfl)⟩

theorem keeps_act (hK : K.executor = L.answer) (hverify : K.agent.verify = verify) :
    L.Keeps verify (fun w => L.Ready w t ∧ t.state = .running) (K.act t)
      (fun r w => L.Halted w r.2) := by
  unfold Kernel.act
  split
  · exact .raise
  · rename_i plan hplan
    refine Keeps.bind keeps_entries fun es => ?_
    refine Keeps.bind (keeps_entries.conseq (fun _ _ hw => hw) fun _ _ _ hw => hw.2) fun es' => ?_
    refine (keeps_actLoop hK hverify plan.steps [] t).pre ?_
    rintro w hw ⟨rfl, ⟨hstored, hpoised⟩, hrunning⟩
    have htold := completedSteps_spec (w.journals t.id)
    refine ⟨⟨⟨t, hstored, hrunning, hplan⟩, hrunning, hplan, (Carried.of_stored hw hstored).fits, rfl⟩,
      by simp, hpoised.ordered plan hplan, fun s _ => ⟨(htold s.id).2, fun hopen => ?_⟩,
      fun s _ r hr hfail => hpoised.stopped ⟨r, List.mem_of_find?_eq_some hr, hfail⟩⟩
    rcases hentry : completedSteps (w.journals t.id) s.id with _ | e
    · rfl
    · exact absurd (mem_observed.mpr ⟨e, (htold s.id).1 e hentry⟩) hopen

theorem keeps_startSteps :
    L.Keeps verify (fun w => L.Ready w t ∧ (t.state = .approved ∨ t.state = .running))
      (K.startSteps t) (fun t' w => L.Ready w t' ∧ t'.state = .running) := by
  unfold Kernel.startSteps
  split
  · refine (keeps_transition (poised_unread (L := L) (t := t))).conseq (fun w hw hr => ?_)
      fun t' w _ hq => ?_
    · exact ⟨.of_stored hw hr.1.1, fun hne => absurd rfl hne, hr.1.2⟩
    · obtain ⟨⟨⟨at_, rfl⟩, hstored⟩, hpoised⟩ := hq
      exact ⟨⟨hstored, hpoised.moved ..⟩, rfl⟩
  · rename_i hne
    exact .pure fun _ _ hr => ⟨hr.1, hr.2.resolve_left hne⟩

theorem keeps_actAndClose (hK : K.executor = L.answer) (hverify : K.agent.verify = verify) :
    L.Keeps verify (fun w => L.Ready w t ∧ (t.state = .approved ∨ t.state = .running))
      (K.actAndClose t) (fun t' w => L.Carried w t') := by
  unfold Kernel.actAndClose
  refine Keeps.bind keeps_startSteps fun t₁ => ?_
  refine Keeps.bind (keeps_act hK hverify) fun r => ?_
  refine Keeps.bind ((keeps_transition unread_true).pre fun _ _ hw => ⟨hw.toCarried, fun _ => hw.free,
    trivial⟩) fun t₂ => ?_
  refine keeps_analyseAndClose.pre fun w hw hr => ?_
  obtain ⟨⟨⟨at_, rfl⟩, hstored⟩, -⟩ := hr
  exact ⟨.of_stored hw hstored, by simp [Ticket.moved]⟩

/-! ## The three calls -/

/-- A ticket that was just created: no plan, no step, nothing observed. -/
structure Blank (L : Lessor) (w : World) (t : Ticket) : Prop extends Resting L w t where
  unplanned : t.plan = none
  blank : t.steps = []
  silent : observed (w.journals t.id) = []

theorem blank_lasting : Lasting fun w => L.Blank w t := fun _ _ hw h =>
  ⟨resting_lasting _ _ hw h.toResting, h.unplanned, h.blank, (hw.observed t.id).trans h.silent⟩

theorem keeps_createTicket (job : Job) :
    L.Keeps verify (fun _ => True) (K.createTicket job) (fun t w => L.Blank w t) := by
  refine Keeps.bind (keeps_now fun _ _ _ _ => trivial) fun now => ?_
  refine Keeps.bind (keeps_nextTicketId fun _ _ _ _ => trivial) fun i => ?_
  dsimp only
  generalize ht : ({ id := i, agent := job.agent, user := job.user, title := job.title, job := job,
                     createdAt := now, updatedAt := now } : Ticket) = t
  refine Keeps.bind (M := fun _ w => L.Blank w t) (.write (fun _ => rfl) fun w hw => ?_)
    fun _ => .pure fun _ _ hw => hw
  rintro ⟨⟨hissued, hunused⟩, -⟩
  obtain rfl : t.id = i := ht ▸ rfl
  have hsteps : t.steps = [] := ht ▸ rfl
  have hfits : L.Fits w t := fits_new (fun c hc hid => hunused (.inr (.inr ⟨c, hc, hid⟩))) hsteps
  have hjournal : w.journals t.id = [] := by
    by_contra hne
    exact hunused (.inr (.inl hne))
  refine ⟨hw.save hfits hissued, ⟨⟨by simp, hfits.unmoved ⟨rfl, fun _ => rfl⟩⟩, ?_⟩, ht ▸ rfl, hsteps, ?_⟩
  · exact ht ▸ TicketState.noConfusion
  · rw [World.journals_saveTicket, hjournal]
    rfl

/-- The plan is attached, with a record for each step, and nothing is observed. -/
structure Drafted (L : Lessor) (w : World) (t : Ticket) : Prop extends Resting L w t where
  clean : ∀ r ∈ t.steps, r.status ≠ .failed
  silent : observed (w.journals t.id) = []

theorem drafted_lasting : Lasting fun w => L.Drafted w t := fun _ _ hw h =>
  ⟨resting_lasting _ _ hw h.toResting, h.clean, (hw.observed t.id).trans h.silent⟩

theorem Drafted.poised (h : L.Drafted w t) : L.Poised t w :=
  ⟨fun _ _ => h.silent ▸ List.nil_prefix, fun ⟨r, hr, hfail⟩ => absurd hfail (h.clean r hr)⟩

theorem keeps_attachPlan {plan : Plan} :
    L.Keeps verify (fun w => L.Blank w t) (Kernel.attachPlan t plan)
      (fun t' w => L.Drafted w t') := by
  unfold Kernel.attachPlan
  split
  · exact .raise
  · refine .pure fun w _ hw => ?_
    have hrecords : ∀ r ∈ plan.steps.map Kernel.freshRecord, r.status = .pending := by
      intro r hr
      obtain ⟨s, -, rfl⟩ := List.mem_map.mp hr
      rfl
    have hfree : L.Free (historyOf w.calls)
        { t with plan := some plan, steps := plan.steps.map Kernel.freshRecord } :=
      hw.free.congr rfl (.inr hw.unplanned)
    refine ⟨⟨⟨hw.known, ⟨fun r hr => ?_, fun r hr hfail => ?_, fun _ _ _ => hfree, fun _ => hfree⟩⟩,
      hw.still⟩, fun r hr => ?_, hw.silent⟩
    · simp [hrecords r hr]
    · simp [hrecords r hr] at hfail
    · simp [hrecords r hr]

theorem Drafted.same (h : L.Drafted w t) (hid : t'.id = t.id) (hplan : t'.plan = t.plan)
    (hstate : t'.state = t.state) (hsteps : t'.steps = t.steps) : L.Drafted w t' :=
  ⟨h.toResting.same hid hplan hstate hsteps, hsteps ▸ h.clean, hid ▸ h.silent⟩

theorem keeps_checkPlan {plan : Plan} :
    L.Keeps verify (fun w => L.Drafted w t) (K.checkPlan t plan) (fun t' w => L.Drafted w t') := by
  unfold Kernel.checkPlan
  split
  · exact .pure fun _ _ hw => hw
  · split
    · refine Keeps.bind (.raisedBy fun _ _ _ hw => hw) fun verdict => ?_
      refine Keeps.bind (keeps_jot drafted_lasting (fun _ hw => hw.known) (by decide)) fun _ => ?_
      exact .pure fun _ _ hw => hw.same rfl rfl rfl rfl
    · exact .pure fun _ _ hw => hw

theorem keeps_runPlan (hK : K.executor = L.answer) (hverify : K.agent.verify = verify)
    {plan : Plan} :
    L.Keeps verify (fun w => L.Blank w t) (K.runPlan t plan) (fun t' w => L.Carried w t') := by
  unfold Kernel.runPlan
  refine Keeps.bind keeps_attachPlan fun t₁ => ?_
  refine Keeps.bind keeps_checkPlan fun t₂ => ?_
  refine Keeps.bind (M := fun t₃ w => L.Ready w t₃ ∧ t₃.state = .planned)
    ((keeps_transition (poised_unread (L := L) (t := t₂))).conseq (fun w _ hw => ?_)
      fun t₃ w _ hq => ?_) fun t₃ => ?_
  · exact ⟨hw.toCarried, fun _ => hw.free, hw.poised⟩
  · obtain ⟨⟨⟨at_, rfl⟩, hstored⟩, hpoised⟩ := hq
    exact ⟨⟨hstored, hpoised.moved ..⟩, rfl⟩
  · split
    · refine Keeps.bind (M := fun _ w => L.Resting w t₃) ((keeps_now resting_lasting).pre
        fun w hw hr => ⟨.of_stored hw hr.1.1, by simp [hr.2]⟩) fun now => ?_
      refine Keeps.bind (keeps_note (t := t₃)) fun _ => ?_
      refine Keeps.bind (M := fun _ w => L.Carried w
        { t₃ with approvals := Kernel.requests plan now }) ?_ fun _ => .pure fun _ _ hw => hw
      refine .write (fun _ => rfl) fun w hw hr => ?_
      have hnew : L.Resting w { t₃ with approvals := Kernel.requests plan now } :=
        hr.same rfl rfl rfl rfl
      refine ⟨hw.save hnew.fits (hnew.issued hw), by simp, hnew.fits.unmoved ⟨rfl, fun _ => rfl⟩⟩
    · refine Keeps.bind (M := fun t₄ w => L.Ready w t₄ ∧ t₄.state = .approved)
        ((keeps_transition (poised_unread (L := L) (t := t₃))).conseq (fun w hw hr => ?_)
          fun t₄ w _ hq => ?_) fun t₄ => ?_
      · have hcarried := Carried.of_stored hw hr.1.1
        exact ⟨hcarried, fun _ => hcarried.fits.resting (by simp [hr.2]), hr.1.2⟩
      · obtain ⟨⟨⟨at_, rfl⟩, hstored⟩, hpoised⟩ := hq
        exact ⟨⟨hstored, hpoised.moved ..⟩, rfl⟩
      · exact (keeps_actAndClose hK hverify).pre fun _ _ hr => ⟨hr.1, .inl hr.2⟩

theorem keeps_run (hK : K.executor = L.answer) (hverify : K.agent.verify = verify) {raw : Raw} :
    L.Keeps verify (fun _ => True) (K.run raw) (fun t w => L.Carried w t) := by
  unfold Kernel.run
  refine Keeps.bind (.raisedBy fun _ _ _ hw => hw) fun job => ?_
  refine Keeps.bind (keeps_createTicket job) fun t => ?_
  refine Keeps.bind (keeps_jot blank_lasting (fun _ hw => hw.known) (by decide)) fun _ => ?_
  refine Keeps.bind (.raisedBy (Q := fun _ w => L.Blank w t) fun _ _ _ hw => hw) fun plan => ?_
  split
  · exact keeps_runPlan hK hverify
  · split
    · exact keeps_runPlan hK hverify
    · refine Keeps.bind (keeps_jot blank_lasting (fun _ hw => hw.known) (by decide)) fun _ => ?_
      refine (keeps_transition unread_true).conseq (fun w _ hw => ?_) fun t' w hw hq => ?_
      · exact ⟨hw.toCarried, fun _ => hw.free, trivial⟩
      · exact .of_stored hw hq.1.2

theorem keeps_load {R : World → Prop} {i : String} :
    L.Keeps verify R (store.load i) (fun t w => w.tickets i = some t ∧ R w) := by
  refine Keeps.bind (M := fun o w => o = w.tickets i ∧ R w) (.look fun _ _ hw => ⟨rfl, hw⟩)
    fun o => ?_
  cases o with
  | none => exact .raise
  | some t => exact .pure fun _ _ hw => ⟨hw.1.symm, hw.2⟩

/-- Approvals are not what leases rest on. -/
theorem keeps_approve {i stepId by' note : String} :
    L.Keeps verify (fun _ => True) (K.approve i stepId by' note) (fun t w => L.Carried w t) := by
  unfold Kernel.approve
  refine Keeps.bind (keeps_load.conseq (fun _ _ hw => hw) fun t w hw hq => Carried.of_stored hw hq.1)
    fun t => ?_
  have hlasting : Lasting fun w => L.Carried w t := fun _ _ hw h => h.moved_on hw
  split
  · refine Keeps.bind (keeps_now hlasting) fun at_ => ?_
    split
    · exact .raise
    · rename_i approvals _
      refine Keeps.bind (keeps_jot hlasting (fun _ hw => hw.known) (by decide)) fun _ => ?_
      refine Keeps.bind (M := fun _ w => L.Carried w { t with approvals }) ?_
        fun _ => .pure fun _ _ hw => hw
      refine .write (fun _ => rfl) fun w hw hr => ?_
      have hnew : L.Fits w { t with approvals } := hr.fits.same rfl rfl rfl rfl
      exact ⟨hw.save hnew (hr.issued hw), by simp, hnew.unmoved ⟨rfl, fun _ => rfl⟩⟩
  · exact .raise

/-- A ticket that is still to act and has a failed step holds no lease. -/
def FailedFree (L : Lessor) (w : World) (t : Ticket) : Prop :=
  ToAct t → (∃ r ∈ t.steps, r.status = .failed) → L.Free (historyOf w.calls) t

theorem keeps_resume (hK : K.executor = L.answer) (hverify : K.agent.verify = verify) {i : String} :
    L.Keeps verify (fun w => Ordered w ∧ ∀ t, w.tickets i = some t → L.FailedFree w t) (K.resume i)
      (fun t w => L.Carried w t) := by
  unfold Kernel.resume
  refine Keeps.bind (M := fun t w => w.tickets t.id = some t ∧ (ToAct t → L.Poised t w))
    (keeps_load.conseq (fun _ _ hw => hw) fun t w hw hq => ?_) fun t => ?_
  · obtain ⟨ht, hordered, hfailed⟩ := hq
    obtain ⟨hid, -⟩ := hw.stored i t ht
    subst hid
    exact ⟨ht, fun hact => ⟨fun plan hplan => hordered.planned _ t plan ht hplan, hfailed t ht hact⟩⟩
  · have hstop : L.Keeps verify (fun w => w.tickets t.id = some t ∧ (ToAct t → L.Poised t w))
        (pure t) (fun t w => L.Carried w t) := .pure fun w hw hr => .of_stored hw hr.1
    split
    · exact hstop
    · split
      · rename_i hplanned
        split
        · exact .raise
        · refine Keeps.bind (M := fun t' w => L.Ready w t' ∧ t'.state = .approved)
            ((keeps_transition (poised_unread (L := L) (t := t))).conseq (fun w hw hr => ?_)
              fun t' w _ hq => ?_) fun t' => ?_
          · have hcarried := Carried.of_stored hw hr.1
            exact ⟨hcarried, fun _ => hcarried.fits.resting (by simp [hplanned]),
              hr.2 (.inl hplanned)⟩
          · obtain ⟨⟨⟨at_, rfl⟩, hstored⟩, hpoised⟩ := hq
            exact ⟨⟨hstored, hpoised.moved ..⟩, rfl⟩
          · exact (keeps_actAndClose hK hverify).pre fun _ _ hr => ⟨hr.1, .inl hr.2⟩
      · split
        · rename_i hstate
          exact (keeps_actAndClose hK hverify).pre fun _ _ hr =>
            ⟨⟨hr.1, hr.2 (.inr hstate)⟩, hstate⟩
        · split
          · rename_i hanalysing
            exact keeps_analyseAndClose.pre fun w hw hr => ⟨.of_stored hw hr.1, by simp [hanalysing]⟩
          · exact hstop

/-! ## Sessions -/

/-- A `resume` finds no ticket that is still to act, has a failed step and holds a
    lease. -/
def ResumesFree (L : Lessor) (c : KernelCall) (w : World) : Prop :=
  ∀ i, c.op = .resume i → ∀ t, w.tickets i = some t → L.FailedFree w t

/-- The kernel of a call is served by the lessor and judges with `verify`. -/
structure Serves (L : Lessor) (verify : Step → Observation → StepVerdict) (K : Kernel) : Prop where
  executor : K.executor = L.answer
  verify : K.agent.verify = verify

theorem keeps_call {c : KernelCall} (hc : L.Serves verify c.kernel) :
    L.Keeps verify (fun w => Ordered w ∧ L.ResumesFree c w) c.prog (fun t w => L.Carried w t) := by
  obtain ⟨K, op⟩ := c
  cases op with
  | run raw => exact (keeps_run hc.executor hc.verify).pre fun _ _ _ => trivial
  | approve i stepId by' note => exact keeps_approve.pre fun _ _ _ => trivial
  | resume i =>
    refine (keeps_resume hc.executor hc.verify).pre fun w _ hr => ⟨hr.1, fun t ht => ?_⟩
    exact hr.2 i rfl t ht

theorem accounted_init : L.Accounted {} where
  stored i t ht := by simp at ht
  issued i hused := by
    rcases hused with ht | hj | ⟨c, hc, -⟩
    · simp at ht
    · simp at hj
    · simp at hc

/-- The run lemma. -/
theorem session_accounted {cs : List (KernelCall × Nat)}
    (hserves : ∀ c ∈ cs, L.Serves verify c.1.kernel)
    (hstart : Starts KernelCall.prog L.ResumesFree {} cs) :
    L.FailsFree verify (session KernelCall.prog {} cs).calls →
      L.Accounted (session KernelCall.prog {} cs) := by
  induction cs using List.reverseRecOn with
  | nil => exact fun _ => accounted_init
  | append_singleton cs c ih =>
    obtain ⟨hbefore, hlast⟩ := starts_append.mp hstart
    rw [session_append]
    have hkeeps := keeps_call (hserves c (by simp))
    refine Triple.world_sat (Triple.conseq hkeeps (fun _ hw => hw)
      (fun _ _ hw hclean => (hw hclean).1) fun _ hw => hw) (fun hclean => ?_) c.2
    exact ⟨ih (fun x hx => hserves x (List.mem_append_left _ hx)) hbefore hclean,
      session_ordered cs, hlast.1⟩

/-- **Leases at rest**: a ticket that a call returns is not running only if it holds no
    lease. -/
theorem returned_free {cs : List (KernelCall × Nat)} {c : KernelCall × Nat}
    (hserves : ∀ x ∈ cs ++ [c], L.Serves verify x.1.kernel)
    (hstart : Starts KernelCall.prog L.ResumesFree {} (cs ++ [c]))
    (hclean : L.FailsFree verify (session KernelCall.prog {} (cs ++ [c])).calls) {t : Ticket}
    (hret : (c.1.prog (session KernelCall.prog {} cs) c.2).value? = some t)
    (hstate : t.state ≠ .running) :
    L.Free (historyOf (session KernelCall.prog {} (cs ++ [c])).calls) t := by
  obtain ⟨hbefore, hlast⟩ := starts_append.mp hstart
  have hsat := keeps_call (hserves c (by simp)) (session KernelCall.prog {} cs) c.2 fun hclean =>
    ⟨session_accounted (fun x hx => hserves x (List.mem_append_left _ hx)) hbefore hclean,
      session_ordered cs, hlast.1⟩
  rw [session_append] at hclean ⊢
  simp only [session_cons, session_nil, after] at hclean ⊢
  rcases hrun : c.1.prog (session KernelCall.prog {} cs) c.2 with ⟨t', w', n'⟩ | ⟨e, w', n'⟩ | w'
  · rw [hrun] at hsat hret hclean
    obtain rfl := Option.some.inj hret
    exact (hsat hclean).2.fits.resting hstate
  · rw [hrun] at hret
    cases hret
  · rw [hrun] at hret
    cases hret

end Slas.Lessor
