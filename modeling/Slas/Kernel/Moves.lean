/-
  Slas.Kernel.Moves

  All that the kernel ever does to the world, as one step relation.

  `Move K P` lists the atomic steps with what the kernel knows when it takes
  them: whose turn it is when an executor is called, what a saved ticket keeps
  of the stored one, where the tickets its findings name come from.  `Orphan`
  is the one torn step: a child ticket saved and not yet in the bug index.
  `P` is what the callers of `resume` promise of the ticket they resume.

  The properties of the kernel are proved of these steps; that its programs
  take no others is proved in `Slas.Kernel.Refine`.
-/

import Mathlib.Data.List.Induction
import Slas.Kernel.Kernel

namespace Slas

open Crash

/-! ## The journal of a ticket -/

/-- The steps the journal holds observations of, in order. -/
def observed (es : List JournalEntry) : List String :=
  es.filterMap fun e => if e.kind = .observation then e.stepId else none

@[simp] theorem observed_append (es fs : List JournalEntry) :
    observed (es ++ fs) = observed es ++ observed fs := List.filterMap_append

theorem observed_of_kind {e : JournalEntry} (h : e.kind ≠ .observation) : observed [e] = [] := by
  simp [observed, h]

theorem observed_observation {e : JournalEntry} {s : String} (hk : e.kind = .observation)
    (hs : e.stepId = some s) : observed [e] = [s] := by
  simp [observed, hk, hs]

theorem mem_observed {es : List JournalEntry} {s : String} :
    s ∈ observed es ↔ ∃ e ∈ es, e.kind = .observation ∧ e.stepId = some s := by
  simp only [observed, List.mem_filterMap]
  constructor
  · rintro ⟨e, he, h⟩
    split at h
    · exact ⟨e, he, ‹_›, h⟩
    · cases h
  · rintro ⟨e, he, hk, hs⟩
    exact ⟨e, he, by simp [hk, hs]⟩

theorem noteCompleted_self {done : String → Option JournalEntry} {e : JournalEntry} {s : String}
    (hk : e.kind = .observation) (hs : e.stepId = some s) : noteCompleted done e s = some e := by
  simp [noteCompleted, hk, hs]

theorem noteCompleted_other {done : String → Option JournalEntry} {e : JournalEntry} {s : String}
    (h : ¬ (e.kind = .observation ∧ e.stepId = some s)) : noteCompleted done e s = done s := by
  unfold noteCompleted
  split
  · rename_i hk
    cases hs : e.stepId with
    | none => rfl
    | some s' =>
      have hne : s ≠ s' := fun heq => h ⟨hk, heq ▸ hs⟩
      simp [hne]
  · rfl

/-- What `completed_steps` finds for a step is an observation of it, and it
    finds one for every observed step. -/
theorem completedSteps_spec (es : List JournalEntry) (s : String) :
    (∀ e, completedSteps es s = some e → e ∈ es ∧ e.kind = .observation ∧ e.stepId = some s) ∧
      (completedSteps es s = none → s ∉ observed es) := by
  induction es using List.reverseRecOn with
  | nil => simp [completedSteps, observed]
  | append_singleton es x ih =>
    have hstep : completedSteps (es ++ [x]) = noteCompleted (completedSteps es) x := by
      simp [completedSteps]
    rw [hstep]
    by_cases hx : x.kind = .observation ∧ x.stepId = some s
    · rw [noteCompleted_self hx.1 hx.2]
      constructor
      · intro e he
        obtain rfl := Option.some.inj he
        exact ⟨by simp, hx⟩
      · simp
    · rw [noteCompleted_other hx]
      refine ⟨fun e he => ?_, fun hnone hmem => ?_⟩
      · obtain ⟨hmem, hrest⟩ := ih.1 e he
        exact ⟨List.mem_append_left _ hmem, hrest⟩
      · rw [observed_append, List.mem_append] at hmem
        rcases hmem with hmem | hmem
        · exact ih.2 hnone hmem
        · obtain ⟨e, he, hk⟩ := mem_observed.mp hmem
          exact hx (List.mem_singleton.mp he ▸ hk)

/-- Every journalled observation of the steps is one `verify` judges ok. -/
def AllOk (verify : Step → Observation → StepVerdict) (es : List JournalEntry)
    (steps : List Step) : Prop :=
  ∀ s ∈ steps, ∀ e ∈ es, e.kind = .observation → e.stepId = some s.id →
    ∀ o, Observation.modelValidate e.payload = some o → (verify s o).outcome = .ok

/-! ## What the callers promise -/

/-- The approvals of a destructive plan were requested. -/
def Asked (t : Ticket) : Prop :=
  ∀ plan, t.plan = some plan → plan.destructive = true → t.approvals ≠ []

/-- Every step whose journalled observation is not ok is saved as failed. -/
def Settled (verify : Step → Observation → StepVerdict) (es : List JournalEntry) (t : Ticket) :
    Prop :=
  ∀ plan, t.plan = some plan → ∀ s ∈ plan.steps, ∀ e ∈ es, e.kind = .observation →
    e.stepId = some s.id → ∀ o, Observation.modelValidate e.payload = some o →
    (verify s o).outcome ≠ .ok → ∃ r, t.stepRecord s.id = some r ∧ r.status = .failed

/-- Which of the two is promised of every ticket that is resumed. -/
structure Promise where
  asked : Prop
  settled : Prop

/-- The ticket has not finished its steps: `resume` goes on with ACT. -/
def ToAct (t : Ticket) : Prop := t.state = .planned ∨ t.state = .approved ∨ t.state = .running

/-- The promise about one call. -/
def Promise.Kept (P : Promise) (c : KernelCall) (w : World) : Prop :=
  ∀ i, c.op = .resume i → ∀ t, w.tickets i = some t →
    (P.asked → t.state = .planned → Asked t) ∧
      (P.settled → ToAct t → Settled c.kernel.agent.verify (w.journals i) t)

/-! ## What a saved ticket keeps of the stored one -/

/-- No record is marked as skipped, and no two findings share a fingerprint. -/
structure Tidy (t : Ticket) : Prop where
  unskipped : ∀ r ∈ t.steps, r.status ≠ .skipped
  distinct : (fingerprints t.findings).Nodup

/-- Where a ticket that a finding names may come from: the stored ticket, the
    store, the bug index or a journalled observation. -/
def Known (w : World) (T : Ticket) (i : String) : Prop :=
  (∃ g ∈ T.findings, g.ticketId = some i) ∨ (w.tickets i).isSome ∨
    (∃ e ∈ w.bugIndex, e.ticketId = i) ∨
    ∃ e ∈ w.journals T.id, e.kind = .observation ∧
      ∃ o, Observation.modelValidate e.payload = some o ∧ ∃ g ∈ o.findings, g.ticketId = some i

/-- The ticket `t` the kernel holds, as a version of the stored `T`. -/
structure Version (w : World) (T t : Ticket) : Prop where
  id : t.id = T.id
  parent : t.parent = T.parent
  plan : t.plan = T.plan
  approvals : t.approvals = T.approvals
  tidy : Tidy t
  sourced : ∀ f ∈ t.findings, ∀ i, f.ticketId = some i → Known w T i

/-- The saves of a ticket, `T` stored and `t` saved over it. -/
inductive Saves (P : Promise) (w : World) (T t : Ticket) : Prop where
  /-- PLAN: the compiled plan is attached, with fresh records. -/
  | plan (plan : Plan) (hT : T.state = .open) (ht : t.state = .planned) (hplan : T.plan = none)
      (hparent : T.parent = none) (happrovals : T.approvals = [])
      (h : Version w { T with plan := some plan } t)
  /-- PLAN refused by the skill gate. -/
  | refuse (hT : T.state = .open) (ht : t.state = .failed) (hparent : T.parent = none)
      (h : Version w T t)
  /-- The approvals of a destructive plan are requested. -/
  | ask (plan : Plan) (now : DateTime) (hT : T.state = .planned) (ht : t.state = .planned)
      (hplan : T.plan = some plan)
      (h : Version w { T with approvals := Kernel.requests plan now } t)
  /-- One pending approval is given. -/
  | approve (stepId : String) (f : Approval → Approval) (approvals : List Approval)
      (hf : ∀ a, (f a).stepId = a.stepId ∧ (f a).approved = some true)
      (hdecide : Kernel.decideFirst stepId f T.approvals = some approvals)
      (ht : t = { T with approvals })
  /-- No approval is pending: the plan may run. -/
  | proceed (hT : T.state = .planned) (ht : t.state = .approved) (hpending : T.pendingApprovals = [])
      (hasked : P.asked → Asked T) (h : Version w T t)
  | start (hT : T.state = .approved) (ht : t.state = .running) (h : Version w T t)
  /-- A step starts or finishes. -/
  | work (hT : T.state = .running) (ht : t.state = .running) (h : Version w T t)
  | collect (hT : T.state = .running) (ht : t.state = .analysing) (h : Version w T t)
  /-- RCA and SOP are attached. -/
  | close (hT : T.state = .analysing) (ht : t.state = .analysing) (h : Version w T t)
  | finish (hT : T.state = .analysing) (ht : t.state = .needsReview ∨ t.state = .done)
      (hlinked : ∀ f ∈ t.findings, f.ticketId.isSome) (h : Version w T t)

/-! ## The steps -/

/-- It is the turn of `step` in the plan of ticket `i`: all before it are
    observed and it is not. -/
structure Turn (K : Kernel) (P : Promise) (w : World) (i : String) (step : Step) : Prop where
  due : ∃ T plan before after, w.tickets i = some T ∧ T.state = .running ∧ T.plan = some plan ∧
    plan.steps = before ++ step :: after ∧ (∀ s ∈ before, s.id ∈ observed (w.journals i)) ∧
    (P.settled → AllOk K.agent.verify (w.journals i) before)
  fresh : step.id ∉ observed (w.journals i)

/-- The last entry of the journal is the intent of the step. -/
def Intended (w : World) (i : String) (step : Step) : Prop :=
  ∃ e, (w.journals i).getLast? = some e ∧ e.kind = .intent ∧ e.stepId = some step.id

/-- The child of a finding that is not tracked yet, under a fresh id. -/
structure Spawn (w : World) (child : Ticket) (f : Finding) : Prop where
  untracked : w.bugIndex.lookup f.fingerprint = none
  id : ∃ a, child.id = makeTicketId a (w.sequence a)
  unused : w.tickets child.id = none
  journal : w.journals child.id = []
  state : child.state = .open
  plan : child.plan = none
  approvals : child.approvals = []
  steps : child.steps = []
  findings : child.findings = [{ f with ticketId := some child.id }]
  parent : child.parent.isSome

/-- The atomic steps of kernel `K` under the promise `P`. -/
inductive Move (K : Kernel) (P : Promise) : World → World → Prop where
  | tick (w : World) : Move K P w w.tick
  | file (w : World) (path text : String) : Move K P w (w.writeFile path text)
  | allocate (w : World) (a : AgentName) : Move K P w (w.bumpSequence a)
  | create (w : World) (t : Ticket) (hid : ∃ a, t.id = makeTicketId a (w.sequence a))
      (hunused : w.tickets t.id = none) (hjournal : w.journals t.id = [])
      (hstate : t.state = .open) (hplan : t.plan = none) (happrovals : t.approvals = [])
      (hsteps : t.steps = []) (hfindings : t.findings = []) (hparent : t.parent = none) :
      Move K P w (w.saveTicket t)
  | jot (w : World) (i : String) (e : JournalEntry) (hi : (w.tickets i).isSome)
      (hk : e.kind = .state ∨ e.kind = .note) : Move K P w (w.appendEntry i e)
  | intent (w : World) (i : String) (e : JournalEntry) (step : Step) (h : Turn K P w i step)
      (hk : e.kind = .intent) (hs : e.stepId = some step.id) : Move K P w (w.appendEntry i e)
  | execute (w : World) (i : String) (step : Step) (context : ExecutionContext)
      (hi : context.ticketId = i) (h : Turn K P w i step) (hintent : Intended w i step) :
      Move K P w (w.logCall (w.call step context))
  | observe (w : World) (i : String) (e : JournalEntry) (step : Step) (o : Observation)
      (h : Turn K P w i step) (hintent : Intended w i step) (hk : e.kind = .observation)
      (hs : e.stepId = some step.id) (hpayload : e.payload = o.modelDump)
      (ho : ∃ calls context, K.executor calls step context = .ok o) :
      Move K P w (w.appendEntry i e)
  | save (w : World) (T t : Ticket) (hT : w.tickets t.id = some T) (h : Saves P w T t) :
      Move K P w (w.saveTicket t)
  | seen (w : World) (e : BugIndexEntry) (i : String) (he : e ∈ w.bugIndex) :
      Move K P w (w.recordBug e.fingerprint e.ticketId i)
  | track (w : World) (child : Ticket) (f : Finding) (i : String) (h : Spawn w child f) :
      Move K P w ((w.saveTicket child).recordBug f.fingerprint child.id i)

/-- The torn step: the process died before the index had the child. -/
inductive Orphan : World → World → Prop where
  | orphan (w : World) (child : Ticket) (f : Finding) (h : Spawn w child f) :
      Orphan w (w.saveTicket child)

/-! ## Ids are fresh and tickets stand under their own -/

/-- A ticket stands under its id and is tidy, and no id beyond the sequence is
    in use. -/
structure Sound (w : World) : Prop where
  keyed : ∀ i t, w.tickets i = some t → t.id = i
  tidy : ∀ i t, w.tickets i = some t → Tidy t
  fresh : ∀ a n, w.sequence a < n →
    w.tickets (makeTicketId a n) = none ∧ w.journals (makeTicketId a n) = []

theorem Sound.init : Sound {} :=
  ⟨fun _ _ h => by simp at h, fun _ _ h => by simp at h, fun _ _ _ => ⟨rfl, rfl⟩⟩

/-- A tidy ticket saved under an id in use, or under the last one allocated,
    keeps the world sound. -/
theorem Sound.saveTicket {w : World} (hw : Sound w) {t : Ticket} (htidy : Tidy t)
    (ht : (w.tickets t.id).isSome ∨ ∃ a, t.id = makeTicketId a (w.sequence a)) :
    Sound (w.saveTicket t) := by
  refine ⟨fun i u hu => ?_, fun i u hu => ?_, fun a n hn => ?_⟩
  · rw [World.tickets_saveTicket] at hu
    split at hu
    · obtain rfl := Option.some.inj hu
      exact (‹i = t.id›).symm
    · exact hw.keyed i u hu
  · rw [World.tickets_saveTicket] at hu
    split at hu
    · obtain rfl := Option.some.inj hu
      exact htidy
    · exact hw.tidy i u hu
  · obtain ⟨hnone, hempty⟩ := hw.fresh a n hn
    have hne : makeTicketId a n ≠ t.id := by
      intro heq
      rcases ht with hsome | ⟨b, hb⟩
      · rw [← heq, hnone] at hsome
        cases hsome
      · obtain ⟨rfl, rfl⟩ := makeTicketId_inj.mp (heq.trans hb)
        exact absurd hn (Nat.lt_irrefl _)
    exact ⟨by rw [World.tickets_saveTicket, if_neg hne]; exact hnone, hempty⟩

theorem Sound.appendEntry {w : World} (hw : Sound w) {i : String} (hi : (w.tickets i).isSome)
    (e : JournalEntry) : Sound (w.appendEntry i e) := by
  refine ⟨hw.keyed, hw.tidy, fun a n hn => ?_⟩
  obtain ⟨hnone, hempty⟩ := hw.fresh a n hn
  have hne : makeTicketId a n ≠ i := by
    rintro rfl
    rw [hnone] at hi
    cases hi
  exact ⟨hnone, by rw [World.journals_appendEntry, if_neg hne]; exact hempty⟩

theorem Sound.bumpSequence {w : World} (hw : Sound w) (a : AgentName) :
    Sound (w.bumpSequence a) := by
  refine ⟨hw.keyed, hw.tidy, fun b n hn => hw.fresh b n ?_⟩
  rw [World.sequence_bumpSequence] at hn
  split at hn
  · rename_i hb
    rw [hb]
    omega
  · exact hn

theorem Turn.isSome {K : Kernel} {P : Promise} {w : World} {i : String} {step : Step}
    (h : Turn K P w i step) : (w.tickets i).isSome := by
  obtain ⟨T, _, _, _, hT, _⟩ := h.due
  simp [hT]

theorem Spawn.sound {w : World} {child : Ticket} {f : Finding} (h : Spawn w child f)
    (hw : Sound w) : Sound (w.saveTicket child) := by
  refine hw.saveTicket ⟨?_, ?_⟩ (Or.inr h.id)
  · simp [h.steps]
  · simp [h.findings]

/-- Every saved ticket is tidy. -/
theorem Saves.tidy {P : Promise} {w : World} {T t : Ticket} (h : Saves P w T t) (hT : Tidy T) :
    Tidy t := by
  cases h with
  | approve _ _ _ _ _ ht => exact ht ▸ ⟨hT.unskipped, hT.distinct⟩
  | plan _ _ _ _ _ _ h => exact h.tidy
  | refuse _ _ _ h => exact h.tidy
  | ask _ _ _ _ _ h => exact h.tidy
  | proceed _ _ _ _ h => exact h.tidy
  | start _ _ h => exact h.tidy
  | work _ _ h => exact h.tidy
  | collect _ _ h => exact h.tidy
  | close _ _ h => exact h.tidy
  | finish _ _ _ h => exact h.tidy

theorem Move.sound {K : Kernel} {P : Promise} {w w' : World} (h : Move K P w w') (hw : Sound w) :
    Sound w' := by
  cases h with
  | tick => exact ⟨hw.keyed, hw.tidy, hw.fresh⟩
  | file => exact ⟨hw.keyed, hw.tidy, hw.fresh⟩
  | allocate a => exact hw.bumpSequence a
  | create t hid _ _ _ _ _ hsteps hfindings =>
    exact hw.saveTicket ⟨by simp [hsteps], by simp [hfindings]⟩ (Or.inr hid)
  | jot i e hi => exact hw.appendEntry hi e
  | intent i e step hturn => exact hw.appendEntry hturn.isSome e
  | execute => exact ⟨hw.keyed, hw.tidy, hw.fresh⟩
  | observe i e step o hturn => exact hw.appendEntry hturn.isSome e
  | save T t hT h => exact hw.saveTicket (h.tidy (hw.tidy _ T hT)) (Or.inl (by simp [hT]))
  | seen => exact ⟨hw.keyed, hw.tidy, hw.fresh⟩
  | track child f i hspawn =>
    have hsaved := hspawn.sound hw
    exact ⟨hsaved.keyed, hsaved.tidy, hsaved.fresh⟩

theorem Orphan.sound {w w' : World} (h : Orphan w w') (hw : Sound w) : Sound w' := by
  cases h with
  | orphan child f hspawn => exact hspawn.sound hw

/-- The steps of kernel `K`, over sound worlds. -/
def kernelSteps (K : Kernel) (P : Promise) : Steps World where
  move := Move K P
  torn := Orphan
  inv := Sound
  inv_move _ _ h hw := h.sound hw

end Slas
