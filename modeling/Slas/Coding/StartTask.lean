/-
  Slas.Coding.StartTask

  Concurrent requests that start a coding task (`start_task` of
  `slas_orchestrator.service.coding`, with the Coding Agent and the run registry of
  `slas_orchestrator.service.runs`), and the threads of their runs.

  The approved breakdown is kept under the id of its job, and so is the state of the run
  that waits for its ticket; but the id is a digest of the plan text, and two requests with
  one text share it.  `ownBreakdown_iff` says which orders of their steps give each run its own
  breakdown, and each request its own ticket.
-/

import Mathlib.Data.List.Induction
import Slas.Coding.Agent
import Slas.Lib.Trace

namespace Slas

namespace StartTask

open Coding

/-! ## Requests -/

structure StartTaskRequest where
  /-- the text of the uploaded plan -/
  plan : String
  breakdown : Breakdown

/-- The requests, the hex digest of SHA-256, and what the Coding Agent checks languages with. -/
structure Given where
  requests : Nat → StartTaskRequest
  sha256 : String → String
  functions : TextFunctions
  manifest : Manifest

/-- The id of the job: the breakdown has no part in it. -/
def Given.jobId (G : Given) (i : Nat) : String :=
  "job-" ++ truncated 12 (G.sha256 (G.requests i).plan)

/-- Every language of the breakdown has its versions in the manifest. -/
def Given.knows (G : Given) (i : Nat) : Bool :=
  (G.requests i).breakdown.languages.all fun c =>
    (G.manifest.versions G.functions c.language).isOk

/-! ## The service -/

/-- Where the thread of a request is in `start_task`. -/
inductive RequestPhase where
  | received
  | ingested
  | approved
  | waiting
  | answered
  | refused
  deriving DecidableEq

/-- Where the thread of its run is in `RunRegistry._worker`. -/
inductive RunPhase where
  | absent
  | started
  | ingested
  | allocated
  | stored
  | announced
  | planned
  | raised
  | ended
  deriving DecidableEq

/-- What has come of a request and of its run. -/
structure Progress where
  phase : RequestPhase := .received
  run : RunPhase := .absent
  /-- `RunState.ticket_id` -/
  ticketId : Option String := none
  /-- the id that the run took for its ticket -/
  ticket : Option String := none
  /-- the ticket that the run created, once it is saved -/
  created : Option String := none
  /-- the breakdown that `agent.plan` builds of -/
  planBreakdown : Option Breakdown := none
  /-- the ticket id that the request is answered with, `some none` for an error -/
  answer : Option (Option String) := none

/-- What the threads share: `_plans` and `_approved` of the agent, `_by_job` of the registry,
    and the ticket sequence of the store. -/
structure Shared where
  plans : String → Option String := fun _ => none
  approved : String → Option Breakdown := fun _ => none
  byJob : String → Option Nat := fun _ => none
  sequence : Nat := 0
  progress : Nat → Progress := fun _ => {}

inductive StartStep where
  /-- `agent.ingest`, which may refuse the plan -/
  | ingest (accepted : Bool)
  /-- `agent.approve` -/
  | approve
  /-- the state is registered in `RunRegistry.start`, and its thread started -/
  | register
  /-- the wait returns because the ticket is known or the run is over -/
  | respond
  /-- the wait returns because its time is up -/
  | giveUp
  /-- `agent.ingest` of the run -/
  | runIngest
  /-- `store.next_ticket_id` -/
  | allocate
  /-- the new ticket is saved in the inner store -/
  | store
  /-- `_saved`, after the first save or a later one -/
  | announce
  /-- `agent.plan` -/
  | plan
  /-- the run returns -/
  | finish
  /-- the run returns, and its state has no ticket yet -/
  | finishUntold
  /-- the run raises -/
  | raise
  /-- `_fail_ticket`, of the ticket that the run of that request created -/
  | failTicket (creator : Nat)
  /-- a run that raised has no ticket to fail -/
  | stop
  deriving DecidableEq

/-- A step of a request or of its run. -/
abbrev StartEvent := Nat × StartStep

/-- The runs whose thread may still raise. -/
def RunPhase.active : RunPhase → Bool
  | .absent | .raised | .ended => false
  | _ => true

/-- The thread of the step is there. -/
def ready (s : Shared) (i : Nat) : StartStep → Bool
  | .ingest _ => (s.progress i).phase = .received
  | .approve => (s.progress i).phase = .ingested
  | .register => (s.progress i).phase = .approved
  | .respond => (s.progress i).phase = .waiting ∧
      ((s.progress i).ticketId ≠ none ∨ (s.progress i).run = .ended)
  | .giveUp => (s.progress i).phase = .waiting
  | .runIngest => (s.progress i).run = .started
  | .allocate => (s.progress i).run = .ingested
  | .store => (s.progress i).run = .allocated
  | .announce => (s.progress i).run = .stored ∨ (s.progress i).run = .planned
  | .plan => (s.progress i).run = .announced
  | .finish => (s.progress i).run = .planned ∧ (s.progress i).ticketId ≠ none
  | .finishUntold => (s.progress i).run = .planned ∧ (s.progress i).ticketId = none
  | .raise => (s.progress i).run.active
  | .failTicket creator => (s.progress i).run = .raised ∧ (s.progress i).ticketId ≠ none ∧
      (s.progress creator).created = (s.progress i).ticketId
  | .stop => (s.progress i).run = .raised

variable (G : Given)

def Shared.set (s : Shared) (i : Nat) (p : Progress) : Shared :=
  { s with progress := Function.update s.progress i p }

/-- `RunRegistry._saved`, of the ticket that the run of a request created: the state that is
    registered under its job takes the ticket, unless it has one. -/
def saved (creator : Nat) (s : Shared) : Shared :=
  { s with
    progress := fun k =>
      if s.byJob (G.jobId creator) = some k ∧ (s.progress k).ticketId = none then
        { s.progress k with ticketId := (s.progress creator).created }
      else s.progress k }

/-- What a step does. -/
def effect (s : Shared) (i : Nat) : StartStep → Shared
  | .ingest accepted =>
    if accepted then
      { s.set i { s.progress i with phase := .ingested } with
        plans := Function.update s.plans (G.jobId i) (some (G.requests i).plan) }
    else s.set i { s.progress i with phase := .refused }
  | .approve =>
    if G.knows i then
      { s.set i { s.progress i with phase := .approved } with
        approved := Function.update s.approved (G.jobId i) (some (G.requests i).breakdown) }
    else s.set i { s.progress i with phase := .refused }
  | .register =>
    { s.set i { s.progress i with phase := .waiting, run := .started } with
      byJob := Function.update s.byJob (G.jobId i) (some i) }
  | .respond =>
    s.set i { s.progress i with
      phase := if (s.progress i).ticketId = none then .refused else .answered
      answer := some (s.progress i).ticketId }
  | .giveUp => s.set i { s.progress i with phase := .refused, answer := some none }
  | .runIngest =>
    { s.set i { s.progress i with run := .ingested } with
      plans := Function.update s.plans (G.jobId i) (some (G.requests i).plan) }
  | .allocate =>
    { s.set i { s.progress i with
        run := .allocated, ticket := some (makeTicketId .coding (s.sequence + 1)) } with
      sequence := s.sequence + 1 }
  | .store => s.set i { s.progress i with run := .stored, created := (s.progress i).ticket }
  | .announce =>
    let t := saved G i s
    t.set i { t.progress i with
      run := if (s.progress i).run = .stored then .announced else (s.progress i).run }
  | .plan =>
    match s.approved (G.jobId i) with
    | none => s.set i { s.progress i with run := .raised }
    | some breakdown => s.set i { s.progress i with
        run := .planned, planBreakdown := some breakdown }
  | .finish => s.set i { s.progress i with run := .ended }
  | .finishUntold =>
    let t := saved G i s
    t.set i { t.progress i with run := .ended }
  | .raise => s.set i { s.progress i with run := .raised }
  | .failTicket creator =>
    let t := saved G creator s
    t.set i { t.progress i with run := .ended }
  | .stop => s.set i { s.progress i with run := .ended }

def step (s : Shared) (e : StartEvent) : Option Shared :=
  if ready s e.1 e.2 then some (effect G s e.1 e.2) else none

/-- The service after the steps, if they can be taken in this order. -/
def run (es : List StartEvent) : Option Shared := es.foldlM (step G) {}

/-! ## What a step changes -/

variable {G : Given} {s s' : Shared} {i j k : Nat} {e : StartStep} {es : List StartEvent}
  {jobId : String}

/-- The run whose ticket a step announces. -/
def announced (i : Nat) : StartStep → Option Nat
  | .announce => some i
  | .finishUntold => some i
  | .failTicket creator => some creator
  | _ => none

/-- The ticket id of a state after a step. -/
def nextTicketId (G : Given) (s : Shared) (i : Nat) (e : StartStep) (k : Nat) : Option String :=
  match announced i e with
  | some creator =>
    if s.byJob (G.jobId creator) = some k ∧ (s.progress k).ticketId = none then
      (s.progress creator).created
    else (s.progress k).ticketId
  | none => (s.progress k).ticketId

/-- What a step makes of its own request and run, but for the ticket id of its state. -/
def own (G : Given) (s : Shared) (i : Nat) : StartStep → Progress
  | .ingest accepted => { s.progress i with phase := if accepted then .ingested else .refused }
  | .approve => { s.progress i with phase := if G.knows i then .approved else .refused }
  | .register => { s.progress i with phase := .waiting, run := .started }
  | .respond =>
    { s.progress i with
      phase := if (s.progress i).ticketId = none then .refused else .answered
      answer := some (s.progress i).ticketId }
  | .giveUp => { s.progress i with phase := .refused, answer := some none }
  | .runIngest => { s.progress i with run := .ingested }
  | .allocate =>
    { s.progress i with
      run := .allocated, ticket := some (makeTicketId .coding (s.sequence + 1)) }
  | .store => { s.progress i with run := .stored, created := (s.progress i).ticket }
  | .announce =>
    { s.progress i with
      run := if (s.progress i).run = .stored then .announced else (s.progress i).run }
  | .plan =>
    { s.progress i with
      run := if s.approved (G.jobId i) = none then .raised else .planned
      planBreakdown := (s.approved (G.jobId i)).or (s.progress i).planBreakdown }
  | .raise => { s.progress i with run := .raised }
  | .finish | .finishUntold | .failTicket _ | .stop => { s.progress i with run := .ended }

theorem saved_progress : (saved G j s).progress k =
    { s.progress k with
      ticketId := if s.byJob (G.jobId j) = some k ∧ (s.progress k).ticketId = none then
          (s.progress j).created
        else (s.progress k).ticketId } := by
  unfold saved
  dsimp only
  split_ifs <;> rfl

/-- A step changes the progress of its own request, and which ticket ids are known. -/
theorem effect_progress : (effect G s i e).progress k =
    { (if k = i then own G s i e else s.progress k) with
      ticketId := nextTicketId G s i e k } := by
  by_cases hk : k = i
  · subst hk
    rw [if_pos rfl]
    cases e with
    | ingest accepted => cases accepted <;> simp [effect, Shared.set, own, nextTicketId, announced]
    | approve =>
      by_cases hknows : G.knows k <;>
        simp [effect, hknows, Shared.set, own, nextTicketId, announced]
    | plan =>
      cases happroved : s.approved (G.jobId k) <;>
        simp [effect, happroved, Shared.set, own, nextTicketId, announced]
    | _ => simp [effect, Shared.set, own, nextTicketId, announced, saved_progress]
  · rw [if_neg hk]
    cases e with
    | ingest accepted =>
      cases accepted <;> simp [effect, Shared.set, hk, nextTicketId, announced]
    | approve =>
      by_cases hknows : G.knows i <;>
        simp [effect, hknows, Shared.set, hk, nextTicketId, announced]
    | plan =>
      cases happroved : s.approved (G.jobId i) <;>
        simp [effect, happroved, Shared.set, hk, nextTicketId, announced]
    | _ => simp [effect, Shared.set, hk, nextTicketId, announced, saved_progress]

theorem effect_approved : (effect G s i e).approved =
    if e = .approve ∧ G.knows i = true then
      Function.update s.approved (G.jobId i) (some (G.requests i).breakdown)
    else s.approved := by
  cases e with
  | ingest accepted => cases accepted <;> simp [effect, Shared.set]
  | approve => by_cases hknows : G.knows i <;> simp [effect, hknows, Shared.set]
  | plan => cases happroved : s.approved (G.jobId i) <;> simp [effect, happroved, Shared.set]
  | _ => simp [effect, Shared.set, saved]

theorem effect_byJob : (effect G s i e).byJob =
    if e = .register then Function.update s.byJob (G.jobId i) (some i) else s.byJob := by
  cases e with
  | ingest accepted => cases accepted <;> simp [effect, Shared.set]
  | approve => by_cases hknows : G.knows i <;> simp [effect, hknows, Shared.set]
  | plan => cases happroved : s.approved (G.jobId i) <;> simp [effect, happroved, Shared.set]
  | _ => simp [effect, Shared.set, saved]

theorem effect_sequence : (effect G s i e).sequence =
    if e = .allocate then s.sequence + 1 else s.sequence := by
  cases e with
  | ingest accepted => cases accepted <;> simp [effect, Shared.set]
  | approve => by_cases hknows : G.knows i <;> simp [effect, hknows, Shared.set]
  | plan => cases happroved : s.approved (G.jobId i) <;> simp [effect, happroved, Shared.set]
  | _ => simp [effect, Shared.set, saved]

/-! ## What the steps so far say -/

/-- The breakdown that an event records under the id of a job. -/
def approvedFor (G : Given) (jobId : String) (e : StartEvent) : Option Breakdown :=
  if e.2 = .approve ∧ G.knows e.1 = true ∧ G.jobId e.1 = jobId then
    some (G.requests e.1).breakdown
  else none

/-- The breakdown that was approved last under the id of a job. -/
def lastApproved (G : Given) (es : List StartEvent) (jobId : String) : Option Breakdown :=
  Trace.lastOf (approvedFor G jobId) es

/-- What an event does to the entry of a request in `_by_job`: a run's ticket is announced to
    it, or the entry goes to another request (`some none`). -/
def entryEvent (G : Given) (k : Nat) (e : StartEvent) : Option (Option Nat) :=
  if e.2 = .register ∧ e.1 ≠ k ∧ G.jobId e.1 = G.jobId k then some none
  else
    (announced e.1 e.2).bind fun creator =>
      if G.jobId creator = G.jobId k then some (some creator) else none

/-- The first thing that happens to the entry of a request. -/
def fate (G : Given) (es : List StartEvent) (k : Nat) : Option (Option Nat) :=
  Trace.firstAfter (· = (k, .register)) (entryEvent G k) es

/-- The run whose ticket is announced to a request, while the entry is its own. -/
def speaker (G : Given) (es : List StartEvent) (k : Nat) : Option Nat := (fate G es k).join

/-- A step that does not mix two requests up: the breakdown that was approved last under the
    job is the planned one's own, the ticket that was announced to the waiting request is its
    own, and a request that is answered with an error has no ticket yet. -/
def Undisturbed (G : Given) (es : List StartEvent) (e : StartEvent) : Prop :=
  (e.2 = .plan → lastApproved G es (G.jobId e.1) = some (G.requests e.1).breakdown) ∧
  (e.2 = .respond → speaker G es e.1 = some e.1 ∨
    speaker G es e.1 = none ∧ (e.1, .store) ∉ es) ∧
  (e.2 = .giveUp → (e.1, .store) ∉ es)

/-- What a step of a request leaves is its own: the plan is built of the breakdown that it
    approved, and it is answered with the ticket that its run has created. -/
def Own (G : Given) (s : Shared) (e : StartEvent) : Prop :=
  (e.2 = .plan → (s.progress e.1).planBreakdown = some (G.requests e.1).breakdown) ∧
  (e.2 = .respond ∨ e.2 = .giveUp → (s.progress e.1).answer = some (s.progress e.1).created)

/-- How far a request and its run are, and what they did on the way. -/
structure Phased (G : Given) (es : List StartEvent) (i : Nat) (p : Progress) : Prop where
  approved : p.phase = .approved ∨ p.run ≠ .absent → (i, .approve) ∈ es ∧ G.knows i = true
  unstarted : p.phase = .received ∨ p.phase = .ingested ∨ p.phase = .approved → p.run = .absent
  registered : (i, .register) ∈ es ↔ p.run ≠ .absent
  ticketless : p.run = .absent ∨ p.run = .started ∨ p.run = .ingested → p.ticket = none
  allocated : p.run = .allocated → p.ticket ≠ none
  saved : p.run = .stored ∨ p.run = .announced ∨ p.run = .planned → p.created ≠ none
  created : p.created = none ∨ p.created = p.ticket
  stored : (i, .store) ∈ es ↔ p.created ≠ none

theorem phased_nil : Phased G [] i {} := by
  constructor <;> simp

/-- Another request's step. -/
theorem Phased.other {t : Option String} (h : Phased G es k (s.progress k)) (hne : k ≠ i) :
    Phased G (es ++ [(i, e)]) k { s.progress k with ticketId := t } where
  approved hp := ⟨List.mem_append_left _ (h.approved hp).1, (h.approved hp).2⟩
  unstarted := h.unstarted
  registered := by simpa [hne] using h.registered
  ticketless := h.ticketless
  allocated := h.allocated
  saved := h.saved
  created := h.created
  stored := by simpa [hne] using h.stored

/-- A step of the request or of its run. -/
theorem Phased.own {t : Option String} (h : Phased G es i (s.progress i))
    (hready : ready s i e = true) :
    Phased G (es ++ [(i, e)]) i { own G s i e with ticketId := t } := by
  have happroved := h.approved
  have hunstarted := h.unstarted
  have hregistered := h.registered
  have hticketless := h.ticketless
  have hallocated := h.allocated
  have hsaved := h.saved
  have hcreated := h.created
  have hstored := h.stored
  clear h
  cases e <;> simp only [ready, RunPhase.active, decide_eq_true_eq] at hready <;> constructor <;>
    simp only [StartTask.own, List.mem_append, List.mem_singleton] <;> grind

theorem effect_ticket : ((effect G s i e).progress k).ticket =
    if e = .allocate ∧ k = i then some (makeTicketId .coding (s.sequence + 1))
    else (s.progress k).ticket := by
  rw [effect_progress]
  by_cases hk : k = i
  · subst hk
    cases e <;> simp [StartTask.own]
  · simp [hk]

theorem effect_created : ((effect G s i e).progress k).created =
    if e = .store ∧ k = i then (s.progress k).ticket else (s.progress k).created := by
  rw [effect_progress]
  by_cases hk : k = i
  · subst hk
    cases e <;> simp [StartTask.own]
  · simp [hk]

theorem effect_ticketId :
    ((effect G s i e).progress k).ticketId = nextTicketId G s i e k := by
  rw [effect_progress]

/-- A ticket that was created stays. -/
theorem created_stays (h : Phased G es k (s.progress k))
    (hcreated : (s.progress k).created ≠ none) :
    ((effect G s i e).progress k).created = (s.progress k).created := by
  rw [effect_created]
  split_ifs
  · exact (h.created.resolve_left hcreated).symm
  · rfl

/-- What the steps so far say of the service. -/
structure Agrees (G : Given) (es : List StartEvent) (s : Shared) : Prop where
  phased : ∀ i, Phased G es i (s.progress i)
  approved : ∀ jobId, s.approved jobId = lastApproved G es jobId
  keyed : ∀ jobId k, s.byJob jobId = some k → G.jobId k = jobId
  pending : ∀ k, s.byJob (G.jobId k) = some k ∧ (s.progress k).ticketId = none ↔
    (k, .register) ∈ es ∧ fate G es k = none
  heard : ∀ k, (s.progress k).ticketId =
    (speaker G es k).bind fun j => (s.progress j).created
  spoken : ∀ x ∈ es, ∀ j, announced x.1 x.2 = some j → (s.progress j).created ≠ none
  issued : ∀ i ticket, (s.progress i).ticket = some ticket →
    ∃ n, n ≤ s.sequence ∧ ticket = makeTicketId .coding n
  distinct : ∀ i j, (s.progress i).ticket ≠ none →
    (s.progress i).ticket = (s.progress j).ticket → i = j

theorem fate_of_not_registered (h : (k, .register) ∉ es) : fate G es k = none :=
  Trace.firstAfter_of_not_begun (List.any_eq_false.mpr fun _ hx hbegins =>
    h (of_decide_eq_true hbegins ▸ hx))

theorem agrees_nil : Agrees G [] {} where
  phased _ := phased_nil
  approved _ := rfl
  keyed _ _ h := nomatch h
  pending _ := by simp
  heard _ := rfl
  spoken _ h := nomatch h
  issued _ _ h := nomatch h
  distinct _ _ h := absurd rfl h

theorem fate_snoc : fate G (es ++ [(i, e)]) k =
    (fate G es k).or (if (k, .register) ∈ es then entryEvent G k (i, e) else none) := by
  rw [fate, Trace.firstAfter_snoc, ← fate]
  · by_cases hmem : (k, StartStep.register) ∈ es
    · simp [hmem]
    · simp [hmem]
  · intro hbegins
    obtain ⟨rfl, rfl⟩ := Prod.mk.inj (of_decide_eq_true hbegins)
    simp [entryEvent, announced]

/-- The run that is announced has its ticket. -/
theorem Agrees.speaker_created (h : Agrees G es s) (hspeaker : speaker G es k = some j) :
    (s.progress j).created ≠ none := by
  have hfate : fate G es k = some (some j) := Option.join_eq_some_iff.mp hspeaker
  obtain ⟨x, hx, hevent⟩ := Trace.exists_of_firstAfter hfate
  refine h.spoken x hx j ?_
  unfold entryEvent at hevent
  split_ifs at hevent
  · simp at hevent
  · obtain ⟨creator, hannounced, hevent⟩ := Option.bind_eq_some_iff.mp hevent
    simp only [Option.ite_none_right_eq_some, Option.some.injEq] at hevent
    rw [hannounced, hevent.2]

/-- The run whose ticket a step announces has it. -/
theorem announced_created (h : Phased G es i (s.progress i)) (hready : ready s i e = true)
    (hannounced : announced i e = some j) : (s.progress j).created ≠ none := by
  cases e <;> simp only [announced, reduceCtorEq, Option.some.injEq] at hannounced
  case announce =>
    subst hannounced
    have hrun : (s.progress i).run = .stored ∨ (s.progress i).run = .planned := by
      simpa [ready] using hready
    exact h.saved (hrun.imp id Or.inr)
  case finishUntold =>
    subst hannounced
    have hrun := of_decide_eq_true hready
    exact h.saved (Or.inr (Or.inr hrun.1))
  case failTicket =>
    subst hannounced
    have hrun := of_decide_eq_true hready
    rw [hrun.2.2]
    exact hrun.2.1

/-- What a step does to the entry of a request, where it is told of a ticket. -/
theorem entryEvent_of_announced (hannounced : announced i e = some j) :
    entryEvent G k (i, e) = if G.jobId j = G.jobId k then some (some j) else none := by
  have hne : e ≠ .register := by
    rintro rfl
    cases hannounced
  simp [entryEvent, hne, hannounced]

/-- And where it is not. -/
theorem entryEvent_of_silent (hannounced : announced i e = none) :
    entryEvent G k (i, e) =
      if e = .register ∧ i ≠ k ∧ G.jobId i = G.jobId k then some none else none := by
  simp [entryEvent, hannounced]

/-- The ticket id that an announcement leaves. -/
theorem Agrees.nextTicketId_announced (h : Agrees G es s) (hannounced : announced i e = some j) :
    nextTicketId G s i e k =
      if G.jobId j = G.jobId k ∧ (k, .register) ∈ es ∧ fate G es k = none then
        (s.progress j).created
      else (s.progress k).ticketId := by
  simp only [nextTicketId, hannounced, ← h.pending k]
  by_cases hjob : G.jobId j = G.jobId k
  · simp [hjob]
  · have hother : s.byJob (G.jobId j) ≠ some k := fun hk => hjob (h.keyed _ _ hk).symm
    simp [hjob, hother]

theorem nextTicketId_silent (hannounced : announced i e = none) :
    nextTicketId G s i e k = (s.progress k).ticketId := by
  simp [nextTicketId, hannounced]

/-- The entry of a request waits for its ticket from its registration to its fate. -/
theorem Agrees.pending_snoc (h : Agrees G es s) (hready : ready s i e = true) (k : Nat) :
    (effect G s i e).byJob (G.jobId k) = some k ∧
        ((effect G s i e).progress k).ticketId = none ↔
      (k, .register) ∈ es ++ [(i, e)] ∧ fate G (es ++ [(i, e)]) k = none := by
  have hold := h.pending k
  rw [effect_ticketId, effect_byJob, fate_snoc, Option.or_eq_none_iff]
  cases hannounced : announced i e with
  | some j =>
    have hne : e ≠ .register := by
      rintro rfl
      cases hannounced
    have hcreated := announced_created (h.phased i) hready hannounced
    rw [h.nextTicketId_announced hannounced, entryEvent_of_announced hannounced, if_neg hne]
    have hmem : (k, StartStep.register) ∈ es ++ [(i, e)] ↔ (k, .register) ∈ es := by
      simp [Ne.symm hne]
    rw [hmem]
    by_cases hjob : G.jobId j = G.jobId k
    · by_cases hpending : (k, .register) ∈ es ∧ fate G es k = none
      · simp [hjob, hpending, hcreated]
      · simp only [hjob, hpending, and_false, if_false, if_true]
        constructor
        · exact fun hk => absurd (hold.mp hk) hpending
        · exact fun ⟨hmem, hfate, _⟩ => absurd ⟨hmem, hfate⟩ hpending
    · simp only [hjob, false_and, if_false, ite_self, and_true]
      exact hold
  | none =>
    rw [nextTicketId_silent hannounced, entryEvent_of_silent hannounced]
    by_cases hregister : e = .register
    · subst hregister
      rw [if_pos rfl]
      by_cases hk : i = k
      · subst hk
        have hphase : (s.progress i).phase = .approved := of_decide_eq_true hready
        have hnew : (i, StartStep.register) ∉ es := fun hmem =>
          (h.phased i).registered.mp hmem ((h.phased i).unstarted (Or.inr (Or.inr hphase)))
        have hfate := fate_of_not_registered (G := G) hnew
        have hid : (s.progress i).ticketId = none := by
          rw [h.heard, speaker, hfate]
          rfl
        simp [hnew, hfate, hid]
      · have hmem : (k, StartStep.register) ∈ es ++ [(i, .register)] ↔ (k, .register) ∈ es := by
          simp [Ne.symm hk]
        rw [hmem]
        by_cases hjob : G.jobId i = G.jobId k
        · simp only [hjob, Function.update_self, Option.some.injEq, hk, false_and, ne_eq,
            not_false_eq_true, and_self, if_true, false_iff]
          rintro ⟨hmem, -, hnone⟩
          simp [hmem] at hnone
        · simp only [Function.update_of_ne (Ne.symm hjob), hjob, and_false, if_false, ite_self,
            and_true]
          exact hold
    · simp only [hregister, if_false, false_and, ite_self, and_true, List.mem_append,
        List.mem_singleton, Prod.mk.injEq, Ne.symm hregister, and_false, or_false]
      exact hold

/-- A request has the ticket id of the run that was announced to it. -/
theorem Agrees.heard_snoc (h : Agrees G es s) (hready : ready s i e = true) (k : Nat) :
    ((effect G s i e).progress k).ticketId = (speaker G (es ++ [(i, e)]) k).bind
      fun j => ((effect G s i e).progress j).created := by
  rw [effect_ticketId, speaker, fate_snoc]
  cases hfate : fate G es k with
  | some told =>
    have hspeaker : speaker G es k = told := by rw [speaker, hfate]; rfl
    have hkept : nextTicketId G s i e k = (s.progress k).ticketId := by
      cases hannounced : announced i e with
      | some j => rw [h.nextTicketId_announced hannounced, if_neg (by simp [hfate])]
      | none => exact nextTicketId_silent hannounced
    rw [hkept, h.heard, hspeaker]
    cases told with
    | none => rfl
    | some j => exact (created_stays (h.phased j) (h.speaker_created hspeaker)).symm
  | none =>
    have hid : (s.progress k).ticketId = none := by
      rw [h.heard, speaker, hfate]
      rfl
    rw [Option.none_or]
    cases hannounced : announced i e with
    | some j =>
      have hcreated := announced_created (h.phased i) hready hannounced
      rw [h.nextTicketId_announced hannounced, entryEvent_of_announced hannounced]
      by_cases hmem : (k, StartStep.register) ∈ es
      · by_cases hjob : G.jobId j = G.jobId k
        · simp [hjob, hmem, hfate, created_stays (h.phased j) hcreated]
        · simp [hjob, hmem, hid]
      · simp [hmem, hid]
    | none =>
      rw [nextTicketId_silent hannounced, entryEvent_of_silent hannounced, hid]
      split_ifs <;> rfl

theorem Agrees.snoc (h : Agrees G es s) (hready : ready s i e = true) :
    Agrees G (es ++ [(i, e)]) (effect G s i e) where
  phased k := by
    rw [effect_progress]
    split_ifs with hk
    · subst hk
      exact (h.phased k).own hready
    · exact (h.phased k).other hk
  approved jobId := by
    rw [effect_approved, lastApproved, Trace.lastOf_snoc, ← lastApproved, ← h.approved]
    by_cases happrove : e = .approve ∧ G.knows i = true
    · by_cases hjob : G.jobId i = jobId
      · simp [happrove, approvedFor, hjob]
      · simp [happrove, approvedFor, hjob, Ne.symm hjob]
    · have hnone : approvedFor G jobId (i, e) = none :=
        if_neg fun hevent => happrove ⟨hevent.1, hevent.2.1⟩
      rw [if_neg happrove, hnone, Option.none_or]
  keyed jobId k hk := by
    rw [effect_byJob] at hk
    split_ifs at hk
    · rw [Function.update_apply] at hk
      split_ifs at hk with hjob
      · rw [← Option.some.inj hk, hjob]
      · exact h.keyed _ _ hk
    · exact h.keyed _ _ hk
  pending := h.pending_snoc hready
  heard := h.heard_snoc hready
  spoken x hx j hannounced := by
    have hcreated : (s.progress j).created ≠ none := by
      rcases List.mem_append.mp hx with hx | hx
      · exact h.spoken x hx j hannounced
      · rw [List.mem_singleton.mp hx] at hannounced
        exact announced_created (h.phased i) hready hannounced
    rw [created_stays (h.phased j) hcreated]
    exact hcreated
  issued k ticket hticket := by
    rw [effect_ticket] at hticket
    rw [effect_sequence]
    split_ifs at hticket with hnew
    · cases hticket
      exact ⟨s.sequence + 1, by simp [hnew.1], rfl⟩
    · obtain ⟨n, hn, heq⟩ := h.issued k ticket hticket
      refine ⟨n, ?_, heq⟩
      split_ifs <;> omega
  distinct a b hne heq := by
    have hfresh : ∀ k, (s.progress k).ticket ≠
        some (makeTicketId .coding (s.sequence + 1)) := by
      intro k hk
      obtain ⟨n, hn, hsame⟩ := h.issued k _ hk
      have hseq := (makeTicketId_inj.mp hsame).2
      omega
    rw [effect_ticket] at hne
    rw [effect_ticket, effect_ticket] at heq
    split_ifs at hne heq with ha hb hb
    · exact ha.2.trans hb.2.symm
    · exact absurd heq.symm (hfresh b)
    · exact absurd heq (hfresh a)
    · exact h.distinct a b hne heq

/-! ## Whole runs -/

theorem run_snoc (e : StartEvent) :
    run G (es ++ [e]) = (run G es).bind fun s => step G s e := by
  simp [run, List.foldlM_append]

theorem run_agrees (h : run G es = some s) : Agrees G es s := by
  induction es using List.reverseRecOn generalizing s with
  | nil =>
    cases h
    exact agrees_nil
  | append_singleton es e ih =>
    rw [run_snoc] at h
    obtain ⟨before, hbefore, hstep⟩ := Option.bind_eq_some_iff.mp h
    rw [step] at hstep
    split_ifs at hstep with hready
    cases hstep
    exact (ih hbefore).snoc hready

/-- Two tickets that were created are one only if one run created them. -/
theorem Agrees.created_inj (h : Agrees G es s) (hcreated : (s.progress i).created ≠ none)
    (heq : (s.progress i).created = (s.progress j).created) : i = j := by
  have hi := (h.phased i).created.resolve_left hcreated
  have hj := (h.phased j).created.resolve_left (heq ▸ hcreated)
  exact h.distinct i j (hi ▸ hcreated) (hi.symm.trans (heq.trans hj))

/-- The ticket id of a request is the one that its run created exactly if no other's was
    announced to it, and its own was if there is one. -/
theorem Agrees.ticketId_eq_created_iff (h : Agrees G es s) :
    (s.progress i).ticketId = (s.progress i).created ↔
      speaker G es i = some i ∨ speaker G es i = none ∧ (i, .store) ∉ es := by
  rw [h.heard, (h.phased i).stored, not_not]
  cases hspeaker : speaker G es i with
  | none => simp [eq_comm]
  | some j =>
    have hcreated := h.speaker_created hspeaker
    simp only [Option.bind_some, Option.some.injEq, reduceCtorEq, false_and, or_false]
    constructor
    · exact fun heq => h.created_inj hcreated heq
    · exact fun hji => hji ▸ rfl

/-- One step leaves what is its own exactly if it is not disturbed. -/
theorem own_step (h : Agrees G es s) (hready : ready s i e = true) :
    Own G (effect G s i e) (i, e) ↔ Undisturbed G es (i, e) := by
  cases e with
  | plan =>
    have hrun : (s.progress i).run = .announced := of_decide_eq_true hready
    obtain ⟨happrove, hknows⟩ := (h.phased i).approved (Or.inr (by simp [hrun]))
    have hsome : lastApproved G es (G.jobId i) ≠ none :=
      Trace.lastOf_ne_none (b := (G.requests i).breakdown) happrove (by simp [approvedFor, hknows])
    obtain ⟨breakdown, hlast⟩ := Option.ne_none_iff_exists'.mp hsome
    simp [Own, Undisturbed, effect_progress, own, h.approved, hlast]
  | respond =>
    simp only [Own, Undisturbed, effect_progress, own, if_true, reduceCtorEq, false_implies,
      true_and, and_true, true_or, forall_const, Option.some.injEq]
    exact h.ticketId_eq_created_iff
  | giveUp =>
    simp only [Own, Undisturbed, effect_progress, own, if_true, reduceCtorEq, false_implies,
      true_and, or_true, forall_const, Option.some.injEq, (h.phased i).stored, not_not]
    exact eq_comm
  | _ => simp [Own, Undisturbed]

/-- Whatever was planned and answered was its request's own when it was. -/
def OwnThroughout (G : Given) (es : List StartEvent) : Prop :=
  Trace.Always (fun pre e => ∀ s, run G (pre ++ [e]) = some s → Own G s e) es

/-- **Own breakdown and own ticket**: whatever the order of the steps of any requests, each
    plan is built of the breakdown that its own request approved, and each request is answered
    with the ticket of its own run, exactly if none of these steps is disturbed. -/
theorem ownBreakdown_iff (G : Given) (es : List StartEvent) (h : (run G es).isSome) :
    OwnThroughout G es ↔ Trace.Always (Undisturbed G) es := by
  induction es using List.reverseRecOn with
  | nil => exact iff_of_true Trace.always_nil Trace.always_nil
  | append_singleton es e ih =>
    obtain ⟨s', hs'⟩ := Option.isSome_iff_exists.mp h
    have hbind := hs'
    rw [run_snoc] at hbind
    obtain ⟨s, hs, hstep⟩ := Option.bind_eq_some_iff.mp hbind
    rw [step] at hstep
    split_ifs at hstep with hready
    obtain rfl := Option.some.inj hstep
    rw [OwnThroughout, Trace.always_snoc, Trace.always_snoc, ← OwnThroughout, ih (by simp [hs]),
      ← own_step (run_agrees hs) hready]
    refine and_congr_right fun _ => ?_
    constructor
    · exact fun hall => hall _ hs'
    · intro hown t ht
      rw [hs'] at ht
      cases ht
      exact hown

-- One plan text, with two breakdowns

def plainFunctions : TextFunctions where
  lower text := String.ofList (text.toList.map Char.toLower)
  repr text := "'" ++ text ++ "'"

def shellManifest : Manifest where
  toolchains := [("shell", ["5.2.21"])]

/-- The tidying, with the cross-check or without. -/
def tidyUp (crossCheck : Bool) : Breakdown where
  title := "Tidy up"
  tasks := [{ n := 1, title := "Sort the imports" }]
  languages := [{ language := "shell" }]
  crossCheck := crossCheck
  title_ne := by decide
  tasks_ne := by decide
  capped := by decide
  numbered := by decide
  languages_ne := by decide
  targeted := by decide
  iterates := by decide

def twoBreakdowns : Given where
  requests i :=
    { plan := "# Tidy up\n\n- Sort the imports\n", breakdown := tidyUp (i == 0) }
  sha256 _ := "7095670961f4bdf944b03329df20808643527adeb5e9f190b5bb683034f5621f"
  functions := plainFunctions
  manifest := shellManifest

def uptoWaiting (i : Nat) : List StartEvent := [(i, .ingest true), (i, .approve), (i, .register)]

def uptoPlan (i : Nat) : List StartEvent :=
  [(i, .runIngest), (i, .allocate), (i, .store), (i, .announce), (i, .plan)]

/-- Both requests wait before the first run has saved its ticket. -/
theorem same_text_shares :
    ∃ s, run twoBreakdowns (uptoWaiting 0 ++ uptoWaiting 1 ++ uptoPlan 0 ++ [(1, .respond)]) =
        some s ∧
      (s.progress 0).planBreakdown = some (tidyUp false) ∧
      (s.progress 1).answer = some (some "T-coding-0001") ∧
      (s.progress 0).created = some "T-coding-0001" ∧
      ¬ OwnThroughout twoBreakdowns (uptoWaiting 0 ++ uptoWaiting 1 ++ uptoPlan 0) := by
  refine ⟨_, rfl, by decide +kernel, by decide +kernel, by decide +kernel, fun hown => ?_⟩
  have hplan := hown (uptoWaiting 0 ++ uptoWaiting 1 ++
    [(0, .runIngest), (0, .allocate), (0, .store), (0, .announce)]) (0, .plan) [] rfl _ rfl
  exact absurd (hplan.1 rfl) (by decide +kernel)

/-- One request after the other. -/
def inTurn : List StartEvent :=
  uptoWaiting 0 ++ uptoPlan 0 ++ [(0, .respond)] ++ uptoWaiting 1 ++ uptoPlan 1 ++ [(1, .respond)]

theorem ownBreakdown_in_turn : OwnThroughout twoBreakdowns inTurn ↔
    Trace.Always (Undisturbed twoBreakdowns) inTurn :=
  ownBreakdown_iff twoBreakdowns inTurn (by decide +kernel)

end StartTask

end Slas
