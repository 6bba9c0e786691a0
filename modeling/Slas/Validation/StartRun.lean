/-
  Slas.Validation.StartRun

  Concurrent requests that start a validation run (`start_run` of
  `slas_orchestrator.service.validation`, with the Validation Agent and the watched ticket
  store), and the threads of their runs.

  The target of a run is kept under the id of its job, and so is the route that waits for
  its ticket; but the id is a digest of the suite, and two requests for one suite share it.
  `own_iff` says which orders of their steps give each run its own target, and each request
  its own ticket.
-/

import Mathlib.Data.List.Induction
import Slas.Validation.Compiler
import Slas.Lib.Trace

namespace Slas

namespace StartRun

/-! ## Requests -/

/-- A request; `source` is what the suite of its upload is read from. -/
structure StartRunRequest where
  source : String
  suite : Suite
  target : String
  target_ne : target ≠ ""

/-- `model_dump_json` of a suite, and the hex digest of SHA-256. -/
structure Digest where
  dump : Suite → String
  sha256 : String → String

/-- The id of the job: its target has no part in it. -/
def Digest.jobId (D : Digest) (r : StartRunRequest) : String :=
  "job-" ++ String.ofList ((D.sha256 (r.source ++ "|" ++ D.dump r.suite)).toList.take 12)

/-! ## The service -/

/-- Where the thread of a request is in `start_run`. -/
inductive RequestPhase where
  | received
  | ingested
  | chosen
  | compiled
  | expecting
  | waiting
  | answered
  | refused
  deriving DecidableEq

/-- Where the thread of its run is in `Kernel.run`. -/
inductive RunPhase where
  | absent
  | started
  | ingested
  | allocated
  | saved
  | planned
  | failed
  deriving DecidableEq

/-- What has come of a request and of its run. -/
structure Progress where
  phase : RequestPhase := .received
  run : RunPhase := .absent
  /-- the ticket id that its `TicketWaiter` was resolved with -/
  waiter : Option String := none
  /-- the target of the job, as its run ingested it -/
  jobTarget : Option String := none
  ticket : Option String := none
  /-- the target that `compile_suite` is called with -/
  planTarget : Option String := none
  /-- the ticket id that the request is answered with -/
  answer : Option String := none

/-- What the threads share: `_suites` and `_targets` of the agent, `_waiters` and the ticket
    sequence of the store. -/
structure Service where
  suites : String → Option Suite := fun _ => none
  targets : String → Option String := fun _ => none
  waiters : List Nat := []
  sequence : Nat := 0
  progress : Nat → Progress := fun _ => {}

inductive StartStep where
  /-- `agent.ingest` -/
  | ingest
  /-- `agent.choose_target` -/
  | choose
  /-- `compile_view`, which may refuse the suite -/
  | compile (accepted : Bool)
  /-- `store.expect` -/
  | expect
  /-- `runner.start` -/
  | start
  /-- `waiter.wait` returns -/
  | answer
  /-- `agent.ingest` of the run -/
  | runIngest
  /-- `store.next_ticket_id` -/
  | allocate
  /-- `store.save`: the first one, and every later one of the run -/
  | save
  /-- `agent.plan` -/
  | plan
  deriving DecidableEq

/-- A step of a request or of its run. -/
abbrev StartEvent := Nat × StartStep

/-- The thread of the step is there. -/
def ready (p : Progress) : StartStep → Bool
  | .ingest => p.phase = .received
  | .choose => p.phase = .ingested
  | .compile _ => p.phase = .chosen
  | .expect => p.phase = .compiled
  | .start => p.phase = .expecting
  | .answer => p.phase = .waiting ∧ p.waiter ≠ none
  | .runIngest => p.run = .started
  | .allocate => p.run = .ingested
  | .save => p.ticket ≠ none
  | .plan => p.run = .saved

variable (D : Digest) (requests : Nat → StartRunRequest)

/-- The request still waits, and the ticket is of a job with its id. -/
def resolved (s : Service) (jobId : String) (w : Nat) : Prop :=
  w ∈ s.waiters ∧ D.jobId (requests w) = jobId ∧ (s.progress w).waiter = none

instance (s : Service) (jobId : String) (w : Nat) : Decidable (resolved D requests s jobId w) :=
  inferInstanceAs (Decidable (_ ∧ _))

/-- `WatchedTicketStore.save`: every waiter of the job is told of the ticket. -/
def resolveWaiters (jobId : String) (ticket : Option String) (s : Service) : Service :=
  { s with
    waiters := s.waiters.filter fun w => ¬ resolved D requests s jobId w
    progress := fun w =>
      if resolved D requests s jobId w then { s.progress w with waiter := ticket }
      else s.progress w }

def Service.set (s : Service) (i : Nat) (p : Progress) : Service :=
  { s with progress := Function.update s.progress i p }

/-- The target that the run of a request is planned for, if there is one. -/
def Service.targetFor (s : Service) (i : Nat) : Option String :=
  (s.targets (D.jobId (requests i))).or (s.progress i).jobTarget

/-- What a step does. -/
def effect (s : Service) (i : Nat) : StartStep → Service
  | .ingest =>
    let key := D.jobId (requests i)
    { s.set i { s.progress i with phase := .ingested } with
      suites := Function.update s.suites key (some (requests i).suite) }
  | .choose =>
    let key := D.jobId (requests i)
    { s.set i { s.progress i with phase := .chosen } with
      targets := Function.update s.targets key (some (requests i).target) }
  | .compile accepted =>
    s.set i { s.progress i with phase := if accepted then .compiled else .refused }
  | .expect => { s.set i { s.progress i with phase := .expecting } with waiters := s.waiters ++ [i] }
  | .start => s.set i { s.progress i with phase := .waiting, run := .started }
  | .answer => s.set i { s.progress i with phase := .answered, answer := (s.progress i).waiter }
  | .runIngest =>
    let key := D.jobId (requests i)
    { s.set i { s.progress i with run := .ingested, jobTarget := s.targets key } with
      suites := Function.update s.suites key (some (requests i).suite) }
  | .allocate =>
    { s.set i { s.progress i with
        run := .allocated, ticket := some (makeTicketId .validation (s.sequence + 1)) } with
      sequence := s.sequence + 1 }
  | .save =>
    let saved := resolveWaiters D requests (D.jobId (requests i)) (s.progress i).ticket s
    saved.set i { saved.progress i with
      run := if (s.progress i).run = .allocated then .saved else (s.progress i).run }
  | .plan =>
    match s.targetFor D requests i with
    | none => s.set i { s.progress i with run := .failed }
    | some target => s.set i { s.progress i with run := .planned, planTarget := some target }

def step (s : Service) (e : StartEvent) : Option Service :=
  if ready (s.progress e.1) e.2 then some (effect D requests s e.1 e.2) else none

/-- The service after the steps, if they can be taken in this order. -/
def run (es : List StartEvent) : Option Service := es.foldlM (step D requests) {}

/-! ## What a step changes -/

variable {D : Digest} {requests : Nat → StartRunRequest} {s s' : Service} {i j k : Nat}
  {e : StartStep} {es : List StartEvent} {jobId : String}

/-- What the waiter of a request holds after a step. -/
def nextWaiter (D : Digest) (requests : Nat → StartRunRequest) (s : Service) (i : Nat)
    (e : StartStep) (k : Nat) : Option String :=
  if e = .save ∧ resolved D requests s (D.jobId (requests i)) k then (s.progress i).ticket
  else (s.progress k).waiter

/-- What a step makes of its own request and run, but for the waiter. -/
def own (D : Digest) (requests : Nat → StartRunRequest) (s : Service) (i : Nat) :
    StartStep → Progress
  | .ingest => { s.progress i with phase := .ingested }
  | .choose => { s.progress i with phase := .chosen }
  | .compile accepted => { s.progress i with phase := if accepted then .compiled else .refused }
  | .expect => { s.progress i with phase := .expecting }
  | .start => { s.progress i with phase := .waiting, run := .started }
  | .answer => { s.progress i with phase := .answered, answer := (s.progress i).waiter }
  | .runIngest =>
    { s.progress i with run := .ingested, jobTarget := s.targets (D.jobId (requests i)) }
  | .allocate =>
    { s.progress i with
      run := .allocated, ticket := some (makeTicketId .validation (s.sequence + 1)) }
  | .save =>
    { s.progress i with
      run := if (s.progress i).run = .allocated then .saved else (s.progress i).run }
  | .plan =>
    { s.progress i with
      run := if s.targetFor D requests i = none then .failed else .planned
      planTarget := (s.targetFor D requests i).or (s.progress i).planTarget }

/-- A step changes the progress of its own request, and what the waiters hold. -/
theorem effect_progress : (effect D requests s i e).progress k =
    { (if k = i then own D requests s i e else s.progress k) with
      waiter := nextWaiter D requests s i e k } := by
  by_cases hk : k = i
  · subst hk
    rw [if_pos rfl]
    cases e with
    | save =>
      simp only [effect, Service.set, resolveWaiters, Function.update_self, own, nextWaiter,
        true_and]
      split_ifs <;> rfl
    | plan =>
      simp only [effect, own, nextWaiter, reduceCtorEq, false_and, if_false]
      split <;> rename_i h <;> simp [Service.set, h]
    | _ => simp [effect, Service.set, own, nextWaiter]
  · rw [if_neg hk]
    cases e with
    | save =>
      simp only [effect, Service.set, resolveWaiters, Function.update_of_ne hk, nextWaiter,
        true_and]
      split_ifs <;> rfl
    | plan =>
      simp only [effect, nextWaiter, reduceCtorEq, false_and, if_false]
      split <;> simp [Service.set, hk]
    | _ => simp [effect, Service.set, hk, nextWaiter]

theorem effect_targets : (effect D requests s i e).targets =
    if e = .choose then Function.update s.targets (D.jobId (requests i)) (some (requests i).target)
    else s.targets := by
  cases e with
  | plan =>
    simp only [effect]
    split <;> simp [Service.set]
  | _ => simp [effect, Service.set, resolveWaiters]

theorem effect_sequence : (effect D requests s i e).sequence =
    if e = .allocate then s.sequence + 1 else s.sequence := by
  cases e with
  | plan =>
    simp only [effect]
    split <;> simp [Service.set]
  | _ => simp [effect, Service.set, resolveWaiters]

theorem mem_effect_waiters : k ∈ (effect D requests s i e).waiters ↔
    (k ∈ s.waiters ∧ ¬ (e = .save ∧ resolved D requests s (D.jobId (requests i)) k)) ∨
      (e = .expect ∧ k = i) := by
  cases e with
  | plan =>
    simp only [effect]
    split <;> simp [Service.set]
  | save => simp [effect, Service.set, resolveWaiters]
  | expect => simp [effect, Service.set]
  | _ => simp [effect, Service.set]

/-! ## The steps so far -/

def chosenFor (D : Digest) (requests : Nat → StartRunRequest) (jobId : String) (e : StartEvent) :
    Option String :=
  if e.2 = .choose ∧ D.jobId (requests e.1) = jobId then some (requests e.1).target else none

def savedFor (D : Digest) (requests : Nat → StartRunRequest) (jobId : String) (e : StartEvent) :
    Option Nat :=
  if e.2 = .save ∧ D.jobId (requests e.1) = jobId then some e.1 else none

/-- The target that was chosen last for a job. -/
def lastTarget (D : Digest) (requests : Nat → StartRunRequest) (es : List StartEvent)
    (jobId : String) : Option String :=
  Trace.lastOf (chosenFor D requests jobId) es

/-- The first run to save a ticket of the job since the request waits for it. -/
def firstSaved (D : Digest) (requests : Nat → StartRunRequest) (es : List StartEvent) (i : Nat) :
    Option Nat :=
  Trace.firstAfter (· = (i, .expect)) (savedFor D requests (D.jobId (requests i))) es

/-- The last target chosen for the job, when a run is planned, is that of its request; and the
    first run to save a ticket of the job, before a request is answered, is its own. -/
def Undisturbed (D : Digest) (requests : Nat → StartRunRequest) (pre : List StartEvent)
    (e : StartEvent) : Prop :=
  (e.2 = .plan →
    lastTarget D requests pre (D.jobId (requests e.1)) = some (requests e.1).target) ∧
  (e.2 = .answer → firstSaved D requests pre e.1 = some e.1)

/-- The run, if it is planned, has the target of its request, and the request, if it is
    answered, the ticket of its run. -/
def OwnAt (r : StartRunRequest) (p : Progress) : Prop :=
  (∀ target, p.planTarget = some target → target = r.target) ∧
    ∀ id, p.answer = some id → p.ticket = some id

/-- Each run has its own target, and each request its own ticket. -/
def Own (requests : Nat → StartRunRequest) (s : Service) : Prop :=
  ∀ i, OwnAt (requests i) (s.progress i)

/-- The phases of a request and of its run say which steps were taken. -/
structure Phased (es : List StartEvent) (i : Nat) (p : Progress) : Prop where
  chosen : p.phase ≠ .received → p.phase ≠ .ingested → (i, .choose) ∈ es
  expected : (i, .expect) ∈ es ↔ p.phase = .expecting ∨ p.phase = .waiting ∨ p.phase = .answered
  started : p.run ≠ .absent → p.phase = .waiting ∨ p.phase = .answered
  ticket : p.ticket = none ↔ p.run = .absent ∨ p.run = .started ∨ p.run = .ingested
  saved : (i, .save) ∈ es → p.ticket ≠ none

theorem phased_nil : Phased [] i {} := by
  constructor <;> simp

/-- What the other requests do does not matter, nor what a waiter holds. -/
theorem Phased.other {p : Progress} {w : Option String} (h : Phased es k p) (hne : k ≠ i) :
    Phased (es ++ [(i, e)]) k { p with waiter := w } where
  chosen h₁ h₂ := List.mem_append_left _ (h.chosen h₁ h₂)
  expected := by simpa [hne] using h.expected
  started := h.started
  ticket := h.ticket
  saved := by simpa [hne] using h.saved

/-- A step of the request or of its run. -/
theorem Phased.own {w : Option String} (h : Phased es i (s.progress i))
    (hready : ready (s.progress i) e = true) :
    Phased (es ++ [(i, e)]) i { own D requests s i e with waiter := w } := by
  have hchosen := h.chosen
  have hexpected := h.expected
  have hstarted := h.started
  have hticket := h.ticket
  have hsaved := h.saved
  cases e with
  | compile accepted => cases accepted <;> constructor <;> simp_all [ready, StartRun.own]
  | save =>
    by_cases hrun : (s.progress i).run = .allocated <;> constructor <;>
      simp_all [ready, StartRun.own]
  | plan =>
    by_cases hnone : s.targetFor D requests i = none <;> constructor <;>
      simp_all [ready, StartRun.own]
  | _ => constructor <;> simp_all [ready, StartRun.own]

theorem effect_ticket : ((effect D requests s i e).progress k).ticket =
    if e = .allocate ∧ k = i then some (makeTicketId .validation (s.sequence + 1))
    else (s.progress k).ticket := by
  rw [effect_progress]
  by_cases hk : k = i
  · subst hk
    cases e <;> simp [StartRun.own]
  · simp [hk]

/-- A ticket that is there stays. -/
theorem ticket_stays (h : Phased es i (s.progress i)) (hready : ready (s.progress i) e = true)
    (hticket : (s.progress k).ticket ≠ none) :
    ((effect D requests s i e).progress k).ticket = (s.progress k).ticket := by
  rw [effect_ticket, if_neg]
  rintro ⟨rfl, rfl⟩
  have hrun : (s.progress k).run = .ingested := by simpa [ready] using hready
  exact hticket (h.ticket.mpr (Or.inr (Or.inr hrun)))

/-- What the steps so far say of the service. -/
structure Agrees (D : Digest) (requests : Nat → StartRunRequest) (es : List StartEvent)
    (s : Service) : Prop where
  phased : ∀ i, Phased es i (s.progress i)
  targets : ∀ jobId, s.targets jobId = lastTarget D requests es jobId
  waiting : ∀ i, i ∈ s.waiters ↔ (i, .expect) ∈ es ∧ firstSaved D requests es i = none
  heard : ∀ i, (s.progress i).waiter =
    (firstSaved D requests es i).bind fun j => (s.progress j).ticket
  issued : ∀ i ticket, (s.progress i).ticket = some ticket →
    ∃ n, n ≤ s.sequence ∧ ticket = makeTicketId .validation n
  distinct : ∀ i j, (s.progress i).ticket ≠ none →
    (s.progress i).ticket = (s.progress j).ticket → i = j

theorem agrees_nil : Agrees D requests [] {} where
  phased _ := phased_nil
  targets _ := rfl
  waiting _ := by simp
  heard _ := rfl
  issued _ _ h := by cases h
  distinct _ _ h := absurd rfl h

theorem firstSaved_snoc : firstSaved D requests (es ++ [(i, e)]) k =
    (firstSaved D requests es k).or (if (k, .expect) ∈ es ∧ e = .save ∧
      D.jobId (requests i) = D.jobId (requests k) then some i else none) := by
  rw [firstSaved, Trace.firstAfter_snoc, ← firstSaved]
  · have hany : es.any (· = (k, StartStep.expect)) = true ↔ (k, .expect) ∈ es := by
      simp
    by_cases hmem : (k, StartStep.expect) ∈ es
    · rw [if_pos (hany.mpr hmem)]
      simp [savedFor, hmem]
    · rw [if_neg (fun h => hmem (hany.mp h))]
      simp [hmem]
  · intro hbegins
    obtain ⟨rfl, rfl⟩ := Prod.mk.inj (of_decide_eq_true hbegins)
    simp [savedFor]

/-- The run that saved first has its ticket. -/
theorem Agrees.firstSaved_ticket (h : Agrees D requests es s)
    (hfirst : firstSaved D requests es k = some j) : (s.progress j).ticket ≠ none := by
  obtain ⟨⟨i, e⟩, hmem, hsaved⟩ := Trace.exists_of_firstAfter hfirst
  simp only [savedFor, Option.ite_none_right_eq_some, Option.some.injEq] at hsaved
  obtain ⟨⟨rfl, -⟩, rfl⟩ := hsaved
  exact (h.phased i).saved hmem

/-- Who waits, and what for. -/
theorem Agrees.resolved_iff (h : Agrees D requests es s) :
    resolved D requests s jobId k ↔
      ((k, .expect) ∈ es ∧ firstSaved D requests es k = none) ∧ D.jobId (requests k) = jobId := by
  unfold resolved
  rw [h.waiting, h.heard]
  constructor
  · exact fun ⟨hwaits, hjob, _⟩ => ⟨hwaits, hjob⟩
  · exact fun ⟨hwaits, hjob⟩ => ⟨hwaits, hjob, by rw [hwaits.2]; rfl⟩

theorem Agrees.snoc (h : Agrees D requests es s) (hready : ready (s.progress i) e = true) :
    Agrees D requests (es ++ [(i, e)]) (effect D requests s i e) where
  phased k := by
    rw [effect_progress]
    split_ifs with hk
    · subst hk
      exact (h.phased k).own hready
    · exact (h.phased k).other hk
  targets jobId := by
    rw [effect_targets, lastTarget, Trace.lastOf_snoc, ← lastTarget, ← h.targets]
    by_cases hchoose : e = .choose
    · by_cases hjob : D.jobId (requests i) = jobId
      · simp [hchoose, chosenFor, hjob]
      · simp [hchoose, chosenFor, hjob, Ne.symm hjob]
    · simp [hchoose, chosenFor]
  waiting k := by
    simp only [mem_effect_waiters, firstSaved_snoc, h.waiting, h.resolved_iff, List.mem_append,
      List.mem_singleton, Prod.mk.injEq, Option.or_eq_none_iff, ite_eq_right_iff, reduceCtorEq,
      imp_false]
    by_cases hexpect : e = .expect ∧ k = i
    · obtain ⟨rfl, rfl⟩ := hexpect
      have hphase : (s.progress k).phase = .compiled := by simpa [ready] using hready
      have hnew : (k, StartStep.expect) ∉ es := by
        rw [(h.phased k).expected, hphase]
        simp
      have hnone : firstSaved D requests es k = none :=
        Trace.firstAfter_of_not_begun (List.any_eq_false.mpr fun x hx hbegins =>
          hnew (of_decide_eq_true hbegins ▸ hx))
      simp [hnew, hnone]
    · have hne : ¬ (k = i ∧ StartStep.expect = e) := fun hboth => hexpect ⟨hboth.2.symm, hboth.1⟩
      simp only [hne, hexpect, or_false]
      constructor
      · rintro ⟨⟨hmem, hnone⟩, hsaves⟩
        refine ⟨hmem, hnone, ?_⟩
        rintro ⟨-, he, hjob⟩
        exact hsaves ⟨he, ⟨hmem, hnone⟩, hjob.symm⟩
      · rintro ⟨hmem, hnone, hsaves⟩
        refine ⟨⟨hmem, hnone⟩, ?_⟩
        rintro ⟨he, -, hjob⟩
        exact hsaves ⟨hmem, he, hjob.symm⟩
  heard k := by
    rw [effect_progress, firstSaved_snoc]
    dsimp only
    simp only [nextWaiter, h.resolved_iff, h.heard]
    cases hfirst : firstSaved D requests es k with
    | some j =>
      have hstays := @ticket_stays D requests s i j e es (h.phased i) hready
        (h.firstSaved_ticket hfirst)
      simp [hstays]
    | none =>
      by_cases hsaves : (k, StartStep.expect) ∈ es ∧ e = .save ∧
        D.jobId (requests i) = D.jobId (requests k)
      · obtain ⟨hexpect, rfl, hjob⟩ := hsaves
        have hticket : (s.progress i).ticket ≠ none := by simpa [ready] using hready
        have hstays := @ticket_stays D requests s i i _ es (h.phased i) hready hticket
        simp [hexpect, hjob, hstays]
      · have hquiet : ¬ (e = .save ∧ ((k, StartStep.expect) ∈ es ∧
            (none : Option Nat) = none) ∧ D.jobId (requests k) = D.jobId (requests i)) := by
          rintro ⟨he, ⟨hmem, -⟩, hjob⟩
          exact hsaves ⟨hmem, he, hjob.symm⟩
        rw [if_neg hquiet, if_neg hsaves]
        rfl
  issued k ticket hticket := by
    rw [effect_ticket] at hticket
    rw [effect_sequence]
    split_ifs at hticket with hnew
    · cases hticket
      exact ⟨s.sequence + 1, by simp [hnew.1], rfl⟩
    · obtain ⟨n, hn, heq⟩ := h.issued k ticket hticket
      refine ⟨n, ?_, heq⟩
      split_ifs <;> omega
  distinct a b hne heq := by
    have hfresh : ∀ k, (s.progress k).ticket ≠
        some (makeTicketId .validation (s.sequence + 1)) := by
      intro k hk
      obtain ⟨n, hn, hsame⟩ := h.issued k _ hk
      have hseq := (makeTicketId_inj.mp hsame).2
      omega
    rw [effect_ticket] at hne
    rw [effect_ticket, effect_ticket] at heq
    split_ifs at hne heq with ha hb hb
    · exact ha.2.trans hb.2.symm
    · exact absurd heq.symm (hfresh b)
    · exact absurd heq (hfresh a)
    · exact h.distinct a b hne heq

/-! ## Whole runs -/

theorem run_snoc (e : StartEvent) : run D requests (es ++ [e]) =
    (run D requests es).bind fun s => step D requests s e := by
  simp [run, List.foldlM_append]

theorem run_agrees (h : run D requests es = some s) : Agrees D requests es s := by
  induction es using List.reverseRecOn generalizing s with
  | nil =>
    cases h
    exact agrees_nil
  | append_singleton es e ih =>
    rw [run_snoc] at h
    obtain ⟨before, hbefore, hstep⟩ := Option.bind_eq_some_iff.mp h
    rw [step] at hstep
    split_ifs at hstep with hready
    cases hstep
    exact (ih hbefore).snoc hready

/-- The target that was chosen last is the one a run is planned for. -/
theorem targetFor_eq (h : Agrees D requests es s) (hrun : (s.progress i).run ≠ .absent) :
    ∃ target, lastTarget D requests es (D.jobId (requests i)) = some target ∧
      s.targetFor D requests i = some target := by
  have hphase := (h.phased i).started hrun
  have hchosen : (i, .choose) ∈ es := by
    apply (h.phased i).chosen <;> rcases hphase with hp | hp <;> simp [hp]
  have hsome : lastTarget D requests es (D.jobId (requests i)) ≠ none :=
    Trace.lastOf_ne_none (b := (requests i).target) hchosen (by simp [chosenFor])
  obtain ⟨target, htarget⟩ := Option.ne_none_iff_exists'.mp hsome
  refine ⟨target, htarget, ?_⟩
  rw [Service.targetFor, h.targets, htarget]
  rfl

/-- One step keeps what is everyone's own exactly if it is not disturbed. -/
theorem own_step (h : Agrees D requests es s) (hready : ready (s.progress i) e = true)
    (hown : Own requests s) :
    Own requests (effect D requests s i e) ↔ Undisturbed D requests es (i, e) := by
  have hlocal : Own requests (effect D requests s i e) ↔
      OwnAt (requests i) (own D requests s i e) := by
    constructor
    · intro hall
      have hi := hall i
      rwa [effect_progress, if_pos rfl] at hi
    · intro hi k
      rw [effect_progress]
      split_ifs with hk
      · exact hk ▸ hi
      · exact hown k
  have hi := hown i
  rw [hlocal]
  cases e with
  | plan =>
    have hrun : (s.progress i).run = .saved := by simpa [ready] using hready
    obtain ⟨target, hlast, hfor⟩ := targetFor_eq h (i := i) (by simp [hrun])
    simp only [OwnAt, own, Undisturbed, hfor, hlast, Option.some_or, Option.some.injEq, forall_eq',
      forall_true_left, reduceCtorEq, false_implies, and_true]
    exact and_iff_left hi.2
  | answer =>
    have hwaiter : (s.progress i).waiter ≠ none := by
      simp only [ready, decide_eq_true_eq] at hready
      exact hready.2
    rw [h.heard] at hwaiter
    obtain ⟨j, hfirst⟩ : ∃ j, firstSaved D requests es i = some j := by
      cases hfirst : firstSaved D requests es i with
      | none => simp [hfirst] at hwaiter
      | some j => exact ⟨j, rfl⟩
    have hticket := h.firstSaved_ticket hfirst
    obtain ⟨id, hid⟩ := Option.ne_none_iff_exists'.mp hticket
    have hanswer : (s.progress i).waiter = some id := by rw [h.heard, hfirst]; exact hid
    have hsame : (s.progress i).ticket = some id ↔ j = i := by
      constructor
      · exact fun hi => h.distinct j i hticket (hid.trans hi.symm)
      · exact fun hji => hji ▸ hid
    simp only [OwnAt, own, Undisturbed, hanswer, hfirst, Option.some.injEq, reduceCtorEq,
      forall_eq', hsame, false_implies, true_and, forall_true_left]
    exact and_iff_right hi.1
  | allocate =>
    have hrun : (s.progress i).run = .ingested := by simpa [ready] using hready
    have hnone : (s.progress i).ticket = none := (h.phased i).ticket.mpr (Or.inr (Or.inr hrun))
    refine iff_of_true ⟨hi.1, fun id hid => ?_⟩ ⟨nofun, nofun⟩
    have hold := hi.2 id hid
    rw [hnone] at hold
    cases hold
  | _ => exact iff_of_true ⟨hi.1, hi.2⟩ ⟨nofun, nofun⟩

/-- Each run has had its own target and each request its own ticket all along. -/
def OwnThroughout (D : Digest) (requests : Nat → StartRunRequest) (es : List StartEvent) : Prop :=
  ∀ pre s, pre <+: es → run D requests pre = some s → Own requests s

/-- **Own target and own ticket**: whatever the order of the steps of any requests, each run
    is planned for the target of its own request, and each request is answered with the ticket
    of its own run, exactly if none of these steps is disturbed. -/
theorem own_iff (D : Digest) (requests : Nat → StartRunRequest) (es : List StartEvent)
    (h : (run D requests es).isSome) :
    OwnThroughout D requests es ↔ Trace.Always (Undisturbed D requests) es := by
  induction es using List.reverseRecOn with
  | nil =>
    refine iff_of_true (fun pre s hpre hs => ?_) Trace.always_nil
    rw [List.prefix_nil.mp hpre] at hs
    cases hs
    exact fun i => ⟨nofun, nofun⟩
  | append_singleton es e ih =>
    obtain ⟨s', hs'⟩ := Option.isSome_iff_exists.mp h
    have hbind := hs'
    rw [run_snoc] at hbind
    obtain ⟨s, hs, hstep⟩ := Option.bind_eq_some_iff.mp hbind
    rw [step] at hstep
    split_ifs at hstep with hready
    cases hstep
    have hlast : OwnThroughout D requests (es ++ [e]) ↔
        OwnThroughout D requests es ∧ Own requests (effect D requests s e.1 e.2) := by
      constructor
      · intro hall
        refine ⟨fun pre t hpre => hall pre t (hpre.trans (List.prefix_append _ _)), ?_⟩
        exact hall _ _ (List.prefix_refl _) hs'
      · rintro ⟨hall, hown⟩ pre t hpre ht
        rcases List.prefix_concat_iff.mp hpre with rfl | hpre
        · rw [hs'] at ht
          cases ht
          exact hown
        · exact hall pre t hpre ht
    rw [hlast, Trace.always_snoc, ← ih (by simp [hs])]
    refine and_congr_right fun hall => ?_
    exact own_step (run_agrees hs) hready (hall es s (List.prefix_refl _) hs)

-- One suite, on two machines

theorem one_le_three : 1 ≤ 3 := by decide

def rebootSuite : Suite where
  title := "Reboots"
  items := [⟨1, "DC cycle", "DC cycle", [], 3, true, Nat.one_pos, by decide, by decide, by decide,
    one_le_three⟩]
  title_ne := by decide
  nonempty := by decide
  capped := by decide

def plainDigest : Digest where
  dump suite := suite.title
  sha256 text := text

def onMachine (i : Nat) : StartRunRequest where
  source := "reboots.md"
  suite := rebootSuite
  target := if i = 0 then "server-1" else "server-2"
  target_ne := by split_ifs <;> decide

def uptoWaiting (i : Nat) : List StartEvent :=
  [(i, .ingest), (i, .choose), (i, .compile true), (i, .expect), (i, .start)]

def uptoPlan (i : Nat) : List StartEvent :=
  [(i, .runIngest), (i, .allocate), (i, .save), (i, .plan)]

/-- Both requests wait before the first run has saved its ticket. -/
theorem same_suite_shares :
    ∃ s, run plainDigest onMachine
        (uptoWaiting 0 ++ uptoWaiting 1 ++ uptoPlan 0 ++ [(1, .answer)]) = some s ∧
      (s.progress 0).planTarget = some "server-2" ∧
      (s.progress 1).answer = some "T-validation-0001" ∧
      (s.progress 0).ticket = some "T-validation-0001" ∧ ¬ Own onMachine s := by
  refine ⟨_, rfl, by decide +kernel, by decide +kernel, by decide +kernel, fun hown => ?_⟩
  exact absurd ((hown 0).1 "server-2" (by decide +kernel)) (by decide)

/-- One request after the other. -/
def inTurn : List StartEvent :=
  uptoWaiting 0 ++ uptoPlan 0 ++ [(0, .answer)] ++ uptoWaiting 1 ++ uptoPlan 1 ++ [(1, .answer)]

theorem own_in_turn : OwnThroughout plainDigest onMachine inTurn ↔
    Trace.Always (Undisturbed plainDigest onMachine) inTurn :=
  own_iff plainDigest onMachine inTurn (by decide +kernel)

end StartRun

end Slas
