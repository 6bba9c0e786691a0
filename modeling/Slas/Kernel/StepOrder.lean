/-
  Slas.Kernel.StepOrder

  The order of the steps across crashes.

  Where a run stands is nowhere stored; it is read off the journal.  Of every
  session: the observations in the journal name a prefix of the plan, each
  step once, and the executor is only called for the first step without one,
  right after its intent (`finished_steps_exactly_once`).

  Stop-on-failure has a gap: a failed observation that reached the journal but
  not the ticket is restored on `resume` as a failed record, and the loop goes
  on to the next step.  `no_step_after_a_failure` is what holds without it.

  `session_trail` is what no session takes back: a ticket with a plan only ever
  executes steps of that plan.
-/

import Slas.Kernel.Approvals

namespace Slas

open Crash

/-! ## A prefix of the plan -/

/-- A prefix that has all of `before` and not `x` is `before`. -/
theorem prefix_eq_before {before after obs : List String} {x : String}
    (hnodup : (before ++ x :: after).Nodup) (hpre : obs <+: before ++ x :: after)
    (hdone : ∀ s ∈ before, s ∈ obs) (hfresh : x ∉ obs) : obs = before := by
  have hbefore : before <+: before ++ x :: after := List.prefix_append ..
  rcases List.prefix_or_prefix_of_prefix hpre hbefore with h | h
  · obtain ⟨r, rfl⟩ := h
    cases r with
    | nil => simp
    | cons y r =>
      have hy : y ∈ obs := hdone y (by simp)
      have hdisjoint := (List.nodup_append.mp (List.nodup_append.mp hnodup).1).2.2
      exact absurd rfl (hdisjoint y hy y (List.mem_cons_self ..))
  · obtain ⟨r, rfl⟩ := h
    cases r with
    | nil => simp
    | cons y r =>
      obtain ⟨r', hr'⟩ := hpre
      rw [List.append_assoc, List.append_cancel_left_eq, List.cons_append] at hr'
      obtain ⟨rfl, -⟩ := List.cons.inj hr'
      exact absurd (List.mem_append_right _ (List.mem_cons_self ..)) hfresh

theorem find?_first {p : Step → Bool} {before after : List Step} {x : Step}
    (hbefore : ∀ s ∈ before, p s = false) (hx : p x = true) :
    (before ++ x :: after).find? p = some x := by
  rw [List.find?_append, List.find?_eq_none.mpr (by simpa using hbefore)]
  simp [hx]

/-! ## What the journal says of the plan -/

/-- The call was for the first step of the stored plan without an observation,
    and the last entry of the journal was its intent. -/
def FirstOpen (c : ExecCall) : Prop :=
  ∃ t plan, c.stored = some t ∧ t.plan = some plan ∧ c.step.id ∉ observed c.journal ∧
    plan.steps.find? (fun s => !(observed c.journal).contains s.id) = some c.step ∧
    ∃ e, c.journal.getLast? = some e ∧ e.kind = .intent ∧ e.stepId = some c.step.id

/-- The observations name a prefix of the plan, and none come before it. -/
structure Ordered (w : World) : Prop where
  unplanned : ∀ i t, w.tickets i = some t → t.plan = none → observed (w.journals i) = []
  planned : ∀ i t plan, w.tickets i = some t → t.plan = some plan →
    observed (w.journals i) <+: plan.steps.map (·.id)
  calls : ∀ c ∈ w.calls, FirstOpen c

theorem Turn.observed_eq {K : Kernel} {P : Promise} {w : World} {i : String} {step : Step}
    (h : Turn K P w i step) (hw : Ordered w) :
    ∃ t plan before after, w.tickets i = some t ∧ t.plan = some plan ∧
      plan.steps = before ++ step :: after ∧ observed (w.journals i) = before.map (·.id) := by
  obtain ⟨T, plan, before, after, hT, -, hplan, hsplit, hdone, -⟩ := h.due
  have hids : plan.steps.map (·.id) = before.map (·.id) ++ step.id :: after.map (·.id) := by
    simp [hsplit]
  refine ⟨T, plan, before, after, hT, hplan, hsplit, ?_⟩
  apply prefix_eq_before (hids ▸ plan.unique) (hids ▸ hw.planned i T plan hT hplan) _ h.fresh
  intro s hs
  obtain ⟨x, hx, rfl⟩ := List.mem_map.mp hs
  exact hdone x hx

theorem Ordered.appendEntry {w : World} (hw : Ordered w) {i : String} {e : JournalEntry}
    (he : e.kind ≠ .observation) : Ordered (w.appendEntry i e) := by
  have hsame : ∀ j, observed ((w.appendEntry i e).journals j) = observed (w.journals j) := by
    intro j
    rw [World.journals_appendEntry]
    split
    · rename_i hj
      rw [observed_append, observed_of_kind he, hj, List.append_nil]
    · rfl
  refine ⟨fun j t ht hplan => ?_, fun j t plan ht hplan => ?_, hw.calls⟩
  · rw [hsame]
    exact hw.unplanned j t ht hplan
  · rw [hsame]
    exact hw.planned j t plan ht hplan

theorem Ordered.observe {K : Kernel} {P : Promise} {w : World} (hw : Ordered w) {i : String}
    {e : JournalEntry} {step : Step} (h : Turn K P w i step) (hk : e.kind = .observation)
    (hs : e.stepId = some step.id) : Ordered (w.appendEntry i e) := by
  obtain ⟨T, plan, before, after, hT, hplan, hsplit, hobs⟩ := h.observed_eq hw
  refine ⟨fun j t ht hnone => ?_, fun j t plan' ht hplan' => ?_, hw.calls⟩
  · rw [World.journals_appendEntry]
    split
    · rename_i hj
      rw [World.tickets_appendEntry, hj, hT, Option.some.injEq] at ht
      rw [← ht, hplan] at hnone
      cases hnone
    · exact hw.unplanned j t ht hnone
  · rw [World.journals_appendEntry]
    split
    · rename_i hj
      rw [World.tickets_appendEntry, hj, hT, Option.some.injEq] at ht
      rw [← ht, hplan, Option.some.injEq] at hplan'
      rw [observed_append, observed_observation hk hs, hobs, ← hplan', hsplit]
      exact ⟨after.map (·.id), by simp⟩
    · exact hw.planned j t plan' ht hplan'

/-- A save keeps the plan, or sets it where there was none. -/
theorem Saves.plan_eq {P : Promise} {w : World} {T t : Ticket} (h : Saves P w T t) :
    t.plan = T.plan ∨ T.plan = none := by
  cases h with
  | plan _ _ _ hplan => exact Or.inr hplan
  | approve _ _ _ _ _ ht => exact Or.inl (by rw [ht])
  | refuse _ _ _ hv => exact Or.inl hv.plan
  | ask _ _ _ _ _ hv => exact Or.inl hv.plan
  | proceed _ _ _ _ hv => exact Or.inl hv.plan
  | start _ _ hv => exact Or.inl hv.plan
  | work _ _ hv => exact Or.inl hv.plan
  | collect _ _ hv => exact Or.inl hv.plan
  | close _ _ hv => exact Or.inl hv.plan
  | finish _ _ _ hv => exact Or.inl hv.plan

/-- A ticket whose plan the journal agrees with may be saved. -/
theorem Ordered.saveTicket {w : World} (hw : Ordered w) {t : Ticket}
    (ht : t.plan = none → observed (w.journals t.id) = [])
    (ht' : ∀ plan, t.plan = some plan →
      observed (w.journals t.id) <+: plan.steps.map (·.id)) : Ordered (w.saveTicket t) := by
  refine ⟨fun i u hu hplan => ?_, fun i u plan hu hplan => ?_, hw.calls⟩
  · rw [World.tickets_saveTicket] at hu
    split at hu
    · rename_i hi
      obtain rfl := Option.some.inj hu
      exact hi ▸ ht hplan
    · exact hw.unplanned i u hu hplan
  · rw [World.tickets_saveTicket] at hu
    split at hu
    · rename_i hi
      obtain rfl := Option.some.inj hu
      exact hi ▸ ht' plan hplan
    · exact hw.planned i u plan hu hplan

theorem Spawn.ordered {w : World} {child : Ticket} {f : Finding} (h : Spawn w child f)
    (hw : Ordered w) : Ordered (w.saveTicket child) := by
  refine hw.saveTicket (fun _ => by rw [h.journal]; rfl) fun plan hplan => ?_
  rw [h.plan] at hplan
  cases hplan

theorem Move.ordered {K : Kernel} {P : Promise} {w w' : World} (h : Move K P w w')
    (hw : Ordered w) : Ordered w' := by
  cases h with
  | create t _ _ hjournal _ hplan =>
    refine hw.saveTicket (fun _ => by rw [hjournal]; rfl) fun plan hsome => ?_
    rw [hplan] at hsome
    cases hsome
  | jot i e _ hk => exact hw.appendEntry (by rcases hk with hk | hk <;> simp [hk])
  | intent i e step _ hk => exact hw.appendEntry (by simp [hk])
  | observe i e step o hturn _ hk hs => exact hw.observe hturn hk hs
  | save T t hT hs =>
    rcases hs.plan_eq with heq | hnone
    · exact hw.saveTicket (fun hplan => hw.unplanned _ T hT (heq ▸ hplan))
        fun plan hplan => hw.planned _ T plan hT (heq ▸ hplan)
    · have hempty := hw.unplanned _ T hT hnone
      exact hw.saveTicket (fun _ => hempty) fun plan _ => hempty ▸ List.nil_prefix
  | execute i step context hi hturn hintent =>
    refine ⟨hw.unplanned, hw.planned, fun c hc => ?_⟩
    rw [World.calls_logCall, List.mem_append] at hc
    rcases hc with hc | hc
    · exact hw.calls c hc
    · obtain rfl := List.mem_singleton.mp hc
      subst hi
      obtain ⟨T, plan, before, after, hT, hplan, hsplit, hobs⟩ := hturn.observed_eq hw
      refine ⟨T, plan, hT, hplan, hturn.fresh, ?_, hintent⟩
      rw [hsplit]
      apply find?_first
      · intro s hs
        have hmem : s.id ∈ observed (w.journals context.ticketId) := by
          rw [hobs]
          exact List.mem_map_of_mem hs
        simpa [World.call] using hmem
      · simpa [World.call] using hturn.fresh
  | track child f i hspawn =>
    have hsaved := hspawn.ordered hw
    exact ⟨hsaved.unplanned, hsaved.planned, hsaved.calls⟩
  | _ => exact ⟨hw.unplanned, hw.planned, hw.calls⟩

theorem Orphan.ordered {w w' : World} (h : Orphan w w') (hw : Ordered w) : Ordered w' := by
  cases h with
  | orphan child f hspawn => exact hspawn.ordered hw

/-- Without a promise every session keeps it. -/
theorem starts_unpromised (w : World) (cs : List (KernelCall × Nat)) :
    Starts KernelCall.prog (Promise.Kept ⟨False, False⟩) w cs :=
  (Starts.trivial w cs).mono fun _ _ _ _ _ _ _ _ => ⟨False.elim, False.elim⟩

theorem session_ordered (cs : List (KernelCall × Nat)) :
    Ordered (session KernelCall.prog {} cs) :=
  session_keeps ⟨False, False⟩ (D := fun _ => True)
    ⟨fun _ _ h => by simp at h, fun _ _ _ h => by simp at h, fun _ h => by simp at h⟩
    (fun _ _ _ _ _ hm => hm.ordered) (fun _ _ _ ht => ht.ordered) (starts_unpromised _ cs)
    (fun _ _ => trivial)

/-- **Write-ahead, exactly once**: after every session, at whatever writes its
    processes died, (a) no executor call was for a step with a journalled
    observation, (b) each was for the first step of the stored plan without
    one, directly after its intent in the journal, and (c) the observations in
    the journal name a prefix of the plan's steps, each once and in order. -/
theorem finished_steps_exactly_once (cs : List (KernelCall × Nat)) :
    (∀ c ∈ (session KernelCall.prog {} cs).calls, c.step.id ∉ observed c.journal) ∧
    (∀ c ∈ (session KernelCall.prog {} cs).calls, ∃ t plan, c.stored = some t ∧
      t.plan = some plan ∧
      plan.steps.find? (fun s => !(observed c.journal).contains s.id) = some c.step ∧
      ∃ e, c.journal.getLast? = some e ∧ e.kind = .intent ∧ e.stepId = some c.step.id) ∧
    ∀ i t plan, (session KernelCall.prog {} cs).tickets i = some t → t.plan = some plan →
      observed ((session KernelCall.prog {} cs).journals i) <+: plan.steps.map (·.id) ∧
        (observed ((session KernelCall.prog {} cs).journals i)).Nodup := by
  have hend := session_ordered cs
  refine ⟨fun c hc => ?_, fun c hc => ?_, fun i t plan ht hplan => ?_⟩
  · obtain ⟨_, _, _, _, hfresh, _⟩ := hend.calls c hc
    exact hfresh
  · obtain ⟨t, plan, hstored, hplan, -, hfirst, hintent⟩ := hend.calls c hc
    exact ⟨t, plan, hstored, hplan, hfirst, hintent⟩
  · have hpre := hend.planned i t plan ht hplan
    exact ⟨hpre, hpre.sublist.nodup plan.unique⟩

/-! ## Stop on failure -/

/-- A step stands at one place of a plan. -/
theorem before_unique {x : Step} {before after before' after' : List Step}
    (hnodup : ((before ++ x :: after).map (·.id)).Nodup)
    (h : before ++ x :: after = before' ++ x :: after') : before = before' := by
  have htwice : ∀ l r : List Step, ((l ++ x :: r).map (·.id)).Nodup → x ∉ l := by
    intro l r hn hmem
    rw [List.map_append, List.map_cons, List.nodup_append] at hn
    exact hn.2.2 _ (List.mem_map_of_mem hmem) _ (List.mem_cons_self ..) rfl
  rcases List.append_eq_append_iff.mp h with ⟨l, rfl, hl⟩ | ⟨l, rfl, hl⟩
  · cases l with
    | nil => simp
    | cons y l =>
      obtain ⟨rfl, -⟩ := List.cons.inj hl
      exact absurd (by simp) (htwice _ after' (h ▸ hnodup))
  · cases l with
    | nil => simp
    | cons y l =>
      obtain ⟨rfl, -⟩ := List.cons.inj hl
      exact absurd (by simp) (htwice _ after hnodup)

/-- No call was made for a step after one whose journalled observation is not
    ok. -/
def Halting (verify : Step → Observation → StepVerdict) (w : World) : Prop :=
  ∀ c ∈ w.calls, ∀ t plan, c.stored = some t → t.plan = some plan →
    ∀ before after, plan.steps = before ++ c.step :: after → AllOk verify c.journal before

theorem Move.halting {K : Kernel} {P : Promise} (hP : P.settled)
    {verify : Step → Observation → StepVerdict} (hK : K.agent.verify = verify) {w w' : World}
    (h : Move K P w w') (hw : Halting verify w) : Halting verify w' := by
  cases h with
  | execute i step context hi hturn =>
    intro c hc t plan ht hplan before after hsplit
    rw [World.calls_logCall, List.mem_append] at hc
    rcases hc with hc | hc
    · exact hw c hc t plan ht hplan before after hsplit
    · obtain rfl := List.mem_singleton.mp hc
      subst hi
      obtain ⟨T, plan', before', after', hT, -, hplan', hsplit', -, hclear⟩ := hturn.due
      obtain rfl : T = t := Option.some.inj (hT.symm.trans ht)
      obtain rfl : plan' = plan := Option.some.inj (hplan'.symm.trans hplan)
      obtain rfl : before' = before := before_unique (hsplit' ▸ plan'.unique) (hsplit'.symm.trans hsplit)
      exact hK ▸ hclear hP
  | _ => exact hw

theorem Orphan.halting {verify : Step → Observation → StepVerdict} {w w' : World}
    (h : Orphan w w') (hw : Halting verify w) : Halting verify w' := by
  cases h with
  | orphan => exact hw

/-- Every `resume` of a ticket that is still to act finds each step whose
    journalled observation is not ok saved as failed. -/
def ResumesSettled (verify : Step → Observation → StepVerdict) (c : KernelCall) (w : World) :
    Prop :=
  ∀ i, c.op = .resume i → ∀ t, w.tickets i = some t → ToAct t → Settled verify (w.journals i) t

/-- **Stop on failure, across crashes**: when no call resumes a ticket whose
    failed observation reached the journal but not the ticket, the executor is
    never called for a step after one whose journalled observation `verify`
    judges not ok. -/
theorem no_step_after_a_failure (verify : Step → Observation → StepVerdict)
    (cs : List (KernelCall × Nat)) (hverify : ∀ c ∈ cs, c.1.kernel.agent.verify = verify)
    (hstart : Starts KernelCall.prog (ResumesSettled verify) {} cs) :
    ∀ c ∈ (session KernelCall.prog {} cs).calls, ∀ t plan, c.stored = some t →
      t.plan = some plan → ∀ before after, plan.steps = before ++ c.step :: after →
      ∀ s ∈ before, ∀ e ∈ c.journal, e.kind = .observation → e.stepId = some s.id →
      ∀ o, Observation.modelValidate e.payload = some o → (verify s o).outcome = .ok := by
  have hkept : Starts KernelCall.prog (Promise.Kept ⟨False, True⟩) {} cs := by
    refine hstart.mono fun c hc w hsettled i hi t ht => ⟨False.elim, fun _ hact => ?_⟩
    rw [hverify c hc]
    exact hsettled i hi t ht hact
  exact session_keeps ⟨False, True⟩ (D := fun c => c.kernel.agent.verify = verify)
    (I := Halting verify) (fun c hc => by simp at hc)
    (fun c hc _ _ _ hm => hm.halting trivial hc) (fun _ _ _ ht => ht.halting) hkept hverify

/-! ### A failed step and the one after it -/

def twoSteps : Plan where
  id := "P-1"
  jobId := "J-1"
  summary := "Check, then update."
  steps := [{ id := "check", n := 1, primitive := "fake", title := "Check" },
            { id := "update", n := 2, primitive := "fake", title := "Update" }]
  createdAt := 0
  nonempty := by simp
  capped := by decide
  unique := by decide
  numbered := by decide

/-- The check fails. -/
def failingKernel : Kernel :=
  demoKernel twoSteps fun s => { exitCode := some (if s = "check" then 1 else 0) }

/-- The process dies when the failed check is saved on the ticket, and the
    ticket is resumed. -/
def savedFailure : List (KernelCall × Nat) :=
  [(⟨failingKernel, .run demoRaw⟩, 14), (⟨failingKernel, .resume "T-null-0001"⟩, 6)]

theorem saved_failure_stops :
    (session KernelCall.prog {} savedFailure).calls.map (·.step.id) = ["check"] ∧
      ∀ c ∈ (session KernelCall.prog {} savedFailure).calls, ∀ t plan, c.stored = some t →
        t.plan = some plan → ∀ before after, plan.steps = before ++ c.step :: after →
        ∀ s ∈ before, ∀ e ∈ c.journal, e.kind = .observation → e.stepId = some s.id →
        ∀ o, Observation.modelValidate e.payload = some o → (demoVerify s o).outcome = .ok := by
  refine ⟨by decide +kernel, no_step_after_a_failure demoVerify savedFailure ?_ ⟨?_, ?_, trivial⟩⟩
  · simp [savedFailure, failingKernel, demoKernel]
  · rintro i hi
    cases hi
  · rintro i hi t ht - plan hplan s hs e he hk hstep o ho hbad
    cases hi
    have hobs : observed ((after KernelCall.prog {} (⟨failingKernel, .run demoRaw⟩, 14)).journals
        "T-null-0001") = ["check"] := by
      decide +kernel
    have hsaved : ((after KernelCall.prog {} (⟨failingKernel, .run demoRaw⟩, 14)).tickets
        "T-null-0001").bind (fun t => (t.stepRecord "check").map (·.status)) = some .failed := by
      decide +kernel
    have hmem := mem_observed.mpr ⟨e, he, hk, hstep⟩
    rw [hobs, List.mem_singleton] at hmem
    rw [ht, Option.bind_some, Option.map_eq_some_iff] at hsaved
    rw [hmem]
    exact hsaved

/-- The process dies right after the failed observation is journalled; the
    resumed run goes on to the update. -/
def lostFailure : List (KernelCall × Nat) :=
  [(⟨failingKernel, .run demoRaw⟩, 13), (⟨failingKernel, .resume "T-null-0001"⟩, 3)]

theorem update_runs_after_failed_check :
    ¬ ∀ c ∈ (session KernelCall.prog {} lostFailure).calls, ∀ t plan, c.stored = some t →
      t.plan = some plan → ∀ before after, plan.steps = before ++ c.step :: after →
      ∀ s ∈ before, ∀ e ∈ c.journal, e.kind = .observation → e.stepId = some s.id →
      ∀ o, Observation.modelValidate e.payload = some o → (demoVerify s o).outcome = .ok := by
  intro h
  -- the second call is for the update, with the failed check in the journal
  have hcall : ∃ c ∈ (session KernelCall.prog {} lostFailure).calls, c.step.id = "update" ∧
      c.stored.map (fun t => t.plan.map fun p => p.steps.map (·.id)) =
        some (some ["check", "update"]) ∧
      ∃ e ∈ c.journal, e.kind = .observation ∧ e.stepId = some "check" ∧
        Observation.modelValidate e.payload = some { exitCode := some 1 } := by
    decide +kernel
  obtain ⟨c, hc, hid, hplan, e, he, hk, hstep, hvalid⟩ := hcall
  obtain ⟨t, ht, hmap⟩ := Option.map_eq_some_iff.mp hplan
  obtain ⟨plan, hp, hids⟩ := Option.map_eq_some_iff.mp hmap
  obtain ⟨s, u, hsteps⟩ : ∃ s u, plan.steps = [s, u] :=
    List.length_eq_two.mp (by simpa using congrArg List.length hids)
  rw [hsteps] at hids
  simp only [List.map_cons, List.map_nil, List.cons.injEq, and_true] at hids
  obtain ⟨t', plan', ht', hp', hmem⟩ : ∃ t' plan', c.stored = some t' ∧ t'.plan = some plan' ∧
      c.step ∈ plan'.steps := by
    obtain ⟨t', plan', ht', hp', -, hfirst, -⟩ := (session_ordered lostFailure).calls c hc
    exact ⟨t', plan', ht', hp', List.mem_of_find?_eq_some hfirst⟩
  obtain rfl : t = t' := Option.some.inj (ht.symm.trans ht')
  obtain rfl : plan = plan' := Option.some.inj (hp.symm.trans hp')
  have hu : c.step = u := by
    rw [hsteps] at hmem
    rcases List.mem_pair.mp hmem with rfl | rfl
    · simp [hid] at hids
    · rfl
  have hok := h c hc t plan ht hp [s] [] (by rw [hsteps, hu]; rfl) s (by simp) e he hk
    (by rw [hstep, hids.1]) _ hvalid
  simp [demoVerify] at hok

/-! ## What no session takes back -/

/-- The defects of the bug index, with where each is filed. -/
def filed (index : BugIndex) : List (Fingerprint × String × String) :=
  index.map fun e => (e.fingerprint, e.ticketId, e.firstSeenIn)

theorem filed_record (index : BugIndex) (d : Fingerprint) (i j : String) :
    filed index <+: filed (index.record d i j) := by
  induction index with
  | nil => exact List.nil_prefix
  | cons e index ih =>
    rw [BugIndex.record]
    split
    · exact List.prefix_rfl
    · exact List.prefix_cons_inj _ |>.mpr ih

/-- The world `w`, some calls after `w₀`. -/
structure Trail (w₀ w : World) : Prop where
  /-- No entry of a journal is changed or removed. -/
  journals : ∀ i, w₀.journals i <+: w.journals i
  /-- A ticket stays, with its parent and, once it has one, with its plan. -/
  tickets : ∀ i T, w₀.tickets i = some T → ∃ t, w.tickets i = some t ∧ t.parent = T.parent ∧
    ∀ plan, T.plan = some plan → t.plan = some plan
  /-- A defect stays filed under its ticket. -/
  filed : filed w₀.bugIndex <+: filed w.bugIndex
  /-- What was executed since is of the plan that the ticket had. -/
  calls : ∃ calls, w.calls = w₀.calls ++ calls ∧ ∀ c ∈ calls, ∀ T plan,
    w₀.tickets c.context.ticketId = some T → T.plan = some plan → c.step ∈ plan.steps

theorem Trail.refl (w : World) : Trail w w :=
  ⟨fun _ => List.prefix_rfl, fun _ T hT => ⟨T, hT, rfl, fun _ hplan => hplan⟩, List.prefix_rfl,
    [], (List.append_nil _).symm, fun _ hc => by cases hc⟩

theorem Trail.appendEntry {w₀ w : World} (hw : Trail w₀ w) (i : String) (e : JournalEntry) :
    Trail w₀ (w.appendEntry i e) := by
  refine ⟨fun j => ?_, hw.tickets, hw.filed, hw.calls⟩
  rw [World.journals_appendEntry]
  split
  · rename_i hj
    exact hj ▸ (hw.journals j).trans (List.prefix_append ..)
  · exact hw.journals j

/-- A ticket may be saved under an id that is not in use. -/
theorem Trail.saveNew {w₀ w : World} (hw : Trail w₀ w) {t : Ticket} (hnew : w.tickets t.id = none) :
    Trail w₀ (w.saveTicket t) := by
  refine ⟨hw.journals, fun i T hT => ?_, hw.filed, hw.calls⟩
  obtain ⟨t', ht', hkept⟩ := hw.tickets i T hT
  have hne : i ≠ t.id := by
    rintro rfl
    rw [hnew] at ht'
    cases ht'
  exact ⟨t', by rw [World.tickets_saveTicket, if_neg hne]; exact ht', hkept⟩

theorem Trail.recordBug {w₀ w : World} (hw : Trail w₀ w) (d : Fingerprint) (i j : String) :
    Trail w₀ (w.recordBug d i j) :=
  ⟨hw.journals, hw.tickets, hw.filed.trans (filed_record ..), hw.calls⟩

/-- No save changes the parent of a ticket, or a plan that is there. -/
theorem Saves.keeps {P : Promise} {w : World} {T t : Ticket} (h : Saves P w T t) :
    t.parent = T.parent ∧ ∀ plan, T.plan = some plan → t.plan = some plan := by
  cases h with
  | plan _ _ _ hnone _ _ h => exact ⟨h.parent, fun plan hplan => by simp [hnone] at hplan⟩
  | approve _ _ _ _ _ ht => exact ht ▸ ⟨rfl, fun _ hplan => hplan⟩
  | refuse _ _ _ h => exact ⟨h.parent, fun _ hplan => h.plan.trans hplan⟩
  | ask _ _ _ _ _ h => exact ⟨h.parent, fun _ hplan => h.plan.trans hplan⟩
  | proceed _ _ _ _ h => exact ⟨h.parent, fun _ hplan => h.plan.trans hplan⟩
  | start _ _ h => exact ⟨h.parent, fun _ hplan => h.plan.trans hplan⟩
  | work _ _ h => exact ⟨h.parent, fun _ hplan => h.plan.trans hplan⟩
  | collect _ _ h => exact ⟨h.parent, fun _ hplan => h.plan.trans hplan⟩
  | close _ _ h => exact ⟨h.parent, fun _ hplan => h.plan.trans hplan⟩
  | finish _ _ _ h => exact ⟨h.parent, fun _ hplan => h.plan.trans hplan⟩

theorem Move.trail {K : Kernel} {P : Promise} {w₀ w w' : World} (h : Move K P w w')
    (hw : Trail w₀ w) : Trail w₀ w' := by
  cases h with
  | create t _ hunused => exact hw.saveNew hunused
  | jot i e => exact hw.appendEntry i e
  | intent i e => exact hw.appendEntry i e
  | observe i e => exact hw.appendEntry i e
  | seen e i => exact hw.recordBug ..
  | track child f i hspawn => exact (hw.saveNew hspawn.unused).recordBug ..
  | save T t hT hsaves =>
    refine ⟨hw.journals, fun i T₀ hT₀ => ?_, hw.filed, hw.calls⟩
    obtain ⟨t', ht', hparent, hplan⟩ := hw.tickets i T₀ hT₀
    rw [World.tickets_saveTicket]
    split
    · rename_i hi
      obtain rfl : t' = T := Option.some.inj (ht'.symm.trans (hi ▸ hT))
      exact ⟨t, rfl, hsaves.keeps.1.trans hparent,
        fun plan h => hsaves.keeps.2 plan (hplan plan h)⟩
    · exact ⟨t', ht', hparent, hplan⟩
  | execute i step context hi hturn =>
    obtain ⟨calls, hcalls, hplanned⟩ := hw.calls
    refine ⟨hw.journals, hw.tickets, hw.filed, calls ++ [w.call step context], ?_, ?_⟩
    · rw [World.calls_logCall, hcalls, List.append_assoc]
    · intro c hc T₀ plan₀ hT₀ hplan₀
      rcases List.mem_append.mp hc with hc | hc
      · exact hplanned c hc T₀ plan₀ hT₀ hplan₀
      · obtain rfl := List.mem_singleton.mp hc
        subst hi
        -- It is due in the plan of now, which is still the one that the ticket had.
        obtain ⟨t, ht, -, hplan⟩ := hw.tickets _ T₀ hT₀
        obtain ⟨T, plan, before, after, hT, -, hTplan, hsplit, -⟩ := hturn.due
        obtain rfl : T = t := Option.some.inj (hT.symm.trans ht)
        obtain rfl : plan = plan₀ := Option.some.inj (hTplan.symm.trans (hplan plan₀ hplan₀))
        rw [hsplit]
        exact List.mem_append_right _ List.mem_cons_self
  | _ => exact ⟨hw.journals, hw.tickets, hw.filed, hw.calls⟩

theorem Orphan.trail {w₀ w w' : World} (h : Orphan w w') (hw : Trail w₀ w) : Trail w₀ w' := by
  cases h with
  | orphan child f hspawn => exact hw.saveNew hspawn.unused

/-- **What no session takes back**: whatever the calls and wherever their processes die, the
    journals, the tickets, their plans and the bug index stay, and a ticket that is planned only
    ever executes steps of that plan. -/
theorem session_trail (cs ds : List (KernelCall × Nat)) :
    Trail (session KernelCall.prog {} cs) (session KernelCall.prog {} (cs ++ ds)) := by
  rw [session_append]
  have hstart := starts_unpromised (session KernelCall.prog {} cs) ds
  have hend := session_invariant
    (I := fun w => Sound w ∧ Trail (session KernelCall.prog {} cs) w) ?_ hstart
    ⟨session_sound cs, .refl _⟩
  · exact hend.2
  · rintro ⟨c, n⟩ w hkept ⟨hsound, htrail⟩
    refine (call_leaves c _ hsound hkept n).invariant
      (I := fun w => Sound w ∧ Trail (session KernelCall.prog {} cs) w) ?_ (fun _ h => h) ?_
      ⟨hsound, htrail⟩
    · exact fun w w' hm hw => ⟨hm.sound hw.1, hm.trail hw.2⟩
    · exact fun w w' ht hw => ⟨ht.sound hw.1, ht.trail hw.2⟩

end Slas
