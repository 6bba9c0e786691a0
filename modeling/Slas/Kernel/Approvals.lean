/-
  Slas.Kernel.Approvals

  No destructive step runs unapproved (INV-7), over whole sessions with
  crashes.

  The plan and its approval requests reach the disk in two saves.  A process
  that dies between them leaves a ticket in Planned with a destructive plan
  and no request; to `resume` nothing is pending there, and the plan runs.
  That ticket is the only way around the gate: in a session that never resumes
  one, every destructive step that is executed was approved.
-/

import Slas.Kernel.RefineCalls

namespace Slas

open Crash

/-! ## Deciding approvals -/

section Decide

variable {stepId : String} {f : Approval → Approval} {as bs : List Approval}

theorem decideFirst_cons {a : Approval} (h : Kernel.decideFirst stepId f (a :: as) = some bs) :
    (a.pending = true ∧ bs = f a :: as) ∨
      ∃ cs, Kernel.decideFirst stepId f as = some cs ∧ bs = a :: cs := by
  rw [Kernel.decideFirst] at h
  split at h
  · rename_i hhit
    exact Or.inl ⟨hhit.2, (Option.some.inj h).symm⟩
  · obtain ⟨cs, hcs, rfl⟩ := Option.map_eq_some_iff.mp h
    exact Or.inr ⟨cs, hcs, rfl⟩

theorem decideFirst_stepIds (hf : ∀ a, (f a).stepId = a.stepId)
    (h : Kernel.decideFirst stepId f as = some bs) : bs.map (·.stepId) = as.map (·.stepId) := by
  induction as generalizing bs with
  | nil => cases h
  | cons a as ih =>
    rcases decideFirst_cons h with ⟨-, rfl⟩ | ⟨cs, hcs, rfl⟩
    · simp [hf]
    · simp [ih hcs]

theorem mem_decideFirst (h : Kernel.decideFirst stepId f as = some bs) {b : Approval}
    (hb : b ∈ bs) : b ∈ as ∨ ∃ a, b = f a := by
  induction as generalizing bs with
  | nil => cases h
  | cons a as ih =>
    rcases decideFirst_cons h with ⟨-, rfl⟩ | ⟨cs, hcs, rfl⟩
    · rcases List.mem_cons.mp hb with rfl | hb
      · exact Or.inr ⟨a, rfl⟩
      · exact Or.inl (List.mem_cons_of_mem _ hb)
    · rcases List.mem_cons.mp hb with rfl | hb
      · exact Or.inl (List.mem_cons_self ..)
      · exact (ih hcs hb).imp_left (List.mem_cons_of_mem _)

/-- A decision that was made stays. -/
theorem decideFirst_keeps (h : Kernel.decideFirst stepId f as = some bs) {a : Approval}
    (ha : a ∈ as) (hdecided : a.approved = some true) : a ∈ bs := by
  induction as generalizing bs with
  | nil => cases ha
  | cons x as ih =>
    rcases decideFirst_cons h with ⟨hpending, rfl⟩ | ⟨cs, hcs, rfl⟩
    · rcases List.mem_cons.mp ha with rfl | ha
      · simp [Approval.pending, hdecided] at hpending
      · exact List.mem_cons_of_mem _ ha
    · rcases List.mem_cons.mp ha with rfl | ha
      · exact List.mem_cons_self ..
      · exact List.mem_cons_of_mem _ (ih hcs ha)

end Decide

/-! ## The gate -/

/-- The ticket holds an approval of the step. -/
def ApprovedFor (t : Ticket) (s : Step) : Prop :=
  ∃ a ∈ t.approvals, a.stepId = s.id ∧ a.approved = some true

/-- What the approvals of a stored ticket say: they are pending or given, they
    are requested for all destructive steps or for none, and a ticket past the
    gate has them all. -/
structure Gated (t : Ticket) : Prop where
  decided : ∀ a ∈ t.approvals, a.approved = none ∨ a.approved = some true
  requested : t.approvals = [] ∨ ∃ plan, t.plan = some plan ∧
    t.approvals.map (·.stepId) = plan.destructiveSteps.map (·.id)
  passed : t.state = .approved ∨ t.state = .running → ∀ plan, t.plan = some plan →
    ∀ s ∈ plan.steps, s.risk = .destructive → ApprovedFor t s

/-- A ticket without requests that is not past the gate. -/
theorem Gated.of_nil {t : Ticket} (happ : t.approvals = [])
    (hstate : ¬ (t.state = .approved ∨ t.state = .running)) : Gated t :=
  ⟨by simp [happ], Or.inl happ, fun h => absurd h hstate⟩

/-- The same plan and approvals, not newly past the gate. -/
theorem Gated.congr {T t : Ticket} (h : Gated T) (hplan : t.plan = T.plan)
    (happ : t.approvals = T.approvals)
    (hstate : t.state = .approved ∨ t.state = .running → T.state = .approved ∨ T.state = .running) :
    Gated t := by
  refine ⟨happ ▸ h.decided, ?_, fun hs plan hp s hmem hrisk => ?_⟩
  · rw [happ, hplan]
    exact h.requested
  · obtain ⟨a, ha, hrest⟩ := h.passed (hstate hs) plan (hplan ▸ hp) s hmem hrisk
    exact ⟨a, happ ▸ ha, hrest⟩

theorem Gated.approve {T : Ticket} (h : Gated T) {stepId : String} {f : Approval → Approval}
    {approvals : List Approval} (hf : ∀ a, (f a).stepId = a.stepId ∧ (f a).approved = some true)
    (hdecide : Kernel.decideFirst stepId f T.approvals = some approvals) :
    Gated { T with approvals } := by
  refine ⟨fun a ha => ?_, ?_, fun hs plan hp s hmem hrisk => ?_⟩
  · rcases mem_decideFirst hdecide ha with hold | ⟨b, rfl⟩
    · exact h.decided a hold
    · exact Or.inr (hf b).2
  · rcases h.requested with hnil | ⟨plan, hplan, hids⟩
    · rw [hnil] at hdecide
      cases hdecide
    · exact Or.inr ⟨plan, hplan, (decideFirst_stepIds (fun a => (hf a).1) hdecide).trans hids⟩
  · obtain ⟨a, ha, hid, happ⟩ := h.passed hs plan hp s hmem hrisk
    exact ⟨a, decideFirst_keeps hdecide ha happ, hid, happ⟩

/-- Passing the gate: requested and none pending means given. -/
theorem Gated.proceed {T : Ticket} (h : Gated T) (hpending : T.pendingApprovals = [])
    (hasked : Asked T) {plan : Plan} (hplan : T.plan = some plan) {s : Step}
    (hs : s ∈ plan.steps) (hrisk : s.risk = .destructive) : ApprovedFor T s := by
  have hneeds : s.needsApproval = true := by simp [Step.needsApproval, hrisk]
  have hdestructive : plan.destructive = true := List.any_eq_true.mpr ⟨s, hs, hneeds⟩
  rcases h.requested with hnil | ⟨plan', hplan', hids⟩
  · exact absurd hnil (hasked plan hplan hdestructive)
  · obtain rfl : plan' = plan := Option.some.inj (hplan'.symm.trans hplan)
    have hmem : s.id ∈ T.approvals.map (·.stepId) := by
      rw [hids]
      exact List.mem_map_of_mem (List.mem_filter.mpr ⟨hs, hneeds⟩)
    obtain ⟨a, ha, hid⟩ := List.mem_map.mp hmem
    refine ⟨a, ha, hid, (h.decided a ha).resolve_left fun hnone => ?_⟩
    have hfilter : a ∈ T.pendingApprovals :=
      List.mem_filter.mpr ⟨ha, by simp [Approval.pending, hnone]⟩
    rw [hpending] at hfilter
    cases hfilter

theorem Saves.gated {P : Promise} (hP : P.asked) {w : World} {T t : Ticket} (h : Saves P w T t)
    (hT : Gated T) : Gated t := by
  cases h with
  | plan plan _ ht _ _ happ hv => exact .of_nil (hv.approvals.trans happ) (by simp [ht])
  | refuse _ ht _ hv => exact hT.congr hv.plan hv.approvals (by simp [ht])
  | ask plan now _ ht hplan hv =>
    refine ⟨fun a ha => ?_, Or.inr ⟨plan, hv.plan.trans hplan, ?_⟩, fun hs => by simp [ht] at hs⟩
    · rw [hv.approvals] at ha
      obtain ⟨s, -, rfl⟩ := List.mem_map.mp ha
      exact Or.inl rfl
    · rw [hv.approvals]
      simp [Kernel.requests]
  | approve stepId f approvals hf hdecide ht =>
    subst ht
    exact hT.approve hf hdecide
  | proceed _ _ hpending hasked hv =>
    have hbase : Gated { T with state := .approved } := by
      refine ⟨hT.decided, hT.requested, fun _ plan hp s hmem hrisk => ?_⟩
      exact hT.proceed hpending (hasked hP) hp hmem hrisk
    exact hbase.congr hv.plan hv.approvals fun _ => Or.inl rfl
  | start hTs _ hv => exact hT.congr hv.plan hv.approvals fun _ => Or.inl hTs
  | work hTs _ hv => exact hT.congr hv.plan hv.approvals fun _ => Or.inr hTs
  | collect _ ht hv => exact hT.congr hv.plan hv.approvals (by simp [ht])
  | close _ ht hv => exact hT.congr hv.plan hv.approvals (by simp [ht])
  | finish _ ht _ hv =>
    refine hT.congr hv.plan hv.approvals ?_
    rcases ht with ht | ht <;> simp [ht]

/-! ## Over sessions -/

/-- Every destructive step that was executed was approved on the ticket then
    stored, and every stored ticket is gated. -/
structure Authorised (w : World) : Prop where
  gated : ∀ i t, w.tickets i = some t → Gated t
  calls : ∀ c ∈ w.calls, c.step.risk = .destructive → ∃ t, c.stored = some t ∧ ApprovedFor t c.step

theorem Authorised.saveTicket {w : World} (h : Authorised w) {t : Ticket} (ht : Gated t) :
    Authorised (w.saveTicket t) := by
  refine ⟨fun i u hu => ?_, h.calls⟩
  rw [World.tickets_saveTicket] at hu
  split at hu
  · obtain rfl := Option.some.inj hu
    exact ht
  · exact h.gated i u hu

theorem Spawn.gated {w : World} {child : Ticket} {f : Finding} (h : Spawn w child f) :
    Gated child := .of_nil h.approvals (by simp [h.state])

theorem Move.authorised {K : Kernel} {P : Promise} (hP : P.asked) {w w' : World}
    (h : Move K P w w') (hw : Authorised w) : Authorised w' := by
  cases h with
  | create t _ _ _ hstate _ happ => exact hw.saveTicket (.of_nil happ (by simp [hstate]))
  | save T t hT hs => exact hw.saveTicket (hs.gated hP (hw.gated _ T hT))
  | execute i step context hi hturn =>
    refine ⟨hw.gated, fun c hc hrisk => ?_⟩
    rw [World.calls_logCall, List.mem_append] at hc
    rcases hc with hc | hc
    · exact hw.calls c hc hrisk
    · -- the call is made for a step of a running ticket, which is past the gate
      obtain rfl := List.mem_singleton.mp hc
      obtain ⟨T, plan, before, after, hT, hrunning, hplan, hsplit, -⟩ := hturn.due
      have hmem : step ∈ plan.steps := by simp [hsplit]
      refine ⟨T, ?_, (hw.gated i T hT).passed (Or.inr hrunning) plan hplan step hmem hrisk⟩
      rw [← hi] at hT
      exact hT
  | track child f i hspawn =>
    have hsaved := hw.saveTicket hspawn.gated
    exact ⟨hsaved.gated, hsaved.calls⟩
  | _ => exact ⟨hw.gated, hw.calls⟩

theorem Orphan.authorised {w w' : World} (h : Orphan w w') (hw : Authorised w) : Authorised w' := by
  cases h with
  | orphan child f hspawn => exact hw.saveTicket hspawn.gated

/-- The ticket a process leaves behind when it dies between the save of a
    destructive plan and the save of its approval requests. -/
def HalfPlanned (t : Ticket) : Prop :=
  t.state = .planned ∧ t.approvals = [] ∧ ∃ plan, t.plan = some plan ∧ plan.destructive = true

/-- No call resumes a half-planned ticket. -/
def ResumesWhole (c : KernelCall) (w : World) : Prop :=
  ∀ i, c.op = .resume i → ∀ t, w.tickets i = some t → ¬ HalfPlanned t

/-- **INV-7 over sessions**: when no call resumes a half-planned ticket, no
    destructive step is ever executed without an approval of it on the stored
    ticket, at whatever writes the processes died. -/
theorem destructive_steps_approved (cs : List (KernelCall × Nat))
    (hstart : Starts KernelCall.prog ResumesWhole {} cs) :
    ∀ c ∈ (session KernelCall.prog {} cs).calls, c.step.risk = .destructive →
      ∃ t, c.stored = some t ∧ ∃ a ∈ t.approvals, a.stepId = c.step.id ∧ a.approved = some true := by
  have hkept : Starts KernelCall.prog (Promise.Kept ⟨True, False⟩) {} cs := by
    refine hstart.mono fun c _ w hwhole i hi t ht => ⟨fun _ hplanned plan hplan hdes hnil => ?_,
      False.elim⟩
    exact hwhole i hi t ht ⟨hplanned, hnil, plan, hplan, hdes⟩
  have hend := session_keeps ⟨True, False⟩ (D := fun _ => True) (I := Authorised)
    ⟨fun _ _ h => by simp at h, fun _ h => by simp at h⟩
    (fun _ _ _ _ _ hm => hm.authorised trivial) (fun _ _ _ ht => ht.authorised) hkept
    (fun _ _ => trivial)
  exact hend.calls

/-! ### A concrete kernel -/

/-- Text tools that give every failure one fingerprint. -/
def demoText : TextTools where
  normaliseLog _ := { totalLines := 0 }
  fingerprint _ := ⟨"0123456789abcdef", by decide⟩
  firstSentence s := s
  route _ := {}

def demoJob : Job := { id := "J-1", agent := .null, user := "ana", title := "Demo", createdAt := 0 }

def demoRaw : Raw := .upload { filename := "plan.md", uploadedBy := "ana" }

def demoVerify (_ : Step) (o : Observation) : StepVerdict :=
  if o.exitCode = some 0 then ⟨.ok, "It finished."⟩ else ⟨.fail, "It failed."⟩

/-- A kernel of the `null` agent with one plan, whose executor answers as
    `observe` says. -/
def demoKernel (plan : Plan) (observe : String → Observation) : Kernel where
  dataRoot := "/srv/slas"
  agent :=
    { name := .null
      ingest := fun _ => .ok demoJob
      plan := fun _ => .ok plan
      verify := demoVerify }
  executor := fun _ step _ => .ok (observe step.id)
  clock n := n
  text := demoText
  renderSop _ _ := .ok { en := "", zh := "", data := "", translated := false }

/-- A plan of one safe step. -/
def burnInPlan : Plan where
  id := "P-1"
  jobId := "J-1"
  summary := "Burn in."
  steps := [{ id := "burn-in", n := 1, primitive := "fake", title := "Burn in" }]
  createdAt := 0
  nonempty := by simp
  capped := by decide
  unique := by decide
  numbered := by decide

def wipePlan : Plan where
  id := "P-1"
  jobId := "J-1"
  summary := "Wipe the disk."
  steps := [{ id := "wipe", n := 1, primitive := "fake", title := "Wipe", risk := .destructive }]
  createdAt := 0
  nonempty := by simp
  capped := by decide
  unique := by decide
  numbered := by decide

def wipeKernel : Kernel := demoKernel wipePlan fun _ => { exitCode := some 0 }

/-- The plan is run, its step approved and the ticket resumed. -/
def wipeApproved : List (KernelCall × Nat) :=
  [(⟨wipeKernel, .run demoRaw⟩, 20), (⟨wipeKernel, .approve "T-null-0001" "wipe" "bo" ""⟩, 20),
   (⟨wipeKernel, .resume "T-null-0001"⟩, 7)]

theorem wipe_runs_approved :
    (session KernelCall.prog {} wipeApproved).calls.length = 1 ∧
      ∀ c ∈ (session KernelCall.prog {} wipeApproved).calls, c.step.risk = .destructive →
        ∃ t, c.stored = some t ∧
          ∃ a ∈ t.approvals, a.stepId = c.step.id ∧ a.approved = some true := by
  refine ⟨by decide +kernel, destructive_steps_approved wipeApproved ⟨?_, ?_, ?_, trivial⟩⟩
  · rintro i hi
    cases hi
  · rintro i hi
    cases hi
  · rintro i hi t ht ⟨-, hnil, -⟩
    cases hi
    have hrequested : ((after KernelCall.prog (after KernelCall.prog {} (⟨wipeKernel, .run demoRaw⟩, 20))
        (⟨wipeKernel, .approve "T-null-0001" "wipe" "bo" ""⟩, 20)).tickets "T-null-0001").map
        (·.approvals.length) = some 1 := by
      decide +kernel
    rw [ht] at hrequested
    simp [hnil] at hrequested

/-- The process dies after its fifth write, the save of the planned ticket, and
    the ticket is resumed. -/
def wipeCrashed : List (KernelCall × Nat) :=
  [(⟨wipeKernel, .run demoRaw⟩, 5), (⟨wipeKernel, .resume "T-null-0001"⟩, 7)]

theorem wipe_runs_unapproved :
    ¬ ∀ c ∈ (session KernelCall.prog {} wipeCrashed).calls, c.step.risk = .destructive →
      ∃ t, c.stored = some t ∧
        ∃ a ∈ t.approvals, a.stepId = c.step.id ∧ a.approved = some true := by
  intro h
  have hcall : ∃ c ∈ (session KernelCall.prog {} wipeCrashed).calls,
      c.step.risk = .destructive ∧ c.stored.map (·.approvals) = some [] := by
    decide +kernel
  obtain ⟨c, hc, hrisk, happ⟩ := hcall
  obtain ⟨t, ht, a, ha, -⟩ := h c hc hrisk
  rw [ht] at happ
  simp only [Option.map_some, Option.some.injEq] at happ
  rw [happ] at ha
  cases ha

end Slas
