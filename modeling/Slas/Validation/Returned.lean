/-
  Slas.Validation.Returned

  What a Validation run that is over still holds.  The kernel, the plans of the
  Validation agent (`slas_orchestrator.validation.agent`) and the validation
  executor behind its service are put together: the executor answers a call as the
  requests before it left its world, and the machine of a compiled plan is given
  back by the last step, the only one that does.

  When no step fails while its ticket has a lease, a ticket that comes to rest has
  none.  A step that fails in the middle of a run ends it with the machine still
  leased.
-/

import Slas.Kernel.HoldingCalls
import Slas.Validation.Brackets
import Slas.Validation.PowerOnce

namespace Slas

open Crash

/-! ## The Validation agent -/

/-- What `ValidationAgent` is built from and keeps: the suites by job and the targets
    chosen for them. -/
structure ValidationAgent where
  builtins : Builtins
  guardrails : Guardrails := defaultGuardrails
  compiler : Option Compiler := none
  now : DateTime
  suites : String → Option Suite
  targets : String → Option String
  ingest : Raw → Except String Job

namespace ValidationAgent

variable (V : ValidationAgent)

/-- `self._targets.get(job.id) or (job.target.ref if job.target else None)` -/
def targetOf (job : Job) : Option String :=
  match V.targets job.id with
  | some target => if target = "" then job.target.map (·.ref) else some target
  | none => job.target.map (·.ref)

/-- What a compile error is raised with. -/
def errorText : CompileError → String
  | .refused message => message.whatHappened
  | .raised message => message

/-- `ValidationAgent.plan` -/
def plan (job : Job) : Except String Plan :=
  match V.targetOf job with
  | none => .error (job.title ++ " has no target yet.")
  | some target =>
    if target = "" then .error (job.title ++ " has no target yet.")
    else match V.suites job.id with
      | none => .error (V.builtins.repr job.id)
      | some suite =>
        (compileSuite V.builtins suite job.id target V.guardrails V.now V.compiler).mapError errorText

/-- `ValidationAgent.verify` -/
def verify (step : Step) (o : Observation) : StepVerdict :=
  let sentence := if o.summary = "" then step.title ++ " finished." else o.summary
  { outcome := if o.exitCode = some 0 then .ok else .fail
    sentence := String.ofList (sentence.toList.take 2000) }

def agent : Agent where
  name := .validation
  ingest := V.ingest
  plan := V.plan
  verify := verify

end ValidationAgent

/-- The plan was compiled for the machine. -/
def CompiledFor (plan : Plan) (target : String) : Prop :=
  ∃ (B : Builtins) (suite : Suite) (jobId : String) (guardrails : Guardrails) (now : DateTime)
    (compiler : Option Compiler),
    compileSuite B suite jobId target guardrails now compiler = .ok plan

/-- The last step of a compiled plan gives the machine back. -/
theorem CompiledFor.release {plan : Plan} {target : String} (h : CompiledFor plan target)
    {steps : List Step} {last : Step} (hsplit : plan.steps = steps ++ [last]) :
    last.primitive = "release_target" ∧ last.args.lookup "target" = some (.str target) := by
  obtain ⟨B, suite, jobId, guardrails, now, compiler, hcompiled⟩ := h
  obtain ⟨_, _, inner, _, -, -, hclosing⟩ := compileSuite_ok hcompiled
  rw [hsplit, closing, addStep] at hclosing
  obtain ⟨-, hlast⟩ := List.append_inj' hclosing rfl
  obtain rfl := List.singleton_inj.mp hlast
  refine ⟨rfl, ?_⟩
  show (withTarget target []).lookup "target" = _
  rw [lookup_withTarget]
  rfl

/-! ## The executor behind its service -/

/-- The validation-executor as the kernel reaches it: whether its process was started
    anew before a request, how many effects it lives for, and whether its answer is
    lost on the way. -/
structure BenchService (Snap : Type) where
  executor : ValidationExecutor Snap
  restarts : Nat → Bool := fun _ => false
  lives : Nat → Nat
  lost : Nat → Bool := fun _ => false

namespace BenchService

variable {Snap : Type} (S : BenchService Snap)

/-- The requests are the kernel's, one after the other. -/
def alone : ValidationExecutor Snap := { S.executor with meanwhile := fun _ => [] }

def request (n : Nat) (call : Step × ExecutionContext) : Request Snap × Nat :=
  ({ executor := S.alone, step := call.1, context := call.2, restarted := S.restarts n }, S.lives n)

/-- The world of the executor after the calls. -/
def bench (history : CallHistory) : Bench Snap :=
  session Request.prog {} (history.zipIdx.map fun c => S.request c.2 c.1)

def unanswered : String := "The validation-executor did not answer."

/-- What the kernel gets for the next call. -/
def answer (history : CallHistory) (step : Step) (context : ExecutionContext) :
    Except String Observation :=
  if S.lost history.length then .error unanswered
  else match S.alone.execute step context ((S.bench history).begin (S.restarts history.length))
      (S.lives history.length) with
    | .ok o _ _ => .ok o
    | .raised e _ _ => .error e
    | .died _ => .error unanswered

/-- The ticket has a lease of the machine that is good at `now`. -/
def holds (now : DateTime) (history : CallHistory) (i m : String) : Prop :=
  ∃ lease, (S.bench history).leases m = some lease ∧ lease.ticketId = i ∧ now < lease.until_

variable {S} {history : CallHistory} {step : Step} {context : ExecutionContext}

theorem bench_append (call : Step × ExecutionContext) :
    S.bench (history ++ [call]) =
      after Request.prog (S.bench history) (S.request history.length call) := by
  simp [bench, session_append, List.zipIdx_append]

/-- The leases of other tickets were there before. -/
def OthersKept (w₀ : Bench Snap) (ticketId : String) (w : Bench Snap) : Prop :=
  ∀ m lease, w.leases m = some lease → lease.ticketId ≠ ticketId → w₀.leases m = some lease

theorem othersKept_survives (w₀ : Bench Snap) (ticketId : String) (c : CycleCall) :
    SurvivesCycle S.alone c (OthersKept w₀ ticketId) :=
  { called := fun _ h => h, tick := fun _ h => h, touch := fun _ _ h => h
    baselines := fun _ _ h => h, editJournal := fun _ _ h => h, log := fun _ _ h => h
    note := fun _ _ h => h, states := fun _ _ h => h, runs := fun _ _ h => h }

open Preserves in
/-- A step gives leases to its own ticket only. -/
theorem execute_othersKept (w₀ : Bench Snap) (step : Step) (context : ExecutionContext) :
    Preserves (OthersKept w₀ context.ticketId) (S.alone.execute step context) := by
  unfold ValidationExecutor.execute
  split
  · exact raise _
  · split
    · exact raise _
    · rename_i spec _ _ target _
      by_cases hlease : step.primitive = "lease_target"
      · simp only [ValidationExecutor.handle, hlease]
        refine bind (quiet fun _ h => h) fun now => bind (effect fun w h => ?_) fun _ => ?_
        · split
          · rename_i lease items hacquire
            obtain ⟨-, -, hid, rfl⟩ := LeaseTable.acquire_ok hacquire
            intro m lease' hlease' hother
            by_cases hm : m = S.alone.str target
            · subst hm
              simp only [Function.update_self, Option.some.injEq] at hlease'
              exact absurd (hlease' ▸ hid) hother
            · simp only [Function.update_of_ne hm] at hlease'
              exact h m lease' hlease' hother
          · exact h
          · exact h
        · split <;> exact pure _
      · by_cases hrelease : step.primitive = "release_target"
        · simp only [ValidationExecutor.handle, hrelease]
          refine bind (effect fun w h => ?_) fun _ => pure _
          split
          · rename_i items hreleased
            exact fun m lease hlease' hother =>
              h m lease (LeaseTable.release_back (by rw [hreleased]; exact hlease')) hother
          · exact h
        · by_cases hcycle : step.primitive = "power_cycle"
          · simp only [ValidationExecutor.handle, hcycle]
            exact SurvivesCycle.powerCycle fun c _ _ => othersKept_survives w₀ _ c
          · have hsurvives := othersKept_survives (S := S) w₀ context.ticketId
              ⟨context.ticketId, S.alone.str target, 0, "", 0⟩
            exact hsurvives.toSurvives.handle spec hlease hrelease hcycle

theorem leases_begin (restarted : Bool) (w : Bench Snap) : (w.begin restarted).leases = w.leases := by
  unfold Bench.begin
  split <;> rfl

/-- The leases after a request are those that its step left. -/
theorem leases_request (r : Request Snap × Nat) (w : Bench Snap) :
    (after Request.prog w r).leases =
      (r.1.executor.execute r.1.step r.1.context (w.begin r.1.restarted) r.2).world.leases := by
  simp only [after, Request.prog, bind, Prog.quiet, Prog.attempt]
  cases r.1.executor.execute r.1.step r.1.context (w.begin r.1.restarted) r.2 <;> rfl

theorem holds_other {now : DateTime} {i m : String}
    (h : S.holds now (history ++ [(step, context)]) i m) (hi : i ≠ context.ticketId) :
    S.holds now history i m := by
  obtain ⟨lease, hlease, rfl, hlive⟩ := h
  rw [bench_append, leases_request] at hlease
  have hkept := (execute_othersKept (S := S) (S.bench history) step context).world_sat
    (w := (S.bench history).begin (S.restarts history.length))
    (by rw [OthersKept, leases_begin]; exact fun _ _ h _ => h) (S.lives history.length)
  exact ⟨lease, hkept m lease hlease hi, rfl, hlive⟩

/-- A release that was answered leaves its ticket no lease of the target. -/
theorem execute_released (X : ValidationExecutor Snap) (context : ExecutionContext) {m : String}
    (hprimitive : step.primitive = "release_target")
    (htarget : (step.args.lookup "target").map X.str = some m) :
    Triple (fun _ => True) (X.execute step context)
      (fun _ w => ∀ lease, w.leases m = some lease → lease.ticketId ≠ context.ticketId)
      (fun _ => True) := by
  obtain ⟨target, hlookup, rfl⟩ := Option.map_eq_some_iff.mp htarget
  unfold ValidationExecutor.execute
  split
  · exact Triple.raise fun _ _ => trivial
  · rw [hlookup]
    simp only [ValidationExecutor.handle, hprimitive]
    refine Triple.bind (M := fun _ w => ∀ lease, w.leases (X.str target) = some lease →
      lease.ticketId ≠ context.ticketId) ?_ fun _ => Triple.pure fun _ h => h
    refine Triple.effect (fun _ _ => trivial) (fun w a w' _ hf => ?_) fun _ _ _ _ _ => trivial
    split at hf
    · rename_i items hreleased
      obtain ⟨-, rfl⟩ := Prod.mk.inj hf
      obtain ⟨lease, -, -, rfl⟩ := LeaseTable.release_some hreleased
      intro lease' hlease'
      simp at hlease'
    · rename_i hkept
      obtain ⟨-, rfl⟩ := Prod.mk.inj hf
      intro lease hlease hown
      simp [LeaseTable.release, hlease, hown] at hkept

theorem answer_released {now : DateTime} {o : Observation} {m : String}
    (hprimitive : step.primitive = "release_target")
    (htarget : (step.args.lookup "target").map S.executor.str = some m)
    (ho : S.answer history step context = .ok o) :
    ¬ S.holds now (history ++ [(step, context)]) context.ticketId m := by
  rintro ⟨lease, hlease, hown, -⟩
  rw [bench_append, leases_request] at hlease
  have hsat := execute_released S.alone context hprimitive htarget
    ((S.bench history).begin (S.restarts history.length)) (S.lives history.length) trivial
  unfold answer at ho
  split at ho
  · cases ho
  · split at ho
    · rename_i o' w n hrun
      rw [hrun] at hsat
      simp only [request, hrun] at hlease
      exact hsat lease hlease hown
    · cases ho
    · cases ho

/-- The service as the lessor of the machines of compiled plans. -/
def lessor (S : BenchService Snap) (hstr : ∀ s, S.executor.str (.str s) = s) (now : DateTime) :
    Lessor where
  answer := S.answer
  holds := S.holds now
  machine := CompiledFor
  none_held i m := by
    rintro ⟨lease, hlease, -⟩
    cases hlease
  own _ _ _ _ _ h hi := holds_other h hi
  returned history plan m steps last context o hplan hsplit ho := by
    obtain ⟨hprimitive, htarget⟩ := hplan.release hsplit
    exact answer_released hprimitive (by rw [htarget, Option.map_some, hstr]) ho

end BenchService

/-! ## Runs that are over -/

/-- The kernel of a Validation run: the Validation agent, with the executor behind its
    service. -/
def BenchService.Runs {Snap : Type} (S : BenchService Snap) (K : Kernel) : Prop :=
  K.executor = S.answer ∧ ∃ V : ValidationAgent, K.agent = V.agent

/-- **A finished run holds nothing**: in every session of Validation kernels, whatever
    the executor does and wherever processes die, a ticket that a call returns finished
    or in Needs review has no lease of its machine that is good at `now`, when each step
    answered as failed left its ticket none and none was resumed that had a failed step
    and a lease. -/
theorem finished_run_holds_nothing {Snap : Type} (S : BenchService Snap)
    (hstr : ∀ s, S.executor.str (.str s) = s) (now : DateTime) (cs : List (KernelCall × Nat))
    (c : KernelCall × Nat) (hruns : ∀ x ∈ cs ++ [c], S.Runs x.1.kernel)
    (hfails : (S.lessor hstr now).FailsFree ValidationAgent.verify
      (session KernelCall.prog {} (cs ++ [c])).calls)
    (hresumes : Starts KernelCall.prog (S.lessor hstr now).ResumesFree {} (cs ++ [c])) (t : Ticket)
    (hret : (c.1.prog (session KernelCall.prog {} cs) c.2).value? = some t)
    (hstate : t.finished = true ∨ t.state = .needsReview) (m : String)
    (hplan : ∀ plan, t.plan = some plan → CompiledFor plan m) (lease : Lease)
    (hlease : (S.bench (historyOf (session KernelCall.prog {} (cs ++ [c])).calls)).leases m =
      some lease) (hown : lease.ticketId = t.id) :
    lease.until_ ≤ now := by
  have hserves : ∀ x ∈ cs ++ [c],
      (S.lessor hstr now).Serves ValidationAgent.verify x.1.kernel := by
    intro x hx
    obtain ⟨hexecutor, V, hagent⟩ := hruns x hx
    exact ⟨hexecutor, by rw [hagent]; rfl⟩
  have hstill : t.state ≠ .running := by
    rintro hrunning
    rcases hstate with hfinished | hreview
    · rw [Ticket.finished, hrunning] at hfinished
      cases hfinished
    · rw [hreview] at hrunning
      cases hrunning
  have hfree := Lessor.returned_free hserves hresumes hfails hret hstill
  by_contra hlive
  exact hfree m hplan ⟨lease, hlease, hown, Nat.lt_of_not_le hlive⟩

/-! ### A burn-in on a leased machine -/

/-- A suite of one line: burn the machine in. -/
def burnSuite : Suite :=
  { title := "Burn in the board"
    items := [{ n := 1, title := "burn all", action := "burn", n_pos := Nat.one_pos, title_ne := by decide
                title_le := by decide, action_ne := by decide, cycles_pos := Nat.one_pos }]
    title_ne := by decide, nonempty := by simp, capped := by simp }

def burnAgent : ValidationAgent where
  builtins := plainBuiltins
  now := 0
  suites _ := some burnSuite
  targets _ := some "m-1"
  ingest _ := .ok { demoJob with agent := .validation }

/-- The stress tool ends with the exit code. -/
def burnService (exitCode : Int) : BenchService Unit where
  executor := { steadyExecutor with hal := { steadyHal with ssh := fun _ _ _ _ => .ok { exitCode } } }
  lives _ := 100

def burnKernel (exitCode : Int) : Kernel :=
  { demoKernel burnInPlan fun _ => {} with
    agent := burnAgent.agent, executor := (burnService exitCode).answer }

def burnRun (exitCode : Int) : KernelCall × Nat := (⟨burnKernel exitCode, .run demoRaw⟩, 100)

def burnPlan : Except CompileError Plan :=
  compileSuite plainBuiltins burnSuite "J-1" "m-1" defaultGuardrails 0 none

/-- JSON values are the same when their texts are. -/
theorem Json.eq_iff_dump {a b : Json} : a = b ↔ Json.dump a = Json.dump b :=
  ⟨congrArg _, fun h => Option.some.inj (by rw [← Json.loads_dump, h, Json.loads_dump])⟩

instance : DecidableEq Json := fun _ _ => decidable_of_iff' _ Json.eq_iff_dump

theorem Step.eq_iff {a b : Step} : a = b ↔ a.id = b.id ∧ a.n = b.n ∧ a.primitive = b.primitive ∧
    a.title = b.title ∧ a.args = b.args ∧ a.risk = b.risk ∧ a.when = b.when := by
  cases a
  cases b
  simp

instance : DecidableEq Step := fun _ _ => decidable_of_iff' _ Step.eq_iff

theorem Plan.eq_iff {a b : Plan} : a = b ↔ a.id = b.id ∧ a.jobId = b.jobId ∧
    a.summary = b.summary ∧ a.steps = b.steps ∧ a.createdAt = b.createdAt := by
  cases a
  cases b
  simp

instance : DecidableEq Plan := fun _ _ => decidable_of_iff' _ Plan.eq_iff

/-- The run returns a ticket with the compiled plan. -/
theorem burnRun_compiled (exitCode : Int) {t : Ticket}
    (h : (((burnRun exitCode).1.prog {} 100).value?.bind (·.plan)) = burnPlan.toOption)
    (hsome : burnPlan.isOk = true) (ht : ((burnRun exitCode).1.prog {} 100).value? = some t) :
    ∃ plan, t.plan = some plan ∧ CompiledFor plan "m-1" := by
  rw [ht, Option.bind_some] at h
  rcases hburn : burnPlan with e | plan
  · rw [hburn] at hsome
    cases hsome
  · rw [hburn] at h
    exact ⟨plan, h, plainBuiltins, burnSuite, "J-1", defaultGuardrails, 0, none, hburn⟩

/-- The machine is still leased when the burn-in has failed and the run is over. -/
theorem failed_burn_in_holds :
    ∃ t plan lease, ((burnRun 1).1.prog {} 100).value? = some t ∧ t.state = .needsReview ∧
      t.plan = some plan ∧ CompiledFor plan "m-1" ∧
      ((burnService 1).bench (historyOf (session KernelCall.prog {} [burnRun 1]).calls)).leases "m-1" =
        some lease ∧ lease.ticketId = t.id ∧ ¬ lease.until_ ≤ hours 1 := by
  -- one evaluation of the run: what it returns, the plan it ran and the lease it leaves
  obtain ⟨hreturned, hplan, hok, hlease⟩ :
      ((burnRun 1).1.prog {} 100).value?.map (fun t => (t.id, t.state)) =
          some ("T-validation-0001", .needsReview) ∧
        ((burnRun 1).1.prog {} 100).value?.bind (·.plan) = burnPlan.toOption ∧
        burnPlan.isOk = true ∧
        (((burnService 1).bench (historyOf
          (session KernelCall.prog {} [burnRun 1]).calls)).leases "m-1").map
            (fun lease => (lease.ticketId, lease.until_)) = some ("T-validation-0001", hours 72) := by
    decide +kernel
  obtain ⟨t, ht, hfields⟩ := Option.map_eq_some_iff.mp hreturned
  obtain ⟨lease, hheld, hgood⟩ := Option.map_eq_some_iff.mp hlease
  obtain ⟨hid, hstate⟩ := Prod.mk.inj hfields
  obtain ⟨hown, huntil⟩ := Prod.mk.inj hgood
  obtain ⟨plan, hsome, hcompiled⟩ := burnRun_compiled 1 hplan hok ht
  exact ⟨t, plan, lease, ht, hstate, hsome, hcompiled, hheld, hown.trans hid.symm, by
    rw [huntil]
    decide⟩

/-- Each call was answered, if at all, with an observation that `verify` judges ok. -/
def AllPassed (verify : Step → Observation → StepVerdict)
    (answer : CallHistory → Step → ExecutionContext → Except String Observation)
    (calls : List ExecCall) : Prop :=
  ∀ n < calls.length, ∀ c ∈ calls[n]?,
    ((answer (historyOf (calls.take n)) c.step c.context).toOption.all fun o =>
      decide ((verify c.step o).outcome = .ok)) = true

instance {verify : Step → Observation → StepVerdict}
    {answer : CallHistory → Step → ExecutionContext → Except String Observation}
    {calls : List ExecCall} : Decidable (AllPassed verify answer calls) :=
  inferInstanceAs (Decidable (∀ n < calls.length, ∀ c ∈ calls[n]?, _ = true))

theorem AllPassed.always {verify : Step → Observation → StepVerdict}
    {answer : CallHistory → Step → ExecutionContext → Except String Observation}
    {calls : List ExecCall} (h : AllPassed verify answer calls)
    {φ : List ExecCall → ExecCall → Prop} :
    Trace.Always (fun before c => ∀ o, answer (historyOf before) c.step c.context = .ok o →
      (verify c.step o).outcome ≠ .ok → φ before c) calls := by
  rintro pre c post rfl o ho hbad
  have hpassed := h pre.length (by simp) c (by simp)
  rw [List.take_left' rfl, ho] at hpassed
  simp [Except.toOption, hbad] at hpassed

theorem passed_burn_in_holds_nothing :
    ∃ t, ((burnRun 0).1.prog {} 100).value? = some t ∧ t.state = .done ∧
      ∀ lease, ((burnService 0).bench
          (historyOf (session KernelCall.prog {} [burnRun 0]).calls)).leases "m-1" = some lease →
        lease.ticketId = t.id → lease.until_ ≤ hours 1 := by
  obtain ⟨hreturned, hplan, hok, hpassed⟩ :
      ((burnRun 0).1.prog {} 100).value?.map (·.state) = some .done ∧
        ((burnRun 0).1.prog {} 100).value?.bind (·.plan) = burnPlan.toOption ∧
        burnPlan.isOk = true ∧
        AllPassed ValidationAgent.verify (burnService 0).answer
          (session KernelCall.prog {} [burnRun 0]).calls := by
    decide +kernel
  obtain ⟨t, ht, hstate⟩ := Option.map_eq_some_iff.mp hreturned
  obtain ⟨plan, hsome, hcompiled⟩ := burnRun_compiled 0 hplan hok ht
  have hrest := finished_run_holds_nothing (burnService 0) (fun _ => rfl) (hours 1) [] (burnRun 0)
  rw [List.nil_append, session_nil] at hrest
  refine ⟨t, ht, hstate, fun lease => hrest ?_ ?_ ?_ t ht (.inl ?_) "m-1" (fun plan' hplan' => ?_) lease⟩
  · intro x hx
    obtain rfl := List.mem_singleton.mp hx
    exact ⟨rfl, burnAgent, rfl⟩
  · exact hpassed.always
  · exact ⟨fun i hi => (by cases hi), trivial⟩
  · rw [Ticket.finished, hstate]
    rfl
  · rw [hsome, Option.some.injEq] at hplan'
    exact hplan' ▸ hcompiled

end Slas
