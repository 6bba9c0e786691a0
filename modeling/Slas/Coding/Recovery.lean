/-
  Slas.Coding.Recovery

  A coding task that is resumed in a new process (`CodingExecutor` under `Kernel.resume`).

  The journal says which steps are done; the sandbox session and the commit that the diff is
  taken against are in the memory of the process that opened the sandbox.  A new process
  starts with an empty memory, and `sandbox_open` is not performed again once it is
  observed, so `recovered_iff`: the run goes on against the same session and the same base
  exactly if there is no step to go on with.
-/

import Slas.Coding.StartTask
import Slas.Coding.Executor
import Slas.Kernel.NextStep
import Slas.Kernel.StepOrder
import Slas.Kernel.Approvals

namespace Slas

open Crash

namespace Coding

/-! ## Processes -/

/-- A process of the service: how many calls came before its start, and what it finds
    outside. -/
structure Process (E : Type) where
  boot : Nat
  env : E

/-- What an executor is told of the calls. -/
def history (calls : List ExecCall) : List (Step × ExecutionContext) :=
  calls.map fun c => (c.step, c.context)

namespace CodingExecutor

variable {E : Type} (X : CodingExecutor E) (P : Process E)

/-- What one call leaves. -/
def perform (s : Memory × E) (c : Step × ExecutionContext) : Memory × E := (X.execute c.1 c.2 s).2

/-- The memory of the process, and what is outside, after its calls. -/
def stateAfter (calls : List (Step × ExecutionContext)) : Memory × E :=
  (calls.drop P.boot).foldl X.perform ({}, P.env)

/-- The executor of a kernel of this process. -/
def answer (calls : List (Step × ExecutionContext)) (step : Step) (context : ExecutionContext) :
    Except String Observation := (X.execute step context (X.stateAfter P calls)).1

/-- The kernel, in this process. -/
def kernelIn (K : Kernel) : Kernel := { K with executor := X.answer P }

/-- What the process remembers after these calls. -/
def remembered (calls : List ExecCall) : Memory := (X.stateAfter P (history calls)).1

/-- The next call is against the session and the base of the ticket in `m`. -/
def Against (calls : List ExecCall) (i : String) (m : Memory) : Prop :=
  (X.remembered P calls).sessions i = m.sessions i ∧ (X.remembered P calls).base i = m.base i

/-- `resume` goes on as the run that remembers `m` would have: it performs the step that is
    next, and whatever it performs is against the same session and the same base. -/
def Recovered (K : Kernel) (w : World) (i : String) (m : Memory) : Prop :=
  (∀ s, nextStep w i = some s → ∃ n before c later,
    (after KernelCall.prog w (⟨X.kernelIn P K, .resume i⟩, n)).calls = before ++ c :: later ∧
      w.calls.length ≤ before.length ∧ c.step = s) ∧
  ∀ n before c later,
    (after KernelCall.prog w (⟨X.kernelIn P K, .resume i⟩, n)).calls = before ++ c :: later →
      w.calls.length ≤ before.length → X.Against P before i m

variable {X : CodingExecutor E} {P : Process E} {i : String}

/-- Calls that open no sandbox for the ticket leave its session and its base. -/
theorem foldl_perform {calls : List (Step × ExecutionContext)} (s : Memory × E)
    (h : ∀ c ∈ calls, c.1.primitive ≠ "sandbox_open" ∨ c.2.ticketId ≠ i) :
    (calls.foldl X.perform s).1.sessions i = s.1.sessions i ∧
      (calls.foldl X.perform s).1.base i = s.1.base i := by
  induction calls generalizing s with
  | nil => exact ⟨rfl, rfl⟩
  | cons c calls ih =>
    obtain ⟨hsession, hbase⟩ := ih (X.perform s c) fun c' hc' => h c' (List.mem_cons_of_mem _ hc')
    obtain ⟨hfirst, hfirst'⟩ := execute_keeps (X := X) (h c List.mem_cons_self) s
    exact ⟨hsession.trans hfirst, hbase.trans hfirst'⟩

end CodingExecutor

/-! ## After the sandbox -/

/-- A plan of a coding task, by what the journal and the executor tell its steps apart by:
    the toolchain and the sandbox first, and then what works in the session. -/
def CodingPlan (plan : Plan) : Prop :=
  ["toolchain", "sandbox"] <+: plan.steps.map (·.id) ∧
    ∀ s ∈ plan.steps, s.id ≠ "toolchain" → s.id ≠ "sandbox" →
      s.primitive ∈ CodingExecutor.SESSION_PRIMITIVES

instance : DecidablePred CodingPlan := fun _ => inferInstanceAs (Decidable (_ ∧ _))

/-- Whatever the breakdown, the plan of the Coding Agent is one. -/
theorem planOf_codingPlan {F : TextFunctions} {T : Toolchain} {b : Breakdown} {job : Job}
    {now : DateTime} {plan : Plan} (h : planOf F T b job now = .ok plan) : CodingPlan plan := by
  obtain ⟨resolutions, primary, slug, hsteps⟩ := planOf_shape h
  unfold CodingPlan
  rw [hsteps]
  refine ⟨⟨(workSteps b resolutions slug).map (·.id), rfl⟩, fun s hs htoolchain hsandbox => ?_⟩
  rcases List.mem_cons.mp hs with rfl | hs
  · exact absurd rfl htoolchain
  rcases List.mem_cons.mp hs with rfl | hs
  · exact absurd rfl hsandbox
  rw [workSteps, List.mem_append, List.mem_append] at hs
  rcases hs with (hs | hs) | hs
  · obtain ⟨task, -, rfl⟩ := List.mem_map.mp hs
    exact List.mem_cons_self
  · rcases List.mem_pair.mp hs with rfl | rfl
    · simp [commitStep, CodingExecutor.SESSION_PRIMITIVES]
    · simp [exportStep, CodingExecutor.SESSION_PRIMITIVES]
  · split at hs
    · obtain rfl := List.mem_singleton.mp hs
      simp [crossCheckStep, CodingExecutor.SESSION_PRIMITIVES]
    · cases hs

/-- The ticket has its plan, its sandbox is observed, and after the calls `cs` its calls were
    of steps that work in the session. -/
structure Working (plan : Plan) (i : String) (cs : List ExecCall) (w : World) : Prop where
  planned : ∃ t, w.tickets i = some t ∧ t.plan = some plan
  toolchain : "toolchain" ∈ observed (w.journals i)
  sandbox : "sandbox" ∈ observed (w.journals i)
  calls : ∃ later, w.calls = cs ++ later ∧ ∀ c ∈ later, c.context.ticketId = i →
    c.step.primitive ∈ CodingExecutor.SESSION_PRIMITIVES

variable {plan : Plan} {i : String} {cs : List ExecCall} {w w' : World}

theorem Working.grow (h : Working plan i cs w) (hg : Grows w w')
    (ht : ∃ t, w'.tickets i = some t ∧ t.plan = some plan) (hc : w'.calls = w.calls) :
    Working plan i cs w' := by
  have hobserved : ∀ s ∈ observed (w.journals i), s ∈ observed (w'.journals i) := by
    intro s hs
    obtain ⟨e, he, hrest⟩ := mem_observed.mp hs
    exact mem_observed.mpr ⟨e, hg.journals i he, hrest⟩
  exact ⟨ht, hobserved _ h.toolchain, hobserved _ h.sandbox, hc ▸ h.calls⟩

theorem Working.saveTicket (h : Working plan i cs w) {t : Ticket}
    (ht : t.id = i → t.plan = some plan) : Working plan i cs (w.saveTicket t) := by
  refine h.grow (grows_saveTicket w t) ?_ rfl
  rw [World.tickets_saveTicket]
  split
  · exact ⟨t, rfl, ht (‹i = t.id›).symm⟩
  · exact h.planned

theorem Working.move {K : Kernel} {P : Promise} (hplan : CodingPlan plan) (hm : Move K P w w')
    (h : Working plan i cs w) : Working plan i cs w' := by
  obtain ⟨t, ht, htplan⟩ := h.planned
  cases hm with
  | create t' _ hunused =>
    refine h.saveTicket fun hi => ?_
    rw [hi, ht] at hunused
    cases hunused
  | save T t' hT hs =>
    refine h.saveTicket fun hi => ?_
    obtain rfl : T = t := by
      rw [hi, ht] at hT
      exact (Option.some.inj hT).symm
    rcases hs.plan_eq with heq | hnone
    · exact heq.trans htplan
    · rw [htplan] at hnone
      cases hnone
  | track child f j hspawn =>
    have hsaved : Working plan i cs (w.saveTicket child) := by
      refine h.saveTicket fun hi => ?_
      have hunused := hspawn.unused
      rw [hi, ht] at hunused
      cases hunused
    exact hsaved.grow (grows_recordBug _ _ _ _) hsaved.planned rfl
  | execute j step context hj hturn hintent =>
    obtain ⟨later, hcalls, hlater⟩ := h.calls
    refine ⟨h.planned, h.toolchain, h.sandbox, later ++ [w.call step context],
      by rw [World.calls_logCall, hcalls, List.append_assoc], fun c hc hi => ?_⟩
    rcases List.mem_append.mp hc with hc | hc
    · exact hlater c hc hi
    · obtain rfl := List.mem_singleton.mp hc
      obtain rfl : j = i := hj.symm.trans hi
      obtain ⟨T, plan', before, rest, hT, -, hplan', hsplit, -⟩ := hturn.due
      obtain rfl : T = t := Option.some.inj (hT.symm.trans ht)
      obtain rfl : plan' = plan := Option.some.inj (hplan'.symm.trans htplan)
      have hmem : step ∈ plan'.steps := by simp [hsplit]
      refine hplan.2 step hmem (fun hid => hturn.fresh ?_) fun hid => hturn.fresh ?_
      · exact hid ▸ h.toolchain
      · exact hid ▸ h.sandbox
  | tick => exact ⟨h.planned, h.toolchain, h.sandbox, h.calls⟩
  | file => exact ⟨h.planned, h.toolchain, h.sandbox, h.calls⟩
  | allocate => exact ⟨h.planned, h.toolchain, h.sandbox, h.calls⟩
  | seen => exact ⟨h.planned, h.toolchain, h.sandbox, h.calls⟩
  | jot j e => exact h.grow (grows_appendEntry w j e) h.planned rfl
  | intent j e => exact h.grow (grows_appendEntry w j e) h.planned rfl
  | observe j e => exact h.grow (grows_appendEntry w j e) h.planned rfl

theorem Working.orphan (ht : Orphan w w') (h : Working plan i cs w) :
    Working plan i cs w' := by
  cases ht with
  | orphan child f hspawn =>
    obtain ⟨t, ht, -⟩ := h.planned
    refine h.saveTicket fun hi => ?_
    have hunused := hspawn.unused
    rw [hi, ht] at hunused
    cases hunused

/-- Whatever is called next, at whatever write it dies. -/
theorem Working.after_call (hplan : CodingPlan plan) (hw : Sound w) (h : Working plan i cs w)
    (c : KernelCall × Nat) :
    Sound (after KernelCall.prog w c) ∧ Working plan i cs (after KernelCall.prog w c) := by
  have hkept : Promise.Kept ⟨False, False⟩ c.1 w := fun _ _ _ _ => ⟨False.elim, False.elim⟩
  refine (call_leaves c.1 ⟨False, False⟩ hw hkept c.2).invariant
    (I := fun w => Sound w ∧ Working plan i cs w) ?_ (fun _ h => h) ?_ ⟨hw, h⟩
  · rintro w w' hm ⟨hs, hi⟩
    exact ⟨Move.sound hm hs, hi.move hplan hm⟩
  · rintro w w' ht ⟨hs, hi⟩
    exact ⟨Orphan.sound ht hs, hi.orphan ht⟩

theorem Working.after_session (hplan : CodingPlan plan) (hw : Sound w) (h : Working plan i cs w)
    (ds : List (KernelCall × Nat)) :
    Sound (session KernelCall.prog w ds) ∧
      Working plan i cs (session KernelCall.prog w ds) :=
  session_invariant (I := fun w => Sound w ∧ Working plan i cs w)
    (fun c _ _ hI => hI.2.after_call hplan hI.1 c) (Starts.trivial w ds) ⟨hw, h⟩

/-- A crash after the observation of the sandbox leaves a working ticket. -/
theorem Working.of_opened {ds : List (KernelCall × Nat)} {t : Ticket}
    (hplan : CodingPlan plan)
    (ht : (session KernelCall.prog {} ds).tickets i = some t) (htplan : t.plan = some plan)
    (hopened : "sandbox" ∈ observed ((session KernelCall.prog {} ds).journals i)) :
    Working plan i (session KernelCall.prog {} ds).calls
      (session KernelCall.prog {} ds) := by
  refine ⟨⟨t, ht, htplan⟩, ?_, hopened, [], by simp, by simp⟩
  have hbegins := (session_ordered ds).planned i t plan ht htplan
  obtain ⟨rest, hids⟩ := hplan.1
  rw [← hids] at hbegins
  cases hobserved : observed ((session KernelCall.prog {} ds).journals i) with
  | nil =>
    rw [hobserved] at hopened
    cases hopened
  | cons first others =>
    rw [hobserved] at hbegins
    rw [(List.cons_prefix_cons.mp hbegins).1]
    exact List.mem_cons_self

/-! ## A new process -/

namespace CodingExecutor

variable {E : Type} {X : CodingExecutor E} {P : Process E} {calls : List ExecCall}

theorem working_not_open {c : ExecCall}
    (h : c.context.ticketId = i → c.step.primitive ∈ SESSION_PRIMITIVES) :
    c.step.primitive ≠ "sandbox_open" ∨ c.context.ticketId ≠ i := by
  by_cases hi : c.context.ticketId = i
  · refine Or.inl fun heq => ?_
    have hmem := h hi
    rw [heq] at hmem
    exact absurd hmem (by decide)
  · exact Or.inr hi

theorem history_drop (n : Nat) : (history calls).drop n = history (calls.drop n) :=
  List.map_drop.symm

/-- A process that was started after the sandbox was observed has no session. -/
theorem remembered_sessions (h : ∀ c ∈ calls.drop P.boot, c.context.ticketId = i →
    c.step.primitive ∈ SESSION_PRIMITIVES) : (X.remembered P calls).sessions i = none := by
  unfold remembered stateAfter
  rw [history_drop]
  refine (foldl_perform _ fun c hc => ?_).1
  obtain ⟨call, hcall, rfl⟩ := List.mem_map.mp hc
  exact working_not_open (h call hcall)

end CodingExecutor

open CodingExecutor

variable {E : Type} {t : Ticket}

section NewProcess

variable (X : CodingExecutor E) (P' : Process E) (cs ds : List (KernelCall × Nat))

/-- **Recovery**: after a crash with the sandbox observed, and whatever the new process did
    since, `resume` goes on against the session and the base that the crashed process held
    exactly if there is no step to go on with. -/
theorem recovered_iff (K : Kernel) (P : Process E) (hplan : CodingPlan plan)
    (ht : (session KernelCall.prog {} cs).tickets i = some t) (htplan : t.plan = some plan)
    (hopened : "sandbox" ∈ observed ((session KernelCall.prog {} cs).journals i))
    (hheld : (X.remembered P (session KernelCall.prog {} cs).calls).sessions i ≠ none)
    (hboot : P'.boot = (session KernelCall.prog {} cs).calls.length) :
    X.Recovered P' K (session KernelCall.prog {} (cs ++ ds)) i
        (X.remembered P (session KernelCall.prog {} cs).calls) ↔
      nextStep (session KernelCall.prog {} (cs ++ ds)) i = none := by
  have hw := session_sound cs
  have hworking := Working.of_opened hplan ht htplan hopened
  obtain ⟨hsound, hlater⟩ := hworking.after_session hplan hw ds
  rw [← session_append] at hsound hlater
  constructor
  · rintro ⟨hnext, hall⟩
    by_contra hsome
    obtain ⟨s, hs⟩ := Option.ne_none_iff_exists'.mp hsome
    obtain ⟨n, before, c, later, hcalls, hlength, -⟩ := hnext s hs
    have hsame := (hall n before c later hcalls hlength).1
    obtain ⟨more, hmore, hsession⟩ :=
      (hlater.after_call hplan hsound (⟨X.kernelIn P' K, .resume i⟩, n)).2.calls
    rw [remembered_sessions] at hsame
    · exact hheld hsame.symm
    · intro c' hc'
      refine hsession c' ?_
      -- the calls before this one are the old ones and then some of the new ones
      have hdrop : (before ++ c :: later).drop P'.boot = more := by
        rw [← hcalls, hmore, hboot, List.drop_left]
      rw [← hdrop, List.drop_append, List.mem_append]
      exact Or.inl hc'
  · intro hnone
    refine ⟨fun s hs => ?_, fun n before c later hcalls hlength => ?_⟩
    · rw [hnone] at hs
      cases hs
    rw [resume_quiet hsound hnone n] at hcalls
    have hlt := congrArg List.length hcalls
    rw [List.length_append, List.length_cons] at hlt
    omega

end NewProcess

/-! ### A tidying that is resumed after a crash -/

/-- A sandbox in which every check passes. -/
def localSandbox : Sandbox Unit where
  openSession user slug _ _ _ e :=
    (.ok { id := "sess-1", user, slug, runtimeSentence := "It runs in runc."
           specSentence := "It has no network." }, e)
  exec _ _ e := (.ok { exitCode := 0, stdout := "", stderr := "" }, e)
  projectDir user slug := "/data/users/" ++ user ++ "/projects/" ++ slug
  artifactsDir user id := "/data/users/" ++ user ++ "/artifacts/" ++ id
  initRepo _ _ e := (.ok (), e)
  headSha _ _ e := (.ok (some "9fceb02"), e)
  checkoutBranch _ _ branch e := (.ok branch, e)
  addAll _ _ e := (.ok (), e)
  hasChanges _ _ e := (.ok true, e)
  commit _ _ _ _ _ e := (.ok "1a2b3c4d5e6f", e)
  diff _ _ _ _ e := (.ok "", e)
  snapshot _ e := (.ok [], e)
  applyEdits _ _ e := (.ok [], e)
  zipProject _ out e := (.ok { kind := .zip, path := out }, e)
  proposeEdits _ e := (.ok {}, e)

def shellExecutor : CodingExecutor Unit where
  sandbox := localSandbox
  str value := match value with
    | .str s => s
    | _ => ""
  int _ := .ok 6
  dumps _ := ""
  sha256 _ := ""

/-- The process that starts the task. -/
def firstProcess : Process Unit := ⟨0, ()⟩

def tidyKernel : Kernel where
  dataRoot := "/srv/slas"
  agent :=
    { name := .coding
      ingest := fun _ => .ok { demoJob with agent := .coding }
      plan := fun job => planOf StartTask.plainFunctions { manifest := StartTask.shellManifest }
        (StartTask.tidyUp false) job 0
      verify := demoVerify }
  executor := shellExecutor.answer firstProcess
  clock n := n
  text := demoText
  renderSop _ _ := .ok { en := "", zh := "", data := "", translated := false }

/-- The process dies right after the observation of the sandbox is journalled. -/
def crashed : List (KernelCall × Nat) := [(⟨tidyKernel, .run demoRaw⟩, 18)]

/-- Started after the two calls that the first process made. -/
def secondProcess : Process Unit := ⟨2, ()⟩

/-- The task is resumed in the second process, which lives for its first call. -/
def resumedWorld : World := after KernelCall.prog
  (session KernelCall.prog {} crashed)
  (⟨shellExecutor.kernelIn secondProcess tidyKernel, .resume "T-coding-0001"⟩, 3)

theorem crashed_opened : ((session KernelCall.prog {} crashed).tickets "T-coding-0001").bind
      (fun t => t.plan.map fun plan => decide (CodingPlan plan)) = some true ∧
    "sandbox" ∈ observed ((session KernelCall.prog {} crashed).journals "T-coding-0001") ∧
    (session KernelCall.prog {} crashed).calls.length = 2 ∧
    (shellExecutor.remembered firstProcess (session KernelCall.prog {} crashed).calls).sessions
      "T-coding-0001" ≠ none ∧
    (nextStep (session KernelCall.prog {} crashed) "T-coding-0001").map (·.id) = some "task-1" ∧
    resumedWorld.calls.length = 3 ∧
    (shellExecutor.remembered secondProcess (resumedWorld.calls.take 2)).sessions
      "T-coding-0001" = none := by
  decide +kernel

theorem recovered_after_crash :
    shellExecutor.Recovered secondProcess tidyKernel (session KernelCall.prog {} (crashed ++ []))
        "T-coding-0001"
        (shellExecutor.remembered firstProcess (session KernelCall.prog {} crashed).calls) ↔
      nextStep (session KernelCall.prog {} (crashed ++ [])) "T-coding-0001" = none := by
  obtain ⟨hstored, hopened, hcalls, hheld, -⟩ := crashed_opened
  obtain ⟨t, ht, hmap⟩ := Option.bind_eq_some_iff.mp hstored
  obtain ⟨plan, hplan, hcoding⟩ := Option.map_eq_some_iff.mp hmap
  have hboot : secondProcess.boot = (session KernelCall.prog {} crashed).calls.length := by
    rw [hcalls]
    rfl
  exact recovered_iff shellExecutor secondProcess crashed [] tidyKernel firstProcess
    (of_decide_eq_true hcoding) ht hplan hopened hheld hboot

theorem third_call {calls : List ExecCall} (h : calls.length = 3) :
    ∃ c, calls = calls.take 2 ++ [c] := by
  obtain ⟨a, b, c, rfl⟩ := List.length_eq_three.mp h
  exact ⟨c, rfl⟩

/-- The task is next, and the process that resumes it has no session for it. -/
theorem task_lost_after_crash :
    (nextStep (session KernelCall.prog {} crashed) "T-coding-0001").map (·.id) = some "task-1" ∧
      ¬ shellExecutor.Recovered secondProcess tidyKernel (session KernelCall.prog {} crashed)
        "T-coding-0001"
        (shellExecutor.remembered firstProcess (session KernelCall.prog {} crashed).calls) := by
  obtain ⟨-, -, hcalls, hheld, hnext, hthree, hnone⟩ := crashed_opened
  refine ⟨hnext, fun h => hheld ?_⟩
  obtain ⟨c, hc⟩ := third_call hthree
  have hlength : (session KernelCall.prog {} crashed).calls.length ≤
      (resumedWorld.calls.take 2).length := by
    simp [hcalls, hthree]
  have hsame := (h.2 3 (resumedWorld.calls.take 2) c [] hc hlength).1
  exact hsame.symm.trans hnone

end Coding

end Slas
