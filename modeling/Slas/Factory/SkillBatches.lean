/-
  Slas.Factory.SkillBatches

  Batches that carry a compiled skill: the executor makes them, the station runner puts
  the secrets in and runs the steps on the station's own screen and programs.

  The executor's batches carry no approvals, so a run comes to an answer exactly when it
  would with every approval there is and takes no destructive step (`handle_lawful_iff`).
  What ends it otherwise is no `BatchError`.
-/

import Slas.Factory.Evidence
import Slas.Factory.Runner
import Slas.Kernel.Approvals
import Slas.Skills.Answers
import Slas.Skills.Handles

namespace Slas

open Skills (Devices Escape RunState Resolved ScreenFailure ScreenResult SkillRunResult StepOutcome
  substitute)

/-! ## The secrets of a batch -/

/-- A step of the plan with the secrets in it, if it is marked. -/
def substituted (secretSteps : List String) (secrets : List (String × String)) (step : Step) :
    Step :=
  if step.id ∈ secretSteps then { step with args := substitute secrets step.args } else step

theorem substituted_eq (secretSteps : List String) (secrets : List (String × String))
    (step : Step) : ∃ args, substituted secretSteps secrets step = { step with args } := by
  unfold substituted
  split
  · exact ⟨_, rfl⟩
  · exact ⟨step.args, rfl⟩

theorem map_substituted {α : Type} {field : Step → α}
    (hfield : ∀ (step : Step) args, field { step with args } = field step)
    (secretSteps : List String) (secrets : List (String × String)) (steps : List Step) :
    (steps.map (substituted secretSteps secrets)).map field = steps.map field := by
  rw [List.map_map]
  refine List.map_congr_left fun step _ => ?_
  obtain ⟨args, hargs⟩ := substituted_eq secretSteps secrets step
  rw [Function.comp_apply, hargs, hfield]

/-- `_with_secrets` -/
def withSecrets (secrets : List (String × String)) (compiled : CompiledSkill) : CompiledSkill :=
  if secrets = [] then compiled
  else
    { compiled with
      plan :=
        { compiled.plan with
          steps := compiled.plan.steps.map (substituted compiled.secretSteps secrets)
          nonempty := by simpa using compiled.plan.nonempty
          capped := by simpa using compiled.plan.capped
          unique := by
            rw [map_substituted fun _ _ => rfl]
            exact compiled.plan.unique
          numbered := by
            rw [map_substituted fun _ _ => rfl, List.length_map]
            exact compiled.plan.numbered } }

/-! ## The station -/

/-- What a station performs skills with, beside its gate: the screen, the programs, the
    files of the screenshots and their retention. -/
structure SkillStation (σ : Type) where
  runner : StationRunner
  python : Python
  /-- `_screen_call` -/
  screenCall : Step → σ → Except ScreenFailure ScreenResult × σ
  failureShot : String → σ → Except String (Option String) × σ
  /-- `processes.run` -/
  processes : List String → Int → σ → Except String CommandResult × σ
  /-- `Screenshot`, of the file at a path: its name -/
  screenshot : String → σ → Except String String
  prune : σ → Except String Unit × σ

/-- How the handling of a batch ends without a result. -/
inductive BatchFailure where
  /-- `BatchError` -/
  | refused (message : ThreePartMessage)
  | escaped (e : Escape)

/-- What a delivery comes to: the memory of the runner, the run as far as it got, and the
    answer. -/
structure Handled (σ : Type) where
  state : StationRunner.State
  run : RunState σ
  answer : Except BatchFailure BatchResult

/-- Nothing was performed. -/
def idle {σ : Type} (w : σ) : RunState σ := { world := w, context := [] }

namespace SkillStation

variable {σ : Type} (S : SkillStation σ)

/-- `[str(a) for a in step.args.get("command", [])]` -/
def argv (args : List (String × Json)) : Except String (List String) :=
  match args.lookup "command" with
  | none => .ok []
  | some value => (Json.iterate value).map fun words => words.map S.python.str

/-- `int(step.args.get(key, default))` -/
def intArg (args : List (String × Json)) (key : String) (default : Int) : Except String Int :=
  match args.lookup key with
  | none => .ok default
  | some value => S.python.int value

/-- `StationLocalExecutor.execute` -/
def localExecute (step : Step) (w : σ) : Except String StepOutcome × σ :=
  if step.primitive ∈ ["run", "ssh"] then
    match S.argv step.args with
    | .error e => (.error e, w)
    | .ok argv =>
      if argv = [] ∨ argv.headD "" ∉ S.runner.allowedPrograms then
        (.ok { ok := false
               sentence := argv.headD "an empty command" ++
                 " is not on this station's allowlist; nothing was run."
               exitCode := some 126 }, w)
      else
        match S.intArg step.args "timeout_s" 600 with
        | .error e => (.error e, w)
        | .ok timeout =>
          match S.processes argv timeout w with
          | (.error e, w) => (.error e, w)
          | (.ok result, w) =>
            match S.intArg step.args "expect_exit" 0 with
            | .error e => (.error e, w)
            | .ok expected =>
              (.ok { ok := result.exitCode == expected
                     sentence := argv.headD "" ++ " exited " ++ toString result.exitCode ++ "."
                     exitCode := some result.exitCode
                     stdout := result.stdout
                     stderr := result.stderr }, w)
  else
    (.ok { ok := false
           sentence := step.primitive ++ " steps are not performed on a station."
           exitCode := some 126 }, w)

/-- What the steps act on; the pauses between them are none. -/
def devices : Devices σ where
  execute step _ w := S.localExecute step w
  screen := some S.screenCall
  failureShot := S.failureShot

/-- The result of a run with its screenshots, and the pruning after it. -/
def report (batch : StepBatch) (result : SkillRunResult) (run : RunState σ) :
    RunState σ × Except BatchFailure BatchResult :=
  match (result.steps.flatMap (·.screenshots)).mapM fun path => S.screenshot path run.world with
  | .error e => (run, .error (.escaped (.raised e)))
  | .ok screenshots =>
    match S.prune run.world with
    | (.error e, world) => ({ run with world }, .error (.escaped (.raised e)))
    | (.ok (), world) =>
      ({ run with world }, .ok
        { batchId := batch.batchId, kind := .skill, ok := result.status = .done
          sentence := result.sentence
          skill := some (result.steps.map fun step =>
            { n := step.n, title := step.title, sentence := step.sentence })
          screenshots })

/-- `_skill`, with these approvals. -/
def skill (approvals : List String) (batch : StepBatch) (w : σ) :
    RunState σ × Except BatchFailure BatchResult :=
  match batch.compiled with
  | none => (idle w, .error (.refused StationRunner.noCompiledSteps))
  | some compiled =>
    match Skills.run S.python S.devices (withSecrets batch.secrets compiled) approvals [] w with
    | (run, .error e) => (run, .error (.escaped e))
    | (run, .ok result) => S.report batch result run

/-- `handle` -/
def handle (st : StationRunner.State) (d : StationRunner.Delivery) (w : σ) : Handled σ :=
  let state := (S.runner.handle st d).1
  match verifyBatch S.runner.signing S.runner.keys S.runner.station d.2 st.seen d.1 with
  | .error message => { state, run := idle w, answer := .error (.refused message) }
  | .ok (batch, _) =>
    if batch.kind = .skill then
      let (run, answer) := S.skill batch.approvals batch w
      { state, run, answer }
    else { state, run := idle w, answer := (S.runner.perform batch).mapError .refused }

/-- The runner of `Slas.Factory.Runner` with what a run comes to in this world. -/
def asRunner (w : σ) : StationRunner :=
  { S.runner with
    runSkill := fun batch _ =>
      match (S.skill batch.approvals batch w).2 with
      | .ok result =>
        { status := if result.ok then "done" else "failed", sentence := result.sentence
          steps := result.skill.getD [], screenshots := result.screenshots }
      | .error _ => { status := "failed", sentence := "" } }

/-! ## Answers -/

variable {S} {compiled : CompiledSkill} {approvals : List String} {batch : StepBatch} {w : σ}

variable (S) in
theorem report_run (batch : StepBatch) (result : SkillRunResult) (run : RunState σ) :
    (S.report batch result run).1.turns = run.turns ∧
      (S.report batch result run).1.dispatched = run.dispatched ∧
      (S.report batch result run).1.runs = run.runs := by
  unfold report
  split
  · exact ⟨rfl, rfl, rfl⟩
  · split <;> exact ⟨rfl, rfl, rfl⟩

theorem report_not_refused {result : SkillRunResult} {run : RunState σ}
    {message : ThreePartMessage} :
    (S.report batch result run).2 ≠ .error (.refused message) := by
  unfold report
  split
  · simp
  · split <;> simp

theorem report_ok {result : SkillRunResult} {run : RunState σ} {answer : BatchResult}
    (h : (S.report batch result run).2 = .ok answer) :
    answer.ok = decide (result.status = .done) ∧ answer.batchId = batch.batchId ∧
      answer.kind = .skill ∧ answer.command = none ∧ answer.state = none ∧
      ∃ steps, answer.skill = some steps ∧ steps.map (·.n) = result.steps.map (·.n) := by
  unfold report at h
  split at h
  · cases h
  · split at h
    · cases h
    · cases h
      refine ⟨rfl, rfl, rfl, rfl, rfl, _, rfl, ?_⟩
      rw [List.map_map]
      rfl

theorem skill_eq (hcompiled : batch.compiled = some compiled) :
    S.skill approvals batch w =
      match Skills.run S.python S.devices (withSecrets batch.secrets compiled) approvals [] w with
      | (run, .error e) => (run, .error (.escaped e))
      | (run, .ok result) => S.report batch result run := by
  unfold skill
  rw [hcompiled]

/-- A batch with a plan is answered, or an exception escapes. -/
theorem skill_not_refused (hcompiled : batch.compiled = some compiled)
    {message : ThreePartMessage} :
    (S.skill approvals batch w).2 ≠ .error (.refused message) := by
  rw [skill_eq hcompiled]
  split
  · simp
  · exact report_not_refused

/-- What is answered to a skill batch. -/
theorem skill_answer {answer : BatchResult} (h : (S.skill approvals batch w).2 = .ok answer) :
    answer.batchId = batch.batchId ∧ answer.kind = .skill ∧ answer.command = none ∧
      answer.state = none ∧ ∃ steps, answer.skill = some steps := by
  unfold skill at h
  split at h
  · cases h
  · split at h
    · cases h
    · obtain ⟨-, hid, hkind, hcommand, hstate, steps, hsteps, -⟩ := report_ok h
      exact ⟨hid, hkind, hcommand, hstate, steps, hsteps⟩

/-- The abstract runner gives the same answer, as long as no exception escapes. -/
def Agrees (abstract : Except ThreePartMessage BatchResult) :
    Except BatchFailure BatchResult → Prop
  | .ok result => abstract = .ok result
  | .error (.refused message) => abstract = .error message
  | .error (.escaped _) => True

theorem perform_asRunner (hkind : batch.kind = .skill) :
    Agrees ((S.asRunner w).perform batch) (S.skill batch.approvals batch w).2 := by
  have hperform : (S.asRunner w).perform batch = (S.asRunner w).skill batch := by
    unfold StationRunner.perform
    rw [hkind]
  rw [hperform]
  unfold StationRunner.skill
  cases hcompiled : batch.compiled with
  | none =>
    unfold skill
    rw [hcompiled]
    rfl
  | some compiled =>
    cases hanswer : (S.skill batch.approvals batch w).2 with
    | error failure =>
      cases failure with
      | refused message => exact absurd hanswer (skill_not_refused hcompiled)
      | escaped e => trivial
    | ok result =>
      obtain ⟨hid, hkind', hcommand, hstate, steps, hsteps⟩ := skill_answer hanswer
      have hrun : (S.asRunner w).runSkill batch compiled =
          { status := if result.ok then "done" else "failed", sentence := result.sentence
            steps := result.skill.getD [], screenshots := result.screenshots } := by
        simp only [asRunner, hanswer]
      have hok : ((if result.ok = true then "done" else "failed") == "done") = result.ok := by
        cases result.ok <;> decide
      simp only [Agrees, hrun, hok, hsteps, Option.getD_some]
      rw [← hid, ← hkind', ← hcommand, ← hstate, ← hsteps]

/-- What a station answers is what the abstract runner of `Slas.Factory.Runner` answers. -/
theorem handle_asRunner (st : StationRunner.State) (d : StationRunner.Delivery) (w : σ) :
    Agrees ((S.asRunner w).handle st d).2 (S.handle st d w).answer := by
  have hsame : verifyBatch (S.asRunner w).signing (S.asRunner w).keys (S.asRunner w).station d.2
      st.seen d.1 =
      verifyBatch S.runner.signing S.runner.keys S.runner.station d.2 st.seen d.1 := rfl
  unfold handle StationRunner.handle
  rw [hsame]
  cases hverify : verifyBatch S.runner.signing S.runner.keys S.runner.station d.2 st.seen d.1 with
  | error message => rfl
  | ok passed =>
    obtain ⟨batch, seen⟩ := passed
    simp only
    split
    · rename_i hkind
      exact perform_asRunner hkind
    · rename_i hkind
      have hperform : (S.asRunner w).perform batch = S.runner.perform batch := by
        unfold StationRunner.perform
        split
        · rename_i hskill
          exact absurd hskill hkind
        · rfl
        · rfl
        · rfl
      rw [hperform]
      cases S.runner.perform batch <;> rfl

/-- The plan was performed, as far as the result says. -/
structure PerformsPlan (S : SkillStation σ) (compiled : CompiledSkill) (run : RunState σ)
    (result : BatchResult) : Prop where
  /-- Every turn is reported. -/
  reported : (result.skill.getD []).map (·.n) = run.turns.map (·.step.n)
  /-- When all is well, every step of the plan had its turn, and was handed on if its guard
      held. -/
  every : result.ok = true →
    run.turns.map (·.step.id) = compiled.plan.steps.map (·.id) ∧
      ∀ turn ∈ run.turns, turn.taken = true →
        ∃ d ∈ run.dispatched, Resolved S.python turn.context turn.step d
  /-- When not, the steps had their turns up to one that failed. -/
  ended : result.ok = false →
    run.turns.map (·.step.id) <+: compiled.plan.steps.map (·.id) ∧
      ∃ step ∈ run.runs, step.status = .failed

theorem steps_withSecrets {α : Type} (field : Step → α)
    (hfield : ∀ (step : Step) args, field { step with args } = field step)
    (secrets : List (String × String)) (compiled : CompiledSkill) :
    (withSecrets secrets compiled).plan.steps.map field = compiled.plan.steps.map field := by
  unfold withSecrets
  split
  · rfl
  · exact map_substituted hfield _ _ _

theorem skill_performs (hcompiled : batch.compiled = some compiled) {result : BatchResult}
    (h : (S.skill approvals batch w).2 = .ok result) :
    S.PerformsPlan compiled (S.skill approvals batch w).1 result := by
  rw [skill_eq hcompiled] at h ⊢
  split at h
  · cases h
  · rename_i run answer hrun
    obtain ⟨hreported, ⟨turns, runs, hturns, hruns, hmap, hbegins, hfailed, hdone⟩, -⟩ :=
      Skills.run_answered S.python S.devices (withSecrets batch.secrets compiled) approvals [] w
        (congrArg Prod.snd hrun)
    rw [hrun] at hreported hturns hruns hdone
    simp only [List.nil_append] at hturns hruns
    obtain ⟨hok, -, -, -, -, steps, hsteps, hns⟩ := report_ok h
    obtain ⟨hturns', hdispatched, hruns'⟩ := S.report_run batch answer run
    have hids : ∀ {field : Step → String}, (turns.map fun turn => field turn.step) =
        (turns.map (·.step)).map field := by
      intro field
      rw [List.map_map]
      rfl
    have hplan := steps_withSecrets (·.id) (fun _ _ => rfl) batch.secrets compiled
    constructor
    · rw [hsteps, Option.getD_some, hns, ← hreported, hruns, hmap, hturns', hturns]
    · intro hgood
      rw [hgood, eq_comm, decide_eq_true_eq] at hok
      obtain ⟨hall, hhanded⟩ := hdone hok
      refine ⟨?_, fun turn hin htaken => ?_⟩
      · rw [hturns', hturns, hids, hall, hplan]
      · rw [hturns', hturns] at hin
        rw [hdispatched]
        exact hhanded turn hin htaken
    · intro hbad
      rw [hbad, eq_comm, decide_eq_false_iff_not] at hok
      refine ⟨?_, ?_⟩
      · rw [hturns', hturns, hids, ← hplan]
        exact hbegins.map _
      · rw [hruns', hruns]
        exact hfailed hok

/-! ## Approved or refused -/

/-- Each destructive step of the skill was approved by a person: the ticket has the approval
    of the step of its plan that carries the skill. -/
def Approved (ticket : Ticket) (step : Step) (compiled : CompiledSkill) : Prop :=
  (∃ inner ∈ compiled.plan.steps, inner.needsApproval = true) → ApprovedFor ticket step

/-- The batch is refused before anything is performed, or the plan was approved and is
    performed; no other exception escapes. -/
def Lawful (S : SkillStation σ) (ticket : Ticket) (step : Step) (compiled : CompiledSkill)
    (handled : Handled σ) : Prop :=
  match handled.answer with
  | .ok result => Approved ticket step compiled ∧ S.PerformsPlan compiled handled.run result
  | .error (.refused _) => handled.run.turns = [] ∧ handled.run.dispatched = []
  | .error (.escaped _) => False

/-- With the approval of every step, the plan would come to a result, and take no destructive
    step. -/
def Unhindered (S : SkillStation σ) (compiled : CompiledSkill) (batch : StepBatch) (w : σ) :
    Prop :=
  (S.skill (compiled.plan.steps.map (·.id)) batch w).2.isOk = true ∧
    ∀ turn ∈ (S.skill (compiled.plan.steps.map (·.id)) batch w).1.turns, ¬ turn.Destructive

variable (S approvals w) in
/-- Without approvals a skill batch comes to what it does with these, or its run ends at a
    destructive step. -/
theorem skill_unapproved (hcompiled : batch.compiled = some compiled) :
    (∃ step, (S.skill [] batch w).2 = .error (.escaped (.approvalRequired step))) ∧
        (∃ turn ∈ (S.skill approvals batch w).1.turns, turn.Destructive) ∨
      S.skill [] batch w = S.skill approvals batch w ∧
        ∀ turn ∈ (S.skill approvals batch w).1.turns, ¬ turn.Destructive := by
  have hturns : (S.skill approvals batch w).1.turns =
      (Skills.run S.python S.devices (withSecrets batch.secrets compiled) approvals [] w).1.turns := by
    rw [skill_eq hcompiled]
    split
    · rename_i run e hrun
      rw [hrun]
    · rename_i run result hrun
      rw [hrun]
      exact (S.report_run batch result run).1
  rw [hturns]
  rcases Skills.run_unapproved S.python S.devices (withSecrets batch.secrets compiled) approvals
      [] w with
    ⟨⟨step, hstep⟩, hdestructive⟩ | ⟨hsame, hgentle⟩
  · refine Or.inl ⟨⟨step, ?_⟩, hdestructive⟩
    rw [skill_eq hcompiled]
    split
    · rename_i run e hrun
      rw [hrun] at hstep
      cases hstep
      rfl
    · rename_i run result hrun
      rw [hrun] at hstep
      cases hstep
  · refine Or.inr ⟨?_, hgentle⟩
    rw [skill_eq hcompiled, skill_eq hcompiled, hsame]

/-- A batch without approvals is answered exactly when nothing hinders its run. -/
theorem skill_answered_iff (hcompiled : batch.compiled = some compiled) :
    (∃ result, (S.skill [] batch w).2 = .ok result) ↔ S.Unhindered compiled batch w := by
  unfold Unhindered
  rcases skill_unapproved S (compiled.plan.steps.map (·.id)) w hcompiled with ⟨⟨step, hstep⟩, turn, hin, hdestructive⟩ | ⟨hsame, hgentle⟩
  · constructor
    · rintro ⟨result, hresult⟩
      rw [hstep] at hresult
      cases hresult
    · exact fun h => absurd hdestructive (h.2 turn hin)
  · rw [hsame]
    constructor
    · rintro ⟨result, hresult⟩
      exact ⟨by rw [hresult]; rfl, hgentle⟩
    · rintro ⟨hok, -⟩
      cases hanswer : (S.skill (compiled.plan.steps.map (·.id)) batch w).2 with
      | ok result => exact ⟨result, rfl⟩
      | error e =>
        rw [hanswer] at hok
        cases hok

/-- What the executor puts into a batch, and that it puts in no approvals. -/
theorem makeBatch_fields {X : FactoryExecutor} {batchId ticketId station : String}
    {issuedAt : DateTime} {fields : FactoryExecutor.BatchFields} {batch : StepBatch}
    (h : X.makeBatch batchId ticketId station issuedAt fields = .ok batch) :
    batch.kind = fields.kind ∧ batch.compiled = fields.compiled ∧ batch.approvals = [] := by
  unfold FactoryExecutor.makeBatch at h
  split at h
  · cases h
    exact ⟨rfl, rfl, rfl⟩
  · cases h

/-- For every compiled skill in a batch of the executor, delivered at any time to any station:
    the batch is refused before anything is performed, or approved and performed, exactly when
    the gate refuses it, or the skill was approved and nothing hinders its run. -/
theorem handle_lawful_iff {X : FactoryExecutor} {batchId ticketId station : String}
    {issuedAt now : DateTime} {secrets : List (String × String)} {signed : SignedBatch}
    (hmade : X.makeBatch batchId ticketId station issuedAt
      { kind := .skill, compiled := some compiled, secrets } = .ok signed.batch)
    (S : SkillStation σ) (ticket : Ticket) (step : Step) (st : StationRunner.State) (w : σ) :
    S.Lawful ticket step compiled (S.handle st (signed, now) w) ↔
      (∃ message, verifyBatch S.runner.signing S.runner.keys S.runner.station now st.seen signed =
        .error message) ∨
      Approved ticket step compiled ∧ S.Unhindered compiled signed.batch w := by
  obtain ⟨hkind, hcompiled, happrovals⟩ := makeBatch_fields hmade
  unfold handle
  cases hverify : verifyBatch S.runner.signing S.runner.keys S.runner.station now st.seen signed with
  | error message =>
    refine iff_of_true ?_ (Or.inl ⟨message, rfl⟩)
    exact ⟨rfl, rfl⟩
  | ok passed =>
    obtain ⟨-, rfl⟩ := verifyBatch_ok_iff.mp hverify
    rw [← skill_answered_iff hcompiled]
    simp only [hkind, if_true, happrovals, reduceCtorEq, exists_false, false_or]
    unfold Lawful
    cases hanswer : (S.skill [] signed.batch w).2 with
    | ok result =>
      simp only [Except.ok.injEq, exists_eq', and_true]
      exact ⟨And.left, fun h => ⟨h, skill_performs hcompiled hanswer⟩⟩
    | error failure =>
      cases failure with
      | refused message => exact absurd hanswer (skill_not_refused hcompiled)
      | escaped e => simp

instance : Decidable (S.Unhindered compiled batch w) := inferInstanceAs (Decidable (_ ∧ _))

end SkillStation

/-! ### A station that is drained and turned off -/

namespace FactoryLine

open Skills (compileSkill stepsOf Parsed stepsOf_parsed)

/-- A skill that starts a program of the station, and goes on with these steps. -/
def drainSkill (rest : List Json) : Skills.Skill where
  id := "drain"
  name := "Drain"
  version := "1.0"
  steps := stepsOf .plain "drain.yaml" (.arr
    (.obj [("run", .obj [("command", .arr [.str "fixture-ctl", .str "drain"])])] :: rest))

def powerOff : Json :=
  .obj [("redfish", .obj [("target", .str "10.0.0.5"), ("action", .str "power_off")])]

/-- The step of the plan that carries the skill, and the ticket on which it was approved. -/
def drainStep : Step := { id := "drain", n := 1, primitive := "skill", title := "Drain" }

def drainTicket : Ticket where
  id := "T-1"
  agent := .factory
  user := "ana"
  title := "Drain"
  state := .running
  job := demoJob
  approvals := [{ stepId := "drain", requestedAt := 0, decidedAt := some 0
                  decidedBy := some "lee", approved := some true }]
  createdAt := 0
  updatedAt := 0

/-- A station on which every program ends well; what was started is on record. -/
def bench : SkillStation (List (List String)) where
  runner := { StationRunner.fixtureRunner with signing := (executor fun n => n).signing }
  python := .plain
  screenCall step w := (.ok { ok := true, sentence := step.title }, w)
  failureShot _ w := (.ok none, w)
  processes argv _ w := (.ok { exitCode := 0 }, w ++ [argv])
  screenshot path _ := .ok path
  prune w := (.ok (), w)

/-- The batch of a skill, as the executor makes and signs it. -/
def skillBatch (skill : Skills.Skill) (inputs : List (String × Json))
    (secrets : List (String × String)) : Except String (CompiledSkill × SignedBatch) :=
  match compileSkill .plain (fun _ _ _ => "drain") skill inputs "job-1" 0 with
  | .error _ => .error "not compiled"
  | .ok compiled =>
    match (executor fun n => n).makeBatch "0af22b65b4a233fdb564691f" "T-1" "station-07" 0
        { kind := .skill, compiled := some compiled, secrets } with
    | .error e => .error e
    | .ok batch => ((executor fun n => n).sign batch).map (compiled, ·)

theorem sign_batch {X : FactoryExecutor} {batch : StepBatch} {signed : SignedBatch}
    (h : X.sign batch = .ok signed) : signed.batch = batch := by
  unfold FactoryExecutor.sign at h
  simp only at h
  split at h
  · cases h
  · split at h
    · cases h
      rfl
    · cases h

theorem skillBatch_ok {skill : Skills.Skill} {inputs : List (String × Json)}
    {secrets : List (String × String)} {compiled : CompiledSkill} {signed : SignedBatch}
    (h : skillBatch skill inputs secrets = .ok (compiled, signed)) :
    compileSkill .plain (fun _ _ _ => "drain") skill inputs "job-1" 0 = .ok compiled ∧
      (executor fun n => n).makeBatch "0af22b65b4a233fdb564691f" "T-1" "station-07" 0
        { kind := .skill, compiled := some compiled, secrets } = .ok signed.batch := by
  unfold skillBatch at h
  split at h
  · cases h
  · rename_i compiled' hcompiled
    split at h
    · cases h
    · rename_i batch hbatch
      cases hsign : (executor fun n => n).sign batch with
      | error e => simp [hsign, Except.map] at h
      | ok signed' =>
        rw [hsign] at h
        cases h
        rw [sign_batch hsign]
        exact ⟨hcompiled, hbatch⟩

def escapes : Except BatchFailure BatchResult → Bool
  | .error (.escaped _) => true
  | _ => false

end FactoryLine

open FactoryLine in
/-- A plan with nothing destructive in it is performed. -/
theorem drain_lawful : ∃ compiled signed,
    skillBatch (drainSkill []) [] [] = .ok (compiled, signed) ∧
    bench.Lawful drainTicket drainStep compiled (bench.handle {} (signed, 1) []) := by
  have hok : (skillBatch (drainSkill []) [] []).toOption.any (fun made =>
      decide (bench.Unhindered made.1 made.2.batch [])) = true := by decide +kernel
  obtain ⟨⟨compiled, signed⟩, hmade, hunhindered⟩ := exists_eq_ok hok
  refine ⟨compiled, signed, hmade, ?_⟩
  refine (SkillStation.handle_lawful_iff (skillBatch_ok hmade).2 bench drainTicket drainStep {}
    []).mpr (Or.inr ⟨fun _ => ?_, of_decide_eq_true hunhindered⟩)
  exact ⟨_, List.mem_singleton_self _, rfl, rfl⟩

open FactoryLine in
/-- The station is drained and not turned off, although that was approved, and the exception
    leaves the runner. -/
theorem approved_power_off_escapes :
    Skills.Parsed .plain (drainSkill [powerOff]).steps ∧ ∃ compiled signed,
      skillBatch (drainSkill [powerOff]) [] [] = .ok (compiled, signed) ∧
      SkillStation.Approved drainTicket drainStep compiled ∧
      (bench.handle {} (signed, 1) []).run.world = [["fixture-ctl", "drain"]] ∧
      ¬ bench.Lawful drainTicket drainStep compiled (bench.handle {} (signed, 1) []) := by
  refine ⟨Skills.stepsOf_parsed (by decide +kernel), ?_⟩
  have hok : (skillBatch (drainSkill [powerOff]) [] []).toOption.any (fun made =>
      let handled := bench.handle {} (made.2, 1) []
      handled.run.world == [["fixture-ctl", "drain"]] && escapes handled.answer) = true := by
    decide +kernel
  obtain ⟨⟨compiled, signed⟩, hmade, htest⟩ := exists_eq_ok hok
  simp only [Bool.and_eq_true, beq_iff_eq] at htest
  refine ⟨compiled, signed, hmade, fun _ => ?_, htest.1, fun hlawful => ?_⟩
  · exact ⟨_, List.mem_singleton_self _, rfl, rfl⟩
  · have hescaped := htest.2
    unfold SkillStation.Lawful at hlawful
    split at hlawful
    · rename_i heq
      simp [heq, escapes] at hescaped
    · rename_i heq
      simp [heq, escapes] at hescaped
    · exact hlawful

end Slas
