/-
  Slas.Skills.Gate

  The skill gate of the kernel (`slas_kernel.skills`), on the library and the compiler.

  A step of a plan that carries a skill is as risky as the riskiest step of the compiled
  skill, so that a skill with a destructive step asks for an approval of the step that
  carries it (`expandStep_asks`).
-/

import Slas.Skills.Risks

namespace Slas

namespace Skills

/-- A skill of the library, with the agents its author allows. -/
structure LibrarySkill where
  skill : Skill
  agents : List AgentName

/-- What the gate is built from; `dict` is of an argument, and `dump` is `model_dump`. -/
structure SkillLibrary where
  library : List (String × LibrarySkill)
  isEnabled : String → AgentName → Bool
  python : Python
  digest : String → String → List String → String
  now : DateTime
  dict : Json → Except String Bindings
  dump : CompiledSkill → Json

namespace SkillLibrary

variable (L : SkillLibrary)

/-- `AGENT_LABEL`, or else the name. -/
def agentLabel : AgentName → String
  | .coding => "the Coding Agent"
  | .validation => "the Validation Agent"
  | .factory => "the Factory Agent"
  | .null => "null"

def TARGET_ARGS : List String := ["station", "target"]

def SECRET_PLACEHOLDER : String := "resolved-at-dispatch"

def notInLibrary (skillId : String) : ThreePartMessage where
  whatHappened := "The skill " ++ (if skillId = "" then "(unnamed)" else skillId) ++
    " is not in this installation's library."
  likelyCause := "The plan names a skill nobody has imported here, or it was deleted."
  whatToDo := "Import it under Skills, or remove the step from the plan."

def notForAgent (entry : LibrarySkill) (agent : AgentName) : ThreePartMessage where
  whatHappened := entry.skill.name ++ " does not work with " ++ agentLabel agent ++ "."
  likelyCause := "Its author allows only " ++ ", ".intercalate (entry.agents.map agentLabel) ++ "."
  whatToDo := "Remove the step, or ask the author for a version that lists this agent."

def notTurnedOn (entry : LibrarySkill) (agent : AgentName) : ThreePartMessage where
  whatHappened := entry.skill.name ++ " is not turned on for " ++ agentLabel agent ++ "."
  likelyCause := "Someone turned it off, or it was never turned on here."
  whatToDo := "Turn it on under Skills, or remove it from the plan."

/-- The inputs of the skill: those of the step, its target, and a placeholder for each
    secret. -/
def inputsOf (skill : Skill) (args inputs refs : Bindings) : Bindings :=
  let targets := TARGET_ARGS.foldl (fun inputs name =>
    match args.lookup name with
    | none => inputs
    | some value =>
      if name ∈ skill.inputs.map (·.1) ∧ name ∉ inputs.map (·.1) then inputs ++ [(name, value)]
      else inputs) inputs
  refs.foldl (fun inputs ref => assign ref.1 (.str SECRET_PLACEHOLDER) inputs) targets

/-- `_expand_step` as far as the compilation. -/
def compileStep (step : Step) (jobId : String) (agent : AgentName) :
    Except SkillFailure CompiledSkill :=
  let skillId := L.python.str ((step.args.lookup "skill_id").getD (.str ""))
  match L.library.lookup skillId with
  | none => .error (.refused (notInLibrary skillId))
  | some entry =>
    if agent ∉ entry.agents then .error (.refused (notForAgent entry agent))
    else if L.isEnabled entry.skill.id agent = false then .error (.refused (notTurnedOn entry agent))
    else
      match L.dict ((step.args.lookup "inputs").getD (.obj [])),
          L.dict ((step.args.lookup "secret_refs").getD (.obj [])) with
      | .error e, _ => .error (.raised e)
      | _, .error e => .error (.raised e)
      | .ok inputs, .ok refs =>
        compileSkill L.python L.digest entry.skill (inputsOf entry.skill step.args inputs refs)
          jobId L.now

theorem same_step (step : Step) : step.id = step.id ∧ step.n = step.n := ⟨rfl, rfl⟩

theorem same_step_with (step : Step) (args : Bindings) (risk : Risk) :
    ({ step with args, risk } : Step).id = step.id ∧ ({ step with args, risk } : Step).n = step.n :=
  ⟨rfl, rfl⟩

theorem same_steps_cons {step : Step} {steps : List Step}
    (s : {s : Step // s.id = step.id ∧ s.n = step.n})
    (rest : {out : List Step // out.map (·.id) = steps.map (·.id) ∧
      out.map (·.n) = steps.map (·.n)}) :
    (s.1 :: rest.1).map (·.id) = (step :: steps).map (·.id) ∧
      (s.1 :: rest.1).map (·.n) = (step :: steps).map (·.n) :=
  ⟨by simp [s.2.1, rest.2.1], by simp [s.2.2, rest.2.2]⟩

theorem same_steps_nil : ([] : List Step).map (·.id) = ([] : List Step).map (·.id) ∧
    ([] : List Step).map (·.n) = ([] : List Step).map (·.n) := ⟨rfl, rfl⟩

/-- `_expand_step`, of a `skill` step; other steps stay as they are. -/
def expandStep (step : Step) (jobId : String) (agent : AgentName) :
    Except SkillFailure {s : Step // s.id = step.id ∧ s.n = step.n} :=
  if step.primitive = "skill" then
    match L.compileStep step jobId agent with
    | .error e => .error e
    | .ok compiled =>
      let worst := maxRisk (compiled.plan.steps.map (·.risk))
      let risk := if worst.order < step.risk.order then step.risk else worst
      let args := SkillGate.setArg "compiled" (L.dump compiled) step.args
      .ok ⟨{ step with args, risk }, same_step_with step args risk⟩
  else .ok ⟨step, same_step step⟩

def expandSteps (jobId : String) (agent : AgentName) : (steps : List Step) →
    Except SkillFailure
      {out : List Step // out.map (·.id) = steps.map (·.id) ∧ out.map (·.n) = steps.map (·.n)}
  | [] => .ok ⟨[], same_steps_nil⟩
  | step :: steps =>
    match L.expandStep step jobId agent with
    | .error e => .error e
    | .ok s =>
      match expandSteps jobId agent steps with
      | .error e => .error e
      | .ok rest => .ok ⟨s.1 :: rest.1, same_steps_cons s rest⟩

/-- `SkillGate.expand` -/
def expand (plan : Plan) (agent : AgentName) : Except SkillFailure Plan :=
  match L.expandSteps plan.jobId agent plan.steps with
  | .error e => .error e
  | .ok ⟨steps, hids, hnumbers⟩ =>
    have hlen : steps.length = plan.steps.length := by simpa using congrArg List.length hids
    .ok { plan with
      steps
      nonempty := by
        intro h
        rw [h, List.length_nil] at hlen
        exact plan.nonempty (List.length_eq_zero_iff.mp hlen.symm)
      capped := hlen ▸ plan.capped
      unique := hids ▸ plan.unique
      numbered := by rw [hnumbers, plan.numbered, hlen] }

/-- The gate of the kernel is built on this library. -/
def Serves (gate : SkillGate) : Prop :=
  ∀ step jobId agent compiled, L.compileStep step jobId agent = .ok compiled →
    gate.compile step jobId agent =
      .ok (L.dump compiled, maxRisk (compiled.plan.steps.map (·.risk)))

variable {L}

/-- A step that carries a skill with a destructive step asks for an approval. -/
theorem expandStep_asks {gate : SkillGate} (hgate : L.Serves gate) {step : Step} {jobId : String}
    {agent : AgentName} {compiled : CompiledSkill} (hskill : step.primitive = "skill")
    (hcompile : L.compileStep step jobId agent = .ok compiled) :
    ∃ expanded, gate.expandStep step jobId agent = .ok expanded ∧
      ((∃ inner ∈ compiled.plan.steps, inner.needsApproval = true) →
        expanded.1.needsApproval = true) := by
  unfold SkillGate.expandStep
  rw [if_pos hskill, hgate step jobId agent compiled hcompile]
  refine ⟨_, rfl, ?_⟩
  rintro ⟨inner, hinner, hneeds⟩
  have hrisk : inner.risk = .destructive := by simpa [Step.needsApproval] using hneeds
  have hle := order_le_maxRisk (List.mem_map_of_mem (f := (·.risk)) hinner)
  rw [hrisk] at hle
  have hmax : maxRisk (compiled.plan.steps.map (·.risk)) = .destructive := by
    cases hworst : maxRisk (compiled.plan.steps.map (·.risk)) with
    | destructive => rfl
    | caution =>
      rw [hworst] at hle
      exact absurd hle (by decide)
    | safe =>
      rw [hworst] at hle
      exact absurd hle (by decide)
  have hstay : ¬ Risk.order .destructive < step.risk.order := by
    cases step.risk <;> decide
  simp [Step.needsApproval, hmax, hstay]

end SkillLibrary

end Skills

end Slas
