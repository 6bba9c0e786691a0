/-
  Slas.Factory.Templates

  Test-loop templates and the compiler that turns one into a plan for one unit on
  one station (`slas_factory_executor.templates`).

  The compiler adds the release and nothing else: the plan is bracketed by a lease
  and a release of the job's station exactly when the template begins with the
  lease, names no other station, and leaves the id of the release alone.

  A verb of a plan (`slas_factory_executor.primitives`) has what it needs and its risk; what is
  optional is only rendered into files and left out.

  Of a template's fields, the version, the description and the SOP summary are not
  read by the compiler and left out.
-/

import Slas.Kernel.World

namespace Slas

open SkillGate (setArg)

/-! ## The verbs of a plan -/

structure FactoryPrimitive where
  name : String
  risk : Risk
  required : List String

def FACTORY_PRIMITIVES : List FactoryPrimitive :=
  [{ name := "lease_station", risk := .safe, required := ["station", "unit_sn"] },
   { name := "station_command", risk := .caution, required := ["station", "command"] },
   { name := "skill", risk := .caution, required := ["station", "skill_id"] },
   { name := "wait_for_screen", risk := .safe, required := ["station", "text"] },
   { name := "read_result", risk := .safe, required := ["station", "command"] },
   { name := "read_sensors", risk := .safe, required := ["station", "command", "limits"] },
   { name := "check_event_log", risk := .safe, required := ["station", "command"] },
   { name := "verdict", risk := .safe, required := ["station"] },
   { name := "backup_station", risk := .safe, required := ["station"] },
   { name := "release_station", risk := .safe, required := ["station"] },
   { name := "station_config_change", risk := .destructive
     required := ["station", "setting", "value"] }]

/-- `PRIMITIVES.get` -/
def factoryPrimitive? (name : String) : Option FactoryPrimitive :=
  FACTORY_PRIMITIVES.find? (·.name == name)

/-! ## Templates -/

/-- `^[a-z][a-z0-9_-]*$` -/
def isStepId (s : String) : Bool :=
  match s.toList with
  | [] => false
  | c :: cs => c.isLower && cs.all fun d => d.isLower || d.isDigit || d == '_' || d == '-'

structure TemplateStep where
  id : String
  primitive : String
  title : String
  args : List (String × Json) := []
  id_pattern : isStepId id = true
  primitive_ne : primitive ≠ ""
  title_ne : title ≠ ""
  title_le : title.length ≤ 200

structure TestLoopTemplate where
  id : String
  name : String
  skills : List String := []
  steps : List TemplateStep
  name_ne : name ≠ ""
  steps_ne : steps ≠ []
  steps_le : steps.length ≤ 50

def unknownVerb (repr : String → String) (template : TestLoopTemplate) (step : TemplateStep) :
    ThreePartMessage where
  whatHappened := "The template " ++ template.id ++ " uses the unknown verb " ++
    repr step.primitive ++ " in step " ++ step.id ++ "."
  likelyCause := "A test loop may only use the Factory primitives in " ++
    "plans/primitives/factory.yaml."
  whatToDo := "Use one of those verbs, or a skill for GUI steps."

def missingArguments (template : TestLoopTemplate) (step : TemplateStep) (spec : FactoryPrimitive)
    (missing : List String) : ThreePartMessage where
  whatHappened := "Step " ++ step.id ++ " of " ++ template.id ++ " is missing " ++
    ", ".intercalate missing ++ " for " ++ step.primitive ++ "."
  likelyCause := step.primitive ++ " needs " ++ ", ".intercalate spec.required ++ "."
  whatToDo := "Add the arguments to the template step."

def checkTemplateStep (repr : String → String) (template : TestLoopTemplate)
    (step : TemplateStep) : Except ThreePartMessage Unit :=
  match factoryPrimitive? step.primitive with
  | none => .error (unknownVerb repr template step)
  | some spec =>
    match spec.required.filter fun arg => (step.args.lookup arg).isNone with
    | [] => .ok ()
    | missing => .error (missingArguments template step spec missing)

/-- `template_from_mapping`, on what the validation of the fields has built. -/
def templateFromMapping (repr : String → String) (template : TestLoopTemplate) :
    Except ThreePartMessage TestLoopTemplate := do
  template.steps.forM (checkTemplateStep repr template)
  return template

/-! ## The compiler -/

/-- The texts that stand for values of the job. -/
def templateVariables (station unitSn mesTicketNo : String) : List (String × String) :=
  [("$station", station), ("$unit_sn", unitSn), ("$mes_ticket_no", mesTicketNo)]

def fillText (vars : List (String × String)) (s : String) : String :=
  if s.toList.head? = some '$' then (vars.lookup s).getD s else s

mutual

/-- `_fill` -/
def fill (vars : List (String × String)) : Json → Json
  | .str s => .str (fillText vars s)
  | .arr values => .arr (fillList vars values)
  | .obj fields => .obj (fillFields vars fields)
  | value => value

def fillList (vars : List (String × String)) : List Json → List Json
  | [] => []
  | value :: values => fill vars value :: fillList vars values

def fillFields (vars : List (String × String)) : List (String × Json) → List (String × Json)
  | [] => []
  | (key, value) :: fields => (key, fill vars value) :: fillFields vars fields

end

/-- `dict.setdefault` -/
def setDefault (key : String) (value : Json) (args : List (String × Json)) : List (String × Json) :=
  if (args.lookup key).isSome then args else args ++ [(key, value)]

/-- The validation of `Step`. -/
def Step.make (step : Step) : Except String Step :=
  if isStepId step.id ∧ 1 ≤ step.n ∧ step.primitive ≠ "" ∧ step.title ≠ "" ∧
      step.title.length ≤ 200 then .ok step
  else .error "the step does not validate"

def natJson (n : Nat) : Json := .num (.ofNat n)

section Compile

variable (station unitSn mesTicketNo : String) (total : Nat)

def templateArgs (index : Nat) (tstep : TemplateStep) : List (String × Json) :=
  setArg "loop_steps" (natJson total) (setArg "loop_step" (natJson index)
    (setDefault "station" (.str station)
      (fillFields (templateVariables station unitSn mesTicketNo) tstep.args)))

def compileStep (index : Nat) (tstep : TemplateStep) : Except String Step :=
  match factoryPrimitive? tstep.primitive with
  | none => .error tstep.primitive
  | some spec => Step.make
    { id := tstep.id, n := index, primitive := tstep.primitive, title := tstep.title
      args := templateArgs station unitSn mesTicketNo total index tstep, risk := spec.risk }

def compileSteps : Nat → List TemplateStep → Except String (List Step)
  | _, [] => .ok []
  | index, tstep :: tsteps => do
    let step ← compileStep station unitSn mesTicketNo total index tstep
    let steps ← compileSteps (index + 1) tsteps
    return step :: steps

def releaseStep : Step :=
  { id := "release", n := total, primitive := "release_station", title := "Release " ++ station
    args := [("station", .str station), ("loop_step", natJson total), ("loop_steps", natJson total)]
    risk := .safe }

def loopSummary (template : TestLoopTemplate) (steps : List Step) : String :=
  let destructive := steps.filter (·.risk == .destructive)
  template.name ++ " for unit " ++ unitSn ++ " on " ++ station ++ ": " ++ toString total ++
    " steps" ++
    (if template.skills = [] then ""
     else ", using the " ++ ", ".intercalate template.skills ++ " skill") ++
    (if destructive = [] then
      ". PASS needs 3 of 3 voters; anything else holds the station for the line lead."
     else "; " ++ toString destructive.length ++ " destructive " ++
      (if destructive.length = 1 then "step needs" else "steps need") ++ " your approval.")

/-- `compile_template` -/
def compileTemplate (template : TestLoopTemplate) (jobId : String) (now : DateTime) :
    Except String Plan := do
  let total := template.steps.length + 1
  let steps ← compileSteps station unitSn mesTicketNo total 1 template.steps
  let release ← (releaseStep station total).make
  match Plan.ofSteps jobId (loopSummary station unitSn total template (steps ++ [release]))
      (steps ++ [release]) now with
  | none => .error "the plan does not validate"
  | some plan => return plan

end Compile

/-! ## What the compiler keeps -/

theorem lookup_setArg_of_ne {key key' : String} (hne : key' ≠ key) (value : Json)
    (args : List (String × Json)) : (setArg key value args).lookup key' = args.lookup key' := by
  induction args with
  | nil => rw [setArg, List.lookup_cons, beq_false_of_ne hne]
  | cons arg args ih =>
    obtain ⟨k, v⟩ := arg
    rw [setArg]
    split_ifs with hk
    · subst hk
      rw [List.lookup_cons, List.lookup_cons, beq_false_of_ne hne]
    · rw [List.lookup_cons, List.lookup_cons, ih]

theorem lookup_setDefault (key : String) (value : Json) (args : List (String × Json)) :
    (setDefault key value args).lookup key = some ((args.lookup key).getD value) := by
  unfold setDefault
  cases hlookup : args.lookup key with
  | none => simp [List.lookup_append, hlookup]
  | some found => simp [hlookup]

theorem lookup_fillFields (vars : List (String × String)) (key : String)
    (fields : List (String × Json)) :
    (fillFields vars fields).lookup key = (fields.lookup key).map (fill vars) := by
  induction fields with
  | nil => rfl
  | cons field fields ih =>
    obtain ⟨k, v⟩ := field
    rw [fillFields, List.lookup_cons, List.lookup_cons]
    split
    · rfl
    · exact ih

section Compiled

variable {repr : String → String} {station unitSn mesTicketNo jobId : String} {now : DateTime}
  {template : TestLoopTemplate} {total : Nat}

/-- A step names the station of its argument, filled in, or the job's. -/
theorem lookup_templateArgs (index : Nat) (tstep : TemplateStep) :
    (templateArgs station unitSn mesTicketNo total index tstep).lookup "station" =
      some (((tstep.args.lookup "station").map
        (fill (templateVariables station unitSn mesTicketNo))).getD (.str station)) := by
  rw [templateArgs, lookup_setArg_of_ne (by decide), lookup_setArg_of_ne (by decide),
    lookup_setDefault, lookup_fillFields]

theorem Step.make_of_template {step : Step} {tstep : TemplateStep} (hid : step.id = tstep.id)
    (hn : 1 ≤ step.n) (hverb : step.primitive = tstep.primitive)
    (htitle : step.title = tstep.title) : step.make = .ok step := by
  rw [Step.make, hid, hverb, htitle, if_pos]
  exact ⟨tstep.id_pattern, hn, tstep.primitive_ne, tstep.title_ne, tstep.title_le⟩

/-- An accepted step has a verb of the table. -/
theorem checkTemplateStep_known {step : TemplateStep}
    (h : checkTemplateStep repr template step = .ok ()) :
    ∃ spec, factoryPrimitive? step.primitive = some spec := by
  unfold checkTemplateStep at h
  cases hspec : factoryPrimitive? step.primitive with
  | none => rw [hspec] at h; cases h
  | some spec => exact ⟨spec, rfl⟩

theorem forM_ok {α ε : Type} {f : α → Except ε Unit} {xs : List α} (h : xs.forM f = .ok ()) :
    ∀ x ∈ xs, f x = .ok () := by
  induction xs with
  | nil => simp
  | cons x xs ih =>
    change (f x >>= fun _ => xs.forM f) = .ok () at h
    cases hx : f x with
    | error e => rw [hx] at h; cases h
    | ok u =>
      rw [hx] at h
      exact List.forall_mem_cons.mpr ⟨hx, ih h⟩

theorem templateFromMapping_ok {data : TestLoopTemplate}
    (h : templateFromMapping repr data = .ok template) :
    data = template ∧
      ∀ step ∈ template.steps, ∃ spec, factoryPrimitive? step.primitive = some spec := by
  unfold templateFromMapping at h
  cases hcheck : data.steps.forM (checkTemplateStep repr data) with
  | error e => rw [hcheck] at h; cases h
  | ok u =>
    rw [hcheck] at h
    obtain rfl := Except.ok.inj h
    exact ⟨rfl, fun step hstep => checkTemplateStep_known (forM_ok hcheck step hstep)⟩

/-- The steps of an accepted template compile one by one. -/
theorem compileSteps_ok (station unitSn mesTicketNo : String) (total : Nat)
    {tsteps : List TemplateStep}
    (h : ∀ step ∈ tsteps, ∃ spec, factoryPrimitive? step.primitive = some spec) (index : Nat)
    (hindex : 1 ≤ index) :
    ∃ steps, compileSteps station unitSn mesTicketNo total index tsteps = .ok steps ∧
      steps.map (·.id) = tsteps.map (·.id) ∧
      steps.map (·.n) = List.range' index tsteps.length ∧
      steps.map (·.primitive) = tsteps.map (·.primitive) ∧
      steps.map (·.args.lookup "station") = tsteps.map fun tstep =>
        some (((tstep.args.lookup "station").map
          (fill (templateVariables station unitSn mesTicketNo))).getD (.str station)) := by
  induction tsteps generalizing index with
  | nil => exact ⟨[], rfl, rfl, rfl, rfl, rfl⟩
  | cons tstep tsteps ih =>
    obtain ⟨⟨spec, hspec⟩, hrest⟩ := List.forall_mem_cons.mp h
    obtain ⟨steps, hsteps, hids, hns, hverbs, hstations⟩ := ih hrest (index + 1) (by omega)
    have hstep : compileStep station unitSn mesTicketNo total index tstep = .ok
        { id := tstep.id, n := index, primitive := tstep.primitive, title := tstep.title
          args := templateArgs station unitSn mesTicketNo total index tstep
          risk := spec.risk } := by
      rw [compileStep, hspec]
      exact Step.make_of_template rfl hindex rfl rfl
    refine ⟨_, by rw [compileSteps, hstep, hsteps]; rfl, ?_, ?_, ?_, ?_⟩
    · rw [List.map_cons, List.map_cons, hids]
    · rw [List.map_cons, hns, List.length_cons, List.range'_succ]
    · rw [List.map_cons, List.map_cons, hverbs]
    · rw [List.map_cons, List.map_cons, hstations, lookup_templateArgs]

theorem releaseStep_make_iff (release : Step) (htotal : 1 ≤ total) :
    (releaseStep station total).make = .ok release ↔
      release = releaseStep station total ∧ station.length ≤ 192 := by
  have htitle : (releaseStep station total).title.length = 8 + station.length := by
    show ("Release " ++ station).length = _
    rw [String.length_append]
    rfl
  have hne : (releaseStep station total).title ≠ "" := by
    intro heq
    rw [heq] at htitle
    simp at htitle
    omega
  have hid : isStepId (releaseStep station total).id = true := by
    show isStepId "release" = true
    decide
  have hverb : (releaseStep station total).primitive ≠ "" := by
    show "release_station" ≠ ""
    decide
  rw [Step.make]
  by_cases hlength : station.length ≤ 192
  · rw [if_pos ⟨hid, htotal, hverb, hne, by omega⟩]
    simp [hlength, eq_comm]
  · rw [if_neg fun h => hlength (by have := h.2.2.2.2; omega)]
    simp [hlength]

/-! ## Bracketed plans -/

/-- The plan leases the job's station first and releases it last, and names no other. -/
structure Bracketed (station : String) (plan : Plan) : Prop where
  unique : (plan.steps.map (·.id)).Nodup
  leased : plan.steps.head?.map (·.primitive) = some "lease_station"
  released : plan.steps.getLast?.map (·.primitive) = some "release_station"
  onStation : ∀ step ∈ plan.steps, ∀ value,
    step.args.lookup "station" = some value → value = .str station

/-- What the compiler does not look at: the order and the ids of the template's
    steps, the stations they name, and whether the job has an id and a station
    that fits a title. -/
structure TestLoopTemplate.Fits (template : TestLoopTemplate)
    (station unitSn mesTicketNo jobId : String) : Prop where
  unique : (template.steps.map (·.id)).Nodup
  noRelease : "release" ∉ template.steps.map (·.id)
  leased : template.steps.head?.map (·.primitive) = some "lease_station"
  onStation : ∀ step ∈ template.steps, ∀ value, step.args.lookup "station" = some value →
    fill (templateVariables station unitSn mesTicketNo) value = .str station
  job : jobId ≠ ""
  station_le : station.length ≤ 192

theorem loopSummary_ne (steps : List Step) :
    loopSummary station unitSn total template steps ≠ "" := by
  intro heq
  have hname : template.name = "" := by
    simp only [loopSummary, String.append_eq_empty_iff] at heq
    tauto
  exact template.name_ne hname

/-- Once the steps compile, the plan is theirs and the release. -/
theorem compileTemplate_ok_iff {steps : List Step} {plan : Plan}
    (hsteps : compileSteps station unitSn mesTicketNo (template.steps.length + 1) 1
      template.steps = .ok steps) :
    compileTemplate station unitSn mesTicketNo template jobId now = .ok plan ↔
      station.length ≤ 192 ∧ Plan.ofSteps jobId
        (loopSummary station unitSn (template.steps.length + 1) template
          (steps ++ [releaseStep station (template.steps.length + 1)]))
        (steps ++ [releaseStep station (template.steps.length + 1)]) now = some plan := by
  simp only [compileTemplate, hsteps, bind, Except.bind]
  cases hrelease : (releaseStep station (template.steps.length + 1)).make with
  | error e =>
    have hlength : ¬ station.length ≤ 192 := by
      intro hle
      have hok := (releaseStep_make_iff _ (by omega)).mpr
        ⟨Eq.refl (releaseStep station (template.steps.length + 1)), hle⟩
      rw [hrelease] at hok
      cases hok
    simp [hlength]
  | ok release =>
    obtain ⟨rfl, hlength⟩ := (releaseStep_make_iff _ (by omega)).mp hrelease
    simp only [hlength, true_and]
    split
    · simp [*]
    · simp [*, pure, Except.pure]

/-- The plan of steps that compiled validates when their ids are distinct and none
    is the release's. -/
theorem exists_compileTemplate_iff {steps : List Step}
    (hsteps : compileSteps station unitSn mesTicketNo (template.steps.length + 1) 1
      template.steps = .ok steps) (hids : steps.map (·.id) = template.steps.map (·.id))
    (hns : steps.map (·.n) = List.range' 1 template.steps.length) :
    (∃ plan, compileTemplate station unitSn mesTicketNo template jobId now = .ok plan) ↔
      station.length ≤ 192 ∧ jobId ≠ "" ∧ (template.steps.map (·.id)).Nodup ∧
        "release" ∉ template.steps.map (·.id) := by
  have hlength : steps.length = template.steps.length := by
    simpa using congrArg List.length hids
  have hmax : (steps ++ [releaseStep station (template.steps.length + 1)]).length ≤ MAX_STEPS := by
    have := template.steps_le
    simp only [List.length_append, List.length_singleton, MAX_STEPS]
    omega
  have hnumbered : (steps ++ [releaseStep station (template.steps.length + 1)]).map (·.n) =
      List.range' 1 (steps ++ [releaseStep station (template.steps.length + 1)]).length := by
    rw [List.map_append, hns, List.length_append, List.length_singleton, hlength,
      List.range'_concat, Nat.one_mul, Nat.add_comm 1]
    rfl
  have hnodup : ((steps ++ [releaseStep station (template.steps.length + 1)]).map (·.id)).Nodup ↔
      (template.steps.map (·.id)).Nodup ∧ "release" ∉ template.steps.map (·.id) := by
    rw [List.map_append, hids, List.nodup_append]
    show _ ∧ ["release"].Nodup ∧ (∀ id ∈ _, ∀ id' ∈ ["release"], id ≠ id') ↔ _
    simp only [List.nodup_singleton, true_and, List.mem_singleton, forall_eq]
    exact and_congr_right fun _ =>
      ⟨fun hne hmem => hne _ hmem rfl, fun hnot id hmem heq => hnot (heq ▸ hmem)⟩
  simp only [compileTemplate_ok_iff hsteps, exists_and_left, Plan.exists_ofSteps_iff, hnodup, hmax,
    hnumbered, ne_eq, List.append_eq_nil_iff, List.cons_ne_self, and_false, not_false_eq_true,
    loopSummary_ne, and_true]

theorem onStation_iff {steps : List Step}
    (hstations : steps.map (·.args.lookup "station") = template.steps.map fun tstep =>
      some (((tstep.args.lookup "station").map
        (fill (templateVariables station unitSn mesTicketNo))).getD (.str station))) :
    (∀ step ∈ steps, ∀ value, step.args.lookup "station" = some value → value = .str station) ↔
      ∀ step ∈ template.steps, ∀ value, step.args.lookup "station" = some value →
        fill (templateVariables station unitSn mesTicketNo) value = .str station := by
  have hmap := List.forall_mem_map (l := steps) (f := (·.args.lookup "station"))
    (P := fun found => ∀ value, found = some value → value = .str station)
  rw [← hmap, hstations, List.forall_mem_map]
  refine forall₂_congr fun step _ => ?_
  cases step.args.lookup "station" with
  | none => simp
  | some found => simp

/-- **Templates and their plans**: compiling an accepted template for a job returns a
    plan that leases the job's station first, releases it last and names no other,
    exactly when the template fits the job. -/
theorem compiled_bracketed_iff {data : TestLoopTemplate}
    (h : templateFromMapping repr data = .ok template) :
    (∃ plan, compileTemplate station unitSn mesTicketNo template jobId now = .ok plan ∧
        Bracketed station plan) ↔ template.Fits station unitSn mesTicketNo jobId := by
  obtain ⟨rfl, hknown⟩ := templateFromMapping_ok h
  obtain ⟨steps, hsteps, hids, hns, hverbs, hstations⟩ :=
    compileSteps_ok station unitSn mesTicketNo (data.steps.length + 1) hknown 1 le_rfl
  have hexists : (∃ plan, compileTemplate station unitSn mesTicketNo data jobId now = .ok plan) ↔ _ :=
    exists_compileTemplate_iff hsteps hids hns
  have hlast (plan : Plan)
      (hplan : compileTemplate station unitSn mesTicketNo data jobId now = .ok plan) :
      plan.steps = steps ++ [releaseStep station (data.steps.length + 1)] :=
    Plan.ofSteps_steps ((compileTemplate_ok_iff hsteps).mp hplan).2
  have hfirst : (steps ++ [releaseStep station (data.steps.length + 1)]).head?.map (·.primitive) =
      data.steps.head?.map (·.primitive) := by
    rw [← List.head?_map, ← List.head?_map, ← hverbs, List.map_append]
    cases hcases : steps with
    | nil =>
      rw [hcases] at hverbs
      exact absurd (List.map_eq_nil_iff.mp hverbs.symm) data.steps_ne
    | cons step rest => rfl
  constructor
  · rintro ⟨plan, hplan, hbracketed⟩
    obtain ⟨hlength, hjob, hunique, hrelease⟩ := hexists.mp ⟨plan, hplan⟩
    have hleased := hbracketed.leased
    have hon := hbracketed.onStation
    rw [hlast plan hplan] at hleased hon
    exact ⟨hunique, hrelease, hfirst ▸ hleased,
      (onStation_iff hstations).mp fun step hstep => hon step (List.mem_append_left _ hstep),
      hjob, hlength⟩
  · intro hfits
    obtain ⟨plan, hplan⟩ := hexists.mpr
      ⟨hfits.station_le, hfits.job, hfits.unique, hfits.noRelease⟩
    refine ⟨plan, hplan, plan.unique, ?_, ?_, ?_⟩
    · rw [hlast plan hplan, hfirst]
      exact hfits.leased
    · rw [hlast plan hplan, List.getLast?_concat]
      rfl
    · intro step hstep value hvalue
      rw [hlast plan hplan] at hstep
      rcases List.mem_append.mp hstep with hstep | hstep
      · exact (onStation_iff hstations).mpr hfits.onStation step hstep value hvalue
      · obtain rfl := List.mem_singleton.mp hstep
        exact (Option.some.inj hvalue).symm

end Compiled

/-! ### The shipped template -/

def shippedStep (id primitive title : String) (args : List (String × Json))
    (h : isStepId id = true ∧ primitive ≠ "" ∧ title ≠ "" ∧ title.length ≤ 200) : TemplateStep :=
  { id, primitive, title, args := ("station", .str "$station") :: args
    id_pattern := h.1, primitive_ne := h.2.1, title_ne := h.2.2.1, title_le := h.2.2.2 }

def command (words : List String) : String × Json := ("command", .arr (words.map .str))

def FINAL_TEST_9_STEPS : TestLoopTemplate where
  id := "final-test-9-steps"
  name := "Final test, 9 steps"
  skills := ["station-login-burnin"]
  steps :=
    [shippedStep "lease" "lease_station" "Lease the station and bind the unit"
      [("unit_sn", .str "$unit_sn"), ("mes_ticket_no", .str "$mes_ticket_no")] (by decide +kernel),
     shippedStep "power-on" "station_command" "Power the unit on through the fixture"
      [command ["fixture-ctl", "power", "on"]] (by decide +kernel),
     shippedStep "login-burnin" "skill" "Log in to the station and start BurnIn"
      [("skill_id", .str "station-login-burnin"), ("inputs", .obj [("user", .str "operator")]),
       ("secret_refs", .obj [("password", .str "env:STATION_OPERATOR_PASSWORD")])]
      (by decide +kernel),
     shippedStep "wait-complete" "wait_for_screen" "Wait for BurnIn to report the test complete"
      [("text", .str "Test complete"), ("timeout_s", natJson 7200)] (by decide +kernel),
     shippedStep "result" "read_result" "Read the BurnIn result"
      [command ["burnin-ctl", "result", "--json"]] (by decide +kernel),
     shippedStep "sensors" "read_sensors" "Read the sensors and compare with the limits"
      [command ["sensors-ctl", "read", "--json"],
       ("limits", .obj [("cpu_temp_c", natJson 85), ("gpu_temp_c", natJson 85)])]
      (by decide +kernel),
     shippedStep "event-log" "check_event_log" "Check that the event log is empty"
      [command ["evlog", "dump"]] (by decide +kernel),
     shippedStep "backup" "backup_station" "Back up the station state" [] (by decide +kernel),
     shippedStep "verdict" "verdict" "Decide PASS or FAIL" [] (by decide +kernel)]
  name_ne := by decide
  steps_ne := by simp
  steps_le := by simp

theorem shipped_template_bracketed :
    ∃ plan, compileTemplate "station-07" "SN-1" "MES-1" FINAL_TEST_9_STEPS "J-1" 0 = .ok plan ∧
      Bracketed "station-07" plan := by
  have haccepted : templateFromMapping id FINAL_TEST_9_STEPS = .ok FINAL_TEST_9_STEPS := by
    rfl
  have hstations : ∀ step ∈ FINAL_TEST_9_STEPS.steps,
      step.args.lookup "station" = some (.str "$station") := by
    simp only [FINAL_TEST_9_STEPS, List.forall_mem_cons, shippedStep]
    simp
  refine (compiled_bracketed_iff haccepted).mpr
    ⟨by decide +kernel, by decide +kernel, by rfl, ?_, by decide, by decide⟩
  intro step hstep value hvalue
  obtain rfl := Option.some.inj ((hstations step hstep).symm.trans hvalue)
  rfl

/-! ### Templates that do not bracket -/

def checkStep (id station : String)
    (h : isStepId id = true ∧ "check_event_log" ≠ "" ∧ id ≠ "" ∧ id.length ≤ 200) : TemplateStep :=
  { id, primitive := "check_event_log", title := id
    args := [("station", .str station), command ["evlog", "dump"]]
    id_pattern := h.1, primitive_ne := h.2.1, title_ne := h.2.2.1, title_le := h.2.2.2 }

/-- One step, without a lease, on a station of its own. -/
def strayTemplate : TestLoopTemplate :=
  { id := "stray", name := "stray", steps := [checkStep "check" "station-08" (by decide)]
    name_ne := by decide, steps_ne := by simp, steps_le := by simp }

/-- One step with the id of the release. -/
def clashingTemplate : TestLoopTemplate :=
  { id := "clash", name := "clash", steps := [checkStep "release" "$station" (by decide)]
    name_ne := by decide, steps_ne := by simp, steps_le := by simp }

/-- Both templates are accepted.  The plan of the first begins with a step on
    another station, and compiling the second raises. -/
theorem accepted_templates_unbracketed :
    (templateFromMapping id strayTemplate = .ok strayTemplate ∧
      ∃ plan, compileTemplate "station-07" "SN-1" "MES-1" strayTemplate "J-1" 0 = .ok plan ∧
        plan.steps.map (fun step => (step.primitive, step.args.lookup "station")) =
          [("check_event_log", some (.str "station-08")),
           ("release_station", some (.str "station-07"))] ∧ ¬ Bracketed "station-07" plan) ∧
    templateFromMapping id clashingTemplate = .ok clashingTemplate ∧
      ∃ e, compileTemplate "station-07" "SN-1" "MES-1" clashingTemplate "J-1" 0 = .error e := by
  refine ⟨⟨rfl, ?_⟩, rfl, ?_⟩
  · refine ⟨_, rfl, rfl, fun hbracketed => ?_⟩
    have hleased := hbracketed.leased
    revert hleased
    decide +kernel
  · exact ⟨_, rfl⟩

end Slas
