/-
  Slas.Skills.Risks

  The risk of a step at import, in the plan and when it is dispatched.

  Only the `action` of `redfish` decides a risk, and the parser has checked it against
  the known actions.  None of these has a placeholder in it, so that rendering leaves
  the action as it is, at compile time and again at run time (`risk_never_understated`).
-/

import Slas.Skills.Expansion
import Slas.Skills.Rendering
import Slas.Skills.Turns

namespace Slas

namespace Skills

variable {P : Python} {look : String → Option Json} {source : String}

/-! ## What the parser has checked -/

/-- The action of a `redfish` step. -/
def knownAction (P : Python) (args : Bindings) : Prop :=
  P.str ((args.lookup "action").getD .null) ∈ REDFISH_ACTIONS

/-- What the parser has checked of the arguments the risk depends on. -/
def Checked (P : Python) (step : SkillStep) : Prop :=
  step.primitive = "redfish" → knownAction P step.args

theorem checkArgs_action {label : String} {spec : Primitive} {args : Bindings}
    (h : checkArgs P source label spec args = .ok ()) (hname : spec.name = "redfish") :
    knownAction P args := by
  by_contra haction
  unfold checkArgs at h
  simp only at h
  split at h
  · cases h
  · split at h
    · cases h
    · split at h
      · cases h
      · rw [if_pos ⟨hname, haction⟩] at h
        cases h

theorem primitive?_name {name : String} {spec : Primitive} (h : primitive? name = some spec) :
    spec.name = name := by
  have hfound := List.find?_some h
  simpa using hfound

theorem mapM_ok_mem {α β ε : Type} {f : α → Except ε β} {xs : List α} {ys : List β}
    (h : xs.mapM f = .ok ys) : ∀ y ∈ ys, ∃ x ∈ xs, f x = .ok y := by
  induction xs generalizing ys with
  | nil =>
    cases h
    simp
  | cons x xs ih =>
    rw [List.mapM_cons] at h
    cases hx : f x with
    | error e => simp [hx, bind, Except.bind] at h
    | ok y =>
      cases hxs : xs.mapM f with
      | error e => simp [hx, hxs, bind, Except.bind] at h
      | ok ys' =>
        have heq : y :: ys' = ys := by
          simpa [hx, hxs, bind, Except.bind, pure, Except.pure] using h
        intro z hz
        rw [← heq] at hz
        rcases List.mem_cons.mp hz with rfl | hin
        · exact ⟨x, List.mem_cons_self, hx⟩
        · obtain ⟨x', hx', hfx'⟩ := ih hxs z hin
          exact ⟨x', List.mem_cons_of_mem x hx', hfx'⟩

theorem mem_walkAll {s : SkillStep} {steps : List SkillStep} :
    s ∈ walkAll steps ↔ ∃ step ∈ steps, s ∈ step.walk := by
  induction steps with
  | nil => simp [walkAll]
  | cons step steps ih => simp [walkAll, ih]

/-- A step as the parser leaves it: its primitive is on the list, its arguments were
    checked, and it holds them without the branches. -/
structure ParsedStep (P : Python) (step : SkillStep) : Prop where
  exists_spec : ∃ source label spec args, primitive? step.primitive = some spec ∧
    checkArgs P source label spec args = .ok () ∧
    step.args =
      if spec.control then args.filter fun kv => kv.1 ≠ "then" && kv.1 ≠ "else" else args
  id_slug : step.id.all isSlug = true

theorem parseSteps_walk {parse : Json → String → Except SkillFailure SkillStep} {raw : Json}
    {path : String} {steps : List SkillStep}
    (hparse : ∀ raw path step, parse raw path = .ok step → ∀ s ∈ step.walk, ParsedStep P s)
    (h : parseSteps parse source raw path = .ok steps) : ∀ s ∈ walkAll steps, ParsedStep P s := by
  unfold parseSteps at h
  split at h
  · intro s hs
    obtain ⟨step, hstep, hin⟩ := mem_walkAll.mp hs
    obtain ⟨⟨item, i⟩, -, hitem⟩ := mapM_ok_mem h step hstep
    exact hparse item _ step hitem s hin
  · cases h

theorem parseBranches_walk {parse : Json → String → Except SkillFailure SkillStep} {path : String}
    {spec : Primitive} {args args' : Bindings} {then_ otherwise : List SkillStep}
    (hparse : ∀ raw path step, parse raw path = .ok step → ∀ s ∈ step.walk, ParsedStep P s)
    (h : parseBranches parse source path spec args = .ok (args', then_, otherwise)) :
    (args' = if spec.control then args.filter fun kv => kv.1 ≠ "then" && kv.1 ≠ "else" else args) ∧
      (∀ s ∈ walkAll then_, ParsedStep P s) ∧ ∀ s ∈ walkAll otherwise, ParsedStep P s := by
  unfold parseBranches at h
  split at h
  · rename_i hcontrol
    simp only [bind, Except.bind] at h
    split at h
    · cases h
    · rename_i thenSteps hthen
      have hthen' := parseSteps_walk hparse hthen
      split at h
      · cases h
        exact ⟨by rw [if_pos hcontrol], hthen', by simp [walkAll]⟩
      · split at h
        · cases h
        · rename_i elseSteps helse
          cases h
          exact ⟨by rw [if_pos hcontrol], hthen', parseSteps_walk hparse helse⟩
  · rename_i hcontrol
    cases h
    exact ⟨by rw [if_neg hcontrol], by simp [walkAll], by simp [walkAll]⟩

/-- Every step of a step that was parsed is as the parser leaves it. -/
theorem parseStep_walk {limit : Nat} {raw : Json} {path : String} {step : SkillStep}
    (h : parseStep P source limit raw path = .ok step) : ∀ s ∈ step.walk, ParsedStep P s := by
  induction limit generalizing raw path step with
  | zero => cases h
  | succ limit ih =>
    unfold parseStep at h
    simp only at h
    split at h
    · split at h
      · split at h
        · cases h
        · rename_i verb _ _ spec hspec
          split at h
          · rename_i args hargs
            simp only [bind, Except.bind] at h
            split at h
            · cases h
            · rename_i hcheck
              split at h
              · cases h
              · rename_i branches hbranches
                obtain ⟨args', then_, otherwise⟩ := branches
                obtain ⟨hkept, hthen, helse⟩ :=
                  parseBranches_walk (fun _ _ _ h => ih h) hbranches
                simp only at h
                split at h
                · rename_i hid
                  cases h
                  intro s hs
                  rw [SkillStep.walk] at hs
                  rcases List.mem_cons.mp hs with rfl | hin
                  · exact ⟨⟨_, _, spec, args, hspec, hcheck, hkept⟩, hid⟩
                  · rcases List.mem_append.mp hin with hin | hin
                    · exact hthen s hin
                    · exact helse s hin
                · cases h
          · cases h
      · cases h
    · cases h

theorem Parsed.steps {steps : List SkillStep} (h : Parsed P steps) :
    ∀ s ∈ walkAll steps, ParsedStep P s := by
  obtain ⟨source, limit, raw, hparse⟩ := h
  exact parseSteps_walk (fun _ _ _ h => parseStep_walk h) hparse

theorem redfish_spec {spec : Primitive} (h : primitive? "redfish" = some spec) :
    spec.control = false := by
  have hspec : primitive? "redfish" = some
      { name := "redfish", needs := [.redfish], risk := .safe
        required := ["target", "action"] } := rfl
  rw [hspec] at h
  cases h
  rfl

theorem ParsedStep.checked {step : SkillStep} (h : ParsedStep P step) : Checked P step := by
  intro hredfish
  obtain ⟨source, label, spec, args, hspec, hcheck, hargs⟩ := h.exists_spec
  rw [hredfish] at hspec
  rw [redfish_spec hspec] at hargs
  rw [hargs]
  exact checkArgs_action hcheck (primitive?_name hspec)

/-- Every step of a skill that was parsed has been checked. -/
theorem Parsed.checked {steps : List SkillStep} (h : Parsed P steps) :
    ∀ s ∈ walkAll steps, Checked P s := fun s hs => (h.steps s hs).checked

/-! ## The action is not a template -/

theorem references_eq_nil {text : String} (h : '\x7b' ∉ text.toList) : references P text = [] := by
  have hscan := scan_other (P := P) h []
  rw [List.append_nil] at hscan
  rw [references, hscan]
  simp

/-- Rendering leaves a known action as it is. -/
theorem renderValue_action {value value' : Json} (h : P.str value ∈ REDFISH_ACTIONS)
    (hrender : renderValue P look source value = .ok value') : value' = value := by
  have hbraces : ∀ action ∈ REDFISH_ACTIONS, '\x7b' ∉ action.toList := by decide
  have hletters : ∀ action ∈ REDFISH_ACTIONS,
      ¬ (action.toList.head? = some '[' ∨ action.toList.head? = some '\x7b') := by decide
  cases value with
  | str s =>
    rw [renderValue, render_still (references_eq_nil (hbraces s h))] at hrender
    exact (Except.ok.inj hrender).symm
  | arr xs =>
    -- a list is written in brackets
    obtain ⟨rest, hrest⟩ := P.repr_arr xs
    exact absurd (Or.inl (congrArg List.head? hrest)) (hletters _ h)
  | obj kvs =>
    obtain ⟨rest, hrest⟩ := P.repr_obj kvs
    exact absurd (Or.inr (congrArg List.head? hrest)) (hletters _ h)
  | null => exact (Except.ok.inj hrender).symm
  | bool b => exact (Except.ok.inj hrender).symm
  | num d => exact (Except.ok.inj hrender).symm

theorem renderFields_action {args args' : Bindings} (h : knownAction P args)
    (hrender : renderFields P look source args = .ok args') :
    args'.lookup "action" = args.lookup "action" := by
  have hlookup := lookup_renderFields "action" hrender
  unfold knownAction at h
  cases haction : args.lookup "action" with
  | none =>
    rw [haction] at hlookup
    exact hlookup
  | some value =>
    rw [haction] at hlookup h
    obtain ⟨value', hvalue, hfound⟩ := hlookup
    rw [hfound, renderValue_action h hvalue]
    rfl

/-- Rendering leaves the risk of a step as it is. -/
theorem riskOf_renderFields {primitive : String} {args args' : Bindings}
    (h : primitive = "redfish" → knownAction P args)
    (hrender : renderFields P look source args = .ok args') :
    riskOf P primitive args' = riskOf P primitive args ∧
      (primitive = "redfish" → knownAction P args') := by
  by_cases hredfish : primitive = "redfish"
  · have haction := renderFields_action (h hredfish) hrender
    constructor
    · simp only [riskOf, haction]
    · intro _
      unfold knownAction
      rw [haction]
      exact h hredfish
  · exact ⟨by simp only [riskOf, if_neg hredfish], fun h => absurd h hredfish⟩

/-! ## The risk recorded at import -/

theorem Risk.order_worse (a b : Risk) :
    a.order ≤ (Risk.worse a b).order ∧ b.order ≤ (Risk.worse a b).order := by
  cases a <;> cases b <;> decide

theorem order_le_maxRisk {risks : List Risk} {risk : Risk} (h : risk ∈ risks) :
    risk.order ≤ (maxRisk risks).order := by
  have hfold : ∀ (risks : List Risk) (start : Risk),
      start.order ≤ (risks.foldl Risk.worse start).order ∧
        ∀ risk ∈ risks, risk.order ≤ (risks.foldl Risk.worse start).order := by
    intro risks
    induction risks with
    | nil => exact fun start => ⟨le_refl _, by simp⟩
    | cons first risks ih =>
      intro start
      obtain ⟨hstart, hrest⟩ := ih (Risk.worse start first)
      obtain ⟨hleft, hright⟩ := Risk.order_worse start first
      refine ⟨le_trans hleft hstart, fun risk hin => ?_⟩
      rcases List.mem_cons.mp hin with rfl | hin
      · exact le_trans hright hstart
      · exact hrest risk hin
  exact (hfold risks .safe).2 risk h

/-! ## The risk of the plan and of what is dispatched -/

variable {skill : Skill} {digest : String → String → List String → String} {inputs : Bindings}
  {jobId : String} {now : DateTime} {compiled : CompiledSkill}

/-- A step of the plan has the risk of its step in the skill, whose arguments were checked. -/
theorem Emitted.risk {leaf : Leaf} {step : Step} (h : Emitted P skill leaf step)
    (hchecked : ∀ s ∈ walkAll skill.steps, Checked P s) :
    step.risk = riskOf P leaf.primitive leaf.args ∧
      (step.primitive = "redfish" → knownAction P step.args) := by
  obtain ⟨own, then_, otherwise, hmem⟩ := h.origin
  have hleaf : leaf.primitive = "redfish" → knownAction P leaf.args := hchecked _ hmem
  obtain ⟨hrisk, haction⟩ := riskOf_renderFields hleaf h.rendered
  constructor
  · rw [h.risk_eq, h.primitive_eq, hrisk]
  · rw [h.primitive_eq]
    exact haction

theorem exists_leaf (h : compileSkill P digest skill inputs jobId now = .ok compiled) {step : Step}
    (hstep : step ∈ compiled.plan.steps) :
    ∃ leaf ∈ leavesOf P skill inputs, Emitted P skill leaf step := by
  have hall := List.forall₂_iff_get.mp (compileSkill_emitted h)
  obtain ⟨i, hi, rfl⟩ := List.getElem_of_mem hstep
  have hi' : i < (leavesOf P skill inputs).length := by omega
  exact ⟨_, List.getElem_mem hi', by simpa using hall.2 i hi' hi⟩

/-- For every skill that was parsed, every assignment of its inputs and every run: the
    risk recorded at import is at least that of each step of the plan; a step's risk is
    the risk of the step with its arguments as they are at run time; and a step that is
    dispatched with destructive arguments is one that was approved. -/
theorem risk_never_understated (hparsed : Parsed P skill.steps)
    (hcompile : compileSkill P digest skill inputs jobId now = .ok compiled) :
    (∀ step ∈ compiled.plan.steps, step.risk.order ≤ (importRisk P skill.steps).order ∧
      ∀ context resolved, Resolved P context step resolved →
        step.risk = riskOf P resolved.primitive resolved.args) ∧
    ∀ (σ : Type) (D : Devices σ) (approved : List String) (context : Bindings) (world : σ),
      ∀ d ∈ (run P D compiled approved context world).1.dispatched,
        riskOf P d.primitive d.args = .destructive → d.id ∈ approved := by
  have hchecked : ∀ s ∈ walkAll skill.steps, Checked P s := hparsed.checked
  have hresolved : ∀ step ∈ compiled.plan.steps, ∀ context resolved,
      Resolved P context step resolved →
      step.risk = riskOf P resolved.primitive resolved.args := by
    rintro step hstep context resolved ⟨args, hargs, rfl⟩
    obtain ⟨leaf, -, hemitted⟩ := exists_leaf hcompile hstep
    obtain ⟨-, haction⟩ := hemitted.risk hchecked
    change step.risk = riskOf P step.primitive args
    rw [(riskOf_renderFields haction hargs).1]
    exact hemitted.risk_eq
  constructor
  · intro step hstep
    refine ⟨?_, hresolved step hstep⟩
    obtain ⟨leaf, -, hemitted⟩ := exists_leaf hcompile hstep
    rw [(hemitted.risk hchecked).1]
    obtain ⟨own, then_, otherwise, hmem⟩ := hemitted.origin
    exact order_le_maxRisk (List.mem_map.mpr ⟨_, hmem, rfl⟩)
  · intro σ D approved context world d hd hrisk
    obtain ⟨turn, hturn, -, hres, happroved⟩ := run_dispatched P D compiled approved context world d hd
    obtain ⟨i, hi⟩ := List.getElem?_of_mem hturn
    have hstep : turn.step ∈ compiled.plan.steps :=
      List.mem_of_getElem? ((run_turns P D compiled approved context world).getElem?_step hi)
    have hdestructive : turn.step.risk = .destructive := by
      rw [hresolved _ hstep _ _ hres, hrisk]
    obtain ⟨args, -, rfl⟩ := hres
    refine happroved ?_
    simp [Step.needsApproval, hdestructive]

/-- A skill that turns a machine off. -/
def powerOffSkill : Skill where
  id := "power-off"
  name := "Power off"
  version := "1.0"
  inputs := [("bmc", { type := .string, required := true })]
  steps := stepsOf .plain "power-off.yaml" (.arr
    [.obj [("wait", .obj [("seconds", .num (.ofNat 5))])],
     .obj [("id", .str "off"), ("redfish", .obj
      [("target", .str "\x7b\x7b bmc \x7d\x7d"), ("action", .str "power_off")])]])

theorem power_off_needs_approval :
    ∃ compiled, compileSkill .plain (fun _ _ _ => "power-off") powerOffSkill
        [("bmc", .str "10.0.0.5")] "job-1" 0 = .ok compiled ∧
      ∀ (σ : Type) (D : Devices σ) (approved : List String) (context : Bindings) (world : σ),
        ∀ d ∈ (run .plain D compiled approved context world).1.dispatched,
          riskOf .plain d.primitive d.args = .destructive → d.id ∈ approved := by
  have hok : (compileSkill .plain (fun _ _ _ => "power-off") powerOffSkill
      [("bmc", .str "10.0.0.5")] "job-1" 0).toOption.any (fun _ => true) = true := by
    decide +kernel
  obtain ⟨compiled, hcompiled, -⟩ := exists_eq_ok hok
  have hparsed : Parsed .plain powerOffSkill.steps := stepsOf_parsed (by decide +kernel)
  exact ⟨compiled, hcompiled, (risk_never_understated hparsed hcompiled).2⟩

end Skills

end Slas
