/-
  Slas.Skills.Expansion

  What a compilation leaves behind.  `expand_keeps` is the induction over the steps of
  a skill: what the guards pass inwards and every emission keeps, the expansion keeps.
  From it `compileSkill_emitted`: each step of the plan is a step of the skill, rendered
  in the context it was emitted in, under the conditions that stood around it there.
-/

import Slas.Skills.Compiler

namespace Slas

namespace Skills

variable {P : Python} {skill : Skill} {handles : List String}

/-! ## The rule of the expansion -/

/-- A branch keeps a property of the expander, under guards with a property. -/
def Branch.Keeps (G : Guarding → Prop) (I : Expander → Prop) (branch : Branch) : Prop :=
  ∀ g st st', G g → I st → branch g st = .ok st' → I st'

/-- What there is to show of a property of the guards and one of the expander, for an
    expansion of steps that are all of a kind. -/
structure ExpansionRule (P : Python) (skill : Skill) (handles : List String)
    (Ok : SkillStep → Prop) (G : Guarding → Prop) (I : Expander → Prop) : Prop where
  context : ∀ {st context}, I st → I { st with context }
  late : ∀ {g context start side condition}, hasLateReference P condition = true → G g →
    G (g.late context start side condition)
  early : ∀ {g context side condition source},
    evaluate P (find context) source condition = .ok side → G g →
    G (g.early context side condition)
  inside : ∀ {g context own}, G g → G (g.inside context own)
  emit : ∀ {primitive args id own then_ otherwise g st st'},
    Ok (.mk primitive args id own then_ otherwise) → G g → I st →
    emit P skill handles primitive args id own g st = .ok st' → I st'

section Keeps

variable {Ok : SkillStep → Prop} {G : Guarding → Prop} {I : Expander → Prop}

theorem expandIf_keeps (R : ExpansionRule P skill handles Ok G I) {thenBranch elseBranch : Branch}
    (hthen : thenBranch.Keeps G I) (helse : elseBranch.Keeps G I) {noElse : Bool}
    {args : Bindings} {id : Option String} :
    Branch.Keeps G I (expandIf P skill thenBranch elseBranch noElse args id) := by
  intro g st st' hg hst h
  unfold expandIf at h
  split at h
  · cases h
  · rename_i raw hraw
    simp only at h
    split at h
    · -- decided at run time
      rename_i hlate
      split at h
      · cases h
      · rename_i mid hmid
        have hImid : I mid := hthen _ _ _ (R.late hlate hg) hst hmid
        split at h
        · cases h
          exact hImid
        · exact helse _ _ _ (R.late hlate hg) hImid h
    · split at h
      · cases h
      · rename_i heval
        exact hthen _ _ _ (R.early heval hg) hst h
      · rename_i heval
        exact helse _ _ _ (R.early heval hg) hst h

theorem loopTurns_keeps (R : ExpansionRule P skill handles Ok G I) {body : Branch}
    (hbody : body.Keeps G I) {g : Guarding} (hg : G g) {var : String} {items : List Json}
    {index : Nat} {st st' : Expander} (hst : I st)
    (h : loopTurns body g var items index st = .ok st') : I st' := by
  induction items generalizing index st with
  | nil =>
    cases h
    exact hst
  | cons item items ih =>
    simp only [loopTurns] at h
    split at h
    · cases h
    · rename_i mid hmid
      have hmid' : I mid := hbody _ _ _ hg (R.context hst) hmid
      exact ih hmid' h

theorem expandForeach_keeps (R : ExpansionRule P skill handles Ok G I) {body : Branch}
    (hbody : body.Keeps G I) {args : Bindings} {id : Option String} :
    Branch.Keeps G I (expandForeach P skill body args id) := by
  intro g st st' hg hst h
  unfold expandForeach at h
  simp only at h
  split at h
  · cases h
  · split at h
    · cases h
    · split at h
      · cases h
      · split at h
        · cases h
        · split at h
          · cases h
          · rename_i after hafter
            cases h
            have hI : I after := loopTurns_keeps R hbody hg hst hafter
            exact R.context hI

mutual

/-- What the emissions keep, an expansion keeps. -/
theorem expand_keeps (R : ExpansionRule P skill handles Ok G I) :
    ∀ (steps : List SkillStep), (∀ s ∈ walkAll steps, Ok s) →
      Branch.Keeps G I (expand P skill handles steps)
  | [], _ => by
    intro g st st' _ hst h
    cases h
    exact hst
  | step :: steps, hok => by
    intro g st st' hg hst h
    have hstep : ∀ s ∈ step.walk, Ok s := fun s hs => hok s (by simp [walkAll, hs])
    have hrest : ∀ s ∈ walkAll steps, Ok s := fun s hs => hok s (by simp [walkAll, hs])
    unfold expand at h
    split at h
    · cases h
    · rename_i mid hmid
      have hI : I mid := expandStep_keeps R step hstep g st mid hg hst hmid
      split at h
      · cases h
      · exact expand_keeps R steps hrest g mid st' hg hI h

theorem expandStep_keeps (R : ExpansionRule P skill handles Ok G I) :
    ∀ (step : SkillStep), (∀ s ∈ step.walk, Ok s) →
      Branch.Keeps G I (expandStep P skill handles step)
  | .mk primitive args id own then_ otherwise, hok => by
    intro g st st' hg hst h
    have hself : Ok (.mk primitive args id own then_ otherwise) :=
      hok _ (by simp [SkillStep.walk])
    have hthen : Branch.Keeps G I (expand P skill handles then_) :=
      expand_keeps R then_ fun s hs => hok s (by simp [SkillStep.walk, hs])
    have helse : Branch.Keeps G I (expand P skill handles otherwise) :=
      expand_keeps R otherwise fun s hs => hok s (by simp [SkillStep.walk, hs])
    unfold expandStep at h
    split at h
    · exact expandIf_keeps R hthen helse _ _ _ (R.inside hg) hst h
    · split at h
      · exact expandForeach_keeps R hthen _ _ _ (R.inside hg) hst h
      · exact R.emit hself hg hst h

end

end Keeps

/-! ## Where the steps of a plan come from -/

/-- The text a condition adds to the guard of a step; a condition decided at compile
    time adds none, and neither does the `when` of a control step. -/
def Guard.text : Guard → Option String
  | .own _ text => some text
  | .branch _ _ side condition => some (if side then condition else "not " ++ condition)
  | .early _ _ _ => none
  | .control _ _ => none

/-- The guard of a step under these conditions. -/
def guardText (guards : List Guard) : Option String :=
  (guards.filterMap Guard.text).foldl (fun outer inner => combine outer (some inner)) none

/-- A condition decided at compile time was decided for the side the step is on, and one
    that is left to the run refers to the output of a step. -/
def Guard.Decided (P : Python) : Guard → Prop
  | .early context side condition =>
    ∃ source, evaluate P (find context) source condition = .ok side
  | .branch _ _ _ condition => hasLateReference P condition = true
  | _ => True

/-- How a step of the plan comes from where it was emitted. -/
structure Emitted (P : Python) (skill : Skill) (leaf : Leaf) (step : Step) : Prop where
  origin : ∃ own then_ otherwise,
    SkillStep.mk leaf.primitive leaf.args leaf.id own then_ otherwise ∈ walkAll skill.steps
  rendered : renderFields P (find leaf.context) (sourceOf skill leaf.primitive leaf.id) leaf.args =
    .ok step.args
  primitive_eq : step.primitive = leaf.primitive
  risk_eq : step.risk = riskOf P step.primitive step.args
  when_eq : step.when = guardText leaf.guards
  decided : ∀ guard ∈ leaf.guards, guard.Decided P

/-- The steps in the order they are emitted, and those that are marked. -/
structure Expanded (P : Python) (skill : Skill) (handles : List String) (st : Expander) : Prop where
  emitted : List.Forall₂ (Emitted P skill) st.leaves st.steps
  marked : st.secretSteps =
    (st.steps.filter fun step => anyFieldCarries handles step.args).map (·.id)

/-- A guard is the text of its conditions, and never the empty text. -/
structure Guarded (P : Python) (g : Guarding) : Prop where
  when_eq : g.when = guardText g.guards
  nonempty : g.when ≠ some ""
  decided : ∀ guard ∈ g.guards, guard.Decided P

theorem combine_some_ne_empty {outer : Option String} {inner : String} (h : inner ≠ "") :
    combine outer (some inner) ≠ some "" := by
  cases outer with
  | none => simpa [combine] using h
  | some text =>
    simp only [combine, if_neg h]
    split
    · simpa using h
    · intro hempty
      have hlen := congrArg String.length (Option.some.inj hempty)
      simp at hlen

theorem combine_none_right {outer : Option String} (h : outer ≠ some "") :
    combine outer none = outer := by
  cases outer with
  | none => rfl
  | some text =>
    have htext : text ≠ "" := fun he => h (by rw [he])
    simp [combine, htext]

theorem guardText_append_some {guards : List Guard} {guard : Guard} {text : String}
    (h : guard.text = some text) :
    guardText (guards ++ [guard]) = combine (guardText guards) (some text) := by
  simp [guardText, List.filterMap_append, h]

theorem guardText_append_none {guards : List Guard} {guard : Guard} (h : guard.text = none) :
    guardText (guards ++ [guard]) = guardText guards := by
  simp [guardText, List.filterMap_append, h]

/-- A condition that refers to the output of a step is not empty. -/
theorem ne_empty_of_hasLateReference {condition : String}
    (h : hasLateReference P condition = true) : condition ≠ "" := by
  rintro rfl
  simp [hasLateReference, references, Placeholders.refs] at h

theorem Guarded.start : Guarded P {} where
  when_eq := rfl
  nonempty := by simp
  decided := by simp

/-- A condition that adds no text. -/
theorem Guarded.silent {g : Guarding} {guard : Guard} (h : Guarded P g) (htext : guard.text = none)
    (hdecided : guard.Decided P) : Guarded P { g with guards := g.guards ++ [guard] } where
  when_eq := by
    rw [guardText_append_none htext]
    exact h.when_eq
  nonempty := h.nonempty
  decided := by
    intro other hother
    rcases List.mem_append.mp hother with hin | hin
    · exact h.decided other hin
    · rw [List.mem_singleton.mp hin]
      exact hdecided

theorem Guarded.late {g : Guarding} {context : Bindings} {start : Nat} {side : Bool}
    {condition : String} (h : Guarded P g) (hlate : hasLateReference P condition = true) :
    Guarded P (g.late context start side condition) where
  when_eq := by
    have htext : (Guard.branch context start side condition).text =
        some (if side then condition else "not " ++ condition) := rfl
    rw [Guarding.late, guardText_append_some htext, h.when_eq]
  nonempty := by
    apply combine_some_ne_empty
    cases side with
    | true => exact ne_empty_of_hasLateReference hlate
    | false =>
      intro hempty
      have hlen := congrArg String.length hempty
      simp at hlen
  decided := by
    intro guard hguard
    rcases List.mem_append.mp hguard with hin | hin
    · exact h.decided guard hin
    · rw [List.mem_singleton.mp hin]
      exact hlate

theorem Guarded.inside {g : Guarding} {context : Bindings} {own : Option String}
    (h : Guarded P g) : Guarded P (g.inside context own) := by
  cases own with
  | none => simpa [Guarding.inside] using h
  | some text => exact h.silent rfl trivial

/-- The guard of a step is the text of the conditions around it. -/
theorem Guarded.own {g : Guarding} (h : Guarded P g) (context : Bindings)
    (own : Option String) :
    combine g.when own = guardText (g.guards ++ own.toList.map (.own context)) := by
  cases own with
  | none =>
    rw [combine_none_right h.nonempty, h.when_eq]
    simp
  | some text =>
    have htext : (Guard.own context text).text = some text := rfl
    have happend : guardText (g.guards ++ [.own context text]) =
        combine (guardText g.guards) (some text) := guardText_append_some htext
    rw [h.when_eq]
    simpa using happend.symm

/-- What `_emit` does. -/
theorem emit_cases {primitive : String} {args : Bindings} {id own : Option String} {g : Guarding}
    {st st' : Expander} (h : emit P skill handles primitive args id own g st = .ok st') :
    ∃ step : Step, renderFields P (find st.context) (sourceOf skill primitive id) args =
        .ok step.args ∧
      step.primitive = primitive ∧ step.risk = riskOf P primitive step.args ∧
      step.when = combine g.when own ∧ st'.context = st.context ∧
      st'.steps = st.steps ++ [step] ∧
      st'.secretSteps = st.secretSteps ++
        (if anyFieldCarries handles step.args then [step.id] else []) ∧
      st'.leaves = st.leaves ++ [{ primitive, args, id, context := st.context
                                   guards := g.guards ++ own.toList.map (.own st.context) }] := by
  unfold emit at h
  split at h
  · cases h
  · rename_i rendered hrendered
    simp only at h
    split at h
    · cases h
      refine ⟨_, hrendered, rfl, rfl, rfl, rfl, rfl, ?_, rfl⟩
      cases anyFieldCarries handles rendered <;> simp
    · cases h

theorem emit_expanded {primitive : String} {args : Bindings} {id own : Option String}
    {then_ otherwise : List SkillStep} {g : Guarding} {st st' : Expander}
    (hmem : SkillStep.mk primitive args id own then_ otherwise ∈ walkAll skill.steps)
    (hg : Guarded P g) (hst : Expanded P skill handles st)
    (h : emit P skill handles primitive args id own g st = .ok st') :
    Expanded P skill handles st' := by
  obtain ⟨step, hrendered, hprimitive, hrisk, hwhen, -, hsteps, hsecret, hleaves⟩ := emit_cases h
  have hemitted : Emitted P skill { primitive, args, id, context := st.context
                                    guards := g.guards ++ own.toList.map (.own st.context) } step :=
    { origin := ⟨own, then_, otherwise, hmem⟩
      rendered := hrendered
      primitive_eq := hprimitive
      risk_eq := by rw [hrisk, hprimitive]
      when_eq := hwhen.trans (hg.own st.context own)
      decided := by
        intro guard hguard
        rcases List.mem_append.mp hguard with hin | hin
        · exact hg.decided guard hin
        · obtain ⟨text, -, rfl⟩ := List.mem_map.mp hin
          trivial }
  constructor
  · rw [hleaves, hsteps]
    exact List.rel_append hst.emitted (.cons hemitted .nil)
  · rw [hsecret, hsteps, hst.marked]
    cases hcarries : anyFieldCarries handles step.args <;> simp [hcarries]

/-- An expansion of the steps of a skill accounts for every step. -/
theorem expand_expanded {context : Bindings} {st : Expander}
    (h : expand P skill handles skill.steps {} { context } = .ok st) :
    Expanded P skill handles st := by
  have rule : ExpansionRule P skill handles (· ∈ walkAll skill.steps) (Guarded P)
      (Expanded P skill handles) :=
    { context := fun hst => ⟨hst.emitted, hst.marked⟩
      late := fun hlate hg => hg.late hlate
      early := fun heval hg => hg.silent rfl ⟨_, heval⟩
      inside := fun hg => hg.inside
      emit := fun hmem hg hst he => emit_expanded hmem hg hst he }
  exact expand_keeps rule skill.steps (fun _ hs => hs) {} _ _ .start ⟨.nil, rfl⟩ h

/-! ## Compilation -/

/-- Where the steps of a skill are emitted for these inputs. -/
def leavesOf (P : Python) (skill : Skill) (inputs : Bindings) : List Leaf :=
  match bindInputs P skill inputs with
  | .error _ => []
  | .ok (context, handles) =>
    match expand P skill (handles.map (·.2)) skill.steps {} { context } with
    | .error _ => []
    | .ok st => st.leaves

variable {digest : String → String → List String → String} {inputs : Bindings} {jobId : String}
  {now : DateTime} {compiled : CompiledSkill}

/-- What a compilation goes through. -/
theorem compileSkill_cases (h : compileSkill P digest skill inputs jobId now = .ok compiled) :
    ∃ context st, bindInputs P skill inputs = .ok (context, compiled.secretHandles) ∧
      expand P skill (compiled.secretHandles.map (·.2)) skill.steps {} { context } = .ok st ∧
      compiled.plan.steps = st.steps ∧ compiled.secretSteps = st.secretSteps := by
  unfold compileSkill at h
  cases hbind : bindInputs P skill inputs with
  | error e => simp [hbind, bind, Except.bind] at h
  | ok bound =>
    obtain ⟨context, handles⟩ := bound
    simp only [hbind, bind, Except.bind] at h
    cases hexpand : expand P skill (handles.map (·.2)) skill.steps {} { context } with
    | error e => simp [hexpand] at h
    | ok st =>
      simp only [hexpand] at h
      split at h
      · cases h
      · split at h
        · cases h
        · rename_i plan hplan
          cases h
          refine ⟨context, st, rfl, hexpand, ?_, rfl⟩
          unfold skillPlan at hplan
          split at hplan
          · rename_i heq
            cases hplan
            have hsteps := Plan.ofSteps_steps heq
            exact hsteps
          · cases hplan

/-- The leaves of a compilation are the steps of its plan, one for one. -/
theorem compileSkill_emitted (h : compileSkill P digest skill inputs jobId now = .ok compiled) :
    List.Forall₂ (Emitted P skill) (leavesOf P skill inputs) compiled.plan.steps := by
  obtain ⟨context, st, hbind, hexpand, hsteps, -⟩ := compileSkill_cases h
  have hleaves : leavesOf P skill inputs = st.leaves := by
    simp only [leavesOf, hbind, hexpand]
  rw [hleaves, hsteps]
  exact (expand_expanded hexpand).emitted

/-- The steps that carry a handle, and no others, are marked. -/
theorem compileSkill_marked (h : compileSkill P digest skill inputs jobId now = .ok compiled) :
    compiled.secretSteps = (compiled.plan.steps.filter fun step =>
      anyFieldCarries (compiled.secretHandles.map (·.2)) step.args).map (·.id) := by
  obtain ⟨context, st, -, hexpand, hsteps, hsecret⟩ := compileSkill_cases h
  rw [hsecret, hsteps]
  exact (expand_expanded hexpand).marked

/-- The step of the plan and its leaf, by their place. -/
theorem compileSkill_emitted_at (h : compileSkill P digest skill inputs jobId now = .ok compiled)
    {i : Nat} {leaf : Leaf} {step : Step} (hleaf : (leavesOf P skill inputs)[i]? = some leaf)
    (hstep : compiled.plan.steps[i]? = some step) : Emitted P skill leaf step := by
  have hall := List.forall₂_iff_get.mp (compileSkill_emitted h)
  obtain ⟨hi, rfl⟩ := List.getElem?_eq_some_iff.mp hleaf
  obtain ⟨hi', rfl⟩ := List.getElem?_eq_some_iff.mp hstep
  simpa using hall.2 i hi hi'

end Skills

end Slas
