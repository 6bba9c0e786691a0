/-
  Slas.Skills.Enablement

  For which agents a skill is turned on (`slas_skills.state`): the record that is kept
  beside each skill file of a library, and the calls that change it.

  An import takes over the switches of the record it replaces when the skill did not
  grow, and `enable` asks the skill it is given, not the record.  So the record is on for
  agents it does not list when an import drops an agent that is on, or when `enable` is
  given another version than the recorded one; and only then (`follows_iff`).
-/

import Mathlib.Logic.Function.Basic
import Slas.Lib.Dict
import Slas.Lib.Runs
import Slas.Skills.Schema

namespace Slas

namespace Skills

/-! ## Skills that are imported -/

inductive SkillAgent where
  | coding
  | validation
  | factory
  deriving DecidableEq

/-- `AGENT_LABEL` -/
def SkillAgent.label : SkillAgent → String
  | .coding => "the Coding Agent"
  | .validation => "the Validation Agent"
  | .factory => "the Factory Agent"

/-- `SKILL_REQUIRES`: what a skill file may list under `requires`. -/
inductive SkillRequires where
  | screen
  | ssh
  | redfish
  | files
  | network
  deriving DecidableEq

def SkillRequires.value : SkillRequires → String
  | .screen => "screen"
  | .ssh => "ssh"
  | .redfish => "redfish"
  | .files => "files"
  | .network => "network"

/-- A skill with the agents and the capabilities its author lists. -/
structure ImportedSkill extends Skill where
  agents : List SkillAgent
  requires : List SkillRequires := []
  agents_listed : agents ≠ []
  agents_distinct : agents.Nodup
  requires_distinct : requires.Nodup

/-! ## The record -/

structure EnabledMark where
  by_ : String
  at_ : DateTime
  signed : by_ ≠ ""

structure SkillState where
  skillId : String
  version : String
  importedBy : String
  importedAt : DateTime
  agents : List SkillAgent
  requires : List String := []
  risk : Risk := .safe
  enabled : List (SkillAgent × EnabledMark) := []
  resetReason : Option String := none
  signed : importedBy ≠ ""

def SkillState.isEnabled (state : SkillState) (agent : SkillAgent) : Bool :=
  decide (agent ∈ Dict.keys state.enabled)

/-- The records of a library, under the ids of the skills. -/
abbrev StateStore := String → Option SkillState

def StateStore.save (state : SkillState) (store : StateStore) : StateStore :=
  Function.update store state.skillId (some state)

inductive StateFailure where
  /-- `SkillStateError` -/
  | refused (message : ThreePartMessage)
  /-- the record does not validate -/
  | invalid

variable (P : Python)

/-- `skill_risk` -/
def skillRisk (skill : ImportedSkill) : Risk := importRisk P skill.steps

/-- In what a skill grew, compared with a record. -/
def grew (previous : SkillState) (skill : ImportedSkill) : List String :=
  (if skill.agents ⊆ previous.agents then [] else ["works with more agents"]) ++
  (if skill.requires.map (·.value) ⊆ previous.requires then []
    else ["needs more capabilities"]) ++
  (if previous.risk.order < (skillRisk P skill).order then
    ["is riskier (" ++ previous.risk.value ++ " → " ++ (skillRisk P skill).value ++ ")"]
  else [])

/-- A record that is off for every agent. -/
def freshState (skill : ImportedSkill) (by_ : String) (now : DateTime) (h : by_ ≠ "") :
    SkillState where
  skillId := skill.id
  version := skill.version
  importedBy := by_
  importedAt := now
  agents := skill.agents
  requires := skill.requires.map (·.value)
  risk := skillRisk P skill
  signed := h

/-- What `record_import` saves. -/
def importedState (previous : Option SkillState) (fresh : SkillState) (skill : ImportedSkill) :
    SkillState :=
  match previous with
  | none => fresh
  | some previous =>
    if grew P previous skill ≠ [] then
      { fresh with resetReason := some ("Version " ++ skill.version ++ " " ++
          ", ".intercalate (grew P previous skill) ++ " compared with " ++ previous.version ++
          ", so it starts off for every agent.") }
    else { fresh with enabled := previous.enabled }

def recordImport (skill : ImportedSkill) (by_ : String) (now : DateTime) (store : StateStore) :
    Except StateFailure SkillState × StateStore :=
  if h : by_ ≠ "" then
    let state := importedState P (store skill.id) (freshState P skill by_ now h) skill
    (.ok state, store.save state)
  else (.error .invalid, store)

def notAllowed (skill : ImportedSkill) (agent : SkillAgent) : ThreePartMessage where
  whatHappened := skill.name ++ " can't be turned on for " ++ agent.label ++ "."
  likelyCause := "Its author allows only " ++ ", ".intercalate (skill.agents.map (·.label)) ++ "."
  whatToDo := "Ask the author for a version that lists that agent, or use it where it is allowed."

/-- `_existing` -/
def noRecord (skillId : String) : ThreePartMessage where
  whatHappened := "There is no record for the skill " ++ skillId ++ " on this installation."
  likelyCause := "It was never imported here, or its record was removed by hand."
  whatToDo := "Import the skill under Skills; the record is created with it."

def enable (skill : ImportedSkill) (agent : SkillAgent) (by_ : String) (now : DateTime)
    (store : StateStore) : Except StateFailure SkillState × StateStore :=
  match store skill.id with
  | none => (.error (.refused (noRecord skill.id)), store)
  | some state =>
    if agent ∉ skill.agents then (.error (.refused (notAllowed skill agent)), store)
    else if h : by_ ≠ "" then
      let on : SkillState :=
        { state with
          enabled := Dict.set agent { by_, at_ := now, signed := h } state.enabled
          resetReason := none }
      (.ok on, store.save on)
    else (.error .invalid, store)

def disable (skillId : String) (agent : SkillAgent) (store : StateStore) :
    Except StateFailure SkillState × StateStore :=
  match store skillId with
  | none => (.error (.refused (noRecord skillId)), store)
  | some state =>
    let off := { state with enabled := Dict.pop agent state.enabled }
    (.ok off, store.save off)

/-! ## Runs -/

inductive StateCall where
  | recordImport (skill : ImportedSkill) (by_ : String) (now : DateTime)
  | enable (skill : ImportedSkill) (agent : SkillAgent) (by_ : String) (now : DateTime)
  | disable (skillId : String) (agent : SkillAgent)

def StateCall.perform (store : StateStore) : StateCall → StateStore
  | .recordImport skill by_ now => (Skills.recordImport P skill by_ now store).2
  | .enable skill agent by_ now => (Skills.enable skill agent by_ now store).2
  | .disable skillId agent => (Skills.disable skillId agent store).2

/-- The records after the calls, in a library that had none. -/
def records (calls : List StateCall) : StateStore :=
  Runs.run (StateCall.perform P) (fun _ => none) calls

/-! ## Enabled agents are listed agents -/

/-- Every record is under the id of its skill. -/
def Filed (store : StateStore) : Prop :=
  ∀ id state, store id = some state → state.skillId = id

/-- A skill is on only for agents that its record lists. -/
def Follows (store : StateStore) : Prop :=
  ∀ id state, store id = some state → ∀ agent, state.isEnabled agent = true → agent ∈ state.agents

/-- A record that replaces another one takes over no switch that it has no agent for, and a
    switch is turned on for an agent of the record. -/
def StateCall.Listed (store : StateStore) : StateCall → Prop
  | .recordImport skill by_ _ => by_ ≠ "" → ∀ previous, store skill.id = some previous →
      grew P previous skill = [] → ∀ agent, previous.isEnabled agent = true → agent ∈ skill.agents
  | .enable skill agent by_ _ => by_ ≠ "" → agent ∈ skill.agents →
      ∀ state, store skill.id = some state → agent ∈ state.agents
  | .disable _ _ => True

/-- The call turns a skill on for an agent. -/
def StateCall.Enables (id : String) : StateCall → Prop
  | .enable skill _ _ _ => skill.id = id
  | _ => False

variable {P} {store : StateStore} {state : SkillState} {id : String} {agent : SkillAgent}

theorem isEnabled_iff : state.isEnabled agent = true ↔ agent ∈ Dict.keys state.enabled :=
  decide_eq_true_iff

/-- What is saved is the one record that changes. -/
theorem save_eq_some {saved : SkillState} :
    store.save saved id = some state ↔
      id = saved.skillId ∧ state = saved ∨ id ≠ saved.skillId ∧ store id = some state := by
  by_cases h : id = saved.skillId
  · simp [StateStore.save, h, eq_comm]
  · simp [StateStore.save, h]

theorem Filed.save (h : Filed store) (saved : SkillState) : Filed (store.save saved) := by
  intro id state hstate
  rcases save_eq_some.mp hstate with ⟨rfl, rfl⟩ | ⟨-, hstate⟩
  · rfl
  · exact h id state hstate

/-- The records follow after a record was saved exactly when that one does. -/
theorem Follows.save_iff (h : Follows store) (saved : SkillState) :
    Follows (store.save saved) ↔ ∀ agent, saved.isEnabled agent = true → agent ∈ saved.agents := by
  constructor
  · exact fun hfollows => hfollows saved.skillId saved (save_eq_some.mpr (Or.inl ⟨rfl, rfl⟩))
  · intro hsaved id state hstate
    rcases save_eq_some.mp hstate with ⟨-, rfl⟩ | ⟨-, hstate⟩
    · exact hsaved
    · exact h id state hstate

/-- What an import saves: a record of the skill, with the switches of the one it replaces
    when the skill did not grow. -/
theorem importedState_spec (previous : Option SkillState) (skill : ImportedSkill) (by_ : String)
    (now : DateTime) (h : by_ ≠ "") :
    let state := importedState P previous (freshState P skill by_ now h) skill
    state.skillId = skill.id ∧ state.agents = skill.agents ∧
      ∀ agent, state.isEnabled agent = true ↔
        ∃ old, previous = some old ∧ grew P old skill = [] ∧ old.isEnabled agent = true := by
  cases previous with
  | none => simp [importedState, freshState, SkillState.isEnabled, Dict.keys]
  | some old =>
    simp only [importedState]
    split_ifs with hgrew
    · simp [freshState, SkillState.isEnabled, Dict.keys, hgrew]
    · simp [freshState, SkillState.isEnabled, not_not.mp hgrew]

theorem recordImport_cases (skill : ImportedSkill) (by_ : String) (now : DateTime)
    (store : StateStore) :
    (by_ = "" ∧ (recordImport P skill by_ now store).2 = store) ∨
      by_ ≠ "" ∧ ∃ state, (recordImport P skill by_ now store).2 = store.save state ∧
        state.skillId = skill.id ∧ state.agents = skill.agents ∧
        ∀ agent, state.isEnabled agent = true ↔
          ∃ old, store skill.id = some old ∧ grew P old skill = [] ∧
            old.isEnabled agent = true := by
  by_cases h : by_ = ""
  · exact Or.inl ⟨h, by simp [recordImport, h]⟩
  · refine Or.inr ⟨h, importedState P (store skill.id) (freshState P skill by_ now h) skill, ?_,
      importedState_spec (store skill.id) skill by_ now h⟩
    simp [recordImport, h]

theorem enable_cases (skill : ImportedSkill) (agent : SkillAgent) (by_ : String) (now : DateTime)
    (store : StateStore) :
    (enable skill agent by_ now store).2 = store ∧
        (by_ = "" ∨ agent ∉ skill.agents ∨ store skill.id = none) ∨
      ∃ old state, by_ ≠ "" ∧ agent ∈ skill.agents ∧ store skill.id = some old ∧
        (enable skill agent by_ now store).2 = store.save state ∧ state.skillId = old.skillId ∧
        state.agents = old.agents ∧
        ∀ other, state.isEnabled other = true ↔ other = agent ∨ old.isEnabled other = true := by
  unfold enable
  split
  · rename_i hnone
    exact Or.inl ⟨rfl, Or.inr (Or.inr hnone)⟩
  · rename_i old hold
    by_cases hagent : agent ∈ skill.agents
    · by_cases hby : by_ = ""
      · simp [hagent, hby]
      · refine Or.inr ⟨old, { old with
          enabled := Dict.set agent { by_, at_ := now, signed := hby } old.enabled
          resetReason := none }, hby, hagent, hold, by simp [hagent, hby], rfl, rfl, fun other => ?_⟩
        rw [isEnabled_iff, isEnabled_iff, Dict.mem_keys_set]
    · exact Or.inl ⟨by simp [hagent], Or.inr (Or.inl hagent)⟩

theorem disable_cases (skillId : String) (agent : SkillAgent) (store : StateStore) :
    (disable skillId agent store).2 = store ∨
      ∃ old state, store skillId = some old ∧ (disable skillId agent store).2 = store.save state ∧
        state.skillId = old.skillId ∧ state.agents = old.agents ∧
        ∀ other, state.isEnabled other = true → old.isEnabled other = true := by
  unfold disable
  split
  · exact Or.inl rfl
  · rename_i old hold
    refine Or.inr ⟨old, _, hold, rfl, rfl, rfl, fun other hother => ?_⟩
    rw [isEnabled_iff] at hother ⊢
    exact (Dict.mem_keys_pop.mp hother).2

theorem StateCall.perform_filed (h : Filed store) (call : StateCall) :
    Filed (call.perform P store) := by
  cases call with
  | recordImport skill by_ now =>
    rcases recordImport_cases (P := P) skill by_ now store with ⟨-, heq⟩ | ⟨-, state, heq, -⟩
    · rwa [perform, heq]
    · rw [perform, heq]
      exact h.save state
  | enable skill agent by_ now =>
    rcases enable_cases skill agent by_ now store with ⟨heq, -⟩ | ⟨_, state, -, -, -, heq, -⟩
    · rwa [perform, heq]
    · rw [perform, heq]
      exact h.save state
  | disable skillId agent =>
    rcases disable_cases skillId agent store with heq | ⟨_, state, -, heq, -⟩
    · rwa [perform, heq]
    · rw [perform, heq]
      exact h.save state

/-- A call leaves records that follow exactly when it is `Listed`. -/
theorem StateCall.perform_follows (h : Follows store) (call : StateCall) :
    Follows (call.perform P store) ↔ call.Listed P store := by
  cases call with
  | recordImport skill by_ now =>
    rcases recordImport_cases (P := P) skill by_ now store with
      ⟨hby, heq⟩ | ⟨hby, state, heq, -, hagents, hon⟩
    · rw [perform, heq]
      exact iff_of_true h fun hne => absurd hby hne
    · rw [perform, heq, h.save_iff, hagents]
      constructor
      · exact fun hlisted _ previous hprevious hsame agent hagent =>
          hlisted agent ((hon agent).mpr ⟨previous, hprevious, hsame, hagent⟩)
      · intro hlisted agent hagent
        obtain ⟨old, hold, hsame, hagent⟩ := (hon agent).mp hagent
        exact hlisted hby old hold hsame agent hagent
  | enable skill agent by_ now =>
    rcases enable_cases skill agent by_ now store with
      ⟨heq, hwhy⟩ | ⟨old, state, hby, hagent, hold, heq, -, hagents, hon⟩
    · rw [perform, heq]
      refine iff_of_true h fun hby hagent state hstate => ?_
      rcases hwhy with hempty | hnot | hnone
      · exact absurd hempty hby
      · exact absurd hagent hnot
      · rw [hnone] at hstate
        cases hstate
    · rw [perform, heq, h.save_iff, hagents]
      constructor
      · intro hlisted _ _ state' hstate'
        rw [hold, Option.some.injEq] at hstate'
        exact hstate' ▸ hlisted agent ((hon agent).mpr (Or.inl rfl))
      · intro hlisted other hother
        rcases (hon other).mp hother with rfl | hother
        · exact hlisted hby hagent old hold
        · exact h skill.id old hold other hother
  | disable skillId agent =>
    rcases disable_cases skillId agent store with heq | ⟨old, state, hold, heq, -, hagents, hon⟩
    · rw [perform, heq]
      exact iff_of_true h trivial
    · rw [perform, heq, h.save_iff, hagents]
      exact iff_of_true (fun other hother => h skillId old hold other (hon other hother)) trivial

/-! ## A skill that grew is off -/

/-- A skill allows more agents, needs more capabilities or is riskier than a record says. -/
def Grown (P : Python) (previous : SkillState) (skill : ImportedSkill) : Prop :=
  (∃ agent ∈ skill.agents, agent ∉ previous.agents) ∨
    (∃ needed ∈ skill.requires.map (·.value), needed ∉ previous.requires) ∨
    previous.risk.order < (skillRisk P skill).order

/-- A skill is off for every agent. -/
def Off (id : String) (store : StateStore) : Prop :=
  ∃ state, store id = some state ∧ ∀ agent, state.isEnabled agent = false

theorem grew_ne_nil_iff {previous : SkillState} {skill : ImportedSkill} :
    grew P previous skill ≠ [] ↔ Grown P previous skill := by
  unfold grew Grown
  rw [← not_iff_not]
  simp only [ne_eq, List.append_eq_nil_iff, ite_eq_left_iff, ite_eq_right_iff, not_not,
    List.cons_ne_nil, imp_false, not_or, not_exists, not_and, List.subset_def, and_assoc,
    Classical.not_imp]

theorem off_save {saved : SkillState} (h : Off id store)
    (hsaved : saved.skillId = id → ∀ agent, saved.isEnabled agent = false) :
    Off id (store.save saved) := by
  obtain ⟨state, hstate, hoff⟩ := h
  by_cases hid : id = saved.skillId
  · exact ⟨saved, save_eq_some.mpr (Or.inl ⟨hid, rfl⟩), hsaved hid.symm⟩
  · exact ⟨state, save_eq_some.mpr (Or.inr ⟨hid, hstate⟩), hoff⟩

/-- What is off stays off until it is turned on. -/
theorem StateCall.perform_off (hfiled : Filed store) (h : Off id store) {call : StateCall}
    (hcall : ¬ call.Enables id) : Off id (call.perform P store) := by
  have ⟨current, hcurrent, hoff⟩ := h
  cases call with
  | recordImport skill by_ now =>
    rcases recordImport_cases (P := P) skill by_ now store with
      ⟨-, heq⟩ | ⟨-, state, heq, hid, -, hon⟩
    · rwa [perform, heq]
    · rw [perform, heq]
      refine off_save h fun hsame agent => Bool.eq_false_iff.mpr fun hagent => ?_
      obtain ⟨old, hold, -, hagent⟩ := (hon agent).mp hagent
      rw [← hid, hsame, hcurrent, Option.some.injEq] at hold
      exact Bool.eq_false_iff.mp (hoff agent) (hold ▸ hagent)
  | enable skill agent by_ now =>
    rcases enable_cases skill agent by_ now store with
      ⟨heq, -⟩ | ⟨old, state, -, -, hold, heq, hid, -⟩
    · rwa [perform, heq]
    · rw [perform, heq]
      refine off_save h fun hsame => absurd ?_ hcall
      exact (hfiled _ _ hold).symm.trans (hid.symm.trans hsame)
  | disable skillId agent =>
    rcases disable_cases skillId agent store with heq | ⟨old, state, hold, heq, hid, -, hon⟩
    · rwa [perform, heq]
    · rw [perform, heq]
      refine off_save h fun hsame other => Bool.eq_false_iff.mpr fun hother => ?_
      have hkey : skillId = id := (hfiled _ _ hold).symm.trans (hid.symm.trans hsame)
      rw [hkey, hcurrent, Option.some.injEq] at hold
      exact Bool.eq_false_iff.mp (hoff other) (hold ▸ hon other hother)

theorem recordImport_grown {skill : ImportedSkill} {by_ : String} {now : DateTime}
    {previous : SkillState} (hby : by_ ≠ "") (hprevious : store skill.id = some previous)
    (hgrown : Grown P previous skill) :
    Off skill.id ((StateCall.recordImport skill by_ now).perform P store) := by
  rcases recordImport_cases (P := P) skill by_ now store with ⟨hempty, -⟩ |
    ⟨-, state, heq, hid, -, hon⟩
  · exact absurd hempty hby
  · refine ⟨state, ?_, fun agent => Bool.eq_false_iff.mpr fun hagent => ?_⟩
    · rw [StateCall.perform, heq]
      exact save_eq_some.mpr (Or.inl ⟨hid.symm, rfl⟩)
    · obtain ⟨old, hold, hsame, -⟩ := (hon agent).mp hagent
      rw [hprevious, Option.some.injEq] at hold
      exact grew_ne_nil_iff.mpr hgrown (hold ▸ hsame)

/-! ## Runs -/

theorem filed_records (calls : List StateCall) : Filed (records P calls) :=
  Runs.invariant (fun _ call h => call.perform_filed h) (fun _ _ h => nomatch h) calls

/-- Over any calls, the records follow throughout exactly when every call is `Listed` in the
    records it finds; and a skill that grew is off until it is turned on. -/
theorem follows_iff (P : Python) (calls : List StateCall) :
    (Runs.Throughout (StateCall.perform P) Follows (fun _ => none) calls ↔
      Runs.Meets (StateCall.perform P) (fun store call => call.Listed P store) (fun _ => none)
        calls) ∧
    ∀ pre skill by_ now rest previous, calls = pre ++ .recordImport skill by_ now :: rest →
      by_ ≠ "" → records P pre skill.id = some previous → Grown P previous skill →
      (∀ call ∈ rest, ¬ call.Enables skill.id) → Off skill.id (records P calls) := by
  constructor
  · exact Runs.throughout_iff (fun _ call h => call.perform_follows h) fun _ _ h => nomatch h
  · rintro pre skill by_ now rest previous rfl hby hprevious hgrown hrest
    have hfiled := filed_records (P := P) (pre ++ [.recordImport skill by_ now])
    have hoff : Off skill.id (records P (pre ++ [.recordImport skill by_ now])) := by
      rw [records, Runs.run_snoc]
      exact recordImport_grown hby hprevious hgrown
    rw [List.append_cons, records, Runs.run_append]
    change Off skill.id (Runs.run _ (records P (pre ++ [.recordImport skill by_ now])) rest)
    generalize records P (pre ++ [.recordImport skill by_ now]) = store at hfiled hoff
    induction rest generalizing store with
    | nil => exact hoff
    | cons call rest ih =>
      rw [List.forall_mem_cons] at hrest
      exact ih hrest.2 _ (call.perform_filed hfiled)
        (call.perform_off hfiled hoff hrest.1)

/-- A version of a skill that reads the power state, for some agents. -/
def inspecting (version : String) (agents : List SkillAgent) (hne : agents ≠ [])
    (hnodup : agents.Nodup) : ImportedSkill where
  id := "inspect"
  name := "Inspect"
  version := version
  steps := [.mk "redfish" [("target", .str "bmc"), ("action", .str "get_power_state")] none none
    [] []]
  agents := agents
  agents_listed := hne
  agents_distinct := hnodup
  requires_distinct := List.nodup_nil

/-- The Validation Agent is turned on, and the next version is for the Coding Agent only. -/
def narrowing : List StateCall :=
  [.recordImport (inspecting "1.0.0" [.coding, .validation] (by decide) (by decide)) "lee" 0,
   .enable (inspecting "1.0.0" [.coding, .validation] (by decide) (by decide)) .validation "lee" 1,
   .recordImport (inspecting "1.1.0" [.coding] (by decide) (by decide)) "lee" 2]

theorem narrowing_stays_on :
    ∃ state, records .plain narrowing "inspect" = some state ∧ state.version = "1.1.0" ∧
      state.isEnabled .validation = true ∧ .validation ∉ state.agents := by
  refine ⟨_, rfl, ?_, ?_, ?_⟩
  · decide
  · decide
  · decide

end Skills

end Slas
