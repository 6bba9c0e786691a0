/-
  Slas.Skills.Secrets

  What a compilation takes from the inputs: their names, the values of those that are no
  secrets, and of each secret whether it is given (`bindInputs_congr`).  A secret that is
  `None` counts as not given.
-/

import Slas.Skills.Compiler

namespace Slas

namespace Skills

variable {P : Python} {skill : Skill} {given given' : Bindings}

/-- Two assignments of the same names, which agree on every input that is no secret. -/
structure SameButSecrets (skill : Skill) (given given' : Bindings) : Prop where
  names : ∀ name, name ∈ given.map (·.1) ↔ name ∈ given'.map (·.1)
  values : ∀ name spec, (name, spec) ∈ skill.inputs → spec.type ≠ .secret →
    given.lookup name = given'.lookup name

/-- Each secret is given in both assignments or in neither. -/
def SameSecretsGiven (skill : Skill) (given given' : Bindings) : Prop :=
  ∀ name spec, (name, spec) ∈ skill.inputs → spec.type = .secret →
    ((present given name).isSome ↔ (present given' name).isSome)

/-! ## The names -/

theorem nodup_eraseDups (names : List String) : names.eraseDups.Nodup := by
  induction hn : names.length using Nat.strongRecOn generalizing names with
  | ind n ih =>
    cases names with
    | nil => simp
    | cons name names =>
      rw [List.eraseDups_cons, List.nodup_cons]
      constructor
      · simp
      · have hle := List.length_filter_le (fun b => !b == name) names
        simp only [List.length_cons] at hn
        exact ih _ (by omega) _ rfl

/-- The names in their order depend on which they are. -/
theorem sortedNames_congr {names names' : List String}
    (h : ∀ name, name ∈ names ↔ name ∈ names') :
    sortedNames names.eraseDups = sortedNames names'.eraseDups := by
  have hsorted : ∀ names : List String,
      (sortedNames names).Pairwise fun a b => decide (a ≤ b) = true := by
    intro names
    refine List.pairwise_mergeSort ?_ ?_ names
    · intro a b c hab hbc
      simp only [decide_eq_true_eq] at hab hbc ⊢
      exact String.le_trans hab hbc
    · intro a b
      simpa using String.le_total a b
  have hperm : names.eraseDups.Perm names'.eraseDups := by
    rw [List.perm_ext_iff_of_nodup (nodup_eraseDups names) (nodup_eraseDups names')]
    simpa using h
  have hperm' : (sortedNames names.eraseDups).Perm (sortedNames names'.eraseDups) :=
    (List.mergeSort_perm _ _).trans (hperm.trans (List.mergeSort_perm _ _).symm)
  refine List.Perm.eq_of_pairwise ?_ (hsorted _) (hsorted _) hperm'
  intro a b _ _ hab hba
  simp only [decide_eq_true_eq] at hab hba
  exact String.le_antisymm hab hba

/-! ## Binding -/

theorem present_congr {name : String} (h : given.lookup name = given'.lookup name) :
    present given name = present given' name := by
  simp only [present, h]

/-- Of a secret, only whether it is given is read. -/
theorem bindInput_congr {bound : Bound} {name : String} {spec : InputSpec}
    (hsecret : spec.type = .secret → ((present given name).isSome ↔ (present given' name).isSome))
    (hvalue : spec.type ≠ .secret → given.lookup name = given'.lookup name) :
    bindInput P skill given bound name spec = bindInput P skill given' bound name spec := by
  unfold bindInput
  by_cases htype : spec.type = .secret
  · rw [if_pos htype, if_pos htype]
    have hsame : ((present given name).isSome = true) = ((present given' name).isSome = true) :=
      propext (hsecret htype)
    simp only [hsame]
  · rw [if_neg htype, if_neg htype, present_congr (hvalue htype)]

/-- Binding two assignments that differ in the values of given secrets comes to the same. -/
theorem bindInputs_congr (h : SameButSecrets skill given given')
    (hgiven : SameSecretsGiven skill given given') :
    bindInputs P skill given = bindInputs P skill given' := by
  have hunknown : sortedNames ((given.map (·.1)).filter fun name =>
        name ∉ skill.inputs.map (·.1)).eraseDups =
      sortedNames ((given'.map (·.1)).filter fun name =>
        name ∉ skill.inputs.map (·.1)).eraseDups := by
    apply sortedNames_congr
    intro name
    rw [List.mem_filter, List.mem_filter, h.names name]
  have hfold : ∀ (inputs : List (String × InputSpec)) (bound : Bound), inputs ⊆ skill.inputs →
      inputs.foldlM (fun bound input => bindInput P skill given bound input.1 input.2) bound =
        inputs.foldlM (fun bound input => bindInput P skill given' bound input.1 input.2) bound := by
    intro inputs
    induction inputs with
    | nil => exact fun _ _ => rfl
    | cons input inputs ih =>
      intro bound hsub
      have hmem : input ∈ skill.inputs := hsub List.mem_cons_self
      have hhead : bindInput P skill given bound input.1 input.2 =
          bindInput P skill given' bound input.1 input.2 :=
        bindInput_congr (hgiven input.1 input.2 hmem) (h.values input.1 input.2 hmem)
      rw [List.foldlM_cons, List.foldlM_cons, hhead]
      congr 1
      funext bound'
      exact ih bound' fun x hx => hsub (List.mem_cons_of_mem input hx)
  unfold bindInputs
  rw [hunknown, hfold skill.inputs {} fun _ hx => hx]

/-! ## Compilation -/

/-- Two assignments that differ in the values of secrets, each given in both or in
    neither, compile to the same: to equal plans, or to the same error. -/
theorem compileSkill_secrets (digest : String → String → List String → String) (jobId : String)
    (now : DateTime) (h : SameButSecrets skill given given')
    (hgiven : SameSecretsGiven skill given given') :
    compileSkill P digest skill given jobId now = compileSkill P digest skill given' jobId now := by
  unfold compileSkill
  rw [bindInputs_congr h hgiven]

/-- A skill with a secret that need not be given. -/
def signInSkill : Skill where
  id := "sign-in"
  name := "Sign in"
  version := "1.2"
  inputs := [("password", { type := .secret })]
  steps := stepsOf .plain "sign-in.yaml" (.arr
    [.obj [("type", .obj [("text", .str "\x7b\x7b password \x7d\x7d")])]])

theorem signIn_same_but_secrets (password password' : Json) :
    SameButSecrets signInSkill [("password", password)] [("password", password')] where
  names _ := Iff.rfl
  values := by
    intro name spec hmem htype
    have hspec := List.mem_singleton.mp hmem
    cases hspec
    exact absurd rfl htype

theorem signIn_plans_equal :
    compileSkill .plain (fun _ _ _ => "5e55") signInSkill [("password", .str "hunter2")] "job-1" 0 =
      compileSkill .plain (fun _ _ _ => "5e55") signInSkill [("password", .str "swordfish")]
        "job-1" 0 := by
  refine compileSkill_secrets _ _ _ (signIn_same_but_secrets _ _) ?_
  intro name spec hmem _
  have hspec := List.mem_singleton.mp hmem
  cases hspec
  simp [present]

/-- A secret that is `None` counts as not given, and the step that types it is refused. -/
theorem signIn_plans_differ :
    Parsed .plain signInSkill.steps ∧
    SameButSecrets signInSkill [("password", .null)] [("password", .str "hunter2")] ∧
    compileSkill .plain (fun _ _ _ => "5e55") signInSkill [("password", .null)] "job-1" 0 ≠
      compileSkill .plain (fun _ _ _ => "5e55") signInSkill [("password", .str "hunter2")]
        "job-1" 0 := by
  refine ⟨stepsOf_parsed (by decide +kernel), signIn_same_but_secrets _ _, fun heq => ?_⟩
  have hok := congrArg Except.isOk heq
  revert hok
  decide +kernel

end Skills

end Slas
