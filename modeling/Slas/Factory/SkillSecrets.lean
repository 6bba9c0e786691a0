/-
  Slas.Factory.SkillSecrets

  The secrets of a skill batch, from the executor that resolves them to the arguments of
  the steps that the station hands on.
-/

import Slas.Factory.SkillBatches

namespace Slas

open Skills (AreHandles Named NoBraces Replaceable Resolved RunState SecretsInArgs
  anyFieldCarries carriesSecret_iff compileSkill compileSkill_handles compileSkill_marked
  fieldTexts find mapFields_still renderFields stepSource stepsOf substitute substituteText
  substituteText_other)

/-- The handles of a compiled skill. -/
def CompiledSkill.handles (compiled : CompiledSkill) : List String :=
  compiled.secretHandles.map (·.2)

/-! ## The executor -/

/-- The secrets the executor puts into a batch are those of handles of the plan. -/
theorem secretsOf_named {X : FactoryExecutor} {step : Step} {compiled : CompiledSkill}
    {secrets : List (String × String)} (h : X.secretsOf step compiled = .ok secrets) :
    Named compiled.handles secrets := by
  unfold FactoryExecutor.secretsOf at h
  cases hrefs : X.dictArg step "secret_refs" with
  | error e => simp [hrefs, bind, Except.bind] at h
  | ok refs =>
    simp only [hrefs, bind, Except.bind] at h
    intro secret hin
    obtain ⟨named, hnamed, hresolve⟩ := Skills.mapM_ok_mem h secret hin
    have hname : named.1 = secret.1 := by
      cases hvalue : X.resolve (X.str named.2) with
      | error e => simp [hvalue, Except.map] at hresolve
      | ok value =>
        rw [hvalue] at hresolve
        cases hresolve
        rfl
    obtain ⟨ref, -, hlookup⟩ := List.mem_filterMap.mp hnamed
    obtain ⟨handle, hhandle, rfl⟩ := Option.map_eq_some_iff.mp hlookup
    obtain ⟨before, after, hsplit, -⟩ := List.lookup_eq_some_iff.mp hhandle
    rw [← hname]
    exact List.mem_map.mpr ⟨(ref.1, handle), by simp [hsplit], rfl⟩

/-! ## The station -/

/-- Nothing is put in where there is no handle. -/
theorem substitute_still {handles : List String} {secrets : List (String × String)}
    {args : List (String × Json)} (hnamed : Named handles secrets)
    (hfree : anyFieldCarries handles args = false) : substitute secrets args = args := by
  refine mapFields_still fun text hin => substituteText_other ?_
  cases hsecret : secrets.lookup text with
  | none => rfl
  | some secret =>
    have hhas : anyFieldCarries handles args = true :=
      Skills.anyFieldCarries_iff.mpr ⟨text, hin, text, hnamed.mem hsecret, List.infix_refl _⟩
    rw [hhas] at hfree
    cases hfree

/-- What the station hands on, in the place of a step of the plan. -/
theorem withSecrets_getElem? {P : Python} {skill : Skills.Skill}
    {digest : String → String → List String → String} {inputs : List (String × Json)}
    {jobId : String} {now : DateTime} {compiled : CompiledSkill}
    (hcompile : compileSkill P digest skill inputs jobId now = .ok compiled)
    {secrets : List (String × String)} (hnamed : Named compiled.handles secrets) {i : Nat}
    {step : Step} (hstep : (withSecrets secrets compiled).plan.steps[i]? = some step) :
    ∃ original, compiled.plan.steps[i]? = some original ∧
      step = { original with args := substitute secrets original.args } := by
  unfold withSecrets at hstep
  split at hstep
  · rename_i hnone
    refine ⟨step, hstep, ?_⟩
    have hsame : substitute secrets step.args = step.args := by
      refine mapFields_still fun text _ => substituteText_other ?_
      rw [hnone, List.lookup_nil]
    rw [hsame]
  · simp only [List.getElem?_map, Option.map_eq_some_iff] at hstep
    obtain ⟨original, horiginal, rfl⟩ := hstep
    refine ⟨original, horiginal, ?_⟩
    unfold substituted
    split
    · rfl
    · rename_i hunmarked
      have hfree : anyFieldCarries compiled.handles original.args = false := by
        rw [Bool.eq_false_iff]
        intro hcarries
        refine hunmarked ?_
        rw [compileSkill_marked hcompile]
        exact List.mem_map_of_mem
          (List.mem_filter.mpr ⟨List.mem_of_getElem? horiginal, hcarries⟩)
      rw [substitute_still hnamed hfree]

namespace SkillStation

variable {σ : Type} {S : SkillStation σ} {compiled : CompiledSkill}

/-- What a delivery hands on, a run of its plan hands on. -/
theorem handle_dispatched {st : StationRunner.State} {d : StationRunner.Delivery} {w : σ}
    (hcompiled : d.1.batch.compiled = some compiled) {sent : Step}
    (hsent : sent ∈ (S.handle st d w).run.dispatched) :
    ∃ (i : Nat) (turn : Skills.Turn), (S.handle st d w).run.turns[i]? = some turn ∧
      turn.taken = true ∧ Resolved S.python turn.context turn.step sent ∧
      (withSecrets d.1.batch.secrets compiled).plan.steps[i]? = some turn.step := by
  unfold handle at hsent ⊢
  cases hverify : verifyBatch S.runner.signing S.runner.keys S.runner.station d.2 st.seen d.1 with
  | error message =>
    rw [hverify] at hsent
    cases hsent
  | ok passed =>
    obtain ⟨-, rfl⟩ := verifyBatch_ok_iff.mp hverify
    rw [hverify] at hsent
    simp only at hsent ⊢
    split at hsent
    · rename_i hkind
      rw [if_pos hkind]
      simp only at hsent ⊢
      have hrun : (S.skill d.1.batch.approvals d.1.batch w).1.turns =
          (Skills.run S.python S.devices (withSecrets d.1.batch.secrets compiled)
            d.1.batch.approvals [] w).1.turns ∧
          (S.skill d.1.batch.approvals d.1.batch w).1.dispatched =
          (Skills.run S.python S.devices (withSecrets d.1.batch.secrets compiled)
            d.1.batch.approvals [] w).1.dispatched := by
        rw [skill_eq hcompiled]
        split
        · rename_i run e hrun
          rw [hrun]
          exact ⟨rfl, rfl⟩
        · rename_i run result hrun
          rw [hrun]
          obtain ⟨hturns, hdispatched, -⟩ := S.report_run d.1.batch result run
          exact ⟨hturns, hdispatched⟩
      rw [hrun.2] at hsent
      obtain ⟨turn, hin, htaken, hresolved, -⟩ := Skills.run_dispatched _ _ _ _ _ _ _ hsent
      obtain ⟨i, hi⟩ := List.getElem?_of_mem hin
      refine ⟨i, turn, by rw [hrun.1]; exact hi, htaken, hresolved, ?_⟩
      exact (Skills.run_turns _ _ _ _ _ _).getElem?_step hi
    · cases hsent

/-- For every compiled skill, every batch with secrets of its handles and every delivery of it:
    each step that is handed on has the secrets in the place of its handles, and no handle
    left, when every text of its arguments can be replaced at its turn; and only then, as long
    as the handles have no braces in them. -/
theorem handle_secrets_iff {P : Python} {skill : Skills.Skill}
    {digest : String → String → List String → String} {inputs : List (String × Json)}
    {jobId : String} {now : DateTime}
    (hcompile : compileSkill P digest skill inputs jobId now = .ok compiled)
    {st : StationRunner.State} {d : StationRunner.Delivery} {w : σ}
    (hcompiled : d.1.batch.compiled = some compiled)
    (hnamed : Named compiled.handles d.1.batch.secrets) :
    ∀ sent ∈ (S.handle st d w).run.dispatched,
      ∃ (i : Nat) (step : Step) (turn : Skills.Turn), compiled.plan.steps[i]? = some step ∧
        (S.handle st d w).run.turns[i]? = some turn ∧ turn.taken = true ∧ sent.id = step.id ∧
        ((∀ text ∈ fieldTexts step.args, Replaceable S.python compiled.handles d.1.batch.secrets
              (find turn.context) (stepSource step) text) →
          SecretsInArgs compiled.handles d.1.batch.secrets
            (renderFields S.python (find turn.context) (stepSource step) step.args) sent.args) ∧
        (NoBraces compiled.handles →
          SecretsInArgs compiled.handles d.1.batch.secrets
            (renderFields S.python (find turn.context) (stepSource step) step.args) sent.args →
          ∀ text ∈ fieldTexts step.args, Replaceable S.python compiled.handles d.1.batch.secrets
            (find turn.context) (stepSource step) text) := by
  intro sent hsent
  obtain ⟨i, turn, hturn, htaken, ⟨args, hargs, rfl⟩, hstep⟩ := handle_dispatched hcompiled hsent
  obtain ⟨step, hat, heq⟩ := withSecrets_getElem? hcompile hnamed hstep
  refine ⟨i, step, turn, hat, hturn, htaken, by rw [heq], ?_⟩
  rw [heq] at hargs
  exact Skills.secretsInArgs_iff (compileSkill_handles hcompile) hnamed hargs

end SkillStation

/-! ### A password that is typed -/

namespace FactoryLine

/-- A skill that types a text with a password in it. -/
def typing (text : String) : Skills.Skill where
  id := "sign-in"
  name := "Sign in"
  version := "1.2"
  inputs := [("password", { type := .secret, required := true })]
  steps := stepsOf .plain "sign-in.yaml" (.arr [.obj [("type", .obj [("text", .str text)])]])

/-- Its batch, with the password of the station. -/
def typingBatch (text : String) : Except String (CompiledSkill × SignedBatch) :=
  skillBatch (typing text) [("password", .str "resolved-at-dispatch")]
    [("secret://sign-in/password", "hunter2")]

instance {handles : List String} {secrets : List (String × String)} :
    Decidable (Named handles secrets) :=
  inferInstanceAs (Decidable (∀ secret ∈ secrets, secret.1 ∈ handles))

end FactoryLine

open FactoryLine in
theorem password_typed : ∃ compiled signed,
    typingBatch "\x7b\x7b password \x7d\x7d" = .ok (compiled, signed) ∧
    ∀ sent ∈ (bench.handle {} (signed, 1) []).run.dispatched,
      ∃ (i : Nat) (step : Step) (turn : Skills.Turn), compiled.plan.steps[i]? = some step ∧
        (bench.handle {} (signed, 1) []).run.turns[i]? = some turn ∧ turn.taken = true ∧
        sent.id = step.id ∧
        ((∀ text ∈ fieldTexts step.args, Replaceable .plain compiled.handles signed.batch.secrets
              (find turn.context) (stepSource step) text) →
          SecretsInArgs compiled.handles signed.batch.secrets
            (renderFields .plain (find turn.context) (stepSource step) step.args) sent.args) := by
  have hok : (typingBatch "\x7b\x7b password \x7d\x7d").toOption.any (fun made =>
      decide (Named made.1.handles made.2.batch.secrets) &&
        decide (made.2.batch.compiled.isSome)) = true := by
    decide +kernel
  obtain ⟨⟨compiled, signed⟩, hmade, htest⟩ := exists_eq_ok hok
  simp only [Bool.and_eq_true, decide_eq_true_eq] at htest
  obtain ⟨hcompile, hbatch⟩ := skillBatch_ok hmade
  refine ⟨compiled, signed, hmade, fun sent hsent => ?_⟩
  obtain ⟨i, step, turn, hstep, hturn, htaken, hid, hreplaced, -⟩ :=
    SkillStation.handle_secrets_iff (S := bench) hcompile
      (SkillStation.makeBatch_fields hbatch).2.1 htest.1 sent hsent
  exact ⟨i, step, turn, hstep, hturn, htaken, hid, hreplaced⟩

open FactoryLine in
/-- The password inside a longer text: what is typed is the handle. -/
theorem handle_typed :
    Skills.Parsed .plain (typing "token=\x7b\x7b password \x7d\x7d").steps ∧
      ∃ compiled signed, typingBatch "token=\x7b\x7b password \x7d\x7d" = .ok (compiled, signed) ∧
        Named compiled.handles signed.batch.secrets ∧
        ∃ sent ∈ (bench.handle {} (signed, 1) []).run.dispatched,
          sent.id ∈ compiled.secretSteps ∧ anyFieldCarries compiled.handles sent.args = true := by
  refine ⟨Skills.stepsOf_parsed (by decide +kernel), ?_⟩
  have hok : (typingBatch "token=\x7b\x7b password \x7d\x7d").toOption.any (fun made =>
      decide (Named made.1.handles made.2.batch.secrets) &&
        (bench.handle {} (made.2, 1) []).run.dispatched.any fun sent =>
          decide (sent.id ∈ made.1.secretSteps) && anyFieldCarries made.1.handles sent.args) =
        true := by
    decide +kernel
  obtain ⟨⟨compiled, signed⟩, hmade, htest⟩ := exists_eq_ok hok
  simp only [Bool.and_eq_true, decide_eq_true_eq, List.any_eq_true] at htest
  obtain ⟨hnamed, sent, hsent, hmarked, hcarries⟩ := htest
  exact ⟨compiled, signed, hmade, hnamed, sent, hsent, hmarked, hcarries⟩

end Slas
