/-
  Slas.Skills.Turns

  A run of a skill as the turns of its steps.  A step at its turn finds a context; it is
  skipped when its guard does not hold there, and the context stays; otherwise it is
  performed, and when the run goes on the context has the step's outputs in it, and the
  variable if the step is a `set`.  `run_turns` says so of every run, and
  `run_dispatched` where the steps come from that were handed on.
-/

import Slas.Skills.Runner

namespace Slas

namespace Skills

variable {P : Python} {σ : Type} {D : Devices σ} {compiled : CompiledSkill}
  {approved : List String}

/-! ## One step -/

/-- A step with its arguments as they are at its turn. -/
def Resolved (P : Python) (context : Bindings) (step resolved : Step) : Prop :=
  ∃ args, renderFields P (find context) (stepSource step) step.args = .ok args ∧
    resolved = { step with args }

/-- What a step leaves of the context, when the run goes on after it. -/
inductive Leaves (P : Python) (step : Step) (context : Bindings) : Bindings → Prop where
  | recorded (h : step.primitive ≠ "set") (outputs : Json) :
    Leaves P step context (assign "steps" outputs context)
  | set (h : step.primitive = "set") (outputs : Json) {args : Bindings} {var value : Json}
    (hargs : renderFields P (find context) (stepSource step) step.args = .ok args)
    (hvar : args.lookup "var" = some var) (hvalue : args.lookup "value" = some value) :
    Leaves P step context (assign (P.str var) value (assign "steps" outputs context))

theorem recordOutput_ok {id : String} {value context after : Bindings}
    (h : recordOutput id value context = .ok after) :
    ∃ outputs, after = assign "steps" outputs context := by
  unfold recordOutput at h
  split at h
  · cases h
    exact ⟨_, rfl⟩
  · cases h

theorem succeed_ok {step : Step} {args context after : Bindings} {outcome : StepOutcome}
    (hargs : renderFields P (find context) (stepSource step) step.args = .ok args)
    (h : succeed P step args outcome context = .ok after) : Leaves P step context after := by
  unfold succeed at h
  split at h
  · cases h
  · rename_i recorded hrecorded
    obtain ⟨outputs, rfl⟩ := recordOutput_ok hrecorded
    unfold setVariable at h
    split at h
    · rename_i hset
      split at h
      · rename_i var value hvar hvalue
        cases h
        exact .set hset outputs hargs hvar hvalue
      · cases h
      · cases h
    · rename_i hset
      cases h
      exact .recorded hset outputs

/-- A `set` that is dispatched succeeds, or raises. -/
theorem dispatch_set {step : Step} {context : Bindings} {w w' : σ} {outcome : StepOutcome}
    {shots : List String} (hset : step.primitive = "set")
    (h : dispatch P D step context w = (.ok (outcome, shots), w')) : outcome.ok = true := by
  have hscreen : "set" ∉ SCREEN_PRIMITIVES := by decide
  have hwait : "set" ≠ "wait" := by decide
  unfold dispatch at h
  rw [hset, if_neg hscreen, if_neg hwait, if_pos rfl] at h
  split at h
  · cases h
  · cases h
    rfl

/-- What performing a step does to the state of the run. -/
structure Performed (P : Python) (step : Step) (st : RunState σ)
    (result : RunState σ × Except Escape StepRun) : Prop where
  turns : result.1.turns = st.turns
  dispatched : ∀ d ∈ result.1.dispatched, d ∈ st.dispatched ∨ Resolved P st.context step d
  goes_on : ∀ run, result.2 = .ok run → run.status ≠ .failed →
    Leaves P step st.context result.1.context

theorem failed_performed {step : Step} {sentence : String} {attempts : Nat}
    {screenshots : List String} {policy : OnFailure} {st st₀ : RunState σ}
    (hturns : st.turns = st₀.turns) (hcontext : st.context = st₀.context)
    (hdispatched : ∀ d ∈ st.dispatched, d ∈ st₀.dispatched ∨ Resolved P st₀.context step d)
    (hset : policy = .continue_ → step.primitive ≠ "set") :
    Performed P step st₀ (failed D step sentence attempts screenshots policy st) := by
  unfold failed
  split
  · rename_i hpolicy
    have hstops : (failedRun step sentence attempts screenshots policy).status = .failed := by
      simp [failedRun, hpolicy.1]
    split
    · exact ⟨hturns, hdispatched, fun run hrun => by cases hrun⟩
    · refine ⟨hturns, hdispatched, fun run hrun hgoes => absurd ?_ hgoes⟩
      cases hrun
      simp [failedRun, hpolicy.1]
  · split
    · rename_i hpolicy
      split
      · exact ⟨hturns, hdispatched, fun run hrun => by cases hrun⟩
      · rename_i context hrecorded
        obtain ⟨outputs, rfl⟩ := recordOutput_ok hrecorded
        refine ⟨hturns, hdispatched, fun run _ _ => ?_⟩
        rw [hcontext]
        exact .recorded (hset hpolicy) outputs
    · rename_i hpolicy
      refine ⟨hturns, hdispatched, fun run hrun hgoes => absurd ?_ hgoes⟩
      cases hrun
      simp [failedRun, hpolicy]

/-- What one attempt comes to: the state it leaves, and how the run goes on. -/
theorem perform_cases {step : Step} {left attempt : Nat} {screenshots : List String}
    {st : RunState σ} {result : RunState σ × Except Escape StepRun}
    (h : perform P D compiled step left attempt screenshots st = result) :
    (∃ message, failed D step message attempt screenshots .stop st = result) ∨
    ∃ args st', renderFields P (find st.context) (stepSource step) step.args = .ok args ∧
      st'.turns = st.turns ∧ st'.dispatched = st.dispatched ++ [{ step with args }] ∧
      ((∃ e, (st', .error e) = result) ∨
        (∃ outcome run, succeed P step args outcome st.context = .ok st'.context ∧
          (st', .ok run) = result) ∨
        step.primitive ≠ "set" ∧ st'.context = st.context ∧
          ((∃ sentence shots,
              failed D step sentence attempt shots compiled.onFailure st' = result) ∨
            ∃ left' shots, left = left' + 1 ∧
              perform P D compiled step left' (attempt + 1) shots st' = result)) := by
  unfold perform at h
  split at h
  · exact Or.inl ⟨_, h⟩
  · rename_i args hargs
    refine Or.inr ⟨args, ?_⟩
    simp only at h
    split at h
    · refine ⟨_, hargs, ?_, ?_, Or.inl ⟨_, h⟩⟩ <;> rfl
    · rename_i outcome shots world hdispatch
      split at h
      · split at h
        · refine ⟨_, hargs, ?_, ?_, Or.inl ⟨_, h⟩⟩ <;> rfl
        · rename_i after hafter
          refine ⟨_, hargs, ?_, ?_, Or.inr (Or.inl ⟨outcome, _, ?_, h⟩)⟩
          · rfl
          · rfl
          · exact hafter
      · rename_i hfails
        have hset : step.primitive ≠ "set" := by
          intro hset
          refine hfails (dispatch_set ?_ hdispatch)
          exact hset
        split at h
        · refine ⟨_, hargs, ?_, ?_, Or.inr (Or.inr ⟨hset, ?_, Or.inl ⟨_, _, h⟩⟩)⟩ <;> rfl
        · rename_i left'
          split at h
          · refine ⟨_, hargs, ?_, ?_, Or.inl ⟨_, h⟩⟩ <;> rfl
          · refine ⟨_, hargs, ?_, ?_, Or.inr (Or.inr ⟨hset, ?_, Or.inr ⟨left', _, rfl, h⟩⟩)⟩ <;> rfl

theorem perform_performed {step : Step} (left attempt : Nat) (screenshots : List String)
    {st st₀ : RunState σ} (hturns : st.turns = st₀.turns) (hcontext : st.context = st₀.context)
    (hdispatched : ∀ d ∈ st.dispatched, d ∈ st₀.dispatched ∨ Resolved P st₀.context step d) :
    Performed P step st₀ (perform P D compiled step left attempt screenshots st) := by
  -- every attempt finds the context the first one found
  induction left using Nat.strongRecOn generalizing attempt screenshots st with
  | ind left ih =>
    rcases perform_cases rfl with ⟨message, h⟩ | ⟨args, st', hargs, ht, hd, h⟩
    · rw [← h]
      exact failed_performed hturns hcontext hdispatched (by simp)
    · have hturns' : st'.turns = st₀.turns := ht.trans hturns
      rw [hcontext] at hargs h
      have hdispatched' : ∀ d ∈ st'.dispatched,
          d ∈ st₀.dispatched ∨ Resolved P st₀.context step d := by
        intro d hmem
        rw [hd] at hmem
        rcases List.mem_append.mp hmem with hin | hin
        · exact hdispatched d hin
        · exact Or.inr ⟨args, hargs, List.mem_singleton.mp hin⟩
      rcases h with ⟨e, h⟩ | ⟨outcome, run, hafter, h⟩ |
        ⟨hset, hcontext', ⟨sentence, shots, h⟩ | ⟨left', shots, rfl, h⟩⟩
      · rw [← h]
        exact ⟨hturns', hdispatched', fun run hrun => by cases hrun⟩
      · rw [← h]
        exact ⟨hturns', hdispatched', fun _ _ _ => succeed_ok hargs hafter⟩
      · rw [← h]
        exact failed_performed hturns' hcontext' hdispatched' fun _ => hset
      · rw [← h]
        exact ih left' (Nat.lt_succ_self left') (attempt + 1) shots hturns' hcontext' hdispatched'

/-! ## The run -/

/-- The turns of steps, from a context on. -/
inductive Turns (P : Python) : Bindings → List Step → List Turn → Prop where
  | stop {context : Bindings} {steps : List Step} : Turns P context steps []
  | skipped {context : Bindings} {step : Step} {steps : List Step} {turns : List Turn}
    (hguard : guardHolds P context step = false) (hrest : Turns P context steps turns) :
    Turns P context (step :: steps) ({ step, context, taken := false } :: turns)
  | ended {context : Bindings} {step : Step} {steps : List Step}
    (hguard : guardHolds P context step = true) :
    Turns P context (step :: steps) [{ step, context, taken := true }]
  | performed {context after : Bindings} {step : Step} {steps : List Step} {turns : List Turn}
    (hguard : guardHolds P context step = true) (hleaves : Leaves P step context after)
    (hrest : Turns P after steps turns) :
    Turns P context (step :: steps) ({ step, context, taken := true } :: turns)

/-- A step that was handed on had its turn then, and was taken, and approved if it had
    to be. -/
def HandedOn (P : Python) (approved : List String) (turns : List Turn) (d : Step) : Prop :=
  ∃ turn ∈ turns, turn.taken = true ∧ Resolved P turn.context turn.step d ∧
    (turn.step.needsApproval = true → turn.step.id ∈ approved)

theorem HandedOn.later {turns turns' : List Turn} {d : Step} (h : HandedOn P approved turns d)
    (hsub : turns ⊆ turns') : HandedOn P approved turns' d := by
  obtain ⟨turn, hmem, hrest⟩ := h
  exact ⟨turn, hsub hmem, hrest⟩

variable (P D compiled approved) in
theorem runSteps_turns (steps : List Step) (st : RunState σ) :
    ∃ turns, (runSteps P D compiled approved steps st).1.turns = st.turns ++ turns ∧
      Turns P st.context steps turns ∧
      ∀ d ∈ (runSteps P D compiled approved steps st).1.dispatched,
        d ∈ st.dispatched ∨ HandedOn P approved turns d := by
  induction steps generalizing st with
  | nil => exact ⟨[], by simp [runSteps], .stop, fun d hd => Or.inl hd⟩
  | cons step steps ih =>
    cases hguard : guardHolds P st.context step with
    | false =>
      unfold runSteps
      rw [hguard]
      simp only [if_true]
      obtain ⟨turns, hturns, hrest, hdispatched⟩ :=
        ih (((st.take { step, context := st.context, taken := false }).record
          (skippedRun step)).jot
            { kind := "note", payload := [("skipped", .str (step.when.getD ""))]
              stepId := step.id })
      refine ⟨{ step, context := st.context, taken := false } :: turns, ?_,
        .skipped hguard hrest, ?_⟩
      · rw [hturns]
        simp [RunState.jot, RunState.record, RunState.take]
      · intro d hd
        rcases hdispatched d hd with hin | hin
        · exact Or.inl hin
        · exact Or.inr (hin.later (by simp))
    | true =>
      unfold runSteps
      rw [hguard]
      simp only [Bool.true_eq_false, if_false]
      split
      · refine ⟨[{ step, context := st.context, taken := true }], rfl, .ended hguard, ?_⟩
        exact fun d hd => Or.inl hd
      · rename_i happroved
        have hid : step.needsApproval = true → step.id ∈ approved := by
          intro hneeds
          by_contra hnot
          exact happroved ⟨hneeds, hnot⟩
        have hperformed : Performed P step (st.take { step, context := st.context, taken := true })
            (perform P D compiled step (retries compiled.onFailure) 1 []
              (st.take { step, context := st.context, taken := true })) :=
          perform_performed _ _ _ rfl rfl fun d hd => Or.inl hd
        have hhanded : ∀ turns d, Resolved P st.context step d →
            HandedOn P approved ({ step, context := st.context, taken := true } :: turns) d :=
          fun turns d hd => ⟨_, List.mem_cons_self, rfl, hd, hid⟩
        split
        · rename_i after e heq
          rw [heq] at hperformed
          refine ⟨[{ step, context := st.context, taken := true }], hperformed.turns,
            .ended hguard, ?_⟩
          exact fun d hd => (hperformed.dispatched d hd).imp id (hhanded [] d)
        · rename_i after run heq
          rw [heq] at hperformed
          split
          · refine ⟨[{ step, context := st.context, taken := true }], hperformed.turns,
              .ended hguard, ?_⟩
            exact fun d hd => (hperformed.dispatched d hd).imp id (hhanded [] d)
          · rename_i hstatus
            have hgoes : run.status ≠ .failed := fun hfailed => hstatus (Or.inl hfailed)
            have hleaves := hperformed.goes_on run rfl hgoes
            obtain ⟨turns, hturns, hrest, hdispatched⟩ := ih (after.record run)
            refine ⟨{ step, context := st.context, taken := true } :: turns, ?_,
              .performed hguard hleaves hrest, ?_⟩
            · have hafter : after.turns = st.turns ++ [{ step, context := st.context, taken := true }] :=
                hperformed.turns
              rw [hturns]
              simp [RunState.record, hafter]
            · intro d hd
              rcases hdispatched d hd with hin | hin
              · exact (hperformed.dispatched d hin).imp id (hhanded turns d)
              · exact Or.inr (hin.later (by simp))

/-- The context a run starts from. -/
def startContext (context : Bindings) : Bindings :=
  if (context.lookup "steps").isSome then context else assign "steps" (.obj []) context

theorem run_fst (context : Bindings) (world : σ) :
    (run P D compiled approved context world).1 =
      (runSteps P D compiled approved compiled.plan.steps
        { world, context := startContext context }).1 := by
  simp only [run, startContext]
  split
  · rename_i heq
    rw [heq]
  · rename_i heq
    rw [heq]
    split <;> rfl

variable (P D compiled approved) in
/-- The turns of a run are those of the steps of the plan. -/
theorem run_turns (context : Bindings) (world : σ) :
    Turns P (startContext context) compiled.plan.steps
      (run P D compiled approved context world).1.turns := by
  obtain ⟨turns, hturns, hrest, -⟩ := runSteps_turns P D compiled approved compiled.plan.steps
    { world, context := startContext context }
  rw [run_fst, hturns]
  exact hrest

variable (P D compiled approved) in
/-- What a run hands on. -/
theorem run_dispatched (context : Bindings) (world : σ) :
    ∀ d ∈ (run P D compiled approved context world).1.dispatched,
      HandedOn P approved (run P D compiled approved context world).1.turns d := by
  obtain ⟨turns, hturns, -, hdispatched⟩ := runSteps_turns P D compiled approved
    compiled.plan.steps { world, context := startContext context }
  rw [run_fst, hturns]
  intro d hd
  rcases hdispatched d hd with hin | hin
  · cases hin
  · exact hin

/-! ## Turns one by one -/

namespace Turns

variable {context : Bindings} {steps : List Step} {turns : List Turn}

/-- The steps have their turns in the order of the plan. -/
theorem getElem?_step (h : Turns P context steps turns) {i : Nat} {turn : Turn}
    (hturn : turns[i]? = some turn) : steps[i]? = some turn.step := by
  induction h generalizing i with
  | stop => simp at hturn
  | skipped _ _ ih =>
    cases i with
    | zero => simpa using congrArg Turn.step (by simpa using hturn)
    | succ i => simpa using ih (by simpa using hturn)
  | ended _ =>
    cases i with
    | zero => simpa using congrArg Turn.step (by simpa using hturn)
    | succ i => simp at hturn
  | performed _ _ _ ih =>
    cases i with
    | zero => simpa using congrArg Turn.step (by simpa using hturn)
    | succ i => simpa using ih (by simpa using hturn)

/-- A step is taken when its guard holds in the context it finds. -/
theorem taken_eq (h : Turns P context steps turns) {turn : Turn} (hturn : turn ∈ turns) :
    turn.taken = guardHolds P turn.context turn.step := by
  induction h with
  | stop => cases hturn
  | skipped hguard _ ih =>
    rcases List.mem_cons.mp hturn with rfl | hin
    · exact hguard.symm
    · exact ih hin
  | ended hguard =>
    rw [List.mem_singleton.mp hturn]
    exact hguard.symm
  | performed hguard _ _ ih =>
    rcases List.mem_cons.mp hturn with rfl | hin
    · exact hguard.symm
    · exact ih hin

end Turns

end Skills

end Slas
