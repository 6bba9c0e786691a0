/-
  Slas.Skills.Answers

  Runs that come to an answer, and the approvals a run has.

  A run that is answered has reported on every turn; when it is done, every step of the
  plan had its turn and those that were taken were handed on (`run_answered`).  Without
  any approval a run is what it is with all of them, until a destructive step is taken;
  there it ends with `ApprovalRequiredError` (`run_unapproved`).
-/

import Slas.Skills.Turns

namespace Slas

namespace Skills

variable {P : Python} {σ : Type} {D : Devices σ} {compiled : CompiledSkill}
  {approved : List String}

/-! ## One step -/

/-- What performing a step reports, and that it was handed on unless it failed. -/
structure Reported (P : Python) (step : Step) (st : RunState σ)
    (result : RunState σ × Except Escape StepRun) : Prop where
  runs : result.1.runs = st.runs
  keeps : st.dispatched ⊆ result.1.dispatched
  n_eq : ∀ run, result.2 = .ok run → run.n = step.n
  status : ∀ run, result.2 = .ok run → run.status = .done ∨ run.status = .failed
  handed : ∀ run, result.2 = .ok run → run.status ≠ .failed →
    ∃ d ∈ result.1.dispatched, Resolved P st.context step d

/-- Nothing is reported of a step that raises. -/
theorem Reported.raised {step : Step} {st st' : RunState σ} {e : Escape}
    (hruns : st'.runs = st.runs) (hkeeps : st.dispatched ⊆ st'.dispatched) :
    Reported P step st (st', .error e) where
  runs := hruns
  keeps := hkeeps
  n_eq := by simp
  status := by simp
  handed := by simp

theorem failed_reported {step : Step} {sentence : String} {attempts : Nat}
    {screenshots : List String} {policy : OnFailure} {st : RunState σ}
    (hhanded : policy = .continue_ → ∃ d ∈ st.dispatched, Resolved P st.context step d) :
    Reported P step st (failed D step sentence attempts screenshots policy st) := by
  have hreport : ∀ (st' : RunState σ) (shots : List String), st'.runs = st.runs →
      st'.dispatched = st.dispatched →
      Reported P step st (st', .ok (failedRun step sentence attempts shots policy)) := by
    intro st' shots hruns hdispatched
    refine ⟨hruns, fun d hd => hdispatched ▸ hd, ?_, ?_, ?_⟩
    · rintro run ⟨⟩
      rfl
    · rintro run ⟨⟩
      by_cases hpolicy : policy = .continue_ <;> simp [failedRun, hpolicy]
    · rintro run ⟨⟩ hne
      have hpolicy : policy = .continue_ := by
        by_contra hother
        exact hne (by simp [failedRun, hother])
      obtain ⟨d, hd, hresolved⟩ := hhanded hpolicy
      exact ⟨d, hdispatched ▸ hd, hresolved⟩
  unfold failed
  split
  · split
    · exact .raised rfl fun _ h => h
    · exact hreport _ _ rfl rfl
  · split
    · split
      · exact .raised rfl fun _ h => h
      · exact hreport _ _ rfl rfl
    · exact hreport _ _ rfl rfl

/-- What was reported from a later attempt on. -/
theorem Reported.retried {step : Step} {st st' : RunState σ}
    {result : RunState σ × Except Escape StepRun} (h : Reported P step st' result)
    (hruns : st'.runs = st.runs) (hcontext : st'.context = st.context)
    (hkeeps : st.dispatched ⊆ st'.dispatched) : Reported P step st result where
  runs := h.runs.trans hruns
  keeps := fun _ hd => h.keeps (hkeeps hd)
  n_eq := h.n_eq
  status := h.status
  handed := by
    rw [← hcontext]
    exact h.handed

theorem perform_reported (step : Step) (left attempt : Nat) (screenshots : List String)
    (st : RunState σ) :
    Reported P step st (perform P D compiled step left attempt screenshots st) := by
  induction left using Nat.strongRecOn generalizing attempt screenshots st with
  | ind left ih =>
    unfold perform
    split
    · exact failed_reported (by simp)
    · rename_i args hargs
      simp only
      have hkeeps : st.dispatched ⊆ st.dispatched ++ [{ step with args }] :=
        List.subset_append_left ..
      have hin : ∃ d ∈ st.dispatched ++ [{ step with args }], Resolved P st.context step d :=
        ⟨_, List.mem_append_right _ (List.mem_singleton_self _), args, hargs, rfl⟩
      split
      · exact .raised rfl hkeeps
      · split
        · split
          · exact .raised rfl hkeeps
          · refine ⟨rfl, hkeeps, ?_, ?_, ?_⟩
            · rintro run ⟨⟩
              rfl
            · rintro run ⟨⟩
              exact Or.inl rfl
            · rintro run ⟨⟩ -
              exact hin
        · split
          · exact (failed_reported fun _ => hin).retried rfl rfl hkeeps
          · rename_i left'
            split
            · exact .raised rfl hkeeps
            · exact (ih left' (Nat.lt_succ_self left') _ _ _).retried rfl rfl hkeeps

/-! ## Runs that are answered -/

/-- What an answered run of steps has reported, from a state on. -/
structure Answered (P : Python) (steps : List Step) (st after : RunState σ) (status : RunStatus) :
    Prop where
  exists_turns : ∃ turns runs, after.turns = st.turns ++ turns ∧ after.runs = st.runs ++ runs ∧
    runs.map (·.n) = turns.map (·.step.n) ∧ turns.map (·.step) <+: steps ∧
    (status ≠ .done → ∃ run ∈ runs, run.status = .failed) ∧
    (status = .done → turns.map (·.step) = steps ∧ ∀ turn ∈ turns, turn.taken = true →
      ∃ d ∈ after.dispatched, Resolved P turn.context turn.step d)
  keeps : st.dispatched ⊆ after.dispatched

/-- The turn of the first step, and then the others. -/
theorem Answered.cons {step : Step} {steps : List Step} {st st' after : RunState σ}
    {status : RunStatus} {turn : Turn} {run : StepRun} (h : Answered P steps st' after status)
    (hturns : st'.turns = st.turns ++ [turn]) (hstep : turn.step = step)
    (hruns : st'.runs = st.runs ++ [run]) (hn : run.n = step.n)
    (hkeeps : st.dispatched ⊆ st'.dispatched)
    (hhanded : turn.taken = true → ∃ d ∈ st'.dispatched, Resolved P turn.context turn.step d) :
    Answered P (step :: steps) st after status := by
  obtain ⟨⟨turns, runs, hturns', hruns', hmap, hbegins, hfailed, hdone⟩, hkeeps'⟩ := h
  refine ⟨⟨turn :: turns, run :: runs, ?_, ?_, ?_, ?_, ?_, ?_⟩, fun _ hd => hkeeps' (hkeeps hd)⟩
  · rw [hturns', hturns, List.append_assoc, List.singleton_append]
  · rw [hruns', hruns, List.append_assoc, List.singleton_append]
  · simp [hmap, hn, hstep]
  · rw [List.map_cons, hstep]
    exact (List.prefix_cons_inj step).mpr hbegins
  · intro hne
    obtain ⟨failed, hin, hstatus⟩ := hfailed hne
    exact ⟨failed, List.mem_cons_of_mem run hin, hstatus⟩
  · intro hstatus
    obtain ⟨hall, hhanded'⟩ := hdone hstatus
    refine ⟨by rw [List.map_cons, hall, hstep], fun turn' hin htaken => ?_⟩
    rcases List.mem_cons.mp hin with rfl | hin
    · obtain ⟨d, hd, hresolved⟩ := hhanded htaken
      exact ⟨d, hkeeps' hd, hresolved⟩
    · exact hhanded' turn' hin htaken

/-- The turn of a step in a state. -/
def turnAt (P : Python) (st : RunState σ) (step : Step) : Turn :=
  { step, context := st.context, taken := guardHolds P st.context step }

variable (P D compiled approved) in
theorem runSteps_answered (steps : List Step) (st : RunState σ) {status : RunStatus}
    (h : (runSteps P D compiled approved steps st).2 = .ok status) :
    Answered P steps st (runSteps P D compiled approved steps st).1 status := by
  induction steps generalizing st with
  | nil =>
    cases h
    exact ⟨⟨[], [], by simp [runSteps], by simp [runSteps], rfl, by simp, by simp, by simp⟩,
      fun _ hd => hd⟩
  | cons step steps ih =>
    unfold runSteps at h ⊢
    simp only at h ⊢
    split at h
    · rename_i htaken
      rw [if_pos htaken]
      refine (ih _ h).cons rfl rfl rfl rfl (fun _ hd => hd) ?_
      simp [htaken]
    · rename_i htaken
      rw [if_neg htaken]
      split at h
      · cases h
      · rename_i happroved
        rw [if_neg happroved]
        have hreported : Reported P step (st.take (turnAt P st step)) (perform P D compiled step
            (retries compiled.onFailure) 1 [] (st.take (turnAt P st step))) :=
          perform_reported _ _ _ _ _
        have hturns : (perform P D compiled step (retries compiled.onFailure) 1 []
            (st.take (turnAt P st step))).1.turns = (st.take (turnAt P st step)).turns :=
          (perform_performed _ _ _ rfl rfl fun d hd => Or.inl hd).turns
        split at h
        · cases h
        · rename_i after run hperform
          rw [turnAt, hperform] at hturns hreported
          have hhanded := hreported.handed run rfl
          have hn := hreported.n_eq run rfl
          split at h
          · rename_i hends
            rw [if_pos hends]
            cases h
            have hfailed : run.status = .failed := by
              rcases hreported.status run rfl with hdone | hfailed
              · rw [hdone] at hends
                rcases hends with hend | hend <;> cases hend
              · exact hfailed
            refine ⟨⟨[turnAt P st step], [run], hturns, ?_, ?_, ?_, ?_, ?_⟩, hreported.keeps⟩
            · change after.runs ++ [run] = st.runs ++ [run]
              rw [hreported.runs]
              rfl
            · simp [hn, turnAt]
            · simp [turnAt]
            · exact fun _ => ⟨run, List.mem_singleton_self run, hfailed⟩
            · intro hdone
              rw [hfailed] at hdone
              cases hdone
          · rename_i hgoes
            rw [if_neg hgoes]
            have hnot : run.status ≠ .failed := fun hfailed => hgoes (Or.inl hfailed)
            have hstep : (turnAt P st step).step = step := rfl
            refine (ih (after.record run) h).cons hturns hstep ?_ hn hreported.keeps
              fun _ => hhanded hnot
            change after.runs ++ [run] = st.runs ++ [run]
            rw [hreported.runs]
            rfl

variable (P D compiled approved) in
/-- The state a run is answered in. -/
theorem run_answered (context : Bindings) (world : σ) {result : SkillRunResult}
    (h : (run P D compiled approved context world).2 = .ok result) :
    (run P D compiled approved context world).1.runs = result.steps ∧
      Answered P compiled.plan.steps { world, context := startContext context }
        (run P D compiled approved context world).1 result.status := by
  rw [run_fst]
  unfold run at h
  simp only at h
  split at h
  · cases h
  · rename_i st status hsteps
    have hsteps' : runSteps P D compiled approved compiled.plan.steps
        { world, context := startContext context } = (st, .ok status) := hsteps
    split at h
    · cases h
    · cases h
      refine ⟨by rw [hsteps'], ?_⟩
      have hstatus : (runSteps P D compiled approved compiled.plan.steps
          { world, context := startContext context }).2 = .ok status := by rw [hsteps']
      exact runSteps_answered P D compiled approved _ _ hstatus

/-! ## Approvals -/

/-- A destructive step that was taken. -/
def Turn.Destructive (turn : Turn) : Prop := turn.taken = true ∧ turn.step.needsApproval = true

instance : DecidablePred Turn.Destructive := fun _ => inferInstanceAs (Decidable (_ ∧ _))

variable (P D compiled approved) in
/-- The first step has its turn. -/
theorem runSteps_first (step : Step) (steps : List Step) (st : RunState σ) :
    ∃ turns, (runSteps P D compiled approved (step :: steps) st).1.turns =
      st.turns ++ turnAt P st step :: turns := by
  have hrest : ∀ (st' : RunState σ), st'.turns = st.turns ++ [turnAt P st step] →
      ∃ turns, (runSteps P D compiled approved steps st').1.turns =
        st.turns ++ turnAt P st step :: turns := by
    intro st' hturns
    obtain ⟨turns, happend, -⟩ := runSteps_turns P D compiled approved steps st'
    exact ⟨turns, by rw [happend, hturns, List.append_assoc, List.singleton_append]⟩
  have hturns : (perform P D compiled step (retries compiled.onFailure) 1 []
      (st.take (turnAt P st step))).1.turns = (st.take (turnAt P st step)).turns :=
    (perform_performed _ _ _ rfl rfl fun d hd => Or.inl hd).turns
  unfold runSteps
  simp only
  split
  · exact hrest _ rfl
  · split
    · exact ⟨[], rfl⟩
    · split
      · rename_i after e hperform
        rw [turnAt, hperform] at hturns
        exact ⟨[], hturns⟩
      · rename_i after run hperform
        rw [turnAt, hperform] at hturns
        split
        · exact ⟨[], hturns⟩
        · exact hrest _ hturns

variable (D compiled) in
/-- A turn at which no destructive step is taken does not depend on the approvals. -/
theorem runSteps_gentle {step : Step} (steps : List Step) {st : RunState σ}
    (hgentle : ¬ (turnAt P st step).Destructive) :
    (∃ st' : RunState σ, st'.turns = st.turns ++ [turnAt P st step] ∧ ∀ approved,
      runSteps P D compiled approved (step :: steps) st =
        runSteps P D compiled approved steps st') ∨
    ∃ result : RunState σ × Except Escape RunStatus,
      result.1.turns = st.turns ++ [turnAt P st step] ∧ ∀ approved,
        runSteps P D compiled approved (step :: steps) st = result := by
  have hturns : (perform P D compiled step (retries compiled.onFailure) 1 []
      (st.take (turnAt P st step))).1.turns = (st.take (turnAt P st step)).turns :=
    (perform_performed _ _ _ rfl rfl fun d hd => Or.inl hd).turns
  cases htaken : guardHolds P st.context step with
  | false =>
    refine Or.inl ⟨((st.take (turnAt P st step)).record (skippedRun step)).jot
      { kind := "note", payload := [("skipped", .str (step.when.getD ""))], stepId := step.id },
      rfl, fun approved => ?_⟩
    rw [runSteps, htaken, turnAt, htaken]
    rfl
  | true =>
    have hneeds : step.needsApproval = false := by
      cases hneeds : step.needsApproval with
      | false => rfl
      | true => exact absurd ⟨htaken, hneeds⟩ hgentle
    cases hperform : perform P D compiled step (retries compiled.onFailure) 1 []
        (st.take (turnAt P st step)) with
    | mk after answer =>
      rw [hperform] at hturns
      rw [turnAt, htaken] at hperform
      cases answer with
      | error e =>
        refine Or.inr ⟨(after, .error e), hturns, fun approved => ?_⟩
        unfold runSteps
        simp [htaken, hneeds, hperform]
      | ok run =>
        by_cases hends : run.status = .failed ∨ run.status = .stopped
        · refine Or.inr ⟨(after.record run, .ok run.status), hturns, fun approved => ?_⟩
          unfold runSteps
          simp [htaken, hneeds, hperform, hends]
        · refine Or.inl ⟨after.record run, hturns, fun approved => ?_⟩
          rw [runSteps]
          simp [htaken, hneeds, hperform, hends]

/-- A run without any approval is the same run as long as no destructive step is taken,
    and ends with `ApprovalRequiredError` else. -/
def StopsAtDestructive (P : Python) (D : Devices σ) (compiled : CompiledSkill)
    (approved : List String) (steps : List Step) (st : RunState σ) : Prop :=
  ∃ turns, (runSteps P D compiled approved steps st).1.turns = st.turns ++ turns ∧
    ((∀ turn ∈ turns, ¬ turn.Destructive) ∧
        runSteps P D compiled [] steps st = runSteps P D compiled approved steps st ∨
      (∃ turn ∈ turns, turn.Destructive) ∧
        ∃ step, (runSteps P D compiled [] steps st).2 = .error (.approvalRequired step))

variable (P D compiled approved) in
theorem runSteps_unapproved (steps : List Step) (st : RunState σ) :
    StopsAtDestructive P D compiled approved steps st := by
  induction steps generalizing st with
  | nil => exact ⟨[], by simp [runSteps], Or.inl ⟨by simp, rfl⟩⟩
  | cons step steps ih =>
    by_cases hdestructive : (turnAt P st step).Destructive
    · obtain ⟨turns, hturns⟩ := runSteps_first P D compiled approved step steps st
      refine ⟨turnAt P st step :: turns, hturns,
        Or.inr ⟨⟨_, List.mem_cons_self, hdestructive⟩, step, ?_⟩⟩
      have htaken : guardHolds P st.context step = true := hdestructive.1
      have hneeds : step.needsApproval = true := hdestructive.2
      unfold runSteps
      simp [htaken, hneeds]
    · rcases runSteps_gentle D compiled steps hdestructive with
        ⟨st', hturns, hrun⟩ | ⟨result, hturns, hrun⟩
      · obtain ⟨turns, happend, hcases⟩ := ih st'
        refine ⟨turnAt P st step :: turns, ?_, ?_⟩
        · rw [hrun, happend, hturns, List.append_assoc, List.singleton_append]
        · rw [hrun, hrun]
          simpa [hdestructive] using hcases
      · refine ⟨[turnAt P st step], ?_, Or.inl ⟨by simpa using hdestructive, ?_⟩⟩
        · rw [hrun, hturns]
        · rw [hrun, hrun]

variable (P D compiled approved) in
/-- Of a whole run: without any approval it ends at the first destructive step that these
    approvals let it take, and it is the same run if there is none. -/
theorem run_unapproved (context : Bindings) (world : σ) :
    (∃ step, (run P D compiled [] context world).2 = .error (.approvalRequired step)) ∧
        (∃ turn ∈ (run P D compiled approved context world).1.turns, turn.Destructive) ∨
      run P D compiled [] context world = run P D compiled approved context world ∧
        ∀ turn ∈ (run P D compiled approved context world).1.turns, ¬ turn.Destructive := by
  obtain ⟨turns, hturns, hcases⟩ := runSteps_unapproved P D compiled approved
    compiled.plan.steps { world, context := startContext context }
  have hall : (run P D compiled approved context world).1.turns = turns := by
    rw [run_fst, hturns]
    rfl
  rw [hall]
  rcases hcases with ⟨hgentle, hrun⟩ | ⟨hdestructive, step, hstep⟩
  · refine Or.inr ⟨?_, hgentle⟩
    simp only [startContext] at hrun
    simp only [run, hrun]
  · refine Or.inl ⟨⟨step, ?_⟩, hdestructive⟩
    simp only [startContext] at hstep
    simp only [run]
    split
    · rename_i heq
      rw [heq] at hstep
      cases hstep
      rfl
    · rename_i heq
      rw [heq] at hstep
      cases hstep

end Skills

end Slas
