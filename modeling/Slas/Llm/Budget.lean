/-
  Slas.Llm.Budget

  What a day's cross-checks cost.  The budget is charged what the generations that succeed
  say they used; the tokens of a voter that answered, but not with a valid vote, are never
  charged.  So the budget is right exactly as long as every voter that used any tokens
  votes in the end: `charged_iff`.
-/

import Slas.Llm.CrossCheck

namespace Slas

namespace Llm

/-! ## One day -/

/-- What `spent_today` reads on a day. -/
def usedOn (day : Nat) (w : World) : Nat := if w.day = some day then w.spent else 0

/-- All that was answered has been charged. -/
def Charged (day : Nat) (s : GatewayState) : Prop :=
  usedOn day s.world = answeredTokens s.world.sent

instance {day : Nat} {s : GatewayState} : Decidable (Charged day s) :=
  inferInstanceAs (Decidable (_ = _))

/-- The clock is on the day. -/
def OnDay (day : Nat) (amb : Ambient) : Prop := ∀ op i, Gateway.utcDay (amb.clock op i) = day

/-- Every voter that used tokens returned a valid vote. -/
def Voted (G : Gateway) (new : List Exchange) : Prop :=
  ∀ e ∈ new, e.answeredTokens ≠ 0 →
    ∃ e' ∈ new, e'.request.model = e.request.model ∧
      ∃ vote, Accepts G.voteModel.validator vote e'

section Days

open Gateway

variable {day tokens : Nat} {amb : Ambient} {w : World}

theorem utcDay_roll (hday : OnDay day amb) : (roll amb w).day = some day := by
  have htoday : utcDay (amb.clock w.ops 0) = day := hday w.ops 0
  simp only [roll, htoday]
  split_ifs with h
  · exact h
  · rfl

theorem usedOn_roll (hday : OnDay day amb) : usedOn day (roll amb w) = usedOn day w := by
  have htoday : utcDay (amb.clock w.ops 0) = day := hday w.ops 0
  simp only [usedOn, roll, htoday]
  split_ifs <;> simp_all

theorem usedOn_charge (hday : OnDay day amb) :
    usedOn day (charge amb tokens w) = usedOn day w + tokens := by
  have hroll := usedOn_roll (w := w) hday
  have hcharge : (charge amb tokens w).day = some day := utcDay_roll hday
  rw [usedOn, if_pos (utcDay_roll hday)] at hroll
  rw [usedOn, if_pos hcharge, ← hroll]
  rfl

end Days

/-! ## Bills -/

variable {G : Gateway} {day : Nat} {w w₁ w' : World} {voter : String} {voters : List String}
  {new new' : List Exchange} {charged charged' : Nat} {amb : Ambient} {evidence : List Message}
  {ballots : Gateway.Ballots} {rule : DecisionRule} {s : GatewayState} {decision : String}

theorem answeredTokens_eq_zero_iff :
    answeredTokens new = 0 ↔ ∀ e ∈ new, e.answeredTokens = 0 := by
  simp [answeredTokens, List.sum_eq_zero_iff_forall_eq_nat]

theorem voted_nil : Voted G [] := fun _ he => nomatch he

/-- Whether different voters voted is a matter of each of them. -/
theorem voted_append
    (hdisjoint : ∀ e ∈ new, ∀ e' ∈ new', e.request.model ≠ e'.request.model) :
    Voted G (new ++ new') ↔ Voted G new ∧ Voted G new' := by
  constructor
  · intro h
    constructor
    · intro e he hused
      obtain ⟨e', he', hsame, hvote⟩ := h e (List.mem_append_left _ he) hused
      rcases List.mem_append.mp he' with he' | he'
      · exact ⟨e', he', hsame, hvote⟩
      · exact absurd hsame.symm (hdisjoint e he e' he')
    · intro e he hused
      obtain ⟨e', he', hsame, hvote⟩ := h e (List.mem_append_right _ he) hused
      rcases List.mem_append.mp he' with he' | he'
      · exact absurd hsame (hdisjoint e' he' e he)
      · exact ⟨e', he', hsame, hvote⟩
  · rintro ⟨h, h'⟩ e he hused
    rcases List.mem_append.mp he with he | he
    · obtain ⟨e', he', hvote⟩ := h e he hused
      exact ⟨e', List.mem_append_left _ he', hvote⟩
    · obtain ⟨e', he', hvote⟩ := h' e he hused
      exact ⟨e', List.mem_append_right _ he', hvote⟩

/-- What some voters add to the exchanges, and what the budget is charged for it. -/
structure Billed (G : Gateway) (day : Nat) (voters : List String) (w w' : World)
    (new : List Exchange) (charged : Nat) : Prop where
  sent : w'.sent = w.sent ++ new
  asked : ∀ e ∈ new, e.request.model ∈ voters
  used : usedOn day w' = usedOn day w + charged
  le : charged ≤ answeredTokens new
  voted : charged = answeredTokens new ↔ Voted G new

theorem Billed.nothing (hsent : w'.sent = w.sent) (hused : usedOn day w' = usedOn day w) :
    Billed G day voters w w' [] 0 where
  sent := by simpa using hsent
  asked _ he := nomatch he
  used := hused
  le := Nat.le_refl 0
  voted := iff_of_true rfl voted_nil

theorem Billed.trans (h : Billed G day [voter] w w₁ new charged)
    (h' : Billed G day voters w₁ w' new' charged') (hnew : voter ∉ voters) :
    Billed G day (voter :: voters) w w' (new ++ new') (charged + charged') where
  sent := by rw [h'.sent, h.sent, List.append_assoc]
  asked e he := by
    rcases List.mem_append.mp he with he | he
    · exact List.mem_cons.mpr (Or.inl (List.mem_singleton.mp (h.asked e he)))
    · exact List.mem_cons_of_mem _ (h'.asked e he)
  used := by rw [h'.used, h.used, Nat.add_assoc]
  le := by
    rw [answeredTokens_append]
    exact Nat.add_le_add h.le h'.le
  voted := by
    have hdisjoint : ∀ e ∈ new, ∀ e' ∈ new', e.request.model ≠ e'.request.model := by
      intro e he e' he' hsame
      rw [List.mem_singleton.mp (h.asked e he)] at hsame
      exact hnew (hsame ▸ h'.asked e' he')
    have hle := h.le
    have hle' := h'.le
    rw [voted_append hdisjoint, ← h.voted, ← h'.voted, answeredTokens_append]
    omega

theorem Billed.mono {voters' : List String} (h : Billed G day voters w w' new charged)
    (hsub : ∀ voter ∈ voters, voter ∈ voters') : Billed G day voters' w w' new charged :=
  { h with asked := fun e he => hsub _ (h.asked e he) }

/-- The bill of one voter's generation: all it used if it voted, and nothing if it did not. -/
theorem generation_billed (G : Gateway) (w : World) (request : CompletionRequest)
    (hday : OnDay day amb) :
    let asked := generateValidated G.toModels amb G.voteModel.validator request
      G.voteModel.schema 2 w
    ∃ new, (∃ result, asked.1 = .ok result ∧
        Billed G day [request.model] w (Gateway.charge amb result.tokens asked.2) new
          result.tokens) ∨
      ∃ failure, asked.1 = .error failure ∧ Billed G day [request.model] w asked.2 new 0 := by
  intro asked
  obtain ⟨new, hsent, hheard⟩ := generateValidated_heard G.toModels amb G.voteModel.validator
    request G.voteModel.schema 2 w
  have hbudget : asked.2.day = w.day ∧ asked.2.spent = w.spent := (askValidated_asks ..).budget
  have hused : usedOn day asked.2 = usedOn day w := by rw [usedOn, hbudget.1, hbudget.2, usedOn]
  have hasked : ∀ e ∈ new, e.request.model ∈ [request.model] :=
    fun e he => List.mem_singleton.mpr (hheard.asked e he)
  refine ⟨new, ?_⟩
  cases hresult : asked.1 with
  | ok result =>
    obtain ⟨htokens, e, he, haccepts⟩ := hheard.accepted result hresult
    rw [Nat.zero_add] at htokens
    refine Or.inl ⟨result, rfl, by simpa using hsent, hasked, ?_, htokens.le, ?_⟩
    · rw [usedOn_charge hday, hused]
    · refine iff_of_true htokens fun e' he' _ => ⟨e, he, ?_, _, haccepts⟩
      rw [hheard.asked e he, hheard.asked e' he']
  | error failure =>
    refine Or.inr ⟨failure, rfl, hsent, hasked, hused, Nat.zero_le _, ?_⟩
    rw [eq_comm, answeredTokens_eq_zero_iff]
    constructor
    · exact fun hzero e he hne => absurd (hzero e he) hne
    · intro hvoted e he
      by_contra hne
      obtain ⟨e', he', -, vote, haccepts⟩ := hvoted e he hne
      exact hheard.refused failure hresult e' he' vote haccepts

/-- The bill of a panel. -/
theorem askVoters_billed (G : Gateway) (evidence : List Message) (ballots : Gateway.Ballots)
    (w : World) (hday : OnDay day amb) (hdistinct : voters.Nodup) :
    ∃ new charged, Billed G day voters w (G.askVoters amb evidence voters ballots w).2 new
      charged := by
  induction voters generalizing ballots w with
  | nil => exact ⟨[], 0, .nothing rfl rfl⟩
  | cons voter voters ih =>
    obtain ⟨hnew, hdistinct⟩ := List.nodup_cons.mp hdistinct
    rw [Gateway.askVoters]
    dsimp only
    split_ifs
    case neg => exact ⟨[], 0, .nothing rfl rfl⟩
    obtain ⟨new, ⟨result, hresult, hbill⟩ | ⟨failure, hfailure, hbill⟩⟩ :=
      generation_billed G w { model := voter, messages := evidence, traceId := amb.traceId } hday
    · rw [hresult]
      obtain ⟨new', charged', hrest⟩ := ih _ _ hdistinct
      exact ⟨_, _, hbill.trans hrest hnew⟩
    · rw [hfailure]
      obtain ⟨new', charged', hrest⟩ := ih _ _ hdistinct
      cases failure with
      | schemaViolation | unavailable => exact ⟨_, _, hbill.trans hrest hnew⟩
      | _ => exact ⟨_, _, hbill.mono (by simp)⟩

theorem Billed.congr {w₂ w₂' : World} (h : Billed G day voters w w' new charged)
    (hsent : w₂.sent = w.sent) (hused : usedOn day w₂ = usedOn day w)
    (hsent' : w₂'.sent = w'.sent) (hused' : usedOn day w₂' = usedOn day w') :
    Billed G day voters w₂ w₂' new charged :=
  { h with
    sent := by rw [hsent', hsent, h.sent]
    used := by rw [hused', hused, h.used] }

theorem checkWith_billed (hday : OnDay day amb) (hdistinct : voters.Nodup) :
    ∃ panel new charged, Billed G day panel w (G.checkWith amb rule evidence voters w).2 new
      charged := by
  unfold Gateway.checkWith
  dsimp only
  generalize hover : decide ((G.remaining amb w).1 < VOTE_TOKEN_ESTIMATE * voters.length) =
    overBudget
  generalize hpanel : (if overBudget = true then voters.take 1 else voters) = panel
  generalize hbefore : (if overBudget = true then Gateway.roll amb (G.remaining amb w).2
    else (G.remaining amb w).2) = before
  have hsub : panel.Nodup := by
    rw [← hpanel]
    split_ifs
    · exact hdistinct.sublist (List.take_sublist 1 voters)
    · exact hdistinct
  have hsent : w.sent = before.sent := by
    rw [← hbefore]
    split_ifs <;> simp
  have hused : usedOn day w = usedOn day before := by
    rw [← hbefore]
    split_ifs <;> simp only [Gateway.remaining, usedOn_roll hday]
  obtain ⟨new, charged, hbill⟩ := askVoters_billed G evidence {} before hday hsub
  refine ⟨panel, new, charged, ?_⟩
  generalize G.askVoters amb evidence panel {} before = asked at hbill ⊢
  cases asked.1 with
  | error => exact hbill.congr hsent hused rfl rfl
  | ok ballots => exact hbill.congr hsent hused (by simp) (usedOn_roll hday)

/-- The bill of a cross-check. -/
theorem crossCheck_billed (hday : OnDay day amb) :
    ∃ panel new charged, Billed G day panel s.world
      (G.crossCheck amb decision evidence s).2.world new charged := by
  unfold Gateway.crossCheck
  cases G.rules.lookup decision with
  | none => exact ⟨[], [], 0, .nothing rfl rfl⟩
  | some rule =>
    simp only
    split_ifs
    · exact ⟨[], [], 0, .nothing rfl rfl⟩
    · exact checkWith_billed hday (G.routes.voters_distinct.sublist (List.take_sublist _ _))

/-! ## A day of cross-checks -/

/-- A cross-check on the day. -/
structure DayCheck (day : Nat) where
  amb : Ambient
  decision : String
  evidence : List Message
  on_day : OnDay day amb

def Gateway.check (G : Gateway) (s : GatewayState) (c : DayCheck day) : GatewayState :=
  (G.crossCheck c.amb c.decision c.evidence s).2

/-- One cross-check keeps the budget right exactly if every voter that used tokens voted. -/
theorem charged_check (c : DayCheck day) (h : Charged day s) :
    Charged day (G.check s c) ↔ Voted G (newExchanges s (G.check s c)) := by
  obtain ⟨panel, new, charged, hbill⟩ := crossCheck_billed (G := G) (s := s)
    c.on_day
  have hstart : usedOn day s.world = answeredTokens s.world.sent := h
  have hsent : (G.check s c).world.sent = s.world.sent ++ new := hbill.sent
  have hused : usedOn day (G.check s c).world = usedOn day s.world + charged := hbill.used
  rw [newExchanges_eq hsent, ← hbill.voted, Charged, hused, hsent, hstart, answeredTokens_append,
    Nat.add_left_cancel_iff]

/-- **What is charged**: in a day of cross-checks the budget holds the tokens of all that was
    answered, exactly if in each of them every voter that used tokens returned a valid vote. -/
theorem charged_iff (G : Gateway) (day : Nat) (s : GatewayState) (checks : List (DayCheck day))
    (hstart : Charged day s) :
    Runs.Throughout G.check (Charged day) s checks ↔
      Runs.Meets G.check (fun s c => Voted G (newExchanges s (G.check s c))) s checks :=
  Runs.throughout_iff (fun _ c h => charged_check c h) hstart

/-- Two voters whose only answers are no votes. -/
def wasted : DayCheck 0 where
  amb := quiet
  decision := "release"
  evidence := [⟨.user, "log"⟩]
  on_day _ _ := by simp [Gateway.utcDay, quiet]

theorem wasted_not_charged :
    let G := twoVoters (answering "perhaps")
    Charged 0 {} ∧ ¬ Charged 0 (G.check {} wasted) ∧
      usedOn 0 (G.check {} wasted).world = 0 ∧
      answeredTokens (G.check {} wasted).world.sent = 10 := by
  decide +kernel

theorem approved_charged :
    Runs.Throughout (twoVoters (answering "approve")).check (Charged 0) {} [wasted] ↔
      Runs.Meets (twoVoters (answering "approve")).check
        (fun s c => Voted (twoVoters (answering "approve"))
          (newExchanges s ((twoVoters (answering "approve")).check s c))) {} [wasted] :=
  charged_iff (twoVoters (answering "approve")) 0 {} [wasted] rfl

end Llm

end Slas
