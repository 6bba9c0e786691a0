/-
  Slas.Llm.CrossCheck

  The verdicts of the Consensus Router are sound.  A vote is cast by a voter whose answer
  was accepted as a vote (`askVoters_cast`), the voters of a panel are distinct, and the
  tally measures against the size of the panel: so an agreement, or a decided value, has as
  many voters behind it as its rule asks for: `crossCheck_sound`.
-/

import Slas.Llm.Dialogue
import Slas.Llm.Redaction

namespace Slas

namespace Llm

/-! ## What a panel casts -/

variable {G : Gateway} {amb : Ambient} {evidence : List Message} {panel : List String}
  {ballots ballots' : Gateway.Ballots} {w w' : World} {new new' : List Exchange} {vote : Vote}
  {rule : DecisionRule} {verdict : ConsensusVerdict} {s s' : GatewayState} {decision : String}

/-- A vote was cast in an exchange: its voter was asked, and the answer is the vote. -/
def Cast (G : Gateway) (new : List Exchange) (vote : Vote) : Prop :=
  ∃ e ∈ new, e.request.model = vote.voter ∧
    ∃ answer, Accepts G.voteModel.validator answer e ∧ vote = { answer with voter := vote.voter }

theorem Cast.mono (h : Cast G new vote) (hsub : ∀ e ∈ new, e ∈ new') : Cast G new' vote := by
  obtain ⟨e, he, hcast⟩ := h
  exact ⟨e, hsub e he, hcast⟩

@[simp] theorem roll_sent : (Gateway.roll amb w).sent = w.sent := by
  simp only [Gateway.roll]
  split_ifs <;> rfl

@[simp] theorem remaining_sent : (G.remaining amb w).2.sent = w.sent := roll_sent

@[simp] theorem charge_sent {tokens : Nat} : (Gateway.charge amb tokens w).sent = w.sent :=
  roll_sent

/-- What one voter's generation adds to the exchanges. -/
theorem generateValidated_heard {T : Type} (M : Models) (amb : Ambient)
    (validate : String → Except ValidationFailure T) (request : CompletionRequest) (schema : Json)
    (maxRetries : Int) (w : World) :
    ∃ new, (generateValidated M amb validate request schema maxRetries w).2.sent = w.sent ++ new ∧
      Heard validate request.model 0 new
        (generateValidated M amb validate request schema maxRetries w).1 :=
  (askValidated_asks ..).heard

/-- The votes of a panel were cast by different voters of it, in its order. -/
theorem askVoters_cast (h : G.askVoters amb evidence panel ballots w = (.ok ballots', w')) :
    ∃ votes new, ballots'.votes = ballots.votes ++ votes ∧ w'.sent = w.sent ++ new ∧
      (votes.map (·.voter)).Sublist panel ∧ ∀ vote ∈ votes, Cast G new vote := by
  induction panel generalizing ballots w with
  | nil =>
    cases h
    exact ⟨[], [], by simp, by simp, by simp, by simp⟩
  | cons voter panel ih =>
    rw [Gateway.askVoters] at h
    dsimp only at h
    split_ifs at h
    case neg => cases h
    obtain ⟨new, hsent, hheard⟩ := generateValidated_heard G.toModels amb G.voteModel.validator
      { model := voter, messages := evidence, traceId := amb.traceId } G.voteModel.schema 2 w
    generalize generateValidated G.toModels amb G.voteModel.validator _ G.voteModel.schema 2 w =
      asked at h hsent hheard
    have hrest : ∀ {ballots w₁}, w₁.sent = w.sent ++ new →
        G.askVoters amb evidence panel ballots w₁ = (.ok ballots', w') →
        ∃ votes new', ballots'.votes = ballots.votes ++ votes ∧ w'.sent = w.sent ++ (new ++ new') ∧
          (votes.map (·.voter)).Sublist panel ∧ ∀ vote ∈ votes, Cast G (new ++ new') vote := by
      intro ballots w₁ hw₁ h
      obtain ⟨votes, new', hvotes, hsent', hsub, hcast⟩ := ih h
      refine ⟨votes, new', hvotes, by rw [hsent', hw₁, List.append_assoc], hsub, fun vote hv => ?_⟩
      exact (hcast vote hv).mono fun e he => List.mem_append_right _ he
    split at h
    · rename_i result hresult
      obtain ⟨-, e, he, haccepts⟩ := hheard.accepted result hresult
      obtain ⟨votes, new', hvotes, hsent', hsub, hcast⟩ := hrest (by simpa using hsent) h
      refine ⟨{ result.value with voter } :: votes, new ++ new', by simpa using hvotes, hsent',
        by simpa using hsub, fun vote hv => ?_⟩
      rcases List.mem_cons.mp hv with rfl | hv
      · exact ⟨e, List.mem_append_left _ he, hheard.asked e he, result.value, haccepts, rfl⟩
      · exact hcast vote hv
    · obtain ⟨votes, new', hvotes, hsent', hsub, hcast⟩ := hrest hsent h
      exact ⟨votes, new ++ new', hvotes, hsent', hsub.cons _, hcast⟩
    · obtain ⟨votes, new', hvotes, hsent', hsub, hcast⟩ := hrest hsent h
      exact ⟨votes, new ++ new', hvotes, hsent', hsub.cons _, hcast⟩
    · cases h

/-! ## From votes to voters -/

/-- The voter was asked, and returned a valid vote that approves. -/
def Approved (G : Gateway) (new : List Exchange) (voter : String) : Prop :=
  ∃ e ∈ new, e.request.model = voter ∧
    ∃ answer, Accepts G.voteModel.validator answer e ∧ answer.verdict = .approve

/-- The voter was asked, and returned a valid vote that gives the field the value. -/
def Gave (G : Gateway) (new : List Exchange) (fieldName value voter : String) : Prop :=
  ∃ e ∈ new, e.request.model = voter ∧
    ∃ answer, Accepts G.voteModel.validator answer e ∧
      answer.fields.lookup fieldName = some value

theorem Cast.approved (h : Cast G new vote) (happrove : vote.verdict = .approve) :
    Approved G new vote.voter := by
  obtain ⟨e, he, hvoter, answer, haccepts, heq⟩ := h
  rw [heq] at happrove
  exact ⟨e, he, hvoter, answer, haccepts, happrove⟩

theorem Cast.gave {fieldName value : String} (h : Cast G new vote)
    (hgave : vote.fields.lookup fieldName = some value) :
    Gave G new fieldName value vote.voter := by
  obtain ⟨e, he, hvoter, answer, haccepts, heq⟩ := h
  rw [heq] at hgave
  exact ⟨e, he, hvoter, answer, haccepts, hgave⟩

/-- The voters of the votes that `p` picks: all different, and as many as these votes. -/
theorem exists_voters {votes : List Vote} (p : Vote → Bool) {Q : String → Prop}
    (hdistinct : (votes.map (·.voter)).Nodup) (hpick : ∀ vote ∈ votes, p vote → Q vote.voter) :
    ∃ voters : List String, voters.Nodup ∧ voters.length = votes.countP p ∧
      ∀ voter ∈ voters, Q voter := by
  refine ⟨(votes.filter p).map (·.voter), ?_, ?_, ?_⟩
  · exact hdistinct.sublist (List.filter_sublist.map _)
  · rw [List.length_map, List.countP_eq_length_filter]
  · intro voter hvoter
    obtain ⟨vote, hvote, rfl⟩ := List.mem_map.mp hvoter
    obtain ⟨hmem, hp⟩ := List.mem_filter.mp hvote
    exact hpick vote hmem hp

/-! ## Verdicts -/

/-- A verdict is the tally of its votes, but for its sentence. -/
structure Tallied (rule : DecisionRule) (verdict : ConsensusVerdict) : Prop where
  agreed_eq : verdict.agreed = agreed rule verdict.votes
  undecided_eq : verdict.undecidedFields = undecidedFields rule verdict.votes

/-- What the votes of a panel come to. -/
theorem checkWith_cast (h : (G.checkWith amb rule evidence panel w).1 = .ok verdict) :
    Tallied rule verdict ∧ ∃ new, (G.checkWith amb rule evidence panel w).2.sent = w.sent ++ new ∧
      (verdict.votes.map (·.voter)).Sublist panel ∧ ∀ vote ∈ verdict.votes, Cast G new vote := by
  unfold Gateway.checkWith at h ⊢
  dsimp only at h ⊢
  generalize hover : decide ((G.remaining amb w).1 < VOTE_TOKEN_ESTIMATE * panel.length) =
    overBudget at h ⊢
  have hpanel : (if overBudget = true then panel.take 1 else panel).Sublist panel := by
    split_ifs
    · exact List.take_sublist 1 panel
    · exact List.Sublist.refl panel
  have hbefore : (if overBudget = true then Gateway.roll amb (G.remaining amb w).2
      else (G.remaining amb w).2).sent = w.sent := by
    split_ifs <;> simp
  generalize hasked : G.askVoters amb evidence _ _ _ = asked at h ⊢
  obtain ⟨ballots | ballots, w'⟩ := asked
  · cases h
  · obtain ⟨votes, new, hvotes, hsent, hsub, hcast⟩ := askVoters_cast hasked
    rw [List.nil_append] at hvotes
    subst hvotes
    rw [hbefore] at hsent
    cases h
    refine ⟨?_, new, by simpa using hsent, ?_⟩
    · split_ifs <;> exact ⟨rfl, rfl⟩
    · split_ifs <;> exact ⟨hsub.trans hpanel, hcast⟩

/-- What a verdict on the exchanges of a cross-check can be relied on for. -/
structure Sound (G : Gateway) (rule : DecisionRule) (new : List Exchange)
    (verdict : ConsensusVerdict) : Prop where
  /-- agreed, and the whole panel approved -/
  unanimous : rule.rule = .unanimous → verdict.agreed = true →
    ∃ voters : List String, voters.Nodup ∧ voters.length = rule.voters ∧
      ∀ voter ∈ voters, Approved G new voter
  /-- agreed, and more than half of the panel approved -/
  majority : rule.rule = .majority → verdict.agreed = true →
    ∃ voters : List String, voters.Nodup ∧ rule.voters < 2 * voters.length ∧
      ∀ voter ∈ voters, Approved G new voter
  /-- a field that is not undecided is decided -/
  decided : rule.rule = .majorityPerField → ∀ fieldName ∈ rule.fields,
    fieldName ∉ verdict.undecidedFields →
      ∃ value, decidedValue rule verdict.votes fieldName = some value
  /-- what is decided, more than half of the panel said -/
  held : ∀ fieldName value, decidedValue rule verdict.votes fieldName = some value →
    ∃ voters : List String, voters.Nodup ∧ rule.voters < 2 * voters.length ∧
      ∀ voter ∈ voters, Gave G new fieldName value voter
  /-- in whatever order the votes come in -/
  order : ∀ votes unavailable degraded, votes.Perm verdict.votes →
    (tally G.capitalize rule votes unavailable degraded).agreed = verdict.agreed ∧
      (tally G.capitalize rule votes unavailable degraded).undecidedFields =
        verdict.undecidedFields ∧
      ∀ fieldName, decidedValue rule votes fieldName = decidedValue rule verdict.votes fieldName

/-- Votes that different voters of a panel cast make their tally sound. -/
theorem sound_of_cast (htallied : Tallied rule verdict)
    (hdistinct : (verdict.votes.map (·.voter)).Nodup) (hlen : verdict.votes.length ≤ rule.voters)
    (hcast : ∀ vote ∈ verdict.votes, Cast G new vote) : Sound G rule new verdict where
  unanimous hrule hagreed := by
    rw [htallied.agreed_eq] at hagreed
    obtain ⟨voters, hnodup, hcount, hall⟩ := exists_voters (fun vote => vote.verdict = .approve)
      hdistinct fun vote hv happrove => (hcast vote hv).approved (of_decide_eq_true happrove)
    exact ⟨voters, hnodup, hcount.trans (agreed_unanimous hrule hagreed), hall⟩
  majority hrule hagreed := by
    rw [htallied.agreed_eq] at hagreed
    obtain ⟨voters, hnodup, hcount, hall⟩ := exists_voters (fun vote => vote.verdict = .approve)
      hdistinct fun vote hv happrove => (hcast vote hv).approved (of_decide_eq_true happrove)
    exact ⟨voters, hnodup, hcount ▸ agreed_majority hrule hagreed, hall⟩
  decided hrule fieldName hfield hdecided := by
    rw [htallied.undecided_eq, undecidedFields, if_pos hrule, List.mem_filter, not_and,
      Bool.not_eq_true, Option.isNone_eq_false_iff] at hdecided
    exact Option.isSome_iff_exists.mp (hdecided hfield)
  held fieldName value hheld := by
    obtain ⟨voters, hnodup, hcount, hall⟩ :=
      exists_voters (fun vote => vote.fields.lookup fieldName = some value) hdistinct
        fun vote hv hgave => (hcast vote hv).gave (of_decide_eq_true hgave)
    exact ⟨voters, hnodup, hcount ▸ (decidedValue_eq_some_iff hlen).mp hheld, hall⟩
  order votes unavailable degraded hperm := by
    have hlen' := hperm.length_eq.trans_le hlen
    rw [htallied.agreed_eq, htallied.undecided_eq]
    exact ⟨agreed_perm hperm hlen', undecidedFields_perm hperm hlen',
      fun _ => decidedValue_perm hperm hlen'⟩

/-- **Verdicts are sound**: whatever the voters do, and whatever is left of the budget, the
    verdict of a cross-check has behind it the voters that its rule asks for. -/
theorem crossCheck_sound (h : (G.crossCheck amb decision evidence s).1 = .ok verdict) :
    ∃ rule, G.rules.lookup decision = some rule ∧
      ∃ new, (G.crossCheck amb decision evidence s).2.world.sent = s.world.sent ++ new ∧
        Sound G rule new verdict := by
  unfold Gateway.crossCheck at h ⊢
  cases hrule : G.rules.lookup decision with
  | none => simp only [hrule, reduceCtorEq] at h
  | some rule =>
    simp only [hrule, noting_world] at h ⊢
    have hpanel := List.take_sublist rule.voters G.routes.voters
    split_ifs at h ⊢ with hempty
    · cases h
      exact ⟨rule, rfl, [], by simp,
        sound_of_cast ⟨rfl, rfl⟩ List.nodup_nil (Nat.zero_le _) (by simp [tally])⟩
    · obtain ⟨htallied, new, hsent, hsub, hcast⟩ := checkWith_cast h
      refine ⟨rule, rfl, new, hsent, sound_of_cast htallied ?_ ?_ hcast⟩
      · exact G.routes.voters_distinct.sublist (hsub.trans hpanel)
      · calc verdict.votes.length = (verdict.votes.map (·.voter)).length := by simp
          _ ≤ (G.routes.voters.take rule.voters).length := hsub.length_le
          _ ≤ rule.voters := List.length_take_le _ _

theorem two_voters_agree : ∃ verdict,
    ((twoVoters (answering "approve")).crossCheck quiet "release" [⟨.user, "log"⟩] {}).1 =
        .ok verdict ∧
      verdict.agreed = true ∧
      ∃ rule new, Sound (twoVoters (answering "approve")) rule new verdict := by
  have hran : ((twoVoters (answering "approve")).crossCheck quiet "release"
      [⟨.user, "log"⟩] {}).1.toOption.any (·.agreed) = true := by decide +kernel
  obtain ⟨verdict, hverdict, hagreed⟩ := exists_eq_ok hran
  obtain ⟨rule, -, new, -, hsound⟩ := crossCheck_sound hverdict
  exact ⟨verdict, hverdict, hagreed, rule, new, hsound⟩

end Llm

end Slas
