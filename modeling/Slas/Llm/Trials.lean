/-
  Slas.Llm.Trials

  When a half-open trial ends.  A trial ends when the answer to its request, or the lack of
  one, is recorded; what is raised by a client or a validator in any other way goes past the
  breaker, and so does a request that is not valid.  The instance then stays marked as being
  tried, and is asked no more.  `trials_end_iff` says in which sessions this does not happen,
  and which answers of an instance raise so.
-/

import Slas.Llm.Dialogue
import Slas.Llm.Redaction

namespace Slas

namespace Llm

/-! ## Calls -/

/-- The calls that ask an instance.  `generate` and the voters of a cross-check reach the
    breaker through `generate_validated`. -/
inductive TrialCall where
  | complete (role : String) (messages : List Message) (maxTokens : Int) (temperature : Decimal)
      (guidedJson : Option Json)
  | generateJson (role : String) (messages : List Message) (schema : Json)
      (maxTokens maxRetries : Int)
  | generateValidated {T : Type} (request : CompletionRequest) (schema : Json)
      (validate : String → Except ValidationFailure T) (maxRetries : Int)

/-- The reply to a request is raised, or makes the validator raise. -/
def Escapes {T : Type} (validate : String → Except ValidationFailure T) (e : Exchange) : Prop :=
  (∃ why, e.reply = .error (.raised why)) ∨
    ∃ response why, e.reply = .ok response ∧ validate response.text = .error (.raised why)

/-- No text is refused. -/
def unchecked (text : String) : Except ValidationFailure String := .ok text

namespace Gateway

variable (G : Gateway)

def serve (s : GatewayState) (call : Ambient × TrialCall) : GatewayState :=
  match call.2 with
  | .complete role messages maxTokens temperature guidedJson =>
    (G.complete call.1 role messages maxTokens temperature guidedJson s).2
  | .generateJson role messages schema maxTokens maxRetries =>
    (G.generateJson call.1 role messages schema maxTokens maxRetries s).2
  | .generateValidated request schema validate maxRetries =>
    { s with
      world := (Llm.generateValidated G.toModels call.1 validate request schema maxRetries
        s.world).2 }

/-- The exchange of a call goes past its handlers. -/
def Escaping : TrialCall → Exchange → Prop
  | .complete .. => Escapes unchecked
  | .generateJson _ _ schema _ _ => Escapes (G.schemaCheck schema)
  | .generateValidated _ _ validate _ => Escapes validate

/-- A request for the instance would be let through as a trial. -/
def TrialDue (key : String) (amb : Ambient) (w : World) : Prop :=
  (w.entries key).state ≠ .closed ∧ G.breaker.ready (w.entries key) (amb.clock w.ops 0)

/-- A request that is let through as a trial is valid. -/
def ValidTrial (amb : Ambient) (w : World) : TrialCall → Prop
  | .complete role messages maxTokens temperature guidedJson =>
    ∀ model, G.routes.roles.lookup role = some model → G.TrialDue model amb w →
      CompletionRequest.Valid
        { model, messages := G.redacted messages, guidedJson, maxTokens, temperature
          traceId := amb.traceId }
  | _ => True

/-- What is raised past the breaker is raised before the instance has failed too often, and
    no trial is given to a request that is not valid. -/
def Handled (s : GatewayState) (call : Ambient × TrialCall) : Prop :=
  G.ValidTrial call.1 s.world call.2 ∧
    Trace.Always (fun pre e => G.Escaping call.2 e →
      (s.world.entries e.request.model).failures + pre.length < G.breaker.failureThreshold)
      (newExchanges s (G.serve s call))

end Gateway

/-- No trial is in flight. -/
def NoTrial (s : GatewayState) : Prop :=
  ∀ key, (s.world.entries key).lastReason ≠ trialInFlight

/-! ## One entry -/

variable {M : Models} {amb : Ambient} {key reason : String} {w w' : World} {T : Type}
  {validate : String → Except ValidationFailure T} {left attempts tokens : Nat}
  {current : CompletionRequest} {result : Except GatewayFailure (StructuredResult T)}

/-- The trial of an entry, if it had one, has ended. -/
structure Ended (B : CircuitBreaker) (entry : BreakerEntry) : Prop where
  counted : Counted B entry
  reason : entry.lastReason ≠ trialInFlight

theorem ended_fresh {B : CircuitBreaker} : Ended B {} := ⟨counted_fresh, by decide⟩

theorem Ended.noticed {B : CircuitBreaker} {entry : BreakerEntry} {now : DateTime}
    (h : Ended B entry) : Ended B (B.noticed entry now) :=
  ⟨h.counted.noticed, by rw [noticed_lastReason]; exact h.reason⟩

theorem foldl_noticed_ended {B : CircuitBreaker} {entry : BreakerEntry} (nows : List DateTime)
    (h : Ended B entry) :
    Ended B (nows.foldl B.noticed entry) ∧ (nows.foldl B.noticed entry).failures =
      entry.failures := by
  induction nows generalizing entry with
  | nil => exact ⟨h, rfl⟩
  | cons now nows ih => simpa using ih h.noticed

theorem allow_counted (amb : Ambient) (hc : Counted M.breaker (w.entries key)) :
    Counted M.breaker ((M.allow amb key w).2.entries key) ∧
      ((M.allow amb key w).2.entries key).failures = (w.entries key).failures := by
  have hentry : (M.allow amb key w).2.entries key = _ := allow_entry
  rw [hentry]
  split_ifs
  · exact ⟨hc.noticed, noticed_failures⟩
  · exact ⟨hc.noticed, noticed_failures⟩

/-- A request that is let through is a trial exactly if the instance has failed too often. -/
theorem allow_trial_iff (h : Ended M.breaker (w.entries key))
    (granted : (M.allow amb key w).1 = true) :
    ((M.allow amb key w).2.entries key).lastReason ≠ trialInFlight ↔
      (w.entries key).failures < M.breaker.failureThreshold := by
  have hentry : (M.allow amb key w).2.entries key = _ := allow_entry
  have hgranted : (M.breaker.allow key (amb.clock w.ops) w.entries).1 = true := granted
  have hcounted : (w.entries key).state = .closed ↔ _ := h.counted
  rw [hentry, ← hcounted]
  by_cases hclosed : (w.entries key).state = .closed
  · simp [hclosed, h.reason]
  · simp [hgranted, hclosed]

/-- A request that is not let through leaves no trial. -/
theorem paused_ended (h : Ended M.breaker (w.entries key))
    (refused : (M.allow amb key w).1 = false) :
    Ended M.breaker
      ((M.sentence amb key (M.allow amb key w).2).2.entries key) := by
  have hallow : (M.allow amb key w).2.entries key = _ := allow_entry
  have hrefused : (M.breaker.allow key (amb.clock w.ops) w.entries).1 = false := refused
  have hended : Ended M.breaker ((M.allow amb key w).2.entries key) := by
    rw [hallow, hrefused]
    simpa using h.noticed
  have hsentence : (M.sentence amb key (M.allow amb key w).2).2.entries key = _ := sentence_entry
  rw [hsentence]
  split_ifs
  · exact hended.noticed.noticed
  · exact hended.noticed

/-- A failure ends the trial, and counts. -/
theorem recordFailure_ended (amb : Ambient) (hc : Counted M.breaker (w.entries key))
    (hreason : reason ≠ trialInFlight) :
    Ended M.breaker ((M.recordFailure amb key reason w).entries key) ∧
      ((M.recordFailure amb key reason w).entries key).failures =
        (w.entries key).failures + 1 := by
  obtain ⟨is, hentry⟩ := @recordFailure_entry M.breaker key w.entries (amb.clock w.ops) reason
  have hafter : (M.recordFailure amb key reason w).entries key = _ := hentry
  have hfailed : Ended M.breaker
      (M.breaker.failed (w.entries key) reason (amb.clock w.ops 0)) ∧
      (M.breaker.failed (w.entries key) reason (amb.clock w.ops 0)).failures =
        (w.entries key).failures + 1 := by
    refine ⟨⟨hc.failed, ?_⟩, ?_⟩
    · unfold CircuitBreaker.failed
      split_ifs <;> exact hreason
    · unfold CircuitBreaker.failed
      split_ifs <;> rfl
  have hnoticed := foldl_noticed_ended (is.map (amb.clock w.ops)) hfailed.1
  rw [hafter]
  exact ⟨hnoticed.1, hnoticed.2.trans hfailed.2⟩

theorem recordSuccess_ended : Ended M.breaker ((recordSuccess key w).entries key) := by
  simp [recordSuccess, CircuitBreaker.recordSuccess, ended_fresh]

/-! ## One generation -/

/-- What is raised of these exchanges, is raised before the instance has failed too often. -/
def RaisedEarly (escapes : Exchange → Prop) (threshold failures : Nat) (new : List Exchange) :
    Prop :=
  Trace.Always (fun pre e => escapes e → failures + pre.length < threshold) new

theorem raisedEarly_nil {escapes : Exchange → Prop} {threshold failures : Nat} :
    RaisedEarly escapes threshold failures [] := Trace.always_nil

theorem raisedEarly_cons {escapes : Exchange → Prop} {threshold failures : Nat} {e : Exchange}
    {new : List Exchange} : RaisedEarly escapes threshold failures (e :: new) ↔
      (escapes e → failures < threshold) ∧ RaisedEarly escapes threshold (failures + 1) new := by
  simp only [RaisedEarly, Trace.always_cons, List.length_nil, Nat.add_zero, List.length_cons,
    Nat.add_right_comm, ← Nat.add_assoc]

theorem raisedEarly_of_not {escapes : Exchange → Prop} {threshold failures : Nat}
    {new : List Exchange} (h : ∀ e ∈ new, ¬ escapes e) :
    RaisedEarly escapes threshold failures new :=
  fun _ e _ heq hesc => absurd hesc (h e (heq ▸ by simp))

/-- What a call leaves of the entry of the instance it asks: no trial, if it is handled. -/
structure Tried (B : CircuitBreaker) (key : String) (w w' : World) (new : List Exchange)
    (handled : Prop) : Prop where
  sent : w'.sent = w.sent ++ new
  asked : ∀ e ∈ new, e.request.model = key
  others : ∀ other, other ≠ key → w'.entries other = w.entries other
  counted : Counted B (w'.entries key)
  trial : (w'.entries key).lastReason ≠ trialInFlight ↔ handled

theorem allow_others {other : String} (hne : other ≠ key) :
    (M.allow amb key w).2.entries other = w.entries other := allow_other hne

theorem recordFailure_others {other : String} (hne : other ≠ key) :
    (M.recordFailure amb key reason w).entries other = w.entries other := recordFailure_other hne

theorem recordSuccess_others {other : String} (hne : other ≠ key) :
    (recordSuccess key w).entries other = w.entries other := by
  simp [recordSuccess, CircuitBreaker.recordSuccess, hne]

theorem sentence_others {other : String} (hne : other ≠ key) :
    (M.sentence amb key w).2.entries other = w.entries other := sentence_other hne

@[simp] theorem ask_entries :
    (M.ask amb current w).2.entries = (M.allow amb current.model w).2.entries := rfl

/-- A request whose reply, or the text of it, is raised. -/
theorem Tried.of_escapes {escapes : Exchange → Prop}
    (hw : Ended M.breaker (w.entries current.model))
    (granted : (M.allow amb current.model w).1 = true)
    (hesc : escapes (M.exchange amb current w)) :
    Tried M.breaker current.model w (M.ask amb current w).2 [M.exchange amb current w]
      (RaisedEarly escapes M.breaker.failureThreshold (w.entries current.model).failures
        [M.exchange amb current w]) where
  sent := rfl
  asked e he := by
    rw [List.mem_singleton.mp he]
    rfl
  others other hne := allow_others hne
  counted := (allow_counted amb hw.counted).1
  trial := by
    rw [raisedEarly_cons, and_iff_left raisedEarly_nil, forall_prop_of_true hesc, ask_entries]
    exact allow_trial_iff hw granted

theorem not_escapes_ok {response : CompletionResponse}
    (reply : (M.ask amb current w).1 = .ok response)
    (hvalid : ∀ why, validate response.text ≠ .error (.raised why)) :
    ¬ Escapes validate (M.exchange amb current w) := by
  rintro (⟨why, heq⟩ | ⟨response', why, heq, hraised⟩)
  · simp [Models.exchange, reply] at heq
  · have hsame : response = response' := by simpa [Models.exchange, reply] using heq
    exact hvalid why (hsame ▸ hraised)

theorem not_escapes_unavailable {why : String}
    (reply : (M.ask amb current w).1 = .error (.unavailable why)) :
    ¬ Escapes validate (M.exchange amb current w) := by
  rintro (⟨why', heq⟩ | ⟨response', why', heq, -⟩) <;> simp [Models.exchange, reply] at heq

theorem schema_reason (lastError : String) : "schema: " ++ lastError ≠ trialInFlight := by
  intro h
  have hhead := congrArg (·.toList.head?) h
  simp [trialInFlight] at hhead

/-- A request after which an outcome is recorded. -/
theorem Tried.of_recorded {handled : Prop}
    (h : Ended M.breaker (w'.entries current.model))
    (hsent : w'.sent = w.sent ++ [M.exchange amb current w])
    (hothers : ∀ other, other ≠ current.model → w'.entries other = w.entries other)
    (hhandled : handled) :
    Tried M.breaker current.model w w' [M.exchange amb current w] handled where
  sent := hsent
  asked e he := by
    rw [List.mem_singleton.mp he]
    rfl
  others := hothers
  counted := h.counted
  trial := iff_of_true h.reason hhandled

theorem ask_recordFailure_ended (amb : Ambient) (hc : Counted M.breaker (w.entries current.model))
    (hreason : reason ≠ trialInFlight) :
    let w' := M.recordFailure amb current.model reason (M.ask amb current w).2
    Ended M.breaker (w'.entries current.model) ∧
      (w'.entries current.model).failures = (w.entries current.model).failures + 1 := by
  have hallow := allow_counted amb hc
  have hask : Counted M.breaker ((M.ask amb current w).2.entries current.model) := hallow.1
  have hfailure := recordFailure_ended amb hask hreason
  exact ⟨hfailure.1, hfailure.2.trans (congrArg (· + 1) hallow.2)⟩

theorem Tried.of_failure {handled : Prop} (hw : Ended M.breaker (w.entries current.model))
    (hreason : reason ≠ trialInFlight) (hhandled : handled) :
    Tried M.breaker current.model w
      (M.recordFailure amb current.model reason (M.ask amb current w).2)
      [M.exchange amb current w] handled :=
  .of_recorded (ask_recordFailure_ended amb hw.counted hreason).1 rfl
    (fun _ hne => (recordFailure_others hne).trans (allow_others hne)) hhandled

theorem Tried.of_success {handled : Prop} (hhandled : handled) :
    Tried M.breaker current.model w (recordSuccess current.model (M.ask amb current w).2)
      [M.exchange amb current w] handled :=
  .of_recorded recordSuccess_ended rfl
    (fun _ hne => (recordSuccess_others hne).trans (allow_others hne)) hhandled

theorem Tried.of_paused {handled : Prop} (hw : Ended M.breaker (w.entries key))
    (refused : (M.allow amb key w).1 = false) (hhandled : handled) :
    Tried M.breaker key w (M.sentence amb key (M.allow amb key w).2).2 [] handled where
  sent := by simp
  asked _ he := nomatch he
  others _ hne := (sentence_others hne).trans (allow_others hne)
  counted := (paused_ended hw refused).counted
  trial := iff_of_true (paused_ended hw refused).reason hhandled

/-- Nothing is done. -/
theorem Tried.of_nothing {B : CircuitBreaker} {handled : Prop} (hw : Ended B (w.entries key))
    (hhandled : handled) : Tried B key w w [] handled where
  sent := by simp
  asked _ he := nomatch he
  others _ _ := rfl
  counted := hw.counted
  trial := iff_of_true hw.reason hhandled

/-- **How a generation leaves the breaker**: no trial is left in flight exactly if what was
    raised in it was raised before the instance had failed too often. -/
theorem Asks.tried (h : Asks M amb validate left current attempts tokens w result w')
    (hw : Ended M.breaker (w.entries current.model)) :
    ∃ new, Tried M.breaker current.model w w' new (RaisedEarly (Escapes validate)
      M.breaker.failureThreshold (w.entries current.model).failures new) := by
  induction h with
  | paused refused => exact ⟨[], .of_paused hw refused raisedEarly_nil⟩
  | unavailable granted reply =>
    refine ⟨_, .of_failure hw (by decide) (raisedEarly_of_not ?_)⟩
    simpa using not_escapes_unavailable reply
  | raised granted reply => exact ⟨_, .of_escapes hw granted (Or.inl ⟨_, reply⟩)⟩
  | accepted granted reply valid =>
    refine ⟨_, .of_success (raisedEarly_of_not ?_)⟩
    simpa using not_escapes_ok reply (by simp [valid])
  | broken granted reply invalid =>
    exact ⟨_, .of_escapes hw granted (Or.inr ⟨_, _, reply, invalid⟩)⟩
  | exhausted granted reply invalid =>
    refine ⟨_, .of_failure hw (schema_reason _) (raisedEarly_of_not ?_)⟩
    simpa using not_escapes_ok reply (by simp [invalid])
  | @retried left current attempts tokens w response lastError result w' granted reply invalid
      rest ih =>
    have hfailed := ask_recordFailure_ended amb hw.counted (schema_reason lastError)
    obtain ⟨new, htried⟩ := ih hfailed.1
    refine ⟨M.exchange amb current w :: new, ?_, ?_, ?_, htried.counted, ?_⟩
    · simpa using htried.sent
    · intro e he
      rcases List.mem_cons.mp he with rfl | he
      · rfl
      · exact htried.asked e he
    · intro other hne
      exact (htried.others other hne).trans ((recordFailure_others hne).trans (allow_others hne))
    · rw [raisedEarly_cons, and_iff_right fun hesc =>
        absurd hesc (not_escapes_ok reply (by simp [invalid])), ← hfailed.2]
      exact htried.trial

/-! ## One call -/

variable {G : Gateway} {s : GatewayState} {call : Ambient × TrialCall}

/-- A request that is let through is a trial exactly if its trial was due. -/
theorem trialDue_iff (granted : (G.allow amb key w).1 = true) :
    G.TrialDue key amb w ↔ (w.entries key).state ≠ .closed := by
  have hready : (w.entries key).state = .closed ∨ _ := allow_iff_ready.mp granted
  constructor
  · exact fun h => h.1
  · exact fun h => ⟨h, hready.resolve_left h⟩

theorem not_trialDue (refused : (G.allow amb key w).1 = false) : ¬ G.TrialDue key amb w := by
  intro hdue
  have hgranted : (G.allow amb key w).1 = true := allow_iff_ready.mpr (Or.inr hdue.2)
  rw [refused] at hgranted
  cases hgranted

theorem complete_tried {role : String} {messages : List Message} {maxTokens : Int}
    {temperature : Decimal} {guidedJson : Option Json}
    (hs : ∀ key, Ended G.breaker (s.world.entries key)) :
    ∃ key new, Tried G.breaker key s.world
      (G.complete amb role messages maxTokens temperature guidedJson s).2.world new
      (G.ValidTrial amb s.world (.complete role messages maxTokens temperature guidedJson) ∧
        RaisedEarly (Escapes unchecked) G.breaker.failureThreshold
          (s.world.entries key).failures new) := by
  unfold Gateway.complete
  cases hrole : G.routes.roles.lookup role with
  | none =>
    refine ⟨"", [], .of_nothing (hs "") ⟨?_, raisedEarly_nil⟩⟩
    simp [Gateway.ValidTrial, hrole]
  | some model =>
    refine ⟨model, ?_⟩
    dsimp only
    generalize hrequest : (⟨model, G.redacted messages, guidedJson, maxTokens, temperature,
      amb.traceId⟩ : CompletionRequest) = request
    have hmodel : request.model = model := by rw [← hrequest]
    subst hmodel
    have hvalid : G.ValidTrial amb s.world
        (.complete role messages maxTokens temperature guidedJson) ↔
          (G.TrialDue request.model amb s.world → request.Valid) := by
      simp only [Gateway.ValidTrial, hrole, Option.some.injEq, forall_eq', hrequest]
    rw [hvalid]
    cases hallow : (G.allow amb request.model s.world).1 with
    | false =>
      rw [if_pos rfl]
      exact ⟨[], .of_paused (hs _) hallow
        ⟨fun hdue => absurd hdue (not_trialDue hallow), raisedEarly_nil⟩⟩
    | true =>
      have hask : G.send request (G.allow amb request.model s.world).2 =
          G.ask amb request s.world := rfl
      rw [if_neg (by simp)]
      simp only [noting_world, hask]
      by_cases hv : request.Valid
      · rw [if_neg (not_not.mpr hv)]
        simp only [hv, implies_true, true_and]
        cases hreply : (G.ask amb request s.world).1 with
        | ok response =>
          refine ⟨_, .of_success (raisedEarly_of_not ?_)⟩
          simpa using not_escapes_ok hreply (by simp [unchecked])
        | error failure =>
          cases failure with
          | unavailable why =>
            refine ⟨_, .of_failure (hs _) (by decide) (raisedEarly_of_not ?_)⟩
            simpa using not_escapes_unavailable hreply
          | raised e => exact ⟨_, .of_escapes (hs _) hallow (Or.inl ⟨_, hreply⟩)⟩
      · rw [if_pos hv]
        have hcounted : (s.world.entries request.model).state = .closed ↔ _ :=
          (hs request.model).counted
        refine ⟨[], by simp, by simp, fun other hne => allow_others hne,
          (allow_counted amb (hs _).counted).1, ?_⟩
        rw [and_iff_left raisedEarly_nil, trialDue_iff hallow]
        refine (allow_trial_iff (hs _) hallow).trans ?_
        simp [← hcounted, hv]

theorem generateValidated_tried {T : Type} (validate : String → Except ValidationFailure T)
    (request : CompletionRequest) (schema : Json) (maxRetries : Int)
    (hs : ∀ key, Ended G.breaker (s.world.entries key)) :
    ∃ new, Tried G.breaker request.model s.world
      (generateValidated G.toModels amb validate request schema maxRetries s.world).2 new
      (RaisedEarly (Escapes validate) G.breaker.failureThreshold
        (s.world.entries request.model).failures new) :=
  (askValidated_asks maxRetries.toNat { request with guidedJson := some schema } 0 0
    s.world).tried (hs request.model)

/-- What a call leaves of the entries. -/
theorem serve_tried (hs : ∀ key, Ended G.breaker (s.world.entries key)) :
    ∃ key new, Tried G.breaker key s.world (G.serve s call).world new
      (G.ValidTrial call.1 s.world call.2 ∧ RaisedEarly (G.Escaping call.2)
        G.breaker.failureThreshold (s.world.entries key).failures new) := by
  obtain ⟨amb, call⟩ := call
  cases call with
  | complete => exact complete_tried hs
  | generateJson role messages schema maxTokens maxRetries =>
    simp only [Gateway.serve, Gateway.generateJson, Gateway.structured, Gateway.ValidTrial,
      true_and]
    cases G.routes.roles.lookup role with
    | none => exact ⟨"", [], .of_nothing (hs "") raisedEarly_nil⟩
    | some model =>
      dsimp only
      split_ifs
      · exact ⟨model, generateValidated_tried (G.schemaCheck schema)
          { model, messages := G.redacted messages, maxTokens, traceId := amb.traceId }
          schema maxRetries hs⟩
      · exact ⟨model, [], .of_nothing (hs model) raisedEarly_nil⟩
  | generateValidated request schema validate maxRetries =>
    simp only [Gateway.serve, Gateway.ValidTrial, true_and]
    exact ⟨request.model, generateValidated_tried validate request schema maxRetries hs⟩

/-- One call leaves no trial in flight exactly if it is handled, and every failure counted. -/
theorem serve_step (hcounted : ∀ key, Counted G.breaker (s.world.entries key)) (hs : NoTrial s) :
    (∀ key, Counted G.breaker ((G.serve s call).world.entries key)) ∧
      (NoTrial (G.serve s call) ↔ G.Handled s call) := by
  obtain ⟨key, new, htried⟩ := @serve_tried G s call fun key => ⟨hcounted key, hs key⟩
  have hother : ∀ other, other = key ∨ (G.serve s call).world.entries other =
      s.world.entries other := fun other => (em _).imp_right (htried.others other)
  constructor
  · intro other
    rcases hother other with rfl | heq
    · exact htried.counted
    · exact heq ▸ hcounted other
  · have hall : NoTrial (G.serve s call) ↔
        ((G.serve s call).world.entries key).lastReason ≠ trialInFlight := by
      constructor
      · exact fun h => h key
      · intro h other
        rcases hother other with rfl | heq
        · exact h
        · exact heq ▸ hs other
    have hsame : Trace.Always (fun pre e => G.Escaping call.2 e →
        (s.world.entries e.request.model).failures + pre.length < G.breaker.failureThreshold) new ↔
        RaisedEarly (G.Escaping call.2) G.breaker.failureThreshold
          (s.world.entries key).failures new := by
      constructor <;> intro h pre e post heq
      · exact htried.asked e (heq ▸ by simp) ▸ h pre e post heq
      · rw [htried.asked e (heq ▸ by simp)]
        exact h pre e post heq
    rw [hall, htried.trial, Gateway.Handled, newExchanges_eq htried.sent, hsame]

/-- **When trials end**: in a session from the start no trial is left in flight after a call,
    exactly if each call was handled; and a payload makes a client raise past the breaker
    exactly if it is of the expected shape, but its usage is not one of token counts. -/
theorem trials_end_iff (G : Gateway) (P : Python) :
    (∀ calls, Runs.Throughout G.serve NoTrial {} calls ↔ Runs.Meets G.serve G.Handled {} calls) ∧
      ∀ request payload, (∃ e, responseFromPayload P request payload = .error (.raised e)) ↔
        Shaped payload ∧ ¬ UsageReadable P payload := by
  refine ⟨fun calls => ?_, fun request payload => responseFromPayload_raised_iff⟩
  exact Runs.throughout_iff_of_invariant (fun _ _ hcounted hs => (serve_step hcounted hs).1)
    (fun _ _ hcounted hs => (serve_step hcounted hs).2) (fun _ => counted_fresh)
    (fun _ => (ended_fresh (B := G.breaker)).reason)

/-- An instance that does not answer at first, and then without a count of its tokens. -/
def stumbling : VllmClient :=
  httpxComplete .plain fun sent _ =>
    if sent.isEmpty then .failed
    else .payload (.obj
      [("choices", .arr [.obj [("message", .obj [("content", .str "ok")])]]),
       ("usage", .obj [("prompt_tokens", .null)])])

def asking (now : Nat) : Ambient × TrialCall :=
  ({ clock := fun _ _ => now }, .complete "coder" [⟨.user, "hello"⟩] 16 (.ofNat 0) none)

/-- The second request is the trial after a pause, the third is refused however late it is. -/
theorem trial_stays_in_flight :
    let G := twoVoters stumbling
    ¬ NoTrial (Runs.run G.serve {} [asking 0, asking 1000]) ∧
      (Runs.run G.serve {} [asking 0, asking 1000, asking 1000000]).world.sent.length = 2 := by
  refine ⟨fun h => h "qwen" ?_, ?_⟩
  · decide +kernel
  · decide +kernel

end Llm

end Slas
