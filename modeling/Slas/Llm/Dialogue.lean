/-
  Slas.Llm.Dialogue

  How a generation of a validated answer goes, request by request.  `Asks` has one
  constructor for each way a request can end; what is proved of every generation is proved
  by induction on it.  `Asks.heard` is what a caller needs of the requests: an answer was
  accepted in one of them exactly if the generation succeeded.
-/

import Slas.Llm.Gateway

namespace Slas

namespace Llm

/-! ## Frames -/

section Frames

variable {M : Models} {amb : Ambient} {key reason : String} {request : CompletionRequest}
  {w : World}

@[simp] theorem allow_sent : (M.allow amb key w).2.sent = w.sent := rfl
@[simp] theorem allow_day : (M.allow amb key w).2.day = w.day := rfl
@[simp] theorem allow_spent : (M.allow amb key w).2.spent = w.spent := rfl

@[simp] theorem sentence_sent : (M.sentence amb key w).2.sent = w.sent := rfl
@[simp] theorem sentence_day : (M.sentence amb key w).2.day = w.day := rfl
@[simp] theorem sentence_spent : (M.sentence amb key w).2.spent = w.spent := rfl

@[simp] theorem recordFailure_sent : (M.recordFailure amb key reason w).sent = w.sent := rfl
@[simp] theorem recordFailure_day : (M.recordFailure amb key reason w).day = w.day := rfl
@[simp] theorem recordFailure_spent : (M.recordFailure amb key reason w).spent = w.spent := rfl

@[simp] theorem recordSuccess_sent : (recordSuccess key w).sent = w.sent := rfl
@[simp] theorem recordSuccess_day : (recordSuccess key w).day = w.day := rfl
@[simp] theorem recordSuccess_spent : (recordSuccess key w).spent = w.spent := rfl

@[simp] theorem send_sent :
    (M.send request w).2.sent = w.sent ++ [⟨request, (M.send request w).1⟩] := rfl
@[simp] theorem send_day : (M.send request w).2.day = w.day := rfl
@[simp] theorem send_spent : (M.send request w).2.spent = w.spent := rfl

end Frames

/-! ## The ways a request can end -/

variable {T : Type}

/-- The next request of a generation, once the breaker has let it through. -/
def Models.ask (M : Models) (amb : Ambient) (current : CompletionRequest) (w : World) :
    Reply × World :=
  M.send current (M.allow amb current.model w).2

/-- A generation from a world to its result and a world, with the retries that are left. -/
inductive Asks (M : Models) (amb : Ambient) (validate : String → Except ValidationFailure T) :
    Nat → CompletionRequest → Nat → Nat → World →
      Except GatewayFailure (StructuredResult T) → World → Prop
  | paused {left current attempts tokens w}
      (refused : (M.allow amb current.model w).1 = false) :
      Asks M amb validate left current attempts tokens w
        (.error (.unavailable current.model
          (M.sentence amb current.model (M.allow amb current.model w).2).1))
        (M.sentence amb current.model (M.allow amb current.model w).2).2
  | unavailable {left current attempts tokens w why}
      (granted : (M.allow amb current.model w).1 = true)
      (reply : (M.ask amb current w).1 = .error (.unavailable why)) :
      Asks M amb validate left current attempts tokens w
        (.error (.unavailable current.model why))
        (M.recordFailure amb current.model "did not answer" (M.ask amb current w).2)
  | raised {left current attempts tokens w e}
      (granted : (M.allow amb current.model w).1 = true)
      (reply : (M.ask amb current w).1 = .error (.raised e)) :
      Asks M amb validate left current attempts tokens w (.error (.escaped e))
        (M.ask amb current w).2
  | accepted {left current attempts tokens w response value}
      (granted : (M.allow amb current.model w).1 = true)
      (reply : (M.ask amb current w).1 = .ok response)
      (valid : validate response.text = .ok value) :
      Asks M amb validate left current attempts tokens w
        (.ok { value, model := current.model, attempts := attempts + 1
               tokens := tokens + response.totalTokens, response })
        (recordSuccess current.model (M.ask amb current w).2)
  | broken {left current attempts tokens w response e}
      (granted : (M.allow amb current.model w).1 = true)
      (reply : (M.ask amb current w).1 = .ok response)
      (invalid : validate response.text = .error (.raised e)) :
      Asks M amb validate left current attempts tokens w (.error (.escaped e))
        (M.ask amb current w).2
  | exhausted {current attempts tokens w response lastError}
      (granted : (M.allow amb current.model w).1 = true)
      (reply : (M.ask amb current w).1 = .ok response)
      (invalid : validate response.text = .error (.mismatch lastError)) :
      Asks M amb validate 0 current attempts tokens w
        (.error (.schemaViolation current.model (attempts + 1) lastError))
        (M.recordFailure amb current.model ("schema: " ++ lastError) (M.ask amb current w).2)
  | retried {left current attempts tokens w response lastError result w'}
      (granted : (M.allow amb current.model w).1 = true)
      (reply : (M.ask amb current w).1 = .ok response)
      (invalid : validate response.text = .error (.mismatch lastError))
      (rest : Asks M amb validate left (retryRequest current response lastError) (attempts + 1)
        (tokens + response.totalTokens)
        (M.recordFailure amb current.model ("schema: " ++ lastError) (M.ask amb current w).2)
        result w') :
      Asks M amb validate (left + 1) current attempts tokens w result w'

variable {M : Models} {amb : Ambient} {validate : String → Except ValidationFailure T}
  {left attempts tokens : Nat} {current : CompletionRequest} {w w' : World}
  {result : Except GatewayFailure (StructuredResult T)}

/-- The loop takes one of these ways. -/
theorem askValidated_asks (left : Nat) (current : CompletionRequest) (attempts tokens : Nat)
    (w : World) : Asks M amb validate left current attempts tokens w
      (askValidated M amb validate left current attempts tokens w).1
      (askValidated M amb validate left current attempts tokens w).2 := by
  fun_induction askValidated M amb validate left current attempts tokens w with
  | case1 left current attempts tokens w key allowed refused => exact .paused refused
  | case2 left current attempts tokens w key allowed granted answered why reply =>
    exact .unavailable (Bool.not_eq_false _ ▸ granted) reply
  | case3 left current attempts tokens w key allowed granted answered e reply =>
    exact .raised (Bool.not_eq_false _ ▸ granted) reply
  | case4 left current attempts tokens w key allowed granted answered response reply value valid =>
    exact .accepted (Bool.not_eq_false _ ▸ granted) reply valid
  | case5 left current attempts tokens w key allowed granted answered response reply e invalid =>
    exact .broken (Bool.not_eq_false _ ▸ granted) reply invalid
  | case6 current attempts tokens w key allowed granted answered response reply lastError
      invalid =>
    exact .exhausted (Bool.not_eq_false _ ▸ granted) reply invalid
  | case7 current attempts tokens w key allowed granted answered response reply lastError
      invalid failed left ih =>
    exact .retried (Bool.not_eq_false _ ▸ granted) reply invalid ih

/-- What the clients were sent between two states. -/
def newExchanges (s s' : GatewayState) : List Exchange :=
  s'.world.sent.drop s.world.sent.length

theorem newExchanges_eq {s s' : GatewayState} {new : List Exchange}
    (h : s'.world.sent = s.world.sent ++ new) : newExchanges s s' = new := by
  rw [newExchanges, h, List.drop_left]

/-! ## What was heard -/

def Exchange.answeredTokens (e : Exchange) : Nat :=
  match e.reply with
  | .ok response => response.totalTokens
  | .error _ => 0

/-- The tokens of all that was answered. -/
def answeredTokens (sent : List Exchange) : Nat := (sent.map Exchange.answeredTokens).sum

@[simp] theorem answeredTokens_nil : answeredTokens [] = 0 := rfl

@[simp] theorem answeredTokens_cons (e : Exchange) (sent : List Exchange) :
    answeredTokens (e :: sent) = e.answeredTokens + answeredTokens sent := by
  simp [answeredTokens]

@[simp] theorem answeredTokens_append (sent sent' : List Exchange) :
    answeredTokens (sent ++ sent') = answeredTokens sent + answeredTokens sent' := by
  simp [answeredTokens]

/-- The answer of an exchange is accepted, as this value. -/
def Accepts (validate : String → Except ValidationFailure T) (value : T) (e : Exchange) : Prop :=
  ∃ response, e.reply = .ok response ∧ validate response.text = .ok value

/-- What the exchanges of a generation say of its result. -/
structure Heard (validate : String → Except ValidationFailure T) (model : String) (tokens : Nat)
    (new : List Exchange) (result : Except GatewayFailure (StructuredResult T)) : Prop where
  asked : ∀ e ∈ new, e.request.model = model
  accepted : ∀ r, result = .ok r → r.tokens = tokens + answeredTokens new ∧
    ∃ e ∈ new, Accepts validate r.value e
  refused : ∀ failure, result = .error failure → ∀ e ∈ new, ∀ value, ¬ Accepts validate value e

/-- The exchange of a request. -/
def Models.exchange (M : Models) (amb : Ambient) (current : CompletionRequest) (w : World) :
    Exchange :=
  ⟨current, (M.ask amb current w).1⟩

@[simp] theorem ask_sent :
    (M.ask amb current w).2.sent = w.sent ++ [M.exchange amb current w] := rfl
@[simp] theorem ask_day : (M.ask amb current w).2.day = w.day := rfl
@[simp] theorem ask_spent : (M.ask amb current w).2.spent = w.spent := rfl

theorem exchange_tokens {response : CompletionResponse}
    (reply : (M.ask amb current w).1 = .ok response) :
    (M.exchange amb current w).answeredTokens = response.totalTokens := by
  simp only [Exchange.answeredTokens, Models.exchange, reply]

theorem not_accepts_exchange {failure : ClientFailure} {value : T}
    (reply : (M.ask amb current w).1 = .error failure) :
    ¬ Accepts validate value (M.exchange amb current w) := by
  rintro ⟨response, heq, -⟩
  simp [Models.exchange, reply] at heq

theorem not_accepts_of_invalid {response : CompletionResponse} {failure : ValidationFailure}
    {value : T} (reply : (M.ask amb current w).1 = .ok response)
    (invalid : validate response.text = .error failure) :
    ¬ Accepts validate value (M.exchange amb current w) := by
  rintro ⟨response', heq, hvalid⟩
  have hsame : response = response' := by simpa [Models.exchange, reply] using heq
  rw [← hsame, invalid] at hvalid
  cases hvalid

/-- A generation that ends with one exchange, which is not accepted. -/
theorem Heard.of_not_accepts {failure : GatewayFailure}
    (h : ∀ value, ¬ Accepts validate value (M.exchange amb current w)) :
    Heard validate current.model tokens [M.exchange amb current w] (.error failure) where
  asked e he := by
    rw [List.mem_singleton.mp he]
    rfl
  accepted r hr := by cases hr
  refused failure _ e he value := by
    rw [List.mem_singleton.mp he]
    exact h value

/-- **What was heard**: all requests go to the instance, and one of the answers was accepted
    exactly if the generation succeeded; then the tokens of all of them are counted. -/
theorem Asks.heard (h : Asks M amb validate left current attempts tokens w result w') :
    ∃ new, w'.sent = w.sent ++ new ∧ Heard validate current.model tokens new result := by
  induction h with
  | paused refused => exact ⟨[], by simp, by simp, by simp, by simp⟩
  | unavailable granted reply =>
    exact ⟨[_], rfl, .of_not_accepts fun _ => not_accepts_exchange reply⟩
  | raised granted reply =>
    exact ⟨[_], rfl, .of_not_accepts fun _ => not_accepts_exchange reply⟩
  | @accepted left current attempts tokens w response value granted reply valid =>
    refine ⟨[M.exchange amb current w], rfl, ?_, ?_, by simp⟩
    · simp [Models.exchange]
    · rintro r ⟨⟩
      refine ⟨by simp [exchange_tokens reply], M.exchange amb current w, by simp, response, ?_⟩
      exact ⟨reply, valid⟩
  | broken granted reply invalid =>
    exact ⟨[_], rfl, .of_not_accepts fun _ => not_accepts_of_invalid reply invalid⟩
  | exhausted granted reply invalid =>
    exact ⟨[_], rfl, .of_not_accepts fun _ => not_accepts_of_invalid reply invalid⟩
  | @retried left current attempts tokens w response lastError result w' granted reply invalid
      rest ih =>
    obtain ⟨new, hsent, hheard⟩ := ih
    refine ⟨M.exchange amb current w :: new, by simpa using hsent, ?_, ?_, ?_⟩
    · intro e he
      rcases List.mem_cons.mp he with rfl | he
      · rfl
      · exact hheard.asked e he
    · intro r hr
      obtain ⟨htokens, e, he, haccepts⟩ := hheard.accepted r hr
      refine ⟨?_, e, List.mem_cons_of_mem _ he, haccepts⟩
      rw [htokens, answeredTokens_cons, exchange_tokens reply, Nat.add_assoc]
    · intro failure hfail e he value
      rcases List.mem_cons.mp he with rfl | he
      · exact not_accepts_of_invalid reply invalid
      · exact hheard.refused failure hfail e he value

/-- A generation does not touch the budget. -/
theorem Asks.budget (h : Asks M amb validate left current attempts tokens w result w') :
    w'.day = w.day ∧ w'.spent = w.spent := by
  induction h with
  | retried granted reply invalid rest ih => simpa using ih
  | _ => simp

end Llm

end Slas
