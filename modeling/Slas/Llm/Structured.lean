/-
  Slas.Llm.Structured

  Schema-enforced generation (`slas_llm_gateway.structured`): an answer that does not
  validate is sent back with the error, until it validates or the retries are used up.
  Every failure counts against the breaker of the instance.

  The world a call runs in holds what the breaker and the budget keep, and what the
  clients were sent.
-/

import Slas.Llm.Breaker
import Slas.Llm.Client

namespace Slas

namespace Llm

/-! ## The world -/

/-- What the gateway keeps, and all that was sent.  `day` and `spent` are of the token budget;
    `ops` counts the operations that read the clock. -/
structure World where
  entries : Entries := fun _ => {}
  day : Option Nat := none
  spent : Nat := 0
  ops : Nat := 0
  sent : List Exchange := []

/-- What a call finds around it: the readings of the clock in each operation, and the id of
    its trace. -/
structure Ambient where
  clock : Nat → Readings
  traceId : Option String := none

/-- How a call of the gateway fails. -/
inductive GatewayFailure where
  /-- `SchemaViolationError` -/
  | schemaViolation (model : String) (attempts : Nat) (lastError : String)
  /-- `VoterUnavailableError` -/
  | unavailable (model why : String)
  /-- `NoInstanceForRoleError` -/
  | noInstance (role : String)
  /-- `UnknownDecisionError` -/
  | unknownDecision (decision : String)
  | escaped (e : String)

/-- The message of a `SchemaViolationError`. -/
def schemaViolationMessage (model : String) (attempts : Nat) (lastError : String) :
    ThreePartMessage where
  whatHappened := model ++ " did not produce a valid answer in " ++ toString attempts ++
    " attempts."
  likelyCause := "Its last answer did not match the required schema: " ++ lastError
  whatToDo := "The instance is paused by the circuit breaker; the request falls back to the " ++
    "next tier or waits for a human."

/-- The message of a `VoterUnavailableError`. -/
def voterUnavailableMessage (model why : String) : ThreePartMessage where
  whatHappened := model ++ " cannot be asked right now."
  likelyCause := why
  whatToDo := "Other voters continue; the verdict is marked as degraded if fewer answered."

/-- The model instances, behind their breaker. -/
structure Models where
  breaker : CircuitBreaker
  client : VllmClient

namespace Models

variable (M : Models) (amb : Ambient)

def allow (key : String) (w : World) : Bool × World :=
  let asked := M.breaker.allow key (amb.clock w.ops) w.entries
  (asked.1, { w with entries := asked.2, ops := w.ops + 1 })

def sentence (key : String) (w : World) : String × World :=
  let told := M.breaker.sentence key (amb.clock w.ops) w.entries
  (told.1, { w with entries := told.2, ops := w.ops + 1 })

def recordFailure (key reason : String) (w : World) : World :=
  { w with
    entries := M.breaker.recordFailure key reason (amb.clock w.ops) w.entries
    ops := w.ops + 1 }

/-- `client.complete` -/
def send (request : CompletionRequest) (w : World) : Reply × World :=
  let reply := M.client w.sent request
  (reply, { w with sent := w.sent ++ [⟨request, reply⟩] })

end Models

def recordSuccess (key : String) (w : World) : World :=
  { w with entries := CircuitBreaker.recordSuccess key w.entries }

/-! ## Asking until the answer validates -/

structure StructuredResult (T : Type) where
  value : T
  model : String
  attempts : Nat
  /-- prompt and completion tokens over every attempt -/
  tokens : Nat
  response : CompletionResponse

/-- How a validator refuses a text: with the sentence of a `ValidationError` or of a
    `SchemaMismatchError`, or by raising something else. -/
inductive ValidationFailure where
  | mismatch (sentence : String)
  | raised (e : String)

variable {T : Type} (M : Models) (amb : Ambient) (validate : String → Except ValidationFailure T)

/-- The request of a retry: the answer, and what is wrong with it. -/
def retryRequest (current : CompletionRequest) (response : CompletionResponse)
    (lastError : String) : CompletionRequest :=
  { current with
    messages := current.messages ++
      [⟨.assistant, response.text⟩,
       ⟨.tool, "Your answer did not match the required schema (" ++ lastError ++
          "). Answer again with only the JSON object."⟩] }

/-- The loop of `generate_validated`, with the retries that are left. -/
def askValidated : Nat → CompletionRequest → Nat → Nat → World →
    Except GatewayFailure (StructuredResult T) × World
  | left, current, attempts, tokens, w =>
    let key := current.model
    let allowed := M.allow amb key w
    if allowed.1 = false then
      let told := M.sentence amb key allowed.2
      (.error (.unavailable key told.1), told.2)
    else
      let answered := M.send current allowed.2
      match answered.1 with
      | .error (.unavailable why) =>
        (.error (.unavailable key why), M.recordFailure amb key "did not answer" answered.2)
      | .error (.raised e) => (.error (.escaped e), answered.2)
      | .ok response =>
        match validate response.text with
        | .ok value =>
          (.ok { value, model := key, attempts := attempts + 1
                 tokens := tokens + response.totalTokens, response },
            recordSuccess key answered.2)
        | .error (.raised e) => (.error (.escaped e), answered.2)
        | .error (.mismatch lastError) =>
          let failed := M.recordFailure amb key ("schema: " ++ lastError) answered.2
          match left with
          | 0 => (.error (.schemaViolation key (attempts + 1) lastError), failed)
          | left + 1 => askValidated left (retryRequest current response lastError) (attempts + 1)
              (tokens + response.totalTokens) failed

def generateValidated (request : CompletionRequest) (schema : Json) (maxRetries : Int)
    (w : World) : Except GatewayFailure (StructuredResult T) × World :=
  askValidated M amb validate maxRetries.toNat { request with guidedJson := some schema } 0 0 w

end Llm

end Slas
