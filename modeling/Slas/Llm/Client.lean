/-
  Slas.Llm.Client

  What the gateway sends to a model instance and what comes back
  (`slas_llm_gateway.vllm`).

  A client answers with a completion, says that the instance is not available, or raises
  something else.  `responseFromPayload` is where the answer of an instance is read; it
  raises something else exactly when a payload of the expected shape has usage fields that
  are no token counts: `responseFromPayload_raised_iff`.
-/

import Slas.Skills.Values

namespace Slas

namespace Llm

/-! ## Requests and responses -/

inductive MessageRole where
  | system
  | user
  | assistant
  | tool
  deriving DecidableEq

structure Message where
  role : MessageRole
  content : String
  deriving DecidableEq

structure CompletionRequest where
  model : String
  messages : List Message
  guidedJson : Option Json := none
  maxTokens : Int := 1024
  temperature : Decimal := .ofNat 0
  traceId : Option String := none

/-- The validation of a request, whose `instance` is called `model` here; the copies that the
    gateway makes of a request are not validated again. -/
def CompletionRequest.Valid (request : CompletionRequest) : Prop :=
  request.model ≠ "" ∧ request.messages ≠ [] ∧ 1 ≤ request.maxTokens ∧
    (Decimal.ofNat 0).le request.temperature = true ∧
    request.temperature.le (.ofNat 2) = true

instance (request : CompletionRequest) : Decidable request.Valid :=
  inferInstanceAs (Decidable (_ ∧ _))

inductive FinishReason where
  | stop
  | length
  | error
  deriving DecidableEq

structure CompletionResponse where
  model : String
  text : String
  promptTokens : Nat
  completionTokens : Nat
  finishReason : FinishReason := .stop
  deriving DecidableEq

def CompletionResponse.totalTokens (response : CompletionResponse) : Nat :=
  response.promptTokens + response.completionTokens

/-- What a client raises. -/
inductive ClientFailure where
  /-- `InstanceUnavailableError` -/
  | unavailable (why : String)
  | raised (e : String)

/-- The sentence of an `InstanceUnavailableError` that is given none. -/
def didNotAnswer (model : String) : String := "The model instance " ++ model ++ " did not answer."

abbrev Reply := Except ClientFailure CompletionResponse

/-- A request that a client was sent, and its reply. -/
structure Exchange where
  request : CompletionRequest
  reply : Reply

/-- `VllmClient.complete`: the reply may depend on all that was sent before. -/
abbrev VllmClient := List Exchange → CompletionRequest → Reply

/-! ## Reading a payload -/

variable (P : Python)

/-- `_estimate_tokens` -/
def estimateTokens (text : String) : Nat := text.length / 4 + 1

/-- `value[key]` of a mapping; anything else raises what `responseFromPayload` catches. -/
def item? (key : String) : Json → Option Json
  | .obj kvs => kvs.lookup key
  | _ => none

/-- `value[0]` of a list or a text. -/
def first? : Json → Option Json
  | .arr (x :: _) => some x
  | .str s => s.toList.head?.map fun c => .str (String.singleton c)
  | _ => none

/-- `payload["choices"][0]` -/
def choice? (payload : Json) : Option Json := (item? "choices" payload).bind first?

/-- `choice["message"]["content"]` -/
def content? (choice : Json) : Option Json := (item? "message" choice).bind (item? "content")

/-- `mapping.get(key) or default` -/
def getOr (key : String) (default : Json) (mapping : Json) : Json :=
  match item? key mapping with
  | some value => if Json.truth value then value else default
  | none => default

/-- `int(usage.get(key, estimate))` -/
def usageInt (key : String) (estimate : Nat) : Json → Except String Int
  | .obj kvs =>
    match kvs.lookup key with
    | none => .ok estimate
    | some value => P.int value
  | _ => .error "the usage has no attribute 'get'"

/-- The two counts of a response, which are not negative. -/
def counted (prompt completion : Except String Int) : Except String (Nat × Nat) :=
  match prompt, completion with
  | .error e, _ => .error e
  | _, .error e => .error e
  | .ok promptTokens, .ok completionTokens =>
    if 0 ≤ promptTokens ∧ 0 ≤ completionTokens then
      .ok (promptTokens.toNat, completionTokens.toNat)
    else .error "a token count is negative"

/-- The first choice of a chat completion. -/
def responseFromPayload (request : CompletionRequest) (payload : Json) : Reply :=
  match (choice? payload).bind fun choice => (content? choice).map fun content =>
      (choice, content) with
  | none => .error (.unavailable ("The model instance " ++ request.model ++
      " answered in a shape the gateway does not understand."))
  | some (choice, content) =>
    let text := P.str content
    let usage := getOr "usage" (.obj []) payload
    let finish := P.str (getOr "finish_reason" (.str "stop") choice)
    let prompt := usageInt P "prompt_tokens"
      (estimateTokens (" ".intercalate (request.messages.map (·.content)))) usage
    let completion := usageInt P "completion_tokens" (estimateTokens text) usage
    match counted prompt completion with
    | .error e => .error (.raised e)
    | .ok (promptTokens, completionTokens) =>
      .ok { model := request.model, text, promptTokens, completionTokens
            finishReason := if finish = "length" then .length else .stop }

/-- What the network comes to. -/
inductive Wire where
  /-- no instance of that name is healthy -/
  | unresolved (why : String)
  /-- no connection, or no answer in time -/
  | failed
  | status (code : Nat)
  | notJson
  | payload (json : Json)
  | raised (e : String)

/-- `HttpxVllmClient.complete` -/
def httpxComplete (network : List Exchange → CompletionRequest → Wire) : VllmClient :=
  fun sent request =>
    match network sent request with
    | .unresolved why => .error (.unavailable why)
    | .failed => .error (.unavailable (didNotAnswer request.model))
    | .status code => .error (.unavailable ("The model instance " ++ request.model ++
        " answered " ++ toString code ++ "."))
    | .notJson => .error (.unavailable (didNotAnswer request.model))
    | .payload json => responseFromPayload P request json
    | .raised e => .error (.raised e)

/-- `UrllibVllmClient.complete` -/
def urllibComplete (network : List Exchange → CompletionRequest → Wire) : VllmClient :=
  fun sent request =>
    match network sent request with
    | .payload json => responseFromPayload P request json
    | .raised e => .error (.raised e)
    | _ => .error (.unavailable (didNotAnswer request.model))

/-! ## Which payloads are not read -/

/-- A payload has the text of a first choice. -/
def Shaped (payload : Json) : Prop := ∃ choice content,
  choice? payload = some choice ∧ content? choice = some content

/-- A field of the usage is missing, or a count. -/
def CountsTokens (key : String) (kvs : List (String × Json)) : Prop :=
  ∀ value, kvs.lookup key = some value → ∃ n : Nat, P.int value = .ok n

/-- A payload has no usage, or one whose fields are token counts. -/
def UsageReadable (payload : Json) : Prop :=
  ∃ kvs, getOr "usage" (.obj []) payload = .obj kvs ∧
    CountsTokens P "prompt_tokens" kvs ∧ CountsTokens P "completion_tokens" kvs

variable {P}

theorem usageInt_obj_iff {key : String} {estimate : Nat} {kvs : List (String × Json)} :
    (∃ n : Nat, usageInt P key estimate (.obj kvs) = .ok n) ↔ CountsTokens P key kvs := by
  rw [usageInt, CountsTokens]
  cases hlookup : kvs.lookup key with
  | none => simp
  | some value => simp

theorem counted_ok_iff {prompt completion : Except String Int} :
    (∃ counts, counted prompt completion = .ok counts) ↔
      (∃ n : Nat, prompt = .ok n) ∧ ∃ n : Nat, completion = .ok n := by
  have hnat : ∀ i : Int, (∃ n : Nat, (.ok i : Except String Int) = .ok (n : Int)) ↔ 0 ≤ i :=
    fun i => ⟨fun ⟨n, h⟩ => by cases h; exact Int.natCast_nonneg n,
      fun h => ⟨i.toNat, by rw [Int.toNat_of_nonneg h]⟩⟩
  cases prompt with
  | error e => simp [counted]
  | ok p =>
    cases completion with
    | error e => simp [counted]
    | ok c =>
      rw [hnat, hnat, counted]
      split_ifs with h <;> simp [h]

theorem usageReadable_iff {payload : Json} (promptEstimate estimate : Nat) :
    UsageReadable P payload ↔ ∃ counts,
      counted (usageInt P "prompt_tokens" promptEstimate (getOr "usage" (.obj []) payload))
        (usageInt P "completion_tokens" estimate (getOr "usage" (.obj []) payload)) =
          .ok counts := by
  rw [counted_ok_iff, UsageReadable]
  cases getOr "usage" (.obj []) payload with
  | obj kvs => simp only [usageInt_obj_iff, Json.obj.injEq, exists_eq_left']
  | _ => simp [usageInt]

/-- Reading a payload raises something else than an `InstanceUnavailableError` exactly when it
    has the text of a first choice and its usage is not one of token counts. -/
theorem responseFromPayload_raised_iff {request : CompletionRequest} {payload : Json} :
    (∃ e, responseFromPayload P request payload = .error (.raised e)) ↔
      Shaped payload ∧ ¬ UsageReadable P payload := by
  unfold responseFromPayload
  split
  · rename_i hshape
    simp only [Except.error.injEq, reduceCtorEq, exists_false, false_iff, not_and]
    rintro ⟨choice, content, hchoice, hcontent⟩
    simp [hchoice, hcontent] at hshape
  · rename_i choice content hshape
    obtain ⟨choice', hchoice, hpair⟩ := Option.bind_eq_some_iff.mp hshape
    obtain ⟨content', hcontent, heq⟩ := Option.map_eq_some_iff.mp hpair
    cases heq
    rw [and_iff_right ⟨choice, content, hchoice, hcontent⟩, usageReadable_iff
      (estimateTokens (" ".intercalate (request.messages.map (·.content))))
      (estimateTokens (P.str content))]
    dsimp only
    generalize counted _ _ = counts
    cases counts <;> simp

end Llm

end Slas
