/-
  Slas.Llm.Gateway

  The gateway itself (`slas_llm_gateway.gateway`, with its redactor, its routes and its
  token budget): every message is redacted before a request is made of it, a role is
  routed to a model instance, and a cross-check asks a panel of voters.
-/

import Slas.Llm.Consensus
import Slas.Llm.Structured
import Slas.Lib.Dict

namespace Slas

namespace Llm

/-! ## Redaction and routes -/

/-- A redaction rule with its compiled pattern: `pattern.subn(substitution, text)`. -/
structure CompiledRule where
  name : String
  subn : String → String × Nat

structure Redaction where
  text : String
  hits : List (String × Nat) := []
  deriving DecidableEq

/-- `Redactor.redact`: one rule after the other. -/
def redact (rules : List CompiledRule) (text : String) : Redaction :=
  rules.foldl (fun done rule =>
    let (text, count) := rule.subn done.text
    { text
      hits := if count = 0 then done.hits
        else Dict.set rule.name ((done.hits.lookup rule.name).getD 0 + count) done.hits })
    { text }

def ROLES : List String := ["coder", "planner", "triage", "embed", "rerank"]

structure Routes where
  roles : List (String × String) := []
  voters : List String := []
  roles_known : ∀ role ∈ roles.map (·.1), role ∈ ROLES
  voters_distinct : voters.Nodup

/-! ## The gateway -/

def VOTER_INSTRUCTION : String :=
  "You are one of several independent reviewers. Judge only the evidence given. " ++
  "Answer with a single JSON object: verdict (approve, concern or reject), fields " ++
  "(the values you were asked to decide, if any), reason (one sentence) and confidence " ++
  "(0 to 1). You do not see the other reviewers' answers."

def VOTE_TOKEN_ESTIMATE : Nat := 800

/-- A class of values that answers are validated into; it refuses with the sentence of a
    `ValidationError`. -/
structure ModelType (T : Type) where
  schema : Json
  validate : String → Except String T

/-- A validator that refuses in no other way. -/
def ModelType.validator {T : Type} (model : ModelType T) (text : String) :
    Except ValidationFailure T :=
  (model.validate text).mapError .mismatch

/-- `Gateway`; `cap` is the budget of a day, `schemaCheck` is `validate_json`, and
    `capitalize` the method of `str`. -/
structure Gateway extends Models where
  routes : Routes
  redactor : List CompiledRule
  rules : List (String × DecisionRule)
  cap : Int
  voteModel : ModelType Vote
  schemaCheck : Json → String → Except ValidationFailure Json
  capitalize : String → String
  rules_match : ∀ entry ∈ rules, entry.1 = entry.2.decision

/-- The world, and what was redacted. -/
structure GatewayState where
  world : World := {}
  redactions : List Redaction := []

namespace Gateway

variable (G : Gateway) (amb : Ambient)

/-- The messages as a client may see them. -/
def redacted (messages : List Message) : List Message :=
  messages.map fun message => { message with content := (redact G.redactor message.content).text }

/-- `_redact`, as far as it keeps what it found. -/
def noting (messages : List Message) (s : GatewayState) : GatewayState :=
  { s with
    redactions := s.redactions ++
      (messages.map fun message => redact G.redactor message.content).filter (·.hits ≠ []) }

def complete (role : String) (messages : List Message) (maxTokens : Int) (temperature : Decimal)
    (guidedJson : Option Json) (s : GatewayState) :
    Except GatewayFailure CompletionResponse × GatewayState :=
  match G.routes.roles.lookup role with
  | none => (.error (.noInstance role), s)
  | some model =>
    let allowed := G.allow amb model s.world
    if allowed.1 = false then
      let told := G.sentence amb model allowed.2
      (.error (.unavailable model told.1), { s with world := told.2 })
    else
      let s := G.noting messages { s with world := allowed.2 }
      let request : CompletionRequest :=
        { model, messages := G.redacted messages, guidedJson, maxTokens, temperature
          traceId := amb.traceId }
      if ¬ request.Valid then (.error (.escaped "the request does not validate"), s)
      else
        let answered := G.send request s.world
        match answered.1 with
        | .error (.unavailable why) => (.error (.unavailable model why),
            { s with world := G.recordFailure amb model "did not answer" answered.2 })
        | .error (.raised e) => (.error (.escaped e), { s with world := answered.2 })
        | .ok response => (.ok response, { s with world := recordSuccess model answered.2 })

/-- `_structured_request`, and what is done with the request. -/
def structured {T : Type} (role : String) (messages : List Message) (maxTokens : Int)
    (run : CompletionRequest → World → Except GatewayFailure (StructuredResult T) × World)
    (s : GatewayState) : Except GatewayFailure (StructuredResult T) × GatewayState :=
  match G.routes.roles.lookup role with
  | none => (.error (.noInstance role), s)
  | some model =>
    let s := G.noting messages s
    let request : CompletionRequest :=
      { model, messages := G.redacted messages, maxTokens, traceId := amb.traceId }
    if ¬ request.Valid then (.error (.escaped "the request does not validate"), s)
    else
      let done := run request s.world
      (done.1, { s with world := done.2 })

def generate {T : Type} (role : String) (messages : List Message) (model : ModelType T)
    (maxTokens maxRetries : Int) (s : GatewayState) :
    Except GatewayFailure (StructuredResult T) × GatewayState :=
  G.structured amb role messages maxTokens (fun request =>
    generateValidated G.toModels amb model.validator request model.schema maxRetries) s

def generateJson (role : String) (messages : List Message) (schema : Json)
    (maxTokens maxRetries : Int) (s : GatewayState) :
    Except GatewayFailure (StructuredResult Json) × GatewayState :=
  G.structured amb role messages maxTokens (fun request =>
    generateValidated G.toModels amb (G.schemaCheck schema) request schema maxRetries) s

-- The token budget

/-- The day of an instant in UTC. -/
def utcDay (now : DateTime) : Nat := now / 1000000 / 86400

/-- `_roll`: a new day starts with nothing spent. -/
def roll (w : World) : World :=
  let today := utcDay (amb.clock w.ops 0)
  if w.day = some today then { w with ops := w.ops + 1 }
  else { w with day := some today, spent := 0, ops := w.ops + 1 }

def remaining (w : World) : Int × World :=
  (max 0 (G.cap - (roll amb w).spent), roll amb w)

def charge (tokens : Nat) (w : World) : World :=
  { roll amb w with spent := (roll amb w).spent + tokens }

-- The Consensus Router

/-- What the voters came to. -/
structure Ballots where
  votes : List Vote := []
  unavailable : List String := []

/-- The loop over a panel. -/
def askVoters (evidence : List Message) :
    List String → Ballots → World → Except GatewayFailure Ballots × World
  | [], ballots, w => (.ok ballots, w)
  | voter :: panel, ballots, w =>
    let request : CompletionRequest :=
      { model := voter, messages := evidence, traceId := amb.traceId }
    if ¬ request.Valid then (.error (.escaped "the request does not validate"), w)
    else
      let asked := generateValidated G.toModels amb G.voteModel.validator request
        G.voteModel.schema 2 w
      match asked.1 with
      | .ok result => askVoters evidence panel
          { ballots with votes := ballots.votes ++ [{ result.value with voter }] }
          (charge amb result.tokens asked.2)
      | .error (.schemaViolation _ _ _) | .error (.unavailable _ _) =>
        askVoters evidence panel { ballots with unavailable := ballots.unavailable ++ [voter] }
          asked.2
      | .error e => (.error e, asked.2)

/-- What `cross_check` does with a panel that is not empty. -/
def checkWith (rule : DecisionRule) (evidence : List Message) (panel : List String) (w : World) :
    Except GatewayFailure ConsensusVerdict × World :=
  let budget := G.remaining amb w
  let overBudget : Bool := budget.1 < VOTE_TOKEN_ESTIMATE * panel.length
  let asked := G.askVoters amb evidence (if overBudget then panel.take 1 else panel) {}
    (if overBudget then roll amb budget.2 else budget.2)
  match asked.1 with
  | .error e => (.error e, asked.2)
  | .ok ballots =>
    let verdict := tally G.capitalize rule ballots.votes ballots.unavailable overBudget
    (.ok (if overBudget then
        { verdict with sentence := "Checked by one model only: today's cross-check budget is " ++
            "used up. " ++ verdict.sentence }
      else verdict), (G.remaining amb asked.2).2)

def crossCheck (decision : String) (evidence : List Message) (s : GatewayState) :
    Except GatewayFailure ConsensusVerdict × GatewayState :=
  match G.rules.lookup decision with
  | none => (.error (.unknownDecision decision), s)
  | some rule =>
    let s := G.noting evidence s
    let panel := G.routes.voters.take rule.voters
    if panel = [] then (.ok (tally G.capitalize rule [] [] true), s)
    else
      let checked := G.checkWith amb rule (⟨.system, VOTER_INSTRUCTION⟩ :: G.redacted evidence)
        panel s.world
      (checked.1, { s with world := checked.2 })

end Gateway

end Llm

end Slas
