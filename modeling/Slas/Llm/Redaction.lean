/-
  Slas.Llm.Redaction

  Redaction is noninterference: what the clients are sent, retries and their quoted
  answers included, depends on the messages of a call only through their redactions.
  Whatever calls are made one after the other, two runs whose messages redact to the same
  send the same requests: `session_sent_eq`.
-/

import Slas.Llm.Gateway
import Slas.Lib.Runs

namespace Slas

namespace Llm

/-! ## Calls -/

inductive GatewayCall where
  | complete (role : String) (messages : List Message) (maxTokens : Int) (temperature : Decimal)
      (guidedJson : Option Json)
  | generate {T : Type} (role : String) (messages : List Message) (model : ModelType T)
      (maxTokens maxRetries : Int)
  | generateJson (role : String) (messages : List Message) (schema : Json)
      (maxTokens maxRetries : Int)
  | crossCheck (decision : String) (evidence : List Message)

namespace Gateway

variable (G : Gateway)

def perform (s : GatewayState) (call : Ambient × GatewayCall) : GatewayState :=
  match call.2 with
  | .complete role messages maxTokens temperature guidedJson =>
    (G.complete call.1 role messages maxTokens temperature guidedJson s).2
  | .generate role messages model maxTokens maxRetries =>
    (G.generate call.1 role messages model maxTokens maxRetries s).2
  | .generateJson role messages schema maxTokens maxRetries =>
    (G.generateJson call.1 role messages schema maxTokens maxRetries s).2
  | .crossCheck decision evidence => (G.crossCheck call.1 decision evidence s).2

/-- The calls one after the other. -/
def session (calls : List (Ambient × GatewayCall)) (s : GatewayState) : GatewayState :=
  Runs.run G.perform s calls

end Gateway

/-- Two calls that differ only in what is redacted. -/
inductive SameRedacted (G : Gateway) : GatewayCall → GatewayCall → Prop
  | complete {role messages messages' maxTokens temperature guidedJson}
      (h : G.redacted messages = G.redacted messages') :
      SameRedacted G (.complete role messages maxTokens temperature guidedJson)
        (.complete role messages' maxTokens temperature guidedJson)
  | generate {T : Type} {role messages messages'} {model : ModelType T} {maxTokens maxRetries}
      (h : G.redacted messages = G.redacted messages') :
      SameRedacted G (.generate role messages model maxTokens maxRetries)
        (.generate role messages' model maxTokens maxRetries)
  | generateJson {role messages messages' schema maxTokens maxRetries}
      (h : G.redacted messages = G.redacted messages') :
      SameRedacted G (.generateJson role messages schema maxTokens maxRetries)
        (.generateJson role messages' schema maxTokens maxRetries)
  | crossCheck {decision evidence evidence'} (h : G.redacted evidence = G.redacted evidence') :
      SameRedacted G (.crossCheck decision evidence) (.crossCheck decision evidence')

/-! ## One call -/

variable {G : Gateway} {amb : Ambient} {messages messages' : List Message} {s s' : GatewayState}

@[simp] theorem noting_world (messages : List Message) (s : GatewayState) :
    (G.noting messages s).world = s.world := rfl

theorem complete_world_eq {role : String} {maxTokens : Int} {temperature : Decimal}
    {guidedJson : Option Json} (h : G.redacted messages = G.redacted messages')
    (hw : s.world = s'.world) :
    (G.complete amb role messages maxTokens temperature guidedJson s).2.world =
      (G.complete amb role messages' maxTokens temperature guidedJson s').2.world := by
  unfold Gateway.complete
  cases G.routes.roles.lookup role with
  | none => exact hw
  | some model =>
    simp only [noting_world, h, hw]
    split_ifs
    · rfl
    · split <;> rfl
    · rfl

theorem structured_world_eq {T : Type} {role : String} {maxTokens : Int}
    {run : CompletionRequest → World → Except GatewayFailure (StructuredResult T) × World}
    (h : G.redacted messages = G.redacted messages') (hw : s.world = s'.world) :
    (G.structured amb role messages maxTokens run s).2.world =
      (G.structured amb role messages' maxTokens run s').2.world := by
  unfold Gateway.structured
  cases G.routes.roles.lookup role with
  | none => exact hw
  | some model =>
    simp only [noting_world, h, hw]
    split_ifs <;> simp [hw]

theorem crossCheck_world_eq {decision : String} (h : G.redacted messages = G.redacted messages')
    (hw : s.world = s'.world) :
    (G.crossCheck amb decision messages s).2.world =
      (G.crossCheck amb decision messages' s').2.world := by
  unfold Gateway.crossCheck
  cases G.rules.lookup decision with
  | none => exact hw
  | some rule =>
    simp only [noting_world, h, hw]
    split_ifs <;> simp [hw]

theorem perform_world_eq {call call' : GatewayCall} (h : SameRedacted G call call')
    (hw : s.world = s'.world) :
    (G.perform s (amb, call)).world = (G.perform s' (amb, call')).world := by
  cases h with
  | complete h => exact complete_world_eq h hw
  | generate h => exact structured_world_eq h hw
  | generateJson h => exact structured_world_eq h hw
  | crossCheck h => exact crossCheck_world_eq h hw

/-! ## Whole sessions -/

/-- Two calls in the same surroundings, that differ only in what is redacted. -/
def Alike (G : Gateway) (call call' : Ambient × GatewayCall) : Prop :=
  call.1 = call'.1 ∧ SameRedacted G call.2 call'.2

theorem session_world_eq {calls calls' : List (Ambient × GatewayCall)}
    (h : List.Forall₂ (Alike G) calls calls') (hw : s.world = s'.world) :
    (G.session calls s).world = (G.session calls' s').world := by
  induction h generalizing s s' with
  | nil => exact hw
  | @cons call call' calls calls' hcall _ ih =>
    obtain ⟨amb, call⟩ := call
    obtain ⟨amb', call'⟩ := call'
    obtain ⟨heq, hsame⟩ := hcall
    cases heq
    exact ih (perform_world_eq hsame hw)

/-- **Redaction is noninterference**: two sessions whose messages redact to the same, from the
    same world, send the clients the same requests in the same order. -/
theorem session_sent_eq (G : Gateway) (calls calls' : List (Ambient × GatewayCall))
    (s s' : GatewayState) (h : List.Forall₂ (Alike G) calls calls') (hw : s.world = s'.world) :
    (G.session calls s).world.sent.map (·.request) =
      (G.session calls' s').world.sent.map (·.request) := by
  rw [session_world_eq h hw]

-- Two voters behind a breaker that pauses an instance after one failure

def approving : Vote where
  voter := ""
  verdict := .approve
  reason := "the log is clean"

def votes : ModelType Vote where
  schema := .obj []
  validate text := if text = "approve" then .ok approving else .error "no vote"

def release : DecisionRule where
  decision := "release"
  voters := 2
  rule := .unanimous
  approvePhrase := "approve the release"
  ifNotMet := "A person decides."
  voters_bounds := by decide
  fields_match := by decide

def twoVoters (client : VllmClient) : Gateway where
  breaker := { pausing with failureThreshold := 1, threshold_pos := by decide }
  client
  routes :=
    { roles := [("coder", "qwen")], voters := ["llama", "mistral"]
      roles_known := by decide, voters_distinct := by decide }
  redactor := [⟨"password", fun text =>
    if text = "root:calvin" then ("root:[redacted]", 1) else (text, 0)⟩]
  rules := [("release", release)]
  cap := 5000
  voteModel := votes
  schemaCheck _ text := if text = "null" then .ok .null else .error (.mismatch "not null")
  capitalize text := text
  rules_match := by decide

/-- Every request is answered with the same text. -/
def answering (text : String) : VllmClient := fun _ request =>
  .ok { model := request.model, text, promptTokens := 3, completionTokens := 2 }

def quiet : Ambient where
  clock _ _ := 0

theorem redacted_sent_eq :
    ((twoVoters (answering "approve")).session
        [(quiet, .crossCheck "release" [⟨.user, "root:calvin"⟩]),
         (quiet, .generateJson "coder" [⟨.user, "root:calvin"⟩] .null 16 2)]
        {}).world.sent.map (·.request) =
      ((twoVoters (answering "approve")).session
        [(quiet, .crossCheck "release" [⟨.user, "root:[redacted]"⟩]),
         (quiet, .generateJson "coder" [⟨.user, "root:[redacted]"⟩] .null 16 2)]
        {}).world.sent.map (·.request) :=
  session_sent_eq (twoVoters (answering "approve")) _ _ {} {}
    (.cons ⟨rfl, .crossCheck (by decide +kernel)⟩
      (.cons ⟨rfl, .generateJson (by decide +kernel)⟩ .nil)) rfl

end Llm

end Slas
