/-
  Slas.Schemas.Basic

  The records every agent shares, as `slas_schemas` defines them: agent names
  and ticket ids, what arrives at INGEST, plans and their steps, findings and
  votes.  A record whose validator refuses some values carries the check as a
  field, so that such a value cannot be built.
-/

import Mathlib.Data.List.Nodup
import Slas.Lib.Codec
import Slas.Lib.DateTime

namespace Slas

/-! ## Agents and ticket ids -/

inductive AgentName where
  | coding
  | validation
  | factory
  | null
  deriving DecidableEq, Repr

def AgentName.value : AgentName → String
  | .coding => "coding"
  | .validation => "validation"
  | .factory => "factory"
  | .null => "null"

/-- A number in decimal, zero-padded to at least `k` digits (`{n:04d}` for 4). -/
def zeroPad (k n : Nat) : List Char :=
  List.replicate (k - (Nat.toDigits 10 n).length) '0' ++ Nat.toDigits 10 n

/-- `T-<agent>-<seq>`, the sequence number of at least four digits. -/
def makeTicketId (agent : AgentName) (seq : Nat) : String :=
  String.ofList ("T-".toList ++ agent.value.toList ++ '-' :: zeroPad 4 seq)

theorem zeroPad_injective (k : Nat) : Function.Injective (zeroPad k) := by
  intro m n h
  have hread : ∀ x, Nat.ofDigitChars 10 (zeroPad k x) 0 = x := by
    intro x
    have hzeros : ∀ j, Nat.ofDigitChars 10 (List.replicate j '0') 0 = 0 := by
      intro j
      induction j with
      | zero => rfl
      | succ j ih => simpa [Nat.ofDigitChars, List.replicate_succ] using ih
    have happ : ∀ l₁ l₂ : List Char, Nat.ofDigitChars 10 (l₁ ++ l₂) 0 =
        Nat.ofDigitChars 10 l₂ (Nat.ofDigitChars 10 l₁ 0) := by
      intro l₁ l₂
      simp [Nat.ofDigitChars]
    rw [zeroPad, happ, hzeros]
    exact Nat.ofDigitChars_toDigits (by decide) (by decide)
  rw [← hread m, ← hread n, h]

/-- Two allocations never name one ticket. -/
theorem makeTicketId_inj {a b : AgentName} {m n : Nat} :
    makeTicketId a m = makeTicketId b n ↔ a = b ∧ m = n := by
  constructor
  · intro h
    have hchars : "T-".toList ++ a.value.toList ++ '-' :: zeroPad 4 m =
        "T-".toList ++ b.value.toList ++ '-' :: zeroPad 4 n := String.ofList_injective h
    have hagent : a = b := by
      cases a <;> cases b <;> first | rfl | (simp [AgentName.value] at hchars)
    subst hagent
    have hdigits : zeroPad 4 m = zeroPad 4 n := by
      have := List.append_cancel_left hchars
      exact (List.cons.inj this).2
    exact ⟨rfl, zeroPad_injective 4 hdigits⟩
  · rintro ⟨rfl, rfl⟩
    rfl

example : makeTicketId .coding 7 = "T-coding-0007" := by decide

/-! ## What arrives, and the job made of it -/

structure Upload where
  filename : String
  uploadedBy : String
  contentType : String := "application/octet-stream"
  path : Option String := none
  content : Option String := none
  sizeBytes : Option Nat := none

structure MesTicket where
  ticketNo : String
  station : String
  unitSn : String
  requestedBy : String
  payload : List (String × String) := []

/-- What `Kernel.run` is handed. -/
inductive Raw where
  | upload (u : Upload)
  | mes (m : MesTicket)

inductive InputKind where
  | upload
  | mesTicket
  | inline
  deriving DecidableEq, Repr

structure InputRef where
  name : String
  kind : InputKind
  path : Option String := none
  sha256 : Option String := none
  sizeBytes : Option Nat := none
  deriving DecidableEq, Repr

inductive TargetKind where
  | sandbox
  | server
  | station
  deriving DecidableEq, Repr

structure TargetRef where
  kind : TargetKind
  ref : String
  deriving DecidableEq, Repr

structure Job where
  id : String
  agent : AgentName
  user : String
  title : String
  inputs : List InputRef := []
  target : Option TargetRef := none
  createdAt : DateTime
  deriving DecidableEq, Repr

/-! ## Plans -/

inductive Risk where
  | safe
  | caution
  | destructive
  deriving DecidableEq, Repr

def Risk.value : Risk → String
  | .safe => "safe"
  | .caution => "caution"
  | .destructive => "destructive"

structure Step where
  id : String
  n : Nat
  primitive : String
  title : String
  args : List (String × Json) := []
  risk : Risk := .safe
  when : Option String := none

def Step.needsApproval (step : Step) : Bool := step.risk == .destructive

/-- Hard cap on steps after loop expansion. -/
def MAX_STEPS : Nat := 200

/-- A plan: between one and `MAX_STEPS` steps, numbered from 1 in order, with
    distinct ids. -/
structure Plan where
  id : String
  jobId : String
  summary : String
  steps : List Step
  createdAt : DateTime
  nonempty : steps ≠ []
  capped : steps.length ≤ MAX_STEPS
  unique : (steps.map (·.id)).Nodup
  numbered : steps.map (·.n) = List.range' 1 steps.length

namespace Plan

def destructive (plan : Plan) : Bool := plan.steps.any (·.needsApproval)

def destructiveSteps (plan : Plan) : List Step := plan.steps.filter (·.needsApproval)

/-- The step of that id; the source raises `KeyError` where this is `none`. -/
def step (plan : Plan) (stepId : String) : Option Step := plan.steps.find? (·.id == stepId)

/-- The validation of the plan a job is given. -/
def ofSteps (jobId summary : String) (steps : List Step) (createdAt : DateTime) : Option Plan :=
  if h : (jobId ≠ "" ∧ summary ≠ "" ∧ steps ≠ [] ∧ steps.length ≤ MAX_STEPS) ∧
      (steps.map (·.id)).Nodup ∧ steps.map (·.n) = List.range' 1 steps.length then
    some { id := "plan-" ++ jobId, jobId, summary, steps, createdAt
           nonempty := h.1.2.2.1, capped := h.1.2.2.2, unique := h.2.1, numbered := h.2.2 }
  else none

/-- A plan is built of its steps exactly when they validate. -/
theorem exists_ofSteps_iff {jobId summary : String} {steps : List Step} {createdAt : DateTime} :
    (∃ plan, ofSteps jobId summary steps createdAt = some plan) ↔
      (jobId ≠ "" ∧ summary ≠ "" ∧ steps ≠ [] ∧ steps.length ≤ MAX_STEPS) ∧
        (steps.map (·.id)).Nodup ∧ steps.map (·.n) = List.range' 1 steps.length := by
  unfold ofSteps
  split
  · rename_i h
    exact iff_of_true ⟨_, rfl⟩ h
  · rename_i h
    exact iff_of_false (fun ⟨_, hplan⟩ => nomatch hplan) h

theorem ofSteps_steps {jobId summary : String} {steps : List Step} {createdAt : DateTime}
    {plan : Plan} (h : ofSteps jobId summary steps createdAt = some plan) :
    plan.steps = steps := by
  unfold ofSteps at h
  split at h
  · obtain rfl := Option.some.inj h
    rfl
  · cases h

def sentence (plan : Plan) : String :=
  let count := plan.steps.length
  let noun := if count = 1 then "step" else "steps"
  let destructive := plan.destructiveSteps
  if destructive = [] then toString count ++ " " ++ noun ++ ", none destructive."
  else
    let names := ", ".intercalate (destructive.map (·.title))
    let verb := if destructive.length = 1 then "needs" else "need"
    toString count ++ " " ++ noun ++ "; " ++ toString destructive.length ++ " " ++ verb ++
      " your approval: " ++ names ++ "."

end Plan

/-! ## Findings and votes -/

inductive Severity where
  | S1
  | S2
  | S3
  | S4
  deriving DecidableEq, Repr

namespace Severity

def value : Severity → String
  | .S1 => "S1"
  | .S2 => "S2"
  | .S3 => "S3"
  | .S4 => "S4"

def ofValue (s : String) : Option Severity :=
  if s = "S1" then some .S1
  else if s = "S2" then some .S2
  else if s = "S3" then some .S3
  else if s = "S4" then some .S4
  else none

def codec : Json.Codec Severity := .enum value ofValue (by intro a; cases a <;> decide)

end Severity

/-- The class `[0-9a-f]`. -/
def isHexDigit (c : Char) : Bool := c.isDigit || ('a' ≤ c && c ≤ 'f')

theorem isHexDigit_a : isHexDigit 'a' = true := by decide

theorem isHexDigit_b : isHexDigit 'b' = true := by decide

/-- The pattern `^[0-9a-f]{16,64}$`. -/
def IsDigest (s : String) : Prop :=
  16 ≤ s.toList.length ∧ s.toList.length ≤ 64 ∧ s.toList.all isHexDigit = true

instance : DecidablePred IsDigest := fun _ => inferInstanceAs (Decidable (_ ∧ _ ∧ _))

/-- A failure's fingerprint: 16 to 64 hexadecimal digits. -/
def Fingerprint : Type := {s : String // IsDigest s}

instance : DecidableEq Fingerprint := inferInstanceAs (DecidableEq {s : String // IsDigest s})

/-- `f"{prefix}{fingerprint[:8]}"`. -/
def Fingerprint.short (f : Fingerprint) : String := String.ofList (f.1.toList.take 8)

structure Finding where
  id : String
  fingerprint : Fingerprint
  issue : String
  owner : Option String := none
  severity : Option Severity := none
  component : Option String := none
  evidence : List String := []
  ticketId : Option String := none
  id_ne : id ≠ ""
  issue_ne : issue ≠ ""
  deriving DecidableEq

/-- Python's `a or b` on optional texts: the empty text counts as absent. -/
def orElseText (a b : Option String) : Option String :=
  match a with
  | none => b
  | some s => if s = "" then b else some s

def Finding.headline (finding : Finding) : String :=
  "[Issue] " ++ finding.issue ++ " | [Owner] " ++
    (orElseText finding.owner (some "unassigned")).getD ""

def strOpt : Json.Codec (Option String) := Json.Codec.str.opt (fun _ h => nomatch h)

def fingerprintCodec : Json.Codec Fingerprint := Json.Codec.str.sub IsDigest

def Finding.codec : Json.Codec Finding where
  dump f := .obj
    [("id", Json.Codec.str.dump f.id), ("fingerprint", fingerprintCodec.dump f.fingerprint),
     ("issue", Json.Codec.str.dump f.issue), ("owner", strOpt.dump f.owner),
     ("severity", (Severity.codec.opt (fun _ h => nomatch h)).dump f.severity),
     ("component", strOpt.dump f.component),
     ("evidence", Json.Codec.str.list.dump f.evidence), ("ticket_id", strOpt.dump f.ticketId)]
  validate
    | .obj kvs => do
      guard (Json.onlyKeys ["id", "fingerprint", "issue", "owner", "severity", "component",
        "evidence", "ticket_id"] kvs)
      let id ← Json.fieldOr Json.Codec.str "id" none kvs
      let fingerprint ← Json.fieldOr fingerprintCodec "fingerprint" none kvs
      let issue ← Json.fieldOr Json.Codec.str "issue" none kvs
      let owner ← Json.fieldOr strOpt "owner" (some none) kvs
      let severity ← Json.fieldOr (Severity.codec.opt (fun _ h => nomatch h)) "severity"
        (some none) kvs
      let component ← Json.fieldOr strOpt "component" (some none) kvs
      let evidence ← Json.fieldOr Json.Codec.str.list "evidence" (some []) kvs
      let ticketId ← Json.fieldOr strOpt "ticket_id" (some none) kvs
      if h : id ≠ "" ∧ issue ≠ "" then
        some ⟨id, fingerprint, issue, owner, severity, component, evidence, ticketId, h.1, h.2⟩
      else none
    | _ => none
  validate_dump := by
    rintro ⟨id, fp, issue, owner, severity, component, evidence, ticketId, hid, hissue⟩
    simp [Json.onlyKeys, Json.fieldOr_tail, hid, hissue]

inductive VoteVerdict where
  | approve
  | concern
  | reject
  deriving DecidableEq, Repr

namespace VoteVerdict

def value : VoteVerdict → String
  | .approve => "approve"
  | .concern => "concern"
  | .reject => "reject"

def ofValue (s : String) : Option VoteVerdict :=
  if s = "approve" then some .approve
  else if s = "concern" then some .concern
  else if s = "reject" then some .reject
  else none

def codec : Json.Codec VoteVerdict := .enum value ofValue (by intro a; cases a <;> decide)

end VoteVerdict

/-- `Field(ge=0.0, le=1.0)`. -/
def InUnit (d : Decimal) : Prop := (Decimal.ofNat 0).le d = true ∧ d.le (.ofNat 1) = true

instance : DecidablePred InUnit := fun _ => inferInstanceAs (Decidable (_ ∧ _))

structure Vote where
  voter : String
  verdict : VoteVerdict
  fields : List (String × String) := []
  reason : String
  confidence : Decimal
  voter_ne : voter ≠ ""
  reason_ne : reason ≠ ""
  confidence_unit : InUnit confidence
  deriving DecidableEq

def Vote.codec : Json.Codec Vote where
  dump v := .obj
    [("voter", Json.Codec.str.dump v.voter), ("verdict", VoteVerdict.codec.dump v.verdict),
     ("fields", Json.Codec.str.dict.dump v.fields), ("reason", Json.Codec.str.dump v.reason),
     ("confidence", Json.Codec.decimal.dump v.confidence)]
  validate
    | .obj kvs => do
      guard (Json.onlyKeys ["voter", "verdict", "fields", "reason", "confidence"] kvs)
      let voter ← Json.fieldOr Json.Codec.str "voter" none kvs
      let verdict ← Json.fieldOr VoteVerdict.codec "verdict" none kvs
      let fields ← Json.fieldOr Json.Codec.str.dict "fields" (some []) kvs
      let reason ← Json.fieldOr Json.Codec.str "reason" none kvs
      let confidence ← Json.fieldOr Json.Codec.decimal "confidence" none kvs
      if h : voter ≠ "" ∧ reason ≠ "" ∧ InUnit confidence then
        some ⟨voter, verdict, fields, reason, confidence, h.1, h.2.1, h.2.2⟩
      else none
    | _ => none
  validate_dump := by
    rintro ⟨voter, verdict, fields, reason, confidence, hvoter, hreason, hconf⟩
    simp [Json.onlyKeys, Json.fieldOr_tail, hvoter, hreason, hconf]

/-- What the Consensus Router answers, as far as the kernel reads it. -/
structure ConsensusVerdict where
  votes : List Vote
  agreed : Bool
  sentence : String

end Slas
