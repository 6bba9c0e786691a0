/-
  Slas.Kernel.Rca

  The RCA pipeline (`slas_kernel.rca`): normalise, fingerprint, retrieve,
  draft, cross-check, route.

  The parts outside this file are parameters: the drafting model, the
  Consensus Router and the retriever because they are services, and the text
  functions (log normalisation, masking and hashing, the first sentence of a
  cause, the routing table) because nothing here depends on which lines they
  keep.  `analyse` is a function of the ticket: the services answer the same
  request in the same way.
-/

import Slas.Lib.Lines
import Slas.Triage.Dedup

namespace Slas

def MAX_SIGNATURE_LINES : Nat := 5
def MAX_LOG_LINES : Nat := 200

structure NormalisedLog where
  lines : List String := []
  counts : List (String × Nat) := []
  errorLines : List String := []
  totalLines : Nat

/-- The text the fingerprint, the retrieval query and the routing table work on. -/
def NormalisedLog.signature (log : NormalisedLog) : String :=
  let errors := log.errorLines.take MAX_SIGNATURE_LINES
  let chosen := if errors = [] then log.lines.drop (log.lines.length - MAX_SIGNATURE_LINES) else errors
  "\n".intercalate chosen

/-- The deterministic text functions of `slas_triage` and `slas_kernel.rca`. -/
structure TextTools where
  normaliseLog : String → NormalisedLog
  fingerprint : String → Fingerprint
  firstSentence : String → String
  /-- `route_owner` with the default routing table. -/
  route : String → RoutingDecision

def failedRecords (ticket : Ticket) : List StepRecord := ticket.steps.filter (·.status == .failed)

/-- The failed step's output first; if nothing failed, every step's stderr. -/
def normaliseTicket (T : TextTools) (ticket : Ticket) : NormalisedLog :=
  let failed := failedRecords ticket
  let records := if failed = [] then ticket.steps else failed
  let parts := records.flatMap fun record =>
    match record.observation with
    | none => []
    | some observation =>
      if failed = [] then [observation.stderr]
      else [observation.stderr, observation.stdout] ++
        (match record.verdict with
        | some verdict => [verdict.sentence]
        | none => [])
  T.normaliseLog ("\n".intercalate parts)

/-- `str.strip()` -/
def strip (s : String) : List Char :=
  ((s.toList.dropWhile Lines.isSpace).reverse.dropWhile Lines.isSpace).reverse

/-! ## The placeholder -/

/-- What a ticket gets when no pipeline is configured, or nothing failed. -/
def placeholderRca (T : TextTools) (ticket : Ticket) : Rca :=
  match failedRecords ticket, ticket.findings with
  | [], lead :: rest =>
    let count := (lead :: rest).length
    { cause := "Every step finished, but VERIFY reported " ++ toString count ++ " " ++
        (if count = 1 then "finding" else "findings") ++ ". No root-cause pipeline is " ++
        "configured for this kernel, so the cause has not been analysed."
      evidence := ((lead :: rest).take MAX_SIGNATURE_LINES).map (·.issue)
      confidence := .ofNat 0
      uncertain := true
      fingerprint := some lead.fingerprint }
  | [], [] =>
    { cause := "Every step finished as expected; there is nothing to analyse."
      evidence := [toString ticket.steps.length ++ " steps finished with exit code 0."]
      confidence := .ofNat 1
      uncertain := false
      fingerprint := some (T.fingerprint "no failure") }
  | first :: _, _ =>
    let stderr := match first.observation with
      | some observation => observation.stderr
      | none => ""
    let place := "Step " ++ toString first.n ++ " (" ++ first.title ++ ")"
    let last := match (Lines.splitlines (strip stderr)).getLast? with
      | some line => ["stderr: " ++ String.ofList line]
      | none => []
    { cause := place ++ " did not finish as expected. No root-cause pipeline " ++
        "is configured for this kernel, so the cause has not been analysed."
      evidence := (place ++ " failed.") :: last
      confidence := .ofNat 0
      uncertain := true
      fingerprint := some (T.fingerprint (if stderr = "" then first.title else stderr)) }

/-! ## The pipeline -/

/-- A retrieved passage: its citation and its text. -/
structure Hit where
  citation : String
  text : String

/-- What the drafter sees. -/
structure RcaRequest where
  ticketId : String
  title : String
  failedStep : Option String := none
  signature : String
  logLines : List String := []
  retrieved : List String := []

structure RcaDraft where
  cause : String
  evidence : List String := []
  component : Option String := none
  confidence : Decimal

structure RcaResult where
  rca : Rca
  findings : List Finding := []
  votes : List Vote := []
  citations : List String := []
  sentence : String

/-- The Consensus Router seen from the kernel; an exception is its message. -/
abbrev CrossChecker := String → List String → Except String ConsensusVerdict

structure RcaPipeline where
  drafter : RcaRequest → Except String RcaDraft
  crossChecker : Option CrossChecker := none
  retriever : Option (String → List Hit) := none
  routing : String → RoutingDecision

/-- What is analysed: the signature, its fingerprint and where it came from. -/
structure Subject where
  signature : String
  digest : Fingerprint
  failedStep : String

/-- Steps 1 and 2 of `analyse`, for a ticket with a failed step or a finding. -/
def subject (T : TextTools) (ticket : Ticket) : Option Subject :=
  match failedRecords ticket, ticket.findings with
  | [], [] => none
  | first :: _, _ =>
    let text := (normaliseTicket T ticket).signature
    let signature := if text = "" then first.title ++ " failed" else text
    some ⟨signature, T.fingerprint signature, "Step " ++ toString first.n ++ " (" ++ first.title ++ ")"⟩
  | [], lead :: _ =>
    some ⟨"\n".intercalate (lead.issue :: lead.evidence.take (MAX_SIGNATURE_LINES - 1)),
      lead.fingerprint, "No step failed; VERIFY reported findings"⟩

/-- The finding of a drafted cause; the source's constructor refuses an empty
    issue, and `signature.splitlines()[0]` an empty signature. -/
def draftedFinding (T : TextTools) (s : Subject) (draft : RcaDraft) (routing : RoutingDecision)
    (citations : List String) : Except String Finding :=
  let issue := T.firstSentence draft.cause
  match Lines.splitlines s.signature.toList with
  | [] => .error "list index out of range"
  | line :: _ =>
    if h : issue ≠ "" then
      .ok
        { id := "F-" ++ s.digest.short
          fingerprint := s.digest
          issue := issue
          owner := routing.owner
          severity := routing.severity
          component := orElseText routing.component draft.component
          evidence := String.ofList line :: citations
          id_ne := by simp
          issue_ne := h }
    else .error "issue: String should have at least 1 character"

namespace RcaPipeline

variable (p : RcaPipeline) (T : TextTools)

/-- 3 · retrieve similar past tickets and knowledge. -/
def hits (s : Subject) : List Hit :=
  match p.retriever with
  | some search => search s.signature
  | none => []

def request (ticket : Ticket) (s : Subject) : RcaRequest :=
  { ticketId := ticket.id
    title := ticket.title
    failedStep := some s.failedStep
    signature := s.signature
    logLines := (normaliseTicket T ticket).lines.take MAX_LOG_LINES
    retrieved := (p.hits s).map fun hit => hit.citation ++ ": " ++ hit.text }

/-- 4 · draft: a drafter that raises falls back to the placeholder, with what
    it raised.  RCA never blocks the run. -/
def drafted (ticket : Ticket) (s : Subject) : RcaDraft × Option String :=
  match p.drafter (p.request T ticket s) with
  | .ok draft => (draft, none)
  | .error message =>
    let fallback := placeholderRca T ticket
    ({ cause := fallback.cause, evidence := fallback.evidence, confidence := .ofNat 0 },
      some message)

/-- 5 · consensus on the conclusion. -/
def verdictOn (s : Subject) (draft : RcaDraft) (draftFailed : Option String) :
    Except String (Option ConsensusVerdict) :=
  match p.crossChecker, draftFailed with
  | some check, none =>
    (check "rca_conclusion" (["Failure signature:\n" ++ s.signature,
      "Proposed cause: " ++ draft.cause] ++ draft.evidence)).map some
  | _, _ => .ok none

/-- The conclusion, with its evidence. -/
def rcaOf (s : Subject) (draft : RcaDraft) (draftFailed : Option String)
    (verdict : Option ConsensusVerdict) : Rca :=
  let agreed := (verdict.map (·.agreed)).getD false
  { cause := draft.cause
    evidence := draft.evidence ++ (p.hits s).map (fun hit => "See " ++ hit.citation) ++
      (match verdict with
      | some v => ["Cross-check: " ++ v.sentence]
      | none => []) ++
      (match draftFailed with
      | some message => ["The drafting model did not answer: " ++ message]
      | none => [])
    confidence := if agreed then draft.confidence else draft.confidence.min ⟨false, 5, 1⟩
    uncertain := draftFailed.isSome || !agreed
    fingerprint := some s.digest }

/-- 6 · owner routing. -/
def routingOf (s : Subject) (draft : RcaDraft) : RoutingDecision :=
  p.routing (s.signature ++ "\n" ++ draft.cause ++ "\n" ++ draft.component.getD "")

/-- The finding of a new failure; none when the ticket has its fingerprint or
    nothing was drafted. -/
def newFindings (ticket : Ticket) (s : Subject) (draft : RcaDraft) (draftFailed : Option String) :
    Except String (List Finding) :=
  if (fingerprints ticket.findings).contains s.digest || draftFailed.isSome then .ok []
  else
    (draftedFinding T s draft (p.routingOf s draft) ((p.hits s).map (·.citation))).map ([·])

def sentenceOf (ticket : Ticket) (s : Subject) (draft : RcaDraft) (draftFailed : Option String)
    (verdict : Option ConsensusVerdict) : String :=
  let checked := match verdict, draftFailed with
    | some v, _ => v.sentence
    | none, none =>
      "Not cross-checked: no voters are configured, so treat this as one model's view."
    | none, some _ =>
      "Root-cause analysis could not be drafted; the failure is attached for review."
  " ".intercalate (["Root cause: " ++ draft.cause, checked, (p.routingOf s draft).sentence] ++
    (if (fingerprints ticket.findings).contains s.digest then
      ["This failure matches a finding already on the ticket; no new finding was added."] else []))

/-- Steps 3 to 6 of `analyse`. -/
def conclude (ticket : Ticket) (s : Subject) : Except String RcaResult := do
  let (draft, draftFailed) := p.drafted T ticket s
  let verdict ← p.verdictOn s draft draftFailed
  let findings ← p.newFindings T ticket s draft draftFailed
  return { rca := p.rcaOf s draft draftFailed verdict
           findings
           votes := (verdict.map (·.votes)).getD []
           citations := (p.hits s).map (·.citation)
           sentence := p.sentenceOf ticket s draft draftFailed verdict }

end RcaPipeline

/-- `RcaPipeline.analyse`. -/
def RcaPipeline.analyse (p : RcaPipeline) (T : TextTools) (ticket : Ticket) :
    Except String RcaResult :=
  match subject T ticket with
  | none =>
    let rca := placeholderRca T ticket
    .ok { rca, sentence := rca.cause }
  | some s => p.conclude T ticket s

/-- What a conclusion is made of. -/
theorem RcaPipeline.conclude_ok {p : RcaPipeline} {T : TextTools} {ticket : Ticket} {s : Subject}
    {r : RcaResult} (h : p.conclude T ticket s = .ok r) :
    ∃ verdict, p.verdictOn s (p.drafted T ticket s).1 (p.drafted T ticket s).2 = .ok verdict ∧
      p.newFindings T ticket s (p.drafted T ticket s).1 (p.drafted T ticket s).2 =
        .ok r.findings ∧
      r.rca = p.rcaOf s (p.drafted T ticket s).1 (p.drafted T ticket s).2 verdict ∧
      r.votes = (verdict.map (·.votes)).getD [] := by
  simp only [conclude] at h
  cases hv : p.verdictOn s (p.drafted T ticket s).1 (p.drafted T ticket s).2 with
  | error e => simp [hv, bind, Except.bind] at h
  | ok verdict =>
    cases hf : p.newFindings T ticket s (p.drafted T ticket s).1 (p.drafted T ticket s).2 with
    | error e => simp [hv, hf, bind, Except.bind] at h
    | ok findings =>
      simp only [hv, hf, bind, Except.bind, pure, Except.pure, Except.ok.injEq] at h
      subst h
      exact ⟨verdict, rfl, rfl, rfl, rfl⟩

/-- A pipeline adds at most one finding, that of its subject, and it names no
    ticket; it adds none exactly when the ticket has it or nothing was drafted. -/
theorem RcaPipeline.newFindings_ok {p : RcaPipeline} {T : TextTools} {ticket : Ticket}
    {s : Subject} {draft : RcaDraft} {failed : Option String} {fs : List Finding}
    (h : p.newFindings T ticket s draft failed = .ok fs) :
    (fs = [] ∧ (s.digest ∈ fingerprints ticket.findings ∨ failed.isSome)) ∨
      ∃ f, fs = [f] ∧ f.ticketId = none ∧ f.fingerprint = s.digest ∧ failed = none := by
  unfold newFindings at h
  split at h
  · rename_i hskip
    rw [Bool.or_eq_true, List.contains_iff_mem] at hskip
    exact Or.inl ⟨(Except.ok.inj h).symm, hskip⟩
  · rename_i hadd
    rw [Bool.or_eq_true, not_or, Option.not_isSome_iff_eq_none] at hadd
    unfold draftedFinding at h
    dsimp only at h
    split at h
    · cases h
    · split at h
      · obtain rfl := Except.ok.inj h
        exact Or.inr ⟨_, rfl, rfl, rfl, hadd.2⟩
      · cases h

theorem RcaPipeline.analyse_findings {p : RcaPipeline} {T : TextTools} {ticket : Ticket}
    {r : RcaResult} (h : p.analyse T ticket = .ok r) :
    r.findings = [] ∨ ∃ f, r.findings = [f] ∧ f.ticketId = none := by
  unfold analyse at h
  split at h
  · obtain rfl := Except.ok.inj h
    exact Or.inl rfl
  · obtain ⟨-, -, hnew, -⟩ := conclude_ok h
    rcases newFindings_ok hnew with ⟨hnil, -⟩ | ⟨f, hf, hid, -⟩
    · exact Or.inl hnil
    · exact Or.inr ⟨f, hf, hid⟩

end Slas
