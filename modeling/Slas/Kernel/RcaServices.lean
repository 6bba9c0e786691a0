/-
  Slas.Kernel.RcaServices

  The RCA pipeline with the services it is wired to (`RcaPipeline` of `slas_kernel.rca`):
  the retriever, the drafting model and the Consensus Router may each raise, or answer
  anything their schemas allow.  Only what the drafter raises is caught.

  Once the passages are retrieved, the rest is `RcaPipeline.conclude` with these passages.
  `analyse_spec` says when `analyse` returns, and what it returns.
-/

import Slas.Kernel.Approvals
import Slas.Lib.Except
import Slas.Lib.Text

namespace Slas

/-! ## The first sentence of a cause -/

/-- `.+?[.!?](?:\s|$)` below its first character: the shortest text that ends a sentence. -/
def sentenceEnd : List Char → Option (List Char)
  | [] => none
  | c :: cs =>
    if (c = '.' ∨ c = '!' ∨ c = '?') ∧ ∀ d ∈ cs.head?, Lines.isSpace d then some [c]
    else (sentenceEnd cs).map (c :: ·)

/-- `(.+?[.!?])(?:\s|$)`, where the text begins -/
def sentenceAt : List Char → Option (List Char)
  | [] => none
  | c :: cs => (sentenceEnd cs).map (c :: ·)

/-- The group of `\s*(.+?[.!?])(?:\s|$)`: after all leading space, or after less of it. -/
def sentenceMatch (cs : List Char) : Option (List Char) :=
  (List.range ((cs.takeWhile Lines.isSpace).length + 1)).reverse.findSome? fun k =>
    sentenceAt (cs.drop k)

/-- `_first_sentence` -/
def firstSentence (text : String) : String :=
  let sentence := Text.strip ((sentenceMatch text.toList).getD text.toList)
  if sentence.length ≤ 160 then String.ofList (sentence.rdropWhile (· = '.'))
  else String.ofList ((sentence.take 157).rdropWhile Lines.isSpace ++ ['…'])

/-! ## The services -/

/-- A draft that the schema of the drafting model allows. -/
structure AnsweredDraft extends RcaDraft where
  cause_ne : cause ≠ ""
  confidence_unit : InUnit confidence

/-- What the schema of the analysis asks of it. -/
def Rca.Valid (rca : Rca) : Prop := rca.cause ≠ "" ∧ InUnit rca.confidence

/-- The services of a pipeline, and its routing table; an exception is its message. -/
structure RcaServices where
  drafter : RcaRequest → Except String AnsweredDraft
  crossChecker : Option CrossChecker := none
  retriever : Option (String → Except String (List Hit)) := none
  routing : String → RoutingDecision

namespace RcaServices

variable (p : RcaServices) (T : TextTools)

/-- 3 · retrieve similar past tickets and knowledge; what this raises is not caught. -/
def search (s : Subject) : Except String (List Hit) :=
  match p.retriever with
  | some search => search s.signature
  | none => .ok []

/-- The pipeline whose retriever has answered with these passages. -/
def withHits (hits : List Hit) : RcaPipeline where
  drafter request := (p.drafter request).map (·.toRcaDraft)
  crossChecker := p.crossChecker
  retriever := some fun _ => hits
  routing := p.routing

/-- The text functions with `_first_sentence` as it is. -/
def textTools : TextTools := { T with firstSentence := firstSentence }

/-- `RcaPipeline.analyse` -/
def analyse (ticket : Ticket) : Except String RcaResult :=
  match subject T ticket with
  | none =>
    let rca := placeholderRca T ticket
    .ok { rca, sentence := rca.cause }
  | some s => do
    let hits ← p.search s
    (p.withHits hits).conclude (textTools T) ticket s

/-- What the drafting model is asked. -/
def request (ticket : Ticket) (s : Subject) (hits : List Hit) : RcaRequest :=
  (p.withHits hits).request (textTools T) ticket s

/-- What the voters are shown. -/
def conclusion (s : Subject) (draft : RcaDraft) : List String :=
  ["Failure signature:\n" ++ s.signature, "Proposed cause: " ++ draft.cause] ++ draft.evidence

/-- Nothing failed and nothing was found. -/
def Uneventful (ticket : Ticket) : Prop := failedRecords ticket = [] ∧ ticket.findings = []

/-- The retriever answers; and if the drafter does, then so do the voters, and its cause has
    a first sentence, unless its finding is on the ticket. -/
def Answers (ticket : Ticket) (s : Subject) : Prop :=
  ∃ hits, p.search s = .ok hits ∧ ∀ draft, p.drafter (p.request T ticket s hits) = .ok draft →
    (∀ check, p.crossChecker = some check →
      ∃ v, check "rca_conclusion" (conclusion s draft.toRcaDraft) = .ok v) ∧
    (s.digest ∈ fingerprints ticket.findings ∨ firstSentence draft.cause ≠ "")

/-- The voters were shown the drafted conclusion, and agreed. -/
def Agreed (ticket : Ticket) : Prop :=
  ∃ s hits draft check v, subject T ticket = some s ∧ p.search s = .ok hits ∧
    p.drafter (p.request T ticket s hits) = .ok draft ∧ p.crossChecker = some check ∧
    check "rca_conclusion" (conclusion s draft.toRcaDraft) = .ok v ∧ v.agreed = true

/-! ## What is drafted and concluded -/

variable {p : RcaServices} {T : TextTools} {ticket : Ticket} {s : Subject} {hits : List Hit}
  {draft : AnsweredDraft} {message : String} {r : RcaResult}

theorem textTools_firstSentence (text : String) :
    (textTools T).firstSentence text = firstSentence text := by
  rw [textTools]

theorem subject_eq_none_iff : subject T ticket = none ↔ Uneventful ticket := by
  unfold subject Uneventful
  cases failedRecords ticket <;> cases ticket.findings <;> simp

theorem drafted_ok (h : p.drafter (p.request T ticket s hits) = .ok draft) :
    (p.withHits hits).drafted (textTools T) ticket s = (draft.toRcaDraft, none) := by
  have hdrafter : (p.withHits hits).drafter ((p.withHits hits).request (textTools T) ticket s) =
      .ok draft.toRcaDraft := by
    change (p.drafter (p.request T ticket s hits)).map _ = _
    rw [h]
    rfl
  simp [RcaPipeline.drafted, hdrafter]

theorem drafted_error (h : p.drafter (p.request T ticket s hits) = .error message) :
    (p.withHits hits).drafted (textTools T) ticket s =
      ({ cause := (placeholderRca (textTools T) ticket).cause
         evidence := (placeholderRca (textTools T) ticket).evidence
         confidence := .ofNat 0 }, some message) := by
  have hdrafter : (p.withHits hits).drafter ((p.withHits hits).request (textTools T) ticket s) =
      .error message := by
    change (p.drafter (p.request T ticket s hits)).map _ = _
    rw [h]
    rfl
  simp [RcaPipeline.drafted, hdrafter]

theorem verdictOn_skipped {d : RcaDraft} :
    (p.withHits hits).verdictOn s d (some message) = .ok none := by
  unfold RcaPipeline.verdictOn
  cases (p.withHits hits).crossChecker <;> rfl

theorem verdictOn_unchecked (h : p.crossChecker = none) :
    (p.withHits hits).verdictOn s draft.toRcaDraft none = .ok none := by
  simp [RcaPipeline.verdictOn, withHits, h]

theorem verdictOn_checked {check : CrossChecker} (h : p.crossChecker = some check) :
    (p.withHits hits).verdictOn s draft.toRcaDraft none =
      (check "rca_conclusion" (conclusion s draft.toRcaDraft)).map some := by
  simp [RcaPipeline.verdictOn, withHits, h, conclusion]

/-- The signature has a first line: an empty one is not taken from the log, and a finding
    has an issue. -/
theorem subject_signature_ne (h : subject T ticket = some s) : s.signature ≠ "" := by
  unfold subject at h
  split at h
  · cases h
  · obtain rfl := Option.some.inj h
    dsimp only
    split_ifs with hempty
    · simp
    · exact hempty
  · rename_i lead _ _ _
    obtain rfl := Option.some.inj h
    have hissue := lead.issue_ne
    cases lead.evidence.take (MAX_SIGNATURE_LINES - 1) <;>
      simp_all [String.intercalate_cons_cons]

theorem draftedFinding_ok {U : TextTools} {d : RcaDraft} (routing : RoutingDecision)
    (citations : List String) (hsignature : s.signature ≠ "") (hissue : U.firstSentence d.cause ≠ "") :
    ∃ f, draftedFinding U s d routing citations = .ok f := by
  have hlines : Lines.splitlines s.signature.toList ≠ [] :=
    Lines.splitlines_ne_nil fun hnil => hsignature (String.toList_eq_nil_iff.mp hnil)
  obtain ⟨line, lines, hsplit⟩ := List.exists_cons_of_ne_nil hlines
  unfold draftedFinding
  simp only [hsplit]
  rw [dif_pos hissue]
  exact ⟨_, rfl⟩

/-- A draft leads to at most one finding, and it can be built if the ticket has it already,
    or if its cause has a first sentence. -/
theorem newFindings_returns {q : RcaPipeline} {U : TextTools} {d : RcaDraft}
    (hsignature : s.signature ≠ "")
    (hnamed : s.digest ∈ fingerprints ticket.findings ∨ U.firstSentence d.cause ≠ "") :
    ∃ fs, q.newFindings U ticket s d none = .ok fs := by
  unfold RcaPipeline.newFindings
  by_cases hknown : s.digest ∈ fingerprints ticket.findings
  · exact ⟨[], by simp [hknown]⟩
  · obtain ⟨f, hf⟩ := draftedFinding_ok (q.routingOf s d) ((q.hits s).map (·.citation))
      hsignature (hnamed.resolve_left hknown)
    exact ⟨[f], by simp [hknown, hf, Except.map]⟩

theorem newFindings_skipped {q : RcaPipeline} {U : TextTools} {d : RcaDraft} :
    q.newFindings U ticket s d (some message) = .ok [] := by
  simp [RcaPipeline.newFindings]

/-- Where the voters answer and the finding can be built, there is a conclusion. -/
theorem conclude_returns {q : RcaPipeline} {U : TextTools} {d : RcaDraft} {failed : Option String}
    {verdict : Option ConsensusVerdict} {fs : List Finding}
    (hdrafted : q.drafted U ticket s = (d, failed)) (hverdict : q.verdictOn s d failed = .ok verdict)
    (hfindings : q.newFindings U ticket s d failed = .ok fs) :
    ∃ r, q.conclude U ticket s = .ok r := by
  simp only [RcaPipeline.conclude, hdrafted, hverdict, hfindings, bind, Except.bind, pure,
    Except.pure]
  exact ⟨_, rfl⟩

/-- **RCA does not block a run**, whatever the drafting model does, where the retriever and
    the voters answer. -/
theorem analyse_returns (h : ∀ s, subject T ticket = some s → p.Answers T ticket s) :
    ∃ r, p.analyse T ticket = .ok r := by
  unfold analyse
  cases hsubject : subject T ticket with
  | none => exact ⟨_, rfl⟩
  | some s =>
    obtain ⟨hits, hsearch, hanswers⟩ := h s hsubject
    simp only [hsearch, bind, Except.bind]
    cases hdraft : p.drafter (p.request T ticket s hits) with
    | error message =>
      exact conclude_returns (drafted_error hdraft) verdictOn_skipped newFindings_skipped
    | ok draft =>
      obtain ⟨hchecked, hnamed⟩ := hanswers draft hdraft
      obtain ⟨fs, hfs⟩ := newFindings_returns (q := p.withHits hits) (U := textTools T)
        (d := draft.toRcaDraft) (subject_signature_ne hsubject)
        (by rwa [textTools_firstSentence])
      cases hchecker : p.crossChecker with
      | none => exact conclude_returns (drafted_ok hdraft) (verdictOn_unchecked hchecker) hfs
      | some check =>
        obtain ⟨v, hv⟩ := hchecked check hchecker
        have hverdict : (p.withHits hits).verdictOn s draft.toRcaDraft none = .ok (some v) := by
          rw [verdictOn_checked hchecker, hv]
          rfl
        exact conclude_returns (drafted_ok hdraft) hverdict hfs

/-! ## What is returned -/

def half : Decimal := ⟨false, 5, 1⟩

/-- The confidence is more than a half. -/
def Confident (rca : Rca) : Prop := rca.confidence.le half = false

theorem inUnit_min_half {d : Decimal} (h : InUnit d) : InUnit (d.min half) := by
  unfold Decimal.min
  split_ifs
  · exact h
  · decide

theorem min_half_le {d : Decimal} : (d.min half).le half = true := by
  unfold Decimal.min
  split_ifs with hle
  · exact hle
  · decide

theorem inUnit_zero : InUnit (.ofNat 0) := by decide

theorem inUnit_one : InUnit (.ofNat 1) := by decide

theorem placeholderRca_valid : (placeholderRca T ticket).Valid := by
  unfold placeholderRca
  split
  · refine ⟨fun h => ?_, inUnit_zero⟩
    simpa using congrArg String.length h
  · refine ⟨fun h => ?_, inUnit_one⟩
    simpa using congrArg String.length h
  · refine ⟨fun h => ?_, inUnit_zero⟩
    simpa using congrArg String.length h

/-- What comes of the draft is a valid draft again. -/
theorem drafted_valid {d : RcaDraft} {failed : Option String}
    (h : (p.withHits hits).drafted (textTools T) ticket s = (d, failed)) :
    d.cause ≠ "" ∧ InUnit d.confidence := by
  cases hdraft : p.drafter (p.request T ticket s hits) with
  | ok draft =>
    rw [drafted_ok hdraft] at h
    obtain ⟨rfl, -⟩ := Prod.mk.inj h
    exact ⟨draft.cause_ne, draft.confidence_unit⟩
  | error message =>
    rw [drafted_error hdraft] at h
    obtain ⟨rfl, -⟩ := Prod.mk.inj h
    exact ⟨placeholderRca_valid.1, inUnit_zero⟩

/-- A confidence above a half comes of a draft, and of voters who agreed with it. -/
theorem agreed_of_confident {verdict : Option ConsensusVerdict}
    (hsubject : subject T ticket = some s) (hsearch : p.search s = .ok hits)
    (hverdict : (p.withHits hits).verdictOn s ((p.withHits hits).drafted (textTools T) ticket s).1
      ((p.withHits hits).drafted (textTools T) ticket s).2 = .ok verdict)
    (hconfident : Confident ((p.withHits hits).rcaOf s
      ((p.withHits hits).drafted (textTools T) ticket s).1
      ((p.withHits hits).drafted (textTools T) ticket s).2 verdict)) :
    p.Agreed T ticket := by
  have hagreed : (verdict.map (·.agreed)).getD false = true := by
    by_contra hnot
    simp only [Confident, RcaPipeline.rcaOf, hnot] at hconfident
    exact absurd (min_half_le.symm.trans hconfident) (by decide)
  cases hdraft : p.drafter (p.request T ticket s hits) with
  | error message =>
    rw [drafted_error hdraft, verdictOn_skipped] at hverdict
    obtain rfl := Except.ok.inj hverdict
    cases hagreed
  | ok draft =>
    rw [drafted_ok hdraft] at hverdict
    cases hchecker : p.crossChecker with
    | none =>
      rw [verdictOn_unchecked hchecker] at hverdict
      obtain rfl := Except.ok.inj hverdict
      cases hagreed
    | some check =>
      rw [verdictOn_checked hchecker] at hverdict
      obtain ⟨v, hv, rfl⟩ := Except.map_eq_ok.mp hverdict
      exact ⟨s, hits, draft, check, v, hsubject, hsearch, hdraft, hchecker, hv, hagreed⟩

theorem newFindings_new {q : RcaPipeline} {U : TextTools} {d : RcaDraft} {failed : Option String}
    {fs : List Finding} (h : q.newFindings U ticket s d failed = .ok fs) (hne : fs ≠ []) :
    s.digest ∉ fingerprints ticket.findings := by
  intro hknown
  simp only [RcaPipeline.newFindings, List.contains_iff_mem.mpr hknown, Bool.true_or, if_true,
    Except.ok.injEq] at h
  exact hne h.symm

/-- **RCA never blocks a run**: `analyse` returns whatever the drafting model does, where the
    retriever and the voters answer and the drafted cause has a first sentence.  What it
    returns is valid; it is confident only if a cross-check agreed, or if nothing failed and
    nothing was found; and it adds at most one finding, with a fingerprint that is not on the
    ticket. -/
theorem analyse_spec (p : RcaServices) (T : TextTools) (ticket : Ticket) :
    ((∀ s, subject T ticket = some s → p.Answers T ticket s) → ∃ r, p.analyse T ticket = .ok r) ∧
      ∀ r, p.analyse T ticket = .ok r →
        r.rca.Valid ∧ (Confident r.rca → p.Agreed T ticket ∨ Uneventful ticket) ∧
        (r.findings = [] ∨
          ∃ f, r.findings = [f] ∧ f.fingerprint ∉ fingerprints ticket.findings) := by
  refine ⟨analyse_returns, fun r hr => ?_⟩
  unfold analyse at hr
  cases hsubject : subject T ticket with
  | none =>
    simp only [hsubject, Except.ok.injEq] at hr
    subst hr
    exact ⟨placeholderRca_valid, fun _ => Or.inr (subject_eq_none_iff.mp hsubject), Or.inl rfl⟩
  | some s =>
    simp only [hsubject] at hr
    obtain ⟨hits, hsearch, hr⟩ := Except.bind_eq_ok.mp hr
    obtain ⟨verdict, hverdict, hfindings, hrca, -⟩ := RcaPipeline.conclude_ok hr
    refine ⟨?_, fun hconfident => ?_, ?_⟩
    · obtain ⟨hcause, hunit⟩ := drafted_valid (rfl : (p.withHits hits).drafted (textTools T) ticket s = _)
      rw [hrca]
      refine ⟨hcause, ?_⟩
      simp only [RcaPipeline.rcaOf]
      split_ifs
      · exact hunit
      · exact inUnit_min_half hunit
    · exact Or.inl (agreed_of_confident hsubject hsearch hverdict (hrca ▸ hconfident))
    · rcases RcaPipeline.newFindings_ok hfindings with ⟨hnil, -⟩ | ⟨f, hf, -, hdigest, -⟩
      · exact Or.inl hnil
      · refine Or.inr ⟨f, hf, ?_⟩
        rw [hdigest]
        exact newFindings_new hfindings (by simp [hf])

-- A ticket with nothing to analyse

def quietTicket : Ticket where
  id := "T-validation-0001"
  agent := .validation
  user := "ana"
  title := "Reboots"
  job := demoJob
  createdAt := 0
  updatedAt := 0

/-- No voters, no retriever, and a drafting model that does not answer. -/
def noServices : RcaServices where
  drafter _ := .error "the triage instance did not answer"
  routing _ := {}

/-- Its analysis is certain, and nobody was asked. -/
theorem quiet_ticket_is_confident :
    ∃ r, noServices.analyse demoText quietTicket = .ok r ∧ Confident r.rca ∧
      ¬ noServices.Agreed demoText quietTicket := by
  refine ⟨_, rfl, rfl, ?_⟩
  rintro ⟨s, hits, draft, check, v, hsubject, -⟩
  cases hsubject

end RcaServices

end Slas
