/-
  Slas.Triage.Dedup

  Deduplication by fingerprint and the bug index (`slas_triage.dedup`).

  A Python dict from fingerprints to findings is a list of findings with
  distinct fingerprints, in insertion order; assigning to a key replaces the
  value where the key stands.  Owner routing is a function parameter: which
  rule matches a text is no matter here.
-/

import Slas.Schemas.Ticket

namespace Slas

/-! ## Findings by fingerprint -/

/-- `finding_from_sentence`; the source's constructor refuses an empty issue,
    which is what `rstrip(".")` leaves of a sentence of full stops. -/
def findingFromSentence (fingerprint : String → Fingerprint) (sentence : String)
    (evidence : List String) (severity : Option Severity) (component : Option String) :
    Except String Finding :=
  let issue := String.ofList ((sentence.toList.reverse.dropWhile (· = '.')).reverse)
  let digest := fingerprint sentence
  if h : issue ≠ "" then
    .ok { id := "F-" ++ digest.short, fingerprint := digest, issue, severity, component, evidence
          id_ne := by simp, issue_ne := h }
  else .error "issue: String should have at least 1 character"

/-- The fingerprints of a list of findings. -/
def fingerprints (fs : List Finding) : List Fingerprint := fs.map (·.fingerprint)

@[simp] theorem fingerprints_nil : fingerprints [] = [] := rfl

@[simp] theorem fingerprints_cons (f : Finding) (fs : List Finding) :
    fingerprints (f :: fs) = f.fingerprint :: fingerprints fs := rfl

@[simp] theorem fingerprints_append (fs gs : List Finding) :
    fingerprints (fs ++ gs) = fingerprints fs ++ fingerprints gs := List.map_append

/-- An assignment to the key of `f`: `hit` of the value that stands there, or
    `f` as a new last one. -/
def upsertFinding (hit : Finding → Finding) (f : Finding) : List Finding → List Finding
  | [] => [f]
  | g :: gs => if g.fingerprint = f.fingerprint then hit g :: gs else g :: upsertFinding hit f gs

/-- `seen[finding.fingerprint] = finding`. -/
def setFinding (f : Finding) : List Finding → List Finding := upsertFinding (fun _ => f) f

/-- `first.evidence = [*first.evidence, *extra][:20]`, with the evidence of the
    repeat that `first` does not have. -/
def Finding.seenAgain (first f : Finding) : Finding :=
  { first with
    evidence := (first.evidence ++ f.evidence.filter (fun e => !first.evidence.contains e)).take 20 }

/-- One turn of the dedup loop: a repeat adds its evidence only. -/
def addFinding (f : Finding) : List Finding → List Finding := upsertFinding (·.seenAgain f) f

def dedupFindings (findings : List Finding) : List Finding :=
  findings.foldl (fun seen f => addFinding f seen) []

theorem fingerprints_upsertFinding {hit : Finding → Finding} {f : Finding}
    (hhit : ∀ g, g.fingerprint = f.fingerprint → (hit g).fingerprint = f.fingerprint)
    (gs : List Finding) :
    fingerprints (upsertFinding hit f gs) =
      if f.fingerprint ∈ fingerprints gs then fingerprints gs
      else fingerprints gs ++ [f.fingerprint] := by
  induction gs with
  | nil => simp [upsertFinding]
  | cons g gs ih =>
    by_cases hg : g.fingerprint = f.fingerprint
    · simp [upsertFinding, hg, hhit]
    · have hne : f.fingerprint ≠ g.fingerprint := fun h => hg h.symm
      rw [upsertFinding, if_neg hg, fingerprints_cons, ih]
      by_cases hmem : f.fingerprint ∈ fingerprints gs <;> simp [hmem, hne]

theorem fingerprints_addFinding (f : Finding) (gs : List Finding) :
    fingerprints (addFinding f gs) =
      if f.fingerprint ∈ fingerprints gs then fingerprints gs
      else fingerprints gs ++ [f.fingerprint] := by
  apply fingerprints_upsertFinding
  intro g hg
  exact hg

theorem fingerprints_setFinding (f : Finding) (gs : List Finding) :
    fingerprints (setFinding f gs) =
      if f.fingerprint ∈ fingerprints gs then fingerprints gs
      else fingerprints gs ++ [f.fingerprint] :=
  fingerprints_upsertFinding (fun _ _ => rfl) gs

theorem upsertFinding_of_not_mem {hit : Finding → Finding} {f : Finding} {gs : List Finding}
    (h : f.fingerprint ∉ fingerprints gs) : upsertFinding hit f gs = gs ++ [f] := by
  induction gs with
  | nil => rfl
  | cons g gs ih =>
    rw [fingerprints_cons, List.mem_cons, not_or] at h
    have hne : g.fingerprint ≠ f.fingerprint := fun hg => h.1 hg.symm
    rw [upsertFinding, if_neg hne, ih h.2, List.cons_append]

theorem mem_upsertFinding {hit : Finding → Finding} {f x : Finding} {gs : List Finding}
    (h : x ∈ upsertFinding hit f gs) : x = f ∨ x ∈ gs ∨ ∃ g ∈ gs, x = hit g := by
  induction gs with
  | nil => exact Or.inl (List.mem_singleton.mp h)
  | cons g gs ih =>
    rw [upsertFinding] at h
    split at h
    · rcases List.mem_cons.mp h with rfl | hx
      · exact Or.inr (Or.inr ⟨g, List.mem_cons_self .., rfl⟩)
      · exact Or.inr (Or.inl (List.mem_cons_of_mem _ hx))
    · rcases List.mem_cons.mp h with rfl | hx
      · exact Or.inr (Or.inl (List.mem_cons_self ..))
      · rcases ih hx with hf | hmem | ⟨y, hy, rfl⟩
        · exact Or.inl hf
        · exact Or.inr (Or.inl (List.mem_cons_of_mem _ hmem))
        · exact Or.inr (Or.inr ⟨y, List.mem_cons_of_mem _ hy, rfl⟩)

/-- A step that adds a key once keeps the keys distinct, fold after fold. -/
theorem nodup_foldl_findings {step : Finding → List Finding → List Finding}
    (hstep : ∀ f gs, fingerprints (step f gs) =
      if f.fingerprint ∈ fingerprints gs then fingerprints gs
      else fingerprints gs ++ [f.fingerprint])
    (fs gs : List Finding) (h : (fingerprints gs).Nodup) :
    (fingerprints (fs.foldl (fun seen f => step f seen) gs)).Nodup := by
  induction fs generalizing gs with
  | nil => exact h
  | cons f fs ih =>
    apply ih
    rw [hstep]
    split
    · exact h
    · rename_i hnot
      rw [List.nodup_append]
      exact ⟨h, List.nodup_singleton _, fun a ha b hb hab =>
        hnot (List.mem_singleton.mp hb ▸ hab ▸ ha)⟩

/-- No fingerprint is lost. -/
theorem mem_fingerprints_dedupFindings {d : Fingerprint} {fs : List Finding} :
    d ∈ fingerprints (dedupFindings fs) ↔ d ∈ fingerprints fs := by
  have hadd : ∀ f gs, d ∈ fingerprints (addFinding f gs) ↔
      d ∈ fingerprints gs ∨ d = f.fingerprint := by
    intro f gs
    rw [fingerprints_addFinding]
    split
    · rename_i hmem
      exact ⟨Or.inl, fun h => h.elim id fun hd => hd ▸ hmem⟩
    · rw [List.mem_append, List.mem_singleton]
  have hfold : ∀ gs, d ∈ fingerprints (fs.foldl (fun seen f => addFinding f seen) gs) ↔
      d ∈ fingerprints gs ∨ d ∈ fingerprints fs := by
    induction fs with
    | nil => simp
    | cons f fs ih =>
      intro gs
      rw [List.foldl_cons, ih, hadd, fingerprints_cons, List.mem_cons, or_assoc]
  simpa [dedupFindings] using hfold []

/-- Findings with distinct fingerprints are deduplicated already. -/
theorem dedupFindings_of_nodup {fs : List Finding} (h : (fingerprints fs).Nodup) :
    dedupFindings fs = fs := by
  have hfold : ∀ gs, (fingerprints (gs ++ fs)).Nodup →
      fs.foldl (fun seen f => addFinding f seen) gs = gs ++ fs := by
    induction fs with
    | nil => simp
    | cons f fs ih =>
      intro gs hgs
      have hnot : f.fingerprint ∉ fingerprints gs := by
        rw [fingerprints_append, fingerprints_cons] at hgs
        exact fun hmem => (List.nodup_append.mp hgs).2.2 _ hmem _ (List.mem_cons_self ..) rfl
      have hrest : (fingerprints fs).Nodup := by
        rw [fingerprints_cons, List.nodup_cons] at h
        exact h.2
      rw [List.foldl_cons, addFinding, upsertFinding_of_not_mem hnot, ih hrest (gs ++ [f]) (by simpa using hgs),
        List.append_assoc, List.singleton_append]
  exact hfold [] (by simpa using h)

/-- Where the ticket a finding of the result names comes from. -/
theorem ticketId_of_mem_addFinding {f x : Finding} {gs : List Finding} (h : x ∈ addFinding f gs) :
    x.ticketId = f.ticketId ∨ ∃ g ∈ gs, x.ticketId = g.ticketId := by
  rcases mem_upsertFinding h with rfl | hx | ⟨g, hg, rfl⟩
  · exact Or.inl rfl
  · exact Or.inr ⟨x, hx, rfl⟩
  · exact Or.inr ⟨g, hg, rfl⟩

theorem mem_setFinding {f x : Finding} {gs : List Finding} (h : x ∈ setFinding f gs) :
    x = f ∨ x ∈ gs := by
  rcases mem_upsertFinding h with rfl | hx | ⟨g, -, rfl⟩
  · exact Or.inl rfl
  · exact Or.inr hx
  · exact Or.inl rfl

theorem ticketId_of_mem_foldl_addFinding {x : Finding} {fs gs : List Finding}
    (h : x ∈ fs.foldl (fun seen f => addFinding f seen) gs) :
    (∃ f ∈ fs, x.ticketId = f.ticketId) ∨ ∃ g ∈ gs, x.ticketId = g.ticketId := by
  induction fs generalizing gs with
  | nil => exact Or.inr ⟨x, h, rfl⟩
  | cons f fs ih =>
    rcases ih h with ⟨y, hy, hxy⟩ | ⟨y, hy, hxy⟩
    · exact Or.inl ⟨y, List.mem_cons_of_mem _ hy, hxy⟩
    · rcases ticketId_of_mem_addFinding hy with hf | ⟨g, hg, hyg⟩
      · exact Or.inl ⟨f, List.mem_cons_self .., hxy.trans hf⟩
      · exact Or.inr ⟨g, hg, hxy.trans hyg⟩

/-! ## Triage -/

/-- What the owner routing table answers for a text. -/
structure RoutingDecision where
  owner : Option String := none
  component : Option String := none
  severity : Option Severity := none
  ruleId : Option String := none
  matched : Option String := none

def RoutingDecision.sentence (d : RoutingDecision) : String :=
  match d.owner with
  | none => "No routing rule matched; the owner is your call."
  | some owner =>
    "Routed to " ++ owner ++ " (" ++ d.component.getD "None" ++ ", " ++
      (d.severity.map Severity.value).getD "None" ++ ") by rule " ++ d.ruleId.getD "None" ++ "."

/-- Owner, component and severity filled in where the finding has none. -/
def Finding.routed (route : String → RoutingDecision) (f : Finding) : Finding :=
  if f.owner.isNone || f.severity.isNone then
    let decision := route (f.issue ++ "\n" ++ "\n".intercalate f.evidence)
    { f with
      owner := orElseText f.owner decision.owner
      severity := f.severity.or decision.severity
      component := orElseText f.component decision.component }
  else f

def triage (route : String → RoutingDecision) (findings : List Finding) : List Finding :=
  (dedupFindings findings).map (·.routed route)

section Routed

variable (route : String → RoutingDecision) (f : Finding)

@[simp] theorem routed_fingerprint : (f.routed route).fingerprint = f.fingerprint := by
  unfold Finding.routed; split <;> rfl

@[simp] theorem routed_ticketId : (f.routed route).ticketId = f.ticketId := by
  unfold Finding.routed; split <;> rfl

@[simp] theorem routed_issue : (f.routed route).issue = f.issue := by
  unfold Finding.routed; split <;> rfl

@[simp] theorem routed_evidence : (f.routed route).evidence = f.evidence := by
  unfold Finding.routed; split <;> rfl

theorem orElseText_idem (a b : Option String) : orElseText (orElseText a b) b = orElseText a b := by
  unfold orElseText
  cases a with
  | none => cases b <;> simp
  | some s => by_cases hs : s = "" <;> cases b <;> simp [hs]

/-- Routing again changes nothing, whatever ticket the finding names. -/
theorem routed_routed (i : Option String) :
    { f.routed route with ticketId := i }.routed route = { f.routed route with ticketId := i } := by
  by_cases hr : f.owner.isNone || f.severity.isNone
  · have hf : f.routed route =
        { f with
          owner := orElseText f.owner (route (f.issue ++ "\n" ++ "\n".intercalate f.evidence)).owner
          severity := f.severity.or (route (f.issue ++ "\n" ++ "\n".intercalate f.evidence)).severity
          component := orElseText f.component
            (route (f.issue ++ "\n" ++ "\n".intercalate f.evidence)).component } := by
      simp [Finding.routed, hr]
    rw [hf]
    unfold Finding.routed
    split
    · simp [orElseText_idem, Option.or_assoc]
    · rfl
  · have hf : f.routed route = f := by simp [Finding.routed, hr]
    rw [hf]
    simp [Finding.routed, hr]

theorem fingerprints_triage (fs : List Finding) :
    fingerprints (triage route fs) = fingerprints (dedupFindings fs) := by
  simp [triage, fingerprints, Function.comp_def]

theorem nodup_triage (fs : List Finding) : (fingerprints (triage route fs)).Nodup := by
  rw [fingerprints_triage]
  exact nodup_foldl_findings fingerprints_addFinding fs [] (by simp [fingerprints])

theorem ticketId_of_mem_triage {x : Finding} {fs : List Finding} (h : x ∈ triage route fs) :
    ∃ f ∈ fs, x.ticketId = f.ticketId := by
  obtain ⟨y, hy, rfl⟩ := List.mem_map.mp h
  rcases ticketId_of_mem_foldl_addFinding hy with hf | ⟨g, hg, -⟩
  · simpa using hf
  · cases hg

end Routed

/-! ## The bug index -/

structure BugIndexEntry where
  fingerprint : Fingerprint
  ticketId : String
  firstSeenIn : String
  seen : Nat := 1
  deriving DecidableEq

/-- The index file: fingerprint → bug ticket, in insertion order. -/
abbrev BugIndex := List BugIndexEntry

namespace BugIndex

def lookup (index : BugIndex) (digest : Fingerprint) : Option BugIndexEntry :=
  index.find? (·.fingerprint = digest)

/-- `BugIndex.record`: one more sighting, or a new entry. -/
def record : BugIndex → Fingerprint → String → String → BugIndex
  | [], digest, ticketId, seenIn => [⟨digest, ticketId, seenIn, 1⟩]
  | e :: es, digest, ticketId, seenIn =>
    if e.fingerprint = digest then { e with seen := e.seen + 1 } :: es
    else e :: record es digest ticketId seenIn

variable {index : BugIndex} {digest : Fingerprint} {ticketId seenIn : String}

theorem lookup_eq_none_iff : lookup index digest = none ↔ ∀ e ∈ index, e.fingerprint ≠ digest := by
  simp [lookup]

theorem mem_of_lookup {e : BugIndexEntry} (h : lookup index digest = some e) :
    e ∈ index ∧ e.fingerprint = digest :=
  ⟨List.mem_of_find?_eq_some h, by simpa using List.find?_some h⟩

/-- A recorded entry names the new ticket or one that was recorded before. -/
theorem mem_record {e : BugIndexEntry} (h : e ∈ record index digest ticketId seenIn) :
    (e.fingerprint = digest ∧ e.ticketId = ticketId) ∨
      ∃ e' ∈ index, e'.fingerprint = e.fingerprint ∧ e'.ticketId = e.ticketId := by
  induction index with
  | nil =>
    obtain rfl := List.mem_singleton.mp h
    exact Or.inl ⟨rfl, rfl⟩
  | cons x xs ih =>
    rw [record] at h
    split at h
    · rcases List.mem_cons.mp h with rfl | he
      · exact Or.inr ⟨x, List.mem_cons_self .., rfl, rfl⟩
      · exact Or.inr ⟨e, List.mem_cons_of_mem _ he, rfl, rfl⟩
    · rcases List.mem_cons.mp h with rfl | he
      · exact Or.inr ⟨e, List.mem_cons_self .., rfl, rfl⟩
      · exact (ih he).imp_right fun ⟨y, hy, hye⟩ => ⟨y, List.mem_cons_of_mem _ hy, hye⟩

/-- What is tracked stays tracked, and the recorded fingerprint is. -/
theorem tracked_record {d : Fingerprint} :
    (∃ e ∈ record index digest ticketId seenIn, e.fingerprint = d) ↔
      d = digest ∨ ∃ e ∈ index, e.fingerprint = d := by
  induction index with
  | nil => simp [record, eq_comm]
  | cons x xs ih =>
    by_cases hx : x.fingerprint = digest
    · simp only [record, hx, if_true, List.mem_cons, exists_eq_or_imp]
      constructor
      · rintro (rfl | h)
        · exact Or.inl rfl
        · exact Or.inr (Or.inr h)
      · rintro (rfl | rfl | h)
        · exact Or.inl rfl
        · exact Or.inl rfl
        · exact Or.inr h
    · simp only [record, hx, if_false, List.mem_cons, exists_eq_or_imp, ih]
      tauto

end BugIndex

end Slas
