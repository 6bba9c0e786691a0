/-
  Slas.Kernel.Diagnosis

  A ticket that was analysed, analysed again.

  `_analyse_and_close` merges what RCA found into the ticket it analyses, so a
  second pass starts from another ticket than the first.  What the analysis
  reads of it has not changed: the steps are the same, and without a failed
  step the findings are too, up to their routing and the tickets they name.
  The second pass therefore reaches the same conclusion with the same votes,
  and its finding is one the ticket has.
-/

import Slas.Kernel.Kernel

namespace Slas

/-! ## What RCA finds -/

/-- The analysis of a ticket, with a pipeline or without. -/
def Kernel.diagnosis (K : Kernel) (ticket : Ticket) : Except String RcaResult :=
  match K.rcaPipeline with
  | none =>
    let rca := placeholderRca K.text ticket
    .ok { rca, sentence := rca.cause }
  | some pipeline => pipeline.analyse K.text ticket

/-- What the analysis reads of a finding. -/
def Finding.core (f : Finding) : String × List String × Fingerprint :=
  (f.issue, f.evidence, f.fingerprint)

/-- The same evidence for the analysis: the findings count only when no step
    failed. -/
structure SameEvidence (t u : Ticket) : Prop where
  id : u.id = t.id
  title : u.title = t.title
  steps : u.steps = t.steps
  findings : failedRecords t = [] → u.findings.map Finding.core = t.findings.map Finding.core

section Congr

variable {T : TextTools} {t u : Ticket}

theorem SameEvidence.failed (h : SameEvidence t u) : failedRecords u = failedRecords t := by
  rw [failedRecords, h.steps, failedRecords]

theorem SameEvidence.normalise (h : SameEvidence t u) :
    normaliseTicket T u = normaliseTicket T t := by
  rw [normaliseTicket, normaliseTicket, h.failed, h.steps]

/-- Without a failed step both tickets have no finding, or their leads and the
    issues of the others agree. -/
theorem SameEvidence.leads (h : SameEvidence t u) (hf : failedRecords t = []) :
    (t.findings = [] ∧ u.findings = []) ∨
      ∃ f fs g gs, t.findings = f :: fs ∧ u.findings = g :: gs ∧ g.core = f.core ∧
        gs.map Finding.core = fs.map Finding.core := by
  have hcores := h.findings hf
  cases ht : t.findings with
  | nil =>
    rw [ht, List.map_nil, List.map_eq_nil_iff] at hcores
    exact Or.inl ⟨rfl, hcores⟩
  | cons f fs =>
    cases hu : u.findings with
    | nil =>
      rw [ht, hu] at hcores
      cases hcores
    | cons g gs =>
      rw [ht, hu, List.map_cons, List.map_cons, List.cons.injEq] at hcores
      exact Or.inr ⟨f, fs, g, gs, rfl, rfl, hcores.1, hcores.2⟩

theorem map_issue_of_cores {fs gs : List Finding}
    (h : gs.map Finding.core = fs.map Finding.core) :
    gs.map (·.issue) = fs.map (·.issue) := by
  have hfst := congrArg (List.map Prod.fst) h
  simpa [Finding.core, Function.comp_def] using hfst

theorem SameEvidence.placeholder (h : SameEvidence t u) :
    placeholderRca T u = placeholderRca T t := by
  cases hf : failedRecords t with
  | nil =>
    rcases h.leads hf with ⟨ht, hu⟩ | ⟨f, fs, g, gs, ht, hu, hlead, hrest⟩
    · simp only [placeholderRca, h.failed, hf, ht, hu, h.steps]
    · have hlen : gs.length = fs.length := by simpa using congrArg List.length hrest
      have hissues : (g :: gs).map (·.issue) = (f :: fs).map (·.issue) :=
        map_issue_of_cores (by rw [List.map_cons, List.map_cons, hlead, hrest])
      have hdigest : g.fingerprint = f.fingerprint := congrArg (·.2.2) hlead
      simp only [placeholderRca, h.failed, hf, ht, hu, List.length_cons, hlen, List.map_take,
        hissues, hdigest]
  | cons first rest => simp only [placeholderRca, h.failed, hf]

theorem SameEvidence.subject (h : SameEvidence t u) : subject T u = subject T t := by
  cases hf : failedRecords t with
  | nil =>
    rcases h.leads hf with ⟨ht, hu⟩ | ⟨f, fs, g, gs, ht, hu, hlead, -⟩
    · simp only [Slas.subject, h.failed, hf, ht, hu]
    · have hissue : g.issue = f.issue := congrArg (·.1) hlead
      have hevidence : g.evidence = f.evidence := congrArg (·.2.1) hlead
      have hdigest : g.fingerprint = f.fingerprint := congrArg (·.2.2) hlead
      simp only [Slas.subject, h.failed, hf, ht, hu, hissue, hevidence, hdigest]
  | cons first rest => simp only [Slas.subject, h.failed, hf, h.normalise]

theorem SameEvidence.drafted (h : SameEvidence t u) (p : RcaPipeline) (s : Subject) :
    p.drafted T u s = p.drafted T t s := by
  simp only [RcaPipeline.drafted, RcaPipeline.request, h.id, h.title, h.normalise, h.placeholder]

end Congr

/-! ## The analysed ticket -/

/-- The finding without the ticket it names. -/
def Finding.unlinked (f : Finding) : Finding := { f with ticketId := none }

/-- Findings up to the ids of the bug tickets. -/
def unlinked (fs : List Finding) : List Finding := fs.map (·.unlinked)

theorem fingerprints_unlinked (fs : List Finding) :
    fingerprints (unlinked fs) = fingerprints fs := by
  simp [fingerprints, unlinked, Finding.unlinked, Function.comp_def]

theorem map_core_unlinked (fs : List Finding) :
    (unlinked fs).map Finding.core = fs.map Finding.core := by
  simp [unlinked, Finding.unlinked, Finding.core, Function.comp_def]

theorem core_routed (route : String → RoutingDecision) (f : Finding) :
    (f.routed route).core = f.core := by
  simp [Finding.core]

/-- The ticket `t` is `T` with the result `r` of its analysis merged in and its
    findings triaged. -/
structure Analysed (K : Kernel) (T : Ticket) (r : RcaResult) (t : Ticket) : Prop where
  id : t.id = T.id
  title : t.title = T.title
  steps : t.steps = T.steps
  rca : t.rca = some r.rca
  findings : unlinked t.findings =
    unlinked (triage K.text.route (Kernel.merged T r).findings)

section Again

variable {K : Kernel} {T t u : Ticket} {r r' : RcaResult}

theorem Analysed.digests (h : Analysed K T r t) :
    fingerprints t.findings = fingerprints (triage K.text.route (Kernel.merged T r).findings) := by
  rw [← fingerprints_unlinked, h.findings, fingerprints_unlinked]

theorem Analysed.distinct (h : Analysed K T r t) : (fingerprints t.findings).Nodup := by
  rw [h.digests]
  exact nodup_triage ..

/-- The result of an analysis that came to an end. -/
theorem diagnosis_ok (h : K.diagnosis T = .ok r) :
    (r.rca = placeholderRca K.text T ∧ r.findings = [] ∧ r.votes = [] ∧
      (K.rcaPipeline = none ∨ subject K.text T = none)) ∨
    ∃ p s, K.rcaPipeline = some p ∧ subject K.text T = some s ∧ p.conclude K.text T s = .ok r := by
  unfold Kernel.diagnosis at h
  split at h
  · rename_i hp
    obtain rfl := Except.ok.inj h
    exact Or.inl ⟨rfl, rfl, rfl, Or.inl hp⟩
  · rename_i p hp
    unfold RcaPipeline.analyse at h
    split at h
    · rename_i hs
      obtain rfl := Except.ok.inj h
      exact Or.inl ⟨rfl, rfl, rfl, Or.inr hs⟩
    · rename_i s hs
      exact Or.inr ⟨p, s, hp, hs, h⟩

/-- The same evidence leads to the same conclusion and the same votes. -/
theorem diagnosis_congr (h : SameEvidence T t) (hr : K.diagnosis T = .ok r)
    (hr' : K.diagnosis t = .ok r') : r'.rca = r.rca ∧ r'.votes = r.votes := by
  rcases diagnosis_ok hr with ⟨hrca, -, hvotes, hwhy⟩ | ⟨p, s, hp, hs, hconclude⟩ <;>
    rcases diagnosis_ok hr' with ⟨hrca', -, hvotes', hwhy'⟩ | ⟨p', s', hp', hs', hconclude'⟩
  · rw [hrca, hrca', hvotes, hvotes', h.placeholder]
    exact ⟨rfl, rfl⟩
  · rw [h.subject] at hs'
    rcases hwhy with hwhy | hwhy
    · rw [hwhy] at hp'
      cases hp'
    · rw [hwhy] at hs'
      cases hs'
  · rw [h.subject] at hwhy'
    rcases hwhy' with hwhy' | hwhy'
    · rw [hwhy'] at hp
      cases hp
    · rw [hwhy'] at hs
      cases hs
  · obtain rfl : p = p' := Option.some.inj (hp.symm.trans hp')
    rw [h.subject] at hs'
    obtain rfl : s = s' := Option.some.inj (hs.symm.trans hs')
    obtain ⟨verdict, hverdict, -, hrca, hvotes⟩ := RcaPipeline.conclude_ok hconclude
    obtain ⟨verdict', hverdict', -, hrca', hvotes'⟩ := RcaPipeline.conclude_ok hconclude'
    rw [h.drafted] at hverdict' hrca'
    obtain rfl : verdict = verdict' := Except.ok.inj (hverdict.symm.trans hverdict')
    exact ⟨hrca'.trans hrca.symm, hvotes'.trans hvotes.symm⟩

/-- The digest of a subject without a failed step is that of a finding. -/
theorem subject_digest {s : Subject} {X : TextTools} (h : subject X T = some s)
    (hf : failedRecords T = []) : s.digest ∈ fingerprints T.findings := by
  unfold subject at h
  rw [hf] at h
  cases hfs : T.findings with
  | nil =>
    rw [hfs] at h
    cases h
  | cons lead rest =>
    rw [hfs] at h
    obtain rfl := Option.some.inj h
    simp

/-- Without a failed step the analysis adds no finding. -/
theorem diagnosis_findings (hr : K.diagnosis T = .ok r) (hf : failedRecords T = []) :
    r.findings = [] := by
  rcases diagnosis_ok hr with ⟨-, hnil, -⟩ | ⟨p, s, -, hs, hconclude⟩
  · exact hnil
  · obtain ⟨-, -, hnew, -⟩ := RcaPipeline.conclude_ok hconclude
    have hknown : (fingerprints T.findings).contains s.digest = true :=
      List.contains_iff_mem.mpr (subject_digest hs hf)
    rw [RcaPipeline.newFindings, hknown, Bool.true_or, if_pos rfl, Except.ok.injEq] at hnew
    exact hnew.symm

theorem merged_findings (h : ∀ f ∈ r.findings, f.fingerprint ∈ fingerprints T.findings) :
    (Kernel.merged T r).findings = T.findings := by
  have hnone : r.findings.filter (fun f => !(fingerprints T.findings).contains f.fingerprint) =
      [] := by
    rw [List.filter_eq_nil_iff]
    intro f hf
    simp [h f hf]
  simp only [Kernel.merged, hnone, List.append_nil]

theorem Analysed.sameEvidence (h : Analysed K T r t) (hr : K.diagnosis T = .ok r)
    (hT : (fingerprints T.findings).Nodup) : SameEvidence T t := by
  refine ⟨h.id, h.title, h.steps, fun hf => ?_⟩
  have hsame : (Kernel.merged T r).findings = T.findings :=
    merged_findings (by simp [diagnosis_findings hr hf])
  rw [← map_core_unlinked, h.findings, map_core_unlinked, hsame, triage,
    dedupFindings_of_nodup hT, List.map_map]
  exact List.map_congr_left fun f _ => core_routed K.text.route f

/-- All fingerprints of the ticket and of the result are on the analysed one. -/
theorem Analysed.keeps (h : Analysed K T r t) {f : Finding}
    (hf : f ∈ T.findings ∨ f ∈ r.findings) : f.fingerprint ∈ fingerprints t.findings := by
  rw [h.digests, fingerprints_triage, mem_fingerprints_dedupFindings, Kernel.merged,
    fingerprints_append, List.mem_append]
  by_cases hknown : f.fingerprint ∈ fingerprints T.findings
  · exact Or.inl hknown
  · rcases hf with hf | hf
    · exact Or.inl (List.mem_map_of_mem hf)
    · exact Or.inr (List.mem_map_of_mem (List.mem_filter.mpr ⟨hf, by simp [hknown]⟩))

/-- The second analysis finds nothing the ticket does not have. -/
theorem Analysed.nothing_new (h : Analysed K T r t) (hr : K.diagnosis T = .ok r)
    (hT : (fingerprints T.findings).Nodup) (hr' : K.diagnosis t = .ok r') :
    ∀ f ∈ r'.findings, f.fingerprint ∈ fingerprints t.findings := by
  have hsame := h.sameEvidence hr hT
  rcases diagnosis_ok hr' with ⟨-, hnil, -⟩ | ⟨p, s, hp, hs, hconclude⟩
  · simp [hnil]
  · intro f hf
    obtain ⟨-, -, hnew, -⟩ := RcaPipeline.conclude_ok hconclude
    rw [hsame.subject] at hs
    rw [hsame.drafted] at hnew
    rcases RcaPipeline.newFindings_ok hnew with ⟨hnil, -⟩ | ⟨g, hg, -, hdigest, hdrafted⟩
    · simp [hnil] at hf
    rw [hg, List.mem_singleton] at hf
    rw [hf, hdigest]
    -- the first analysis had the same subject and draft: it knew the digest or added it
    rcases diagnosis_ok hr with ⟨-, -, -, hwhy⟩ | ⟨p', s', hp', hs', hconclude'⟩
    · rcases hwhy with hwhy | hwhy
      · rw [hwhy] at hp
        cases hp
      · rw [hwhy] at hs
        cases hs
    · obtain rfl : p' = p := Option.some.inj (hp'.symm.trans hp)
      obtain rfl : s' = s := Option.some.inj (hs'.symm.trans hs)
      obtain ⟨-, -, hfirst, -⟩ := RcaPipeline.conclude_ok hconclude'
      rcases RcaPipeline.newFindings_ok hfirst with ⟨-, hknown | hfailed⟩ | ⟨f', hf', -, hd', -⟩
      · obtain ⟨x, hx, hxd⟩ := List.mem_map.mp hknown
        exact hxd ▸ h.keeps (Or.inl hx)
      · rw [hdrafted] at hfailed
        cases hfailed
      · exact hd' ▸ h.keeps (Or.inr (by simp [hf']))

/-- A triaged finding is not routed again, whatever ticket it names. -/
theorem Analysed.routed (h : Analysed K T r t) {f : Finding} (hf : f ∈ t.findings) :
    f.routed K.text.route = f := by
  have hmem : f.unlinked ∈ unlinked (triage K.text.route (Kernel.merged T r).findings) := by
    rw [← h.findings]
    exact List.mem_map_of_mem hf
  obtain ⟨x, hx, hxf⟩ := List.mem_map.mp hmem
  obtain ⟨g, -, rfl⟩ := List.mem_map.mp hx
  have heq : f = { g.routed K.text.route with ticketId := f.ticketId } := by
    have hrelink := congrArg (fun y : Finding => { y with ticketId := f.ticketId }) hxf
    exact hrelink.symm
  rw [heq, routed_routed]

/-- **The second analysis**: it leaves the analysed ticket as it is and comes
    with the same votes. -/
theorem Analysed.again (h : Analysed K T r t) (hr : K.diagnosis T = .ok r)
    (hT : (fingerprints T.findings).Nodup) (hr' : K.diagnosis t = .ok r')
    (h' : Analysed K t r' u) : Analysed K T r u ∧ r'.votes = r.votes := by
  obtain ⟨hrca, hvotes⟩ := diagnosis_congr (h.sameEvidence hr hT) hr hr'
  refine ⟨⟨h'.id.trans h.id, h'.title.trans h.title, h'.steps.trans h.steps, ?_, ?_⟩, hvotes⟩
  · rw [h'.rca, hrca]
  · have hstable : triage K.text.route (Kernel.merged t r').findings = t.findings := by
      rw [merged_findings (h.nothing_new hr hT hr'), triage, dedupFindings_of_nodup h.distinct]
      exact (List.map_congr_left fun f hf => h.routed hf).trans (List.map_id _)
    rw [h'.findings, hstable, h.findings]

end Again

end Slas
