/-
  Slas.Kernel.Attach

  What observations leave on a ticket (`Kernel._attach`), over any run of them, those
  that are attached again after a restore included.

  Votes and exports are compared with what the ticket has before the observation, and not
  with one another; the lines of a finding that is new to the ticket are neither compared
  nor counted.  `attached_iff` says of which observations this leaves no trace.
-/

import Slas.Kernel.Kernel
import Slas.Triage.Merging

namespace Slas

namespace Kernel

/-! ## A ticket in good order -/

/-- What makes a vote known: who cast it, and why. -/
def voteKey (v : Vote) : String × String := (v.voter, v.reason)

/-- Votes, exports and findings once each, and at most twenty lines of evidence, each
    once. -/
structure Merged (t : Ticket) : Prop where
  votes : (t.votes.map voteKey).Nodup
  exports : (t.exports.map (·.path)).Nodup
  findings : (fingerprints t.findings).Nodup
  lines : ∀ f ∈ t.findings, f.evidence.Nodup ∧ f.evidence.length ≤ 20

/-- A new ticket is. -/
theorem merged_of_empty {t : Ticket} (hvotes : t.votes = []) (hexports : t.exports = [])
    (hfindings : t.findings = []) : Merged t where
  votes := by simp [hvotes]
  exports := by simp [hexports]
  findings := by simp [hfindings]
  lines := by simp [hfindings]

/-- The votes of an observation that the ticket does not have. -/
def freshVotes (t : Ticket) (o : Observation) : List Vote :=
  o.votes.filter fun v => !(t.votes.map voteKey).contains (voteKey v)

/-- The exports of an observation that the ticket does not have. -/
def freshExports (t : Ticket) (o : Observation) : List Export :=
  o.exports.filter fun e => !(t.exports.map (·.path)).contains e.path

/-- What an observation brings that is new does not repeat itself, and is not too long:
    the votes and the exports are distinct, the lines of evidence that each turn of the
    loop adds are, and a finding of more than twenty lines is repeated. -/
structure Fresh (t : Ticket) (o : Observation) : Prop where
  votes : ((freshVotes t o).map voteKey).Nodup
  exports : ((freshExports t o).map (·.path)).Nodup
  lines : Runs.Meets (fun seen f => addFinding f seen) AddsDistinct t.findings o.findings
  short : ∀ f ∈ o.findings, f.fingerprint ∉ fingerprints t.findings →
    (fingerprints o.findings).count f.fingerprint = 1 → f.evidence.length ≤ 20

variable {t : Ticket} {o o' : Observation} {os : List Observation}

theorem attach_votes : (attach t o).votes = t.votes ++ freshVotes t o := rfl

theorem attach_exports : (attach t o).exports = t.exports ++ freshExports t o := rfl

theorem foldl_setFinding (h : (fingerprints t.findings).Nodup) :
    t.findings.foldl (fun merged f => setFinding f merged) [] = t.findings := by
  suffices hfold : ∀ fs gs : List Finding, (fingerprints (gs ++ fs)).Nodup →
      fs.foldl (fun merged f => setFinding f merged) gs = gs ++ fs from
    hfold t.findings [] (by simpa using h)
  intro fs
  induction fs with
  | nil => simp
  | cons f fs ih =>
    intro gs hgs
    have hnew : f.fingerprint ∉ fingerprints gs := by
      rw [fingerprints_append, fingerprints_cons] at hgs
      exact fun hmem => (List.nodup_append.mp hgs).2.2 _ hmem _ (List.mem_cons_self ..) rfl
    rw [List.foldl_cons, setFinding, upsertFinding_of_not_mem hnew, ih (gs ++ [f]) (by simpa using hgs),
      List.append_assoc, List.singleton_append]

theorem findings_attach (h : (fingerprints t.findings).Nodup) :
    (attach t o).findings = mergeFindings t.findings o.findings := by
  unfold attach
  dsimp only
  split
  · rename_i hnone
    rw [hnone, mergeFindings_nil]
  · rw [foldl_setFinding h]
    rfl

/-- What is appended is distinct from what is there. -/
theorem nodup_append_fresh {α β : Type} [BEq β] [LawfulBEq β] (key : α → β) {xs : List α}
    (ys : List α) (h : (xs.map key).Nodup) :
    ((xs ++ ys.filter fun y => !(xs.map key).contains (key y)).map key).Nodup ↔
      ((ys.filter fun y => !(xs.map key).contains (key y)).map key).Nodup := by
  rw [List.map_append, List.nodup_append]
  constructor
  · exact fun hall => hall.2.1
  · refine fun hys => ⟨h, hys, fun a ha b hb hab => ?_⟩
    obtain ⟨y, hy, rfl⟩ := List.mem_map.mp hb
    have hnot := (List.mem_filter.mp hy).2
    rw [← hab, List.contains_iff_mem.mpr ha] at hnot
    cases hnot

theorem lines_iff {fs : List Finding} :
    (∀ f ∈ fs, f.evidence.Nodup ∧ f.evidence.length ≤ 20) ↔ Distinct fs ∧ Short fs := by
  constructor
  · exact fun h => ⟨fun f hf => (List.take_sublist _ _).nodup (h f hf).1, fun f hf => (h f hf).2⟩
  · rintro ⟨hdistinct, hshort⟩ f hf
    have htake := hdistinct f hf
    rw [List.take_of_length_le (hshort f hf)] at htake
    exact ⟨htake, hshort f hf⟩

/-- One observation keeps the ticket in good order exactly when it is fresh. -/
theorem merged_attach_iff (ht : Merged t) : Merged (attach t o) ↔ Fresh t o := by
  obtain ⟨hdistinct, hshort⟩ := lines_iff.mp ht.lines
  have hlines : (∀ f ∈ (attach t o).findings, f.evidence.Nodup ∧ f.evidence.length ≤ 20) ↔
      Runs.Meets (fun seen f => addFinding f seen) AddsDistinct t.findings o.findings ∧
      ∀ f ∈ o.findings, f.fingerprint ∉ fingerprints t.findings →
        (fingerprints o.findings).count f.fingerprint = 1 → f.evidence.length ≤ 20 := by
    rw [lines_iff, findings_attach ht.findings, distinct_merge_iff ht.findings hdistinct,
      short_merge_iff ht.findings]
    exact and_congr_right fun _ => and_iff_right fun g hg => Or.inl (hshort g hg)
  have hvotes := nodup_append_fresh voteKey o.votes ht.votes
  have hexports := nodup_append_fresh (fun e : Export => e.path) o.exports ht.exports
  constructor
  · intro h
    exact ⟨hvotes.mp h.votes, hexports.mp h.exports, (hlines.mp h.lines).1, (hlines.mp h.lines).2⟩
  · intro h
    refine ⟨hvotes.mpr h.votes, hexports.mpr h.exports, ?_, hlines.mpr ⟨h.lines, h.short⟩⟩
    rw [findings_attach ht.findings]
    exact nodup_mergeFindings ht.findings

/-! ## An observation that is attached again -/

/-- All that the observation brings is on the ticket. -/
structure Known (t : Ticket) (o : Observation) : Prop where
  votes : ∀ v ∈ o.votes, voteKey v ∈ t.votes.map voteKey
  exports : ∀ e ∈ o.exports, e.path ∈ t.exports.map (·.path)
  findings : ∀ f ∈ o.findings, Seen t.findings f

theorem mem_map_append_fresh {α β : Type} [BEq β] [LawfulBEq β] (key : α → β) {xs ys : List α}
    {y : α} (hy : y ∈ ys) :
    key y ∈ (xs ++ ys.filter fun y => !(xs.map key).contains (key y)).map key := by
  rw [List.map_append, List.mem_append]
  by_cases hknown : key y ∈ xs.map key
  · exact Or.inl hknown
  · exact Or.inr (List.mem_map_of_mem (List.mem_filter.mpr ⟨hy, by simpa using hknown⟩))

theorem known_attach_self (h : (fingerprints t.findings).Nodup) : Known (attach t o) o where
  votes _ hv := mem_map_append_fresh voteKey hv
  exports _ he := mem_map_append_fresh (fun e : Export => e.path) he
  findings f hf := by
    rw [findings_attach h]
    exact seen_merge h hf

theorem Known.attach (h : (fingerprints t.findings).Nodup) (hknown : Known t o) :
    Known (attach t o') o where
  votes v hv := by
    rw [attach_votes, List.map_append]
    exact List.mem_append_left _ (hknown.votes v hv)
  exports e he := by
    rw [attach_exports, List.map_append]
    exact List.mem_append_left _ (hknown.exports e he)
  findings f hf := by
    rw [findings_attach h]
    exact (hknown.findings f hf).merge h

theorem attach_of_known (ht : Merged t) (hknown : Known t o) : attach t o = t := by
  have hvotes : freshVotes t o = [] := by
    rw [freshVotes, List.filter_eq_nil_iff]
    intro v hv
    simpa using hknown.votes v hv
  have hexports : freshExports t o = [] := by
    rw [freshExports, List.filter_eq_nil_iff]
    intro e he
    simpa using hknown.exports e he
  have hfindings : (Kernel.attach t o).findings = t.findings := by
    rw [findings_attach ht.findings]
    exact merge_of_seen ht.findings (lines_iff.mp ht.lines).2 hknown.findings
  have hsame : attach t o = { t with
      votes := t.votes ++ freshVotes t o, exports := t.exports ++ freshExports t o
      findings := (attach t o).findings } := rfl
  rw [hsame, hvotes, hexports, hfindings, List.append_nil, List.append_nil]

/-! ## Runs -/

/-- What a ticket comes to when the observations are attached in order. -/
structure Attached (t : Ticket) (os : List Observation) (t' : Ticket) : Prop where
  merged : Merged t'
  /-- Of each fingerprint the fields of the first finding are kept. -/
  first : ∀ x ∈ t'.findings, ∃ first,
    (t.findings ++ os.flatMap (·.findings)).find? (fun y => y.fingerprint = x.fingerprint) =
      some first ∧ { x with evidence := first.evidence } = first
  agrees : t'.findings = dedupFindings (t.findings ++ os.flatMap (·.findings))
  again : ∀ o ∈ os, attach t' o = t'

/-- The findings are those of one merge, whatever the observations are. -/
theorem findings_run (h : (fingerprints t.findings).Nodup) (os : List Observation) :
    (Runs.run attach t os).findings = mergeFindings t.findings (os.flatMap (·.findings)) := by
  induction os generalizing t with
  | nil => rfl
  | cons o os ih =>
    have hnext : (fingerprints (attach t o).findings).Nodup := by
      rw [findings_attach h]
      exact nodup_mergeFindings h
    rw [Runs.run_cons, ih hnext, findings_attach h, List.flatMap_cons, mergeFindings_append]

theorem nodup_findings_run (h : (fingerprints t.findings).Nodup) (os : List Observation) :
    (fingerprints (Runs.run attach t os).findings).Nodup := by
  rw [findings_run h]
  exact nodup_mergeFindings h

/-- What was attached is known from then on. -/
theorem known_run (h : (fingerprints t.findings).Nodup) (ho : o ∈ os) :
    Known (Runs.run attach t os) o := by
  induction os using List.reverseRecOn with
  | nil => cases ho
  | append_singleton os o' ih =>
    rw [Runs.run_snoc]
    rcases List.mem_append.mp ho with ho | ho
    · exact (ih ho).attach (nodup_findings_run h os)
    · rw [List.mem_singleton.mp ho]
      exact known_attach_self (nodup_findings_run h os)

/-- A run that leaves the ticket in good order leaves all that it is to leave. -/
theorem attached_run_iff (h : (fingerprints t.findings).Nodup) :
    Attached t os (Runs.run attach t os) ↔ Merged (Runs.run attach t os) := by
  refine ⟨Attached.merged, fun hmerged => ⟨hmerged, fun x hx => ?_, ?_, fun o ho => ?_⟩⟩
  · rw [findings_run h] at hx
    exact first_of_mem h hx
  · rw [findings_run h, dedupFindings_eq, mergeFindings_append, ← dedupFindings_eq,
      dedupFindings_of_nodup h]
  · exact attach_of_known hmerged (known_run h ho)

/-- **Attached observations**: every ticket of a run has what it is to have exactly when
    each observation is fresh where it is attached. -/
theorem attached_iff (ht : Merged t) (os : List Observation) :
    (∀ pre, pre <+: os → Attached t pre (Runs.run attach t pre)) ↔ Runs.Meets attach Fresh t os := by
  rw [← Runs.throughout_iff (fun _ _ h => merged_attach_iff h) ht]
  exact forall₂_congr fun pre _ => attached_run_iff ht.findings

/-- A ticket that has nothing yet. -/
def plainTicket : Ticket where
  id := "T-null-0001"
  agent := .null
  user := "ana"
  title := "Demo"
  job := { id := "J-1", agent := .null, user := "ana", title := "Demo", createdAt := 0 }
  createdAt := 0
  updatedAt := 0

theorem ana_ne : "ana" ≠ "" := by decide

theorem looksRight_ne : "It looks right" ≠ "" := by decide

theorem sure_unit : (Decimal.ofNat 0).le (.ofNat 1) ∧ (Decimal.ofNat 1).le (.ofNat 1) := by decide

def plainVote : Vote where
  voter := "ana"
  verdict := .approve
  reason := "It looks right"
  confidence := .ofNat 1
  voter_ne := ana_ne
  reason_ne := looksRight_ne
  confidence_unit := sure_unit

theorem isDigest_hex : IsDigest "0123456789abcdef" := by decide

theorem longId_ne : "F-01234567" ≠ "" := by decide

theorem slowLink_ne : "The link is slow" ≠ "" := by decide

/-- A finding with twenty-one lines of evidence. -/
def longFinding : Finding where
  id := "F-01234567"
  fingerprint := ⟨"0123456789abcdef", isDigest_hex⟩
  issue := "The link is slow"
  evidence := (List.range 21).map fun n => "line " ++ toString n
  id_ne := longId_ne
  issue_ne := slowLink_ne

/-- One vote twice, and a long finding. -/
def repeating : Observation := { votes := [plainVote, plainVote], findings := [longFinding] }

theorem attached_iff_plain :
    (∀ pre, pre <+: [{ votes := [plainVote] }, repeating] →
      Attached plainTicket pre (Runs.run attach plainTicket pre)) ↔
    Runs.Meets attach Fresh plainTicket [{ votes := [plainVote] }, repeating] :=
  attached_iff (merged_of_empty rfl rfl rfl) _

/-- The vote is on the ticket twice, and the finding is cut when it comes again. -/
theorem attach_repeating :
    ¬ Attached plainTicket [repeating] (Runs.run attach plainTicket [repeating]) ∧
      attach (attach plainTicket repeating) repeating ≠ attach plainTicket repeating := by
  constructor
  · intro h
    have hvotes := h.merged.votes
    revert hvotes
    decide
  · intro h
    have hlines := congrArg (fun t : Ticket => t.findings.map (·.evidence.length)) h
    revert hlines
    decide

end Kernel

end Slas
