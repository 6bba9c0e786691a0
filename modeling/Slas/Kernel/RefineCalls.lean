/-
  Slas.Kernel.RefineCalls

  COLLECT → RCA → SOP → CLOSE and the three calls of the kernel refine its
  moves: the second half of `Slas.Kernel.Refine`.

  While a ticket is closed, the stored one does not change until the analysed
  ticket is saved, so the assertions of this part name it (`Closing T w t`).
-/

import Slas.Kernel.Refine

namespace Slas

open Crash

variable {K : Kernel} {P : Promise}

theorem Tidy.moved {t : Ticket} (h : Tidy t) (target : TicketState) (at_ : DateTime)
    (reason : String) : Tidy (t.moved target at_ reason) := ⟨h.unskipped, h.distinct⟩

/-! ## Closing -/

/-- The stored ticket `T` is being closed and `t` is the kernel's version of it. -/
structure Closing (T : Ticket) (w : World) (t : Ticket) : Prop where
  stored : w.tickets t.id = some T
  storedState : T.state = .analysing
  state : t.state = .analysing
  version : Version w T t

namespace Closing

variable {T t t' : Ticket} {w w' : World}

theorem mono (h : Closing T w t) (hg : Grows w w') (hsame : w'.tickets t.id = w.tickets t.id) :
    Closing T w' t :=
  ⟨hsame.trans h.stored, h.storedState, h.state, h.version.mono hg⟩

theorem jot (h : Closing T w t) (i : String) (e : JournalEntry) :
    Closing T (w.tick.appendEntry i e) t := by
  have htick : Grows w w.tick := .of_eq rfl rfl rfl
  exact h.mono (htick.trans (grows_appendEntry w.tick i e)) rfl

theorem file (h : Closing T w t) (path text : String) : Closing T (w.writeFile path text) t :=
  h.mono (.of_eq rfl rfl rfl) rfl

theorem isSome (h : Closing T w t) : (w.tickets t.id).isSome := by simp [h.stored]

theorem swap (h : Closing T w t) (hv : Version w T t → Version w T t') (hid : t'.id = t.id)
    (hstate : t'.state = t.state) : Closing T w t' :=
  ⟨hid ▸ h.stored, h.storedState, hstate ▸ h.state, hv h.version⟩

end Closing

/-- Changes that no `Version` speaks of. -/
theorem Version.congr {w : World} {T t t' : Ticket} (h : Version w T t) (hid : t'.id = t.id)
    (hparent : t'.parent = t.parent) (hplan : t'.plan = t.plan)
    (happrovals : t'.approvals = t.approvals) (hsteps : t'.steps = t.steps)
    (hfindings : t'.findings = t.findings) : Version w T t' :=
  ⟨hid.trans h.id, hparent.trans h.parent, hplan.trans h.plan, happrovals.trans h.approvals,
    ⟨hsteps ▸ h.tidy.unskipped, hfindings ▸ h.tidy.distinct⟩, hfindings ▸ h.sourced⟩

/-- New findings with the same or fewer sources. -/
theorem Version.withFindings {w : World} {T t : Ticket} (h : Version w T t) {fs : List Finding}
    (hdistinct : (fingerprints fs).Nodup)
    (hsourced : ∀ f ∈ fs, ∀ i, f.ticketId = some i → Known w T i) :
    Version w T { t with findings := fs } :=
  ⟨h.id, h.parent, h.plan, h.approvals, ⟨h.tidy.unskipped, hdistinct⟩, hsourced⟩

theorem collectLogs_refines {T t : Ticket} :
    Refines (kernelSteps K P) (fun w => Closing T w t) (K.collectLogs t)
      (fun _ w => Closing T w t) := by
  unfold Kernel.collectLogs
  refine Refines.bind (m := fun _ w => Closing T w t)
    (Refines.write fun w _ hw => ⟨Move.file .., hw.file ..⟩) fun _ => ?_
  refine Refines.bind (m := fun _ w => Closing T w t)
    (Refines.write fun w _ hw => ⟨Move.file .., hw.file ..⟩) fun _ => ?_
  exact Refines.pure fun _ _ hw => hw

theorem Version.merged {w : World} {T t : Ticket} (h : Version w T t) {r : RcaResult}
    (hr : r.findings = [] ∨ ∃ f, r.findings = [f] ∧ f.ticketId = none) :
    Version w T (Kernel.merged t r) := by
  have hfindings : ∀ f ∈ r.findings, f.ticketId = none := by
    rcases hr with hr | ⟨f, hr, hf⟩ <;> simp [*]
  have hnodup : (fingerprints (Kernel.merged t r).findings).Nodup := by
    rcases hr with hr | ⟨f, hr, -⟩
    · simpa [Kernel.merged, hr] using h.tidy.distinct
    · by_cases hmem : f.fingerprint ∈ fingerprints t.findings
      · simpa [Kernel.merged, hr, hmem] using h.tidy.distinct
      · simp only [Kernel.merged, hr, List.contains_eq_mem, hmem, decide_false, Bool.not_false,
          List.filter_cons_of_pos, List.filter_nil, fingerprints_append, fingerprints_cons,
          fingerprints_nil]
        rw [List.nodup_append]
        exact ⟨h.tidy.distinct, List.nodup_singleton _, fun a ha b hb hab =>
          hmem (List.mem_singleton.mp hb ▸ hab ▸ ha)⟩
  have hbase : Version w T { t with findings := (Kernel.merged t r).findings } := by
    refine h.withFindings hnodup fun f hf i hi => ?_
    rcases List.mem_append.mp hf with hf | hf
    · exact h.sourced f hf i hi
    · rw [hfindings f (List.mem_of_mem_filter hf)] at hi
      cases hi
  exact hbase.congr rfl rfl rfl rfl rfl rfl

theorem analyse_refines {T t : Ticket} :
    Refines (kernelSteps K P) (fun w => Closing T w t) (K.analyse t)
      (fun r w => Closing T w r.1) := by
  unfold Kernel.analyse
  split
  · refine Refines.bind (m := fun _ w => Closing T w t)
      (jot_refines (Or.inr rfl) (fun _ hw => hw.isSome) fun w e hw _ => hw.jot ..) fun _ => ?_
    apply Refines.pure
    intro w _ hw
    exact hw.swap (fun hv => hv.congr rfl rfl rfl rfl rfl rfl) rfl rfl
  · refine Refines.bind (m := fun r w => Closing T w t ∧
      (r.findings = [] ∨ ∃ f, r.findings = [f] ∧ f.ticketId = none))
      (raisedBy_refines fun r w hr hw => ⟨hw, RcaPipeline.analyse_findings hr⟩) fun r => ?_
    refine Refines.bind (m := fun _ w => Closing T w t ∧
      (r.findings = [] ∨ ∃ f, r.findings = [f] ∧ f.ticketId = none))
      (jot_refines (Or.inr rfl) (fun _ hw => hw.1.isSome)
        fun w e hw _ => ⟨hw.1.jot .., hw.2⟩) fun _ => ?_
    apply Refines.pure
    rintro w - ⟨hw, hr⟩
    exact hw.swap (fun hv => hv.merged hr) rfl rfl

/-! ### Bug tickets -/

/-- The findings name only known tickets. -/
def Sourced (w : World) (T : Ticket) (fs : List Finding) : Prop :=
  ∀ f ∈ fs, ∀ i, f.ticketId = some i → Known w T i

theorem Sourced.mono {w w' : World} {T : Ticket} {fs : List Finding} (h : Sourced w T fs)
    (hg : Grows w w') : Sourced w' T fs := fun f hf i hi => (h f hf i hi).mono hg

/-- What the loop over the findings keeps: the stored ticket and the sources
    of the findings still to come. -/
structure Spawning (T : Ticket) (w : World) (t : Ticket) (fs : List Finding) : Prop where
  closing : Closing T w t
  sourced : Sourced w T fs

theorem Spawning.mono {T t : Ticket} {w w' : World} {fs : List Finding} (h : Spawning T w t fs)
    (hg : Grows w w') (hsame : w'.tickets t.id = w.tickets t.id) : Spawning T w' t fs :=
  ⟨h.closing.mono hg hsame, h.sourced.mono hg⟩

/-- What the loop has done: every finding is linked to a known ticket. -/
structure Spawned (T : Ticket) (w : World) (t : Ticket) (fs updated : List Finding) : Prop where
  closing : Closing T w t
  linked : ∀ f ∈ updated, ∃ i, f.ticketId = some i ∧ Known w T i
  fingerprints : fingerprints updated = fingerprints fs

theorem Spawned.cons {T t : Ticket} {w : World} {f : Finding} {fs updated : List Finding}
    (h : Spawned T w t fs updated) {i : String} (hi : Known w T i) :
    Spawned T w t (f :: fs) ({ f with ticketId := some i } :: updated) := by
  refine ⟨h.closing, fun g hg => ?_, by simp [h.fingerprints]⟩
  rcases List.mem_cons.mp hg with rfl | hg
  · exact ⟨i, rfl, hi⟩
  · exact h.linked g hg

/-- The child is saved and tracked in one atomic step, or orphaned by a death. -/
theorem trackChild_refines {T t : Ticket} {votes : List Vote} {f : Finding} {now : DateTime}
    {i : String} {fs : List Finding} :
    Refines (kernelSteps K P)
      (fun w => Spawning T w t fs ∧ w.bugIndex.lookup f.fingerprint = none ∧ Allocated w i)
      (Kernel.trackChild (Kernel.childTicket t votes f now i) f.fingerprint t.id)
      (fun _ w => Spawning T w t fs ∧ (w.tickets i).isSome) := by
  apply Refines.write_write
  rintro w - ⟨hw, hlookup, halloc⟩
  have hspawn : Spawn w (Kernel.childTicket t votes f now i) f :=
    ⟨hlookup, halloc.id, halloc.unused, halloc.journal, rfl, rfl, rfl, rfl, rfl, rfl⟩
  have hne : t.id ≠ i := by
    intro heq
    have hstored := hw.closing.stored
    rw [heq, halloc.unused] at hstored
    cases hstored
  refine ⟨Orphan.orphan w _ f hspawn, Move.track w _ f t.id hspawn, hw.mono ?_ ?_, ?_⟩
  · exact (grows_saveTicket w _).trans (grows_recordBug _ _ _ _)
  · rw [World.tickets_recordBug, World.tickets_saveTicket]
    exact if_neg hne
  · rw [World.tickets_recordBug]
    exact congrArg Option.isSome (World.tickets_saveTicket_self w (Kernel.childTicket t votes f now i))

/-- The loop of `_spawn_bug_tickets`, by induction on the findings. -/
theorem spawnLoop_refines {T t : Ticket} {votes : List Vote} (fs : List Finding) :
    Refines (kernelSteps K P) (fun w => Spawning T w t fs) (K.spawnLoop t votes fs)
      (fun r w => Spawned T w t fs r.2) := by
  induction fs with
  | nil =>
    exact Refines.pure fun _ _ hw => ⟨hw.closing, by simp, rfl⟩
  | cons f fs ih =>
    have htail : ∀ w, Spawning T w t (f :: fs) → Spawning T w t fs := fun w hw =>
      ⟨hw.closing, fun g hg => hw.sourced g (List.mem_cons_of_mem _ hg)⟩
    -- what is known of a ticket before the rest is spawned is known after it
    have hrest : ∀ i, Refines (kernelSteps K P) (fun w => Known w T i ∧ Spawning T w t fs)
        (K.spawnLoop t votes fs) (fun r w => Known w T i ∧ Spawned T w t fs r.2) :=
      fun i => ih.frame fun _ _ hmove hknown => hknown.mono (Move.grows hmove)
    unfold Kernel.spawnLoop
    split
    · rename_i hsome
      obtain ⟨i, hi⟩ := Option.isSome_iff_exists.mp hsome
      refine Refines.bind ((hrest i).conseq (fun w _ hw =>
        ⟨hw.sourced f (List.mem_cons_self ..) i hi, htail w hw⟩) fun _ _ hr => hr) fun r => ?_
      apply Refines.pure
      rintro w - ⟨hknown, hw⟩
      have hlinked := hw.cons (f := f) hknown
      rwa [← hi] at hlinked
    · refine Refines.bind (m := fun o w => Spawning T w t fs ∧
        o = w.bugIndex.lookup f.fingerprint) (Refines.look fun w _ hw => ⟨htail w hw, rfl⟩) fun o => ?_
      cases o with
      | some entry =>
        refine Refines.bind (m := fun _ w => Known w T entry.ticketId ∧ Spawning T w t fs) ?_
          fun _ => ?_
        · apply Refines.write
          rintro w - ⟨hw, hlookup⟩
          obtain ⟨hmem, hfp⟩ := BugIndex.mem_of_lookup hlookup.symm
          have hknown : Known w T entry.ticketId := Or.inr (Or.inr (Or.inl ⟨entry, hmem, rfl⟩))
          have hg := grows_recordBug w f.fingerprint entry.ticketId t.id
          exact ⟨hfp ▸ Move.seen w entry t.id hmem, hknown.mono hg, hw.mono hg rfl⟩
        · refine Refines.bind (hrest entry.ticketId) fun r => ?_
          apply Refines.pure
          rintro w - ⟨hknown, hw⟩
          exact hw.cons hknown
      | none =>
        refine Refines.bind (m := fun _ w => Spawning T w t fs ∧
          w.bugIndex.lookup f.fingerprint = none) (now_refines fun w _ hw =>
            ⟨hw.1.mono (.of_eq rfl rfl rfl) rfl, hw.2.symm⟩) fun now => ?_
        refine Refines.bind (m := fun i w => Spawning T w t fs ∧
          w.bugIndex.lookup f.fingerprint = none ∧ Allocated w i) (nextTicketId_refines
            fun w i hw halloc => ⟨hw.1.mono (.of_eq rfl rfl rfl) rfl, hw.2, halloc⟩) fun i => ?_
        refine Refines.bind trackChild_refines fun _ => ?_
        refine Refines.bind ((hrest i).conseq (fun w _ hw => ⟨Or.inr (Or.inl hw.2), hw.1⟩)
          fun _ _ hr => hr) fun r => ?_
        apply Refines.pure
        rintro w - ⟨hknown, hw⟩
        exact hw.cons hknown

/-- The version with its findings linked. -/
structure Linked (T : Ticket) (w : World) (t : Ticket) : Prop where
  closing : Closing T w t
  linked : ∀ f ∈ t.findings, f.ticketId.isSome

theorem Linked.tick {T t : Ticket} {w : World} (h : Linked T w t) : Linked T w.tick t :=
  ⟨h.closing.mono (.of_eq rfl rfl rfl) rfl, h.linked⟩

theorem Linked.jot {T t : Ticket} {w : World} (h : Linked T w t) (i : String) (e : JournalEntry) :
    Linked T (w.tick.appendEntry i e) t := ⟨h.closing.jot i e, h.linked⟩

theorem Linked.file {T t : Ticket} {w : World} (h : Linked T w t) (path text : String) :
    Linked T (w.writeFile path text) t := ⟨h.closing.file path text, h.linked⟩

theorem spawnBugTickets_refines {T t : Ticket} {votes : List Vote} :
    Refines (kernelSteps K P) (fun w => Closing T w t) (K.spawnBugTickets t votes)
      (fun r w => Linked T w r.2) := by
  unfold Kernel.spawnBugTickets
  refine Refines.bind ((spawnLoop_refines (T := T) _).conseq (fun w _ hw => ?_) fun _ _ hr => hr)
    fun r => ?_
  · refine ⟨hw, fun f hf i hi => ?_⟩
    obtain ⟨g, hg, heq⟩ := ticketId_of_mem_triage K.text.route hf
    exact hw.version.sourced g hg i (heq ▸ hi)
  · apply Refines.pure
    intro w _ hw
    refine ⟨hw.closing.swap (fun hv => hv.withFindings ?_ ?_) rfl rfl, ?_⟩
    · rw [hw.fingerprints]
      exact nodup_triage _ _
    · intro f hf i hi
      obtain ⟨j, hj, hknown⟩ := hw.linked f hf
      rw [hj, Option.some.injEq] at hi
      exact hi ▸ hknown
    · intro f hf
      obtain ⟨j, hj, -⟩ := hw.linked f hf
      simp [hj]

theorem noteSpawned_refines {T t : Ticket} {spawned : List String} :
    Refines (kernelSteps K P) (fun w => Linked T w t) (K.noteSpawned t spawned)
      (fun _ w => Linked T w t) := by
  unfold Kernel.noteSpawned
  split
  · exact Refines.pure fun _ _ hw => hw
  · exact jot_refines (Or.inr rfl) (fun _ hw => hw.closing.isSome) fun w e hw _ => hw.jot ..

theorem writeSop_refines {T t : Ticket} :
    Refines (kernelSteps K P) (fun w => Linked T w t) (K.writeSop t)
      (fun r w => Linked T w r.1) := by
  unfold Kernel.writeSop
  refine Refines.bind (m := fun _ w => Linked T w t) (raisedBy_refines fun _ _ _ hw => hw)
    fun rendered => ?_
  dsimp only
  refine Refines.bind (m := fun _ w => Linked T w t)
    (Refines.write fun w _ hw => ⟨Move.file .., hw.file ..⟩) fun _ => ?_
  refine Refines.bind (m := fun _ w => Linked T w t)
    (Refines.write fun w _ hw => ⟨Move.file .., hw.file ..⟩) fun _ => ?_
  refine Refines.bind (m := fun _ w => Linked T w t)
    (Refines.write fun w _ hw => ⟨Move.file .., hw.file ..⟩) fun _ => ?_
  refine Refines.bind (m := fun _ w => Linked T w t)
    (jot_refines (Or.inr rfl) (fun _ hw => hw.closing.isSome) fun w e hw _ => hw.jot ..) fun _ => ?_
  apply Refines.pure
  intro w _ hw
  exact ⟨hw.closing.swap (fun hv => hv.congr rfl rfl rfl rfl rfl rfl) rfl rfl, hw.linked⟩

theorem finalState_eq (t : Ticket) :
    Kernel.finalState t = .needsReview ∨ Kernel.finalState t = .done := by
  unfold Kernel.finalState
  split
  · exact Or.inl rfl
  · exact Or.inr rfl

theorem analyseAndClose_refines {t : Ticket} :
    Refines (kernelSteps K P) (fun w => ∃ T, Closing T w t) (K.analyseAndClose t)
      (fun _ _ => True) := by
  apply Refines.of_exists
  intro T
  unfold Kernel.analyseAndClose
  refine Refines.bind collectLogs_refines fun logs => ?_
  dsimp only
  generalize ht₁ : { t with logs := some logs } = t₁
  have hlogs : ∀ w, Closing T w t → Closing T w t₁ := fun w hw => by
    subst ht₁
    exact hw.swap (fun hv => hv.congr rfl rfl rfl rfl rfl rfl) rfl rfl
  refine Refines.bind (m := fun _ w => Closing T w t₁) (jot_refines (Or.inr rfl)
    (fun _ hw => hw.isSome) fun w e hw _ => (hlogs w hw).jot ..) fun _ => ?_
  refine Refines.bind analyse_refines fun r => ?_
  obtain ⟨t₂, votes⟩ := r
  refine Refines.bind spawnBugTickets_refines fun r => ?_
  obtain ⟨spawned, t₃⟩ := r
  refine Refines.bind noteSpawned_refines fun _ => ?_
  refine Refines.bind writeSop_refines fun r => ?_
  obtain ⟨t₄, rendered⟩ := r
  -- the analysed ticket is saved, then its last change of state
  refine Refines.bind (m := fun _ w => Linked t₄ w t₄) (Refines.write fun w _ hw => ?_) fun _ => ?_
  · obtain ⟨⟨hstored, hT, ht, hversion⟩, hlinked⟩ := hw
    exact ⟨Move.save w T t₄ hstored (.close hT ht hversion),
      ⟨⟨World.tickets_saveTicket_self w t₄, ht, ht, .refl _ hversion.tidy⟩, hlinked⟩⟩
  · refine transition_refines (fun _ hw => hw.closing.isSome) (fun w e _ hw => hw.tick.jot ..) ?_
      fun _ _ _ _ => trivial
    intro w at_ hw _
    refine ⟨t₄, hw.closing.stored, .finish hw.closing.storedState (finalState_eq t₄) hw.linked ?_⟩
    exact hw.closing.version.moved _ _ _

/-! ## ACT and CLOSE -/

theorem Settled.jot {verify : Step → Observation → StepVerdict} {es : List JournalEntry}
    {t : Ticket} (h : Settled verify es t) {e : JournalEntry} (he : e.kind ≠ .observation) :
    Settled verify (es ++ [e]) t := by
  intro plan hplan s hs x hx hk
  rcases List.mem_append.mp hx with hx | hx
  · exact h plan hplan s hs x hx hk
  · exact absurd hk (List.mem_singleton.mp hx ▸ he)

theorem Ready.jot {w : World} {t : Ticket} (h : Ready K P w t) {e : JournalEntry}
    (he : e.kind ≠ .observation) : Ready K P (w.tick.appendEntry t.id e) t := by
  refine ⟨h.holds.jot _ e, fun hP => ?_⟩
  rw [World.journals_appendEntry_self]
  exact (h.settled hP).jot he

theorem Ready.tick {w : World} {t : Ticket} (h : Ready K P w t) : Ready K P w.tick t :=
  ⟨h.holds.tick, h.settled⟩

theorem startSteps_refines {t : Ticket} (hstate : t.state = .approved ∨ t.state = .running) :
    Refines (kernelSteps K P) (fun w => Ready K P w t) (K.startSteps t)
      (fun t' w => t'.state = .running ∧ Ready K P w t') := by
  unfold Kernel.startSteps
  split
  · rename_i happroved
    refine transition_refines (fun _ hw => hw.holds.isSome)
      (fun w e hk hw => hw.tick.jot (by simp [hk])) ?_ ?_
    · intro w at_ hw _
      obtain ⟨T, hT, hTstate, hv⟩ := hw.holds
      exact ⟨T, hT, .start (hTstate.trans happroved) rfl (hv.moved _ _ _)⟩
    · intro w at_ hw _
      exact ⟨rfl, .saved w (hw.holds.tidy.moved ..), hw.settled⟩
  · rename_i hnot
    exact Refines.pure fun _ _ hw => ⟨hstate.resolve_left hnot, hw⟩

theorem actAndClose_refines {t : Ticket} (hstate : t.state = .approved ∨ t.state = .running) :
    Refines (kernelSteps K P) (fun w => Ready K P w t) (K.actAndClose t) (fun _ _ => True) := by
  unfold Kernel.actAndClose
  refine Refines.bind (startSteps_refines hstate) fun t₁ => ?_
  refine Refines.assume (φ := t₁.state = .running) (fun _ _ hw => hw.1) fun hrunning => ?_
  refine Refines.bind ((act_refines hrunning).conseq (fun _ _ hw => hw.2) fun _ _ hr => hr)
    fun r => ?_
  obtain ⟨stopped, t₂⟩ := r
  dsimp only
  refine Refines.bind (m := fun t₃ w => ∃ T, Closing T w t₃) (transition_refines
    (fun _ hw => hw.holds.isSome)
    (fun w e _ hw => ⟨hw.holds.tick.jot t₂.id e, hw.running⟩) ?_ ?_) fun t₃ => analyseAndClose_refines
  · intro w at_ hw _
    obtain ⟨T, hT, hTstate, hv⟩ := hw.holds
    exact ⟨T, hT, .collect (hTstate.trans hw.running) rfl (hv.moved _ _ _)⟩
  · intro w at_ hw _
    exact ⟨_, World.tickets_saveTicket_self w _, rfl, rfl, .refl _ (hw.holds.tidy.moved ..)⟩

/-! ## INGEST → TICKET → PLAN -/

/-- A ticket fresh from INGEST. -/
structure Opened (w : World) (t : Ticket) : Prop where
  holds : Holds w t
  state : t.state = .open
  plan : t.plan = none
  parent : t.parent = none
  approvals : t.approvals = []
  silent : observed (w.journals t.id) = []

theorem createTicket_refines {job : Job} :
    Refines (kernelSteps K P) (fun _ => True) (K.createTicket job) (fun t w => Opened w t) := by
  unfold Kernel.createTicket
  refine Refines.bind (m := fun _ _ => True) (now_refines fun _ _ hw => hw) fun now => ?_
  refine Refines.bind (m := fun i w => Allocated w i)
    (nextTicketId_refines fun _ _ _ halloc => halloc) fun i => ?_
  dsimp only
  generalize ht : ({ id := i, agent := job.agent, user := job.user, title := job.title, job := job,
                     createdAt := now, updatedAt := now } : Ticket) = t
  refine Refines.bind (m := fun _ w => Opened w t) (Refines.write fun w _ halloc => ?_)
    fun _ => Refines.pure fun _ _ hw => hw
  subst ht
  refine ⟨Move.create w _ halloc.id halloc.unused halloc.journal rfl rfl rfl rfl rfl rfl, ?_⟩
  refine ⟨.saved w ⟨by simp, by simp⟩, rfl, rfl, rfl, rfl, ?_⟩
  have hempty : w.journals i = [] := halloc.journal
  simp [hempty, observed]

/-- The plan is attached in memory; on disk the ticket is still open. -/
structure Drafted (plan : Plan) (w : World) (t : Ticket) : Prop where
  stored : ∃ T, w.tickets t.id = some T ∧ T.state = .open ∧ T.plan = none ∧ T.parent = none ∧
    T.approvals = [] ∧ Version w { T with plan := some plan } t
  silent : observed (w.journals t.id) = []

theorem Drafted.jot {plan : Plan} {w : World} {t : Ticket} (h : Drafted plan w t)
    {e : JournalEntry} (he : e.kind ≠ .observation) :
    Drafted plan (w.tick.appendEntry t.id e) t := by
  obtain ⟨⟨T, hT, hstate, hplan, hparent, happ, hv⟩, hsilent⟩ := h
  have htick : Grows w w.tick := .of_eq rfl rfl rfl
  refine ⟨⟨T, hT, hstate, hplan, hparent, happ,
    hv.mono (htick.trans (grows_appendEntry w.tick t.id e))⟩, ?_⟩
  rw [World.journals_appendEntry_self, observed_append, observed_of_kind he]
  simpa using hsilent

theorem Drafted.isSome {plan : Plan} {w : World} {t : Ticket} (h : Drafted plan w t) :
    (w.tickets t.id).isSome := by
  obtain ⟨T, hT, -⟩ := h.stored
  simp [hT]

theorem Drafted.congr {plan : Plan} {w : World} {t t' : Ticket} (h : Drafted plan w t)
    (hid : t'.id = t.id) (hparent : t'.parent = t.parent) (hplan : t'.plan = t.plan)
    (happrovals : t'.approvals = t.approvals) (hsteps : t'.steps = t.steps)
    (hfindings : t'.findings = t.findings) : Drafted plan w t' := by
  obtain ⟨⟨T, hT, hstate, hTplan, hTparent, happ, hv⟩, hsilent⟩ := h
  exact ⟨⟨T, hid ▸ hT, hstate, hTplan, hTparent, happ,
    hv.congr hid hparent hplan happrovals hsteps hfindings⟩, hid ▸ hsilent⟩

theorem attachPlan_refines {t : Ticket} {plan : Plan} :
    Refines (kernelSteps K P) (fun w => Opened w t) (Kernel.attachPlan t plan)
      (fun t' w => Drafted plan w t') := by
  unfold Kernel.attachPlan
  split
  · exact Refines.raise
  · apply Refines.pure
    intro w _ hw
    obtain ⟨T, hT, hstate, hv⟩ := hw.holds
    refine ⟨⟨T, hT, hstate.trans hw.state, hv.plan.symm.trans hw.plan,
      hv.parent.symm.trans hw.parent, hv.approvals.symm.trans hw.approvals, ?_⟩, hw.silent⟩
    refine ⟨hv.id, hv.parent, rfl, hv.approvals, ⟨fun r hr => ?_, hv.tidy.distinct⟩, hv.sourced⟩
    obtain ⟨s, -, rfl⟩ := List.mem_map.mp hr
    simp [Kernel.freshRecord]

theorem checkPlan_refines {t : Ticket} {plan : Plan} :
    Refines (kernelSteps K P) (fun w => Drafted plan w t) (K.checkPlan t plan)
      (fun t' w => Drafted plan w t') := by
  unfold Kernel.checkPlan
  split
  · exact Refines.pure fun _ _ hw => hw
  · split
    · refine Refines.bind (m := fun _ w => Drafted plan w t)
        (raisedBy_refines fun _ _ _ hw => hw) fun verdict => ?_
      refine Refines.bind (m := fun _ w => Drafted plan w t) (jot_refines (Or.inr rfl)
        (fun _ hw => hw.isSome) fun w e hw hk => hw.jot (by simp [hk])) fun _ => ?_
      exact Refines.pure fun _ _ hw => hw.congr rfl rfl rfl rfl rfl rfl
    · exact Refines.pure fun _ _ hw => hw

/-- The plan is on disk and no approval was requested yet. -/
structure Planned (plan : Plan) (w : World) (t : Ticket) : Prop where
  holds : Holds w t
  state : t.state = .planned
  plan : t.plan = some plan
  approvals : t.approvals = []
  silent : observed (w.journals t.id) = []

theorem Planned.jot {plan : Plan} {w : World} {t : Ticket} (h : Planned plan w t)
    {e : JournalEntry} (he : e.kind ≠ .observation) :
    Planned plan (w.tick.appendEntry t.id e) t := by
  refine ⟨h.holds.jot _ e, h.state, h.plan, h.approvals, ?_⟩
  rw [World.journals_appendEntry_self, observed_append, observed_of_kind he]
  simpa using h.silent

theorem Planned.tick {plan : Plan} {w : World} {t : Ticket} (h : Planned plan w t) :
    Planned plan w.tick t := ⟨h.holds.tick, h.state, h.plan, h.approvals, h.silent⟩

/-- Without observations there is nothing to settle. -/
theorem settled_of_silent {verify : Step → Observation → StepVerdict} {es : List JournalEntry}
    {t : Ticket} (h : observed es = []) : Settled verify es t := by
  intro plan _ s _ e he hk hs
  have hmem : s.id ∈ observed es := mem_observed.mpr ⟨e, he, hk, hs⟩
  rw [h] at hmem
  cases hmem

theorem ask_refines {t : Ticket} {plan : Plan} {now : DateTime} {payload : List (String × Json)} :
    Refines (kernelSteps K P) (fun w => Planned plan w t)
      (do
        journal.append K t.id .note payload none
        store.save { t with approvals := Kernel.requests plan now }
        pure { t with approvals := Kernel.requests plan now })
      (fun _ _ => True) := by
  refine Refines.bind (m := fun _ w => Planned plan w t) (jot_refines (Or.inr rfl)
    (fun _ hw => hw.holds.isSome) fun w e hw hk => hw.jot (by simp [hk])) fun _ => ?_
  refine Refines.bind (m := fun _ _ => True) (Refines.write fun w _ hw => ⟨?_, trivial⟩)
    fun _ => Refines.pure fun _ _ _ => trivial
  obtain ⟨T, hT, hstate, hv⟩ := hw.holds
  refine Move.save w T _ hT (.ask plan now (hstate.trans hw.state) hw.state
    (hv.plan.symm.trans hw.plan) ?_)
  exact ⟨hv.id, hv.parent, hv.plan, rfl, ⟨hv.tidy.unskipped, hv.tidy.distinct⟩, hv.sourced⟩

theorem runPlan_refines {t : Ticket} {plan : Plan} :
    Refines (kernelSteps K P) (fun w => Opened w t) (K.runPlan t plan) (fun _ _ => True) := by
  unfold Kernel.runPlan
  refine Refines.bind attachPlan_refines fun t₁ => ?_
  refine Refines.bind checkPlan_refines fun t₂ => ?_
  refine Refines.bind (m := fun t₃ w => Planned plan w t₃) (transition_refines
    (fun _ hw => hw.isSome) (fun w e hk hw => ?_) ?_ ?_) fun t₃ => ?_
  · have htick : Drafted plan w.tick t₂ := by
      obtain ⟨⟨T, hT, hstate, hplan, hparent, happ, hv⟩, hsilent⟩ := hw
      exact ⟨⟨T, hT, hstate, hplan, hparent, happ, hv.mono (.of_eq rfl rfl rfl)⟩, hsilent⟩
    exact htick.jot (by simp [hk])
  · intro w at_ hw _
    obtain ⟨T, hT, hstate, hplan, hparent, happ, hv⟩ := hw.stored
    exact ⟨T, hT, .plan plan hstate rfl hplan hparent happ (hv.moved ..)⟩
  · intro w at_ hw _
    obtain ⟨T, hT, -, -, -, happ, hv⟩ := hw.stored
    exact ⟨.saved w (hv.tidy.moved ..), rfl, hv.plan, hv.approvals.trans happ, hw.silent⟩
  · split
    · refine Refines.bind (m := fun _ w => Planned plan w t₃)
        (now_refines fun w _ hw => hw.tick) fun now => ?_
      exact ask_refines
    · rename_i hsafe
      refine Refines.bind (m := fun t₄ w => t₄.state = .approved ∧ Ready K P w t₄)
        (transition_refines (fun _ hw => hw.holds.isSome)
          (fun w e hk hw => hw.tick.jot (by simp [hk])) ?_ ?_) fun t₄ => ?_
      · intro w at_ hw _
        obtain ⟨T, hT, hstate, hv⟩ := hw.holds
        have happ : T.approvals = [] := hv.approvals.symm.trans hw.approvals
        refine ⟨T, hT, .proceed (hstate.trans hw.state) rfl (by simp [Ticket.pendingApprovals, happ])
          (fun _ plan' hplan' hdes => ?_) (hv.moved ..)⟩
        rw [← hv.plan, hw.plan, Option.some.injEq] at hplan'
        exact absurd (hplan' ▸ hdes) hsafe
      · intro w at_ hw _
        exact ⟨rfl, .saved w (hw.holds.tidy.moved ..), fun _ => settled_of_silent hw.silent⟩
      · exact Refines.assume (fun _ _ hw => hw.1) fun hstate =>
          (actAndClose_refines (Or.inl hstate)).conseq (fun _ _ hw => hw.2) fun _ _ hr => hr

theorem Opened.jot {w : World} {t : Ticket} (h : Opened w t) {e : JournalEntry}
    (he : e.kind ≠ .observation) : Opened (w.tick.appendEntry t.id e) t := by
  refine ⟨h.holds.jot _ e, h.state, h.plan, h.parent, h.approvals, ?_⟩
  rw [World.journals_appendEntry_self, observed_append, observed_of_kind he]
  simpa using h.silent

theorem Opened.tick {w : World} {t : Ticket} (h : Opened w t) : Opened w.tick t :=
  ⟨h.holds.tick, h.state, h.plan, h.parent, h.approvals, h.silent⟩

theorem run_refines {raw : Raw} :
    Refines (kernelSteps K P) (fun _ => True) (K.run raw) (fun _ _ => True) := by
  unfold Kernel.run
  refine Refines.bind (m := fun _ _ => True) (raisedBy_refines fun _ _ _ hw => hw) fun job => ?_
  refine Refines.bind createTicket_refines fun t => ?_
  refine Refines.bind (m := fun _ w => Opened w t) (jot_refines (Or.inl rfl)
    (fun _ hw => hw.holds.isSome) fun w e hw hk => hw.jot (by simp [hk])) fun _ => ?_
  refine Refines.bind (m := fun _ w => Opened w t) (raisedBy_refines fun _ _ _ hw => hw)
    fun plan => ?_
  split
  · exact runPlan_refines
  · split
    · exact runPlan_refines
    · -- the skill gate refused: nothing has run
      refine Refines.bind (m := fun _ w => Opened w t) (jot_refines (Or.inr rfl)
        (fun _ hw => hw.holds.isSome) fun w e hw hk => hw.jot (by simp [hk])) fun _ => ?_
      refine transition_refines (fun _ hw => hw.holds.isSome)
        (fun w e hk hw => hw.tick.jot (by simp [hk])) ?_ fun _ _ _ _ => trivial
      intro w at_ hw _
      obtain ⟨T, hT, hstate, hv⟩ := hw.holds
      exact ⟨T, hT, .refuse (hstate.trans hw.state) rfl (hv.parent.symm.trans hw.parent)
        (hv.moved ..)⟩

/-! ## The calls -/

theorem approve_refines {i s by' note : String} :
    Refines (kernelSteps K P) (fun _ => True) (K.approve i s by' note) (fun _ _ => True) := by
  unfold Kernel.approve
  refine Refines.bind (m := fun t w => w.tickets t.id = some t) (load_refines fun w t hw _ ht => ?_)
    fun t => ?_
  · rw [(Holds.loaded hw ht).1]
    exact ht
  · split
    · refine Refines.bind (m := fun _ w => w.tickets t.id = some t)
        (now_refines fun _ _ hw => hw) fun at_ => ?_
      split
      · exact Refines.raise
      · rename_i approvals hdecide
        dsimp only
        refine Refines.bind (m := fun _ w => w.tickets t.id = some t) (jot_refines (Or.inr rfl)
          (fun _ hw => by simp [hw]) fun w e hw hk => hw) fun _ => ?_
        refine Refines.bind (m := fun _ _ => True) (Refines.write fun w _ hw => ⟨?_, trivial⟩)
          fun _ => Refines.pure fun _ _ _ => trivial
        refine Move.save w t _ hw (.approve s _ approvals ?_ hdecide rfl)
        exact fun _ => ⟨rfl, rfl⟩
    · exact Refines.raise

theorem resume_refines {i : String} :
    Refines (kernelSteps K P) (P.Kept ⟨K, .resume i⟩) (K.resume i) (fun _ _ => True) := by
  unfold Kernel.resume
  refine Refines.bind (m := fun t w => w.tickets t.id = some t ∧ Holds w t ∧
    (P.asked → t.state = .planned → Asked t) ∧
    (P.settled → ToAct t → Settled K.agent.verify (w.journals t.id) t))
    (load_refines fun w t hw hkept ht => ?_) fun t => ?_
  · obtain ⟨hid, hholds⟩ := Holds.loaded hw ht
    have hpromise := hkept i rfl t ht
    rw [hid]
    exact ⟨ht, hholds, hpromise⟩
  · split
    · exact Refines.pure fun _ _ _ => trivial
    · split
      · rename_i hplanned
        split
        · exact Refines.raise
        · rename_i hpending
          rw [not_not] at hpending
          refine Refines.bind (m := fun t' w => t'.state = .approved ∧ Ready K P w t')
            (transition_refines (R := fun w => (w.tickets t.id = some t ∧ Holds w t) ∧
              (P.asked → Asked t) ∧ (P.settled → Settled K.agent.verify (w.journals t.id) t))
              ?_ ?_ ?_ ?_ |>.conseq ?_ fun _ _ hr => hr) fun t' => ?_
          · exact fun _ hw => hw.1.2.isSome
          · rintro w e hk ⟨⟨ht, hholds⟩, hasked, hsettled⟩
            refine ⟨⟨ht, hholds.tick.jot _ e⟩, hasked, fun hP => ?_⟩
            rw [World.journals_appendEntry_self]
            exact (hsettled hP).jot (by simp [hk])
          · rintro w at_ ⟨⟨ht, hholds⟩, hasked, -⟩ -
            exact ⟨t, ht, .proceed hplanned rfl hpending hasked ((Version.refl w hholds.tidy).moved ..)⟩
          · rintro w at_ ⟨⟨-, hholds⟩, -, hsettled⟩ -
            exact ⟨rfl, .saved w (hholds.tidy.moved ..), hsettled⟩
          · rintro w - ⟨ht, hholds, hasked, hsettled⟩
            exact ⟨⟨ht, hholds⟩, fun hP => hasked hP hplanned, fun hP => hsettled hP (Or.inl hplanned)⟩
          · exact Refines.assume (fun _ _ hw => hw.1) fun hstate =>
              (actAndClose_refines (Or.inl hstate)).conseq (fun _ _ hw => hw.2) fun _ _ hr => hr
      · split
        · rename_i hstate
          refine (actAndClose_refines hstate).conseq (fun w _ hw => ?_) fun _ _ hr => hr
          exact ⟨hw.2.1, fun hP => hw.2.2.2 hP (Or.inr hstate)⟩
        · split
          · rename_i hanalysing
            refine analyseAndClose_refines.conseq (fun w _ hw => ?_) fun _ _ hr => hr
            exact ⟨t, hw.1, hanalysing, hanalysing, .refl w hw.2.1.tidy⟩
          · exact Refines.pure fun _ _ _ => trivial

/-- **Refinement**: whatever a call does before it returns, raises or dies, it
    does in moves, with at most an orphan at the end. -/
theorem call_leaves (c : KernelCall) (P : Promise) {w : World} (hw : Sound w) (hkept : P.Kept c w)
    (n : Nat) : (kernelSteps c.kernel P).Leaves w (after KernelCall.prog w (c, n)) := by
  obtain ⟨K, op⟩ := c
  cases op with
  | run raw => exact run_refines.leaves hw trivial n
  | approve i s by' note => exact approve_refines.leaves hw trivial n
  | resume i => exact resume_refines.leaves hw hkept n

/-- A call that returns does all of it in moves. -/
theorem call_reaches (c : KernelCall) (P : Promise) {w : World} (hw : Sound w)
    (hkept : P.Kept c w) {n : Nat} (hret : (c.prog w n).value?.isSome) :
    Relation.ReflTransGen (Move c.kernel P) w (after KernelCall.prog w (c, n)) := by
  obtain ⟨K, op⟩ := c
  cases op with
  | run raw => exact run_refines.reaches hw trivial hret
  | approve i s by' note => exact approve_refines.reaches hw trivial hret
  | resume i => exact resume_refines.reaches hw hkept hret

/-- The run rule of the kernel: what moves and orphans keep holds after every
    session whose calls keep the promise. -/
theorem session_keeps (P : Promise) {D : KernelCall → Prop} {I : World → Prop} (hinit : I {})
    (hmove : ∀ c, D c → ∀ w w', Sound w → Move c.kernel P w w' → I w → I w')
    (horphan : ∀ w w', Sound w → Orphan w w' → I w → I w') {cs : List (KernelCall × Nat)}
    (hstart : Starts KernelCall.prog P.Kept {} cs) (hD : ∀ c ∈ cs, D c.1) :
    I (session KernelCall.prog {} cs) := by
  have hboth : Starts KernelCall.prog (fun c w => P.Kept c w ∧ D c) {} cs := by
    refine hstart.mono fun c hc w hkept => ⟨hkept, hD c hc⟩
  have hend := session_invariant (I := fun w => Sound w ∧ I w) ?_ hboth ⟨.init, hinit⟩
  · exact hend.2
  · rintro ⟨c, n⟩ w ⟨hkept, hc⟩ ⟨hsound, hI⟩
    refine (call_leaves c P hsound hkept n).invariant (I := fun w => Sound w ∧ I w) ?_
      (fun _ h => h) ?_ ⟨hsound, hI⟩
    · rintro w w' hm ⟨hs, hi⟩
      exact ⟨Move.sound hm hs, hmove c hc w w' hs hm hi⟩
    · rintro w w' ht ⟨hs, hi⟩
      exact ⟨Orphan.sound ht hs, horphan w w' hs ht hi⟩

/-- Every session leaves a sound world. -/
theorem session_sound (cs : List (KernelCall × Nat)) : Sound (session KernelCall.prog {} cs) := by
  have hkept : Starts KernelCall.prog (Promise.Kept ⟨False, False⟩) {} cs :=
    (Starts.trivial _ cs).mono fun _ _ _ _ _ _ _ _ => ⟨False.elim, False.elim⟩
  exact session_keeps ⟨False, False⟩ (D := fun _ => True) (I := Sound) .init
    (fun _ _ _ _ hw hm _ => hm.sound hw) (fun _ _ hw ht _ => ht.sound hw) hkept
    (fun _ _ => trivial)

end Slas
