/-
  Slas.Kernel.Refine

  The programs of the kernel take no steps but the moves of
  `Slas.Kernel.Moves`, whatever the crash point.

  Between two saves the kernel holds a version of the stored ticket (`Holds`);
  inside ACT it also knows which steps of the plan are observed (`Progress`).
  Each method gets one specification over these, and the last theorem
  assembles them: a call of the kernel leaves what its moves leave.
-/

import Slas.Kernel.Moves

namespace Slas

open Crash

variable {K : Kernel} {P : Promise}

/-! ## Store, clock and journal -/

theorem now_refines {R : World → Prop} {Q : DateTime → World → Prop}
    (h : ∀ w t, R w → Q t w.tick) : Refines (kernelSteps K P) R K.now Q :=
  Refines.quiet fun w _ hw => ⟨Move.tick w, h w _ hw⟩

theorem mapError_ok {α ε ε' : Type} {f : ε → ε'} {x : Except ε α} {a : α}
    (h : x.mapError f = .ok a) : x = .ok a := by
  cases x with
  | ok b => simpa [Except.mapError] using h
  | error e => simp [Except.mapError] at h

theorem raisedBy_refines {α : Type} {x : Except String α} {R : World → Prop}
    {Q : α → World → Prop} (h : ∀ a w, x = .ok a → R w → Q a w) :
    Refines (kernelSteps K P) R (raisedBy x) Q := by
  apply Refines.ofExcept
  intro a ha w _ hw
  exact h a w (mapError_ok ha) hw

theorem load_refines {R : World → Prop} {Q : Ticket → World → Prop} {i : String}
    (h : ∀ w t, Sound w → R w → w.tickets i = some t → Q t w) :
    Refines (kernelSteps K P) R (store.load i) Q := by
  refine Refines.bind (m := fun o w => Sound w ∧ R w ∧ o = w.tickets i)
    (Refines.look fun w hinv hw => ⟨hinv, hw, rfl⟩) ?_
  intro o
  cases o with
  | none => exact Refines.raise
  | some t => exact Refines.pure fun w _ hw => h w t hw.1 hw.2.1 hw.2.2.symm

theorem entries_refines {R : World → Prop} {Q : List JournalEntry → World → Prop} {i : String}
    (h : ∀ w, R w → Q (w.journals i) w) :
    Refines (kernelSteps K P) R (journal.entries i) Q := by
  refine Refines.bind (m := fun es w => Q es w) (Refines.look fun w _ hw => h w hw) ?_
  intro es
  split
  · exact Refines.pure fun _ _ hw => hw
  · exact Refines.raise

/-- `append` reads the journal and the clock, then writes one entry. -/
theorem append_refines {R Q : World → Prop} {i : String} {kind : JournalKind}
    {payload : List (String × Json)} {stepId : Option String}
    (h : ∀ w e, Sound w → R w → e.kind = kind → e.stepId = stepId → e.payload = payload →
      Move K P w.tick (w.tick.appendEntry i e) ∧ Q (w.tick.appendEntry i e)) :
    Refines (kernelSteps K P) R (journal.append K i kind payload stepId) (fun _ => Q) := by
  refine Refines.bind (entries_refines (Q := fun _ => R) fun _ hw => hw) fun es => ?_
  refine Refines.bind (m := fun _ w' => ∃ w, Sound w ∧ R w ∧ w' = w.tick)
    (Refines.quiet fun w hinv hw => ⟨Move.tick w, w, hinv, hw, rfl⟩) fun at_ => ?_
  apply Refines.write
  rintro w' - ⟨w, hinv, hw, rfl⟩
  exact h w _ hinv hw rfl rfl rfl

/-- The case of a note or a change of state. -/
theorem jot_refines {R Q : World → Prop} {i : String} {kind : JournalKind}
    {payload : List (String × Json)} {stepId : Option String}
    (hk : kind = .state ∨ kind = .note) (hi : ∀ w, R w → (w.tickets i).isSome)
    (h : ∀ w e, R w → e.kind = kind → Q (w.tick.appendEntry i e)) :
    Refines (kernelSteps K P) R (journal.append K i kind payload stepId) (fun _ => Q) := by
  apply append_refines
  intro w e _ hw hkind _ _
  exact ⟨Move.jot _ i e (hi w hw) (hkind ▸ hk), h w e hw hkind⟩

/-- An allocated id is under the sequence and not in use. -/
structure Allocated (w : World) (i : String) : Prop where
  id : ∃ a, i = makeTicketId a (w.sequence a)
  unused : w.tickets i = none
  journal : w.journals i = []

theorem nextTicketId_refines {a : AgentName} {R : World → Prop} {Q : String → World → Prop}
    (h : ∀ w i, R w → Allocated (w.bumpSequence a) i → Q i (w.bumpSequence a)) :
    Refines (kernelSteps K P) R (store.nextTicketId a) Q := by
  refine Refines.bind (m := fun n w => R w ∧ n = w.sequence a + 1)
    (Refines.look fun w _ hw => ⟨hw, rfl⟩) fun n => ?_
  refine Refines.bind (m := fun _ w' => Q (makeTicketId a n) w') ?_
    (fun _ => Refines.pure fun _ _ hw => hw)
  apply Refines.write
  rintro w hinv ⟨hw, rfl⟩
  refine ⟨Move.allocate w a, h w _ hw ?_⟩
  obtain ⟨hnone, hempty⟩ := (show Sound w from hinv).fresh a (w.sequence a + 1) (Nat.lt_succ_self _)
  exact ⟨⟨a, by simp [World.sequence_bumpSequence]⟩, hnone, hempty⟩

/-! ## The ticket in memory -/

/-- All that is on disk stays there: tickets, tracked bugs, entries. -/
structure Grows (w w' : World) : Prop where
  tickets : ∀ i, (w.tickets i).isSome → (w'.tickets i).isSome
  bugs : ∀ e ∈ w.bugIndex, ∃ e' ∈ w'.bugIndex, e'.ticketId = e.ticketId
  journals : ∀ i, w.journals i ⊆ w'.journals i

theorem Grows.refl (w : World) : Grows w w :=
  ⟨fun _ h => h, fun e he => ⟨e, he, rfl⟩, fun _ _ h => h⟩

theorem Grows.trans {w₁ w₂ w₃ : World} (h : Grows w₁ w₂) (h' : Grows w₂ w₃) : Grows w₁ w₃ where
  tickets i hi := h'.tickets i (h.tickets i hi)
  bugs e he := by
    obtain ⟨e', he', heq⟩ := h.bugs e he
    obtain ⟨e'', he'', heq'⟩ := h'.bugs e' he'
    exact ⟨e'', he'', heq'.trans heq⟩
  journals i := List.Subset.trans (h.journals i) (h'.journals i)

/-- A world with the same tickets, bugs and journals. -/
theorem Grows.of_eq {w w' : World} (ht : w'.tickets = w.tickets) (hb : w'.bugIndex = w.bugIndex)
    (hj : w'.journals = w.journals) : Grows w w' :=
  ⟨fun i h => by rwa [ht], fun e he => ⟨e, hb ▸ he, rfl⟩, fun i _ h => by rwa [hj]⟩

theorem grows_appendEntry (w : World) (i : String) (e : JournalEntry) :
    Grows w (w.appendEntry i e) where
  tickets _ h := h
  bugs e he := ⟨e, he, rfl⟩
  journals j x hx := by
    rw [World.journals_appendEntry]
    split
    · rename_i hj
      exact List.mem_append_left _ (hj ▸ hx)
    · exact hx

theorem grows_saveTicket (w : World) (t : Ticket) : Grows w (w.saveTicket t) where
  tickets i hi := by
    rw [World.tickets_saveTicket]
    split
    · rfl
    · exact hi
  bugs e he := ⟨e, he, rfl⟩
  journals _ _ hx := hx

theorem grows_recordBug (w : World) (d : Fingerprint) (i j : String) :
    Grows w (w.recordBug d i j) where
  tickets _ h := h
  bugs e he := by
    rw [World.bugIndex_recordBug]
    generalize w.bugIndex = index at he
    induction index with
    | nil => cases he
    | cons x xs ih =>
      rw [BugIndex.record]
      split
      · rcases List.mem_cons.mp he with rfl | hmem
        · exact ⟨_, List.mem_cons_self .., rfl⟩
        · exact ⟨e, List.mem_cons_of_mem _ hmem, rfl⟩
      · rcases List.mem_cons.mp he with rfl | hmem
        · exact ⟨e, List.mem_cons_self .., rfl⟩
        · obtain ⟨e', he', heq⟩ := ih hmem
          exact ⟨e', List.mem_cons_of_mem _ he', heq⟩
  journals _ _ hx := hx

theorem Move.grows {w w' : World} (h : Move K P w w') : Grows w w' := by
  cases h with
  | tick => exact .of_eq rfl rfl rfl
  | file => exact .of_eq rfl rfl rfl
  | allocate => exact .of_eq rfl rfl rfl
  | create => exact grows_saveTicket w _
  | jot => exact grows_appendEntry w _ _
  | intent => exact grows_appendEntry w _ _
  | execute => exact .of_eq rfl rfl rfl
  | observe => exact grows_appendEntry w _ _
  | save => exact grows_saveTicket w _
  | seen => exact grows_recordBug w _ _ _
  | track => exact (grows_saveTicket w _).trans (grows_recordBug _ _ _ _)

theorem Known.mono {w w' : World} {T : Ticket} {i : String} (h : Known w T i) (hg : Grows w w') :
    Known w' T i := by
  rcases h with h | h | ⟨e, he, rfl⟩ | ⟨e, he, hrest⟩
  · exact Or.inl h
  · exact Or.inr (Or.inl (hg.tickets i h))
  · obtain ⟨e', he', heq⟩ := hg.bugs e he
    exact Or.inr (Or.inr (Or.inl ⟨e', he', heq⟩))
  · exact Or.inr (Or.inr (Or.inr ⟨e, hg.journals _ he, hrest⟩))

theorem Version.mono {w w' : World} {T t : Ticket} (h : Version w T t) (hg : Grows w w') :
    Version w' T t :=
  { h with sourced := fun f hf i hi => (h.sourced f hf i hi).mono hg }

theorem Version.refl (w : World) {t : Ticket} (ht : Tidy t) : Version w t t :=
  ⟨rfl, rfl, rfl, rfl, ht, fun f hf _ hi => Or.inl ⟨f, hf, hi⟩⟩

/-- The kernel holds `t`, a version of the stored ticket in the same state. -/
def Holds (w : World) (t : Ticket) : Prop :=
  ∃ T, w.tickets t.id = some T ∧ T.state = t.state ∧ Version w T t

theorem Holds.mono {w w' : World} {t : Ticket} (h : Holds w t) (hg : Grows w w')
    (hsame : w'.tickets t.id = w.tickets t.id) : Holds w' t := by
  obtain ⟨T, hT, hstate, hv⟩ := h
  exact ⟨T, hsame.trans hT, hstate, hv.mono hg⟩

theorem Holds.isSome {w : World} {t : Ticket} (h : Holds w t) : (w.tickets t.id).isSome := by
  obtain ⟨T, hT, _⟩ := h
  simp [hT]

theorem Holds.tidy {w : World} {t : Ticket} (h : Holds w t) : Tidy t := by
  obtain ⟨T, _, _, hv⟩ := h
  exact hv.tidy

/-- What was just saved is what is held. -/
theorem Holds.saved (w : World) {t : Ticket} (ht : Tidy t) : Holds (w.saveTicket t) t :=
  ⟨t, World.tickets_saveTicket_self w t, rfl, .refl _ ht⟩

theorem Holds.jot {w : World} {t : Ticket} (h : Holds w t) (i : String) (e : JournalEntry) :
    Holds (w.tick.appendEntry i e) t := by
  have htick : Grows w w.tick := .of_eq rfl rfl rfl
  exact h.mono (htick.trans (grows_appendEntry w.tick i e)) rfl

/-- A loaded ticket is held. -/
theorem Holds.loaded {w : World} (hw : Sound w) {i : String} {t : Ticket}
    (h : w.tickets i = some t) : t.id = i ∧ Holds w t := by
  have hid := hw.keyed i t h
  exact ⟨hid, t, hid ▸ h, rfl, .refl w (hw.tidy i t h)⟩

theorem Holds.tick {w : World} {t : Ticket} (h : Holds w t) : Holds w.tick t :=
  h.mono (.of_eq rfl rfl rfl) rfl

/-- The held ticket may be replaced by another version of the stored one. -/
theorem Holds.swap {w : World} {t t' : Ticket} (h : Holds w t)
    (hv : ∀ T, Version w T t → Version w T t') (hid : t'.id = t.id)
    (hstate : t'.state = t.state) : Holds w t' := by
  obtain ⟨T, hT, hTstate, hversion⟩ := h
  exact ⟨T, hid ▸ hT, hstate ▸ hTstate, hv T hversion⟩

/-- A change of state, and of what no `Version` speaks of. -/
theorem Version.moved {w : World} {T t : Ticket} (h : Version w T t) (target : TicketState)
    (at_ : DateTime) (reason : String) : Version w T (t.moved target at_ reason) :=
  ⟨h.id, h.parent, h.plan, h.approvals, ⟨h.tidy.unskipped, h.tidy.distinct⟩, h.sourced⟩

/-- `_transition`, given that the moved ticket may be saved over the stored. -/
theorem transition_refines {t : Ticket} {target : TicketState} {reason : String}
    {R : World → Prop} {Q : Ticket → World → Prop} (hi : ∀ w, R w → (w.tickets t.id).isSome)
    (hR : ∀ w e, e.kind = .state → R w → R (w.tick.tick.appendEntry t.id e))
    (hsave : ∀ w at_, R w → t.state.canTransition target = true →
      ∃ T, w.tickets t.id = some T ∧ Saves P w T (t.moved target at_ reason))
    (hQ : ∀ w at_, R w → t.state.canTransition target = true →
      Q (t.moved target at_ reason) (w.saveTicket (t.moved target at_ reason))) :
    Refines (kernelSteps K P) R (K.transition t target reason) Q := by
  refine Refines.bind (m := fun _ w' => ∃ w, R w ∧ w' = w.tick)
    (now_refines fun w _ hw => ⟨w, hw, rfl⟩) fun at_ => ?_
  unfold Ticket.transition
  split
  · exact Refines.raise
  · rename_i t' ht'
    split at ht'
    · rename_i hcan
      obtain rfl := Option.some.inj ht'
      refine Refines.bind (jot_refines (Q := R) (Or.inl rfl) ?_ ?_) fun _ => ?_
      · rintro w' ⟨w, hw, rfl⟩
        exact hi w hw
      · rintro w' e ⟨w, hw, rfl⟩ hk
        exact hR w e hk hw
      · refine Refines.bind (m := fun _ w' => Q (t.moved target at_ reason) w') ?_
          fun _ => Refines.pure fun _ _ hw => hw
        apply Refines.write
        intro w _ hw
        obtain ⟨T, hT, hs⟩ := hsave w at_ hw hcan
        exact ⟨Move.save w T _ hT hs, hQ w at_ hw hcan⟩
    · cases ht'

/-! ## ACT -/

/-- Where ACT stands: `before` is observed, `rest` is still to be looked at,
    and `completed` is what the journal said when ACT began. -/
structure Progress (K : Kernel) (P : Promise) (es : List JournalEntry) (t : Ticket)
    (completed : String → Option JournalEntry) (before rest : List Step) : Prop where
  done : ∀ s ∈ before, s.id ∈ observed es
  pending : ∀ s ∈ rest, completed s.id = none → s.id ∉ observed es
  found : ∀ s ∈ rest, ∀ e, completed s.id = some e →
    e ∈ es ∧ e.kind = .observation ∧ e.stepId = some s.id
  clear : P.settled → AllOk K.agent.verify es before
  settled : P.settled → ∀ s ∈ rest, ∀ e ∈ es, e.kind = .observation → e.stepId = some s.id →
    ∀ o, Observation.modelValidate e.payload = some o → (K.agent.verify s o).outcome ≠ .ok →
    ∃ r, t.stepRecord s.id = some r ∧ r.status = .failed

namespace Progress

variable {es : List JournalEntry} {t t' : Ticket} {completed : String → Option JournalEntry}
  {before rest : List Step} {step : Step}

theorem start {plan : Plan} (hsettled : P.settled → Settled K.agent.verify es t)
    (hplan : t.plan = some plan) : Progress K P es t (completedSteps es) [] plan.steps where
  done _ hs := nomatch hs
  pending s _ := (completedSteps_spec es s.id).2
  found s _ := (completedSteps_spec es s.id).1
  clear _ _ hs := nomatch hs
  settled h s hs := hsettled h plan hplan s hs

/-- Only the records of the observed steps to come matter. -/
theorem congr (h : Progress K P es t completed before rest)
    (hrec : ∀ s ∈ rest, s.id ∈ observed es → t'.stepRecord s.id = t.stepRecord s.id) :
    Progress K P es t' completed before rest := by
  refine ⟨h.done, h.pending, h.found, h.clear, fun hP s hs e he hk hstep o ho hbad => ?_⟩
  rw [hrec s hs (mem_observed.mpr ⟨e, he, hk, hstep⟩)]
  exact h.settled hP s hs e he hk hstep o ho hbad

/-- An entry that is no observation changes nothing. -/
theorem jot (h : Progress K P es t completed before rest) {e : JournalEntry}
    (he : e.kind ≠ .observation) : Progress K P (es ++ [e]) t completed before rest where
  done s hs := by simpa [observed_of_kind he] using h.done s hs
  pending s hs hnone := by simpa [observed_of_kind he] using h.pending s hs hnone
  found s hs x hx := by
    obtain ⟨hmem, hrest⟩ := h.found s hs x hx
    exact ⟨List.mem_append_left _ hmem, hrest⟩
  clear hP s hs x hx hk := by
    rcases List.mem_append.mp hx with hx | hx
    · exact h.clear hP s hs x hx hk
    · exact absurd hk (List.mem_singleton.mp hx ▸ he)
  settled hP s hs x hx hk := by
    rcases List.mem_append.mp hx with hx | hx
    · exact h.settled hP s hs x hx hk
    · exact absurd hk (List.mem_singleton.mp hx ▸ he)

/-- A step whose record is not failed and whose observation is journalled is
    passed over. -/
theorem pass (h : Progress K P es t completed before (step :: rest)) {record : StepRecord}
    {entry : JournalEntry} (hrecord : t.stepRecord step.id = some record)
    (hfailed : record.status ≠ .failed) (hentry : completed step.id = some entry) :
    Progress K P es t completed (before ++ [step]) rest where
  done s hs := by
    rcases List.mem_append.mp hs with hs | hs
    · exact h.done s hs
    · obtain rfl := List.mem_singleton.mp hs
      exact mem_observed.mpr ⟨entry, h.found s (List.mem_cons_self ..) entry hentry⟩
  pending s hs := h.pending s (List.mem_cons_of_mem _ hs)
  found s hs := h.found s (List.mem_cons_of_mem _ hs)
  clear hP s hs e he hk hstep o ho := by
    rcases List.mem_append.mp hs with hs | hs
    · exact h.clear hP s hs e he hk hstep o ho
    · obtain rfl := List.mem_singleton.mp hs
      -- were it judged otherwise, its record would be the failed one
      by_contra hbad
      obtain ⟨r, hr, hrfailed⟩ :=
        h.settled hP s (List.mem_cons_self ..) e he hk hstep o ho hbad
      rw [hrecord, Option.some.injEq] at hr
      exact hfailed (hr ▸ hrfailed)
  settled hP s hs := h.settled hP s (List.mem_cons_of_mem _ hs)

/-- The observation of the step whose turn it is. -/
theorem observe (h : Progress K P es t completed before (step :: rest))
    (hids : ((before ++ step :: rest).map (·.id)).Nodup) (hfresh : step.id ∉ observed es)
    {e : JournalEntry} {o : Observation} (hk : e.kind = .observation)
    (hs : e.stepId = some step.id) (hpayload : e.payload = o.modelDump)
    (hok : (K.agent.verify step o).outcome = .ok) :
    Progress K P (es ++ [e]) t completed (before ++ [step]) rest := by
  have hne : ∀ s, s ∈ before ∨ s ∈ rest → s.id ≠ step.id := by
    intro s hs heq
    rw [List.map_append, List.map_cons, List.nodup_append] at hids
    rcases hs with hs | hs
    · exact hids.2.2 _ (List.mem_map_of_mem hs) _ (List.mem_cons_self ..) heq
    · exact (List.nodup_cons.mp hids.2.1).1 (heq ▸ List.mem_map_of_mem hs)
  have hother : ∀ s, s ∈ before ∨ s ∈ rest → ∀ x ∈ es ++ [e], x.stepId = some s.id → x ∈ es := by
    intro s hmem x hx hstep
    rcases List.mem_append.mp hx with hx | hx
    · exact hx
    · rw [List.mem_singleton.mp hx, hs, Option.some.injEq] at hstep
      exact absurd hstep.symm (hne s hmem)
  constructor
  · intro s hmem
    rw [observed_append, observed_observation hk hs]
    rcases List.mem_append.mp hmem with hmem | hmem
    · exact List.mem_append_left _ (h.done s hmem)
    · exact List.mem_append_right _ (by simp [List.mem_singleton.mp hmem])
  · intro s hmem hnone
    rw [observed_append, observed_observation hk hs, List.mem_append, not_or]
    exact ⟨h.pending s (List.mem_cons_of_mem _ hmem) hnone, by simpa using hne s (Or.inr hmem)⟩
  · intro s hmem x hx
    obtain ⟨hxmem, hrest⟩ := h.found s (List.mem_cons_of_mem _ hmem) x hx
    exact ⟨List.mem_append_left _ hxmem, hrest⟩
  · intro hP s hmem x hx hkx hstep o' ho'
    rcases List.mem_append.mp hmem with hmem | hmem
    · exact h.clear hP s hmem x (hother s (Or.inl hmem) x hx hstep) hkx hstep o' ho'
    · obtain rfl := List.mem_singleton.mp hmem
      rcases List.mem_append.mp hx with hx | hx
      · exact absurd (mem_observed.mpr ⟨x, hx, hkx, hstep⟩) hfresh
      · obtain rfl := List.mem_singleton.mp hx
        rw [hpayload, Observation.modelValidate_modelDump, Option.some.injEq] at ho'
        exact ho' ▸ hok
  · intro hP s hmem x hx hkx hstep
    exact h.settled hP s (List.mem_cons_of_mem _ hmem) x (hother s (Or.inr hmem) x hx hstep) hkx
      hstep

end Progress

/-! ### Records and what an executor handed back -/

theorem mem_updateFirst {stepId : String} {f : StepRecord → StepRecord} {rs : List StepRecord}
    {x : StepRecord} (h : x ∈ Ticket.updateFirst stepId f rs) :
    x ∈ rs ∨ ∃ r ∈ rs, r.stepId = stepId ∧ x = f r := by
  induction rs with
  | nil => cases h
  | cons r rs ih =>
    rw [Ticket.updateFirst] at h
    split at h
    · rcases List.mem_cons.mp h with rfl | hx
      · exact Or.inr ⟨r, List.mem_cons_self .., ‹_›, rfl⟩
      · exact Or.inl (List.mem_cons_of_mem _ hx)
    · rcases List.mem_cons.mp h with rfl | hx
      · exact Or.inl (List.mem_cons_self ..)
      · exact (ih hx).imp (List.mem_cons_of_mem _) fun ⟨y, hy, hxy⟩ =>
          ⟨y, List.mem_cons_of_mem _ hy, hxy⟩

/-- The record of another step stays as it is. -/
theorem stepRecord_updateRecord {t : Ticket} {stepId s : String} {f : StepRecord → StepRecord}
    (hf : ∀ r, (f r).stepId = r.stepId) (hne : s ≠ stepId) :
    (t.updateRecord stepId f).stepRecord s = t.stepRecord s := by
  simp only [Ticket.stepRecord, Ticket.updateRecord]
  induction t.steps with
  | nil => rfl
  | cons r rs ih =>
    rw [Ticket.updateFirst]
    split
    · rename_i hr
      have hother : r.stepId ≠ s := fun h => hne (h ▸ hr)
      simp [hf, hother]
    · simp only [List.find?_cons, ih]

theorem attach_findings (t : Ticket) (o : Observation) :
    ∀ f ∈ (Kernel.attach t o).findings,
      (∃ g ∈ t.findings, f.ticketId = g.ticketId) ∨ ∃ g ∈ o.findings, f.ticketId = g.ticketId := by
  intro f hf
  have hset : ∀ fs gs : List Finding, ∀ x ∈ fs.foldl (fun merged f => setFinding f merged) gs,
      x ∈ fs ∨ x ∈ gs := by
    intro fs
    induction fs with
    | nil => exact fun gs x hx => Or.inr hx
    | cons y ys ih =>
      intro gs x hx
      rcases ih _ x hx with hx | hx
      · exact Or.inl (List.mem_cons_of_mem _ hx)
      · rcases mem_setFinding hx with rfl | hx
        · exact Or.inl (List.mem_cons_self ..)
        · exact Or.inr hx
  simp only [Kernel.attach] at hf
  split at hf
  · exact Or.inl ⟨f, hf, rfl⟩
  · rcases ticketId_of_mem_foldl_addFinding hf with h | ⟨g, hg, heq⟩
    · exact Or.inr h
    · rcases hset t.findings [] g hg with hmem | hmem
      · exact Or.inl ⟨g, hmem, heq⟩
      · cases hmem

theorem attach_distinct {t : Ticket} (ht : (fingerprints t.findings).Nodup) (o : Observation) :
    (fingerprints (Kernel.attach t o).findings).Nodup := by
  simp only [Kernel.attach]
  split
  · exact ht
  · apply nodup_foldl_findings fingerprints_addFinding
    exact nodup_foldl_findings fingerprints_setFinding t.findings [] (by simp)

/-- The observation is in the journal. -/
def Journalled (w : World) (i : String) (o : Observation) : Prop :=
  ∃ e ∈ w.journals i, e.kind = .observation ∧ Observation.modelValidate e.payload = some o

theorem Version.updateRecord {w : World} {T t : Ticket} (h : Version w T t) {stepId : String}
    {f : StepRecord → StepRecord} (hf : ∀ r, (f r).status ≠ .skipped) :
    Version w T (t.updateRecord stepId f) := by
  refine ⟨h.id, h.parent, h.plan, h.approvals, ⟨fun r hr => ?_, h.tidy.distinct⟩, h.sourced⟩
  rcases mem_updateFirst hr with hr | ⟨r', -, -, rfl⟩
  · exact h.tidy.unskipped r hr
  · exact hf r'

theorem Version.attach {w : World} {T t : Ticket} (h : Version w T t) {o : Observation}
    (ho : Journalled w T.id o) : Version w T (Kernel.attach t o) := by
  refine ⟨h.id, h.parent, h.plan, h.approvals,
    ⟨h.tidy.unskipped, attach_distinct h.tidy.distinct o⟩, fun f hf i hi => ?_⟩
  rcases attach_findings t o f hf with ⟨g, hg, heq⟩ | ⟨g, hg, heq⟩
  · exact h.sourced g hg i (heq ▸ hi)
  · obtain ⟨e, he, hk, hvalid⟩ := ho
    exact Or.inr (Or.inr (Or.inr ⟨e, he, hk, o, hvalid, g, hg, heq ▸ hi⟩))

theorem status_ne_skipped (verdict : StepVerdict) : Kernel.statusOf verdict ≠ .skipped := by
  unfold Kernel.statusOf
  split <;> simp

/-! ### The loop -/

/-- ACT is under way: the ticket is held, and the plan is observed up to where
    the loop stands. -/
structure Acting (K : Kernel) (P : Promise) (w : World) (t : Ticket) (plan : Plan)
    (completed : String → Option JournalEntry) (before rest : List Step) : Prop where
  holds : Holds w t
  running : t.state = .running
  planned : t.plan = some plan
  split : plan.steps = before ++ rest
  progress : Progress K P (w.journals t.id) t completed before rest

/-- ACT is over, or was stopped by a failed step. -/
structure Acted (w : World) (t : Ticket) : Prop where
  holds : Holds w t
  running : t.state = .running

namespace Acting

variable {w w' : World} {t t' : Ticket} {plan : Plan} {completed : String → Option JournalEntry}
  {before rest : List Step} {step : Step}

theorem frame (h : Acting K P w t plan completed before rest) (hg : Grows w w')
    (ht : w'.tickets t.id = w.tickets t.id) (hj : w'.journals t.id = w.journals t.id) :
    Acting K P w' t plan completed before rest :=
  ⟨h.holds.mono hg ht, h.running, h.planned, h.split, by rw [hj]; exact h.progress⟩

theorem tick (h : Acting K P w t plan completed before rest) :
    Acting K P w.tick t plan completed before rest :=
  h.frame (.of_eq rfl rfl rfl) rfl rfl

theorem ids (h : Acting K P w t plan completed before rest) :
    ((before ++ rest).map (·.id)).Nodup := h.split ▸ plan.unique

theorem ne_step (h : Acting K P w t plan completed before (step :: rest)) :
    ∀ s ∈ rest, s.id ≠ step.id := by
  intro s hs heq
  have hids := h.ids
  rw [List.map_append, List.map_cons, List.nodup_append] at hids
  exact (List.nodup_cons.mp hids.2.1).1 (heq ▸ List.mem_map_of_mem hs)

/-- The held ticket may be replaced by another version of the stored one. -/
theorem swap (h : Acting K P w t plan completed before rest)
    (hv : ∀ T, Version w T t → Version w T t') (hid : t'.id = t.id) (hstate : t'.state = t.state)
    (hrec : ∀ s ∈ rest, s.id ∈ observed (w.journals t.id) →
      t'.stepRecord s.id = t.stepRecord s.id) :
    Acting K P w t' plan completed before rest := by
  obtain ⟨T, hT, hTstate, hversion⟩ := h.holds
  have hnew := hv T hversion
  refine ⟨⟨T, hid ▸ hT, hstate ▸ hTstate, hnew⟩, hstate ▸ h.running, ?_, h.split, ?_⟩
  · rw [hnew.plan, ← hversion.plan, h.planned]
  · rw [hid]
    exact h.progress.congr hrec

/-- Saving the held ticket. -/
theorem save (h : Acting K P w t plan completed before rest) :
    Move K P w (w.saveTicket t) ∧ Acting K P (w.saveTicket t) t plan completed before rest := by
  obtain ⟨T, hT, hstate, hversion⟩ := h.holds
  refine ⟨Move.save w T t hT (.work (hstate.trans h.running) h.running hversion), ?_⟩
  exact ⟨.saved w h.holds.tidy, h.running, h.planned, h.split, h.progress⟩

/-- It is the turn of the first step the journal has no observation of. -/
theorem turn (h : Acting K P w t plan completed before (step :: rest))
    (hnone : completed step.id = none) : Turn K P w t.id step := by
  obtain ⟨T, hT, hstate, hversion⟩ := h.holds
  exact ⟨⟨T, plan, before, rest, hT, hstate.trans h.running, hversion.plan.symm.trans h.planned,
    h.split, h.progress.done, h.progress.clear⟩,
    h.progress.pending step (List.mem_cons_self ..) hnone⟩

/-- Restoring or finishing the record of the first step keeps the rest. -/
theorem record (h : Acting K P w t plan completed before (step :: rest))
    {f : StepRecord → StepRecord} {o : Observation} (ho : Journalled w t.id o)
    (hf : ∀ r, (f r).stepId = r.stepId) (hskip : ∀ r, (f r).status ≠ .skipped)
    (hprogress : Progress K P (w.journals t.id) t completed (before ++ [step]) rest) :
    Acting K P w (Kernel.attach (t.updateRecord step.id f) o) plan completed (before ++ [step])
      rest := by
  have hne := h.ne_step
  have hnext : Acting K P w t plan completed (before ++ [step]) rest :=
    ⟨h.holds, h.running, h.planned, by simp [h.split], hprogress⟩
  refine hnext.swap (fun T hT => ?_) rfl rfl (fun s hs _ => ?_)
  · exact (hT.updateRecord hskip).attach (hT.id ▸ ho)
  · exact stepRecord_updateRecord (t := t) hf (hne s hs)

/-- The record of the step whose turn it is may be started. -/
theorem started (h : Acting K P w t plan completed before (step :: rest))
    (hnone : completed step.id = none) (moment : DateTime) :
    Acting K P w (t.updateRecord step.id (Kernel.startRecord moment)) plan completed before
      (step :: rest) := by
  refine h.swap (fun T hT => hT.updateRecord fun _ => ?_) rfl rfl (fun s hs hobs => ?_)
  · simp [Kernel.startRecord]
  · have hne : s.id ≠ step.id := by
      intro heq
      exact (h.turn hnone).fresh (heq ▸ hobs)
    exact stepRecord_updateRecord (t := t) (fun _ => rfl) hne

theorem jot (h : Acting K P w t plan completed before rest) {e : JournalEntry}
    (he : e.kind ≠ .observation) :
    Acting K P (w.tick.appendEntry t.id e) t plan completed before rest := by
  refine ⟨h.holds.jot t.id e, h.running, h.planned, h.split, ?_⟩
  rw [World.journals_appendEntry_self]
  exact h.progress.jot he

end Acting

theorem orNow_refines {moment : Option DateTime} {R : World → Prop}
    (h : ∀ w, R w → R w.tick) :
    Refines (kernelSteps K P) R (K.orNow moment) (fun _ => R) := by
  cases moment with
  | some _ => exact Refines.pure fun _ _ hw => hw
  | none => exact now_refines fun w _ hw => h w hw

theorem restoreFromJournal_refines {t : Ticket} {plan : Plan}
    {completed : String → Option JournalEntry} {before rest : List Step} {step : Step}
    {record : StepRecord} {entry : JournalEntry} (hrecord : t.stepRecord step.id = some record)
    (hfailed : record.status ≠ .failed) (hentry : completed step.id = some entry) :
    Refines (kernelSteps K P) (fun w => Acting K P w t plan completed before (step :: rest))
      (K.restoreFromJournal t plan record entry.payload)
      (fun t' w => Acting K P w t' plan completed (before ++ [step]) rest) := by
  have hstepId : record.stepId = step.id := by
    simpa using List.find?_some hrecord
  unfold Kernel.restoreFromJournal
  split
  · exact Refines.raise
  · rename_i o ho
    split
    · exact Refines.raise
    · rename_i s hs
      refine Refines.bind (orNow_refines fun _ hw => hw.tick) fun finished => ?_
      apply Refines.pure
      intro w _ hw
      rw [hstepId]
      obtain ⟨hmem, hk, hid⟩ := hw.progress.found step (List.mem_cons_self ..) entry hentry
      exact hw.record ⟨entry, hmem, hk, ho⟩ (fun _ => rfl) (fun _ => status_ne_skipped _)
        (hw.progress.pass hrecord hfailed hentry)

/-- A step was performed and its observation journalled. -/
structure Watched (K : Kernel) (P : Promise) (w : World) (t : Ticket) (plan : Plan)
    (completed : String → Option JournalEntry) (before rest : List Step) (step : Step)
    (o : Observation) : Prop where
  acted : Acted w t
  journalled : Journalled w t.id o
  others : ∀ s ∈ rest, s.id ≠ step.id
  next : (K.agent.verify step o).outcome = .ok →
    Acting K P w t plan completed (before ++ [step]) rest

namespace Watched

variable {w : World} {t : Ticket} {plan : Plan} {completed : String → Option JournalEntry}
  {before rest : List Step} {step : Step} {o : Observation}

theorem tick (h : Watched K P w t plan completed before rest step o) :
    Watched K P w.tick t plan completed before rest step o :=
  ⟨⟨h.acted.holds.mono (.of_eq rfl rfl rfl) rfl, h.acted.running⟩, h.journalled, h.others,
    fun hok => (h.next hok).tick⟩

/-- The verdict is saved on the ticket. -/
theorem save (h : Watched K P w t plan completed before rest step o) (verdict : StepVerdict)
    (finished : DateTime) :
    let t' := Kernel.finishStep t step o verdict finished
    Move K P w (w.saveTicket t') ∧ Acted (w.saveTicket t') t' ∧
      ((K.agent.verify step o).outcome = .ok →
        Acting K P (w.saveTicket t') t' plan completed (before ++ [step]) rest) := by
  intro t'
  obtain ⟨T, hT, hstate, hversion⟩ := h.acted.holds
  have hnew : Version w T t' := by
    have hrec : Version w T
        (t.updateRecord step.id (Kernel.finishRecord o verdict finished)) :=
      hversion.updateRecord fun _ => status_ne_skipped verdict
    have hatt := hrec.attach (hversion.id ▸ h.journalled)
    exact ⟨hatt.id, hatt.parent, hatt.plan, hatt.approvals, ⟨hatt.tidy.unskipped,
      hatt.tidy.distinct⟩, hatt.sourced⟩
  have hrunning : t'.state = .running := h.acted.running
  refine ⟨Move.save w T t' hT (.work (hstate.trans h.acted.running) hrunning hnew),
    ⟨.saved w hnew.tidy, hrunning⟩, fun hok => ?_⟩
  have hnext := h.next hok
  refine ⟨.saved w hnew.tidy, hrunning, hnext.planned, hnext.split, ?_⟩
  exact hnext.progress.congr fun s hs _ =>
    stepRecord_updateRecord (t := t) (fun _ => rfl) (h.others s hs)

end Watched

theorem runHook_refines {t : Ticket} {step : Step} {R : World → Prop} :
    Refines (kernelSteps K P) R (K.runHook t step) (fun _ => R) := by
  unfold Kernel.runHook
  split
  · exact raisedBy_refines fun _ _ _ hw => hw
  · exact Refines.pure fun _ _ hw => hw

theorem perform_refines {t : Ticket} {plan : Plan} {completed : String → Option JournalEntry}
    {before rest : List Step} {step : Step} {resumed : Bool} (hnone : completed step.id = none) :
    Refines (kernelSteps K P) (fun w => Acting K P w t plan completed before (step :: rest))
      (K.perform t step resumed)
      (fun r w => Acted w r.2 ∧
        (r.1 = false → Acting K P w r.2 plan completed (before ++ [step]) rest)) := by
  unfold Kernel.perform
  refine Refines.bind (m := fun _ w => Acting K P w t plan completed before (step :: rest))
    (now_refines fun w _ hw => hw.tick) fun started => ?_
  dsimp only
  generalize ht₁ : t.updateRecord step.id (Kernel.startRecord started) = t₁
  -- the started record is saved
  refine Refines.bind (m := fun _ w => Acting K P w t₁ plan completed before (step :: rest))
    (Refines.write fun w _ hw => (ht₁ ▸ hw.started hnone started).save) fun _ => ?_
  -- the intent is written ahead
  refine Refines.bind (m := fun _ w => Acting K P w t₁ plan completed before (step :: rest) ∧
    Intended w t₁.id step) (append_refines ?_) fun _ => ?_
  · intro w e _ hw hk hs _
    refine ⟨Move.intent _ _ e step (hw.tick.turn hnone) hk hs, hw.jot (by simp [hk]), e, ?_, hk, hs⟩
    simp
  -- the executor is called
  refine Refines.bind (m := fun o w => (Acting K P w t₁ plan completed before (step :: rest) ∧
    Intended w t₁.id step) ∧ ∃ calls context, K.executor calls step context = .ok o) ?_ fun o => ?_
  · apply Refines.effect
    · rintro w o w' - ⟨hw, hintent⟩ hf
      obtain ⟨hres, rfl⟩ := Prod.mk.inj hf
      refine ⟨Move.execute w t₁.id step _ rfl (hw.turn hnone) hintent,
        ⟨hw.frame (.of_eq rfl rfl rfl) rfl rfl, hintent⟩, _, _, mapError_ok hres⟩
    · rintro w e w' - ⟨hw, hintent⟩ hf
      obtain ⟨-, rfl⟩ := Prod.mk.inj hf
      exact Move.execute w t₁.id step _ rfl (hw.turn hnone) hintent
  -- its observation is journalled
  refine Refines.bind (m := fun _ w => Watched K P w t₁ plan completed before rest step o)
    (append_refines ?_) fun _ => ?_
  · rintro w e - ⟨⟨hw, hintent⟩, hexec⟩ hk hs hpayload
    have hturn := hw.tick.turn hnone
    refine ⟨Move.observe _ _ e step o hturn hintent hk hs hpayload hexec,
      ⟨hw.holds.jot _ e, hw.running⟩, ⟨e, by simp, hk, by simp [hpayload]⟩, hw.ne_step, fun hok => ?_⟩
    refine ⟨hw.holds.jot _ e, hw.running, hw.planned, by simp [hw.split], ?_⟩
    rw [World.journals_appendEntry_self]
    exact hw.progress.observe hw.ids hturn.fresh hk hs hpayload hok
  refine Refines.bind (m := fun _ w => Watched K P w t₁ plan completed before rest step o)
    (now_refines fun w _ hw => hw.tick) fun finished => ?_
  -- and the verdict saved
  generalize ht₂ : Kernel.finishStep t₁ step o (K.agent.verify step o) finished = t₂
  refine Refines.bind (m := fun _ w => Acted w t₂ ∧ ((K.agent.verify step o).outcome = .ok →
    Acting K P w t₂ plan completed (before ++ [step]) rest))
    (Refines.write fun w _ hw => ht₂ ▸ hw.save (K.agent.verify step o) finished) fun _ => ?_
  refine Refines.bind runHook_refines fun _ => ?_
  apply Refines.pure
  rintro w - ⟨hacted, hnext⟩
  refine ⟨hacted, fun hfailed => hnext ?_⟩
  by_contra hbad
  simp [Kernel.statusOf, hbad] at hfailed

theorem Acting.acted {w : World} {t : Ticket} {plan : Plan}
    {completed : String → Option JournalEntry} {before rest : List Step}
    (h : Acting K P w t plan completed before rest) : Acted w t := ⟨h.holds, h.running⟩

/-- The loop of `_act`, by induction on the steps that are left. -/
theorem actLoop_refines {plan : Plan} {completed : String → Option JournalEntry}
    {interrupted : Option String} (rest : List Step) (before : List Step) (t : Ticket) :
    Refines (kernelSteps K P) (fun w => Acting K P w t plan completed before rest)
      (K.actLoop plan completed interrupted rest t) (fun r w => Acted w r.2) := by
  induction rest generalizing before t with
  | nil => exact Refines.pure fun _ _ hw => hw.acted
  | cons step rest ih =>
    unfold Kernel.actLoop
    split
    · exact Refines.raise
    · rename_i record hrecord
      split
      · exact Refines.pure fun _ _ hw => hw.acted
      · rename_i hfailed
        split
        · rename_i entry hentry
          split
          · -- observed but not saved: rebuilt, then passed over
            refine Refines.bind (restoreFromJournal_refines hrecord hfailed hentry) fun t' => ?_
            exact ih (before ++ [step]) t'
          · refine (ih (before ++ [step]) t).conseq (fun w _ hw => ?_) fun _ _ hr => hr
            exact ⟨hw.holds, hw.running, hw.planned, by simp [hw.split],
              hw.progress.pass hrecord hfailed hentry⟩
        · rename_i hnone
          split
          · rename_i hskipped
            refine Refines.assume (φ := False) (fun w _ hw => ?_) False.elim
            exact hw.holds.tidy.unskipped record (List.mem_of_find?_eq_some hrecord) hskipped
          · refine Refines.bind (perform_refines hnone) fun r => ?_
            obtain ⟨failed, t'⟩ := r
            cases failed with
            | true => exact Refines.pure fun _ _ hw => hw.1
            | false => exact (ih (before ++ [step]) t').conseq (fun _ _ hw => hw.2 rfl) fun _ _ hr => hr

/-- The ticket is held and its failures are as settled as was promised. -/
structure Ready (K : Kernel) (P : Promise) (w : World) (t : Ticket) : Prop where
  holds : Holds w t
  settled : P.settled → Settled K.agent.verify (w.journals t.id) t

theorem act_refines {t : Ticket} (hrunning : t.state = .running) :
    Refines (kernelSteps K P) (fun w => Ready K P w t) (K.act t) (fun r w => Acted w r.2) := by
  unfold Kernel.act
  split
  · exact Refines.raise
  · rename_i plan hplan
    refine Refines.bind (m := fun es w => Ready K P w t ∧ es = w.journals t.id)
      (entries_refines fun w hw => ⟨hw, rfl⟩) fun es => ?_
    refine Refines.bind (m := fun _ w => Ready K P w t ∧ es = w.journals t.id)
      (entries_refines fun w hw => hw) fun es' => ?_
    refine (actLoop_refines plan.steps [] t).conseq ?_ fun _ _ hr => hr
    rintro w - ⟨hw, rfl⟩
    exact ⟨hw.holds, hrunning, hplan, rfl, .start hw.settled hplan⟩

end Slas
