/-
  Slas.Kernel.BugTickets

  One bug ticket per fingerprint, over whole sessions with crashes.

  A child ticket is saved first and its fingerprint recorded in the bug index
  after.  As long as every stored child is in the index, a finding that is not
  in it has no child yet, and the one it gets is the first.  A process that
  dies between the two writes leaves a child the index does not know; the next
  ticket with that finding gets a second one.

  The links are safer: whatever is saved as the ticket of a finding is on disk
  before, so a ticket in Needs review never names one that does not exist.
-/

import Slas.Kernel.Approvals

namespace Slas

open Crash

variable {K : Kernel} {P : Promise} {w w' : World}

/-! ## Children and the index -/

/-- The index has an entry for the fingerprint. -/
def Tracked (w : World) (d : Fingerprint) : Prop := ∃ e ∈ w.bugIndex, e.fingerprint = d

/-- Every fingerprint of a stored child is in the index. -/
def Indexed (w : World) : Prop :=
  ∀ i t, w.tickets i = some t → t.parent.isSome → ∀ f ∈ t.findings, Tracked w f.fingerprint

/-- No two stored children carry a finding with the same fingerprint. -/
def OneTicketPerBug (w : World) : Prop :=
  ∀ i j t u, w.tickets i = some t → w.tickets j = some u → t.parent.isSome → u.parent.isSome →
    ∀ f ∈ t.findings, ∀ g ∈ u.findings, f.fingerprint = g.fingerprint → i = j

/-- The children on disk: in Open, where the kernel leaves them, and one per
    fingerprint. -/
structure Children (w : World) : Prop where
  opened : ∀ i t, w.tickets i = some t → t.parent.isSome → t.state = .open
  unique : OneTicketPerBug w

theorem Children.init : Children {} :=
  ⟨fun _ _ h => by simp at h, fun _ _ _ _ h => by simp at h⟩

theorem Indexed.init : Indexed {} := fun _ _ h => by simp at h

/-- Every child of `w'` stands in `w` already, with the same findings. -/
def NoNewChild (w w' : World) : Prop :=
  ∀ i u, w'.tickets i = some u → u.parent.isSome →
    ∃ v, w.tickets i = some v ∧ v.parent.isSome ∧ u.state = v.state ∧ u.findings = v.findings

theorem NoNewChild.of_tickets (h : w'.tickets = w.tickets) : NoNewChild w w' := by
  intro i u hu hparent
  exact ⟨u, h ▸ hu, hparent, rfl, rfl⟩

theorem NoNewChild.children (h : NoNewChild w w') (hw : Children w) : Children w' := by
  refine ⟨fun i u hu hparent => ?_, fun i j t u ht hu htp hup f hf g hg hfg => ?_⟩
  · obtain ⟨v, hv, hvparent, hstate, -⟩ := h i u hu hparent
    exact hstate.trans (hw.opened i v hv hvparent)
  · obtain ⟨t', ht', htp', -, htf⟩ := h i t ht htp
    obtain ⟨u', hu', hup', -, huf⟩ := h j u hu hup
    exact hw.unique i j t' u' ht' hu' htp' hup' f (htf ▸ hf) g (huf ▸ hg) hfg

theorem NoNewChild.indexed (h : NoNewChild w w') (hindex : ∀ d, Tracked w d → Tracked w' d)
    (hw : Indexed w) : Indexed w' := by
  intro i u hu hparent f hf
  obtain ⟨v, hv, hvparent, -, hfindings⟩ := h i u hu hparent
  exact hindex _ (hw i v hv hvparent f (hfindings ▸ hf))

/-- Saving a ticket over itself: a child is saved with its approvals changed
    at most, since every other save starts from a state it is not in. -/
theorem Saves.of_child {T t : Ticket} (h : Saves P w T t) (hchild : t.parent.isSome)
    (hopen : T.parent.isSome → T.state = .open) :
    T.parent.isSome ∧ t.state = T.state ∧ t.findings = T.findings := by
  have hother : t.parent = T.parent → T.state ≠ .open → False := by
    intro hparent hstate
    rw [hparent] at hchild
    exact hstate (hopen hchild)
  cases h with
  | approve stepId f approvals hf hdecide ht =>
    subst ht
    exact ⟨hchild, rfl, rfl⟩
  | plan plan _ _ _ hparent _ hv => simp [hv.parent, hparent] at hchild
  | refuse _ _ hparent hv => simp [hv.parent, hparent] at hchild
  | ask plan now hT _ _ hv => exact (hother hv.parent (by simp [hT])).elim
  | proceed hT _ _ _ hv => exact (hother hv.parent (by simp [hT])).elim
  | start hT _ hv => exact (hother hv.parent (by simp [hT])).elim
  | work hT _ hv => exact (hother hv.parent (by simp [hT])).elim
  | collect hT _ hv => exact (hother hv.parent (by simp [hT])).elim
  | close hT _ hv => exact (hother hv.parent (by simp [hT])).elim
  | finish hT _ _ hv => exact (hother hv.parent (by simp [hT])).elim

theorem noNewChild_save {T t : Ticket} (hT : w.tickets t.id = some T) (h : Saves P w T t)
    (hw : Children w) : NoNewChild w (w.saveTicket t) := by
  intro i u hu hparent
  rw [World.tickets_saveTicket] at hu
  split at hu
  · rename_i hi
    obtain rfl := Option.some.inj hu
    obtain ⟨hTparent, hstate, hfindings⟩ := h.of_child hparent (hw.opened t.id T hT)
    exact ⟨T, hi ▸ hT, hTparent, hstate, hfindings⟩
  · exact ⟨u, hu, hparent, rfl, rfl⟩

/-- A ticket without a parent is no new child. -/
theorem noNewChild_create {t : Ticket} (h : t.parent = none) :
    NoNewChild w (w.saveTicket t) := by
  intro i u hu hparent
  rw [World.tickets_saveTicket] at hu
  split at hu
  · obtain rfl := Option.some.inj hu
    simp [h] at hparent
  · exact ⟨u, hu, hparent, rfl, rfl⟩

/-- The only move that makes a child is `track`, and nothing leaves the index. -/
theorem Move.noNewChild (h : Move K P w w') (hw : Children w) :
    (NoNewChild w w' ∧ ∀ d, Tracked w d → Tracked w' d) ∨
      ∃ child f i, Spawn w child f ∧
        w' = (w.saveTicket child).recordBug f.fingerprint child.id i := by
  cases h with
  | create t _ _ _ _ _ _ _ _ hparent => exact Or.inl ⟨noNewChild_create hparent, fun _ hd => hd⟩
  | save T t hT hs => exact Or.inl ⟨noNewChild_save hT hs hw, fun _ hd => hd⟩
  | track child f i hspawn => exact Or.inr ⟨child, f, i, hspawn, rfl⟩
  | seen e i he =>
    exact Or.inl ⟨.of_tickets rfl, fun d hd => BugIndex.tracked_record.mpr (Or.inr hd)⟩
  | _ => exact Or.inl ⟨.of_tickets rfl, fun _ hd => hd⟩

/-- A child of an untracked finding is the first of its fingerprint. -/
theorem Spawn.children {child : Ticket} {f : Finding} (h : Spawn w child f) (hw : Children w)
    (hindexed : Indexed w) : Children (w.saveTicket child) := by
  -- no child that stands already has the fingerprint: it would be in the index
  have hnew : ∀ i t, w.tickets i = some t → t.parent.isSome → ∀ g ∈ t.findings,
      g.fingerprint ≠ f.fingerprint := by
    intro i t ht hparent g hg heq
    obtain ⟨e, he, hfp⟩ := hindexed i t ht hparent g hg
    exact BugIndex.lookup_eq_none_iff.mp h.untracked e he (hfp.trans heq)
  have hown : ∀ g ∈ child.findings, g.fingerprint = f.fingerprint := by
    intro g hg
    rw [h.findings, List.mem_singleton] at hg
    exact hg ▸ rfl
  refine ⟨fun i t ht hparent => ?_, fun i j t u ht hu htp hup a ha b hb hab => ?_⟩
  · rw [World.tickets_saveTicket] at ht
    split at ht
    · obtain rfl := Option.some.inj ht
      exact h.state
    · exact hw.opened i t ht hparent
  · rw [World.tickets_saveTicket] at ht hu
    split at ht <;> split at hu
    · rename_i hi hj
      exact hi.trans hj.symm
    · obtain rfl := Option.some.inj ht
      exact absurd (hab.symm.trans (hown a ha)) (hnew j u hu hup b hb)
    · obtain rfl := Option.some.inj hu
      exact absurd (hab.trans (hown b hb)) (hnew i t ht htp a ha)
    · exact hw.unique i j t u ht hu htp hup a ha b hb hab

theorem Spawn.indexed {child : Ticket} {f : Finding} (h : Spawn w child f) (hw : Indexed w)
    (i : String) : Indexed ((w.saveTicket child).recordBug f.fingerprint child.id i) := by
  intro j t ht hparent g hg
  apply BugIndex.tracked_record.mpr
  rw [World.tickets_recordBug, World.tickets_saveTicket] at ht
  split at ht
  · obtain rfl := Option.some.inj ht
    rw [h.findings, List.mem_singleton] at hg
    exact Or.inl (hg ▸ rfl)
  · exact Or.inr (hw j t ht hparent g hg)

theorem Move.children (h : Move K P w w') (hw : Children w ∧ Indexed w) :
    Children w' ∧ Indexed w' := by
  rcases h.noNewChild hw.1 with ⟨hsame, hindex⟩ | ⟨child, f, i, hspawn, rfl⟩
  · exact ⟨hsame.children hw.1, hsame.indexed hindex hw.2⟩
  · have hsaved := hspawn.children hw.1 hw.2
    exact ⟨⟨hsaved.opened, hsaved.unique⟩, hspawn.indexed hw.2 i⟩

/-- The torn step makes a child as well; it is the index that misses it. -/
theorem Orphan.children (h : Orphan w w') (hw : Children w ∧ Indexed w) : Children w' := by
  cases h with
  | orphan child f hspawn => exact hspawn.children hw.1 hw.2

/-! ## Links -/

/-- The executor leaves the tickets of its findings to the kernel. -/
def Unfiled (K : Kernel) : Prop :=
  ∀ calls step context o, K.executor calls step context = .ok o →
    ∀ f ∈ o.findings, f.ticketId = none

/-- Whatever is named as the ticket of a finding is on disk, and a ticket in
    Needs review names one for each. -/
structure Links (w : World) : Prop where
  findings : ∀ i t, w.tickets i = some t → ∀ f ∈ t.findings, ∀ j, f.ticketId = some j →
    (w.tickets j).isSome
  index : ∀ e ∈ w.bugIndex, (w.tickets e.ticketId).isSome
  journals : ∀ i, ∀ e ∈ w.journals i, e.kind = .observation →
    ∀ o, Observation.modelValidate e.payload = some o → ∀ f ∈ o.findings, f.ticketId = none
  reviewed : ∀ i t, w.tickets i = some t → t.state = .needsReview → ∀ f ∈ t.findings,
    f.ticketId.isSome

theorem Links.known (hw : Links w) {T : Ticket} (hT : w.tickets T.id = some T) {i : String}
    (h : Known w T i) : (w.tickets i).isSome := by
  rcases h with ⟨g, hg, hi⟩ | hi | ⟨e, he, rfl⟩ | ⟨e, he, hk, o, ho, g, hg, hi⟩
  · exact hw.findings T.id T hT g hg i hi
  · exact hi
  · exact hw.index e he
  · rw [hw.journals T.id e he hk o ho g hg] at hi
    cases hi

/-- A ticket whose findings are linked is saved. -/
theorem Links.saveTicket (hw : Links w) {t : Ticket}
    (hfindings : ∀ f ∈ t.findings, ∀ j, f.ticketId = some j → ((w.saveTicket t).tickets j).isSome)
    (hreviewed : t.state = .needsReview → ∀ f ∈ t.findings, f.ticketId.isSome) :
    Links (w.saveTicket t) := by
  have hgrows := grows_saveTicket w t
  refine ⟨fun i u hu f hf j hj => ?_, fun e he => hgrows.tickets _ (hw.index e he), hw.journals,
    fun i u hu => ?_⟩
  · rw [World.tickets_saveTicket] at hu
    split at hu
    · obtain rfl := Option.some.inj hu
      exact hfindings f hf j hj
    · exact hgrows.tickets _ (hw.findings i u hu f hf j hj)
  · rw [World.tickets_saveTicket] at hu
    split at hu
    · obtain rfl := Option.some.inj hu
      exact hreviewed
    · exact hw.reviewed i u hu

/-- Every save names tickets that are known, or keeps the findings. -/
theorem Saves.known {T t : Ticket} (h : Saves P w T t) :
    ∀ f ∈ t.findings, ∀ i, f.ticketId = some i → Known w T i := by
  cases h with
  | approve stepId f approvals hf hdecide ht =>
    subst ht
    exact fun f hf i hi => Or.inl ⟨f, hf, hi⟩
  | plan _ _ _ _ _ _ h => exact h.sourced
  | refuse _ _ _ h => exact h.sourced
  | ask _ _ _ _ _ h => exact h.sourced
  | proceed _ _ _ _ h => exact h.sourced
  | start _ _ h => exact h.sourced
  | work _ _ h => exact h.sourced
  | collect _ _ h => exact h.sourced
  | close _ _ h => exact h.sourced
  | finish _ _ _ h => exact h.sourced

/-- A ticket enters Needs review with every finding linked. -/
theorem Saves.reviewed {T t : Ticket} (h : Saves P w T t)
    (hT : T.state = .needsReview → ∀ f ∈ T.findings, f.ticketId.isSome)
    (ht : t.state = .needsReview) : ∀ f ∈ t.findings, f.ticketId.isSome := by
  cases h with
  | approve stepId f approvals hf hdecide happ =>
    subst happ
    exact hT ht
  | finish _ _ hlinked _ => exact hlinked
  | plan _ _ ht' => simp [ht'] at ht
  | refuse _ ht' => simp [ht'] at ht
  | ask _ _ _ ht' => simp [ht'] at ht
  | proceed _ ht' => simp [ht'] at ht
  | start _ ht' => simp [ht'] at ht
  | work _ ht' => simp [ht'] at ht
  | collect _ ht' => simp [ht'] at ht
  | close _ ht' => simp [ht'] at ht

theorem Links.appendEntry (hw : Links w) (i : String) {e : JournalEntry}
    (he : e.kind = .observation → ∀ o, Observation.modelValidate e.payload = some o →
      ∀ f ∈ o.findings, f.ticketId = none) : Links (w.appendEntry i e) := by
  refine ⟨hw.findings, hw.index, fun j x hx => ?_, hw.reviewed⟩
  rw [World.journals_appendEntry] at hx
  split at hx
  · rcases List.mem_append.mp hx with hx | hx
    · exact hw.journals i x hx
    · obtain rfl := List.mem_singleton.mp hx
      exact he
  · exact hw.journals j x hx

theorem Links.recordBug (hw : Links w) {d : Fingerprint} {i : String} (seenIn : String)
    (hi : (w.tickets i).isSome) : Links (w.recordBug d i seenIn) := by
  refine ⟨hw.findings, fun e he => ?_, hw.journals, hw.reviewed⟩
  rw [World.tickets_recordBug]
  rcases BugIndex.mem_record he with ⟨-, heq⟩ | ⟨e', he', -, heq⟩
  · rw [heq]
    exact hi
  · rw [← heq]
    exact hw.index e' he'

theorem Spawn.linked {child : Ticket} {f : Finding} (h : Spawn w child f) (hw : Links w) :
    Links (w.saveTicket child) := by
  apply hw.saveTicket
  · intro g hg j hj
    rw [h.findings, List.mem_singleton] at hg
    subst hg
    obtain rfl := Option.some.inj hj
    simp
  · intro hstate
    rw [h.state] at hstate
    cases hstate

theorem Move.linked (hK : Unfiled K) (hsound : Sound w) (h : Move K P w w') (hw : Links w) :
    Links w' := by
  cases h with
  | create t _ _ _ hstate _ _ _ hfindings =>
    exact hw.saveTicket (by simp [hfindings]) (by simp [hstate])
  | jot i e _ hk =>
    apply hw.appendEntry
    intro hobs
    rcases hk with hk | hk <;> simp [hk] at hobs
  | intent i e step _ hk => exact hw.appendEntry i (by simp [hk])
  | observe i e step o _ _ _ _ hpayload ho =>
    obtain ⟨calls, context, hrun⟩ := ho
    apply hw.appendEntry
    intro _ o' ho'
    rw [hpayload, Observation.modelValidate_modelDump, Option.some.injEq] at ho'
    exact ho' ▸ hK calls step context o hrun
  | save T t hT hs =>
    have hid : T.id = t.id := hsound.keyed _ T hT
    refine hw.saveTicket (fun f hf j hj => ?_) (hs.reviewed (hw.reviewed _ T hT))
    exact (grows_saveTicket w t).tickets _ (hw.known (hid ▸ hT) (hs.known f hf j hj))
  | seen e i he => exact hw.recordBug i (hw.index e he)
  | track child f i hspawn => exact (hspawn.linked hw).recordBug i (by simp)
  | _ => exact ⟨hw.findings, hw.index, hw.journals, hw.reviewed⟩

theorem Orphan.linked (h : Orphan w w') (hw : Links w) : Links w' := by
  cases h with
  | orphan child f hspawn => exact hspawn.linked hw

/-! ## Over sessions -/

/-- Every finding of a ticket in Needs review names a stored ticket. -/
def ReviewsLinked (w : World) : Prop :=
  ∀ i t, w.tickets i = some t → t.state = .needsReview → ∀ f ∈ t.findings,
    ∃ j u, f.ticketId = some j ∧ w.tickets j = some u

/-- A call that starts with every child indexed leaves one child per
    fingerprint, wherever it dies. -/
theorem children_after (c : KernelCall × Nat) (hindexed : Indexed w)
    (hw : Sound w ∧ Children w) :
    Sound (after KernelCall.prog w c) ∧ Children (after KernelCall.prog w c) := by
  have hkept : Promise.Kept ⟨False, False⟩ c.1 w := fun _ _ _ _ => ⟨False.elim, False.elim⟩
  refine Steps.Leaves.invariant (I := fun w => Sound w ∧ Children w ∧ Indexed w)
    (J := fun w => Sound w ∧ Children w) (call_leaves c.1 ⟨False, False⟩ hw.1 hkept c.2) ?_
    (fun _ h => ⟨h.1, h.2.1⟩) ?_ ⟨hw.1, hw.2, hindexed⟩
  · rintro w w' hm ⟨hsound, hboth⟩
    exact ⟨Move.sound hm hsound, Move.children hm hboth⟩
  · rintro w w' ht ⟨hsound, hboth⟩
    exact ⟨Orphan.sound ht hsound, Orphan.children ht hboth⟩

/-- A call that returns leaves every child in the index. -/
theorem indexed_after_return (c : KernelCall × Nat) (hw : Sound w) (hchildren : Children w)
    (hindexed : Indexed w) (hret : (c.1.prog w c.2).value?.isSome) :
    Indexed (after KernelCall.prog w c) := by
  have hkept : Promise.Kept ⟨False, False⟩ c.1 w := fun _ _ _ _ => ⟨False.elim, False.elim⟩
  have hreach := call_reaches c.1 ⟨False, False⟩ hw hkept hret
  have hend := invariant_of_reaches (I := fun w => Children w ∧ Indexed w)
    (fun _ _ hm => Move.children hm) hreach ⟨hchildren, hindexed⟩
  exact hend.2

theorem session_linked (cs : List (KernelCall × Nat)) (hK : ∀ c ∈ cs, Unfiled c.1.kernel) :
    Links (session KernelCall.prog {} cs) := by
  have hkept : Starts KernelCall.prog (Promise.Kept ⟨False, False⟩) {} cs :=
    (Starts.trivial _ cs).mono fun _ _ _ _ _ _ _ _ => ⟨False.elim, False.elim⟩
  exact session_keeps ⟨False, False⟩ (D := fun c => Unfiled c.kernel) (I := Links)
    ⟨fun _ _ h => by simp at h, fun _ h => by simp at h, fun _ _ h => by simp at h,
      fun _ _ h => by simp at h⟩
    (fun c hc w w' hs hm hw => hm.linked hc hs hw) (fun _ _ _ ht hw => ht.linked hw) hkept hK

/-- **One bug ticket per fingerprint**: when no call starts with a child that
    is missing in the bug index, no two children carry a finding with the same
    fingerprint, and every finding of a ticket in Needs review names a stored
    ticket, at whatever writes the processes died. -/
theorem one_bug_ticket_per_fingerprint (cs : List (KernelCall × Nat))
    (hK : ∀ c ∈ cs, Unfiled c.1.kernel)
    (hstart : Starts KernelCall.prog (fun _ w => Indexed w) {} cs) :
    OneTicketPerBug (session KernelCall.prog {} cs) ∧
      ReviewsLinked (session KernelCall.prog {} cs) := by
  constructor
  · have hend := session_invariant (I := fun w => Sound w ∧ Children w)
      (fun c w hindexed hw => children_after c hindexed hw) hstart
      ⟨.init, .init⟩
    exact hend.2.unique
  · intro i t ht hstate f hf
    have hlinked := session_linked cs hK
    obtain ⟨j, hj⟩ := Option.isSome_iff_exists.mp (hlinked.reviewed i t ht hstate f hf)
    obtain ⟨u, hu⟩ := Option.isSome_iff_exists.mp (hlinked.findings i t ht f hf j hj)
    exact ⟨j, u, hj, hu⟩

/-! ### A finding and its ticket -/

def diskFinding : Finding where
  id := "F-fedcba98"
  fingerprint := ⟨"fedcba9876543210", by decide⟩
  issue := "The disk is slow"
  id_ne := by decide
  issue_ne := by decide

/-- The step finishes and reports a slow disk. -/
def burnInKernel : Kernel :=
  demoKernel burnInPlan fun _ => { exitCode := some 0, findings := [diskFinding] }

/-- Two runs, one after the other. -/
def burnInTwice : List (KernelCall × Nat) :=
  [(⟨burnInKernel, .run demoRaw⟩, 40), (⟨burnInKernel, .run demoRaw⟩, 40)]

theorem burn_in_twice_one_ticket :
    OneTicketPerBug (session KernelCall.prog {} burnInTwice) ∧
      ReviewsLinked (session KernelCall.prog {} burnInTwice) := by
  refine one_bug_ticket_per_fingerprint burnInTwice ?_ ⟨.init, ?_, trivial⟩
  · have hunfiled : Unfiled burnInKernel := by
      intro calls step context o ho f hf
      obtain rfl := Except.ok.inj ho
      rw [List.mem_singleton.mp hf]
      rfl
    simp [burnInTwice, hunfiled]
  · exact indexed_after_return _ .init .init .init (by decide +kernel)

/-- The process dies after its twenty-second write, the save of the child, and
    the ticket is resumed. -/
def burnInCrashed : List (KernelCall × Nat) :=
  [(⟨burnInKernel, .run demoRaw⟩, 22), (⟨burnInKernel, .resume "T-null-0001"⟩, 40)]

theorem burn_in_crashed_two_tickets :
    ¬ (OneTicketPerBug (session KernelCall.prog {} burnInCrashed) ∧
      ReviewsLinked (session KernelCall.prog {} burnInCrashed)) := by
  rintro ⟨h, -⟩
  have hchildren : ∀ i ∈ ["T-null-0002", "T-null-0003"],
      ((session KernelCall.prog {} burnInCrashed).tickets i).map (fun t => (t.parent, t.findings)) =
        some (some "T-null-0001", [{ diskFinding with ticketId := some i }]) := by
    decide +kernel
  obtain ⟨t, ht, htc⟩ := Option.map_eq_some_iff.mp (hchildren "T-null-0002" (by simp))
  obtain ⟨u, hu, huc⟩ := Option.map_eq_some_iff.mp (hchildren "T-null-0003" (by simp))
  rw [Prod.mk.injEq] at htc huc
  have hsame := h "T-null-0002" "T-null-0003" t u ht hu (by simp [htc.1]) (by simp [huc.1])
    { diskFinding with ticketId := some "T-null-0002" } (by simp [htc.2])
    { diskFinding with ticketId := some "T-null-0003" } (by simp [huc.2]) rfl
  exact absurd hsame (by decide)

end Slas
