/-
  Slas.Kernel.Closing

  When a close that died and was resumed ends like one that did not die.

  `_analyse_and_close` saves the ticket twice: once with the analysis merged
  in, once in its final state.  A process that dies before the first save has
  changed nothing of the ticket, and the resumed close starts over.  One that
  dies between the two leaves an analysed ticket in Analysing, and the resumed
  close analyses it again.  Findings and conclusion come out the same
  (`Analysed.again`), but the votes are appended without a look at those the
  ticket has: the diagnosis is voted on twice.
-/

import Slas.Kernel.Approvals
import Slas.Kernel.Diagnosis

namespace Slas

open Crash

variable {K : Kernel} {T : Ticket}

/-! ## The ticket stays as it is until the close saves it -/

/-- The world is sound and holds the ticket. -/
structure Stored (T : Ticket) (w : World) : Prop where
  sound : Sound w
  ticket : w.tickets T.id = some T

theorem Stored.quiet {w w' : World} (h : Stored T w) (ht : w'.tickets = w.tickets)
    (hs : w'.sequence = w.sequence) (hj : w'.journals = w.journals) : Stored T w' := by
  refine ⟨⟨fun i t hi => ?_, fun i t hi => ?_, fun a n hn => ?_⟩, ?_⟩
  · exact h.sound.keyed i t (ht ▸ hi)
  · exact h.sound.tidy i t (ht ▸ hi)
  · rw [ht, hj]
    exact h.sound.fresh a n (hs ▸ hn)
  · rw [ht]
    exact h.ticket

theorem now_keeps {R : World → Prop} :
    Triple (Stored T) K.now (fun _ => Stored T) R :=
  Triple.quiet fun _ hw => hw.quiet rfl rfl rfl

theorem raisedBy_keeps {α : Type} {x : Except String α} :
    Triple (Stored T) (raisedBy x) (fun a w => x = .ok a ∧ Stored T w) (Stored T) := by
  apply Triple.ofExcept
  · intro a ha w hw
    exact ⟨mapError_ok ha, hw⟩
  · exact fun _ hw => hw

theorem file_keeps {path text : String} :
    Triple (Stored T) (Prog.write (World.writeFile path text) : KernelM Unit)
      (fun _ => Stored T) (Stored T) :=
  Triple.write (fun _ hw => hw) fun _ hw => hw.quiet rfl rfl rfl

theorem append_keeps {i : String} (hi : i = T.id) {kind : JournalKind}
    {payload : List (String × Json)} {stepId : Option String} :
    Triple (Stored T) (journal.append K i kind payload stepId) (fun _ => Stored T)
      (Stored T) := by
  subst hi
  have hentries : Triple (Stored T) (journal.entries T.id) (fun _ => Stored T) (Stored T) := by
    refine Triple.bind (Triple.look (Q := fun _ => Stored T) fun _ hw => hw) fun es => ?_
    split
    · exact Triple.pure fun _ hw => hw
    · exact Triple.raise fun _ hw => hw
  refine Triple.bind hentries fun es => Triple.bind now_keeps fun at_ => ?_
  refine Triple.write (fun _ hw => hw) fun w hw => ?_
  exact ⟨hw.sound.appendEntry (by simp [hw.ticket]) _, hw.ticket⟩

theorem collectLogs_keeps (t : Ticket) :
    Triple (Stored T) (K.collectLogs t) (fun _ => Stored T) (Stored T) :=
  Triple.bind file_keeps fun _ => Triple.bind file_keeps fun _ => Triple.pure fun _ hw => hw

theorem analyse_keeps {t : Ticket} (ht : t.id = T.id) :
    Triple (Stored T) (K.analyse t)
      (fun a w => (∃ r, K.diagnosis t = .ok r ∧ a = (Kernel.merged t r, r.votes)) ∧ Stored T w)
      (Stored T) := by
  unfold Kernel.analyse
  split
  · rename_i hp
    refine Triple.bind (append_keeps ht) fun _ => Triple.pure fun w hw => ⟨?_, hw⟩
    exact ⟨_, by rw [Kernel.diagnosis, hp], by simp [Kernel.merged]⟩
  · rename_i p hp
    refine Triple.bind raisedBy_keeps fun r => Triple.assume fun hr => ?_
    refine Triple.bind (append_keeps ht) fun _ => Triple.pure fun w hw => ⟨?_, hw⟩
    exact ⟨r, by rw [Kernel.diagnosis, hp]; exact hr, rfl⟩

theorem nextTicketId_keeps {a : AgentName} :
    Triple (Stored T) (store.nextTicketId a) (fun i w => Stored T w ∧ Allocated w i)
      (Stored T) := by
  refine Triple.bind (Triple.look (Q := fun n w => Stored T w ∧ n = w.sequence a + 1)
    fun w hw => ⟨hw, rfl⟩) fun n => ?_
  refine Triple.bind (M := fun _ w => Stored T w ∧ Allocated w (makeTicketId a n))
    (Triple.write (fun _ hw => hw.1) ?_) fun _ => Triple.pure fun _ hw => hw
  rintro w ⟨hw, rfl⟩
  obtain ⟨hnone, hempty⟩ := hw.sound.fresh a (w.sequence a + 1) (Nat.lt_succ_self _)
  exact ⟨⟨hw.sound.bumpSequence a, hw.ticket⟩, ⟨a, by simp [World.sequence_bumpSequence]⟩, hnone, hempty⟩

/-- A fresh child leaves the ticket alone. -/
theorem trackChild_keeps {child : Ticket} {d : Fingerprint} {i : String} (htidy : Tidy child) :
    Triple (fun w => Stored T w ∧ Allocated w child.id) (Kernel.trackChild child d i)
      (fun _ => Stored T) (Stored T) := by
  refine Triple.bind (M := fun _ => Stored T) (Triple.write (fun _ hw => hw.1) ?_) fun _ =>
    Triple.write (fun _ hw => hw) fun _ hw => hw.quiet rfl rfl rfl
  rintro w ⟨hw, halloc⟩
  refine ⟨hw.sound.saveTicket htidy (Or.inr halloc.id), ?_⟩
  have hne : T.id ≠ child.id := by
    intro heq
    have hused := hw.ticket
    rw [heq, halloc.unused] at hused
    cases hused
  rw [World.tickets_saveTicket, if_neg hne]
  exact hw.ticket

theorem childTicket_tidy (t : Ticket) (votes : List Vote) (f : Finding) (now : DateTime)
    (i : String) : Tidy (Kernel.childTicket t votes f now i) :=
  ⟨by simp [Kernel.childTicket], by simp [Kernel.childTicket]⟩

/-- The findings come out in order, with the tickets they name. -/
theorem spawnLoop_keeps (t : Ticket) (votes : List Vote) (fs : List Finding) :
    Triple (Stored T) (K.spawnLoop t votes fs)
      (fun a w => unlinked a.2 = unlinked fs ∧ Stored T w) (Stored T) := by
  induction fs with
  | nil => exact Triple.pure fun _ hw => ⟨rfl, hw⟩
  | cons f fs ih =>
    have hrest : ∀ (next : List String × List Finding → KernelM (List String × List Finding))
        (spawned : List String → List String) (i : Option String),
        (∀ a, next a = pure (spawned a.1, { f with ticketId := i } :: a.2)) →
        Triple (Stored T) (K.spawnLoop t votes fs >>= next)
          (fun a w => unlinked a.2 = unlinked (f :: fs) ∧ Stored T w) (Stored T) := by
      intro next spawned i hnext
      refine Triple.bind ih fun a => Triple.assume fun ha => ?_
      rw [hnext]
      refine Triple.pure fun w hw => ⟨?_, hw⟩
      simpa [unlinked, Finding.unlinked] using ha
    unfold Kernel.spawnLoop
    split
    · exact hrest _ id f.ticketId fun _ => rfl
    · refine Triple.bind (Triple.look (Q := fun _ => Stored T) fun _ hw => hw) fun known => ?_
      split
      · refine Triple.bind (M := fun _ => Stored T) (Triple.write (fun _ hw => hw) fun _ hw =>
          hw.quiet rfl rfl rfl) fun _ => ?_
        exact hrest _ id _ fun _ => rfl
      · refine Triple.bind now_keeps fun now => Triple.bind nextTicketId_keeps fun i => ?_
        refine Triple.bind (trackChild_keeps (childTicket_tidy ..)) fun _ => ?_
        exact hrest _ (i :: ·) (some i) fun _ => rfl

theorem spawnBugTickets_keeps (t : Ticket) (votes : List Vote) :
    Triple (Stored T) (K.spawnBugTickets t votes)
      (fun a w => (∃ fs, a.2 = { t with findings := fs } ∧
        unlinked fs = unlinked (triage K.text.route t.findings)) ∧ Stored T w) (Stored T) := by
  refine Triple.bind (spawnLoop_keeps t votes _) fun a => Triple.assume fun ha => ?_
  exact Triple.pure fun _ hw => ⟨⟨a.2, rfl, ha⟩, hw⟩

theorem noteSpawned_keeps {t : Ticket} (ht : t.id = T.id) (spawned : List String) :
    Triple (Stored T) (K.noteSpawned t spawned) (fun _ => Stored T) (Stored T) := by
  unfold Kernel.noteSpawned
  split
  · exact Triple.pure fun _ hw => hw
  · exact append_keeps ht

theorem writeSop_keeps {t : Ticket} (ht : t.id = T.id) :
    Triple (Stored T) (K.writeSop t)
      (fun a w => (∃ refs, a.1 = { t with sop := some refs }) ∧ Stored T w) (Stored T) := by
  refine Triple.bind raisedBy_keeps fun rendered => Triple.assume fun _ => ?_
  refine Triple.bind file_keeps fun _ => Triple.bind file_keeps fun _ =>
    Triple.bind file_keeps fun _ => Triple.bind (append_keeps ht) fun _ => ?_
  exact Triple.pure fun _ hw => ⟨⟨_, rfl⟩, hw⟩

/-! ## One close -/

/-- The ticket `t` as a close of `T` makes it: analysed, with the votes of the
    diagnosis behind those it had. -/
structure Round (K : Kernel) (T : Ticket) (r : RcaResult) (t : Ticket) : Prop where
  diagnosed : K.diagnosis T = .ok r
  analysed : Analysed K T r t
  votes : t.votes = T.votes ++ r.votes

theorem Round.tidy {r : RcaResult} {t : Ticket} (h : Round K T r t) (hT : Tidy T) : Tidy t :=
  ⟨by rw [h.analysed.steps]; exact hT.unskipped, h.analysed.distinct⟩

/-- What a close that stops early leaves of the ticket: all of it, or the
    analysed one. -/
def HalfClosed (K : Kernel) (T : Ticket) (w : World) : Prop :=
  Stored T w ∨ ∃ C r, Round K T r C ∧ C.state = T.state ∧ Stored C w

/-- What a close that returns leaves: the returned ticket, in the state its
    steps and findings call for. -/
def Closed (K : Kernel) (T A : Ticket) (w : World) : Prop :=
  (∃ r, Round K T r A ∧ A.state = Kernel.finalState A) ∧ Stored A w

theorem finalState_congr {t u : Ticket} (hsteps : u.steps = t.steps)
    (hfindings : u.findings.isEmpty = t.findings.isEmpty) :
    Kernel.finalState u = Kernel.finalState t := by
  rw [Kernel.finalState, Kernel.finalState, Kernel.needsReview, Kernel.needsReview,
    Kernel.anyFailed, Kernel.anyFailed, hsteps, hfindings]

/-- The last save: the analysed ticket changes its state. -/
theorem finish_closes {C : Ticket} {r : RcaResult} (hround : Round K T r C)
    (hstate : C.state = T.state) (reason : String) :
    Triple (Stored C) (K.transition C (Kernel.finalState C) reason) (Closed K T)
      (HalfClosed K T) := by
  have hhalf : ∀ w, Stored C w → HalfClosed K T w := fun w hw =>
    Or.inr ⟨C, r, hround, hstate, hw⟩
  unfold Kernel.transition
  refine Triple.bind now_keeps fun at_ => ?_
  split
  · exact Triple.raise hhalf
  · rename_i C' hmoved
    obtain rfl : C.moved (Kernel.finalState C) at_ reason = C' := by
      unfold Ticket.transition at hmoved
      split at hmoved
      · exact Option.some.inj hmoved
      · cases hmoved
    have hround' : Round K T r (C.moved (Kernel.finalState C) at_ reason) :=
      ⟨hround.diagnosed, ⟨hround.analysed.id, hround.analysed.title, hround.analysed.steps,
        hround.analysed.rca, hround.analysed.findings⟩, hround.votes⟩
    refine Triple.bind ((append_keeps rfl).weaken hhalf)
      fun _ => ?_
    refine Triple.bind (M := fun _ => Closed K T (C.moved (Kernel.finalState C) at_ reason))
      (Triple.write hhalf fun w hw => ?_) fun _ => Triple.pure fun _ hw => hw
    have htidy : Tidy (C.moved (Kernel.finalState C) at_ reason) :=
      let h := hw.sound.tidy _ C hw.ticket
      ⟨h.unskipped, h.distinct⟩
    exact ⟨⟨r, hround', rfl⟩, hw.sound.saveTicket htidy (Or.inl (by simp [hw.ticket, Ticket.moved])),
      World.tickets_saveTicket_self ..⟩

theorem analyseAndClose_closes (T : Ticket) :
    Triple (Stored T) (K.analyseAndClose T) (Closed K T) (HalfClosed K T) := by
  have hkeep : ∀ w, Stored T w → HalfClosed K T w := fun _ hw => Or.inl hw
  unfold Kernel.analyseAndClose
  refine Triple.bind ((collectLogs_keeps T).weaken hkeep)
    fun logs => ?_
  refine Triple.bind ((append_keeps (T := T) rfl).weaken hkeep)
    fun _ => ?_
  refine Triple.bind ((analyse_keeps (T := T) (t := { T with logs := some logs }) rfl).weaken hkeep)
    fun a => Triple.assume fun ⟨r, hr, ha⟩ => ?_
  subst ha
  refine Triple.bind ((spawnBugTickets_keeps (T := T) _ _).weaken hkeep)
    fun b => Triple.assume fun ⟨fs, hb, hfs⟩ => ?_
  obtain ⟨spawned, t⟩ := b
  obtain rfl : t = _ := hb
  refine Triple.bind ((noteSpawned_keeps (T := T)
    (t := { Kernel.merged { T with logs := some logs } r with findings := fs }) rfl _).weaken hkeep)
    fun _ => ?_
  refine Triple.bind ((writeSop_keeps (T := T)
    (t := { Kernel.merged { T with logs := some logs } r with findings := fs }) rfl).weaken hkeep)
    fun c => Triple.assume fun ⟨refs, hc⟩ => ?_
  obtain ⟨C, rendered⟩ := c
  obtain rfl : C = _ := hc
  have hround : Round K T r { Kernel.merged { T with logs := some logs } r with
      findings := fs, sop := some refs } :=
    ⟨hr, ⟨rfl, rfl, rfl, rfl, hfs⟩, rfl⟩
  refine Triple.bind (M := fun _ => Stored _) (Triple.write hkeep fun w hw => ?_) fun _ =>
    finish_closes hround rfl _
  have htidy := hround.tidy (hw.sound.tidy _ T hw.ticket)
  exact ⟨hw.sound.saveTicket htidy (Or.inl (by simp [hw.ticket, Kernel.merged])),
    World.tickets_saveTicket_self ..⟩

/-! ## Closes that die -/

/-- To `resume`, a ticket in Analysing is one to close. -/
theorem resume_analysing {C : Ticket} {w : World} (hC : w.tickets C.id = some C)
    (hstate : C.state = .analysing) (n : Nat) :
    K.resume C.id w n = K.analyseAndClose C w n := by
  have hload : (store.load C.id : KernelM Ticket) w n = .ok C w n := by
    simp only [store.load, Prog.look, bind, hC]
    rfl
  unfold Kernel.resume
  simp only [bind, hload]
  simp [Ticket.finished, TicketState.terminal, hstate]

/-- The worlds left by closes of `T` that died: the first one, and the resumes
    after it that died in turn. -/
inductive ClosingDied (K : Kernel) (T : Ticket) (w : World) : World → Prop where
  | close {w' : World} (n : Nat) (h : K.analyseAndClose T w n = .died w') : ClosingDied K T w w'
  | resume {w' w'' : World} (n : Nat) (h : ClosingDied K T w w')
      (hdied : K.resume T.id w' n = .died w'') : ClosingDied K T w w''

/-- What is left of the ticket: all of it, or an analysed one with votes of
    the diagnosis on it already. -/
def Leftover (K : Kernel) (T : Ticket) (r : RcaResult) (w : World) : Prop :=
  Stored T w ∨ ∃ C more, Analysed K T r C ∧ C.state = .analysing ∧ C.votes = T.votes ++ more ∧
    (more = [] ↔ r.votes = []) ∧ Stored C w

/-- One more close from what is left, returned or not, analyses `T` once more. -/
theorem Round.from_leftover {r r' : RcaResult} {C D : Ticket} {more : List Vote}
    (hr : K.diagnosis T = .ok r) (hT : Tidy T) (hC : Analysed K T r C)
    (hvotes : C.votes = T.votes ++ more) (h : Round K C r' D) :
    Analysed K T r D ∧ D.votes = T.votes ++ (more ++ r.votes) := by
  obtain ⟨hD, hsame⟩ := hC.again hr hT.distinct h.diagnosed h.analysed
  refine ⟨hD, ?_⟩
  rw [h.votes, hvotes, hsame, List.append_assoc]

theorem leftover_of_half {r : RcaResult} {C : Ticket} {w : World} (hr : K.diagnosis T = .ok r)
    (hT : Tidy T) (hstate : T.state = .analysing) {more : List Vote}
    (hC : C = T ∧ more = [] ∨ Analysed K T r C ∧ C.state = .analysing ∧ (more = [] ↔ r.votes = []))
    (hvotes : C.votes = T.votes ++ more) (h : HalfClosed K C w) : Leftover K T r w := by
  rcases hC with ⟨rfl, rfl⟩ | ⟨hC, hCs, hmore⟩
  · rcases h with h | ⟨D, r', hround, hD, hstored⟩
    · exact Or.inl h
    · obtain rfl : r = r' := Except.ok.inj (hr.symm.trans hround.diagnosed)
      exact Or.inr ⟨D, r.votes, hround.analysed, hD.trans hstate, hround.votes, Iff.rfl, hstored⟩
  · rcases h with h | ⟨D, r', hround, hD, hstored⟩
    · exact Or.inr ⟨C, more, hC, hCs, hvotes, hmore, h⟩
    · obtain ⟨hDa, hDv⟩ := hround.from_leftover hr hT hC hvotes
      refine Or.inr ⟨D, more ++ r.votes, hDa, hD.trans hCs, hDv, ?_, hstored⟩
      rw [List.append_eq_nil_iff, hmore, and_self]

/-- A triple read at a death. -/
theorem died_half {C : Ticket} {w w' : World} {n : Nat} (hC : Stored C w)
    (h : K.analyseAndClose C w n = .died w') : HalfClosed K C w' := by
  have hsat := analyseAndClose_closes (K := K) C w n hC
  rwa [h] at hsat

theorem returned_closed {C A : Ticket} {w w' : World} {n k : Nat} (hC : Stored C w)
    (h : K.analyseAndClose C w n = .ok A w' k) : Closed K C A w' := by
  have hsat := analyseAndClose_closes (K := K) C w n hC
  rwa [h] at hsat

theorem ClosingDied.leftover {r : RcaResult} {w w' : World} (h : ClosingDied K T w w')
    (hr : K.diagnosis T = .ok r) (hw : Stored T w) (hstate : T.state = .analysing) :
    Leftover K T r w' := by
  have hT : Tidy T := hw.sound.tidy _ T hw.ticket
  induction h with
  | close n hdied =>
    exact leftover_of_half hr hT hstate (Or.inl ⟨rfl, rfl⟩) (by simp) (died_half hw hdied)
  | resume n _ hdied ih =>
    rcases ih with hstored | ⟨C, more, hC, hCs, hvotes, hmore, hstored⟩
    · rw [resume_analysing hstored.ticket hstate] at hdied
      exact leftover_of_half hr hT hstate (Or.inl ⟨rfl, rfl⟩) (by simp) (died_half hstored hdied)
    · rw [← hC.id, resume_analysing hstored.ticket hCs] at hdied
      exact leftover_of_half hr hT hstate (Or.inr ⟨hC, hCs, hmore⟩) hvotes
        (died_half hstored hdied)

/-! ## The same outcome -/

/-- Both tickets are there and agree in votes, findings up to the ids of the
    bug tickets, RCA and state. -/
def SameOutcome (a b : Option Ticket) : Prop :=
  ∃ A B, a = some A ∧ b = some B ∧ A.votes = B.votes ∧ unlinked A.findings = unlinked B.findings ∧
    A.rca = B.rca ∧ A.state = B.state

theorem Analysed.agree {r : RcaResult} {A B : Ticket} (hA : Analysed K T r A)
    (hB : Analysed K T r B) :
    unlinked A.findings = unlinked B.findings ∧ A.rca = B.rca ∧
      Kernel.finalState A = Kernel.finalState B := by
  have hfindings : unlinked A.findings = unlinked B.findings := hA.findings.trans hB.findings.symm
  refine ⟨hfindings, hA.rca.trans hB.rca.symm,
    finalState_congr (hA.steps.trans hB.steps.symm) ?_⟩
  have hlen := congrArg List.length hfindings
  simp only [unlinked, List.length_map] at hlen
  rw [Bool.eq_iff_iff, List.isEmpty_iff_length_eq_zero, List.isEmpty_iff_length_eq_zero, hlen]

/-- What the resumed close stores, and how often it was voted on before. -/
theorem resumed_outcome {r : RcaResult} {B : Ticket} {w' w₂ : World} {n k : Nat}
    (hr : K.diagnosis T = .ok r) (hT : Tidy T) (hstate : T.state = .analysing)
    (hleft : Leftover K T r w') (hB : K.resume T.id w' n = .ok B w₂ k) :
    w₂.tickets T.id = some B ∧ B.state = Kernel.finalState B ∧ Analysed K T r B ∧
      ∃ more, B.votes = T.votes ++ (more ++ r.votes) ∧
        (more = [] ↔ w'.tickets T.id = some T ∨ r.votes = []) := by
  rcases hleft with hstored | ⟨C, more, hC, hCs, hvotes, hmore, hstored⟩
  · rw [resume_analysing hstored.ticket hstate] at hB
    obtain ⟨⟨r', hround, hfinal⟩, hend⟩ := returned_closed hstored hB
    obtain rfl : r = r' := Except.ok.inj (hr.symm.trans hround.diagnosed)
    exact ⟨hround.analysed.id ▸ hend.ticket, hfinal, hround.analysed, [], hround.votes,
      by simp [hstored.ticket]⟩
  · rw [← hC.id, resume_analysing hstored.ticket hCs] at hB
    obtain ⟨⟨r', hround, hfinal⟩, hend⟩ := returned_closed hstored hB
    obtain ⟨hBa, hBv⟩ := hround.from_leftover hr hT hC hvotes
    refine ⟨hBa.id ▸ hend.ticket, hfinal, hBa, more, hBv, hmore.trans ⟨Or.inr, ?_⟩⟩
    rintro (hsame | hnone)
    · -- the ticket is still `T`, so it has no votes more than `T`
      have hCT : C = T := by
        have hticket := hstored.ticket
        rw [hC.id, hsame] at hticket
        exact (Option.some.inj hticket).symm
      rw [hCT] at hvotes
      exact hmore.mp (List.append_right_eq_self.mp hvotes.symm)
    · exact hnone

/-- **Closing across crashes**: a ticket in Analysing whose close died, any
    number of times and at any writes, ends as it would have without, exactly
    when the resume that finishes it finds the ticket as it was before the
    first close, or the diagnosis has no votes. -/
theorem closing_idempotent_iff (cs : List (KernelCall × Nat)) (K : Kernel) (T A B : Ticket)
    (w' w₁ w₂ : World) (m n k l : Nat)
    (hT : (session KernelCall.prog {} cs).tickets T.id = some T) (hstate : T.state = .analysing)
    (hA : K.analyseAndClose T (session KernelCall.prog {} cs) m = .ok A w₁ k)
    (hdied : ClosingDied K T (session KernelCall.prog {} cs) w')
    (hB : K.resume T.id w' n = .ok B w₂ l) :
    SameOutcome (w₁.tickets T.id) (w₂.tickets T.id) ↔
      w'.tickets T.id = some T ∨ ∀ r, K.diagnosis T = .ok r → r.votes = [] := by
  have hw : Stored T (session KernelCall.prog {} cs) := ⟨session_sound cs, hT⟩
  have htidy : Tidy T := hw.sound.tidy _ T hT
  obtain ⟨⟨r, hround, hfinal⟩, hend⟩ := returned_closed hw hA
  have hAT : w₁.tickets T.id = some A := hround.analysed.id ▸ hend.ticket
  obtain ⟨hBT, hBfinal, hBa, more, hvotes, hmore⟩ :=
    resumed_outcome hround.diagnosed htidy hstate (hdied.leftover hround.diagnosed hw hstate) hB
  obtain ⟨hfindings, hrca, hstates⟩ := hround.analysed.agree hBa
  have honly : (∀ r', K.diagnosis T = .ok r' → r'.votes = []) ↔ r.votes = [] := by
    rw [hround.diagnosed]
    exact ⟨fun h => h r rfl, fun h r' hr' => Except.ok.inj hr' ▸ h⟩
  rw [honly, ← hmore]
  constructor
  · rintro ⟨A', B', hA', hB', hsame, -⟩
    obtain rfl : A = A' := Option.some.inj (hAT.symm.trans hA')
    obtain rfl : B = B' := Option.some.inj (hBT.symm.trans hB')
    rw [hround.votes, hvotes, List.append_cancel_left_eq] at hsame
    exact List.append_left_eq_self.mp hsame.symm
  · intro hnone
    refine ⟨A, B, hAT, hBT, ?_, hfindings, hrca, ?_⟩
    · rw [hround.votes, hvotes, hnone, List.nil_append]
    · rw [hfinal, hBfinal, hstates]

/-! ### A burn-in that fails -/

/-- The step fails, and nothing is configured to find out why. -/
def fanKernel : Kernel := demoKernel burnInPlan fun _ => { exitCode := some 1 }

def fanVote : Vote where
  voter := "model-b"
  verdict := .approve
  confidence := { neg := false, mant := 9, scale := 1 }
  reason := "The log names the fan."
  voter_ne := by decide
  reason_ne := by decide
  confidence_unit := by decide

/-- A pipeline that blames the fan, with one vote for it. -/
def fanPipeline : RcaPipeline where
  drafter _ := .ok { cause := "The fan stopped.", confidence := .ofNat 1 }
  crossChecker := some fun _ _ =>
    .ok { agreed := true, votes := [fanVote], sentence := "Agreed." }
  routing _ := {}

def votingKernel : Kernel := { fanKernel with rcaPipeline := some fanPipeline }

/-- The process dies when the ticket is saved in Analysing. -/
def burnedIn (K : Kernel) : List (KernelCall × Nat) := [(⟨K, .run demoRaw⟩, 16)]

/-- The ticket is resumed. -/
def resumed (K : Kernel) : KernelCall := ⟨K, .resume "T-null-0001"⟩

/-- A close that returns, one that dies and a resume that finishes it, from
    what they are observed to do. -/
theorem closes_of_runs {w w' : World} {i : String} {m n l : Nat} (hw : Sound w)
    (hstate : (w.tickets i).map (·.state) = some .analysing)
    (hA : (K.resume i w m).value?.isSome) (hdied : (K.resume i w n).dead = true)
    (hw' : (K.resume i w n).world = w') (hB : (K.resume i w' l).value?.isSome) :
    ∃ T A B w₁ w₂ k k', T.id = i ∧ w.tickets T.id = some T ∧ T.state = .analysing ∧
      K.analyseAndClose T w m = .ok A w₁ k ∧ ClosingDied K T w w' ∧
      K.resume T.id w' l = .ok B w₂ k' := by
  obtain ⟨T, hT, hanalysing⟩ := Option.map_eq_some_iff.mp hstate
  obtain rfl : T.id = i := hw.keyed i T hT
  obtain ⟨A, k, hA⟩ := Result.eq_ok hA
  obtain ⟨B, k', hB⟩ := Result.eq_ok hB
  have hdied := Result.eq_died hdied
  rw [resume_analysing hT hanalysing] at hA hdied hw'
  rw [hw'] at hdied
  exact ⟨T, A, B, _, _, k, k', rfl, hT, hanalysing, hA, .close n hdied, hB⟩

/-- Without votes it is no matter that the first close dies between its two
    saves, after its ninth write. -/
theorem fan_close_same_outcome :
    ∃ T A B w' w₁ w₂ k l, T.id = "T-null-0001" ∧
      fanKernel.analyseAndClose T (session KernelCall.prog {} (burnedIn fanKernel)) 20 =
        .ok A w₁ k ∧
      ClosingDied fanKernel T (session KernelCall.prog {} (burnedIn fanKernel)) w' ∧
      fanKernel.resume T.id w' 20 = .ok B w₂ l ∧
      SameOutcome (w₁.tickets T.id) (w₂.tickets T.id) := by
  have hruns : ((session KernelCall.prog {} (burnedIn fanKernel)).tickets "T-null-0001").map
        (·.state) = some .analysing ∧
      (fanKernel.resume "T-null-0001" (session KernelCall.prog {} (burnedIn fanKernel))
        20).value?.isSome ∧
      (fanKernel.resume "T-null-0001" (session KernelCall.prog {} (burnedIn fanKernel))
        9).dead = true ∧
      (fanKernel.resume "T-null-0001" (fanKernel.resume "T-null-0001"
        (session KernelCall.prog {} (burnedIn fanKernel)) 9).world 20).value?.isSome := by
    decide +kernel
  obtain ⟨T, A, B, w₁, w₂, k, l, hid, hT, hstate, hA, hdied, hB⟩ :=
    closes_of_runs (session_sound _) hruns.1 hruns.2.1 hruns.2.2.1 rfl hruns.2.2.2
  refine ⟨T, A, B, _, w₁, w₂, k, l, hid, hA, hdied, hB, ?_⟩
  refine (closing_idempotent_iff _ fanKernel T A B _ w₁ w₂ 20 20 k l hT hstate hA hdied hB).mpr
    (Or.inr fun r hr => ?_)
  obtain rfl := Except.ok.inj hr
  rfl

theorem fan_voted_on_twice :
    ¬ SameOutcome
      ((session KernelCall.prog {} (burnedIn votingKernel ++ [(resumed votingKernel, 20)])).tickets
        "T-null-0001")
      ((session KernelCall.prog {} (burnedIn votingKernel ++
        [(resumed votingKernel, 13), (resumed votingKernel, 20)])).tickets "T-null-0001") := by
  rintro ⟨A, B, hA, hB, hvotes, -⟩
  have hcount : ((session KernelCall.prog {}
      (burnedIn votingKernel ++ [(resumed votingKernel, 20)])).tickets "T-null-0001").map
        (·.votes.length) = some 1 ∧
      ((session KernelCall.prog {} (burnedIn votingKernel ++
        [(resumed votingKernel, 13), (resumed votingKernel, 20)])).tickets "T-null-0001").map
        (·.votes.length) = some 2 := by
    decide +kernel
  rw [hA, hB, Option.map_some, Option.map_some, hvotes, Option.some.injEq,
    Option.some.injEq] at hcount
  omega

end Slas
