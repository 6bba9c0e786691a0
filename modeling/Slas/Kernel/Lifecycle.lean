/-
  Slas.Kernel.Lifecycle

  The history of a ticket and the changes of state in its journal, over sessions of kernel
  calls and of the failures the service records (`RunRegistry._fail_ticket`).

  Every change of state is journalled and then saved.  A process that dies between the two
  leaves a change in the journal that the history does not have, and the call after it makes
  one from the same state again.  `Tracks` is the one relation between the two lists, with the
  number of changes that were not saved; `lifecycle_of_session` says it of every session.
-/

import Slas.Lib.Ends
import Slas.Kernel.Approvals

namespace Slas

open Crash

/-! ## The failures of the service -/

/-- `_fail_ticket`: an interrupted ticket is closed as Failed, with the sentence. -/
def Kernel.failTicket (K : Kernel) (ticketId sentence : String) : KernelM Unit := do
  match ← Prog.look (fun w : World => w.tickets ticketId) with
  | none => pure ()
  | some ticket =>
    if ticket.finished ∨ sentence = "" then pure ()
    else
      let at_ ← K.now
      match ticket.transition .failed at_ sentence with
      | none => pure ()
      | some ticket' =>
        journal.append K ticket.id .state
          [("from", jStr ticket.state.value), ("to", jStr TicketState.failed.value),
           ("reason", jStr sentence)] none
        store.save ticket'

/-- What the service does with a ticket: a call of the kernel, or the end of a run that
    raised. -/
inductive ServiceCall where
  | kernel (call : KernelCall)
  | fail (K : Kernel) (ticketId sentence : String)

def ServiceCall.prog : ServiceCall → KernelM Unit
  | .kernel call => do
    let _ ← call.prog
    pure ()
  | .fail K ticketId sentence => K.failTicket ticketId sentence

/-! ## Histories and journals -/

/-- What the journal is told of a change. -/
def StateChange.told (c : StateChange) : String × String × String :=
  (c.fromState.value, c.toState.value, c.reason)

def JournalEntry.text (e : JournalEntry) (key : String) : Option String :=
  match e.payload.lookup key with
  | some (.str s) => some s
  | _ => none

/-- The change of state that an entry is about; the one of the ingest is about none. -/
def JournalEntry.change (e : JournalEntry) : Option (String × String × String) :=
  if e.kind = .state then do
    return (← e.text "from", ← e.text "to", ← e.text "reason")
  else none

def changes (es : List JournalEntry) : List (String × String × String) :=
  es.filterMap JournalEntry.change

/-- A path in `TRANSITIONS`, from Open. -/
inductive Path : List StateChange → TicketState → Prop where
  | nil : Path [] .open
  | snoc {history : List StateChange} {c : StateChange} (h : Path history c.fromState)
      (hcan : c.fromState.canTransition c.toState = true) : Path (history ++ [c]) c.toState

/-- A journal beside a history: each of its changes is one that the table allows from the
    state stored then, and `lost` of them were not saved. -/
inductive Tracks : List StateChange → TicketState → List (String × String × String) → Nat →
    Prop where
  | created : Tracks [] .open [] 0
  | saved {history : List StateChange} {told : List (String × String × String)} {lost : Nat}
      {c : StateChange} (h : Tracks history c.fromState told lost)
      (hcan : c.fromState.canTransition c.toState = true) :
      Tracks (history ++ [c]) c.toState (told ++ [c.told]) lost
  | lost {history : List StateChange} {told : List (String × String × String)} {lost : Nat}
      {c : StateChange} (h : Tracks history c.fromState told lost)
      (hcan : c.fromState.canTransition c.toState = true) :
      Tracks history c.fromState (told ++ [c.told]) (lost + 1)

namespace Tracks

variable {history : List StateChange} {s : TicketState} {told : List (String × String × String)}
  {lost : Nat}

theorem path (h : Tracks history s told lost) : Path history s := by
  induction h with
  | created => exact .nil
  | saved _ hcan ih => exact .snoc ih hcan
  | lost _ _ ih => exact ih

/-- The saved changes are in the journal in their order. -/
theorem sublist (h : Tracks history s told lost) :
    List.Sublist (history.map StateChange.told) told := by
  induction h with
  | created => exact .slnil
  | saved _ _ ih =>
    rw [List.map_append]
    exact ih.append (List.Sublist.refl _)
  | lost _ _ ih => exact ih.trans (List.sublist_append_left _ _)

theorem length (h : Tracks history s told lost) : told.length = history.length + lost := by
  induction h with
  | created => rfl
  | saved _ _ ih => simp [ih]; omega
  | lost _ _ ih => simp [ih]; omega

/-- With nothing lost the journal has the history itself. -/
theorem told_eq (h : Tracks history s told 0) : told = history.map StateChange.told := by
  refine (h.sublist.eq_of_length ?_).symm
  rw [h.length, List.length_map, Nat.add_zero]

/-- No change that the table forbids was ever journalled. -/
theorem allowed (h : Tracks history s told lost) :
    ∀ x ∈ told, ∃ c : StateChange, x = c.told ∧ c.fromState.canTransition c.toState = true := by
  induction h with
  | created => simp
  | saved _ hcan ih | lost _ hcan ih =>
    intro x hx
    rcases List.mem_append.mp hx with hx | hx
    · exact ih x hx
    · exact ⟨_, List.mem_singleton.mp hx, hcan⟩

end Tracks

theorem Path.unique {history : List StateChange} {s s' : TicketState} (h : Path history s)
    (h' : Path history s') : s = s' := by
  cases h with
  | nil =>
    generalize hnil : ([] : List StateChange) = history at h'
    cases h' with
    | nil => rfl
    | snoc => simp at hnil
  | snoc h hcan =>
    rename_i before c
    generalize hsnoc : before ++ [c] = history at h'
    cases h' with
    | nil => simp at hsnoc
    | snoc => rw [(List.append_inj' hsnoc rfl).2 |> List.singleton_inj.mp]

theorem TicketState.terminal_canTransition {s target : TicketState} (h : s.terminal = true) :
    s.canTransition target = false := by
  cases s <;> first | rfl | cases h

/-- A path that reached a terminal state goes no further. -/
theorem Path.eq_of_terminal {before after : List StateChange} {s s' : TicketState}
    (h : Path before s) (hs : s.terminal = true) (h' : Path after s') (hpre : before <+: after) :
    after = before ∧ s' = s := by
  induction h' with
  | nil =>
    obtain rfl := List.prefix_nil.mp hpre
    exact ⟨rfl, Path.nil.unique h⟩
  | snoc h' hcan ih =>
    rcases List.prefix_concat_iff.mp hpre with heq | hpre
    · exact ⟨heq.symm, (Path.snoc h' hcan).unique (heq ▸ h)⟩
    · obtain ⟨-, hstate⟩ := ih hpre
      rw [hstate, TicketState.terminal_canTransition hs] at hcan
      cases hcan

/-! ## The invariant -/

/-- Every stored ticket stands under its id, with a journal of which at most `k` changes were
    not saved; and it has all the history that it had in `b`. -/
structure Chron (b : World) (k : Nat) (w : World) : Prop where
  keyed : ∀ i t, w.tickets i = some t → t.id = i
  fresh : ∀ a n, w.sequence a < n →
    w.tickets (makeTicketId a n) = none ∧ w.journals (makeTicketId a n) = []
  tracks : ∀ i t, w.tickets i = some t →
    ∃ lost ≤ k, Tracks t.history t.state (changes (w.journals i)) lost
  kept : ∀ i t, b.tickets i = some t → ∃ t', w.tickets i = some t' ∧ t.history <+: t'.history

/-- The ticket in memory has the history and the state of the stored one. -/
def InHand (t : Ticket) (w : World) : Prop :=
  ∃ T, w.tickets t.id = some T ∧ T.history = t.history ∧ T.state = t.state

variable {b w w' : World} {k : Nat} {t t' : Ticket} {e : JournalEntry} {K : Kernel} {i : String}

theorem Chron.mono {k' : Nat} (h : Chron b k w) (hk : k ≤ k') : Chron b k' w where
  keyed := h.keyed
  fresh := h.fresh
  tracks i t ht := by
    obtain ⟨lost, hle, htracks⟩ := h.tracks i t ht
    exact ⟨lost, hle.trans hk, htracks⟩
  kept := h.kept

/-- A world with the same tickets, journals and sequence. -/
theorem Chron.congr (h : Chron b k w) (ht : w'.tickets = w.tickets)
    (hj : w'.journals = w.journals) (hs : w'.sequence = w.sequence) : Chron b k w' := by
  obtain ⟨keyed, fresh, tracks, kept⟩ := h
  exact ⟨ht ▸ keyed, ht ▸ hj ▸ hs ▸ fresh, ht ▸ hj ▸ tracks, ht ▸ kept⟩

theorem Chron.bumpSequence (h : Chron b k w) (a : AgentName) : Chron b k (w.bumpSequence a) := by
  refine ⟨h.keyed, fun a' n hn => h.fresh a' n ?_, h.tracks, h.kept⟩
  rw [World.sequence_bumpSequence] at hn
  split at hn
  · rename_i ha
    rw [ha]
    omega
  · exact hn

theorem InHand.congr (h : InHand t w) (hid : t'.id = t.id) (hhistory : t'.history = t.history)
    (hstate : t'.state = t.state) : InHand t' w := by
  obtain ⟨T, hT, hh, hs⟩ := h
  exact ⟨T, hid ▸ hT, hh.trans hhistory.symm, hs.trans hstate.symm⟩

theorem InHand.isSome (h : InHand t w) : (w.tickets t.id).isSome := by
  obtain ⟨T, hT, -⟩ := h
  simp [hT]

theorem InHand.loaded (hw : Chron b k w) (h : w.tickets i = some t) : InHand t w :=
  ⟨t, hw.keyed i t h ▸ h, rfl, rfl⟩

/-- An entry of a journal in use. -/
theorem Chron.fresh_appendEntry (h : Chron b k w) (hi : (w.tickets i).isSome) (e : JournalEntry) :
    ∀ a n, (w.appendEntry i e).sequence a < n →
      (w.appendEntry i e).tickets (makeTicketId a n) = none ∧
        (w.appendEntry i e).journals (makeTicketId a n) = [] := by
  intro a n hn
  obtain ⟨hnone, hempty⟩ := h.fresh a n hn
  have hne : makeTicketId a n ≠ i := by
    rintro rfl
    rw [hnone] at hi
    cases hi
  exact ⟨hnone, by rw [World.journals_appendEntry, if_neg hne]; exact hempty⟩

/-- An entry that is about no change. -/
theorem Chron.jot (h : Chron b k w) (hi : (w.tickets i).isSome) (he : e.change = none) :
    Chron b k (w.appendEntry i e) := by
  refine ⟨h.keyed, h.fresh_appendEntry hi e, fun j t ht => ?_, h.kept⟩
  obtain ⟨lost, hle, htracks⟩ := h.tracks j t ht
  refine ⟨lost, hle, ?_⟩
  rw [World.journals_appendEntry]
  split
  · rename_i hj
    have hsame : changes (w.journals i ++ [e]) = changes (w.journals i) := by
      simp [changes, he]
    rw [hsame, ← hj]
    exact htracks
  · exact htracks

/-- A change is journalled, and not saved yet. -/
theorem Chron.announce (h : Chron b k w) {T : Ticket} {c : StateChange}
    (hT : w.tickets i = some T) (hfrom : c.fromState = T.state)
    (hcan : c.fromState.canTransition c.toState = true) (he : e.change = some c.told) :
    Chron b (k + 1) (w.appendEntry i e) := by
  refine ⟨h.keyed, h.fresh_appendEntry (by simp [hT]) e, fun j t ht => ?_, h.kept⟩
  obtain ⟨lost, hle, htracks⟩ := h.tracks j t ht
  rw [World.journals_appendEntry]
  split
  · rename_i hj
    subst hj
    obtain rfl := Option.some.inj (hT.symm.trans ht)
    have hsnoc : changes (w.journals j ++ [e]) = changes (w.journals j) ++ [c.told] := by
      simp [changes, he]
    rw [hsnoc]
    exact ⟨lost + 1, Nat.succ_le_succ hle, hfrom ▸ .lost (hfrom ▸ htracks) hcan⟩
  · exact ⟨lost, hle.trans (Nat.le_succ k), htracks⟩

/-- A ticket is saved: its own history and journal decide, and the others are as they were. -/
theorem Chron.saveTicket {k' : Nat} (h : Chron b k' w)
    (hid : (w.tickets t.id).isSome ∨ ∃ a, t.id = makeTicketId a (w.sequence a))
    (hothers : ∀ j u, j ≠ t.id → w.tickets j = some u →
      ∃ lost ≤ k, Tracks u.history u.state (changes (w.journals j)) lost)
    (htracks : ∃ lost ≤ k, Tracks t.history t.state (changes (w.journals t.id)) lost)
    (hkept : ∀ T, w.tickets t.id = some T → T.history <+: t.history) :
    Chron b k (w.saveTicket t) := by
  refine ⟨fun j u hu => ?_, fun a n hn => ?_, fun j u hu => ?_, fun j u hu => ?_⟩
  · rw [World.tickets_saveTicket] at hu
    split at hu
    · obtain rfl := Option.some.inj hu
      exact (‹j = t.id›).symm
    · exact h.keyed j u hu
  · obtain ⟨hnone, hempty⟩ := h.fresh a n hn
    have hne : makeTicketId a n ≠ t.id := by
      intro heq
      rcases hid with hsome | ⟨a', ha'⟩
      · rw [← heq, hnone] at hsome
        cases hsome
      · obtain ⟨rfl, rfl⟩ := makeTicketId_inj.mp (heq.trans ha')
        exact absurd hn (Nat.lt_irrefl _)
    exact ⟨by rw [World.tickets_saveTicket, if_neg hne]; exact hnone, hempty⟩
  · rw [World.tickets_saveTicket] at hu
    split at hu
    · rename_i hj
      obtain rfl := Option.some.inj hu
      exact hj ▸ htracks
    · exact hothers j u ‹_› hu
  · obtain ⟨u', hu', hpre⟩ := h.kept j u hu
    rw [World.tickets_saveTicket]
    split
    · rename_i hj
      exact ⟨t, rfl, hpre.trans (hkept u' (hj ▸ hu'))⟩
    · exact ⟨u', hu', hpre⟩

/-- A ticket is saved over one of the same history. -/
theorem Chron.resave (h : Chron b k w) (ht : InHand t w) : Chron b k (w.saveTicket t) := by
  obtain ⟨T, hT, hhistory, hstate⟩ := ht
  refine h.saveTicket (Or.inl (by simp [hT])) (fun j u _ hu => h.tracks j u hu) ?_ fun T' hT' => ?_
  · exact hhistory ▸ hstate ▸ h.tracks _ T hT
  · obtain rfl := Option.some.inj (hT.symm.trans hT')
    exact hhistory ▸ List.prefix_rfl

theorem InHand.saved (t : Ticket) (w : World) : InHand t (w.saveTicket t) :=
  ⟨t, World.tickets_saveTicket_self w t, rfl, rfl⟩

/-- The change that was just journalled is saved. -/
theorem Chron.move (h : Chron b k w) (ht : InHand t w) {target : TicketState} {at_ : DateTime}
    {reason : String} (hcan : t.state.canTransition target = true)
    (he : e.change = some (t.state.value, target.value, reason)) :
    Chron b k ((w.appendEntry t.id e).saveTicket (t.moved target at_ reason)) := by
  obtain ⟨T, hT, hhistory, hstate⟩ := ht
  have hannounced : Chron b (k + 1) (w.appendEntry t.id e) :=
    h.announce (c := ⟨t.state, target, at_, reason⟩) hT hstate.symm hcan he
  refine hannounced.saveTicket (Or.inl (by simp [Ticket.moved, hT])) (fun j u hj hu => ?_) ?_
    fun T' hT' => ?_
  · have hne : j ≠ t.id := hj
    rw [World.journals_appendEntry, if_neg hne]
    exact h.tracks j u hu
  · obtain ⟨lost, hle, htracks⟩ := h.tracks _ T hT
    rw [hhistory, hstate] at htracks
    have hsnoc : changes ((w.appendEntry t.id e).journals t.id) =
        changes (w.journals t.id) ++ [(⟨t.state, target, at_, reason⟩ : StateChange).told] := by
      rw [World.journals_appendEntry_self]
      simp [changes, he, StateChange.told]
    refine ⟨lost, hle, ?_⟩
    change Tracks (t.history ++ [⟨t.state, target, at_, reason⟩]) target
      (changes ((w.appendEntry t.id e).journals t.id)) lost
    rw [hsnoc]
    exact .saved (c := ⟨t.state, target, at_, reason⟩) htracks hcan
  · obtain rfl := Option.some.inj (hT.symm.trans hT')
    rw [hhistory]
    exact List.prefix_append _ _

/-- A new ticket is saved under the last id that was allocated. -/
theorem Chron.create (h : Chron b k w) (hid : Allocated w t.id) (hstate : t.state = .open)
    (hhistory : t.history = []) : Chron b k (w.saveTicket t) := by
  refine h.saveTicket (Or.inr hid.id) (fun j u _ hu => h.tracks j u hu) ⟨0, Nat.zero_le k, ?_⟩
    fun T hT => ?_
  · rw [hstate, hhistory, hid.journal]
    exact .created
  · rw [hid.unused] at hT
    cases hT

/-- A ticket is still held when another is saved. -/
theorem InHand.other {u : Ticket} (h : InHand t w) (hne : u.id ≠ t.id) : InHand t (w.saveTicket u) := by
  obtain ⟨T, hT, hrest⟩ := h
  exact ⟨T, by rw [World.tickets_saveTicket, if_neg (Ne.symm hne)]; exact hT, hrest⟩

/-! ## What each program does to it -/

/-- From `P` the program keeps the invariant and, if it returns, establishes `Q`; a death may
    lose one more change. -/
abbrev Lives {α : Type} (b : World) (k : Nat) (P : World → Prop) (p : KernelM α)
    (Q : α → World → Prop) : Prop :=
  Ends (fun w => Chron b k w ∧ P w) p (fun a w => Chron b k w ∧ Q a w) (Chron b k)
    (Chron b (k + 1))

section Programs

variable {P : World → Prop}

theorem Chron.died (h : Chron b k w) : Chron b (k + 1) w := h.mono (Nat.le_succ k)

theorem Chron.tick (h : Chron b k w) : Chron b k w.tick := h.congr rfl rfl rfl

theorem pure_lives {α : Type} {a : α} {Q : α → World → Prop} (h : ∀ w, P w → Q a w) :
    Lives b k P (pure a : KernelM α) Q :=
  Ends.pure fun w hw => ⟨hw.1, h w hw.2⟩

theorem raise_lives {α : Type} {x : KernelError} {Q : α → World → Prop} :
    Lives b k P (Prog.raise x : KernelM α) Q :=
  Ends.raise fun _ hw => hw.1

theorem raisedBy_lives {α : Type} (x : Except String α) :
    Lives b k P (raisedBy x) fun _ => P :=
  Ends.ofExcept (fun _ _ _ hw => hw) fun _ hw => hw.1

theorem now_lives (hP : ∀ w, P w → P w.tick) : Lives b k P K.now fun _ => P :=
  Ends.quiet fun w hw => ⟨hw.1.tick, hP w hw.2⟩

/-- A write of something other than tickets and journals. -/
theorem write_lives {f : World → World} (hf : ∀ w, Chron b k w → P w → Chron b k (f w) ∧ P (f w)) :
    Lives b k P (Prog.write f) fun _ => P :=
  Ends.write (fun _ hw => hw.1.died) fun w hw => hf w hw.1 hw.2

theorem save_lives (t : Ticket) : Lives b k (InHand t) (store.save t) fun _ => InHand t :=
  Ends.write (fun _ hw => hw.1.died) fun w hw => ⟨hw.1.resave hw.2, .saved t w⟩

theorem load_lives : Lives b k (fun _ => True) (store.load i) InHand := by
  refine Ends.bind (M := fun o w => Chron b k w ∧ o = w.tickets i)
    (Ends.look fun w hw => ⟨hw.1, rfl⟩) fun o => ?_
  split
  · exact Ends.pure fun w hw => ⟨hw.1, .loaded hw.1 hw.2.symm⟩
  · exact Ends.raise fun _ hw => hw.1

theorem entries_lives : Lives b k P (journal.entries i) fun _ => P := by
  refine Ends.bind (M := fun _ w => Chron b k w ∧ P w) (Ends.look fun _ hw => hw) fun es => ?_
  split_ifs
  · exact Ends.pure fun _ hw => hw
  · exact Ends.raise fun _ hw => hw.1

/-- `append` reads the journal and the clock, then writes one entry. -/
theorem append_ends {Q : World → Prop} {kind : JournalKind} {payload : List (String × Json)}
    {stepId : Option String}
    (h : ∀ w e, Chron b k w → P w → e.kind = kind → e.payload = payload →
      Q (w.tick.appendEntry i e)) :
    Ends (fun w => Chron b k w ∧ P w) (journal.append K i kind payload stepId) (fun _ => Q)
      (Chron b k) (Chron b (k + 1)) := by
  refine Ends.bind entries_lives fun es => ?_
  refine Ends.bind (M := fun _ w' => ∃ w, (Chron b k w ∧ P w) ∧ w' = w.tick)
    (Ends.quiet fun w hw => ⟨w, hw, rfl⟩) fun at_ => ?_
  refine Ends.write ?_ ?_
  · rintro w' ⟨w, hw, rfl⟩
    exact hw.1.tick.died
  · rintro w' ⟨w, hw, rfl⟩
    exact h w _ hw.1 hw.2 rfl rfl

/-- An entry that is about no change. -/
theorem jot_lives {kind : JournalKind} {payload : List (String × Json)} {stepId : Option String}
    (hi : ∀ w, P w → (w.tickets i).isSome)
    (hP : ∀ w e, P w → P (w.tick.appendEntry i e))
    (hc : ∀ e : JournalEntry, e.kind = kind → e.payload = payload → e.change = none) :
    Lives b k P (journal.append K i kind payload stepId) fun _ => P :=
  append_ends fun w e hw hp hk hpayload =>
    ⟨hw.tick.jot (hi w hp) (hc e hk hpayload), hP w e hp⟩

theorem change_of_kind {e : JournalEntry} (h : e.kind ≠ .state) : e.change = none := by
  simp [JournalEntry.change, h]

/-- A note, an intent or an observation. -/
theorem note_lives {kind : JournalKind} {payload : List (String × Json)} {stepId : Option String}
    (hk : kind ≠ .state) (t : Ticket) :
    Lives b k (InHand t) (journal.append K t.id kind payload stepId) fun _ => InHand t :=
  jot_lives (fun _ hw => hw.isSome) (fun _ _ hw => hw) fun _ hkind _ =>
    change_of_kind (hkind ▸ hk)

/-- The change of a ticket is in the journal, and the ticket is not saved yet. -/
def Announced (b : World) (k : Nat) (t : Ticket) (target : TicketState) (reason : String)
    (w : World) : Prop :=
  ∃ w₀ e, Chron b k w₀ ∧ InHand t w₀ ∧ e.change = some (t.state.value, target.value, reason) ∧
    w = w₀.appendEntry t.id e

variable {target : TicketState} {reason : String}

theorem announce_ends : Ends (fun w => Chron b k w ∧ InHand t w)
    (journal.append K t.id .state [("from", jStr t.state.value), ("to", jStr target.value),
      ("reason", jStr reason)] none)
    (fun _ => Announced b k t target reason) (Chron b k) (Chron b (k + 1)) := by
  refine append_ends fun w e hw hheld hk hpayload => ⟨w.tick, e, hw.tick, hheld, ?_, rfl⟩
  unfold JournalEntry.change JournalEntry.text
  rw [if_pos hk, hpayload]
  rfl

/-- A death before the save loses the change. -/
theorem save_announced (hcan : t.state.canTransition target = true) (at_ : DateTime) :
    Ends (Announced b k t target reason) (store.save (t.moved target at_ reason))
      (fun _ w => Chron b k w ∧ InHand (t.moved target at_ reason) w)
      (Chron b k) (Chron b (k + 1)) := by
  refine Ends.write ?_ ?_
  · rintro w ⟨w₀, e, hw, ⟨T, hT, hhistory, hstate⟩, he, rfl⟩
    exact hw.announce (c := ⟨t.state, target, at_, reason⟩) hT hstate.symm hcan he
  · rintro w ⟨w₀, e, hw, hheld, he, rfl⟩
    exact ⟨hw.move hheld hcan he, .saved _ _⟩

theorem transition_lives : Lives b k (InHand t) (K.transition t target reason) InHand := by
  refine Ends.bind (now_lives fun _ hw => hw) fun at_ => ?_
  unfold Ticket.transition
  split
  · exact raise_lives
  · rename_i t' hmoved
    split at hmoved
    · rename_i hcan
      obtain rfl := Option.some.inj hmoved
      refine Ends.bind announce_ends fun _ => ?_
      exact Ends.bind (save_announced hcan at_) fun _ => Ends.pure fun _ hw => hw
    · cases hmoved

theorem failTicket_lives {sentence : String} :
    Lives b k (fun _ => True) (K.failTicket i sentence) fun _ _ => True := by
  refine Ends.bind (M := fun o w => Chron b k w ∧ o = w.tickets i)
    (Ends.look fun w hw => ⟨hw.1, rfl⟩) fun o => ?_
  split
  · exact Ends.pure fun _ hw => ⟨hw.1, trivial⟩
  · rename_i t
    split_ifs
    · exact Ends.pure fun _ hw => ⟨hw.1, trivial⟩
    · refine Ends.bind (M := fun _ w => Chron b k w ∧ InHand t w) ?_ fun at_ => ?_
      · refine Ends.quiet fun w hw => ?_
        have hheld : InHand t w := .loaded hw.1 hw.2.symm
        exact ⟨hw.1.tick, hheld⟩
      · unfold Ticket.transition
        split
        · exact Ends.pure fun _ hw => ⟨hw.1, trivial⟩
        · rename_i t' hmoved
          split at hmoved
          · rename_i hcan
            obtain rfl := Option.some.inj hmoved
            refine Ends.bind announce_ends fun _ => ?_
            exact (save_announced hcan at_).conseq (fun _ hw => hw)
              fun _ _ hw => ⟨hw.1, trivial⟩
          · cases hmoved

-- ----------------------------------------------------------------------------
-- From the ingest to the plan
-- ----------------------------------------------------------------------------

theorem nextTicketId_lives {a : AgentName} (hP : ∀ w, P w → P (w.bumpSequence a)) :
    Lives b k P (store.nextTicketId a) fun id w => P w ∧ Allocated w id := by
  refine Ends.bind (M := fun n w => (Chron b k w ∧ P w) ∧ n = w.sequence a + 1)
    (Ends.look fun w hw => ⟨hw, rfl⟩) fun n => ?_
  refine Ends.bind (M := fun _ w => Chron b k w ∧ P w ∧ Allocated w (makeTicketId a n)) ?_
    fun _ => Ends.pure fun _ hw => hw
  refine Ends.write ?_ ?_
  · rintro w ⟨⟨hw, -⟩, -⟩
    exact hw.died
  · rintro w ⟨⟨hw, hp⟩, rfl⟩
    obtain ⟨hnone, hempty⟩ := hw.fresh a (w.sequence a + 1) (Nat.lt_succ_self _)
    exact ⟨hw.bumpSequence a, hP w hp, ⟨a, by simp [World.sequence_bumpSequence]⟩, hnone, hempty⟩

theorem createTicket_lives {job : Job} :
    Lives b k (fun _ => True) (K.createTicket job) InHand := by
  refine Ends.bind (now_lives fun _ hw => hw) fun now => ?_
  refine Ends.bind (nextTicketId_lives fun _ hw => hw) fun id => ?_
  refine Ends.bind (M := fun _ w => Chron b k w ∧ InHand _ w) (Ends.write ?_ ?_)
    fun _ => Ends.pure fun _ hw => hw
  · exact fun w hw => hw.1.died
  · exact fun w hw => ⟨hw.1.create hw.2.2 rfl rfl, .saved _ _⟩

theorem attachPlan_lives {plan : Plan} :
    Lives b k (InHand t) (Kernel.attachPlan t plan) InHand := by
  unfold Kernel.attachPlan
  split
  · exact raise_lives
  · exact pure_lives fun _ hw => hw.congr rfl rfl rfl

theorem checkPlan_lives {plan : Plan} : Lives b k (InHand t) (K.checkPlan t plan) InHand := by
  unfold Kernel.checkPlan
  split
  · exact pure_lives fun _ hw => hw
  · split
    · refine Ends.bind (raisedBy_lives _) fun verdict => ?_
      refine Ends.bind (note_lives (by simp) t) fun _ => ?_
      exact pure_lives fun _ hw => hw.congr rfl rfl rfl
    · exact pure_lives fun _ hw => hw

-- ----------------------------------------------------------------------------
-- The steps
-- ----------------------------------------------------------------------------

theorem restoreFromJournal_lives {plan : Plan} {record : StepRecord}
    {payload : List (String × Json)} :
    Lives b k (InHand t) (K.restoreFromJournal t plan record payload) InHand := by
  unfold Kernel.restoreFromJournal
  split
  · exact raise_lives
  · split
    · exact raise_lives
    · refine Ends.bind (M := fun _ w => Chron b k w ∧ InHand t w) ?_ fun finished => ?_
      · unfold Kernel.orNow
        split
        · exact pure_lives fun _ hw => hw
        · exact now_lives fun _ hw => hw
      · exact pure_lives fun _ hw => hw.congr rfl rfl rfl

theorem execute_lives {step : Step} {context : ExecutionContext} :
    Lives b k (InHand t) (K.execute step context) fun _ => InHand t := by
  refine Ends.effect (fun _ hw => hw.1.died) ?_ ?_
  · intro w o w' hw hf
    obtain ⟨-, rfl⟩ := Prod.mk.inj hf
    exact ⟨hw.1.congr rfl rfl rfl, hw.2⟩
  · intro w x w' hw hf
    obtain ⟨-, rfl⟩ := Prod.mk.inj hf
    exact hw.1.congr rfl rfl rfl

theorem runHook_lives {step : Step} : Lives b k (InHand t) (K.runHook t step) fun _ => InHand t := by
  unfold Kernel.runHook
  split
  · exact raisedBy_lives _
  · exact pure_lives fun _ hw => hw

theorem perform_lives {step : Step} {resumed : Bool} :
    Lives b k (InHand t) (K.perform t step resumed) fun r => InHand r.2 := by
  refine Ends.bind (now_lives fun _ hw => hw) fun started => ?_
  have hstarted : ∀ w, InHand t w → InHand (t.updateRecord step.id (Kernel.startRecord started)) w :=
    fun _ hw => hw.congr rfl rfl rfl
  refine Ends.bind ((save_lives _).conseq (fun w hw => ⟨hw.1, hstarted w hw.2⟩) fun _ _ hw => hw)
    fun _ => ?_
  refine Ends.bind (note_lives (by simp) _) fun _ => ?_
  refine Ends.bind execute_lives fun observation => ?_
  refine Ends.bind (note_lives (by simp) _) fun _ => ?_
  refine Ends.bind (now_lives fun _ hw => hw) fun finished => ?_
  refine Ends.bind ((save_lives _).conseq (fun w hw => ⟨hw.1, hw.2.congr rfl rfl rfl⟩)
    fun _ _ hw => hw) fun _ => ?_
  exact Ends.bind runHook_lives fun _ => pure_lives fun _ hw => hw

theorem actLoop_lives {plan : Plan} {completed : String → Option JournalEntry}
    {interrupted : Option String} (steps : List Step) :
    Lives b k (InHand t) (K.actLoop plan completed interrupted steps t) fun r => InHand r.2 := by
  induction steps generalizing t with
  | nil => exact pure_lives fun _ hw => hw
  | cons step steps ih =>
    rw [Kernel.actLoop]
    split
    · exact raise_lives
    · split
      · exact pure_lives fun _ hw => hw
      · split
        · split
          · exact Ends.bind restoreFromJournal_lives fun _ => ih
          · exact ih
        · split
          · exact ih
          · refine Ends.bind perform_lives fun r => ?_
            obtain ⟨failed, t'⟩ := r
            dsimp only
            split
            · exact pure_lives fun _ hw => hw
            · exact ih

theorem act_lives : Lives b k (InHand t) (K.act t) fun r => InHand r.2 := by
  unfold Kernel.act
  split
  · exact raise_lives
  · refine Ends.bind entries_lives fun _ => Ends.bind entries_lives fun _ => ?_
    exact actLoop_lives _

-- ----------------------------------------------------------------------------
-- From the logs to the close
-- ----------------------------------------------------------------------------

theorem file_lives {path text : String} :
    Lives b k (InHand t) (Prog.write (World.writeFile path text)) fun _ => InHand t :=
  write_lives fun _ hw hheld => ⟨hw.congr rfl rfl rfl, hheld⟩

theorem collectLogs_lives : Lives b k (InHand t) (K.collectLogs t) fun _ => InHand t :=
  Ends.bind file_lives fun _ => Ends.bind file_lives fun _ => pure_lives fun _ hw => hw

theorem analyse_lives : Lives b k (InHand t) (K.analyse t) fun r => InHand r.1 := by
  unfold Kernel.analyse
  split
  · refine Ends.bind (note_lives (by simp) t) fun _ => ?_
    exact pure_lives fun _ hw => hw.congr rfl rfl rfl
  · refine Ends.bind (raisedBy_lives _) fun result => ?_
    refine Ends.bind (note_lives (by simp) t) fun _ => ?_
    exact pure_lives fun _ hw => hw.congr rfl rfl rfl

theorem record_lives {d : Fingerprint} {id seenIn : String} :
    Lives b k (InHand t) (Prog.write (World.recordBug d id seenIn)) fun _ => InHand t :=
  write_lives fun _ hw hheld => ⟨hw.congr rfl rfl rfl, hheld⟩

/-- A child is new, and open. -/
theorem trackChild_lives (child : Ticket) {d : Fingerprint} {seenIn : String}
    (hstate : child.state = .open) (hhistory : child.history = []) :
    Lives b k (fun w => InHand t w ∧ Allocated w child.id) (Kernel.trackChild child d seenIn)
      fun _ => InHand t := by
  refine Ends.bind (M := fun _ w => Chron b k w ∧ InHand t w) (Ends.write ?_ ?_)
    fun _ => record_lives
  · exact fun w hw => hw.1.died
  · rintro w ⟨hw, hheld, hfresh⟩
    refine ⟨hw.create hfresh hstate hhistory, hheld.other fun heq => ?_⟩
    have hsome := hheld.isSome
    rw [← heq, hfresh.unused] at hsome
    cases hsome

theorem spawnLoop_lives {votes : List Vote} (findings : List Finding) :
    Lives b k (InHand t) (K.spawnLoop t votes findings) fun _ => InHand t := by
  induction findings with
  | nil => exact pure_lives fun _ hw => hw
  | cons finding findings ih =>
    rw [Kernel.spawnLoop]
    split
    · exact Ends.bind ih fun _ => pure_lives fun _ hw => hw
    · refine Ends.bind (M := fun _ w => Chron b k w ∧ InHand t w) (Ends.look fun _ hw => hw)
        fun known => ?_
      split
      · refine Ends.bind record_lives fun _ => ?_
        exact Ends.bind ih fun _ => pure_lives fun _ hw => hw
      · refine Ends.bind (now_lives fun _ hw => hw) fun now => ?_
        refine Ends.bind (nextTicketId_lives fun _ hw => hw) fun id => ?_
        refine Ends.bind (trackChild_lives (Kernel.childTicket t votes finding now id) rfl rfl)
          fun _ => ?_
        exact Ends.bind ih fun _ => pure_lives fun _ hw => hw

theorem spawnBugTickets_lives {votes : List Vote} :
    Lives b k (InHand t) (K.spawnBugTickets t votes) fun r => InHand r.2 :=
  Ends.bind (spawnLoop_lives _) fun _ => pure_lives fun _ hw => hw.congr rfl rfl rfl

theorem noteSpawned_lives {spawned : List String} :
    Lives b k (InHand t) (K.noteSpawned t spawned) fun _ => InHand t := by
  unfold Kernel.noteSpawned
  split
  · exact pure_lives fun _ hw => hw
  · exact note_lives (by simp) t

theorem writeSop_lives : Lives b k (InHand t) (K.writeSop t) fun r => InHand r.1 := by
  refine Ends.bind (raisedBy_lives _) fun rendered => ?_
  refine Ends.bind file_lives fun _ => Ends.bind file_lives fun _ => Ends.bind file_lives fun _ => ?_
  refine Ends.bind (note_lives (by simp) t) fun _ => ?_
  exact pure_lives fun _ hw => hw.congr rfl rfl rfl

theorem analyseAndClose_lives : Lives b k (InHand t) (K.analyseAndClose t) InHand := by
  refine Ends.bind collectLogs_lives fun logs => ?_
  refine Ends.bind ((note_lives (by simp) { t with logs := some logs }).conseq
    (fun w hw => ⟨hw.1, hw.2.congr rfl rfl rfl⟩) fun _ _ hw => hw) fun _ => ?_
  refine Ends.bind analyse_lives fun analysed => ?_
  refine Ends.bind spawnBugTickets_lives fun spawned => ?_
  refine Ends.bind noteSpawned_lives fun _ => ?_
  refine Ends.bind writeSop_lives fun rendered => ?_
  exact Ends.bind (save_lives _) fun _ => transition_lives

-- ----------------------------------------------------------------------------
-- The calls
-- ----------------------------------------------------------------------------

theorem startSteps_lives : Lives b k (InHand t) (K.startSteps t) InHand := by
  unfold Kernel.startSteps
  split
  · exact transition_lives
  · exact pure_lives fun _ hw => hw

theorem actAndClose_lives : Lives b k (InHand t) (K.actAndClose t) InHand := by
  refine Ends.bind startSteps_lives fun t' => ?_
  refine Ends.bind act_lives fun acted => ?_
  exact Ends.bind transition_lives fun _ => analyseAndClose_lives

theorem runPlan_lives {plan : Plan} : Lives b k (InHand t) (K.runPlan t plan) InHand := by
  refine Ends.bind attachPlan_lives fun t₁ => ?_
  refine Ends.bind checkPlan_lives fun t₂ => ?_
  refine Ends.bind transition_lives fun t₃ => ?_
  split
  · refine Ends.bind (now_lives fun _ hw => hw) fun now => ?_
    refine Ends.bind ((note_lives (by simp)
      { t₃ with approvals := Kernel.requests plan now }).conseq
      (fun w hw => ⟨hw.1, hw.2.congr rfl rfl rfl⟩) fun _ _ hw => hw) fun _ => ?_
    exact Ends.bind (save_lives _) fun _ => pure_lives fun _ hw => hw
  · exact Ends.bind transition_lives fun _ => actAndClose_lives

theorem run_lives {raw : Raw} : Lives b k (fun _ => True) (K.run raw) InHand := by
  refine Ends.bind (raisedBy_lives _) fun job => ?_
  refine Ends.bind createTicket_lives fun t => ?_
  refine Ends.bind (M := fun _ w => Chron b k w ∧ InHand t w) ?_ fun _ => ?_
  · -- the entry of the ingest is about no change
    refine jot_lives (fun _ hw => hw.isSome) (fun _ _ hw => hw) fun e hk hpayload => ?_
    unfold JournalEntry.change JournalEntry.text
    rw [if_pos hk, hpayload]
    rfl
  refine Ends.bind (raisedBy_lives _) fun plan => ?_
  split
  · exact runPlan_lives
  · split
    · exact runPlan_lives
    · exact Ends.bind (note_lives (by simp) t) fun _ => transition_lives

theorem approve_lives {s by' note : String} :
    Lives b k (fun _ => True) (K.approve i s by' note) InHand := by
  refine Ends.bind load_lives fun t => ?_
  split
  · refine Ends.bind (now_lives fun _ hw => hw) fun at_ => ?_
    split
    · exact raise_lives
    · rename_i approvals _
      refine Ends.bind (note_lives (by simp) t) fun _ => ?_
      refine Ends.bind ((save_lives { t with approvals }).conseq
        (fun w hw => ⟨hw.1, hw.2.congr rfl rfl rfl⟩) fun _ _ hw => hw) fun _ => ?_
      exact pure_lives fun _ hw => hw
  · exact raise_lives

theorem resume_lives : Lives b k (fun _ => True) (K.resume i) InHand := by
  refine Ends.bind load_lives fun t => ?_
  split_ifs
  · exact pure_lives fun _ hw => hw
  · exact raise_lives
  · exact Ends.bind transition_lives fun _ => actAndClose_lives
  · exact actAndClose_lives
  · exact analyseAndClose_lives
  · exact pure_lives fun _ hw => hw

theorem call_lives (c : ServiceCall) :
    Ends (Chron b k) c.prog (fun _ => Chron b k) (Chron b k) (Chron b (k + 1)) := by
  have hkernel : ∀ {p : KernelM Ticket}, Lives b k (fun _ => True) p InHand →
      Ends (Chron b k) (do
        let _ ← p
        pure ()) (fun _ => Chron b k) (Chron b k) (Chron b (k + 1)) := by
    intro p hp
    refine Ends.bind (hp.conseq (fun w hw => ⟨hw, trivial⟩) fun _ _ hw => hw.1) fun _ => ?_
    exact Ends.pure fun _ hw => hw
  cases c with
  | kernel call =>
    obtain ⟨K, op⟩ := call
    cases op with
    | run raw => exact hkernel run_lives
    | approve i s by' note => exact hkernel approve_lives
    | resume i => exact hkernel resume_lives
  | fail K i sentence =>
    exact failTicket_lives.conseq (fun w hw => ⟨hw, trivial⟩) fun _ _ hw => hw.1

end Programs

/-! ## Sessions -/

theorem Chron.init : Chron {} 0 {} :=
  ⟨fun _ _ h => by simp at h, fun _ _ _ => ⟨rfl, rfl⟩, fun _ _ h => by simp at h,
    fun _ _ h => by simp at h⟩

/-- From here on, every ticket keeps the history that it has now. -/
theorem Chron.rebase (h : Chron b k w) : Chron w k w :=
  ⟨h.keyed, h.fresh, h.tracks, fun _ t ht => ⟨t, ht, List.prefix_rfl⟩⟩

/-- **The lifecycle of a ticket**: after every session, at whatever writes its processes
    died, (a) the stored history is a path from Open to the state of the ticket; (b) the
    journal has its changes in their order, and for each death at most one more, every one of
    them a transition of the table; (c) whatever is called next, the history only grows, and
    not after a terminal state. -/
theorem lifecycle_of_session (cs ds : List (ServiceCall × Nat)) (i : String) (t : Ticket)
    (ht : (session ServiceCall.prog {} cs).tickets i = some t) :
    Path t.history t.state ∧
    (t.history.map StateChange.told).Sublist
      (changes ((session ServiceCall.prog {} cs).journals i)) ∧
    (changes ((session ServiceCall.prog {} cs).journals i)).length ≤
      t.history.length + deaths ServiceCall.prog {} cs ∧
    (∀ x ∈ changes ((session ServiceCall.prog {} cs).journals i),
      ∃ c : StateChange, x = c.told ∧ c.fromState.canTransition c.toState = true) ∧
    ∃ t', (session ServiceCall.prog {} (cs ++ ds)).tickets i = some t' ∧
      t.history <+: t'.history ∧
      (t.finished = true → t'.history = t.history ∧ t'.state = t.state) := by
  have hnow : Chron {} (0 + deaths ServiceCall.prog {} cs) (session ServiceCall.prog {} cs) :=
    session_deaths (I := Chron {}) (fun c k => call_lives c) cs .init
  obtain ⟨lost, hle, htracks⟩ := hnow.tracks i t ht
  have hlater := session_deaths (I := Chron _) (fun c k => call_lives c) ds hnow.rebase
  rw [← session_append] at hlater
  obtain ⟨t', ht', hpre⟩ := hlater.kept i t ht
  obtain ⟨_, -, htracks'⟩ := hlater.tracks i t' ht'
  refine ⟨htracks.path, htracks.sublist, ?_, htracks.allowed, t', ht', hpre, fun hfinished => ?_⟩
  · rw [htracks.length]
    omega
  · exact htracks.path.eq_of_terminal hfinished htracks'.path hpre

/-- Where no process died, the journal has exactly the changes of the stored history. -/
theorem lifecycle_of_deathless (cs : List (ServiceCall × Nat)) (i : String) (t : Ticket)
    (hdeaths : deaths ServiceCall.prog {} cs = 0)
    (ht : (session ServiceCall.prog {} cs).tickets i = some t) :
    changes ((session ServiceCall.prog {} cs).journals i) = t.history.map StateChange.told := by
  have hnow : Chron {} (0 + deaths ServiceCall.prog {} cs) (session ServiceCall.prog {} cs) :=
    session_deaths (I := Chron {}) (fun c k => call_lives c) cs .init
  obtain ⟨lost, hle, htracks⟩ := hnow.tracks i t ht
  obtain rfl : lost = 0 := by omega
  exact htracks.told_eq

/-! ### A change that was not saved -/

def steadyBurnIn : Kernel := demoKernel burnInPlan fun _ => { exitCode := some 0 }

/-- The process dies after it has journalled that the ticket is approved, and the ticket is
    resumed up to the first step. -/
def unsavedApproval : List (ServiceCall × Nat) :=
  [(.kernel ⟨steadyBurnIn, .run demoRaw⟩, 6), (.kernel ⟨steadyBurnIn, .resume "T-null-0001"⟩, 4)]

theorem lifecycle_of_unsaved : ∃ t,
    (session ServiceCall.prog {} unsavedApproval).tickets "T-null-0001" = some t ∧
      Path t.history t.state ∧
      (t.history.map StateChange.told).Sublist
        (changes ((session ServiceCall.prog {} unsavedApproval).journals "T-null-0001")) := by
  have hsome : ((session ServiceCall.prog {} unsavedApproval).tickets "T-null-0001").isSome := by
    decide +kernel
  obtain ⟨t, ht⟩ := Option.isSome_iff_exists.mp hsome
  obtain ⟨hpath, hsublist, -⟩ := lifecycle_of_session unsavedApproval [] "T-null-0001" t ht
  exact ⟨t, ht, hpath, hsublist⟩

/-- The journal has the approval twice, the history once, so that the one does not begin with
    the other. -/
theorem unsaved_change_repeats :
    ((session ServiceCall.prog {} unsavedApproval).tickets "T-null-0001").map (fun t =>
      t.history.map fun c => (c.fromState, c.toState)) =
        some [(.open, .planned), (.planned, .approved), (.approved, .running)] ∧
    (changes ((session ServiceCall.prog {} unsavedApproval).journals "T-null-0001")).map
      (fun x => (x.1, x.2.1)) =
        [("Open", "Planned"), ("Planned", "Approved"), ("Planned", "Approved"),
          ("Approved", "Running")] ∧
    ¬ ∀ t, (session ServiceCall.prog {} unsavedApproval).tickets "T-null-0001" = some t →
      t.history.map StateChange.told <+:
        changes ((session ServiceCall.prog {} unsavedApproval).journals "T-null-0001") := by
  refine ⟨by decide +kernel, by decide +kernel, fun hall => ?_⟩
  have hfalse : ((session ServiceCall.prog {} unsavedApproval).tickets "T-null-0001").map
      (fun t => decide (t.history.map StateChange.told <+:
        changes ((session ServiceCall.prog {} unsavedApproval).journals "T-null-0001"))) =
      some false := by
    decide +kernel
  obtain ⟨t, ht, hnot⟩ := Option.map_eq_some_iff.mp hfalse
  exact of_decide_eq_false hnot (hall t ht)

end Slas
