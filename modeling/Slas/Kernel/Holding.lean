/-
  Slas.Kernel.Holding

  Runs and the leases they hold.  A plan takes its machine in its first step and
  gives it back in its last, and the kernel stops at the first step that fails;
  whether a ticket that came to rest still holds its machine is a matter of the
  prefix it stopped at and of the executor's lease table.

  `Lessor` is what the kernel relies on of the executor and its table, `Accounted`
  the invariant: only a running ticket holds the machine of its plan.  `Keeps` is
  the logic it is proved in; the assumption on the answers of the executor is part
  of it, for the calls that were made so far.
-/

import Slas.Kernel.StepOrder
import Slas.Lib.Trace

namespace Slas

open Crash

/-! ## The executor as lessor -/

/-- The calls of an executor, as it is told them. -/
abbrev CallHistory := List (Step × ExecutionContext)

def historyOf (calls : List ExecCall) : CallHistory := calls.map fun c => (c.step, c.context)

/-- An executor, with the tickets that hold a lease of a machine after the calls
    it was sent, and the machine each plan is for. -/
structure Lessor where
  answer : CallHistory → Step → ExecutionContext → Except String Observation
  holds : CallHistory → String → String → Prop
  machine : Plan → String → Prop
  none_held : ∀ i m, ¬ holds [] i m
  /-- A call gives no lease to another ticket. -/
  own : ∀ history step context i m, holds (history ++ [(step, context)]) i m →
    i ≠ context.ticketId → holds history i m
  /-- The last step of a plan, when it is answered, leaves its ticket no lease. -/
  returned : ∀ history plan m steps last context o, machine plan m →
    plan.steps = steps ++ [last] → answer history last context = .ok o →
    ¬ holds (history ++ [(last, context)]) context.ticketId m

namespace Lessor

variable (L : Lessor)

/-- The ticket holds no lease of the machine its plan is for; without a plan, of
    none. -/
def Free (history : CallHistory) (t : Ticket) : Prop :=
  ∀ m, (∀ plan, t.plan = some plan → L.machine plan m) → ¬ L.holds history t.id m

/-- Every call that is answered with an observation `verify` does not judge ok
    leaves its ticket no lease. -/
def FailsFree (verify : Step → Observation → StepVerdict) (calls : List ExecCall) : Prop :=
  Trace.Always (fun before c => ∀ o, L.answer (historyOf before) c.step c.context = .ok o →
    (verify c.step o).outcome ≠ .ok → ∀ t, c.stored = some t → t.id = c.context.ticketId →
    L.Free (historyOf (before ++ [c])) t) calls

variable {L}

/-- A lease was given in a call of its ticket. -/
theorem called_of_holds {history : CallHistory} {i m : String} (h : L.holds history i m) :
    ∃ c ∈ history, c.2.ticketId = i := by
  induction history using List.reverseRecOn with
  | nil => exact absurd h (L.none_held i m)
  | append_singleton history c ih =>
    by_cases hi : i = c.2.ticketId
    · exact ⟨c, by simp, hi.symm⟩
    · obtain ⟨c', hc', hid⟩ := ih (L.own history c.1 c.2 i m h hi)
      exact ⟨c', List.mem_append_left _ hc', hid⟩

theorem free_of_uncalled {calls : List ExecCall} {t : Ticket}
    (h : ∀ c ∈ calls, c.context.ticketId ≠ t.id) : L.Free (historyOf calls) t := by
  intro m _ hheld
  obtain ⟨c, hc, hid⟩ := called_of_holds hheld
  obtain ⟨call, hcall, rfl⟩ := List.mem_map.mp hc
  exact h call hcall hid

/-- A call of another ticket. -/
theorem Free.other {calls : List ExecCall} {t : Ticket} (h : L.Free (historyOf calls) t)
    {c : ExecCall} (hc : t.id ≠ c.context.ticketId) : L.Free (historyOf (calls ++ [c])) t := by
  intro m hm hheld
  rw [historyOf, List.map_append] at hheld
  exact h m hm (L.own _ _ _ _ _ hheld hc)

theorem Free.congr {history : CallHistory} {t t' : Ticket} (h : L.Free history t)
    (hid : t'.id = t.id) (hplan : t'.plan = t.plan ∨ t.plan = none) : L.Free history t' := by
  intro m hm hheld
  refine h m (fun plan hsome => ?_) (hid ▸ hheld)
  rcases hplan with heq | hnone
  · exact hm plan (heq.trans hsome)
  · rw [hnone] at hsome
    cases hsome

/-! ## What a ticket and the world account for -/

variable (L)

/-- What is true of a ticket, on disk or in memory. -/
structure Fits (w : World) (t : Ticket) : Prop where
  unskipped : ∀ r ∈ t.steps, r.status ≠ .skipped
  failed : ∀ r ∈ t.steps, r.status = .failed → r.stepId ∈ observed (w.journals t.id)
  finished : ∀ plan, t.plan = some plan →
    (∀ s ∈ plan.steps, s.id ∈ observed (w.journals t.id)) → L.Free (historyOf w.calls) t
  resting : t.state ≠ .running → L.Free (historyOf w.calls) t

/-- The id was given out. -/
def Issued (w : World) (i : String) : Prop := ∃ a n, i = makeTicketId a n ∧ n ≤ w.sequence a

/-- There is a ticket, a journal or a call under the id. -/
def Used (w : World) (i : String) : Prop :=
  (w.tickets i).isSome ∨ w.journals i ≠ [] ∨ ∃ c ∈ w.calls, c.context.ticketId = i

/-- Every ticket fits, and no id is used that was not given out. -/
structure Accounted (w : World) : Prop where
  stored : ∀ i t, w.tickets i = some t → t.id = i ∧ L.Fits w t
  issued : ∀ i, Used w i → Issued w i

variable {L} {w w' : World} {t t' : Ticket}

/-- All that leases rest on is as before, but for the tickets. -/
structure Unmoved (w w' : World) : Prop where
  calls : w'.calls = w.calls
  observed : ∀ i, observed (w'.journals i) = observed (w.journals i)

/-- So are the tickets, and only ids in use get a journal. -/
structure Same (w w' : World) : Prop extends Unmoved w w' where
  tickets : w'.tickets = w.tickets
  sequence : ∀ a, w.sequence a ≤ w'.sequence a
  journals : ∀ i, w'.journals i ≠ [] → w.journals i ≠ [] ∨ (w.tickets i).isSome

theorem same_tick (w : World) : Same w w.tick := ⟨⟨rfl, fun _ => rfl⟩, rfl, fun _ => le_rfl, fun _ => .inl⟩

theorem same_file (w : World) (path text : String) : Same w (w.writeFile path text) :=
  ⟨⟨rfl, fun _ => rfl⟩, rfl, fun _ => le_rfl, fun _ => .inl⟩

theorem same_bug (w : World) (d : Fingerprint) (i seenIn : String) :
    Same w (w.recordBug d i seenIn) := ⟨⟨rfl, fun _ => rfl⟩, rfl, fun _ => le_rfl, fun _ => .inl⟩

theorem same_bump (w : World) (a : AgentName) : Same w (w.bumpSequence a) := by
  refine ⟨⟨rfl, fun _ => rfl⟩, rfl, fun b => ?_, fun _ => .inl⟩
  rw [World.sequence_bumpSequence]
  split
  · rename_i hb
    exact hb ▸ Nat.le_succ _
  · exact le_rfl

theorem same_entry (w : World) {i : String} (hi : (w.tickets i).isSome) {e : JournalEntry}
    (he : e.kind ≠ .observation) : Same w (w.appendEntry i e) := by
  refine ⟨⟨rfl, fun j => ?_⟩, rfl, fun _ => le_rfl, fun j hj => ?_⟩
  · rw [World.journals_appendEntry]
    split
    · rename_i hji
      rw [observed_append, observed_of_kind he, List.append_nil, hji]
    · rfl
  · by_cases hji : j = i
    · exact Or.inr (hji ▸ hi)
    · rw [World.journals_appendEntry, if_neg hji] at hj
      exact Or.inl hj

theorem Fits.unmoved (h : L.Fits w t) (hw : Unmoved w w') : L.Fits w' t where
  unskipped := h.unskipped
  failed r hr hfail := hw.observed t.id ▸ h.failed r hr hfail
  finished plan hplan hall := hw.calls ▸ h.finished plan hplan fun s hs =>
    hw.observed t.id ▸ hall s hs
  resting hstate := hw.calls ▸ h.resting hstate

/-- Of a ticket with the same id and plan in the same state only the records
    matter. -/
theorem Fits.congr (h : L.Fits w t) (hid : t'.id = t.id) (hplan : t'.plan = t.plan)
    (hstate : t'.state = t.state) (hunskipped : ∀ r ∈ t'.steps, r.status ≠ .skipped)
    (hfailed : ∀ r ∈ t'.steps, r.status = .failed → r.stepId ∈ observed (w.journals t.id)) :
    L.Fits w t' where
  unskipped := hunskipped
  failed r hr hfail := hid ▸ hfailed r hr hfail
  finished plan hsome hall := (h.finished plan (hplan ▸ hsome) (hid ▸ hall)).congr hid (.inl hplan)
  resting hne := (h.resting (hstate ▸ hne)).congr hid (.inl hplan)

/-- Nor do they, when they are the same. -/
theorem Fits.same (h : L.Fits w t) (hid : t'.id = t.id) (hplan : t'.plan = t.plan)
    (hstate : t'.state = t.state) (hsteps : t'.steps = t.steps) : L.Fits w t' :=
  h.congr hid hplan hstate (hsteps ▸ h.unskipped) (hsteps ▸ h.failed)

/-- A change of state. -/
theorem Fits.moved (h : L.Fits w t) {target : TicketState}
    (hrest : target ≠ .running → L.Free (historyOf w.calls) t) (at_ : DateTime) (reason : String) :
    L.Fits w (t.moved target at_ reason) where
  unskipped := h.unskipped
  failed := h.failed
  finished plan hplan hall := (h.finished plan hplan hall).congr rfl (.inl rfl)
  resting hne := (hrest hne).congr rfl (.inl rfl)

/-- A new ticket, under an id that no call was for. -/
theorem fits_new (hid : ∀ c ∈ w.calls, c.context.ticketId ≠ t.id) (hsteps : t.steps = []) :
    L.Fits w t where
  unskipped := by simp [hsteps]
  failed := by simp [hsteps]
  finished _ _ _ := free_of_uncalled hid
  resting _ := free_of_uncalled hid

theorem Issued.mono {i : String} (h : Issued w i) (hle : ∀ a, w.sequence a ≤ w'.sequence a) :
    Issued w' i := by
  obtain ⟨a, n, hi, hn⟩ := h
  exact ⟨a, n, hi, hn.trans (hle a)⟩

theorem Accounted.same (h : L.Accounted w) (hw : Same w w') : L.Accounted w' where
  stored i t ht := by
    obtain ⟨hid, hfits⟩ := h.stored i t (hw.tickets ▸ ht)
    exact ⟨hid, hfits.unmoved hw.toUnmoved⟩
  issued i hused := by
    refine Issued.mono (h.issued i ?_) hw.sequence
    rcases hused with ht | hj | hc
    · exact Or.inl (hw.tickets ▸ ht)
    · exact (hw.journals i hj).elim (fun hj => .inr (.inl hj)) .inl
    · exact Or.inr (Or.inr (hw.calls ▸ hc))

theorem Accounted.save (h : L.Accounted w) (hfits : L.Fits w t) (hid : Issued w t.id) :
    L.Accounted (w.saveTicket t) where
  stored i u hu := by
    rw [World.tickets_saveTicket] at hu
    split at hu
    · rename_i hi
      obtain rfl := Option.some.inj hu
      exact ⟨hi.symm, hfits.unmoved ⟨rfl, fun _ => rfl⟩⟩
    · obtain ⟨hui, hu⟩ := h.stored i u hu
      exact ⟨hui, hu.unmoved ⟨rfl, fun _ => rfl⟩⟩
  issued i hused := by
    rcases hused with ht | hrest
    · rw [World.tickets_saveTicket] at ht
      split at ht
      · rename_i hi
        exact hi ▸ hid
      · exact h.issued i (.inl ht)
    · exact h.issued i (.inr hrest)

/-! ## Programs that keep it -/

variable (L)

/-- As long as no failed step left its ticket a lease, `p` keeps the world accounted
    for, from every world with `R`, and a return establishes `Q`. -/
def Keeps (verify : Step → Observation → StepVerdict) {α : Type} (R : World → Prop) (p : KernelM α)
    (Q : α → World → Prop) : Prop :=
  Triple (fun w => L.FailsFree verify w.calls → L.Accounted w ∧ R w) p
    (fun a w => L.FailsFree verify w.calls → L.Accounted w ∧ Q a w)
    (fun w => L.FailsFree verify w.calls → L.Accounted w)

variable {L}

namespace Keeps

variable {verify : Step → Observation → StepVerdict} {α β : Type} {R R' : World → Prop}
  {Q Q' : α → World → Prop} {p : KernelM α}

theorem conseq (h : L.Keeps verify R p Q) (hR : ∀ w, L.Accounted w → R' w → R w)
    (hQ : ∀ a w, L.Accounted w → Q a w → Q' a w) : L.Keeps verify R' p Q' := by
  refine Triple.conseq h (fun w hw hclean => ?_) (fun a w hw hclean => ?_) fun _ hw => hw
  · exact ⟨(hw hclean).1, hR w (hw hclean).1 (hw hclean).2⟩
  · exact ⟨(hw hclean).1, hQ a w (hw hclean).1 (hw hclean).2⟩

theorem pre (h : L.Keeps verify R p Q) (hR : ∀ w, L.Accounted w → R' w → R w) :
    L.Keeps verify R' p Q := h.conseq hR fun _ _ _ hq => hq

theorem pure {a : α} (h : ∀ w, L.Accounted w → R w → Q a w) :
    L.Keeps verify R (Pure.pure a) Q :=
  Triple.pure fun w hw hclean => ⟨(hw hclean).1, h w (hw hclean).1 (hw hclean).2⟩

theorem raise {e : KernelError} : L.Keeps verify R (Prog.raise e) Q :=
  Triple.raise fun _ hw hclean => (hw hclean).1

theorem bind {M : α → World → Prop} {Q : β → World → Prop} {f : α → KernelM β}
    (h : L.Keeps verify R p M) (hf : ∀ a, L.Keeps verify (M a) (f a) Q) :
    L.Keeps verify R (p >>= f) Q := Triple.bind h hf

theorem look {f : World → α} (h : ∀ w, L.Accounted w → R w → Q (f w) w) :
    L.Keeps verify R (Prog.look f) Q :=
  Triple.look fun w hw hclean => ⟨(hw hclean).1, h w (hw hclean).1 (hw hclean).2⟩

theorem raisedBy {x : Except String α} (h : ∀ a w, L.Accounted w → R w → Q a w) :
    L.Keeps verify R (raisedBy x) Q := by
  refine Triple.ofExcept (fun a _ w hw hclean => ?_) fun _ hw hclean => (hw hclean).1
  exact ⟨(hw hclean).1, h a w (hw hclean).1 (hw hclean).2⟩

theorem write {f : World → World} {Q : Unit → World → Prop} (hcalls : ∀ w, (f w).calls = w.calls)
    (h : ∀ w, L.Accounted w → R w → L.Accounted (f w) ∧ Q () (f w)) :
    L.Keeps verify R (Prog.write f) Q := by
  refine Triple.write (fun _ hw hclean => (hw hclean).1) fun w hw hclean => ?_
  rw [hcalls] at hclean
  exact h w (hw hclean).1 (hw hclean).2

/-- A write of what leases do not rest on. -/
theorem write_same {f : World → World} (hf : ∀ w, Same w (f w))
    (hR : ∀ w, L.Accounted w → R w → R (f w)) : L.Keeps verify R (Prog.write f) (fun _ => R) :=
  write (fun w => (hf w).calls) fun w hw hr => ⟨hw.same (hf w), hR w hw hr⟩

end Keeps

/-- A condition that only speaks of what leases rest on. -/
def Lasting (R : World → Prop) : Prop := ∀ w w', Same w w' → R w → R w'

section Store

variable {verify : Step → Observation → StepVerdict} {K : Kernel} {R : World → Prop}
  {t : Ticket}

theorem keeps_now (hR : Lasting R) : L.Keeps verify R K.now (fun _ => R) :=
  Triple.quiet fun w hw hclean =>
    ⟨(hw hclean).1.same (same_tick w), hR _ _ (same_tick w) (hw hclean).2⟩

theorem keeps_entries {i : String} :
    L.Keeps verify R (journal.entries i) (fun es w => es = w.journals i ∧ R w) := by
  refine Keeps.bind (M := fun es w => es = w.journals i ∧ R w) (.look fun _ _ hw => ⟨rfl, hw⟩)
    fun es => ?_
  split
  · exact .pure fun _ _ hw => hw
  · exact .raise

/-- `append` reads the journal and the clock, then writes one entry. -/
theorem keeps_append {Q : World → Prop} {i : String} {kind : JournalKind}
    {payload : List (String × Json)} {stepId : Option String} (hR : Lasting R)
    (h : ∀ w e, L.Accounted w → R w → e.kind = kind → e.stepId = stepId →
      L.Accounted (w.appendEntry i e) ∧ Q (w.appendEntry i e)) :
    L.Keeps verify R (journal.append K i kind payload stepId) (fun _ => Q) := by
  refine Keeps.bind (keeps_entries.conseq (fun _ _ hw => hw) fun _ _ _ hw => hw.2) fun es => ?_
  refine Keeps.bind (keeps_now hR) fun at_ => ?_
  exact .write (fun _ => rfl) fun w hw hr => h w _ hw hr rfl rfl

/-- An entry that is no observation. -/
theorem keeps_jot {i : String} {kind : JournalKind} {payload : List (String × Json)}
    {stepId : Option String} (hR : Lasting R) (hi : ∀ w, R w → (w.tickets i).isSome)
    (hkind : kind ≠ .observation) :
    L.Keeps verify R (journal.append K i kind payload stepId) (fun _ => R) := by
  refine keeps_append hR fun w e hw hr hk _ => ?_
  have hsame := same_entry w (hi w hr) (hk ▸ hkind)
  exact ⟨hw.same hsame, hR _ _ hsame hr⟩

/-- A new id is given out and not used. -/
theorem keeps_nextTicketId {a : AgentName} (hR : Lasting R) :
    L.Keeps verify R (store.nextTicketId a) (fun i w => (Issued w i ∧ ¬ Used w i) ∧ R w) := by
  refine Keeps.bind (M := fun n w => n = w.sequence a + 1 ∧ R w) (.look fun _ _ hw => ⟨rfl, hw⟩)
    fun n => ?_
  refine Keeps.bind (M := fun _ w => (Issued w (makeTicketId a n) ∧ ¬ Used w (makeTicketId a n)) ∧
    R w) ?_ fun _ => .pure fun _ _ hw => hw
  refine .write (fun _ => rfl) fun w hw => ?_
  rintro ⟨rfl, hr⟩
  refine ⟨hw.same (same_bump w a), ⟨⟨a, _, rfl, ?_⟩, fun hused => ?_⟩, hR _ _ (same_bump w a) hr⟩
  · simp [World.sequence_bumpSequence]
  · obtain ⟨b, m, hid, hm⟩ := hw.issued _ hused
    obtain ⟨rfl, rfl⟩ := makeTicketId_inj.mp hid
    exact absurd hm (Nat.not_succ_le_self _)

end Store

end Lessor

end Slas
