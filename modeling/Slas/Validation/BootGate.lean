/-
  Slas.Validation.BootGate

  The count of boot failures in a row and the gate that reads it.

  The count is saved with the outcome of a cycle.  When the request ends after
  that save and before its answer is on record, the step is sent again: ACT is
  skipped, the wait is not, and a failure that already counts is counted once
  more.  In runs without such a wait the count is the number of cycles that
  failed last in a row; and a run whose count reached the limit is aborted
  before anything else is powered.
-/

import Slas.Validation.PowerOnce

namespace Slas

open Crash

/-! ## What counts -/

/-- The cycles that failed since the last boot, each once. -/
def noteOutcome (failed : List Nat) : RunEvent → List Nat
  | .concluded _ true _ => []
  | .concluded n false _ => if n ∈ failed then failed else n :: failed
  | .power _ _ | .answered _ _ => failed

def failedInARow (h : List RunEvent) : List Nat := h.foldl noteOutcome []

/-- No cycle whose failure already counts is waited for in vain again. -/
def NoneFailsAgain (h : List RunEvent) : Prop :=
  ∀ pre n post, h = pre ++ .answered n false :: post → n ∉ failedInARow pre

/-- Every count that is saved is the number of the failures in a row. -/
def CountsFailures (h : List RunEvent) : Prop :=
  ∀ pre n b k post, h = pre ++ .concluded n b k :: post →
    k = (failedInARow (pre ++ [.concluded n b k])).length

/-- Nothing is powered once the count has reached the limit. -/
def StopsAt (limit : Nat) (h : List RunEvent) : Prop :=
  ∀ pre n b k post, h = pre ++ .concluded n b k :: post → limit ≤ k → ∀ m p, .power m p ∉ post

theorem failedInARow_append (h : List RunEvent) (e : RunEvent) :
    failedInARow (h ++ [e]) = noteOutcome (failedInARow h) e := by
  simp [failedInARow]

/-- Where an element of a list with a new last one stands. -/
theorem snoc_eq_split {α : Type} {h pre post : List α} {e x : α} (heq : h ++ [e] = pre ++ x :: post) :
    (h = pre ∧ x = e ∧ post = []) ∨ ∃ post', post = post' ++ [e] ∧ h = pre ++ x :: post' := by
  rcases List.eq_nil_or_concat post with rfl | ⟨post', y, rfl⟩
  · obtain ⟨rfl, hx⟩ := List.append_inj' heq rfl
    exact .inl ⟨rfl, (List.cons.inj hx).1.symm, rfl⟩
  · rw [List.concat_eq_append, ← List.cons_append, ← List.append_assoc] at heq
    obtain ⟨rfl, hy⟩ := List.append_inj' heq rfl
    obtain rfl := (List.cons.inj hy).1
    exact .inr ⟨post', by simp, rfl⟩

variable {h : List RunEvent} {limit count : Nat} {aborted : Bool}

theorem NoneFailsAgain.prefix_ {e : RunEvent} (hn : NoneFailsAgain (h ++ [e])) : NoneFailsAgain h :=
  fun pre n post heq => hn pre n (post ++ [e]) (by simp [heq])

theorem CountsFailures.snoc {e : RunEvent} (hc : CountsFailures h)
    (he : ∀ n b k, e = .concluded n b k → k = (failedInARow (h ++ [e])).length) :
    CountsFailures (h ++ [e]) := by
  intro pre n b k post heq
  rcases snoc_eq_split heq with ⟨rfl, rfl, -⟩ | ⟨post', -, hpre⟩
  · exact he n b k rfl
  · exact hc pre n b k post' hpre

theorem StopsAt.snoc {e : RunEvent} (hs : StopsAt limit h)
    (he : (∃ n b k, .concluded n b k ∈ h ∧ limit ≤ k) → ∀ m p, e ≠ .power m p) :
    StopsAt limit (h ++ [e]) := by
  intro pre n b k post heq hk m p hmem
  rcases snoc_eq_split heq with ⟨-, -, rfl⟩ | ⟨post', rfl, hpre⟩
  · cases hmem
  · rcases List.mem_append.mp hmem with hmem | hmem
    · exact hs pre n b k post' hpre hk m p hmem
    · refine he ⟨n, b, k, by simp [hpre], hk⟩ m p ?_
      exact (List.mem_singleton.mp hmem).symm

/-- What the books of one ticket say: the invariant. -/
structure Tally (limit count : Nat) (aborted : Bool) (h : List RunEvent) : Prop where
  count_eq : NoneFailsAgain h → count = (failedInARow h).length
  counted : NoneFailsAgain h → CountsFailures h
  stops : StopsAt limit h
  reached : limit ≤ count → aborted = true
  latched : ∀ n b k, .concluded n b k ∈ h → limit ≤ k → aborted = true

theorem Tally.nil (hlimit : 1 ≤ limit) : Tally limit 0 false [] where
  count_eq _ := rfl
  counted _ := by simp [CountsFailures]
  stops := by simp [StopsAt]
  reached h := by omega
  latched _ _ _ hmem := by cases hmem

/-- An event of a run that is not aborted and changes no count. -/
theorem Tally.note (ht : Tally limit count false h) {e : RunEvent}
    (he : ∀ n b k, e ≠ .concluded n b k) : Tally limit count false (h ++ [e]) where
  count_eq hn := by
    have hsame : failedInARow (h ++ [e]) = failedInARow h := by
      rw [failedInARow_append]
      cases e with
      | concluded n b k => exact absurd rfl (he n b k)
      | power n p => rfl
      | answered n b => rfl
    rw [hsame]
    exact ht.count_eq hn.prefix_
  counted hn := (ht.counted hn.prefix_).snoc fun n b k heq => absurd heq (he n b k)
  stops := ht.stops.snoc fun ⟨n, b, k, hmem, hk⟩ => by cases ht.latched n b k hmem hk
  reached := ht.reached
  latched n b k hmem hk := by
    rcases List.mem_append.mp hmem with hmem | hmem
    · exact ht.latched n b k hmem hk
    · exact absurd (List.mem_singleton.mp hmem).symm (he n b k)

/-- The outcome of a cycle that did not fail in vain again. -/
theorem Tally.conclude (ht : Tally limit count false h) {n : Nat} {booted : Bool}
    (hn : NoneFailsAgain h → booted = false → n ∉ failedInARow h)
    (habort : limit ≤ (if booted then 0 else count + 1) → aborted = true) :
    Tally limit (if booted then 0 else count + 1) aborted
      (h ++ [.concluded n booted (if booted then 0 else count + 1)]) := by
  have hlen : NoneFailsAgain h → (if booted then 0 else count + 1) =
      (failedInARow (h ++ [.concluded n booted (if booted then 0 else count + 1)])).length := by
    intro hh
    rw [failedInARow_append]
    cases booted with
    | true => rfl
    | false => simp [noteOutcome, hn hh rfl, ht.count_eq hh]
  refine { count_eq := fun hh => hlen hh.prefix_, counted := fun hh => ?_, stops := ?_
           reached := habort, latched := ?_ }
  · refine (ht.counted hh.prefix_).snoc fun m b k heq => ?_
    obtain ⟨-, -, rfl⟩ := RunEvent.concluded.inj heq
    exact hlen hh.prefix_
  · refine ht.stops.snoc fun _ m p heq => ?_
    cases heq
  · intro m b k hmem hk
    rcases List.mem_append.mp hmem with hmem | hmem
    · cases ht.latched m b k hmem hk
    · obtain ⟨-, -, rfl⟩ := RunEvent.concluded.inj (List.mem_singleton.mp hmem)
      exact habort hk

/-! ## The books of the executor -/

def countOf : Option RunState → Nat
  | none => 0
  | some s => s.consecutiveBootFailures

def abortedOf : Option RunState → Bool
  | none => false
  | some s => s.aborted

section World

variable {Snap : Type} {X : ValidationExecutor Snap} {c : CycleCall}

/-- The books of a ticket: the state in memory says what the file says, and the
    file what the history says. -/
structure Booked (limit : Nat) (t : String) (file memory : Option RunState) (h : List RunEvent) :
    Prop where
  file_own : ∀ s, file = some s → s.ticketId = t
  memory_own : ∀ s, memory = some s → s.ticketId = t
  agree : ∀ s, memory = some s →
    s.consecutiveBootFailures = countOf file ∧ s.aborted = abortedOf file
  tally : Tally limit (countOf file) (abortedOf file) h

/-- A state of the ticket, in memory and in the file. -/
theorem Booked.of_saved {t : String} {s : RunState} (hid : s.ticketId = t)
    (htally : Tally limit s.consecutiveBootFailures s.aborted h) :
    Booked limit t (some s) (some s) h where
  file_own _ hs := Option.some.inj hs ▸ hid
  memory_own _ hs := Option.some.inj hs ▸ hid
  agree _ hs := Option.some.inj hs ▸ ⟨rfl, rfl⟩
  tally := htally

def Ledger (limit : Nat) (w : Bench Snap) : Prop :=
  ∀ t, Booked limit t (w.runs t) (w.states t) (w.history t)

/-- The state that a step works on is the one of the books. -/
def StateRead (limit : Nat) (t : String) (s : RunState) (w : Bench Snap) : Prop :=
  Ledger limit w ∧ s.ticketId = t ∧ s.consecutiveBootFailures = countOf (w.runs t) ∧
    s.aborted = abortedOf (w.runs t)

/-- A step that has passed the gate is at work on a run that is not aborted. -/
def Going (limit : Nat) (t : String) (s : RunState) (w : Bench Snap) : Prop :=
  StateRead limit t s w ∧ s.aborted = false

theorem Going.ledger {t : String} {s : RunState} {w : Bench Snap} (h : Going limit t s w) :
    Ledger limit w := h.1.1

theorem Going.not_aborted {t : String} {s : RunState} {w : Bench Snap} (h : Going limit t s w) :
    abortedOf (w.runs t) = false := by
  obtain ⟨⟨-, -, -, hab⟩, hs⟩ := h
  rw [← hab, hs]

/-- A power action or an answer is put down. -/
theorem Going.note {t : String} {s : RunState} {w : Bench Snap} (h : Going limit t s w)
    {e : RunEvent} (he : ∀ n b k, e ≠ .concluded n b k) : Going limit t s (w.note t e) := by
  refine ⟨⟨fun t' => ?_, h.1.2⟩, h.2⟩
  have hbooked := h.ledger t'
  by_cases ht : t' = t
  · subst ht
    simp only [Bench.note, Function.update_self]
    refine { hbooked with tally := ?_ }
    have htally := hbooked.tally
    rw [h.not_aborted] at htally ⊢
    exact htally.note he
  · simp only [Bench.note, Function.update_of_ne ht]
    exact hbooked

theorem state_spec (t target : String) (total : Int) (kind : String) :
    Triple (Ledger limit) (ValidationExecutor.state t target total kind : BenchM Snap RunState)
      (fun s => StateRead limit t s) (Ledger limit) := by
  apply Triple.quiet
  intro w h
  -- the state that is known, if any, agrees with the file
  have hknown : ∀ s, (w.states t).or (w.runs t) = some s → s.ticketId = t ∧
      s.consecutiveBootFailures = countOf (w.runs t) ∧ s.aborted = abortedOf (w.runs t) := by
    intro s hs
    rcases hmem : w.states t with _ | s'
    · rw [hmem, Option.none_or] at hs
      exact ⟨(h t).file_own s hs, by simp [hs, countOf], by simp [hs, abortedOf]⟩
    · rw [hmem, Option.some_or, Option.some.injEq] at hs
      subst hs
      exact ⟨(h t).memory_own s' hmem, (h t).agree s' hmem⟩
  have hstart : ∀ s, s = ((w.states t).or (w.runs t)).getD { ticketId := t, target } →
      s.ticketId = t ∧ s.consecutiveBootFailures = countOf (w.runs t) ∧
        s.aborted = abortedOf (w.runs t) := by
    rintro s rfl
    rcases hor : (w.states t).or (w.runs t) with _ | s
    · have hnone : w.runs t = none := (Option.or_eq_none_iff.mp hor).2
      simp [hnone, countOf, abortedOf]
    · exact hknown s hor
  obtain ⟨hid, hcount, habort⟩ := hstart _ rfl
  set s := ((w.states t).or (w.runs t)).getD { ticketId := t, target } with hs
  have hcells : ∀ s' : RunState, s' = (if s.cycles.isEmpty then
      { s with cycles := RunState.freshCycles kind total.toNat } else s) → s'.ticketId = t ∧
        s'.consecutiveBootFailures = countOf (w.runs t) ∧ s'.aborted = abortedOf (w.runs t) := by
    rintro s' rfl
    split <;> exact ⟨hid, hcount, habort⟩
  obtain ⟨hid', hcount', habort'⟩ := hcells _ rfl
  refine ⟨fun t' => ?_, hid', hcount', habort'⟩
  by_cases ht : t' = t
  · subst ht
    simp only [Function.update_self]
    exact { h t' with
      memory_own := fun _ hs₁ => Option.some.inj hs₁ ▸ hid'
      agree := fun _ hs₁ => Option.some.inj hs₁ ▸ ⟨hcount', habort'⟩ }
  · simp only [Function.update_of_ne ht]
    exact h t'

/-- A state with the count of the books is saved. -/
theorem saveState_spec {t : String} {s s' : RunState} (hid : s'.ticketId = s.ticketId)
    (hcount : s'.consecutiveBootFailures = s.consecutiveBootFailures)
    (habort : s'.aborted = s.aborted) :
    Triple (Going limit t s) (ValidationExecutor.saveState s' : BenchM Snap Unit)
      (fun _ => Going limit t s') (Ledger limit) := by
  refine Triple.write (fun w h => h.ledger) fun w h => ?_
  obtain ⟨⟨hledger, ht, hc, ha⟩, hgo⟩ := h
  have ht' : s'.ticketId = t := hid.trans ht
  subst ht'
  refine ⟨⟨fun t' => ?_, rfl, ?_, ?_⟩, habort.trans hgo⟩
  · by_cases hne : t' = s'.ticketId
    · subst hne
      simp only [Bench.saveRun, Bench.remember, Function.update_self]
      refine Booked.of_saved rfl ?_
      rw [hcount, habort, hc, ha]
      exact (hledger s'.ticketId).tally
    · simp only [Bench.saveRun, Bench.remember, Function.update_of_ne hne]
      exact hledger t'
  · simp [Bench.saveRun, Bench.remember, countOf]
  · simp [Bench.saveRun, Bench.remember, abortedOf]

/-! ## The steps -/

theorem going_survives (c : CycleCall) (t : String) (s : RunState) :
    SurvivesPhases X c (Going limit t s : Bench Snap → Prop) :=
  { called := fun _ h => h, tick := fun _ h => h, touch := fun _ _ h => h
    baselines := fun _ _ h => h, editJournal := fun _ _ h => h, log := fun _ _ h => h }

theorem ledger_survives (c : CycleCall) : SurvivesPhases X c (Ledger limit : Bench Snap → Prop) :=
  { called := fun _ h => h, tick := fun _ h => h, touch := fun _ _ h => h
    baselines := fun _ _ h => h, editJournal := fun _ _ h => h, log := fun _ _ h => h }

/-- The wait was not in vain, or for a cycle that does not count as failed. -/
def Waited (c : CycleCall) (booted : Bool) (w : Bench Snap) : Prop :=
  NoneFailsAgain (w.history c.ticketId) → booted = false →
    c.n ∉ failedInARow (w.history c.ticketId)

theorem waited_survives (c : CycleCall) (s : RunState) (booted : Bool) :
    SurvivesPhases X c
      (fun w : Bench Snap => Going limit c.ticketId s w ∧ Waited c booted w) :=
  { called := fun _ h => h, tick := fun _ h => h, touch := fun _ _ h => h
    baselines := fun _ _ h => h, editJournal := fun _ _ h => h, log := fun _ _ h => h }

theorem power_going (s : RunState) (p : PowerAction) :
    Preserves (Going limit c.ticketId s) (X.power c p) := by
  refine Preserves.effect fun w h => ?_
  have hlog : Going limit c.ticketId s (w.log c.ticketId c.n (.power p)) := h
  exact hlog.note (e := .power c.n p) fun _ _ _ heq => by cases heq

theorem settle_spec (s : RunState) :
    Triple (Going limit c.ticketId s) (X.settle c)
      (fun booted w => Going limit c.ticketId s w ∧ Waited c booted w) (Ledger limit) := by
  have hgoing : SurvivesPhases X c (Going limit c.ticketId s : Bench Snap → Prop) :=
    going_survives c c.ticketId s
  have hledger : ∀ w : Bench Snap, Going limit c.ticketId s w → Ledger limit w :=
    fun _ h => h.ledger
  refine Triple.bind (Triple.weaken (Preserves.quiet fun w h => hgoing.log w _ h) hledger) fun _ => ?_
  refine Triple.bind (Triple.weaken (Preserves.callHal hgoing.toSurvives _) hledger) fun booted => ?_
  apply Triple.bind (M := fun _ w => Going limit c.ticketId s w ∧ Waited c booted w)
  · refine Triple.quiet fun w h => ⟨?_, fun hn hbooted => ?_⟩
    · exact h.note fun _ _ _ heq => by cases heq
    subst hbooted
    simp only [Bench.note, Function.update_self] at hn ⊢
    rw [failedInARow_append]
    exact hn (w.history c.ticketId) c.n [] rfl
  · intro _
    have hline : Preserves (fun w => Going limit c.ticketId s w ∧ Waited c booted w)
        (X.append c .settle [("booted", .bool booted), ("settle_s", .num (.ofNat (X.settleOf c)))]
          none) := (waited_survives c s booted).append _ _ _
    exact Triple.bind (Triple.weaken hline fun w h => hledger w h.1) fun _ => Triple.pure fun _ h => h

open Preserves in
theorem runCycle_spec (s : RunState) (baseline : Snap) :
    Triple (Going limit c.ticketId s) (X.runCycle c baseline)
      (fun result w => Going limit c.ticketId s w ∧ Waited c result.booted w) (Ledger limit) := by
  have hgoing : SurvivesPhases X c (Going limit c.ticketId s : Bench Snap → Prop) :=
    going_survives c c.ticketId s
  have hledger : ∀ w : Bench Snap, Going limit c.ticketId s w → Ledger limit w :=
    fun _ h => h.ledger
  refine Triple.bind (Triple.weaken (quiet fun w h => hgoing.log w _ h) hledger) fun _ => ?_
  refine Triple.bind (Triple.weaken SurvivesPhases.done hledger) fun done => ?_
  refine Triple.bind (Triple.weaken (hgoing.arm done) hledger) fun _ => ?_
  refine Triple.bind (Triple.weaken (hgoing.quiesce done) hledger) fun _ => ?_
  refine Triple.bind (Triple.weaken (hgoing.act (power_going s) done) hledger) fun _ => ?_
  refine Triple.bind (settle_spec s) fun booted => ?_
  have hwaited : SurvivesPhases X c
      (fun w : Bench Snap => Going limit c.ticketId s w ∧ Waited c booted w) :=
    waited_survives c s booted
  have hledger' : ∀ w : Bench Snap, Going limit c.ticketId s w ∧ Waited c booted w → Ledger limit w :=
    fun _ h => h.1.ledger
  refine Triple.bind (Triple.weaken (hwaited.verify baseline booted) hledger') fun diff => ?_
  refine Triple.bind (Triple.weaken (callHal hwaited.toSurvives _) hledger') fun _ => ?_
  refine Triple.bind (Triple.weaken (write fun w h => hwaited.touch w _ h) hledger') fun _ => ?_
  refine Triple.bind (Triple.weaken (quiet fun w h => hwaited.log w _ h) hledger') fun _ => ?_
  exact Triple.pure fun _ h => h

/-- What the gate makes of a state. -/
theorem gate_ok {result : CycleResult} {findings findings' : List Finding} {s s' : RunState}
    {code : Int} {summary : String}
    (h : X.gate c result findings s = .ok (s', code, summary, findings')) :
    s'.ticketId = s.ticketId ∧ s'.consecutiveBootFailures = s.consecutiveBootFailures ∧
      (X.guardrails.consecutiveFailureAbort ≤ s.consecutiveBootFailures → s'.aborted = true) := by
  unfold ValidationExecutor.gate at h
  split at h
  · rcases hfinding : X.abortFinding c { s with aborted := true } with e | finding
    · simp only [hfinding] at h
      cases h
    · simp only [hfinding] at h
      cases h
      exact ⟨rfl, rfl, fun _ => rfl⟩
  · rename_i hbelow
    cases h
    exact ⟨rfl, rfl, fun hle => absurd hle hbelow⟩

theorem concludeCycle_spec {s : RunState} {result : CycleResult}
    (hlimit : X.guardrails.consecutiveFailureAbort = limit) :
    Triple (fun w => Going limit c.ticketId s w ∧ Waited c result.booted w)
      (X.concludeCycle c s result) (fun _ => Ledger limit) (Ledger limit) := by
  refine Triple.bind (Triple.ofExcept (fun _ _ _ h => h) fun _ h => h.1.ledger) fun findings => ?_
  refine Triple.bind (M := fun gated w => X.gate c result findings
      (s.finishCell result findings) = .ok gated ∧ Going limit c.ticketId s w ∧
        Waited c result.booted w) (Triple.ofExcept (fun _ hok w h => ⟨hok, h⟩)
      fun _ h => h.1.ledger) fun gated => Triple.assume fun hgate => ?_
  obtain ⟨s', code, summary, findings'⟩ := gated
  obtain ⟨hid, hcount, habort⟩ := gate_ok hgate
  rw [hlimit, ← hcount] at habort
  refine Triple.bind (M := fun _ => Ledger limit) ?_ fun _ =>
    Preserves.bind (Preserves.callHal ((ledger_survives c).toSurvives) _) fun _ => Preserves.pure _
  -- the outcome: the count of the history with this event
  refine Triple.write (fun w h => h.1.ledger) fun w h t => ?_
  obtain ⟨hgoing, hwaited⟩ := h
  have hs' : s'.ticketId = c.ticketId := hid.trans hgoing.1.2.1
  have hnew : s'.consecutiveBootFailures =
      if result.booted then 0 else countOf (w.runs c.ticketId) + 1 := by
    rw [hcount, ← hgoing.1.2.2.1]
    rfl
  by_cases ht : t = c.ticketId
  · subst ht
    simp only [Bench.note, Bench.saveRun, Bench.remember, hs', Function.update_self]
    refine Booked.of_saved hs' ?_
    have htally := (hgoing.ledger c.ticketId).tally
    rw [hgoing.not_aborted] at htally
    rw [hnew] at habort ⊢
    exact htally.conclude hwaited habort
  · simp only [Bench.note, Bench.saveRun, Bench.remember, hs', Function.update_of_ne ht]
    exact hgoing.ledger t

theorem powerCycle_spec (hlimit : X.guardrails.consecutiveFailureAbort = limit) (step : Step)
    (context : ExecutionContext) (target : String) :
    Preserves (Ledger limit) (X.powerCycle step context target) := by
  refine Preserves.bind (Preserves.ofExcept _) fun n => Preserves.bind (Preserves.ofExcept _) ?_
  refine fun total => Triple.bind (state_spec context.ticketId target total _) fun s => ?_
  split
  · exact Triple.pure fun _ h => h.1
  · rename_i hgo
    split
    · rename_i hn
      have hgoing : ∀ w : Bench Snap, StateRead limit context.ticketId s w →
          Going limit context.ticketId s w := fun w h => ⟨h, by simpa using hgo⟩
      have hcell : ∀ (k : Nat) (kind : String) (hk : 1 ≤ k), (s.withCell k kind hk).ticketId =
          s.ticketId ∧ (s.withCell k kind hk).consecutiveBootFailures =
            s.consecutiveBootFailures ∧ (s.withCell k kind hk).aborted = s.aborted := by
        intro k kind hk
        unfold RunState.withCell
        split <;> exact ⟨rfl, rfl, rfl⟩
      obtain ⟨hid, hcount, habort⟩ := hcell n.toNat (X.kindOf step) (by omega)
      set s' := (s.withCell n.toNat (X.kindOf step) (by omega)).markRunning n.toNat (X.kindOf step)
      have hsave : Triple (StateRead limit context.ticketId s)
          (ValidationExecutor.saveState s' : BenchM Snap Unit)
          (fun _ => Going limit context.ticketId s') (Ledger limit) :=
        (saveState_spec (show s'.ticketId = s.ticketId from hid) hcount habort).conseq hgoing
          (fun _ _ h => h) fun _ h => h
      refine Triple.bind hsave fun _ => ?_
      refine Triple.bind (Triple.ofExcept (fun _ _ _ h => h) fun _ h => h.ledger) fun settleS => ?_
      refine Triple.bind (M := fun _ => Going limit context.ticketId s') ?_ fun baseline => ?_
      · refine Triple.bind (M := fun _ => Going limit context.ticketId s')
          (Triple.look fun _ h => h) fun b => ?_
        split
        · exact Triple.pure fun _ h => h
        · exact Triple.raise fun _ h => h.ledger
      · exact Triple.bind (runCycle_spec (c := ⟨context.ticketId, target, n.toNat, X.kindOf step,
          settleS⟩) s' baseline) fun result => concludeCycle_spec hlimit
    · exact Triple.raise fun _ h => h.1

theorem request_ledger {r : Request Snap}
    (hlimit : r.executor.guardrails.consecutiveFailureAbort = limit) :
    Preserves (Ledger limit) r.prog := by
  refine Preserves.bind (Preserves.quiet fun w h => ?_) fun _ =>
    Preserves.bind (Triple.attempt ?_) fun _ => Preserves.quiet fun _ h => h
  · show Ledger limit (w.begin r.restarted)
    unfold Bench.begin
    split
    · exact fun t => { h t with
        memory_own := fun _ hs => (nomatch hs)
        agree := fun _ hs => (nomatch hs) }
    · exact h
  · refine execute_preserves (fun target => ?_) (fun _ _ h => h) fun _ target =>
      powerCycle_spec hlimit _ _ target
    exact { called := fun _ h => h, tick := fun _ h => h, touch := fun _ _ h => h
            baselines := fun _ _ h => h }

/-- The run lemma: the books are right after every session. -/
theorem session_ledger (hpos : 1 ≤ limit) (rs : List (Request Snap × Nat))
    (hlimit : ∀ r ∈ rs, r.1.executor.guardrails.consecutiveFailureAbort = limit) :
    Ledger limit (session Request.prog {} rs) := by
  have htrivial : Starts Request.prog (fun _ _ => True) ({} : Bench Snap) rs :=
    Starts.trivial _ rs
  have hstarts : Starts Request.prog (fun (r : Request Snap) _ =>
      r.executor.guardrails.consecutiveFailureAbort = limit) {} rs :=
    htrivial.mono fun r hr _ _ => hlimit r hr
  refine session_invariant ?_ hstarts fun t => ?_
  · exact fun r w hr h => (request_ledger hr).world_sat h r.2
  · exact { file_own := fun _ hs => (nomatch hs), memory_own := fun _ hs => (nomatch hs)
            agree := fun _ hs => (nomatch hs), tally := Tally.nil hpos }

/-- **The gate across restarts**: in every sequence of requests, each of which may
    be cut anywhere, in which no cycle that already counts as failed is waited for
    in vain again, the count is the number of the cycles that failed last in a
    row, whenever it is saved and at the end; and once it has reached the limit
    nothing is powered for the ticket. -/
theorem boot_failures_counted (g : Guardrails) (rs : List (Request Snap × Nat))
    (hg : ∀ r ∈ rs, r.1.executor.guardrails = g) (t : String)
    (hagain : NoneFailsAgain ((session Request.prog {} rs).history t)) :
    CountsFailures ((session Request.prog {} rs).history t) ∧
      (∀ s, (session Request.prog {} rs).states t = some s ∨
          (session Request.prog {} rs).runs t = some s →
        s.consecutiveBootFailures =
          (failedInARow ((session Request.prog {} rs).history t)).length) ∧
      StopsAt g.consecutiveFailureAbort ((session Request.prog {} rs).history t) := by
  have hbooked := session_ledger g.consecutiveFailureAbort_pos rs (fun r hr => by rw [hg r hr]) t
  have hcount := hbooked.tally.count_eq hagain
  refine ⟨hbooked.tally.counted hagain, ?_, hbooked.tally.stops⟩
  rintro s (hs | hs)
  · rw [(hbooked.agree s hs).1, hcount]
  · rw [← hcount, hs]
    rfl

end World

/-! ### A machine that does not come back -/

theorem NoneFailsAgain.snoc {e : RunEvent} (hn : NoneFailsAgain h)
    (he : ∀ n, e = .answered n false → n ∉ failedInARow h) : NoneFailsAgain (h ++ [e]) := by
  intro pre n post heq
  rcases snoc_eq_split heq with ⟨rfl, rfl, -⟩ | ⟨post', -, hpre⟩
  · exact he n rfl
  · exact hn pre n post' hpre

def strictGuardrails : Guardrails :=
  { defaultGuardrails with consecutiveFailureAbort := 1, consecutiveFailureAbort_pos := Nat.one_pos }

def deadExecutor (g : Guardrails) : ValidationExecutor Unit :=
  { steadyExecutor with
    hal := { steadyHal with waitForOs := fun _ _ _ => .ok false }, guardrails := g }

/-- A baseline, then cycles by their number, with the effects each request lives
    for. -/
def deadRuns (g : Guardrails) (cycles : List (Nat × Nat)) : List (Request Unit × Nat) :=
  ({ executor := deadExecutor g, step := benchStep "baseline_snapshot" []
     context := benchContext }, 100) ::
    cycles.map fun cycle =>
      ({ executor := deadExecutor g, context := benchContext
         step := benchStep "power_cycle" [("kind", .str "ac"), ("cycle", .num (.ofNat cycle.1))] },
        cycle.2)

/-- The first failure reaches the limit; the second cycle is skipped. -/
theorem dead_run_counted :
    let w := session Request.prog {} (deadRuns strictGuardrails [(1, 100), (2, 100)])
    CountsFailures (w.history "T-1") ∧
      (∀ s, w.states "T-1" = some s ∨ w.runs "T-1" = some s →
        s.consecutiveBootFailures = (failedInARow (w.history "T-1")).length) ∧
      StopsAt strictGuardrails.consecutiveFailureAbort (w.history "T-1") := by
  refine boot_failures_counted strictGuardrails
    (deadRuns strictGuardrails [(1, 100), (2, 100)]) ?_ "T-1" ?_
  · simp [deadRuns, deadExecutor]
  · have hhistory : (session Request.prog {}
        (deadRuns strictGuardrails [(1, 100), (2, 100)])).history "T-1" =
          [.power 1 .acCycle, .answered 1 false] ++ [.concluded 1 false 1] := by decide +kernel
    rw [hhistory]
    refine NoneFailsAgain.snoc ?_ (by simp)
    refine NoneFailsAgain.snoc (h := [.power 1 .acCycle]) ?_ (by simp [failedInARow, noteOutcome])
    exact NoneFailsAgain.snoc (h := []) (by simp [NoneFailsAgain]) (by simp)

/-- The request of a failed cycle ends right after the count is saved, its 25th
    effect; the cycle is sent again and counted again. -/
theorem failure_counted_twice :
    let w := session Request.prog {} (deadRuns {} [(1, 25), (1, 100)])
    (w.runs "T-1").map (·.consecutiveBootFailures) = some 2 ∧
      failedInARow (w.history "T-1") = [1] := by
  decide +kernel

end Slas
