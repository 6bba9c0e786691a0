/-
  Slas.Llm.Breaker

  The circuit breaker of the gateway (`slas_llm_gateway.breaker`) and what it grants,
  over whole histories of calls.

  The source keeps no history: that a model instance is paused, or that its trial is in
  flight, is a counter, a timestamp and a reason.  `allow_iff` says what those come to in
  terms of what happened: the failures since the last success, the time of the last
  failure, and what was granted since.
-/

import Mathlib.Logic.Function.Basic
import Slas.Kernel.World
import Slas.Lib.Trace

namespace Slas

namespace Llm

/-! ## The breaker -/

inductive BreakerState where
  | closed
  | «open»
  | halfOpen
  deriving DecidableEq

/-- `_Entry` -/
structure BreakerEntry where
  failures : Nat := 0
  state : BreakerState := .closed
  openedAt : Option DateTime := none
  lastReason : String := ""
  deriving DecidableEq

/-- `_entries`: an instance without an entry is given a new one when it is asked for. -/
abbrev Entries := String → BreakerEntry

/-- The reason that says that a trial request has been let through. -/
def trialInFlight : String := "trial in flight"

/-- `CircuitBreaker`; `watched` says that there is an `on_trip`. -/
structure CircuitBreaker where
  failureThreshold : Nat := 2
  cooldown : Int
  watched : Bool
  /-- `strftime("%H:%M")` -/
  clockFace : Int → String
  threshold_pos : 1 ≤ failureThreshold

/-- The readings of the clock during a call. -/
abbrev Readings := Nat → DateTime

namespace CircuitBreaker

variable (B : CircuitBreaker)

/-- The cooldown of an entry has passed. -/
def cooled (entry : BreakerEntry) (now : DateTime) : Prop :=
  ∃ openedAt ∈ entry.openedAt, (openedAt : Int) + B.cooldown ≤ now

instance (entry : BreakerEntry) (now : DateTime) : Decidable (B.cooled entry now) :=
  inferInstanceAs (Decidable (∃ openedAt ∈ entry.openedAt, (openedAt : Int) + B.cooldown ≤ now))

/-- The entry after `state`, which notices that the cooldown is over. -/
def noticed (entry : BreakerEntry) (now : DateTime) : BreakerEntry :=
  if entry.state = .open ∧ B.cooled entry now then { entry with state := .halfOpen } else entry

def state (key : String) (reads : Readings) (entries : Entries) : BreakerState × Entries :=
  let entry := B.noticed (entries key) (reads 0)
  (entry.state, Function.update entries key entry)

/-- Whether a request may go to the instance now; half-open lets one trial through. -/
def allow (key : String) (reads : Readings) (entries : Entries) : Bool × Entries :=
  let after := (B.state key reads entries).2
  match (B.state key reads entries).1 with
  | .closed => (true, after)
  | .open => (false, after)
  | .halfOpen =>
    if (after key).lastReason = trialInFlight then (false, after)
    else (true, Function.update after key { after key with lastReason := trialInFlight })

def recordSuccess (key : String) (entries : Entries) : Entries :=
  Function.update entries key {}

/-- `paused_until` -/
def pausedUntil (key : String) (reads : Readings) (entries : Entries) : Option Int × Entries :=
  let after := (B.state key reads entries).2
  if (B.state key reads entries).1 = .open then
    ((after key).openedAt.map fun openedAt => (openedAt : Int) + B.cooldown, after)
  else (none, after)

def sentence (key : String) (reads : Readings) (entries : Entries) : String × Entries :=
  let looked := (B.state key reads entries).2
  match (B.state key reads entries).1 with
  | .closed => (key ++ " is answering normally.", looked)
  | .halfOpen => (key ++ " is being tried again after a pause.", looked)
  | .open =>
    let paused := B.pausedUntil key (fun i => reads (i + 1)) looked
    let count := (paused.2 key).failures
    (key ++ " is paused until " ++ (paused.1.map B.clockFace).getD "later" ++ " after " ++
      toString count ++ (if count = 1 then " invalid answer." else " invalid answers."), paused.2)

/-- The entry with one more failure, before anyone hears of it. -/
def failed (entry : BreakerEntry) (reason : String) (now : DateTime) : BreakerEntry :=
  if entry.state = .halfOpen ∨ B.failureThreshold ≤ entry.failures + 1 then
    { failures := entry.failures + 1, state := .open, openedAt := some now, lastReason := reason }
  else { entry with failures := entry.failures + 1, lastReason := reason }

/-- `record_failure`; a trip is told in a sentence, which looks at the entry again. -/
def recordFailure (key reason : String) (reads : Readings) (entries : Entries) : Entries :=
  let entry := B.failed (entries key) reason (reads 0)
  let after := Function.update entries key entry
  if entry.state = .open ∧ (entries key).state ≠ .open ∧ B.watched then
    (B.sentence key (fun i => reads (i + 1)) after).2
  else after

end CircuitBreaker

/-! ## Histories -/

inductive BreakerCall where
  | allow
  | recordSuccess
  | recordFailure (reason : String)
  | state

/-- A call on the entry of a key, with what the clock said during it. -/
structure Asked where
  key : String
  call : BreakerCall
  reads : Readings

inductive BreakerAnswer where
  | allowed (granted : Bool)
  | state (s : BreakerState)
  | done
  deriving DecidableEq

/-- A call that has been answered. -/
structure Happened extends Asked where
  answer : BreakerAnswer

variable (B : CircuitBreaker)

def perform (ask : Asked) (entries : Entries) : BreakerAnswer × Entries :=
  match ask.call with
  | .allow =>
    let (granted, entries) := B.allow ask.key ask.reads entries
    (.allowed granted, entries)
  | .recordSuccess => (.done, CircuitBreaker.recordSuccess ask.key entries)
  | .recordFailure reason => (.done, B.recordFailure ask.key reason ask.reads entries)
  | .state =>
    let (s, entries) := B.state ask.key ask.reads entries
    (.state s, entries)

def history : List Asked → Entries → List Happened
  | [], _ => []
  | ask :: asks, entries =>
    { ask with answer := (perform B ask entries).1 } :: history asks (perform B ask entries).2

/-! ## What a history says of a key -/

def BreakerCall.isFailure : BreakerCall → Bool
  | .recordFailure _ => true
  | _ => false

def BreakerCall.isSuccess : BreakerCall → Bool
  | .recordSuccess => true
  | _ => false

/-- A failure of the key was recorded. -/
def Happened.failsFor (e : Happened) (key : String) : Bool := e.key == key && e.call.isFailure

def Happened.succeedsFor (e : Happened) (key : String) : Bool := e.key == key && e.call.isSuccess

/-- A request to the key was let through. -/
def Happened.grantedFor (e : Happened) (key : String) : Bool :=
  e.key == key && e.answer == .allowed true

/-- How many failures of the key were recorded since its last success. -/
def failuresSince (key : String) (h : List Happened) : Nat :=
  (h.reverse.takeWhile fun e => !e.succeedsFor key).countP fun e => e.failsFor key

/-- The cooldown has passed since the last failure of the key, and nothing was granted since
    that failure. -/
def TrialDue (key : String) (h : List Happened) (now : DateTime) : Prop :=
  Trace.Open (fun e => e.failsFor key = true ∧ (e.reads 0 : Int) + B.cooldown ≤ now)
    (fun e => e.failsFor key = true ∨ e.grantedFor key = true) h

/-- The clock does not go back, and no failure gives the reason that marks a trial. -/
structure WellAsked (asks : List Asked) : Prop where
  inOrder : asks.Pairwise fun a b => ∀ i j, a.reads i ≤ b.reads j
  reasons : ∀ ask ∈ asks, ask.call ≠ .recordFailure trialInFlight

variable {B} {key : String} {h : List Happened} {e : Happened} {now : DateTime}

theorem failuresSince_snoc :
    failuresSince key (h ++ [e]) =
      if e.succeedsFor key then 0
      else if e.failsFor key then failuresSince key h + 1 else failuresSince key h := by
  unfold failuresSince
  rw [List.reverse_append, List.reverse_singleton, List.singleton_append, List.takeWhile_cons]
  cases hsucceeds : e.succeedsFor key with
  | true => simp
  | false => cases hfails : e.failsFor key <;> simp [hfails]

theorem trialDue_snoc :
    TrialDue B key (h ++ [e]) now ↔
      (e.failsFor key = true ∧ (e.reads 0 : Int) + B.cooldown ≤ now) ∨
        TrialDue B key h now ∧ ¬ (e.failsFor key = true ∨ e.grantedFor key = true) :=
  Trace.open_snoc

/-! ## The entry and the history -/

/-- The next request to a paused instance would be let through. -/
def CircuitBreaker.ready (B : CircuitBreaker) (entry : BreakerEntry) (now : DateTime) : Prop :=
  (entry.state = .halfOpen ∨ B.cooled entry now) ∧ entry.lastReason ≠ trialInFlight

/-- An instance is paused from the threshold on. -/
def Counted (B : CircuitBreaker) (entry : BreakerEntry) : Prop :=
  entry.state = .closed ↔ entry.failures < B.failureThreshold

/-- What the entry of a key keeps of a history. -/
structure Recorded (B : CircuitBreaker) (key : String) (h : List Happened)
    (entry : BreakerEntry) : Prop where
  failures : entry.failures = failuresSince key h
  closed_iff : Counted B entry
  ready_iff : entry.state ≠ .closed → ∀ now, (∀ e ∈ h, ∀ i, e.reads i ≤ now) →
    (B.ready entry now ↔ TrialDue B key h now)

variable {entry : BreakerEntry}

theorem counted_fresh : Counted B {} := iff_of_true rfl B.threshold_pos

theorem recorded_nil : Recorded B key [] {} where
  failures := rfl
  closed_iff := counted_fresh
  ready_iff hne := absurd rfl hne

/-- The cooldown of what has cooled is over from then on. -/
theorem CircuitBreaker.cooled.mono {later : DateTime} (hc : B.cooled entry now)
    (hle : now ≤ later) : B.cooled entry later := by
  obtain ⟨openedAt, hmem, hcool⟩ := hc
  exact ⟨openedAt, hmem, hcool.trans (Int.ofNat_le.mpr hle)⟩

/-- To notice that the cooldown is over changes nothing that is asked for later. -/
theorem ready_noticed {later : DateTime} (hle : now ≤ later) :
    B.ready (B.noticed entry now) later ↔ B.ready entry later := by
  unfold CircuitBreaker.noticed
  split_ifs with hcool
  · have hlater := hcool.2.mono hle
    simp [CircuitBreaker.ready, CircuitBreaker.cooled] at hlater ⊢
    exact fun _ => Or.inr hlater
  · rfl

theorem noticed_closed_iff : (B.noticed entry now).state = .closed ↔ entry.state = .closed := by
  unfold CircuitBreaker.noticed
  split_ifs with hcool
  · simp [hcool.1]
  · rfl

@[simp] theorem noticed_failures : (B.noticed entry now).failures = entry.failures := by
  unfold CircuitBreaker.noticed
  split_ifs <;> rfl

@[simp] theorem noticed_lastReason : (B.noticed entry now).lastReason = entry.lastReason := by
  unfold CircuitBreaker.noticed
  split_ifs <;> rfl

@[simp] theorem noticed_openedAt : (B.noticed entry now).openedAt = entry.openedAt := by
  unfold CircuitBreaker.noticed
  split_ifs <;> rfl

theorem Counted.noticed (hc : Counted B entry) : Counted B (B.noticed entry now) := by
  rwa [Counted, noticed_closed_iff, noticed_failures]

theorem Counted.failed {reason : String} (hc : Counted B entry) :
    Counted B (B.failed entry reason now) := by
  unfold CircuitBreaker.failed
  split_ifs with htrip
  · have hreached : B.failureThreshold ≤ entry.failures + 1 := by
      rcases htrip with hhalf | hreached
      · have hopen : ¬ entry.failures < B.failureThreshold := fun hlt => by
          simp [hc.mpr hlt] at hhalf
        omega
      · exact hreached
    simp only [Counted, reduceCtorEq, false_iff, not_lt]
    exact hreached
  · rw [not_or, not_le] at htrip
    exact iff_of_true (hc.mpr (by omega)) htrip.2

/-- The entry may notice that its cooldown is over, whenever it is looked at. -/
theorem Recorded.notice (hrec : Recorded B key h entry) (hin : e ∈ h) (i : Nat) :
    Recorded B key h (B.noticed entry (e.reads i)) where
  failures := by rw [noticed_failures, hrec.failures]
  closed_iff := hrec.closed_iff.noticed
  ready_iff hopen now hnow := by
    rw [ready_noticed (hnow e hin i)]
    exact hrec.ready_iff (fun heq => hopen (noticed_closed_iff.mpr heq)) now hnow

/-- An event that records nothing for the key. -/
theorem Recorded.quiet (hrec : Recorded B key h entry) (hfails : e.failsFor key = false)
    (hsucceeds : e.succeedsFor key = false)
    (hgranted : e.grantedFor key = true → entry.state = .closed) :
    Recorded B key (h ++ [e]) entry where
  failures := by simp [failuresSince_snoc, hfails, hsucceeds, hrec.failures]
  closed_iff := hrec.closed_iff
  ready_iff hopen now hnow := by
    have hquiet : e.grantedFor key ≠ true := fun heq => hopen (hgranted heq)
    rw [trialDue_snoc, hrec.ready_iff hopen now fun x hx => hnow x (by simp [hx])]
    simp [hfails, hquiet]

theorem Recorded.other (hrec : Recorded B key h entry) (hkey : e.key ≠ key) :
    Recorded B key (h ++ [e]) entry :=
  hrec.quiet (by simp [Happened.failsFor, hkey]) (by simp [Happened.succeedsFor, hkey])
    fun hgranted => by simp [Happened.grantedFor, hkey] at hgranted

/-- A trial is let through. -/
theorem Recorded.granted (hrec : Recorded B key h entry) (hfails : e.failsFor key = false)
    (hsucceeds : e.succeedsFor key = false) (hgranted : e.grantedFor key = true) :
    Recorded B key (h ++ [e]) { B.noticed entry now with lastReason := trialInFlight } where
  failures := by simp [failuresSince_snoc, hfails, hsucceeds, hrec.failures]
  closed_iff := hrec.closed_iff.noticed
  ready_iff _ later _ := by
    rw [trialDue_snoc]
    simp [CircuitBreaker.ready, hfails, hgranted]

theorem Recorded.succeeded (hsucceeds : e.succeedsFor key = true) :
    Recorded B key (h ++ [e]) {} where
  failures := by simp [failuresSince_snoc, hsucceeds]
  closed_iff := counted_fresh
  ready_iff hne := absurd rfl hne

/-- A failure counts, and from the threshold on it is what the cooldown starts from. -/
theorem Recorded.failed (hrec : Recorded B key h entry) (hfails : e.failsFor key = true)
    {reason : String} (hreason : reason ≠ trialInFlight) :
    Recorded B key (h ++ [e]) (B.failed entry reason (e.reads 0)) := by
  have hsucceeds : e.succeedsFor key = false := by
    simp only [Happened.failsFor, Bool.and_eq_true] at hfails
    have hcall := hfails.2
    unfold BreakerCall.isFailure at hcall
    unfold Happened.succeedsFor BreakerCall.isSuccess
    split at hcall <;> simp_all
  refine ⟨?_, hrec.closed_iff.failed, ?_⟩
  · rw [failuresSince_snoc, hsucceeds, if_neg Bool.false_ne_true, if_pos hfails, ← hrec.failures]
    unfold CircuitBreaker.failed
    split_ifs <;> rfl
  · unfold CircuitBreaker.failed
    split_ifs with htrip
    · intro _ now _
      rw [trialDue_snoc]
      simp [CircuitBreaker.ready, CircuitBreaker.cooled, hfails, hreason]
    · intro hopen
      rw [not_or, not_le] at htrip
      exact absurd (hrec.closed_iff.mpr (by omega)) hopen

/-! ## One call -/

variable {entries : Entries} {ask : Asked} {reads : Readings}

/-- A request is let through when the instance is not paused, or its trial is due. -/
theorem allow_iff_ready : (B.allow key reads entries).1 = true ↔
    (entries key).state = .closed ∨ B.ready (entries key) (reads 0) := by
  unfold CircuitBreaker.allow CircuitBreaker.state CircuitBreaker.ready CircuitBreaker.noticed
  by_cases hcool : B.cooled (entries key) (reads 0) <;>
    cases hstate : (entries key).state <;>
    by_cases htrial : (entries key).lastReason = trialInFlight <;>
    simp [hcool, htrial, hstate]

@[simp] theorem state_entry :
    (B.state key reads entries).2 key = B.noticed (entries key) (reads 0) := by
  simp [CircuitBreaker.state]

theorem state_other {other : String} (hne : other ≠ key) :
    (B.state key reads entries).2 other = entries other := by
  simp [CircuitBreaker.state, hne]

theorem allow_other {other : String} (hne : other ≠ key) :
    (B.allow key reads entries).2 other = entries other := by
  have hstate : (B.state key reads entries).2 other = entries other := state_other hne
  rw [← hstate]
  unfold CircuitBreaker.allow
  cases (B.state key reads entries).1
  · rfl
  · rfl
  · simp only
    split_ifs
    · rfl
    · exact Function.update_of_ne hne _ _

/-- What `allow` makes of the entry it is asked about: it notices that the cooldown is over,
    and marks the trial that it lets through. -/
theorem allow_entry : (B.allow key reads entries).2 key =
    if (B.allow key reads entries).1 = true ∧ (entries key).state ≠ .closed then
      { B.noticed (entries key) (reads 0) with lastReason := trialInFlight }
    else B.noticed (entries key) (reads 0) := by
  have hclosed := @noticed_closed_iff B (reads 0) (entries key)
  have hstate : (B.state key reads entries).1 = (B.noticed (entries key) (reads 0)).state := rfl
  unfold CircuitBreaker.allow
  rw [hstate]
  cases hnoticed : (B.noticed (entries key) (reads 0)).state with
  | closed => simp [hclosed.mp hnoticed]
  | «open» => simp
  | halfOpen =>
    have hopen : (entries key).state ≠ .closed := fun heq => by
      simp [hclosed.mpr heq] at hnoticed
    by_cases htrial : (entries key).lastReason = trialInFlight
    · simp [htrial]
    · simp [htrial, hopen]

theorem pausedUntil_snd : (B.pausedUntil key reads entries).2 = (B.state key reads entries).2 := by
  unfold CircuitBreaker.pausedUntil
  split_ifs <;> rfl

theorem sentence_other {other : String} (hne : other ≠ key) :
    (B.sentence key reads entries).2 other = entries other := by
  unfold CircuitBreaker.sentence
  cases (B.state key reads entries).1
  · exact state_other hne
  · simp only [pausedUntil_snd, state_other hne]
  · exact state_other hne

/-- A sentence about a paused instance looks twice whether the cooldown is over. -/
theorem sentence_entry : (B.sentence key reads entries).2 key =
    if (B.noticed (entries key) (reads 0)).state = .open then
      B.noticed (B.noticed (entries key) (reads 0)) (reads 1)
    else B.noticed (entries key) (reads 0) := by
  have hstate : (B.state key reads entries).1 = (B.noticed (entries key) (reads 0)).state := rfl
  unfold CircuitBreaker.sentence
  rw [hstate]
  cases (B.noticed (entries key) (reads 0)).state
  · simp
  · simp [pausedUntil_snd]
  · simp

theorem recordFailure_other {other reason : String} (hne : other ≠ key) :
    (B.recordFailure key reason reads entries) other = entries other := by
  unfold CircuitBreaker.recordFailure
  split_ifs
  · rw [sentence_other hne, Function.update_of_ne hne]
  · rw [Function.update_of_ne hne]

/-- The entry after `record_failure`: the sentence about a trip may notice at once that the
    cooldown is over. -/
theorem recordFailure_entry {reason : String} :
    ∃ is : List Nat, (B.recordFailure key reason reads entries) key =
      (is.map reads).foldl B.noticed (B.failed (entries key) reason (reads 0)) := by
  unfold CircuitBreaker.recordFailure
  split_ifs
  · rw [sentence_entry, Function.update_self]
    split_ifs
    · exact ⟨[1, 2], rfl⟩
    · exact ⟨[1], rfl⟩
  · exact ⟨[], by simp⟩

theorem Recorded.notices (hrec : Recorded B key h entry) (hin : e ∈ h) (is : List Nat) :
    Recorded B key h ((is.map e.reads).foldl B.noticed entry) := by
  induction is generalizing entry with
  | nil => exact hrec
  | cons i is ih => exact ih (hrec.notice hin i)

theorem perform_other (hkey : ask.key ≠ key) : (perform B ask entries).2 key = entries key := by
  cases hcall : ask.call with
  | allow => simp [perform, hcall, allow_other (Ne.symm hkey)]
  | recordSuccess => simp [perform, hcall, CircuitBreaker.recordSuccess, Ne.symm hkey]
  | recordFailure reason => simp [perform, hcall, recordFailure_other (Ne.symm hkey)]
  | state => simp [perform, hcall, state_other (Ne.symm hkey)]

/-- A call and its answer, in the history. -/
def answered (B : CircuitBreaker) (ask : Asked) (entries : Entries) : Happened :=
  { ask with answer := (perform B ask entries).1 }

/-- What one call leaves recorded. -/
theorem perform_recorded (hrec : Recorded B key h (entries key))
    (hreason : ask.call ≠ .recordFailure trialInFlight) :
    Recorded B key (h ++ [answered B ask entries]) ((perform B ask entries).2 key) := by
  by_cases hkey : ask.key = key
  · subst hkey
    have hlast : answered B ask entries ∈ h ++ [answered B ask entries] := by simp
    cases hcall : ask.call with
    | allow =>
      have hfails : (answered B ask entries).failsFor ask.key = false := by
        simp [answered, Happened.failsFor, BreakerCall.isFailure, hcall]
      have hsucceeds : (answered B ask entries).succeedsFor ask.key = false := by
        simp [answered, Happened.succeedsFor, BreakerCall.isSuccess, hcall]
      have hgranted : (answered B ask entries).grantedFor ask.key =
          (B.allow ask.key ask.reads entries).1 := by
        cases hallow : (B.allow ask.key ask.reads entries).1 <;>
          simp [answered, Happened.grantedFor, perform, hcall, hallow]
      have hafter : (perform B ask entries).2 = (B.allow ask.key ask.reads entries).2 := by
        simp [perform, hcall]
      rw [hafter, allow_entry]
      split_ifs with htrial
      · exact hrec.granted hfails hsucceeds (hgranted.trans htrial.1)
      · refine (hrec.quiet hfails hsucceeds fun hlet => ?_).notice hlast 0
        by_contra hopen
        exact htrial ⟨hgranted.symm.trans hlet, hopen⟩
    | recordSuccess =>
      have hafter : (perform B ask entries).2 ask.key = {} := by
        simp [perform, hcall, CircuitBreaker.recordSuccess]
      rw [hafter]
      exact Recorded.succeeded (by simp [answered, Happened.succeedsFor, BreakerCall.isSuccess,
        hcall])
    | recordFailure reason =>
      have hafter : (perform B ask entries).2 =
          B.recordFailure ask.key reason ask.reads entries := by
        simp [perform, hcall]
      obtain ⟨is, heq⟩ := @recordFailure_entry B ask.key entries ask.reads reason
      rw [hafter, heq]
      refine Recorded.notices (hrec.failed ?_ fun hmark => hreason (hmark ▸ hcall)) hlast is
      simp [answered, Happened.failsFor, BreakerCall.isFailure, hcall]
    | state =>
      have hafter : (perform B ask entries).2 ask.key =
          B.noticed (entries ask.key) (ask.reads 0) := by
        simp [perform, hcall]
      rw [hafter]
      refine (hrec.quiet ?_ ?_ ?_).notice hlast 0
      · simp [answered, Happened.failsFor, BreakerCall.isFailure, hcall]
      · simp [answered, Happened.succeedsFor, BreakerCall.isSuccess, hcall]
      · simp [answered, Happened.grantedFor, perform, hcall]
  · rw [perform_other hkey]
    exact hrec.other hkey

/-- The answer to a call, and what it makes of its entry, come from that entry. -/
theorem perform_congr {entries' : Entries} (heq : entries ask.key = entries' ask.key) :
    (perform B ask entries).1 = (perform B ask entries').1 ∧
      (perform B ask entries).2 ask.key = (perform B ask entries').2 ask.key := by
  cases hcall : ask.call with
  | allow =>
    have hallow : (B.allow ask.key ask.reads entries).1 =
        (B.allow ask.key ask.reads entries').1 := by
      rw [Bool.eq_iff_iff, allow_iff_ready, allow_iff_ready, heq]
    simp [perform, hcall, hallow, allow_entry, heq]
  | recordSuccess => simp [perform, hcall, CircuitBreaker.recordSuccess]
  | recordFailure reason =>
    simp only [perform, hcall, CircuitBreaker.recordFailure, heq, true_and]
    split_ifs
    · rw [sentence_entry, sentence_entry, Function.update_self, Function.update_self]
    · rw [Function.update_self, Function.update_self]
  | state => simp [perform, hcall, CircuitBreaker.state, heq]

/-! ## Whole histories -/

/-- A request is answered as the history of its key says. -/
def Granted (B : CircuitBreaker) (pre : List Happened) (e : Happened) : Prop :=
  e.call = .allow → (e.answer = .allowed true ↔
    failuresSince e.key pre < B.failureThreshold ∨ TrialDue B e.key pre (e.reads 0))

theorem answered_granted (hrec : Recorded B ask.key h (entries ask.key))
    (hpast : ∀ e ∈ h, ∀ i, e.reads i ≤ ask.reads 0) :
    Granted B h (answered B ask entries) := by
  intro hcall
  have hallow : (answered B ask entries).answer = .allowed true ↔
      (B.allow ask.key ask.reads entries).1 = true := by
    have hcall' : ask.call = .allow := hcall
    simp [answered, perform, hcall']
  change _ ↔ failuresSince ask.key h < _ ∨ TrialDue B ask.key h (ask.reads 0)
  have hcounted : _ ↔ _ := hrec.closed_iff
  rw [hallow, allow_iff_ready, ← hrec.failures, ← hcounted]
  by_cases hclosed : (entries ask.key).state = .closed
  · simp [hclosed]
  · rw [hrec.ready_iff hclosed _ hpast]

/-- The induction: what is asked next, from entries that keep what has happened. -/
theorem history_granted {asks : List Asked} (hrec : ∀ key, Recorded B key h (entries key))
    (hask : WellAsked asks) (hpast : ∀ e ∈ h, ∀ ask ∈ asks, ∀ i j, e.reads i ≤ ask.reads j) :
    Trace.Always (fun pre e => Granted B (h ++ pre) e) (history B asks entries) := by
  induction asks generalizing h entries with
  | nil => exact Trace.always_nil
  | cons ask asks ih =>
    have horder := List.pairwise_cons.mp hask.inOrder
    have hrec' := fun key => perform_recorded (hrec key) (hask.reasons ask (by simp))
    rw [history, Trace.always_cons]
    constructor
    · rw [List.append_nil]
      exact answered_granted (hrec ask.key) fun e he i => hpast e he ask (by simp) i 0
    · have hrest := ih hrec' ⟨horder.2, fun a ha => hask.reasons a (by simp [ha])⟩ fun e he a ha => by
        rcases List.mem_append.mp he with he | he
        · exact hpast e he a (by simp [ha])
        · rw [List.mem_singleton.mp he]
          exact horder.1 a ha
      intro pre e post heq
      rw [List.append_cons]
      exact hrest pre e post heq

/-- The calls on a key are answered as if there were no others. -/
theorem history_filter (key : String) (asks : List Asked) {entries' : Entries}
    (heq : entries key = entries' key) :
    (history B asks entries).filter (fun e => e.key = key) =
      history B (asks.filter fun ask => ask.key = key) entries' := by
  induction asks generalizing entries entries' with
  | nil => rfl
  | cons ask asks ih =>
    by_cases hkey : ask.key = key
    · subst hkey
      have hperform := perform_congr (B := B) heq
      rw [history, List.filter_cons_of_pos (by simp), List.filter_cons_of_pos (by simp), history,
        hperform.1, ih hperform.2]
    · rw [history, List.filter_cons_of_neg (by simpa using hkey),
        List.filter_cons_of_neg (by simpa using hkey), ih (by rw [perform_other hkey, heq])]

/-- **The breaker meets its specification**, over any calls on any keys: a request is let
    through exactly when fewer failures than the threshold were recorded since the last
    success, or the cooldown has passed since the last failure and nothing was let through
    since; and the calls on other keys change no answer. -/
theorem allow_iff (B : CircuitBreaker) (asks : List Asked) (hask : WellAsked asks) :
    Trace.Always (Granted B) (history B asks fun _ => {}) ∧
      ∀ key, (history B asks fun _ => {}).filter (fun e => e.key = key) =
        history B (asks.filter fun ask => ask.key = key) fun _ => {} := by
  constructor
  · have hall := history_granted (B := B) (h := []) (fun _ => recorded_nil) hask
      (fun _ he => nomatch he)
    simpa using hall
  · exact fun key => history_filter key asks rfl

def pausing : CircuitBreaker where
  cooldown := 300
  watched := false
  clockFace _ := ""
  threshold_pos := by decide

/-- Two failures, a request during the cooldown, and two after it. -/
def tried : List Asked :=
  [⟨"coder", .recordFailure "did not answer", fun _ => 0⟩,
   ⟨"coder", .recordFailure "did not answer", fun _ => 10⟩,
   ⟨"coder", .allow, fun _ => 20⟩,
   ⟨"coder", .allow, fun _ => 310⟩,
   ⟨"coder", .allow, fun _ => 320⟩]

theorem one_trial_granted :
    (history pausing tried fun _ => {}).map (·.answer) =
        [.done, .done, .allowed false, .allowed true, .allowed false] ∧
      Trace.Always (Granted pausing) (history pausing tried fun _ => {}) := by
  refine ⟨by decide +kernel, (allow_iff pausing tried ⟨?_, ?_⟩).1⟩
  · simp [tried]
  · simp [tried, trialInFlight]

end Llm

end Slas
