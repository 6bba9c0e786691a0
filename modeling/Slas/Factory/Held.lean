/-
  Slas.Factory.Held

  Stations on hold.  A verdict that is no PASS holds the station for the line
  lead, and what keeps others off it is the lease that its ticket has: an ordinary
  lease, which expires, and which the ticket may give back.  So the hold lasts
  until the decision as long as the lease does.
-/

import Slas.Factory.Evidence
import Slas.Lib.Trace

namespace Slas

open Crash

/-! ## Holds -/

/-- A verdict of the ticket holds the station, and the line lead has not decided
    on the ticket since. -/
def OnHold (events : List StationEvent) (t station : String) : Prop :=
  Trace.Open (fun e => ∃ lease, e = .held t station lease) (· = .decided t) events

/-- No ticket is granted a lease of a station that is on hold for another one. -/
def StaysHeld (events : List StationEvent) : Prop :=
  Trace.Always (fun before e => ∀ t' station, e = .granted t' station →
    ∀ t, OnHold before t station → t = t') events

/-- A verdict that holds a station finds a lease of its ticket on it. -/
def StationEvent.Leased : StationEvent → Prop
  | .held t _ lease => lease.map (·.ticketId) = some t
  | _ => True

instance : DecidablePred StationEvent.Leased
  | .held t _ lease => inferInstanceAs (Decidable (lease.map (·.ticketId) = some t))
  | .granted _ _ => .isTrue trivial
  | .decided _ => .isTrue trivial

/-- While a station is on hold, a lease of it that is asked for by another ticket
    finds one that has not expired, and the ticket does not release it. -/
structure KeepsHold (X : FactoryExecutor) (step : Step) (context : ExecutionContext) (w : Plant) :
    Prop where
  lease : step.primitive = "lease_station" → ∀ t station lease, OnHold w.events t station →
    t ≠ context.ticketId → X.strArg step "station" = .ok station →
    w.leases station = some lease → X.clock w.ticks < lease.until_
  release : step.primitive = "release_station" → ∀ station,
    X.strArg step "station" = .ok station → ¬ OnHold w.events context.ticketId station

/-- The same of a request; only steps work on leases. -/
def FactoryRequest.KeepsHolds (X : FactoryExecutor) (r : FactoryRequest) (w : Plant) : Prop :=
  match r.call with
  | .execute step context _ => KeepsHold X step context w
  | _ => True

/-- Each station on hold is leased to its ticket, and nobody else was granted it. -/
structure Holding (events : List StationEvent) (leases : LeaseTable.Items) : Prop where
  backed : ∀ t station, OnHold events t station →
    ∃ lease, leases station = some lease ∧ lease.ticketId = t
  stays : StaysHeld events

variable {X : FactoryExecutor} {events : List StationEvent} {leases items : LeaseTable.Items}
  {t t' station station' : String} {lease : Option Lease}

/-! ## One more event -/

theorem not_onHold_nil : ¬ OnHold [] t station := Trace.not_open_nil

@[simp] theorem onHold_held : OnHold (events ++ [.held t' station' lease]) t station ↔
    (t' = t ∧ station' = station) ∨ OnHold events t station := by
  simp [OnHold, Trace.open_snoc]

@[simp] theorem onHold_granted :
    OnHold (events ++ [.granted t' station']) t station ↔ OnHold events t station := by
  simp [OnHold, Trace.open_snoc]

@[simp] theorem onHold_decided :
    OnHold (events ++ [.decided t']) t station ↔ OnHold events t station ∧ t' ≠ t := by
  simp [OnHold, Trace.open_snoc]

@[simp] theorem staysHeld_held :
    StaysHeld (events ++ [.held t station lease]) ↔ StaysHeld events := by
  simp [StaysHeld, Trace.always_snoc]

@[simp] theorem staysHeld_decided : StaysHeld (events ++ [.decided t]) ↔ StaysHeld events := by
  simp [StaysHeld, Trace.always_snoc]

@[simp] theorem staysHeld_granted : StaysHeld (events ++ [.granted t' station]) ↔
    StaysHeld events ∧ ∀ t, OnHold events t station → t = t' := by
  simp [StaysHeld, Trace.always_snoc]

theorem Holding.decided (h : Holding events leases) : Holding (events ++ [.decided t]) leases :=
  ⟨fun t' station hhold => h.backed t' station (onHold_decided.mp hhold).1,
    staysHeld_decided.mpr h.stays⟩

/-- A ticket that does not hold the station may release it. -/
theorem Holding.release (h : Holding events leases) (hfree : ¬ OnHold events t station) :
    Holding events ((LeaseTable.release leases station t).getD leases) := by
  refine ⟨fun t' station' hhold => ?_, h.stays⟩
  obtain ⟨lease, hlease, hid⟩ := h.backed t' station' hhold
  refine ⟨lease, LeaseTable.release_keep hlease fun hstation hown => hfree ?_, hid⟩
  rwa [← hstation, ← hown, hid]

theorem Holding.held (h : Holding events leases)
    (hlease : (leases station).map (·.ticketId) = some t) :
    Holding (events ++ [.held t station (leases station)]) leases := by
  refine ⟨fun t' station' hhold => ?_, staysHeld_held.mpr h.stays⟩
  rcases onHold_held.mp hhold with ⟨rfl, rfl⟩ | hbefore
  · exact Option.map_eq_some_iff.mp hlease
  · exact h.backed t' station' hbefore

/-- A lease is granted: the leases of stations on hold have not expired, so it is of
    no station on hold for another ticket. -/
theorem Holding.granted {noun user : String} {now : DateTime} {maxHours : Nat} {granted : Lease}
    (h : Holding events leases)
    (hacquire : LeaseTable.acquire noun leases station t' user now maxHours = .ok (granted, items))
    (hlive : ∀ t lease, OnHold events t station → t ≠ t' → leases station = some lease →
      now < lease.until_) : Holding (events ++ [.granted t' station]) items := by
  obtain ⟨hfree, -, hid, rfl⟩ := LeaseTable.acquire_ok hacquire
  have hown : ∀ t, OnHold events t station → t = t' := by
    intro t hhold
    by_contra hne
    obtain ⟨lease, hlease, rfl⟩ := h.backed t station hhold
    exact hne (LeaseTable.blocking_eq_none hfree hlease (hlive _ lease hhold hne hlease))
  refine ⟨fun t station' hhold => ?_, staysHeld_granted.mpr ⟨h.stays, hown⟩⟩
  have hbefore := onHold_granted.mp hhold
  by_cases hstation : station' = station
  · subst hstation
    exact ⟨granted, Function.update_self .., hid.trans (hown t hbefore).symm⟩
  · rw [Function.update_of_ne hstation]
    exact h.backed t station' hbefore

/-! ## The requests -/

/-- When every hold found its lease, the holds have been kept. -/
def Held (events : List StationEvent) (leases : LeaseTable.Items) : Prop :=
  (∀ e ∈ events, e.Leased) → Holding events leases

abbrev HeldPlant (w : Plant) : Prop := Held w.events w.leases

variable {w : Plant} {d : Decision} {s : JobState}

theorem Held.decideInMemory (h : HeldPlant w) : HeldPlant (X.decideInMemory d s w) :=
  fun hleased => (h fun e he => hleased e (List.mem_append_left _ he)).decided

theorem decideInMemory_free : ¬ OnHold (X.decideInMemory d s w).events d.ticketId station :=
  fun hhold => (onHold_decided.mp hhold).2 rfl

theorem Held.release (h : HeldPlant w) (hfree : ¬ OnHold w.events t station) :
    HeldPlant (w.release station t) :=
  fun hleased => (h hleased).release hfree

theorem Held.catchUp (h : HeldPlant w) : HeldPlant (X.catchUp w) := by
  unfold FactoryExecutor.catchUp
  generalize X.meanwhile w.ticks = decisions
  induction decisions generalizing w with
  | nil => exact h
  | cons d decisions ih =>
    apply ih
    unfold FactoryExecutor.arrive
    split
    · exact h
    · exact Held.release h.decideInMemory decideInMemory_free

theorem held_edits : Edits X t HeldPlant := ⟨fun _ _ h _ => h, fun _ h => h⟩

theorem held_sends (step : Step) (context : ExecutionContext) :
    Sends X step context HeldPlant HeldPlant where
  le _ h := h
  tickBefore _ h := h
  numbered _ h := h
  send _ _ h _ _ _ := Held.catchUp h
  tick _ h := h
  edit _ _ h _ := h

theorem held_judges : Judges X t (fun _ => True) HeldPlant where
  toEdits := held_edits
  known _ _ _ _ := trivial
  voters _ h := h.catchUp
  held _ _ _ h _ hleased :=
    (h fun e he => hleased e (List.mem_append_left _ he)).held
      (hleased _ (List.mem_append_right _ (List.mem_singleton_self _)))
  passed _ _ _ h _ _ _ _ _ := h

/-- A plant with the events, the leases and the clock of `w₀`, where the holds have
    been kept. -/
def Begun (w₀ w : Plant) : Prop :=
  HeldPlant w ∧ w.events = w₀.events ∧ w.leases = w₀.leases ∧ w.ticks = w₀.ticks

theorem begun_enters (w₀ : Plant) (step : Step) (context : ExecutionContext) :
    Enters X step context (Begun w₀) :=
  { edit := fun _ _ h _ => h, save := fun _ h => h, reload := fun _ _ h _ => h
    fresh := fun _ _ h _ _ => h }

theorem execute_held {w₀ : Plant} {step : Step} {context : ExecutionContext}
    (hkeeps : KeepsHold X step context w₀) :
    Triple (Begun w₀) (X.execute step context) (fun _ => HeldPlant) HeldPlant := by
  refine execute_spec (begun_enters w₀ step context) held_edits (fun _ h => h.1) ?_
  by_cases hlease : step.primitive = "lease_station"
  · simp only [FactoryExecutor.handle, hlease]
    refine lease_spec (fun _ h => h.1) ?_ (fun _ h => h.1) fun _ _ h _ => h
    rintro w station lease items ⟨h, hevents, hleases, hticks⟩ hstation hacquire hleased
    have hholding := h fun e he => hleased e (List.mem_append_left _ he)
    refine hholding.granted hacquire fun t lease hhold hne hlease' => ?_
    rw [hticks]
    exact hkeeps.lease hlease t station lease (hevents ▸ hhold) hne hstation (hleases ▸ hlease')
  · by_cases hrelease : step.primitive = "release_station"
    · simp only [FactoryExecutor.handle, hrelease]
      have hspec : Preserves (fun w => HeldPlant w ∧ w.events = w₀.events)
          (X.release step context) := by
        refine release_spec (fun w station h hstation => ⟨h.1.release ?_, h.2⟩) fun _ _ h _ => h
        exact h.2 ▸ hkeeps.release hrelease station hstation
      exact hspec.conseq (fun _ h => ⟨h.1, h.2.1⟩) (fun _ _ h => h.1) fun _ h => h.1
    · by_cases hverdict : step.primitive = "verdict"
      · simp only [FactoryExecutor.handle, hverdict]
        exact held_judges.verdict.conseq (fun _ h => h.1) (fun _ _ h => h) fun _ h => h
      · exact ((held_sends step context).handle hlease hrelease hverdict).conseq
          (fun _ h => h.1) (fun _ _ h => h) fun _ h => h

theorem request_held {r : FactoryRequest} {w₀ : Plant} (hkeeps : r.KeepsHolds X w₀)
    (h : HeldPlant w₀) :
    Triple (fun w => w = w₀) (r.prog X) (fun _ => HeldPlant) HeldPlant := by
  refine request_spec (P := Begun w₀) ?_ ?_ fun _ h => h
  · rintro w rfl
    unfold Plant.begin
    split <;> exact ⟨h, rfl, rfl, rfl⟩
  · unfold FactoryRequest.KeepsHolds at hkeeps
    cases hcall : r.call with
    | execute step context valid =>
      rw [hcall] at hkeeps
      exact Triple.bind (execute_held hkeeps) fun _ => Preserves.pure _
    | decide d =>
      have hdecide : Preserves HeldPlant (X.decide d) := by
        refine decide_spec (M := fun w => HeldPlant w ∧ ∀ station, ¬ OnHold w.events d.ticketId station)
          d ?_ (fun _ h => h.1) ?_ (fun _ h => h) fun _ h => h
        · exact fun w s h _ => ⟨h.decideInMemory, fun _ => decideInMemory_free⟩
        · exact fun w station h => ⟨h.1.release (h.2 station), h.2⟩
      exact hdecide.conseq (fun _ h => h.1) (fun _ _ h => h) fun _ h => h
    | control t verb by_ =>
      have hcontrol : Preserves HeldPlant (X.control t verb by_) :=
        control_spec (fun _ h => h) (fun _ _ h _ => h) (fun w s batch h _ _ _ _ => Held.catchUp h)
          fun _ h => h
      exact hcontrol.conseq (fun _ h => h.1) (fun _ _ h => h) fun _ h => h

/-- **A held station stays held**: in every sequence of requests in which each hold
    finds its lease, no other ticket asks for the station once that lease has
    expired, and the ticket does not release the station itself, no other ticket is
    granted a lease of a station on hold before the line lead decides. -/
theorem held_stays (rs : List (FactoryRequest × Nat))
    (hleased : ∀ e ∈ (session (FactoryRequest.prog X) {} rs).events, e.Leased)
    (hkeeps : Starts (FactoryRequest.prog X) (FactoryRequest.KeepsHolds X) {} rs) :
    StaysHeld (session (FactoryRequest.prog X) {} rs).events := by
  have hheld : HeldPlant (session (FactoryRequest.prog X) {} rs) := by
    refine session_invariant (fun r w hkeeps h => (request_held hkeeps h).world_sat rfl r.2) hkeeps ?_
    exact fun _ => ⟨fun t station hhold => absurd hhold not_onHold_nil, Trace.always_nil⟩
  exact (hheld hleased).stays

/-! ### A hold, with and without its lease -/

open FactoryLine

/-- A unit without a result is held; another job asks for the station, before and
    after the decision. -/
def heldRuns : List (FactoryRequest × Nat) :=
  [leaseStation "T-1", verdict, leaseStation "T-2", decision "T-1", leaseStation "T-2"]

theorem leaseStation_keepsHolds {clock : Nat → DateTime} {ticketId : String}
    (h : (w.leases "station-07").all (fun lease => decide (clock w.ticks < lease.until_)) = true) :
    (leaseStation ticketId).1.KeepsHolds (executor clock) w := by
  refine ⟨fun _ t station lease _ _ hstation hlease => ?_, fun hrelease => absurd hrelease (by decide)⟩
  obtain rfl : "station-07" = station := Except.ok.inj hstation
  rw [hlease] at h
  exact of_decide_eq_true h

theorem held_runs_stay :
    StaysHeld (session (FactoryRequest.prog (executor fun n => n)) {} heldRuns).events := by
  refine held_stays heldRuns (by decide +kernel) ⟨?_, ?_, ?_, trivial, ?_, trivial⟩
  · exact leaseStation_keepsHolds (by decide +kernel)
  · exact ⟨fun hlease => absurd hlease (by decide), fun hrelease => absurd hrelease (by decide)⟩
  · exact leaseStation_keepsHolds (by decide +kernel)
  · exact leaseStation_keepsHolds (by decide +kernel)

theorem station_named : "station-07" ≠ "" := by decide

theorem ticket_named : "T-1" ≠ "" := by decide

/-- The lease of the first job, granted at hour zero. -/
def firstLease : Lease where
  target := "station-07"
  ticketId := "T-1"
  user := "ana"
  since := 0
  until_ := hours 8
  target_ne := station_named
  ticketId_ne := ticket_named
  user_ne := by decide

/-- Nine hours go by between a verdict and the next request, and the lease is for
    eight. -/
theorem hold_outlives_lease :
    ¬ StaysHeld (session (FactoryRequest.prog (executor fun n => n * hours 9)) {}
      [leaseStation "T-1", verdict, leaseStation "T-2"]).events := by
  intro hstays
  have hevents : (session (FactoryRequest.prog (executor fun n => n * hours 9)) {}
      [leaseStation "T-1", verdict, leaseStation "T-2"]).events =
      ([.granted "T-1" "station-07"] ++ [.held "T-1" "station-07" (some firstLease)]) ++
        [.granted "T-2" "station-07"] := by
    decide +kernel
  rw [hevents, staysHeld_granted] at hstays
  exact absurd (hstays.2 "T-1" (onHold_held.mpr (Or.inl ⟨rfl, rfl⟩))) (by decide)

end Slas
