/-
  Slas.Factory.OnLease

  Batches and leases.  A job leases its station once, and no step after that looks
  at the lease table, while a decision of the line lead releases the station
  whenever it comes, held or not.  A batch is sent under a lease of its ticket
  exactly when the ticket has one as the request begins, that one has not expired,
  and no decision on the ticket came in between.
-/

import Slas.Factory.Evidence

namespace Slas

open Crash

/-- The table names the ticket as the holder of the station that it sends to. -/
def Sent.Covered (e : Sent) : Prop :=
  ∃ lease, e.holder = some lease ∧ lease.ticketId = e.ticketId

/-- The station of the ticket's job, from memory or from the file. -/
def Plant.jobStation (w : Plant) (t : String) : Option String := (w.stateFor t).map (·.station)

/-- The ticket has a lease of the station in `w` that is still good as the batch is
    sent, and no decision that came in before has released it. -/
def Sent.OnLease (w : Plant) (e : Sent) : Prop :=
  (∃ lease, w.leases e.station = some lease ∧ lease.ticketId = e.ticketId ∧ e.at_ < lease.until_) ∧
    ∀ d ∈ e.arrived, d.ticketId = e.ticketId → (w.jobStation e.ticketId).getD e.station ≠ e.station

/-- Each request sends its batch under a lease that its ticket has as the request
    begins, and that no decision releases before. -/
def SentBacked (X : FactoryExecutor) : Plant → List (FactoryRequest × Nat) → Prop
  | _, [] => True
  | w, r :: rs =>
    (∀ e ∈ (after (FactoryRequest.prog X) w r).sent.drop w.sent.length,
      e.OnLease (w.begin r.1.restarted)) ∧ SentBacked X (after (FactoryRequest.prog X) w r) rs

variable {X : FactoryExecutor} {w w₀ : Plant} {t station : String} {s : JobState} {d : Decision}

/-! ## The station of a job -/

@[simp] theorem jobStation_remember : (w.remember t s).jobStation t = some s.station := by
  simp [Plant.jobStation, Plant.stateFor, Plant.remember]

theorem jobStation_edit {f : JobState → JobState} (hf : ∀ s, (f s).station = s.station) :
    (w.edit t f).jobStation t = w.jobStation t := by
  simp only [Plant.jobStation, Plant.stateFor, Plant.edit, Function.update_self]
  cases w.memory t with
  | none => rfl
  | some s => exact congrArg some (hf s)

@[simp] theorem jobStation_save {t' : String} : (w.save t').jobStation t = w.jobStation t := by
  simp only [Plant.jobStation, Plant.stateFor, Plant.save]
  by_cases ht : t = t'
  · subst ht
    rw [Function.update_self]
    cases w.memory t <;> rfl
  · rw [Function.update_of_ne ht]

theorem jobStation_of_memory (h : (w.memory t).isSome) : ∃ station, w.jobStation t = some station := by
  obtain ⟨s, hs⟩ := Option.isSome_iff_exists.mp h
  exact ⟨s.station, by simp [Plant.jobStation, Plant.stateFor, hs]⟩

/-! ## What decisions do -/

theorem jobStation_arrive : (X.arrive w d).jobStation t = w.jobStation t := by
  unfold FactoryExecutor.arrive
  split
  · rfl
  · rename_i s hs
    rw [jobStation_save]
    show (w.remember d.ticketId (X.decided d s)).jobStation t = w.jobStation t
    by_cases ht : t = d.ticketId
    · subst ht
      rw [jobStation_remember, Plant.jobStation, hs]
      rfl
    · simp only [Plant.jobStation, Plant.stateFor, Plant.remember, Function.update_of_ne ht]

/-- A decision takes the lease of its ticket on the station of its job, and no other. -/
theorem arrive_leases (h : w.jobStation t = some station) {target : String} {lease : Lease}
    (hid : lease.ticketId = t) : (X.arrive w d).leases target = some lease ↔
      w.leases target = some lease ∧ (d.ticketId = t → station ≠ target) := by
  obtain ⟨s, hs, rfl⟩ := Option.map_eq_some_iff.mp h
  unfold FactoryExecutor.arrive
  split
  · rename_i hnone
    exact ⟨fun hlease => ⟨hlease, fun heq => by rw [heq, hs] at hnone; cases hnone⟩, fun h => h.1⟩
  · rename_i s' hs'
    show (LeaseTable.release w.leases s'.station d.ticketId).getD w.leases target = some lease ↔ _
    constructor
    · intro hlease
      have hbefore := LeaseTable.release_back hlease
      refine ⟨hbefore, ?_⟩
      rintro hdecided rfl
      obtain rfl : s' = s := by
        rw [hdecided, hs] at hs'
        exact (Option.some.inj hs').symm
      simp [LeaseTable.release, hbefore, hid, hdecided] at hlease
    · rintro ⟨hbefore, hstation⟩
      refine LeaseTable.release_keep hbefore fun htarget hown => ?_
      have hdecided : d.ticketId = t := hown.symm.trans hid
      rw [hdecided, hs] at hs'
      exact hstation hdecided (Option.some.inj hs' ▸ htarget.symm)

theorem catchUp_leases (h : w.jobStation t = some station) {target : String} {lease : Lease}
    (hid : lease.ticketId = t) : (X.catchUp w).leases target = some lease ↔
      w.leases target = some lease ∧
        ∀ d ∈ X.meanwhile w.ticks, d.ticketId = t → station ≠ target := by
  unfold FactoryExecutor.catchUp
  generalize X.meanwhile w.ticks = decisions
  induction decisions generalizing w with
  | nil => simp
  | cons d decisions ih =>
    rw [List.foldl_cons, ih (jobStation_arrive.trans h), arrive_leases h hid, and_assoc,
      List.forall_mem_cons]

/-! ## One request -/

/-- What a request adds to the record of batches, since `w₀`. -/
def SentSince (w₀ w : Plant) : Prop :=
  ∃ new, w.sent = w₀.sent ++ new ∧ ((∀ e ∈ new, e.Covered) ↔ ∀ e ∈ new, e.OnLease w₀)

theorem SentSince.of_sent (h : w.sent = w₀.sent) : SentSince w₀ w := ⟨[], by simp [h], by simp⟩

/-- One batch: it is covered exactly when it is on the lease that the table had. -/
theorem SentSince.sending {stepId : String} {batch : StepBatch} (hsent : w.sent = w₀.sent)
    (hleases : w.leases = w₀.leases)
    (hstation : w.jobStation batch.ticketId =
      some ((w₀.jobStation batch.ticketId).getD batch.station)) :
    SentSince w₀ (X.sending stepId batch w) := by
  obtain ⟨e, hnew, ⟨hticket, -, htarget, -⟩, -, harrived, hholder⟩ :=
    sending_spec (X := X) stepId batch w
  rw [← hticket, ← htarget] at hstation
  refine ⟨[e], by rw [hnew, hsent], ?_⟩
  simp only [List.forall_mem_singleton, Sent.OnLease, harrived]
  constructor
  · rintro ⟨lease, hheld, hid⟩
    obtain ⟨hlease, hlive⟩ := LeaseTable.holder_eq_some (hholder ▸ hheld)
    obtain ⟨hbefore, hkept⟩ := (catchUp_leases hstation hid).mp hlease
    exact ⟨⟨lease, hleases ▸ hbefore, hid, hlive⟩, hkept⟩
  · rintro ⟨⟨lease, hbefore, hid, hlive⟩, hkept⟩
    have hlease := (catchUp_leases (X := X) hstation hid).mpr ⟨hleases.symm ▸ hbefore, hkept⟩
    exact ⟨lease, hholder.trans (LeaseTable.holder_of_live hlease hlive), hid⟩

/-- A step before it sends: nothing is sent, the leases are those of `w₀`, and the
    job's station is that of `w₀` or the one the step names. -/
structure Unsent (X : FactoryExecutor) (step : Step) (t : String) (w₀ w : Plant) : Prop where
  sent : w.sent = w₀.sent
  leases : w.leases = w₀.leases
  station : w.jobStation t = w₀.jobStation t ∨
    (w₀.jobStation t = none ∧ ∃ station, X.strArg step "station" = .ok station ∧
      w.jobStation t = some station)

theorem Unsent.edit {step : Step} (h : Unsent X step t w₀ w) {f : JobState → JobState}
    (hf : ∀ s, (f s).station = s.station) : Unsent X step t w₀ (w.edit t f) :=
  ⟨h.sent, h.leases, by rw [jobStation_edit hf]; exact h.station⟩

theorem Unsent.save {step : Step} (h : Unsent X step t w₀ w) : Unsent X step t w₀ (w.save t) :=
  ⟨h.sent, h.leases, by rw [jobStation_save]; exact h.station⟩

theorem Unsent.reload {step : Step} (h : Unsent X step t w₀ w) (hs : w.stateFor t = some s) :
    Unsent X step t w₀ (w.remember t s) := by
  refine ⟨h.sent, h.leases, ?_⟩
  have hstation : w.jobStation t = some s.station := by rw [Plant.jobStation, hs]; rfl
  rw [jobStation_remember, ← hstation]
  exact h.station

theorem Unsent.fresh {step : Step} (h : Unsent X step t w₀ w) (hnone : w.stateFor t = none)
    (harg : X.strArg step "station" = .ok station) (hs : s.station = station) :
    Unsent X step t w₀ (w.remember t s) := by
  refine ⟨h.sent, h.leases, ?_⟩
  have hfresh : w.jobStation t = none := by rw [Plant.jobStation, hnone]; rfl
  rw [jobStation_remember, hs]
  rcases h.station with hsame | ⟨-, station', -, hsome⟩
  · exact Or.inr ⟨hsame.symm.trans hfresh, station, harg, rfl⟩
  · rw [hfresh] at hsome
    cases hsome

theorem unsent_enters (w₀ : Plant) (step : Step) (context : ExecutionContext) :
    Enters X step context (Unsent X step context.ticketId w₀) where
  edit _ _ h hf := h.edit hf.station
  save _ h := h.save
  reload _ _ h hs := h.reload hs
  fresh _ _ h hnone harg := h.fresh hnone harg rfl

/-- Of a job in memory, the station is that of `w₀` or else that of the batch. -/
theorem Unsent.jobStation {step : Step} (h : Unsent X step t w₀ w) (hknown : (w.memory t).isSome)
    (harg : X.strArg step "station" = .ok station) :
    w.jobStation t = some ((w₀.jobStation t).getD station) := by
  rcases h.station with hsame | ⟨hnone, station', harg', hsome⟩
  · obtain ⟨station', hstation'⟩ := jobStation_of_memory hknown
    rw [← hsame, hstation']
    rfl
  · rw [harg, Except.ok.injEq] at harg'
    rw [hsome, hnone, harg']
    rfl

theorem sentSince_edits (w₀ : Plant) : Edits X t (SentSince w₀) :=
  ⟨fun _ _ h _ => h, fun _ h => h⟩

theorem unsent_sends (w₀ : Plant) (step : Step) (context : ExecutionContext) :
    Sends X step context (fun w => Unsent X step context.ticketId w₀ w ∧
      (w.memory context.ticketId).isSome) (SentSince w₀) where
  le _ h := .of_sent h.1.sent
  tickBefore _ h := ⟨⟨h.1.sent, h.1.leases, h.1.station⟩, h.2⟩
  numbered _ h := .of_sent h.1.sent
  send w batch h hticket _ harg := by
    refine SentSince.sending h.1.sent h.1.leases ?_
    rw [hticket]
    exact h.1.jobStation h.2 harg
  tick _ h := h
  edit _ _ h _ := h

/-- Steps and verdicts that send nothing. -/
theorem sent_judges (w₀ : Plant) : Judges X t (fun _ => True) fun w => w.sent = w₀.sent where
  edit _ _ h _ := h
  save _ h := h
  known _ _ _ _ := trivial
  voters w h := (catchUp_counts w).1.trans h
  held _ _ _ h _ := h
  passed _ _ _ h _ _ _ _ _ := h

theorem execute_sent (step : Step) (context : ExecutionContext) (w₀ : Plant) :
    Triple (Unsent X step context.ticketId w₀) (X.execute step context) (fun _ => SentSince w₀)
      (SentSince w₀) := by
  refine execute_known_spec (unsent_enters w₀ step context) (sentSince_edits w₀)
    (fun _ h => .of_sent h.sent) ?_
  have hquiet : ∀ {p : PlantM Observation}, Preserves (fun w => w.sent = w₀.sent) p →
      Triple (fun w => Unsent X step context.ticketId w₀ w ∧ (w.memory context.ticketId).isSome) p
        (fun _ => SentSince w₀) (SentSince w₀) := fun h =>
    h.conseq (fun _ h => h.1.sent) (fun _ _ h => .of_sent h) fun _ h => .of_sent h
  by_cases hlease : step.primitive = "lease_station"
  · simp only [FactoryExecutor.handle, hlease]
    exact hquiet (lease_spec (fun _ h => h) (fun _ _ _ _ h _ _ => h) (fun _ h => h) fun _ _ h _ => h)
  · by_cases hrelease : step.primitive = "release_station"
    · simp only [FactoryExecutor.handle, hrelease]
      exact hquiet (release_spec (fun _ _ h _ => h) fun _ _ h _ => h)
    · by_cases hverdict : step.primitive = "verdict"
      · simp only [FactoryExecutor.handle, hverdict]
        exact hquiet (sent_judges w₀).verdict
      · exact (unsent_sends w₀ step context).handle hlease hrelease hverdict

theorem begin_sent (restarted : Bool) :
    (w.begin restarted).sent = w.sent ∧ (w.begin restarted).leases = w.leases := by
  unfold Plant.begin
  split <;> exact ⟨rfl, rfl⟩

theorem request_sent (r : FactoryRequest × Nat) (w : Plant) :
    SentSince (w.begin r.1.restarted) (after (FactoryRequest.prog X) w r) := by
  have hspec : Triple (fun w' => w' = w) (r.1.prog X)
      (fun _ => SentSince (w.begin r.1.restarted)) (SentSince (w.begin r.1.restarted)) := by
    refine request_spec (P := fun w' => w' = w.begin r.1.restarted) ?_ ?_ fun _ h => h
    · rintro w' rfl
      rfl
    · cases hcall : r.1.call with
      | execute step context valid =>
        refine Triple.bind (Triple.conseq (execute_sent step context (w.begin r.1.restarted)) ?_
          (fun _ _ h => h) fun _ h => h) fun _ => Preserves.pure _
        rintro w' rfl
        exact ⟨rfl, rfl, Or.inl rfl⟩
      | decide d =>
        have hdecide : Preserves (fun w' => w'.sent = (w.begin r.1.restarted).sent) (X.decide d) :=
          decide_spec d (fun _ _ h _ => h) (fun _ h => h) (fun _ _ h => h) (fun _ h => h) fun _ h => h
        exact hdecide.conseq (fun _ h => h ▸ rfl) (fun _ _ h => .of_sent h) fun _ h => .of_sent h
      | control t verb by_ =>
        refine control_spec (fun _ h => .of_sent (h ▸ rfl)) (fun _ _ h _ => .of_sent (h ▸ rfl)) ?_
          fun _ h => h
        rintro w' s batch rfl hs hticket hstation -
        refine SentSince.sending rfl rfl ?_
        show ((w.begin r.1.restarted).remember t s).jobStation batch.ticketId = _
        rw [hticket, jobStation_remember, Plant.jobStation, hs]
        rfl
  exact hspec.world_sat rfl r.2

/-! ## Sessions -/

/-- The run lemma, from any plant. -/
theorem session_sent (rs : List (FactoryRequest × Nat)) (w : Plant) :
    ∃ new, (session (FactoryRequest.prog X) w rs).sent = w.sent ++ new ∧
      ((∀ e ∈ new, e.Covered) ↔ SentBacked X w rs) := by
  induction rs generalizing w with
  | nil => exact ⟨[], by simp, by simp [SentBacked]⟩
  | cons r rs ih =>
    obtain ⟨new, hsent, hnew⟩ := request_sent (X := X) r w
    rw [(begin_sent r.1.restarted).1] at hsent
    obtain ⟨rest, hsession, hrest⟩ := ih (after (FactoryRequest.prog X) w r)
    refine ⟨new ++ rest, by rw [session_cons, hsession, hsent, List.append_assoc], ?_⟩
    simp only [SentBacked, hsent, List.drop_left, List.forall_mem_append, ← hrest, ← hnew]

/-! ## A decision on a job that is not held -/

/-- A decision leaves the leases and the verdict of its ticket as they were. -/
def Decision.Undisturbing (d : Decision) (w w' : Plant) : Prop :=
  w'.leases = w.leases ∧
    (w'.stateFor d.ticketId).map (·.verdict) = (w.stateFor d.ticketId).map (·.verdict)

/-- A decision as a request is one that comes in while a step runs. -/
theorem decide_eq_arrive (hs : w.stateFor d.ticketId = some s) (n : Nat) :
    X.decide d w (n + 3) = .ok () (X.arrive w d) n := by
  unfold FactoryExecutor.decide FactoryExecutor.arrive
  rw [Prog.look_bind, hs]
  rfl

theorem stateFor_arrive (hs : w.stateFor d.ticketId = some s) :
    (X.arrive w d).stateFor d.ticketId = some (X.decided d s) := by
  unfold FactoryExecutor.arrive
  rw [hs]
  show ((w.remember d.ticketId (X.decided d s)).memory d.ticketId).or _ = _
  simp [Plant.remember]

/-- The table is left alone exactly when the ticket has no lease to release. -/
theorem release_eq_self_iff :
    (w.release station t).leases = w.leases ↔
      ∀ lease, w.leases station = some lease → lease.ticketId ≠ t := by
  show (LeaseTable.release w.leases station t).getD w.leases = w.leases ↔ _
  constructor
  · rintro hsame lease hlease hown
    have hreleased := congrFun hsame station
    simp [LeaseTable.release, hlease, hown] at hreleased
  · intro hother
    cases hrelease : LeaseTable.release w.leases station t with
    | none => rfl
    | some items =>
      obtain ⟨lease, hlease, hown, -⟩ := LeaseTable.release_some hrelease
      exact absurd hown (hother lease hlease)

theorem arrive_undisturbing_iff (hs : w.stateFor d.ticketId = some s) :
    d.Undisturbing w (X.arrive w d) ↔ s.verdict = some d.verdict ∧
      ∀ lease, w.leases s.station = some lease → lease.ticketId ≠ d.ticketId := by
  have hleases : (X.arrive w d).leases = (w.release s.station d.ticketId).leases := by
    unfold FactoryExecutor.arrive
    rw [hs]
    rfl
  rw [Decision.Undisturbing, hleases, release_eq_self_iff, stateFor_arrive hs, hs, and_comm]
  simp only [Option.map_some, Option.some.injEq, FactoryExecutor.decided, eq_comm]

/-- **Station work and leases**: in every sequence of requests, each batch is sent
    while the table holds an unexpired lease of its ticket on its station, if and
    only if each request sends under a lease that its ticket has as the request
    begins and that no decision takes away before; and a decision on a job that is
    not held leaves its lease and its verdict alone if and only if it repeats the
    verdict and there is no lease. -/
theorem sent_on_lease_iff (rs : List (FactoryRequest × Nat)) :
    ((∀ e ∈ (session (FactoryRequest.prog X) {} rs).sent, e.Covered) ↔ SentBacked X {} rs) ∧
      ∀ (w : Plant) (d : Decision) (s : JobState) (n : Nat), w.stateFor d.ticketId = some s →
        s.held = false → (d.Undisturbing w (X.decide d w (n + 3)).world ↔
          s.verdict = some d.verdict ∧
            ∀ lease, w.leases s.station = some lease → lease.ticketId ≠ d.ticketId) := by
  constructor
  · obtain ⟨new, hsent, hnew⟩ := session_sent (X := X) rs {}
    rw [hsent]
    exact hnew
  · intro w d s n hs _
    rw [decide_eq_arrive hs]
    exact arrive_undisturbing_iff hs

/-! ### A decision in the middle of a run -/

open FactoryLine

/-- The line lead decides on a job that has just begun: its lease is gone. -/
theorem early_decision_disturbs :
    ∃ d : Decision, ¬ d.Undisturbing
      (session (FactoryRequest.prog (executor fun n => n)) {} [leaseStation "T-1"])
      ((executor fun n => n).decide d
        (session (FactoryRequest.prog (executor fun n => n)) {} [leaseStation "T-1"]) 3).world := by
  have hstate : ((session (FactoryRequest.prog (executor fun n => n)) {}
      [leaseStation "T-1"]).stateFor "T-1").map (fun s => (s.held, s.verdict)) =
        some (false, none) := by
    decide +kernel
  obtain ⟨s, hs, hfields⟩ := Option.map_eq_some_iff.mp hstate
  obtain ⟨hheld, hverdict⟩ := Prod.mk.inj hfields
  let d : Decision := { ticketId := "T-1", verdict := .fail, by_ := "lin", note := "Rework."
                        decides := by decide }
  refine ⟨d, fun hsame => ?_⟩
  have hrepeated := ((sent_on_lease_iff (X := executor fun n => n) []).2 _ d s 0 hs hheld).mp hsame
  rw [hverdict] at hrepeated
  cases hrepeated.1

/-- The step that comes after that decision still works on the station. -/
theorem sent_after_decision :
    ¬ ∀ e ∈ (session (FactoryRequest.prog (executor fun n => n)) {}
      [leaseStation "T-1", decision "T-1", readResult]).sent, e.Covered := by
  intro hcovered
  have hsent : (session (FactoryRequest.prog (executor fun n => n)) {}
      [leaseStation "T-1", decision "T-1", readResult]).sent.map (·.holder) = [none] := by
    decide +kernel
  obtain ⟨e, hsent, hholder⟩ := List.map_eq_singleton_iff.mp hsent
  obtain ⟨lease, hlease, -⟩ := hcovered e (hsent ▸ List.mem_singleton_self e)
  rw [hholder] at hlease
  cases hlease

end Slas
