/-
  Slas.Validation.Leased

  Hardware calls and leases.  A run takes its lease once, in its first step; the
  steps after it neither look at the lease table nor at the clock.  A hardware
  call is made under a lease of its ticket exactly when the ticket has one as
  the request begins and that one has not expired by the call: nobody else can
  take it before, and nobody gets one for the ticket in between.
-/

import Slas.Validation.BootGate

namespace Slas

open Crash

/-- The table names the ticket as the holder of the target it touches. -/
def Touch.Covered (touch : Touch) : Prop :=
  ∃ lease, touch.holder = some lease ∧ lease.ticketId = touch.ticketId

section World

variable {Snap : Type} {X : ValidationExecutor Snap}

/-- The ticket has a lease of the target in `w` that is still good at the call. -/
def LeasedAt (w : Bench Snap) (touch : Touch) : Prop :=
  ∃ lease, w.leases touch.target = some lease ∧ lease.ticketId = touch.ticketId ∧
    touch.at_ < lease.until_

/-- Each request makes its hardware calls under a lease that its ticket has as
    the request begins. -/
def Backed : Bench Snap → List (Request Snap × Nat) → Prop
  | _, [] => True
  | w, r :: rs =>
    (∀ touch ∈ (after Request.prog w r).touches.drop w.touches.length, LeasedAt w touch) ∧
      Backed (after Request.prog w r) rs

/-! ## What the requests of others do to a lease -/

variable {busy target : String} {now : DateTime} {maxHours : Nat} {items : LeaseTable.Items}
  {lease : Lease}

/-- Nobody gets a lease for the ticket whose step runs. -/
theorem Arrival.serve_back (arrival : Arrival)
    (h : arrival.serve busy now maxHours items target = some lease) (hid : lease.ticketId = busy) :
    items target = some lease := by
  cases arrival with
  | lease target' ticketId user =>
    simp only [Arrival.serve] at h
    split at h
    · exact h
    · rename_i hother
      rcases hacquire : LeaseTable.acquire "target" items target' ticketId user now maxHours
        with e | ⟨granted, items'⟩
      · rwa [hacquire] at h
      · rw [hacquire] at h
        obtain ⟨-, -, hgranted, rfl⟩ := LeaseTable.acquire_ok hacquire
        simp only at h
        by_cases ht : target = target'
        · subst ht
          rw [Function.update_self, Option.some.injEq] at h
          exact absurd (hgranted.symm.trans (h ▸ hid)) hother
        · rwa [Function.update_of_ne ht] at h
  | release target' ticketId =>
    simp only [Arrival.serve] at h
    split at h
    · exact h
    · exact LeaseTable.release_back h

/-- Nobody takes a lease of it that has not expired. -/
theorem Arrival.serve_keep (arrival : Arrival) (h : items target = some lease)
    (hid : lease.ticketId = busy) (hlive : now < lease.until_) :
    arrival.serve busy now maxHours items target = some lease := by
  cases arrival with
  | lease target' ticketId user =>
    simp only [Arrival.serve]
    split
    · exact h
    · rename_i hother
      rcases hacquire : LeaseTable.acquire "target" items target' ticketId user now maxHours
        with e | ⟨granted, items'⟩
      · exact h
      · obtain ⟨hfree, -, -, rfl⟩ := LeaseTable.acquire_ok hacquire
        simp only
        rw [Function.update_of_ne, h]
        rintro rfl
        exact hother ((LeaseTable.blocking_eq_none hfree h hlive).symm.trans hid)
  | release target' ticketId =>
    simp only [Arrival.serve]
    split
    · exact h
    · rename_i hother
      exact LeaseTable.release_keep h fun _ hown => hother (hown.symm.trans hid)

theorem serveAll_back (arrivals : List Arrival)
    (h : arrivals.foldl (fun items a => a.serve busy now maxHours items) items target = some lease)
    (hid : lease.ticketId = busy) : items target = some lease := by
  induction arrivals generalizing items with
  | nil => exact h
  | cons a arrivals ih => exact a.serve_back (ih h) hid

theorem serveAll_keep (arrivals : List Arrival) (h : items target = some lease)
    (hid : lease.ticketId = busy) (hlive : now < lease.until_) :
    arrivals.foldl (fun items a => a.serve busy now maxHours items) items target = some lease := by
  induction arrivals generalizing items with
  | nil => exact h
  | cons a arrivals ih => exact ih (a.serve_keep h hid hlive)

/-! ## One request -/

/-- What a step of the ticket on the target has done since `w₀`: its calls, and
    what became of the lease. -/
structure Working (w₀ : Bench Snap) (ticketId target : String) (new : List Touch)
    (leases : LeaseTable.Items) : Prop where
  own : ∀ touch ∈ new, touch.ticketId = ticketId ∧ touch.target = target
  back : ∀ lease, leases target = some lease → lease.ticketId = ticketId →
    w₀.leases target = some lease
  covered_back : ∀ touch ∈ new, touch.Covered → LeasedAt w₀ touch
  keep : ∀ lease, w₀.leases target = some lease → lease.ticketId = ticketId →
    (∀ touch ∈ new, touch.at_ < lease.until_) →
      leases target = some lease ∧ ∀ touch ∈ new, touch.Covered

/-- The world of a step at work. -/
def AtWork (w₀ : Bench Snap) (ticketId target : String) (w : Bench Snap) : Prop :=
  ∃ new, w.touches = w₀.touches ++ new ∧ Working w₀ ticketId target new w.leases

theorem AtWork.start (w₀ : Bench Snap) (ticketId target : String) :
    AtWork w₀ ticketId target w₀ :=
  ⟨[], by simp, { own := by simp, back := fun _ h _ => h, covered_back := by simp
                  keep := fun _ h _ _ => ⟨h, by simp⟩ }⟩

/-- A hardware call: the requests of others that came in before it, and the call
    on record. -/
theorem called_spec (w : Bench Snap) (ticketId target : String) :
    ∃ touch, (X.called ticketId target w).touches = w.touches ++ [touch] ∧
      touch.ticketId = ticketId ∧ touch.target = target ∧
      touch.holder = LeaseTable.holder (X.called ticketId target w).leases target touch.at_ ∧
      (X.called ticketId target w).leases = (X.meanwhile w.ticks).foldl
        (fun items a => a.serve ticketId touch.at_ X.guardrails.maxRunHours items) w.leases :=
  ⟨_, rfl, rfl, rfl, rfl, rfl⟩

theorem AtWork.called {w₀ w : Bench Snap} {ticketId target : String}
    (h : AtWork w₀ ticketId target w) : AtWork w₀ ticketId target (X.called ticketId target w) := by
  obtain ⟨new, htouches, hwork⟩ := h
  obtain ⟨touch, hnew, hid, htarget, hholder, hleases⟩ := called_spec (X := X) w ticketId target
  have hlast : ∀ touch' ∈ new ++ [touch], touch' ∈ new ∨ touch' = touch := by
    simp
  have hback : ∀ lease, (X.called ticketId target w).leases target = some lease →
      lease.ticketId = ticketId → w₀.leases target = some lease := fun lease hl hown =>
    hwork.back lease (serveAll_back _ (hleases ▸ hl) hown) hown
  refine ⟨new ++ [touch], by rw [hnew, htouches, List.append_assoc], ?_⟩
  refine { own := ?_, back := hback, covered_back := ?_, keep := ?_ }
  · intro touch' htouch'
    rcases hlast touch' htouch' with h | rfl
    · exact hwork.own touch' h
    · exact ⟨hid, htarget⟩
  · intro touch' htouch' hcovered
    rcases hlast touch' htouch' with h | rfl
    · exact hwork.covered_back touch' h hcovered
    · obtain ⟨lease, hheld, hown⟩ := hcovered
      obtain ⟨hitem, hlive⟩ := LeaseTable.holder_eq_some (hholder ▸ hheld)
      exact ⟨lease, htarget ▸ hback lease hitem (hown.trans hid), hown, hlive⟩
  · intro lease hlease hown hlive
    have hbefore := hwork.keep lease hlease hown fun touch' h =>
      hlive touch' (List.mem_append_left _ h)
    have hnow : touch.at_ < lease.until_ := hlive touch (by simp)
    have hafter : (X.called ticketId target w).leases target = some lease := by
      rw [hleases]
      exact serveAll_keep _ hbefore.1 hown hnow
    refine ⟨hafter, fun touch' htouch' => ?_⟩
    rcases hlast touch' htouch' with h | rfl
    · exact hbefore.2 touch' h
    · exact ⟨lease, hholder.trans (LeaseTable.holder_of_live hafter hnow), hown.trans hid.symm⟩

theorem atWork_survives (w₀ : Bench Snap) {c : CycleCall} {ticketId target : String}
    (ht : c.ticketId = ticketId) (hm : c.target = target) :
    SurvivesCycle X c (AtWork w₀ ticketId target) := by
  subst ht hm
  exact { called := fun _ h => h.called, tick := fun _ h => h, touch := fun _ _ h => h
          baselines := fun _ _ h => h, editJournal := fun _ _ h => h, log := fun _ _ h => h
          note := fun _ _ h => h, states := fun _ _ h => h, runs := fun _ _ h => h }

/-- What a request adds to the record of calls, since `w₀`. -/
def Requested (w₀ w : Bench Snap) : Prop :=
  ∃ new, w.touches = w₀.touches ++ new ∧
    ((∀ touch ∈ new, touch.Covered) ↔ ∀ touch ∈ new, LeasedAt w₀ touch)

theorem AtWork.requested {w₀ w : Bench Snap} {ticketId target : String}
    (h : AtWork w₀ ticketId target w) : Requested w₀ w := by
  obtain ⟨new, htouches, hwork⟩ := h
  refine ⟨new, htouches, fun hall touch htouch => hwork.covered_back touch htouch
    (hall touch htouch), fun hall touch htouch => ?_⟩
  -- all calls rest on the one lease the table had
  have hlease : ∀ touch ∈ new, ∃ lease, w₀.leases target = some lease ∧
      lease.ticketId = ticketId ∧ touch.at_ < lease.until_ := by
    intro touch htouch
    obtain ⟨hid, htarget⟩ := hwork.own touch htouch
    have hat := hall touch htouch
    rwa [LeasedAt, hid, htarget] at hat
  obtain ⟨lease, hitem, hid, -⟩ := hlease touch htouch
  refine (hwork.keep lease hitem hid fun touch' htouch' => ?_).2 touch htouch
  obtain ⟨lease', hitem', -, hlive⟩ := hlease touch' htouch'
  rw [hitem, Option.some.injEq] at hitem'
  exact hitem' ▸ hlive

/-- A request that makes no hardware call. -/
theorem Requested.of_touches {w₀ w : Bench Snap} (h : w.touches = w₀.touches) : Requested w₀ w :=
  ⟨[], by simp [h], by simp⟩

open Preserves in
/-- A step makes its calls under a lease exactly when its ticket had one. -/
theorem execute_requested (step : Step) (context : ExecutionContext) (w₀ : Bench Snap) :
    Triple (fun w => w = w₀) (X.execute step context) (fun _ => Requested w₀) (Requested w₀) := by
  have hquiet : ∀ {α : Type} {p : BenchM Snap α},
      Preserves (fun w => w.touches = w₀.touches) p →
        Triple (fun w => w = w₀) p (fun _ => Requested w₀) (Requested w₀) := fun h =>
    h.conseq (fun _ hw => hw ▸ rfl) (fun _ _ hw => .of_touches hw) fun _ hw => .of_touches hw
  have hwork : ∀ {α : Type} {p : BenchM Snap α} (target : String),
      Preserves (AtWork w₀ context.ticketId target) p →
        Triple (fun w => w = w₀) p (fun _ => Requested w₀) (Requested w₀) := fun target h =>
    h.conseq (fun _ hw => hw ▸ .start w₀ _ target) (fun _ _ hw => hw.requested)
      fun _ hw => hw.requested
  unfold ValidationExecutor.execute
  split
  · exact hquiet (raise _)
  · split
    · exact hquiet (raise _)
    · rename_i spec _ _ target _
      by_cases hlease : step.primitive = "lease_target"
      · simp only [ValidationExecutor.handle, hlease]
        refine hquiet (bind (quiet fun _ h => h) fun now => bind (effect fun w h => ?_) fun _ => ?_)
        · split <;> exact h
        · split <;> exact pure _
      · by_cases hrelease : step.primitive = "release_target"
        · simp only [ValidationExecutor.handle, hrelease]
          exact hquiet (release_preserves (fun _ _ h => h) context _)
        · by_cases hcycle : step.primitive = "power_cycle"
          · simp only [ValidationExecutor.handle, hcycle]
            exact hwork _ (SurvivesCycle.powerCycle fun c ht hm => atWork_survives w₀ ht hm)
          · have hsurvives := atWork_survives (X := X) w₀
              (c := ⟨context.ticketId, X.str target, 0, "", 0⟩) rfl rfl
            exact hwork _ (hsurvives.toSurvives.handle spec hlease hrelease hcycle)

theorem request_requested (r : Request Snap × Nat) (w : Bench Snap) :
    Requested w (after Request.prog w r) := by
  have hbegin : ∀ w' : Bench Snap, Requested (w.begin r.1.restarted) w' → Requested w w' := by
    unfold Bench.begin
    split <;> exact fun _ h => h
  have hspec : Triple (fun w' => w' = w) r.1.prog (fun _ => Requested w) (Requested w) := by
    refine Triple.bind (M := fun _ w' => w' = w.begin r.1.restarted)
      (Triple.quiet fun w' hw => by rw [hw]) fun _ => ?_
    refine Triple.bind (M := fun _ => Requested w) ?_ fun _ => Triple.quiet fun _ h => h
    refine Triple.attempt ?_
    exact (execute_requested _ _ _).conseq (fun _ h => h) (fun _ => hbegin) hbegin
  exact hspec.world_sat rfl r.2

/-! ## Sessions -/

/-- The run lemma, from any world. -/
theorem session_requested (rs : List (Request Snap × Nat)) (w : Bench Snap) :
    ∃ new, (session Request.prog w rs).touches = w.touches ++ new ∧
      ((∀ touch ∈ new, touch.Covered) ↔ Backed w rs) := by
  induction rs generalizing w with
  | nil => exact ⟨[], by simp, by simp [Backed]⟩
  | cons r rs ih =>
    obtain ⟨new, htouches, hnew⟩ := request_requested r w
    obtain ⟨rest, hsession, hrest⟩ := ih (after Request.prog w r)
    refine ⟨new ++ rest, by rw [session_cons, hsession, htouches, List.append_assoc], ?_⟩
    simp only [Backed, htouches, List.drop_left, List.forall_mem_append, ← hrest, ← hnew]

/-- **Calls and leases**: in every sequence of requests, each hardware call is made
    while the table holds an unexpired lease of its ticket on its target, if and
    only if each request makes its calls under a lease that its ticket has as the
    request begins. -/
theorem touches_leased_iff (rs : List (Request Snap × Nat)) :
    (∀ touch ∈ (session Request.prog {} rs).touches, touch.Covered) ↔ Backed {} rs := by
  obtain ⟨new, htouches, hnew⟩ := session_requested rs {}
  rw [htouches]
  exact hnew

end World

/-! ### A run that takes longer than its lease -/

def lateExecutor : ValidationExecutor Unit :=
  { steadyExecutor with clock := fun n => hours 73 + n }

def otherContext : ExecutionContext := { benchContext with ticketId := "T-2", user := "bo" }

/-- One ticket leases the machine and takes its baseline; after 73 hours another
    one leases it, and then the first one's cycle comes. -/
def lateRuns : List (Request Unit × Nat) :=
  [({ executor := steadyExecutor, step := benchStep "lease_target" []
      context := benchContext }, 100),
   ({ executor := steadyExecutor, step := benchStep "baseline_snapshot" []
      context := benchContext }, 100),
   ({ executor := lateExecutor, step := benchStep "lease_target" []
      context := otherContext }, 100),
   ({ executor := lateExecutor, step := coldCycle, context := benchContext }, 100)]

/-- The first ticket powers the machine off and on under the lease of the second. -/
theorem late_cycle_uncovered :
    let w := session Request.prog {} lateRuns
    .power 1 .off ∈ w.history "T-1" ∧ ¬ ∀ touch ∈ w.touches, touch.Covered := by
  have hlate : .power 1 .off ∈ (session Request.prog {} lateRuns).history "T-1" ∧
      ("T-1", some "T-2") ∈ (session Request.prog {} lateRuns).touches.map
        fun touch => (touch.ticketId, touch.holder.map (·.ticketId)) := by
    decide +kernel
  refine ⟨hlate.1, fun hall => ?_⟩
  obtain ⟨touch, htouch, heq⟩ := List.mem_map.mp hlate.2
  obtain ⟨hid, hholder⟩ := Prod.mk.inj heq
  obtain ⟨lease, hlease, hown⟩ := hall touch htouch
  rw [hlease, Option.map_some, Option.some.injEq, hown, hid] at hholder
  exact absurd hholder (by decide)

end Slas
