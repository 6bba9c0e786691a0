/-
  Slas.Lib.ReadModifyWrite

  Requests that load a shared store, compute, and write it back whole.

  A request is admitted, loads the store, and finishes: it saves what it makes
  of the *loaded* store, or saves nothing.  Between the two any other request
  may save, and its update is then lost.  A run is a list of events, one atomic
  step each, in any order the protocol admits.

  `Unchanged` says of a run that every request which saves finds the store as
  it loaded it.  In such runs a request works on the current store, so what one
  request keeps is kept by all of them: `run_invariant`.
-/

import Mathlib.Data.List.Basic

namespace ReadModifyWrite

variable {E D S R : Type}

/-- A protocol: how the surroundings move, which requests are admitted beside
    those in flight, and what a request makes of the store it loaded, together
    with what is known outside then. -/
structure Protocol (E D S R : Type) where
  move : E → D → Option E
  accept : E → List R → R → Bool
  serve : E → R → S → Option (E × S)

/-- A request in flight, with what it loaded. -/
structure Flight (S R : Type) where
  request : R
  loaded : Option S

structure State (E S R : Type) where
  env : E
  store : S
  flights : List (Flight S R) := []

inductive Event (D R : Type) where
  | move (d : D)
  | accept (r : R)
  | load (i : Nat)
  | finish (i : Nat)

variable (P : Protocol E D S R)

/-- The end of a request that loaded `l`. -/
def Protocol.finish (st : State E S R) (i : Nat) (r : R) (l : S) : State E S R :=
  match P.serve st.env r l with
  | none => { st with flights := st.flights.eraseIdx i }
  | some (env, store) => { env, store, flights := st.flights.eraseIdx i }

/-- One event; `none` when it cannot happen. -/
def Protocol.step (st : State E S R) : Event D R → Option (State E S R)
  | .move d => (P.move st.env d).map fun env => { st with env }
  | .accept r =>
    if P.accept st.env (st.flights.map (·.request)) r then
      some { st with flights := st.flights ++ [⟨r, none⟩] }
    else none
  | .load i =>
    match st.flights[i]? with
    | some ⟨r, none⟩ => some { st with flights := st.flights.set i ⟨r, some st.store⟩ }
    | _ => none
  | .finish i =>
    match st.flights[i]? with
    | some ⟨r, some l⟩ => some (P.finish st i r l)
    | _ => none

/-- A run: the events one after the other. -/
def Protocol.run (st : State E S R) : List (Event D R) → Option (State E S R)
  | [] => some st
  | ev :: evs => (P.step st ev).bind fun st' => run st' evs

/-- A request that saves at this event finds the store as it loaded it. -/
def Fresh (st : State E S R) (ev : Event D R) : Prop :=
  ∀ i r l, ev = .finish i → st.flights[i]? = some ⟨r, some l⟩ → (P.serve st.env r l).isSome →
    l = st.store

/-- Every save of the run does. -/
def Unchanged (st : State E S R) : List (Event D R) → Prop
  | [] => True
  | ev :: evs => Fresh P st ev ∧ ∀ st', P.step st ev = some st' → Unchanged st' evs

/-! ## Invariants -/

/-- What has to be shown of an invariant `I` of surroundings and store, with a
    fact `Q` about each request in flight: the surroundings keep both, and a
    request served on the current store keeps both. -/
structure Keeps (I : E → S → Prop) (Q : E → R → Prop) : Prop where
  move : ∀ e d e' s, P.move e d = some e' → I e s → I e' s
  move_request : ∀ e d e' r, P.move e d = some e' → Q e r → Q e' r
  accept : ∀ e rs r, P.accept e rs r = true → Q e r
  serve : ∀ e r s e' s', P.serve e r s = some (e', s') → Q e r → I e s → I e' s'
  serve_request : ∀ e r s e' s' r', P.serve e r s = some (e', s') → Q e r' → Q e' r'

variable {P} {I : E → S → Prop} {Q : E → R → Prop}

theorem step_invariant (h : Keeps P I Q) {st st' : State E S R} {ev : Event D R}
    (hfresh : Fresh P st ev) (hstep : P.step st ev = some st')
    (hI : I st.env st.store) (hQ : ∀ f ∈ st.flights, Q st.env f.request) :
    I st'.env st'.store ∧ ∀ f ∈ st'.flights, Q st'.env f.request := by
  cases ev with
  | move d =>
    obtain ⟨e', he, rfl⟩ := Option.map_eq_some_iff.mp hstep
    exact ⟨h.move _ d _ _ he hI, fun f hf => h.move_request _ d _ _ he (hQ f hf)⟩
  | accept r =>
    simp only [Protocol.step] at hstep
    split at hstep
    · rename_i haccept
      obtain rfl := Option.some.inj hstep
      refine ⟨hI, fun f hf => ?_⟩
      rcases List.mem_append.mp hf with hf | hf
      · exact hQ f hf
      · obtain rfl := List.mem_singleton.mp hf
        exact h.accept _ _ r haccept
    · cases hstep
  | load i =>
    simp only [Protocol.step] at hstep
    split at hstep
    · rename_i r hr
      obtain rfl := Option.some.inj hstep
      refine ⟨hI, fun f hf => ?_⟩
      rcases List.mem_or_eq_of_mem_set hf with hf | rfl
      · exact hQ f hf
      · exact hQ ⟨r, none⟩ (List.mem_of_getElem? hr)
    · cases hstep
  | finish i =>
    simp only [Protocol.step] at hstep
    split at hstep
    · rename_i r l hr
      obtain rfl := Option.some.inj hstep
      have hrest : ∀ f ∈ st.flights.eraseIdx i, Q st.env f.request :=
        fun f hf => hQ f (List.mem_of_mem_eraseIdx hf)
      unfold Protocol.finish
      split
      · exact ⟨hI, hrest⟩
      · rename_i e' s' hserve
        -- what was loaded is what is there
        obtain rfl : l = st.store := hfresh i r l rfl hr (by simp [hserve])
        refine ⟨h.serve _ r _ _ _ hserve (hQ _ (List.mem_of_getElem? hr)) hI, fun f hf => ?_⟩
        exact h.serve_request _ r _ _ _ _ hserve (hrest f hf)
    · cases hstep

/-- The run rule. -/
theorem run_invariant (h : Keeps P I Q) {st st' : State E S R} {evs : List (Event D R)}
    (hfresh : Unchanged P st evs) (hrun : P.run st evs = some st')
    (hI : I st.env st.store) (hQ : ∀ f ∈ st.flights, Q st.env f.request) :
    I st'.env st'.store := by
  induction evs generalizing st with
  | nil =>
    obtain rfl := Option.some.inj hrun
    exact hI
  | cons ev evs ih =>
    obtain ⟨st₁, hstep, hrest⟩ := Option.bind_eq_some_iff.mp hrun
    obtain ⟨hI₁, hQ₁⟩ := step_invariant h hfresh.1 hstep hI hQ
    exact ih (hfresh.2 st₁ hstep) hrest hI₁ hQ₁

/-! ## Requests served alone -/

/-- A request served from admission to end with no other in flight finds the
    store as it loaded it. -/
theorem unchanged_alone {st : State E S R} {r : R} {evs : List (Event D R)}
    (halone : st.flights = []) (h : ∀ st', st'.flights = [] → Unchanged P st' evs) :
    Unchanged P st (.accept r :: .load 0 :: .finish 0 :: evs) := by
  refine ⟨fun _ _ _ hev => (nomatch hev), fun st₁ h₁ => ⟨fun _ _ _ hev => (nomatch hev),
    fun st₂ h₂ => ?_⟩⟩
  have hst₁ : st₁ = { st with flights := [⟨r, none⟩] } := by
    simp only [Protocol.step, halone, List.nil_append] at h₁
    split at h₁
    · exact (Option.some.inj h₁).symm
    · cases h₁
  have hst₂ : st₂ = { st with flights := [⟨r, some st.store⟩] } := by
    rw [hst₁] at h₂
    exact (Option.some.inj h₂).symm
  subst hst₂
  refine ⟨fun i r' l hev hflight _ => ?_, fun st₃ h₃ => h st₃ ?_⟩
  · cases hev
    simp only [List.getElem?_cons_zero, Option.some.injEq, Flight.mk.injEq] at hflight
    exact hflight.2.symm
  · obtain rfl := Option.some.inj h₃
    unfold Protocol.finish
    split <;> rfl

end ReadModifyWrite
