/-
  Slas.Lib.Sections

  Processes that share a store and take turns, one atomic step at a time.

  A process may be inside a section of a key: it has read what the store keeps
  under the key, and is going to write it.  A run in which no process works on a
  key while another one is inside a section of it treats each key as if it were
  locked, although nothing locks it.  In such runs it is enough to say what the
  store keeps under a key that is free, what a process inside a section knows,
  and that each step of one process leads from the one to the other:
  `run_invariant`.
-/

import Mathlib.Data.List.Basic

namespace Sections

variable {σ P K D : Type}

/-- How the surroundings move the store, which processes may start, what the next
    step of a process does and what is left of it, the key that step works on, and
    the key whose section the process is inside of. -/
structure System (σ P K D : Type) where
  move : σ → D → Option σ
  starts : P → Bool
  next : σ → P → σ × Option P
  touches : P → Option K
  inside : P → Option K

/-- The store and the processes; one that has ended leaves its place empty. -/
structure State (σ P : Type) where
  store : σ
  procs : List (Option P) := []

inductive Event (D P : Type) where
  | move (d : D)
  | start (p : P)
  | turn (i : Nat)

/-- The process at a place. -/
def State.at_ (st : State σ P) (i : Nat) : Option P := (st.procs[i]?).join

variable (S : System σ P K D)

/-- One event; `none` when it cannot happen. -/
def System.step (st : State σ P) : Event D P → Option (State σ P)
  | .move d => (S.move st.store d).map fun store => { st with store }
  | .start p => if S.starts p then some { st with procs := st.procs ++ [some p] } else none
  | .turn i => (st.at_ i).map fun p =>
      ⟨(S.next st.store p).1, st.procs.set i (S.next st.store p).2⟩

/-- A run: the events one after the other. -/
def System.run (st : State σ P) : List (Event D P) → Option (State σ P)
  | [] => some st
  | ev :: evs => (S.step st ev).bind fun st' => run st' evs

/-- No process works on a key while another one is inside a section of it. -/
def Alone (st : State σ P) : Event D P → Prop
  | .turn i => ∀ k, (st.at_ i).bind S.touches = some k →
      ∀ j < st.procs.length, j ≠ i → (st.at_ j).bind S.inside ≠ some k
  | _ => True

/-- A condition on the store and each process in it. -/
def Everywhere (φ : σ → P → Prop) (st : State σ P) : Prop :=
  ∀ j < st.procs.length, ∀ p ∈ st.at_ j, φ st.store p

/-- A condition met at every step of a run. -/
def Along (C : State σ P → Event D P → Prop) (st : State σ P) : List (Event D P) → Prop
  | [] => True
  | ev :: evs => C st ev ∧ ∀ st' ∈ S.step st ev, Along C st' evs

/-! ## Checking a condition on a run -/

section Decidable

variable [DecidableEq K]

instance (st : State σ P) (ev : Event D P) : Decidable (Alone S st ev) :=
  match ev with
  | .move _ => .isTrue trivial
  | .start _ => .isTrue trivial
  | .turn i =>
    match h : (st.at_ i).bind S.touches with
    | none => .isTrue fun _ hk => nomatch h.symm.trans hk
    | some k =>
      decidable_of_iff (∀ j < st.procs.length, j ≠ i → (st.at_ j).bind S.inside ≠ some k)
        ⟨fun hall k' hk => (Option.some.inj (h.symm.trans hk) : k = k') ▸ hall,
          fun hall => hall k h⟩

instance (φ : σ → P → Prop) [∀ s p, Decidable (φ s p)] (st : State σ P) :
    Decidable (Everywhere φ st) :=
  inferInstanceAs (Decidable (∀ j < st.procs.length, ∀ p ∈ st.at_ j, φ st.store p))

instance decidableAlong (C : State σ P → Event D P → Prop) [∀ st ev, Decidable (C st ev)]
    (st : State σ P) (evs : List (Event D P)) : Decidable (Along S C st evs) :=
  match evs with
  | [] => .isTrue trivial
  | ev :: evs =>
    match h : S.step st ev with
    | none => decidable_of_iff (C st ev) ⟨fun hC => ⟨hC, fun _ hst => nomatch h.symm.trans hst⟩,
        And.left⟩
    | some st' =>
      have := decidableAlong C st' evs
      decidable_of_iff (C st ev ∧ Along S C st' evs)
        ⟨fun hall => ⟨hall.1, fun _ hst => Option.some.inj (h.symm.trans hst) ▸ hall.2⟩,
          fun hall => ⟨hall.1, hall.2 st' h⟩⟩

end Decidable

/-! ## Invariants -/

/-- What is known of a key when what is left of a process is the only one that may
    be inside a section of it: what the process knows, or that the key is free. -/
def Settled (Free : K → σ → Prop) (Held : K → σ → P → Prop) (k : K) (s : σ) (rest : Option P) :
    Prop :=
  (∀ p ∈ rest, S.inside p = some k → Held k s p) ∧
    ((∀ p ∈ rest, S.inside p ≠ some k) → Free k s)

/-- What has to be shown of a fact about the store, of one about each free key and
    of one about each process inside a section: the surroundings keep them, a step
    on a key leads from one to the other, and leaves the other keys alone. -/
structure Keeps (φ : σ → P → Prop) (Log : σ → Prop) (Free : K → σ → Prop)
    (Held : K → σ → P → Prop) : Prop where
  move_log : ∀ s d s', S.move s d = some s' → Log s → Log s'
  move_free : ∀ s d s' k, S.move s d = some s' → Free k s → Free k s'
  move_held : ∀ s d s' k p, S.move s d = some s' → Held k s p → Held k s' p
  start : ∀ p, S.starts p = true → S.inside p = none
  works : ∀ p k, S.inside p = some k → S.touches p = some k
  enters : ∀ s p, ∀ p' ∈ (S.next s p).2, ∀ k, S.inside p' = some k → S.touches p = some k
  idle : ∀ s p, S.touches p = none → Log s → Log (S.next s p).1
  turn : ∀ s p k, S.touches p = some k → φ s p → Log s → Settled S Free Held k s (some p) →
    Log (S.next s p).1 ∧ Settled S Free Held k (S.next s p).1 (S.next s p).2
  frame_free : ∀ s p k, S.touches p ≠ some k → Free k s → Free k (S.next s p).1
  frame_held : ∀ s p k q, S.touches p ≠ some k → Held k s q → Held k (S.next s p).1 q

/-- What holds in every state of a run: each key is free, or known to the one process
    that is inside a section of it. -/
structure Invariant (Log : σ → Prop) (Free : K → σ → Prop) (Held : K → σ → P → Prop)
    (st : State σ P) : Prop where
  log : Log st.store
  free : ∀ k, (∀ i, ∀ p ∈ st.at_ i, S.inside p ≠ some k) → Free k st.store
  held : ∀ i, ∀ p ∈ st.at_ i, ∀ k, S.inside p = some k → Held k st.store p
  apart : ∀ i j k, ∀ p ∈ st.at_ i, ∀ q ∈ st.at_ j, i ≠ j → S.inside p = some k →
    S.inside q ≠ some k

theorem at_lt {st : State σ P} {i : Nat} {p : P} (h : p ∈ st.at_ i) : i < st.procs.length := by
  by_contra hge
  simp [State.at_, List.getElem?_eq_none (Nat.le_of_not_lt hge)] at h

/-- Who is where after a step at place `i`. -/
theorem at_set {procs : List (Option P)} {i : Nat} (hi : i < procs.length) (s s' : σ)
    (rest : Option P) (j : Nat) :
    (State.mk s' (procs.set i rest)).at_ j =
      if i = j then rest else (State.mk s procs).at_ j := by
  unfold State.at_
  by_cases hij : i = j
  · subst hij
    simp [hi]
  · simp [hij]

/-- Who is where after a start. -/
theorem at_append {procs : List (Option P)} {s : σ} {p q : P} {j : Nat}
    (h : q ∈ (State.mk s (procs ++ [some p])).at_ j) :
    q ∈ (State.mk s procs).at_ j ∨ (j = procs.length ∧ q = p) := by
  unfold State.at_ at h ⊢
  simp only [List.getElem?_append, List.getElem?_singleton] at h
  split at h
  · exact Or.inl h
  · split at h
    · refine Or.inr ⟨by omega, ?_⟩
      simpa using h.symm
    · simp at h

variable {S} {φ : σ → P → Prop} {Log : σ → Prop} {Free : K → σ → Prop} {Held : K → σ → P → Prop}

/-- A step of the process at place `i`. -/
theorem turn_invariant (h : Keeps S φ Log Free Held) {st : State σ P} {i : Nat} {p : P}
    (hp : p ∈ st.at_ i) (halone : Alone (D := D) S st (.turn i)) (hφ : φ st.store p)
    (hinv : Invariant S Log Free Held st) :
    Invariant S Log Free Held ⟨(S.next st.store p).1, st.procs.set i (S.next st.store p).2⟩ := by
  have hwho := at_set (at_lt hp) st.store (S.next st.store p).1 (S.next st.store p).2
  -- nobody else is inside a section of the key the step works on
  have hothers : ∀ k, S.touches p = some k → ∀ j, j ≠ i → ∀ q ∈ st.at_ j,
      S.inside q ≠ some k := by
    intro k hk j hj q hq hin
    refine halone k (by rw [Option.mem_def.mp hp]; exact hk) j (at_lt hq) hj ?_
    rw [Option.mem_def.mp hq]
    exact hin
  -- so what is known of that key is known to this process
  have hsettled : ∀ k, S.touches p = some k → Settled S Free Held k st.store (some p) := by
    intro k hk
    refine ⟨fun q hq hin => ?_, fun hout => hinv.free k fun j q hq hin => ?_⟩
    · obtain rfl := Option.some.inj hq
      exact hinv.held i p hp k hin
    · by_cases hj : j = i
      · subst hj
        obtain rfl := Option.some.inj (hp.symm.trans hq)
        exact hout p rfl hin
      · exact hothers k hk j hj q hq hin
  refine ⟨?_, fun k hout => ?_, fun j q hq k hin => ?_, fun a b k x hx y hy hab hin => ?_⟩
  · cases hk : S.touches p with
    | none => exact h.idle _ p hk hinv.log
    | some k => exact (h.turn _ p k hk hφ hinv.log (hsettled k hk)).1
  · by_cases hk : S.touches p = some k
    · refine (h.turn _ p k hk hφ hinv.log (hsettled k hk)).2.2 fun q hq => hout i q ?_
      rw [hwho, if_pos rfl]
      exact hq
    · refine h.frame_free _ p k hk (hinv.free k fun j q hq hin => ?_)
      by_cases hj : i = j
      · subst hj
        obtain rfl := Option.some.inj (hp.symm.trans hq)
        exact hk (h.works p k hin)
      · refine hout j q ?_ hin
        rw [hwho, if_neg hj]
        exact hq
  · rw [hwho] at hq
    by_cases hj : i = j
    · rw [if_pos hj] at hq
      have hk := h.enters _ p q hq k hin
      exact (h.turn _ p k hk hφ hinv.log (hsettled k hk)).2.1 q hq hin
    · rw [if_neg hj] at hq
      refine h.frame_held _ p k q (fun hk => hothers k hk j (Ne.symm hj) q hq hin) ?_
      exact hinv.held j q hq k hin
  · rw [hwho] at hx hy
    by_cases ha : i = a
    · rw [if_pos ha] at hx
      rw [if_neg (fun hb => hab (ha ▸ hb))] at hy
      exact hothers k (h.enters _ p x hx k hin) b (fun hb => hab (ha ▸ hb.symm)) y hy
    · rw [if_neg ha] at hx
      by_cases hb : i = b
      · rw [if_pos hb] at hy
        intro hin'
        exact hothers k (h.enters _ p y hy k hin') a (Ne.symm ha) x hx hin
      · rw [if_neg hb] at hy
        exact hinv.apart a b k x hx y hy hab hin

/-- One event of a run, whatever it is. -/
theorem step_invariant (h : Keeps S φ Log Free Held) {st st' : State σ P} {ev : Event D P}
    (hstep : S.step st ev = some st') (halone : Alone S st ev) (hφ : Everywhere φ st)
    (hinv : Invariant S Log Free Held st) : Invariant S Log Free Held st' := by
  cases ev with
  | move d =>
    obtain ⟨s', hmove, rfl⟩ := Option.map_eq_some_iff.mp hstep
    exact ⟨h.move_log _ d s' hmove hinv.log, fun k hout => h.move_free _ d s' k hmove
        (hinv.free k hout), fun i p hp k hin => h.move_held _ d s' k p hmove
        (hinv.held i p hp k hin), hinv.apart⟩
  | start p =>
    simp only [System.step] at hstep
    split at hstep
    · rename_i hstarts
      obtain rfl := Option.some.inj hstep
      have hout := h.start p hstarts
      have hold : ∀ j, ∀ q ∈ st.at_ j,
          q ∈ (State.mk st.store (st.procs ++ [some p])).at_ j := by
        intro j q hq
        have hj := at_lt hq
        simpa [State.at_, List.getElem?_append_left hj] using hq
      refine ⟨hinv.log, fun k hk => hinv.free k fun j q hq => hk j q (hold j q hq),
        fun j q hq k hin => ?_, fun a b k x hx y hy hab hin => ?_⟩
      · rcases at_append hq with hq | ⟨-, rfl⟩
        · exact hinv.held j q hq k hin
        · simp [hout] at hin
      · rcases at_append hx with hx | ⟨-, rfl⟩
        · rcases at_append hy with hy | ⟨-, rfl⟩
          · exact hinv.apart a b k x hx y hy hab hin
          · simp [hout]
        · simp [hout] at hin
    · cases hstep
  | turn i =>
    obtain ⟨p, hp, rfl⟩ := Option.map_eq_some_iff.mp hstep
    exact turn_invariant h hp halone (hφ i (at_lt hp) p hp) hinv

/-- The run lemma: a run in which no process works on a key while another one is
    inside a section of it keeps what each step of one process keeps. -/
theorem run_invariant (h : Keeps S φ Log Free Held) {st st' : State σ P} {evs : List (Event D P)}
    (hrun : S.run st evs = some st')
    (halong : Along S (fun st ev => Alone S st ev ∧ Everywhere φ st) st evs)
    (hinv : Invariant S Log Free Held st) : Invariant S Log Free Held st' := by
  induction evs generalizing st with
  | nil =>
    obtain rfl := Option.some.inj hrun
    exact hinv
  | cons ev evs ih =>
    obtain ⟨st₁, hstep, hrest⟩ := Option.bind_eq_some_iff.mp hrun
    obtain ⟨⟨halone, hφ⟩, hfurther⟩ := halong
    exact ih hrest (hfurther st₁ hstep) (step_invariant h hstep halone hφ hinv)

end Sections
