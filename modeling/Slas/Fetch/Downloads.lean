/-
  Slas.Fetch.Downloads

  Whether a download ends (`Hub.download` of `slas_fetch.fetch`), against any row of responses
  without end.  What a response does to the bytes that are counted and to the attempts without
  progress is one lap; the files are those of `Slas.Fetch.Fetcher`.

  Theorems:
    receive_received — a lap counts what the fetcher's request does to the file;
    downloadEnds_iff — which rows of responses end a download.
-/

import Slas.Fetch.Fetcher

namespace Slas

namespace Fetch

/-! ## Laps -/

/-- What a request comes to, and whether the `.part` file could be opened and written. -/
structure Response where
  answer : Answer
  written : Bool := true

/-- How far the file is after a response: with the reason when the body was cut off. -/
def received (url : String) (have_ : Nat) (r : Response) : Except Stop (Nat × Option String) :=
  match r.answer with
  | .httpError code => .error (.fetchError (httpError url code))
  | .notAllowed message => .error (.fetchError message)
  | .lost reason => .ok (have_, some reason)
  | .body status bytes ending =>
    let kept := if have_ ≠ 0 ∧ status = 206 then have_ else 0
    if r.written then
      match ending with
      | .closed => .ok (kept + bytes.length, none)
      | .dropped reason => .ok (kept + bytes.length, some reason)
      | .broken what => .error (.raised what)
    else .ok (kept, some "OSError")

/-- The bytes on disk, and the attempts in a row without progress. -/
structure Counters where
  have_ : Nat
  stalls : Nat

inductive Outcome where
  | returned (bytes : Nat)
  | raised (stop : Stop)

variable (hub : Hub) (url : String) (target : List String) (expectedSize : Nat)

/-- After the last request. -/
def checkSize (have_ : Nat) : Outcome :=
  if expectedSize ≠ 0 ∧ have_ ≠ expectedSize then
    .raised (.fetchError (wrongSize target have_ expectedSize))
  else .returned have_

/-- One lap of the loop: the counters for the next one, or how the download ends. -/
def lap (c : Counters) (r : Response) : Except Outcome Counters :=
  if isHttp url then
    match received url c.have_ r with
    | .error stop => .error (.raised stop)
    | .ok (now, reason) =>
      match cutOff expectedSize now reason with
      | none => .error (checkSize target expectedSize now)
      | some reason =>
        let stalls := if c.have_ < now then 0 else c.stalls + 1
        if hub.retries < stalls then .error (.raised (.fetchError (stopped hub target now reason)))
        else .ok ⟨now, stalls⟩
  else .error (.raised (.fetchError (notHttp url)))

/-- Where a download is after so many laps, which began with a `.part` file of `there` bytes. -/
def after (there : Nat) (rs : Nat → Response) : Nat → Except Outcome Counters
  | 0 => .ok ⟨if expectedSize ≠ 0 ∧ expectedSize < there then 0 else there, 0⟩
  | k + 1 =>
    match after there rs k with
    | .error outcome => .error outcome
    | .ok c => lap hub url target expectedSize c (rs k)

/-- With the bytes that were expected, or with a `FetchError`. -/
def EndsWell (outcome : Outcome) : Prop :=
  outcome = .returned expectedSize ∨ ∃ message, outcome = .raised (.fetchError message)

/-- The download makes finitely many requests, and ends well. -/
def DownloadEnds (there : Nat) (rs : Nat → Response) : Prop :=
  ∃ k outcome, after hub url target expectedSize there rs k = .error outcome ∧
    EndsWell expectedSize outcome

/-- A lap leaves less of the file than there was. -/
def Shrinks (there : Nat) (rs : Nat → Response) (k : Nat) : Prop :=
  ∃ c now reason, after hub url target expectedSize there rs k = .ok c ∧
    received url c.have_ (rs k) = .ok (now, reason) ∧ now < c.have_

/-- A lap is cut off though all of the file is there. -/
def CutOffComplete (there : Nat) (rs : Nat → Response) (k : Nat) : Prop :=
  ∃ c now reason, after hub url target expectedSize there rs k = .ok c ∧
    received url c.have_ (rs k) = .ok (now, some reason) ∧ expectedSize ≤ now

/-- A lap is broken off by an exception that is not an `OSError`. -/
def Breaks (there : Nat) (rs : Nat → Response) (k : Nat) : Prop :=
  ∃ c what, after hub url target expectedSize there rs k = .ok c ∧ isHttp url = true ∧
    received url c.have_ (rs k) = .error (.raised what)

/-! ## One lap -/

section Laps

variable {hub url target expectedSize} {there : Nat} {rs : Nat → Response} {c c' : Counters}
  {r : Response} {k : Nat} {outcome : Outcome}

theorem openPart_run (part : List String) (append : Bool) (bytes : Bytes) (w : Session) (n : Nat) :
    ∃ opened w', openPart part append bytes w (n + 1) = .ok opened w' n := by
  cases hplace : w.disk.filePlace part with
  | none => exact ⟨false, w, Crash.Prog.effect_run (by rw [hplace]) n⟩
  | some p => exact ⟨true, _, Crash.Prog.effect_run (by rw [hplace]) n⟩

/-- What the fetcher's request does to the file is what a lap counts, if no crash comes between. -/
theorem receive_received (part : List String) (have_ : Nat) (answer : Answer) (w : Session)
    (n : Nat) :
    ∃ written w' n', receive url part have_ answer w (n + 1) =
      match received url have_ ⟨answer, written⟩ with
      | .ok found => .ok found w' n'
      | .error stop => .raised stop w' n' := by
  cases answer with
  | httpError code => exact ⟨true, w, n + 1, rfl⟩
  | notAllowed message => exact ⟨true, w, n + 1, rfl⟩
  | lost reason => exact ⟨true, w, n + 1, rfl⟩
  | body status bytes ending =>
    obtain ⟨opened, w', hopen⟩ :=
      openPart_run part (decide (have_ ≠ 0 ∧ status = 206)) bytes w n
    refine ⟨opened, w', n, ?_⟩
    simp only [receive]
    refine (Crash.Prog.bind_run hopen).trans ?_
    rw [received]
    simp only [decide_eq_true_eq]
    cases opened <;> cases ending <;> rfl

/-- A lap that goes on: the bytes are counted, and the attempts without progress are few. -/
theorem lap_eq_ok (h : lap hub url target expectedSize c r = .ok c') :
    ∃ reason, received url c.have_ r = .ok (c'.have_, reason) ∧
      (reason = none → c'.have_ < expectedSize) ∧ c'.stalls ≤ hub.retries ∧
      (c.have_ < c'.have_ ∨ c'.stalls = c.stalls + 1) := by
  unfold lap at h
  split_ifs at h with hhttp
  cases hreceived : received url c.have_ r with
  | error stop =>
    rw [hreceived] at h
    cases h
  | ok found =>
    obtain ⟨now, reason⟩ := found
    rw [hreceived] at h
    dsimp only at h
    cases hcut : cutOff expectedSize now reason with
    | none =>
      rw [hcut] at h
      cases h
    | some why =>
      rw [hcut] at h
      dsimp only at h
      have hshort : reason = none → now < expectedSize := by
        rintro rfl
        unfold cutOff at hcut
        split_ifs at hcut with hdone
        omega
      by_cases hgrown : c.have_ < now
      · rw [if_pos hgrown, if_neg (Nat.not_lt_zero _)] at h
        cases h
        exact ⟨reason, rfl, hshort, Nat.zero_le _, Or.inl hgrown⟩
      · rw [if_neg hgrown] at h
        split_ifs at h with hmany
        cases h
        exact ⟨reason, rfl, hshort, not_lt.mp hmany, Or.inr rfl⟩

/-- A lap that ends the download ends it well, unless it is broken off. -/
theorem lap_eq_error (hpos : 0 < expectedSize)
    (h : lap hub url target expectedSize c r = .error outcome) :
    EndsWell expectedSize outcome ∨
      isHttp url = true ∧ ∃ what, received url c.have_ r = .error (.raised what) := by
  unfold lap at h
  split_ifs at h with hhttp
  · cases hreceived : received url c.have_ r with
    | error stop =>
      cases stop with
      | fetchError message =>
        rw [hreceived] at h
        cases h
        exact Or.inl (Or.inr ⟨message, rfl⟩)
      | raised what => exact Or.inr ⟨hhttp, what, rfl⟩
    | ok found =>
      obtain ⟨now, reason⟩ := found
      rw [hreceived] at h
      dsimp only at h
      cases hcut : cutOff expectedSize now reason with
      | none =>
        rw [hcut] at h
        cases h
        refine Or.inl ?_
        unfold checkSize
        split_ifs with hsize
        · exact Or.inr ⟨_, rfl⟩
        · have hsame : now = expectedSize := by
            by_contra hne
            exact hsize ⟨hpos.ne', hne⟩
          exact Or.inl (congrArg _ hsame)
      | some why =>
        rw [hcut] at h
        dsimp only at h
        split_ifs at h <;>
        · cases h
          exact Or.inl (Or.inr ⟨_, rfl⟩)
  · cases h
    exact Or.inl (Or.inr ⟨_, rfl⟩)

/-! ## All laps -/

theorem after_succ (h : after hub url target expectedSize there rs k = .ok c) :
    after hub url target expectedSize there rs (k + 1) =
      lap hub url target expectedSize c (rs k) := by
  rw [after, h]

/-- A download that has ended stays ended. -/
theorem after_add (h : after hub url target expectedSize there rs k = .error outcome) (n : Nat) :
    after hub url target expectedSize there rs (k + n) = .error outcome := by
  induction n with
  | zero => exact h
  | succ n ih => rw [← Nat.add_assoc, after, ih]

theorem lt_of_after_ok (h : after hub url target expectedSize there rs k = .error outcome)
    {j : Nat} (hj : after hub url target expectedSize there rs j = .ok c) : j < k := by
  by_contra hle
  obtain ⟨n, rfl⟩ := Nat.exists_eq_add_of_le (not_lt.mp hle)
  rw [after_add h n] at hj
  cases hj

/-- The lap that ends a download. -/
theorem last_lap (h : after hub url target expectedSize there rs k = .error outcome) :
    ∃ j c, after hub url target expectedSize there rs j = .ok c ∧
      lap hub url target expectedSize c (rs j) = .error outcome := by
  induction k with
  | zero => cases h
  | succ k ih =>
    cases hbefore : after hub url target expectedSize there rs k with
    | error earlier =>
      rw [after_add hbefore 1] at h
      exact ih (hbefore.trans h)
    | ok c => exact ⟨k, c, hbefore, (after_succ hbefore).symm.trans h⟩

/-- What goes down with every lap that leaves no less than there was and not all of the file. -/
def toGo (hub : Hub) (expectedSize : Nat) (c : Counters) : Nat :=
  (expectedSize - c.have_) * (hub.retries + 1) + (hub.retries - c.stalls)

theorem toGo_lt (h : lap hub url target expectedSize c r = .ok c') (hkept : c.have_ ≤ c'.have_)
    (hpart : c'.have_ < expectedSize) :
    toGo hub expectedSize c' < toGo hub expectedSize c := by
  obtain ⟨_, _, _, hstalls, hgrown | hstall⟩ := lap_eq_ok h
  · have hless : expectedSize - c'.have_ + 1 ≤ expectedSize - c.have_ := by omega
    have hmul := Nat.mul_le_mul_right (hub.retries + 1) hless
    rw [Nat.add_mul, Nat.one_mul] at hmul
    unfold toGo
    omega
  · have hle : expectedSize - c'.have_ ≤ expectedSize - c.have_ := by omega
    have hmul := Nat.mul_le_mul_right (hub.retries + 1) hle
    unfold toGo
    omega

/-- A download goes on without end only if it shrinks, or is cut off when all of the file is
    there, again and again. -/
theorem ends_of_settled (hshrinks : ∃ K, ∀ k ≥ K, ¬ Shrinks hub url target expectedSize there rs k)
    (hcut : ∃ K, ∀ k ≥ K, ¬ CutOffComplete hub url target expectedSize there rs k) :
    ∃ k outcome, after hub url target expectedSize there rs k = .error outcome := by
  by_contra hnever
  have hon : ∀ k, ∃ c, after hub url target expectedSize there rs k = .ok c := by
    intro k
    cases hk : after hub url target expectedSize there rs k with
    | error outcome => exact absurd ⟨k, outcome, hk⟩ hnever
    | ok c => exact ⟨c, rfl⟩
  choose c hc using hon
  obtain ⟨K, hK⟩ := hshrinks
  obtain ⟨L, hL⟩ := hcut
  have hless : ∀ k ≥ max K L, toGo hub expectedSize (c (k + 1)) < toGo hub expectedSize (c k) := by
    intro k hk
    have hlap := (after_succ (hc k)).symm.trans (hc (k + 1))
    obtain ⟨reason, hreceived, hshort, -, -⟩ := lap_eq_ok hlap
    refine toGo_lt hlap ?_ ?_
    · by_contra hlt
      exact hK k (le_of_max_le_left hk) ⟨_, _, reason, hc k, hreceived, not_le.mp hlt⟩
    · cases reason with
      | none => exact hshort rfl
      | some why =>
        by_contra hle
        exact hL k (le_of_max_le_right hk) ⟨_, _, why, hc k, hreceived, not_lt.mp hle⟩
  have hdown : ∀ n, toGo hub expectedSize (c (max K L + n)) + n ≤
      toGo hub expectedSize (c (max K L)) := by
    intro n
    induction n with
    | zero => exact le_rfl
    | succ n ih =>
      have hnext := hless (max K L + n) (Nat.le_add_right _ _)
      rw [Nat.add_assoc] at hnext
      omega
  have hfar := hdown (toGo hub expectedSize (c (max K L)) + 1)
  omega

/-- **When a download ends**: exactly if from some lap on no response leaves less of the file than
    there was and none is cut off when all of the file is there, and none is broken off by an
    exception that is not an `OSError`. -/
theorem downloadEnds_iff (hpos : 0 < expectedSize) :
    DownloadEnds hub url target expectedSize there rs ↔
      (∃ K, ∀ k ≥ K, ¬ Shrinks hub url target expectedSize there rs k) ∧
      (∃ K, ∀ k ≥ K, ¬ CutOffComplete hub url target expectedSize there rs k) ∧
      ∀ k, ¬ Breaks hub url target expectedSize there rs k := by
  constructor
  · rintro ⟨k, outcome, hend, hwell⟩
    refine ⟨⟨k, ?_⟩, ⟨k, ?_⟩, ?_⟩
    · rintro j hj ⟨c, _, _, hc, -⟩
      exact absurd (lt_of_after_ok hend hc) (not_lt.mpr hj)
    · rintro j hj ⟨c, _, _, hc, -⟩
      exact absurd (lt_of_after_ok hend hc) (not_lt.mpr hj)
    · rintro j ⟨c, what, hc, hhttp, hbroken⟩
      -- the lap that is broken off is the last one
      have hlap : after hub url target expectedSize there rs (j + 1) =
          .error (.raised (.raised what)) := by
        rw [after_succ hc, lap, if_pos hhttp, hbroken]
      obtain ⟨n, hn⟩ := Nat.exists_eq_add_of_le (Nat.succ_le_of_lt (lt_of_after_ok hend hc))
      rw [hn, after_add hlap n] at hend
      cases hend
      obtain heq | ⟨message, heq⟩ := hwell
      · cases heq
      · cases heq
  · rintro ⟨hshrinks, hcut, hbreaks⟩
    obtain ⟨k, outcome, hend⟩ := ends_of_settled hshrinks hcut
    refine ⟨k, outcome, hend, ?_⟩
    obtain ⟨j, c, hc, hlap⟩ := last_lap hend
    rcases lap_eq_error hpos hlap with hwell | ⟨hhttp, what, hbroken⟩
    · exact hwell
    · exact absurd ⟨c, what, hc, hhttp, hbroken⟩ (hbreaks j)

/-- A hub that sends the file at once. -/
theorem downloadEnds_iff_one :
    DownloadEnds {} "https://h/f" ["f"] 1 0 (fun _ => ⟨.body 200 [0] .closed, true⟩) ↔
      (∃ K, ∀ k ≥ K, ¬ Shrinks {} "https://h/f" ["f"] 1 0
        (fun _ => ⟨.body 200 [0] .closed, true⟩) k) ∧
      (∃ K, ∀ k ≥ K, ¬ CutOffComplete {} "https://h/f" ["f"] 1 0
        (fun _ => ⟨.body 200 [0] .closed, true⟩) k) ∧
      ∀ k, ¬ Breaks {} "https://h/f" ["f"] 1 0 (fun _ => ⟨.body 200 [0] .closed, true⟩) k :=
  downloadEnds_iff (by decide)

-- A mirror that does not know ranges

/-- Two bytes and then one, from the start each time, before the connection drops. -/
def restarting (k : Nat) : Response :=
  ⟨.body 200 (if k % 2 = 0 then [0, 0] else [0]) (.dropped "reset"), true⟩

theorem after_restarting (k : Nat) :
    after {} "https://h/f" ["f"] 3 0 restarting (2 * k + 1) = .ok ⟨2, 0⟩ ∧
      after {} "https://h/f" ["f"] 3 0 restarting (2 * k + 2) = .ok ⟨1, 1⟩ := by
  have hhttp : isHttp "https://h/f" = true := by decide
  have heven : ∀ n, restarting (2 * n) = ⟨.body 200 [0, 0] (.dropped "reset"), true⟩ := by
    intro n
    rw [restarting, if_pos (by omega)]
  have hodd : ∀ n, restarting (2 * n + 1) = ⟨.body 200 [0] (.dropped "reset"), true⟩ := by
    intro n
    rw [restarting, if_neg (by omega)]
  have hmore : ∀ there stalls, there < 2 → lap {} "https://h/f" ["f"] 3 ⟨there, stalls⟩
      ⟨.body 200 [0, 0] (.dropped "reset"), true⟩ = .ok ⟨2, 0⟩ := by
    intro there stalls hthere
    simp [lap, hhttp, received, cutOff, hthere]
  have hless : lap {} "https://h/f" ["f"] 3 ⟨2, 0⟩
      ⟨.body 200 [0] (.dropped "reset"), true⟩ = .ok ⟨1, 1⟩ := by
    simp [lap, hhttp, received, cutOff]
  have hsecond : ∀ n, after {} "https://h/f" ["f"] 3 0 restarting (2 * n + 1) = .ok ⟨2, 0⟩ →
      after {} "https://h/f" ["f"] 3 0 restarting (2 * n + 2) = .ok ⟨1, 1⟩ := by
    intro n hn
    rw [after_succ hn, hodd, hless]
  induction k with
  | zero =>
    have hfirst : after {} "https://h/f" ["f"] 3 0 restarting (2 * 0 + 1) = .ok ⟨2, 0⟩ := by
      rw [after_succ (c := ⟨0, 0⟩) rfl, heven 0, hmore 0 0 (by decide)]
    exact ⟨hfirst, hsecond 0 hfirst⟩
  | succ k ih =>
    have hfirst : after {} "https://h/f" ["f"] 3 0 restarting (2 * (k + 1) + 1) = .ok ⟨2, 0⟩ := by
      rw [after_succ (k := 2 * (k + 1)) ih.2, heven (k + 1), hmore 1 1 (by decide)]
    exact ⟨hfirst, hsecond (k + 1) hfirst⟩

/-- The download of three bytes never ends. -/
theorem restarting_never_ends :
    ¬ DownloadEnds {} "https://h/f" ["f"] 3 0 restarting := by
  rintro ⟨k, outcome, hend, -⟩
  have hlater := after_add hend (k + 1)
  rw [show k + (k + 1) = 2 * k + 1 by omega, (after_restarting k).1] at hlater
  cases hlater

end Laps

end Fetch

end Slas
