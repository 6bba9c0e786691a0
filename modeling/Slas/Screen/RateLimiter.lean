/-
  Slas.Screen.RateLimiter

  The rate limit of the screen driver (`slas_screen.driver.RateLimiter`): the times of the last
  actions are kept, and an action that would be one too many sleeps until the oldest of them is
  a second ago.  Times are exact, in seconds.

  `rate_le`: in no second, wherever it begins, are there more actions than `per_second`.
-/

import Mathlib.Algebra.Order.Ring.Rat
import Mathlib.Data.List.TakeWhile
import Mathlib.Order.Interval.Set.Basic
import Mathlib.Tactic.Linarith
import Mathlib.Tactic.NormNum

namespace Slas

namespace Screen

/-! ## The limiter -/

/-- `RateLimiter` -/
structure RateLimiter where
  stamps : List ℚ := []
  waits : Nat := 0

/-- What the clock shows when a call begins, and when it has slept, if it sleeps. -/
structure Reading where
  now : ℚ
  woken : ℚ

/-- The times that are not a second ago. -/
def prune (now : ℚ) (stamps : List ℚ) : List ℚ := stamps.dropWhile fun s => 1 ≤ now - s

namespace RateLimiter

variable (perSecond : Nat) (limiter : RateLimiter)

/-- How long a call sleeps that begins at a time, if it sleeps. -/
def pause (now : ℚ) : Option ℚ :=
  let kept := prune now limiter.stamps
  if perSecond ≤ kept.length then kept.head?.map fun oldest => max (oldest + 1 - now) (1 / 1000)
  else none

/-- `acquire`, with the time that it records; it raises if there is no oldest time to wait for. -/
def acquire (reading : Reading) : Option (RateLimiter × ℚ) :=
  let kept := prune reading.now limiter.stamps
  if perSecond ≤ kept.length then
    match kept with
    | [] => none
    | _ :: _ => some ({ stamps := prune reading.woken kept ++ [reading.woken]
                        waits := limiter.waits + 1 }, reading.woken)
  else some ({ limiter with stamps := kept ++ [reading.now] }, reading.now)

/-- The times that a row of calls records. -/
def recorded : RateLimiter → List Reading → Option (List ℚ)
  | _, [] => some []
  | limiter, reading :: readings => do
    let (limiter, time) ← limiter.acquire perSecond reading
    let times ← recorded limiter readings
    return time :: times

/-- The clock never goes back, and a sleep takes at least as long as it was asked to.  The
    clock was last read at `last`. -/
def Clocked : RateLimiter → ℚ → List Reading → Prop
  | _, _, [] => True
  | limiter, last, reading :: readings =>
    last ≤ reading.now ∧
      (∀ d ∈ limiter.pause perSecond reading.now, reading.now + d ≤ reading.woken) ∧
      ∀ next ∈ limiter.acquire perSecond reading, Clocked next.1 next.2 readings

end RateLimiter

/-! ## The times that are kept -/

/-- A stretch of time that is less than a second long, or a second without one of its ends. -/
def Short (stretch : Set ℚ) : Prop := ∀ s ∈ stretch, ∀ t ∈ stretch, t < s + 1

theorem short_ico (start : ℚ) : Short (Set.Ico start (start + 1)) := by
  intro s hs t ht
  linarith [hs.1, ht.2]

theorem short_ioc (start : ℚ) : Short (Set.Ioc start (start + 1)) := by
  intro s hs t ht
  linarith [hs.1, ht.2]

/-- How many of the times are in a stretch. -/
def countIn (stretch : Set ℚ) [DecidablePred (· ∈ stretch)] (times : List ℚ) : Nat :=
  times.countP (· ∈ stretch)

/-- The times so far are kept, but for those that were a second ago when the clock was last
    read, and there are not too many in any second. -/
structure Kept (perSecond : Nat) (limiter : RateLimiter) (last : ℚ) (times : List ℚ) : Prop where
  split : ∃ gone, times = gone ++ limiter.stamps ∧ ∀ t ∈ gone, t + 1 ≤ last
  length : limiter.stamps.length ≤ perSecond
  rate : ∀ (stretch : Set ℚ) [DecidablePred (· ∈ stretch)],
    Short stretch → countIn stretch times ≤ perSecond

variable {perSecond : Nat} {limiter : RateLimiter} {last : ℚ} {times : List ℚ}

theorem kept_start (perSecond : Nat) (last : ℚ) : Kept perSecond {} last [] where
  split := ⟨[], rfl, by simp⟩
  length := Nat.zero_le _
  rate _ _ _ := Nat.zero_le _

/-- What is pruned was a second ago. -/
theorem prune_split (now : ℚ) (stamps : List ℚ) :
    ∃ gone, stamps = gone ++ prune now stamps ∧ ∀ t ∈ gone, t + 1 ≤ now := by
  refine ⟨stamps.takeWhile fun s => 1 ≤ now - s, List.takeWhile_append_dropWhile.symm, ?_⟩
  intro t ht
  have hold : 1 ≤ now - t := by simpa using List.mem_takeWhile_imp ht
  linarith

/-- A time is added to what is left of the times, when fewer than `per_second` are left. -/
theorem Kept.add {now : ℚ} {kept : List ℚ} (waits : Nat) (h : Kept perSecond limiter last times)
    (hlast : last ≤ now) (hkept : ∃ gone, limiter.stamps = gone ++ kept ∧ ∀ t ∈ gone, t + 1 ≤ now)
    (hroom : kept.length < perSecond) :
    Kept perSecond { stamps := kept ++ [now], waits } now (times ++ [now]) := by
  obtain ⟨before, htimes, hbefore⟩ := h.split
  obtain ⟨gone, hstamps, hgone⟩ := hkept
  have hold : ∀ t ∈ before ++ gone, t + 1 ≤ now := by
    intro t ht
    rcases List.mem_append.mp ht with ht | ht
    · exact (hbefore t ht).trans hlast
    · exact hgone t ht
  have hsplit : times = before ++ gone ++ kept := by rw [htimes, hstamps, List.append_assoc]
  refine ⟨⟨before ++ gone, by rw [hsplit, List.append_assoc], hold⟩, ?_, ?_⟩
  · rw [List.length_append, List.length_singleton]
    exact hroom
  intro stretch _ hshort
  by_cases hin : now ∈ stretch
  · -- what was a second ago is in no short stretch that the new time is in
    have hnone : countIn stretch (before ++ gone) = 0 := by
      refine List.countP_eq_zero.mpr fun t ht => ?_
      have hgone := hold t ht
      simp only [decide_eq_true_eq]
      intro hstretch
      exact (hshort t hstretch now hin).not_ge hgone
    calc countIn stretch (times ++ [now])
        = countIn stretch (before ++ gone) + countIn stretch kept + countIn stretch [now] := by
          rw [hsplit]
          simp only [countIn, List.countP_append]
      _ ≤ 0 + kept.length + 1 := by
          refine Nat.add_le_add (Nat.add_le_add hnone.le List.countP_le_length) ?_
          exact List.countP_le_length
      _ ≤ perSecond := by omega
  · have hout : countIn stretch [now] = 0 := by simpa [countIn] using hin
    calc countIn stretch (times ++ [now]) = countIn stretch times + countIn stretch [now] :=
          List.countP_append ..
      _ ≤ perSecond := by rw [hout]; exact h.rate stretch hshort

/-- One call: a time is recorded, and the times are kept with it. -/
theorem Kept.acquire {reading : Reading} (hone : 1 ≤ perSecond)
    (h : Kept perSecond limiter last times) (hlast : last ≤ reading.now)
    (hsleep : ∀ d ∈ limiter.pause perSecond reading.now, reading.now + d ≤ reading.woken) :
    ∃ limiter' time, limiter.acquire perSecond reading = some (limiter', time) ∧
      Kept perSecond limiter' time (times ++ [time]) := by
  obtain ⟨gone, hstamps, hgone⟩ := prune_split reading.now limiter.stamps
  have hlength : (prune reading.now limiter.stamps).length ≤ perSecond := by
    refine le_trans ?_ h.length
    conv_rhs => rw [hstamps]
    simp
  unfold RateLimiter.acquire
  unfold RateLimiter.pause at hsleep
  generalize prune reading.now limiter.stamps = kept at *
  dsimp only at hsleep ⊢
  split_ifs with hfull
  · rw [if_pos hfull] at hsleep
    cases kept with
    | nil =>
      rw [List.length_nil] at hfull
      omega
    | cons oldest kept =>
      -- the sleep lasts until the oldest time is a second ago
      have hwoken := hsleep _ rfl
      have hpause := le_max_left (oldest + 1 - reading.now) (1 / 1000)
      have hmin := le_max_right (oldest + 1 - reading.now) (1 / 1000)
      have holdest : 1 ≤ reading.woken - oldest := by linarith
      have hlater : reading.now ≤ reading.woken := by linarith
      obtain ⟨more, hmore, hmoreGone⟩ := prune_split reading.woken (oldest :: kept)
      refine ⟨_, _, rfl, h.add _ (hlast.trans hlater) ⟨gone ++ more, ?_, ?_⟩ ?_⟩
      · rw [hstamps, List.append_assoc, ← hmore]
      · intro t ht
        rcases List.mem_append.mp ht with ht | ht
        · exact (hgone t ht).trans hlater
        · exact hmoreGone t ht
      · have hdrop : prune reading.woken (oldest :: kept) = prune reading.woken kept :=
          List.dropWhile_cons_of_pos (by simpa using holdest)
        rw [hdrop]
        calc (prune reading.woken kept).length ≤ kept.length := List.length_dropWhile_le _ _
          _ < (oldest :: kept).length := Nat.lt_succ_self _
          _ ≤ perSecond := hlength
  · exact ⟨_, _, rfl, h.add _ hlast ⟨gone, hstamps, hgone⟩ (not_le.mp hfull)⟩

/-- Every call returns, and the times are kept to the end. -/
theorem Kept.recorded (hone : 1 ≤ perSecond) {readings : List Reading}
    (h : Kept perSecond limiter last times) (hclock : limiter.Clocked perSecond last readings) :
    ∃ later limiter' last', limiter.recorded perSecond readings = some later ∧
      Kept perSecond limiter' last' (times ++ later) := by
  induction readings generalizing limiter last times with
  | nil => exact ⟨[], limiter, last, rfl, by simpa using h⟩
  | cons reading readings ih =>
    obtain ⟨hlast, hsleep, hnext⟩ := hclock
    obtain ⟨limiter', time, hacquire, hkept⟩ := h.acquire hone hlast hsleep
    obtain ⟨later, limiter'', last'', hlater, hrest⟩ := ih hkept (hnext _ hacquire)
    refine ⟨time :: later, limiter'', last'', ?_, by simpa using hrest⟩
    rw [RateLimiter.recorded, hacquire]
    exact congrArg (Option.bind · _) hlater

/-- **Never more in any rolling second**: every call of `acquire` returns, and of the times that
    are recorded there are at most `per_second` in each second, wherever it begins, with the one
    of its ends or the other. -/
theorem rate_le (hone : 1 ≤ perSecond) (last : ℚ) (readings : List Reading)
    (hclock : RateLimiter.Clocked perSecond {} last readings) :
    ∃ times, RateLimiter.recorded perSecond {} readings = some times ∧
      ∀ start, countIn (Set.Ico start (start + 1)) times ≤ perSecond ∧
        countIn (Set.Ioc start (start + 1)) times ≤ perSecond := by
  obtain ⟨times, _, _, htimes, hkept⟩ := (kept_start perSecond last).recorded hone hclock
  refine ⟨times, htimes, fun start => ⟨?_, ?_⟩⟩
  · exact hkept.rate _ (short_ico start)
  · exact hkept.rate _ (short_ioc start)

/-- One action a second, asked for at the start and half a second later: the second one waits. -/
theorem rate_le_one :
    RateLimiter.Clocked 1 {} 0 [⟨0, 0⟩, ⟨1 / 2, 1⟩] ∧
      ∃ times, RateLimiter.recorded 1 {} [⟨0, 0⟩, ⟨1 / 2, 1⟩] = some times ∧
        ∀ start, countIn (Set.Ico start (start + 1)) times ≤ 1 ∧
          countIn (Set.Ioc start (start + 1)) times ≤ 1 := by
  have hclock : RateLimiter.Clocked 1 {} 0 [⟨0, 0⟩, ⟨1 / 2, 1⟩] := by
    norm_num [RateLimiter.Clocked, RateLimiter.pause, RateLimiter.acquire, prune]
    rintro d ⟨⟩
  exact ⟨hclock, rate_le le_rfl 0 _ hclock⟩

end Screen

end Slas
