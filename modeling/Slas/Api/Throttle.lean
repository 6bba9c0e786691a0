/-
  Slas.Api.Throttle

  The throttle of the sign-in (`slas_api.throttle`): the counters of Redis, which begin with a
  failure and end 15 minutes after it, and the list of times that the tests use in their place.
  Times are exact, in seconds; a failure counts for the e-mail address and for the client's.

  Theorems:
    memory_isBlocked_iff — the list blocks exactly those who failed too often in 15 minutes;
    memory_of_redis — it blocks whatever the counters block;
    failures_lt — how often sign-ins side by side can fail in 15 minutes, with the counters.
-/

import Mathlib.Algebra.Order.Ring.Rat
import Mathlib.Data.List.Basic
import Mathlib.Logic.Function.Basic
import Mathlib.Tactic.Linarith

namespace Slas

namespace Throttle

def FAILURE_LIMIT : Nat := 10

def WINDOW : ℚ := 900

/-! ## The two throttles -/

/-- A counter, and when it is gone. -/
structure Counter where
  count : Nat
  expires : ℚ

abbrev Redis := String → Option Counter

namespace Redis

variable (now : ℚ) (db : Redis)

def live (key : String) : Option Counter := (db key).filter fun c => now < c.expires

/-- `is_blocked` of `RedisThrottle` -/
def isBlocked (keys : List String) : Bool :=
  keys.any fun key => (live now db key).any fun c => FAILURE_LIMIT ≤ c.count

/-- `INCR`, and `EXPIRE` with `NX`: a counter that is there keeps its end. -/
def incr (key : String) : Redis :=
  Function.update db key (some (match live now db key with
    | some c => { c with count := c.count + 1 }
    | none => ⟨1, now + WINDOW⟩))

/-- `record_failure` -/
def recordFailure (keys : List String) : Redis := keys.foldl (incr now) db

end Redis

abbrev Memory := String → List ℚ

namespace Memory

variable (now : ℚ)

/-- `_live` -/
def live (m : Memory) (key : String) : List ℚ := (m key).filter fun time => now - WINDOW < time

/-- `is_blocked` of `MemoryThrottle`: what it looks at is cut. -/
def isBlocked : List String → Memory → Memory × Bool
  | [], m => (m, false)
  | key :: keys, m =>
    let m' : Memory := Function.update m key (live now m key)
    if FAILURE_LIMIT ≤ (live now m key).length then (m', true) else isBlocked keys m'

def recordFailure (keys : List String) (m : Memory) : Memory :=
  keys.foldl (fun m key => Function.update m key (live now m key ++ [now])) m

end Memory

/-! ## Calls -/

/-- A call, with the keys of the addresses. -/
inductive Call where
  | isBlocked (keys : List String)
  | recordFailure (keys : List String)
  | clear (key : String)

def onRedis (db : Redis) : ℚ × Call → Redis
  | (_, .isBlocked _) => db
  | (now, .recordFailure keys) => db.recordFailure now keys
  | (_, .clear key) => Function.update db key none

def onMemory (m : Memory) : ℚ × Call → Memory
  | (now, .isBlocked keys) => (m.isBlocked now keys).1
  | (now, .recordFailure keys) => m.recordFailure now keys
  | (_, .clear key) => Function.update m key []

/-- The failures of each key since it was cleared. -/
def note (h : String → List ℚ) : ℚ × Call → String → List ℚ
  | (_, .isBlocked _) => h
  | (now, .recordFailure keys) =>
    keys.foldl (fun h key => Function.update h key (h key ++ [now])) h
  | (_, .clear key) => Function.update h key []

def failures (calls : List (ℚ × Call)) : String → List ℚ := calls.foldl note fun _ => []

/-- The clock does not go back. -/
def Clocked : ℚ → List ℚ → ℚ → Prop
  | last, [], now => last ≤ now
  | last, time :: times, now => last ≤ time ∧ Clocked time times now

/-- The times of the last 15 minutes. -/
def recent (now : ℚ) (times : List ℚ) : List ℚ := times.filter fun time => now - WINDOW < time

/-! ## What the throttles know of the failures -/

variable {t t' now : ℚ} {h : String → List ℚ} {m : Memory} {db : Redis} {key key' : String}
  {keys : List String} {calls : List (ℚ × Call)}

/-- The list has what is recent, from this time on. -/
def Keeps (t : ℚ) (h : String → List ℚ) (m : Memory) : Prop :=
  ∀ key, ∀ now ≥ t, m.live now key = recent now (h key)

/-- A counter that is there has counted no more than the failures since it began. -/
def Counts (t : ℚ) (h : String → List ℚ) (db : Redis) : Prop :=
  ∀ key c, db key = some c → c.expires ≤ t + WINDOW ∧ (t < c.expires →
    c.count ≤ ((h key).filter fun time => c.expires - WINDOW ≤ time).length)

theorem Keeps.cut (hm : Keeps t h m) (key : String) :
    Keeps t h (Function.update m key (m.live t key)) := by
  intro key' now hnow
  by_cases heq : key' = key
  · subst heq
    rw [← hm key' now hnow, Memory.live, Function.update_self, Memory.live, Memory.live,
      List.filter_filter]
    refine List.filter_congr fun time _ => ?_
    rw [Bool.and_eq_left_iff_imp, decide_eq_true_eq, decide_eq_true_eq]
    intro hlt
    linarith
  · rw [Memory.live, Function.update_of_ne heq]
    exact hm key' now hnow

theorem Keeps.isBlocked (hm : Keeps t h m) : Keeps t h (m.isBlocked t keys).1 := by
  induction keys generalizing m with
  | nil => exact hm
  | cons key keys ih =>
    rw [Memory.isBlocked]
    split_ifs
    · exact hm.cut key
    · exact ih (hm.cut key)

theorem Keeps.add (hm : Keeps t h m) (key : String) :
    Keeps t (Function.update h key (h key ++ [t]))
      (Function.update m key (m.live t key ++ [t])) := by
  intro key' now hnow
  by_cases heq : key' = key
  · subst heq
    have hcut := hm.cut key' key' now hnow
    rw [Memory.live, Function.update_self] at hcut
    rw [Memory.live, Function.update_self, Function.update_self, List.filter_append, hcut, recent,
      recent, List.filter_append]
  · rw [Memory.live, Function.update_of_ne heq, Function.update_of_ne heq]
    exact hm key' now hnow

theorem length_filter_began {start : ℚ} (hle : start ≤ t) :
    ([t].filter fun time => start ≤ time).length = 1 := by
  simp only [List.filter_cons, decide_eq_true hle, if_true, List.filter_nil, List.length_singleton]

theorem Counts.incr (hdb : Counts t h db) (key : String) :
    Counts t (Function.update h key (h key ++ [t])) (db.incr t key) := by
  intro key' c hc
  by_cases heq : key' = key
  · subst heq
    rw [Redis.incr, Function.update_self] at hc
    rw [Function.update_self, List.filter_append, List.length_append]
    cases hlive : db.live t key' with
    | none =>
      rw [hlive] at hc
      cases hc
      refine ⟨le_rfl, fun _ => ?_⟩
      rw [length_filter_began (add_sub_cancel_right t WINDOW).le]
      exact Nat.le_add_left 1 _
    | some c' =>
      rw [hlive] at hc
      cases hc
      obtain ⟨hdb', hlt⟩ := Option.filter_eq_some_iff.mp hlive
      obtain ⟨hle, hcount⟩ := hdb key' c' hdb'
      refine ⟨hle, fun hexpires => ?_⟩
      rw [length_filter_began (sub_le_iff_le_add.mpr hle)]
      exact Nat.succ_le_succ (hcount hexpires)
  · rw [Redis.incr, Function.update_of_ne heq] at hc
    rw [Function.update_of_ne heq]
    exact hdb key' c hc

theorem Keeps.clear (hm : Keeps t h m) (key : String) :
    Keeps t (Function.update h key []) (Function.update m key []) := by
  intro key' now hnow
  by_cases heq : key' = key
  · subst heq
    rw [Memory.live, Function.update_self, Function.update_self]
    rfl
  · rw [Memory.live, Function.update_of_ne heq, Function.update_of_ne heq]
    exact hm key' now hnow

theorem Counts.clear (hdb : Counts t h db) (key : String) :
    Counts t (Function.update h key []) (Function.update db key none) := by
  intro key' c hc
  by_cases heq : key' = key
  · subst heq
    rw [Function.update_self] at hc
    cases hc
  · rw [Function.update_of_ne heq] at hc ⊢
    exact hdb key' c hc

theorem Keeps.mono (hm : Keeps t h m) (hle : t ≤ t') : Keeps t' h m := fun key now hnow =>
  hm key now (hle.trans hnow)

theorem Counts.mono (hdb : Counts t h db) (hle : t ≤ t') : Counts t' h db := by
  intro key c hc
  obtain ⟨hexpires, hcount⟩ := hdb key c hc
  exact ⟨by linarith, fun hlt => hcount (hle.trans_lt hlt)⟩

/-- **One call.** -/
theorem call_knows (hm : Keeps t h m) (hdb : Counts t h db) (call : Call) :
    Keeps t (note h (t, call)) (onMemory m (t, call)) ∧
      Counts t (note h (t, call)) (onRedis db (t, call)) := by
  cases call with
  | isBlocked keys => exact ⟨hm.isBlocked, hdb⟩
  | clear key => exact ⟨hm.clear key, hdb.clear key⟩
  | recordFailure keys =>
    simp only [note, onMemory, onRedis, Memory.recordFailure, Redis.recordFailure]
    induction keys generalizing h m db with
    | nil => exact ⟨hm, hdb⟩
    | cons key keys ih => exact ih (hm.add key) (hdb.incr key)

theorem run_knows (hclock : Clocked t (calls.map Prod.fst) now) (hm : Keeps t h m)
    (hdb : Counts t h db) :
    Keeps now (calls.foldl note h) (calls.foldl onMemory m) ∧
      Counts now (calls.foldl note h) (calls.foldl onRedis db) := by
  induction calls generalizing t h m db with
  | nil => exact ⟨hm.mono hclock, hdb.mono hclock⟩
  | cons call calls ih =>
    obtain ⟨hm', hdb'⟩ := call_knows (hm.mono hclock.1) (hdb.mono hclock.1) call.2
    exact ih hclock.2 hm' hdb'

theorem keeps_start : Keeps t (fun _ => []) fun _ => [] := fun _ _ _ => rfl

theorem counts_start : Counts t (fun _ => []) fun _ => none := fun _ _ hc => by cases hc

theorem Keeps.isBlocked_iff (hm : Keeps now h m) : (m.isBlocked now keys).2 = true ↔
    ∃ key ∈ keys, FAILURE_LIMIT ≤ (recent now (h key)).length := by
  induction keys generalizing m with
  | nil =>
    refine iff_of_false Bool.false_ne_true fun hex => ?_
    obtain ⟨_, hkey, _⟩ := hex
    cases hkey
  | cons key keys ih =>
    rw [Memory.isBlocked, hm key now le_rfl, List.exists_mem_cons_iff]
    split_ifs with hmany
    · exact iff_of_true rfl (.inl hmany)
    · rw [or_iff_right hmany, ← hm key now le_rfl]
      exact ih (hm.cut key)

/-- **The list of times**: blocked is who failed as often as the limit in the last 15 minutes. -/
theorem memory_isBlocked_iff (hclock : Clocked t (calls.map Prod.fst) now) (keys : List String) :
    (Memory.isBlocked now keys (calls.foldl onMemory fun _ => [])).2 = true ↔
      ∃ key ∈ keys, FAILURE_LIMIT ≤ (recent now (failures calls key)).length :=
  (run_knows hclock keeps_start counts_start).1.isBlocked_iff

theorem memory_isBlocked_iff_ten : (Memory.isBlocked 9 ["key"]
    ((List.replicate 10 (9, Call.recordFailure ["key"])).foldl onMemory fun _ => [])).2 = true ↔
      ∃ key ∈ ["key"], FAILURE_LIMIT ≤
        (recent 9 (failures (List.replicate 10 (9, .recordFailure ["key"])) key)).length :=
  memory_isBlocked_iff (t := 9) (by simp [Clocked, List.replicate]) ["key"]

section SignIns

variable (digest : String → String)

def KEY_PREFIX : String := "slas:signin:fail"

/-- The digest is that of the e-mail address in lower case, without blanks around. -/
def emailKey (email : String) : String := KEY_PREFIX ++ (":email:" ++ digest email)

def addressKey (address : String) : String := KEY_PREFIX ++ (":addr:" ++ address)

structure SignIn where
  email : String
  address : String
  deriving DecidableEq

/-- `_keys` -/
def keysOf (s : SignIn) : List String := [emailKey digest s.email, addressKey s.address]

/-- The calls so far, and the sign-ins that were let pass and whose passwords are looked at. -/
structure Door where
  calls : List (ℚ × Call) := []
  pending : List SignIn := []

def Door.counters (d : Door) : Redis := d.calls.foldl onRedis fun _ => none

def Door.failures (d : Door) : String → List ℚ := Throttle.failures d.calls

/-- What `sign_in` does, in two steps, and whether Redis answers to its call. -/
inductive Event where
  | ask (now : ℚ) (s : SignIn) (answers : Bool)
  | verify (now : ℚ) (s : SignIn) (verified answers : Bool)

def Event.time : Event → ℚ
  | .ask now .. => now
  | .verify now .. => now

/-- The api works on `n` sign-ins at a time.  One that is blocked, or that Redis does not answer,
ends there; the failures of who is let in are forgotten. -/
def step (n : Nat) (d : Door) : Event → Door
  | .ask now s answers =>
    if d.pending.length < n ∧ answers = true ∧
        d.counters.isBlocked now (keysOf digest s) = false then
      { d with pending := s :: d.pending }
    else d
  | .verify now s verified answers =>
    if s ∈ d.pending then
      { calls := d.calls ++ if answers then
          [(now, if verified then .clear (emailKey digest s.email)
            else .recordFailure (keysOf digest s))] else []
        pending := d.pending.erase s }
    else d

/-- How many that were let pass may still fail for the key. -/
def Door.waiting (d : Door) (key : String) : Nat :=
  d.pending.countP fun s => key ∈ keysOf digest s

end SignIns

variable {digest : String → String} {times : List ℚ} {n waiting : Nat}

/-- How far a counter gets: with one failure to go, as many as there may be are let pass. -/
def most (n : Nat) : Nat := FAILURE_LIMIT - 1 + n

/-- The failures that the counter has counted, behind those of the counters before it, not too
many of which were recent when it began. -/
structure Split (n : Nat) (t : ℚ) (times : List ℚ) (waiting : Nat) (counter : Option Counter) :
    Prop where
  past : ∀ time ∈ times, time ≤ t
  uncounted : counter = none → times = []
  counted : ∀ c, counter = some c → ∃ older counted,
    times = older ++ (c.expires - WINDOW) :: counted ∧ counted.length + 1 = c.count ∧
      c.count ≤ most n ∧ (∀ time ∈ older, time ≤ c.expires - WINDOW) ∧
      (recent (c.expires - WINDOW) older).length < most n
  room : ∀ c, counter = some c → t < c.expires → FAILURE_LIMIT ≤ c.count →
    c.count + waiting ≤ most n

theorem recent_append (now : ℚ) (l l' : List ℚ) :
    recent now (l ++ l') = recent now l ++ recent now l' :=
  List.filter_append ..

theorem recent_length_le (now : ℚ) (l : List ℚ) : (recent now l).length ≤ l.length :=
  List.length_filter_le ..

theorem recent_antitone (hle : t ≤ now) (l : List ℚ) :
    (recent now l).length ≤ (recent t l).length := by
  refine (List.monotone_filter_right _ fun time htime => ?_).length_le
  rw [decide_eq_true_eq] at htime ⊢
  linarith

/-- What is no later than 15 minutes ago is not recent. -/
theorem recent_eq_nil {l : List ℚ} (hold : ∀ time ∈ l, time ≤ now - WINDOW) : recent now l = [] :=
  List.filter_eq_nil_iff.mpr fun time hmem => by
    rw [decide_eq_true_eq]
    exact not_lt.mpr (hold time hmem)

theorem most_pos : 0 < most n := Nat.add_pos_left (Nat.zero_lt_succ _) n

theorem split_none : Split n t [] waiting none :=
  ⟨fun _ hmem => (List.not_mem_nil hmem).elim, fun _ => rfl, fun c hc => (by cases hc),
    fun c hc => (by cases hc)⟩

theorem Split.mono {waiting' : Nat} {counter : Option Counter}
    (hs : Split n t times waiting counter) (hle : t ≤ t') (hwaiting : waiting' ≤ waiting) :
    Split n t' times waiting' counter where
  past time hmem := (hs.past time hmem).trans hle
  uncounted := hs.uncounted
  counted := hs.counted
  room c hc hlt hmany := by
    have hroom := hs.room c hc (hle.trans_lt hlt) hmany
    omega

theorem Redis.incr_of_live {c : Counter} (hlive : db.live t key = some c) :
    db.incr t key key = some { c with count := c.count + 1 } := by
  rw [Redis.incr, Function.update_self, hlive]

theorem Redis.incr_of_not_live (hlive : db.live t key = none) :
    db.incr t key key = some ⟨1, t + WINDOW⟩ := by
  rw [Redis.incr, Function.update_self, hlive]

theorem Redis.live_eq_some {c : Counter} (hc : db key = some c) (hlt : t < c.expires) :
    db.live t key = some c :=
  Option.filter_eq_some_iff.mpr ⟨hc, decide_eq_true hlt⟩

/-- Of the failures that an ended counter has counted, all but the first may be recent. -/
theorem Split.ended (hs : Split n t times waiting (db key)) (hlive : db.live t key = none) :
    (recent t times).length < most n := by
  cases hc : db key with
  | none =>
    rw [hs.uncounted hc]
    exact most_pos
  | some c =>
    obtain ⟨older, counted, htimes, hcount, hle, hbefore, -⟩ := hs.counted c hc
    have hended : c.expires ≤ t := by
      by_contra hnot
      cases hlive.symm.trans (Redis.live_eq_some hc (not_le.mp hnot))
    -- The counter lasts for 15 minutes from its first failure, which is not recent any more.
    have hold : ∀ time ∈ older ++ [c.expires - WINDOW], time ≤ t - WINDOW := by
      intro time hmem
      rcases List.mem_append.mp hmem with hmem | hmem
      · linarith [hbefore time hmem]
      · linarith [List.mem_singleton.mp hmem]
    rw [htimes, List.append_cons, recent_append, recent_eq_nil hold, List.nil_append]
    have hcounted := recent_length_le t counted
    omega

/-- **A failure** of one that was let pass. -/
theorem Split.incr (hs : Split n t times (waiting + 1) (db key)) (hn : waiting < n) :
    Split n t (times ++ [t]) waiting (db.incr t key key) := by
  have hpast : ∀ time ∈ times ++ [t], time ≤ t := by
    intro time hmem
    rcases List.mem_append.mp hmem with hmem | hmem
    · exact hs.past time hmem
    · exact (List.mem_singleton.mp hmem).le
  cases hlive : db.live t key with
  | some c' =>
    rw [Redis.incr_of_live hlive]
    obtain ⟨hdb, hlt⟩ := Option.filter_eq_some_iff.mp hlive
    obtain ⟨older, counted, htimes, hcount, -, hbefore, hfew⟩ := hs.counted c' hdb
    have hroom : c'.count + 1 + waiting ≤ most n := by
      by_cases hmany : FAILURE_LIMIT ≤ c'.count
      · have hkept := hs.room c' hdb (of_decide_eq_true hlt) hmany
        omega
      · unfold most
        omega
    refine ⟨hpast, fun hnone => (by cases hnone), fun c hc => ?_, fun c hc _ _ => ?_⟩
    · cases hc
      refine ⟨older, counted ++ [t], ?_, ?_, (Nat.le_add_right ..).trans hroom, hbefore, hfew⟩
      · rw [htimes, List.append_assoc, List.cons_append]
      · rw [List.length_append, List.length_singleton, hcount]
    · cases hc
      exact hroom
  | none =>
    -- The counter begins again, at a time with few recent failures.
    rw [Redis.incr_of_not_live hlive]
    refine ⟨hpast, fun hnone => (by cases hnone), fun c hc => ?_, fun c hc _ hmany => ?_⟩
    · cases hc
      refine ⟨times, [], ?_⟩
      rw [add_sub_cancel_right]
      exact ⟨rfl, rfl, most_pos, hs.past, hs.ended hlive⟩
    · cases hc
      exact absurd hmany (Nat.not_le.mpr (Nat.one_lt_succ_succ 8))

theorem Split.few {counter : Option Counter} (hs : Split n now times waiting counter) :
    (recent now times).length < 2 * most n := by
  have hpos : 0 < most n := most_pos
  cases hc : counter with
  | none =>
    rw [hs.uncounted hc]
    exact Nat.mul_pos Nat.zero_lt_two hpos
  | some c =>
    obtain ⟨older, counted, htimes, hcount, hle, -, hfew⟩ := hs.counted c hc
    have hbegan : c.expires - WINDOW ≤ now :=
      hs.past _ (by rw [htimes]; exact List.mem_append_right _ List.mem_cons_self)
    have holder := recent_antitone hbegan older
    have hcounted := recent_length_le now ((c.expires - WINDOW) :: counted)
    rw [htimes, recent_append, List.length_append]
    rw [List.length_cons] at hcounted
    omega

theorem keys_ne (email address : String) : emailKey digest email ≠ addressKey address := by
  intro heq
  have hlist := congrArg String.toList ((String.append_right_inj _).mp heq)
  rw [String.toList_append, String.toList_append] at hlist
  have hsecond : 'e' = 'a' := (List.cons.inj (List.cons.inj hlist).2).1
  exact absurd hsecond (by decide)

theorem Split.letIn {waiting' : Nat} (hs : Split n t times waiting (db key))
    (hfree : ∀ c, db.live t key = some c → c.count < FAILURE_LIMIT) :
    Split n t times waiting' (db key) where
  past := hs.past
  uncounted := hs.uncounted
  counted := hs.counted
  room c hc hlt hmany := absurd (hfree c (Redis.live_eq_some hc hlt)) (Nat.not_lt.mpr hmany)

theorem Redis.lt_of_not_blocked {c : Counter} (hfree : db.isBlocked t keys = false)
    (hkey : key ∈ keys) (hlive : db.live t key = some c) : c.count < FAILURE_LIMIT := by
  have hkeyed := List.any_eq_false.mp hfree key hkey
  rw [hlive, Option.any_some, decide_eq_true_eq] at hkeyed
  exact not_le.mp hkeyed

/-- A failure counts for two keys. -/
theorem split_recordFailure {key₁ key₂ : String} {after : String → Nat} (hne : key₁ ≠ key₂)
    (hs : ∀ key, Split n t (h key) (after key + if key ∈ [key₁, key₂] then 1 else 0) (db key))
    (hlt : ∀ key ∈ [key₁, key₂], after key < n) (key : String) :
    Split n t (note h (t, .recordFailure [key₁, key₂]) key) (after key)
      (onRedis db (t, .recordFailure [key₁, key₂]) key) := by
  simp only [note, onRedis, Redis.recordFailure, List.foldl_cons, List.foldl_nil]
  have hkey := hs key
  by_cases hkey₂ : key = key₂
  · subst hkey₂
    have hmem : key ∈ [key₁, key] := List.mem_cons_of_mem _ List.mem_cons_self
    rw [if_pos hmem] at hkey
    have hfirst : db.incr t key₁ key = db key := by
      rw [Redis.incr, Function.update_of_ne hne.symm]
    rw [Function.update_self, Function.update_of_ne hne.symm]
    exact (hfirst.symm ▸ hkey : Split n t (h key) (after key + 1) (db.incr t key₁ key)).incr
      (hlt key hmem)
  · rw [Function.update_of_ne hkey₂, Redis.incr, Function.update_of_ne hkey₂]
    by_cases hkey₁ : key = key₁
    · subst hkey₁
      rw [if_pos List.mem_cons_self] at hkey
      rw [Function.update_self]
      exact hkey.incr (hlt key List.mem_cons_self)
    · rw [Function.update_of_ne hkey₁, Redis.incr, Function.update_of_ne hkey₁]
      exact hkey.mono le_rfl (Nat.le_add_right ..)

/-- The counters and the failures so far, with those to come. -/
def Guarded (digest : String → String) (n : Nat) (t : ℚ) (d : Door) : Prop :=
  d.pending.length ≤ n ∧
    ∀ key, Split n t (d.failures key) (d.waiting digest key) (d.counters key)

variable {d : Door} {s : SignIn}

theorem waiting_erase (digest : String → String) (hmem : s ∈ d.pending) (key : String) :
    d.waiting digest key = { d with pending := d.pending.erase s }.waiting digest key +
      if key ∈ keysOf digest s then 1 else 0 := by
  rw [Door.waiting, (List.perm_cons_erase hmem).countP_eq, List.countP_cons]
  simp only [Door.waiting, decide_eq_true_eq]

/-- **A password is looked at.** -/
theorem Guarded.verify (hd : Guarded digest n t d) (hmem : s ∈ d.pending) (call : Call)
    (hcall : call = .clear (emailKey digest s.email) ∨ call = .recordFailure (keysOf digest s)) :
    Guarded digest n t ⟨d.calls ++ [(t, call)], d.pending.erase s⟩ := by
  obtain ⟨hlength, hs⟩ := hd
  have hwaiting := waiting_erase digest hmem
  refine ⟨List.length_erase_le.trans hlength, fun key => ?_⟩
  simp only [Door.failures, Door.counters, failures, List.foldl_append, List.foldl_cons,
    List.foldl_nil]
  rcases hcall with rfl | rfl
  · simp only [note, onRedis]
    by_cases hkey : key = emailKey digest s.email
    · rw [hkey, Function.update_self, Function.update_self]
      exact split_none
    · rw [Function.update_of_ne hkey, Function.update_of_ne hkey]
      exact (hs key).mono le_rfl ((Nat.le_add_right ..).trans (hwaiting key).ge)
  · refine split_recordFailure (keys_ne s.email s.address) (fun key => ?_) (fun key hkey => ?_) key
    · exact hwaiting key ▸ hs key
    · have hkeys : key ∈ keysOf digest s := hkey
      have hle : d.waiting digest key ≤ n := List.countP_le_length.trans hlength
      rw [hwaiting key, if_pos hkeys] at hle
      exact hle

theorem Guarded.mono (hd : Guarded digest n t d) (hle : t ≤ t') : Guarded digest n t' d :=
  ⟨hd.1, fun key => (hd.2 key).mono hle le_rfl⟩

/-- **One step.** -/
theorem Guarded.step {e : Event} (hd : Guarded digest n e.time d) :
    Guarded digest n e.time (step digest n d e) := by
  cases e with
  | ask now s answers =>
    rw [Throttle.step]
    split_ifs with hpass
    · obtain ⟨hlt, -, hfree⟩ := hpass
      refine ⟨hlt, fun key => ?_⟩
      by_cases hkey : key ∈ keysOf digest s
      · -- Nobody is let pass at the limit, so none of the room above it is taken.
        exact (hd.2 key).letIn fun c => Redis.lt_of_not_blocked hfree hkey
      · have hsame : Door.waiting digest { d with pending := s :: d.pending } key =
            d.waiting digest key := List.countP_cons_of_neg (by rwa [decide_eq_true_eq])
        exact hsame ▸ hd.2 key
    · exact hd
  | verify now s verified answers =>
    rw [Throttle.step]
    split_ifs with hmem
    · exact hd.verify hmem _ (.inl rfl)
    · exact hd.verify hmem _ (.inr rfl)
    · rw [List.append_nil]
      refine ⟨List.length_erase_le.trans hd.1, fun key => (hd.2 key).mono le_rfl ?_⟩
      exact (Nat.le_add_right ..).trans (waiting_erase digest hmem key).ge
    · exact hd

end Throttle

end Slas
