/-
  Slas.Sandbox.InUse

  A sandbox in use is not reaped: when exactly the reaper closes a session only while no command is
  running in it and its time to live has passed since the last one ended: `spares_iff`.
-/

import Slas.Sandbox.Tracked

namespace Slas

namespace Sandbox

/-! ## Requests, the reaper and the clock -/

/-- A command that runs. -/
structure Command where
  session : String
  began : DateTime

/-- What is seen of a session: when its last command ended, and when the command began that was the
    last to end without raising.  For both the opening counts as one. -/
structure Seen where
  ended : DateTime
  renewedAt : DateTime

/-- The manager under a clock, with the commands that run. -/
structure Service where
  manager : Manager
  clock : DateTime
  started : Nat := 0
  commands : List (Nat × Command) := []
  seen : List (String × Seen) := []

inductive Request where
  | open_ (call : OpenCall)
  /-- `exec` as far as the command. -/
  | start (id : String) (argv : List String) (answers : CloseAnswers)
  /-- The command of a number ends, and the rest of `exec`. -/
  | finish (number : Nat) (command : Except ApiError ExecResult)
  | close (id : String) (answers : CloseAnswers)
  | reap (answers : String → CloseAnswers)
  | tick (d : Nat)

namespace Service

variable (S : Setup) (s : Service)

def finish (number : Nat) (result : Except ApiError ExecResult) : Service :=
  match s.commands.lookup number with
  | none => s
  | some command =>
    let commands := Dict.pop number s.commands
    match result with
    | .error _ =>
      let seen := match s.seen.lookup command.session with
        | none => s.seen
        | some was => Dict.set command.session { was with ended := s.clock } s.seen
      { s with commands := commands, seen := seen }
    | .ok _ =>
      { s with commands := commands
               manager := s.manager.renew command.session command.began
               seen := Dict.set command.session ⟨s.clock, command.began⟩ s.seen }

def step : Request → Service
  | .open_ call =>
    match s.manager.open_ S { call with now := s.clock } with
    | (manager, .error _) => { s with manager := manager }
    | (manager, .ok session) =>
      { s with manager := manager, seen := Dict.set session.id ⟨s.clock, s.clock⟩ s.seen }
  | .start id argv a =>
    match s.manager.letIn id argv s.clock a with
    | (manager, .error _) => { s with manager := manager }
    | (manager, .ok _) =>
      { s with manager := manager, started := s.started + 1
               commands := Dict.set s.started ⟨id, s.clock⟩ s.commands }
  | .finish number result => s.finish number result
  | .close id a => { s with manager := (s.manager.close id a).1 }
  | .reap answers => { s with manager := (s.manager.reap s.clock answers).1 }
  | .tick d => { s with clock := s.clock + d }

/-- No command is running in the session, and its time to live has passed since the last one. -/
def Idle (id : String) (session : Session) : Prop :=
  (∀ item ∈ s.commands, item.2.session ≠ id) ∧
    ∀ seen ∈ s.seen.lookup id, seen.ended + seconds session.handle.spec.ttlS ≤ s.clock

/-- What the reaper closes is idle. -/
def Spares : Request → Prop
  | .reap answers =>
    ∀ id, ∀ session ∈ s.manager.sessions.lookup id,
      (s.step S (.reap answers)).manager.sessions.lookup id = none → s.Idle id session
  | _ => True

/-- The sessions that come before one in the table, and have expired, are closed without raising. -/
def Reaches (answers : String → CloseAnswers) (id : String) : Prop :=
  ∀ item ∈ s.manager.sessions.takeWhile fun item => item.1 ≠ id,
    item.2.expiresAt ≤ s.clock → s.manager.Returns item.1 (answers item.1)

/-- When the reaper reaches a session that is not idle, the command that was the last to end
    without raising had begun within the time to live. -/
def Recent : Request → Prop
  | .reap answers =>
    ∀ id, ∀ session ∈ s.manager.sessions.lookup id, s.Reaches answers id → ¬ s.Idle id session →
      ∀ seen ∈ s.seen.lookup id, s.clock < seen.renewedAt + seconds session.handle.spec.ttlS
  | _ => True

end Service

/-! ## What a pass of the reaper closes -/

variable {S : Setup} {m : Manager} {id : String} {session : Session} {a : CloseAnswers}
  {now : DateTime} {answers : String → CloseAnswers} {ids : List String}

namespace Manager

theorem close_sessions : (m.close id a).1.sessions.lookup id = none := by
  cases hl : m.sessions.lookup id with
  | none => rw [close_of_not_listed hl, hl]
  | some session =>
    obtain ⟨cs, result, hclose, -⟩ := close_spec hl (a := a)
    rw [hclose, Dict.lookup_pop, if_pos rfl]

/-- Closing sessions lists no new one. -/
theorem listed_before_close {j : String} (h : (m.close id a).1.sessions.lookup j = some session) :
    m.sessions.lookup j = some session := by
  cases hl : m.sessions.lookup id with
  | none => rwa [close_of_not_listed hl] at h
  | some other =>
    obtain ⟨cs, result, hclose, -⟩ := close_spec hl (a := a)
    rw [hclose, Dict.lookup_pop] at h
    split_ifs at h
    exact h

theorem listed_before_closeAll {j : String}
    (h : (closeAll answers ids m).1.sessions.lookup j = some session) :
    m.sessions.lookup j = some session := by
  induction ids generalizing m with
  | nil => exact h
  | cons id ids ih =>
    by_cases hr : m.Returns id (answers id)
    · rw [closeAll_of_returns hr] at h
      exact listed_before_close (ih h)
    · rw [closeAll_of_raises hr] at h
      exact listed_before_close h

/-- Those are closed that come no later than the first whose closing raises. -/
theorem closeAll_lookup_eq_none (h : Keyed m) (hids : ids.Nodup) :
    (closeAll answers ids m).1.sessions.lookup id = none ↔
      m.sessions.lookup id = none ∨
        id ∈ ids ∧ ∀ j ∈ ids.takeWhile (· ≠ id), m.Returns j (answers j) := by
  induction ids generalizing m with
  | nil => simp [closeAll]
  | cons j ids ih =>
    obtain ⟨hj, hids⟩ := List.nodup_cons.mp hids
    by_cases hid : id = j
    · -- the session is the first: it is closed, whatever comes after it
      subst hid
      refine iff_of_true ?_ (Or.inr ⟨List.mem_cons_self, by simp⟩)
      cases hl : (closeAll answers (id :: ids) m).1.sessions.lookup id with
      | none => rfl
      | some session =>
        by_cases hr : m.Returns id (answers id)
        · rw [closeAll_of_returns hr] at hl
          have hclosed := close_sessions.symm.trans (listed_before_closeAll hl)
          cases hclosed
        · rw [closeAll_of_raises hr] at hl
          have hclosed := close_sessions.symm.trans hl
          cases hclosed
    · have hothers := (close_others (a := answers j) h hid).1
      have htake : (j :: ids).takeWhile (· ≠ id) = j :: ids.takeWhile (· ≠ id) :=
        List.takeWhile_cons_of_pos (decide_eq_true (Ne.symm hid))
      rw [htake, List.mem_cons, List.forall_mem_cons]
      by_cases hr : m.Returns j (answers j)
      · have hrest : (∀ k ∈ ids.takeWhile (· ≠ id),
            (m.close j (answers j)).1.Returns k (answers k)) ↔
            ∀ k ∈ ids.takeWhile (· ≠ id), m.Returns k (answers k) := by
          refine forall₂_congr fun k hk => returns_close h ?_
          rintro rfl
          exact hj (List.takeWhile_subset _ hk)
        rw [closeAll_of_returns hr, ih (keyed_close h) hids, hothers, hrest]
        simp only [hid, hr, false_or, true_and]
      · rw [closeAll_of_raises hr, hothers]
        simp only [hr, false_and, and_false, or_false]

/-- Before the command the manager is left as it is, or the session is closed. -/
theorem letIn_fst (m : Manager) (id : String) (argv : List String) (now : DateTime)
    (a : CloseAnswers) :
    (m.letIn id argv now a).1 = m ∨ (m.letIn id argv now a).1 = (m.close id a).1 := by
  cases hl : m.sessions.lookup id with
  | none => exact Or.inl (by simp only [letIn, hl])
  | some session =>
    by_cases hlate : session.expiresAt ≤ now
    · refine Or.inr ?_
      simp only [letIn, hl, hlate, if_true]
      cases hc : m.close id a with
      | mk m' result => cases result <;> rfl
    · refine Or.inl ?_
      simp only [letIn, hl, hlate, if_false]
      split_ifs <;> rfl

theorem expired_eq (h : Keyed m) :
    m.expired now = (m.sessions.filter fun item => item.2.expiresAt ≤ now).map (·.1) := by
  have hids : ∀ l : List (String × Session), (∀ item ∈ l, item.2.id = item.1) →
      ((l.map (·.2)).filter fun session => session.expiresAt ≤ now).map (·.id) =
        (l.filter fun item => item.2.expiresAt ≤ now).map (·.1) := by
    intro l hl
    rw [List.filter_map, List.map_map]
    exact List.map_congr_left fun item hitem => hl item (List.mem_of_mem_filter hitem)
  exact hids _ fun item hitem => (h.listed item hitem).id

theorem mem_expired (h : Keyed m) (hl : m.sessions.lookup id = some session) :
    id ∈ m.expired now ↔ session.expiresAt ≤ now := by
  rw [expired_eq h, List.mem_map]
  constructor
  · rintro ⟨item, hitem, rfl⟩
    obtain ⟨hmem, hlate⟩ := List.mem_filter.mp hitem
    have hsame := (h.lookup_of_mem hmem).symm.trans hl
    simpa [Option.some.inj hsame] using hlate
  · intro hlate
    exact ⟨(id, session), List.mem_filter.mpr ⟨Dict.mem_of_lookup hl, by simpa using hlate⟩, rfl⟩

/-- The keys that pass a test and come before one that does. -/
theorem takeWhile_keys {V : Type} (p : String × V → Bool) {l : List (String × V)}
    (h : ∀ item ∈ l, item.1 = id → p item = true) :
    ((l.filter p).map (·.1)).takeWhile (· ≠ id) =
      ((l.takeWhile fun item => item.1 ≠ id).filter p).map (·.1) := by
  induction l with
  | nil => rfl
  | cons item l ih =>
    obtain ⟨hitem, hl⟩ := List.forall_mem_cons.mp h
    by_cases hid : item.1 = id
    · simp [hitem hid, hid]
    · by_cases hp : p item = true
      · simpa [hp, hid] using ih hl
      · simpa [hp, hid] using ih hl

end Manager

namespace Service

variable {s : Service}

/-- A pass closes a listed session exactly if it has expired and is reached. -/
theorem reap_closes (h : Keyed s.manager) (hl : s.manager.sessions.lookup id = some session) :
    (s.step S (.reap answers)).manager.sessions.lookup id = none ↔
      session.expiresAt ≤ s.clock ∧ s.Reaches answers id := by
  have hlisted : s.manager.sessions.lookup id ≠ none := by simp [hl]
  simp only [step, Manager.reap_fst]
  rw [Manager.closeAll_lookup_eq_none h h.nodup_expired, or_iff_right hlisted,
    Manager.mem_expired h hl]
  refine and_congr_right fun hlate => ?_
  have hown : ∀ item ∈ s.manager.sessions, item.1 = id →
      decide (item.2.expiresAt ≤ s.clock) = true := by
    rintro item hitem rfl
    have hsame := (h.lookup_of_mem hitem).symm.trans hl
    simpa [Option.some.inj hsame] using hlate
  rw [Manager.expired_eq h, Manager.takeWhile_keys _ hown, Reaches]
  simp [List.mem_filter]

/-! ## What is seen of the sessions -/

/-- Each session that is listed has been seen, and expires its time to live after it was
    renewed. -/
structure Known (s : Service) : Prop where
  keyed : Keyed s.manager
  seen : ∀ id session, s.manager.sessions.lookup id = some session →
    ∃ seen, s.seen.lookup id = some seen ∧
      session.expiresAt = seen.renewedAt + seconds session.handle.spec.ttlS

namespace Known

/-- Where no session is listed anew. -/
theorem shrink (h : s.Known) {m : Manager} (hm : Keyed m)
    (hlisted : ∀ id session, m.sessions.lookup id = some session →
      s.manager.sessions.lookup id = some session) :
    Known { s with manager := m } :=
  ⟨hm, fun id session hl => h.seen id session (hlisted id session hl)⟩

theorem close (h : s.Known) : Known { s with manager := (s.manager.close id a).1 } :=
  h.shrink (Manager.keyed_close h.keyed) fun _ _ => Manager.listed_before_close

/-- Where a session is listed, it is seen anew in the same step. -/
theorem put (h : s.Known) {m : Manager} (hm : Keyed m) {w : Seen}
    (hexpires : session.expiresAt = w.renewedAt + seconds session.handle.spec.ttlS)
    (hset : m.sessions = Dict.set id session s.manager.sessions)
    {commands : List (Nat × Command)} :
    Known { s with manager := m, commands := commands, seen := Dict.set id w s.seen } := by
  refine ⟨hm, fun j other hl => ?_⟩
  simp only [hset, Dict.lookup_set] at hl ⊢
  split_ifs at hl ⊢
  · cases hl
    exact ⟨w, rfl, hexpires⟩
  · exact h.seen j other hl

end Known

theorem known_open {call : OpenCall} (h : s.Known) : Known (s.step S (.open_ call)) := by
  have hkeyed : Keyed (s.manager.open_ S { call with now := s.clock }).1 :=
    Manager.keyed_open h.keyed
  rcases hp : s.manager.prepare S { call with now := s.clock } with ⟨counter, e | asked⟩
  · simp only [step, Manager.open_, hp] at hkeyed ⊢
    exact h.shrink hkeyed fun _ _ hl => hl
  · obtain ⟨id, spec, sentence⟩ := asked
    cases hd : Driver.create spec call.answers s.manager.containers with
    | mk cs result =>
      simp only [step, Manager.open_, hp, hd] at hkeyed ⊢
      cases result with
      | error e => exact h.shrink hkeyed fun _ _ hl => hl
      | ok handle =>
        have hspec : handle.spec = spec := Driver.create_spec (congrArg Prod.snd hd)
        exact h.put hkeyed (by simp only [hspec]) rfl

theorem known_start {argv : List String} (h : s.Known) : Known (s.step S (.start id argv a)) := by
  have hadmitted : Known { s with manager := (s.manager.letIn id argv s.clock a).1 } := by
    rcases Manager.letIn_fst s.manager id argv s.clock a with hsame | hclosed
    · rwa [hsame]
    · rw [hclosed]
      exact h.close
  rw [step]
  cases hm : s.manager.letIn id argv s.clock a with
  | mk m result =>
    rw [hm] at hadmitted
    cases result with
    | error e => exact hadmitted
    | ok session => exact ⟨hadmitted.keyed, hadmitted.seen⟩

/-- A command that raises leaves the expiry of the session as it was. -/
theorem known_finish {number : Nat} {result : Except ApiError ExecResult} (h : s.Known) :
    Known (s.finish number result) := by
  cases hc : s.commands.lookup number with
  | none => simpa only [finish, hc] using h
  | some command =>
    cases result with
    | error e =>
      simp only [finish, hc]
      cases hw : s.seen.lookup command.session with
      | none => exact ⟨h.keyed, h.seen⟩
      | some was =>
        refine ⟨h.keyed, fun j session hl => ?_⟩
        obtain ⟨seen, hseen, hexpires⟩ := h.seen j session hl
        simp only [Dict.lookup_set]
        split_ifs with hj
        · subst hj
          obtain rfl : was = seen := Option.some.inj (hw.symm.trans hseen)
          exact ⟨_, rfl, hexpires⟩
        · exact ⟨seen, hseen, hexpires⟩
    | ok _ =>
      have hkeyed : Keyed (s.manager.renew command.session command.began) :=
        Manager.keyed_renew h.keyed
      simp only [finish, hc]
      cases hl : s.manager.sessions.lookup command.session with
      | none =>
        have hsame : s.manager.renew command.session command.began = s.manager := by
          simp only [Manager.renew, hl]
        rw [hsame]
        refine ⟨h.keyed, fun j session hj => ?_⟩
        have hne : j ≠ command.session := by
          rintro rfl
          cases hl.symm.trans hj
        simpa only [Dict.lookup_set, if_neg hne] using h.seen j session hj
      | some session =>
        simp only [Manager.renew, hl] at hkeyed ⊢
        exact h.put hkeyed rfl rfl

theorem known_step (e : Request) (h : s.Known) : Known (s.step S e) := by
  cases e with
  | open_ call => exact known_open h
  | start id argv a => exact known_start h
  | finish number result => exact known_finish h
  | close id a => exact h.close
  | reap answers =>
    simp only [step, Manager.reap_fst]
    exact h.shrink (Manager.keyed_closeAll h.keyed) fun _ _ => Manager.listed_before_closeAll
  | tick d => exact ⟨h.keyed, h.seen⟩

/-- **One pass of the reaper.** -/
theorem spares_step (h : s.Known) (e : Request) : s.Spares S e ↔ s.Recent e := by
  cases e with
  | reap answers =>
    refine forall₃_congr fun id session hl => ?_
    obtain ⟨seen, hseen, hexpires⟩ := h.seen id session hl
    rw [reap_closes h.keyed hl, hexpires]
    simp only [hseen, Option.mem_def, Option.some.injEq, forall_eq', ← not_le]
    tauto
  | _ => exact Iff.rfl

/-- The service as it starts. -/
def initial (runsc : Bool) (clock : DateTime) : Service := ⟨Manager.initial runsc, clock, 0, [], []⟩

/-- **A sandbox in use is not reaped**: in a run the reaper closes only sessions that are idle,
    exactly if each session that is not idle when the reaper reaches it was renewed by a command,
    the last one to end without raising, that had begun within the time to live. -/
theorem spares_iff (S : Setup) (runsc : Bool) (clock : DateTime) (es : List Request) :
    Runs.Meets (step S) (Spares S) (initial runsc clock) es ↔
      Runs.Meets (step S) Recent (initial runsc clock) es :=
  Runs.meets_congr (I := Known) (fun _ e h _ => known_step e h) (fun _ e h => spares_step h e)
    ⟨Manager.keyed_initial runsc, fun _ _ h => nomatch h⟩

end Service

-- A command is still running when the time to live, one minute, has passed since it began.
private def build : List Request :=
  [.open_ { user := "ada", slug := "demo", image := "local/slas/sandbox-python:3.12",
            language := "python", ttlS := some 60, now := 0 },
    .start "demo-00000301000000-1" ["make", "test"] {}, .tick (seconds 60)]

/-- The reaper closes a session in which a command is running. -/
theorem reaped_in_use :
    ¬ Runs.Meets (Service.step quickstart) (Service.Spares quickstart) (Service.initial true 0)
      (build ++ [.reap fun _ => {}]) := by
  intro h
  have hspares := (Runs.meets_snoc.mp h).2
  have hrun : (fun s : Service => ((s.manager.sessions.lookup "demo-00000301000000-1").isSome,
      ((s.step quickstart (.reap fun _ => {})).manager.sessions.lookup
        "demo-00000301000000-1").isNone,
      s.commands.map fun item => item.2.session))
        (Runs.run (Service.step quickstart) (Service.initial true 0) build) =
      (true, true, ["demo-00000301000000-1"]) := by
    decide +kernel
  generalize Runs.run (Service.step quickstart) (Service.initial true 0) build = s at hspares hrun
  obtain ⟨hlisted, hrest⟩ := Prod.mk.inj hrun
  obtain ⟨hclosed, hcommands⟩ := Prod.mk.inj hrest
  obtain ⟨session, hl⟩ := Option.isSome_iff_exists.mp hlisted
  have hidle := hspares _ session hl (Option.isNone_iff_eq_none.mp hclosed)
  obtain ⟨item, hitem, hin⟩ := List.mem_map.mp (hcommands ▸ List.mem_singleton_self _)
  exact hidle.1 item hitem hin

end Sandbox

end Slas
