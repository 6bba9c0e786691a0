/-
  Slas.Sandbox.Tracked

  No untracked sandbox: every container of the runtime is that of a session the manager lists,
  throughout a run, exactly if no `create` that raises leaves its container behind and every
  session that is closed has its container removed: `tracked_iff`.
-/

import Slas.Lib.Runs
import Slas.Sandbox.Manager
import Std.Data.String.ToNat

namespace Slas

namespace Sandbox

/-! ## Calls of the manager -/

inductive Event where
  | open_ (call : OpenCall)
  | exec (id : String) (argv : List String) (now : DateTime) (answers : CloseAnswers)
      (command : Except ApiError ExecResult)
  | close (id : String) (answers : CloseAnswers)
  | reap (now : DateTime) (answers : String → CloseAnswers)
  /-- What a probe of the runtime finds. -/
  | probe (runsc kata : Bool)
  /-- A container ends by itself. -/
  | ends (name : String)

namespace Manager

variable (S : Setup) (m : Manager)

def step : Event → Manager
  | .open_ call => (m.open_ S call).1
  | .exec id argv now a command => (m.exec id argv now a command).1
  | .close id a => (m.close id a).1
  | .reap now answers => (m.reap now answers).1
  | .probe runsc kata => { m with runscAvailable := runsc, kataAvailable := kata }
  | .ends name =>
    if (m.containers.lookup name).isSome then
      { m with containers := Dict.set name false m.containers }
    else m

/-- Each container is that of a session that is listed. -/
def Tracked : Prop :=
  ∀ name ∈ Dict.keys m.containers, ∃ item ∈ m.sessions, item.2.handle.name = name

end Manager

/-- The container is made, `create` raises, and the container is left. -/
def CreateAnswers.Leaves (a : CreateAnswers) : Prop :=
  a.bodyRaises = false ∧
    (a.create = .done ∧ a.unreadable = true ∨
      (a.create = .lost ∨ a.create = .done ∧ a.start ≠ .done) ∧ a.remove = .failed)

/-- A container that is there goes: it is found running, the stop does not raise, and the removal
    takes effect. -/
def CloseAnswers.Removes (a : CloseAnswers) (running : Bool) : Prop :=
  running = true ∧ a.inspect = .done ∧ a.stop = .done ∧ a.remove ≠ .failed

namespace Manager

variable (S : Setup) (m : Manager) (id : String) (a : CloseAnswers)

/-- If the session is listed and has its container, closing it removes the container. -/
def Frees : Prop :=
  ∀ session ∈ m.sessions.lookup id, ∀ running ∈ m.containers.lookup session.handle.name,
    a.Removes running

/-- Nothing raises while the session is closed. -/
def Returns : Prop :=
  ∀ session ∈ m.sessions.lookup id, a.inspect = .done ∧ a.treeRaises = false ∧
    (m.containers.lookup session.handle.name = some true → a.stop = .done ∧ a.remove = .done)

/-- So does the closing of each of the sessions, until one raises. -/
def FreesAll (answers : String → CloseAnswers) : List String → Prop
  | [] => True
  | id :: ids => m.Frees id (answers id) ∧ (m.Returns id (answers id) → FreesAll answers ids)

/-- No `create` that raises leaves its container, and each session that is closed has its
    container removed. -/
def Cleans : Event → Prop
  | .open_ call =>
    ∀ asked, (m.prepare S call).2 = .ok asked → ¬ call.answers.Leaves
  | .exec id _ now a _ => ∀ session ∈ m.sessions.lookup id, session.expiresAt ≤ now → m.Frees id a
  | .close id a => m.Frees id a
  | .reap now answers => m.FreesAll answers (m.expired now)
  | .probe _ _ | .ends _ => True

end Manager

/-! ## The sessions -/

/-- The counter tells the ids of sessions apart. -/
theorem sessionId_inj {slug slug' : String} {now now' : DateTime} {k k' : Nat}
    (h : sessionId slug now k = sessionId slug' now' k') : k = k' := by
  have hchars : (slug.toList ++ '-' :: stamp now) ++ '-' :: (toString k).toList =
      (slug'.toList ++ '-' :: stamp now') ++ '-' :: (toString k').toList := by
    simpa [sessionId] using congrArg String.toList h
  have hlast := Text.cut_at_last (Text.mark_not_mem_toString rfl k)
    (Text.mark_not_mem_toString rfl k') hchars
  exact Nat.repr_injective (String.toList_inj.mp hlast.2)

/-- The session is listed under its id, its container is named after it, and its number has been
    counted. -/
structure Listed (counter : Nat) (item : String × Session) : Prop where
  id : item.2.id = item.1
  name : item.2.handle.name = NAME_PREFIX ++ item.1
  counted : ∃ slug now k, item.1 = sessionId slug now k ∧ k ≤ counter

theorem Listed.mono {counter counter' : Nat} {item : String × Session} (h : Listed counter item)
    (hle : counter ≤ counter') : Listed counter' item := by
  obtain ⟨slug, now, k, hid, hk⟩ := h.counted
  exact ⟨h.id, h.name, slug, now, k, hid, hk.trans hle⟩

structure Keyed (m : Manager) : Prop where
  nodup : (Dict.keys m.sessions).Nodup
  listed : ∀ item ∈ m.sessions, Listed m.counter item

variable {S : Setup} {m : Manager} {id : String} {session : Session} {a : CloseAnswers}
  {call : OpenCall} {name : String} {now : DateTime} {cs : Containers} {spec : SandboxSpec}

theorem name_inj {id' : String} (h : NAME_PREFIX ++ id = NAME_PREFIX ++ id') : id = id' := by
  have hchars := congrArg String.toList h
  rw [String.toList_append, String.toList_append] at hchars
  exact String.toList_inj.mp (List.append_cancel_left hchars)

namespace Keyed

theorem listed_of_lookup (h : Keyed m) (hl : m.sessions.lookup id = some session) :
    Listed m.counter (id, session) :=
  h.listed _ (Dict.mem_of_lookup hl)

theorem lookup_of_mem (h : Keyed m) {item : String × Session} (hmem : item ∈ m.sessions) :
    m.sessions.lookup item.1 = some item.2 :=
  Dict.lookup_eq_of_mem h.nodup hmem

/-- The number of the next session is that of none. -/
theorem fresh (h : Keyed m) (slug : String) (now : DateTime) :
    ∀ item ∈ m.sessions, item.1 ≠ sessionId slug now (m.counter + 1) := by
  intro item hitem heq
  obtain ⟨slug', now', k, hid, hk⟩ := (h.listed item hitem).counted
  have := sessionId_inj (hid.symm.trans heq)
  omega

theorem nodup_expired (h : Keyed m) : (m.expired now).Nodup := by
  have hids : (m.sessions.map (·.2)).map Session.id = Dict.keys m.sessions := by
    rw [List.map_map]
    exact List.map_congr_left fun item hitem => (h.listed item hitem).id
  have hsub : (m.expired now).Sublist (Dict.keys m.sessions) := by
    rw [← hids]
    exact List.filter_sublist.map _
  exact h.nodup.sublist hsub

theorem pop (h : Keyed m) (cs : Containers) :
    Keyed { m with sessions := Dict.pop id m.sessions, containers := cs } where
  nodup := h.nodup.sublist (List.filter_sublist.map _)
  listed item hitem := h.listed item (List.mem_of_mem_filter hitem)

/-- A container that is listed is that of the session its name says. -/
theorem eq_of_name (h : Keyed m) {item : String × Session} (hmem : item ∈ m.sessions)
    (hl : m.sessions.lookup id = some session) (hname : item.2.handle.name = session.handle.name) :
    item.1 = id :=
  name_inj (((h.listed item hmem).name.symm.trans hname).trans (h.listed_of_lookup hl).name)

end Keyed

/-! ## Closing -/

theorem Driver.destroy_lookup_of_ne {handle : SandboxHandle} (a : CloseAnswers) (cs : Containers)
    (hne : name ≠ handle.name) :
    (Driver.destroy handle a cs).1.lookup name = cs.lookup name := by
  unfold Driver.destroy
  cases a.stop <;> cases a.remove <;>
    simp only [Api.stop, Api.remove, Api.called, Dict.lookup_pop, if_neg hne] <;>
    split_ifs <;> simp only [Dict.lookup_set, if_neg hne]

theorem Driver.destroy_lookup {handle : SandboxHandle} (h : cs.lookup handle.name = some true) :
    ((Driver.destroy handle a cs).1.lookup handle.name).isSome ↔
      ¬ (a.stop = .done ∧ a.remove ≠ .failed) := by
  unfold Driver.destroy
  cases a.stop <;> cases a.remove <;>
    simp [Api.stop, Api.remove, Api.called, Dict.lookup_pop, Dict.lookup_set, h]

theorem Driver.destroy_ok (handle : SandboxHandle) (a : CloseAnswers) (cs : Containers) :
    (Driver.destroy handle a cs).2 = .ok () ↔ a.stop = .done ∧ a.remove = .done := by
  unfold Driver.destroy
  cases a.stop <;> cases a.remove <;> simp [Api.stop, Api.remove, Api.called]

/-- What a close does to a session that is listed: its container is removed or left, and no other
    container is touched. -/
theorem Manager.close_spec (hl : m.sessions.lookup id = some session) :
    ∃ cs result, m.close id a =
        ({ m with sessions := Dict.pop id m.sessions, containers := cs }, result) ∧
      (∀ name, name ≠ session.handle.name → cs.lookup name = m.containers.lookup name) ∧
      ((cs.lookup session.handle.name).isSome ↔
        ∃ running ∈ m.containers.lookup session.handle.name, ¬ a.Removes running) ∧
      (result = .ok () ↔ m.Returns id a) := by
  have hreturns : m.Returns id a ↔ a.inspect = .done ∧ a.treeRaises = false ∧
      (m.containers.lookup session.handle.name = some true →
        a.stop = .done ∧ a.remove = .done) := by
    simp [Returns, hl]
  have hremoves (running : Bool) : a.Removes running ↔ running = true ∧ a.inspect = .done ∧
      a.stop = .done ∧ a.remove ≠ .failed := Iff.rfl
  by_cases hi : a.inspect = .done
  · cases hc : m.containers.lookup session.handle.name with
    | none =>
      refine ⟨m.containers, if a.treeRaises then .error .disk else .ok (), ?_, fun _ _ => rfl,
        ?_, ?_⟩
      · simp [close, hl, Driver.alive, Api.inspect, hi, hc]
      · simp [hc]
      · rw [hreturns]
        cases a.treeRaises <;> simp [hi, hc]
    | some running =>
      cases running with
      | false =>
        refine ⟨m.containers, if a.treeRaises then .error .disk else .ok (), ?_, fun _ _ => rfl,
          ?_, ?_⟩
        · simp [close, hl, Driver.alive, Api.inspect, hi, hc]
        · simp [hc, hremoves]
        · rw [hreturns]
          cases a.treeRaises <;> simp [hi, hc]
      | true =>
        have hne (name : String) (hname : name ≠ session.handle.name) :=
          Driver.destroy_lookup_of_ne a m.containers hname
        have hown := Driver.destroy_lookup (a := a) hc
        have hok := Driver.destroy_ok session.handle a m.containers
        cases hd : Driver.destroy session.handle a m.containers with
        | mk cs result =>
          rw [hd] at hne hown hok
          have hclose : m.close id a =
              ({ m with sessions := Dict.pop id m.sessions, containers := cs },
                match result with
                | .error e => .error (.runtime e)
                | .ok () => if a.treeRaises then .error .disk else .ok ()) := by
            simp only [close, hl, Driver.alive, Api.inspect, hi, hc, decide_true, hd]
            cases result <;> rfl
          refine ⟨cs, _, hclose, hne, ?_, ?_⟩
          · simp [hown, hremoves, hi]
          · rw [hreturns]
            cases result with
            | error e =>
              have hbad : ¬ (a.stop = .done ∧ a.remove = .done) := fun h => nomatch hok.mpr h
              simp [hbad, hc]
            | ok _ =>
              have hgood := hok.mp rfl
              cases a.treeRaises <;> simp [hi, hgood]
  · refine ⟨m.containers, .error (.runtime .container), ?_, fun _ _ => rfl, ?_, ?_⟩
    · cases hinspect : a.inspect with
      | done => exact absurd hinspect hi
      | failed => simp only [close, hl, Driver.alive, Api.inspect, hinspect]
      | lost => simp only [close, hl, Driver.alive, Api.inspect, hinspect]
    · simp [hremoves, hi, Option.isSome_iff_exists]
    · simp [hreturns, hi]

namespace Manager

theorem close_of_not_listed (hl : m.sessions.lookup id = none) : m.close id a = (m, .ok ()) := by
  simp only [close, hl]

theorem keyed_close (h : Keyed m) : Keyed (m.close id a).1 := by
  cases hl : m.sessions.lookup id with
  | none => rwa [close_of_not_listed hl]
  | some session =>
    obtain ⟨cs, result, hclose, -⟩ := close_spec hl (a := a)
    rw [hclose]
    exact h.pop cs

theorem frees_of_not_listed (hl : m.sessions.lookup id = none) : m.Frees id a := by
  simp [Frees, hl]

/-- **One close**: nothing is untracked after it exactly if nothing was before, and the session's
    container is removed. -/
theorem tracked_close (h : Keyed m) :
    (m.close id a).1.Tracked ↔ m.Tracked ∧ m.Frees id a := by
  cases hl : m.sessions.lookup id with
  | none => simp [close_of_not_listed hl, frees_of_not_listed hl]
  | some session =>
    obtain ⟨cs, result, hclose, hne, hown, -⟩ := close_spec hl (a := a)
    have hfrees : m.Frees id a ↔ session.handle.name ∉ Dict.keys cs := by
      rw [← Dict.lookup_isSome_iff, hown]
      simp [Frees, hl]
    rw [hclose, hfrees]
    constructor
    · intro htracked
      refine ⟨fun name hname => ?_, fun hleft => ?_⟩
      · by_cases heq : name = session.handle.name
        · exact ⟨_, Dict.mem_of_lookup hl, heq.symm⟩
        · have hafter : name ∈ Dict.keys cs := by
            rwa [← Dict.lookup_isSome_iff, hne name heq, Dict.lookup_isSome_iff]
          obtain ⟨item, hitem, hn⟩ := htracked name hafter
          exact ⟨item, List.mem_of_mem_filter hitem, hn⟩
      · obtain ⟨item, hitem, hn⟩ := htracked _ hleft
        have hid := h.eq_of_name (List.mem_of_mem_filter hitem) hl hn
        exact absurd hid (by simpa using List.of_mem_filter hitem)
    · rintro ⟨htracked, hgone⟩ name hname
      have heq : name ≠ session.handle.name := fun heq => hgone (heq ▸ hname)
      have hbefore : name ∈ Dict.keys m.containers := by
        rwa [← Dict.lookup_isSome_iff, ← hne name heq, Dict.lookup_isSome_iff]
      obtain ⟨item, hitem, hn⟩ := htracked name hbefore
      refine ⟨item, List.mem_filter.mpr ⟨hitem, ?_⟩, hn⟩
      have hid : item.1 ≠ id := by
        rintro rfl
        have hsame := (h.lookup_of_mem hitem).symm.trans hl
        exact heq (hn.symm.trans (congrArg (·.handle.name) (Option.some.inj hsame)))
      simpa using hid

variable {answers : String → CloseAnswers} {ids : List String}

/-- Closing a session leaves another one, and its container, as they are. -/
theorem close_others (h : Keyed m) {j : String} (hj : j ≠ id) :
    (m.close id a).1.sessions.lookup j = m.sessions.lookup j ∧
      ∀ other ∈ m.sessions.lookup j, (m.close id a).1.containers.lookup other.handle.name =
        m.containers.lookup other.handle.name := by
  cases hl : m.sessions.lookup id with
  | none => simp [close_of_not_listed hl]
  | some session =>
    obtain ⟨cs, result, hclose, hne, -⟩ := close_spec hl (a := a)
    rw [hclose]
    refine ⟨by rw [Dict.lookup_pop, if_neg hj], fun other hother => hne _ fun heq => hj ?_⟩
    exact h.eq_of_name (Dict.mem_of_lookup hother) hl heq

theorem frees_close (h : Keyed m) {j : String} (hj : j ≠ id) {b : CloseAnswers} :
    (m.close id a).1.Frees j b ↔ m.Frees j b := by
  obtain ⟨hlisted, hsame⟩ := close_others h hj (a := a)
  rw [Frees, hlisted]
  exact forall₂_congr fun other hother => by rw [hsame other hother]

theorem returns_close (h : Keyed m) {j : String} (hj : j ≠ id) {b : CloseAnswers} :
    (m.close id a).1.Returns j b ↔ m.Returns j b := by
  obtain ⟨hlisted, hsame⟩ := close_others h hj (a := a)
  rw [Returns, hlisted]
  exact forall₂_congr fun other hother => by rw [hsame other hother]

theorem freesAll_close (h : Keyed m) (hid : id ∉ ids) :
    (m.close id a).1.FreesAll answers ids ↔ m.FreesAll answers ids := by
  induction ids with
  | nil => exact Iff.rfl
  | cons j ids ih =>
    obtain ⟨hj, hids⟩ := not_or.mp (List.mem_cons.not.mp hid)
    simp only [FreesAll, frees_close h (Ne.symm hj), returns_close h (Ne.symm hj), ih hids]

theorem close_ok_iff : (m.close id a).2 = .ok () ↔ m.Returns id a := by
  cases hl : m.sessions.lookup id with
  | none => simp [close_of_not_listed hl, Returns, hl]
  | some session =>
    obtain ⟨cs, result, hclose, -, -, hok⟩ := close_spec hl (a := a)
    rw [hclose, ← hok]

theorem closeAll_of_returns (h : m.Returns id (answers id)) :
    closeAll answers (id :: ids) m = closeAll answers ids (m.close id (answers id)).1 := by
  have hok := close_ok_iff.mpr h
  rw [closeAll]
  cases hc : m.close id (answers id) with
  | mk m' result =>
    rw [hc] at hok
    cases hok
    rfl

theorem closeAll_of_raises (h : ¬ m.Returns id (answers id)) :
    (closeAll answers (id :: ids) m).1 = (m.close id (answers id)).1 := by
  have hok := close_ok_iff.not.mpr h
  rw [closeAll]
  cases hc : m.close id (answers id) with
  | mk m' result =>
    rw [hc] at hok
    cases result with
    | error e => rfl
    | ok _ => exact absurd rfl hok

theorem keyed_closeAll (h : Keyed m) : Keyed (closeAll answers ids m).1 := by
  induction ids generalizing m with
  | nil => exact h
  | cons id ids ih =>
    by_cases hr : m.Returns id (answers id)
    · rw [closeAll_of_returns hr]
      exact ih (keyed_close h)
    · rw [closeAll_of_raises hr]
      exact keyed_close h

/-- **Closing one after another**, until one raises. -/
theorem tracked_closeAll (h : Keyed m) (hids : ids.Nodup) :
    (closeAll answers ids m).1.Tracked ↔ m.Tracked ∧ m.FreesAll answers ids := by
  induction ids generalizing m with
  | nil => simp [closeAll, FreesAll]
  | cons id ids ih =>
    obtain ⟨hid, hids⟩ := List.nodup_cons.mp hids
    rw [FreesAll]
    by_cases hr : m.Returns id (answers id)
    · rw [closeAll_of_returns hr, ih (keyed_close h) hids, tracked_close h, freesAll_close h hid]
      simp only [hr, true_implies, and_assoc]
    · rw [closeAll_of_raises hr, tracked_close h]
      simp only [hr, false_implies, and_true]

/-! ## Commands -/

variable {argv : List String} {command : Except ApiError ExecResult}

/-- A command leaves the manager as it is or renews the session; one that comes too late closes
    it. -/
theorem exec_cases (m : Manager) (id : String) (argv : List String) (now : DateTime)
    (a : CloseAnswers) (command : Except ApiError ExecResult) :
    ((∃ session ∈ m.sessions.lookup id, session.expiresAt ≤ now) ∧
      (m.exec id argv now a command).1 = (m.close id a).1) ∨
    ((∀ session ∈ m.sessions.lookup id, ¬ session.expiresAt ≤ now) ∧
      ((m.exec id argv now a command).1 = m ∨
        (m.exec id argv now a command).1 = m.renew id now)) := by
  cases hl : m.sessions.lookup id with
  | none => exact Or.inr ⟨by simp, Or.inl (by simp only [exec, letIn, hl])⟩
  | some session =>
    by_cases hlate : session.expiresAt ≤ now
    · refine Or.inl ⟨⟨session, rfl, hlate⟩, ?_⟩
      simp only [exec, letIn, hl, hlate, if_true]
      cases hc : m.close id a with
      | mk m' result => cases result <;> rfl
    · refine Or.inr ⟨by simpa using hlate, ?_⟩
      by_cases hargv : argv = []
      · exact Or.inl (by simp only [exec, letIn, hl, hlate, hargv, if_true, if_false])
      · cases command with
        | error e => exact Or.inl (by simp only [exec, letIn, hl, hlate, hargv, if_false])
        | ok result => exact Or.inr (by simp only [exec, letIn, hl, hlate, hargv, if_false])

theorem keyed_renew (h : Keyed m) : Keyed (m.renew id now) := by
  cases hl : m.sessions.lookup id with
  | none => simpa only [renew, hl] using h
  | some session =>
    simp only [renew, hl]
    refine ⟨Dict.nodup_keys_set h.nodup, fun item hitem => ?_⟩
    rcases Dict.mem_set hitem with rfl | hold
    · obtain ⟨hid, hname, hcounted⟩ := h.listed_of_lookup hl
      exact ⟨hid, hname, hcounted⟩
    · exact h.listed item hold

theorem keyed_exec (h : Keyed m) : Keyed (m.exec id argv now a command).1 := by
  rcases exec_cases m id argv now a command with ⟨-, hexec⟩ | ⟨-, hexec | hexec⟩
  · rw [hexec]
    exact keyed_close h
  · rwa [hexec]
  · rw [hexec]
    exact keyed_renew h

/-- The container of each is that of a session under some id. -/
theorem tracked_iff_lookup (h : Keyed m) :
    m.Tracked ↔ ∀ name ∈ Dict.keys m.containers,
      ∃ id, ∃ session ∈ m.sessions.lookup id, session.handle.name = name := by
  refine forall₂_congr fun name _ => ⟨?_, ?_⟩
  · rintro ⟨item, hitem, hn⟩
    exact ⟨item.1, item.2, h.lookup_of_mem hitem, hn⟩
  · rintro ⟨id, session, hl, hn⟩
    exact ⟨_, Dict.mem_of_lookup hl, hn⟩

theorem tracked_renew (h : Keyed m) : (m.renew id now).Tracked ↔ m.Tracked := by
  rw [tracked_iff_lookup h, tracked_iff_lookup (keyed_renew h)]
  cases hl : m.sessions.lookup id with
  | none => simp only [renew, hl]
  | some session =>
    simp only [renew, hl, Dict.lookup_set]
    refine forall₂_congr fun name _ => exists_congr fun j => ?_
    split_ifs with hj
    · subst hj
      simp [hl, Session.renewed]
    · exact Iff.rfl

/-- **One command.** -/
theorem tracked_exec (h : Keyed m) :
    (m.exec id argv now a command).1.Tracked ↔
      m.Tracked ∧ ∀ session ∈ m.sessions.lookup id, session.expiresAt ≤ now → m.Frees id a := by
  rcases exec_cases m id argv now a command with ⟨⟨session, hl, hlate⟩, hexec⟩ | ⟨hlive, hexec⟩
  · rw [hexec, tracked_close h]
    refine and_congr_right fun _ => ⟨fun hfrees _ _ _ => hfrees, fun hfrees => ?_⟩
    exact hfrees session hl hlate
  · have hnone : ∀ session ∈ m.sessions.lookup id, session.expiresAt ≤ now → m.Frees id a :=
      fun session hl hlate => absurd hlate (hlive session hl)
    rw [and_iff_left hnone]
    rcases hexec with hexec | hexec
    · rw [hexec]
    · rw [hexec]
      exact tracked_renew h

/-! ## Opening -/

/-- Where `open` gets as far as the runtime, its id is of the number it has counted. -/
theorem prepare_spec {counter : Nat} {result : Except Raised (String × SandboxSpec × String)}
    (h : m.prepare S call = (counter, result)) :
    m.counter ≤ counter ∧ ∀ asked, result = .ok asked →
      counter = m.counter + 1 ∧ asked.1 = sessionId call.slug call.now counter ∧
      asked.2.1.name = NAME_PREFIX ++ asked.1 := by
  simp only [prepare] at h
  split at h
  · cases h
    exact ⟨le_rfl, fun _ hok => nomatch hok⟩
  split at h
  · cases h
    exact ⟨le_rfl, fun _ hok => nomatch hok⟩
  split at h
  · cases h
    exact ⟨le_rfl, fun _ hok => nomatch hok⟩
  split at h
  · cases h
    exact ⟨Nat.le_succ _, fun _ hok => nomatch hok⟩
  split at h
  · cases h
    exact ⟨Nat.le_succ _, fun _ hok => nomatch hok⟩
  · cases h
    refine ⟨Nat.le_succ _, fun asked hok => ?_⟩
    cases hok
    exact ⟨rfl, rfl, rfl⟩

end Manager

section Create

variable {b : CreateAnswers}

/-- `create` by its answers, of a name that is free. -/
theorem Driver.create_of_free (hfree : cs.lookup spec.name = none) :
    Driver.create spec b cs =
      if b.bodyRaises then (cs, .error .other)
      else
        let made := Dict.set spec.name false cs
        let removed := fun cs => ((Api.remove spec.name b.remove cs).1, .error .container)
        match b.create with
        | .failed => removed cs
        | .lost => removed made
        | .done =>
          if b.unreadable then (made, .error .other)
          else
            let started := Dict.set spec.name true made
            match b.start with
            | .failed => removed made
            | .lost => removed started
            | .done => (started, .ok ⟨if b.id = "" then spec.name else b.id, spec⟩) := by
  have hmade : ((Dict.set spec.name false cs).lookup spec.name).isSome = true := by
    simp [Dict.lookup_set]
  unfold Driver.create
  cases b.bodyRaises with
  | true => rfl
  | false =>
    simp only [Api.create, hfree, Option.isSome_none, Bool.false_eq_true, if_false]
    cases b.create with
    | failed => rfl
    | lost => rfl
    | done =>
      cases b.unreadable with
      | true => rfl
      | false =>
        simp only [Api.called, Api.start, hmade, if_true, Bool.false_eq_true, if_false]
        cases b.start <;> rfl

theorem Api.remove_lookup {answer : Answer} {other : String} :
    (Api.remove name answer cs).1.lookup other =
      if answer ≠ .failed ∧ other = name then none else cs.lookup other := by
  cases answer <;> simp [Api.remove, Api.called, Dict.lookup_pop]

theorem Driver.create_lookup_of_ne (hfree : cs.lookup spec.name = none) (hne : name ≠ spec.name) :
    (Driver.create spec b cs).1.lookup name = cs.lookup name := by
  rw [Driver.create_of_free hfree]
  cases b.bodyRaises <;> cases b.create <;> cases b.unreadable <;> cases b.start <;>
    simp [Api.remove_lookup, Dict.lookup_set, hne]

/-- The handle that is returned is of the spec. -/
theorem Driver.create_spec {handle : SandboxHandle} (h : (Driver.create spec b cs).2 = .ok handle) :
    handle.spec = spec := by
  unfold Driver.create at h
  split at h
  · cases h
  split at h
  · cases h
  split at h
  · cases h
  split at h
  · cases h
  · cases h
    rfl

/-- A container of a name that is free is left by a `create` that raises exactly if the answers
    say so. -/
theorem Driver.create_leaves (hfree : cs.lookup spec.name = none) :
    b.Leaves ↔ (∃ e, (Driver.create spec b cs).2 = .error e) ∧
      ((Driver.create spec b cs).1.lookup spec.name).isSome := by
  rw [Driver.create_of_free hfree, CreateAnswers.Leaves]
  cases hbody : b.bodyRaises <;> cases hcreate : b.create <;> cases hread : b.unreadable <;>
    cases hstart : b.start <;> simp [Api.remove_lookup, Dict.lookup_set, hfree]

end Create

namespace Manager

/-- What an `open` does that gets as far as the runtime. -/
theorem open_spec {counter : Nat} {asked : String × SandboxSpec × String}
    (hp : m.prepare S call = (counter, .ok asked)) :
    (m.open_ S call).1.counter = counter ∧
      (m.open_ S call).1.containers = (Driver.create asked.2.1 call.answers m.containers).1 ∧
      match (Driver.create asked.2.1 call.answers m.containers).2 with
      | .error _ => (m.open_ S call).1.sessions = m.sessions
      | .ok handle => ∃ session : Session, session.id = asked.1 ∧ session.handle = handle ∧
          (m.open_ S call).1.sessions = Dict.set asked.1 session m.sessions := by
  obtain ⟨id, spec, sentence⟩ := asked
  simp only [open_, hp]
  cases hc : Driver.create spec call.answers m.containers with
  | mk cs result =>
    cases result with
    | error e => exact ⟨rfl, rfl, rfl⟩
    | ok handle => exact ⟨rfl, rfl, _, rfl, rfl, rfl⟩

theorem open_of_refused {counter : Nat} {e : Raised} (hp : m.prepare S call = (counter, .error e)) :
    (m.open_ S call).1 = { m with counter := counter } := by
  simp only [open_, hp]

/-- The name that an `open` asks for is that of no container, where each container is tracked. -/
theorem free_of_tracked (h : Keyed m) (ht : m.Tracked) {counter : Nat}
    {asked : String × SandboxSpec × String} (hp : m.prepare S call = (counter, .ok asked)) :
    m.containers.lookup asked.2.1.name = none := by
  obtain ⟨hcounter, hid, hname⟩ := (prepare_spec hp).2 asked rfl
  rw [← Option.not_isSome_iff_eq_none, Dict.lookup_isSome_iff]
  intro hmem
  obtain ⟨item, hitem, hn⟩ := ht _ hmem
  have hsame : item.1 = asked.1 := name_inj ((h.listed item hitem).name.symm.trans (hn.trans hname))
  refine h.fresh call.slug call.now item hitem ?_
  rw [hsame, hid, hcounter]

theorem keyed_open (h : Keyed m) : Keyed (m.open_ S call).1 := by
  rcases hp : m.prepare S call with ⟨counter, e | asked⟩
  · rw [open_of_refused hp]
    exact ⟨h.nodup, fun item hitem => (h.listed item hitem).mono (prepare_spec hp).1⟩
  · obtain ⟨hcounter, hid, hname⟩ := (prepare_spec hp).2 asked rfl
    obtain ⟨hc, -, hsessions⟩ := open_spec hp
    have hold : ∀ item ∈ m.sessions, Listed counter item :=
      fun item hitem => (h.listed item hitem).mono (prepare_spec hp).1
    cases hd : (Driver.create asked.2.1 call.answers m.containers).2 with
    | error e =>
      rw [hd] at hsessions
      simp only at hsessions
      exact ⟨hsessions ▸ h.nodup, fun item hitem => hc ▸ hold item (hsessions ▸ hitem)⟩
    | ok handle =>
      rw [hd] at hsessions
      obtain ⟨session, hsid, hhandle, hset⟩ := hsessions
      refine ⟨hset ▸ Dict.nodup_keys_set h.nodup, fun item hitem => ?_⟩
      rw [hc]
      rw [hset] at hitem
      rcases Dict.mem_set hitem with rfl | hitem
      · refine ⟨hsid, ?_, call.slug, call.now, counter, hid, le_rfl⟩
        rw [SandboxHandle.name, hhandle, Driver.create_spec hd, hname]
      · exact hold item hitem

/-- **One opening.** -/
theorem tracked_open (h : Keyed m) (ht : m.Tracked) :
    (m.open_ S call).1.Tracked ↔ m.Cleans S (.open_ call) := by
  rcases hp : m.prepare S call with ⟨counter, e | asked⟩
  · rw [open_of_refused hp]
    exact iff_of_true ht (by simp [Cleans, hp])
  · have hcleans : m.Cleans S (.open_ call) ↔ ¬ call.answers.Leaves := by
      simp [Cleans, hp]
    have hfree := free_of_tracked h ht hp
    obtain ⟨hcounter, hid, hname⟩ := (prepare_spec hp).2 asked rfl
    obtain ⟨-, hcontainers, hsessions⟩ := open_spec hp
    rw [hcleans, Driver.create_leaves hfree]
    have hothers : ∀ name ∈ Dict.keys (m.open_ S call).1.containers, name ≠ asked.2.1.name →
        name ∈ Dict.keys m.containers := by
      intro name hmem hne
      rwa [hcontainers, ← Dict.lookup_isSome_iff, Driver.create_lookup_of_ne hfree hne,
        Dict.lookup_isSome_iff] at hmem
    cases hd : (Driver.create asked.2.1 call.answers m.containers).2 with
    | error e =>
      rw [hd] at hsessions
      simp only at hsessions
      simp only [exists_eq', Except.error.injEq, true_and, Dict.lookup_isSome_iff, ← hcontainers]
      constructor
      · intro htracked hleft
        obtain ⟨item, hitem, hn⟩ := htracked _ hleft
        rw [hsessions] at hitem
        have hsame : item.1 = asked.1 :=
          name_inj ((h.listed item hitem).name.symm.trans (hn.trans hname))
        refine h.fresh call.slug call.now item hitem ?_
        rw [hsame, hid, hcounter]
      · intro hgone name hmem
        rw [hsessions]
        exact ht name (hothers name hmem fun heq => hgone (heq ▸ hmem))
    | ok handle =>
      rw [hd] at hsessions
      obtain ⟨session, hsid, hhandle, hset⟩ := hsessions
      refine iff_of_true (fun name hmem => ?_) (fun hleaves => nomatch hleaves.1)
      rw [hset]
      by_cases hne : name = asked.2.1.name
      · refine ⟨(asked.1, session), Dict.mem_of_lookup (by rw [Dict.lookup_set, if_pos rfl]), ?_⟩
        rw [SandboxHandle.name, hhandle, Driver.create_spec hd, hne]
      · obtain ⟨item, hitem, hn⟩ := ht name (hothers name hmem hne)
        have hold : item.1 ≠ asked.1 := by
          rw [hid, hcounter]
          exact h.fresh call.slug call.now item hitem
        refine ⟨item, Dict.mem_of_lookup ?_, hn⟩
        rw [Dict.lookup_set, if_neg hold, h.lookup_of_mem hitem]

/-! ## Runs -/

/-- The manager as it starts. -/
def initial (runsc : Bool) : Manager := { runscAvailable := runsc }

theorem keyed_initial (runsc : Bool) : Keyed (initial runsc) :=
  ⟨List.nodup_nil, fun _ h => nomatch h⟩

theorem reap_fst {answers : String → CloseAnswers} :
    (m.reap now answers).1 = (closeAll answers (m.expired now) m).1 := by
  rw [reap]
  cases hc : closeAll answers (m.expired now) m with
  | mk m' result => cases result <;> rfl

theorem keyed_step (e : Event) (h : Keyed m) : Keyed (m.step S e) := by
  cases e with
  | open_ call => exact keyed_open h
  | exec id argv now a command => exact keyed_exec h
  | close id a => exact keyed_close h
  | reap now answers =>
    rw [step, reap_fst]
    exact keyed_closeAll h
  | probe runsc kata => exact ⟨h.nodup, h.listed⟩
  | ends name =>
    rw [step]
    split_ifs
    · exact ⟨h.nodup, h.listed⟩
    · exact h

theorem tracked_step (e : Event) (h : Keyed m) (ht : m.Tracked) :
    (m.step S e).Tracked ↔ m.Cleans S e := by
  cases e with
  | open_ call => exact tracked_open h ht
  | exec id argv now a command => exact (tracked_exec h).trans (and_iff_right ht)
  | close id a => exact (tracked_close h).trans (and_iff_right ht)
  | reap now answers =>
    rw [step, reap_fst]
    exact (tracked_closeAll h h.nodup_expired).trans (and_iff_right ht)
  | probe runsc kata => exact iff_of_true ht trivial
  | ends name =>
    refine iff_of_true ?_ trivial
    rw [step]
    split_ifs with hthere
    · intro other hmem
      rcases Dict.mem_keys_set.mp hmem with rfl | hmem
      · exact ht _ (Dict.lookup_isSome_iff.mp hthere)
      · exact ht _ hmem
    · exact ht

/-- **No untracked sandbox**: throughout a run every container is that of a session that is
    listed, exactly if no `create` that raises leaves its container behind, and each session that
    is closed has its container removed. -/
theorem tracked_iff (S : Setup) (runsc : Bool) (es : List Event) :
    Runs.Throughout (step S) Tracked (initial runsc) es ↔
      Runs.Meets (step S) (Cleans S) (initial runsc) es :=
  Runs.throughout_iff_of_invariant (I := Keyed) (fun _ e h _ => keyed_step e h)
    (fun _ e h ht => tracked_step e h ht) (keyed_initial runsc) (fun _ h => nomatch h)

end Manager

/-- The quickstart profile, with the data root as compose mounts it. -/
def quickstart : Setup where
  lower s := String.ofList (s.toList.map Char.toLower)
  dataRoot := .ofText "/data"

-- The runtime answers every call but the stop of the container, when its session is closed.
private def busy : List Event :=
  [.open_ { user := "ada", slug := "demo", image := "local/slas/sandbox-python:3.12",
            language := "python", now := 0 },
    .close "demo-00000301000000-1" { stop := .failed }]

/-- After a stop that raises, the container of the session is that of none. -/
theorem untracked_sandbox :
    ¬ Runs.Throughout (Manager.step quickstart) Manager.Tracked (Manager.initial true) busy := by
  intro h
  have hend : ((Runs.run (Manager.step quickstart) (Manager.initial true) busy).sessions.length,
      Dict.keys (Runs.run (Manager.step quickstart) (Manager.initial true) busy).containers) =
        (0, ["slas-sbx-demo-00000301000000-1"]) := by
    decide +kernel
  obtain ⟨hsessions, hleft⟩ := Prod.mk.inj hend
  obtain ⟨item, hitem, -⟩ := h.last "slas-sbx-demo-00000301000000-1" (by simp [hleft])
  exact absurd (List.length_pos_of_mem hitem) (by rw [hsessions]; decide)

end Sandbox

end Slas
