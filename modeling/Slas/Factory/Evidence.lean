/-
  Slas.Factory.Evidence

  PASS by voters.  Whatever steps a ticket was sent before, a PASS has a result that
  is PASS, no recorded sensor problem, no recorded event log line, and at least
  three approvals of a panel that agreed.  That the sensors were reported and the
  event log was read is no part of the gate: a PASS is supported by evidence exactly
  when the steps before it recorded both.
-/

import Slas.Factory.Frame

namespace Slas

open Crash

/-- A number, and not a truth value. -/
def Reading.IsNumber : Reading → Prop
  | .int _ => True
  | .float _ => True
  | _ => False

instance : DecidablePred Reading.IsNumber
  | .int _ => .isTrue trivial
  | .float _ => .isTrue trivial
  | .bool _ => .isFalse id
  | .other _ => .isFalse id

theorem Reading.IsNumber.isNumeric {reading : Reading} (h : reading.IsNumber) :
    reading.isNumeric = true := by
  cases reading with
  | other value => cases h
  | _ => rfl

namespace FactoryExecutor

variable (X : FactoryExecutor)

/-! ## What a PASS should rest on -/

/-- A PASS with its evidence: the result is PASS, every sensor named in the limits is
    a number within its limit, the event log was read and is empty, and three voters
    of a panel that agreed approved. -/
structure Evident (p : Passed) : Prop where
  result : X.reportedResult p.state = "PASS"
  sensors : ∃ limits, p.state.sensorLimits = some limits ∧ ∀ limit ∈ limits, ∃ reading x,
    p.state.sensors.lookup limit.1 = some reading ∧ reading.IsNumber ∧
      X.number reading = .ok x ∧ x.le limit.2 = true
  eventLog : p.state.eventLogRead = true ∧ p.state.eventLog = []
  voters : p.agreed = true ∧ 3 ≤ p.approvals ∧ 3 ≤ p.votes

/-- What the gate does not look at: a reading of the sensors was recorded in which
    each sensor of its limits is a number, and the event log was read. -/
structure Reported (s : JobState) : Prop where
  sensors : ∃ limits, s.sensorLimits = some limits ∧ ∀ limit ∈ limits, limit.2 ≠ .nan ∧
    ∃ reading, s.sensors.lookup limit.1 = some reading ∧ reading.IsNumber ∧
      X.number reading ≠ .ok .nan
  eventLog : s.eventLogRead = true

/-- What every PASS has. -/
structure Gated (p : Passed) : Prop where
  consistent : X.Consistent p.state
  gate : X.gateReasons p.state = .ok []
  voters : p.agreed = true ∧ 3 ≤ p.approvals ∧ 3 ≤ p.votes

/-! ## The gate -/

variable {X} {s : JobState} {p : Passed}

theorem gateReasons_nil (h : X.gateReasons s = .ok []) :
    X.reportedResult s = "PASS" ∧ s.sensorProblems = [] ∧ s.eventLog = [] := by
  unfold gateReasons at h
  by_cases hpass : X.reportedResult s = "PASS"
  · rw [if_pos hpass] at h
    have hnil := Except.ok.inj h
    simp only [List.nil_append, List.append_eq_nil_iff] at hnil
    refine ⟨hpass, hnil.1, ?_⟩
    cases hlog : s.eventLog with
    | nil => rfl
    | cons line lines =>
      rw [hlog] at hnil
      cases hnil.2
  · rw [if_neg hpass] at h
    cases hfailed : X.failedTests s.result with
    | error e => rw [hfailed] at h; cases h
    | ok failed =>
      rw [hfailed] at h
      have hnil := Except.ok.inj h
      simp at hnil

/-- Without problems, no sensor reports a number above its limit. -/
theorem within_of_no_problems {data : Readings} {limits : Limits}
    (h : X.sensorProblems data limits = .ok []) {limit : String × FloatValue}
    (hlimit : limit ∈ limits) {reading : Reading} (hreading : data.lookup limit.1 = some reading)
    (hnumeric : reading.isNumeric = true) :
    ∃ x, X.number reading = .ok x ∧ x.gt limit.2 = false := by
  induction limits with
  | nil => cases hlimit
  | cons first rest ih =>
    unfold sensorProblems at h
    rw [List.mapM_cons] at h
    cases hfirst : X.sensorProblem data first with
    | error e => rw [hfirst] at h; cases h
    | ok problem =>
      cases hrest : rest.mapM (X.sensorProblem data) with
      | error e =>
        rw [hfirst, hrest] at h
        cases h
      | ok problems =>
        rw [hfirst, hrest] at h
        have hnil : (problem :: problems).filterMap id = [] := Except.ok.inj h
        have hnone : problem = none ∧ problems.filterMap id = [] := by
          cases problem with
          | none => exact ⟨rfl, by simpa using hnil⟩
          | some text => simp at hnil
        rcases List.mem_cons.mp hlimit with rfl | hmem
        · rw [sensorProblem, hreading] at hfirst
          simp only [hnumeric, if_true] at hfirst
          cases hnumber : X.number reading with
          | error e => rw [hnumber] at hfirst; cases hfirst
          | ok x =>
            rw [hnumber] at hfirst
            have hproblem := Except.ok.inj hfirst
            rw [hnone.1] at hproblem
            refine ⟨x, rfl, ?_⟩
            by_contra hgt
            simp [hgt] at hproblem
        · refine ih ?_ hmem
          rw [sensorProblems, hrest]
          exact congrArg Except.ok hnone.2

/-- What a PASS lacks is what the gate does not look at. -/
theorem Gated.evident_iff (h : X.Gated p) : X.Evident p ↔ X.Reported p.state := by
  obtain ⟨hresult, hproblems, hlog⟩ := gateReasons_nil h.gate
  constructor
  · intro hevident
    obtain ⟨limits, hlimits, hwithin⟩ := hevident.sensors
    refine ⟨⟨limits, hlimits, fun limit hlimit => ?_⟩, hevident.eventLog.1⟩
    obtain ⟨reading, x, hreading, hnumber, hx, hle⟩ := hwithin limit hlimit
    obtain ⟨hxnan, hlnan⟩ := FloatValue.ne_nan_of_le hle
    refine ⟨hlnan, reading, hreading, hnumber, ?_⟩
    rw [hx]
    exact fun heq => hxnan (Except.ok.inj heq)
  · intro hreported
    obtain ⟨limits, hlimits, hnumbers⟩ := hreported.sensors
    have hnone : X.sensorProblems p.state.sensors limits = .ok [] := by
      rw [h.consistent limits hlimits, hproblems]
    refine ⟨hresult, ⟨limits, hlimits, fun limit hlimit => ?_⟩, ⟨hreported.eventLog, hlog⟩, h.voters⟩
    obtain ⟨hlnan, reading, hreading, hnumber, hnan⟩ := hnumbers limit hlimit
    obtain ⟨x, hx, hgt⟩ := within_of_no_problems hnone hlimit hreading hnumber.isNumeric
    refine ⟨reading, x, hreading, hnumber, hx, ?_⟩
    exact (FloatValue.le_iff_not_gt (fun heq => hnan (heq ▸ hx)) hlnan).mpr hgt

/-! ## Over whole sessions -/

variable (X) in
/-- The records of every job agree, in memory and on disk, and every PASS is gated. -/
structure Grounded (memory files : String → Option JobState) (passes : List Passed) : Prop where
  memory : ∀ t s, memory t = some s → X.Consistent s
  files : ∀ t s, files t = some s → X.Consistent s
  passes : ∀ p ∈ passes, X.Gated p

variable (X) in
/-- The same of the plant. -/
abbrev GroundedPlant (w : Plant) : Prop := X.Grounded w.memory w.files w.passes

variable {w : Plant} {t : String}

theorem Grounded.stateFor (h : X.GroundedPlant w) (hs : w.stateFor t = some s) :
    X.Consistent s := by
  rcases Option.or_eq_some_iff.mp hs with hmemory | ⟨-, hfile⟩
  · exact h.memory t s hmemory
  · exact h.files t s hfile

theorem Grounded.remember (h : X.GroundedPlant w) (hs : X.Consistent s) :
    X.GroundedPlant (w.remember t s) := by
  refine ⟨fun t' s' hs' => ?_, h.files, h.passes⟩
  by_cases ht : t' = t
  · subst ht
    simp only [Plant.remember, Function.update_self, Option.some.injEq] at hs'
    exact hs' ▸ hs
  · simp only [Plant.remember, Function.update_of_ne ht] at hs'
    exact h.memory t' s' hs'

theorem Grounded.edit (h : X.GroundedPlant w) {f : JobState → JobState} (hf : X.Keeps f) :
    X.GroundedPlant (w.edit t f) := by
  refine ⟨fun t' s' hs' => ?_, h.files, h.passes⟩
  by_cases ht : t' = t
  · subst ht
    simp only [Plant.edit, Function.update_self, Option.map_eq_some_iff] at hs'
    obtain ⟨s, hs, rfl⟩ := hs'
    exact hf.consistent s (h.memory t' s hs)
  · simp only [Plant.edit, Function.update_of_ne ht] at hs'
    exact h.memory t' s' hs'

theorem Grounded.save (h : X.GroundedPlant w) : X.GroundedPlant (w.save t) := by
  refine ⟨h.memory, fun t' s' hs' => ?_, h.passes⟩
  by_cases ht : t' = t
  · subst ht
    simp only [Plant.save, Function.update_self] at hs'
    exact h.stateFor hs'
  · simp only [Plant.save, Function.update_of_ne ht] at hs'
    exact h.files t' s' hs'

theorem Grounded.decideInMemory (h : X.GroundedPlant w) (d : Decision)
    (hs : w.stateFor d.ticketId = some s) : X.GroundedPlant (X.decideInMemory d s w) := by
  have hdecided : X.Consistent (X.decided d s) := fun limits hlimits => h.stateFor hs limits hlimits
  exact h.remember hdecided

theorem Grounded.catchUp (h : X.GroundedPlant w) : X.GroundedPlant (X.catchUp w) := by
  unfold FactoryExecutor.catchUp
  generalize X.meanwhile w.ticks = decisions
  induction decisions generalizing w with
  | nil => exact h
  | cons d decisions ih =>
    apply ih
    unfold arrive
    split
    · exact h
    · exact Grounded.save (h.decideInMemory d ‹_›)

theorem grounded_edits : Edits X t X.GroundedPlant :=
  ⟨fun _ _ h hf => h.edit hf, fun _ h => h.save⟩

theorem grounded_sends (step : Step) (context : ExecutionContext) :
    Sends X step context X.GroundedPlant X.GroundedPlant where
  le _ h := h
  tickBefore _ h := h
  numbered _ h := h
  send _ _ h _ _ _ := Grounded.catchUp h
  tick _ h := h
  edit _ _ h hf := h.edit hf

theorem grounded_judges : Judges X t X.Consistent X.GroundedPlant where
  toEdits := grounded_edits
  known _ _ h hs := h.memory _ _ hs
  voters _ h := h.catchUp
  held _ _ _ h _ := h.edit ⟨fun _ => rfl, fun _ hs => hs⟩
  passed w s verdict h hs hgate hagreed happrovals hvotes := by
    have hedit : X.GroundedPlant (w.edit t (passedState verdict)) :=
      h.edit ⟨fun _ => rfl, fun _ hs => hs⟩
    refine ⟨hedit.memory, hedit.files, fun p hp => ?_⟩
    rcases List.mem_append.mp hp with hp | hp
    · exact hedit.passes p hp
    · obtain rfl := List.mem_singleton.mp hp
      exact ⟨hs, hgate, hagreed, happrovals, hvotes⟩

theorem execute_grounded (step : Step) (context : ExecutionContext) :
    Preserves X.GroundedPlant (X.execute step context) := by
  have henter : Enters X step context X.GroundedPlant :=
    { grounded_edits with
      reload := fun w s h hs => h.remember (h.stateFor hs)
      fresh := fun w station h _ _ => h.remember fun _ hlimits => by cases hlimits }
  refine execute_spec henter grounded_edits (fun _ h => h) ?_
  by_cases hlease : step.primitive = "lease_station"
  · simp only [handle, hlease]
    exact lease_spec (fun _ h => h) (fun _ _ _ _ h _ _ => h) (fun _ h => h) fun _ _ h hf => h.edit hf
  · by_cases hrelease : step.primitive = "release_station"
    · simp only [handle, hrelease]
      exact release_spec (fun _ _ h _ => h) fun _ _ h hf => h.edit hf
    · by_cases hverdict : step.primitive = "verdict"
      · simp only [handle, hverdict]
        exact grounded_judges.verdict
      · exact (grounded_sends step context).handle hlease hrelease hverdict

theorem request_grounded (r : FactoryRequest) : Preserves X.GroundedPlant (r.prog X) := by
  refine request_spec (P := X.GroundedPlant) (fun w h => ?_) ?_ fun _ h => h
  · unfold Plant.begin
    split
    · exact ⟨fun _ _ hs => (by cases hs), h.files, h.passes⟩
    · exact h
  · cases hcall : r.call with
    | execute step context valid =>
      exact Preserves.bind (execute_grounded step context) fun _ => Preserves.pure _
    | decide d =>
      exact decide_spec d (fun _ _ h hs => h.decideInMemory d hs) (fun _ h => h)
        (fun _ _ h => h) (fun _ h => h) fun _ h => h.save
    | control t verb by_ =>
      exact control_spec (fun _ h => h) (fun _ _ h hs => h.remember (h.stateFor hs))
        (fun w s batch h hs _ _ _ => Grounded.catchUp (h.remember (h.stateFor hs))) fun _ h => h

/-- The run lemma: every PASS of every session is gated. -/
theorem session_grounded (rs : List (FactoryRequest × Nat)) :
    X.GroundedPlant (session (FactoryRequest.prog X) {} rs) := by
  refine session_invariant ?_ (Starts.trivial _ rs) ?_
  · exact fun r w _ h => (request_grounded r.1).world_sat h r.2
  · exact ⟨fun _ _ hs => (by cases hs), fun _ _ hs => (by cases hs), fun _ hp => (by cases hp)⟩

/-- **PASS and its evidence**: in every sequence of requests, a PASS is supported by
    evidence exactly when the state of its job, as the verdict begins, records a
    reading of the sensors and of the event log. -/
theorem pass_evident_iff (rs : List (FactoryRequest × Nat)) (p : Passed)
    (hp : p ∈ (session (FactoryRequest.prog X) {} rs).passes) :
    X.Evident p ↔ X.Reported p.state :=
  ((session_grounded rs).passes p hp).evident_iff

end FactoryExecutor

/-! ### A line with one station -/

namespace FactoryLine

/-- SHA-256 of the batches of the demonstrations. -/
def digests : List (String × String) :=
  [("T-1|read-result|1", "8d9ec73d7c29495b8cba615045f6a80875e1330afe17d643ac757adbf34727df"),
   ("T-1|read-sensors|1", "8a0bbe78974eb1827569fb51133a90b28a3a3b3f486bcdfeabc326306b8c7183"),
   ("T-1|read-sensors|2", "dfc63878bdf3133675d4876f674233c6af61ee80f4ac6481f68e169e1a488908"),
   ("T-1|check-event-log|3", "0cf3c6e5f1330a129959fe7a7d40c828d3a0c1d7a1f748c06aa07845edc550ad")]

def noDigest : HexDigest := ⟨String.ofList (List.replicate 64 'f'), by decide +kernel⟩

def digest (text : String) : HexDigest :=
  ((digests.lookup text).bind fun s => if h : IsSha256 s then some ⟨s, h⟩ else none).getD noDigest

/-- What the programs of the station print. -/
def stdout : List String → String
  | ["burnin-result"] => "\x7b\"result\":\"PASS\"\x7d"
  | ["read-sensors"] => "\x7b\"cpu_temp_c\":41\x7d"
  | _ => ""

def runner : RunnerClient := fun _ signed => .ok
  { batchId := signed.batch.batchId, kind := signed.batch.kind, ok := true, sentence := "Done."
    command := some { exitCode := 0, stdout := stdout signed.batch.command } }

def readingOf : Json → Reading
  | .bool b => .bool b
  | .num d => (d.toInt?).elim (.float (.finite d)) .int
  | value => .other value

def textOf : Reading → String
  | .bool b => if b then "True" else "False"
  | .int i => toString i
  | .float _ => "a float"
  | .other (.str s) => s
  | .other value => String.ofList (Json.dump value)

def numberOf : Reading → Except String FloatValue
  | .bool b => .ok (.finite (.ofNat b.toNat))
  | .int i => .ok (.finite (.ofInt i))
  | .float x => .ok x
  | .other _ => .error "could not convert string to float"

/-- Three voters, who approve. -/
def votes : List Vote :=
  ["model-a", "model-b", "model-c"].filterMap fun voter =>
    if h : voter ≠ "" then some
      { voter, verdict := .approve, reason := "All checks passed.", confidence := .ofNat 1
        voter_ne := h, reason_ne := by decide, confidence_unit := by decide }
    else none

def executor (clock : Nat → DateTime) : FactoryExecutor where
  runners station := if station = "station-07" then some runner else none
  signing := { canonical := fun batch => batch.batchId, hmac := fun _ _ => noDigest }
  resolve _ := .ok "line-key"
  signingKeyRef := "factory-key"
  signingKeyId := "line"
  digest := digest
  clock := clock
  crossChecker := some fun _ _ _ =>
    .ok ({ votes, agreed := true, sentence := "3 of 3 voters agree." }, [])
  compiledFromStep _ := .ok none
  writeBackup _ _ _ _ := .error "no disk"
  fingerprint _ := ⟨String.ofList (List.replicate 64 'f'), by decide⟩
  str
    | .str s => s
    | value => String.ofList (Json.dump value)
  int
    | .num d => .ok ((d.toInt?).getD 0)
    | _ => .error "int() argument must be a string or a real number"
  float
    | .num d => .ok (.finite d)
    | _ => .error "could not convert string to float"
  dict
    | .obj fields => .ok fields
    | _ => .error "object is not a mapping"
  text := textOf
  number := numberOf
  entries
    | .other (.obj fields) => .ok (fields.map fun field => (field.1, readingOf field.2))
    | _ => .error "object is not a mapping"
  loads text :=
    match Json.loads text.toList with
    | some (.obj fields) => some (fields.map fun field => (field.1, readingOf field.2))
    | _ => none
  dumps readings := ", ".intercalate (readings.map fun r => r.1 ++ " " ++ textOf r.2)
  upper s := String.ofList (s.toList.map Char.toUpper)
  strip s := s
  splitlines s := if s = "" then [] else [s]
  general _ := "a limit"

def context (ticketId : String) : ExecutionContext :=
  { ticketId, jobId := "J-1", agent := .factory, user := "ana" }

def step (id primitive : String) (args : List (String × Json)) : Step :=
  { id, n := 1, primitive, title := primitive, args := ("station", .str "station-07") :: args }

/-- A step of a ticket. -/
def request (ticketId id primitive : String) (args : List (String × Json) := [])
    (valid : isStepId id = true ∧ 1 ≤ 1 ∧ primitive ≠ "" ∧
      primitive ≠ "" ∧ primitive.length ≤ 200 := by decide +kernel) : FactoryRequest × Nat :=
  ({ call := .execute (step id primitive args) (context ticketId) (if_pos valid) }, 100)

def readResult : FactoryRequest × Nat :=
  request "T-1" "read-result" "read_result" [("command", .arr [.str "burnin-result"])]

def readSensors : FactoryRequest × Nat :=
  request "T-1" "read-sensors" "read_sensors" [("command", .arr [.str "read-sensors"]),
    ("limits", .obj [("cpu_temp_c", .num (.ofNat 85))])]

def checkEventLog : FactoryRequest × Nat :=
  request "T-1" "check-event-log" "check_event_log" [("command", .arr [.str "event-log"])]

def verdict : FactoryRequest × Nat := request "T-1" "verdict" "verdict"

def leaseStation (ticketId : String) : FactoryRequest × Nat :=
  request ticketId "lease" "lease_station" [("unit_sn", .str "SN-1")]

/-- The request comes to a new process. -/
def again (r : FactoryRequest × Nat) : FactoryRequest × Nat := ({ r.1 with restarted := true }, r.2)

/-- The line lead decides on the ticket. -/
def decision (ticketId : String) : FactoryRequest × Nat :=
  ({ call := .decide { ticketId, verdict := .fail, by_ := "lin", note := "Rework."
                       decides := by decide } }, 100)

end FactoryLine

open FactoryLine

/-- Result, sensors and event log before the verdict; or the result alone. -/
def checkedRuns : List (FactoryRequest × Nat) := [readResult, readSensors, checkEventLog, verdict]

def uncheckedRuns : List (FactoryRequest × Nat) := [readResult, verdict]

/-- With every check performed, the PASS has its evidence. -/
theorem checked_pass_evident :
    ∃ p ∈ (session (FactoryRequest.prog (executor fun n => n)) {} checkedRuns).passes,
      (executor fun n => n).Evident p := by
  have hpass : (session (FactoryRequest.prog (executor fun n => n)) {} checkedRuns).passes.map
      (fun p => (p.state.eventLogRead, p.state.sensorLimits,
        (p.state.sensors.lookup "cpu_temp_c").map fun reading =>
          decide (reading.IsNumber ∧ (numberOf reading).toOption ≠ some .nan))) =
      [(true, some [("cpu_temp_c", .finite (.ofNat 85))], some true)] := by
    decide +kernel
  obtain ⟨p, hpasses, hp⟩ := List.map_eq_singleton_iff.mp hpass
  obtain ⟨hlog, hrest⟩ := Prod.mk.inj hp
  obtain ⟨hlimits, hsensor⟩ := Prod.mk.inj hrest
  obtain ⟨reading, hreading, hdecided⟩ := Option.map_eq_some_iff.mp hsensor
  obtain ⟨hnumber, hnan⟩ := of_decide_eq_true hdecided
  have hmem : p ∈ (session (FactoryRequest.prog (executor fun n => n)) {} checkedRuns).passes := by
    rw [hpasses]
    exact List.mem_singleton_self p
  have hsensors : ∀ limit ∈ [("cpu_temp_c", FloatValue.finite (.ofNat 85))], limit.2 ≠ .nan ∧
      ∃ reading, p.state.sensors.lookup limit.1 = some reading ∧ reading.IsNumber ∧
        numberOf reading ≠ .ok .nan := by
    intro limit hlimit
    obtain rfl := List.mem_singleton.mp hlimit
    exact ⟨by decide, reading, hreading, hnumber, fun hx => hnan (congrArg Except.toOption hx)⟩
  exact ⟨p, hmem, (FactoryExecutor.pass_evident_iff checkedRuns p hmem).mpr
    ⟨⟨_, hlimits, hsensors⟩, hlog⟩⟩

/-- The result alone passes: no sensor was read, and no event log. -/
theorem unchecked_pass :
    ¬ ∀ p ∈ (session (FactoryRequest.prog (executor fun n => n)) {} uncheckedRuns).passes,
      (executor fun n => n).Evident p := by
  intro hall
  have hpass : (session (FactoryRequest.prog (executor fun n => n)) {} uncheckedRuns).passes.map
      (fun p => p.state.eventLogRead) = [false] := by
    decide +kernel
  obtain ⟨p, hpasses, hunread⟩ := List.map_eq_singleton_iff.mp hpass
  have hread := (hall p (hpasses ▸ List.mem_singleton_self p)).eventLog.1
  rw [hunread] at hread
  cases hread

end Slas
