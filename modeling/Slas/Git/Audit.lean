/-
  Slas.Git.Audit

  One audit row for each remote operation: when an operation of git-broker records
  exactly one row, and with the outcome that it returns.

  Theorems:
    auditedOnce_iff — exactly if nothing raises before the row, and nothing after it.
-/

import Slas.Git.Remotes

namespace Slas

namespace Git

open Audited (lift raise record)

/-! ## Operations and outcomes -/

inductive Operation where
  | testConnection (remoteId : String)
  | clone (remoteId slug : String)
  | pull (remoteId slug : String) (branch : Option String)
  | push (remoteId : String) (options : PushOptions)

inductive Returned where
  | tested (report : ConnectionReport)
  | cloned (result : CloneResult)
  | pulled (sentence : String)
  | pushed (result : PushResult)

variable (S : Site) (p : Principal)

def perform : Operation → Audited Returned
  | .testConnection remoteId => Returned.tested <$> testConnection S p remoteId
  | .clone remoteId slug => Returned.cloned <$> clone S p remoteId slug
  | .pull remoteId slug branch => Returned.pulled <$> pull S p remoteId slug branch
  | .push remoteId options => Returned.pushed <$> pushBranch S p remoteId options

/-- The outcome that a caller sees: an exception, or a report of no connection, is a failure,
    unless the gate refused. -/
def outcome : Except BrokerFailure Returned → AuditResult
  | .ok (.tested report) => if report.ok then .ok else .failed
  | .ok _ => .ok
  | .error (.refused _) => .refused
  | .error _ => .failed

/-- One row is recorded, with the outcome that is returned. -/
def Once {α : Type} (out : Except BrokerFailure α → AuditResult) (rows : List AuditRow)
    (x : Audited α) : Prop :=
  ∃ row, (x rows).2 = rows ++ [row] ∧ row.result = out (x rows).1

/-- The operation is audited exactly once. -/
def AuditedOnce (rows : List AuditRow) (op : Operation) : Prop :=
  Once outcome rows (perform S p op)

/-! ## When the row is reached -/

/-- What a push needs after its gate has accepted: git answers, and if it has pushed, the
    review request raises nothing and the remote is saved. -/
def PushCompletes (r : PushRequest) (found : Resolved) (access : Access) : Prop :=
  ∃ pushed, remoteGit S found ["push", "--quiet", access.url,
      "refs/heads/" ++ r.branch ++ ":refs/heads/" ++ r.branch] = .ok pushed ∧
    (pushed.exitCode = 0 → (∃ answer, askReview S r access = .ok answer) ∧ S.touched = .ok ())

/-- Nothing raises before the row is recorded, nor after it. -/
def Reached : Operation → Prop
  | .testConnection remoteId => ∃ found, remoteAndHost S p remoteId = .ok found ∧
      ∃ access, withCredential S p found = .ok access ∧
      ∃ result, remoteGit S found ["ls-remote", "--heads", access.url] = .ok result ∧
      S.written = .ok () ∧ (result.exitCode = 0 → S.touched = .ok ())
  | .clone remoteId slug => p.can GIT_CLONE ∧
      ∃ found, remoteAndHost S p remoteId = .ok found ∧ S.hasFiles = false ∧ S.mkdir = .ok () ∧
      ∃ access, withCredential S p found = .ok access ∧
      ∃ result, remoteGit S found ["clone", "--quiet", "--branch", found.remote.defaultBranch,
        access.url, projectDir p slug] = .ok result ∧
      S.written = .ok () ∧ (result.exitCode = 0 → setUrl S found = .ok () ∧ S.touched = .ok ())
  | .pull remoteId _ branch => p.can GIT_PULL ∧
      ∃ found, remoteAndHost S p remoteId = .ok found ∧
      ∃ access, withCredential S p found = .ok access ∧
      ∃ result, remoteGit S found ["pull", "--quiet", "--ff-only", access.url,
        wantedBranch found.remote branch] = .ok result ∧
      S.written = .ok () ∧ (result.exitCode = 0 → S.touched = .ok ())
  | .push remoteId options => p.can GIT_PUSH_BRANCH ∧
      ∃ found, remoteAndHost S p remoteId = .ok found ∧
      let r := pushRequest p found.remote options
      let head := S.workspace.run ["rev-parse", "--verify", "refs/heads/" ++ r.branch]
      head.exitCode = 0 ∧ ∃ access, withCredential S p found = .ok access ∧
      ∃ listed, remoteGit S found ["ls-remote", access.url, "refs/heads/" ++ r.target] = .ok listed ∧
      ∃ report, (S.broker.examine r S.workspace (remoteSha listed)
        (stripText head.stdout)).mapError BrokerFailure.git = .ok report ∧
      S.written = .ok () ∧ (report.passed = true → PushCompletes S r found access)

/-! ## One row, along a computation -/

section Once

variable {S p} {α β : Type} {out : Except BrokerFailure α → AuditResult} {rows : List AuditRow}
  {row : AuditRow} {a : α} {e : BrokerFailure}

theorem bind_of_ok {x : Audited β} {f : β → Audited α} {b : β} {rows' : List AuditRow}
    (h : x rows = (.ok b, rows')) : (x >>= f) rows = f b rows' := by
  simp only [bind, h]

theorem bind_of_error {x : Audited β} {f : β → Audited α} {rows' : List AuditRow}
    (h : x rows = (.error e, rows')) : (x >>= f) rows = (.error e, rows') := by
  simp only [bind, h]

theorem once_lift_bind {x : Except BrokerFailure β} {f : β → Audited α} :
    Once out rows (lift x >>= f) ↔ ∃ b, x = .ok b ∧ Once out rows (f b) := by
  cases x with
  | ok b => simp [Once, bind_of_ok (show lift (.ok b) rows = (.ok b, rows) from rfl)]
  | error e => simp [Once, bind_of_error (show lift (.error e) rows = (.error e, rows) from rfl)]

theorem not_once_raise : ¬ Once out rows (raise e) := by
  have hraised : (raise e : Audited α) rows = (.error e, rows) := rfl
  simp [Once, hraised]

theorem once_map {f : β → α} {x : Audited β} :
    Once out rows (f <$> x) ↔ Once (fun result => out (result.map f)) rows x := by
  have hmap : (f <$> x) rows = ((x rows).1.map f, (x rows).2) := by
    rcases hx : x rows with ⟨e | b, rows'⟩
    · exact bind_of_error hx
    · exact bind_of_ok hx
  simp only [Once, hmap]

/-- What follows a row must not raise anything else than the row says. -/
theorem once_record {x : Except BrokerFailure α} :
    Once out rows (record S row >>= fun _ => lift x) ↔
      S.written = .ok () ∧ row.result = out x := by
  cases hwritten : S.written with
  | ok u =>
    have hrecord : record S row rows = (.ok (), rows ++ [row]) := by rw [record, hwritten]
    have hlift : lift x (rows ++ [row]) = (x, rows ++ [row]) := rfl
    simp [Once, bind_of_ok hrecord, hlift]
  | error e =>
    have hrecord : record S row rows = (.error e, rows) := by rw [record, hwritten]
    simp [Once, bind_of_error hrecord]

theorem once_record_pure : Once out rows (record S row >>= fun _ => pure a) ↔
    S.written = .ok () ∧ row.result = out (.ok a) :=
  once_record

theorem once_record_raise : Once out rows (record S row >>= fun _ => raise e) ↔
    S.written = .ok () ∧ row.result = out (.error e) :=
  once_record

theorem once_ite {c : Prop} [Decidable c] {x y : Audited α} :
    Once out rows (if c then x else y) ↔ (c → Once out rows x) ∧ (¬ c → Once out rows y) := by
  split_ifs with hc <;> simp [hc]

end Once

/-! ## The operations -/

variable {S p} {rows : List AuditRow}

theorem exists_authorise {capability : String} {Q : Unit → Prop} :
    (∃ u, authorise p capability = .ok u ∧ Q u) ↔ p.can capability ∧ Q () := by
  unfold authorise
  split_ifs with hcan
  · exact ⟨fun ⟨(), h⟩ => ⟨hcan, h.2⟩, fun h => ⟨(), rfl, h.2⟩⟩
  · simp [hcan]

theorem exists_unit {x : Except BrokerFailure Unit} {Q : Unit → Prop} :
    (∃ u, x = .ok u ∧ Q u) ↔ x = .ok () ∧ Q () :=
  ⟨fun ⟨(), h⟩ => h, fun h => ⟨(), h⟩⟩

@[simp] theorem auditRowOf_result (remote : StoredRemote) (op : String) (result : AuditResult)
    (branch sha : Option String) : (auditRowOf p remote op result branch sha).result = result := rfl

@[simp] theorem auditRow_result (r : PushRequest) (sha : String) (result : AuditResult) :
    (auditRow r sha result).result = result := rfl

theorem outcome_error_ne (e : BrokerFailure) : outcome (.error e) ≠ .ok := by
  cases e <;> simp [outcome]

section Leaves

variable {α : Type} {f : α → Returned} {a : α} {row : AuditRow} {e : BrokerFailure}

/-- The row of an operation that went well: the remote has to be saved, too. -/
theorem once_done (hrow : row.result = .ok) (hok : outcome (.ok (f a)) = .ok) :
    Once (fun result => outcome (result.map f)) rows
        (record S row >>= fun _ => lift S.touched >>= fun _ => pure a) ↔
      S.written = .ok () ∧ S.touched = .ok () := by
  have hlift : (lift S.touched >>= fun _ => pure a : Audited α) =
      lift (S.touched.map fun _ => a) := by
    funext rows
    cases S.touched <;> rfl
  rw [hlift, once_record, hrow]
  cases htouched : S.touched with
  | ok u => simp [Except.map, hok]
  | error e => simp [Except.map, (outcome_error_ne e).symm]

/-- The row of an operation that git did not complete. -/
theorem once_failed (hrow : row.result = outcome (.error e)) :
    Once (fun result => outcome (result.map f)) rows (record S row >>= fun _ => raise e) ↔
      S.written = .ok () := by
  rw [once_record_raise]
  exact and_iff_left hrow

end Leaves

/-- Either way a row is written; the rest concerns one of them. -/
theorem both_written {c w t : Prop} : (¬ c → w) ∧ (c → w ∧ t) ↔ w ∧ (c → t) := by
  tauto

theorem once_testConnection (remoteId : String) :
    AuditedOnce S p rows (.testConnection remoteId) ↔ Reached S p (.testConnection remoteId) := by
  have hrefused : ∀ sentence, AuditResult.failed =
      outcome (Except.map Returned.tested (Except.ok { ok := false, sentence })) := fun _ => rfl
  have hok : ∀ remote branches, outcome (.ok (.tested (connected remote branches))) = .ok :=
    fun _ _ => rfl
  rw [AuditedOnce, perform, once_map, testConnection]
  simp only [once_lift_bind, once_ite, once_record_pure, once_done (auditRowOf_result ..) (hok _ _),
    auditRowOf_result, ← hrefused, and_true, ne_eq, not_not, both_written, Reached]

/-- As before, with something else before the row of what went well. -/
theorem both_written_after {c s w t : Prop} :
    (¬ c → w) ∧ (c → s ∧ w ∧ t) ↔ w ∧ (c → s ∧ t) := by
  tauto

theorem row_failed (remote : StoredRemote) (op : String) (branch sha : Option String)
    (message : ThreePartMessage) : (auditRowOf p remote op .failed branch sha).result =
      outcome (.error (.broker message)) := rfl

theorem once_clone (remoteId slug : String) :
    AuditedOnce S p rows (.clone remoteId slug) ↔ Reached S p (.clone remoteId slug) := by
  have hok : ∀ result, outcome (.ok (.cloned result)) = .ok := fun _ => rfl
  have hguard : ∀ {a b : Prop}, a ∧ (a → b) ↔ a ∧ b := by tauto
  rw [AuditedOnce, perform, once_map, clone]
  simp only [once_lift_bind, once_ite, exists_authorise, exists_unit, not_once_raise,
    once_done (auditRowOf_result ..) (hok _), once_failed (row_failed ..), ne_eq, not_not,
    both_written_after, Reached, imp_false, Bool.not_eq_true, hguard]

theorem once_pull (remoteId slug : String) (branch : Option String) :
    AuditedOnce S p rows (.pull remoteId slug branch) ↔
      Reached S p (.pull remoteId slug branch) := by
  have hok : ∀ sentence, outcome (.ok (.pulled sentence)) = .ok := fun _ => rfl
  rw [AuditedOnce, perform, once_map, pull]
  simp only [once_lift_bind, once_ite, exists_authorise, once_done (auditRowOf_result ..) (hok _),
    once_failed (row_failed ..), ne_eq, not_not, both_written, Reached]

/-- What is left of a push that was accepted. -/
theorem pushCompletes_iff {r : PushRequest} {found : Resolved} {access : Access} :
    (∃ pushed, remoteGit S found ["push", "--quiet", access.url,
        "refs/heads/" ++ r.branch ++ ":refs/heads/" ++ r.branch] = .ok pushed ∧
      (¬ pushed.exitCode = 0 → S.written = .ok ()) ∧ (pushed.exitCode = 0 →
        ∃ answer, askReview S r access = .ok answer ∧ S.written = .ok () ∧ S.touched = .ok ())) ↔
      S.written = .ok () ∧ PushCompletes S r found access := by
  constructor
  · rintro ⟨pushed, hpushed, hbad, hgood⟩
    by_cases hexit : pushed.exitCode = 0
    · obtain ⟨answer, hanswer, hwritten, htouched⟩ := hgood hexit
      exact ⟨hwritten, pushed, hpushed, fun _ => ⟨⟨answer, hanswer⟩, htouched⟩⟩
    · exact ⟨hbad hexit, pushed, hpushed, fun hzero => absurd hzero hexit⟩
  · rintro ⟨hwritten, pushed, hpushed, hgood⟩
    refine ⟨pushed, hpushed, fun _ => hwritten, fun hexit => ?_⟩
    obtain ⟨⟨answer, hanswer⟩, htouched⟩ := hgood hexit
    exact ⟨answer, hanswer, hwritten, htouched⟩

theorem once_push (remoteId : String) (options : PushOptions) :
    AuditedOnce S p rows (.push remoteId options) ↔ Reached S p (.push remoteId options) := by
  have hok : ∀ result, outcome (.ok (.pushed result)) = .ok := fun _ => rfl
  have hfailed : ∀ r sha message, (auditRow r sha .failed).result =
      outcome (.error (.broker message)) := fun _ _ _ => rfl
  have hrefused : ∀ r sha report, (auditRow r sha .refused).result =
      outcome (.error (.refused report)) := fun _ _ _ => rfl
  have hguard : ∀ {a b : Prop}, a ∧ (a → b) ↔ a ∧ b := by tauto
  have hgate : ∀ {passed : Bool} {w t : Prop},
      (passed = false → w) ∧ (¬ passed = false → w ∧ t) ↔ w ∧ (passed = true → t) := by
    intro passed w t
    cases passed <;> simp
  rw [AuditedOnce, perform, once_map, pushBranch]
  simp only [once_lift_bind, once_ite, exists_authorise, not_once_raise,
    once_done (auditRow_result ..) (hok _), once_failed (hfailed ..), once_failed (hrefused ..),
    ne_eq, not_not, pushCompletes_iff, hgate, Reached, imp_false, hguard]

/-- **One row an operation**: whatever answers the broker, an operation records exactly one
    audit row, with the outcome that it returns, exactly if nothing raises before the row is
    recorded, nor after it. -/
theorem auditedOnce_iff (S : Site) (p : Principal) (rows : List AuditRow) (op : Operation) :
    AuditedOnce S p rows op ↔ Reached S p op := by
  cases op with
  | testConnection remoteId => exact once_testConnection remoteId
  | clone remoteId slug => exact once_clone remoteId slug
  | pull remoteId slug branch => exact once_pull remoteId slug branch
  | push remoteId options => exact once_push remoteId options

-- A remote whose host was taken off the list

def firmwareRemote : StoredRemote where
  id := "rem-0123456789abcdef"
  name := "firmware"
  uri := "https://git.lab/firmware/bmc.git"
  owner := "ann"
  host := "git.lab"
  authType := .pat
  credentialRef := "cred-0123456789abcdef01234567"
  fingerprint := "…1234"
  owner_ne := by decide

/-- A broker without hosts, where all else goes well. -/
def noHosts : Site where
  broker := plainBroker
  hosts := []
  remotes := [(firmwareRemote.id, firmwareRemote)]
  now := 0
  day _ := "2026-01-01"
  parse _ := .ok { scheme := .https, hostname := "git.lab", path := "firmware/bmc" }
  lower text := text
  redact text := text
  reveal _ _ := .ok "glpat-token"
  keyFile := .ok ()
  mkdir := .ok ()
  transport _ := .ok { exitCode := 0 }
  workspace := silent
  review _ _ := .ok .noToken
  written := .ok ()
  touched := .ok ()

def ann : Principal := { subject := "ann", capabilities := [GIT_CLONE, GIT_PULL, GIT_PUSH_BRANCH] }

/-- The connection is refused, and no row is recorded. -/
theorem refused_host_not_audited :
    (perform noHosts ann (.testConnection firmwareRemote.id) []).2 = [] ∧
      ¬ AuditedOnce noHosts ann [] (.testConnection firmwareRemote.id) := by
  have hnone : (perform noHosts ann (.testConnection firmwareRemote.id) []).2 = [] := by
    decide +kernel
  refine ⟨hnone, ?_⟩
  rintro ⟨row, hrow, -⟩
  rw [hnone] at hrow
  cases hrow

end Git

end Slas
