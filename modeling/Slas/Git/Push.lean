/-
  Slas.Git.Push

  Pushes of a branch (`push_branch` of `slas_git_broker.broker`), while commits go on in
  the workspaces and other people push to the remotes.

  The gate is given the commit that `rev-parse` found, and the push names the branch:
  `as_examined_iff` says for which orders of the steps the remote branch ends up at the
  commit that the gate accepted.  An audit row is kept without its times and its detail.
-/

import Slas.Git.Gate
import Slas.Lib.Trace

namespace Slas

namespace Git

/-! ## Requests -/

/-- The id of an object. -/
structure Sha where
  text : String
  hex : text.toList.all isHexDigit = true
  length : text.toList.length = 40

theorem Sha.eq_iff {a b : Sha} : a = b ↔ a.text = b.text := by
  cases a
  cases b
  simp

instance : DecidableEq Sha := fun _ _ => decidable_of_iff' _ Sha.eq_iff

structure Principal where
  subject : String
  capabilities : List String
  isSystem : Bool := false

def Principal.can (principal : Principal) (capability : String) : Bool :=
  principal.isSystem || principal.capabilities.contains capability

def GIT_PUSH_BRANCH : String := "git:push_branch"

def GIT_PUSH_PROTECTED : String := "git:push_protected"

def EMPTY_TREE : String := "4b825dc642cb6eb9a060e54bf8d69288fbee4904"

/-- A remote, as far as a push reads it. -/
structure Remote where
  id : String
  name : String
  uri : String
  defaultBranch : String := "main"

structure PushRequest where
  principal : Principal
  remote : Remote
  slug : String
  branch : String
  agentAuthored : Bool := false
  openReview : Bool := true
  targetBranch : Option String := none

/-- Whose project it is, and its name. -/
abbrev Project := String × String

namespace PushRequest

variable (r : PushRequest)

/-- `project_dir` -/
def project : Project := (r.principal.subject, r.slug)

def isProtected : Bool := r.branch = r.remote.defaultBranch

/-- The branch the change is compared with. -/
def target : String :=
  match r.targetBranch with
  | some branch => if branch = "" then r.remote.defaultBranch else branch
  | none => r.remote.defaultBranch

end PushRequest

structure MergeRequest where
  url : String

def MergeRequest.sentence (request : MergeRequest) : String :=
  "Opened a review request: " ++ request.url

/-- What comes of the review request. -/
inductive ReviewAnswer where
  /-- the remote is reached with a key, and there is no token for its API -/
  | noToken
  | opened (request : MergeRequest)
  /-- `HostApiError` -/
  | failed (message : ThreePartMessage)

structure PushResult where
  branch : String
  sha : String
  gate : GateReport
  mergeRequest : Option MergeRequest := none
  sentence : String

inductive PushError where
  /-- `AccessDeniedError` -/
  | denied
  /-- the three-part message of a `GitBrokerError` -/
  | broker (message : ThreePartMessage)
  /-- `GateRefusedError` -/
  | refused (report : GateReport)
  | git (failure : GitFailure)
  /-- the push ended with this on its standard error -/
  | notPushed (stderr : String)

inductive AuditResult where
  | ok
  | refused
  | failed
  deriving DecidableEq

structure AuditRow where
  user : String
  remoteId : Option String
  remoteName : Option String
  op : String
  branch : Option String
  sha : Option String
  result : AuditResult
  deriving DecidableEq

/-- What the broker is configured with, and the built-in functions. -/
structure Broker where
  policy : GatePolicy := {}
  scanner : SecretScanner
  crossChecker : Option CrossChecker := none
  python : Python

/-! ## The steps of a push -/

/-- What `git rev-parse --verify` says of a branch with this head. -/
def revParse : Option Sha → CommandResult
  | some sha => { exitCode := 0, stdout := sha.text ++ "\n" }
  | none => { exitCode := 128, stderr := "fatal: Needed a single revision\n" }

/-- The commit of the first line that `git ls-remote` printed. -/
def remoteSha (listed : CommandResult) : Option String :=
  if listed.exitCode = 0 ∧ stripText listed.stdout ≠ "" then
    (Text.words listed.stdout.toList).head?.map String.ofList
  else none

/-- What the gate compares with: the commit of the remote, if the workspace has it. -/
def baseFor (W : GitWorkspace) (listed : Option String) : String :=
  match listed with
  | some sha => if (W.run ["cat-file", "-e", sha]).exitCode = 0 then sha else EMPTY_TREE
  | none => EMPTY_TREE

def noSuchBranch (r : PushRequest) : ThreePartMessage where
  whatHappened := r.slug ++ " has no branch called " ++ r.branch ++ "."
  likelyCause := "Only a branch that exists locally can be pushed."
  whatToDo := "Commit on the branch first, or pick another."

/-- The gate, on the commit with this id. -/
def Broker.examine (B : Broker) (r : PushRequest) (W : GitWorkspace) (listed : Option String)
    (sha : String) : Except GitFailure GateReport :=
  validatePush B.python W B.policy B.scanner B.crossChecker
    { base := baseFor W listed, head := sha, agentAuthored := r.agentAuthored
      protectedBranch := r.isProtected
      mayPushProtected := r.principal.can GIT_PUSH_PROTECTED }

/-- The row of a push. -/
def auditRow (r : PushRequest) (sha : String) (result : AuditResult) : AuditRow where
  user := r.principal.subject
  remoteId := some r.remote.id
  remoteName := some r.remote.name
  op := "push_branch"
  branch := some r.branch
  sha := some sha
  result := result

/-- The review request of a push, and what is noted of it. -/
def reviewed (r : PushRequest) (answer : ReviewAnswer) : Option MergeRequest × String :=
  if r.openReview ∧ r.isProtected = false then
    match answer with
    | .noToken => (none, " SSH remotes carry no API token, so open the review request on the " ++
        "host yourself.")
    | .opened request => (some request, "")
    | .failed message => (none, " " ++ message.whatHappened ++ " " ++ message.whatToDo)
  else (none, "")

def pushResult (r : PushRequest) (sha : String) (report : GateReport) (answer : ReviewAnswer) :
    PushResult :=
  let (request, note) := reviewed r answer
  { branch := r.branch, sha, gate := report, mergeRequest := request
    sentence := "Pushed " ++ r.branch ++ " (" ++ String.ofList (sha.toList.take 10) ++ ") to " ++
      r.remote.name ++ "." ++ (match request with
        | some opened => " " ++ opened.sentence
        | none => "") ++ note }

/-! ## Requests and commits, one step at a time -/

/-- Where a request is, with its local variables. -/
inductive Progress where
  | called
  | resolved (sha : String)
  | listed (sha : String) (remoteSha : Option String)
  | accepted (sha : String) (report : GateReport)
  | pushed (sha : String) (report : GateReport)
  | done (result : PushResult)
  | failed (error : PushError)

def Progress.ended : Progress → Bool
  | .done _ => true
  | .failed _ => true
  | _ => false

/-- The branches of the workspaces and of the remotes, the requests, and the audit rows. -/
structure Repositories where
  heads : Project → String → Option Sha
  remotes : String → String → Option Sha
  requests : Nat → Progress := fun _ => .called
  audit : List AuditRow := []

/-- One command of a request, with what git answers to it. -/
inductive PushStep where
  | revParse
  | lsRemote (listed : CommandResult)
  /-- the commands of the gate, that name commits by their ids -/
  | examine (W : GitWorkspace)
  | push (answer : CommandResult)
  | finish (answer : ReviewAnswer)
  /-- an exception: of the remote, of its credential, of git -/
  | raise (error : PushError)

inductive GitEvent where
  | request (i : Nat) (step : PushStep)
  /-- a branch of a workspace moves: a commit, a reset, a pull, a new branch, or none any more -/
  | commit (project : Project) (branch : String) (head : Option Sha)
  /-- a branch of a remote moves -/
  | remoteMoves (uri branch : String) (head : Option Sha)

namespace Repositories

variable (s : Repositories)

def put (i : Nat) (p : Progress) : Repositories :=
  { s with requests := Function.update s.requests i p }

def record (row : AuditRow) : Repositories := { s with audit := s.audit ++ [row] }

def setHead (project : Project) (branch : String) (head : Option Sha) : Repositories :=
  let moved := Function.update (s.heads project) branch head
  { s with heads := Function.update s.heads project moved }

def setRemote (uri branch : String) (head : Option Sha) : Repositories :=
  let moved := Function.update (s.remotes uri) branch head
  { s with remotes := Function.update s.remotes uri moved }

end Repositories

variable (B : Broker) (requests : Nat → PushRequest)

/-- The next step of a request, if it is this one. -/
def requestStep (s : Repositories) (i : Nat) (step : PushStep) : Option Repositories :=
  let r := requests i
  match s.requests i, step with
  | .called, .revParse =>
    let head := revParse (s.heads r.project r.branch)
    if r.principal.can GIT_PUSH_BRANCH = false then some (s.put i (.failed .denied))
    else if head.exitCode ≠ 0 then some (s.put i (.failed (.broker (noSuchBranch r))))
    else some (s.put i (.resolved (stripText head.stdout)))
  | .resolved sha, .lsRemote listed => some (s.put i (.listed sha (remoteSha listed)))
  | .listed sha listed, .examine W =>
    match B.examine r W listed sha with
    | .error failure => some (s.put i (.failed (.git failure)))
    | .ok report =>
      if report.passed then some (s.put i (.accepted sha report))
      else some ((s.record (auditRow r sha .refused)).put i (.failed (.refused report)))
  | .accepted sha report, .push answer =>
    if answer.exitCode ≠ 0 then
      some ((s.record (auditRow r sha .failed)).put i (.failed (.notPushed answer.stderr)))
    else
      -- `refs/heads/{branch}:refs/heads/{branch}`: the branch as it is now
      match s.heads r.project r.branch with
      | none => none
      | some head => some ((s.setRemote r.remote.uri r.branch (some head)).put i
          (.pushed sha report))
  | .pushed sha report, .finish answer =>
    some ((s.record (auditRow r sha .ok)).put i (.done (pushResult r sha report answer)))
  | p, .raise error => if p.ended then none else some (s.put i (.failed error))
  | _, _ => none

def step (s : Repositories) : GitEvent → Option Repositories
  | .request i e => requestStep B requests s i e
  | .commit project branch head => some (s.setHead project branch head)
  | .remoteMoves uri branch head => some (s.setRemote uri branch head)

def run (s : Repositories) (es : List GitEvent) : Option Repositories :=
  es.foldlM (step B requests) s

/-! ## What one step of a request does -/

variable {B requests} {s s' start : Repositories} {i : Nat} {es : List GitEvent}

theorem not_isSpace_of_isHexDigit {c : Char} (h : isHexDigit c = true) :
    Lines.isSpace c = false := by
  have hrange : (48 ≤ c.toNat ∧ c.toNat ≤ 57) ∨ (97 ≤ c.toNat ∧ c.toNat ≤ 102) := by
    have hnat : c.toNat = c.val.toNat := rfl
    have h0 : '0'.val.toNat = 48 := rfl
    have h9 : '9'.val.toNat = 57 := rfl
    have ha : 'a'.val.toNat = 97 := rfl
    have hf : 'f'.val.toNat = 102 := rfl
    simp only [isHexDigit, Char.isDigit, Bool.or_eq_true, Bool.and_eq_true, decide_eq_true_eq,
      ge_iff_le, Char.le_def, UInt32.le_iff_toNat_le] at h
    omega
  simp only [Lines.isSpace, Bool.or_eq_false_iff, Bool.and_eq_false_iff, decide_eq_false_iff_not]
  omega

theorem strip_revParse (sha : Sha) : stripText (revParse (some sha)).stdout = sha.text := by
  have hhex : ∀ c ∈ sha.text.toList, Lines.isSpace c = false := by
    intro c hc
    exact not_isSpace_of_isHexDigit (List.all_eq_true.mp sha.hex c hc)
  have hprinted : (revParse (some sha)).stdout.toList = sha.text.toList ++ ['\n'] := by
    simp [revParse, String.toList_append]
  rw [stripText, hprinted, Text.strip, Text.stripBy_concat (by decide),
    Text.stripBy_of_trimmed (Text.trimmed_of_forall hhex), String.ofList_toList]

/-- What a request goes through; it may end at any step. -/
inductive Turn (B : Broker) (r : PushRequest) (head : Option Sha) :
    Progress → PushStep → Progress → Prop where
  | resolves {id : Sha} : head = some id → Turn B r head .called .revParse (.resolved id.text)
  | lists {sha : String} {answer : CommandResult} :
      Turn B r head (.resolved sha) (.lsRemote answer) (.listed sha (remoteSha answer))
  | accepts {sha : String} {listed : Option String} {W : GitWorkspace} {report : GateReport} :
      B.examine r W listed sha = .ok report → report.passed = true →
        Turn B r head (.listed sha listed) (.examine W) (.accepted sha report)
  | pushes {sha : String} {report : GateReport} {answer : CommandResult} :
      answer.exitCode = 0 →
        Turn B r head (.accepted sha report) (.push answer) (.pushed sha report)
  | ends {p q : Progress} {e : PushStep} :
      q.ended = true → (e = .revParse → p = .called) → Turn B r head p e q

theorem requestStep_turn {e : PushStep} (h : requestStep B requests s i e = some s') :
    s'.heads = s.heads ∧ ∃ q, s'.requests = Function.update s.requests i q ∧
      Turn B (requests i) (s.heads (requests i).project (requests i).branch)
        (s.requests i) e q := by
  unfold requestStep at h
  dsimp only at h
  split at h
  · rename_i hcalled
    rw [hcalled]
    split_ifs at h with hcan hexit
    · cases h
      exact ⟨rfl, _, rfl, .ends rfl fun _ => rfl⟩
    · cases h
      exact ⟨rfl, _, rfl, .ends rfl fun _ => rfl⟩
    · cases h
      refine ⟨rfl, _, rfl, ?_⟩
      cases hhead : s.heads (requests i).project (requests i).branch with
      | none => simp [hhead, revParse] at hexit
      | some id =>
        rw [strip_revParse]
        exact .resolves rfl
  · rename_i hresolved
    rw [hresolved]
    cases h
    exact ⟨rfl, _, rfl, .lists⟩
  · rename_i hlisted
    rw [hlisted]
    split at h
    · cases h
      exact ⟨rfl, _, rfl, .ends rfl nofun⟩
    · rename_i hreport
      split_ifs at h with hpassed
      · cases h
        exact ⟨rfl, _, rfl, .accepts hreport hpassed⟩
      · cases h
        exact ⟨rfl, _, rfl, .ends rfl nofun⟩
  · rename_i haccepted
    rw [haccepted]
    split_ifs at h with hexit
    · cases h
      exact ⟨rfl, _, rfl, .ends rfl nofun⟩
    · split at h
      · cases h
      · cases h
        exact ⟨rfl, _, rfl, .pushes (not_not.mp hexit)⟩
  · rename_i hpushed
    rw [hpushed]
    cases h
    exact ⟨rfl, _, rfl, .ends rfl nofun⟩
  · split_ifs at h
    cases h
    exact ⟨rfl, _, rfl, .ends rfl nofun⟩
  · cases h

/-- A push that git completes: the remote branch is where the local one is now. -/
theorem push_step {answer : CommandResult}
    (h : requestStep B requests s i (.push answer) = some s') (hexit : answer.exitCode = 0) :
    ∃ sha report head, s.requests i = .accepted sha report ∧
      s.heads (requests i).project (requests i).branch = some head ∧
      s'.requests i = .pushed sha report ∧
      s'.remotes (requests i).remote.uri (requests i).branch = some head := by
  cases hprogress : s.requests i with
  | accepted sha report =>
    simp only [requestStep, hprogress, hexit, ne_eq, not_true_eq_false, if_false] at h
    cases hhead : s.heads (requests i).project (requests i).branch with
    | none => simp [hhead] at h
    | some head =>
      simp only [hhead, Option.some.injEq] at h
      subst h
      exact ⟨sha, report, head, rfl, rfl, by simp [Repositories.put],
        by simp [Repositories.put, Repositories.setRemote]⟩
  | _ => simp [requestStep, hprogress] at h

/-! ## Branches and requests along a run -/

/-- Where a commit takes a branch of a workspace. -/
def movedTo (project : Project) (branch : String) : GitEvent → Option (Option Sha)
  | .commit p b head => if p = project ∧ b = branch then some head else none
  | _ => none

/-- The head of a branch of a workspace after the events. -/
def headAfter (start : Repositories) (project : Project) (branch : String) (es : List GitEvent) :
    Option Sha :=
  (Trace.lastOf (movedTo project branch) es).getD (start.heads project branch)

/-- The head that the branch of a request has after the events. -/
def ownHead (start : Repositories) (requests : Nat → PushRequest) (i : Nat) (es : List GitEvent) :
    Option Sha :=
  headAfter start (requests i).project (requests i).branch es

namespace Progress

/-- The commit a request works on. -/
def sha? : Progress → Option String
  | .resolved sha => some sha
  | .listed sha _ => some sha
  | .accepted sha _ => some sha
  | .pushed sha _ => some sha
  | _ => none

/-- The commit with the report that let it pass. -/
def verdict? : Progress → Option (String × GateReport)
  | .accepted sha report => some (sha, report)
  | .pushed sha report => some (sha, report)
  | _ => none

end Progress

/-- The gate examined the commit and let it pass. -/
def Accepted (B : Broker) (r : PushRequest) (sha : String) (report : GateReport) : Prop :=
  report.passed = true ∧ ∃ W listed, B.examine r W listed sha = .ok report

/-- The state tells of the trace that led to it. -/
structure Agrees (B : Broker) (requests : Nat → PushRequest) (start : Repositories)
    (es : List GitEvent) (s : Repositories) : Prop where
  heads : ∀ project branch, s.heads project branch = headAfter start project branch es
  called : ∀ i, s.requests i = .called → .request i .revParse ∉ es
  /-- a request works on the head that its branch had when it asked -/
  resolved : ∀ i sha, (s.requests i).sha? = some sha → .request i .revParse ∈ es ∧
    ∀ before after, es = before ++ .request i .revParse :: after →
      (ownHead start requests i before).map Sha.text = some sha
  accepted : ∀ i sha report, (s.requests i).verdict? = some (sha, report) →
    Accepted B (requests i) sha report

theorem headAfter_snoc (start : Repositories) (project : Project) (branch : String)
    (es : List GitEvent) (e : GitEvent) : headAfter start project branch (es ++ [e]) =
      (movedTo project branch e).getD (headAfter start project branch es) := by
  rw [headAfter, Trace.lastOf_snoc]
  cases movedTo project branch e <;> rfl

theorem agrees_start (hcalled : ∀ i, start.requests i = .called) :
    Agrees B requests start [] start where
  heads _ _ := rfl
  called _ _ := by simp
  resolved i sha h := by simp [hcalled i, Progress.sha?] at h
  accepted i sha report h := by simp [hcalled i, Progress.verdict?] at h

/-- A branch that moves. -/
theorem Agrees.moves {e : GitEvent} (h : Agrees B requests start es s)
    (he : ∀ i t, e ≠ .request i t) (hrequests : s'.requests = s.requests)
    (hheads : ∀ project branch, s'.heads project branch =
      (movedTo project branch e).getD (s.heads project branch)) :
    Agrees B requests start (es ++ [e]) s' where
  heads project branch := by rw [hheads, h.heads, headAfter_snoc]
  called i hi := by
    rw [hrequests] at hi
    simp [h.called i hi, (he i .revParse).symm]
  resolved i sha hsha := by
    rw [hrequests] at hsha
    obtain ⟨hmem, hfound⟩ := h.resolved i sha hsha
    refine ⟨List.mem_append_left _ hmem, fun before after heq => ?_⟩
    rcases Trace.cut_snoc heq with ⟨-, hlast, -⟩ | ⟨after', hcut, -⟩
    · exact absurd hlast (he i .revParse)
    · exact hfound before after' hcut
  accepted i sha report hi := by
    rw [hrequests] at hi
    exact h.accepted i sha report hi

theorem movedTo_request (project : Project) (branch : String) (j : Nat) (t : PushStep) :
    movedTo project branch (.request j t) = none := rfl

/-- A step of a request. -/
theorem Agrees.turn {e : PushStep} (h : Agrees B requests start es s)
    (hstep : requestStep B requests s i e = some s') :
    Agrees B requests start (es ++ [.request i e]) s' := by
  obtain ⟨hheads, q, hrequests, hturn⟩ := requestStep_turn hstep
  generalize hp : s.requests i = p at hturn
  -- the requests that do not move
  have hother : ∀ j, j ≠ i → s'.requests j = s.requests j := fun j hj => by
    rw [hrequests, Function.update_of_ne hj]
  have hown : s'.requests i = q := by rw [hrequests, Function.update_self]
  have hfound : ∀ j sha, (s.requests j).sha? = some sha → (j = i → e ≠ .revParse) →
      GitEvent.request j .revParse ∈ es ++ [.request i e] ∧
        ∀ before after, es ++ [.request i e] = before ++ .request j .revParse :: after →
          (ownHead start requests j before).map Sha.text = some sha := by
    intro j sha hsha hne
    obtain ⟨hmem, hcut⟩ := h.resolved j sha hsha
    refine ⟨List.mem_append_left _ hmem, fun before after heq => ?_⟩
    rcases Trace.cut_snoc heq with ⟨-, hlast, -⟩ | ⟨after', hes, -⟩
    · cases hlast
      exact absurd rfl (hne rfl)
    · exact hcut before after' hes
  refine ⟨fun project branch => ?_, fun j hj => ?_, fun j sha hj => ?_, fun j sha report hj => ?_⟩
  · rw [hheads, h.heads, headAfter_snoc, movedTo_request]
    rfl
  · by_cases hji : j = i
    · subst hji
      rw [hown] at hj
      subst hj
      cases hturn with
      | ends hended _ => cases hended
    · rw [hother j hji] at hj
      simp [h.called j hj, hji]
  · by_cases hji : j = i
    · subst hji
      rw [hown] at hj
      cases hturn with
      | resolves hhead =>
        cases hj
        refine ⟨by simp, fun before after heq => ?_⟩
        rcases Trace.cut_snoc heq with ⟨hes, -, -⟩ | ⟨after', hes, -⟩
        · rw [ownHead, ← hes, ← h.heads, hhead]
          rfl
        · exact absurd (by simp [hes]) (h.called j hp)
      | lists => exact hfound j sha (by rw [hp]; exact hj) nofun
      | accepts => exact hfound j sha (by rw [hp]; exact hj) nofun
      | pushes _ => exact hfound j sha (by rw [hp]; exact hj) nofun
      | ends hended _ => cases q <;> simp_all [Progress.ended, Progress.sha?]
    · rw [hother j hji] at hj
      exact hfound j sha hj fun heq => absurd heq hji
  · by_cases hji : j = i
    · subst hji
      rw [hown] at hj
      cases hturn with
      | resolves _ => cases hj
      | lists => cases hj
      | accepts hreport hpassed =>
        cases hj
        exact ⟨hpassed, _, _, hreport⟩
      | pushes _ => exact h.accepted j sha report (by rw [hp]; exact hj)
      | ends hended _ => cases q <;> simp_all [Progress.ended, Progress.verdict?]
    · rw [hother j hji] at hj
      exact h.accepted j sha report hj

/-! ## Whole runs -/

theorem run_snoc (e : GitEvent) : run B requests start (es ++ [e]) =
    (run B requests start es).bind fun s => step B requests s e := by
  simp [run, List.foldlM_append]

theorem run_append (es fs : List GitEvent) : run B requests start (es ++ fs) =
    (run B requests start es).bind fun s => run B requests s fs := by
  simp [run, List.foldlM_append]

theorem run_agrees (hcalled : ∀ i, start.requests i = .called)
    (h : run B requests start es = some s) : Agrees B requests start es s := by
  induction es using List.reverseRecOn generalizing s with
  | nil =>
    cases h
    exact agrees_start hcalled
  | append_singleton es e ih =>
    rw [run_snoc] at h
    obtain ⟨before, hbefore, hstep⟩ := Option.bind_eq_some_iff.mp h
    have hagrees := ih hbefore
    cases e with
    | request i e => exact hagrees.turn hstep
    | commit project branch head =>
      cases hstep
      refine hagrees.moves nofun rfl fun p b => ?_
      by_cases hp : project = p
      · subst hp
        by_cases hb : branch = b
        · simp [Repositories.setHead, movedTo, hb]
        · simp [Repositories.setHead, movedTo, hb, Function.update_of_ne (Ne.symm hb)]
      · simp [Repositories.setHead, movedTo, hp, Function.update_of_ne (Ne.symm hp)]
    | remoteMoves uri branch head =>
      cases hstep
      exact hagrees.moves nofun rfl fun p b => rfl

variable (B requests start)

/-- The broker as it starts, with the branches that there are. -/
def initially (heads : Project → String → Option Sha) (remotes : String → String → Option Sha) :
    Repositories where
  heads := heads
  remotes := remotes

/-- The remote branch of a request that has pushed is at the commit that the gate examined
    for it and accepted. -/
def AsExamined (s : Repositories) (i : Nat) : Prop :=
  ∀ sha report, s.requests i = .pushed sha report →
    Accepted B (requests i) sha report ∧
      (s.remotes (requests i).remote.uri (requests i).branch).map Sha.text = some sha

/-- So it is after every push. -/
def PushedAsExamined (es : List GitEvent) : Prop :=
  ∀ pre i answer s, pre ++ [.request i (.push answer)] <+: es →
    run B requests start (pre ++ [.request i (.push answer)]) = some s → AsExamined B requests s i

/-- A push that git completes finds the branch where it was when the request asked for
    its head. -/
def Unmoved (pre : List GitEvent) (e : GitEvent) : Prop :=
  ∀ i answer, e = .request i (.push answer) → answer.exitCode = 0 →
    ∀ before after, pre = before ++ .request i .revParse :: after →
      ownHead start requests i pre = ownHead start requests i before

variable {B requests start}

theorem Sha.text_inj {a b : Sha} (h : a.text = b.text) : a = b := by
  cases a
  cases b
  cases h
  rfl

/-- One push puts the commit there that the gate accepted exactly if the branch has not
    moved. -/
theorem push_asExamined {answer : CommandResult} (h : Agrees B requests start es s)
    (hstep : requestStep B requests s i (.push answer) = some s') :
    AsExamined B requests s' i ↔ Unmoved requests start es (.request i (.push answer)) := by
  by_cases hexit : answer.exitCode = 0
  · obtain ⟨sha, report, head, hprogress, hhead, hpushed, hremote⟩ := push_step hstep hexit
    have haccepted : Accepted B (requests i) sha report :=
      h.accepted i sha report (by rw [hprogress]; rfl)
    obtain ⟨hasked, hfound⟩ := h.resolved i sha (by rw [hprogress]; rfl)
    have hown : ownHead start requests i es = some head := by
      rw [ownHead, ← h.heads, hhead]
    constructor
    · rintro hexamined j answer' ⟨⟩ - before after hes
      obtain ⟨-, hsame⟩ := hexamined sha report hpushed
      rw [hremote] at hsame
      have hbefore := hfound before after hes
      obtain ⟨id, hid, htext⟩ := Option.map_eq_some_iff.mp hbefore
      rw [hown, hid, Sha.text_inj (htext.trans (Option.some.inj hsame).symm)]
    · intro hunmoved sha' report' hpushed'
      rw [hpushed] at hpushed'
      cases hpushed'
      refine ⟨haccepted, ?_⟩
      obtain ⟨before, after, hes⟩ := List.append_of_mem hasked
      rw [hremote, ← hown, hunmoved i answer rfl hexit before after hes]
      exact hfound before after hes
  · refine iff_of_true (fun sha report hpushed => ?_) ?_
    · obtain ⟨-, q, hrequests, hturn⟩ := requestStep_turn hstep
      rw [hrequests, Function.update_self] at hpushed
      subst hpushed
      generalize s.requests i = p at hturn
      cases hturn with
      | pushes hzero => exact absurd hzero hexit
      | ends hended _ => cases hended
    · rintro j answer' ⟨⟩ hexit'
      exact absurd hexit' hexit

/-- **What is pushed is what was examined**: whatever the order of the steps of any requests
    and of what moves the branches, every push leaves the remote branch at the commit that
    the gate examined and accepted, exactly if every push finds its branch where the request
    first found it. -/
theorem as_examined_iff (B : Broker) (requests : Nat → PushRequest)
    (heads : Project → String → Option Sha) (remotes : String → String → Option Sha)
    (es : List GitEvent) (h : (run B requests (initially heads remotes) es).isSome) :
    PushedAsExamined B requests (initially heads remotes) es ↔
      Trace.Always (Unmoved requests (initially heads remotes)) es := by
  have hcalled : ∀ i, (initially heads remotes).requests i = .called := fun _ => rfl
  have hbegins : ∀ pre, pre <+: es → (run B requests (initially heads remotes) pre).isSome := by
    rintro pre ⟨post, rfl⟩
    rw [run_append] at h
    exact Option.isSome_of_isSome_bind h
  constructor
  · intro hall pre e post hes i answer he
    subst he
    have hpre : pre ++ [.request i (.push answer)] <+: es := ⟨post, by simp [hes]⟩
    obtain ⟨s', hs'⟩ := Option.isSome_iff_exists.mp (hbegins _ hpre)
    have hrun := hs'
    rw [run_snoc] at hrun
    obtain ⟨s, hs, hstep⟩ := Option.bind_eq_some_iff.mp hrun
    exact (push_asExamined (run_agrees hcalled hs) hstep).mp (hall pre i answer s' hpre hs')
      i answer rfl
  · rintro hall pre i answer s' ⟨post, hes⟩ hrun
    rw [run_snoc] at hrun
    obtain ⟨s, hs, hstep⟩ := Option.bind_eq_some_iff.mp hrun
    exact (push_asExamined (run_agrees hcalled hs) hstep).mpr
      (hall pre _ post (by simp [← hes]))

-- A commit between the gate and the push

def commitOf (digit : Char) (h : isHexDigit digit = true) : Sha where
  text := String.ofList (List.replicate 40 digit)
  hex := by simp [h]
  length := by simp

def examinedHead : Sha := commitOf 'a' isHexDigit_a

def laterHead : Sha := commitOf 'b' isHexDigit_b

def plainBroker : Broker where
  scanner := { name := "built-in patterns", scan := fun _ => [] }
  python := Python.plain

def pushFeature : PushRequest where
  principal := { subject := "ann", capabilities := [GIT_PUSH_BRANCH] }
  remote := { id := "rem-1", name := "firmware", uri := "https://git.lab/fw.git" }
  slug := "bmc"
  branch := "feature"

/-- The workspaces, where every branch is at the first commit. -/
def workspaces : Repositories := initially (fun _ _ => some examinedHead) fun _ _ => none

/-- What git prints where nothing has changed. -/
def silent : GitWorkspace where
  cwd := "/data/Coding/ann/Projects/bmc"
  run _ := { exitCode := 0 }

def untilPush : List GitEvent :=
  [.request 0 .revParse, .request 0 (.lsRemote { exitCode := 0 }), .request 0 (.examine silent)]

def pushDone : GitEvent := .request 0 (.push { exitCode := 0 })

def withCommit : List GitEvent :=
  untilPush ++ [.commit ("ann", "bmc") "feature" (some laterHead)] ++ [pushDone]

/-- The gate examined one commit, and another one is pushed. -/
theorem later_commit_pushed :
    ((run plainBroker (fun _ => pushFeature) workspaces withCommit).bind fun s =>
        (s.requests 0).verdict?.map (·.1)) = some examinedHead.text ∧
      ((run plainBroker (fun _ => pushFeature) workspaces withCommit).bind fun s =>
        s.remotes "https://git.lab/fw.git" "feature") = some laterHead ∧
      ¬ PushedAsExamined plainBroker (fun _ => pushFeature) workspaces withCommit := by
  refine ⟨by decide +kernel, by decide +kernel, fun hall => ?_⟩
  have hsome : (run plainBroker (fun _ => pushFeature) workspaces withCommit).isSome := by
    decide +kernel
  obtain ⟨s', hs'⟩ := Option.isSome_iff_exists.mp hsome
  have hrun := hs'
  rw [withCommit, run_snoc] at hrun
  obtain ⟨s, hs, hstep⟩ := Option.bind_eq_some_iff.mp hrun
  have hunmoved := (push_asExamined (run_agrees (fun _ => rfl) hs) hstep).mp
    (hall _ 0 _ s' (List.prefix_refl _) hs') 0 _ rfl rfl [] _ rfl
  exact absurd hunmoved (by decide +kernel)

/-- Without the commit. -/
theorem examined_commit_pushed :
    PushedAsExamined plainBroker (fun _ => pushFeature) workspaces (untilPush ++ [pushDone]) ↔
      Trace.Always (Unmoved (fun _ => pushFeature) workspaces) (untilPush ++ [pushDone]) :=
  as_examined_iff plainBroker (fun _ => pushFeature) _ _ _ (by decide +kernel)

end Git

end Slas
