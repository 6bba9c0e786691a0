/-
  Slas.Git.Remotes

  The remote operations of git-broker (`slas_git_broker.broker`): testing a connection,
  cloning, pulling and pushing, each with the audit rows that it records.
-/

import Slas.Git.Credentials
import Slas.Git.Push

namespace Slas

namespace Git

/-! ## Hosts and remotes -/

/-- How git reaches a remote. -/
inductive Protocol where
  | https
  | ssh
  | http
  deriving DecidableEq

def Protocol.text : Protocol → String
  | .https => "https"
  | .ssh => "ssh"
  | .http => "http"

structure RemoteUri where
  scheme : Protocol
  hostname : String
  port : Option Nat := none
  path : String
  sshUser : Option String := none

namespace RemoteUri

variable (uri : RemoteUri)

def netloc : String :=
  match uri.port with
  | some port => if port = 0 then uri.hostname else uri.hostname ++ ":" ++ toString port
  | none => uri.hostname

def httpsUrl (username : String) : String :=
  (if uri.scheme = .http then "http" else "https") ++ "://" ++
    (if username = "" then "" else username ++ "@") ++ uri.netloc ++ "/" ++ uri.path ++ ".git"

def sshUrl : String :=
  let user := match uri.sshUser with
    | some user => if user = "" then "git" else user
    | none => "git"
  "ssh://" ++ user ++ "@" ++ uri.netloc ++ "/" ++ uri.path ++ ".git"

end RemoteUri

structure GitHost where
  hostname : String
  protocols : List Protocol := [.https, .ssh]
  sshHostKey : Option String := none
  httpsUsername : String := "oauth2"

/-- A remote as it is stored. -/
structure StoredRemote extends Remote where
  owner : String
  host : String
  authType : AuthType
  credentialRef : String
  fingerprint : String
  expiresAt : Option Nat := none
  owner_ne : owner ≠ ""

/-- What ends an operation. -/
inductive BrokerFailure where
  /-- `AccessDeniedError` -/
  | denied
  /-- `GitBrokerError` -/
  | broker (message : ThreePartMessage)
  /-- `GateRefusedError` -/
  | refused (report : GateReport)
  /-- `HostNotAllowedError` and `GitHostsError` -/
  | host (message : ThreePartMessage)
  /-- `RemoteError` -/
  | remote (message : ThreePartMessage)
  /-- `CredentialError` and `SshKeyError` -/
  | credential (message : ThreePartMessage)
  | git (failure : GitFailure)
  /-- any other exception, with its message -/
  | raised (message : String)

/-- What the broker is configured with, and what answers it during an operation. -/
structure Site where
  broker : Broker
  hosts : List GitHost
  remotes : List (String × StoredRemote)
  now : Nat
  /-- the date of a time, `%Y-%m-%d` -/
  day : Nat → String
  /-- `parse_remote_uri` -/
  parse : String → Except BrokerFailure RemoteUri
  /-- `str.lower` -/
  lower : String → String
  /-- `redact` -/
  redact : String → String
  /-- `CredentialStore.reveal` -/
  reveal : String → String → Except BrokerFailure String
  /-- the private key is written for the operation -/
  keyFile : Except BrokerFailure Unit
  /-- the project directory has files -/
  hasFiles : Bool := false
  /-- the project directory is made -/
  mkdir : Except BrokerFailure Unit
  /-- git with the transport of the remote and the credential -/
  transport : List String → Except BrokerFailure CommandResult
  workspace : GitWorkspace
  /-- what the API of the host answers to a review request, with the token -/
  review : String → PushRequest → Except BrokerFailure ReviewAnswer
  /-- the line of an audit row is written -/
  written : Except BrokerFailure Unit
  /-- the remote is saved with the time of its last use -/
  touched : Except BrokerFailure Unit

/-! ## Operations that record -/

/-- A computation that may raise, and records audit rows. -/
abbrev Audited (α : Type) := List AuditRow → Except BrokerFailure α × List AuditRow

namespace Audited

variable {α β : Type}

instance : Monad Audited where
  pure a := fun rows => (.ok a, rows)
  bind x f := fun rows =>
    match x rows with
    | (.ok a, rows') => f a rows'
    | (.error e, rows') => (.error e, rows')

/-- A computation that records nothing. -/
def lift (x : Except BrokerFailure α) : Audited α := fun rows => (x, rows)

def raise (e : BrokerFailure) : Audited α := lift (.error e)

/-- `AuditLog.record` -/
def record (S : Site) (row : AuditRow) : Audited Unit := fun rows =>
  match S.written with
  | .ok () => (.ok (), rows ++ [row])
  | .error e => (.error e, rows)

end Audited

open Audited (lift raise record)

section Operations

variable (S : Site) (p : Principal)

/-- `require` -/
def authorise (capability : String) : Except BrokerFailure Unit :=
  if p.can capability then .ok () else .error .denied

def GIT_CLONE : String := "git:clone"

def GIT_PULL : String := "git:pull"

def notYours : ThreePartMessage where
  whatHappened := "That remote is not one of yours."
  likelyCause := "It was deleted, or another person added it."
  whatToDo := "Pick a remote from Settings → Git remotes, or add one."

/-- `RemoteStore.get` -/
def getRemote (remoteId : String) : Except BrokerFailure StoredRemote :=
  match S.remotes.lookup remoteId with
  | none => .error (.remote notYours)
  | some remote => if remote.owner ≠ p.subject then .error (.remote notYours) else .ok remote

def hostNotAllowed (hostname : String) : ThreePartMessage where
  whatHappened := hostname ++ " is not an allowed Git host. Allowed: " ++
    (if S.hosts.isEmpty then "none" else ", ".intercalate (S.hosts.map (·.hostname))) ++ "."
  likelyCause := "git-broker reaches only the hosts an administrator listed under Admin → Git " ++
    "hosts (config/git-hosts.yaml); a public host needs an ADR first."
  whatToDo := "Use a listed host, or ask an administrator to add this one."

def protocolNotAllowed (uri : RemoteUri) (host : GitHost) : ThreePartMessage where
  whatHappened := uri.hostname ++ " does not allow " ++ uri.scheme.text ++ "."
  likelyCause := "Admin → Git hosts allows " ++
    " and ".intercalate (host.protocols.map Protocol.text) ++ " for this host."
  whatToDo := "Use the allowed protocol, or ask an administrator to change the host entry."

def noPinnedHostKey (uri : RemoteUri) : ThreePartMessage where
  whatHappened := uri.hostname ++ " has no pinned SSH host key."
  likelyCause := "SSH is only used with StrictHostKeyChecking against a key an administrator " ++
    "pinned (CLAUDE.md §5.7)."
  whatToDo := "Ask an administrator to add the host key under Admin → Git hosts, or use https."

/-- `host_for` -/
def hostFor (uri : RemoteUri) : Except BrokerFailure GitHost :=
  match S.hosts.find? fun host => S.lower host.hostname = S.lower uri.hostname with
  | none => .error (.host (hostNotAllowed S uri.hostname))
  | some host =>
    if uri.scheme ∉ host.protocols then .error (.host (protocolNotAllowed uri host))
    else if uri.scheme = .ssh ∧ host.sshHostKey.getD "" = "" then
      .error (.host (noPinnedHostKey uri))
    else .ok host

def credentialExpired (remote : StoredRemote) (expiry : Nat) : ThreePartMessage where
  whatHappened := "The credential for " ++ remote.name ++ " expired on " ++ S.day expiry ++ "."
  likelyCause := "You set an expiry when you saved it."
  whatToDo := "Rotate the credential under Settings → Git remotes."

/-- A remote that may be used now, its address and its host. -/
structure Resolved where
  remote : StoredRemote
  uri : RemoteUri
  host : GitHost

/-- `_remote_and_host` -/
def remoteAndHost (remoteId : String) : Except BrokerFailure Resolved := do
  let remote ← getRemote S p remoteId
  let uri ← S.parse remote.uri
  let host ← hostFor S uri
  match remote.expiresAt.filter (· ≤ S.now) with
  | some expiry => .error (.broker (credentialExpired S remote expiry))
  | none => return ⟨remote, uri, host⟩

def noPinnedKey : ThreePartMessage where
  whatHappened := "No pinned host key is available for this SSH remote."
  likelyCause := "SSH runs with StrictHostKeyChecking=yes and only trusts a key an " ++
    "administrator pinned under Admin → Git hosts."
  whatToDo := "Ask an administrator to pin the host key, or use an https remote with a token."

/-- The address for git, and the token if there is one. -/
structure Access where
  url : String
  token : Option String

/-- `_with_credential` -/
def withCredential (found : Resolved) : Except BrokerFailure Access := do
  let secret ← S.reveal found.remote.credentialRef p.subject
  if found.remote.authType = .pat then
    return ⟨found.uri.httpsUrl found.host.httpsUsername, some secret⟩
  else if stripText (found.host.sshHostKey.getD "") = "" then .error (.credential noPinnedKey)
  else do
    S.keyFile
    return ⟨found.uri.sshUrl, none⟩

/-- The flags of `transport_args`. -/
def transportArgs (scheme : Protocol) : List String :=
  ["-c", "core.hooksPath=/var/empty", "-c", "core.fsmonitor=false", "-c", "credential.helper=",
    "-c", "core.sshCommand=/bin/false", "-c", "protocol.allow=never",
    "-c", "protocol." ++ scheme.text ++ ".allow=always"]

/-- Git with the transport of the remote. -/
def remoteGit (found : Resolved) (args : List String) : Except BrokerFailure CommandResult :=
  S.transport ("git" :: transportArgs found.uri.scheme ++ args)

def auditRowOf (remote : StoredRemote) (op : String) (result : AuditResult)
    (branch sha : Option String) : AuditRow where
  user := p.subject
  remoteId := some remote.id
  remoteName := some remote.name
  op := op
  branch := branch
  sha := sha
  result := result

def isInfix (part text : String) : Bool := text.toList.tails.any (part.toList.isPrefixOf ·)

/-- `_explain_failure` -/
def explainFailure (remote : StoredRemote) (result : CommandResult) : String :=
  let err := S.redact (stripText result.stderr)
  if isInfix "Authentication failed" err ∨ isInfix "403" err ∨ isInfix "401" err then
    remote.name ++ " did not accept the credential (" ++ remote.fingerprint ++ "). Rotate it " ++
      "under Settings → Git remotes; the value stored may be wrong or expired."
  else if isInfix "Could not resolve host" err ∨ isInfix "unable to access" err then
    remote.name ++ " could not be reached from git-broker. Check that " ++ remote.host ++
      " is up and listed under Admin → Git hosts."
  else remote.name ++ " did not answer as expected: " ++
    (match (Lines.splitlines err.toList).getLast? with
      | some line => String.ofList line
      | none => "git gave no reason.")

/-! ## Testing a connection -/

structure ConnectionReport where
  ok : Bool
  branches : List String := []
  sentence : String

/-- What follows the first `refs/heads/` of a line. -/
def afterHeads (line : List Char) : Option String :=
  (line.tails.find? ("refs/heads/".toList.isPrefixOf ·)).map fun rest =>
    String.ofList (rest.drop "refs/heads/".length)

def branchesOf (stdout : String) : List String :=
  (Lines.splitlines stdout.toList).filterMap afterHeads

def connected (remote : StoredRemote) (branches : List String) : ConnectionReport where
  ok := true
  branches := branches
  sentence := "Connected to " ++ remote.name ++ ": " ++ toString branches.length ++ " " ++
    (if branches.length = 1 then "branch" else "branches") ++
    (if branches.contains remote.defaultBranch then ", including " ++ remote.defaultBranch ++ "."
      else ".")

/-- `test_connection` -/
def testConnection (remoteId : String) : Audited ConnectionReport := do
  let found ← lift (remoteAndHost S p remoteId)
  let access ← lift (withCredential S p found)
  let result ← lift (remoteGit S found ["ls-remote", "--heads", access.url])
  if result.exitCode ≠ 0 then do
    record S (auditRowOf p found.remote "ls_remote" .failed none none)
    return { ok := false, sentence := explainFailure S found.remote result }
  else do
    record S (auditRowOf p found.remote "ls_remote" .ok none none)
    lift S.touched
    return connected found.remote (branchesOf result.stdout)

/-! ## Cloning and pulling -/

structure CloneResult where
  path : String
  branch : String
  sentence : String

/-- The directory of a project, under the data root. -/
def projectDir (slug : String) : String := "Coding/" ++ p.subject ++ "/Projects/" ++ slug

def alreadyHasFiles (slug : String) : ThreePartMessage where
  whatHappened := "The project " ++ slug ++ " already has files."
  likelyCause := "A clone needs an empty project directory."
  whatToDo := "Pull into the existing project instead, or choose another project name."

def notCloned (remote : StoredRemote) (result : CommandResult) : ThreePartMessage where
  whatHappened := "Cloning " ++ remote.name ++ " did not finish."
  likelyCause := explainFailure S remote result
  whatToDo := "Fix the cause and try again."

/-- `head_sha` -/
def headSha (W : GitWorkspace) : Option String :=
  let result := W.run ["rev-parse", "--verify", "HEAD"]
  if result.exitCode = 0 then some (stripText result.stdout) else none

/-- The address of a remote, without a credential. -/
def plainUrl (found : Resolved) : String :=
  if found.remote.authType = .pat then found.uri.httpsUrl "" else found.uri.sshUrl

/-- The workspace forgets the address with the account name. -/
def setUrl (found : Resolved) : Except BrokerFailure Unit :=
  ((S.workspace.git ["remote", "set-url", "origin", plainUrl found]).mapError .git).map fun _ => ()

/-- `clone` -/
def clone (remoteId slug : String) : Audited CloneResult := do
  lift (authorise p GIT_CLONE)
  let found ← lift (remoteAndHost S p remoteId)
  if S.hasFiles then raise (.broker (alreadyHasFiles slug))
  else do
    lift S.mkdir
    let access ← lift (withCredential S p found)
    let result ← lift (remoteGit S found ["clone", "--quiet", "--branch",
      found.remote.defaultBranch, access.url, projectDir p slug])
    if result.exitCode ≠ 0 then do
      record S (auditRowOf p found.remote "clone" .failed none none)
      raise (.broker (notCloned S found.remote result))
    else do
      lift (setUrl S found)
      record S (auditRowOf p found.remote "clone" .ok (some found.remote.defaultBranch)
        ((headSha S.workspace).bind fun sha => if sha = "" then none else some sha))
      lift S.touched
      return { path := projectDir p slug, branch := found.remote.defaultBranch
               sentence := "Cloned " ++ found.remote.name ++ " into " ++ slug ++
                 "; the sandbox sees it at /workspace." }

def notPulled (remote : StoredRemote) (wanted : String) (result : CommandResult) :
    ThreePartMessage where
  whatHappened := "Pulling " ++ wanted ++ " from " ++ remote.name ++ " did not finish."
  likelyCause := "The branch has diverged, or the remote did not answer: " ++ S.redact
    (match (Lines.splitlines (Text.strip result.stderr.toList)).getLast? with
      | some line => String.ofList line
      | none => "")
  whatToDo := "Commit or stash local changes and try again."

/-- The branch that is asked for, or else the default branch. -/
def wantedBranch (remote : StoredRemote) (branch : Option String) : String :=
  match branch with
  | some name => if name = "" then remote.defaultBranch else name
  | none => remote.defaultBranch

/-- `pull` -/
def pull (remoteId slug : String) (branch : Option String) : Audited String := do
  lift (authorise p GIT_PULL)
  let found ← lift (remoteAndHost S p remoteId)
  let wanted := wantedBranch found.remote branch
  let access ← lift (withCredential S p found)
  let result ← lift (remoteGit S found ["pull", "--quiet", "--ff-only", access.url, wanted])
  if result.exitCode ≠ 0 then do
    record S (auditRowOf p found.remote "pull" .failed (some wanted) none)
    raise (.broker (notPulled S found.remote wanted result))
  else do
    let sha := headSha S.workspace
    record S (auditRowOf p found.remote "pull" .ok (some wanted) sha)
    lift S.touched
    return "Pulled " ++ wanted ++ " from " ++ found.remote.name ++ "; " ++ slug ++ " is at " ++
      String.ofList ((sha.getD "").toList.take 10) ++ "."

/-! ## Pushing -/

/-- What is asked of a push, besides the remote. -/
structure PushOptions where
  slug : String
  branch : String
  agentAuthored : Bool := false
  openReview : Bool := true
  targetBranch : Option String := none

def pushRequest (remote : StoredRemote) (options : PushOptions) : PushRequest where
  principal := p
  remote := remote.toRemote
  slug := options.slug
  branch := options.branch
  agentAuthored := options.agentAuthored
  openReview := options.openReview
  targetBranch := options.targetBranch

def notPushed (remote : StoredRemote) (branch : String) (result : CommandResult) :
    ThreePartMessage where
  whatHappened := "Pushing " ++ branch ++ " to " ++ remote.name ++ " did not finish."
  likelyCause := explainFailure S remote result
  whatToDo := "Fix the cause and push again."

/-- The review request, if one is asked for and there is a token for it. -/
def askReview (r : PushRequest) (access : Access) : Except BrokerFailure ReviewAnswer :=
  if r.openReview ∧ r.isProtected = false then
    match access.token with
    | none => .ok .noToken
    | some token => S.review token r
  else .ok .noToken

/-- `push_branch` -/
def pushBranch (remoteId : String) (options : PushOptions) : Audited PushResult := do
  lift (authorise p GIT_PUSH_BRANCH)
  let found ← lift (remoteAndHost S p remoteId)
  let r := pushRequest p found.remote options
  let head := S.workspace.run ["rev-parse", "--verify", "refs/heads/" ++ r.branch]
  if head.exitCode ≠ 0 then raise (.broker (noSuchBranch r))
  else do
    let sha := stripText head.stdout
    let access ← lift (withCredential S p found)
    let listed ← lift (remoteGit S found ["ls-remote", access.url, "refs/heads/" ++ r.target])
    let report ← lift ((S.broker.examine r S.workspace (remoteSha listed) sha).mapError .git)
    if report.passed = false then do
      record S (auditRow r sha .refused)
      raise (.refused report)
    else do
      let pushed ← lift (remoteGit S found ["push", "--quiet", access.url,
        "refs/heads/" ++ r.branch ++ ":refs/heads/" ++ r.branch])
      if pushed.exitCode ≠ 0 then do
        record S (auditRow r sha .failed)
        raise (.broker (notPushed S found.remote r.branch pushed))
      else do
        let answer ← lift (askReview S r access)
        record S (auditRow r sha .ok)
        lift S.touched
        return pushResult r sha report answer

end Operations

end Git

end Slas
