/-
  Slas.Sandbox.Manager

  The sandbox manager (`slas_sandbox_manager.manager`) over the Engine API driver
  (`slas_sandbox_manager.runtime`): the sessions it lists, and the containers of the runtime.

  A call of the container API takes effect or not, and raises or not: how each answers is part of a
  call of the manager, and so is what the disk refuses.
-/

import Slas.Lib.DateTime
import Slas.Sandbox.Spec

namespace Slas

namespace Sandbox

/-! ## The container API -/

/-- How a call of the container API goes. -/
inductive Answer where
  | done
  /-- It raises, and nothing has happened. -/
  | failed
  /-- It raises, and what was asked has happened: the answer took too long. -/
  | lost
  deriving DecidableEq

inductive ApiError where
  /-- `ContainerError` -/
  | container
  | other
  deriving DecidableEq

/-- The containers of the runtime by name, and whether each is running. -/
abbrev Containers := List (String × Bool)

/-- A call of the API: what the containers come to, and what it returns or raises. -/
abbrev Called (α : Type) := Containers × Except ApiError α

namespace Api

variable (name : String) (answer : Answer) (cs : Containers)

/-- A call with an effect, as it is answered. -/
def called (effect : Containers) : Answer → Called Unit
  | .done => (effect, .ok ())
  | .failed => (cs, .error .container)
  | .lost => (effect, .error .container)

/-- A name that is taken is refused. -/
def create : Called Unit :=
  if (cs.lookup name).isSome then (cs, .error .container)
  else called cs (Dict.set name false cs) answer

def start : Called Unit :=
  if (cs.lookup name).isSome then called cs (Dict.set name true cs) answer
  else (cs, .error .container)

/-- A missing container on `stop` or `remove` is no failure. -/
def stop : Called Unit :=
  called cs (if (cs.lookup name).isSome then Dict.set name false cs else cs) answer

def remove : Called Unit := called cs (Dict.pop name cs) answer

/-- `inspect`, of which only `running` is read. -/
def inspect : Called (Option Bool) :=
  match answer with
  | .done => (cs, .ok (cs.lookup name))
  | _ => (cs, .error .container)

end Api

/-! ## The runtime -/

structure SandboxHandle where
  id : String
  spec : SandboxSpec

def SandboxHandle.name (handle : SandboxHandle) : String := handle.spec.name

/-- How the API answers `create` of the runtime. -/
structure CreateAnswers where
  /-- `create_spec` raises: the engine does not answer, or the seccomp profile cannot be read. -/
  bodyRaises : Bool := false
  create : Answer := .done
  /-- The answer of `create` is no JSON. -/
  unreadable : Bool := false
  id : String := ""
  start : Answer := .done
  remove : Answer := .done

/-- How the API and the disk answer the closing of a session. -/
structure CloseAnswers where
  inspect : Answer := .done
  stop : Answer := .done
  remove : Answer := .done
  treeRaises : Bool := false

namespace Driver

/-- `ContainerApiRuntime.create`: a container that was created but never started is removed
    again, and a failure of that is suppressed. -/
def create (spec : SandboxSpec) (a : CreateAnswers) (cs : Containers) : Called SandboxHandle :=
  if a.bodyRaises then (cs, .error .other)
  else match Api.create spec.name a.create cs with
  | (cs, .error _) => ((Api.remove spec.name a.remove cs).1, .error .container)
  | (cs, .ok ()) =>
    if a.unreadable then (cs, .error .other)
    else match Api.start spec.name a.start cs with
    | (cs, .error _) => ((Api.remove spec.name a.remove cs).1, .error .container)
    | (cs, .ok ()) => (cs, .ok ⟨if a.id = "" then spec.name else a.id, spec⟩)

/-- `ContainerApiRuntime.destroy` -/
def destroy (handle : SandboxHandle) (a : CloseAnswers) (cs : Containers) : Called Unit :=
  match Api.stop handle.name a.stop cs with
  | (cs, .error e) => (cs, .error e)
  | (cs, .ok ()) => Api.remove handle.name a.remove cs

/-- `ContainerApiRuntime.alive` -/
def alive (handle : SandboxHandle) (a : CloseAnswers) (cs : Containers) : Called Bool :=
  match Api.inspect handle.name a.inspect cs with
  | (cs, .error e) => (cs, .error e)
  | (cs, .ok info) => (cs, .ok (info = some true))

end Driver

/-! ## Sessions -/

structure Session where
  id : String
  user : String
  slug : String
  handle : SandboxHandle
  openedAt : DateTime
  lastUsedAt : DateTime
  expiresAt : DateTime
  runtimeSentence : String

/-- `timedelta(seconds=s)` -/
def seconds (s : Nat) : Nat := s * 1000000

/-- The session after a command that began at `now`. -/
def Session.renewed (session : Session) (now : DateTime) : Session :=
  { session with lastUsedAt := now, expiresAt := now + seconds session.handle.spec.ttlS }

/-- How the manager is set up.  `lower` is `str.lower`. -/
structure Setup where
  lower : String → String
  dataRoot : PurePath
  profile : Profile := .quickstart
  tier : Tier := .gvisor
  maxSessionsPerUser : Nat := 3
  defaultTtlS : Nat := 3600

/-- The manager, what the last probe has found, and the containers. -/
structure Manager where
  sessions : List (String × Session) := []
  counter : Nat := 0
  runscAvailable : Bool
  kataAvailable : Bool := false
  containers : Containers := []

/-- What a call of the manager raises. -/
inductive Raised where
  /-- `SandboxError`: too many sessions, of which the person has that many. -/
  | limit (open_ : Nat)
  | noKata
  | noGvisor
  | notOpen
  | expired (slug : String) (minutes : Nat)
  /-- `ValueError` of `exec` without an argv. -/
  | noArgv
  /-- A field of the spec that its own check refuses. -/
  | invalid (fields : List String)
  | hardening (e : HardeningError)
  | runtime (e : ApiError)
  | disk

abbrev Outcome (α : Type) := Manager × Except Raised α

structure OpenCall where
  user : String
  slug : String
  image : String
  language : String
  ttlS : Option Nat := none
  now : DateTime
  prepareRaises : Bool := false
  scratchRaises : Bool := false
  answers : CreateAnswers := {}

structure ExecResult where
  exitCode : Int
  stdout : String := ""
  stderr : String := ""
  timedOut : Bool := false

namespace Setup

variable (S : Setup)

def codingRoot (user : String) : PurePath := (S.dataRoot.join "Coding").join user

def projectDir (user slug : String) : PurePath := ((S.codingRoot user).join "Projects").join slug

def gitconfigPath (user : String) : PurePath := (S.codingRoot user).join "gitconfig"

def scratchDir (user sessionId : String) : PurePath :=
  ((S.codingRoot user).join "Container").join sessionId

def mounts (user slug sessionId : String) : List Mount :=
  [⟨(S.projectDir user slug).str, WORKSPACE, .rw⟩,
    ⟨(S.scratchDir user sessionId).str, SCRATCH, .rw⟩,
    ⟨(S.gitconfigPath user).str, GITCONFIG_TARGET, .ro⟩]

end Setup

/-- `strftime("%Y%m%d%H%M%S")` -/
def stamp (t : DateTime) : List Char :=
  let c := DateTime.civilOfDays (t / 1000000 / 86400)
  let s := t / 1000000 % 86400
  [DateTime.pad 4 c.year, DateTime.pad 2 c.month, DateTime.pad 2 c.day, DateTime.pad 2 (s / 3600),
    DateTime.pad 2 (s % 3600 / 60), DateTime.pad 2 (s % 60)].flatten

def sessionId (slug : String) (now : DateTime) (counter : Nat) : String :=
  slug ++ "-" ++ String.ofList (stamp now) ++ "-" ++ toString counter

namespace Manager

variable (S : Setup) (m : Manager)

/-- `sessions_for` -/
def sessionsFor (user : String) : List Session :=
  (m.sessions.map (·.2)).filter fun session => session.user = user

/-- `runtime_choice` -/
def runtimeChoice : Except Raised (Runtime × String) :=
  match S.tier with
  | .kata =>
    if m.kataAvailable then
      .ok (.kataFc, "The sandbox runs in its own Kata micro-VM on Firecracker: a separate " ++
        "kernel, no shared host kernel surface.")
    else .error .noKata
  | .gvisor =>
    if m.runscAvailable then .ok (.runsc, "The sandbox runs under gVisor.")
    else match S.profile with
    | .prod => .error .noGvisor
    | .quickstart =>
      .ok (.runc, "gVisor is not installed on this host, so the sandbox runs under hardened " ++
        "runc: its own user namespace, a seccomp profile, no network and no capabilities.")

/-- The spec that a call of `open` asks for. -/
def specFor (call : OpenCall) (runtime : Runtime) (id : String) : SandboxSpec where
  name := NAME_PREFIX ++ id
  image := call.image
  runtime := runtime
  user := call.user
  slug := call.slug
  mounts := S.mounts call.user call.slug id
  env := defaultEnv call.language
  ttlS := match call.ttlS with
    | some ttl => if ttl = 0 then S.defaultTtlS else ttl
    | none => S.defaultTtlS

/-- `SandboxSpec(...)`: its own checks, then the hardening gate. -/
def checkSpec (spec : SandboxSpec) : Except Raised Unit :=
  if spec.invalidFields ≠ [] then .error (.invalid spec.invalidFields)
  else match checkHardening S.lower spec with
  | some e => .error (.hardening e)
  | none => .ok ()

/-- `open` up to the runtime: the counter it comes to, and the id, the spec and the sentence. -/
def prepare (call : OpenCall) : Nat × Except Raised (String × SandboxSpec × String) :=
  let mine := m.sessionsFor call.user
  if S.maxSessionsPerUser ≤ mine.length then (m.counter, .error (.limit mine.length))
  else match m.runtimeChoice S with
  | .error e => (m.counter, .error e)
  | .ok (runtime, sentence) =>
    if call.prepareRaises then (m.counter, .error .disk)
    else
      let counter := m.counter + 1
      let id := sessionId call.slug call.now counter
      let spec := specFor S call runtime id
      if call.scratchRaises then (counter, .error .disk)
      else match checkSpec S spec with
      | .error e => (counter, .error e)
      | .ok () => (counter, .ok (id, spec, sentence))

/-- `open` -/
def open_ (call : OpenCall) : Outcome Session :=
  match m.prepare S call with
  | (counter, .error e) => ({ m with counter := counter }, .error e)
  | (counter, .ok (id, spec, sentence)) =>
    match Driver.create spec call.answers m.containers with
    | (cs, .error e) => ({ m with counter := counter, containers := cs }, .error (.runtime e))
    | (cs, .ok handle) =>
      let session : Session :=
        { id := id, user := call.user, slug := call.slug, handle := handle, openedAt := call.now,
          lastUsedAt := call.now, expiresAt := call.now + seconds spec.ttlS,
          runtimeSentence := sentence }
      ({ m with counter := counter, containers := cs,
                sessions := Dict.set id session m.sessions }, .ok session)

/-- `close`: the session is no longer listed from the first step on. -/
def close (id : String) (a : CloseAnswers) : Outcome Unit :=
  match m.sessions.lookup id with
  | none => (m, .ok ())
  | some session =>
    let m := { m with sessions := Dict.pop id m.sessions }
    match Driver.alive session.handle a m.containers with
    | (_, .error e) => (m, .error (.runtime e))
    | (_, .ok false) => (m, if a.treeRaises then .error .disk else .ok ())
    | (_, .ok true) =>
      match Driver.destroy session.handle a m.containers with
      | (cs, .error e) => ({ m with containers := cs }, .error (.runtime e))
      | (cs, .ok ()) =>
        ({ m with containers := cs }, if a.treeRaises then .error .disk else .ok ())

/-- What `exec` does before the command: a session that has expired is closed. -/
def letIn (id : String) (argv : List String) (now : DateTime) (a : CloseAnswers) :
    Outcome Session :=
  match m.sessions.lookup id with
  | none => (m, .error .notOpen)
  | some session =>
    if session.expiresAt ≤ now then
      match m.close id a with
      | (m, .error e) => (m, .error e)
      | (m, .ok ()) => (m, .error (.expired session.slug (session.handle.spec.ttlS / 60)))
    else if argv = [] then (m, .error .noArgv)
    else (m, .ok session)

/-- What `exec` does after the command, where the session is still listed. -/
def renew (id : String) (now : DateTime) : Manager :=
  match m.sessions.lookup id with
  | none => m
  | some session => { m with sessions := Dict.set id (session.renewed now) m.sessions }

/-- `exec`, with how the command goes. -/
def exec (id : String) (argv : List String) (now : DateTime) (a : CloseAnswers)
    (command : Except ApiError ExecResult) : Outcome ExecResult :=
  match m.letIn id argv now a with
  | (m, .error e) => (m, .error e)
  | (m, .ok _) =>
    match command with
    | .error e => (m, .error (.runtime e))
    | .ok result => (m.renew id now, .ok result)

/-- The ids of the sessions that have expired. -/
def expired (now : DateTime) : List String :=
  ((m.sessions.map (·.2)).filter fun session => session.expiresAt ≤ now).map (·.id)

/-- Close each of them, until closing one raises. -/
def closeAll (answers : String → CloseAnswers) : List String → Manager → Outcome Unit
  | [], m => (m, .ok ())
  | id :: ids, m =>
    match m.close id (answers id) with
    | (m, .error e) => (m, .error e)
    | (m, .ok ()) => closeAll answers ids m

/-- `reap` -/
def reap (now : DateTime) (answers : String → CloseAnswers) : Outcome (List String) :=
  match closeAll answers (m.expired now) m with
  | (m', .error e) => (m', .error e)
  | (m', .ok ()) => (m', .ok (m.expired now))

end Manager

end Sandbox

end Slas
