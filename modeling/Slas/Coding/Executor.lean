/-
  Slas.Coding.Executor

  The steps of a coding task (`CodingExecutor` of `slas_orchestrator.coding.executor`).

  What the executor remembers of a ticket (its sandbox session, the commit it began from,
  its branch) is in the memory of the process; the project, the sandbox, the model and the
  voters are outside, and each of them may raise.  `execute_keeps`: only `sandbox_open` sets
  the session and the base of a ticket.
-/

import Slas.Coding.Agent
import Slas.Kernel.Rca

namespace Slas

namespace Coding

/-! ## What the executor works with -/

structure Session where
  id : String
  user : String
  slug : String
  runtimeSentence : String
  /-- `handle.spec.sentence()` -/
  specSentence : String
  deriving DecidableEq

structure CheckResult where
  kind : String
  description : String
  exitCode : Int
  output : String := ""

def CheckResult.ok (r : CheckResult) : Bool := r.exitCode == 0

structure EditRequest where
  task : TaskItem
  iteration : Nat
  languages : List String
  files : List (String × String)
  failures : List CheckResult := []

/-- What the model proposes: a path and its new content, or none to delete it. -/
structure EditSet where
  files : List (String × Option String) := []
  note : String := ""

structure ExecResult where
  exitCode : Int
  stdout : String
  stderr : String
  timedOut : Bool := false

/-- An edit that is refused, with the message of `EditError`, or another exception. -/
inductive EditFailure where
  | refused (message : ThreePartMessage)
  | raised (message : String)

/-- A call outside the process: what it answers or raises, and what it leaves. -/
abbrev Outside (E α : Type) := E → Except String α × E

/-- What is outside the process: the sandbox manager, the git workspace of a session and its
    user, the files of a project, the model and the voters. -/
structure Sandbox (E : Type) where
  /-- `manager.open`, of a user, a slug, an image, a language and a display name -/
  openSession : String → String → String → String → String → Outside E Session
  exec : String → List String → Outside E ExecResult
  projectDir : String → String → String
  artifactsDir : String → String → String
  initRepo : Session → String → Outside E Unit
  headSha : Session → String → Outside E (Option String)
  checkoutBranch : Session → String → String → Outside E String
  addAll : Session → String → Outside E Unit
  hasChanges : Session → String → Outside E Bool
  commit : Session → String → String → String → List (String × String) → Outside E String
  /-- of a base, and as a summary or in full -/
  diff : Session → String → String → Bool → Outside E String
  snapshot : String → Outside E (List (String × String))
  applyEdits : String → EditSet → E → Except EditFailure (List String) × E
  zipProject : String → String → Outside E Export
  proposeEdits : EditRequest → Outside E EditSet
  crossChecker : Option (String → List String → Outside E ConsensusVerdict) := none

/-- The executor of a process, and the functions it uses on texts and values. -/
structure CodingExecutor (E : Type) where
  sandbox : Sandbox E
  displayNames : String → Option String := fun _ => none
  str : Json → String
  int : Json → Except String Int
  /-- `json.dumps(…, ensure_ascii=False)` -/
  dumps : Json → String
  sha256 : String → String

def STALL_LIMIT : Nat := 3
def EMPTY_TREE : String := "4b825dc642cb6eb9a060e54bf8d69288fbee4904"
def MAX_DIFF_CHARS : Nat := 40000

/-! ## Computations of the process -/

/-- What the process remembers of its tickets: `_sessions`, `_base` and `_branches`. -/
structure Memory where
  sessions : String → Option Session := fun _ => none
  base : String → Option String := fun _ => none
  branches : String → Option String := fun _ => none

/-- A computation that may raise, over the memory and what is outside. -/
def CodingM (E α : Type) : Type := Memory × E → Except String α × (Memory × E)

namespace CodingM

variable {E α β : Type}

instance : Monad (CodingM E) where
  pure a := fun s => (.ok a, s)
  bind x f := fun s =>
    match x s with
    | (.ok a, s') => f a s'
    | (.error e, s') => (.error e, s')

def raise (message : String) : CodingM E α := fun s => (.error message, s)

def lift (x : Except String α) : CodingM E α := fun s => (x, s)

def outside (call : Outside E α) : CodingM E α := fun s =>
  ((call s.2).1, (s.1, (call s.2).2))

def getMemory : CodingM E Memory := fun s => (.ok s.1, s)

def remember (f : Memory → Memory) : CodingM E Unit := fun s => (.ok (), (f s.1, s.2))

/-- An edit that is refused is a value here, for it is caught. -/
def edits (call : E → Except EditFailure (List String) × E) :
    CodingM E (Except ThreePartMessage (List String)) := fun s =>
  match call s.2 with
  | (.ok changed, e) => (.ok (.ok changed), (s.1, e))
  | (.error (.refused message), e) => (.ok (.error message), (s.1, e))
  | (.error (.raised message), e) => (.error message, (s.1, e))

end CodingM

open CodingM

namespace CodingExecutor

variable {E : Type} (X : CodingExecutor E)

/-! ## The arguments of a step -/

/-- `value[key]` -/
def item (value : Json) (key : String) : Except String Json :=
  match value with
  | .obj fields =>
    match fields.lookup key with
    | some v => .ok v
    | none => .error ("'" ++ key ++ "'")
  | _ => .error "the value has no keys"

/-- `step.args[key]` -/
def arg (step : Step) (key : String) : Except String Json := item (.obj step.args) key

/-- `str(step.args.get(key, default))` -/
def strArgOr (step : Step) (key default : String) : String :=
  ((step.args.lookup key).map X.str).getD default

/-- `str(step.args.get(key) or default)` -/
def strArgOrElse (step : Step) (key default : String) : String :=
  match step.args.lookup key with
  | none | some .null | some (.bool false) | some (.arr []) | some (.obj []) => default
  | some (.str s) => if s = "" then default else s
  | some (.num d) => if d.mant = 0 then default else X.str (.num d)
  | some value => X.str value

/-- `list(step.args.get(key, []))` -/
def listArg (step : Step) (key : String) : Except String (List Json) :=
  match step.args.lookup key with
  | none => .ok []
  | some value => Json.iterate value

/-- `TaskItem.model_validate` -/
def taskOf : Json → Except String TaskItem
  | .obj fields =>
    match Json.fieldOr Json.Codec.int "n" none fields,
      Json.fieldOr Json.Codec.str "title" none fields,
      Json.fieldOr Json.Codec.str.list "files" (some []) fields,
      Json.fieldOr Json.Codec.str "acceptance" (some "") fields with
    | some n, some title, some files, some acceptance =>
      if Json.onlyKeys ["n", "title", "files", "acceptance"] fields ∧ 1 ≤ n ∧ title ≠ "" ∧
          title.length ≤ 200 then
        .ok { n := n.toNat, title, files, acceptance }
      else .error "the task is not valid"
    | _, _, _, _ => .error "the task is not valid"
  | _ => .error "the task is not valid"

/-! ## The steps -/

/-- `_require_session` -/
def requireSession (context : ExecutionContext) : CodingM E Session := do
  let m ← getMemory
  match m.sessions context.ticketId with
  | some session => pure session
  | none => raise (context.ticketId ++ " has no open sandbox; run sandbox_open first")

/-- `_project` -/
def project (session : Session) : String := X.sandbox.projectDir session.user session.slug

/-- `_toolchain` -/
def toolchain (step : Step) : CodingM E Observation := do
  let records ← lift (listArg step "resolutions")
  return { exitCode := some 0
           stdout := String.join (records.map fun r => X.dumps r ++ "\n")
           summary := X.strArgOrElse step "sentence" step.title }

/-- `_sandbox_open` -/
def sandboxOpen (step : Step) (context : ExecutionContext) : CodingM E Observation := do
  let slug ← lift ((arg step "slug").map X.str)
  let image ← lift ((arg step "image").map X.str)
  let language ← lift ((arg step "language").map X.str)
  let session ← outside (X.sandbox.openSession context.user slug image language
    ((X.displayNames context.user).getD context.user))
  remember fun m =>
    { m with sessions := Function.update m.sessions context.ticketId (some session) }
  outside (X.sandbox.initRepo session context.user)
  let head ← outside (X.sandbox.headSha session context.user)
  let base := (orElseText head (some EMPTY_TREE)).getD ""
  remember fun m => { m with base := Function.update m.base context.ticketId (some base) }
  return { exitCode := some 0
           summary := session.runtimeSentence ++ " " ++ session.specSentence
           stdout := "project=" ++ X.project session ++ "\nbase=" ++ base ++ "\n" }

/-- The last `k` characters. -/
def lastChars (k : Nat) (s : String) : String := String.ofList (s.toList.drop (s.length - k))

/-- One turn of `_run_checks`. -/
def runCheck (session : Session) (c : Json) : CodingM E CheckResult := do
  let raw ← lift (item c "argv")
  let argv := match raw with
    | .arr parts => parts.map X.str
    | _ => []
  let result ← outside (X.sandbox.exec session.id argv)
  let kind ← lift ((item c "kind").map X.str)
  let description ← lift ((item c "description").map X.str)
  return { kind, description, exitCode := if result.timedOut then 124 else result.exitCode
           output := lastChars 4000 (stripText (result.stdout ++ result.stderr)) }

/-- `_run_checks` -/
def runChecks (session : Session) : List Json → CodingM E (List CheckResult)
  | [] => pure []
  | c :: cs => do
    let first ← X.runCheck session c
    let rest ← runChecks session cs
    return first :: rest

/-- What the failures of an iteration are told apart by. -/
def signature (failures : List CheckResult) : String :=
  X.sha256 ("\n".intercalate (failures.map fun r =>
    r.kind ++ ":" ++ toString r.exitCode ++ ":" ++ lastChars 500 r.output))

def outputs (failures : List CheckResult) : String :=
  "\n".intercalate (failures.map fun r => "[" ++ r.kind ++ "] " ++ r.output)

/-- What the loop of `_iterate` carries from one iteration to the next. -/
structure Loop where
  failures : List CheckResult := []
  log : List String := []
  stall : Nat := 0
  lastSignature : Option String := none
  /-- the sentence of the failed checks, once there was an iteration -/
  failed : Option String := none

/-- The loop of `_iterate`, with the iterations that are left. -/
def iterateLoop (session : Session) (task : TaskItem) (checks : List Json)
    (languages : List String) (maxIterations : Int) : Nat → Nat → Loop → CodingM E Observation
  | 0, _, l =>
    match l.failed with
    | none => raise "cannot access local variable 'failed'"
    | some failed =>
      return { exitCode := some 3
               summary := task.title ++ ": not finished after " ++ toString maxIterations ++
                 " iterations (" ++ failed ++ "). A person needs to look at it."
               stdout := "\n".intercalate l.log ++ "\n", stderr := outputs l.failures }
  | left + 1, iteration, l => do
    let files ← outside (X.sandbox.snapshot (X.project session))
    let proposed ← outside (X.sandbox.proposeEdits
      { task, iteration, languages, files, failures := l.failures })
    match ← edits (X.sandbox.applyEdits (X.project session) proposed) with
    | .error message =>
      return { exitCode := some 2, summary := message.whatHappened
               stdout := "\n".intercalate l.log }
    | .ok changed =>
      let results ← X.runChecks session checks
      let failures := results.filter fun r => !r.ok
      let succeeded := listed ((results.filter CheckResult.ok).map fun r => r.kind ++ " ok")
      let passed := if succeeded = "" then "no checks" else succeeded
      let failed := listed (failures.map fun r => r.kind ++ " failed")
      let log := l.log ++ ["iteration " ++ toString iteration ++ ": " ++
        toString changed.length ++ " file(s) changed; " ++ passed ++
        (if failed = "" then "" else "; " ++ failed)]
      if failures = [] then
        return { exitCode := some 0
                 summary := task.title ++ ": done after " ++ toString iteration ++ " " ++
                   (if iteration = 1 then "iteration" else "iterations") ++ "; " ++ passed ++ "."
                 stdout := "\n".intercalate log ++ "\n" }
      else
        let sign := X.signature failures
        let stall := if changed = [] ∨ l.lastSignature = some sign then l.stall + 1 else 0
        if STALL_LIMIT ≤ stall then
          return { exitCode := some 3
                   summary := task.title ++ ": stopped after " ++ toString iteration ++
                     " iterations because the last " ++ toString STALL_LIMIT ++
                     " made no progress (" ++ failed ++ "). A person needs to look at it."
                   stdout := "\n".intercalate log ++ "\n", stderr := outputs failures }
        else
          iterateLoop session task checks languages maxIterations left (iteration + 1)
            { failures, log, stall, lastSignature := some sign, failed := some failed }

/-- `_iterate` -/
def iterate (step : Step) (context : ExecutionContext) : CodingM E Observation := do
  let session ← requireSession context
  let task ← lift ((arg step "task").bind taskOf)
  let checks ← lift (listArg step "checks")
  let maxIterations ← lift (match step.args.lookup "max_iterations" with
    | none => .ok 6
    | some value => X.int value)
  let languages ← lift ((listArg step "languages").map fun l => l.map X.str)
  X.iterateLoop session task checks languages maxIterations maxIterations.toNat 1 {}

/-- `_commit` -/
def commit (step : Step) (context : ExecutionContext) : CodingM E Observation := do
  let session ← requireSession context
  let branch ← outside (X.sandbox.checkoutBranch session context.user
    ("slas/" ++ context.ticketId))
  remember fun m =>
    { m with branches := Function.update m.branches context.ticketId (some branch) }
  outside (X.sandbox.addAll session context.user)
  let changed ← outside (X.sandbox.hasChanges session context.user)
  if !changed then
    return { exitCode := some 0, summary := "Nothing new to commit on " ++ branch ++ "." }
  else
    let sha ← outside (X.sandbox.commit session context.user
      (X.strArgOrElse step "subject" "Changes by the Coding Agent") (X.strArgOr step "body" "")
      [("Slas-Agent", "coding"), ("Slas-Ticket", context.ticketId)])
    return { exitCode := some 0
             summary := "Committed " ++ truncated 10 sha ++ " on branch " ++ branch ++
               " with Slas-Agent and Slas-Ticket trailers."
             stdout := sha ++ "\n" }

/-- `_export_zip` -/
def exportZip (context : ExecutionContext) : CodingM E Observation := do
  let session ← requireSession context
  let out := X.sandbox.artifactsDir context.user context.ticketId ++ "/" ++ session.slug ++ ".zip"
  let exported ← outside (X.sandbox.zipProject (X.project session) out)
  let digest := (exported.sha256.map fun d => truncated 12 d.1).getD ""
  return { exitCode := some 0
           summary := "ZIP exported to " ++ exported.path ++ " (sha256 " ++ digest ++ "…)."
           exports := [exported] }

/-- A diff against the base, where the repository has a commit. -/
def diffIfAny (session : Session) (user base : String) (stat : Bool) : CodingM E String := do
  let head ← outside (X.sandbox.headSha session user)
  if (head.getD "") = "" then return ""
  else outside (X.sandbox.diff session user base stat)

/-- `_cross_check` -/
def crossCheck (step : Step) (context : ExecutionContext) : CodingM E Observation := do
  let session ← requireSession context
  let m ← getMemory
  let base := (m.base context.ticketId).getD EMPTY_TREE
  let diff ← X.diffIfAny session context.user base false
  let stat ← X.diffIfAny session context.user base true
  if stripText diff = "" then
    return { exitCode := some 0
             summary := "Nothing changed, so there is nothing to cross-check." }
  else
    match X.sandbox.crossChecker with
    | none =>
      return { exitCode := some 3
               summary := "Not cross-checked: no voters are configured, so the change needs " ++
                 "your own review before it is used."
               stdout := stat }
    | some check =>
      let verdict ← outside (check (X.strArgOr step "decision" "code_change")
        ["Task: " ++ step.title, "Diff stat:\n" ++ stat,
          "Diff:\n" ++ truncated MAX_DIFF_CHARS diff])
      return { exitCode := some (if verdict.agreed then 0 else 3), summary := verdict.sentence
               stdout := stat, votes := verdict.votes }

/-- `execute`: the handler of the primitive. -/
def execute (step : Step) (context : ExecutionContext) : CodingM E Observation :=
  if step.primitive = "toolchain" then X.toolchain step
  else if step.primitive = "sandbox_open" then X.sandboxOpen step context
  else if step.primitive = "iterate" then X.iterate step context
  else if step.primitive = "commit" then X.commit step context
  else if step.primitive = "export_zip" then X.exportZip context
  else if step.primitive = "cross_check" then X.crossCheck step context
  else raise ("Step " ++ step.id ++ " uses the primitive '" ++ step.primitive ++
    "', which this executor does not know.")

end CodingExecutor

/-! ## What a step leaves of the memory -/

namespace CodingM

variable {E α β : Type} {i : String}

/-- The computation leaves the session and the base of the ticket. -/
def Keeps (i : String) (p : CodingM E α) : Prop :=
  ∀ s, (p s).2.1.sessions i = s.1.sessions i ∧ (p s).2.1.base i = s.1.base i

theorem Keeps.pure (a : α) : Keeps i (Pure.pure a : CodingM E α) := fun _ => ⟨rfl, rfl⟩

theorem Keeps.raise (message : String) : Keeps i (CodingM.raise message : CodingM E α) :=
  fun _ => ⟨rfl, rfl⟩

theorem Keeps.lift (x : Except String α) : Keeps i (CodingM.lift x : CodingM E α) :=
  fun _ => ⟨rfl, rfl⟩

theorem Keeps.outside (call : Outside E α) : Keeps i (CodingM.outside call) := fun _ => ⟨rfl, rfl⟩

theorem Keeps.getMemory : Keeps i (CodingM.getMemory : CodingM E Memory) := fun _ => ⟨rfl, rfl⟩

theorem Keeps.remember {f : Memory → Memory}
    (h : ∀ m, (f m).sessions i = m.sessions i ∧ (f m).base i = m.base i) :
    Keeps i (CodingM.remember f : CodingM E Unit) := fun s => h s.1

theorem Keeps.edits (call : E → Except EditFailure (List String) × E) :
    Keeps i (CodingM.edits call) := by
  intro s
  unfold CodingM.edits
  split <;> exact ⟨rfl, rfl⟩

theorem bind_ok {p : CodingM E α} {f : α → CodingM E β} {s s' : Memory × E} {a : α}
    (h : p s = (.ok a, s')) : (p >>= f) s = f a s' := by
  simp only [Bind.bind, h]

theorem bind_error {p : CodingM E α} {f : α → CodingM E β} {s s' : Memory × E} {e : String}
    (h : p s = (.error e, s')) : (p >>= f) s = (.error e, s') := by
  simp only [Bind.bind, h]

theorem Keeps.bind {p : CodingM E α} {f : α → CodingM E β} (hp : Keeps i p)
    (hf : ∀ a, Keeps i (f a)) : Keeps i (p >>= f) := by
  intro s
  obtain ⟨hsession, hbase⟩ := hp s
  cases hrun : p s with
  | mk result s' =>
    rw [hrun] at hsession hbase
    cases result with
    | error e =>
      rw [bind_error hrun]
      exact ⟨hsession, hbase⟩
    | ok a =>
      obtain ⟨hsession', hbase'⟩ := hf a s'
      rw [bind_ok hrun]
      exact ⟨hsession'.trans hsession, hbase'.trans hbase⟩

/-- Whatever the computation returns has the property. -/
def Returns (φ : α → Prop) (p : CodingM E α) : Prop := ∀ s a s', p s = (.ok a, s') → φ a

theorem Returns.pure {φ : α → Prop} {a : α} (h : φ a) : Returns φ (Pure.pure a : CodingM E α) := by
  intro s b s' hrun
  obtain rfl : a = b := Except.ok.inj (Prod.mk.inj hrun).1
  exact h

theorem Returns.raise {φ : α → Prop} (message : String) :
    Returns φ (CodingM.raise message : CodingM E α) := by
  intro s b s' hrun
  cases (Prod.mk.inj hrun).1

theorem Returns.bind {φ : β → Prop} {p : CodingM E α} {f : α → CodingM E β}
    (h : ∀ a, Returns φ (f a)) : Returns φ (p >>= f) := by
  intro s b s' hrun
  cases hp : p s with
  | mk result s₁ =>
    cases result with
    | error e =>
      rw [bind_error hp] at hrun
      cases (Prod.mk.inj hrun).1
    | ok a =>
      rw [bind_ok hp] at hrun
      exact h a s₁ b s' hrun

theorem Returns.ite {φ : α → Prop} {c : Prop} [Decidable c] {p q : CodingM E α}
    (hp : Returns φ p) (hq : Returns φ q) : Returns φ (if c then p else q) := by
  split
  · exact hp
  · exact hq

theorem Keeps.ite {c : Prop} [Decidable c] {p q : CodingM E α} (hp : Keeps i p)
    (hq : Keeps i q) : Keeps i (if c then p else q) := by
  split
  · exact hp
  · exact hq

end CodingM

namespace CodingExecutor

variable {E : Type} {X : CodingExecutor E} {step : Step} {context : ExecutionContext}
  {session : Session} {i : String}

theorem requireSession_keeps : Keeps i (requireSession context : CodingM E Session) := by
  refine .bind .getMemory fun m => ?_
  split
  · exact .pure _
  · exact .raise _

theorem runChecks_keeps (checks : List Json) : Keeps i (X.runChecks session checks) := by
  induction checks with
  | nil => exact .pure _
  | cons c cs ih =>
    have hone : Keeps i (X.runCheck session c) :=
      .bind (.lift _) fun _ => .bind (.outside _) fun _ => .bind (.lift _) fun _ =>
        .bind (.lift _) fun _ => .pure _
    exact .bind hone fun _ => .bind ih fun _ => .pure _

theorem iterateLoop_keeps {task : TaskItem} {checks : List Json} {languages : List String}
    {maxIterations : Int} (left iteration : Nat) (l : Loop) :
    Keeps i (X.iterateLoop session task checks languages maxIterations left iteration l) := by
  induction left generalizing iteration l with
  | zero =>
    rw [iterateLoop]
    split
    · exact .raise _
    · exact .pure _
  | succ left ih =>
    rw [iterateLoop]
    refine .bind (.outside _) fun files => .bind (.outside _) fun proposed =>
      .bind (.edits _) fun edited => ?_
    split
    · exact .pure _
    · refine .bind (runChecks_keeps _) fun results => ?_
      exact .ite (.pure _) (.ite (.pure _) (ih _ _))

theorem diffIfAny_keeps {user base : String} {stat : Bool} :
    Keeps i (X.diffIfAny session user base stat) := by
  refine .bind (.outside _) fun head => ?_
  split
  · exact .pure _
  · exact .outside _

theorem commit_keeps : Keeps i (X.commit step context) := by
  refine .bind requireSession_keeps fun session => .bind (.outside _) fun branch =>
    .bind (.remember fun _ => ⟨rfl, rfl⟩) fun _ => .bind (.outside _) fun _ =>
      .bind (.outside _) fun changed => ?_
  split
  · exact .pure _
  · exact .bind (.outside _) fun _ => .pure _

theorem crossCheck_keeps : Keeps i (X.crossCheck step context) := by
  refine .bind requireSession_keeps fun session => .bind .getMemory fun m =>
    .bind diffIfAny_keeps fun diff => .bind diffIfAny_keeps fun stat => ?_
  split
  · exact .pure _
  · split
    · exact .pure _
    · exact .bind (.outside _) fun _ => .pure _

/-- The sandbox of another ticket is opened. -/
theorem sandboxOpen_keeps (h : context.ticketId ≠ i) : Keeps i (X.sandboxOpen step context) := by
  have hother : ∀ {α : Type} (f : String → Option α) (v : Option α),
      Function.update f context.ticketId v i = f i := fun f v =>
    Function.update_of_ne (Ne.symm h) v f
  exact .bind (.lift _) fun _ => .bind (.lift _) fun _ => .bind (.lift _) fun _ =>
    .bind (.outside _) fun _ => .bind (.remember fun m => ⟨hother _ _, rfl⟩) fun _ =>
      .bind (.outside _) fun _ => .bind (.outside _) fun _ =>
        .bind (.remember fun m => ⟨rfl, hother _ _⟩) fun _ => .pure _

/-- **Only `sandbox_open` of the ticket itself** sets its session and its base. -/
theorem execute_keeps (h : step.primitive ≠ "sandbox_open" ∨ context.ticketId ≠ i) :
    Keeps i (X.execute step context) := by
  unfold execute
  split_ifs with _ hopen
  · exact .bind (.lift _) fun _ => .pure _
  · exact sandboxOpen_keeps (h.resolve_left (not_not.mpr hopen))
  · exact .bind requireSession_keeps fun _ => .bind (.lift _) fun _ => .bind (.lift _) fun _ =>
      .bind (.lift _) fun _ => .bind (.lift _) fun _ => iterateLoop_keeps _ _ _
  · exact commit_keeps
  · exact .bind requireSession_keeps fun _ => .bind (.outside _) fun _ => .pure _
  · exact crossCheck_keeps
  · exact .raise _

theorem iterateLoop_findings {task : TaskItem} {checks : List Json} {languages : List String}
    {maxIterations : Int} (left iteration : Nat) (l : Loop) :
    Returns (fun o => o.findings = [])
      (X.iterateLoop session task checks languages maxIterations left iteration l) := by
  induction left generalizing iteration l with
  | zero =>
    rw [iterateLoop]
    split
    · exact .raise _
    · exact .pure rfl
  | succ left ih =>
    rw [iterateLoop]
    refine .bind fun files => .bind fun proposed => .bind fun edited => ?_
    split
    · exact .pure rfl
    · refine .bind fun results => ?_
      exact .ite (.pure rfl) (.ite (.pure rfl) (ih _ _))

/-- No step of a coding task reports a finding. -/
theorem execute_findings : Returns (fun o => o.findings = []) (X.execute step context) := by
  unfold execute
  split_ifs
  · exact .bind fun _ => .pure rfl
  · exact .bind fun _ => .bind fun _ => .bind fun _ => .bind fun _ => .bind fun _ =>
      .bind fun _ => .bind fun _ => .bind fun _ => .pure rfl
  · exact .bind fun _ => .bind fun _ => .bind fun _ => .bind fun _ => .bind fun _ =>
      iterateLoop_findings _ _ _
  · refine .bind fun session => .bind fun branch => .bind fun _ => .bind fun _ =>
      .bind fun changed => ?_
    split
    · exact .pure rfl
    · exact .bind fun _ => .pure rfl
  · exact .bind fun _ => .bind fun _ => .pure rfl
  · refine .bind fun session => .bind fun m => .bind fun diff => .bind fun stat => ?_
    split
    · exact .pure rfl
    · split
      · exact .pure rfl
      · exact .bind fun _ => .pure rfl
  · exact .raise _

/-- The primitives that go on in a sandbox that is open. -/
def SESSION_PRIMITIVES : List String := ["iterate", "commit", "export_zip", "cross_check"]

end CodingExecutor

end Coding

end Slas
