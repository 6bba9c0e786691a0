/-
  Slas.Coding.Agent

  The breakdown that a person approves before a coding task runs
  (`slas_orchestrator.coding.breakdown`), the resolver of the offline toolchain bundle
  (`slas_sandbox_manager.toolchains`), and the plan that the Coding Agent builds of the two
  (`CodingAgent.plan`).

  `planOf_shape` says what every plan of a coding task is made of: the toolchain and the
  sandbox first, then one step for each task, the commit, the export, and the cross-check
  if it was asked for.
-/

import Slas.Kernel.World
import Slas.Lib.Dict
import Slas.Lib.Except
import Slas.Lib.Text

namespace Slas

namespace Coding

/-! ## Languages -/

structure Check where
  kind : String
  argv : List String
  description : String
  deriving DecidableEq

structure LanguageSpec where
  id : String
  label : String
  /-- what the version number refers to -/
  tool : String
  aliases : List String
  checks : List Check

/-- `_check` -/
def check (kind description : String) : Check := ⟨kind, ["slas-check", kind], description⟩

def LANGUAGES : List LanguageSpec :=
  [{ id := "python", label := "Python", tool := "python", aliases := ["py", "python3"]
     checks := [check "lint" "ruff check .", check "type" "mypy .", check "test" "pytest -q"] },
   { id := "c", label := "C", tool := "gcc", aliases := ["gcc"]
     checks := [check "build" "make", check "test" "make test"] },
   { id := "cpp", label := "C++", tool := "g++", aliases := ["c++", "cxx", "g++"]
     checks := [check "build" "cmake --build build", check "test" "ctest --test-dir build"] },
   { id := "rust", label := "Rust", tool := "rustc", aliases := ["rs", "cargo"]
     checks := [check "lint" "cargo clippy -- -D warnings", check "build" "cargo build",
       check "test" "cargo test"] },
   { id := "shell", label := "Shell", tool := "bash", aliases := ["bash", "sh"]
     checks := [check "lint" "shellcheck on every *.sh", check "test" "bats tests/"] },
   { id := "go", label := "Go", tool := "go", aliases := ["golang"]
     checks := [check "lint" "go vet ./...", check "build" "go build ./...",
       check "test" "go test ./..."] },
   { id := "typescript", label := "TypeScript", tool := "typescript"
     aliases := ["ts", "tsx", "node"]
     checks := [check "type" "tsc --noEmit", check "test" "npm test"] },
   { id := "config", label := "YAML/JSON config", tool := "yamllint"
     aliases := ["yaml", "json", "yml"]
     checks := [check "lint" "yamllint .",
       check "validate" "every *.json parses; schemas apply"] }]

/-- `str.lower` and `repr` of texts. -/
structure TextFunctions where
  lower : String → String
  repr : String → String

variable (F : TextFunctions)

def stripText (s : String) : String := String.ofList (Text.strip s.toList)

def listed (names : List String) : String := ", ".intercalate names

/-- `language_spec` -/
def languageSpec (language : String) : Except ThreePartMessage LanguageSpec :=
  let key := F.lower (stripText language)
  match LANGUAGES.find? fun spec =>
      decide (key ∈ spec.id :: F.lower spec.label :: spec.aliases) with
  | some spec => .ok spec
  | none =>
    .error ⟨F.repr language ++ " is not a language the Coding Agent knows.",
      "The bundled toolchains cover " ++ listed (LANGUAGES.map (·.label)) ++ ".",
      "Pick one of those; a new language needs a sandbox image and an ADR."⟩

/-! ## The toolchain bundle -/

/-- The manifest of the bundle: the versions of a language, the newest last. -/
structure Manifest where
  toolchains : List (String × List String)
  source : String := "<bundled default>"

def Manifest.versions (m : Manifest) (language : String) : Except ThreePartMessage (List String) :=
  (languageSpec F language).map fun spec => (m.toolchains.lookup spec.id).getD []

structure Resolution where
  language : String
  label : String
  requested : Option String
  version : String
  honoured : Bool
  sentence : String
  image : String
  checks : List Check

/-- `SLAS_SANDBOX_REGISTRY`, or what stands in for it. -/
def sandboxRegistry (environ : String) : String :=
  let chosen := String.ofList ((Text.strip environ.toList).rdropWhile (· = '/'))
  if chosen = "" then "local" else chosen

/-- `image_for`, of a language the bundle knows -/
def imageFor (environ language version : String) : String :=
  sandboxRegistry environ ++ "/slas/sandbox-" ++ language ++ ":" ++ version

/-- The version that is used for a pinned one: as it is, or the newest below it. -/
def pinned (versions : List String) (wanted : String) : Option (String × String) :=
  if wanted ∈ versions then some (wanted, "exactly")
  else ((versions.filter fun v => (wanted ++ ".").toList.isPrefixOf v.toList).getLast?).map
    fun v => (v, "as the newest " ++ wanted ++ ".x")

/-- `resolve` -/
def resolve (m : Manifest) (environ : String) (language : String) (requested : Option String) :
    Except ThreePartMessage Resolution := do
  let spec ← languageSpec F language
  let versions ← m.versions F spec.id
  match versions.getLast? with
  | none =>
    .error ⟨"No " ++ spec.label ++ " toolchain is in the offline bundle.",
      "The manifest at " ++ m.source ++ " lists none.",
      "Add one with `slas toolchain add " ++ spec.id ++ " <version> <archive>`."⟩
  | some newest =>
    let wanted := stripText (requested.getD "")
    if wanted = "" then
      return { language := spec.id, label := spec.label, requested := none, version := newest
               honoured := true
               sentence := spec.label ++ ": no version pinned, so the newest bundled " ++
                 spec.tool ++ " " ++ newest ++ " is used."
               image := imageFor environ spec.id newest, checks := spec.checks }
    match pinned versions wanted with
    | some (chosen, how) =>
      return { language := spec.id, label := spec.label, requested := some wanted
               version := chosen, honoured := true
               sentence := spec.label ++ " " ++ wanted ++ " pinned; the bundle has it " ++ how ++
                 ", using " ++ chosen ++ "."
               image := imageFor environ spec.id chosen, checks := spec.checks }
    | none =>
      return { language := spec.id, label := spec.label, requested := some wanted
               version := newest, honoured := false
               sentence := spec.label ++ " " ++ wanted ++
                 " isn't in the offline toolchain bundle, so the newest bundled " ++ newest ++
                 " is used instead."
               image := imageFor environ spec.id newest, checks := spec.checks }

/-- `resolve_all`: in the order given, each language once. -/
def resolveAll (m : Manifest) (environ : String) :
    List (String × Option String) → List String → Except ThreePartMessage (List Resolution)
  | [], _ => .ok []
  | (language, requested) :: choices, seen => do
    let spec ← languageSpec F language
    if spec.id ∈ seen then resolveAll m environ choices seen
    else
      let first ← resolve F m environ spec.id requested
      let rest ← resolveAll m environ choices (spec.id :: seen)
      return first :: rest

/-- Between the first words a comma, before the last one "and". -/
def joinedWithAnd (parts : List String) : String :=
  match parts.reverse with
  | [] => ""
  | [only] => only
  | last :: before => listed before.reverse ++ " and " ++ last

/-- `toolchain_sentence` -/
def toolchainSentence (resolutions : List Resolution) : String :=
  if resolutions = [] then "No language was chosen."
  else
    let head := "Toolchain: " ++
      joinedWithAnd (resolutions.map fun r => r.label ++ " " ++ r.version) ++ "."
    let fallbacks := resolutions.filter fun r => !r.honoured
    if fallbacks = [] then head else head ++ " " ++ " ".intercalate (fallbacks.map (·.sentence))

/-! ## The breakdown -/

inductive Isolation where
  | auto
  | gvisor
  deriving DecidableEq, Repr

def Isolation.value : Isolation → String
  | .auto => "auto"
  | .gvisor => "gvisor"

inductive ExportTarget where
  | zip
  | remote
  | bundle
  deriving DecidableEq, Repr

structure TaskItem where
  n : Nat
  title : String
  files : List String := []
  acceptance : String := ""
  deriving DecidableEq

structure LanguageChoice where
  language : String
  version : Option String := none
  deriving DecidableEq

def MAX_TASKS : Nat := 30

/-- What a person approved: tasks numbered from 1, at least one language, and the name of
    a remote where the export goes to one. -/
structure Breakdown where
  title : String
  tasks : List TaskItem
  languages : List LanguageChoice
  isolation : Isolation := .auto
  crossCheck : Bool := true
  exportTo : ExportTarget := .zip
  remoteRef : Option String := none
  maxIterations : Nat := 6
  title_ne : title ≠ ""
  tasks_ne : tasks ≠ []
  capped : tasks.length ≤ MAX_TASKS
  numbered : tasks.map (·.n) = List.range' 1 tasks.length
  languages_ne : languages ≠ []
  targeted : exportTo = .remote → remoteRef.getD "" ≠ ""
  iterates : 1 ≤ maxIterations ∧ maxIterations ≤ 20

theorem Breakdown.eq_iff {a b : Breakdown} : a = b ↔ a.title = b.title ∧ a.tasks = b.tasks ∧
    a.languages = b.languages ∧ a.isolation = b.isolation ∧ a.crossCheck = b.crossCheck ∧
    a.exportTo = b.exportTo ∧ a.remoteRef = b.remoteRef ∧ a.maxIterations = b.maxIterations := by
  cases a
  cases b
  simp

instance : DecidableEq Breakdown := fun _ _ => decidable_of_iff' _ Breakdown.eq_iff

/-- What plans are built with: the bundle, and `SLAS_SANDBOX_REGISTRY`. -/
structure Toolchain where
  manifest : Manifest
  environ : String := ""

variable (T : Toolchain)

namespace Breakdown

/-- A language that is named twice has its last version. -/
def choices (b : Breakdown) : List (String × Option String) :=
  b.languages.foldl (fun d c => Dict.set c.language c.version d) []

def resolutions (b : Breakdown) : Except ThreePartMessage (List Resolution) :=
  resolveAll F T.manifest T.environ b.choices []

/-- `sentence`, of what the languages were resolved to -/
def sentence (b : Breakdown) (resolutions : List Resolution) : String :=
  let count := b.tasks.length
  let tools := listed (resolutions.map fun r => r.label ++ " " ++ r.version)
  let checks := if b.crossCheck then "cross-check the result with 3 voters"
    else "skip the cross-check, as you asked"
  let target := match b.exportTo with
    | .zip => "export a ZIP"
    | .remote => "push a branch to " ++ b.remoteRef.getD "None" ++ " for review"
    | .bundle => "export a Git bundle"
  let fallbacks := (resolutions.filter fun r => !r.honoured).map (·.sentence)
  "The agent will work in an isolated sandbox with " ++ tools ++ ", do " ++ toString count ++
    " " ++ (if count = 1 then "task" else "tasks") ++ ", commit on its own branch, " ++ checks ++
    ", and " ++ target ++ "." ++
    (if fallbacks = [] then "" else " " ++ " ".intercalate fallbacks)

end Breakdown

/-! ## The plan -/

/-- A run of what is no lower-case letter and no digit becomes one dash. -/
def dashed : Bool → List Char → List Char
  | _, [] => []
  | inRun, c :: cs =>
    if ('a' ≤ c ∧ c ≤ 'z') ∨ ('0' ≤ c ∧ c ≤ '9') then c :: dashed false cs
    else if inRun then dashed true cs
    else '-' :: dashed true cs

/-- `slugify` -/
def slugify (name : String) : Except String String :=
  let slug := Text.stripBy (· = '-') (dashed false (F.lower (stripText name)).toList)
  if slug = [] then .error "a project name needs at least one letter or digit"
  else .ok (String.ofList (slug.take 48))

def truncated (limit : Nat) (s : String) : String := String.ofList (s.toList.take limit)

/-- `to_record` -/
def Resolution.toRecord (r : Resolution) : Json :=
  .obj [("language", .str r.language), ("label", .str r.label),
    ("requested", strOpt.dump r.requested), ("version", .str r.version),
    ("honoured", .bool r.honoured), ("image", .str r.image), ("sentence", .str r.sentence)]

def CHECK_ORDER : List String := ["lint", "type", "build", "test", "validate"]

/-- One check for each kind, in the order a person expects them. -/
def checksOf (resolutions : List Resolution) : List Check :=
  let byKind := (resolutions.flatMap (·.checks)).foldl (fun d c => Dict.set c.kind c d) []
  (byKind.map (·.2)).mergeSort fun a b => CHECK_ORDER.idxOf a.kind ≤ CHECK_ORDER.idxOf b.kind

def Check.dump (c : Check) : Json :=
  .obj [("kind", .str c.kind), ("argv", .arr (c.argv.map .str)),
    ("description", .str c.description)]

def TaskItem.modelDump (task : TaskItem) : Json :=
  .obj [("n", .num (.ofNat task.n)), ("title", .str task.title),
    ("files", .arr (task.files.map .str)), ("acceptance", .str task.acceptance)]

def toolchainStep (resolutions : List Resolution) : Step where
  id := "toolchain"
  n := 1
  primitive := "toolchain"
  title := truncated 200 (toolchainSentence resolutions)
  args := [("resolutions", .arr (resolutions.map Resolution.toRecord)),
    ("sentence", .str (toolchainSentence resolutions))]

def sandboxStep (b : Breakdown) (slug : String) (primary : Resolution) : Step where
  id := "sandbox"
  n := 2
  primitive := "sandbox_open"
  title := "Open an isolated sandbox for " ++ slug
  args := [("slug", .str slug), ("image", .str primary.image),
    ("language", .str primary.language), ("isolation", .str b.isolation.value)]

/-- The tasks are numbered from 1, and two steps come before them. -/
def taskStep (b : Breakdown) (resolutions : List Resolution) (task : TaskItem) : Step where
  id := "task-" ++ toString task.n
  n := task.n + 2
  primitive := "iterate"
  title := truncated 200 ("Task " ++ toString task.n ++ ": " ++ task.title)
  args := [("task", task.modelDump), ("checks", .arr ((checksOf resolutions).map Check.dump)),
    ("max_iterations", .num (.ofNat b.maxIterations)),
    ("languages", .arr (resolutions.map fun r => .str r.language))]

def commitStep (b : Breakdown) : Step where
  id := "commit"
  n := b.tasks.length + 3
  primitive := "commit"
  title := "Commit the changes on the agent's branch"
  args := [("subject", .str (truncated 72 b.title)),
    ("body", .str ("\n".intercalate (b.tasks.map fun task => "- " ++ task.title)))]

def exportStep (b : Breakdown) (slug : String) : Step where
  id := "export"
  n := b.tasks.length + 4
  primitive := "export_zip"
  title := "Export a ZIP of the project"
  args := [("slug", .str slug)]

def crossCheckStep (b : Breakdown) : Step where
  id := "cross-check"
  n := b.tasks.length + 5
  primitive := "cross_check"
  title := "Cross-check the final diff with 3 voters"
  args := [("decision", .str "code_change")]

/-- What follows the sandbox in the plan of a breakdown. -/
def workSteps (b : Breakdown) (resolutions : List Resolution) (slug : String) : List Step :=
  b.tasks.map (taskStep b resolutions) ++ [commitStep b, exportStep b slug] ++
    if b.crossCheck then [crossCheckStep b] else []

/-- `CodingAgent.plan`, once the approved breakdown is found -/
def planOf (b : Breakdown) (job : Job) (now : DateTime) : Except String Plan := do
  let resolutions ← (b.resolutions F T).mapError (·.whatHappened)
  match resolutions with
  | [] => .error "list index out of range"
  | primary :: _ =>
    let slug ← slugify F b.title
    let steps := toolchainStep resolutions :: sandboxStep b slug primary ::
      workSteps b resolutions slug
    match Plan.ofSteps job.id (truncated 2000 (b.sentence resolutions)) steps now with
    | some plan => .ok plan
    | none => .error "the plan is not valid"

variable {F : TextFunctions} {T : Toolchain} {b : Breakdown} {job : Job} {now : DateTime}
  {plan : Plan}

/-- Every plan opens the sandbox right after it has recorded the toolchain, and only once. -/
theorem planOf_shape (h : planOf F T b job now = .ok plan) :
    ∃ resolutions primary slug, plan.steps =
      toolchainStep resolutions :: sandboxStep b slug primary :: workSteps b resolutions slug := by
  unfold planOf at h
  obtain ⟨resolutions, -, h⟩ := Except.bind_eq_ok.mp h
  cases resolutions with
  | nil => cases h
  | cons primary others =>
    obtain ⟨slug, -, h⟩ := Except.bind_eq_ok.mp h
    refine ⟨primary :: others, primary, slug, ?_⟩
    cases hplan : Plan.ofSteps job.id (truncated 2000 (b.sentence (primary :: others)))
        (toolchainStep (primary :: others) :: sandboxStep b slug primary ::
          workSteps b (primary :: others) slug) now with
    | none => simp [hplan] at h
    | some built =>
      obtain rfl : built = plan := by simpa [hplan] using h
      exact Plan.ofSteps_steps hplan

end Coding

end Slas
