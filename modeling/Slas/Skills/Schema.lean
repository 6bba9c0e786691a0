/-
  Slas.Skills.Schema

  The primitive whitelist (`slas_skills.primitives`), the steps of a skill and how
  they are parsed (`slas_skills.schema`), and the risk an import records
  (`slas_skills.importer`).

  Parsing is bounded by the depth Python recurses to.
-/

import Slas.Skills.Templates

namespace Slas

namespace Skills

variable (P : Python)

/-! ## Primitives -/

/-- The capabilities primitives need. -/
inductive Capability where
  | screen
  | ssh
  | redfish
  | files
  deriving DecidableEq

/-- `Primitive`, without its description. -/
structure Primitive where
  name : String
  needs : List Capability
  risk : Risk
  required : List String := []
  optional : List String := []
  oneOf : List (List String) := []
  control : Bool := false

def Primitive.screen (spec : Primitive) : Bool := spec.needs == [.screen]

def Primitive.knownArgs (spec : Primitive) : List String :=
  (spec.required ++ spec.optional ++ spec.oneOf.flatten).eraseDups

def TARGETING : List (List String) := [["text"], ["image"], ["target"], ["x", "y"]]

def PRIMITIVES : List Primitive :=
  [{ name := "focus_window", needs := [.screen], risk := .safe, oneOf := [["title"], ["class"]] },
   { name := "click", needs := [.screen], risk := .safe, oneOf := TARGETING },
   { name := "double_click", needs := [.screen], risk := .safe, oneOf := TARGETING },
   { name := "right_click", needs := [.screen], risk := .safe, oneOf := TARGETING },
   { name := "type", needs := [.screen], risk := .safe, required := ["text"] },
   { name := "key", needs := [.screen], risk := .safe, required := ["press"] },
   { name := "scroll", needs := [.screen], risk := .safe, required := ["direction", "amount"] },
   { name := "wait_for", needs := [.screen], risk := .safe, optional := ["timeout_s"]
     oneOf := [["window"], ["text"], ["image"]] },
   { name := "screenshot", needs := [.screen], risk := .safe, required := ["name"] },
   { name := "assert_visible", needs := [.screen], risk := .safe, required := ["message"]
     oneOf := [["text"], ["image"]] },
   { name := "run", needs := [.files, .ssh], risk := .caution, required := ["command"]
     optional := ["cwd", "expect_exit", "timeout_s", "capture"] },
   { name := "ssh", needs := [.ssh], risk := .caution, required := ["target", "command"]
     optional := ["timeout_s"] },
   { name := "copy", needs := [.files, .ssh], risk := .caution, required := ["from", "to"] },
   { name := "redfish", needs := [.redfish], risk := .safe, required := ["target", "action"] },
   { name := "sel_snapshot", needs := [.redfish, .ssh], risk := .safe, required := ["target"] },
   { name := "inventory_snapshot", needs := [.redfish, .ssh], risk := .safe
     required := ["target"] },
   { name := "wait", needs := [], risk := .safe, required := ["seconds"] },
   { name := "set", needs := [], risk := .safe, required := ["var", "value"] },
   { name := "assert", needs := [], risk := .safe, required := ["condition", "message"] },
   { name := "if", needs := [], risk := .safe, required := ["condition", "then"]
     optional := ["else"], control := true },
   { name := "foreach", needs := [], risk := .safe, required := ["items", "then"]
     optional := ["as"], control := true }]

/-- `PRIMITIVES.get` -/
def primitive? (name : String) : Option Primitive := PRIMITIVES.find? (·.name == name)

def SCREEN_PRIMITIVES : List String := (PRIMITIVES.filter (·.screen)).map (·.name)

def MAX_FOREACH_ITEMS : Nat := 100

def MAX_WAIT_SECONDS : Nat := 3600

def REDFISH_SAFE_ACTIONS : List String := ["get_power_state", "get_sel", "get_inventory"]

def REDFISH_DESTRUCTIVE_ACTIONS : List String :=
  ["power_on", "power_off", "force_off", "graceful_restart"]

def REDFISH_ACTIONS : List String := REDFISH_SAFE_ACTIONS ++ REDFISH_DESTRUCTIVE_ACTIONS

/-- `risk_of`; the primitives of steps are on the list. -/
def riskOf (primitive : String) (args : Bindings) : Risk :=
  if primitive = "redfish" then
    if ((args.lookup "action").map P.str).getD "" ∈ REDFISH_DESTRUCTIVE_ACTIONS then .destructive
    else .safe
  else ((primitive? primitive).map (·.risk)).getD .safe

/-- The one of higher order, the first when they are of the same. -/
def Risk.worse (a b : Risk) : Risk := if a.order < b.order then b else a

/-- `max_risk` -/
def maxRisk (risks : List Risk) : Risk := risks.foldl Risk.worse .safe

/-! ## Skills -/

inductive InputType where
  | string
  | int
  | bool
  | path
  | targetRef
  | secret
  deriving DecidableEq

def InputType.value : InputType → String
  | .string => "string"
  | .int => "int"
  | .bool => "bool"
  | .path => "path"
  | .targetRef => "target_ref"
  | .secret => "secret"

structure InputSpec where
  type : InputType
  required : Bool := false
  default : Json := .null

/-- `on_failure`; a retry gives the number of retries and the seconds between them. -/
inductive OnFailure where
  | stop
  | screenshotAndStop
  | continue_
  | retry (max delayS : Nat)
  deriving DecidableEq

structure SkillStep where
  primitive : String
  args : Bindings := []
  id : Option String := none
  when : Option String := none
  then_ : List SkillStep := []
  otherwise : List SkillStep := []

/-- `Skill`, as far as it is compiled; `outputs` gives the id each output comes from. -/
structure Skill where
  id : String
  name : String
  version : String
  timeoutS : Nat := 900
  inputs : List (String × InputSpec) := []
  steps : List SkillStep
  onFailure : OnFailure := .stop
  outputs : List (String × String) := []

mutual

/-- `walk`, without the paths: a step, the steps in its branches, and so on. -/
def SkillStep.walk : SkillStep → List SkillStep
  | .mk primitive args id when then_ otherwise =>
    .mk primitive args id when then_ otherwise :: (walkAll then_ ++ walkAll otherwise)

def walkAll : List SkillStep → List SkillStep
  | [] => []
  | step :: steps => step.walk ++ walkAll steps

end

/-- The risk `import_skill` records. -/
def importRisk (steps : List SkillStep) : Risk :=
  maxRisk ((walkAll steps).map fun step => riskOf P step.primitive step.args)

/-! ## Parsing -/

inductive SkillFailure where
  /-- `SkillImportError` or `SkillCompileError` -/
  | refused (message : ThreePartMessage)
  /-- Any other exception, with its message. -/
  | raised (message : String)

/-- `_error` -/
def importError (source what cause : String) : SkillFailure :=
  .refused
    { whatHappened := what, likelyCause := cause
      whatToDo := "Fix " ++ source ++ " and import it again; the whitelist is CLAUDE.md §6.2." }

/-- `', '.join(names) or default` -/
def joinedOr (default : String) (names : List String) : String :=
  if names = [] then default else ", ".intercalate names

def sortedNames (names : List String) : List String :=
  names.mergeSort fun a b => decide (a ≤ b)

def Json.isNull : Json → Bool
  | .null => true
  | _ => false

def Json.isText : Json → Bool
  | .str _ => true
  | _ => false

/-- `command is not None and not (isinstance(command, list) and all(...))` -/
def notArgv : Json → Bool
  | .null => false
  | .arr xs => !xs.all Json.isText
  | _ => true

/-- `isinstance(seconds, int | float) and not 0 <= seconds <= MAX_WAIT_SECONDS` -/
def waitsTooLong : Json → Bool
  | .num d => !((Decimal.ofNat 0).le d && d.le (.ofNat MAX_WAIT_SECONDS))
  | _ => false

section Checks

variable (source label : String) (spec : Primitive) (args : Bindings)

/-- `_check_args` -/
def checkArgs : Except SkillFailure Unit :=
  let unknown := sortedNames ((args.map (·.1)).filter (· ∉ spec.knownArgs))
  let missing := spec.required.filter fun name => (args.lookup name).isNone
  let action := (args.lookup "action").getD .null
  let seconds := (args.lookup "seconds").getD .null
  let command := (args.lookup "command").getD .null
  if unknown ≠ [] then
    .error (importError source
      (label ++ " has arguments it does not take: " ++ ", ".intercalate unknown ++ ".")
      ("`" ++ spec.name ++ "` takes " ++
        joinedOr "no arguments" (sortedNames spec.knownArgs) ++ "."))
  else if missing ≠ [] then
    .error (importError source (label ++ " is missing " ++ ", ".intercalate missing ++ ".")
      ("`" ++ spec.name ++ "` needs " ++ ", ".intercalate spec.required ++ "."))
  else if spec.oneOf ≠ [] ∧ !spec.oneOf.any (·.all fun name => (args.lookup name).isSome) then
    .error (importError source (label ++ " needs a target.")
      ("Give one of " ++ " or ".intercalate (spec.oneOf.map fun group => "+".intercalate group) ++
        "."))
  else if spec.name = "redfish" ∧ P.str action ∉ REDFISH_ACTIONS then
    .error (importError source (label ++ " uses the unknown action " ++ P.repr action ++ ".")
      ("Redfish actions are " ++ ", ".intercalate (sortedNames REDFISH_ACTIONS) ++ "."))
  else if spec.name = "wait" ∧ waitsTooLong seconds then
    .error (importError source (label ++ " waits " ++ P.str seconds ++ " seconds.")
      ("A wait is at most " ++ toString MAX_WAIT_SECONDS ++ " seconds."))
  else if notArgv command then
    .error (importError source (label ++ " has a `command` that is not an argv list.")
      "Commands are lists of strings; they are never joined into a shell line.")
  else .ok ()

end Checks

/-- The pattern `^[a-z][a-z0-9_-]*$`. -/
def isSlug (s : String) : Bool :=
  match s.toList with
  | [] => false
  | c :: cs => c.isLower && cs.all fun d => d.isLower || d.isDigit || d == '_' || d == '-'

/-- `str(raw[key]) if key in raw and raw[key] is not None else None` -/
def optionalText (raw : Bindings) (key : String) : Option String :=
  match raw.lookup key with
  | none | some .null => none
  | some value => some (P.str value)

/-- `_parse_steps`, with the parser of one step. -/
def parseSteps (parse : Json → String → Except SkillFailure SkillStep) (source : String)
    (raw : Json) (path : String) : Except SkillFailure (List SkillStep) :=
  match raw with
  | .arr (x :: xs) => (x :: xs).zipIdx.mapM fun (item, i) =>
      parse item (path ++ "[" ++ toString i ++ "]")
  | _ => .error (importError source (path ++ " in " ++ source ++ " must be a non-empty list of steps.")
      "Control steps carry their branches as lists of steps.")

/-- The branches of a control step, and its other arguments. -/
def parseBranches (parse : Json → String → Except SkillFailure SkillStep) (source path : String)
    (spec : Primitive) (args : Bindings) :
    Except SkillFailure (Bindings × List SkillStep × List SkillStep) := do
  if spec.control then
    let then_ ← parseSteps parse source ((args.lookup "then").getD .null) (path ++ ".then")
    let otherwise ←
      match args.lookup "else" with
      | none => pure []
      | some raw => parseSteps parse source raw (path ++ ".else")
    return (args.filter fun kv => kv.1 ≠ "then" && kv.1 ≠ "else", then_, otherwise)
  else return (args, [], [])

/-- `parse_step`, to the depth Python recurses to. -/
def parseStep (source : String) : Nat → Json → String → Except SkillFailure SkillStep
  | 0, _, _ => .error (.raised "maximum recursion depth exceeded")
  | limit + 1, raw, path =>
    let here := "Step " ++ path ++ " in " ++ source
    match raw with
    | .obj fields =>
      match (fields.map (·.1)).filter (· ∉ ["id", "when"]) with
      | [verb] =>
        match primitive? verb with
        | none => .error (importError source
            (here ++ " uses `" ++ verb ++ "`, which is not a skill primitive.")
            ("Skills may only use the whitelisted verbs; there is no shell, eval, python, " ++
              "download or sudo."))
        | some spec =>
          match fields.lookup verb with
          | some (.obj args) => do
            checkArgs P source ("Step " ++ path ++ " (" ++ spec.name ++ ") in " ++ source) spec args
            let (args, then_, otherwise) ←
              parseBranches (parseStep source limit) source path spec args
            let id := optionalText P fields "id"
            if id.all isSlug then
              return { primitive := verb, args, id, when := optionalText P fields "when"
                       then_, otherwise }
            else .error (.raised "id: String should match pattern '^[a-z][a-z0-9_-]*$'")
          | _ => .error (importError source
              ("Step " ++ path ++ " (" ++ verb ++ ") in " ++ source ++ " has no argument mapping.")
              ("Write `" ++ verb ++ ": \x7b … \x7d` with its arguments."))
      | verbs => .error (importError source
          (here ++ " must name exactly one primitive; it names " ++ joinedOr "none" verbs ++ ".")
          "A step is one verb with its arguments, plus optional `id` and `when`.")
    | _ => .error (importError source (here ++ " is not a mapping.")
        "Each step is `- <primitive>: \x7b <args> \x7d`, optionally with `id:` and `when:`.")

/-- The steps of a skill file. -/
def Parsed (steps : List SkillStep) : Prop :=
  ∃ source limit raw, parseSteps (parseStep P source limit) source raw "steps" = .ok steps

/-- The steps of a file, or none if it is refused. -/
def stepsOf (source : String) (raw : Json) : List SkillStep :=
  match parseSteps (parseStep P source 1000) source raw "steps" with
  | .ok steps => steps
  | .error _ => []

variable {P} in
theorem stepsOf_parsed {source : String} {raw : Json} (h : (stepsOf P source raw).isEmpty = false) :
    Parsed P (stepsOf P source raw) := by
  refine ⟨source, 1000, raw, ?_⟩
  unfold stepsOf at h ⊢
  split
  · assumption
  · rename_i heq
    rw [heq] at h
    cases h

end Skills

end Slas
