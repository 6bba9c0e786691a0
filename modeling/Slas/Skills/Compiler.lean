/-
  Slas.Skills.Compiler

  COMPILE (`slas_skills.compiler`): inputs are bound, secrets become handles,
  bounded loops are unrolled, and what is left is a flat plan.

  Arguments are rendered here with what is known here; a condition that refers to
  the output of a step becomes the guard of the steps in its branches, as text.
-/

import Slas.Skills.Schema

namespace Slas

/-- `slas_skills.compiler.CompiledSkill` -/
structure CompiledSkill where
  skillId : String
  plan : Plan
  secretSteps : List String := []
  secretHandles : List (String × String) := []
  outputs : List (String × String) := []
  onFailure : Skills.OnFailure := .stop
  timeoutS : Nat := 900

namespace Skills

variable (P : Python)

/-- `d[key] = value` -/
def assign (key : String) (value : Json) : Bindings → Bindings
  | [] => [(key, value)]
  | (k, v) :: kvs => if k = key then (key, value) :: kvs else (k, v) :: assign key value kvs

/-- `d.pop(key, None)` -/
def drop (key : String) (context : Bindings) : Bindings := context.filter fun kv => kv.1 ≠ key

/-! ## Inputs -/

def SECRET_PREFIX : String := "secret://"

def cannotCoerce (skill : Skill) (name : String) (kind : InputType) (value : Json) :
    ThreePartMessage where
  whatHappened := "The input " ++ name ++ " of " ++ skill.name ++ " must be a " ++ kind.value ++
    "; got " ++ P.repr value ++ "."
  likelyCause := "The skill declares `" ++ name ++ "` as " ++ kind.value ++ "."
  whatToDo := "Give a value of that type."

/-- `_coerce` -/
def coerce (skill : Skill) (name : String) (kind : InputType) (value : Json) :
    Except SkillFailure Json :=
  match kind, value with
  | .int, .bool b => .ok (.bool b)
  | .int, value =>
    match P.int value with
    | .ok i => .ok (.num (.ofInt i))
    | .error _ => .error (.refused (cannotCoerce P skill name kind value))
  | .bool, .str s => .ok (.bool (["true", "yes", "1", "on"].any fun word =>
      lowerIs word (stripChars s.toList)))
  | .bool, value => .ok (.bool (Json.truth value))
  | _, value => .ok value

def undeclared (skill : Skill) (unknown : List String) : ThreePartMessage where
  whatHappened := skill.name ++ " was given inputs it does not declare: " ++
    ", ".intercalate unknown ++ "."
  likelyCause := "Its inputs are " ++ joinedOr "none" (skill.inputs.map (·.1)) ++ "."
  whatToDo := "Remove the extra inputs or declare them in the skill."

def missingInputs (skill : Skill) (missing : List String) : ThreePartMessage where
  whatHappened := skill.name ++ " needs the " ++
    (if missing.length = 1 then "input" else "inputs") ++ " " ++ ", ".intercalate missing ++ "."
  likelyCause := "They are declared as required and have no default."
  whatToDo := "Provide them when starting the skill."

/-- `given.get(name)`, when it is given and not `None`. -/
def present (given : Bindings) (name : String) : Option Json :=
  match given.lookup name with
  | none | some .null => none
  | some value => some value

/-- The context, the secret handles and the missing inputs so far. -/
structure Bound where
  context : Bindings := []
  handles : List (String × String) := []
  missing : List String := []

/-- One input. -/
def bindInput (skill : Skill) (given : Bindings) (bound : Bound) (name : String)
    (spec : InputSpec) : Except SkillFailure Bound :=
  if spec.type = .secret then
    if (present given name).isSome then
      let handle := SECRET_PREFIX ++ skill.id ++ "/" ++ name
      .ok { bound with handles := bound.handles ++ [(name, handle)]
                       context := assign name (.str handle) bound.context }
    else if spec.required then .ok { bound with missing := bound.missing ++ [name] }
    else .ok bound
  else
    match present given name with
    | some value =>
      match coerce P skill name spec.type value with
      | .error e => .error e
      | .ok value => .ok { bound with context := assign name value bound.context }
    | none =>
      if Json.isNull spec.default = false then
        .ok { bound with context := assign name spec.default bound.context }
      else if spec.required then .ok { bound with missing := bound.missing ++ [name] }
      else .ok bound

/-- `bind_inputs` -/
def bindInputs (skill : Skill) (given : Bindings) :
    Except SkillFailure (Bindings × List (String × String)) :=
  let unknown := sortedNames ((given.map (·.1)).filter fun name =>
    name ∉ skill.inputs.map (·.1)).eraseDups
  if unknown ≠ [] then .error (.refused (undeclared skill unknown))
  else
    match skill.inputs.foldlM (fun bound input => bindInput P skill given bound input.1 input.2)
        {} with
    | .error e => .error e
    | .ok bound =>
      if bound.missing ≠ [] then .error (.refused (missingInputs skill bound.missing))
      else .ok (bound.context, bound.handles)

/-! ## Titles and ids -/

/-- `a or b or ...`: the first value that is true, or the last. -/
def firstTrue : List Json → Json
  | [] => .null
  | [value] => value
  | value :: values => if Json.truth value then value else firstTrue values

/-- `str.capitalize` of a name in lower case -/
def capitalize (s : String) : String :=
  match s.toList with
  | [] => ""
  | c :: cs => String.ofList (c.toUpper :: cs)

/-- `primitive.replace('_', sep)` -/
def replaceUnderscores (sep : Char) (s : String) : String :=
  String.ofList (s.toList.map fun c => if c = '_' then sep else c)

/-- `_title` -/
def title (primitive : String) (args : Bindings) : String :=
  let arg (key : String) : Json := (args.lookup key).getD .null
  if primitive = "redfish" then
    "Redfish " ++ P.str (arg "action") ++ " on " ++ P.str (arg "target")
  else if primitive ∈ ["click", "double_click", "right_click"] then
    capitalize (replaceUnderscores ' ' primitive) ++ " " ++
      P.str (firstTrue [arg "text", arg "target", arg "image", .str "coordinates"])
  else if primitive = "focus_window" then
    "Focus window " ++ P.str (firstTrue [arg "title", arg "class"])
  else if primitive = "type" then "Type text"
  else if primitive = "key" then "Press " ++ P.str (arg "press")
  else if primitive = "run" ∨ primitive = "ssh" then
    let shown :=
      match arg "command" with
      | .arr words => " ".intercalate ((words.take 3).map P.str)
      | _ => "command"
    (if primitive = "run" then "Run" else "SSH") ++ " " ++ shown
  else if primitive = "wait_for" then
    "Wait for " ++ P.str (firstTrue [arg "window", arg "text", arg "image"])
  else if primitive = "assert" then "Check " ++ P.str (arg "message")
  else capitalize (replaceUnderscores ' ' primitive)

/-- The first of `base-counter`, `base-(counter + 1)`, ... that is not in use. -/
def nextFreeId (used : List String) (base : String) : Nat → Nat → String
  | 0, counter => base ++ "-" ++ toString counter
  | tries + 1, counter =>
    let candidate := base ++ "-" ++ toString counter
    if candidate ∈ used then nextFreeId used base tries (counter + 1) else candidate

/-- `_unique_id` -/
def uniqueId (skill : Skill) (used : List String) (wanted : Option String) (primitive : String) :
    String :=
  let base :=
    match wanted with
    | some id => if id = "" then skill.id ++ "-" ++ replaceUnderscores '-' primitive else id
    | none => skill.id ++ "-" ++ replaceUnderscores '-' primitive
  if base ∈ used then nextFreeId used base used.length 2 else base

/-! ## Secrets -/

/-- `needle in text` -/
def hasText (needle text : List Char) : Bool := text.tails.any (needle.isPrefixOf ·)

mutual

/-- `_carries_secret` -/
def carriesSecret (handles : List String) : Json → Bool
  | .str s => handles.any fun handle => hasText handle.toList s.toList
  | .arr xs => anyCarries handles xs
  | .obj kvs => anyFieldCarries handles kvs
  | _ => false

def anyCarries (handles : List String) : List Json → Bool
  | [] => false
  | x :: xs => carriesSecret handles x || anyCarries handles xs

def anyFieldCarries (handles : List String) : Bindings → Bool
  | [] => false
  | kv :: kvs => fieldCarries handles kv || anyFieldCarries handles kvs

def fieldCarries (handles : List String) : String × Json → Bool
  | (_, value) => carriesSecret handles value

end

/-! ## Expansion -/

/-- A condition around a step, with the context where it stands: the step's own `when`;
    the condition of an `if` decided at run time, with the place in the plan where the
    `if` begins and the side the step is on; the condition of an `if` decided at compile
    time; or the `when` of a control step. -/
inductive Guard where
  | own (context : Bindings) (text : String)
  | branch (context : Bindings) (start : Nat) (side : Bool) (condition : String)
  | early (context : Bindings) (side : Bool) (condition : String)
  | control (context : Bindings) (text : String)

/-- A step of the skill as it is emitted: with the context at that point, and the
    conditions around it from the outermost to its own. -/
structure Leaf where
  primitive : String
  args : Bindings
  id : Option String
  context : Bindings
  guards : List Guard

/-- `_Expander`; `leaves` records where the steps come from, and nothing reads it. -/
structure Expander where
  context : Bindings
  steps : List Step := []
  secretSteps : List String := []
  usedIds : List String := []
  leaves : List Leaf := []

/-- `_combine`: the empty text counts as no guard. -/
def combine (outer inner : Option String) : Option String :=
  match outer, inner with
  | none, inner => inner
  | some outer, none => if outer = "" then none else some outer
  | some outer, some inner =>
    if outer = "" then some inner
    else if inner = "" then some outer
    else some ("(" ++ outer ++ ") and (" ++ inner ++ ")")

/-- The guard of the steps of a branch, and the conditions it is made of. -/
structure Guarding where
  when : Option String := none
  guards : List Guard := []

namespace Guarding

/-- The guard of a side of an `if` that is decided at run time. -/
def late (context : Bindings) (start : Nat) (side : Bool) (condition : String) (g : Guarding) :
    Guarding where
  when := combine g.when (some (if side then condition else "not " ++ condition))
  guards := g.guards ++ [.branch context start side condition]

/-- The guard of the side that was chosen: there is nothing left to decide. -/
def early (context : Bindings) (side : Bool) (condition : String) (g : Guarding) : Guarding :=
  { g with guards := g.guards ++ [.early context side condition] }

/-- The guard of the steps inside a control step: its own `when` is not passed on. -/
def inside (context : Bindings) (own : Option String) (g : Guarding) : Guarding :=
  { g with guards := g.guards ++ own.toList.map (.control context) }

end Guarding

def tooManySteps (skill : Skill) : ThreePartMessage where
  whatHappened := skill.name ++ " expands to more than " ++ toString MAX_STEPS ++ " steps."
  likelyCause := "Loops are unrolled at compile time and the plan is capped (CLAUDE.md §6.1)."
  whatToDo := "Shorten the loops or split the skill."

def notAList (source : String) : ThreePartMessage where
  whatHappened := source ++ " loops over something that is not a list."
  likelyCause := "`items` must be a list, or a comma-separated string input."
  whatToDo := "Fix the items."

def tooManyItems (source : String) (count : Nat) : ThreePartMessage where
  whatHappened := source ++ " loops over " ++ toString count ++ " items; the limit is " ++
    toString MAX_FOREACH_ITEMS ++ "."
  likelyCause := "Loops are bounded so a plan stays reviewable (CLAUDE.md §6.2)."
  whatToDo := "Split the work into several runs."

/-- What `Step` validates. -/
def stepValid (step : Step) : Bool :=
  isSlug step.id && 1 ≤ step.n && step.primitive ≠ "" && step.title ≠ "" &&
    step.title.length ≤ 200

section Expand

variable (skill : Skill) (handles : List String)

/-- `source` of a step, for messages. -/
def sourceOf (primitive : String) (id : Option String) : String :=
  skill.name ++ " step " ++ (orElseText id (some primitive)).getD ""

/-- `_emit` -/
def emit (primitive : String) (args : Bindings) (id own : Option String) (g : Guarding)
    (st : Expander) : Except SkillFailure Expander :=
  match renderFields P (find st.context) (sourceOf skill primitive id) args with
  | .error message => .error (.refused message)
  | .ok rendered =>
    let step : Step :=
      { id := uniqueId skill st.usedIds id primitive, n := st.steps.length + 1, primitive
        title := title P primitive rendered, args := rendered, risk := riskOf P primitive rendered
        when := combine g.when own }
    if stepValid step then
      .ok { st with
        steps := st.steps ++ [step]
        usedIds := st.usedIds ++ [step.id]
        secretSteps :=
          if anyFieldCarries handles rendered then st.secretSteps ++ [step.id] else st.secretSteps
        leaves := st.leaves ++ [{ primitive, args, id, context := st.context
                                  guards := g.guards ++ own.toList.map (.own st.context) }] }
    else .error (.raised "the step does not validate")

/-- What a branch expands to, given its guard. -/
abbrev Branch := Guarding → Expander → Except SkillFailure Expander

/-- `_expand_if` -/
def expandIf (thenBranch elseBranch : Branch) (noElse : Bool) (args : Bindings)
    (id : Option String) (g : Guarding) (st : Expander) : Except SkillFailure Expander :=
  match args.lookup "condition" with
  | none => .error (.raised "'condition'")
  | some raw =>
    let condition := P.str raw
    if hasLateReference P condition then
      -- decided at run time, on both branches
      let late := Guarding.late st.context st.steps.length
      match thenBranch (late true condition g) st with
      | .error e => .error e
      | .ok st => if noElse then .ok st else elseBranch (late false condition g) st
    else
      match evaluate P (find st.context) (sourceOf skill "if" id) condition with
      | .error message => .error (.refused message)
      | .ok true => thenBranch (g.early st.context true condition) st
      | .ok false => elseBranch (g.early st.context false condition) st

/-- The items of a loop. -/
def loopItems (source : String) (value : Json) : Except SkillFailure (List Json) :=
  match value with
  | .arr items => .ok items
  | .str s => .ok (((s.toList.splitOn ',').map stripChars).filter (· ≠ []) |>.map fun cs =>
      .str (String.ofList cs))
  | _ => .error (.refused (notAList source))

/-- The turns of a loop. -/
def loopTurns (body : Branch) (g : Guarding) (var : String) :
    List Json → Nat → Expander → Except SkillFailure Expander
  | [], _, st => .ok st
  | item :: items, index, st =>
    let context := assign (var ++ "_index") (.num (.ofNat index)) (assign var item st.context)
    match body g { st with context } with
    | .error e => .error e
    | .ok st => loopTurns body g var items (index + 1) st

/-- What a loop leaves of its variables. -/
def restoreVar (var : String) (saved : Option Json) (context : Bindings) : Bindings :=
  let context := drop (var ++ "_index") context
  match saved with
  | none | some .null => drop var context
  | some value => assign var value context

/-- `_expand_foreach` -/
def expandForeach (body : Branch) (args : Bindings) (id : Option String) (g : Guarding)
    (st : Expander) : Except SkillFailure Expander :=
  let source := sourceOf skill "foreach" id
  match args.lookup "items" with
  | none => .error (.raised "'items'")
  | some raw =>
    match renderValue P (find st.context) source raw with
    | .error message => .error (.refused message)
    | .ok value =>
      match loopItems source value with
      | .error e => .error e
      | .ok items =>
        if MAX_FOREACH_ITEMS < items.length then
          .error (.refused (tooManyItems source items.length))
        else
          let var := P.str ((args.lookup "as").getD (.str "item"))
          match loopTurns body g var items 0 st with
          | .error e => .error e
          | .ok after =>
            .ok { after with context := restoreVar var (st.context.lookup var) after.context }

mutual

/-- `expand` -/
def expand : List SkillStep → Branch
  | [], _, st => .ok st
  | step :: steps, g, st =>
    match expandStep step g st with
    | .error e => .error e
    | .ok st =>
      if MAX_STEPS < st.steps.length then .error (.refused (tooManySteps skill))
      else expand steps g st

/-- One step of the skill, by its primitive. -/
def expandStep : SkillStep → Branch
  | .mk primitive args id own then_ otherwise, g, st =>
    if primitive = "if" then
      expandIf P skill (fun g st => expand then_ g st) (fun g st => expand otherwise g st)
        otherwise.isEmpty args id (g.inside st.context own) st
    else if primitive = "foreach" then
      expandForeach P skill (fun g st => expand then_ g st) args id
        (g.inside st.context own) st
    else emit P skill handles primitive args id own g st

end

end Expand

/-! ## Compilation -/

def noSuchStep (skill : Skill) (name source : String) : ThreePartMessage where
  whatHappened := "The output " ++ name ++ " of " ++ skill.name ++ " comes from step " ++ source ++
    ", which does not exist."
  likelyCause := "Outputs point at a step by its `id`."
  whatToDo := "Give the step that id, or fix the output."

/-- The validation of the plan. -/
def skillPlan (id jobId summary : String) (steps : List Step) (createdAt : DateTime) :
    Except SkillFailure Plan :=
  match Plan.ofSteps jobId summary steps createdAt with
  | some plan => .ok { plan with id }
  | none => .error (.raised "the plan does not validate")

/-- `compile_skill`; `digest` is of the skill's id, its version and the names that
    are bound. -/
def compileSkill (digest : String → String → List String → String) (skill : Skill)
    (inputs : Bindings) (jobId : String) (now : DateTime) : Except SkillFailure CompiledSkill := do
  let (context, handles) ← bindInputs P skill inputs
  let expander ← expand P skill (handles.map (·.2)) skill.steps {} { context }
  match skill.outputs.find? fun output => output.2 ∉ expander.steps.map (·.id) with
  | some (name, source) => throw (.refused (noSuchStep skill name source))
  | none => do
    let plan ← skillPlan ("skill-" ++ skill.id ++ "-" ++
        digest skill.id skill.version (sortedNames (context.map (·.1))))
      jobId (skill.name ++ " v" ++ skill.version) expander.steps now
    return { skillId := skill.id, plan, secretSteps := expander.secretSteps
             secretHandles := handles, outputs := skill.outputs, onFailure := skill.onFailure
             timeoutS := skill.timeoutS }

end Skills

end Slas
