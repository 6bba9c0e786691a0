/-
  Slas.Validation.Compiler

  COMPILE: suite items to a plan, with the reject rules
  (`slas_orchestrator.validation.compiler`).

  Known actions map to primitives by a table; what the table does not know may
  go to a model, whose answer is checked like the table's.  Cycles are unrolled
  into one step each.
-/

import Mathlib.Data.List.Infix
import Slas.Validation.Cycle
import Slas.Validation.Primitives

namespace Slas

/-! ## Suites -/

structure SuiteItem where
  n : Nat
  title : String
  action : String
  params : List (String × String) := []
  cycles : Nat := 1
  approved : Bool := false
  n_pos : 1 ≤ n
  title_ne : title ≠ ""
  title_le : title.length ≤ 200
  action_ne : action ≠ ""
  cycles_pos : 1 ≤ cycles

structure Suite where
  title : String
  items : List SuiteItem
  title_ne : title ≠ ""
  nonempty : items ≠ []
  capped : items.length ≤ 200

structure CompiledItem where
  primitive : String
  args : List (String × Json) := []

/-- The model as compiler for actions the table does not know: what it answers
    when it is asked about the item at a place of the suite. -/
abbrev Compiler := Nat → SuiteItem → Option CompiledItem

/-- The built-in functions on texts and values: `str`, `int`, `repr`, `str.upper`,
    `str.lower`, `str.split`, and `re.search` with `re.I`. -/
structure Builtins where
  str : Json → String
  int : Json → Except String Int
  repr : String → String
  upper : String → String
  lower : String → String
  split : String → List String
  search : String → String → Bool

inductive CompileError where
  /-- `PlanCompileError` -/
  | refused (message : ThreePartMessage)
  /-- Any other exception, with its message. -/
  | raised (message : String)

/-! ## The table -/

structure ActionRule where
  pattern : String
  primitive : String
  args : List (String × Json) := []

def RULES : List ActionRule :=
  [{ pattern := "\\bac\\b.*\\b(?:power\\s*)?cycl|\\bac cycle|power (?:cord|cable) pull|\\bpdu\\b"
     primitive := "power_cycle", args := [("kind", .str "ac")] },
   { pattern := "\\bdc\\b.*\\bcycl|\\bdc cycle|power cycle|cold (?:boot|reboot)|power off.*power on"
     primitive := "power_cycle", args := [("kind", .str "dc")] },
   { pattern := "warm (?:boot|reboot)|\\breboot\\b|graceful restart|os restart"
     primitive := "power_cycle", args := [("kind", .str "warm")] },
   { pattern := "baseline", primitive := "baseline_snapshot" },
   { pattern := "\\bsel\\b|event log", primitive := "sel_snapshot" },
   { pattern := "inventory|lnksta|link (?:state|width|speed)|firmware version"
     primitive := "inventory_snapshot" },
   { pattern := "firmware (?:flash|update|upgrade)|flash (?:the )?(?:bios|bmc|firmware)"
     primitive := "firmware_flash" },
   { pattern := "secure erase|sanitize|crypto erase", primitive := "secure_erase" },
   { pattern := "bios (?:reset|defaults?)|load (?:setup )?defaults", primitive := "bios_reset" },
   { pattern := "\\braid\\b", primitive := "raid_reconfigure" },
   { pattern := "collect (?:the )?logs?|gather logs", primitive := "collect_logs" }]

def TOOL_WORDS : List (String × String) :=
  (STRESS_TOOLS ++ DIAG_TOOLS).map (fun tool => (tool, tool)) ++
    [("stress", "stress-ng"), ("burn", "stress-ng"), ("nvidia qual", "nvqual"),
     ("mellanox", "mft"), ("smart", "smartctl")]

def contains (word text : String) : Bool := decide (word.toList <:+: text.toList)

def intJson (i : Int) : Json := .num (.ofInt i)

section MapAction

variable (B : Builtins)

/-- The text an item is looked up by. -/
def itemText (item : SuiteItem) : String :=
  item.title ++ " " ++ item.action ++ " " ++
    " ".intercalate (item.params.map fun param => param.1 ++ " " ++ param.2)

def paramOr (item : SuiteItem) (key default : String) : Json :=
  .str ((item.params.lookup key).getD default)

/-- The settle time of a power cycle, if the item names one. -/
def settleArg (item : SuiteItem) : Except String (List (String × Json)) :=
  match item.params.lookup "settle_s" with
  | none => .ok []
  | some settle => (B.int (.str settle)).map fun s => [("settle_s", intJson s)]

/-- What a rule's primitive takes from the parameters. -/
def ruleArgs (item : SuiteItem) (primitive : String) : Except String (List (String × Json)) :=
  if primitive = "power_cycle" then settleArg B item
  else if primitive = "firmware_flash" then
    .ok [("component", paramOr item "component" "unspecified"),
      ("image_ref", paramOr item "image" ((item.params.lookup "image_ref").getD "unspecified"))]
  else if primitive = "secure_erase" then .ok [("device", paramOr item "device" "unspecified")]
  else if primitive = "raid_reconfigure" then .ok [("layout", paramOr item "layout" "unspecified")]
  else .ok []

/-- The time limit of a tool, if the item names one. -/
def durationArg (item : SuiteItem) (key : String) : Except String (List (String × Json)) :=
  match item.params.lookup "duration_s" with
  | none => .ok []
  | some duration =>
    if duration = "" then .ok [] else (B.int (.str duration)).map fun d => [(key, intJson d)]

/-- An item that names a tool. -/
def toolItem (item : SuiteItem) (tool : String) : Except String CompiledItem :=
  let primitive := if STRESS_TOOLS.contains tool then "stress" else "run_diag"
  let words := (item.params.lookup "args").getD ""
  let args := if words = "" then [] else [("args", Json.arr ((B.split words).map .str))]
  (durationArg B item (if primitive = "stress" then "duration_s" else "timeout_s")).map
    fun duration => { primitive, args := ("tool", .str tool) :: args ++ duration }

/-- `map_action`: the table first; none means the compiler may be asked. -/
def mapAction (item : SuiteItem) : Except String (Option CompiledItem) :=
  match RULES.find? fun rule => B.search rule.pattern (itemText item) with
  | some rule => (ruleArgs B item rule.primitive).map fun args =>
      some { primitive := rule.primitive, args := rule.args ++ args }
  | none =>
    match TOOL_WORDS.find? fun word => contains word.1 (B.lower (itemText item)) with
    | some word => (toolItem B item word.2).map some
    | none => .ok none

/-! ## First pass: every item compiles and passes the reject rules -/

def unknownAction (item : SuiteItem) (named : String) : ThreePartMessage where
  whatHappened := "Step " ++ toString item.n ++ " (" ++ item.title ++ ") names no known action: " ++
    B.repr named ++ "."
  likelyCause := "A plan may only use the Validation primitives in " ++
    "plans/primitives/validation.yaml."
  whatToDo := "Reword the step (for example `DC cycle x25, settle 60 s`), or remove it."

def missingArgs (item : SuiteItem) (spec : PlanPrimitive) (missing : List String) :
    ThreePartMessage where
  whatHappened := "Step " ++ toString item.n ++ " (" ++ item.title ++ ") is missing " ++
    ", ".intercalate missing ++ " for " ++ spec.name ++ "."
  likelyCause := spec.name ++ " needs " ++
    ", ".intercalate (spec.required.filter (· ≠ "target")) ++ "."
  whatToDo := "Add the parameter to the suite row, for example `device=nvme0n1`."

def notApproved (item : SuiteItem) (kind : String) : ThreePartMessage where
  whatHappened := "Step " ++ toString item.n ++ " (" ++ item.title ++ ") is destructive (" ++ kind ++
    ") and the suite does not flag it as approved."
  likelyCause := "Destructive steps need a per-run human approval (INV-7); the suite must " ++
    "say the author expects one."
  whatToDo := "Add `approved` to the step (Approved column: yes), then approve it again " ++
    "when the run asks."

def tooManyCycles (total limit : Nat) : ThreePartMessage where
  whatHappened := "The suite asks for " ++ toString total ++ " power cycles; the limit is " ++
    toString limit ++ " per run."
  likelyCause := "Guardrail max_cycles_per_run (config/guardrails.yaml)."
  whatToDo := "Split the suite into several runs, or lower the cycle count."

/-- The table's answer, or the model's. -/
def compileItem (compiler : Option Compiler) (place : Nat) (item : SuiteItem) :
    Except CompileError (Option CompiledItem) :=
  match mapAction B item with
  | .error e => .error (.raised e)
  | .ok (some compiled) => .ok (some compiled)
  | .ok none => .ok (compiler.bind fun ask => ask place item)

/-- The reject rules on one item; `total` are the cycles up to it. -/
def checkItem (guardrails : Guardrails) (item : SuiteItem) (compiled : CompiledItem) (total : Nat) :
    Except CompileError Unit :=
  match primitive? compiled.primitive with
  | none => .error (.refused (unknownAction B item compiled.primitive))
  | some spec =>
    let missing := spec.required.filter fun arg =>
      arg ≠ "target" && (compiled.args.lookup arg).isNone && arg ≠ "cycle"
    if missing ≠ [] then .error (.refused (missingArgs item spec missing))
    else match approvalKind B.str spec compiled.args, item.approved with
      | some kind, false => .error (.refused (notApproved item kind))
      | _, _ =>
        if compiled.primitive = "power_cycle" ∧ guardrails.maxCyclesPerRun < total then
          .error (.refused (tooManyCycles total guardrails.maxCyclesPerRun))
        else .ok ()

/-- The cycles an item asks for. -/
def cyclesOf (item : SuiteItem) (compiled : CompiledItem) : Nat :=
  if compiled.primitive = "power_cycle" then item.cycles else 0

/-- The first pass: the items with what they compile to, and all the cycles. -/
def compileItems (compiler : Option Compiler) (guardrails : Guardrails) :
    List SuiteItem → Nat → Nat → Except CompileError (List (SuiteItem × CompiledItem) × Nat)
  | [], _, total => .ok ([], total)
  | item :: items, place, total => do
    match ← compileItem B compiler place item with
    | none => .error (.refused (unknownAction B item item.action))
    | some compiled =>
      let total := total + cyclesOf item compiled
      checkItem B guardrails item compiled total
      let (rest, total) ← compileItems compiler guardrails items (place + 1) total
      return ((item, compiled) :: rest, total)

/-! ## Second pass: unroll -/

/-- `{"target": target, **args}` -/
def withTarget (target : String) (args : List (String × Json)) : List (String × Json) :=
  ("target", (args.lookup "target").getD (.str target)) :: args.filter fun arg => arg.1 ≠ "target"

/-- `add` -/
def addStep (target : String) (steps : List Step) (id primitive title : String)
    (args : List (String × Json)) : List Step :=
  let full := withTarget target args
  steps ++ [{ id, n := steps.length + 1, primitive, title := String.ofList (title.toList.take 200)
              args := full
              risk := ((primitive? primitive).map fun spec => riskOf B.str spec full).getD .safe }]

/-- `_as_int` -/
def asInt (value : Option Json) (default : Int) : Int :=
  match value with
  | some (.num d) => (B.int (.num d)).toOption.getD default
  | some (.str s) => (B.int (.str s)).toOption.getD default
  | _ => default

/-- The arguments of the cycle with the number `n`. -/
def cycleArgs (guardrails : Guardrails) (compiled : CompiledItem) (n grandTotal : Nat) :
    List (String × Json) :=
  let kind := ((compiled.args.lookup "kind").map B.str).getD "dc"
  let floor := guardrails.settleFloor kind
  [("kind", .str kind), ("cycle", intJson n),
   ("settle_s", intJson (max (asInt B (compiled.args.lookup "settle_s") floor) floor)),
   ("total_cycles", intJson grandTotal)]

/-- One step for each cycle of an item. -/
def addCycles (guardrails : Guardrails) (target : String) (compiled : CompiledItem)
    (grandTotal : Nat) : Nat → List Step → Nat → List Step × Nat
  | 0, steps, total => (steps, total)
  | k + 1, steps, total =>
    let n := total + 1
    let kind := ((compiled.args.lookup "kind").map B.str).getD "dc"
    addCycles guardrails target compiled grandTotal k
      (addStep B target steps ("cycle-" ++ String.ofList (zeroPad 3 n)) "power_cycle"
        (B.upper kind ++ " cycle " ++ toString n ++ " of " ++ toString grandTotal)
        (cycleArgs B guardrails compiled n grandTotal)) n

def tooManySteps : ThreePartMessage where
  whatHappened := "The plan would have more than " ++ toString MAX_STEPS ++ " steps."
  likelyCause := "Plans are capped so a person can review them (CLAUDE.md §6.1)."
  whatToDo := "Split the suite into several runs."

/-- The steps of one item. -/
def addItem (guardrails : Guardrails) (target : String) (grandTotal : Nat) (item : SuiteItem)
    (compiled : CompiledItem) (steps : List Step) (total : Nat) : List Step × Nat :=
  if compiled.primitive = "power_cycle" then
    addCycles B guardrails target compiled grandTotal item.cycles steps total
  else (addStep B target steps ("item-" ++ toString item.n) compiled.primitive item.title
    compiled.args, total)

def unroll (guardrails : Guardrails) (target : String) (grandTotal : Nat) :
    List (SuiteItem × CompiledItem) → List Step → Nat → Except CompileError (List Step × Nat)
  | [], steps, total => .ok (steps, total)
  | (item, compiled) :: rest, steps, total =>
    let (steps, total) := addItem B guardrails target grandTotal item compiled steps total
    if MAX_STEPS - 2 < steps.length then .error (.refused tooManySteps)
    else unroll guardrails target grandTotal rest steps total

/-! ## The plan -/

/-- `check_plan`: every way the plan breaks a guardrail. -/
def checkPlan (plan : Plan) (guardrails : Guardrails) : List String :=
  let cycles := plan.steps.filter (·.primitive == "power_cycle")
  let count := if guardrails.maxCyclesPerRun < cycles.length then
    ["The plan has " ++ toString cycles.length ++ " power cycles; the limit is " ++
      toString guardrails.maxCyclesPerRun ++ " per run."] else []
  let settles := cycles.filterMap fun step =>
    let kind := ((step.args.lookup "kind").map B.str).getD "dc"
    let floor : Int := guardrails.settleFloor kind
    let settle := asInt B (step.args.lookup "settle_s") floor
    if settle < floor then
      some ("Step " ++ toString step.n ++ " settles " ++ toString settle ++ " s after a " ++
        B.upper kind ++ " cycle; the minimum is " ++ toString floor ++ " s.") else none
  let approvals := plan.steps.filterMap fun step =>
    match primitive? step.primitive with
    | none => none
    | some spec =>
      let approval := if APPROVAL_KINDS.contains step.primitive || step.primitive == "power_cycle"
        then approvalKind B.str spec step.args else none
      match approval with
      | none => none
      | some kind =>
        if guardrails.requiresApproval.contains kind && step.risk != .destructive then
          some ("Step " ++ toString step.n ++ " (" ++ step.title ++ ") is " ++ kind ++
            ", which needs approval, but is not marked destructive.") else none
  count ++ settles ++ approvals

/-- What the plan says of itself. -/
def planSummary (suite : Suite) (target : String) (totalCycles : Nat) (steps : List Step) : String :=
  let destructive := steps.filter (·.risk == .destructive)
  suite.title ++ " on " ++ target ++ ": " ++ toString totalCycles ++ " power cycles and " ++
    toString suite.items.length ++ " suite items, " ++ toString steps.length ++ " steps." ++
    (if destructive = [] then " Nothing destructive."
     else " " ++ toString destructive.length ++ " destructive " ++
       (if destructive.length = 1 then "step needs" else "steps need") ++
       " your approval before the run starts.")

/-- The steps before the items. -/
def opening (target : String) : List Step :=
  let steps := addStep B target [] "lease" "lease_target" ("Lease " ++ target ++ " for this run") []
  let steps := addStep B target steps "console" "console_on" "Capture the serial console and syslog" []
  addStep B target steps "baseline" "baseline_snapshot" "Record the baseline" []

/-- The steps after the items. -/
def closing (target : String) (steps : List Step) : List Step :=
  let steps := addStep B target steps "collect" "collect_logs"
    "Collect console, syslog and SEL onto the ticket" []
  addStep B target steps "release" "release_target" ("Release " ++ target) []

/-- `compile_suite` -/
def compileSuite (suite : Suite) (jobId target : String) (guardrails : Guardrails) (now : DateTime)
    (compiler : Option Compiler) : Except CompileError Plan := do
  let (items, grandTotal) ← compileItems B compiler guardrails suite.items 0 0
  let (steps, totalCycles) ← unroll B guardrails target grandTotal items (opening B target) 0
  let steps := closing B target steps
  match Plan.ofSteps jobId (planSummary suite target totalCycles steps) steps now with
  | none => .error (.raised "the plan does not validate")
  | some plan =>
    match checkPlan B plan guardrails with
    | [] => return plan
    | problems => .error (.refused
        { whatHappened := "The plan breaks a guardrail."
          likelyCause := " ".intercalate problems
          whatToDo := "Change the suite so the plan stays within config/guardrails.yaml." })

end MapAction

end Slas
