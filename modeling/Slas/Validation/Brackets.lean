/-
  Slas.Validation.Brackets

  A plan and the machine it leases.  The steps of a compiled suite name the
  target of the run, with the lease first and the release last, exactly when no
  answer of the model that is taken up names another target, leases or releases:
  the arguments it gives are merged over the target, and the two verbs are in
  the table its verb is looked up in.
-/

import Slas.Validation.Compiler

namespace Slas

/-- Every step names the target, and the lease is held from the first step to the
    last. -/
structure StaysOnLease (target : String) (plan : Plan) : Prop where
  onTarget : ∀ step ∈ plan.steps, step.args.lookup "target" = some (.str target)
  bracketed : ∃ inner, plan.steps.map (·.primitive) =
      "lease_target" :: (inner ++ ["release_target"]) ∧
    "lease_target" ∉ inner ∧ "release_target" ∉ inner

/-- A step between the lease and the release. -/
def Step.KeepsLease (target : String) (step : Step) : Prop :=
  step.args.lookup "target" = some (.str target) ∧
    step.primitive ≠ "lease_target" ∧ step.primitive ≠ "release_target"

/-- What an item may compile to; the arguments of a power cycle are the compiler's
    own. -/
def CompiledItem.KeepsLease (target : String) (compiled : CompiledItem) : Prop :=
  compiled.primitive ≠ "power_cycle" →
    (∀ value, compiled.args.lookup "target" = some value → value = .str target) ∧
      compiled.primitive ≠ "lease_target" ∧ compiled.primitive ≠ "release_target"

theorem lookup_withTarget (target : String) (args : List (String × Json)) :
    (withTarget target args).lookup "target" =
      some ((args.lookup "target").getD (.str target)) := by
  simp [withTarget]

section Plans

variable {B : Builtins} {compiler : Option Compiler} {guardrails : Guardrails} {target : String}

/-! ## What the table answers -/

theorem rules_keep : ∀ rule ∈ RULES, rule.args.lookup "target" = none ∧
    rule.primitive ≠ "lease_target" ∧ rule.primitive ≠ "release_target" := by
  decide

theorem lookup_target_append {args args' : List (String × Json)}
    (h : args.lookup "target" = none) (h' : args'.lookup "target" = none) :
    (args ++ args').lookup "target" = none := by
  rw [List.lookup_append, h, h']
  rfl

theorem ruleArgs_target {item : SuiteItem} {primitive : String} {args : List (String × Json)}
    (h : ruleArgs B item primitive = .ok args) : args.lookup "target" = none := by
  unfold ruleArgs at h
  split_ifs at h
  · unfold settleArg at h
    split at h
    · obtain rfl := Except.ok.inj h
      rfl
    · rename_i settle _
      cases hint : B.int (.str settle) with
      | error e => rw [hint] at h; cases h
      | ok s =>
        rw [hint] at h
        obtain rfl := Except.ok.inj h
        rfl
  all_goals
    obtain rfl := Except.ok.inj h
    rfl

theorem durationArg_target {item : SuiteItem} {key : String} {args : List (String × Json)}
    (hkey : key ≠ "target") (h : durationArg B item key = .ok args) :
    args.lookup "target" = none := by
  unfold durationArg at h
  split at h
  · obtain rfl := Except.ok.inj h
    rfl
  · rename_i duration _
    split at h
    · obtain rfl := Except.ok.inj h
      rfl
    · cases hint : B.int (.str duration) with
      | error e => rw [hint] at h; cases h
      | ok d =>
        rw [hint] at h
        obtain rfl := Except.ok.inj h
        simp [hkey.symm]

theorem toolItem_keeps {item : SuiteItem} {tool : String} {compiled : CompiledItem}
    (h : toolItem B item tool = .ok compiled) :
    compiled.args.lookup "target" = none ∧
      compiled.primitive ≠ "lease_target" ∧ compiled.primitive ≠ "release_target" := by
  simp only [toolItem] at h
  generalize hverb : (if STRESS_TOOLS.contains tool then "stress" else "run_diag") = verb at h
  have hverb' : verb = "stress" ∨ verb = "run_diag" := by
    rw [← hverb]
    split_ifs <;> simp
  generalize hkey : (if verb = "stress" then "duration_s" else "timeout_s") = key at h
  have hne : key ≠ "target" := by
    rw [← hkey]
    split_ifs <;> simp
  cases hduration : durationArg B item key with
  | error e => rw [hduration] at h; cases h
  | ok duration =>
    rw [hduration] at h
    obtain rfl := Except.ok.inj h
    refine ⟨?_, ?_, ?_⟩
    · have hwords : (if (item.params.lookup "args").getD "" = "" then []
          else [("args", Json.arr ((B.split ((item.params.lookup "args").getD "")).map .str))]).lookup
            "target" = none := by
        split_ifs <;> rfl
      show List.lookup "target" (("tool", Json.str tool) :: _) = none
      rw [List.lookup_cons]
      exact lookup_target_append hwords (durationArg_target hne hduration)
    all_goals rcases hverb' with rfl | rfl <;> simp

theorem mapAction_keeps {item : SuiteItem} {compiled : CompiledItem}
    (h : mapAction B item = .ok (some compiled)) : compiled.KeepsLease target := by
  have hkeeps : compiled.args.lookup "target" = none ∧
      compiled.primitive ≠ "lease_target" ∧ compiled.primitive ≠ "release_target" := by
    unfold mapAction at h
    split at h
    · rename_i rule hfind
      obtain ⟨hargs, hverb⟩ := rules_keep rule (List.mem_of_find?_eq_some hfind)
      cases hrule : ruleArgs B item rule.primitive with
      | error e => rw [hrule] at h; cases h
      | ok args =>
        rw [hrule] at h
        obtain rfl := Option.some.inj (Except.ok.inj h)
        exact ⟨lookup_target_append hargs (ruleArgs_target hrule), hverb⟩
    · split at h
      · rename_i word _
        cases htool : toolItem B item word.2 with
        | error e => rw [htool] at h; cases h
        | ok answer =>
          rw [htool] at h
          obtain rfl := Option.some.inj (Except.ok.inj h)
          exact toolItem_keeps htool
      · cases h
  intro _
  refine ⟨fun value hvalue => ?_, hkeeps.2⟩
  rw [hkeeps.1] at hvalue
  cases hvalue

/-! ## First pass -/

/-- Every item compiles at its place, and nothing else does. -/
theorem compileItems_ok {items : List SuiteItem} {place total total' : Nat}
    {compiledItems : List (SuiteItem × CompiledItem)}
    (h : compileItems B compiler guardrails items place total = .ok (compiledItems, total')) :
    compiledItems.map Prod.fst = items ∧ ∀ i item compiled,
      compiledItems[i]? = some (item, compiled) →
        compileItem B compiler (place + i) item = .ok (some compiled) := by
  induction items generalizing place total compiledItems with
  | nil =>
    obtain ⟨rfl, -⟩ := Prod.mk.inj (Except.ok.inj h)
    exact ⟨rfl, fun i item compiled hi => by simp at hi⟩
  | cons item items ih =>
    rw [compileItems] at h
    rcases hitem : compileItem B compiler place item with e | _ | compiled
    · rw [hitem] at h
      cases h
    · rw [hitem] at h
      cases h
    · rw [hitem] at h
      rcases hcheck : checkItem B guardrails item compiled (total + cyclesOf item compiled)
        with e | ok
      · simp only [bind, Except.bind, hcheck] at h
        cases h
      · rcases hrest : compileItems B compiler guardrails items (place + 1)
          (total + cyclesOf item compiled) with e | ⟨rest, total''⟩
        · simp only [bind, Except.bind, hcheck, hrest] at h
          cases h
        · simp only [bind, Except.bind, hcheck, hrest] at h
          obtain ⟨rfl, rfl⟩ := Prod.mk.inj (Except.ok.inj h)
          obtain ⟨hitems, hplaces⟩ := ih hrest
          refine ⟨by rw [List.map_cons, hitems], fun i item' compiled' hi => ?_⟩
          cases i with
          | zero =>
            obtain ⟨rfl, rfl⟩ := Prod.mk.inj (Option.some.inj hi)
            exact hitem
          | succ i =>
            rw [← Nat.add_assoc, Nat.add_right_comm]
            exact hplaces i item' compiled' hi

/-- The model answers the item at the place with `compiled`, and is asked. -/
def Answered (B : Builtins) (compiler : Option Compiler) (items : List SuiteItem)
    (compiled : CompiledItem) : Prop :=
  ∃ place item ask, items[place]? = some item ∧ mapAction B item = .ok none ∧
    compiler = some ask ∧ ask place item = some compiled

/-- The items keep the lease when the answers taken up do. -/
theorem compiled_keep_iff {items : List SuiteItem} {total : Nat}
    {compiledItems : List (SuiteItem × CompiledItem)}
    (h : compileItems B compiler guardrails items 0 0 = .ok (compiledItems, total)) :
    (∀ entry ∈ compiledItems, entry.2.KeepsLease target) ↔
      ∀ compiled, Answered B compiler items compiled → compiled.KeepsLease target := by
  obtain ⟨hitems, hplaces⟩ := compileItems_ok h
  constructor
  · rintro hkeep compiled ⟨place, item, ask, hplace, hmap, rfl, hask⟩
    rw [← hitems, List.getElem?_map] at hplace
    obtain ⟨⟨item', compiled'⟩, hentry, rfl⟩ := Option.map_eq_some_iff.mp hplace
    have hcompiled := hplaces place item' compiled' hentry
    rw [Nat.zero_add] at hcompiled
    simp only [compileItem, hmap, Option.bind_some, hask, Except.ok.injEq,
      Option.some.injEq] at hcompiled
    subst hcompiled
    exact hkeep _ (List.mem_of_getElem? hentry)
  · rintro hkeep ⟨item, compiled⟩ hentry
    obtain ⟨place, hentry⟩ := List.mem_iff_getElem?.mp hentry
    have hcompiled := hplaces place item compiled hentry
    rw [Nat.zero_add, compileItem] at hcompiled
    rcases hmap : mapAction B item with e | _ | answer
    · rw [hmap] at hcompiled
      cases hcompiled
    · rw [hmap] at hcompiled
      obtain ⟨ask, rfl, hask⟩ := Option.bind_eq_some_iff.mp (Except.ok.inj hcompiled)
      refine hkeep compiled ⟨place, item, ask, ?_, hmap, rfl, hask⟩
      rw [← hitems, List.getElem?_map, hentry, Option.map_some]
    · rw [hmap] at hcompiled
      obtain rfl := Option.some.inj (Except.ok.inj hcompiled)
      exact mapAction_keeps hmap

/-! ## Second pass -/

/-- The arguments of a cycle are the compiler's own. -/
theorem addCycles_keep (B : Builtins) (guardrails : Guardrails) (target : String)
    (compiled : CompiledItem) (grandTotal k : Nat) (steps : List Step)
    (total : Nat) :
    ∃ cycles, (addCycles B guardrails target compiled grandTotal k steps total).1 =
      steps ++ cycles ∧ ∀ step ∈ cycles, step.KeepsLease target := by
  induction k generalizing steps total with
  | zero => exact ⟨[], by simp [addCycles], by simp⟩
  | succ k ih =>
    obtain ⟨cycles, hcycles, hkeep⟩ := ih
      (addStep B target steps ("cycle-" ++ String.ofList (zeroPad 3 (total + 1))) "power_cycle"
        (B.upper (((compiled.args.lookup "kind").map B.str).getD "dc") ++ " cycle " ++
          toString (total + 1) ++ " of " ++ toString grandTotal)
        (cycleArgs B guardrails compiled (total + 1) grandTotal)) (total + 1)
    refine ⟨_ :: cycles, by rw [addCycles, hcycles, addStep, List.append_assoc]; rfl, ?_⟩
    refine List.forall_mem_cons.mpr ⟨⟨?_, ?_, ?_⟩, hkeep⟩
    · show (withTarget target _).lookup "target" = _
      rw [lookup_withTarget]
      rfl
    · show "power_cycle" ≠ _
      decide
    · show "power_cycle" ≠ _
      decide

theorem addItem_keep_iff (B : Builtins) (guardrails : Guardrails) (target : String)
    (grandTotal : Nat) (item : SuiteItem) (compiled : CompiledItem)
    (steps : List Step) (total : Nat) :
    ∃ added, (addItem B guardrails target grandTotal item compiled steps total).1 =
      steps ++ added ∧
        ((∀ step ∈ added, step.KeepsLease target) ↔ compiled.KeepsLease target) := by
  by_cases hcycle : compiled.primitive = "power_cycle"
  · obtain ⟨cycles, hcycles, hkeep⟩ :=
      addCycles_keep B guardrails target compiled grandTotal item.cycles steps total
    refine ⟨cycles, by rw [addItem, if_pos hcycle, hcycles], ?_⟩
    exact iff_of_true hkeep fun hne => absurd hcycle hne
  · refine ⟨_, by rw [addItem, if_neg hcycle]; rfl, ?_⟩
    rw [List.forall_mem_singleton]
    simp only [Step.KeepsLease, CompiledItem.KeepsLease, lookup_withTarget, Option.some.injEq]
    constructor
    · rintro ⟨htarget, hverb⟩ -
      exact ⟨fun value hvalue => by simpa [hvalue] using htarget, hverb⟩
    · intro hkeep
      obtain ⟨htarget, hverb⟩ := hkeep hcycle
      refine ⟨?_, hverb⟩
      cases hlookup : compiled.args.lookup "target" with
      | none => rfl
      | some value => exact htarget value hlookup

theorem unroll_keep_iff {grandTotal total total' : Nat} {steps steps' : List Step}
    {compiledItems : List (SuiteItem × CompiledItem)}
    (h : unroll B guardrails target grandTotal compiledItems steps total = .ok (steps', total')) :
    ∃ added, steps' = steps ++ added ∧ ((∀ step ∈ added, step.KeepsLease target) ↔
      ∀ entry ∈ compiledItems, entry.2.KeepsLease target) := by
  induction compiledItems generalizing steps total with
  | nil =>
    obtain ⟨rfl, -⟩ := Prod.mk.inj (Except.ok.inj h)
    exact ⟨[], by simp, by simp⟩
  | cons entry rest ih =>
    obtain ⟨item, compiled⟩ := entry
    obtain ⟨added, hadded, hitem⟩ :=
      addItem_keep_iff B guardrails target grandTotal item compiled steps total
    rw [unroll] at h
    simp only at h
    split at h
    · cases h
    · obtain ⟨added', rfl, hrest⟩ := ih h
      refine ⟨added ++ added', by rw [hadded, List.append_assoc], ?_⟩
      rw [List.forall_mem_append, List.forall_mem_cons, hitem, hrest]

/-! ## The plan -/

/-- What a plan was compiled from: the items, then their steps between the opening
    and the closing ones. -/
theorem compileSuite_ok {suite : Suite} {jobId : String} {now : DateTime} {plan : Plan}
    (h : compileSuite B suite jobId target guardrails now compiler = .ok plan) :
    ∃ compiledItems grandTotal steps totalCycles,
      compileItems B compiler guardrails suite.items 0 0 = .ok (compiledItems, grandTotal) ∧
      unroll B guardrails target grandTotal compiledItems (opening B target) 0 =
        .ok (steps, totalCycles) ∧
      plan.steps = closing B target steps := by
  unfold compileSuite at h
  rcases hitems : compileItems B compiler guardrails suite.items 0 0
    with e | ⟨compiledItems, grandTotal⟩
  · rw [hitems] at h
    cases h
  · rcases hunroll : unroll B guardrails target grandTotal compiledItems (opening B target) 0
      with e | ⟨steps, totalCycles⟩
    · simp only [bind, Except.bind, hitems, hunroll] at h
      cases h
    · simp only [bind, Except.bind, hitems, hunroll] at h
      rcases hplan : Plan.ofSteps jobId
        (planSummary suite target totalCycles (closing B target steps)) (closing B target steps)
        now with _ | plan'
      · rw [hplan] at h
        cases h
      · rw [hplan] at h
        simp only at h
        split at h
        · obtain rfl := Except.ok.inj h
          exact ⟨compiledItems, grandTotal, steps, totalCycles, rfl, hunroll,
            Plan.ofSteps_steps hplan⟩
        · cases h

/-- Between the opening and the closing steps stand the steps of the items. -/
theorem staysOnLease_iff_of_steps {plan : Plan} {added : List Step}
    (h : plan.steps = closing B target (opening B target ++ added)) :
    StaysOnLease target plan ↔ ∀ step ∈ added, step.KeepsLease target := by
  have hverbs : plan.steps.map (·.primitive) = "lease_target" ::
      (("console_on" :: "baseline_snapshot" :: (added.map (·.primitive) ++ ["collect_logs"])) ++
        ["release_target"]) := by
    rw [h]
    simp [closing, opening, addStep]
  constructor
  · rintro ⟨htarget, inner, hinner, hlease, hrelease⟩ step hstep
    have hmem : step.primitive ∈ inner := by
      have hcons := hinner.symm.trans hverbs
      have := List.append_cancel_right (List.cons.inj hcons).2
      rw [this]
      simp only [List.mem_cons, List.mem_append, List.mem_map]
      exact Or.inr (Or.inr (Or.inl ⟨step, hstep, rfl⟩))
    refine ⟨htarget step ?_, fun heq => hlease (heq ▸ hmem), fun heq => hrelease (heq ▸ hmem)⟩
    rw [h]
    simp only [closing, addStep, List.mem_append]
    exact Or.inl (Or.inl (Or.inr hstep))
  · intro hkeep
    refine ⟨fun step hstep => ?_, _, hverbs, ?_, ?_⟩
    · rw [h] at hstep
      simp only [closing, opening, addStep, List.nil_append, List.cons_append, List.append_assoc,
        List.mem_cons, List.mem_append, List.not_mem_nil, or_false] at hstep
      rcases hstep with rfl | rfl | rfl | hstep | rfl | rfl
      case inr.inr.inr.inl => exact (hkeep step hstep).1
      all_goals
        show (withTarget target []).lookup "target" = _
        rw [lookup_withTarget]
        rfl
    · simp only [List.mem_cons, List.mem_append, List.mem_map]
      rintro (h | h | ⟨step, hstep, heq⟩ | h | h)
      case inr.inr.inl => exact (hkeep step hstep).2.1 heq
      all_goals simp at h
    · simp only [List.mem_cons, List.mem_append, List.mem_map]
      rintro (h | h | ⟨step, hstep, heq⟩ | h | h)
      case inr.inr.inl => exact (hkeep step hstep).2.2 heq
      all_goals simp at h

/-- **A plan and its lease**: the steps of a compiled suite stay on the leased
    machine exactly when what the model answers does. -/
theorem stays_on_lease_iff {suite : Suite} {jobId : String} {now : DateTime} {plan : Plan}
    (h : compileSuite B suite jobId target guardrails now compiler = .ok plan) :
    StaysOnLease target plan ↔
      ∀ compiled, Answered B compiler suite.items compiled → compiled.KeepsLease target := by
  obtain ⟨compiledItems, grandTotal, steps, totalCycles, hitems, hunroll, hsteps⟩ :=
    compileSuite_ok h
  obtain ⟨added, rfl, hadded⟩ := unroll_keep_iff hunroll
  rw [staysOnLease_iff_of_steps hsteps, hadded, compiled_keep_iff hitems]

end Plans

/-! ### A model that strays -/

/-- The built-in functions, on lower-case words that no pattern of the table is in. -/
def plainBuiltins : Builtins where
  str
    | .str s => s
    | _ => ""
  int
    | .num d => .ok ((d.toInt?).getD 0)
    | _ => .error "int() argument must be a string or a real number"
  repr s := s
  upper s := s
  lower s := s
  split s := [s]
  search _ _ := false

def lookItem (n : Nat) (h : 1 ≤ n) : SuiteItem :=
  { n, title := "look", action := "look", n_pos := h, title_ne := by decide, title_le := by decide
    action_ne := by decide, cycles_pos := le_refl _ }

def lookSuite : Suite :=
  { title := "look", items := [lookItem 1 Nat.one_pos, lookItem 2 Nat.two_pos]
    title_ne := by decide, nonempty := by simp, capped := by simp }

/-- Two answers: the log of the machine of the run, and its inventory. -/
def faithful : Compiler
  | 0, _ => some { primitive := "sel_snapshot", args := [("target", .str "m-1")] }
  | _, _ => some { primitive := "inventory_snapshot" }

/-- Two answers: the log of another machine, and a release. -/
def straying : Compiler
  | 0, _ => some { primitive := "sel_snapshot", args := [("target", .str "m-2")] }
  | _, _ => some { primitive := "release_target" }

def lookPlan (compiler : Compiler) : Except CompileError Plan :=
  compileSuite plainBuiltins lookSuite "J-1" "m-1" defaultGuardrails 0 (some compiler)

/-- The verbs of a plan and the machines they name. -/
def targetsOf (plan : Plan) : List (String × Option String) :=
  plan.steps.map fun step => (step.primitive, match step.args.lookup "target" with
    | some (.str target) => some target
    | _ => none)

theorem faithful_answers_stay :
    ∃ plan, lookPlan faithful = .ok plan ∧ StaysOnLease "m-1" plan := by
  have hok : (lookPlan faithful).isOk = true := by decide +kernel
  rcases hplan : lookPlan faithful with e | plan
  · rw [hplan] at hok
    cases hok
  · refine ⟨plan, rfl, (stays_on_lease_iff hplan).mpr ?_⟩
    rintro compiled ⟨place, item, ask, -, -, hask, hanswer⟩
    obtain rfl := Option.some.inj hask
    intro _
    cases place with
    | zero =>
      obtain rfl := Option.some.inj hanswer
      refine ⟨fun value hvalue => ?_, by decide, by decide⟩
      exact (Option.some.inj hvalue).symm
    | succ place =>
      obtain rfl := Option.some.inj hanswer
      exact ⟨fun value hvalue => (by cases hvalue), by decide, by decide⟩

/-- The plan takes the log of a machine that it does not lease, and gives its lease
    back twice. -/
theorem straying_answers_leave : ∃ plan, lookPlan straying = .ok plan ∧
    targetsOf plan = [("lease_target", some "m-1"), ("console_on", some "m-1"),
      ("baseline_snapshot", some "m-1"), ("sel_snapshot", some "m-2"),
      ("release_target", some "m-1"), ("collect_logs", some "m-1"),
      ("release_target", some "m-1")] ∧ ¬ StaysOnLease "m-1" plan := by
  have hok : (lookPlan straying).toOption.map targetsOf =
      some [("lease_target", some "m-1"), ("console_on", some "m-1"),
        ("baseline_snapshot", some "m-1"), ("sel_snapshot", some "m-2"),
        ("release_target", some "m-1"), ("collect_logs", some "m-1"),
        ("release_target", some "m-1")] := by decide +kernel
  rcases hplan : lookPlan straying with e | plan
  · rw [hplan] at hok
    cases hok
  · rw [hplan] at hok
    have htargets := Option.some.inj hok
    refine ⟨plan, rfl, htargets, fun hstays => ?_⟩
    have hmem : ("sel_snapshot", some "m-2") ∈ targetsOf plan := by
      rw [htargets]
      simp
    obtain ⟨step, hstep, heq⟩ := List.mem_map.mp hmem
    rw [hstays.onTarget step hstep] at heq
    simp at heq

end Slas
