/-
  Slas.Skills.Variables

  Variables that `set` steps assign.  The context of a turn binds a name to what the last
  `set` before that turn assigned to it, and else to what it was bound to at the start
  (`lookup_context`).  A text that is rendered at run time alone, as a guard is, reads
  the variable; a text that passes the compiler first reads what the name was bound to
  there, and does not pass when it was bound to nothing (`set_variable_usable`).
-/

import Slas.Skills.Guards

namespace Slas

namespace Skills

variable {P : Python} {context : Bindings} {steps : List Step} {turns : List Turn} {i : Nat}
  {turn : Turn}

/-! ## Assignment -/

theorem lookup_assign (key name : String) (value : Json) (context : Bindings) :
    (assign key value context).lookup name =
      if name = key then some value else context.lookup name := by
  have hbeq : ∀ k, (name == k) = decide (name = k) := fun k => by
    rw [Bool.eq_iff_iff]
    simp
  induction context with
  | nil =>
    rw [assign, List.lookup_cons, hbeq]
    by_cases hname : name = key <;> simp [hname]
  | cons kv context ih =>
    obtain ⟨k, v⟩ := kv
    simp only [assign]
    by_cases hk : k = key
    · rw [if_pos hk, List.lookup_cons, List.lookup_cons, hk, hbeq]
      by_cases hname : name = key <;> simp [hname]
    · rw [if_neg hk, List.lookup_cons, List.lookup_cons, ih, hbeq]
      by_cases hname : name = key
      · rw [hname]
        simp [Ne.symm hk]
      · simp [hname]

/-- What a turn assigns: the variable of a `set` step that is performed, and its value. -/
def Turn.assigns (P : Python) (turn : Turn) : Option (String × Json) :=
  if turn.taken ∧ turn.step.primitive = "set" then
    match renderFields P (find turn.context) (stepSource turn.step) turn.step.args with
    | .error _ => none
    | .ok args =>
      match args.lookup "var", args.lookup "value" with
      | some var, some value => some (P.str var, value)
      | _, _ => none
  else none

/-- What turns assign to a name last. -/
def lastSet (P : Python) (name : String) : List Turn → Option Json
  | [] => none
  | turn :: turns => (lastSet P name turns).or
      (((turn.assigns P).filter fun set => set.1 = name).map (·.2))

/-- What is bound after a step: what it assigned, or else what was bound before. -/
theorem lookup_leaves {step : Step} {after : Bindings} {name : String}
    (h : Leaves P step context after) (hname : name ≠ "steps") :
    after.lookup name =
      (((Turn.assigns P { step, context, taken := true }).filter fun set => set.1 = name).map
        (·.2)).or (context.lookup name) := by
  cases h with
  | recorded hset outputs =>
    have hassigns : Turn.assigns P { step, context, taken := true } = none := by
      simp [Turn.assigns, hset]
    rw [hassigns, lookup_assign, if_neg hname]
    rfl
  | @set hset outputs args var value hargs hvar hvalue =>
    have hassigns : Turn.assigns P { step, context, taken := true } = some (P.str var, value) := by
      simp [Turn.assigns, hset, hargs, hvar, hvalue]
    rw [hassigns, lookup_assign, lookup_assign, if_neg hname]
    by_cases hvarname : name = P.str var
    · simp [hvarname, Option.filter]
    · simp [hvarname, Option.filter, Ne.symm hvarname]

/-- A name is bound at a turn to what was assigned to it last, or else to what it was
    bound to at the start. -/
theorem lookup_context (h : Turns P context steps turns) (hturn : turns[i]? = some turn)
    {name : String} (hname : name ≠ "steps") :
    turn.context.lookup name = (lastSet P name (turns.take i)).or (context.lookup name) := by
  induction h generalizing i with
  | stop => simp at hturn
  | @skipped context step steps turns hguard _ ih =>
    cases i with
    | zero =>
      obtain rfl : _ = turn := by simpa using hturn
      rfl
    | succ i =>
      have hassigns : Turn.assigns P { step, context, taken := false } = none := by
        simp [Turn.assigns]
      rw [ih (by simpa using hturn)]
      simp [lastSet, hassigns]
  | ended _ =>
    cases i with
    | zero =>
      obtain rfl : _ = turn := by simpa using hturn
      rfl
    | succ i => simp at hturn
  | @performed context after step steps turns hguard hleaves _ ih =>
    cases i with
    | zero =>
      obtain rfl : _ = turn := by simpa using hturn
      rfl
    | succ i =>
      rw [ih (by simpa using hturn), lookup_leaves hleaves hname, List.take_succ_cons, lastSet,
        Option.or_assoc]

/-! ## References to variables -/

/-- The parts of a name, without `inputs.` before an input. -/
def pathOf (name : String) : List String :=
  match pathParts name with
  | "inputs" :: part :: parts => part :: parts
  | parts => parts

/-- The variable a name is about. -/
def root (name : String) : String := (pathOf name).headD ""

theorem find_eq (context : Bindings) (name : String) :
    find context name = lookupParts (pathOf name) context := by
  unfold find pathOf
  split
  · simp_all only
  · simp_all only

/-- What a name is found to be depends on what its variable is bound to. -/
theorem find_congr {context context' : Bindings} {name : String}
    (h : context.lookup (root name) = context'.lookup (root name)) :
    find context name = find context' name := by
  rw [find_eq, find_eq]
  unfold root at h
  match hpath : pathOf name with
  | [] => rfl
  | [part] =>
    rw [hpath] at h
    exact h
  | part :: part' :: parts =>
    rw [hpath] at h
    simp only [List.headD_cons] at h
    simp only [lookupParts, h]

/-- The outputs of steps are in `steps`. -/
theorem root_of_isLate {name : String} (h : isLate name = true) : root name = "steps" := by
  obtain ⟨rest, hrest⟩ := List.isPrefixOf_iff_prefix.mp h
  have hlist : name.toList = 's' :: 't' :: 'e' :: 'p' :: 's' :: '.' :: rest := by
    rw [← hrest]
    rfl
  have hparts : pathParts name = "steps" :: (rest.splitOn '.').map String.ofList := by
    rw [pathParts, hlist]
    simp [List.splitOn, List.splitOnP_cons_eq_if_modifyHead]
  have hinputs : "steps" ≠ "inputs" := by decide
  unfold root pathOf
  rw [hparts]
  split
  · rename_i heq
    exact absurd (List.cons.inj heq).1 hinputs
  · rfl

/-- A name is about a variable, and is what the `set` steps performed before a turn have
    assigned to it last; the runner keeps the outputs of the steps in `steps`. -/
structure SetTo (P : Python) (turns : List Turn) (i : Nat) (name : String) (value : Json) : Prop where
  variable_ : root name ≠ "steps"
  last : ∃ assigned, lastSet P (root name) (turns.take i) = some assigned ∧
    find [(root name, assigned)] name = some value

theorem SetTo.not_late {name : String} {value : Json} (h : SetTo P turns i name value) :
    isLate name = false := by
  cases hlate : isLate name with
  | false => rfl
  | true => exact absurd (root_of_isLate hlate) h.variable_

/-- It is found at the turn. -/
theorem SetTo.find_eq {name : String} {value : Json} (h : SetTo P turns i name value)
    (hturns : Turns P context steps turns) (hturn : turns[i]? = some turn) :
    find turn.context name = some value := by
  obtain ⟨assigned, hlast, hvalue⟩ := h.last
  rw [← hvalue]
  apply find_congr
  rw [lookup_context hturns hturn h.variable_, hlast]
  simp

/-! ## Rendering in two passes -/

/-- Where a text of a skill stands: in the arguments of a step; in a guard that is
    decided at run time; or in a condition or the items of a loop that the compiler
    reads. -/
inductive Place where
  | args
  | guard
  | compiler
  deriving DecidableEq

/-- What the run makes of a value the compiler has put in. -/
def again (P : Python) (run : Bindings) (source : String) : Place → Json →
    Except ThreePartMessage Json
  | .args, value => renderValue P (find run) source value
  | _, value => .ok value

/-- What becomes of a text, from its context in the expansion and that of the turn. -/
def rendered (P : Python) (context run : Bindings) (source source' : String) (place : Place)
    (text : String) : Except ThreePartMessage Json :=
  match place with
  | .guard => render P (find run) source' text
  | place =>
    match render P (find context) source text with
    | .error message => .error message
    | .ok value => again P run source' place value

/-- What becomes of a reference to a name that is not late. -/
theorem rendered_reference {run : Bindings} {source source' : String} {place : Place}
    {text name : String} {value : Json} (hwhole : whole P text = some name)
    (hlate : isLate name = false) (hrun : find run name = some value) :
    rendered P context run source source' place text = .ok value ↔
      place = .guard ∨ ∃ bound, find context name = some bound ∧
        again P run source' place bound = .ok value := by
  cases place with
  | guard => simp [rendered, render, hwhole, hrun]
  | args => cases hbound : find context name <;> simp [rendered, render, hwhole, hbound, hlate]
  | compiler => cases hbound : find context name <;> simp [rendered, render, hwhole, hbound, hlate]

variable {skill : Skill} {digest : String → String → List String → String} {inputs : Bindings}
  {jobId : String} {now : DateTime} {compiled : CompiledSkill} {σ : Type} {D : Devices σ}
  {approved : List String} {world : σ} {leaf : Leaf} {start : Bindings}

/-- In every run of a compiled skill, a reference to a variable becomes what a `set` before
    the turn has assigned to it last, exactly when it stands in a guard decided at run
    time, or when the name was bound in the expansion to a value that becomes the same;
    the arguments of a step pass the compiler only when the name was bound there. -/
theorem set_variable_usable
    (hcompile : compileSkill P digest skill inputs jobId now = .ok compiled)
    (hleaf : (leavesOf P skill inputs)[i]? = some leaf)
    (hturn : (run P D compiled approved start world).1.turns[i]? = some turn) {name : String}
    {value : Json}
    (hset : SetTo P (run P D compiled approved start world).1.turns i name value) :
    (∀ place text, whole P text = some name →
      (rendered P leaf.context turn.context (sourceOf skill leaf.primitive leaf.id)
          (stepSource turn.step) place text = .ok value ↔
        place = .guard ∨ ∃ bound, find leaf.context name = some bound ∧
          again P turn.context (stepSource turn.step) place bound = .ok value)) ∧
      ∀ text ∈ fieldTexts leaf.args, name ∈ references P text →
        (find leaf.context name).isSome = true := by
  have hturns := run_turns P D compiled approved start world
  have hemitted := compileSkill_emitted_at hcompile hleaf (hturns.getElem?_step hturn)
  constructor
  · intro place text hwhole
    exact rendered_reference hwhole hset.not_late (hset.find_eq hturns hturn)
  · intro text htext hname
    have hknown := render_ok_iff.mp (renderFields_ok hemitted.rendered text htext) name hname
    simpa [hset.not_late] using hknown

/-- A skill that gives a variable a value, and goes on with a step. -/
def settingSkill (next : Json) : Skill where
  id := "setting"
  name := "Setting"
  version := "0.3"
  steps := stepsOf .plain "setting.yaml" (.arr
    [.obj [("set", .obj [("var", .str "mode"), ("value", .str "fast")])], next])

def isFast : Option Json → Bool
  | some (.str s) => s == "fast"
  | _ => false

theorem mode_usable_in_guard :
    ∃ (compiled : CompiledSkill) (leaf : Leaf) (turn : Turn),
      compileSkill .plain (fun _ _ _ => "usable") (settingSkill (waitWhen "\x7b\x7b mode \x7d\x7d"))
        [] "job-1" 0 = .ok compiled ∧
      turn ∈ (run .plain (exits 0) compiled [] [] ()).1.turns ∧
      ∀ place text, whole .plain text = some "mode" →
        (rendered .plain leaf.context turn.context (sourceOf (settingSkill (waitWhen
              "\x7b\x7b mode \x7d\x7d")) leaf.primitive leaf.id) (stepSource turn.step) place text =
            .ok (.str "fast") ↔
          place = .guard ∨ ∃ bound, find leaf.context "mode" = some bound ∧
            again .plain turn.context (stepSource turn.step) place bound = .ok (.str "fast")) := by
  obtain ⟨compiled, i, leaf, turn, hcompiled, hleaf, hturn, htest⟩ :=
    exists_turn .plain (settingSkill (waitWhen "\x7b\x7b mode \x7d\x7d")) (fun _ _ _ => "usable") []
      (exits 0) (fun st i _ _ => isFast (lastSet .plain "mode" (st.turns.take i)))
      (by decide +kernel)
  have hroot : root "mode" = "mode" := by decide +kernel
  have hpath : pathOf "mode" = ["mode"] := by decide +kernel
  have hset : SetTo .plain (run .plain (exits 0) compiled [] [] ()).1.turns i "mode"
      (.str "fast") := by
    refine ⟨by rw [hroot]; decide, .str "fast", ?_, ?_⟩
    · rw [hroot]
      unfold isFast at htest
      split at htest
      · rename_i s hs
        rw [hs, beq_iff_eq.mp htest]
      · cases htest
    · rw [find_eq, hpath, hroot]
      rfl
  exact ⟨compiled, leaf, turn, hcompiled, List.mem_of_getElem? hturn,
    (set_variable_usable hcompiled hleaf hturn hset).1⟩

/-- A step that types what the variable was set to: it is not compiled. -/
def typingSkill : Skill :=
  settingSkill (.obj [("type", .obj [("text", .str "\x7b\x7b mode \x7d\x7d")])])

theorem mode_unusable_in_args : Parsed .plain typingSkill.steps ∧
    (compileSkill .plain (fun _ _ _ => "unusable") typingSkill [] "job-1" 0).isOk = false ∧
    (compileSkill .plain (fun _ _ _ => "unusable") (settingSkill
      (.obj [("type", .obj [("text", .str "mode")])])) [] "job-1" 0).isOk = true := by
  refine ⟨stepsOf_parsed (by decide +kernel), by decide +kernel, by decide +kernel⟩

end Skills

end Slas
