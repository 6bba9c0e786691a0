/-
  Slas.Skills.Guards

  The conditions around a step, and what the runner makes of them.

  At compile time they become one text, which the runner decides in the context of the
  step's turn.  A condition by itself is decided there as it was meant, if its names mean
  there what they meant where it stands.  Two conditions are not: `(a) and (b)` is read
  as one comparison.  Neither is the other side of an `if`: `not a` is read as a
  comparison with a text that begins with `not`.  The `when` of a control step is no part
  of the text at all.
-/

import Slas.Skills.Conditions
import Slas.Skills.Expansion
import Slas.Skills.Turns

namespace Slas

namespace Skills

variable {P : Python} {skill : Skill} {digest : String → String → List String → String}
  {inputs : Bindings} {jobId : String} {now : DateTime} {compiled : CompiledSkill} {σ : Type}
  {D : Devices σ} {approved : List String} {context : Bindings} {world : σ} {i : Nat}
  {leaf : Leaf} {turn : Turn}

/-- A step at its turn is taken when the text of its conditions is decided to hold there. -/
theorem taken_eq_guardDecides
    (hcompile : compileSkill P digest skill inputs jobId now = .ok compiled)
    (hleaf : (leavesOf P skill inputs)[i]? = some leaf)
    (hturn : (run P D compiled approved context world).1.turns[i]? = some turn) :
    Emitted P skill leaf turn.step ∧
      turn.taken = guardDecides P (find turn.context) (guardText leaf.guards) := by
  have hturns := run_turns P D compiled approved context world
  have hemitted := compileSkill_emitted_at hcompile hleaf (hturns.getElem?_step hturn)
  refine ⟨hemitted, ?_⟩
  rw [hturns.taken_eq (List.mem_of_getElem? hturn), guardHolds_eq, hemitted.when_eq]

/-! ## What the names of a condition mean -/

/-- What a name means: what it was bound to where the condition stands, and else what it
    is bound to at run time. -/
def both (context run : Bindings) (name : String) : Option Json :=
  (find context name).or (find run name)

/-- The names of a text that are bound where it stands are bound to the same at run time. -/
def SameNames (P : Python) (context run : Bindings) (text : String) : Prop :=
  ∀ name ∈ references P text, ∀ value, find context name = some value →
    find run name = some value

/-- Where nothing is bound, there is nothing to be the same. -/
theorem SameNames.of_empty {run : Bindings} {text : String} : SameNames P [] run text := by
  intro name _ value hvalue
  have hparts : ∀ parts : List String, lookupParts parts [] = none := by
    intro parts
    rcases parts with - | ⟨part, - | ⟨part', parts⟩⟩ <;> rfl
  unfold find at hvalue
  split at hvalue <;> simp [hparts] at hvalue

theorem SameNames.both_eq {context run : Bindings} {text : String}
    (h : SameNames P context run text) :
    ∀ name ∈ references P text, find run name = both context run name := by
  intro name hin
  unfold both
  cases hfind : find context name with
  | none => rfl
  | some value => exact h name hin value hfind

/-- What a condition around a step demands at the step's turn; the empty text is no
    condition. -/
def Guard.Holds (P : Python) (run : Bindings) : Guard → Prop
  | .own context text => text = "" ∨ evaluate P (both context run) "" text = .ok true
  | .branch context _ side condition => evaluate P (both context run) "" condition = .ok side
  | .early context side condition => evaluate P (find context) "" condition = .ok side
  | .control context text => text = "" ∨ evaluate P (both context run) "" text = .ok true

instance {run : Bindings} : DecidablePred (Guard.Holds P run)
  | .own _ _ => inferInstanceAs (Decidable (_ ∨ _))
  | .branch _ _ _ _ => inferInstanceAs (Decidable (evaluate _ _ _ _ = _))
  | .early _ _ _ => inferInstanceAs (Decidable (evaluate _ _ _ _ = _))
  | .control _ _ => inferInstanceAs (Decidable (_ ∨ _))

theorem Guard.holds_of_decided {context run : Bindings} {side : Bool} {condition : String}
    (h : (Guard.early context side condition).Decided P) :
    (Guard.early context side condition).Holds P run := by
  obtain ⟨source, hsource⟩ := h
  exact evaluate_congr (fun _ _ => rfl) hsource

theorem guardDecides_some {run : String → Option Json} {text : String} :
    guardDecides P run (some text) = true ↔ text = "" ∨ evaluate P run "" text = .ok true := by
  simp [guardDecides, decides_eq_true ""]

theorem append_ne_empty {text : String} : "not " ++ text ≠ "" := by
  intro h
  have hlen := congrArg String.length h
  simp at hlen

/-- One condition is the guard itself. -/
theorem guardText_single {guards : List Guard} {text : String}
    (h : guards.filterMap Guard.text = [text]) : guardText guards = some text := by
  simp [guardText, h, combine]

/-- A skill compiled and run has a step, with its place, its leaf and its turn, that
    passes a test. -/
theorem exists_turn (P : Python) (skill : Skill) (digest : String → String → List String → String)
    (given : Bindings) (D : Devices Unit) (test : RunState Unit → Nat → Leaf → Turn → Bool)
    (h : (compileSkill P digest skill given "job-1" 0).toOption.any (fun compiled =>
      let st := (run P D compiled [] [] ()).1
      ((leavesOf P skill given).zip st.turns).zipIdx.any fun entry =>
        test st entry.2 entry.1.1 entry.1.2) = true) :
    ∃ (compiled : CompiledSkill) (i : Nat) (leaf : Leaf) (turn : Turn),
      compileSkill P digest skill given "job-1" 0 = .ok compiled ∧
      (leavesOf P skill given)[i]? = some leaf ∧
      (run P D compiled [] [] ()).1.turns[i]? = some turn ∧
      test (run P D compiled [] [] ()).1 i leaf turn = true := by
  obtain ⟨compiled, hcompiled, hany⟩ := exists_eq_ok h
  obtain ⟨⟨⟨leaf, turn⟩, i⟩, hmem, htest⟩ := List.any_eq_true.mp hany
  have hi := List.mem_zipIdx_iff_getElem?.mp hmem
  obtain ⟨hleaf, hturn⟩ := List.getElem?_zip_eq_some.mp hi
  exact ⟨compiled, i, leaf, turn, hcompiled, hleaf, hturn, htest⟩

/-- Commands that all come back with one exit code, as they were expected to. -/
def exits (code : Int) : Devices Unit where
  execute step _ world := (.ok { ok := true, sentence := step.title, exitCode := some code }, world)

/-- A skill that runs a command, and goes on with the steps that follow. -/
def probing (inputs : List (String × InputSpec)) (rest : List Json) : Skill where
  id := "probing"
  name := "Probing"
  version := "0.1"
  inputs := inputs
  steps := stepsOf .plain "probing.yaml" (.arr
    (.obj [("id", .str "probe"), ("run", .obj [("command", .arr [.str "true"])])] :: rest))

/-- A step that waits, under a guard. -/
def waitWhen (guard : String) : Json :=
  .obj [("when", .str guard), ("wait", .obj [("seconds", .num (.ofNat 1))])]

/-- A reference to how the command came back. -/
def probeSucceeds : String := "\x7b\x7b steps.probe.exit_code \x7d\x7d == 0"

/-! ## The names of a guard -/

/-- How a guard comes to be decided with the values its names had where the step was
    emitted: they have the same values at run time; or one of them has none, so that the
    guard does not hold, and it does not hold with those values either. -/
def ReadsBindings (P : Python) (context run : Bindings) (text : String) : Prop :=
  SameNames P context run text ∨
    (∃ name ∈ references P text, find run name = none ∧ isLate name = false) ∧
      decides P (both context run) text = false

/-- No name that was bound where the step was emitted has got another value since. -/
def NotRebound (P : Python) (context run : Bindings) (text : String) : Prop :=
  ∀ name ∈ references P text, ∀ value, find context name = some value →
    find run name = some value ∨ find run name = none ∧ isLate name = false

/-- A condition with a name that is not known cannot be evaluated. -/
theorem decides_unknown {look : String → Option Json} {text name : String}
    (hin : name ∈ references P text) (hlook : look name = none) (hlate : isLate name = false) :
    decides P look text = false := by
  cases hd : decides P look text with
  | false => rfl
  | true =>
    have heval := (decides_eq_true "").mp hd
    unfold evaluate at heval
    cases hrender : render P look "" text with
    | error e => simp [hrender] at heval
    | ok value =>
      have hknown := render_ok_iff.mp ⟨value, hrender⟩ name hin
      simp [hlook, hlate] at hknown

/-- In every run of a compiled skill: a guard is decided with the values its names had at
    that point of the expansion when `ReadsBindings` holds at the turn; and only then, as
    long as no name has been given another value. -/
theorem guard_reads_bindings
    (hcompile : compileSkill P digest skill inputs jobId now = .ok compiled)
    (hleaf : (leavesOf P skill inputs)[i]? = some leaf)
    (hturn : (run P D compiled approved context world).1.turns[i]? = some turn)
    {text : String} (hguard : guardText leaf.guards = some text) (htext : text ≠ "") :
    (ReadsBindings P leaf.context turn.context text →
        turn.taken = decides P (both leaf.context turn.context) text) ∧
      (NotRebound P leaf.context turn.context text →
        turn.taken = decides P (both leaf.context turn.context) text →
        ReadsBindings P leaf.context turn.context text) := by
  have htaken : turn.taken = decides P (find turn.context) text := by
    rw [(taken_eq_guardDecides hcompile hleaf hturn).2, hguard]
    simp [guardDecides, htext]
  rw [htaken]
  constructor
  · rintro (hsame | ⟨⟨name, hin, hnone, hlate⟩, hfalse⟩)
    · exact decides_congr hsame.both_eq
    · rw [hfalse, decides_unknown hin hnone hlate]
  · intro hnot hreads
    by_cases hmissing : ∃ name ∈ references P text, find turn.context name = none ∧
        isLate name = false
    · obtain ⟨name, hin, hnone, hlate⟩ := hmissing
      refine Or.inr ⟨⟨name, hin, hnone, hlate⟩, ?_⟩
      rw [← hreads]
      exact decides_unknown hin hnone hlate
    · refine Or.inl fun name hin value hvalue => ?_
      rcases hnot name hin value hvalue with hsame | hnone
      · exact hsame
      · exact absurd ⟨name, hin, hnone⟩ hmissing

/-- A guard on an input: the run starts from an empty context. -/
def modeSkill : Skill :=
  probing [("mode", { type := .string, required := true })]
    [waitWhen "\x7b\x7b mode \x7d\x7d == fast"]

theorem mode_guard_lost : Parsed .plain modeSkill.steps ∧
    ∃ (compiled : CompiledSkill) (i : Nat) (leaf : Leaf) (turn : Turn) (text : String),
      compileSkill .plain (fun _ _ _ => "fast") modeSkill [("mode", .str "fast")] "job-1" 0 =
        .ok compiled ∧
      (leavesOf .plain modeSkill [("mode", .str "fast")])[i]? = some leaf ∧
      (run .plain (exits 0) compiled [] [] ()).1.turns[i]? = some turn ∧
      guardText leaf.guards = some text ∧ text ≠ "" ∧
      turn.taken ≠ decides .plain (both leaf.context turn.context) text := by
  refine ⟨stepsOf_parsed (by decide +kernel), ?_⟩
  obtain ⟨compiled, i, leaf, turn, hcompiled, hleaf, hturn, htest⟩ :=
    exists_turn .plain modeSkill (fun _ _ _ => "fast") [("mode", .str "fast")] (exits 0)
      (fun _ _ leaf turn => (guardText leaf.guards).any fun text => text ≠ "" &&
        turn.taken != decides .plain (both leaf.context turn.context) text) (by decide +kernel)
  obtain ⟨text, htext, hne⟩ := Option.any_eq_true _ _ |>.mp htest
  simp only [Bool.and_eq_true, decide_eq_true_eq, bne_iff_ne] at hne
  exact ⟨compiled, i, leaf, turn, text, hcompiled, hleaf, hturn, htext, hne.1, hne.2⟩

theorem probe_guard_read :
    ∃ (compiled : CompiledSkill) (leaf : Leaf) (turn : Turn) (text : String),
      compileSkill .plain (fun _ _ _ => "read") (probing [] [waitWhen probeSucceeds]) [] "job-1"
        0 = .ok compiled ∧
      guardText leaf.guards = some text ∧
      turn ∈ (run .plain (exits 0) compiled [] [] ()).1.turns ∧
      (NotRebound .plain leaf.context turn.context text →
        turn.taken = decides .plain (both leaf.context turn.context) text →
        ReadsBindings .plain leaf.context turn.context text) := by
  obtain ⟨compiled, i, leaf, turn, hcompiled, hleaf, hturn, htest⟩ :=
    exists_turn .plain (probing [] [waitWhen probeSucceeds]) (fun _ _ _ => "read") [] (exits 0)
      (fun _ _ leaf _ => (guardText leaf.guards).any fun text => text ≠ "") (by decide +kernel)
  obtain ⟨text, htext, hne⟩ := Option.any_eq_true _ _ |>.mp htest
  have hne' : text ≠ "" := by simpa using hne
  exact ⟨compiled, leaf, turn, text, hcompiled, htext, List.mem_of_getElem? hturn,
    (guard_reads_bindings hcompiled hleaf hturn htext hne').2⟩

/-! ## The sides of an `if` -/

/-- A step in a branch is taken exactly when its side is what the condition came to in the
    context in which the `if` was reached. -/
def OnItsSide (P : Python) (turns : List Turn) (turn : Turn) : Guard → Prop
  | .branch _ start side condition => ∀ first b, turns[start]? = some first →
      evaluate P (find first.context) "" condition = .ok b → (turn.taken = true ↔ side = b)
  | _ => True

/-- What a side is read as, at a turn. -/
def sideReads (P : Python) (run : Bindings) (side : Bool) (condition : String) : Bool :=
  if side then decides P (find run) condition
  else
    match fillText P (find run) "" condition.toList with
    | .ok text => readNot P text
    | .error _ => false

/-- `OnItsSide`, by what is in the record of the run. -/
theorem onItsSide_iff {turns : List Turn} {turn : Turn} {κ : Bindings} {start : Nat} {side : Bool}
    {condition : String} :
    OnItsSide P turns turn (.branch κ start side condition) ↔
      (turns[start]?.all fun first =>
        (evaluate P (find first.context) "" condition).toOption.all fun b =>
          turn.taken == (side == b)) = true := by
  simp only [OnItsSide]
  cases hfirst : turns[start]? with
  | none => simp
  | some first =>
    cases hb : evaluate P (find first.context) "" condition with
    | error e =>
      refine iff_of_true (fun first' b' heq hb' => ?_) (by simp [hb, Except.toOption])
      cases heq
      rw [hb] at hb'
      cases hb'
    | ok b =>
      have hone : (∀ first' b', some first = some first' →
          evaluate P (find first'.context) "" condition = .ok b' →
          (turn.taken = true ↔ side = b')) ↔ (turn.taken = true ↔ side = b) := by
        constructor
        · exact fun h => h first b rfl hb
        · intro h first' b' heq hb'
          cases heq
          rw [hb] at hb'
          cases hb'
          exact h
      rw [hone]
      simp only [Option.all_some, hb, Except.toOption]
      cases turn.taken <;> cases side <;> cases b <;> decide

instance {turns : List Turn} {turn : Turn} : DecidablePred (OnItsSide P turns turn)
  | .branch _ _ _ _ => decidable_of_iff' _ onItsSide_iff
  | .own _ _ => isTrue trivial
  | .early _ _ _ => isTrue trivial
  | .control _ _ => isTrue trivial

/-- The condition of an `if` still comes to what it came to where the `if` was reached; on
    the other side, `not` before its text is read as the opposite. -/
def ReadsSide (P : Python) (turns : List Turn) (turn : Turn) : Guard → Prop
  | .branch _ start side condition => ∀ first b, turns[start]? = some first →
      evaluate P (find first.context) "" condition = .ok b →
      sideReads P turn.context side condition = (side == b)
  | _ => True

theorem decides_side {run : Bindings} {side : Bool} {condition : String} :
    decides P (find run) (if side then condition else "not " ++ condition) =
      sideReads P run side condition := by
  cases side with
  | true => rfl
  | false => exact decides_not condition

theorem side_ne_empty {side : Bool} {condition : String}
    (h : hasLateReference P condition = true) :
    (if side then condition else "not " ++ condition) ≠ "" := by
  cases side with
  | true => exact ne_empty_of_hasLateReference h
  | false => exact append_ne_empty

/-- In every run of a compiled skill, a step whose only guard is the branch it is in is
    performed on its own side of the `if`, and on that side only, exactly when the runner
    reads that side at its turn. -/
theorem late_if_one_branch
    (hcompile : compileSkill P digest skill inputs jobId now = .ok compiled)
    (hleaf : (leavesOf P skill inputs)[i]? = some leaf)
    (hturn : (run P D compiled approved context world).1.turns[i]? = some turn)
    {guard : Guard} (hguard : guard ∈ leaf.guards)
    (honly : leaf.guards.filterMap Guard.text = guard.text.toList) :
    OnItsSide P (run P D compiled approved context world).1.turns turn guard ↔
      ReadsSide P (run P D compiled approved context world).1.turns turn guard := by
  obtain ⟨hemitted, htaken⟩ := taken_eq_guardDecides hcompile hleaf hturn
  cases guard with
  | own _ _ => exact Iff.rfl
  | early _ _ _ => exact Iff.rfl
  | control _ _ => exact Iff.rfl
  | branch κ start side condition =>
    have hlate : hasLateReference P condition = true := hemitted.decided _ hguard
    have hside : turn.taken = sideReads P turn.context side condition := by
      rw [htaken, guardText_single honly, ← decides_side]
      simp [guardDecides, side_ne_empty hlate]
    simp only [OnItsSide, ReadsSide, hside]
    refine forall_congr' fun first => forall_congr' fun b => forall_congr' fun _ =>
      forall_congr' fun _ => ?_
    cases sideReads P turn.context side condition <;> cases side <;> cases b <;> decide

/-- A step for when the command succeeds, and one for when it does not. -/
def eitherSkill : Skill :=
  probing [] [.obj [("if", .obj [("condition", .str probeSucceeds),
    ("then", .arr [.obj [("wait", .obj [("seconds", .num (.ofNat 1))])]]),
    ("else", .arr [.obj [("wait", .obj [("seconds", .num (.ofNat 2))])]])])]]

theorem either_reads_side :
    ∃ (compiled : CompiledSkill) (leaf : Leaf) (turn : Turn) (guard : Guard),
      compileSkill .plain (fun _ _ _ => "side") eitherSkill [] "job-1" 0 = .ok compiled ∧
      guard ∈ leaf.guards ∧
      (OnItsSide .plain (run .plain (exits 0) compiled [] [] ()).1.turns turn guard ↔
        ReadsSide .plain (run .plain (exits 0) compiled [] [] ()).1.turns turn guard) := by
  obtain ⟨compiled, i, leaf, turn, hcompiled, hleaf, hturn, htest⟩ :=
    exists_turn .plain eitherSkill (fun _ _ _ => "side") [] (exits 0)
      (fun _ _ leaf _ => leaf.guards.any fun guard =>
        leaf.guards.filterMap Guard.text = guard.text.toList) (by decide +kernel)
  obtain ⟨guard, hguard, honly⟩ := List.any_eq_true.mp htest
  exact ⟨compiled, leaf, turn, guard, hcompiled, hguard,
    late_if_one_branch hcompiled hleaf hturn hguard (by simpa using honly)⟩

/-- The command does not succeed, and the step for when it does not is left out too. -/
theorem either_takes_neither : Parsed .plain eitherSkill.steps ∧
    ∃ (compiled : CompiledSkill) (i : Nat) (leaf : Leaf) (turn : Turn) (guard : Guard),
      compileSkill .plain (fun _ _ _ => "neither") eitherSkill [] "job-1" 0 = .ok compiled ∧
      (leavesOf .plain eitherSkill [])[i]? = some leaf ∧
      (run .plain (exits 1) compiled [] [] ()).1.turns[i]? = some turn ∧
      guard ∈ leaf.guards ∧ leaf.guards.length = 1 ∧ turn.taken = false ∧
      ¬ OnItsSide .plain (run .plain (exits 1) compiled [] [] ()).1.turns turn guard := by
  refine ⟨stepsOf_parsed (by decide +kernel), ?_⟩
  obtain ⟨compiled, i, leaf, turn, hcompiled, hleaf, hturn, htest⟩ :=
    exists_turn .plain eitherSkill (fun _ _ _ => "neither") [] (exits 1)
      (fun st _ leaf turn => leaf.guards.any fun guard =>
        decide (leaf.guards.length = 1) && !turn.taken &&
          decide (¬ OnItsSide .plain st.turns turn guard)) (by decide +kernel)
  obtain ⟨guard, hguard, hside⟩ := List.any_eq_true.mp htest
  simp only [Bool.and_eq_true, decide_eq_true_eq, Bool.not_eq_true'] at hside
  exact ⟨compiled, i, leaf, turn, guard, hcompiled, hleaf, hturn, hguard, hside.1.1, hside.1.2,
    hside.2⟩

/-! ## Conditions together -/

/-- A condition by itself is decided at a turn as it was meant. -/
def Guard.Readable (P : Python) (run : Bindings) : Guard → Prop
  | .own context text => SameNames P context run text
  | .branch context _ side condition => SameNames P context run condition ∧
      (side = false → (sideReads P run false condition = true ↔
        evaluate P (find run) "" condition = .ok false))
  | _ => True

/-- The conditions around a step come together at a turn: at most one of them is in the
    text of the guard, and it is decided as it was meant; and the `when` of every control
    step around holds, if that one does. -/
structure Composes (P : Python) (run : Bindings) (guards : List Guard) : Prop where
  one : (guards.filterMap Guard.text).length ≤ 1
  readable : ∀ guard ∈ guards, guard.Readable P run
  control : (∀ guard ∈ guards, guard.text ≠ none → guard.Holds P run) →
    ∀ context text, .control context text ∈ guards → (Guard.control context text).Holds P run

theorem Guard.Readable.guardDecides {run : Bindings} {guard : Guard} (h : guard.Readable P run)
    (hdecided : guard.Decided P) {text : String} (htext : guard.text = some text) :
    guardDecides P (find run) (some text) = true ↔ guard.Holds P run := by
  rw [guardDecides_some]
  cases guard with
  | own context own =>
    cases htext
    exact or_congr_right (evaluate_iff (SameNames.both_eq h))
  | branch context start side condition =>
    have hsame := SameNames.both_eq h.1
    have hne : text ≠ "" := by
      rw [← Option.some.inj htext]
      exact side_ne_empty hdecided
    have hreads : decides P (find run) text = sideReads P run side condition := by
      rw [← Option.some.inj htext]
      exact decides_side
    rw [or_iff_right hne, ← decides_eq_true "", hreads]
    cases side with
    | true => exact (decides_eq_true "").trans (evaluate_iff hsame)
    | false => exact (h.2 rfl).trans (evaluate_iff hsame)
  | early _ _ _ => cases htext
  | control _ _ => cases htext

/-- In every run of a compiled skill, a step whose conditions come together at its turn is
    taken there exactly when its own `when` and the conditions and guards of all the
    control steps around it hold. -/
theorem guards_compose
    (hcompile : compileSkill P digest skill inputs jobId now = .ok compiled)
    (hleaf : (leavesOf P skill inputs)[i]? = some leaf)
    (hturn : (run P D compiled approved context world).1.turns[i]? = some turn)
    (hcomposes : Composes P turn.context leaf.guards) :
    turn.taken = true ↔ ∀ guard ∈ leaf.guards, guard.Holds P turn.context := by
  obtain ⟨hemitted, htaken⟩ := taken_eq_guardDecides hcompile hleaf hturn
  -- what the text of the guard says is what the conditions in it say
  have hkept : turn.taken = true ↔
      ∀ guard ∈ leaf.guards, guard.text ≠ none → guard.Holds P turn.context := by
    have hone := hcomposes.one
    rw [htaken]
    cases htexts : leaf.guards.filterMap Guard.text with
    | nil =>
      have hnone : ∀ guard ∈ leaf.guards, guard.text = none := by
        simpa using htexts
      have htext : guardText leaf.guards = none := by simp [guardText, htexts]
      rw [htext]
      simp only [guardDecides, true_iff]
      exact fun guard hin hne => absurd (hnone guard hin) hne
    | cons text rest =>
      have hrest : rest = [] := by
        rw [htexts] at hone
        simpa using hone
      subst hrest
      have hof : ∀ guard ∈ leaf.guards, guard.text ≠ none → guard.text = some text := by
        intro guard hin hne
        obtain ⟨other, hother⟩ := Option.ne_none_iff_exists'.mp hne
        have hmem : other ∈ leaf.guards.filterMap Guard.text :=
          List.mem_filterMap.mpr ⟨guard, hin, hother⟩
        rw [htexts, List.mem_singleton] at hmem
        rw [hother, hmem]
      obtain ⟨guard, hin, hguard⟩ : ∃ guard ∈ leaf.guards, guard.text = some text := by
        have hmem : text ∈ leaf.guards.filterMap Guard.text := by simp [htexts]
        exact List.mem_filterMap.mp hmem
      rw [guardText_single htexts]
      constructor
      · intro hdecides other hother hne
        exact ((hcomposes.readable other hother).guardDecides (hemitted.decided other hother)
          (hof other hother hne)).mp hdecides
      · intro hall
        exact ((hcomposes.readable guard hin).guardDecides (hemitted.decided guard hin)
          hguard).mpr (hall guard hin (by simp [hguard]))
  rw [hkept]
  constructor
  · intro hall guard hin
    cases guard with
    | own _ _ => exact hall _ hin (by simp [Guard.text])
    | branch _ _ _ _ => exact hall _ hin (by simp [Guard.text])
    | early _ _ _ => exact Guard.holds_of_decided (hemitted.decided _ hin)
    | control _ _ => exact hcomposes.control hall _ _ hin
  · exact fun hall guard hin _ => hall guard hin

def onlyProbed : List Guard → Bool
  | [.own context text] => context.isEmpty && text == probeSucceeds
  | _ => false

theorem probe_guard_composes :
    ∃ (compiled : CompiledSkill) (leaf : Leaf) (turn : Turn),
      compileSkill .plain (fun _ _ _ => "one") (probing [] [waitWhen probeSucceeds]) [] "job-1" 0 =
        .ok compiled ∧
      leaf.guards = [.own [] probeSucceeds] ∧
      turn ∈ (run .plain (exits 0) compiled [] [] ()).1.turns ∧
      (turn.taken = true ↔ ∀ guard ∈ leaf.guards, guard.Holds .plain turn.context) := by
  obtain ⟨compiled, i, leaf, turn, hcompiled, hleaf, hturn, htest⟩ :=
    exists_turn .plain (probing [] [waitWhen probeSucceeds]) (fun _ _ _ => "one") [] (exits 0)
      (fun _ _ leaf _ => onlyProbed leaf.guards) (by decide +kernel)
  have hguards : leaf.guards = [.own [] probeSucceeds] := by
    unfold onlyProbed at htest
    split at htest
    · rename_i context text hguards
      simp only [Bool.and_eq_true, List.isEmpty_iff, beq_iff_eq] at htest
      rw [hguards, htest.1, htest.2]
    · cases htest
  have hcomposes : Composes .plain turn.context leaf.guards := by
    rw [hguards]
    constructor
    · simp [Guard.text]
    · intro guard hguard
      rw [List.mem_singleton.mp hguard]
      exact SameNames.of_empty
    · intro _ context text hin
      cases List.mem_singleton.mp hin
  exact ⟨compiled, leaf, turn, hcompiled, hguards, List.mem_of_getElem? hturn,
    guards_compose hcompiled hleaf hturn hcomposes⟩

/-- A guard inside an `if`, both of them on the same condition. -/
def twiceSkill : Skill :=
  probing [] [.obj [("if", .obj [("condition", .str probeSucceeds),
    ("then", .arr [waitWhen probeSucceeds])])]]

/-- Both conditions hold, and the step is left out. -/
theorem twice_left_out : Parsed .plain twiceSkill.steps ∧
    ∃ (compiled : CompiledSkill) (i : Nat) (leaf : Leaf) (turn : Turn),
      compileSkill .plain (fun _ _ _ => "twice") twiceSkill [] "job-1" 0 = .ok compiled ∧
      (leavesOf .plain twiceSkill [])[i]? = some leaf ∧
      (run .plain (exits 0) compiled [] [] ()).1.turns[i]? = some turn ∧
      ¬ (turn.taken = true ↔ ∀ guard ∈ leaf.guards, guard.Holds .plain turn.context) := by
  refine ⟨stepsOf_parsed (by decide +kernel), ?_⟩
  obtain ⟨compiled, i, leaf, turn, hcompiled, hleaf, hturn, htest⟩ :=
    exists_turn .plain twiceSkill (fun _ _ _ => "twice") [] (exits 0)
      (fun _ _ leaf turn => !turn.taken &&
        leaf.guards.all fun guard => decide (guard.Holds .plain turn.context)) (by decide +kernel)
  simp only [Bool.and_eq_true, Bool.not_eq_true', List.all_eq_true, decide_eq_true_eq] at htest
  refine ⟨compiled, i, leaf, turn, hcompiled, hleaf, hturn, fun hiff => ?_⟩
  have htaken := hiff.mpr htest.2
  rw [htest.1] at htaken
  cases htaken

end Skills

end Slas
