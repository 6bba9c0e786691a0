/-
  Slas.Skills.Substitution

  Arguments are rendered twice: by the compiler, and by the runner at the step's turn.

  The two passes come to one substitution of the author's references (`renderValue_twice`)
  as long as the text the compiler leaves is read again as it was meant: the references
  that were kept are found in it, and no others (`Unambiguous`).  A value that was put in
  may hold a reference, or make one with the text around it.
-/

import Slas.Skills.Guards

namespace Slas

open Placeholders (scan flatten fillIn)

namespace Skills

variable {P : Python} {look look' : String → Option Json} {source source' : String}

/-! ## Values without references -/

/-- No text in the value has a reference in it. -/
def Inert (P : Python) (value : Json) : Prop := ∀ text ∈ texts value, references P text = []

mutual

/-- A value without references stays as it is. -/
theorem renderValue_inert : ∀ {value : Json}, Inert P value →
    renderValue P look source value = .ok value
  | .str s, h => by
    rw [renderValue]
    exact render_still (h s (by simp [texts]))
  | .arr xs, h => by
    rw [renderValue, renderItems_inert fun text hin => h text (by simpa [texts] using hin)]
    rfl
  | .obj kvs, h => by
    rw [renderValue, renderFields_inert fun text hin => h text (by simpa [texts] using hin)]
    rfl
  | .null, _ => by simp [renderValue]
  | .bool _, _ => by simp [renderValue]
  | .num _, _ => by simp [renderValue]

theorem renderItems_inert : ∀ {xs : List Json}, (∀ text ∈ itemTexts xs, references P text = []) →
    renderItems P look source xs = .ok xs
  | [], _ => rfl
  | x :: xs, h => by
    have hx : Inert P x := fun text hin => h text (by simp [itemTexts, hin])
    rw [renderItems, renderValue_inert hx,
      renderItems_inert fun text hin => h text (by simp [itemTexts, hin])]
    rfl

theorem renderFields_inert : ∀ {kvs : Bindings},
    (∀ text ∈ fieldTexts kvs, references P text = []) → renderFields P look source kvs = .ok kvs
  | [], _ => rfl
  | kv :: kvs, h => by
    rw [renderFields, renderField_inert fun text hin => h text (by simp [fieldTexts, hin]),
      renderFields_inert fun text hin => h text (by simp [fieldTexts, hin])]
    rfl

theorem renderField_inert : ∀ {kv : String × Json},
    (∀ text ∈ fieldTexts₁ kv, references P text = []) → renderField P look source kv = .ok kv
  | (key, value), h => by
    rw [renderField, renderValue_inert h]
    rfl

end

/-! ## Two passes -/

/-- Looking up in one place and then in another. -/
def layered (look look' : String → Option Json) (name : String) : Option Json :=
  (look name).or (look' name)

/-- The text that is left when what is known is put in. -/
def filled (P : Python) (look : String → Option Json) (text : String) : List Char :=
  flatten (fillIn (known P look) (scan (placeholder P) text.toList))

/-- A text that is read again as it was meant.  The value of a text that is one reference
    has no references in it; in the text that another leaves, the references that were
    kept are found, and no others, and it is not one reference now. -/
structure Unambiguous (P : Python) (look : String → Option Json) (text : String) : Prop where
  value : ∀ name value, whole P text = some name → look name = some value → Inert P value
  scan_filled : whole P text = none → scan (placeholder P) (filled P look text) =
    fillIn (known P look) (scan (placeholder P) text.toList)
  not_whole : whole P text = none → whole P (String.ofList (filled P look text)) = none

theorem fill_over (raw : List Char) (name : String) :
    fill P (layered look look') source raw name =
      match known P look name with
      | some cs => .ok cs
      | none => fill P look' source raw name := by
  unfold fill known layered
  cases look name <;> rfl

/-- Rendering a text and then what it became is rendering it once. -/
theorem render_twice {text : String} (h : Unambiguous P look text) {value : Json}
    (hfirst : render P look source text = .ok value) :
    renderValue P look' source' value = render P (layered look look') source' text := by
  cases hwhole : whole P text with
  | some name =>
    simp only [render, hwhole] at hfirst ⊢
    unfold layered
    cases hlook : look name with
    | some bound =>
      simp only [hlook, Except.ok.injEq] at hfirst
      subst hfirst
      rw [renderValue_inert (h.value name bound hwhole hlook)]
      rfl
    | none =>
      simp only [hlook] at hfirst
      split at hfirst
      · cases hfirst
        rw [renderValue, render, hwhole]
        rfl
      · cases hfirst
  | none =>
    have hok := render_ok_iff.mp ⟨value, hfirst⟩
    rw [render_eq_of_not_whole hwhole hok] at hfirst
    cases hfirst
    change renderValue P look' source' (.str (String.ofList (filled P look text))) = _
    rw [renderValue, render_of_not_whole (h.not_whole hwhole), render_of_not_whole hwhole,
      String.toList_ofList, fillText, h.scan_filled hwhole, Placeholders.subst_fillIn, fillText]
    congr 1
    apply Placeholders.subst_congr
    intro raw name _
    cases hknown : known P look name <;> simp only [fill_over, hknown]

mutual

/-- Rendering a value and then what it became is rendering it once. -/
theorem renderValue_twice : ∀ {value value₁ : Json},
    (∀ text ∈ texts value, Unambiguous P look text) →
    renderValue P look source value = .ok value₁ →
    renderValue P look' source' value₁ = renderValue P (layered look look') source' value
  | .str s, value₁, h, hfirst => by
    rw [renderValue] at hfirst
    rw [render_twice (h s (by simp [texts])) hfirst, renderValue]
  | .arr xs, value₁, h, hfirst => by
    rw [renderValue] at hfirst
    cases hxs : renderItems P look source xs with
    | error e => simp [hxs, Except.map] at hfirst
    | ok ys =>
      rw [hxs] at hfirst
      cases hfirst
      rw [renderValue, renderValue,
        renderItems_twice (fun text hin => h text (by simpa [texts] using hin)) hxs]
  | .obj kvs, value₁, h, hfirst => by
    rw [renderValue] at hfirst
    cases hkvs : renderFields P look source kvs with
    | error e => simp [hkvs, Except.map] at hfirst
    | ok kvs' =>
      rw [hkvs] at hfirst
      cases hfirst
      rw [renderValue, renderValue,
        renderFields_twice (fun text hin => h text (by simpa [texts] using hin)) hkvs]
  | .null, _, _, hfirst => by
    simp only [renderValue, Except.ok.injEq] at hfirst
    subst hfirst
    simp only [renderValue]
  | .bool _, _, _, hfirst => by
    simp only [renderValue, Except.ok.injEq] at hfirst
    subst hfirst
    simp only [renderValue]
  | .num _, _, _, hfirst => by
    simp only [renderValue, Except.ok.injEq] at hfirst
    subst hfirst
    simp only [renderValue]

theorem renderItems_twice : ∀ {xs ys : List Json},
    (∀ text ∈ itemTexts xs, Unambiguous P look text) →
    renderItems P look source xs = .ok ys →
    renderItems P look' source' ys = renderItems P (layered look look') source' xs
  | [], _, _, hfirst => by
    cases hfirst
    rfl
  | x :: xs, _, h, hfirst => by
    rw [renderItems] at hfirst
    cases hx : renderValue P look source x with
    | error e => simp [hx] at hfirst
    | ok y =>
      cases hxs : renderItems P look source xs with
      | error e => simp [hx, hxs, Except.map] at hfirst
      | ok ys =>
        rw [hx, hxs] at hfirst
        cases hfirst
        rw [renderItems, renderItems,
          renderValue_twice (fun text hin => h text (by simp [itemTexts, hin])) hx,
          renderItems_twice (fun text hin => h text (by simp [itemTexts, hin])) hxs]

theorem renderFields_twice : ∀ {kvs kvs' : Bindings},
    (∀ text ∈ fieldTexts kvs, Unambiguous P look text) →
    renderFields P look source kvs = .ok kvs' →
    renderFields P look' source' kvs' = renderFields P (layered look look') source' kvs
  | [], _, _, hfirst => by
    cases hfirst
    rfl
  | kv :: kvs, _, h, hfirst => by
    rw [renderFields] at hfirst
    cases hkv : renderField P look source kv with
    | error e => simp [hkv] at hfirst
    | ok kv' =>
      cases hkvs : renderFields P look source kvs with
      | error e => simp [hkv, hkvs, Except.map] at hfirst
      | ok kvs' =>
        rw [hkv, hkvs] at hfirst
        cases hfirst
        rw [renderFields, renderFields,
          renderField_twice (fun text hin => h text (by simp [fieldTexts, hin])) hkv,
          renderFields_twice (fun text hin => h text (by simp [fieldTexts, hin])) hkvs]

theorem renderField_twice : ∀ {kv kv' : String × Json},
    (∀ text ∈ fieldTexts₁ kv, Unambiguous P look text) →
    renderField P look source kv = .ok kv' →
    renderField P look' source' kv' = renderField P (layered look look') source' kv
  | (key, value), _, h, hfirst => by
    rw [renderField] at hfirst
    cases hvalue : renderValue P look source value with
    | error e => simp [hvalue, Except.map] at hfirst
    | ok value' =>
      rw [hvalue] at hfirst
      cases hfirst
      rw [renderField, renderField, renderValue_twice h hvalue]

end

/-! ## What is handed on -/

theorem layered_find (context run : Bindings) :
    layered (find context) (find run) = both context run := rfl

/-- The references of a text are late, and name nothing yet. -/
def Settled (P : Python) (run : Bindings) (text : String) : Prop :=
  ∀ name ∈ references P text, find run name = none ∧ isLate name = true

/-- A text whose references name nothing yet stays as it is. -/
theorem Settled.render {run : Bindings} {text : String} (h : Settled P run text) :
    render P (find run) source text = .ok (.str text) := by
  have hnone : Skills.render P (fun _ => none) source text = .ok (.str text) := by
    cases hwhole : whole P text with
    | some name =>
      have hlate := (h name (by simp [references_whole hwhole])).2
      simp [Skills.render, hwhole, hlate]
    | none =>
      have hknown : known P (fun _ => none) = fun _ => none := rfl
      rw [render_eq_of_not_whole hwhole fun name hin => Or.inl (h name hin).2, hknown,
        Placeholders.fillIn_none, Placeholders.flatten_scan, String.ofList_toList]
  exact render_congr (fun name hin => (h name hin).1.symm) hnone

variable {skill : Skill} {digest : String → String → List String → String} {inputs : Bindings}
  {jobId : String} {now : DateTime} {compiled : CompiledSkill} {σ : Type} {D : Devices σ}
  {approved : List String} {start : Bindings} {world : σ}

/-- The runner hands on what one substitution of the author's references makes of the
    arguments; the condition of an `assert` it reads again, as it stands. -/
def Substituted (P : Python) (leaf : Leaf) (turn : Turn) (d : Step) : Prop :=
  renderFields P (both leaf.context turn.context) (stepSource turn.step) leaf.args = .ok d.args ∧
    ∀ condition, d.primitive = "assert" → d.args.lookup "condition" = some condition →
      evaluate P (find turn.context) (stepSource d) (P.str condition) =
        evaluateText P (stepSource d) (P.str condition).toList

/-- The texts of the arguments are read again as they were meant, and so is the condition
    of an `assert` once more. -/
structure ReadAsMeant (P : Python) (leaf : Leaf) (turn : Turn) : Prop where
  args : ∀ text ∈ fieldTexts leaf.args, Unambiguous P (find leaf.context) text
  condition : leaf.primitive = "assert" → ∀ args condition,
    renderFields P (both leaf.context turn.context) (stepSource turn.step) leaf.args = .ok args →
    args.lookup "condition" = some condition → Settled P turn.context (P.str condition)

/-- In every run of a compiled skill, each step that is handed on has the arguments that
    one simultaneous substitution makes of the author's, from the values of the names
    where the step was emitted and at its turn, when these are read as they were meant. -/
theorem values_are_data
    (hcompile : compileSkill P digest skill inputs jobId now = .ok compiled) :
    ∀ d ∈ (run P D compiled approved start world).1.dispatched,
      ∃ (i : Nat) (leaf : Leaf) (turn : Turn), (leavesOf P skill inputs)[i]? = some leaf ∧
        (run P D compiled approved start world).1.turns[i]? = some turn ∧
        turn.taken = true ∧ Resolved P turn.context turn.step d ∧
        (ReadAsMeant P leaf turn → Substituted P leaf turn d) := by
  intro d hd
  have hturns := run_turns P D compiled approved start world
  obtain ⟨turn, hmem, htaken, hresolved, -⟩ := run_dispatched P D compiled approved start world d hd
  obtain ⟨i, hi⟩ := List.getElem?_of_mem hmem
  have hstep := hturns.getElem?_step hi
  obtain ⟨leaf, hleaf⟩ : ∃ leaf, (leavesOf P skill inputs)[i]? = some leaf := by
    have hlen := (compileSkill_emitted hcompile).length_eq
    have hlt := (List.getElem?_eq_some_iff.mp hstep).1
    exact ⟨_, List.getElem?_eq_getElem (by omega)⟩
  have hemitted := compileSkill_emitted_at hcompile hleaf hstep
  refine ⟨i, leaf, turn, hleaf, hi, htaken, hresolved, fun hmeant => ?_⟩
  obtain ⟨args, hargs, rfl⟩ := hresolved
  have honce : renderFields P (both leaf.context turn.context) (stepSource turn.step) leaf.args =
      .ok args := by
    rw [← layered_find, ← renderFields_twice hmeant.args hemitted.rendered]
    exact hargs
  refine ⟨honce, fun condition hassert hcondition => ?_⟩
  have hprimitive : leaf.primitive = "assert" := by
    rw [← hemitted.primitive_eq]
    exact hassert
  have hsettled := hmeant.condition hprimitive args condition honce hcondition
  unfold evaluate
  rw [hsettled.render]

/-- A skill that hands a note on after a command. -/
def noteSkill : Skill :=
  probing [("note", { type := .string, required := true })]
    [.obj [("copy", .obj [("from", .str "\x7b\x7b note \x7d\x7d"), ("to", .str "report.txt")])]]

theorem note_is_data : ∃ compiled,
    compileSkill .plain (fun _ _ _ => "data") noteSkill [("note", .str "all is well")] "job-1" 0 =
      .ok compiled ∧
    ∀ d ∈ (run .plain (exits 0) compiled [] [] ()).1.dispatched,
      ∃ (i : Nat) (leaf : Leaf) (turn : Turn),
        (leavesOf .plain noteSkill [("note", .str "all is well")])[i]? = some leaf ∧
        (run .plain (exits 0) compiled [] [] ()).1.turns[i]? = some turn ∧ turn.taken = true ∧
        Resolved .plain turn.context turn.step d ∧
        (ReadAsMeant .plain leaf turn → Substituted .plain leaf turn d) := by
  have hok : (compileSkill .plain (fun _ _ _ => "data") noteSkill [("note", .str "all is well")]
      "job-1" 0).toOption.any (fun _ => true) = true := by decide +kernel
  obtain ⟨compiled, hcompiled, -⟩ := exists_eq_ok hok
  exact ⟨compiled, hcompiled, values_are_data hcompiled⟩

/-- A note that is itself a reference is handed on as what it refers to. -/
theorem note_is_template : Parsed .plain noteSkill.steps ∧
    ∃ (compiled : CompiledSkill) (i : Nat) (leaf : Leaf) (turn : Turn),
      compileSkill .plain (fun _ _ _ => "template") noteSkill
        [("note", .str "\x7b\x7b steps.probe.exit_code \x7d\x7d")] "job-1" 0 = .ok compiled ∧
      (leavesOf .plain noteSkill
        [("note", .str "\x7b\x7b steps.probe.exit_code \x7d\x7d")])[i]? = some leaf ∧
      (run .plain (exits 0) compiled [] [] ()).1.turns[i]? = some turn ∧
      ∃ d ∈ (run .plain (exits 0) compiled [] [] ()).1.dispatched,
        d.id = turn.step.id ∧ ¬ Substituted .plain leaf turn d := by
  refine ⟨stepsOf_parsed (by decide +kernel), ?_⟩
  obtain ⟨compiled, i, leaf, turn, hcompiled, hleaf, hturn, htest⟩ :=
    exists_turn .plain noteSkill (fun _ _ _ => "template")
      [("note", .str "\x7b\x7b steps.probe.exit_code \x7d\x7d")] (exits 0)
      (fun st _ leaf turn => st.dispatched.any fun d => d.id == turn.step.id &&
        !(d.args.lookup "from").any Json.isText &&
          (renderFields .plain (both leaf.context turn.context) (stepSource turn.step)
            leaf.args).toOption.any fun args => (args.lookup "from").any Json.isText)
      (by decide +kernel)
  obtain ⟨d, hd, htext⟩ := List.any_eq_true.mp htest
  simp only [Bool.and_eq_true, beq_iff_eq, Bool.not_eq_true'] at htext
  obtain ⟨⟨hid, hother⟩, hmeant⟩ := htext
  refine ⟨compiled, i, leaf, turn, hcompiled, hleaf, hturn, d, hd, hid, fun hsub => ?_⟩
  -- the substitution leaves a text, and a number was handed on
  rw [hsub.1] at hmeant
  simp only [Except.toOption, Option.any_some] at hmeant
  rw [hother] at hmeant
  cases hmeant

end Skills

end Slas
