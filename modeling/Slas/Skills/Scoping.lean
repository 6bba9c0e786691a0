/-
  Slas.Skills.Scoping

  What a loop leaves of the context (`_expand_foreach`), for loops nested to any depth.

  `Comes` relates the steps of a skill to the steps that their expansion comes to, with the
  context it has there.  A loop that finds its index name bound, or its variable bound to
  nothing, removes what it found (`restores_iff`); if no loop does, every loop leaves the
  context as it was and gives each turn its own element and index (`scoped_iff`).
-/

import Slas.Skills.Expansion
import Slas.Skills.Variables

namespace Slas

namespace Skills

variable {P : Python} {skill : Skill} {handles : List String}

/-! ## Contexts -/

/-- The same names are bound, to the same values. -/
def Same (context context' : Bindings) : Prop :=
  ∀ name, context.lookup name = context'.lookup name

theorem Same.refl (context : Bindings) : Same context context := fun _ => rfl

theorem Same.trans {a b c : Bindings} (h : Same a b) (h' : Same b c) : Same a c :=
  fun name => (h name).trans (h' name)

/-- References resolve alike. -/
theorem Same.find {context context' : Bindings} (h : Same context context') (name : String) :
    find context name = find context' name := find_congr (h _)

theorem lookup_drop (key name : String) (context : Bindings) :
    (drop key context).lookup name = if name = key then none else context.lookup name := by
  induction context with
  | nil => simp [drop]
  | cons kv context ih =>
    obtain ⟨k, v⟩ := kv
    have hbeq : (name == k) = decide (name = k) := by
      rw [Bool.eq_iff_iff]
      simp
    rw [drop] at ih
    rw [drop, List.filter_cons]
    by_cases hk : k = key
    · have hskip : decide ((k, v).1 ≠ key) = false := by simp [hk]
      rw [hskip, if_neg (by simp), ih, List.lookup_cons, hbeq]
      by_cases hname : name = key <;> simp [hname, hk]
    · have hkeep : decide ((k, v).1 ≠ key) = true := by simp [hk]
      rw [hkeep, if_pos rfl, List.lookup_cons, List.lookup_cons, ih, hbeq]
      by_cases hname : name = key
      · simp [hname, Ne.symm hk]
      · simp [hname]

/-! ## The turns of a loop -/

/-- The variable of a loop. -/
def loopVar (P : Python) (args : Bindings) : String := P.str ((args.lookup "as").getD (.str "item"))

def indexVar (var : String) : String := var ++ "_index"

theorem indexVar_ne (var : String) : indexVar var ≠ var := by
  intro h
  have hlength := congrArg String.length h
  rw [indexVar, String.length_append] at hlength
  have hindex : "_index".length = 6 := by decide
  omega

/-- The expander at the start of a turn. -/
def turnStart (var : String) (item : Json) (index : Nat) (st : Expander) : Expander :=
  { st with context := assign (indexVar var) (.num (.ofNat index)) (assign var item st.context) }

/-- The turns of a loop: the index, the element and the expander each one starts with. -/
inductive TurnOf (body : Branch) (g : Guarding) (var : String) :
    List Json → Nat → Expander → Nat → Json → Expander → Prop where
  | now {item items index st} :
      TurnOf body g var (item :: items) index st index item (turnStart var item index st)
  | later {item items index st mid i x start} :
      body g (turnStart var item index st) = .ok mid →
      TurnOf body g var items (index + 1) mid i x start →
      TurnOf body g var (item :: items) index st i x start

variable {body : Branch} {g : Guarding} {var : String} {items : List Json} {index i : Nat}
  {x : Json} {st st' start : Expander}

theorem loopTurns_cons {item : Json} :
    loopTurns body g var (item :: items) index st =
      match body g (turnStart var item index st) with
      | .error e => .error e
      | .ok st => loopTurns body g var items (index + 1) st := rfl

/-- Every turn of a loop that is done was done. -/
theorem TurnOf.done (h : TurnOf body g var items index st i x start)
    (hloop : loopTurns body g var items index st = .ok st') : ∃ mid, body g start = .ok mid := by
  induction h with
  | now =>
    rw [loopTurns_cons] at hloop
    split at hloop
    · cases hloop
    · rename_i mid hmid
      exact ⟨mid, hmid⟩
  | later hbody _ ih =>
    rw [loopTurns_cons, hbody] at hloop
    exact ih hloop

/-- Contexts that agree but for the names of a loop. -/
def SameOutside (var : String) (context context' : Bindings) : Prop :=
  ∀ name, name ≠ var → name ≠ indexVar var → context.lookup name = context'.lookup name

theorem sameOutside_turnStart : SameOutside var (turnStart var x index st).context st.context := by
  intro name hvar hindex
  simp only [turnStart]
  rw [lookup_assign, if_neg hindex, lookup_assign, if_neg hvar]

/-- What a turn starts with: its element, its index, and the context around the loop. -/
structure StartsWith (var : String) (items : List Json) (context : Bindings) (i : Nat) (x : Json)
    (start : Expander) : Prop where
  element : items[i]? = some x
  var_eq : start.context.lookup var = some x
  index_eq : start.context.lookup (indexVar var) = some (.num (.ofNat i))
  others : SameOutside var start.context context

/-- The bodies of the turns leave the context as they find it. -/
def TurnsKeep (body : Branch) (g : Guarding) (var : String) (items : List Json) (index : Nat)
    (st : Expander) : Prop :=
  ∀ i x start mid, TurnOf body g var items index st i x start → body g start = .ok mid →
    Same mid.context start.context

theorem loopTurns_outside (hkeep : TurnsKeep body g var items index st)
    (h : loopTurns body g var items index st = .ok st') :
    SameOutside var st'.context st.context := by
  induction items generalizing index st with
  | nil =>
    cases h
    exact fun _ _ _ => rfl
  | cons item items ih =>
    rw [loopTurns_cons] at h
    split at h
    · cases h
    · rename_i mid hmid
      have hrest := ih (fun i x start mid' hturn => hkeep i x start mid' (.later hmid hturn)) h
      have hbody := hkeep _ _ _ _ .now hmid
      intro name hvar hindex
      rw [hrest name hvar hindex, hbody name]
      exact sameOutside_turnStart name hvar hindex

theorem startsWith_of_turn (hkeep : TurnsKeep body g var items index st)
    (h : TurnOf body g var items index st i x start) :
    ∃ k, i = index + k ∧ items[k]? = some x ∧ start.context.lookup var = some x ∧
      start.context.lookup (indexVar var) = some (.num (.ofNat i)) ∧
      SameOutside var start.context st.context := by
  induction h with
  | now =>
    refine ⟨0, rfl, rfl, ?_, ?_, sameOutside_turnStart⟩
    · simp only [turnStart]
      rw [lookup_assign, if_neg (indexVar_ne var).symm, lookup_assign, if_pos rfl]
    · simp only [turnStart]
      rw [lookup_assign, if_pos rfl]
  | @later item items index st mid i x start hbody _ ih =>
    obtain ⟨k, hk, hitem, hvar, hindex, hothers⟩ :=
      ih fun i x start mid' hturn => hkeep i x start mid' (.later hbody hturn)
    refine ⟨k + 1, by omega, hitem, hvar, hindex, fun name hne hne' => ?_⟩
    rw [hothers name hne hne', hkeep _ _ _ _ .now hbody name]
    exact sameOutside_turnStart name hne hne'

/-! ## What a loop finds and leaves -/

/-- The index name of the loop is free, and its variable is not bound to nothing. -/
structure Clear (var : String) (context : Bindings) : Prop where
  index : context.lookup (indexVar var) = none
  var_ne : context.lookup var ≠ some .null

theorem lookup_restoreVar {saved : Option Json} {context : Bindings} (name : String) :
    (restoreVar var saved context).lookup name =
      if name = var then saved.filter (fun v => !Json.isNull v)
      else if name = indexVar var then none else context.lookup name := by
  have hdrop : ∀ name, name ≠ var → (drop (var ++ "_index") context).lookup name =
      if name = indexVar var then none else context.lookup name :=
    fun name _ => lookup_drop _ _ _
  by_cases hname : name = var
  · subst hname
    rw [if_pos rfl]
    cases saved with
    | none =>
      simp only [restoreVar]
      rw [lookup_drop, if_pos rfl]
      rfl
    | some value =>
      cases value <;> simp [restoreVar, lookup_drop, lookup_assign, Option.filter, Json.isNull]
  · rw [if_neg hname, ← hdrop name hname]
    cases saved with
    | none =>
      simp only [restoreVar]
      rw [lookup_drop, if_neg hname]
    | some value => cases value <;> simp [restoreVar, lookup_drop, lookup_assign, hname]

/-- A loop restores the context exactly when it is clear of the loop's names. -/
theorem restores_iff {context after : Bindings} (h : SameOutside var after context) :
    Same (restoreVar var (context.lookup var) after) context ↔ Clear var context := by
  constructor
  · intro hsame
    refine ⟨?_, fun hnull => ?_⟩
    · rw [← hsame, lookup_restoreVar, if_neg (indexVar_ne var), if_pos rfl]
    · have hvar := hsame var
      rw [lookup_restoreVar, if_pos rfl, hnull] at hvar
      simp [Option.filter, Json.isNull] at hvar
  · intro hclear name
    rw [lookup_restoreVar]
    split_ifs with hvar hindex
    · subst hvar
      cases hsaved : context.lookup name with
      | none => rfl
      | some value =>
        have hne : Json.isNull value = false := by
          cases value with
          | null => exact absurd hsaved hclear.var_ne
          | _ => rfl
        simp [Option.filter, hne]
    · rw [hindex]
      exact hclear.index.symm
    · exact h name hvar hindex

/-! ## Where an expansion comes to -/

section Reach

variable (P skill handles)

/-- The body of a loop, as a branch. -/
abbrev bodyOf (steps : List SkillStep) : Branch := fun g st => expand P skill handles steps g st

/-- The items of a loop are these, where it stands. -/
inductive ItemsAre (args : Bindings) (id : Option String) (context : Bindings) :
    List Json → Prop where
  | intro {raw value items} : args.lookup "items" = some raw →
      renderValue P (find context) (sourceOf skill "foreach" id) raw = .ok value →
      loopItems (sourceOf skill "foreach" id) value = .ok items →
      items.length ≤ MAX_FOREACH_ITEMS → ItemsAre args id context items

/-- Expanding a step comes to expand a list of steps inside it. -/
inductive Enters : SkillStep → Guarding → Expander → List SkillStep → Guarding → Expander →
    Prop where
  | thenLate {args id own then_ otherwise g st raw} : args.lookup "condition" = some raw →
      hasLateReference P (P.str raw) = true →
      Enters (.mk "if" args id own then_ otherwise) g st then_
        (Guarding.late st.context st.steps.length true (P.str raw) (g.inside st.context own)) st
  | elseLate {args id own then_ otherwise g st raw mid} : args.lookup "condition" = some raw →
      hasLateReference P (P.str raw) = true →
      expand P skill handles then_
        (Guarding.late st.context st.steps.length true (P.str raw) (g.inside st.context own)) st =
          .ok mid → otherwise.isEmpty = false →
      Enters (.mk "if" args id own then_ otherwise) g st otherwise
        (Guarding.late st.context st.steps.length false (P.str raw) (g.inside st.context own)) mid
  | thenNow {args id own then_ otherwise g st raw} : args.lookup "condition" = some raw →
      hasLateReference P (P.str raw) = false →
      evaluate P (find st.context) (sourceOf skill "if" id) (P.str raw) = .ok true →
      Enters (.mk "if" args id own then_ otherwise) g st then_
        ((g.inside st.context own).early st.context true (P.str raw)) st
  | elseNow {args id own then_ otherwise g st raw} : args.lookup "condition" = some raw →
      hasLateReference P (P.str raw) = false →
      evaluate P (find st.context) (sourceOf skill "if" id) (P.str raw) = .ok false →
      Enters (.mk "if" args id own then_ otherwise) g st otherwise
        ((g.inside st.context own).early st.context false (P.str raw)) st
  | turn {args id own then_ otherwise g st items i x start} :
      ItemsAre P skill args id st.context items →
      TurnOf (bodyOf P skill handles then_) (g.inside st.context own) (loopVar P args) items 0 st
        i x start →
      Enters (.mk "foreach" args id own then_ otherwise) g st then_ (g.inside st.context own) start

/-- Expanding steps comes to expand a step: one of them, or one inside them. -/
inductive Comes : List SkillStep → Guarding → Expander → SkillStep → Guarding → Expander →
    Prop where
  | here {step steps g st} : Comes (step :: steps) g st step g st
  | later {step steps g st mid s gs ss} : expandStep P skill handles step g st = .ok mid →
      mid.steps.length ≤ MAX_STEPS → Comes steps g mid s gs ss → Comes (step :: steps) g st s gs ss
  | enter {step steps g st inner g' st' s gs ss} : Enters P skill handles step g st inner g' st' →
      Comes inner g' st' s gs ss → Comes (step :: steps) g st s gs ss

/-- What a loop is to do: the context after it is the one before it, so that references
    resolve as if it were not there, and each turn starts with its own element and index. -/
structure ScopedLoop (args : Bindings) (id own : Option String) (then_ otherwise : List SkillStep)
    (g : Guarding) (st : Expander) : Prop where
  restored : ∀ after, expandStep P skill handles (.mk "foreach" args id own then_ otherwise) g st =
    .ok after → Same after.context st.context
  turns : ∀ items i x start, ItemsAre P skill args id st.context items →
    TurnOf (bodyOf P skill handles then_) (g.inside st.context own) (loopVar P args) items 0 st
      i x start → StartsWith (loopVar P args) items st.context i x start

end Reach

variable {step s : SkillStep} {steps inner : List SkillStep} {g' gs : Guarding} {ss : Expander}
  {args : Bindings} {id own : Option String} {then_ otherwise : List SkillStep}

/-- The whole of a loop. -/
theorem expandStep_foreach_cases {after : Expander}
    (h : expandStep P skill handles (.mk "foreach" args id own then_ otherwise) g st = .ok after) :
    ∃ items mid, ItemsAre P skill args id st.context items ∧
      loopTurns (bodyOf P skill handles then_) (g.inside st.context own) (loopVar P args) items 0
        st = .ok mid ∧
      after.context = restoreVar (loopVar P args) (st.context.lookup (loopVar P args))
        mid.context := by
  unfold expandStep at h
  rw [if_neg (by decide), if_pos rfl] at h
  unfold expandForeach at h
  dsimp only at h
  split at h
  · cases h
  · rename_i raw hraw
    split at h
    · cases h
    · rename_i value hvalue
      split at h
      · cases h
      · rename_i items hitems
        split at h
        · cases h
        · rename_i hcount
          split at h
          · cases h
          · rename_i mid hmid
            cases h
            exact ⟨items, mid, ⟨hraw, hvalue, hitems, Nat.le_of_not_lt hcount⟩, hmid, rfl⟩

theorem ItemsAre.unique {context : Bindings} {items items' : List Json}
    (h : ItemsAre P skill args id context items) (h' : ItemsAre P skill args id context items') :
    items = items' := by
  cases h with
  | intro hraw hvalue hitems _ =>
    cases h' with
    | intro hraw' hvalue' hitems' _ =>
      rw [hraw] at hraw'
      cases hraw'
      rw [hvalue] at hvalue'
      cases hvalue'
      rw [hitems] at hitems'
      exact Except.ok.inj hitems'

/-- What an `if` expands to. -/
theorem expandStep_if {otherwise : List SkillStep} :
    expandStep P skill handles (.mk "if" args id own then_ otherwise) g st =
      expandIf P skill (bodyOf P skill handles then_) (bodyOf P skill handles otherwise)
        otherwise.isEmpty args id (g.inside st.context own) st := by
  rw [expandStep, if_pos rfl]

/-- What is entered was expanded, if the step was. -/
theorem Enters.done {after : Expander} (h : Enters P skill handles step g st inner g' st')
    (hstep : expandStep P skill handles step g st = .ok after) :
    ∃ mid, expand P skill handles inner g' st' = .ok mid := by
  cases h with
  | thenLate hraw hlate =>
    rw [expandStep_if, expandIf, hraw] at hstep
    simp only [hlate, if_true] at hstep
    split at hstep
    · cases hstep
    · rename_i mid hmid
      exact ⟨mid, hmid⟩
  | elseLate hraw hlate hmid helse =>
    rw [expandStep_if, expandIf, hraw] at hstep
    simp only [hlate, if_true, bodyOf, hmid, helse, Bool.false_eq_true, if_false] at hstep
    exact ⟨after, hstep⟩
  | thenNow hraw hlate heval =>
    rw [expandStep_if, expandIf, hraw] at hstep
    simp only [hlate, Bool.false_eq_true, if_false, heval] at hstep
    exact ⟨after, hstep⟩
  | elseNow hraw hlate heval =>
    rw [expandStep_if, expandIf, hraw] at hstep
    simp only [hlate, Bool.false_eq_true, if_false, heval] at hstep
    exact ⟨after, hstep⟩
  | turn hitems hturn =>
    obtain ⟨items', mid, hitems', hloop, -⟩ := expandStep_foreach_cases hstep
    rw [← hitems.unique hitems'] at hloop
    exact hturn.done hloop

/-- What an expansion comes to was expanded, if the whole was. -/
theorem Comes.done {after : Expander} (h : Comes P skill handles steps g st s gs ss)
    (hsteps : expand P skill handles steps g st = .ok after) :
    ∃ mid, expandStep P skill handles s gs ss = .ok mid := by
  induction h generalizing after with
  | here =>
    unfold expand at hsteps
    split at hsteps
    · cases hsteps
    · rename_i mid hmid
      exact ⟨mid, hmid⟩
  | later hmid _ _ ih =>
    unfold expand at hsteps
    rw [hmid] at hsteps
    dsimp only at hsteps
    split at hsteps
    · cases hsteps
    · exact ih hsteps
  | enter henters _ ih =>
    unfold expand at hsteps
    split at hsteps
    · cases hsteps
    · rename_i mid hmid
      obtain ⟨mid', hinner⟩ := henters.done hmid
      exact ih hinner

/-- What is inside a step that an expansion comes to. -/
theorem Comes.trans {s' : SkillStep} {gs' : Guarding} {ss' : Expander}
    (h : Comes P skill handles steps g st s gs ss) (henters : Enters P skill handles s gs ss inner g' st')
    (hinner : Comes P skill handles inner g' st' s' gs' ss') :
    Comes P skill handles steps g st s' gs' ss' := by
  induction h with
  | here => exact .enter henters hinner
  | later hmid hcap _ ih => exact .later hmid hcap (ih henters)
  | enter hfirst _ ih => exact .enter hfirst (ih henters)

theorem Comes.of_single (h : Comes P skill handles [step] g st s gs ss) :
    Comes P skill handles (step :: steps) g st s gs ss := by
  cases h with
  | here => exact .here
  | later _ _ hnil => cases hnil
  | enter henters hinner => exact .enter henters hinner

/-! ## Every loop -/

section Loops

variable (P skill handles)

/-- A property of a loop and of the expander where it stands. -/
abbrev LoopProp : Type :=
  Bindings → Option String → Option String → List SkillStep → List SkillStep → Guarding →
    Expander → Prop

/-- Every loop that the expansion comes to has the property. -/
def AllLoops (φ : LoopProp) (steps : List SkillStep) (g : Guarding) (st : Expander) : Prop :=
  ∀ args id own then_ otherwise gs ss,
    Comes P skill handles steps g st (.mk "foreach" args id own then_ otherwise) gs ss →
      φ args id own then_ otherwise gs ss

def Restored : LoopProp := fun args id own then_ otherwise g st =>
  ∀ after, expandStep P skill handles (.mk "foreach" args id own then_ otherwise) g st =
    .ok after → Same after.context st.context

def FindsClear : LoopProp := fun args _ _ _ _ _ st => Clear (loopVar P args) st.context

/-- Every loop inside the step has the property. -/
def Inside (φ : LoopProp) (step : SkillStep) (g : Guarding) (st : Expander) : Prop :=
  ∀ inner g' st', Enters P skill handles step g st inner g' st' →
    AllLoops P skill handles φ inner g' st'

end Loops

variable {φ : LoopProp} {after : Expander}

theorem AllLoops.first (h : AllLoops P skill handles φ (step :: steps) g st) :
    AllLoops P skill handles φ [step] g st :=
  fun args id own then_ otherwise gs ss hcomes =>
    h args id own then_ otherwise gs ss hcomes.of_single

theorem AllLoops.rest {mid : Expander} (h : AllLoops P skill handles φ (step :: steps) g st)
    (hmid : expandStep P skill handles step g st = .ok mid) (hcap : mid.steps.length ≤ MAX_STEPS) :
    AllLoops P skill handles φ steps g mid :=
  fun args id own then_ otherwise gs ss hcomes =>
    h args id own then_ otherwise gs ss (.later hmid hcap hcomes)

theorem AllLoops.inside (h : AllLoops P skill handles φ [step] g st) :
    Inside P skill handles φ step g st :=
  fun _ _ _ henters args id own then_ otherwise gs ss hcomes =>
    h args id own then_ otherwise gs ss (.enter henters hcomes)

mutual

/-- Where every loop restores the context, so does the expansion. -/
theorem expand_same : ∀ (steps : List SkillStep) (g : Guarding) (st after : Expander),
    AllLoops P skill handles (Restored P skill handles) steps g st →
    expand P skill handles steps g st = .ok after → Same after.context st.context
  | [], _, _, _, _, h => by
    cases h
    exact Same.refl _
  | step :: steps, g, st, after, hloops, h => by
    unfold expand at h
    split at h
    · cases h
    · rename_i mid hmid
      have hfirst := expandStep_same step g st mid hloops.first hmid
      split at h
      · cases h
      · rename_i hcap
        have hrest := hloops.rest hmid (Nat.le_of_not_lt hcap)
        exact (expand_same steps g mid after hrest h).trans hfirst

theorem expandStep_same : ∀ (step : SkillStep) (g : Guarding) (st after : Expander),
    AllLoops P skill handles (Restored P skill handles) [step] g st →
    expandStep P skill handles step g st = .ok after → Same after.context st.context
  | .mk primitive args id own then_ otherwise, g, st, after, hloops, h => by
    have hinside := hloops.inside
    by_cases hif : primitive = "if"
    · subst hif
      rw [expandStep_if, expandIf] at h
      split at h
      · cases h
      · rename_i raw hraw
        dsimp only at h
        split at h
        · rename_i hlate
          split at h
          · cases h
          · rename_i mid hmid
            have hthen := expand_same then_ _ st mid (hinside _ _ _ (.thenLate hraw hlate)) hmid
            split at h
            · cases h
              exact hthen
            · rename_i helse
              exact (expand_same otherwise _ mid after
                (hinside _ _ _ (.elseLate hraw hlate hmid (by simpa using helse))) h).trans hthen
        · rename_i hlate
          have hnow : hasLateReference P (P.str raw) = false := by simpa using hlate
          split at h
          · cases h
          · rename_i heval
            exact expand_same then_ _ st after (hinside _ _ _ (.thenNow hraw hnow heval)) h
          · rename_i heval
            exact expand_same otherwise _ st after (hinside _ _ _ (.elseNow hraw hnow heval)) h
    · by_cases hfor : primitive = "foreach"
      · subst hfor
        exact hloops _ _ _ _ _ _ _ .here after h
      · unfold expandStep at h
        rw [if_neg hif, if_neg hfor] at h
        obtain ⟨_, _, _, _, _, hcontext, _⟩ := emit_cases h
        rw [hcontext]
        exact Same.refl _

end

/-- The turns of a loop keep the context where every loop inside restores it. -/
theorem turnsKeep_of_inside {items : List Json}
    (h : Inside P skill handles (Restored P skill handles)
      (.mk "foreach" args id own then_ otherwise) g st)
    (hitems : ItemsAre P skill args id st.context items) :
    TurnsKeep (bodyOf P skill handles then_) (g.inside st.context own) (loopVar P args) items 0
      st :=
  fun _ _ start mid hturn hbody =>
    expand_same then_ _ start mid (h _ _ _ (.turn hitems hturn)) hbody

/-- A loop whose inner loops restore the context restores it exactly when it finds it
    clear. -/
theorem same_iff_clear
    (h : Inside P skill handles (Restored P skill handles)
      (.mk "foreach" args id own then_ otherwise) g st)
    (hstep : expandStep P skill handles (.mk "foreach" args id own then_ otherwise) g st =
      .ok after) : Same after.context st.context ↔ Clear (loopVar P args) st.context := by
  obtain ⟨items, mid, hitems, hloop, hafter⟩ := expandStep_foreach_cases hstep
  rw [hafter]
  exact restores_iff (loopTurns_outside (turnsKeep_of_inside h hitems) hloop)

/-- A clear loop whose inner loops restore the context is scoped. -/
theorem scoped_of_inside
    (h : Inside P skill handles (Restored P skill handles)
      (.mk "foreach" args id own then_ otherwise) g st)
    (hclear : Clear (loopVar P args) st.context) :
    ScopedLoop P skill handles args id own then_ otherwise g st where
  restored _ hstep := (same_iff_clear h hstep).mpr hclear
  turns items i x start hitems hturn := by
    obtain ⟨k, hk, hitem, hvar, hindex, hothers⟩ :=
      startsWith_of_turn (turnsKeep_of_inside h hitems) hturn
    obtain rfl : i = k := by omega
    exact ⟨hitem, hvar, hindex, hothers⟩

mutual

/-- Where every loop finds the context clear, every loop is scoped. -/
theorem scoped_steps : ∀ (steps : List SkillStep) (g : Guarding) (st : Expander),
    AllLoops P skill handles (FindsClear P) steps g st →
    AllLoops P skill handles (ScopedLoop P skill handles) steps g st
  | [], _, _, _ => fun _ _ _ _ _ _ _ hcomes => nomatch hcomes
  | step :: steps, g, st, hclear => by
    intro args id own then_ otherwise gs ss hcomes
    have hinside := scoped_inside step g st hclear.first.inside
    cases hcomes with
    | here =>
      refine scoped_of_inside (fun inner g' st' henters => ?_) (hclear _ _ _ _ _ _ _ .here)
      exact fun _ _ _ _ _ _ _ hcomes => (hinside _ _ _ henters _ _ _ _ _ _ _ hcomes).restored
    | later hmid hcap hcomes =>
      exact scoped_steps steps g _ (hclear.rest hmid hcap) _ _ _ _ _ _ _ hcomes
    | enter henters hcomes => exact hinside _ _ _ henters _ _ _ _ _ _ _ hcomes

theorem scoped_inside : ∀ (step : SkillStep) (g : Guarding) (st : Expander),
    Inside P skill handles (FindsClear P) step g st →
    Inside P skill handles (ScopedLoop P skill handles) step g st
  | .mk _ _ _ _ then_ otherwise, g, st, hclear => by
    intro inner g' st' henters
    have hinner := hclear inner g' st' henters
    cases henters with
    | thenLate => exact scoped_steps then_ _ _ hinner
    | elseLate => exact scoped_steps otherwise _ _ hinner
    | thenNow => exact scoped_steps then_ _ _ hinner
    | elseNow => exact scoped_steps otherwise _ _ hinner
    | turn => exact scoped_steps then_ _ _ hinner

end

/-- **Loop scoping**: in an expansion that goes through, every loop leaves the context as
    it was, and gives its turns their own element and index, exactly when every loop finds
    its index name free and its variable not bound to nothing. -/
theorem scoped_iff (h : expand P skill handles steps g st = .ok after) :
    AllLoops P skill handles (ScopedLoop P skill handles) steps g st ↔
      AllLoops P skill handles (FindsClear P) steps g st := by
  constructor
  · intro hscoped args id own then_ otherwise gs ss hcomes
    obtain ⟨mid, hmid⟩ := hcomes.done h
    have hinside : Inside P skill handles (Restored P skill handles)
        (.mk "foreach" args id own then_ otherwise) gs ss :=
      fun _ _ _ henters _ _ _ _ _ _ _ hinner =>
        (hscoped _ _ _ _ _ _ _ (hcomes.trans henters hinner)).restored
    exact (same_iff_clear hinside hmid).mp ((hscoped _ _ _ _ _ _ _ hcomes).restored mid hmid)
  · exact scoped_steps steps g st

def waitStep : SkillStep := { primitive := "wait", args := [("seconds", .num (.ofNat 1))] }

/-- A loop over nothing. -/
def emptyLoop (var : String) : SkillStep :=
  { primitive := "foreach", args := [("items", .arr []), ("as", .str var)], then_ := [waitStep] }

/-- A loop in a loop. -/
def nested (outer inner : String) : List SkillStep :=
  [{ primitive := "foreach", args := [("items", .arr [.str "a", .str "b"]), ("as", .str outer)]
     then_ := [emptyLoop inner, waitStep] }]

def loopSkill (outer inner : String) : Skill :=
  { id := "demo", name := "Demo", version := "1.0.0", steps := nested outer inner }

theorem scoped_iff_nested :
    AllLoops Python.plain (loopSkill "x" "y") [] (ScopedLoop Python.plain (loopSkill "x" "y") [])
      (nested "x" "y") {} { context := [] } ↔
    AllLoops Python.plain (loopSkill "x" "y") [] (FindsClear Python.plain)
      (nested "x" "y") {} { context := [] } := by
  have hdone : (expand Python.plain (loopSkill "x" "y") [] (nested "x" "y") {}
      { context := [] }).toOption.any (fun _ => true) = true := by decide +kernel
  obtain ⟨after, hafter, -⟩ := exists_eq_ok hdone
  exact scoped_iff hafter

/-- An inner loop that uses the outer loop's variable takes its index away. -/
theorem unscoped_nested :
    ¬ AllLoops Python.plain (loopSkill "x" "x") [] (ScopedLoop Python.plain (loopSkill "x" "x") [])
      (nested "x" "x") {} { context := [] } := by
  intro h
  have hturn : TurnOf (bodyOf Python.plain (loopSkill "x" "x") [] [emptyLoop "x", waitStep]) {} "x"
      [.str "a", .str "b"] 0 { context := [] } 0 (.str "a")
      (turnStart "x" (.str "a") 0 { context := [] }) := .now
  have hitems : ItemsAre Python.plain (loopSkill "x" "x")
      [("items", .arr [.str "a", .str "b"]), ("as", .str "x")] none [] [.str "a", .str "b"] :=
    .intro rfl rfl rfl (by decide)
  have hcomes : Comes Python.plain (loopSkill "x" "x") [] (nested "x" "x") {} { context := [] }
      (emptyLoop "x") {} (turnStart "x" (.str "a") 0 { context := [] }) :=
    .enter (.turn hitems hturn) .here
  have hrestored := (h _ _ _ _ _ _ _ hcomes).restored
  have hdone : (expandStep Python.plain (loopSkill "x" "x") [] (emptyLoop "x") {}
      (turnStart "x" (.str "a") 0 { context := [] })).toOption.any
        (fun after => (after.context.lookup "x_index").isNone) = true := by decide +kernel
  obtain ⟨after, hafter, hgone⟩ := exists_eq_ok hdone
  have hsame := hrestored after hafter "x_index"
  rw [Option.isNone_iff_eq_none.mp hgone] at hsame
  revert hsame
  decide

end Skills

end Slas
