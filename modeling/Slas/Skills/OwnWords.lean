/-
  Slas.Skills.OwnWords

  How a compilation fails.

  The steps of a parsed skill are given ids that are slugs and not in use, so that what a
  step is validated for comes down to the length of its title (`stepValid_iff`).  What
  escapes from an expansion is what escapes from a step that it comes to
  (`expand_own_iff`), and what escapes from a compilation is that, or a plan without
  steps, or one without a job (`compileSkill_own_iff`).  The gate adds the arguments of
  the plan step (`own_words_iff`).
-/

import Mathlib.Data.List.Perm.Subperm
import Slas.Lib.Dict
import Slas.Skills.Gate
import Slas.Skills.Scoping
import Std.Data.String.ToNat

namespace Slas

namespace Skills

variable {P : Python} {skill : Skill} {handles : List String}

/-! ## Ids -/

/-- `[a-z0-9_-]` -/
def isSlugChar (c : Char) : Bool := c.isLower || c.isDigit || c == '_' || c == '-'

theorem isSlug_append {a b : String} (ha : isSlug a = true) (hb : b.toList.all isSlugChar = true) :
    isSlug (a ++ b) = true := by
  unfold isSlug at ha ⊢
  rw [String.toList_append]
  cases hcs : a.toList with
  | nil => simp [hcs] at ha
  | cons c cs =>
    rw [hcs] at ha
    dsimp only [List.cons_append] at ha ⊢
    rw [Bool.and_eq_true] at ha
    rw [ha.1, List.all_append, ha.2, Bool.true_and, Bool.true_and]
    exact hb

theorem toString_isSlugChar (n : Nat) : (toString n).toList.all isSlugChar = true := by
  rw [List.all_eq_true]
  intro c hc
  have hdigit : c.isDigit = true := by
    rw [show (toString n).toList = Nat.toDigits 10 n from Nat.toList_repr] at hc
    exact Nat.isDigit_of_mem_toDigits (by decide) (by decide) hc
  simp [isSlugChar, hdigit]

/-- `base-counter` -/
def numbered (base : String) (counter : Nat) : String := base ++ "-" ++ toString counter

theorem numbered_injective (base : String) : Function.Injective (numbered base) := by
  intro m n h
  have hchars := congrArg String.toList h
  simp only [numbered, String.toList_append, List.append_cancel_left_eq] at hchars
  exact Nat.repr_injective (String.toList_inj.mp hchars)

theorem isSlug_numbered {base : String} (h : isSlug base = true) (counter : Nat) :
    isSlug (numbered base counter) = true :=
  isSlug_append (isSlug_append h (by decide)) (toString_isSlugChar counter)

/-- The search ends at a numbered id; if that is in use, so are all it has tried. -/
theorem nextFreeId_spec (used : List String) (base : String) (tries counter : Nat) :
    (∃ n, nextFreeId used base tries counter = numbered base n) ∧
      (nextFreeId used base tries counter ∈ used →
        ∀ k ≤ tries, numbered base (counter + k) ∈ used) := by
  induction tries generalizing counter with
  | zero =>
    refine ⟨⟨counter, rfl⟩, fun hmem k hk => ?_⟩
    obtain rfl := Nat.le_zero.mp hk
    exact hmem
  | succ tries ih =>
    rw [nextFreeId]
    split
    · rename_i hhere
      refine ⟨(ih (counter + 1)).1, fun hmem k hk => ?_⟩
      cases k with
      | zero => exact hhere
      | succ k =>
        have hlater := (ih (counter + 1)).2 hmem k (by omega)
        rwa [show counter + 1 + k = counter + (k + 1) by omega] at hlater
    · rename_i hfree
      exact ⟨⟨counter, rfl⟩, fun hmem => absurd hmem hfree⟩

/-- There are more candidates than ids in use. -/
theorem nextFreeId_not_mem (used : List String) (base : String) :
    nextFreeId used base used.length 2 ∉ used := by
  intro hmem
  have hall := (nextFreeId_spec used base used.length 2).2 hmem
  have hsub : (List.range (used.length + 1)).map (fun k => numbered base (2 + k)) ⊆ used := by
    intro id hid
    obtain ⟨k, hk, rfl⟩ := List.mem_map.mp hid
    exact hall k (by simpa [Nat.lt_succ_iff] using hk)
  have hnodup : ((List.range (used.length + 1)).map fun k => numbered base (2 + k)).Nodup :=
    List.nodup_range.map fun a b hab => by simpa using numbered_injective base hab
  have hlength := (List.Nodup.subperm hnodup hsub).length_le
  simp at hlength

/-- An id is made from the one that is wanted, or from the skill and the primitive. -/
theorem uniqueId_eq (used : List String) (wanted : Option String) (primitive : String) :
    ∃ base, (wanted = some base ∨ base = skill.id ++ "-" ++ replaceUnderscores '-' primitive) ∧
      uniqueId skill used wanted primitive =
        if base ∈ used then nextFreeId used base used.length 2 else base := by
  cases wanted with
  | none => exact ⟨_, .inr rfl, rfl⟩
  | some id =>
    by_cases hid : id = ""
    · subst hid
      exact ⟨_, .inr rfl, rfl⟩
    · exact ⟨id, .inl rfl, by simp [uniqueId, hid]⟩

theorem uniqueId_not_mem (used : List String) (wanted : Option String) (primitive : String) :
    uniqueId skill used wanted primitive ∉ used := by
  obtain ⟨base, -, heq⟩ := uniqueId_eq used wanted primitive
  rw [heq]
  split
  · exact nextFreeId_not_mem used base
  · assumption

theorem primitive_isSlugChar {name : String} {spec : Primitive} (h : primitive? name = some spec) :
    (replaceUnderscores '-' name).toList.all isSlugChar = true ∧ name ≠ "" := by
  have hall : ∀ spec ∈ PRIMITIVES,
      (replaceUnderscores '-' spec.name).toList.all isSlugChar = true ∧ spec.name ≠ "" := by decide
  have hmem : spec ∈ PRIMITIVES := List.mem_of_find?_eq_some h
  simpa [primitive?_name h] using hall spec hmem

theorem isSlug_uniqueId {used : List String} {wanted : Option String} {primitive : String}
    {spec : Primitive} (hid : isSlug skill.id = true) (hwanted : wanted.all isSlug = true)
    (hspec : primitive? primitive = some spec) :
    isSlug (uniqueId skill used wanted primitive) = true := by
  obtain ⟨base, hbase, heq⟩ := uniqueId_eq used wanted primitive
  have hslug : isSlug base = true := by
    rcases hbase with rfl | rfl
    · simpa using hwanted
    · exact isSlug_append (isSlug_append hid (by decide)) (primitive_isSlugChar hspec).1
  rw [heq]
  split
  · obtain ⟨n, hn⟩ := (nextFreeId_spec used base used.length 2).1
    rw [hn]
    exact isSlug_numbered hslug n
  · exact hslug

/-! ## One step -/

/-- A result, a refusal, but no other exception. -/
def OwnWords {α : Type} : Except SkillFailure α → Prop
  | .error (.raised _) => False
  | _ => True

theorem capitalize_ne_empty {s : String} (h : s ≠ "") : capitalize s ≠ "" := by
  unfold capitalize
  cases hcs : s.toList with
  | nil => exact absurd (String.toList_eq_nil_iff.mp hcs) h
  | cons c cs =>
    intro hempty
    have hchars := congrArg String.toList hempty
    simp at hchars

theorem append_ne_empty_of_left {a : String} (b : String) (h : a ≠ "") : a ++ b ≠ "" := by
  intro hempty
  have hchars := congrArg String.toList hempty
  rw [String.toList_append] at hchars
  exact h (String.toList_eq_nil_iff.mp (List.append_eq_nil_iff.mp hchars).1)

theorem title_ne_empty {primitive : String} (args : Bindings) (h : primitive ≠ "") :
    title P primitive args ≠ "" := by
  have hname : capitalize (replaceUnderscores ' ' primitive) ≠ "" := by
    apply capitalize_ne_empty
    intro hempty
    have hchars := congrArg String.toList hempty
    simp only [replaceUnderscores, String.toList_ofList, String.toList_empty,
      List.map_eq_nil_iff] at hchars
    exact h (String.toList_eq_nil_iff.mp hchars)
  unfold title
  dsimp only
  split_ifs
  · exact append_ne_empty_of_left _ (append_ne_empty_of_left _ (append_ne_empty_of_left _ (by decide)))
  · exact append_ne_empty_of_left _ (append_ne_empty_of_left _ hname)
  · exact append_ne_empty_of_left _ (by decide)
  · decide
  · exact append_ne_empty_of_left _ (by decide)
  · exact append_ne_empty_of_left _ (append_ne_empty_of_left _ (by decide))
  · exact append_ne_empty_of_left _ (append_ne_empty_of_left _ (by decide))
  · exact append_ne_empty_of_left _ (by decide)
  · exact append_ne_empty_of_left _ (by decide)
  · exact hname

/-- The steps that are emitted are those that control nothing. -/
def Emits (step : SkillStep) : Prop := step.primitive ≠ "if" ∧ step.primitive ≠ "foreach"

/-- The title of the step is not too long, if its arguments can be rendered. -/
def TitleFits (P : Python) (skill : Skill) (step : SkillStep) (st : Expander) : Prop :=
  ∀ rendered, renderFields P (find st.context) (sourceOf skill step.primitive step.id) step.args =
    .ok rendered → (title P step.primitive rendered).length ≤ 200

theorem expandStep_emits {step : SkillStep} {g : Guarding} {st : Expander} (h : Emits step) :
    expandStep P skill handles step g st =
      emit P skill handles step.primitive step.args step.id step.when g st := by
  obtain ⟨primitive, args, id, own, then_, otherwise⟩ := step
  unfold expandStep
  rw [if_neg h.1, if_neg h.2]

/-- Nothing but its title is in the way of a step that was parsed. -/
theorem expandStep_own_iff {step : SkillStep} {g : Guarding} {st : Expander}
    (hid : isSlug skill.id = true) (hparsed : ParsedStep P step) (h : Emits step) :
    OwnWords (expandStep P skill handles step g st) ↔ TitleFits P skill step st := by
  obtain ⟨source, label, spec, args, hspec, -⟩ := hparsed.exists_spec
  have hname := (primitive_isSlugChar hspec).2
  rw [expandStep_emits h, emit, TitleFits]
  cases hrender : renderFields P (find st.context) (sourceOf skill step.primitive step.id)
      step.args with
  | error message => simp [OwnWords]
  | ok rendered =>
    have hslug : isSlug (uniqueId skill st.usedIds step.id step.primitive) = true :=
      isSlug_uniqueId hid hparsed.id_slug hspec
    have hvalid : ∀ (args : Bindings) (risk : Risk) (when : Option String), stepValid
        { id := uniqueId skill st.usedIds step.id step.primitive, n := st.steps.length + 1
          primitive := step.primitive, title := title P step.primitive rendered, args, risk
          when } = decide ((title P step.primitive rendered).length ≤ 200) := by
      intro args risk when
      simp [stepValid, hslug, hname, title_ne_empty rendered hname]
    dsimp only
    rw [hvalid]
    by_cases hfits : (title P step.primitive rendered).length ≤ 200
    · simp [hfits, OwnWords]
    · simp [hfits, OwnWords]

/-! ## What an expansion comes to -/

variable {step s : SkillStep} {steps inner : List SkillStep} {g g' gs : Guarding}
  {st st' ss : Expander} {args : Bindings} {id own : Option String}
  {then_ otherwise : List SkillStep} {body : Branch} {var : String} {items : List Json}
  {index : Nat}

/-- What there is to show of a property of results, for it to hold of an expansion. -/
structure ResultRule (Φ : Except SkillFailure Expander → Prop) : Prop where
  refused : ∀ message, Φ (.error (.refused message))
  context : ∀ st context, Φ (.ok st) → Φ (.ok { st with context })

theorem loopTurns_meets {Φ : Except SkillFailure Expander → Prop} (R : ResultRule Φ)
    (hbody : ∀ i x start, TurnOf body g var items index st i x start → Φ (.ok start) →
      Φ (body g start)) (hst : Φ (.ok st)) : Φ (loopTurns body g var items index st) := by
  induction items generalizing index st with
  | nil => exact hst
  | cons item items ih =>
    have hfirst := hbody index item _ .now (R.context _ _ hst)
    rw [loopTurns_cons]
    cases hresult : body g (turnStart var item index st) with
    | error e => rwa [hresult] at hfirst
    | ok mid =>
      rw [hresult] at hfirst
      exact ih (fun i x start hturn => hbody i x start (.later hresult hturn)) hfirst

theorem loopItems_own {source : String} {value : Json} : OwnWords (loopItems source value) := by
  cases value <;> simp [loopItems, OwnWords]

theorem ParsedStep.required (h : ParsedStep P s) {name : String}
    (hname : ∀ spec, primitive? s.primitive = some spec → name ∈ spec.required)
    (hbranch : name ≠ "then" ∧ name ≠ "else") : ∃ value, s.args.lookup name = some value := by
  obtain ⟨source, label, spec, args, hspec, hcheck, hargs⟩ := h.exists_spec
  have hgiven : ∃ value, args.lookup name = some value := by
    by_contra hnone
    have hmissing : name ∈ spec.required.filter fun name => (args.lookup name).isNone :=
      List.mem_filter.mpr ⟨hname spec hspec, by
        cases hlookup : args.lookup name with
        | none => rfl
        | some value => exact absurd ⟨value, hlookup⟩ hnone⟩
    unfold checkArgs at hcheck
    dsimp only at hcheck
    split at hcheck
    · cases hcheck
    · rw [if_pos (List.ne_nil_of_mem hmissing)] at hcheck
      cases hcheck
  obtain ⟨value, hvalue⟩ := hgiven
  refine ⟨value, ?_⟩
  rw [hargs]
  split
  · have hkeep : (args.filter fun kv => kv.1 ≠ "then" && kv.1 ≠ "else") =
        drop "else" (drop "then" args) := by
      simp [drop, List.filter_filter, Bool.and_comm]
    rw [hkeep, lookup_drop, if_neg hbranch.2, lookup_drop, if_neg hbranch.1, hvalue]
  · exact hvalue

theorem ParsedStep.has_condition (h : ParsedStep P (.mk "if" args id own then_ otherwise)) :
    ∃ raw, args.lookup "condition" = some raw := by
  refine h.required (fun spec hspec => ?_) ⟨by decide, by decide⟩
  have hif : (primitive? "if").all (fun spec => "condition" ∈ spec.required) = true := by decide
  rw [hspec] at hif
  simpa using hif

theorem ParsedStep.has_items (h : ParsedStep P (.mk "foreach" args id own then_ otherwise)) :
    ∃ raw, args.lookup "items" = some raw := by
  refine h.required (fun spec hspec => ?_) ⟨by decide, by decide⟩
  have hfor : (primitive? "foreach").all (fun spec => "items" ∈ spec.required) = true := by decide
  rw [hspec] at hfor
  simpa using hfor

/-- What holds of the branches of an `if` that are entered, holds of it. -/
theorem if_meets {Φ : Except SkillFailure Expander → Prop} (R : ResultRule Φ)
    (hself : ParsedStep P (.mk "if" args id own then_ otherwise)) (hst : Φ (.ok st))
    (hthen : ∀ g' st', Enters P skill handles (.mk "if" args id own then_ otherwise) g st then_ g'
      st' → Φ (.ok st') → Φ (expand P skill handles then_ g' st'))
    (helse : ∀ g' st', Enters P skill handles (.mk "if" args id own then_ otherwise) g st otherwise
      g' st' → Φ (.ok st') → Φ (expand P skill handles otherwise g' st')) :
    Φ (expandStep P skill handles (.mk "if" args id own then_ otherwise) g st) := by
  obtain ⟨raw, hraw⟩ := hself.has_condition
  rw [expandStep_if, expandIf, hraw]
  dsimp only [bodyOf]
  by_cases hlate : hasLateReference P (P.str raw) = true
  · -- decided at run time
    rw [if_pos hlate]
    have hfirst := hthen _ _ (.thenLate hraw hlate) hst
    cases hmid : expand P skill handles then_ (Guarding.late st.context st.steps.length true
        (P.str raw) (g.inside st.context own)) st with
    | error e => rwa [hmid] at hfirst
    | ok mid =>
      rw [hmid] at hfirst
      dsimp only
      split
      · exact hfirst
      · rename_i hnone
        exact helse _ _ (.elseLate hraw hlate hmid (by simpa using hnone)) hfirst
  · rw [if_neg hlate]
    have hnow : hasLateReference P (P.str raw) = false := by simpa using hlate
    cases heval : evaluate P (find st.context) (sourceOf skill "if" id) (P.str raw) with
    | error message => exact R.refused _
    | ok side =>
      cases side with
      | true => exact hthen _ _ (.thenNow hraw hnow heval) hst
      | false => exact helse _ _ (.elseNow hraw hnow heval) hst

/-- What a loop is, once its items are known. -/
theorem expandStep_foreach (hitems : ItemsAre P skill args id st.context items) :
    expandStep P skill handles (.mk "foreach" args id own then_ otherwise) g st =
      (loopTurns (bodyOf P skill handles then_) (g.inside st.context own) (loopVar P args) items 0
        st).map fun after => { after with
          context := restoreVar (loopVar P args) (st.context.lookup (loopVar P args))
            after.context } := by
  cases hitems with
  | intro hraw hvalue hitems hcount =>
    unfold expandStep
    rw [if_neg (by decide), if_pos rfl, expandForeach, hraw]
    dsimp only
    rw [hvalue]
    dsimp only
    rw [hitems]
    dsimp only
    rw [if_neg (Nat.not_lt.mpr hcount), ← loopVar]
    cases loopTurns (bodyOf P skill handles then_) (g.inside st.context own) (loopVar P args) items
      0 st <;> rfl

/-- A loop without items is refused. -/
theorem expandStep_foreach_none
    (hself : ParsedStep P (.mk "foreach" args id own then_ otherwise))
    (hnone : ¬ ∃ items, ItemsAre P skill args id st.context items) :
    ∃ message, expandStep P skill handles (.mk "foreach" args id own then_ otherwise) g st =
      .error (.refused message) := by
  obtain ⟨raw, hraw⟩ := hself.has_items
  unfold expandStep
  rw [if_neg (by decide), if_pos rfl, expandForeach, hraw]
  dsimp only
  cases hvalue : renderValue P (find st.context) (sourceOf skill "foreach" id) raw with
  | error message => exact ⟨message, rfl⟩
  | ok value =>
    dsimp only
    have hown : OwnWords (loopItems (sourceOf skill "foreach" id) value) := loopItems_own
    cases hitems : loopItems (sourceOf skill "foreach" id) value with
    | error e =>
      cases e with
      | refused message => exact ⟨message, rfl⟩
      | raised e =>
        rw [hitems] at hown
        exact hown.elim
    | ok items =>
      dsimp only
      split
      · exact ⟨_, rfl⟩
      · rename_i hcount
        exact absurd ⟨items, hraw, hvalue, hitems, Nat.le_of_not_lt hcount⟩ hnone

/-- What holds of the turns of a loop, holds of it. -/
theorem foreach_meets {Φ : Except SkillFailure Expander → Prop} (R : ResultRule Φ)
    (hself : ParsedStep P (.mk "foreach" args id own then_ otherwise)) (hst : Φ (.ok st))
    (hthen : ∀ g' st', Enters P skill handles (.mk "foreach" args id own then_ otherwise) g st then_
      g' st' → Φ (.ok st') → Φ (expand P skill handles then_ g' st')) :
    Φ (expandStep P skill handles (.mk "foreach" args id own then_ otherwise) g st) := by
  by_cases hexists : ∃ items, ItemsAre P skill args id st.context items
  · obtain ⟨items, hitems⟩ := hexists
    have hloop : Φ (loopTurns (bodyOf P skill handles then_) (g.inside st.context own)
        (loopVar P args) items 0 st) :=
      loopTurns_meets R (fun _ _ _ hturn => hthen _ _ (.turn hitems hturn)) hst
    rw [expandStep_foreach hitems]
    cases hafter : loopTurns (bodyOf P skill handles then_) (g.inside st.context own)
        (loopVar P args) items 0 st with
    | error e => rwa [hafter] at hloop
    | ok after =>
      rw [hafter] at hloop
      exact R.context _ _ hloop
  · obtain ⟨message, hrefused⟩ := expandStep_foreach_none hself hexists
    rw [hrefused]
    exact R.refused message

mutual

/-- What holds of every step that an expansion comes to and emits, holds of its result. -/
theorem expand_meets {Φ : Except SkillFailure Expander → Prop} (R : ResultRule Φ) :
    ∀ (steps : List SkillStep) (g : Guarding) (st : Expander),
      (∀ s ∈ walkAll steps, ParsedStep P s) → Φ (.ok st) →
      (∀ s gs ss, Comes P skill handles steps g st s gs ss → Emits s → Φ (.ok ss) →
        Φ (expandStep P skill handles s gs ss)) →
      Φ (expand P skill handles steps g st)
  | [], _, _, _, hst, _ => hst
  | step :: steps, g, st, hparsed, hst, hemits => by
    have hfirst := expandStep_meets R step g st (fun s hs => hparsed s (by simp [walkAll, hs])) hst
      fun s gs ss hcomes => hemits s gs ss hcomes.of_single
    unfold expand
    cases hmid : expandStep P skill handles step g st with
    | error e => rwa [hmid] at hfirst
    | ok mid =>
      rw [hmid] at hfirst
      dsimp only
      split
      · exact R.refused _
      · rename_i hcap
        exact expand_meets R steps g mid (fun s hs => hparsed s (by simp [walkAll, hs])) hfirst
          fun s gs ss hcomes => hemits s gs ss (.later hmid (Nat.le_of_not_lt hcap) hcomes)

theorem expandStep_meets {Φ : Except SkillFailure Expander → Prop} (R : ResultRule Φ) :
    ∀ (step : SkillStep) (g : Guarding) (st : Expander),
      (∀ s ∈ step.walk, ParsedStep P s) → Φ (.ok st) →
      (∀ s gs ss, Comes P skill handles [step] g st s gs ss → Emits s → Φ (.ok ss) →
        Φ (expandStep P skill handles s gs ss)) →
      Φ (expandStep P skill handles step g st)
  | .mk primitive args id own then_ otherwise, g, st, hparsed, hst, hemits => by
    have hself : ParsedStep P (.mk primitive args id own then_ otherwise) :=
      hparsed _ (by simp [SkillStep.walk])
    have hthen : ∀ g' st', Enters P skill handles (.mk primitive args id own then_ otherwise) g st
        then_ g' st' → Φ (.ok st') → Φ (expand P skill handles then_ g' st') :=
      fun g' st' henters hst' => expand_meets R then_ g' st'
        (fun s hs => hparsed s (by simp [SkillStep.walk, hs])) hst'
        fun s gs ss hcomes => hemits s gs ss (.enter henters hcomes)
    have helse : ∀ g' st', Enters P skill handles (.mk primitive args id own then_ otherwise) g st
        otherwise g' st' → Φ (.ok st') → Φ (expand P skill handles otherwise g' st') :=
      fun g' st' henters hst' => expand_meets R otherwise g' st'
        (fun s hs => hparsed s (by simp [SkillStep.walk, hs])) hst'
        fun s gs ss hcomes => hemits s gs ss (.enter henters hcomes)
    by_cases hif : primitive = "if"
    · subst hif
      exact if_meets R hself hst hthen helse
    · by_cases hfor : primitive = "foreach"
      · subst hfor
        exact foreach_meets R hself hst hthen
      · exact hemits _ _ _ .here ⟨hif, hfor⟩ hst

end

/-! ## What it comes to, it goes through -/

theorem TurnOf.error {failure : SkillFailure} {i : Nat} {x : Json} {start : Expander}
    (h : TurnOf body g var items index st i x start) (hbody : body g start = .error failure) :
    loopTurns body g var items index st = .error failure := by
  induction h with
  | now =>
    rw [loopTurns_cons, hbody]
  | later hmid _ ih =>
    rw [loopTurns_cons, hmid]
    exact ih hbody

/-- What fails inside a step, fails the step. -/
theorem Enters.error {failure : SkillFailure} (h : Enters P skill handles step g st inner g' st')
    (hinner : expand P skill handles inner g' st' = .error failure) :
    expandStep P skill handles step g st = .error failure := by
  cases h with
  | thenLate hraw hlate => simp [expandStep_if, expandIf, hraw, hlate, hinner]
  | elseLate hraw hlate hmid helse =>
    simp [expandStep_if, expandIf, hraw, hlate, hmid, helse, hinner]
  | thenNow hraw hlate heval => simp [expandStep_if, expandIf, hraw, hlate, heval, hinner]
  | elseNow hraw hlate heval => simp [expandStep_if, expandIf, hraw, hlate, heval, hinner]
  | turn hitems hturn =>
    rw [expandStep_foreach hitems, hturn.error hinner]
    rfl

/-- A failure at a step that an expansion comes to is its failure. -/
theorem Comes.error {failure : SkillFailure} (h : Comes P skill handles steps g st s gs ss)
    (hs : expandStep P skill handles s gs ss = .error failure) :
    expand P skill handles steps g st = .error failure := by
  induction h with
  | here =>
    unfold expand
    rw [hs]
  | later hmid hcap _ ih =>
    unfold expand
    rw [hmid]
    dsimp only
    rw [if_neg (Nat.not_lt.mpr hcap)]
    exact ih hs
  | enter henters _ ih =>
    unfold expand
    rw [henters.error (ih hs)]

section Kept

variable {I : Expander → Prop}

theorem TurnOf.kept (R : ExpansionRule P skill handles (fun _ => True) (fun _ => True) I)
    (hkeeps : body.Keeps (fun _ => True) I) {i : Nat} {x : Json} {start : Expander}
    (h : TurnOf body g var items index st i x start)
    (hbody : ∀ mid, body g start = .ok mid → I mid) :
    ∀ after, loopTurns body g var items index st = .ok after → I after := by
  intro after hafter
  induction h with
  | now =>
    rw [loopTurns_cons] at hafter
    split at hafter
    · cases hafter
    · rename_i mid hmid
      exact loopTurns_keeps R hkeeps trivial (hbody mid hmid) hafter
  | later hmid _ ih =>
    rw [loopTurns_cons, hmid] at hafter
    exact ih hbody hafter

/-- What is reached inside a step and kept from there on. -/
theorem Enters.kept (R : ExpansionRule P skill handles (fun _ => True) (fun _ => True) I)
    (h : Enters P skill handles step g st inner g' st')
    (hinner : ∀ mid, expand P skill handles inner g' st' = .ok mid → I mid) :
    ∀ after, expandStep P skill handles step g st = .ok after → I after := by
  intro after hafter
  have hkeeps : ∀ steps, Branch.Keeps (fun _ => True) I (expand P skill handles steps) :=
    fun steps => expand_keeps R steps fun _ _ => trivial
  cases h with
  | thenLate hraw hlate =>
    rw [expandStep_if, expandIf, hraw] at hafter
    simp only [hlate, if_true] at hafter
    split at hafter
    · cases hafter
    · rename_i mid hmid
      split at hafter
      · cases hafter
        exact hinner _ hmid
      · exact hkeeps _ _ _ _ trivial (hinner mid hmid) hafter
  | elseLate hraw hlate hmid helse =>
    rw [expandStep_if, expandIf, hraw] at hafter
    simp only [hlate, if_true, bodyOf, hmid, helse, Bool.false_eq_true, if_false] at hafter
    exact hinner after hafter
  | thenNow hraw hlate heval =>
    rw [expandStep_if, expandIf, hraw] at hafter
    simp only [hlate, Bool.false_eq_true, if_false, heval] at hafter
    exact hinner after hafter
  | elseNow hraw hlate heval =>
    rw [expandStep_if, expandIf, hraw] at hafter
    simp only [hlate, Bool.false_eq_true, if_false, heval] at hafter
    exact hinner after hafter
  | @turn args id own then_ otherwise _ _ items _ _ _ hitems hturn =>
    rw [expandStep_foreach hitems] at hafter
    cases hloop : loopTurns (bodyOf P skill handles inner) (g.inside st.context own)
        (loopVar P args) items 0 st with
    | error e =>
      rw [hloop] at hafter
      cases hafter
    | ok mid =>
      rw [hloop] at hafter
      cases hafter
      exact R.context (hturn.kept R (hkeeps inner) hinner mid hloop)

/-- What is reached at a step that an expansion comes to, and kept from there on. -/
theorem Comes.kept (R : ExpansionRule P skill handles (fun _ => True) (fun _ => True) I)
    (h : Comes P skill handles steps g st s gs ss)
    (hs : ∀ mid, expandStep P skill handles s gs ss = .ok mid → I mid) :
    ∀ after, expand P skill handles steps g st = .ok after → I after := by
  have hkeeps : ∀ steps, Branch.Keeps (fun _ => True) I (expand P skill handles steps) :=
    fun steps => expand_keeps R steps fun _ _ => trivial
  induction h with
  | here =>
    intro after hafter
    unfold expand at hafter
    split at hafter
    · cases hafter
    · rename_i mid hmid
      split at hafter
      · cases hafter
      · exact hkeeps _ _ _ _ trivial (hs mid hmid) hafter
  | later hmid hcap _ ih =>
    intro after hafter
    unfold expand at hafter
    rw [hmid] at hafter
    dsimp only at hafter
    rw [if_neg (Nat.not_lt.mpr hcap)] at hafter
    exact ih hs after hafter
  | enter henters _ ih =>
    intro after hafter
    unfold expand at hafter
    split at hafter
    · cases hafter
    · rename_i mid hmid
      split at hafter
      · cases hafter
      · exact hkeeps _ _ _ _ trivial (henters.kept R (ih hs) mid hmid) hafter

end Kept

theorem Enters.mem_walk (h : Enters P skill handles step g st inner g' st') :
    ∀ s ∈ walkAll inner, s ∈ step.walk := by
  cases h <;> intro s hs <;> simp [SkillStep.walk, hs]

theorem Comes.mem_walk (h : Comes P skill handles steps g st s gs ss) : s ∈ walkAll steps := by
  induction h with
  | @here step steps _ _ =>
    have hself : step ∈ step.walk := by
      cases step
      simp [SkillStep.walk]
    simp [walkAll, hself]
  | later _ _ _ ih => simp [walkAll, ih]
  | enter henters _ ih => simp [walkAll, henters.mem_walk _ ih]

/-- What escapes from an expansion escapes from a step that it comes to: a title that is
    too long. -/
theorem expand_own_iff (hid : isSlug skill.id = true)
    (hparsed : ∀ s ∈ walkAll steps, ParsedStep P s) :
    OwnWords (expand P skill handles steps g st) ↔
      ∀ s gs ss, Comes P skill handles steps g st s gs ss → Emits s → TitleFits P skill s ss := by
  constructor
  · intro hown s gs ss hcomes hemits
    have hstep : OwnWords (expandStep P skill handles s gs ss) ↔ TitleFits P skill s ss :=
      expandStep_own_iff hid (hparsed s hcomes.mem_walk) hemits
    rw [← hstep]
    cases hs : expandStep P skill handles s gs ss with
    | ok mid => trivial
    | error failure =>
      rw [hcomes.error hs] at hown
      exact hown
  · intro hfits
    refine expand_meets ⟨fun _ => trivial, fun _ _ _ => trivial⟩ steps g st hparsed trivial ?_
    intro s gs ss hcomes hemits _
    exact (expandStep_own_iff hid (hparsed s hcomes.mem_walk) hemits).mpr
      (hfits s gs ss hcomes hemits)

/-- An expansion has steps exactly when it comes to one. -/
theorem expand_nonempty_iff {after : Expander} (hparsed : ∀ s ∈ walkAll steps, ParsedStep P s)
    (hst : st.steps = []) (h : expand P skill handles steps g st = .ok after) :
    after.steps ≠ [] ↔ ∃ s gs ss, Comes P skill handles steps g st s gs ss ∧ Emits s := by
  constructor
  · intro hne
    by_contra hnone
    have hrule : ResultRule fun result => ∀ after, result = .ok after → after.steps = [] := by
      constructor
      · intro _ _ hafter
        cases hafter
      · intro st context hst after hafter
        cases hafter
        exact hst st rfl
    refine hne (expand_meets hrule steps g st hparsed (fun after hafter => ?_) ?_ after h)
    · cases hafter
      exact hst
    · intro s gs ss hcomes hemits
      exact absurd ⟨s, gs, ss, hcomes, hemits⟩ hnone
  · rintro ⟨s, gs, ss, hcomes, hemits⟩
    have hemit : ∀ {primitive args id own g st st'},
        emit P skill handles primitive args id own g st = .ok st' → st'.steps ≠ [] := by
      intro primitive args id own g st st' he
      obtain ⟨_, _, _, _, _, _, hsteps, _⟩ := emit_cases he
      simp [hsteps]
    have rule : ExpansionRule P skill handles (fun _ => True) (fun _ => True)
        fun st => st.steps ≠ [] :=
      { context := fun hst => hst
        late := fun _ _ => trivial
        early := fun _ _ => trivial
        inside := fun _ => trivial
        emit := fun _ _ _ he => hemit he }
    refine hcomes.kept rule (fun mid hmid => ?_) after h
    rw [expandStep_emits hemits] at hmid
    exact hemit hmid

/-! ## Compilation -/

/-- The ids are those in use, and distinct; the steps are numbered from 1. -/
structure WellNumbered (st : Expander) : Prop where
  used : st.usedIds = st.steps.map (·.id)
  unique : (st.steps.map (·.id)).Nodup
  numbered : st.steps.map (·.n) = List.range' 1 st.steps.length

theorem emit_wellNumbered {primitive : String} (hst : WellNumbered st)
    (h : emit P skill handles primitive args id own g st = .ok st') : WellNumbered st' := by
  unfold emit at h
  split at h
  · cases h
  · dsimp only at h
    split at h
    · cases h
      have hfresh : uniqueId skill st.usedIds id primitive ∉ st.steps.map (·.id) :=
        hst.used ▸ uniqueId_not_mem st.usedIds id primitive
      refine ⟨by simp [hst.used], ?_, ?_⟩
      · rw [List.map_append, List.nodup_append]
        refine ⟨hst.unique, by simp, fun a ha b hb hab => ?_⟩
        obtain rfl : b = uniqueId skill st.usedIds id primitive := by simpa using hb
        exact hfresh (hab ▸ ha)
      · rw [List.map_append, hst.numbered, List.length_append, List.length_singleton,
          ← List.range'_append_1]
        simp [Nat.add_comm]
    · cases h

theorem expand_wellNumbered {after : Expander} (hst : WellNumbered st)
    (h : expand P skill handles steps g st = .ok after) : WellNumbered after := by
  have rule : ExpansionRule P skill handles (fun _ => True) (fun _ => True) WellNumbered :=
    { context := fun hst => ⟨hst.used, hst.unique, hst.numbered⟩
      late := fun _ _ => trivial
      early := fun _ _ => trivial
      inside := fun _ => trivial
      emit := fun _ _ hst he => emit_wellNumbered hst he }
  exact expand_keeps rule steps (fun _ _ => trivial) g st after trivial hst h

theorem expand_capped {after : Expander} (hst : st.steps.length ≤ MAX_STEPS)
    (h : expand P skill handles steps g st = .ok after) : after.steps.length ≤ MAX_STEPS := by
  induction steps generalizing st with
  | nil =>
    cases h
    exact hst
  | cons step steps ih =>
    unfold expand at h
    split at h
    · cases h
    · split at h
      · cases h
      · rename_i hcap
        exact ih (Nat.le_of_not_lt hcap) h

theorem OwnWords.of_error {α β : Type} {failure : SkillFailure}
    (h : OwnWords (.error failure : Except SkillFailure α)) :
    OwnWords (.error failure : Except SkillFailure β) := by
  cases failure with
  | refused message => trivial
  | raised e => exact h

theorem coerce_own {name : String} {kind : InputType} {value : Json} :
    OwnWords (coerce P skill name kind value) := by
  unfold coerce
  split
  · trivial
  · split <;> trivial
  · trivial
  · trivial
  · trivial

theorem bindInput_own {given : Bindings} {bound : Bound} {name : String} {spec : InputSpec} :
    OwnWords (bindInput P skill given bound name spec) := by
  unfold bindInput
  by_cases hsecret : spec.type = .secret
  · rw [if_pos hsecret]
    dsimp only
    split_ifs <;> trivial
  · rw [if_neg hsecret]
    cases present given name with
    | none =>
      dsimp only
      split_ifs <;> trivial
    | some value =>
      have hcoerce : OwnWords (coerce P skill name spec.type value) := coerce_own
      dsimp only
      cases hvalue : coerce P skill name spec.type value with
      | error e =>
        rw [hvalue] at hcoerce
        exact hcoerce.of_error
      | ok value => trivial

theorem bindInputs_own {given : Bindings} : OwnWords (bindInputs P skill given) := by
  have hfold : ∀ (inputs : List (String × InputSpec)) (bound : Bound),
      OwnWords (inputs.foldlM (fun bound input => bindInput P skill given bound input.1 input.2)
        bound) := by
    intro inputs
    induction inputs with
    | nil => exact fun _ => trivial
    | cons input inputs ih =>
      intro bound
      rw [List.foldlM_cons]
      have hfirst : OwnWords (bindInput P skill given bound input.1 input.2) := bindInput_own
      cases hbound : bindInput P skill given bound input.1 input.2 with
      | error e =>
        rw [hbound] at hfirst
        exact hfirst
      | ok bound' => exact ih bound'
  unfold bindInputs
  dsimp only
  split_ifs
  · trivial
  · have hbound := hfold skill.inputs {}
    split
    · rename_i e he
      rw [he] at hbound
      exact hbound.of_error
    · split_ifs <;> trivial

/-- What `parse_skill` checks of a skill, as far as it is compiled. -/
structure ParsedSkill (P : Python) (skill : Skill) : Prop where
  slug : isSlug skill.id = true
  steps : Parsed P skill.steps

/-- The expansion of a skill comes to emit this step. -/
def Reaches (P : Python) (skill : Skill) (bound : Bindings × List (String × String))
    (step : SkillStep) (st : Expander) : Prop :=
  ∃ g, Comes P skill (bound.2.map (·.2)) skill.steps {} { context := bound.1 } step g st ∧ Emits step

/-- The expansion goes through, and every output comes from a step. -/
def GoesThrough (P : Python) (skill : Skill) (bound : Bindings × List (String × String)) : Prop :=
  ∃ after, expand P skill (bound.2.map (·.2)) skill.steps {} { context := bound.1 } = .ok after ∧
    ∀ output ∈ skill.outputs, output.2 ∈ after.steps.map (·.id)

/-- The bounds of the models of steps and plans are kept: no title is too long, and an
    expansion that goes through is of a job and comes to a step. -/
structure InBounds (P : Python) (skill : Skill) (inputs : Bindings) (jobId : String) : Prop where
  titles : ∀ bound, bindInputs P skill inputs = .ok bound →
    ∀ step st, Reaches P skill bound step st → TitleFits P skill step st
  plan : ∀ bound, bindInputs P skill inputs = .ok bound → GoesThrough P skill bound →
    jobId ≠ "" ∧ ∃ step st, Reaches P skill bound step st

theorem skillPlan_own_iff {id jobId summary : String} {steps : List Step} {createdAt : DateTime} :
    OwnWords (skillPlan id jobId summary steps createdAt) ↔
      (jobId ≠ "" ∧ summary ≠ "" ∧ steps ≠ [] ∧ steps.length ≤ MAX_STEPS) ∧
        (steps.map (·.id)).Nodup ∧ steps.map (·.n) = List.range' 1 steps.length := by
  have hvalid : (∃ plan, Plan.ofSteps jobId summary steps createdAt = some plan) ↔ _ :=
    Plan.exists_ofSteps_iff
  rw [← hvalid, skillPlan]
  cases hplan : Plan.ofSteps jobId summary steps createdAt with
  | none => simp [OwnWords]
  | some plan => simp [OwnWords]

section Compile

variable {digest : String → String → List String → String} {inputs : Bindings} {jobId : String}
  {now : DateTime} {bound : Bindings × List (String × String)} {after : Expander}

theorem compileSkill_of_error {failure : SkillFailure} (hbound : bindInputs P skill inputs = .ok bound)
    (hexpand : expand P skill (bound.2.map (·.2)) skill.steps {} { context := bound.1 } =
      .error failure) : compileSkill P digest skill inputs jobId now = .error failure := by
  simp [compileSkill, hbound, hexpand, bind, Except.bind]

/-- After an expansion, what escapes is what the plan is validated for. -/
theorem compileSkill_own_of_ok (hbound : bindInputs P skill inputs = .ok bound)
    (hexpand : expand P skill (bound.2.map (·.2)) skill.steps {} { context := bound.1 } = .ok after) :
    OwnWords (compileSkill P digest skill inputs jobId now) ↔
      ((∀ output ∈ skill.outputs, output.2 ∈ after.steps.map (·.id)) →
        jobId ≠ "" ∧ after.steps ≠ []) := by
  have hnumbered : WellNumbered after := expand_wellNumbered ⟨rfl, by simp, rfl⟩ hexpand
  have hcapped : after.steps.length ≤ MAX_STEPS := expand_capped (Nat.zero_le _) hexpand
  simp only [compileSkill, hbound, hexpand, bind, Except.bind]
  cases hfind : skill.outputs.find? fun output => output.2 ∉ after.steps.map (·.id) with
  | some output =>
    have hmissing : ¬ ∀ output ∈ skill.outputs, output.2 ∈ after.steps.map (·.id) := by
      intro hall
      have hout := List.find?_some hfind
      simp only [decide_eq_true_eq] at hout
      exact hout (hall output (List.mem_of_find?_eq_some hfind))
    exact iff_of_true trivial fun hall => absurd hall hmissing
  | none =>
    have hall : ∀ output ∈ skill.outputs, output.2 ∈ after.steps.map (·.id) := by
      intro output hout
      simpa using List.find?_eq_none.mp hfind output hout
    have hsummary : skill.name ++ " v" ++ skill.version ≠ "" := by
      intro hempty
      have hlength := congrArg String.length hempty
      rw [String.length_append, String.length_append] at hlength
      have hv : " v".length = 2 := by decide
      have hzero : "".length = 0 := rfl
      omega
    have hplan : ∀ id, OwnWords (skillPlan id jobId (skill.name ++ " v" ++ skill.version)
        after.steps now) ↔ jobId ≠ "" ∧ after.steps ≠ [] := by
      intro id
      rw [skillPlan_own_iff]
      simp only [hnumbered.unique, hnumbered.numbered, hcapped, ne_eq, hsummary, not_false_eq_true,
        true_and, and_true]
    rw [forall_prop_of_true hall, ← hplan]
    dsimp only
    cases skillPlan _ jobId (skill.name ++ " v" ++ skill.version) after.steps now with
    | error e => exact ⟨OwnWords.of_error, OwnWords.of_error⟩
    | ok plan => exact Iff.rfl

/-- **Compilation in its own words**: a compilation ends with a plan or with its own error
    exactly when the bounds of the models are kept. -/
theorem compileSkill_own_iff (hskill : ParsedSkill P skill) :
    OwnWords (compileSkill P digest skill inputs jobId now) ↔ InBounds P skill inputs jobId := by
  have hparsed := hskill.steps.steps
  have hbind : OwnWords (bindInputs P skill inputs) := bindInputs_own
  cases hbound : bindInputs P skill inputs with
  | error e =>
    have hfails : compileSkill P digest skill inputs jobId now = .error e := by
      simp [compileSkill, hbound, bind, Except.bind]
    rw [hbound] at hbind
    rw [hfails]
    exact iff_of_true hbind.of_error ⟨fun _ h => by simp [hbound] at h, fun _ h => by
      simp [hbound] at h⟩
  | ok bound =>
    have hsplit : InBounds P skill inputs jobId ↔
        (∀ step st, Reaches P skill bound step st → TitleFits P skill step st) ∧
          (GoesThrough P skill bound → jobId ≠ "" ∧ ∃ step st, Reaches P skill bound step st) := by
      constructor
      · exact fun h => ⟨h.titles bound hbound, h.plan bound hbound⟩
      · refine fun h => ⟨fun bound' hbound' => ?_, fun bound' hbound' => ?_⟩
        · obtain rfl := Except.ok.inj (hbound.symm.trans hbound')
          exact h.1
        · obtain rfl := Except.ok.inj (hbound.symm.trans hbound')
          exact h.2
    have htitles : OwnWords (expand P skill (bound.2.map (·.2)) skill.steps {}
        { context := bound.1 }) ↔ ∀ step st, Reaches P skill bound step st →
          TitleFits P skill step st := by
      rw [expand_own_iff hskill.slug hparsed]
      exact ⟨fun h step st ⟨g, hcomes, hemits⟩ => h step g st hcomes hemits,
        fun h step g st hcomes hemits => h step st ⟨g, hcomes, hemits⟩⟩
    rw [hsplit, ← htitles]
    cases hexpand : expand P skill (bound.2.map (·.2)) skill.steps {} { context := bound.1 } with
    | error e =>
      rw [compileSkill_of_error hbound hexpand]
      have hnot : ¬ GoesThrough P skill bound := by
        rintro ⟨after, hafter, -⟩
        rw [hexpand] at hafter
        cases hafter
      exact ⟨fun h => ⟨h.of_error, fun hgoes => absurd hgoes hnot⟩, fun h => h.1.of_error⟩
    | ok after =>
      have hgoes : GoesThrough P skill bound ↔
          ∀ output ∈ skill.outputs, output.2 ∈ after.steps.map (·.id) := by
        constructor
        · rintro ⟨after', hafter', hall⟩
          obtain rfl := Except.ok.inj (hexpand.symm.trans hafter')
          exact hall
        · exact fun hall => ⟨after, hexpand, hall⟩
      have hnonempty : after.steps ≠ [] ↔ ∃ step st, Reaches P skill bound step st := by
        rw [expand_nonempty_iff hparsed rfl hexpand]
        exact ⟨fun ⟨s, gs, ss, hcomes, hemits⟩ => ⟨s, ss, gs, hcomes, hemits⟩,
          fun ⟨s, ss, gs, hcomes, hemits⟩ => ⟨s, gs, ss, hcomes, hemits⟩⟩
      rw [compileSkill_own_of_ok hbound hexpand, hgoes, ← hnonempty]
      exact ⟨fun h => ⟨trivial, h⟩, fun h => h.2⟩

end Compile

/-! ## The gate -/

namespace SkillLibrary

variable {L : SkillLibrary}

/-- A step of a plan within the bounds: if it names a skill that may run, its `inputs` and
    its `secret_refs` are read, and the compilation is within the bounds. -/
def StepInBounds (L : SkillLibrary) (step : Step) (jobId : String) (agent : AgentName) : Prop :=
  ∀ entry, L.library.lookup (L.python.str ((step.args.lookup "skill_id").getD (.str ""))) =
      some entry → agent ∈ entry.agents → L.isEnabled entry.skill.id agent = true →
    ∃ inputs refs, L.dict ((step.args.lookup "inputs").getD (.obj [])) = .ok inputs ∧
      L.dict ((step.args.lookup "secret_refs").getD (.obj [])) = .ok refs ∧
      InBounds L.python entry.skill (inputsOf entry.skill step.args inputs refs) jobId

/-- Every skill step of the plan that the gate comes to is within the bounds. -/
def PlanInBounds (L : SkillLibrary) (jobId : String) (agent : AgentName) (steps : List Step) : Prop :=
  ∀ before step after, steps = before ++ step :: after →
    (∃ out, L.expandSteps jobId agent before = .ok out) → step.primitive = "skill" →
      L.StepInBounds step jobId agent

theorem compileStep_own_iff (hlib : ∀ entry ∈ L.library, ParsedSkill L.python entry.2.skill)
    {step : Step} {jobId : String} {agent : AgentName} :
    OwnWords (L.compileStep step jobId agent) ↔ L.StepInBounds step jobId agent := by
  unfold compileStep StepInBounds
  dsimp only
  cases hentry : L.library.lookup (L.python.str ((step.args.lookup "skill_id").getD (.str ""))) with
  | none => simp [OwnWords]
  | some entry =>
    have hparsed : ParsedSkill L.python entry.skill :=
      hlib _ (Dict.mem_of_lookup hentry)
    by_cases hagent : agent ∈ entry.agents
    · by_cases henabled : L.isEnabled entry.skill.id agent = true
      · cases hinputs : L.dict ((step.args.lookup "inputs").getD (.obj [])) with
        | error e => simp [OwnWords, hagent, henabled]
        | ok inputs =>
          cases hrefs : L.dict ((step.args.lookup "secret_refs").getD (.obj [])) with
          | error e => simp [OwnWords, hagent, henabled]
          | ok refs => simp [hagent, henabled, compileSkill_own_iff hparsed]
      · simp [OwnWords, hagent, henabled]
    · simp [OwnWords, hagent]

theorem expandStep_own_iff (hlib : ∀ entry ∈ L.library, ParsedSkill L.python entry.2.skill)
    {step : Step} {jobId : String} {agent : AgentName} :
    OwnWords (L.expandStep step jobId agent) ↔
      (step.primitive = "skill" → L.StepInBounds step jobId agent) := by
  unfold SkillLibrary.expandStep
  split
  · rename_i hskill
    rw [forall_prop_of_true hskill, ← compileStep_own_iff hlib]
    cases L.compileStep step jobId agent with
    | error e => exact ⟨OwnWords.of_error, OwnWords.of_error⟩
    | ok compiled => exact Iff.rfl
  · rename_i hskill
    exact iff_of_true trivial fun h => absurd h hskill

theorem expandSteps_own_iff (hlib : ∀ entry ∈ L.library, ParsedSkill L.python entry.2.skill)
    {jobId : String} {agent : AgentName} {steps : List Step} :
    OwnWords (L.expandSteps jobId agent steps) ↔ L.PlanInBounds jobId agent steps := by
  induction steps with
  | nil => exact iff_of_true trivial fun before step after h => by simp at h
  | cons step steps ih =>
    have hfirst : OwnWords (L.expandStep step jobId agent) ↔
        (step.primitive = "skill" → L.StepInBounds step jobId agent) := expandStep_own_iff hlib
    cases hstep : L.expandStep step jobId agent with
    | error e =>
      rw [hstep] at hfirst
      have hall : L.expandSteps jobId agent (step :: steps) = .error e := by
        rw [expandSteps, hstep]
      rw [hall]
      refine ⟨fun h before s after heq hbefore hskill => ?_, fun h => ?_⟩
      · cases before with
        | nil =>
          obtain ⟨rfl, -⟩ := List.cons.inj heq
          exact hfirst.mp h.of_error hskill
        | cons b before =>
          obtain ⟨rfl, -⟩ := List.cons.inj heq
          obtain ⟨out, hout⟩ := hbefore
          unfold expandSteps at hout
          rw [hstep] at hout
          cases hout
      · exact (hfirst.mpr (h [] step steps rfl ⟨_, rfl⟩)).of_error
    | ok s =>
      have hrest : OwnWords (L.expandSteps jobId agent (step :: steps)) ↔
          OwnWords (L.expandSteps jobId agent steps) := by
        rw [expandSteps, hstep]
        cases L.expandSteps jobId agent steps with
        | error e => exact ⟨OwnWords.of_error, OwnWords.of_error⟩
        | ok rest => exact Iff.rfl
      rw [hstep] at hfirst
      refine hrest.trans (ih.trans ?_)
      refine ⟨fun h before s' after heq hbefore => ?_, fun h before s' after heq hbefore => ?_⟩
      · cases before with
        | nil =>
          obtain ⟨rfl, -⟩ := List.cons.inj heq
          exact hfirst.mp trivial
        | cons b before =>
          obtain ⟨rfl, hsteps⟩ := List.cons.inj heq
          refine h before s' after hsteps ?_
          obtain ⟨out, hout⟩ := hbefore
          unfold expandSteps at hout
          rw [hstep] at hout
          dsimp only at hout
          cases hbefore : L.expandSteps jobId agent before with
          | error e =>
            rw [hbefore] at hout
            cases hout
          | ok out => exact ⟨out, rfl⟩
      · refine h (step :: before) s' after (by rw [heq]; rfl) ?_
        obtain ⟨out, hout⟩ := hbefore
        unfold expandSteps
        rw [hstep, hout]
        exact ⟨_, rfl⟩

/-- What escapes from the gate: what a compilation lets through, or the arguments of a
    plan step. -/
theorem expand_own_iff (hlib : ∀ entry ∈ L.library, ParsedSkill L.python entry.2.skill)
    {plan : Plan} {agent : AgentName} :
    OwnWords (L.expand plan agent) ↔ L.PlanInBounds plan.jobId agent plan.steps := by
  rw [← expandSteps_own_iff hlib, expand]
  cases L.expandSteps plan.jobId agent plan.steps with
  | error e => exact ⟨OwnWords.of_error, OwnWords.of_error⟩
  | ok out =>
    obtain ⟨steps, hids, hnumbers⟩ := out
    exact Iff.rfl

end SkillLibrary

/-- **Failing in its own words**: what the compiler and the gate end with is a plan or
    their own error, exactly within the bounds of the models. -/
theorem own_words_iff (L : SkillLibrary)
    (hlib : ∀ entry ∈ L.library, ParsedSkill L.python entry.2.skill) :
    (∀ skill, ParsedSkill L.python skill → ∀ inputs jobId now,
      OwnWords (compileSkill L.python L.digest skill inputs jobId now) ↔
        InBounds L.python skill inputs jobId) ∧
    ∀ plan agent, OwnWords (L.expand plan agent) ↔ L.PlanInBounds plan.jobId agent plan.steps :=
  ⟨fun _ hskill _ _ _ => compileSkill_own_iff hskill,
    fun _ _ => SkillLibrary.expand_own_iff hlib⟩

instance {α : Type} : (result : Except SkillFailure α) → Decidable (OwnWords result)
  | .error (.raised _) => .isFalse fun h => h
  | .error (.refused _) => .isTrue trivial
  | .ok _ => .isTrue trivial

/-- A loop over nothing. -/
def loopOverNothing : Skill where
  id := "nothing"
  name := "Nothing"
  version := "1.0.0"
  steps := stepsOf .plain "nothing.yaml" (.arr [.obj [("foreach", .obj [("items", .arr []),
    ("then", .arr [.obj [("wait", .obj [("seconds", .num (.ofNat 1))])]])])]])

/-- A key that is an input. -/
def pressing : Skill where
  id := "pressing"
  name := "Pressing"
  version := "1.0.0"
  inputs := [("key", { type := .string })]
  steps := stepsOf .plain "pressing.yaml"
    (.arr [.obj [("key", .obj [("press", .str "\x7b\x7b key \x7d\x7d")])]])

def pressingLibrary : SkillLibrary where
  library := [("pressing", { skill := pressing, agents := [.validation] })]
  isEnabled _ _ := true
  python := .plain
  digest _ _ _ := "0"
  now := 0
  dict
    | .obj fields => .ok fields
    | _ => .error "not a mapping"
  dump _ := .null

theorem own_words_pressing :
    OwnWords (compileSkill .plain (fun _ _ _ => "0") pressing [("key", .str "enter")] "job-1" 0) ↔
      InBounds .plain pressing [("key", .str "enter")] "job-1" := by
  have hparsed : ParsedSkill .plain pressing :=
    ⟨by decide, stepsOf_parsed (by decide +kernel)⟩
  exact (own_words_iff pressingLibrary (by simpa [pressingLibrary] using hparsed)).1 pressing hparsed
    _ _ _

/-- A plan without steps, and a title that is too long. -/
theorem words_of_others :
    ParsedSkill .plain loopOverNothing ∧ ParsedSkill .plain pressing ∧
      ¬ OwnWords (compileSkill .plain (fun _ _ _ => "0") loopOverNothing [] "job-1" 0) ∧
      ¬ OwnWords (compileSkill .plain (fun _ _ _ => "0") pressing
        [("key", .str (String.ofList (List.replicate 200 'a')))] "job-1" 0) := by
  refine ⟨⟨by decide, stepsOf_parsed (by decide +kernel)⟩,
    ⟨by decide, stepsOf_parsed (by decide +kernel)⟩, by decide +kernel, by decide +kernel⟩

end Skills

end Slas
