/-
  Slas.Screen.Focus

  The focus guard: in a run in which the backend always reports a window at an input, a window
  that is waited for has the focus when it appears, and nothing is tried after a stop before a
  window is focused or waited for, each input goes to the window that is expected:
  `guarded_of_calm`.
-/

import Slas.Lib.Runs
import Slas.Screen.Driver

namespace Slas

namespace Screen

/-- What is expected of the focus, by what the calls came to. -/
inductive Expects where
  /-- Nothing yet: the first input settles it. -/
  | anything
  | window (w : Window)
  /-- The focus changed unexpectedly, and no window has been focused or waited for since. -/
  | nothing

/-- An input may go to the window. -/
def Expects.Allows (w : Window) : Expects → Prop
  | .anything => True
  | .window e => w.id = e.id
  | .nothing => False

def Sent.isInput : Sent → Bool
  | .activate _ => false
  | _ => true

/-- A call with what the backend reports during it. -/
abbrev Step := Call × Report

/-- The driver, and what is expected of the focus. -/
structure Watched where
  driver : Driver := {}
  expects : Expects := .anything

/-- What an input changes of the expectation. -/
def Expects.afterInput (e : Expects) (focused : Option Window) (sent : List Sent) (ended : Ended) :
    Expects :=
  match ended, e, focused with
  | .stopped (.focusChanged _ _), _, _ => .nothing
  | _, .anything, some w => if sent.any Sent.isInput then .window w else .anything
  | _, e, _ => e

/-- What a call changes of the expectation. -/
def Expects.after (P : Policy) (e : Expects) (x : Step) (sent : List Sent) (ended : Ended) :
    Expects :=
  match x.1, ended with
  | .focusWindow title wmClass, .ok _ =>
    (Driver.findWindow P title wmClass x.2.first.windows).elim e .window
  | .waitFor (some wanted) _ _, .ok _ =>
    (x.2.looks.findSome? fun look => Driver.findWindow P (some wanted) none look.windows).elim e
      .window
  | .waitFor none _ _, .ok _ =>
    match e with
    | .nothing => .anything
    | e => e
  | _, ended => e.afterInput x.2.focused sent ended

/-- The call is an input, and has found what it acts on. -/
def Call.aims (P : Policy) (look : Look) : Call → Bool
  | .click text image target x y _ _ =>
    match Driver.locate P text image target x y look with
    | .found _ _ => true
    | _ => false
  | .typeText _ | .key _ => true
  | .scroll direction _ => direction ∈ ["up", "down", "left", "right"]
  | _ => false

namespace Watched

variable (P : Policy)

def step (s : Watched) (x : Step) : Watched :=
  let result := s.driver.call P x.1 x.2
  ⟨result.1, s.expects.after P x result.2.1 result.2.2⟩

/-- Each input goes to a window that the focus query of its call has reported, that is not denied
    and that is expected. -/
def Guarded (s : Watched) (x : Step) : Prop :=
  (∃ sent ∈ (s.driver.call P x.1 x.2).2.1, sent.isInput = true) →
    ∃ w, x.2.focused = some w ∧ P.denied w = .ok none ∧ s.expects.Allows w

/-- At an input the backend reports a window, which is denied where a stop is still to be
    recovered from.  A window that is waited for has the focus, or nothing has. -/
def Calm (s : Watched) (x : Step) : Prop :=
  (x.1.aims P x.2.first = true →
    ∃ w, x.2.focused = some w ∧ (s.expects = .nothing → P.denied w ≠ .ok none)) ∧
  ∀ wanted text image, x.1 = .waitFor (some wanted) text image → ∀ w ∈ x.2.focused,
    ∀ found ∈ x.2.looks.findSome? fun look => Driver.findWindow P (some wanted) none look.windows,
      w.id = found.id

/-- The driver expects what is expected. -/
def Agrees (s : Watched) : Prop :=
  match s.expects with
  | .window e => ∃ w, s.driver.expectedFocus = some w ∧ w.id = e.id
  | _ => s.driver.expectedFocus = none

end Watched

/-! ## The parts of a call -/

namespace Driver

variable {P : Policy} {d : Driver} {r : Report} {w : Window}

theorem denyCheck_eq_none_iff : denyCheck P w = none ↔ P.denied w = .ok none := by
  unfold denyCheck
  split <;> simp_all

/-- A check that ends a call raises, or stops at a denied window. -/
theorem denyCheck_eq_some {ended : Ended} (h : denyCheck P w = some ended) :
    ended = .raised ∨ ended = .stopped (.denied w) := by
  unfold denyCheck at h
  split at h
  · exact Or.inl (Option.some.inj h).symm
  · exact Or.inr (Option.some.inj h).symm
  · cases h

theorem guardFocus_of_denied {ended : Ended} (h : denyCheck P w = some ended) :
    guardFocus P (some w) d = (d, some ended) := by
  simp only [guardFocus, Option.bind_some, h]

theorem guardFocus_of_allowed (h : denyCheck P w = none) :
    guardFocus P (some w) d =
      match d.expectedFocus with
      | none => ({ d with expectedFocus := some w }, none)
      | some v =>
        if w.id ≠ v.id then ({ d with expectedFocus := none }, some (.stopped (.focusChanged v w)))
        else (d, none) := by
  unfold guardFocus
  rw [Option.bind_some, h]
  cases d.expectedFocus <;> rfl

/-- What a wait for a window comes to. -/
theorem waitFor_window (wanted : String) (text image : Option String) (looks : List Look) :
    waitFor P (some wanted) text image r.focused d looks =
      match looks.findSome? fun look => findWindow P (some wanted) none look.windows with
      | none => (d, [], .failed)
      | some found =>
        match denyCheck P found with
        | some ended => (d, [], ended)
        | none => ({ d with expectedFocus := some (r.focused.getD found) }, [],
            .ok (some found.title)) := by
  induction looks with
  | nil => rfl
  | cons look looks ih =>
    rw [waitFor, List.findSome?_cons]
    cases findWindow P (some wanted) none look.windows with
    | none => exact ih
    | some found => rfl

/-- A wait for a text or an image leaves the driver as it is. -/
theorem waitFor_none (text image : Option String) (looks : List Look) :
    ∃ ended, waitFor P none text image r.focused d looks = (d, [], ended) ∧
      (ended = .failed ∨ ∃ matched, ended = .ok matched) := by
  induction looks with
  | nil => exact ⟨_, rfl, Or.inl rfl⟩
  | cons look looks ih =>
    rw [waitFor]
    split_ifs
    · exact ⟨_, rfl, Or.inr ⟨_, rfl⟩⟩
    · exact ⟨_, rfl, Or.inr ⟨_, rfl⟩⟩
    · exact ih

end Driver

namespace Watched

variable {P : Policy} {d : Driver} {e : Expects} {r : Report} {sent : Sent}
  {matched : Option String} {s : Watched} {x : Step}

/-- No call ends for this reason. -/
def NotChanged (ended : Ended) : Prop := ∀ v w, ended ≠ .stopped (.focusChanged v w)

theorem afterInput_of_notChanged {focused : Option Window} {sents : List Sent} {ended : Ended}
    (h : NotChanged ended) :
    e.afterInput focused sents ended =
      match e, focused with
      | .anything, some w => if sents.any Sent.isInput then .window w else .anything
      | e, _ => e := by
  cases ended with
  | stopped why =>
    cases why with
    | focusChanged v w => exact absurd rfl (h v w)
    | denied w => cases e <;> cases focused <;> rfl
    | coordinates => cases e <;> cases focused <;> rfl
  | ok matched => cases e <;> cases focused <;> rfl
  | failed => cases e <;> cases focused <;> rfl
  | raised => cases e <;> cases focused <;> rfl

theorem afterInput_of_no_input {focused : Option Window} {sents : List Sent} {ended : Ended}
    (h : NotChanged ended) (hsents : sents.any Sent.isInput = false) :
    e.afterInput focused sents ended = e := by
  rw [afterInput_of_notChanged h]
  cases e <;> cases focused <;> simp [hsents]

theorem afterInput_nil {focused : Option Window} {ended : Ended} (h : NotChanged ended) :
    e.afterInput focused [] ended = e :=
  afterInput_of_no_input h rfl

/-- An input with the focus on a window. -/
theorem input_agrees (matched : Option String) (hinput : sent.isInput = true)
    (hs : Agrees ⟨d, e⟩)
    (hcalm : ∃ w, r.focused = some w ∧ (e = .nothing → P.denied w ≠ .ok none)) :
    ((d.input P sent matched r).2.1 ≠ [] →
      ∃ w, r.focused = some w ∧ P.denied w = .ok none ∧ e.Allows w) ∧
    Agrees ⟨(d.input P sent matched r).1,
      e.afterInput r.focused (d.input P sent matched r).2.1 (d.input P sent matched r).2.2⟩ := by
  obtain ⟨w, hw, hstop⟩ := hcalm
  cases hdeny : Driver.denyCheck P w with
  | some ended =>
    have hresult : d.input P sent matched r = (d, [], ended) := by
      rw [Driver.input, hw, Driver.guardFocus_of_denied hdeny]
    have hended : NotChanged ended := by
      intro v w heq
      rcases Driver.denyCheck_eq_some hdeny with rfl | rfl <;> cases heq
    rw [hresult]
    refine ⟨fun hne => absurd rfl hne, ?_⟩
    rwa [afterInput_nil hended]
  | none =>
    have hallowed := Driver.denyCheck_eq_none_iff.mp hdeny
    have hguard := Driver.guardFocus_of_allowed (d := d) hdeny
    -- what is sent once the guard has let it through, whether or not the backend raises
    have hsent : ∀ d' : Driver, Driver.guardFocus P (some w) d = (d', none) →
        (d.input P sent matched r).2.1 = [sent] ∧
        (d.input P sent matched r).1.expectedFocus = d'.expectedFocus ∧
        NotChanged (d.input P sent matched r).2.2 := by
      intro d' hg
      rw [Driver.input, hw, hg]
      dsimp only [Driver.action]
      split_ifs <;> exact ⟨rfl, rfl, fun _ _ heq => nomatch heq⟩
    cases e with
    | nothing => exact absurd hallowed (hstop rfl)
    | anything =>
      have hnone : d.expectedFocus = none := hs
      rw [hnone] at hguard
      obtain ⟨hlist, hfocus, hended⟩ := hsent _ hguard
      refine ⟨fun _ => ⟨w, hw, hallowed, trivial⟩, ?_⟩
      rw [afterInput_of_notChanged hended, hlist, hw]
      simp only [List.any_cons, hinput, Bool.true_or, if_true]
      exact ⟨w, hfocus, rfl⟩
    | window f =>
      obtain ⟨v, hv, hid⟩ := hs
      dsimp only at hv
      rw [hv] at hguard
      dsimp only at hguard
      by_cases hsame : w.id = v.id
      · rw [if_neg (not_not.mpr hsame)] at hguard
        obtain ⟨-, hfocus, hended⟩ := hsent _ hguard
        refine ⟨fun _ => ⟨w, hw, hallowed, hsame.trans hid⟩, ?_⟩
        rw [afterInput_of_notChanged hended]
        exact ⟨v, hfocus.trans hv, hid⟩
      · rw [if_pos hsame] at hguard
        have hresult : d.input P sent matched r =
            ({ d with expectedFocus := none }, [], .stopped (.focusChanged v w)) := by
          rw [Driver.input, hw, hguard]
        rw [hresult]
        exact ⟨fun hne => absurd rfl hne, rfl⟩

/-- A call that sends no input, and what is expected then. -/
theorem guarded_of_not_sent (h : ∀ sent ∈ (s.driver.call P x.1 x.2).2.1, sent.isInput = false) :
    Guarded P s x := by
  rintro ⟨sent, hsent, hinput⟩
  rw [h sent hsent] at hinput
  cases hinput

/-- A call that sends nothing, and leaves the driver and what is expected as they are. -/
theorem idle_step (ended : Ended) (hcall : s.driver.call P x.1 x.2 = (s.driver, [], ended))
    (hafter : s.expects.after P x [] ended = s.expects) (hs : Agrees s) :
    Guarded P s x ∧ Agrees (step P s x) := by
  constructor
  · refine guarded_of_not_sent fun sent hsent => ?_
    rw [hcall] at hsent
    cases hsent
  · rw [step, hcall, hafter]
    exact hs

/-- A call that is an input with the focus on a window. -/
theorem input_step (sent : Sent) (matched : Option String) (hinput : sent.isInput = true)
    (hcall : s.driver.call P x.1 x.2 = s.driver.input P sent matched x.2)
    (hafter : ∀ sents ended, s.expects.after P x sents ended =
      s.expects.afterInput x.2.focused sents ended)
    (haims : x.1.aims P x.2.first = true) (hs : Agrees s) (hcalm : Calm P s x) :
    Guarded P s x ∧ Agrees (step P s x) := by
  obtain ⟨hguarded, hagrees⟩ := input_agrees matched hinput hs (hcalm.1 haims)
  constructor
  · rintro ⟨sent', hsent', -⟩
    rw [hcall] at hsent'
    exact hguarded (List.ne_nil_of_mem hsent')
  · rw [step, hcall, hafter]
    exact hagrees

/-- **One call**, calm: its inputs are guarded, and the driver expects what is expected. -/
theorem calm_step (hs : Agrees s) (hcalm : Calm P s x) : Guarded P s x ∧ Agrees (step P s x) := by
  obtain ⟨c, r⟩ := x
  cases c with
  | focusWindow title wmClass =>
    cases hfind : Driver.findWindow P title wmClass r.first.windows with
    | none =>
      refine idle_step .failed ?_ (afterInput_nil fun _ _ h => nomatch h) hs
      simp only [Driver.call, hfind]
    | some w =>
      cases hdeny : Driver.denyCheck P w with
      | some ended =>
        have hcall : s.driver.call P (.focusWindow title wmClass) r = (s.driver, [], ended) := by
          simp only [Driver.call, hfind, hdeny]
        rcases Driver.denyCheck_eq_some hdeny with rfl | rfl
        · exact idle_step _ hcall (afterInput_nil fun _ _ h => nomatch h) hs
        · exact idle_step _ hcall (afterInput_nil fun _ _ h => nomatch h) hs
      | none =>
        have hcall : s.driver.call P (.focusWindow title wmClass) r = Driver.action (.activate w) r
            (fun d => ({ d with expectedFocus := some w }, .ok (some w.title))) s.driver := by
          simp only [Driver.call, hfind, hdeny]
        have hsent : ((Driver.action (.activate w) r
            (fun d => ({ d with expectedFocus := some w }, .ok (some w.title))) s.driver).2.1) =
              [.activate w] := by
          unfold Driver.action
          dsimp only
          split_ifs <;> rfl
        refine ⟨guarded_of_not_sent fun sent hmem => ?_, ?_⟩
        · rw [hcall, hsent] at hmem
          rw [List.mem_singleton.mp hmem]
          rfl
        · rw [step, hcall]
          by_cases hacts : r.acts = true
          · simp only [Driver.action, if_pos hacts, Expects.after, hfind, Option.elim_some]
            exact ⟨w, rfl, rfl⟩
          · -- the focus is where it was
            simp only [Driver.action, if_neg hacts, Expects.after]
            have hraised : NotChanged .raised := fun _ _ h => nomatch h
            rw [afterInput_of_no_input hraised rfl]
            exact hs
  | click text image target px py button count =>
    cases hlocate : Driver.locate P text image target px py r.first with
    | found p label =>
      refine input_step (.click p button count) (some label) rfl ?_
        (fun _ _ => rfl) ?_ hs hcalm
      · simp only [Driver.call, hlocate]
      · simp only [Call.aims, hlocate]
    | missing =>
      refine idle_step .failed ?_ (afterInput_nil fun _ _ h => nomatch h) hs
      simp only [Driver.call, hlocate]
    | stopped =>
      refine idle_step (.stopped .coordinates) ?_ (afterInput_nil fun _ _ h => nomatch h) hs
      simp only [Driver.call, hlocate]
    | raised =>
      refine idle_step .raised ?_ (afterInput_nil fun _ _ h => nomatch h) hs
      simp only [Driver.call, hlocate]
  | typeText text => exact input_step _ _ rfl rfl (fun _ _ => rfl) rfl hs hcalm
  | key press => exact input_step _ _ rfl rfl (fun _ _ => rfl) rfl hs hcalm
  | scroll direction amount =>
    by_cases hdirection : direction ∈ ["up", "down", "left", "right"]
    · refine input_step (.scroll direction amount) none rfl ?_
        (fun _ _ => rfl) (decide_eq_true hdirection) hs hcalm
      simp only [Driver.call, if_pos hdirection]
    · refine idle_step .failed ?_ (afterInput_nil fun _ _ h => nomatch h) hs
      simp only [Driver.call, if_neg hdirection]
  | waitFor window text image =>
    cases window with
    | none =>
      obtain ⟨ended, hwait, hended⟩ := Driver.waitFor_none (P := P) (d := s.driver) (r := r) text
        image r.looks
      rcases hended with rfl | ⟨matched, rfl⟩
      · exact idle_step _ hwait (afterInput_nil fun _ _ h => nomatch h) hs
      · refine ⟨guarded_of_not_sent fun sent hmem => ?_, ?_⟩
        · rw [Driver.call, hwait] at hmem
          cases hmem
        · have hstep : step P s (.waitFor none text image, r) =
              ⟨s.driver, s.expects.after P (.waitFor none text image, r) [] (.ok matched)⟩ := by
            rw [step, Driver.call, hwait]
          rw [hstep]
          unfold Agrees at hs ⊢
          cases hexpects : s.expects with
          | anything =>
            rw [hexpects] at hs
            exact hs
          | window e =>
            rw [hexpects] at hs
            exact hs
          | nothing =>
            rw [hexpects] at hs
            exact hs
    | some wanted =>
      have hwait := Driver.waitFor_window (P := P) (d := s.driver) (r := r) wanted text image r.looks
      cases hfound : r.looks.findSome? fun look =>
          Driver.findWindow P (some wanted) none look.windows with
      | none =>
        rw [hfound] at hwait
        exact idle_step _ hwait (afterInput_nil fun _ _ h => nomatch h) hs
      | some found =>
        rw [hfound] at hwait
        dsimp only at hwait
        cases hdeny : Driver.denyCheck P found with
        | some ended =>
          rw [hdeny] at hwait
          rcases Driver.denyCheck_eq_some hdeny with rfl | rfl
          · exact idle_step _ hwait (afterInput_nil fun _ _ h => nomatch h) hs
          · exact idle_step _ hwait (afterInput_nil fun _ _ h => nomatch h) hs
        | none =>
          rw [hdeny] at hwait
          refine ⟨guarded_of_not_sent fun sent hmem => ?_, ?_⟩
          · rw [Driver.call, hwait] at hmem
            cases hmem
          · have hstep : step P s (.waitFor (some wanted) text image, r) =
                ⟨{ s.driver with expectedFocus := some (r.focused.getD found) }, .window found⟩ := by
              rw [step, Driver.call, hwait]
              simp only [Expects.after, hfound, Option.elim_some]
            rw [hstep]
            refine ⟨_, rfl, ?_⟩
            cases hfocused : r.focused with
            | none => rfl
            | some w => exact hcalm.2 wanted text image rfl w hfocused found hfound
  | screenshot => exact idle_step _ rfl (afterInput_nil fun _ _ h => nomatch h) hs
  | assertVisible text image =>
    by_cases hvisible : ((text.any fun text => (r.first.findText text).isSome) ||
        image.any fun image => (r.first.findImage image).isSome) = true
    · refine idle_step (.ok ((text.filter (· ≠ "")).or image)) ?_
        (afterInput_nil fun _ _ h => nomatch h) hs
      simp only [Driver.call, if_pos hvisible]
    · refine idle_step .failed ?_ (afterInput_nil fun _ _ h => nomatch h) hs
      simp only [Driver.call, if_neg hvisible]

/-- **The focus guard** holds in every run of calls that are calm. -/
theorem guarded_of_calm (P : Policy) (steps : List Step) (h : Runs.Meets (step P) (Calm P) {} steps) :
    Runs.Meets (step P) (Guarded P) {} steps :=
  h.imp (I := Agrees) rfl fun _ _ hs hcalm => calm_step hs hcalm

end Watched

/-! ## Inputs that go elsewhere -/

/-- Texts are compared as they are; no window is denied. -/
def plain : Policy where
  lower text := text
  search _ _ := some false

def login : Window := { id := "101", title := "Login" }

def update : Window := { id := "102", title := "Update available" }

/-- Both windows are open, and one of them has the focus. -/
def shown (focused : Option Window) : Report where
  looks := [{ windows := [login, update] }]
  focused := focused

theorem guarded_of_calm_login :
    Runs.Meets (Watched.step plain) (Watched.Guarded plain) {}
      [(.focusWindow (some "Login") none, shown none), (.typeText "root", shown (some login))] := by
  refine Watched.guarded_of_calm plain _ (Runs.meets_cons.mpr ⟨?_, Runs.meets_cons.mpr ⟨?_,
    Runs.meets_nil⟩⟩)
  · exact ⟨(fun h => nomatch h), fun _ _ _ h => nomatch h⟩
  · exact ⟨fun _ => ⟨login, rfl, fun h => nomatch h⟩, fun _ _ _ h => nomatch h⟩

/-- Text is typed with no focus reported, after a stop, and into a window that was not the one
    waited for. -/
theorem unguarded_inputs :
    ¬ Runs.Meets (Watched.step plain) (Watched.Guarded plain) {}
      [(.focusWindow (some "Login") none, shown none), (.typeText "root", shown none)] ∧
    ¬ Runs.Meets (Watched.step plain) (Watched.Guarded plain) {}
      [(.focusWindow (some "Login") none, shown none), (.key "Tab", shown (some update)),
        (.typeText "root", shown (some update))] ∧
    ¬ Runs.Meets (Watched.step plain) (Watched.Guarded plain) {}
      [(.waitFor (some "Login") none none, shown (some update)),
        (.typeText "root", shown (some update))] := by
  refine ⟨fun h => ?_, fun h => ?_, fun h => ?_⟩
  · obtain ⟨w, hw, -⟩ := (Runs.meets_cons.mp (Runs.meets_cons.mp h).2).1
      ⟨.typeText "root", List.mem_cons_self, rfl⟩
    cases hw
  · obtain ⟨w, -, -, hallowed⟩ :=
      (Runs.meets_cons.mp (Runs.meets_cons.mp (Runs.meets_cons.mp h).2).2).1
        ⟨.typeText "root", List.mem_cons_self, rfl⟩
    exact hallowed
  · obtain ⟨w, hw, -, hallowed⟩ := (Runs.meets_cons.mp (Runs.meets_cons.mp h).2).1
      ⟨.typeText "root", List.mem_cons_self, rfl⟩
    obtain rfl := Option.some.inj hw
    have hsame : update.id = login.id := hallowed
    exact absurd hsame (by decide)

end Screen

end Slas
