/-
  Slas.Validation.PowerOnce

  At most one power action per cycle, whatever the crashes, and what a reported
  boot says about the power actions.

  The record of a cycle has one of two shapes.  Before its ACT line is on disk
  there are only beginnings; after it there is the line, a prefix of the power
  actions of its mode, and then observations.  The prefix is proper only when
  the attempt that journalled the line ended before its last power call, and
  then the next event is a new beginning.
-/

import Slas.Validation.Frame

namespace Slas

open Crash

/-! ## The shape of a record -/

/-- An event that moves nothing. -/
def CycleEvent.observes : CycleEvent → Prop
  | .begun | .waited | .reported _ => True
  | .acted _ | .power _ => False

/-- No ACT line yet: there are only beginnings. -/
def BeforeAct (F : CycleFile) (R : List CycleEvent) : Prop :=
  (∀ e ∈ R, e = .begun) ∧ .act ∉ F.phases

/-- A record past the ACT line of `a`, of which the actions `ps` were issued. -/
structure PastAct (a : PowerAction) (ps : List PowerAction) (rest : List CycleEvent)
    (F : CycleFile) (R : List CycleEvent) : Prop where
  split : ∃ pre, (∀ e ∈ pre, e = .begun) ∧ R = pre ++ .acted a :: (ps.map .power ++ rest)
  issued : ps <+: powerActions a
  observed : ∀ e ∈ rest, e.observes
  is_sealed : F.Sealed

/-- The actions are issued, or the attempt ended and another one began. -/
def AtRest (a : PowerAction) (ps : List PowerAction) (rest : List CycleEvent) : Prop :=
  ps = powerActions a ∨ rest.head? = some .begun

variable {A : PowerAction → Prop} {F : CycleFile} {R : List CycleEvent}

/-- ACT is over, with an action that `A` admits. -/
def AfterAct (A : PowerAction → Prop) (F : CycleFile) (R : List CycleEvent) : Prop :=
  ∃ a ps rest, A a ∧ PastAct a ps rest F R ∧ AtRest a ps rest

/-- The records a cycle may have: the invariant. -/
def Course (A : PowerAction → Prop) (F : CycleFile) (R : List CycleEvent) : Prop :=
  BeforeAct F R ∨ ∃ a ps rest, A a ∧ PastAct a ps rest F R ∧ (AtRest a ps rest ∨ rest = [])

theorem AfterAct.course (h : AfterAct A F R) : Course A F R := by
  obtain ⟨a, ps, rest, ha, hpast, hrest⟩ := h
  exact .inr ⟨a, ps, rest, ha, hpast, .inl hrest⟩

theorem AtRest.append {a : PowerAction} {ps : List PowerAction} {rest : List CycleEvent}
    (h : AtRest a ps rest) (e : CycleEvent) : AtRest a ps (rest ++ [e]) := by
  rcases h with h | h
  · exact .inl h
  · cases rest with
    | nil => cases h
    | cons x xs => exact .inr h

theorem PastAct.append {a : PowerAction} {ps : List PowerAction} {rest : List CycleEvent}
    (h : PastAct a ps rest F R) {e : CycleEvent} (he : e.observes) :
    PastAct a ps (rest ++ [e]) F (R ++ [e]) where
  split := by
    obtain ⟨pre, hpre, rfl⟩ := h.split
    exact ⟨pre, hpre, by simp⟩
  issued := h.issued
  observed := by
    intro x hx
    rcases List.mem_append.mp hx with hx | hx
    · exact h.observed x hx
    · obtain rfl := List.mem_singleton.mp hx
      exact he
  is_sealed := h.is_sealed

theorem AfterAct.append (h : AfterAct A F R) {e : CycleEvent} (he : e.observes) :
    AfterAct A F (R ++ [e]) := by
  obtain ⟨a, ps, rest, ha, hpast, hrest⟩ := h
  exact ⟨a, ps, rest ++ [e], ha, hpast.append he, hrest.append e⟩

theorem BeforeAct.append (h : BeforeAct F R) : BeforeAct F (R ++ [.begun]) := by
  refine ⟨fun e he => ?_, h.2⟩
  rcases List.mem_append.mp he with he | he
  · exact h.1 e he
  · exact List.mem_singleton.mp he

/-- A new attempt finds ACT not journalled or over. -/
theorem Course.begin (h : Course A F R) :
    BeforeAct F (R ++ [.begun]) ∨ AfterAct A F (R ++ [.begun]) := by
  rcases h with h | ⟨a, ps, rest, ha, hpast, hrest⟩
  · exact .inl h.append
  · refine .inr ⟨a, ps, rest ++ [.begun], ha, hpast.append (show CycleEvent.begun.observes from trivial), ?_⟩
    rcases hrest with hrest | rfl
    · exact hrest.append _
    · exact .inr rfl

theorem PastAct.mono {a : PowerAction} {ps : List PowerAction} {rest : List CycleEvent}
    {F' : CycleFile} (h : PastAct a ps rest F R) (hsealed : F'.Sealed) : PastAct a ps rest F' R :=
  { h with is_sealed := hsealed }

/-! ## Facts a journal line of another phase keeps -/

/-- `P` is a fact about a file and a record that survives the three writes of a
    line other than ACT, and that allows the process to die. -/
structure Steady (A : PowerAction → Prop) (P : CycleFile → List CycleEvent → Prop) : Prop where
  course : ∀ F R, P F R → Course A F R
  startLine : ∀ F R, P F R → P F.startLine R
  finishLine : ∀ F R e, e.phase ≠ .act → P F R → P (F.finishLine e) R
  newline : ∀ F R, P F R → P F.newline R

theorem CycleFile.phases_startLine (F : CycleFile) : F.startLine.phases = F.phases := rfl

theorem CycleFile.phases_newline (F : CycleFile) : F.newline.phases = F.phases := by
  unfold CycleFile.newline
  split <;> rfl

theorem CycleFile.act_mem_finishLine {e : PhaseEntry} (he : e.phase ≠ .act) :
    .act ∈ (F.finishLine e).phases ↔ .act ∈ F.phases := by
  unfold CycleFile.finishLine
  split
  · simp [CycleFile.phases, Ne.symm he]
  · rfl

theorem steady_before (A : PowerAction → Prop) : Steady A BeforeAct where
  course _ _ h := .inl h
  startLine F _ h := ⟨h.1, F.phases_startLine ▸ h.2⟩
  finishLine _ _ _ he h := ⟨h.1, mt (CycleFile.act_mem_finishLine he).mp h.2⟩
  newline F _ h := ⟨h.1, F.phases_newline ▸ h.2⟩

theorem steady_after (A : PowerAction → Prop) : Steady A (AfterAct A) where
  course _ _ h := h.course
  startLine F R h := by
    obtain ⟨a, ps, rest, ha, hpast, hrest⟩ := h
    exact ⟨a, ps, rest, ha, hpast.mono hpast.is_sealed.startLine, hrest⟩
  finishLine F R e _ h := by
    obtain ⟨a, ps, rest, ha, hpast, hrest⟩ := h
    exact ⟨a, ps, rest, ha, hpast.mono (hpast.is_sealed.finishLine e), hrest⟩
  newline F R h := by
    obtain ⟨a, ps, rest, ha, hpast, hrest⟩ := h
    exact ⟨a, ps, rest, ha, hpast.mono hpast.is_sealed.newline, hrest⟩

/-- ACT is under way: its actions `ps` were issued. -/
def MidAct (A : PowerAction → Prop) (a : PowerAction) (ps : List PowerAction) (F : CycleFile)
    (R : List CycleEvent) : Prop :=
  A a ∧ PastAct a ps [] F R

theorem MidAct.course {a : PowerAction} {ps : List PowerAction} (h : MidAct A a ps F R) :
    Course A F R :=
  .inr ⟨a, ps, [], h.1, h.2, .inr rfl⟩

theorem MidAct.after {a : PowerAction} (h : MidAct A a (powerActions a) F R) : AfterAct A F R :=
  ⟨a, powerActions a, [], h.1, h.2, .inl rfl⟩

theorem MidAct.issue {a p : PowerAction} {ps : List PowerAction} (h : MidAct A a ps F R)
    (hp : ps ++ [p] <+: powerActions a) : MidAct A a (ps ++ [p]) F (R ++ [.power p]) := by
  refine ⟨h.1, { split := ?_, issued := hp, observed := by simp, is_sealed := h.2.is_sealed }⟩
  obtain ⟨pre, hpre, rfl⟩ := h.2.split
  exact ⟨pre, hpre, by simp⟩

/-- The ACT line, after beginnings only, and in a file that it seals. -/
theorem midAct_of_sealed {a : PowerAction} (hR : ∀ e ∈ R, e = .begun) (ha : A a)
    (hsealed : F.Sealed) : MidAct A a [] F (R ++ [.acted a]) :=
  ⟨ha, { split := ⟨R, hR, rfl⟩, issued := by simp, observed := by simp, is_sealed := hsealed }⟩

/-! ## The world -/

section World

variable {Snap : Type} {X : ValidationExecutor Snap} {c : CycleCall}

/-- Every cycle of every ticket has a course, with actions that `A` admits. -/
def Lawful (A : String → Nat → PowerAction → Prop) (w : Bench Snap) : Prop :=
  ∀ t n, Course (A t n) (w.journals t n) (w.record t n)

/-- `P` of the cycle of the call, and a course for every other one. -/
def During (A : String → Nat → PowerAction → Prop) (c : CycleCall)
    (P : CycleFile → List CycleEvent → Prop) (w : Bench Snap) : Prop :=
  P (w.journals c.ticketId c.n) (w.record c.ticketId c.n) ∧
    ∀ t n, ¬ (t = c.ticketId ∧ n = c.n) → Course (A t n) (w.journals t n) (w.record t n)

variable {A : String → Nat → PowerAction → Prop} {P P' : CycleFile → List CycleEvent → Prop}
  {w : Bench Snap}

theorem During.mono (h : During A c P w) (hP : ∀ F R, P F R → P' F R) : During A c P' w :=
  ⟨hP _ _ h.1, h.2⟩

theorem During.lawful (h : During A c P w) (hP : ∀ F R, P F R → Course (A c.ticketId c.n) F R) :
    Lawful A w := by
  intro t n
  by_cases hc : t = c.ticketId ∧ n = c.n
  · obtain ⟨rfl, rfl⟩ := hc
    exact hP _ _ h.1
  · exact h.2 t n hc

theorem Lawful.during (h : Lawful A w) (c : CycleCall) :
    During A c (Course (A c.ticketId c.n)) w :=
  ⟨h _ _, fun t n _ => h t n⟩

theorem During.editJournal (h : During A c P w) {g : CycleFile → CycleFile}
    (hg : ∀ F R, P F R → P' (g F) R) : During A c P' (w.editJournal c.ticketId c.n g) := by
  refine ⟨?_, fun t n hne => ?_⟩
  · simp only [Bench.editJournal, update₂_self]
    exact hg _ _ h.1
  · simp only [Bench.editJournal, update₂_of_ne hne]
    exact h.2 t n hne

theorem During.log (h : During A c P w) {e : CycleEvent}
    (he : ∀ F R, P F R → P' F (R ++ [e])) : During A c P' (w.log c.ticketId c.n e) := by
  refine ⟨?_, fun t n hne => ?_⟩
  · simp only [Bench.log, update₂_self]
    exact he _ _ h.1
  · simp only [Bench.log, update₂_of_ne hne]
    exact h.2 t n hne

theorem During.survives (A : String → Nat → PowerAction → Prop) (c : CycleCall)
    (P : CycleFile → List CycleEvent → Prop) (t m : String) :
    Survives X t m (During A c P) where
  called _ h := h
  tick _ h := h
  touch _ _ h := h
  baselines _ _ h := h

theorem Steady.lawful (hP : Steady (A c.ticketId c.n) P) (w : Bench Snap) (h : During A c P w) :
    Lawful A w :=
  h.lawful hP.course

theorem Steady.weaken {α : Type} {p : BenchM Snap α} (hP : Steady (A c.ticketId c.n) P)
    (h : Preserves (During A c P) p) :
    Triple (During A c P) p (fun _ => During A c P) (Lawful A) :=
  Triple.weaken h hP.lawful

section Keep

variable (hP : Steady (A c.ticketId c.n) P)

include hP

open Preserves in
/-- A line of another phase. -/
theorem Steady.append {phase : Phase} (hphase : phase ≠ .act) (detail : List (String × Json)) :
    Preserves (During A c P) (X.append c phase detail none) := by
  refine bind (quiet fun _ h => h) fun at_ => ?_
  refine bind (write fun _ h => h.editJournal hP.startLine) fun _ => ?_
  refine bind (write fun _ h => ?_) fun _ => write fun _ h => h.editJournal hP.newline
  exact h.editJournal fun F R => hP.finishLine F R _ hphase

open Preserves in
theorem Steady.arm (done : List Phase) : Preserves (During A c P) (X.arm c done) := by
  unfold ValidationExecutor.arm
  split
  · exact pure ()
  · exact hP.append (by decide) _

open Preserves in
theorem Steady.quiesce (done : List Phase) : Preserves (During A c P) (X.quiesce c done) := by
  have hcall := During.survives (X := X) A c P c.ticketId c.target
  unfold ValidationExecutor.quiesce
  split
  · exact pure ()
  · refine bind (callHal hcall _) fun _ => bind (callHal hcall _) fun before => ?_
    refine bind (write fun _ h => h) fun _ => bind (callHal hcall _) fun _ => ?_
    exact hP.append (by decide) _

end Keep

/-! ## The phases -/

/-- One power action of those that are still to come. -/
theorem power_spec {a p : PowerAction} {ps : List PowerAction}
    (hp : ps ++ [p] <+: powerActions a) :
    Triple (During A c (MidAct (A c.ticketId c.n) a ps)) (X.power c p)
      (fun _ => During A c (MidAct (A c.ticketId c.n) a (ps ++ [p]))) (Lawful A) := by
  apply Triple.effect fun w h => h.lawful fun _ _ hact => hact.course
  · intro w _ w' h hf
    obtain ⟨-, rfl⟩ := Prod.mk.inj hf
    exact h.log fun F R hact => hact.issue hp
  · intro w e w' h hf
    obtain ⟨-, rfl⟩ := Prod.mk.inj hf
    exact (h.log fun F R hact => hact.issue hp).lawful fun _ _ hact => hact.course

theorem powerOn_spec {a : PowerAction} :
    Triple (During A c (MidAct (A c.ticketId c.n) a [a])) (X.powerOn c a)
      (fun _ => During A c (AfterAct (A c.ticketId c.n))) (Lawful A) := by
  unfold ValidationExecutor.powerOn
  split
  · rename_i hoff
    subst hoff
    exact (power_spec (by simp [powerActions])).conseq (fun _ h => h)
      (fun _ _ h => h.mono fun _ _ hact => hact.after) (fun _ h => h)
  · rename_i hoff
    exact Triple.pure fun w h => h.mono fun F R hact =>
      MidAct.after (a := a) (by rwa [powerActions, if_neg hoff])

/-- The ACT line, written in three pieces: with the second one the cycle counts
    as acted, and the file is sealed. -/
theorem appendAct_spec {a : PowerAction} (ha : A c.ticketId c.n a)
    (detail : List (String × Json)) :
    Triple (During A c BeforeAct) (X.append c .act detail (some a))
      (fun _ => During A c (MidAct (A c.ticketId c.n) a [])) (Lawful A) := by
  have hbefore := steady_before (A c.ticketId c.n)
  apply Triple.bind (M := fun _ => During A c BeforeAct)
  · exact Triple.quiet fun _ h => h
  intro at_
  apply Triple.bind (M := fun _ =>
    During A c fun F R => BeforeAct F R ∧ (F.tail = .torn ∨ F.tail = .broken))
  · exact Triple.write hbefore.lawful fun w h =>
      h.editJournal fun F R hb => ⟨hbefore.startLine F R hb, F.tail_startLine⟩
  intro _
  apply Triple.bind (M := fun _ => During A c (MidAct (A c.ticketId c.n) a []))
  · apply Triple.write
    · exact fun w h => h.lawful fun _ _ hb => .inl hb.1
    · intro w h
      have hline : During A c (fun F R => (∀ e ∈ R, e = .begun) ∧ F.Sealed)
          (w.editJournal c.ticketId c.n (·.finishLine ⟨.act, at_, detail⟩)) :=
        h.editJournal fun F R hb => ⟨hb.1.1, CycleFile.sealed_finishLine hb.2 rfl⟩
      exact hline.log fun F R hb => midAct_of_sealed hb.1 ha hb.2
  intro _
  refine Triple.write (fun w h => h.lawful fun _ _ hact => hact.course) fun w h => ?_
  exact h.editJournal fun F R hact => ⟨hact.1, hact.2.mono hact.2.is_sealed.newline⟩

/-- What an attempt knows of its cycle from the phases it read. -/
def ActKnown (A : PowerAction → Prop) (done : List Phase) : CycleFile → List CycleEvent → Prop :=
  if .act ∈ done then AfterAct A else BeforeAct

theorem steady_actKnown (A : PowerAction → Prop) (done : List Phase) : Steady A (ActKnown A done) := by
  unfold ActKnown
  split
  · exact steady_after A
  · exact steady_before A

/-- The actions of the mode of the call are admitted. -/
def Admits (A : String → Nat → PowerAction → Prop) (c : CycleCall) : Prop :=
  ∀ a, powerActionFor c.kind = some a → A c.ticketId c.n a

theorem act_spec (hc : Admits A c) (done : List Phase) :
    Triple (During A c (ActKnown (A c.ticketId c.n) done)) (X.act c done)
      (fun _ => During A c (AfterAct (A c.ticketId c.n))) (Lawful A) := by
  unfold ValidationExecutor.act ActKnown
  by_cases hdone : .act ∈ done
  · rw [if_pos (List.contains_iff_mem.mpr hdone), if_pos hdone]
    exact Triple.pure fun _ h => h
  · rw [if_neg (mt List.contains_iff_mem.mp hdone), if_neg hdone]
    split
    · exact Triple.raise fun w h => (steady_before _).lawful w h
    · rename_i a ha
      refine Triple.bind (appendAct_spec (hc a ha) _) fun _ => ?_
      exact Triple.bind (power_spec (by unfold powerActions; split <;> simp_all)) fun _ =>
        powerOn_spec

/-- A readable file without an ACT line is one of a cycle that was not acted. -/
theorem actKnown_of_readable {A : PowerAction → Prop} {F : CycleFile} {R : List CycleEvent}
    (h : BeforeAct F R ∨ AfterAct A F R) (hread : F.readable = true) : ActKnown A F.phases F R := by
  unfold ActKnown
  split
  · rename_i hact
    exact h.resolve_left fun hb => hb.2 hact
  · rename_i hact
    refine h.resolve_right ?_
    rintro ⟨a, ps, rest, -, hpast, -⟩
    exact CycleFile.not_sealed hread hact hpast.is_sealed

theorem done_spec :
    Triple (During A c fun F R => BeforeAct F R ∨ AfterAct (A c.ticketId c.n) F R)
      (ValidationExecutor.done c : BenchM Snap (List Phase))
      (fun done => During A c (ActKnown (A c.ticketId c.n) done)) (Lawful A) := by
  apply Triple.bind (M := fun file w =>
    During A c (fun F R => BeforeAct F R ∨ AfterAct (A c.ticketId c.n) F R) w ∧
      file = w.journals c.ticketId c.n)
  · exact Triple.look fun w h => ⟨h, rfl⟩
  intro file
  split
  · rename_i hread
    apply Triple.pure
    rintro w ⟨h, rfl⟩
    exact ⟨actKnown_of_readable h.1 hread, h.2⟩
  · exact Triple.raise fun w h => h.1.lawful fun F R hend => hend.elim .inl AfterAct.course

/-- An observation after ACT. -/
theorem log_preserves {e : CycleEvent} (he : e.observes) :
    Preserves (During A c (AfterAct (A c.ticketId c.n)))
      (Prog.quiet fun w : Bench Snap => ((), w.log c.ticketId c.n e) : BenchM Snap Unit) :=
  Preserves.quiet fun _ h => h.log fun _ _ hend => hend.append he

open Preserves in
theorem settle_preserves : Preserves (During A c (AfterAct (A c.ticketId c.n))) (X.settle c) := by
  have hafter := steady_after (A c.ticketId c.n)
  refine bind (log_preserves trivial) fun _ => ?_
  refine bind (callHal (During.survives A c _ _ _) _) fun booted => ?_
  exact bind (quiet fun _ h => h) fun _ => bind (hafter.append (by decide) _) fun _ => pure booted

open Preserves in
theorem verify_preserves (baseline : Snap) (booted : Bool) :
    Preserves (During A c (AfterAct (A c.ticketId c.n))) (X.verify c baseline booted) := by
  have hafter := steady_after (A c.ticketId c.n)
  unfold ValidationExecutor.verify
  split
  · refine bind (callHal (During.survives A c _ _ _) _) fun snapshot => ?_
    refine bind (write fun _ h => h) fun _ => ?_
    exact bind (hafter.append (by decide) _) fun _ => pure _
  · exact bind (hafter.append (by decide) _) fun _ => pure none

/-- One attempt at a cycle keeps every record lawful, wherever it ends. -/
theorem runCycle_lawful (hc : Admits A c) (baseline : Snap) :
    Triple (Lawful A) (X.runCycle c baseline) (fun _ => Lawful A) (Lawful A) := by
  have hafter := steady_after (A c.ticketId c.n)
  apply Triple.bind (M := fun _ =>
    During A c fun F R => BeforeAct F R ∨ AfterAct (A c.ticketId c.n) F R)
  · exact Triple.quiet fun w h => (h.during c).log fun F R => Course.begin
  intro _
  refine Triple.bind done_spec fun done => ?_
  have hknown := steady_actKnown (A c.ticketId c.n) done
  refine Triple.bind (hknown.weaken (hknown.arm done)) fun _ => ?_
  refine Triple.bind (hknown.weaken (hknown.quiesce done)) fun _ => ?_
  refine Triple.bind (act_spec hc done) fun _ => ?_
  refine Triple.conseq (Q := fun _ => During A c (AfterAct (A c.ticketId c.n)))
    (hafter.weaken ?_) (fun _ h => h) (fun _ w h => hafter.lawful w h) (fun _ h => h)
  -- what is left only observes
  refine Preserves.bind settle_preserves fun booted => ?_
  refine Preserves.bind (verify_preserves baseline booted) fun diff => ?_
  refine Preserves.bind (Preserves.callHal (During.survives A c _ _ _) _) fun _ => ?_
  refine Preserves.bind (Preserves.write fun _ h => h) fun _ => ?_
  exact Preserves.bind (log_preserves trivial) fun _ => Preserves.pure _

/-! ## The steps and the lives of the process -/

theorem lawful_survives (A : String → Nat → PowerAction → Prop) (t m : String) :
    Survives X t m (Lawful A) where
  called _ h := h
  tick _ h := h
  touch _ _ h := h
  baselines _ _ h := h

open Preserves in
theorem concludeCycle_lawful (s : RunState) (result : CycleResult) :
    Preserves (Lawful A) (X.concludeCycle c s result) := by
  refine bind (ofExcept _) fun findings => bind (ofExcept _) fun gated => ?_
  refine bind (write fun _ h => h) fun _ => ?_
  exact bind (callHal (lawful_survives A _ _) _) fun _ => pure _

/-- An action of the mode of a step that is sent for the cycle. -/
def ActionOf (rs : List (Request Snap)) (t : String) (n : Nat) (a : PowerAction) : Prop :=
  ∃ r ∈ rs, r.step.primitive = "power_cycle" ∧ r.context.ticketId = t ∧
    r.executor.cycleOf r.step = .ok (n : Int) ∧ powerActionFor (r.executor.kindOf r.step) = some a

open Preserves in
theorem powerCycle_lawful {step : Step} {context : ExecutionContext}
    (hA : ∀ n : Nat, X.cycleOf step = .ok (n : Int) → ∀ a,
      powerActionFor (X.kindOf step) = some a → A context.ticketId n a) (target : String) :
    Preserves (Lawful A) (X.powerCycle step context target) := by
  apply Triple.bind (M := fun n w => X.cycleOf step = .ok n ∧ Lawful A w)
  · exact Triple.ofExcept (fun n hn w h => ⟨hn, h⟩) fun _ h => h
  refine fun n => Triple.assume fun hn => ?_
  refine bind (ofExcept _) fun total => bind (quiet fun _ h => h) fun s => ?_
  split
  · exact pure _
  · split
    · rename_i hpos
      refine bind (write fun _ h => h) fun _ => bind (ofExcept _) fun settleS => ?_
      refine bind (bind (look _) fun b => ?_) fun baseline => ?_
      · split
        · exact pure _
        · exact raise _
      · refine bind (runCycle_lawful (fun a ha => ?_) baseline) fun result => ?_
        · exact hA n.toNat (by rw [hn, Int.toNat_of_nonneg (by omega)]) a ha
        · exact concludeCycle_lawful _ result
    · exact raise _

open Preserves in
theorem request_lawful {rs : List (Request Snap)} {r : Request Snap} (hr : r ∈ rs) :
    Preserves (Lawful (ActionOf rs)) r.prog := by
  refine bind (quiet fun w h => ?_) fun _ => bind (Triple.attempt ?_) fun _ => quiet fun _ h => h
  · show Lawful _ (w.begin r.restarted)
    unfold Bench.begin
    split <;> exact h
  · refine execute_preserves (fun _ => lawful_survives _ _ _) (fun _ _ h => h) fun hcycle target => ?_
    exact powerCycle_lawful (fun n hn a ha => ⟨r, hr, hcycle, rfl, hn, ha⟩) target

/-- The run lemma: in every session, each cycle has a course. -/
theorem session_lawful (rs : List (Request Snap × Nat)) :
    Lawful (ActionOf (rs.map (·.1))) (session Request.prog {} rs) := by
  have htrivial : Starts Request.prog (fun _ _ => True) ({} : Bench Snap) rs :=
    Starts.trivial _ rs
  have hstarts : Starts Request.prog (fun (r : Request Snap) _ => r ∈ rs.map (·.1)) {} rs :=
    htrivial.mono fun r hr _ _ => List.mem_map_of_mem hr
  refine session_invariant ?_ hstarts fun t n => .inl ⟨?_, ?_⟩
  · exact fun r w hr h => (request_lawful hr).world_sat h r.2
  · intro e he
    cases he
  · intro hact
    cases hact

end World

/-! ## At most one power action -/

theorem count_power_observes {rest : List CycleEvent} (h : ∀ e ∈ rest, e.observes)
    (p : PowerAction) : rest.count (.power p) = 0 := by
  refine List.count_eq_zero.mpr fun hmem => ?_
  exact h _ hmem

theorem count_power_begun {pre : List CycleEvent} (h : ∀ e ∈ pre, e = .begun) (p : PowerAction) :
    pre.count (.power p) = 0 := by
  refine List.count_eq_zero.mpr fun hmem => ?_
  cases h _ hmem

/-- The actions of a mode are different ones. -/
theorem powerActions_count (a p : PowerAction) : (powerActions a).count p ≤ 1 := by
  cases a <;> cases p <;> decide

theorem count_map_power (ps : List PowerAction) (p : PowerAction) :
    (ps.map CycleEvent.power).count (.power p) = ps.count p := by
  induction ps with
  | nil => rfl
  | cons q ps ih =>
    rw [List.map_cons, List.count_cons, List.count_cons, ih]
    simp

theorem Course.count_power {A : PowerAction → Prop} {F : CycleFile} {R : List CycleEvent}
    (h : Course A F R) (p : PowerAction) : R.count (.power p) ≤ 1 := by
  rcases h with h | ⟨a, ps, rest, -, hpast, -⟩
  · rw [count_power_begun h.1]
    omega
  · obtain ⟨pre, hpre, rfl⟩ := hpast.split
    have hps : ps.count p ≤ (powerActions a).count p := hpast.issued.sublist.count_le p
    have hone := powerActions_count a p
    have hline : ([CycleEvent.acted a] : List CycleEvent).count (.power p) = 0 := by simp
    rw [List.count_append, count_power_begun hpre, ← List.singleton_append, List.count_append,
      hline, List.count_append, count_map_power, count_power_observes hpast.observed]
    omega

/-- A list is split in one way at an element that is nowhere else in it. -/
theorem split_unique {α : Type} {p : α → Prop} {pre pre' post post' : List α} {x x' : α}
    (h : pre ++ x :: post = pre' ++ x' :: post') (hx : p x) (hpre : ∀ y ∈ pre', ¬ p y)
    (hpost : ∀ y ∈ post', ¬ p y) : post = post' := by
  rcases List.append_eq_append_iff.mp h with ⟨as, hpre', hcons⟩ | ⟨bs, -, hcons⟩
  · cases as with
    | nil => exact (List.cons.inj hcons).2
    | cons y as =>
      obtain ⟨rfl, -⟩ := List.cons.inj hcons
      exact absurd hx (hpre x (hpre' ▸ by simp))
  · cases bs with
    | nil => exact (List.cons.inj hcons).2.symm
    | cons y bs =>
      obtain ⟨-, rfl⟩ := List.cons.inj hcons
      exact absurd hx (hpost x (by simp))

/-- After the ACT line, a new attempt at the cycle issues nothing. -/
theorem Course.no_power_again {A : PowerAction → Prop} {F : CycleFile} {R : List CycleEvent}
    (h : Course A F R) {a : PowerAction} {pre mid post : List CycleEvent}
    (hR : R = pre ++ .acted a :: (mid ++ .begun :: post)) (p : PowerAction) :
    .power p ∉ post := by
  rcases h with h | ⟨a', ps, rest, -, hpast, -⟩
  · have hacted : CycleEvent.acted a = .begun := h.1 _ (by rw [hR]; simp)
    cases hacted
  · obtain ⟨pre', hpre', hsplit⟩ := hpast.split
    have hobs := hpast.observed
    have htail : mid ++ .begun :: post = ps.map .power ++ rest := by
      refine split_unique (p := fun e => ∃ b, e = CycleEvent.acted b) (hR ▸ hsplit) ⟨a, rfl⟩ ?_ ?_
      · rintro _ hy ⟨b, rfl⟩
        cases hpre' _ hy
      · rintro _ hy ⟨b, rfl⟩
        rcases List.mem_append.mp hy with hy | hy
        · obtain ⟨q, -, hq⟩ := List.mem_map.mp hy
          cases hq
        · exact hobs _ hy
    -- a beginning is none of the power actions, so what follows it is observed
    rcases List.append_eq_append_iff.mp htail with ⟨as, hps, hcons⟩ | ⟨bs, -, hrest⟩
    · cases as with
      | nil => exact fun hp => hobs (.power p) (by
          rw [← show CycleEvent.begun :: post = rest from hcons]; simp [hp])
      | cons e as =>
        obtain ⟨rfl, -⟩ := List.cons.inj hcons
        have hbegun : CycleEvent.begun ∈ ps.map CycleEvent.power := by rw [hps]; simp
        obtain ⟨q, -, hq⟩ := List.mem_map.mp hbegun
        cases hq
    · exact fun hp => hobs (.power p) (by rw [hrest]; simp [hp])

/-- **One power action per cycle**: in every sequence of requests, each of which
    may be cut at any journal write, file or hardware call, every action is issued
    at most once for a cycle of a ticket, and none after an attempt that follows
    the ACT line. -/
theorem power_at_most_once {Snap : Type} (rs : List (Request Snap × Nat)) (t : String) (n : Nat) :
    (∀ p, ((session Request.prog {} rs).record t n).count (.power p) ≤ 1) ∧
      ∀ a pre mid post,
        (session Request.prog {} rs).record t n = pre ++ .acted a :: (mid ++ .begun :: post) →
          ∀ p, .power p ∉ post := by
  have hcourse := session_lawful rs t n
  exact ⟨hcourse.count_power, fun a pre mid post hR => hcourse.no_power_again hR⟩

/-! ## What a boot says -/

/-- The attempt that journalled the ACT line of `a` ended before its last power
    call; the next one issued nothing. -/
def CutShort (a : PowerAction) (R : List CycleEvent) : Prop :=
  ∃ pre ps rest, R = pre ++ .acted a :: (ps.map .power ++ .begun :: rest) ∧
    ps <+: powerActions a ∧ ps ≠ powerActions a ∧ ∀ p, .power p ∉ rest

theorem Course.booted {A : PowerAction → Prop} {F : CycleFile} {R : List CycleEvent}
    (h : Course A F R) {b : Bool} (hboot : .reported b ∈ R) :
    ∃ a, A a ∧ ((∀ p ∈ powerActions a, .power p ∈ R) ∨ CutShort a R) := by
  rcases h with h | ⟨a, ps, rest, ha, hpast, hrest⟩
  · cases h.1 _ hboot
  · refine ⟨a, ha, ?_⟩
    obtain ⟨pre, hpre, rfl⟩ := hpast.split
    have hmem : .reported b ∈ rest := by
      rcases List.mem_append.mp hboot with hboot | hboot
      · cases hpre _ hboot
      · simpa using hboot
    by_cases hps : ps = powerActions a
    · left
      intro p hp
      simp [hps, hp]
    · right
      rcases hrest with (hall | hbegun) | rfl
      · exact absurd hall hps
      · cases rest with
        | nil => cases hbegun
        | cons e rest =>
          obtain rfl := Option.some.inj hbegun
          refine ⟨pre, ps, rest, rfl, hpast.issued, hps, fun p hp => ?_⟩
          exact hpast.observed (.power p) (List.mem_cons_of_mem _ hp)
      · cases hmem

/-- **A boot was powered**: a cycle that is reported as booted has the ACT line of
    a mode it was asked for, and every power action of the mode was issued, unless
    the attempt that journalled the line ended before its last power call. -/
theorem booted_after_power {Snap : Type} (rs : List (Request Snap × Nat)) (t : String) (n : Nat)
    (hboot : .reported true ∈ (session Request.prog {} rs).record t n) :
    ∃ a, ActionOf (rs.map (·.1)) t n a ∧
      ((∀ p ∈ powerActions a, .power p ∈ (session Request.prog {} rs).record t n) ∨
        CutShort a ((session Request.prog {} rs).record t n)) :=
  (session_lawful rs t n).booted hboot

/-! ### A machine that always boots -/

def steadyHal : Hal Unit where
  ssh _ _ _ _ := .ok { exitCode := 0 }
  sel _ _ := .ok []
  inventory _ _ := .error "no inventory"
  fence _ _ _ := .ok ()
  power _ _ _ := .ok ()
  waitForOs _ _ _ := .ok true
  snapshot _ _ := .ok ()
  consoleOn _ _ := .ok ()
  consoleLines _ _ := .ok []

/-- The snapshots never differ, so no text is made a fingerprint of. -/
def steadyExecutor : ValidationExecutor Unit where
  hal := steadyHal
  guardrails := defaultGuardrails
  clock n := n
  diffSnapshots _ _ _ := {}
  fingerprint _ := ⟨String.ofList (List.replicate 64 '0'), by decide⟩
  upper s := s
  str
    | .str s => s
    | _ => ""
  int
    | .num d => .ok ((d.toInt?).getD 0)
    | _ => .error "int() argument must be a string or a real number"
  repr s := s
  snapshotSentence _ := ""
  snapshotJson _ := ""

def benchContext : ExecutionContext :=
  { ticketId := "T-1", jobId := "J-1", agent := .validation, user := "ana" }

/-- The steps of the demonstrations, with the arguments a plan gives them. -/
def benchStep (primitive : String) (args : List (String × Json)) : Step :=
  { id := "s", n := 1, primitive, title := primitive, args := ("target", .str "m-1") :: args }

def coldCycle : Step :=
  benchStep "power_cycle" [("kind", .str "dc"), ("cycle", .num (.ofNat 1))]

/-- A baseline, and a cycle whose request ends after some effects, or does not;
    then the cycle is sent again. -/
def coldRuns (effects : Nat) : List (Request Unit × Nat) :=
  [({ executor := steadyExecutor, step := benchStep "baseline_snapshot" []
      context := benchContext }, 100),
   ({ executor := steadyExecutor, step := coldCycle, context := benchContext }, effects),
   ({ executor := steadyExecutor, step := coldCycle, context := benchContext }, 100)]

theorem cold_run_booted_after_power :
    ∃ a, ActionOf ((coldRuns 100).map (·.1)) "T-1" 1 a ∧
      ((∀ p ∈ powerActions a,
          .power p ∈ (session Request.prog {} (coldRuns 100)).record "T-1" 1) ∨
        CutShort a ((session Request.prog {} (coldRuns 100)).record "T-1" 1)) :=
  booted_after_power (coldRuns 100) "T-1" 1 (by decide +kernel)

/-- The first attempt ends right after the ACT line, its 14th effect: the cycle is
    reported as booted, and nothing was powered. -/
theorem cut_run_booted_unpowered :
    .reported true ∈ (session Request.prog {} (coldRuns 14)).record "T-1" 1 ∧
      powerActionFor "dc" = some .off ∧ powerActions .off = [.off, .on] ∧
        ∀ p, .power p ∉ (session Request.prog {} (coldRuns 14)).record "T-1" 1 := by
  have hrecord : (session Request.prog {} (coldRuns 14)).record "T-1" 1 =
      [.begun, .acted .off, .begun, .waited, .reported true] := by decide +kernel
  rw [hrecord]
  exact ⟨by simp, by decide, rfl, fun p => by simp⟩

end Slas
