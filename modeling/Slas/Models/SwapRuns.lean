/-
  Slas.Models.SwapRuns

  Runs of swaps and rollbacks of every role: at each moment a role's route names a container that
  runs and has answered.

  `served_of_run`: it stays so, whatever the runtime does, as long as no swap brings in a
  container of a name that is routed or serves, and no rollback one that is routed.
-/

import Slas.Models.Swap

namespace Slas

namespace Models

namespace Swaps

/-- What happens: the thread takes a step, or one is started where there is none. -/
inductive SwapEvent where
  | step (a : SwapAnswer)
  | swap (role : Role) (candidate : ModelEntry) (gpuIds : List Nat)
  | rollback (role : Role)

def isFree (s : Swaps) : Bool :=
  match s.pc with
  | .idle | .ended _ => true
  | _ => false

def apply (image : String) (s : Swaps) : SwapEvent → Swaps
  | .step a => s.step image a
  | .swap role candidate gpuIds => if s.isFree then s.beginSwap role candidate gpuIds else s
  | .rollback role => if s.isFree then s.beginRollback role else s

/-- The container that is brought in takes no place of one that is needed. -/
def Clear (s : Swaps) : SwapEvent → Prop
  | .step _ => True
  | .swap role candidate _ => s.routes.roles.lookup role ≠ some (candidateName role candidate) ∧
      ∀ entry ref, s.serving.lookup role = some (entry, ref) →
        ref.name ≠ candidateName role candidate
  | .rollback role => ∀ record entry ref, s.records.lookup role = some record →
      record.phase = .done → record.incumbent = some (entry, ref) →
        s.routes.roles.lookup role ≠ some ref.name

/-- The events of a run are clear, each where it happens. -/
def ClearRun (image : String) (s : Swaps) : List SwapEvent → Prop
  | [] => True
  | e :: es => s.Clear e ∧ ClearRun image (s.apply image e) es

def run (image : String) (s : Swaps) (es : List SwapEvent) : Swaps := es.foldl (apply image) s

/-- A container of the role, by its name. -/
def Own (role : Role) (name : String) : Prop := (instanceName role).toList <+: name.toList

def Up (s : Swaps) (name : String) : Prop :=
  ∃ c, s.containers.lookup name = some c ∧ c.up = true

def Live (s : Swaps) (name : String) : Prop :=
  ∃ c, s.containers.lookup name = some c ∧ c.up = true ∧ c.answered = true

/-- These roles have a route, and each route names a container that runs and has answered. -/
def Served (routed : Role → Prop) (s : Swaps) : Prop :=
  (∀ role, routed role → s.routes.roles.lookup role ≠ none) ∧
    ∀ role name, s.routes.roles.lookup role = some name → Own role name ∧ s.Live name

/-- A container of the role beside the one that is routed. -/
def Beside (s : Swaps) (role : Role) (name : String) : Prop :=
  Own role name ∧ s.routes.roles.lookup role ≠ some name

/-- What a record says can be brought back without what took its place. -/
def Kept (role : Role) (record : SwapRecord) : Prop :=
  (∀ ref, record.candidateRef = some ref → Own role ref.name) ∧
    ∀ entry ref, record.incumbent = some (entry, ref) → Own role ref.name ∧
      ∀ ref', record.candidateRef = some ref' → ref'.name ≠ ref.name

def JobReady (s : Swaps) (job : SwapJob) : Prop :=
  s.Beside job.role job.ref.name ∧
    ∀ entry ref, job.current = some (entry, ref) → Own job.role ref.name ∧ ref.name ≠ job.ref.name

def BackReady (s : Swaps) (job : RollbackJob) : Prop :=
  s.Beside job.role job.ref.name ∧
    ∀ ref, job.candidateRef = some ref → Own job.role ref.name ∧ ref.name ≠ job.ref.name

/-- What holds before the next step of the thread. -/
def Ready (s : Swaps) : SwapPc → Prop
  | .idle | .ended _ => True
  | .begun role candidate gpuIds => s.Clear (.swap role candidate gpuIds)
  | .start job => s.JobReady job ∧ ∀ record entry ref, s.records.lookup job.role = some record →
      record.incumbent = some (entry, ref) → job.ref.name ≠ ref.name
  | .probe job => s.JobReady job ∧ s.Up job.ref.name
  | .undo job => s.JobReady job
  | .smoke job | .switch job => s.JobReady job ∧ s.Live job.ref.name
  | .drain job _ ref => s.Beside job.role ref.name
  | .rollbackBegun role => s.Clear (.rollback role)
  | .restore job | .restoreUndo job => s.BackReady job
  | .restoreProbe job => s.BackReady job ∧ s.Up job.ref.name
  | .switchBack job => s.BackReady job ∧ s.Live job.ref.name
  | .stopCandidate job ref => s.Beside job.role ref.name ∧ Own job.role job.ref.name

/-- The routes, what serves, and the records. -/
def Core (routed : Role → Prop) (s : Swaps) : Prop :=
  s.Served routed ∧
    (∀ role entry ref, s.serving.lookup role = some (entry, ref) → Own role ref.name) ∧
    ∀ role record, s.records.lookup role = some record → Kept role record

variable {routed : Role → Prop} {s : Swaps} {role role' : Role} {name name' image : String}
  {cs : Containers}

/-! ## Names -/

theorem Own.inj (h : Own role name) (h' : Own role' name) : role = role' := by
  have hfree : ∀ role ∈ Role.ROLES, ∀ role' ∈ Role.ROLES,
      (instanceName role).toList <+: (instanceName role').toList → role = role' := by decide
  rcases List.prefix_or_prefix_of_prefix h h' with h | h
  · exact hfree _ role.mem_ROLES _ role'.mem_ROLES h
  · exact (hfree _ role'.mem_ROLES _ role.mem_ROLES h).symm

theorem own_candidateName (role : Role) (candidate : ModelEntry) :
    Own role (candidateName role candidate) := by
  rw [Own, candidateName, String.append_assoc, String.toList_append]
  exact List.prefix_append _ _

/-! ## Containers -/

theorem lookup_map_if {K V : Type} [DecidableEq K] (f : V → V) (k k' : K) (d : List (K × V)) :
    (d.map fun item => if item.1 = k then (item.1, f item.2) else item).lookup k' =
      if k' = k then (d.lookup k').map f else d.lookup k' := by
  induction d with
  | nil => simp
  | cons item d ih =>
    rw [List.map_cons, Dict.lookup_cons_eq_if, Dict.lookup_cons_eq_if, ih]
    by_cases hitem : item.1 = k <;> by_cases hk : k' = k <;> by_cases hhead : k' = item.1 <;>
      simp_all

theorem lookup_start {spec : ContainerSpec} (how : StartEnd) (h : name' ≠ spec.name) :
    (startContainer spec how cs).lookup name' = cs.lookup name' := by
  cases how <;> simp [startContainer, Dict.lookup_set, Dict.lookup_pop, h]

theorem lookup_stop (how : StopEnd) (h : name' ≠ name) :
    (stopContainer name how cs).lookup name' = cs.lookup name' := by
  cases how with
  | halted =>
    exact (lookup_map_if (fun c : Container => { c with up := false }) name name' cs).trans
      (if_neg h)
  | refused => rfl
  | stopped | lost => exact Dict.lookup_pop.trans (if_neg h)

/-- What is done to a container beside them leaves the routed ones. -/
theorem Served.frame (h : s.Served routed) (hbeside : s.Beside role name)
    (hsame : ∀ name' ≠ name, cs.lookup name' = s.containers.lookup name') :
    Served routed { s with containers := cs } := by
  refine ⟨h.1, fun role' name' hroute => ?_⟩
  obtain ⟨hown, hlive⟩ := h.2 role' name' hroute
  refine ⟨hown, ?_⟩
  have hne : name' ≠ name := by
    rintro rfl
    -- No name is of two roles, and in its own role it is not the one that is routed.
    obtain rfl := hown.inj hbeside.1
    exact hbeside.2 hroute
  unfold Live
  rw [hsame name' hne]
  exact hlive

/-- The route is switched to a container that has answered. -/
theorem Served.switch (h : s.Served routed) (hown : Own role name) (hlive : s.Live name) :
    (s.switch role name).Served routed := by
  refine ⟨fun role' hrouted => ?_, fun role' name' hroute => ?_⟩
  · rw [Swaps.switch, Dict.lookup_set]
    split_ifs
    · exact Option.some_ne_none name
    · exact h.1 role' hrouted
  · rw [Swaps.switch, Dict.lookup_set] at hroute
    split_ifs at hroute with heq
    · cases hroute
      exact ⟨heq ▸ hown, hlive⟩
    · exact h.2 role' name' hroute

/-! ## What the parts of a step keep -/

theorem Core.start {spec : ContainerSpec} (h : s.Core routed) (hbeside : s.Beside role spec.name)
    (how : StartEnd) : (s.start spec how).Core routed :=
  ⟨h.1.frame hbeside fun _ => lookup_start how, h.2⟩

theorem Core.stop (h : s.Core routed) (hbeside : s.Beside role name) (how : StopEnd) :
    (s.stop name how).Core routed :=
  ⟨h.1.frame hbeside fun _ => lookup_stop how, h.2⟩

theorem lookup_answered : (s.answered name).containers.lookup name' =
    if name' = name then (s.containers.lookup name').map fun c => { c with answered := true }
    else s.containers.lookup name' :=
  lookup_map_if (fun c : Container => { c with answered := true }) name name' s.containers

theorem Live.answered (h : s.Live name') : (s.answered name).Live name' := by
  obtain ⟨c, hc, hup, hanswered⟩ := h
  unfold Live
  rw [lookup_answered, hc]
  split_ifs
  · exact ⟨_, rfl, hup, rfl⟩
  · exact ⟨c, rfl, hup, hanswered⟩

theorem Up.answered (h : s.Up name) : (s.answered name).Live name := by
  obtain ⟨c, hc, hup⟩ := h
  unfold Live
  rw [lookup_answered, hc, if_pos rfl]
  exact ⟨_, rfl, hup, rfl⟩

theorem Core.answered (h : s.Core routed) (name : String) : (s.answered name).Core routed :=
  ⟨⟨h.1.1, fun role name' hroute => (h.1.2 role name' hroute).imp_right Live.answered⟩, h.2⟩

theorem Core.switch (h : s.Core routed) (hown : Own role name) (hlive : s.Live name) :
    (s.switch role name).Core routed :=
  ⟨h.1.switch hown hlive, h.2⟩

theorem Core.serve {ref : ContainerSpec} (h : s.Core routed) (entry : ModelEntry)
    (hown : Own role ref.name) : (s.serve role entry ref).Core routed := by
  refine ⟨h.1, fun role' entry' ref' hserving => ?_, h.2.2⟩
  rw [Swaps.serve, Dict.lookup_set] at hserving
  split_ifs at hserving with heq
  · cases hserving
    exact heq ▸ hown
  · exact h.2.1 role' entry' ref' hserving

theorem Core.updateRecord {f : SwapRecord → SwapRecord} (h : s.Core routed)
    (hf : ∀ record, s.records.lookup role = some record → Kept role (f record)) :
    (s.updateRecord role f).Core routed := by
  refine ⟨h.1, h.2.1, fun role' record hrecord => ?_⟩
  rw [Swaps.updateRecord, lookup_map_if] at hrecord
  split_ifs at hrecord with heq
  · obtain ⟨record', hrecord', rfl⟩ := Option.map_eq_some_iff.mp hrecord
    exact heq ▸ hf record' (heq ▸ hrecord')
  · exact h.2.2 role' record hrecord

theorem Core.setPhase (h : s.Core routed) (role : Role) (phase : Phase) :
    (s.setPhase role phase).Core routed :=
  h.updateRecord fun record hrecord => h.2.2 role record hrecord

theorem Core.setRecord {record : SwapRecord} (h : s.Core routed) (hkept : Kept role record) :
    Core routed { s with records := Dict.set role record s.records } := by
  refine ⟨h.1, h.2.1, fun role' record' hrecord => ?_⟩
  rw [Dict.lookup_set] at hrecord
  split_ifs at hrecord with heq
  · cases hrecord
    exact heq ▸ hkept
  · exact h.2.2 role' record' hrecord

theorem Core.fail (h : s.Core routed) (job : SwapJob) : (s.fail job).Core routed := by
  unfold Swaps.fail Swaps.noteFailure
  split_ifs
  · exact h.setPhase job.role .failed
  · exact h.setRecord ⟨fun _ hnone => (by cases hnone), fun _ _ hnone => (by cases hnone)⟩

/-! ## Runs -/

/-- What holds at each moment of a run. -/
def Inv (routed : Role → Prop) (s : Swaps) : Prop := s.Core routed ∧ s.Ready s.pc

theorem Core.ended (h : s.Core routed) (role : Role) : (s.goto (.ended role)).Inv routed :=
  ⟨h, trivial⟩

theorem Core.failed (h : s.Core routed) (job : SwapJob) : (s.fail job).Inv routed :=
  ⟨h.fail job, trivial⟩

theorem switched_ne (h : name' ≠ name) :
    (s.switch role name).routes.roles.lookup role ≠ some name' := by
  rw [Swaps.switch, Dict.lookup_set, if_pos rfl]
  exact fun heq => h (Option.some.inj heq).symm

theorem up_started {spec : ContainerSpec} : (s.start spec .started).Up spec.name :=
  ⟨⟨spec, true, false⟩, by simp [Swaps.start, startContainer, Dict.lookup_set], rfl⟩

theorem beginJob_inv {candidate : ModelEntry} {gpuIds : List Nat} (h : s.Core routed)
    (hclear : s.Clear (.swap role candidate gpuIds)) :
    (s.beginJob image role candidate gpuIds).Inv routed := by
  obtain ⟨hroute, hname⟩ := hclear
  have hown := own_candidateName role candidate
  refine ⟨h.setRecord ⟨fun _ hnone => (by cases hnone), fun entry ref hcurrent =>
    ⟨h.2.1 role entry ref hcurrent, fun _ hnone => (by cases hnone)⟩⟩, ⟨⟨hown, hroute⟩,
      fun entry ref hcurrent => ⟨h.2.1 role entry ref hcurrent, hname entry ref hcurrent⟩⟩, ?_⟩
  intro record entry ref hrecord hincumbent
  have hset : (Dict.set role _ s.records).lookup role = some record := hrecord
  rw [Dict.lookup_set, if_pos rfl] at hset
  cases hset
  exact (hname entry ref hincumbent).symm

/-- **One step of the thread.** -/
theorem step_inv (h : s.Inv routed) (a : SwapAnswer) : (s.step image a).Inv routed := by
  obtain ⟨hcore, hready⟩ := h
  unfold Swaps.step
  cases hpc : s.pc <;> rw [hpc] at hready
  case idle | ended => exact ⟨hcore, by rw [hpc]; exact hready⟩
  case begun role candidate gpuIds => exact beginJob_inv hcore hready
  case start job =>
    -- The record now names the candidate, which is not what a rollback would bring back.
    obtain ⟨hjob, hrecord⟩ := hready
    have hstart := hcore.start hjob.1 a.start
    dsimp only
    split_ifs with hstarted
    · have hkept : ∀ record, s.records.lookup job.role = some record →
          Kept job.role { record with candidateRef := some job.ref } := by
        refine fun record hlookup => ⟨fun ref href => ?_, fun entry ref hinc =>
          ⟨((hcore.2.2 job.role record hlookup).2 entry ref hinc).1, fun ref' href => ?_⟩⟩
        · cases href
          exact hjob.1.1
        · cases href
          exact hrecord record entry ref hlookup hinc
      exact ⟨hstart.updateRecord hkept, hjob, hstarted ▸ up_started⟩
    · exact hstart.failed job
  case probe job =>
    dsimp only
    cases a.check with
    | yes => exact ⟨(hcore.answered job.ref.name).setPhase job.role .smokeTesting, hready.1,
        hready.2.answered⟩
    | no => exact ⟨hcore, hready.1⟩
    | raised => exact hcore.failed job
  case undo job => exact (hcore.stop hready.1 a.stop).failed job
  case smoke job =>
    dsimp only
    cases a.check with
    | yes => exact ⟨hcore, hready⟩
    | no => exact ⟨hcore, hready.1⟩
    | raised => exact hcore.ended job.role
  case switch job =>
    obtain ⟨hjob, hlive⟩ := hready
    have hswitch := ((hcore.switch hjob.1.1 hlive).serve job.candidate
      hjob.1.1).setPhase job.role .draining
    dsimp only
    cases hcurrent : job.current with
    | none => exact (hswitch.setPhase job.role .done).ended job.role
    | some current =>
      obtain ⟨entry, ref⟩ := current
      obtain ⟨hown, hne⟩ := hjob.2 entry ref hcurrent
      exact ⟨hswitch, hown, switched_ne hne⟩
  case drain job entry ref =>
    -- The route has been switched, so that the one to be stopped is beside it.
    have hstop := hcore.stop hready a.stop
    dsimp only
    split_ifs
    · exact (hstop.setPhase job.role .done).ended job.role
    · exact hstop.failed job
  case rollbackBegun role =>
    dsimp only
    split
    · next record incumbent ref candidateRef hlookup =>
      split_ifs
      · exact (hcore.setPhase role .expired).ended role
      · have hkept := hcore.2.2 role _ hlookup
        exact ⟨hcore, ⟨(hkept.2 _ _ rfl).1, hready _ _ _ hlookup rfl rfl⟩, fun ref' href =>
          ⟨hkept.1 ref' href, (hkept.2 _ _ rfl).2 ref' href⟩⟩
    · exact hcore.ended role
  case restore job =>
    have hstart := hcore.start hready.1 a.start
    dsimp only
    split_ifs with hstarted
    · exact ⟨hstart, hready, by rw [hstarted]; exact up_started⟩
    · exact hstart.ended job.role
  case restoreProbe job =>
    dsimp only
    cases a.check with
    | yes => exact ⟨hcore.answered job.ref.name, hready.1, hready.2.answered⟩
    | no => exact ⟨hcore, hready.1⟩
    | raised => exact hcore.ended job.role
  case restoreUndo job => exact (hcore.stop hready.1 a.stop).ended job.role
  case switchBack job =>
    obtain ⟨hjob, hlive⟩ := hready
    have hswitch := hcore.switch hjob.1.1 hlive
    dsimp only
    cases hcandidate : job.candidateRef with
    | none =>
      exact ((hswitch.serve job.incumbent hjob.1.1).setPhase job.role .rolledBack).ended job.role
    | some ref =>
      obtain ⟨hown, hne⟩ := hjob.2 ref hcandidate
      exact ⟨hswitch, ⟨hown, switched_ne hne⟩, hjob.1.1⟩
  case stopCandidate job ref =>
    have hstop := hcore.stop hready.1 a.stop
    dsimp only
    split_ifs
    · exact ((hstop.serve job.incumbent hready.2).setPhase job.role .rolledBack).ended job.role
    · exact hstop.ended job.role

theorem apply_inv (h : s.Inv routed) (e : SwapEvent) (hclear : s.Clear e) :
    (s.apply image e).Inv routed := by
  cases e with
  | step a => exact step_inv h a
  | swap role candidate gpuIds =>
    rw [apply, beginSwap]
    split_ifs
    · exact ⟨h.1, hclear⟩
    · exact h
    · exact h
  | rollback role =>
    rw [apply]
    split_ifs
    · exact ⟨h.1, hclear⟩
    · exact h

theorem run_inv (h : s.Inv routed) (es : List SwapEvent) (hclear : s.ClearRun image es) :
    (s.run image es).Inv routed := by
  induction es generalizing s with
  | nil => exact h
  | cons e es ih => exact ih (apply_inv h e hclear.1) hclear.2

/-- **Every role stays served**, at each moment of a run of swaps and rollbacks. -/
theorem served_of_run (h : s.Core routed) (hidle : s.pc = .idle) (es : List SwapEvent)
    (hclear : s.ClearRun image es) : (s.run image es).Served routed := by
  have hready : s.Ready s.pc := by
    rw [hidle]
    trivial
  exact (run_inv ⟨h, hready⟩ es hclear).1.1

private def embedder (id : String) : ModelEntry where
  id := id
  displayName := id
  family := id
  path := id
  quant := .bf16
  vramGib := 3
  context := 8192
  roles := [.embed]

private def bgeRef : ContainerSpec :=
  vllmSpec (embedder "bge-m3") "vllm-embed" [0] "vllm" .embed none [] []

/-- BGE-M3 serves the embeddings. -/
private def embedding : Swaps where
  containers := [("vllm-embed", ⟨bgeRef, true, true⟩)]
  routes := { roles := [(.embed, "vllm-embed")] }
  serving := [(.embed, (embedder "bge-m3", bgeRef))]

/-- E5 is brought in, and all goes well. -/
private def bringIn : List SwapEvent :=
  .swap .embed (embedder "e5") [1] :: List.replicate 6 (.step {})

private theorem embedding_core : embedding.Core (· = .embed) := by
  have hown : Own .embed "vllm-embed" := List.prefix_refl _
  refine ⟨⟨?_, fun role name hroute => ?_⟩, fun role entry ref hserving => ?_,
    fun role record hrecord => by cases hrecord⟩
  · rintro role rfl
    decide
  · rw [embedding, Dict.lookup_cons_eq_if] at hroute
    split_ifs at hroute with heq
    · cases hroute
      exact ⟨heq ▸ hown, ⟨bgeRef, true, true⟩, rfl, rfl, rfl⟩
    · cases hroute
  · rw [embedding, Dict.lookup_cons_eq_if] at hserving
    split_ifs at hserving with heq
    · cases hserving
      exact heq ▸ hown
    · cases hserving

theorem served_of_bringIn : (embedding.run "vllm" bringIn).Served (· = .embed) := by
  refine served_of_run embedding_core rfl bringIn ⟨⟨by decide, fun entry ref hserving => ?_⟩,
    trivial, trivial, trivial, trivial, trivial, trivial, trivial⟩
  cases hserving
  decide

/-- A model that is brought in again is out of service until it has answered. -/
theorem unserved_of_again : ¬ (embedding.run "vllm" (bringIn ++
    .swap .embed (embedder "e5") [1] :: List.replicate 2 (.step {}))).Served (· = .embed) := by
  intro h
  obtain ⟨-, c, hc, -, hanswered⟩ := h.2 .embed "vllm-embed-e5" (by decide +kernel)
  have hnew : ((embedding.run "vllm" (bringIn ++ .swap .embed (embedder "e5") [1] ::
      List.replicate 2 (.step {}))).containers.lookup "vllm-embed-e5").map (·.answered) =
        some false := by decide +kernel
  rw [hc, Option.map_some, hanswered] at hnew
  cases hnew

end Swaps

end Models

end Slas
