/-
  Slas.Coding.RemoveTask

  Removing a task (`remove_task` of `slas_orchestrator.service.coding`), and what still names
  its tickets.

  A task goes with the children that were spawned from it.  The bug index keeps its entries,
  and a later run whose finding has the fingerprint of a removed child is linked to it.
  `intact_iff_unnamed`: along every sequence of coding runs and removals, every link leads to
  a stored ticket exactly if no removal takes a ticket that something left behind names.
-/

import Slas.Coding.Recovery
import Slas.Kernel.BugTickets
import Slas.Kernel.Lifecycle

namespace Slas

open Crash

/-! ## Removal -/

/-- A task may be removed once it has stopped. -/
def REMOVABLE_STATES : List TicketState := [.done, .failed, .needsReview]

namespace World

/-- The ticket itself, and the children that were spawned from it. -/
def goesWith (w : World) (ticket : Ticket) (j : String) : Bool :=
  j == ticket.id || (w.tickets j).any fun child => child.parent == some ticket.id

/-- The path is in the directory of such a ticket. -/
def inDirOf (gone : String → Bool) (dir path : String) : Bool :=
  dir.toList.isPrefixOf path.toList &&
    gone (String.ofList ((path.toList.drop dir.length).takeWhile (· ≠ '/')))

/-- The world without the directories of the task and its children; the artifacts are outside
    of it. -/
def without (dataRoot : String) (w : World) (ticket : Ticket) : World :=
  { w with
    tickets := fun j => if w.goesWith ticket j then none else w.tickets j
    journals := fun j => if w.goesWith ticket j then [] else w.journals j
    files := fun path =>
      if inDirOf (w.goesWith ticket) (dataRoot ++ "/Tickets/") path ||
          inDirOf (w.goesWith ticket) (dataRoot ++ "/SOP/") path then none
      else w.files path }

end World

/-- `remove_task`, of a request that may see some tickets, while no run is active.  It answers
    404 and 409 with the sentences of the source; its own sentence is left out. -/
def removeTask (dataRoot : String) (maySee : Ticket → Bool) (ticketId : String) : KernelM Unit := do
  match ← Prog.look (fun w : World => w.tickets ticketId) with
  | none => Prog.raise (.service ("There is no ticket " ++ ticketId ++ "."))
  | some ticket =>
    if !maySee ticket then Prog.raise (.service ("There is no ticket " ++ ticketId ++ "."))
    else if ticket.state ∉ REMOVABLE_STATES then
      Prog.raise (.service (ticket.id ++ " is still running, so it cannot be removed."))
    else Prog.quiet fun w => ((), w.without dataRoot ticket)

/-- What is done to one data root. -/
inductive DataRootCall where
  | service (call : ServiceCall)
  | remove (maySee : Ticket → Bool) (ticketId : String)

def DataRootCall.prog (dataRoot : String) : DataRootCall → KernelM Unit
  | .service call => call.prog
  | .remove maySee ticketId => removeTask dataRoot maySee ticketId

/-! ## Links -/

/-- Every entry of the bug index, and every ticket id on a finding of a stored ticket, names
    a stored ticket. -/
structure Intact (w : World) : Prop where
  index : ∀ e ∈ w.bugIndex, (w.tickets e.ticketId).isSome
  findings : ∀ i t, w.tickets i = some t → ∀ f ∈ t.findings, ∀ j, f.ticketId = some j →
    (w.tickets j).isSome

/-- No entry of the bug index, and no finding of a ticket that stays, names a ticket that goes
    with this one. -/
structure Unnamed (w : World) (ticket : Ticket) : Prop where
  index : ∀ e ∈ w.bugIndex, w.goesWith ticket e.ticketId = false
  findings : ∀ i t, w.tickets i = some t → w.goesWith ticket i = false → ∀ f ∈ t.findings,
    ∀ j, f.ticketId = some j → w.goesWith ticket j = false

variable {w w' : World} {ticket t : Ticket} {dataRoot : String} {i j : String} {n : Nat}

theorem Links.intact (h : Links w) : Intact w := ⟨h.index, h.findings⟩

theorem tickets_without : (w.without dataRoot ticket).tickets j =
    if w.goesWith ticket j then none else w.tickets j := rfl

theorem isSome_without : ((w.without dataRoot ticket).tickets j).isSome ↔
    w.goesWith ticket j = false ∧ (w.tickets j).isSome := by
  rw [tickets_without]
  cases w.goesWith ticket j <;> simp

theorem stored_of_without (h : (w.without dataRoot ticket).tickets j = some t) :
    w.goesWith ticket j = false ∧ w.tickets j = some t := by
  rw [tickets_without] at h
  split at h
  · cases h
  · exact ⟨Bool.eq_false_iff.mpr ‹_›, h⟩

/-- **One removal** leaves the links intact exactly if nothing that stays names what goes. -/
theorem intact_without_iff (dataRoot : String) (h : Intact w) :
    Intact (w.without dataRoot ticket) ↔ Unnamed w ticket := by
  constructor
  · rintro ⟨hindex, hfindings⟩
    refine ⟨fun e he => (isSome_without.mp (hindex e he)).1, fun i t ht hstays f hf j hj => ?_⟩
    have hstored : (w.without dataRoot ticket).tickets i = some t := by
      rw [tickets_without, hstays]
      exact ht
    exact (isSome_without.mp (hfindings i t hstored f hf j hj)).1
  · rintro ⟨hindex, hfindings⟩
    refine ⟨fun e he => isSome_without.mpr ⟨hindex e he, h.index e he⟩, fun i t ht f hf j hj => ?_⟩
    obtain ⟨hstays, hstored⟩ := stored_of_without ht
    exact isSome_without.mpr
      ⟨hfindings i t hstored hstays f hf j hj, h.findings i t hstored f hf j hj⟩

theorem Sound.without (h : Sound w) : Sound (w.without dataRoot ticket) := by
  refine ⟨fun i t ht => h.keyed i t (stored_of_without ht).2,
    fun i t ht => h.tidy i t (stored_of_without ht).2, fun a n hn => ?_⟩
  obtain ⟨hnone, hempty⟩ := h.fresh a n hn
  refine ⟨?_, ?_⟩
  · rw [tickets_without, hnone, ite_self]
  · change (if w.goesWith ticket (makeTicketId a n) then [] else w.journals (makeTicketId a n)) = []
    rw [hempty, ite_self]

theorem Links.without (h : Links w) (hunnamed : Unnamed w ticket) :
    Links (w.without dataRoot ticket) := by
  obtain ⟨hindex, hfindings⟩ := (intact_without_iff dataRoot h.intact).mpr hunnamed
  refine ⟨hfindings, hindex, fun i e he => ?_,
    fun i t ht => h.reviewed i t (stored_of_without ht).2⟩
  have hmem : e ∈ if w.goesWith ticket i then [] else w.journals i := he
  split at hmem
  · cases hmem
  · exact h.journals i e hmem

/-! ## Calls -/

/-- The kernel of a coding run: its executor is a coding executor, in some process. -/
def CodingRun (K : Kernel) : Prop :=
  ∃ (E : Type) (X : Coding.CodingExecutor E) (P : Coding.Process E), K.executor = X.answer P

/-- A coding executor reports no finding, let alone the ticket of one. -/
theorem CodingRun.unfiled {K : Kernel} (h : CodingRun K) : Unfiled K := by
  obtain ⟨E, X, P, hexecutor⟩ := h
  intro calls step context o ho f hf
  rw [hexecutor] at ho
  have hnone : o.findings = [] :=
    Coding.CodingExecutor.execute_findings (X.stateAfter P calls) o
      (X.execute step context (X.stateAfter P calls)).2 (Prod.ext ho rfl)
  rw [hnone] at hf
  cases hf

/-- What every call keeps. -/
def Kept (w : World) : Prop := Sound w ∧ Links w

theorem kernel_kept {call : KernelCall} (hK : Unfiled call.kernel) (h : Kept w) :
    Kept (after KernelCall.prog w (call, n)) := by
  have hkept : Promise.Kept ⟨False, False⟩ call w := fun _ _ _ _ => ⟨False.elim, False.elim⟩
  refine (call_leaves call ⟨False, False⟩ h.1 hkept n).invariant (I := Kept) ?_ (fun _ h => h) ?_ h
  · rintro w w' hm ⟨hsound, hlinks⟩
    exact ⟨Move.sound hm hsound, Move.linked hK hsound hm hlinks⟩
  · rintro w w' ht ⟨hsound, hlinks⟩
    exact ⟨Orphan.sound ht hsound, Orphan.linked ht hlinks⟩

/-- The ticket is stored as it was loaded. -/
def StoredAs (t : Ticket) (w : World) : Prop := Kept w ∧ w.tickets t.id = some t

theorem append_stored {K : Kernel} {kind : JournalKind} {payload : List (String × Json)}
    {stepId : Option String} (hk : kind ≠ .observation) :
    Triple (StoredAs t) (journal.append K t.id kind payload stepId) (fun _ => StoredAs t) Kept := by
  refine Triple.bind (M := fun _ => StoredAs t) ?_ fun es => ?_
  · refine Triple.bind (M := fun _ => StoredAs t) (Triple.look fun _ hw => hw) fun es => ?_
    split_ifs
    · exact Triple.pure fun _ hw => hw
    · exact Triple.raise fun _ hw => hw.1
  · refine Triple.bind (M := fun _ => StoredAs t) (Triple.quiet fun w hw => ?_) fun at_ => ?_
    · obtain ⟨⟨hsound, hlinks⟩, ht⟩ := hw
      exact ⟨⟨⟨hsound.keyed, hsound.tidy, hsound.fresh⟩,
        ⟨hlinks.findings, hlinks.index, hlinks.journals, hlinks.reviewed⟩⟩, ht⟩
    · refine Triple.write (fun _ hw => hw.1) ?_
      rintro w ⟨⟨hsound, hlinks⟩, ht⟩
      exact ⟨⟨hsound.appendEntry (by simp [ht]) _,
        hlinks.appendEntry _ fun hobservation => absurd hobservation hk⟩, ht⟩

/-- A ticket that failed names what it named. -/
theorem save_failed {at_ : DateTime} {reason : String} :
    Triple (StoredAs t) (store.save (t.moved .failed at_ reason)) (fun _ => Kept) Kept := by
  refine Triple.write (fun _ hw => hw.1) ?_
  rintro w ⟨⟨hsound, hlinks⟩, ht⟩
  refine ⟨hsound.saveTicket ((hsound.tidy _ t ht).moved ..) (Or.inl ?_), hlinks.saveTicket ?_ ?_⟩
  · simp [Ticket.moved, ht]
  · intro f hf j hj
    exact (grows_saveTicket w _).tickets j (hlinks.findings _ t ht f hf j hj)
  · intro hstate
    cases hstate

theorem fail_kept {K : Kernel} {sentence : String} : Preserves Kept (K.failTicket i sentence) := by
  refine Triple.bind (M := fun o w => Kept w ∧ o = w.tickets i)
    (Triple.look fun w hw => ⟨hw, rfl⟩) fun o => ?_
  split
  · exact Triple.pure fun _ hw => hw.1
  · rename_i t
    split_ifs
    · exact Triple.pure fun _ hw => hw.1
    · refine Triple.bind (M := fun _ => StoredAs t) (Triple.quiet ?_) fun at_ => ?_
      · rintro w ⟨⟨hsound, hlinks⟩, ht⟩
        have hid : t.id = i := hsound.keyed i t ht.symm
        exact ⟨⟨⟨hsound.keyed, hsound.tidy, hsound.fresh⟩,
          ⟨hlinks.findings, hlinks.index, hlinks.journals, hlinks.reviewed⟩⟩, hid ▸ ht.symm⟩
      · unfold Ticket.transition
        split
        · exact Triple.pure fun _ hw => hw.1
        · rename_i t' hmoved
          split at hmoved
          · obtain rfl := Option.some.inj hmoved
            exact Triple.bind (append_stored (by simp)) fun _ => save_failed
          · cases hmoved

theorem service_kept {call : ServiceCall} (hK : ∀ c, call = .kernel c → Unfiled c.kernel)
    (h : Kept w) : Kept (after ServiceCall.prog w (call, n)) := by
  cases call with
  | kernel c =>
    have hsame : after ServiceCall.prog w (.kernel c, n) = after KernelCall.prog w (c, n) := by
      unfold after
      simp only [ServiceCall.prog, Bind.bind]
      cases c.prog w n <;> rfl
    rw [hsame]
    exact kernel_kept (hK c rfl) h
  | fail K i sentence => exact fail_kept.world_sat h n

/-- The removal that a request asks for is carried out. -/
def Removes (c : DataRootCall) (w : World) (t : Ticket) : Prop :=
  ∃ maySee i, c = .remove maySee i ∧ w.tickets i = some t ∧ maySee t = true ∧
    t.state ∈ REMOVABLE_STATES

theorem after_remove (w : World) (dataRoot : String) (maySee : Ticket → Bool) (i : String) (n : Nat) :
    (∃ t, Removes (.remove maySee i) w t ∧
      after (DataRootCall.prog dataRoot) w (.remove maySee i, n) = w.without dataRoot t) ∨
    (∀ t, ¬ Removes (.remove maySee i) w t) ∧
      after (DataRootCall.prog dataRoot) w (.remove maySee i, n) = w := by
  cases ht : w.tickets i with
  | none =>
    refine Or.inr ⟨?_, ?_⟩
    · rintro t ⟨maySee', i', heq, ht', -⟩
      cases heq
      rw [ht] at ht'
      cases ht'
    · simp [after, DataRootCall.prog, removeTask, Prog.look_bind, ht, Prog.raise, Result.world]
  | some t =>
    by_cases hgo : maySee t = true ∧ t.state ∈ REMOVABLE_STATES
    · refine Or.inl ⟨t, ⟨maySee, i, rfl, ht, hgo⟩, ?_⟩
      simp [after, DataRootCall.prog, removeTask, Prog.look_bind, ht, hgo.1, hgo.2, Prog.quiet,
        Result.world]
    · refine Or.inr ⟨?_, ?_⟩
      · rintro t' ⟨maySee', i', heq, ht', hgo'⟩
        cases heq
        obtain rfl := Option.some.inj (ht.symm.trans ht')
        exact hgo hgo'
      · simp only [after, DataRootCall.prog, removeTask, Prog.look_bind, ht]
        split_ifs with hsee hstate
        · rfl
        · exact absurd ⟨by simpa using hsee, hstate⟩ hgo
        · rfl

/-! ## Sequences -/

/-- The runs of the calls are coding runs. -/
def RunsCoding (c : DataRootCall) : Prop :=
  ∀ call, c = .service (.kernel call) → CodingRun call.kernel

/-- If the call removes a task, nothing that stays names what goes. -/
def Harmless (c : DataRootCall) (w : World) : Prop := ∀ t, Removes c w t → Unnamed w t

/-- After one call the links are intact exactly if it was harmless; and then all is kept. -/
theorem intact_after_iff (dataRoot : String) (n : Nat) {c : DataRootCall} (hc : RunsCoding c) (h : Kept w) :
    (Intact (after (DataRootCall.prog dataRoot) w (c, n)) ↔ Harmless c w) ∧
      (Harmless c w → Kept (after (DataRootCall.prog dataRoot) w (c, n))) := by
  cases c with
  | service call =>
    have hkept : Kept (after (DataRootCall.prog dataRoot) w (.service call, n)) :=
      service_kept (fun c hcall => (hc c (by rw [hcall])).unfiled) h
    refine ⟨iff_of_true hkept.2.intact ?_, fun _ => hkept⟩
    rintro t ⟨_, _, heq, -⟩
    cases heq
  | remove maySee i =>
    rcases after_remove w dataRoot maySee i n with ⟨t, hremoves, hafter⟩ | ⟨hnone, hafter⟩
    · have honly : Harmless (.remove maySee i) w ↔ Unnamed w t := by
        refine ⟨fun hall => hall t hremoves, fun hunnamed t' hremoves' => ?_⟩
        obtain ⟨_, _, heq, ht, -⟩ := hremoves
        obtain ⟨_, _, heq', ht', -⟩ := hremoves'
        cases heq
        cases heq'
        obtain rfl := Option.some.inj (ht.symm.trans ht')
        exact hunnamed
      rw [hafter, honly]
      exact ⟨intact_without_iff dataRoot h.2.intact,
        fun hunnamed => ⟨h.1.without, h.2.without hunnamed⟩⟩
    · rw [hafter]
      exact ⟨iff_of_true h.2.intact fun t ht => absurd ht (hnone t), fun _ => h⟩

theorem intact_iff_from (cs : List (DataRootCall × Nat)) (hcs : ∀ c ∈ cs, RunsCoding c.1)
    (h : Kept w) : (∀ k, Intact (session (DataRootCall.prog dataRoot) w (cs.take k))) ↔
      Starts (DataRootCall.prog dataRoot) Harmless w cs := by
  induction cs generalizing w with
  | nil => exact iff_of_true (fun k => by simpa using h.2.intact) trivial
  | cons c cs ih =>
    obtain ⟨c, n⟩ := c
    obtain ⟨hiff, hkept⟩ :=
      intact_after_iff dataRoot n (hcs _ List.mem_cons_self) h
    have hrest := fun c' hc' => hcs c' (List.mem_cons_of_mem _ hc')
    constructor
    · intro hall
      have hharmless := hiff.mp (by simpa using hall 1)
      exact ⟨hharmless, (ih hrest (hkept hharmless)).mp fun k => by simpa using hall (k + 1)⟩
    · rintro ⟨hharmless, hlater⟩ k
      cases k with
      | zero => exact h.2.intact
      | succ k => simpa using (ih hrest (hkept hharmless)).mpr hlater k

/-- **Referential integrity**: along a sequence of coding runs and removals on one data root,
    every entry of the bug index and every ticket id of a finding names a stored ticket in
    every state reached, exactly if no removal takes a ticket that something left behind
    names. -/
theorem intact_iff_unnamed (dataRoot : String) (cs : List (DataRootCall × Nat))
    (hcs : ∀ c ∈ cs, RunsCoding c.1) :
    (∀ k, Intact (session (DataRootCall.prog dataRoot) {} (cs.take k))) ↔
      Starts (DataRootCall.prog dataRoot) Harmless {} cs := by
  refine intact_iff_from cs hcs ⟨.init, ?_⟩
  exact ⟨fun _ _ h => by simp at h, fun _ h => by simp at h, fun _ _ h => by simp at h,
    fun _ _ h => by simp at h⟩

/-! ### A run with a finding, whose task is removed -/

open Coding

/-- An executor whose project refuses every edit. -/
def refusingExecutor : CodingExecutor Unit :=
  { shellExecutor with
    sandbox :=
      { localSandbox with
        applyEdits := fun _ _ e =>
          (.error (.refused ⟨"The edit leaves the project.", "It was not written.", "Retry."⟩), e) } }

/-- The language of the tidying, resolved. -/
def shellResolution : Resolution where
  language := "shell"
  label := "Shell"
  requested := none
  version := "5.2.21"
  honoured := true
  sentence := "Shell: no version pinned, so the newest bundled bash 5.2.21 is used."
  image := imageFor "" "shell" "5.2.21"
  checks := [check "lint" "shellcheck on every *.sh", check "test" "bats tests/"]

/-- The plan of the tidying, spelt out. -/
def tidyPlan : Plan where
  id := "plan-J-1"
  jobId := "J-1"
  summary := truncated 2000 ((StartTask.tidyUp false).sentence [shellResolution])
  steps :=
    [toolchainStep [shellResolution],
     sandboxStep (StartTask.tidyUp false) "tidy-up" shellResolution,
     { id := "task-1", n := 3, primitive := "iterate", title := "Task 1: Sort the imports"
       args := [("task", .obj [("n", .num (.ofNat 1)), ("title", .str "Sort the imports"),
           ("files", .arr []), ("acceptance", .str "")]),
         ("checks", .arr (shellResolution.checks.map Check.dump)),
         ("max_iterations", .num (.ofNat 6)), ("languages", .arr [.str "shell"])] },
     commitStep (StartTask.tidyUp false), exportStep (StartTask.tidyUp false) "tidy-up"]
  createdAt := 0
  nonempty := by simp
  capped := by decide
  unique := by decide
  numbered := by decide

/-- A kernel whose failures are analysed. -/
def analysedTidyKernel : Kernel :=
  { tidyKernel with
    agent := { tidyKernel.agent with plan := fun _ => .ok tidyPlan }
    executor := refusingExecutor.answer firstProcess
    rcaPipeline := some
      { drafter := fun _ => .ok { cause := "The edit leaves the project.", confidence := .ofNat 1 }
        routing := fun _ => {} } }

/-- The run ends in Needs review with one finding; then its task is removed. -/
def tidiedAndRemoved : List (DataRootCall × Nat) :=
  [(.service (.kernel ⟨analysedTidyKernel, .run demoRaw⟩), 60),
   (.remove (fun _ => true) "T-coding-0001", 0)]

theorem tidiedAndRemoved_runsCoding : ∀ c ∈ tidiedAndRemoved, RunsCoding c.1 := by
  intro c hc call hcall
  rcases List.mem_pair.mp hc with rfl | rfl
  · cases hcall
    exact ⟨Unit, refusingExecutor, firstProcess, rfl⟩
  · cases hcall

theorem intact_after_tidying :
    (∀ k, Intact (session (DataRootCall.prog "/srv/slas") {} (tidiedAndRemoved.take k))) ↔
      Starts (DataRootCall.prog "/srv/slas") Harmless {} tidiedAndRemoved :=
  intact_iff_unnamed "/srv/slas" tidiedAndRemoved tidiedAndRemoved_runsCoding

/-- The index names the child that went with the task. -/
theorem index_dangles_after_removal :
    (∀ c ∈ tidiedAndRemoved, RunsCoding c.1) ∧
      ¬ Intact (session (DataRootCall.prog "/srv/slas") {} tidiedAndRemoved) := by
  refine ⟨tidiedAndRemoved_runsCoding, fun h => ?_⟩
  have hdangles : ∃ e ∈ (session (DataRootCall.prog "/srv/slas") {} tidiedAndRemoved).bugIndex,
      ((session (DataRootCall.prog "/srv/slas") {} tidiedAndRemoved).tickets e.ticketId).isNone := by
    decide +kernel
  obtain ⟨e, he, hnone⟩ := hdangles
  have hsome := h.index e he
  rw [Option.isNone_iff_eq_none.mp hnone] at hsome
  cases hsome

end Slas
