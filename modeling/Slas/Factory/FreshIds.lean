/-
  Slas.Factory.FreshIds

  Batch ids.  The id of a batch is made of its ticket, its step and a number that
  the executor counts in memory, and a new process counts from one again.  So the
  ids of a line differ exactly when no step of a ticket is sent by two processes
  under the same number.
-/

import Slas.Factory.Evidence
import Slas.Lib.Text
import Std.Data.String.ToNat

namespace Slas

open Crash

/-! ## Ids -/

/-- The text names the ticket, the step and the number: only a ticket may have bars. -/
theorem batchText_inj {t t' s s' : String} {n n' : Nat} (hs : '|' ∉ s.toList)
    (hs' : '|' ∉ s'.toList) (h : batchText t s n = batchText t' s' n') :
    t = t' ∧ s = s' ∧ n = n' := by
  have hchars : (t.toList ++ '|' :: s.toList) ++ '|' :: (toString n).toList =
      (t'.toList ++ '|' :: s'.toList) ++ '|' :: (toString n').toList := by
    simpa [batchText] using congrArg String.toList h
  obtain ⟨hfront, hnumber⟩ := Text.cut_at_last (Text.mark_not_mem_toString rfl n)
    (Text.mark_not_mem_toString rfl n') hchars
  obtain ⟨hticket, hstep⟩ := Text.cut_at_last hs hs' hfront
  exact ⟨String.toList_inj.mp hticket, String.toList_inj.mp hstep,
    Nat.repr_injective (String.toList_inj.mp hnumber)⟩

theorem bar_not_mem_stepId {s : String} (h : isStepId s = true) : '|' ∉ s.toList := by
  intro hbar
  unfold isStepId at h
  split at h
  · cases h
  · rename_i c cs hs
    rw [hs] at hbar
    simp only [Bool.and_eq_true, List.all_eq_true] at h
    rcases List.mem_cons.mp hbar with rfl | hmem
    · exact absurd h.1 (by decide)
    · exact absurd (h.2 _ hmem) (by decide)

theorem bar_not_mem_control (verb : ControlVerb) : '|' ∉ ("control-" ++ verb.value).toList := by
  cases verb <;> decide

/-! ## What is sent -/

/-- Every batch has an id that no batch before it had. -/
def FreshIds (sent : List Sent) : Prop :=
  sent.Pairwise fun earlier e => earlier.batchId ≠ e.batchId

/-- A step of a ticket that is sent again by another process has another number. -/
def NumbersDiffer (sent : List Sent) : Prop :=
  sent.Pairwise fun earlier e => earlier.life ≠ e.life → earlier.ticketId = e.ticketId →
    earlier.stepId = e.stepId → earlier.number ≠ e.number

/-- A runner that has seen no other ids than those of earlier batches lets each
    batch through that fits. -/
def NeverRefused (sent : List Sent) : Prop :=
  ∀ before e after, sent = before ++ e :: after →
    ∀ (S : Signing) keys station now seen (signed : SignedBatch), signed.batch.batchId = e.batchId →
      signed.Fits S keys station now → seen ⊆ before.map (·.batchId) →
        verifyBatch S keys station now seen signed =
          .ok (signed.batch, signed.batch.batchId :: seen)

/-- The shortened digests of the texts that were sent do not collide. -/
def NoCollision (digest : String → HexDigest) (sent : List Sent) : Prop :=
  ∀ a ∈ sent, ∀ b ∈ sent, newBatchId digest a.ticketId a.stepId a.number =
      newBatchId digest b.ticketId b.stepId b.number →
    batchText a.ticketId a.stepId a.number = batchText b.ticketId b.stepId b.number

/-- What is sent is named after its ticket, its step and its number, and each
    process counts up. -/
structure Numbered (digest : String → HexDigest) (sent : List Sent) (life batches : Nat) : Prop where
  named : ∀ e ∈ sent, e.batchId = newBatchId digest e.ticketId e.stepId e.number ∧
    '|' ∉ e.stepId.toList
  bounded : ∀ e ∈ sent, e.life ≤ life ∧ (e.life = life → e.number ≤ batches)
  increasing : sent.Pairwise fun earlier e => earlier.life = e.life → earlier.number < e.number

variable {digest : String → HexDigest} {sent : List Sent} {life batches : Nat} {e : Sent}

theorem Numbered.next (h : Numbered digest sent life batches) :
    Numbered digest sent life (batches + 1) :=
  { h with bounded := fun e he => ⟨(h.bounded e he).1, fun hlife =>
      Nat.le_succ_of_le ((h.bounded e he).2 hlife)⟩ }

/-- A new process counts from one. -/
theorem Numbered.restart (h : Numbered digest sent life batches) :
    Numbered digest sent (life + 1) 0 := by
  refine { h with bounded := fun e he => ?_ }
  have hle := (h.bounded e he).1
  exact ⟨by omega, by omega⟩

theorem Numbered.append (h : Numbered digest sent life batches)
    (hid : e.batchId = newBatchId digest e.ticketId e.stepId e.number) (hbar : '|' ∉ e.stepId.toList)
    (hlife : e.life = life) (hnumber : e.number = batches + 1) :
    Numbered digest (sent ++ [e]) life (batches + 1) := by
  refine ⟨?_, ?_, ?_⟩
  · intro e' he'
    rcases List.mem_append.mp he' with hmem | hlast
    · exact h.named e' hmem
    · exact List.mem_singleton.mp hlast ▸ ⟨hid, hbar⟩
  · intro e' he'
    rcases List.mem_append.mp he' with hmem | hlast
    · exact h.next.bounded e' hmem
    · obtain rfl := List.mem_singleton.mp hlast
      exact ⟨hlife.le, fun _ => hnumber.le⟩
  · refine List.pairwise_append.mpr ⟨h.increasing, List.pairwise_singleton _ _, ?_⟩
    intro e' he' last hlast hsame
    obtain rfl := List.mem_singleton.mp hlast
    have hle := (h.bounded e' he').2 (hsame.trans hlife)
    omega

/-- The ids differ exactly when the numbers of different processes do. -/
theorem Numbered.fresh_iff (h : Numbered digest sent life batches) (hdigest : NoCollision digest sent) :
    FreshIds sent ↔ NumbersDiffer sent := by
  constructor
  · intro hfresh
    refine hfresh.imp_of_mem fun {a b} ha hb hids _ hticket hstep hnumber => hids ?_
    rw [(h.named a ha).1, (h.named b hb).1, hticket, hstep, hnumber]
  · intro hdiffer
    refine (hdiffer.and h.increasing).imp_of_mem fun {a b} ha hb hab hids => ?_
    obtain ⟨hdiffer, hincreasing⟩ := hab
    rw [(h.named a ha).1, (h.named b hb).1] at hids
    obtain ⟨hticket, hstep, hnumber⟩ := batchText_inj (h.named a ha).2 (h.named b hb).2
      (hdigest a ha b hb hids)
    by_cases hlife : a.life = b.life
    · exact absurd hnumber (hincreasing hlife).ne
    · exact hdiffer hlife hticket hstep hnumber

theorem FreshIds.neverRefused (h : FreshIds sent) : NeverRefused sent := by
  rintro before e after rfl S keys station now seen signed hid hfits hseen
  refine verifyBatch_ok_iff.mpr ⟨⟨hfits, fun hmem => ?_⟩, rfl⟩
  obtain ⟨earlier, hearlier, heq⟩ := List.mem_map.mp (hseen hmem)
  have hbefore := (List.pairwise_append.mp h).2.2 earlier hearlier e (by simp)
  exact hbefore (heq.trans hid)

/-! ## The requests -/

abbrev NumberedPlant (digest : String → HexDigest) (w : Plant) : Prop :=
  Numbered digest w.sent w.life w.batches

variable {X : FactoryExecutor} {w : Plant} {t : String}

theorem Numbered.catchUp (h : NumberedPlant digest w) : NumberedPlant digest (X.catchUp w) := by
  obtain ⟨hsent, hbatches, hlife⟩ := catchUp_counts (X := X) w
  show Numbered digest (X.catchUp w).sent (X.catchUp w).life (X.catchUp w).batches
  rwa [hsent, hbatches, hlife]

theorem Numbered.sending (h : NumberedPlant X.digest w) {stepId : String} {batch : StepBatch}
    {w' : Plant} (hnext : w'.sent = w.sent ∧ w'.life = w.life ∧ w'.batches = w.batches + 1)
    (hid : batch.batchId = newBatchId X.digest batch.ticketId stepId (w.batches + 1))
    (hbar : '|' ∉ stepId.toList) : NumberedPlant X.digest (X.sending stepId batch w') := by
  obtain ⟨e, hsent, ⟨hticket, hstep, -, hbatch⟩, ⟨hlife, hnumber⟩, -⟩ :=
    sending_spec (X := X) stepId batch w'
  have hcounts := (catchUp_counts (X := X) w').2
  show Numbered X.digest (X.sending stepId batch w').sent (X.catchUp w').life (X.catchUp w').batches
  rw [hsent, hcounts.1, hcounts.2, hnext.1, hnext.2.1, hnext.2.2]
  refine h.append ?_ (hstep ▸ hbar) (hlife.trans hnext.2.1) (hnumber.trans hnext.2.2)
  rw [hbatch, hid, hticket, hstep, hnumber, hnext.2.2]

theorem numbered_edits : Edits X t (NumberedPlant digest) := ⟨fun _ _ h _ => h, fun _ h => h⟩

theorem numbered_sends {step : Step} (hbar : '|' ∉ step.id.toList) (context : ExecutionContext) :
    Sends X step context (NumberedPlant X.digest) (NumberedPlant X.digest) where
  le _ h := h
  tickBefore _ h := h
  numbered _ h := h.next
  send _ _ h hticket hid _ := Numbered.sending h ⟨rfl, rfl, rfl⟩ (hticket ▸ hid) hbar
  tick _ h := h
  edit _ _ h _ := h

theorem numbered_judges : Judges X t (fun _ => True) (NumberedPlant digest) where
  toEdits := numbered_edits
  known _ _ _ _ := trivial
  voters _ h := h.catchUp
  held _ _ _ h _ := h
  passed _ _ _ h _ _ _ _ _ := h

theorem execute_numbered {step : Step} (hbar : '|' ∉ step.id.toList) (context : ExecutionContext) :
    Preserves (NumberedPlant X.digest) (X.execute step context) := by
  have henter : Enters X step context (NumberedPlant X.digest) :=
    { numbered_edits with reload := fun _ _ h _ => h, fresh := fun _ _ h _ _ => h }
  refine execute_spec henter numbered_edits (fun _ h => h) ?_
  by_cases hlease : step.primitive = "lease_station"
  · simp only [FactoryExecutor.handle, hlease]
    exact lease_spec (fun _ h => h) (fun _ _ _ _ h _ _ => h) (fun _ h => h) fun _ _ h _ => h
  · by_cases hrelease : step.primitive = "release_station"
    · simp only [FactoryExecutor.handle, hrelease]
      exact release_spec (fun _ _ h _ => h) fun _ _ h _ => h
    · by_cases hverdict : step.primitive = "verdict"
      · simp only [FactoryExecutor.handle, hverdict]
        exact numbered_judges.verdict
      · exact (numbered_sends hbar context).handle hlease hrelease hverdict

theorem stepId_of_valid {step : Step} (h : step.make = .ok step) : '|' ∉ step.id.toList := by
  unfold Step.make at h
  split at h
  · exact bar_not_mem_stepId ‹_ ∧ _›.1
  · cases h

theorem request_numbered (r : FactoryRequest) : Preserves (NumberedPlant X.digest) (r.prog X) := by
  refine request_spec (P := NumberedPlant X.digest) (fun w h => ?_) ?_ fun _ h => h
  · unfold Plant.begin
    split
    · exact h.restart
    · exact h
  · cases hcall : r.call with
    | execute step context valid =>
      exact Preserves.bind (execute_numbered (stepId_of_valid valid) context) fun _ =>
        Preserves.pure _
    | decide d =>
      exact decide_spec d (fun _ _ h _ => h) (fun _ h => h) (fun _ _ h => h) (fun _ h => h)
        fun _ h => h
    | control t verb by_ =>
      refine control_spec (fun _ h => h) (fun _ _ h _ => h.next) ?_ fun _ h => h
      exact fun w s batch h _ hticket _ hid => Numbered.sending h ⟨rfl, rfl, rfl⟩ (hticket ▸ hid)
        (bar_not_mem_control verb)

/-- The run lemma. -/
theorem session_numbered (rs : List (FactoryRequest × Nat)) :
    NumberedPlant X.digest (session (FactoryRequest.prog X) {} rs) := by
  refine session_invariant ?_ (Starts.trivial _ rs) ?_
  · exact fun r w _ h => (request_numbered r.1).world_sat h r.2
  · exact ⟨fun _ he => (by cases he), fun _ he => (by cases he), List.Pairwise.nil⟩

/-- **No batch is taken for a replay**: in every sequence of requests, when the
    digests do not collide, every batch has an id of its own exactly when a step that
    another process has sent before is sent under another number; and then a runner
    that is still up refuses none of them as seen. -/
theorem batches_fresh_iff (rs : List (FactoryRequest × Nat))
    (hdigest : NoCollision X.digest (session (FactoryRequest.prog X) {} rs).sent) :
    (FreshIds (session (FactoryRequest.prog X) {} rs).sent ↔
        NumbersDiffer (session (FactoryRequest.prog X) {} rs).sent) ∧
      (FreshIds (session (FactoryRequest.prog X) {} rs).sent →
        NeverRefused (session (FactoryRequest.prog X) {} rs).sent) :=
  ⟨(session_numbered rs).fresh_iff hdigest, FreshIds.neverRefused⟩

/-! ### A step sent again -/

open FactoryLine

/-- A new process reads the sensors again, its first batch: the one before was the
    second. -/
theorem resent_sensors_fresh :
    FreshIds (session (FactoryRequest.prog (executor fun n => n)) {}
      [readResult, readSensors, again readSensors]).sent :=
  (batches_fresh_iff (X := executor fun n => n) [readResult, readSensors, again readSensors]
    (by unfold NoCollision; decide +kernel)).1.mpr (by unfold NumbersDiffer; decide +kernel)

/-- A new process reads the result again, the first batch of either. -/
theorem resent_result_refused :
    ¬ FreshIds (session (FactoryRequest.prog (executor fun n => n)) {}
      [readResult, again readResult]).sent := by
  intro hfresh
  have hids : (session (FactoryRequest.prog (executor fun n => n)) {}
      [readResult, again readResult]).sent.map (·.batchId) =
      ["8d9ec73d7c29495b8cba6150", "8d9ec73d7c29495b8cba6150"] := by
    decide +kernel
  have hnodup : ((session (FactoryRequest.prog (executor fun n => n)) {}
      [readResult, again readResult]).sent.map (·.batchId)).Nodup := List.pairwise_map.mpr hfresh
  rw [hids] at hnodup
  exact absurd hnodup (by decide)

end Slas
