/-
  Slas.Factory.Protocol

  The wire between the factory executor and a station runner
  (`slas_station_runner.protocol`): signed batches, the runner's gate, results.

  The canonical JSON of a batch and its HMAC are parameters: what matters is that
  both sides compute them alike.
-/

import Slas.Kernel.World
import Slas.Skills.Compiler

namespace Slas

/-- `timedelta(seconds=...)` -/
def seconds (n : Nat) : Nat := n * 1000000

/-- A SHA-256 digest, in hexadecimal. -/
abbrev HexDigest := {s : String // IsSha256 s}

/-! ## Batches -/

inductive BatchKind where
  | skill
  | command
  | state
  | control
  deriving DecidableEq, Repr

structure StepBatch where
  batchId : String
  ticketId : String
  station : String
  issuedAt : DateTime
  ttlS : Nat := 300
  kind : BatchKind
  compiled : Option CompiledSkill := none
  approvals : List String := []
  secrets : List (String × String) := []
  command : List String := []
  timeoutS : Int := 600
  batchId_min : 8 ≤ batchId.length
  ticketId_ne : ticketId ≠ ""
  station_ne : station ≠ ""
  ttlS_range : 1 ≤ ttlS ∧ ttlS ≤ 3600
  timeoutS_range : 1 ≤ timeoutS ∧ timeoutS ≤ 7200

def StepBatch.expiresAt (batch : StepBatch) : DateTime := batch.issuedAt + seconds batch.ttlS

structure SignedBatch where
  batch : StepBatch
  keyId : String
  signature : HexDigest
  keyId_ne : keyId ≠ ""

/-- `StepBatch.canonical`, and the HMAC of a text under a key. -/
structure Signing where
  canonical : StepBatch → String
  hmac : String → String → HexDigest

def batchText (ticketId stepId : String) (n : Nat) : String :=
  ticketId ++ "|" ++ stepId ++ "|" ++ toString n

/-- `new_batch_id`; `digest` is SHA-256. -/
def newBatchId (digest : String → HexDigest) (ticketId stepId : String) (n : Nat) : String :=
  String.ofList ((digest (batchText ticketId stepId n)).1.toList.take 24)

/-! ## The gate -/

def wrongStation (batch : StepBatch) (station : String) : ThreePartMessage where
  whatHappened := "This batch is addressed to " ++ batch.station ++ ", not to " ++ station ++ "."
  likelyCause := "The executor sent it to the wrong runner, or a runner is misconfigured."
  whatToDo := "Check the station name on the target record and on the runner."

def unknownKey (keyId : String) : ThreePartMessage where
  whatHappened := "The batch is signed with an unknown key (" ++ keyId ++ ")."
  likelyCause := "The runner only trusts the keys provisioned on the station."
  whatToDo := "Provision the executor's key on the station, or rotate both sides."

def wrongSignature : ThreePartMessage where
  whatHappened := "The batch signature does not match its content."
  likelyCause := "The batch was altered in transit or signed with a different key."
  whatToDo := "Nothing was performed. Check the path between the executor and the station."

def expiredBatch (batch : StepBatch) : ThreePartMessage where
  whatHappened := "The batch expired at " ++ String.ofList (DateTime.isoformat batch.expiresAt) ++
    "."
  likelyCause := "Batches are valid for a few minutes so a captured one cannot be replayed later."
  whatToDo := "Nothing was performed. Start the step again."

def replayedBatch (batch : StepBatch) : ThreePartMessage where
  whatHappened := "The batch " ++ batch.batchId ++ " was already performed."
  likelyCause := "A batch id is accepted once; this is a replay or a duplicate send."
  whatToDo := "Nothing was performed again. Check the executor's journal for the first result."

/-- `verify_batch`: the batch, and the ids seen with it. -/
def verifyBatch (S : Signing) (keys : List (String × String)) (station : String) (now : DateTime)
    (seen : List String) (signed : SignedBatch) :
    Except ThreePartMessage (StepBatch × List String) :=
  let batch := signed.batch
  if batch.station ≠ station then .error (wrongStation batch station)
  else match keys.lookup signed.keyId with
    | none => .error (unknownKey signed.keyId)
    | some key =>
      if S.hmac key (S.canonical batch) ≠ signed.signature then .error wrongSignature
      else if batch.expiresAt < now then .error (expiredBatch batch)
      else if batch.batchId ∈ seen then .error (replayedBatch batch)
      else .ok (batch, batch.batchId :: seen)

/-- Addressed to the station, signed with one of its keys, and not expired. -/
def SignedBatch.Fits (S : Signing) (keys : List (String × String)) (station : String)
    (signed : SignedBatch) (now : DateTime) : Prop :=
  signed.batch.station = station ∧
    (keys.lookup signed.keyId).map (fun key => S.hmac key (S.canonical signed.batch)) =
      some signed.signature ∧
    now ≤ signed.batch.expiresAt

instance (S : Signing) (keys : List (String × String)) (station : String) (signed : SignedBatch)
    (now : DateTime) : Decidable (signed.Fits S keys station now) :=
  inferInstanceAs (Decidable (_ ∧ _ ∧ _))

/-- The gate lets through what fits and is not seen yet. -/
theorem verifyBatch_ok_iff {S : Signing} {keys : List (String × String)} {station : String}
    {now : DateTime} {seen : List String} {signed : SignedBatch}
    {passed : StepBatch × List String} :
    verifyBatch S keys station now seen signed = .ok passed ↔
      (signed.Fits S keys station now ∧ signed.batch.batchId ∉ seen) ∧
        passed = (signed.batch, signed.batch.batchId :: seen) := by
  unfold verifyBatch SignedBatch.Fits
  simp only
  by_cases hstation : signed.batch.station = station
  · rw [if_neg (not_not_intro hstation)]
    cases hkey : keys.lookup signed.keyId with
    | none => simp
    | some key =>
      simp only [Option.map_some, Option.some.injEq]
      by_cases hsigned : S.hmac key (S.canonical signed.batch) = signed.signature
      · rw [if_neg (not_not_intro hsigned)]
        by_cases hexpired : signed.batch.expiresAt < now
        · rw [if_pos hexpired]
          simp [Nat.not_le.mpr hexpired]
        · rw [if_neg hexpired]
          by_cases hseen : signed.batch.batchId ∈ seen
          · simp [hseen]
          · simp [hseen, hstation, hsigned, Nat.le_of_not_lt hexpired, eq_comm]
      · simp [hsigned]
  · simp [hstation]

/-! ## Results -/

/-- `slas_skills.runner.StepRun`, as far as the executor reads it. -/
structure StepRun where
  n : Nat
  title : String
  sentence : String

structure StateSnapshot where
  files : List (String × String) := []
  versions : List (String × String) := []
  takenAt : DateTime

/-- `BatchResult`; of the screenshots the names are kept. -/
structure BatchResult where
  batchId : String
  kind : BatchKind
  ok : Bool
  sentence : String
  skill : Option (List StepRun) := none
  command : Option CommandResult := none
  state : Option StateSnapshot := none
  screenshots : List String := []

end Slas
