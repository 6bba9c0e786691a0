/-
  Slas.Llm.Consensus

  The rules of the Consensus Router and the tally of a panel's votes
  (`slas_llm_gateway.consensus`).  A verdict is measured against the size of the panel,
  not against the votes that came in, and the order of the votes does not matter:
  `tally_perm`.
-/

import Slas.Kernel.World
import Slas.Lib.Counter

namespace Slas

namespace Llm

/-! ## Rules and votes -/

inductive ConsensusRule where
  | unanimous
  | majority
  | majorityPerField
  deriving DecidableEq

/-- What a decision needs; without its description. -/
structure DecisionRule where
  decision : String
  voters : Nat
  rule : ConsensusRule
  approvePhrase : String
  fields : List String := []
  ifNotMet : String
  voters_bounds : 1 ≤ voters ∧ voters ≤ 9
  fields_match : rule = .majorityPerField ↔ fields ≠ []

inductive VoteVerdict where
  | approve
  | concern
  | reject
  deriving DecidableEq

/-- A vote, without its confidence. -/
structure Vote where
  voter : String
  verdict : VoteVerdict
  fields : List (String × String) := []
  reason : String
  deriving DecidableEq

structure ConsensusVerdict where
  decision : String
  rule : ConsensusRule
  votes : List Vote
  agreed : Bool
  degraded : Bool
  sentence : String
  concerns : List String
  undecidedFields : List String
  unavailableVoters : List String

/-! ## The tally -/

/-- `_label` -/
def label (fieldName : String) : String := fieldName.replace "_" " "

/-- `_say` -/
def say (count : Nat) : String := if count = 1 then "says" else "say"

/-- `_dissent` -/
def dissent (vote : Vote) : String :=
  vote.voter ++ " " ++ (if vote.verdict = .concern then "has a concern" else "rejects it") ++
    ": " ++ vote.reason

/-- What the votes say of a field, as far as they say anything. -/
def fieldValues (votes : List Vote) (fieldName : String) : List String :=
  votes.filterMap fun vote => vote.fields.lookup fieldName

/-- The value of a field that more than half of the panel gave. -/
def decidedValue (rule : DecisionRule) (votes : List Vote) (fieldName : String) : Option String :=
  Counter.majority rule.voters (fieldValues votes fieldName)

def undecidedFields (rule : DecisionRule) (votes : List Vote) : List String :=
  if rule.rule = .majorityPerField then
    rule.fields.filter fun fieldName => (decidedValue rule votes fieldName).isNone
  else []

def approvals (votes : List Vote) : Nat := votes.countP fun vote => vote.verdict = .approve

def agreed (rule : DecisionRule) (votes : List Vote) : Bool :=
  !votes.isEmpty &&
    match rule.rule with
    | .majorityPerField => (undecidedFields rule votes).isEmpty
    | .unanimous => approvals votes == rule.voters
    | .majority => rule.voters < approvals votes * 2

def concerns (votes : List Vote) : List String :=
  (votes.filter fun vote => vote.verdict ≠ .approve).map dissent

/-- What is said of one field; `capitalize` is the method of `str`. -/
def fieldSentence (capitalize : String → String) (rule : DecisionRule) (votes : List Vote)
    (fieldName : String) : String :=
  let values := fieldValues votes fieldName
  match decidedValue rule votes fieldName with
  | some value => toString (values.count value) ++ " of " ++ toString votes.length ++
      " agree the " ++ label fieldName ++ " is " ++ value ++ "."
  | none =>
    let spread := ", ".intercalate ((Counter.mostCommon values).map fun item =>
      toString item.2 ++ " " ++ say item.2 ++ " " ++ item.1)
    capitalize (label fieldName) ++ ": " ++ (if spread = "" then "nobody answered" else spread) ++
      ". " ++ rule.ifNotMet

/-- The sentences about the votes. -/
def voteSentences (capitalize : String → String) (rule : DecisionRule) (votes : List Vote) :
    List String :=
  if rule.rule = .majorityPerField then rule.fields.map (fieldSentence capitalize rule votes)
  else
    let met := if rule.rule = .unanimous then approvals votes == rule.voters
      else decide (rule.voters < approvals votes * 2)
    [toString (approvals votes) ++ " of " ++ toString votes.length ++ " " ++ rule.approvePhrase ++
        "."] ++
      (if concerns votes = [] then [] else ["; ".intercalate (concerns votes) ++ "."]) ++
      (if met then [] else [rule.ifNotMet])

def tally (capitalize : String → String) (rule : DecisionRule) (votes : List Vote)
    (unavailable : List String) (degraded : Bool) : ConsensusVerdict where
  decision := rule.decision
  rule := rule.rule
  votes := votes
  agreed := agreed rule votes
  degraded := degraded || votes.length < rule.voters
  sentence := " ".intercalate (voteSentences capitalize rule votes ++
    unavailable.map (fun voter => voter ++ " didn't answer and is paused.") ++
    (if votes ≠ [] ∧ votes.length < rule.voters then
      ["Only " ++ toString votes.length ++ " of " ++ toString rule.voters ++
        " voters answered; treat this as a weaker check."]
    else []))
  concerns := concerns votes
  undecidedFields := undecidedFields rule votes
  unavailableVoters := unavailable

/-! ## What a verdict says of the votes -/

variable {rule : DecisionRule} {votes votes' : List Vote} {fieldName value : String}

theorem fieldValues_length_le : (fieldValues votes fieldName).length ≤ votes.length :=
  List.length_filterMap_le ..

/-- A decided value is one that more than half of the panel gave. -/
theorem decidedValue_eq_some_iff (hlen : votes.length ≤ rule.voters) :
    decidedValue rule votes fieldName = some value ↔
      rule.voters < 2 * votes.countP fun vote => vote.fields.lookup fieldName = some value := by
  rw [decidedValue, Counter.majority_eq_some_iff (fieldValues_length_le.trans hlen), fieldValues,
    List.count_filterMap]
  simp only [beq_eq_decide]

theorem decidedValue_perm (hperm : votes.Perm votes') (hlen : votes.length ≤ rule.voters) :
    decidedValue rule votes fieldName = decidedValue rule votes' fieldName :=
  Counter.majority_perm (hperm.filterMap _) (fieldValues_length_le.trans hlen)

theorem undecidedFields_perm (hperm : votes.Perm votes') (hlen : votes.length ≤ rule.voters) :
    undecidedFields rule votes = undecidedFields rule votes' := by
  simp only [undecidedFields, decidedValue_perm hperm hlen]

theorem approvals_perm (hperm : votes.Perm votes') : approvals votes = approvals votes' :=
  hperm.countP_eq _

/-- The order of the votes does not matter. -/
theorem agreed_perm (hperm : votes.Perm votes') (hlen : votes.length ≤ rule.voters) :
    agreed rule votes = agreed rule votes' := by
  rw [agreed, agreed, undecidedFields_perm hperm hlen, approvals_perm hperm, hperm.isEmpty_eq]

theorem agreed_unanimous (hrule : rule.rule = .unanimous) (h : agreed rule votes = true) :
    approvals votes = rule.voters := by
  simp only [agreed, hrule, Bool.and_eq_true, beq_iff_eq] at h
  exact h.2

theorem agreed_majority (hrule : rule.rule = .majority) (h : agreed rule votes = true) :
    rule.voters < 2 * approvals votes := by
  simp only [agreed, hrule, Bool.and_eq_true, decide_eq_true_eq] at h
  omega

end Llm

end Slas
