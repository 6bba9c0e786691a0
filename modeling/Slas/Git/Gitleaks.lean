/-
  Slas.Git.Gitleaks

  The secrets check of the gate with `gitleaks` as its scanner (`GitleaksScanner` of
  `slas_git.gate`), for every exit status and every output of the scanner.

  Theorems:
    passes_soundly_iff — for which answers of the scanner a check that passes says that
                         the scanner finished and reported no finding.
-/

import Slas.Git.Gate
import Slas.Lib.Except

namespace Slas

namespace Git

/-- `json.loads`: the value, or none when it raises a `ValueError`; other exceptions go on. -/
structure JsonLoads where
  loads : String → Except String (Option Json)
  loads_empty : loads "" = .ok none
  loads_emptyList : loads "[]" = .ok (some (.arr []))

/-- `GitleaksRunner`: what the program answers to its arguments and its input. -/
abbrev GitleaksRunner := List String → String → CommandResult

def GITLEAKS_ARGV : List String :=
  ["gitleaks", "detect", "--pipe", "--no-banner", "--report-format", "json", "--report-path",
    "/dev/stdout", "--exit-code", "0"]

variable (P : Python) (J : JsonLoads) (runner : GitleaksRunner)

/-- `str(item.get(key, default))` -/
def textOr (fields : List (String × Json)) (key default : String) : String :=
  P.str ((fields.lookup key).getD (.str default))

/-- `int(value) if isinstance(value, int) else None`; a truth value is an `int` too. -/
def intOrNone : Option Json → Option Int
  | some (.num d) => d.toInt?
  | some (.bool b) => some b.toNat
  | _ => none

/-- The finding of an item of the report, if it is an object. -/
def findingOf : Json → Option SecretFinding
  | .obj fields =>
    some ⟨textOr P fields "File" "?", textOr P fields "RuleID" "gitleaks",
      intOrNone (fields.lookup "StartLine")⟩
  | _ => none

/-- `data if isinstance(data, list) else []` -/
def itemsOf : Option Json → List Json
  | some (.arr items) => items
  | _ => []

/-- `GitleaksScanner.scan` -/
def gitleaksScan (diffText : String) : Except GitFailure (List SecretFinding) := do
  let result := runner GITLEAKS_ARGV diffText
  let data ← (J.loads (if result.stdout = "" then "[]" else result.stdout)).mapError .raised
  return (itemsOf data).filterMap (findingOf P)

/-- The secrets check of `validate_push`; an exception of the scanner ends the gate. -/
def gitleaksCheck (diffText : String) : Except GitFailure GateCheck := do
  let findings ← gitleaksScan P J runner diffText
  return secretsCheck ⟨"gitleaks", fun _ => findings⟩ findings

/-- The check passes. -/
def SecretsPass (diffText : String) : Prop :=
  ∃ check, gitleaksCheck P J runner diffText = .ok check ∧ check.ok = true

/-- The scanner finished, and its report is a list without findings. -/
def ReportedNothing (result : CommandResult) : Prop :=
  result.exitCode = 0 ∧ J.loads result.stdout = .ok (some (.arr []))

/-- The report is a list with a finding. -/
def ReportedSomething (result : CommandResult) : Prop :=
  ∃ items fields, J.loads result.stdout = .ok (some (.arr items)) ∧ Json.obj fields ∈ items

/-- Reading the report ended in an exception that is no `ValueError`. -/
def Unread (result : CommandResult) : Prop := ∃ message, J.loads result.stdout = .error message

/-! ## When the check passes -/

variable {P J runner} {diffText : String}

theorem filterMap_findingOf_eq_nil {items : List Json} :
    items.filterMap (findingOf P) = [] ↔ ∀ fields, Json.obj fields ∉ items := by
  rw [List.filterMap_eq_nil_iff]
  constructor
  · intro h fields hin
    exact absurd (h _ hin) (by simp [findingOf])
  · intro h item hin
    cases item with
    | obj fields => exact absurd hin (h fields)
    | _ => rfl

theorem secretsCheck_ok (scanner : SecretScanner) (findings : List SecretFinding) :
    (secretsCheck scanner findings).ok = findings.isEmpty := rfl

/-- The check passes when the report is empty or not JSON, or lists no object. -/
theorem secretsPass_iff : SecretsPass P J runner diffText ↔
    ∃ data, J.loads (if (runner GITLEAKS_ARGV diffText).stdout = "" then "[]"
        else (runner GITLEAKS_ARGV diffText).stdout) = .ok data ∧
      ∀ fields, Json.obj fields ∉ itemsOf data := by
  unfold SecretsPass gitleaksCheck gitleaksScan
  dsimp only
  cases hloads : J.loads (if (runner GITLEAKS_ARGV diffText).stdout = "" then "[]"
    else (runner GITLEAKS_ARGV diffText).stdout) with
  | error message => simp [Except.mapError, bind, Except.bind]
  | ok data =>
    simp only [Except.mapError, bind, Except.bind, pure, Except.pure, Except.ok.injEq,
      exists_eq_left', secretsCheck_ok, List.isEmpty_iff, filterMap_findingOf_eq_nil]

/-- **The secrets check**: what a check that passes says is so exactly if the scanner
    finished with an empty list for its report, or there was an object in the list, or the
    report could not be read at all. -/
theorem passes_soundly_iff :
    (SecretsPass P J runner diffText → ReportedNothing J (runner GITLEAKS_ARGV diffText)) ↔
      ReportedNothing J (runner GITLEAKS_ARGV diffText) ∨
        ReportedSomething J (runner GITLEAKS_ARGV diffText) ∨
          Unread J (runner GITLEAKS_ARGV diffText) := by
  rw [secretsPass_iff]
  generalize runner GITLEAKS_ARGV diffText = result
  by_cases hempty : result.stdout = ""
  · -- no report passes for an empty one
    rw [if_pos hempty]
    simp only [ReportedNothing, ReportedSomething, Unread, hempty, J.loads_empty, J.loads_emptyList]
    simp [itemsOf]
  · rw [if_neg hempty]
    cases hloads : J.loads result.stdout with
    | error message => simp [Unread, hloads]
    | ok data =>
      have hread : ¬ Unread J result := by
        rintro ⟨message, hmessage⟩
        exact absurd (hloads.symm.trans hmessage) (by simp)
      have hsomething : ReportedSomething J result ↔ ¬ ∀ fields, Json.obj fields ∉ itemsOf data := by
        rw [ReportedSomething, hloads]
        push Not
        constructor
        · rintro ⟨items, fields, hdata, hin⟩
          cases hdata
          exact ⟨fields, hin⟩
        · rintro ⟨fields, hin⟩
          obtain ⟨items, rfl⟩ : ∃ items, data = some (.arr items) := by
            unfold itemsOf at hin
            split at hin
            · exact ⟨_, rfl⟩
            · exact absurd hin (by simp)
          exact ⟨items, fields, rfl, hin⟩
      rw [hsomething, or_iff_left hread]
      simp only [Except.ok.injEq, exists_eq_left']
      tauto

/-- A text is JSON or raises a `ValueError`. -/
def JsonLoads.plain : JsonLoads where
  loads text := .ok (Json.loads text.toList)
  loads_empty := rfl
  loads_emptyList := rfl

/-- The scanner stops with an error before it writes a report. -/
def failedScan : GitleaksRunner := fun _ _ =>
  { exitCode := 1, stderr := "FTL unable to load gitleaks config" }

/-- A scan that failed passes the check. -/
theorem failedScan_passes :
    ¬ (SecretsPass Python.plain .plain failedScan "+token = x" →
      ReportedNothing .plain (failedScan GITLEAKS_ARGV "+token = x")) := by
  intro h
  have hpass : SecretsPass Python.plain .plain failedScan "+token = x" :=
    secretsPass_iff.mpr ⟨some (.arr []), rfl, fun fields => List.not_mem_nil⟩
  exact absurd (h hpass).1 (by decide)

end Git

end Slas
