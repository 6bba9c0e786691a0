/-
  Slas.Validation.Primitives

  The verbs of a Validation plan (`slas_hal.primitives`): what each one needs,
  its risk, and which of them wait for a person's approval.  The descriptions
  are only rendered into files and left out, and so is what is optional.

  `str` is Python's, on the values JSON arguments have.
-/

import Slas.Schemas.Basic

namespace Slas

structure PlanPrimitive where
  name : String
  risk : Risk
  required : List String := []
  /-- For which values of an argument the verb is destructive. -/
  destructiveWhen : List (String × List String) := []

def STRESS_TOOLS : List String := ["stress-ng", "fio", "perftest", "memtester"]

def DIAG_TOOLS : List String := ["nvqual", "mft", "smartctl", "ipmitool", "dcgmi"]

def PRIMITIVES : List PlanPrimitive :=
  [{ name := "lease_target", risk := .safe, required := ["target"] },
   { name := "console_on", risk := .safe, required := ["target"] },
   { name := "baseline_snapshot", risk := .safe, required := ["target"] },
   { name := "power_cycle", risk := .caution, required := ["target", "kind", "cycle"]
     destructiveWhen := [("kind", ["ac"])] },
   { name := "sel_snapshot", risk := .safe, required := ["target"] },
   { name := "inventory_snapshot", risk := .safe, required := ["target"] },
   { name := "stress", risk := .caution, required := ["target", "tool"] },
   { name := "run_diag", risk := .caution, required := ["target", "tool"] },
   { name := "firmware_flash", risk := .destructive
     required := ["target", "component", "image_ref"] },
   { name := "secure_erase", risk := .destructive, required := ["target", "device"] },
   { name := "bios_reset", risk := .destructive, required := ["target"] },
   { name := "raid_reconfigure", risk := .destructive, required := ["target", "layout"] },
   { name := "collect_logs", risk := .safe, required := ["target"] },
   { name := "release_target", risk := .safe, required := ["target"] }]

/-- `PRIMITIVES.get` -/
def primitive? (name : String) : Option PlanPrimitive := PRIMITIVES.find? (·.name == name)

/-- Destructive by name or by argument; these need approval. -/
def APPROVAL_KINDS : List String :=
  ["ac_cycle", "firmware_flash", "secure_erase", "bios_reset", "raid_reconfigure"]

/-- `risk_of` -/
def riskOf (str : Json → String) (spec : PlanPrimitive) (args : List (String × Json)) : Risk :=
  if spec.destructiveWhen.any fun when_ =>
      when_.2.contains (((args.lookup when_.1).map str).getD "") then .destructive
  else spec.risk

/-- `approval_kind`: the guardrail name of a destructive step. -/
def approvalKind (str : Json → String) (spec : PlanPrimitive) (args : List (String × Json)) :
    Option String :=
  if spec.name = "power_cycle" ∧ (args.lookup "kind").map str = some "ac" then some "ac_cycle"
  else if spec.risk = .destructive then some spec.name
  else none

theorem primitive?_name {name : String} {spec : PlanPrimitive} (h : primitive? name = some spec) :
    spec.name = name := by
  have hfound := List.find?_some h
  simpa using hfound

end Slas
