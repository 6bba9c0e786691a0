/-
  Slas.Diff.Snapshots

  The snapshots the hardware layer reports (`slas_hal.model`) and their comparison
  (`slas_diff.diff`): device presence, link width and speed, firmware, error counters, new
  entries of the event log, power.

  A comparison looks at what is on both sides: firmware by the label of the device, where both
  report a version; a counter only when it rose; an entry of the log only when the baseline does
  not have it.  The fields of a snapshot that no comparison reads are left out.
-/

import Mathlib.Algebra.Order.Monoid.Unbundled.WithTop
import Mathlib.Data.List.Sort
import Slas.Lib.Dict
import Slas.Lib.General
import Slas.Schemas.Basic

namespace Slas

namespace Diff

/-! ## Snapshots -/

inductive PowerState where
  | on
  | off
  | unknown
  deriving DecidableEq

def PowerState.value : PowerState → String
  | on => "on"
  | off => "off"
  | unknown => "unknown"

inductive SelSeverity where
  | ok
  | warning
  | critical
  deriving DecidableEq

def SelSeverity.value : SelSeverity → String
  | ok => "OK"
  | warning => "Warning"
  | critical => "Critical"

structure SelEntry where
  id : Nat
  created : String
  severity : SelSeverity
  message : String
  sensor : Option String := none

/-- Transfer rate in GT/s per lane; a float may be infinite. -/
abbrev Gts := WithTop Rat

/-- `f"{speed:g}"` -/
def Gts.text (speed : Gts) : String :=
  match speed with
  | none => "inf"
  | some q => General.format q

/-- `PCIE_GEN_GTS` -/
def pcieGenGts : List (String × Gts) :=
  [("Gen1", (5 / 2 : Rat)), ("Gen2", (5 : Rat)), ("Gen3", (8 : Rat)), ("Gen4", (16 : Rat)),
    ("Gen5", (32 : Rat)), ("Gen6", (64 : Rat))]

/-- `[0-9a-f]` -/
def isHex (c : Char) : Bool := c ∈ "0123456789abcdef".toList

/-- `BDF_PATTERN` -/
def isBdf : List Char → Bool
  | [a, b, c, d, ':', e, f, ':', g, h, '.', k] =>
    [a, b, c, d, e, f, g, h].all isHex && decide (k ∈ "01234567".toList)
  | _ => false

structure PcieDevice where
  bdf : String
  name : String
  width : Nat
  speedGts : Gts
  firmware : Option String := none
  bdf_ok : isBdf bdf.toList = true
  name_ok : name ≠ ""
  width_ok : 1 ≤ width ∧ width ≤ 32
  speed_ok : 0 < speedGts

namespace PcieDevice

def label (d : PcieDevice) : String := d.name ++ " (" ++ d.bdf ++ ")"

def link (d : PcieDevice) : String := "x" ++ toString d.width ++ " @ " ++ d.speedGts.text ++ " GT/s"

/-- The version a device reports: `if device.firmware`. -/
def version (d : PcieDevice) : Option String := d.firmware.filter (· ≠ "")

end PcieDevice

structure Inventory where
  biosVersion : String := "unknown"
  bmcVersion : String := "unknown"
  devices : List PcieDevice := []

/-- `Inventory.firmware`: the versions, by label. -/
def Inventory.firmware (inventory : Inventory) : List (String × String) :=
  inventory.devices.foldl
    (fun versions device =>
      match device.version with
      | some version => Dict.set device.label version versions
      | none => versions)
    [("BIOS", inventory.biosVersion), ("BMC", inventory.bmcVersion)]

structure Counters where
  aer : Nat := 0
  edacCe : Nat := 0
  edacUe : Nat := 0
  mce : Nat := 0
  xid : Nat := 0

def Counters.asDict (counters : Counters) : List (String × Nat) :=
  [("AER", counters.aer), ("EDAC CE", counters.edacCe), ("EDAC UE", counters.edacUe),
    ("MCE", counters.mce), ("Xid", counters.xid)]

structure Snapshot where
  power : PowerState
  inventory : Inventory
  counters : Counters := {}
  sel : List SelEntry := []

/-! ## The comparison -/

inductive DiffKind where
  | deviceMissing
  | deviceAdded
  | pcieWidth
  | pcieSpeed
  | firmware
  | counter
  | sel
  | power
  deriving DecidableEq

structure DiffFinding where
  kind : DiffKind
  message : String
  severity : Severity
  bdf : Option String := none
  component : Option String := none
  before : String := ""
  after : String := ""

structure DiffReport where
  findings : List DiffFinding := []
  context : String := ""

def DiffReport.clean (report : DiffReport) : Bool := report.findings.isEmpty

/-- `DiffReport.sentence` -/
def DiffReport.sentence (report : DiffReport) : String :=
  if report.clean then
    "No change against the baseline" ++
      (if report.context = "" then "" else " " ++ report.context) ++ "."
  else
    toString report.findings.length ++ " " ++
      (if report.findings.length = 1 then "change" else "changes") ++ " against the baseline" ++
      (if report.context = "" then ": " else " " ++ report.context ++ ": ") ++
      " ".intercalate (report.findings.map (·.message))

/-- `{d.bdf: d for d in devices}` -/
def byBdf (devices : List PcieDevice) : List (String × PcieDevice) :=
  devices.foldl (fun found device => Dict.set device.bdf device found) []

section

variable {V : Type}

/-- `sorted(set(d) - set(e))` -/
def keysOnlyOf (d e : List (String × V)) : List String :=
  ((Dict.keys d).filter (· ∉ Dict.keys e)).insertionSort (· ≤ ·)

/-- `sorted(set(d) & set(e))` -/
def keysOfBoth (d e : List (String × V)) : List String :=
  ((Dict.keys d).filter (· ∈ Dict.keys e)).insertionSort (· ≤ ·)

/-- What a loop finds for the values of a key in two dicts. -/
def compared (d e : List (String × V)) (find : V → V → List DiffFinding) (key : String) :
    List DiffFinding :=
  match d.lookup key, e.lookup key with
  | some old, some new => find old new
  | _, _ => []

/-- The loop over the keys of one side only. -/
def onlyOf (d e : List (String × V)) (find : String → V → DiffFinding) : List DiffFinding :=
  (keysOnlyOf d e).flatMap fun key => ((d.lookup key).map (find key)).toList

/-- A loop overKeys keys that compares the values of two dicts. -/
def overKeys (keys : List String) (d e : List (String × V))
    (find : String → V → V → List DiffFinding) : List DiffFinding :=
  keys.flatMap fun key => compared d e (find key) key

end

/-- The words of the context in a message. -/
def whereOf (context : String) : String := if context = "" then "" else " " ++ context

section

variable (where_ : String)

def missingFinding (bdf : String) (device : PcieDevice) : DiffFinding where
  kind := .deviceMissing
  message := device.label ++ " disappeared" ++ where_ ++ "."
  severity := .S1
  bdf := some bdf
  component := some device.name
  before := device.link
  after := "absent"

def addedFinding (bdf : String) (device : PcieDevice) : DiffFinding where
  kind := .deviceAdded
  message := device.label ++ " appeared" ++ where_ ++ "; the baseline did not have it."
  severity := .S3
  bdf := some bdf
  component := some device.name
  before := "absent"
  after := device.link

def widthFinding (bdf : String) (old new : PcieDevice) : DiffFinding where
  kind := .pcieWidth
  message := "PCIe link width changed on " ++ old.label ++ ": x" ++ toString old.width ++ " → x" ++
    toString new.width ++ where_ ++ "."
  severity := if new.width < old.width then .S2 else .S3
  bdf := some bdf
  component := some old.name
  before := "x" ++ toString old.width
  after := "x" ++ toString new.width

def speedFinding (bdf : String) (old new : PcieDevice) : DiffFinding where
  kind := .pcieSpeed
  message := "PCIe link speed changed on " ++ old.label ++ ": " ++ old.speedGts.text ++
    " GT/s → " ++ new.speedGts.text ++ " GT/s" ++ where_ ++ "."
  severity := if new.speedGts < old.speedGts then .S2 else .S3
  bdf := some bdf
  component := some old.name
  before := old.speedGts.text ++ " GT/s"
  after := new.speedGts.text ++ " GT/s"

/-- The findings of the link of a device on both sides. -/
def linkFindings (bdf : String) (old new : PcieDevice) : List DiffFinding :=
  (if new.width ≠ old.width then [widthFinding where_ bdf old new] else []) ++
    if new.speedGts ≠ old.speedGts then [speedFinding where_ bdf old new] else []

def firmwareFindings (name : String) (old new : String) : List DiffFinding :=
  if old ≠ new then
    [{ kind := .firmware
       message := "Firmware of " ++ name ++ " changed: " ++ old ++ " → " ++ new ++ where_ ++ "."
       severity := .S2
       component := some name
       before := old
       after := new }]
  else []

def counterFindings (name : String) (old new : Nat) : List DiffFinding :=
  if old < new then
    [{ kind := .counter
       message := name ++ " count rose from " ++ toString old ++ " to " ++ toString new ++
        where_ ++ "."
       severity := if name ∈ ["EDAC UE", "MCE", "Xid"] then .S1 else .S2
       component := some name
       before := toString old
       after := toString new }]
  else []

def selFinding (entry : SelEntry) : DiffFinding where
  kind := .sel
  message := "New " ++ entry.severity.value ++ " SEL entry" ++ where_ ++ ": " ++ entry.message ++
    "."
  severity := if entry.severity = .critical then .S1 else .S3
  component := some (match entry.sensor with
    | some sensor => if sensor = "" then "SEL" else sensor
    | none => "SEL")
  before := ""
  after := entry.message

def powerFindings (old new : PowerState) : List DiffFinding :=
  if new ≠ old then
    [{ kind := .power
       message := "Power state is " ++ new.value ++ ", the baseline was " ++ old.value ++ where_ ++
        "."
       severity := .S1
       component := some "power"
       before := old.value
       after := new.value }]
  else []

end

/-- What tells two entries of the log apart. -/
def SelEntry.key (e : SelEntry) : Nat × String × String := (e.id, e.created, e.message)

/-- The entries that are findings: the baseline does not have them, and they are no OK entries. -/
def newEntries (baseline current : List SelEntry) : List SelEntry :=
  (current.filter fun e => e.key ∉ baseline.map SelEntry.key).filter fun e => e.severity ≠ .ok

/-- The findings with one subject each: of the devices, the firmware and the counters. -/
def deviceFindings (baseline current : Snapshot) (where_ : String) : List DiffFinding :=
  let before := byBdf baseline.inventory.devices
  let after := byBdf current.inventory.devices
  let oldFw := baseline.inventory.firmware
  let newFw := current.inventory.firmware
  onlyOf before after (missingFinding where_) ++
    onlyOf after before (addedFinding where_) ++
    overKeys (keysOfBoth before after) before after (linkFindings where_) ++
    overKeys (keysOfBoth oldFw newFw) oldFw newFw (firmwareFindings where_) ++
    overKeys (Dict.keys baseline.counters.asDict) baseline.counters.asDict current.counters.asDict
      (counterFindings where_)

/-- `diff_snapshots` -/
def diffSnapshots (baseline current : Snapshot) (context : String) : DiffReport :=
  let where_ := whereOf context
  { findings := deviceFindings baseline current where_ ++
      (newEntries baseline.sel current.sel).map (selFinding where_) ++
      powerFindings where_ baseline.power current.power
    context }

end Diff

end Slas
