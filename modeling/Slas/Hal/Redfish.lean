/-
  Slas.Hal.Redfish

  Redfish payloads (`slas_hal.redfish`): the answers of a BMC become the models of the hardware
  layer, or a `HalError`.

  Theorems:
    parseSel_onlyHal, parsePcieDevices_onlyHal, parseInventory_onlyHal — of which answers a
                       parser raises nothing but a `HalError`.
-/

import Slas.Diff.Snapshots
import Slas.Lib.Except
import Slas.Lib.PyJson

namespace Slas

namespace Hal

open Diff (Gts PowerState SelEntry SelSeverity isBdf pcieGenGts)
open PyJson (Builtins Object asDict asInt asList get getD text toInt)
open PyText (ofString unicode)

/-! ## Errors -/

/-- The three parts of a `HalError`, which quote what the BMC sent. -/
structure HalMessage where
  whatHappened : PyText
  likelyCause : PyText
  whatToDo : PyText

/-- What a call raises: a `HalError`, or an exception of another class. -/
inductive Failure where
  | hal (message : HalMessage)
  | raised (cls : String)

/-- Nothing but a `HalError` is raised. -/
def OnlyHal {α : Type} (result : Except Failure α) : Prop := ∀ cls, result ≠ .error (.raised cls)

/-- A model is built of fields that pass its checks. -/
def validated {α : Type} (fields : Option α) : Except Failure α :=
  fields.elim (.error (.raised "ValidationError")) .ok

variable (B : Builtins)

def noMembers (data : Object) (what target : PyText) : HalMessage where
  whatHappened := ofString "The " ++ what ++ ofString " answer from " ++ target ++
    ofString " is incomplete: it has no Members."
  likelyCause := ofString "The BMC reported " ++
    (match get data "Members@odata.count" with
      | .none => ofString "an unknown number of"
      | count => text B count) ++
    ofString " entries but sent none; the collection was probably truncated."
  whatToDo := ofString <| "Retry once; if it repeats, read the collection page by page or " ++
    "clear the SEL."

def truncated (arrived : Nat) (count what target : PyText) : HalMessage where
  whatHappened := ofString "The " ++ what ++ ofString " answer from " ++ target ++
    ofString (" is incomplete: " ++ toString arrived ++ " of ") ++ count ++
    ofString " entries arrived."
  likelyCause := ofString "The BMC truncated the collection."
  whatToDo := ofString <| "Retry once; if it repeats, read the collection page by page or " ++
    "clear the SEL."

def noLinkState (member : Object) (target : PyText) : HalMessage where
  whatHappened := ofString "A PCIe device of " ++ target ++ ofString " (" ++
    text B (getD member "Id" (.str (ofString "?"))) ++ ofString ") has no usable link state."
  likelyCause := ofString "The BMC did not report its BDF, LanesInUse or PCIeType."
  whatToDo := ofString <| "Check the BMC's PCIe inventory support; VERIFY needs width and " ++
    "speed per device."

/-! ## Collections -/

/-- `_members` -/
def members (data : Object) (what target : PyText) : Except Failure (List Object) :=
  match get data "Members" with
  | .list xs =>
    let count := get data "Members@odata.count"
    if (asInt count).any fun n => n ≠ (xs.length : Int) then
      .error (.hal (truncated xs.length (text B count) what target))
    else .ok (xs.filterMap asDict)
  | _ => .error (.hal (noMembers B data what target))

/-- `parse_power_state` -/
def parsePowerState (data : Object) : PowerState :=
  let state := B.lower (text B (getD data "PowerState" (.str [])))
  if state = ofString "on" then .on
  else if state = ofString "off" ∨ state = ofString "poweringoff" then .off
  else .unknown

/-! ## The event log -/

def severityOf (raw : PyText) : SelSeverity :=
  if raw = ofString "OK" then .ok
  else if raw = ofString "Critical" then .critical
  else .warning

/-- The number of an entry; what is no number is zero. -/
def entryId (member : Object) : Int :=
  (B.int (text B (getD member "Id" (.str (ofString "0"))))).getD 0

def createdOf (member : Object) : PyText := text B (getD member "Created" (.str []))

def messageOf (member : Object) : PyText :=
  PyText.orElse (text B (getD member "Message" (.str []))).strip (ofString "(no message)")

/-- `str(member[key]) if member.get(key) else None` -/
def optionalText (member : Object) (key : String) : Option PyText :=
  let value := get member key
  if value.truth then some (text B value) else none

/-- A text of a model, if there is one. -/
def unicodeOpt : Option PyText → Option (Option String)
  | none => some none
  | some cs => (unicode cs).map some

/-- The fields of an entry, as the model takes them. -/
def selFields (member : Object) : Option SelEntry :=
  if 0 ≤ entryId B member then do
    let created ← unicode (createdOf B member)
    let message ← unicode (messageOf B member)
    let sensor ← unicodeOpt (optionalText B member "SensorType")
    pure {
      id := (entryId B member).toNat
      created
      severity := severityOf (text B (getD member "Severity" (.str (ofString "OK"))))
      message
      sensor }
  else none

/-- `parse_sel` -/
def parseSel (data : Object) (target : PyText) : Except Failure (List SelEntry) :=
  members B data (ofString "SEL") target >>= fun found =>
    found.mapM fun member => validated (selFields B member)

/-! ## Devices -/

/-- `_speed` -/
def speed (pcieType : PyJson) : Option Gts :=
  if pcieType.truth then
    (pcieGenGts.find? fun gen => ofString gen.1 = text B pcieType).map (·.2)
  else none

/-- `value or {}`, of which the next line takes a member. -/
def asSection (value : PyJson) : Except Failure Object :=
  if value.truth then (asDict value).elim (.error (.raised "AttributeError")) .ok else .ok []

/-- `PcieDevice`, with the fields that no comparison reads. -/
structure PcieDevice extends Diff.PcieDevice where
  vendorId : String
  deviceId : String
  classCode : String
  maxWidth : Nat
  maxSpeedGts : Gts
  maxWidth_ok : 1 ≤ maxWidth ∧ maxWidth ≤ 32
  maxSpeed_ok : 0 < maxSpeedGts

def bdfOf (oem : Object) : PyText := B.lower (text B (getD oem "BDF" (.str [])))

def nameOf (member : Object) (bdf : PyText) : PyText :=
  text B (((get member "Name").orElse (get member "Id")).orElse (.str bdf))

def oemText (oem : Object) (key : String) : PyText := text B (getD oem key (.str []))

/-- The fields of a device, as the model takes them. -/
def deviceFields (member oem : Object) (width maxWidth : Int) (speedGts maxSpeedGts : Gts) :
    Option PcieDevice := do
  let bdf ← unicode (bdfOf B oem)
  let name ← unicode (nameOf B member (bdfOf B oem))
  let vendorId ← unicode (oemText B oem "VendorId")
  let deviceId ← unicode (oemText B oem "DeviceId")
  let classCode ← unicode (oemText B oem "ClassCode")
  let firmware ← unicodeOpt (optionalText B member "FirmwareVersion")
  if h : isBdf bdf.toList = true ∧ name ≠ "" ∧ (1 ≤ width.toNat ∧ width.toNat ≤ 32) ∧
      0 < speedGts ∧ (1 ≤ maxWidth.toNat ∧ maxWidth.toNat ≤ 32) ∧ 0 < maxSpeedGts then
    some {
      bdf, name, vendorId, deviceId, classCode, firmware, speedGts, maxSpeedGts
      width := width.toNat
      maxWidth := maxWidth.toNat
      bdf_ok := h.1
      name_ok := h.2.1
      width_ok := h.2.2.1
      speed_ok := h.2.2.2.1
      maxWidth_ok := h.2.2.2.2.1
      maxSpeed_ok := h.2.2.2.2.2 }
  else none

/-- `int(value)` -/
def whole (value : PyJson) : Except Failure Int := (toInt B value).mapError .raised

/-- A device of which the sections were read. -/
def linkOf (target : PyText) (member oem interface : Object) : Except Failure PcieDevice :=
  match asInt (get interface "LanesInUse"), speed B (get interface "PCIeType") with
  | some width, some speedGts =>
    if bdfOf B oem = [] then .error (.hal (noLinkState B member target))
    else
      whole B ((get interface "MaxLanes").orElse (.int width)) >>= fun maxWidth =>
        validated (deviceFields B member oem width maxWidth speedGts
          ((speed B (get interface "MaxPCIeType")).getD speedGts))
  | _, _ => .error (.hal (noLinkState B member target))

/-- One member of the collection. -/
def pcieDevice (target : PyText) (member : Object) : Except Failure PcieDevice := do
  let interface ← asSection (get member "PCIeInterface")
  let vendor ← asSection (get member "Oem")
  let oem ← asSection (get vendor "Slas")
  linkOf B target member oem interface

/-- `parse_pcie_devices` -/
def parsePcieDevices (data : Object) (target : PyText) : Except Failure (List PcieDevice) :=
  members B data (ofString "PCIe device") target >>= fun found =>
    found.mapM (pcieDevice B target)

/-! ## The inventory -/

/-- `Inventory` -/
structure Inventory where
  model : String
  serial : String
  biosVersion : String
  bmcVersion : String
  cpus : Nat
  memoryGib : Nat
  devices : List PcieDevice

/-- `str(data.get(key) or "unknown")` -/
def orUnknown (data : Object) (key : String) : PyText :=
  text B ((get data key).orElse (.str (ofString "unknown")))

/-- `int((data.get(key) or {}).get(field) or 0)` -/
def amount (data : Object) (key field : String) : Except Failure Int :=
  asSection (get data key) >>= fun summary => whole B ((get summary field).orElse (.int 0))

def inventoryFields (system manager : Object) (cpus memoryGib : Int)
    (devices : List PcieDevice) : Option Inventory :=
  if 0 ≤ cpus ∧ 0 ≤ memoryGib then do
    let model ← unicode (orUnknown B system "Model")
    let serial ← unicode (orUnknown B system "SerialNumber")
    let biosVersion ← unicode (orUnknown B system "BiosVersion")
    let bmcVersion ← unicode (orUnknown B manager "FirmwareVersion")
    pure {
      model, serial, biosVersion, bmcVersion, devices
      cpus := cpus.toNat
      memoryGib := memoryGib.toNat }
  else none

/-- `parse_inventory` -/
def parseInventory (system manager : Object) (devices : List PcieDevice) :
    Except Failure Inventory := do
  let cpus ← amount B system "ProcessorSummary" "Count"
  let memoryGib ← amount B system "MemorySummary" "TotalSystemMemoryGiB"
  validated (inventoryFields B system manager cpus memoryGib devices)

/-! ## What is raised -/

section Raises

variable {α β : Type} {B} {data member oem interface : Object} {target what : PyText}
  {found : List Object} {v : PyJson} {width n : Int} {cs : PyText}

/-- Computations in a row: what is asked of each, up to the first one that does not go on. -/
def UpTo (goesOn asked : α → Prop) : List α → Prop
  | [] => True
  | x :: xs => asked x ∧ (goesOn x → UpTo goesOn asked xs)

/-- The answer has the members that it counts; the objects among them are read. -/
def Collects (data : Object) (found : List Object) : Prop :=
  ∃ xs, get data "Members" = .list xs ∧
    (∀ n, asInt (get data "Members@odata.count") = some n → n = xs.length) ∧
    found = xs.filterMap asDict

/-- A text that Unicode has. -/
def IsUnicode (cs : PyText) : Prop := ∃ s, unicode cs = some s

/-- What an entry of the log takes for the model to be built. -/
structure EntryOk (B : Builtins) (member : Object) : Prop where
  id : 0 ≤ entryId B member
  created : IsUnicode (createdOf B member)
  message : IsUnicode (messageOf B member)
  sensor : ∀ cs ∈ optionalText B member "SensorType", IsUnicode cs

/-- A member that is left out, or falsy, or has members of its own. -/
def IsSection (value : PyJson) (items : Object) : Prop :=
  (value.truth = false ∧ items = []) ∨ (value.truth = true ∧ value = .dict items)

/-- The members of a device that its link is read from. -/
def Readable (member oem interface : Object) : Prop :=
  IsSection (get member "PCIeInterface") interface ∧
    ∃ vendor, IsSection (get member "Oem") vendor ∧ IsSection (get vendor "Slas") oem

/-- The device has a link state that can be used. -/
structure Linked (B : Builtins) (oem interface : Object) (width : Int) : Prop where
  width : asInt (get interface "LanesInUse") = some width
  speed : ∃ gts, speed B (get interface "PCIeType") = some gts
  bdf : bdfOf B oem ≠ []

/-- What a device with a link state takes for the model to be built. -/
structure DeviceOk (B : Builtins) (member oem interface : Object) (width : Int) : Prop where
  bdf : ∃ s, unicode (bdfOf B oem) = some s ∧ isBdf s.toList = true
  name : IsUnicode (nameOf B member (bdfOf B oem))
  vendorId : IsUnicode (oemText B oem "VendorId")
  deviceId : IsUnicode (oemText B oem "DeviceId")
  classCode : IsUnicode (oemText B oem "ClassCode")
  firmware : ∀ cs ∈ optionalText B member "FirmwareVersion", IsUnicode cs
  lanes : 1 ≤ width ∧ width ≤ 32
  maxWidth : ∃ n, toInt B ((get interface "MaxLanes").orElse (.int width)) = .ok n ∧
    1 ≤ n ∧ n ≤ 32

def HasLink (B : Builtins) (member : Object) : Prop :=
  ∃ oem interface, Readable member oem interface ∧ ∃ width, Linked B oem interface width

/-- The sections of the device have members, and if it has a link state, it has what the
    model takes. -/
def Orderly (B : Builtins) (member : Object) : Prop :=
  ∃ oem interface, Readable member oem interface ∧
    ∀ width, Linked B oem interface width → DeviceOk B member oem interface width

/-- An amount that `int` takes: it is left out, or a number, or a text of one. -/
def IsAmount (B : Builtins) (data : Object) (key field : String) (n : Int) : Prop :=
  ∃ summary, IsSection (get data key) summary ∧
    toInt B ((get summary field).orElse (.int 0)) = .ok n

/-- What the answers take for the model to be built. -/
structure InventoryOk (B : Builtins) (system manager : Object) : Prop where
  cpus : ∃ n, IsAmount B system "ProcessorSummary" "Count" n ∧ 0 ≤ n
  memory : ∃ n, IsAmount B system "MemorySummary" "TotalSystemMemoryGiB" n ∧ 0 ≤ n
  model : IsUnicode (orUnknown B system "Model")
  serial : IsUnicode (orUnknown B system "SerialNumber")
  bios : IsUnicode (orUnknown B system "BiosVersion")
  bmc : IsUnicode (orUnknown B manager "FirmwareVersion")

end Raises

end Hal

end Slas
