/-
  Slas.Diff.Exact

  What a comparison of two snapshots reports: a finding for each thing that changed and none for
  anything else, one for each device and kind of change.
-/

import Mathlib.Data.List.Nodup
import Slas.Diff.Snapshots

namespace Slas

namespace Diff

/-! ## Devices and versions by their keys -/

/-- No two devices of a snapshot share an address. -/
def Snapshot.Keyed (s : Snapshot) : Prop := (s.inventory.devices.map PcieDevice.bdf).Nodup

section

variable {devices : List PcieDevice} {bdf : String} {d : PcieDevice}

theorem byBdf_eq (h : (devices.map PcieDevice.bdf).Nodup) :
    byBdf devices = devices.map fun d => (d.bdf, d) := by
  have hkeys : (Dict.keys ([] ++ devices.map fun d => (d.bdf, d))).Nodup := by
    simpa [Dict.keys, Function.comp_def] using h
  have hfold := Dict.foldl_set_of_nodup hkeys
  rwa [List.foldl_map] at hfold

/-- The device at an address. -/
theorem lookup_byBdf (h : (devices.map PcieDevice.bdf).Nodup) :
    (byBdf devices).lookup bdf = some d ↔ d ∈ devices ∧ d.bdf = bdf := by
  rw [byBdf_eq h]
  constructor
  · intro hlookup
    obtain ⟨e, he, heq⟩ := List.mem_map.mp (Dict.mem_of_lookup hlookup)
    cases heq
    exact ⟨he, rfl⟩
  · rintro ⟨hd, rfl⟩
    have hkeys : (Dict.keys (devices.map fun d => (d.bdf, d))).Nodup := by
      simpa [Dict.keys, Function.comp_def] using h
    exact Dict.lookup_eq_of_mem hkeys (List.mem_map_of_mem hd)

theorem lookup_byBdf_none (h : (devices.map PcieDevice.bdf).Nodup) :
    (byBdf devices).lookup bdf = none ↔ ∀ d ∈ devices, d.bdf ≠ bdf := by
  rw [Option.eq_none_iff_forall_ne_some]
  exact ⟨fun hnone d hd heq => hnone d ((lookup_byBdf h).mpr ⟨hd, heq⟩),
    fun hall d hlookup => hall d ((lookup_byBdf h).mp hlookup).1 ((lookup_byBdf h).mp hlookup).2⟩

end

theorem length_of_isBdf {cs : List Char} (h : isBdf cs = true) : cs.length = 12 := by
  unfold isBdf at h
  split at h
  · rfl
  · cases h

/-- A label tells the name and the address of the device. -/
theorem PcieDevice.label_inj {d e : PcieDevice} (h : d.label = e.label) :
    d.name = e.name ∧ d.bdf = e.bdf := by
  have hlist := congrArg String.toList h
  simp only [label, String.toList_append] at hlist
  have hopen := List.append_cancel_right hlist
  have hlength : d.bdf.toList.length = e.bdf.toList.length :=
    (length_of_isBdf d.bdf_ok).trans (length_of_isBdf e.bdf_ok).symm
  obtain ⟨hname, hbdf⟩ := List.append_inj' hopen hlength
  exact ⟨String.toList_inj.mp (List.append_cancel_right hname), String.toList_inj.mp hbdf⟩

/-- No label is the name of another kind of firmware: it ends with its bracket. -/
theorem PcieDevice.label_ne {d : PcieDevice} {name : String} (h : name.toList.getLast? ≠ some ')') :
    d.label ≠ name := by
  rintro rfl
  refine h ?_
  rw [label, String.toList_append]
  exact List.getLast?_concat

/-- The versions a snapshot reports. -/
inductive Versioned (inventory : Inventory) : String → String → Prop where
  | bios : Versioned inventory "BIOS" inventory.biosVersion
  | bmc : Versioned inventory "BMC" inventory.bmcVersion
  | device {d version} : d ∈ inventory.devices → d.version = some version →
      Versioned inventory d.label version

theorem Inventory.firmware_eq (inventory : Inventory) :
    inventory.firmware =
      (inventory.devices.filterMap fun d => d.version.map (d.label, ·)).foldl
        (fun d item => Dict.set item.1 item.2 d)
        [("BIOS", inventory.biosVersion), ("BMC", inventory.bmcVersion)] := by
  rw [List.foldl_filterMap]
  unfold firmware
  congr 1
  funext versions device
  cases device.version <;> rfl

theorem nodup_labels {devices : List PcieDevice} (h : (devices.map PcieDevice.bdf).Nodup) :
    (Dict.keys (devices.filterMap fun d => d.version.map (d.label, ·))).Nodup := by
  rw [Dict.keys, List.Nodup, List.pairwise_map, List.pairwise_filterMap]
  refine (List.pairwise_map.mp h).imp ?_
  intro d e hne item hitem item' hitem' heq
  obtain ⟨_, -, rfl⟩ := Option.map_eq_some_iff.mp hitem
  obtain ⟨_, -, rfl⟩ := Option.map_eq_some_iff.mp hitem'
  exact hne (PcieDevice.label_inj heq).2

/-- What the dict of versions says of a name. -/
theorem lookup_firmware {inventory : Inventory} {name version : String}
    (h : (inventory.devices.map PcieDevice.bdf).Nodup) :
    inventory.firmware.lookup name = some version ↔ Versioned inventory name version := by
  rw [inventory.firmware_eq, Dict.lookup_foldl_set (nodup_labels h), Option.or_eq_some_iff]
  constructor
  · rintro (hdevice | ⟨-, hfixed⟩)
    · obtain ⟨d, hd, hitem⟩ := List.mem_filterMap.mp (Dict.mem_of_lookup hdevice)
      obtain ⟨v, hv, heq⟩ := Option.map_eq_some_iff.mp hitem
      cases heq
      exact .device hd hv
    · have hmem := Dict.mem_of_lookup hfixed
      simp only [List.mem_cons, Prod.mk.injEq, List.not_mem_nil, or_false] at hmem
      rcases hmem with ⟨rfl, rfl⟩ | ⟨rfl, rfl⟩
      · exact .bios
      · exact .bmc
  · have hnone : ∀ name : String, name.toList.getLast? ≠ some ')' →
        (inventory.devices.filterMap fun d => d.version.map (d.label, ·)).lookup name = none := by
      intro name hname
      rw [Option.eq_none_iff_forall_ne_some]
      intro v hv
      obtain ⟨d, -, hitem⟩ := List.mem_filterMap.mp (Dict.mem_of_lookup hv)
      obtain ⟨_, -, heq⟩ := Option.map_eq_some_iff.mp hitem
      cases heq
      exact PcieDevice.label_ne hname rfl
    intro hversioned
    cases hversioned with
    | bios => exact .inr ⟨hnone "BIOS" (by decide), by simp⟩
    | bmc => exact .inr ⟨hnone "BMC" (by decide), by simp [List.lookup_cons]⟩
    | @device d _ hd hv =>
      have hmem : (d.label, version) ∈
          inventory.devices.filterMap fun d => d.version.map (d.label, ·) :=
        List.mem_filterMap.mpr ⟨d, hd, by rw [hv]; rfl⟩
      exact .inl (Dict.lookup_eq_of_mem (nodup_labels h) hmem)

/-! ## What the loops report -/

section

variable {V : Type} {d e : List (String × V)} {key : String}

theorem mem_keysOnlyOf : key ∈ keysOnlyOf d e ↔ key ∈ Dict.keys d ∧ key ∉ Dict.keys e := by
  rw [keysOnlyOf, (List.perm_insertionSort _ _).mem_iff, List.mem_filter, decide_eq_true_iff]

theorem mem_keysOfBoth : key ∈ keysOfBoth d e ↔ key ∈ Dict.keys d ∧ key ∈ Dict.keys e := by
  rw [keysOfBoth, (List.perm_insertionSort _ _).mem_iff, List.mem_filter, decide_eq_true_iff]

theorem nodup_keysOnlyOf (h : (Dict.keys d).Nodup) : (keysOnlyOf d e).Nodup :=
  (List.perm_insertionSort _ _).nodup_iff.mpr (h.filter _)

theorem nodup_keysOfBoth (h : (Dict.keys d).Nodup) : (keysOfBoth d e).Nodup :=
  (List.perm_insertionSort _ _).nodup_iff.mpr (h.filter _)

theorem mem_keys_of_lookup {value : V} (h : d.lookup key = some value) : key ∈ Dict.keys d :=
  Dict.lookup_isSome_iff.mp (by rw [h]; rfl)

theorem lookup_eq_none_iff : d.lookup key = none ↔ key ∉ Dict.keys d := by
  rw [← Dict.lookup_isSome_iff, Option.not_isSome_iff_eq_none]

/-- A loop over the keys of one side only. -/
theorem mem_onlyOf {find : String → V → DiffFinding} {f : DiffFinding} :
    f ∈ onlyOf d e find ↔
      ∃ key value, d.lookup key = some value ∧ e.lookup key = none ∧ f = find key value := by
  simp only [onlyOf, List.mem_flatMap, mem_keysOnlyOf, Option.mem_toList, Option.map_eq_some_iff]
  constructor
  · rintro ⟨key, ⟨-, hnot⟩, value, hvalue, rfl⟩
    exact ⟨key, value, hvalue, lookup_eq_none_iff.mpr hnot, rfl⟩
  · rintro ⟨key, value, hvalue, hnone, rfl⟩
    exact ⟨key, ⟨mem_keys_of_lookup hvalue, lookup_eq_none_iff.mp hnone⟩, value, hvalue, rfl⟩

theorem mem_compared {find : V → V → List DiffFinding} {f : DiffFinding} :
    f ∈ compared d e find key ↔
      ∃ old new, d.lookup key = some old ∧ e.lookup key = some new ∧ f ∈ find old new := by
  unfold compared
  split
  next old new hold hnew => simp [hold, hnew]
  next hnone =>
    constructor
    · intro h
      cases h
    · rintro ⟨old, new, hold, hnew, -⟩
      exact absurd hnew (hnone old new hold)

theorem mem_overKeys {keys : List String} {find : String → V → V → List DiffFinding}
    {f : DiffFinding} :
    f ∈ overKeys keys d e find ↔ ∃ key ∈ keys, ∃ old new, d.lookup key = some old ∧
      e.lookup key = some new ∧ f ∈ find key old new := by
  simp only [overKeys, List.mem_flatMap, mem_compared]

/-- A loop over the keys of both sides. -/
theorem mem_ofBoth {find : String → V → V → List DiffFinding} {f : DiffFinding} :
    f ∈ overKeys (keysOfBoth d e) d e find ↔
      ∃ key old new, d.lookup key = some old ∧ e.lookup key = some new ∧ f ∈ find key old new := by
  simp only [mem_overKeys, mem_keysOfBoth]
  constructor
  · rintro ⟨key, -, old, new, hold, hnew, hf⟩
    exact ⟨key, old, new, hold, hnew, hf⟩
  · rintro ⟨key, old, new, hold, hnew, hf⟩
    exact ⟨key, ⟨mem_keys_of_lookup hold, mem_keys_of_lookup hnew⟩, old, new, hold, hnew, hf⟩

end

/-- What a finding is about: the address of a device, else the component. -/
def DiffFinding.subject (f : DiffFinding) : String := f.bdf.getD (f.component.getD "")

def DiffFinding.key (f : DiffFinding) : DiffKind × String := (f.kind, f.subject)

/-- A loop that finds at most one thing of a kind for a key finds nothing twice. -/
theorem nodup_keys_flatMap {keys : List String} {find : String → List DiffFinding}
    (hkeys : keys.Nodup) (hsubject : ∀ key, ∀ f ∈ find key, f.subject = key)
    (hkind : ∀ key, ((find key).map DiffFinding.kind).Nodup) :
    ((keys.flatMap find).map DiffFinding.key).Nodup := by
  rw [List.map_flatMap, List.nodup_flatMap]
  constructor
  · intro key _
    refine List.Nodup.of_map Prod.fst ?_
    rw [List.map_map]
    exact hkind key
  · refine hkeys.imp ?_
    intro k k' hne x hx hx'
    obtain ⟨f, hf, rfl⟩ := List.mem_map.mp hx
    obtain ⟨g, hg, heq⟩ := List.mem_map.mp hx'
    refine hne ?_
    rw [← hsubject k f hf, ← hsubject k' g hg]
    exact (congrArg Prod.snd heq).symm

/-! ## What changed -/

/-- The changes between two snapshots, by their kind and what they are about. -/
inductive Changed (b c : Snapshot) : DiffKind → String → Prop where
  | missing {d} : d ∈ b.inventory.devices → (∀ e ∈ c.inventory.devices, e.bdf ≠ d.bdf) →
      Changed b c .deviceMissing d.bdf
  | added {e} : e ∈ c.inventory.devices → (∀ d ∈ b.inventory.devices, d.bdf ≠ e.bdf) →
      Changed b c .deviceAdded e.bdf
  | width {d e} : d ∈ b.inventory.devices → e ∈ c.inventory.devices → d.bdf = e.bdf →
      e.width ≠ d.width → Changed b c .pcieWidth d.bdf
  | speed {d e} : d ∈ b.inventory.devices → e ∈ c.inventory.devices → d.bdf = e.bdf →
      e.speedGts ≠ d.speedGts → Changed b c .pcieSpeed d.bdf
  | firmware {name old new} : Versioned b.inventory name old → Versioned c.inventory name new →
      old ≠ new → Changed b c .firmware name
  | counter {name old new} : (name, old) ∈ b.counters.asDict → (name, new) ∈ c.counters.asDict →
      old < new → Changed b c .counter name
  | power : c.power ≠ b.power → Changed b c .power "power"

/-- Two snapshots agree on all that is compared. -/
structure Unchanged (b c : Snapshot) : Prop where
  presence : ∀ bdf, bdf ∈ b.inventory.devices.map PcieDevice.bdf ↔
    bdf ∈ c.inventory.devices.map PcieDevice.bdf
  width : ∀ d ∈ b.inventory.devices, ∀ e ∈ c.inventory.devices, d.bdf = e.bdf → e.width = d.width
  speed : ∀ d ∈ b.inventory.devices, ∀ e ∈ c.inventory.devices, d.bdf = e.bdf →
    e.speedGts = d.speedGts
  /-- of a name that reports a version on both sides -/
  firmware : ∀ name old new, Versioned b.inventory name old → Versioned c.inventory name new →
    old = new
  /-- none rose -/
  counters : ∀ name old new, (name, old) ∈ b.counters.asDict → (name, new) ∈ c.counters.asDict →
    new ≤ old
  /-- nothing but OK entries is new -/
  sel : ∀ e ∈ c.sel, e.severity ≠ .ok → ∃ k ∈ b.sel, k.key = e.key
  power : c.power = b.power

theorem newEntries_eq_nil {baseline current : List SelEntry} :
    newEntries baseline current = [] ↔
      ∀ e ∈ current, e.severity ≠ .ok → ∃ k ∈ baseline, k.key = e.key := by
  simp only [newEntries, List.filter_eq_nil_iff, List.mem_filter, decide_eq_true_iff,
    List.mem_map, not_not, and_imp]
  refine forall₂_congr fun e _ => ?_
  constructor
  · intro h hseverity
    by_contra hnot
    exact absurd (h hnot) hseverity
  · exact fun h hnot => by_contra fun hseverity => hnot (h hseverity)

/-- Nothing changed, and nothing is new in the log. -/
theorem unchanged_iff {b c : Snapshot} :
    Unchanged b c ↔
      (∀ kind subject, ¬ Changed b c kind subject) ∧ newEntries b.sel c.sel = [] := by
  constructor
  · intro h
    refine ⟨?_, newEntries_eq_nil.mpr h.sel⟩
    rintro kind subject (⟨hd, hnone⟩ | ⟨he, hnone⟩ | ⟨hd, he, hbdf, hne⟩ | ⟨hd, he, hbdf, hne⟩ |
      ⟨hold, hnew, hne⟩ | ⟨hold, hnew, hlt⟩ | hne)
    · obtain ⟨e, he, heq⟩ := List.mem_map.mp ((h.presence _).mp (List.mem_map_of_mem hd))
      exact hnone e he heq
    · obtain ⟨d, hd, heq⟩ := List.mem_map.mp ((h.presence _).mpr (List.mem_map_of_mem he))
      exact hnone d hd heq
    · exact hne (h.width _ hd _ he hbdf)
    · exact hne (h.speed _ hd _ he hbdf)
    · exact hne (h.firmware _ _ _ hold hnew)
    · exact absurd hlt (not_lt.mpr (h.counters _ _ _ hold hnew))
    · exact hne h.power
  · rintro ⟨hnone, hsel⟩
    refine ⟨fun bdf => ⟨fun hb => ?_, fun hc => ?_⟩, ?_, ?_, ?_, ?_, newEntries_eq_nil.mp hsel, ?_⟩
    · obtain ⟨d, hd, rfl⟩ := List.mem_map.mp hb
      by_contra hnot
      refine hnone _ _ (.missing hd fun e he heq => hnot ?_)
      rw [← heq]
      exact List.mem_map_of_mem he
    · obtain ⟨e, he, rfl⟩ := List.mem_map.mp hc
      by_contra hnot
      refine hnone _ _ (.added he fun d hd heq => hnot ?_)
      rw [← heq]
      exact List.mem_map_of_mem hd
    · exact fun d hd e he hbdf => by_contra fun hne => hnone _ _ (.width hd he hbdf hne)
    · exact fun d hd e he hbdf => by_contra fun hne => hnone _ _ (.speed hd he hbdf hne)
    · exact fun name old new hold hnew => by_contra fun hne => hnone _ _ (.firmware hold hnew hne)
    · exact fun name old new hold hnew => not_lt.mp fun hlt => hnone _ _ (.counter hold hnew hlt)
    · exact by_contra fun hne => hnone _ _ (.power hne)

/-! ## The findings of a comparison -/

theorem nodup_counterNames (counters : Counters) : (Dict.keys counters.asDict).Nodup := by
  simp [Dict.keys, Counters.asDict]

theorem lookup_asDict {counters : Counters} {name : String} {value : Nat} :
    counters.asDict.lookup name = some value ↔ (name, value) ∈ counters.asDict :=
  ⟨Dict.mem_of_lookup, Dict.lookup_eq_of_mem (nodup_counterNames counters)⟩

section

variable {b c : Snapshot} {where_ : String} {f : DiffFinding}

/-- All that a comparison can find of the devices, the firmware and the counters. -/
theorem mem_deviceFindings (hb : b.Keyed) (hc : c.Keyed) :
    f ∈ deviceFindings b c where_ ↔
      (∃ d ∈ b.inventory.devices, (∀ e ∈ c.inventory.devices, e.bdf ≠ d.bdf) ∧
        f = missingFinding where_ d.bdf d) ∨
      (∃ e ∈ c.inventory.devices, (∀ d ∈ b.inventory.devices, d.bdf ≠ e.bdf) ∧
        f = addedFinding where_ e.bdf e) ∨
      (∃ d ∈ b.inventory.devices, ∃ e ∈ c.inventory.devices, d.bdf = e.bdf ∧
        f ∈ linkFindings where_ d.bdf d e) ∨
      (∃ name old new, Versioned b.inventory name old ∧ Versioned c.inventory name new ∧
        f ∈ firmwareFindings where_ name old new) ∨
      ∃ name old new, (name, old) ∈ b.counters.asDict ∧ (name, new) ∈ c.counters.asDict ∧
        f ∈ counterFindings where_ name old new := by
  simp only [deviceFindings, List.mem_append, mem_onlyOf, mem_ofBoth, or_assoc]
  refine or_congr ?_ (or_congr ?_ (or_congr ?_ (or_congr ?_ ?_)))
  · constructor
    · rintro ⟨bdf, d, hlookup, hnone, rfl⟩
      obtain ⟨hd, rfl⟩ := (lookup_byBdf hb).mp hlookup
      exact ⟨d, hd, (lookup_byBdf_none hc).mp hnone, rfl⟩
    · rintro ⟨d, hd, hnone, rfl⟩
      exact ⟨d.bdf, d, (lookup_byBdf hb).mpr ⟨hd, rfl⟩, (lookup_byBdf_none hc).mpr hnone, rfl⟩
  · constructor
    · rintro ⟨bdf, e, hlookup, hnone, rfl⟩
      obtain ⟨he, rfl⟩ := (lookup_byBdf hc).mp hlookup
      exact ⟨e, he, (lookup_byBdf_none hb).mp hnone, rfl⟩
    · rintro ⟨e, he, hnone, rfl⟩
      exact ⟨e.bdf, e, (lookup_byBdf hc).mpr ⟨he, rfl⟩, (lookup_byBdf_none hb).mpr hnone, rfl⟩
  · constructor
    · rintro ⟨bdf, d, e, hold, hnew, hf⟩
      obtain ⟨hd, rfl⟩ := (lookup_byBdf hb).mp hold
      obtain ⟨he, heq⟩ := (lookup_byBdf hc).mp hnew
      exact ⟨d, hd, e, he, heq.symm, hf⟩
    · rintro ⟨d, hd, e, he, heq, hf⟩
      exact ⟨d.bdf, d, e, (lookup_byBdf hb).mpr ⟨hd, rfl⟩, (lookup_byBdf hc).mpr ⟨he, heq.symm⟩, hf⟩
  · simp only [lookup_firmware hb, lookup_firmware hc]
  · simp only [mem_overKeys, lookup_asDict]
    constructor
    · rintro ⟨name, -, old, new, hold, hnew, hf⟩
      exact ⟨name, old, new, hold, hnew, hf⟩
    · rintro ⟨name, old, new, hold, hnew, hf⟩
      exact ⟨name, List.mem_map_of_mem hold, old, new, hold, hnew, hf⟩

theorem mem_linkFindings {bdf : String} {d e : PcieDevice} :
    f ∈ linkFindings where_ bdf d e ↔
      (e.width ≠ d.width ∧ f = widthFinding where_ bdf d e) ∨
      (e.speedGts ≠ d.speedGts ∧ f = speedFinding where_ bdf d e) := by
  unfold linkFindings
  by_cases hw : e.width ≠ d.width <;> by_cases hs : e.speedGts ≠ d.speedGts <;> simp [hw, hs]

theorem mem_firmwareFindings {name old new : String}
    (hf : f ∈ firmwareFindings where_ name old new) : old ≠ new ∧ f.key = (.firmware, name) := by
  by_cases h : old = new
  · simp [firmwareFindings, h] at hf
  · simp only [firmwareFindings, ne_eq, h, not_false_eq_true, if_true, List.mem_singleton] at hf
    rw [hf]
    exact ⟨h, rfl⟩

theorem mem_counterFindings {name : String} {old new : Nat}
    (hf : f ∈ counterFindings where_ name old new) : old < new ∧ f.key = (.counter, name) := by
  by_cases h : old < new
  · simp only [counterFindings, h, if_true, List.mem_singleton] at hf
    rw [hf]
    exact ⟨h, rfl⟩
  · simp [counterFindings, h] at hf

theorem changed_of_mem (hb : b.Keyed) (hc : c.Keyed) (hf : f ∈ deviceFindings b c where_) :
    Changed b c f.kind f.subject ∧ f.kind ≠ .sel ∧ f.kind ≠ .power := by
  rcases (mem_deviceFindings hb hc).mp hf with ⟨d, hd, hnone, rfl⟩ | ⟨e, he, hnone, rfl⟩ |
    ⟨d, hd, e, he, heq, hf⟩ | ⟨name, old, new, hold, hnew, hf⟩ | ⟨name, old, new, hold, hnew, hf⟩
  · exact ⟨.missing hd hnone, by simp [missingFinding], by simp [missingFinding]⟩
  · exact ⟨.added he hnone, by simp [addedFinding], by simp [addedFinding]⟩
  · rcases mem_linkFindings.mp hf with ⟨hne, rfl⟩ | ⟨hne, rfl⟩
    · exact ⟨.width hd he heq hne, by simp [widthFinding], by simp [widthFinding]⟩
    · exact ⟨.speed hd he heq hne, by simp [speedFinding], by simp [speedFinding]⟩
  · obtain ⟨hne, hkey⟩ := mem_firmwareFindings hf
    obtain ⟨hkind, hsubject⟩ := Prod.mk.inj hkey
    rw [hkind, hsubject]
    exact ⟨.firmware hold hnew hne, by decide, by decide⟩
  · obtain ⟨hlt, hkey⟩ := mem_counterFindings hf
    obtain ⟨hkind, hsubject⟩ := Prod.mk.inj hkey
    rw [hkind, hsubject]
    exact ⟨.counter hold hnew hlt, by decide, by decide⟩

theorem mem_of_changed (hb : b.Keyed) (hc : c.Keyed) {kind : DiffKind} {subject : String}
    (h : Changed b c kind subject) (hkind : kind ≠ .power) :
    ∃ f ∈ deviceFindings b c where_, f.key = (kind, subject) := by
  cases h with
  | missing hd hnone =>
    exact ⟨_, (mem_deviceFindings hb hc).mpr (.inl ⟨_, hd, hnone, rfl⟩), rfl⟩
  | added he hnone =>
    exact ⟨_, (mem_deviceFindings hb hc).mpr (.inr (.inl ⟨_, he, hnone, rfl⟩)), rfl⟩
  | width hd he heq hne =>
    exact ⟨_, (mem_deviceFindings hb hc).mpr (.inr (.inr (.inl ⟨_, hd, _, he, heq,
      mem_linkFindings.mpr (.inl ⟨hne, rfl⟩)⟩))), rfl⟩
  | speed hd he heq hne =>
    exact ⟨_, (mem_deviceFindings hb hc).mpr (.inr (.inr (.inl ⟨_, hd, _, he, heq,
      mem_linkFindings.mpr (.inr ⟨hne, rfl⟩)⟩))), rfl⟩
  | @firmware _ old new hold hnew hne =>
    obtain ⟨f, hf⟩ : ∃ f, f ∈ firmwareFindings where_ subject old new := by
      simp [firmwareFindings, hne]
    exact ⟨f, (mem_deviceFindings hb hc).mpr (.inr (.inr (.inr (.inl ⟨subject, old, new, hold, hnew,
      hf⟩)))), (mem_firmwareFindings hf).2⟩
  | @counter _ old new hold hnew hlt =>
    obtain ⟨f, hf⟩ : ∃ f, f ∈ counterFindings where_ subject old new := by
      simp [counterFindings, hlt]
    exact ⟨f, (mem_deviceFindings hb hc).mpr (.inr (.inr (.inr (.inr ⟨subject, old, new, hold, hnew,
      hf⟩)))), (mem_counterFindings hf).2⟩
  | power => exact absurd rfl hkind

end

/-! ## Nothing is found twice -/

theorem nodup_keys_foldl_set {V : Type} (items d : List (String × V)) (h : (Dict.keys d).Nodup) :
    (Dict.keys (items.foldl (fun d item => Dict.set item.1 item.2 d) d)).Nodup := by
  induction items generalizing d with
  | nil => exact h
  | cons item items ih => exact ih _ (Dict.nodup_keys_set h)

theorem nodup_keys_byBdf (devices : List PcieDevice) : (Dict.keys (byBdf devices)).Nodup := by
  have h := nodup_keys_foldl_set (devices.map fun d => (d.bdf, d)) [] List.nodup_nil
  rwa [List.foldl_map] at h

theorem nodup_keys_firmware (inventory : Inventory) : (Dict.keys inventory.firmware).Nodup := by
  rw [inventory.firmware_eq]
  exact nodup_keys_foldl_set _ _ (by simp [Dict.keys])

/-- Findings of other kinds have other keys. -/
theorem nodup_keys_append {fs gs : List DiffFinding} (hf : (fs.map DiffFinding.key).Nodup)
    (hg : (gs.map DiffFinding.key).Nodup) (h : ∀ f ∈ fs, ∀ g ∈ gs, f.kind ≠ g.kind) :
    ((fs ++ gs).map DiffFinding.key).Nodup := by
  rw [List.map_append]
  refine hf.append hg fun key hkf hkg => ?_
  obtain ⟨f, hf, rfl⟩ := List.mem_map.mp hkf
  obtain ⟨g, hg, heq⟩ := List.mem_map.mp hkg
  exact h f hf g hg (congrArg Prod.fst heq).symm

section

variable {V : Type} {d e : List (String × V)}

theorem nodup_onlyOf {kind : DiffKind} {find : String → V → DiffFinding}
    (hd : (Dict.keys d).Nodup) (hfind : ∀ key value, (find key value).key = (kind, key)) :
    ((onlyOf d e find).map DiffFinding.key).Nodup := by
  refine nodup_keys_flatMap (nodup_keysOnlyOf hd) (fun key f hf => ?_) fun key => ?_
  · obtain ⟨value, -, rfl⟩ := Option.map_eq_some_iff.mp (Option.mem_toList.mp hf)
    exact congrArg Prod.snd (hfind key value)
  · cases d.lookup key <;> simp

/-- A comparison of two values that finds each kind once, under the key it is for. -/
theorem nodup_overKeys {keys : List String} {find : String → V → V → List DiffFinding}
    (hkeys : keys.Nodup) (hsubject : ∀ key old new, ∀ f ∈ find key old new, f.subject = key)
    (hkind : ∀ key old new, ((find key old new).map DiffFinding.kind).Nodup) :
    ((overKeys keys d e find).map DiffFinding.key).Nodup := by
  refine nodup_keys_flatMap hkeys (fun key f hf => ?_) fun key => ?_
  · obtain ⟨old, new, -, -, hf⟩ := mem_compared.mp hf
    exact hsubject key old new f hf
  · unfold compared
    split
    next old new _ _ => exact hkind key old new
    next => exact List.nodup_nil

end

section

variable {where_ : String}

theorem subject_linkFindings (bdf : String) (old new : PcieDevice) :
    ∀ f ∈ linkFindings where_ bdf old new, f.subject = bdf := by
  intro f hf
  rcases mem_linkFindings.mp hf with ⟨-, rfl⟩ | ⟨-, rfl⟩ <;> rfl

theorem nodup_linkFindings (bdf : String) (old new : PcieDevice) :
    ((linkFindings where_ bdf old new).map DiffFinding.kind).Nodup := by
  unfold linkFindings
  split_ifs <;> simp [widthFinding, speedFinding]

theorem subject_firmwareFindings (name old new : String) :
    ∀ f ∈ firmwareFindings where_ name old new, f.subject = name :=
  fun _ hf => congrArg Prod.snd (mem_firmwareFindings hf).2

theorem subject_counterFindings (name : String) (old new : Nat) :
    ∀ f ∈ counterFindings where_ name old new, f.subject = name :=
  fun _ hf => congrArg Prod.snd (mem_counterFindings hf).2

/-- One finding for each subject and kind. -/
theorem nodup_deviceFindings (b c : Snapshot) :
    ((deviceFindings b c where_).map DiffFinding.key).Nodup := by
  have hmissing : ∀ f ∈ onlyOf (byBdf b.inventory.devices) (byBdf c.inventory.devices)
      (missingFinding where_), f.kind = .deviceMissing := by
    intro f hf
    obtain ⟨_, _, -, -, rfl⟩ := mem_onlyOf.mp hf
    rfl
  have hadded : ∀ f ∈ onlyOf (byBdf c.inventory.devices) (byBdf b.inventory.devices)
      (addedFinding where_), f.kind = .deviceAdded := by
    intro f hf
    obtain ⟨_, _, -, -, rfl⟩ := mem_onlyOf.mp hf
    rfl
  have hlink : ∀ f ∈ overKeys (keysOfBoth (byBdf b.inventory.devices) (byBdf c.inventory.devices))
      (byBdf b.inventory.devices) (byBdf c.inventory.devices) (linkFindings where_),
      f.kind = .pcieWidth ∨ f.kind = .pcieSpeed := by
    intro f hf
    obtain ⟨_, -, _, _, -, -, hf⟩ := mem_overKeys.mp hf
    rcases mem_linkFindings.mp hf with ⟨-, rfl⟩ | ⟨-, rfl⟩
    · exact .inl rfl
    · exact .inr rfl
  have hfirmware : ∀ f ∈ overKeys (keysOfBoth b.inventory.firmware c.inventory.firmware)
      b.inventory.firmware c.inventory.firmware (firmwareFindings where_), f.kind = .firmware := by
    intro f hf
    obtain ⟨_, -, _, _, -, -, hf⟩ := mem_overKeys.mp hf
    exact congrArg Prod.fst (mem_firmwareFindings hf).2
  have hcounter : ∀ f ∈ overKeys (Dict.keys b.counters.asDict) b.counters.asDict c.counters.asDict
      (counterFindings where_), f.kind = .counter := by
    intro f hf
    obtain ⟨_, -, _, _, -, -, hf⟩ := mem_overKeys.mp hf
    exact congrArg Prod.fst (mem_counterFindings hf).2
  refine nodup_keys_append (nodup_keys_append (nodup_keys_append (nodup_keys_append
    (nodup_onlyOf (nodup_keys_byBdf _) fun _ _ => rfl)
    (nodup_onlyOf (nodup_keys_byBdf _) fun _ _ => rfl) ?_)
    (nodup_overKeys (nodup_keysOfBoth (nodup_keys_byBdf _)) subject_linkFindings
      nodup_linkFindings) ?_)
    (nodup_overKeys (nodup_keysOfBoth (nodup_keys_firmware _)) subject_firmwareFindings ?_) ?_)
    (nodup_overKeys (nodup_counterNames _) subject_counterFindings ?_) ?_
  · intro f hf g hg heq
    simp [hmissing f hf, hadded g hg] at heq
  · intro f hf g hg heq
    rcases List.mem_append.mp hf with hf | hf <;> rcases hlink g hg with h | h
    · simp [hmissing f hf, h] at heq
    · simp [hmissing f hf, h] at heq
    · simp [hadded f hf, h] at heq
    · simp [hadded f hf, h] at heq
  · intro name old new
    unfold firmwareFindings
    split_ifs <;> simp
  · intro f hf g hg heq
    rw [hfirmware g hg] at heq
    rcases List.mem_append.mp hf with hf | hf
    · rcases List.mem_append.mp hf with hf | hf
      · simp [hmissing f hf] at heq
      · simp [hadded f hf] at heq
    · rcases hlink f hf with h | h <;> simp [h] at heq
  · intro name old new
    unfold counterFindings
    split_ifs <;> simp
  · intro f hf g hg heq
    rw [hcounter g hg] at heq
    rcases List.mem_append.mp hf with hf | hf
    · rcases List.mem_append.mp hf with hf | hf
      · rcases List.mem_append.mp hf with hf | hf
        · simp [hmissing f hf] at heq
        · simp [hadded f hf] at heq
      · rcases hlink f hf with h | h <;> simp [h] at heq
    · simp [hfirmware f hf] at heq

end

/-! ## The report -/

/-- What a report says changed, but for the new entries of the log. -/
def DiffReport.changes (report : DiffReport) : List (DiffKind × String) :=
  (report.findings.filter fun f => f.kind ≠ .sel).map DiffFinding.key

section

variable {b c : Snapshot} {context : String}

theorem mem_powerFindings {where_ : String} {old new : PowerState} {f : DiffFinding} :
    f ∈ powerFindings where_ old new → new ≠ old ∧ f.key = (.power, "power") := by
  intro hf
  by_cases h : new = old
  · simp [powerFindings, h] at hf
  · simp only [powerFindings, ne_eq, h, not_false_eq_true, if_true, List.mem_singleton] at hf
    rw [hf]
    exact ⟨h, rfl⟩

theorem changes_diffSnapshots (hb : b.Keyed) (hc : c.Keyed) :
    (diffSnapshots b c context).changes =
      (deviceFindings b c (whereOf context) ++
        powerFindings (whereOf context) b.power c.power).map DiffFinding.key := by
  have hdevices : (deviceFindings b c (whereOf context)).filter (fun f => f.kind ≠ .sel) =
      deviceFindings b c (whereOf context) :=
    List.filter_eq_self.mpr fun f hf => by simpa using (changed_of_mem hb hc hf).2.1
  have hsel : ((newEntries b.sel c.sel).map (selFinding (whereOf context))).filter
      (fun f => f.kind ≠ .sel) = [] := by
    rw [List.filter_eq_nil_iff]
    intro f hf
    obtain ⟨e, -, rfl⟩ := List.mem_map.mp hf
    simp [selFinding]
  have hpower : (powerFindings (whereOf context) b.power c.power).filter (fun f => f.kind ≠ .sel) =
      powerFindings (whereOf context) b.power c.power := by
    refine List.filter_eq_self.mpr fun f hf => ?_
    have hkind : f.kind = .power := congrArg Prod.fst (mem_powerFindings hf).2
    simp [hkind]
  rw [DiffReport.changes, diffSnapshots, List.filter_append, List.filter_append, hdevices, hsel,
    hpower, List.append_nil]

theorem sel_diffSnapshots (hb : b.Keyed) (hc : c.Keyed) :
    (diffSnapshots b c context).findings.filter (fun f => f.kind = .sel) =
      (newEntries b.sel c.sel).map (selFinding (whereOf context)) := by
  have hdevices : (deviceFindings b c (whereOf context)).filter (fun f => f.kind = .sel) = [] :=
    List.filter_eq_nil_iff.mpr fun f hf => by simpa using (changed_of_mem hb hc hf).2.1
  have hsel : ((newEntries b.sel c.sel).map (selFinding (whereOf context))).filter
      (fun f => f.kind = .sel) = (newEntries b.sel c.sel).map (selFinding (whereOf context)) := by
    refine List.filter_eq_self.mpr fun f hf => ?_
    obtain ⟨e, -, rfl⟩ := List.mem_map.mp hf
    simp [selFinding]
  have hpower : (powerFindings (whereOf context) b.power c.power).filter
      (fun f => f.kind = .sel) = [] := by
    refine List.filter_eq_nil_iff.mpr fun f hf => ?_
    have hkind : f.kind = .power := congrArg Prod.fst (mem_powerFindings hf).2
    simp [hkind]
  rw [diffSnapshots, List.filter_append, List.filter_append, hdevices, hsel, hpower,
    List.append_nil, List.nil_append]

theorem nodup_changes (hb : b.Keyed) (hc : c.Keyed) :
    (diffSnapshots b c context).changes.Nodup := by
  rw [changes_diffSnapshots hb hc]
  refine nodup_keys_append (nodup_deviceFindings b c) ?_ fun f hf g hg heq => ?_
  · unfold powerFindings
    split_ifs <;> simp
  · refine (changed_of_mem hb hc hf).2.2 (heq.trans ?_)
    exact congrArg Prod.fst (mem_powerFindings hg).2

/-- The report says exactly what changed. -/
theorem mem_changes (hb : b.Keyed) (hc : c.Keyed) {kind : DiffKind} {subject : String} :
    (kind, subject) ∈ (diffSnapshots b c context).changes ↔ Changed b c kind subject := by
  rw [changes_diffSnapshots hb hc, List.mem_map]
  constructor
  · rintro ⟨f, hf, hkey⟩
    obtain ⟨rfl, rfl⟩ := Prod.mk.inj hkey
    rcases List.mem_append.mp hf with hf | hf
    · exact (changed_of_mem hb hc hf).1
    · obtain ⟨hne, hkey⟩ := mem_powerFindings hf
      obtain ⟨hkind, hsubject⟩ := Prod.mk.inj hkey
      rw [hkind, hsubject]
      exact .power hne
  · intro h
    by_cases hkind : kind = .power
    · subst hkind
      cases h with
      | power hne =>
        obtain ⟨f, hf⟩ : ∃ f, f ∈ powerFindings (whereOf context) b.power c.power := by
          simp [powerFindings, hne]
        exact ⟨f, List.mem_append_right _ hf, (mem_powerFindings hf).2⟩
    · obtain ⟨f, hf, hkey⟩ := mem_of_changed hb hc h hkind
      exact ⟨f, List.mem_append_left _ hf, hkey⟩

/-- No finding is left when nothing changed and nothing is new. -/
theorem clean_iff (hb : b.Keyed) (hc : c.Keyed) :
    (diffSnapshots b c context).clean = true ↔ Unchanged b c := by
  rw [unchanged_iff, DiffReport.clean, List.isEmpty_iff]
  constructor
  · intro hempty
    refine ⟨fun kind subject h => ?_, ?_⟩
    · have hmem : (kind, subject) ∈ (diffSnapshots b c context).changes :=
        (mem_changes hb hc).mpr h
      rw [DiffReport.changes, hempty] at hmem
      cases hmem
    · have hsel : (diffSnapshots b c context).findings.filter (fun f => f.kind = .sel) = _ :=
        sel_diffSnapshots hb hc
      rw [hempty] at hsel
      exact List.map_eq_nil_iff.mp hsel.symm
  · rintro ⟨hnone, hsel⟩
    rw [List.eq_nil_iff_forall_not_mem]
    intro f hf
    by_cases hkind : f.kind = .sel
    · have hmem : f ∈ (diffSnapshots b c context).findings.filter (fun f => f.kind = .sel) :=
        List.mem_filter.mpr ⟨hf, by simpa using hkind⟩
      rw [sel_diffSnapshots hb hc, hsel] at hmem
      cases hmem
    · exact hnone _ _ ((mem_changes hb hc).mp (List.mem_map_of_mem (List.mem_filter.mpr
        ⟨hf, by simpa using hkind⟩)))

theorem Unchanged.refl (hb : b.Keyed) : Unchanged b b where
  presence _ := Iff.rfl
  width d hd e he heq := by rw [List.inj_on_of_nodup_map hb hd he heq]
  speed d hd e he heq := by rw [List.inj_on_of_nodup_map hb hd he heq]
  firmware name old new hold hnew := by
    have h := ((lookup_firmware hb).mpr hold).symm.trans ((lookup_firmware hb).mpr hnew)
    exact Option.some.inj h
  counters name old new hold hnew := by
    have h := (lookup_asDict.mpr hold).symm.trans (lookup_asDict.mpr hnew)
    exact (Option.some.inj h).ge
  sel e he _ := ⟨e, he, rfl⟩
  power := rfl

/-- A device is missing one way when it is added the other way. -/
theorem changed_swap {bdf : String} :
    Changed c b .deviceMissing bdf ↔ Changed b c .deviceAdded bdf :=
  ⟨fun h => by cases h with | missing hd hnone => exact .added hd hnone,
    fun h => by cases h with | added he hnone => exact .missing he hnone⟩

end

theorem mem_foldl_set {V : Type} {items d : List (String × V)} {item : String × V}
    (h : item ∈ items.foldl (fun d item => Dict.set item.1 item.2 d) d) :
    item ∈ items ∨ item ∈ d := by
  induction items generalizing d with
  | nil => exact .inr h
  | cons first items ih =>
    rcases ih h with hmem | hmem
    · exact .inl (List.mem_cons_of_mem _ hmem)
    · rcases Dict.mem_set hmem with rfl | hmem
      · exact .inl List.mem_cons_self
      · exact .inr hmem

/-- A device found at an address is a device with that address, also where two share one. -/
theorem mem_of_lookup_byBdf {devices : List PcieDevice} {bdf : String} {d : PcieDevice}
    (h : (byBdf devices).lookup bdf = some d) : d ∈ devices ∧ d.bdf = bdf := by
  have hfold : byBdf devices =
      (devices.map fun d => (d.bdf, d)).foldl (fun d item => Dict.set item.1 item.2 d) [] := by
    rw [List.foldl_map]
    rfl
  have hmem := Dict.mem_of_lookup h
  rw [hfold] at hmem
  rcases mem_foldl_set hmem with hmem | hmem
  · obtain ⟨e, he, heq⟩ := List.mem_map.mp hmem
    cases heq
    exact ⟨he, rfl⟩
  · cases hmem

/-- A finding on a link is one of a device on both sides. -/
theorem link_of_mem {b c : Snapshot} {context : String} {f : DiffFinding}
    (hf : f ∈ (diffSnapshots b c context).findings)
    (hkind : f.kind = .pcieWidth ∨ f.kind = .pcieSpeed) :
    ∃ d ∈ b.inventory.devices, ∃ e ∈ c.inventory.devices,
      f ∈ linkFindings (whereOf context) d.bdf d e := by
  have hother : ∀ kind : DiffKind, f.kind = kind → kind ≠ .pcieWidth → kind ≠ .pcieSpeed →
      False := by
    rintro kind rfl hwidth hspeed
    exact hkind.elim hwidth hspeed
  simp only [diffSnapshots, deviceFindings, List.mem_append, mem_onlyOf, mem_overKeys] at hf
  rcases hf with (((((⟨_, _, -, -, rfl⟩ | ⟨_, _, -, -, rfl⟩) | hlink) | ⟨_, -, _, _, -, -, hf⟩) |
    ⟨_, -, _, _, -, -, hf⟩) | hsel) | hpower
  · exact (hother _ rfl (by simp [missingFinding]) (by simp [missingFinding])).elim
  · exact (hother _ rfl (by simp [addedFinding]) (by simp [addedFinding])).elim
  · obtain ⟨bdf, -, d, e, hold, hnew, hf⟩ := hlink
    obtain ⟨hd, rfl⟩ := mem_of_lookup_byBdf hold
    exact ⟨d, hd, e, (mem_of_lookup_byBdf hnew).1, hf⟩
  · exact (hother .firmware (congrArg Prod.fst (mem_firmwareFindings hf).2)
      (by decide) (by decide)).elim
  · exact (hother .counter (congrArg Prod.fst (mem_counterFindings hf).2)
      (by decide) (by decide)).elim
  · obtain ⟨_, -, rfl⟩ := List.mem_map.mp hsel
    exact (hother _ rfl (by simp [selFinding]) (by simp [selFinding])).elim
  · exact (hother .power (congrArg Prod.fst (mem_powerFindings hpower).2)
      (by decide) (by decide)).elim

/-- A comparison is exact: it is clean when nothing that is compared changed, it has one finding
    for each change and for each new entry of the log, and the other way round missing and added
    devices change places. -/
theorem diffSnapshots_exact (b c : Snapshot) (context : String) (hb : b.Keyed) (hc : c.Keyed) :
    ((diffSnapshots b c context).clean = true ↔ Unchanged b c) ∧
    (diffSnapshots b c context).changes.Nodup ∧
    (∀ kind subject, (kind, subject) ∈ (diffSnapshots b c context).changes ↔
      Changed b c kind subject) ∧
    (diffSnapshots b c context).findings.filter (fun f => f.kind = .sel) =
      (newEntries b.sel c.sel).map (selFinding (whereOf context)) ∧
    (diffSnapshots b b context).clean = true ∧
    ∀ bdf, ((.deviceMissing, bdf) ∈ (diffSnapshots c b context).changes ↔
        (.deviceAdded, bdf) ∈ (diffSnapshots b c context).changes) ∧
      ((.deviceAdded, bdf) ∈ (diffSnapshots c b context).changes ↔
        (.deviceMissing, bdf) ∈ (diffSnapshots b c context).changes) := by
  refine ⟨clean_iff hb hc, nodup_changes hb hc, fun _ _ => mem_changes hb hc,
    sel_diffSnapshots hb hc, (clean_iff hb hb).mpr (.refl hb), fun bdf => ⟨?_, ?_⟩⟩
  · rw [mem_changes hc hb, mem_changes hb hc]
    exact changed_swap
  · rw [mem_changes hc hb, mem_changes hb hc]
    exact changed_swap.symm

def gpu (width : Nat) (firmware : Option String) (hwidth : 1 ≤ width ∧ width ≤ 32) :
    PcieDevice where
  bdf := "0000:8a:00.0"
  name := "GPU3"
  width := width
  speedGts := (32 : Rat)
  firmware := firmware
  bdf_ok := by decide
  name_ok := by decide
  width_ok := hwidth
  speed_ok := by decide

def snapshotOf (devices : List PcieDevice) : Snapshot where
  power := .on
  inventory := { devices }

theorem diffSnapshots_exact_gpu :
    (DiffKind.pcieWidth, "0000:8a:00.0") ∈
      (diffSnapshots (snapshotOf [gpu 16 none (by decide)]) (snapshotOf [gpu 8 none (by decide)])
        "during DC cycle 14").changes := by
  have hexact := diffSnapshots_exact (snapshotOf [gpu 16 none (by decide)])
    (snapshotOf [gpu 8 none (by decide)]) "during DC cycle 14"
    (List.nodup_singleton _) (List.nodup_singleton _)
  have hne : (8 : Nat) ≠ 16 := by decide
  have hchanged : Changed (snapshotOf [gpu 16 none (by decide)])
      (snapshotOf [gpu 8 none (by decide)]) .pcieWidth (gpu 16 none (by decide)).bdf :=
    .width (List.mem_singleton.mpr rfl) (List.mem_singleton.mpr rfl) rfl hne
  exact (hexact.2.2.1 _ _).mpr hchanged

/-- A device that no longer reports its firmware is no finding. -/
theorem firmware_lost_clean :
    (snapshotOf [gpu 16 (some "94.02") (by decide)]).Keyed ∧
    (snapshotOf [gpu 16 none (by decide)]).Keyed ∧
    (diffSnapshots (snapshotOf [gpu 16 (some "94.02") (by decide)])
      (snapshotOf [gpu 16 none (by decide)]) "").clean = true ∧
    ∃ d ∈ (snapshotOf [gpu 16 (some "94.02") (by decide)]).inventory.devices,
      ∃ e ∈ (snapshotOf [gpu 16 none (by decide)]).inventory.devices,
        d.bdf = e.bdf ∧ d.firmware ≠ e.firmware :=
  ⟨List.nodup_singleton _, List.nodup_singleton _, by decide,
    _, List.mem_singleton.mpr rfl, _, List.mem_singleton.mpr rfl, rfl, by decide⟩

end Diff

end Slas
