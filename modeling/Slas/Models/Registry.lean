/-
  Slas.Models.Registry

  `Models/models.yaml` (`slas_model_manager.registry`): the models, who serves which role and
  who votes.  A `Registry` carries the checks of its loader, so every registry at hand is one
  that the loader accepts.
-/

import Mathlib.Data.Rat.Defs
import Mathlib.Data.List.Infix
import Slas.Kernel.World
import Slas.Lib.Dict

namespace Slas

namespace Models

/-! ## Roles and models -/

inductive Role where
  | coder
  | planner
  | triage
  | embed
  | rerank
  deriving DecidableEq

namespace Role

def name : Role → String
  | coder => "coder"
  | planner => "planner"
  | triage => "triage"
  | embed => "embed"
  | rerank => "rerank"

def ROLES : List Role := [coder, planner, triage, embed, rerank]

def ofName? (s : String) : Option Role := ROLES.find? fun role => role.name == s

theorem mem_ROLES (role : Role) : role ∈ ROLES := by
  cases role <;> decide

@[simp] theorem ofName?_name (role : Role) : ofName? role.name = some role := by
  cases role <;> decide

theorem ofName?_eq_some_iff {s : String} {role : Role} :
    ofName? s = some role ↔ s = role.name := by
  constructor
  · intro h
    exact (by simpa using List.find?_some h : role.name = s).symm
  · rintro rfl
    exact ofName?_name role

end Role

inductive Quant where
  | fp8
  | awq4
  | bf16
  deriving DecidableEq

def QUANT_LABELS : Quant → String
  | .fp8 => "FP8"
  | .awq4 => "AWQ 4-bit"
  | .bf16 => "BF16"

structure ModelEntry where
  id : String
  displayName : String
  family : String
  path : String
  quant : Quant
  vramGib : ℚ
  context : Nat
  roles : List Role := []
  deriving DecidableEq

namespace ModelEntry

def label (m : ModelEntry) : String := m.displayName ++ " (" ++ QUANT_LABELS m.quant ++ ")"

def isIdFirst (c : Char) : Bool :=
  (0x61 ≤ c.toNat && c.toNat ≤ 0x7a) || (0x30 ≤ c.toNat && c.toNat ≤ 0x39)

def isIdChar (c : Char) : Bool := isIdFirst c || c == '.' || c == '_' || c == '-'

/-- `^[a-z0-9][a-z0-9._-]*$` -/
def idPattern (s : String) : Bool :=
  match s.toList with
  | [] => false
  | c :: cs => isIdFirst c && cs.all isIdChar

/-- The checks of one entry. -/
structure Valid (m : ModelEntry) : Prop where
  id : idPattern m.id = true
  displayName : m.displayName ≠ ""
  family : m.family ≠ ""
  path : m.path ≠ ""
  vramGib : 0 < m.vramGib
  context : 1024 ≤ m.context
  local_ : ¬ "://".toList <:+: m.path.toList

instance : DecidablePred Valid := fun m =>
  decidable_of_iff (idPattern m.id = true ∧ m.displayName ≠ "" ∧ m.family ≠ "" ∧ m.path ≠ "" ∧
      0 < m.vramGib ∧ 1024 ≤ m.context ∧ ¬ "://".toList <:+: m.path.toList)
    ⟨fun ⟨h₁, h₂, h₃, h₄, h₅, h₆, h₇⟩ => ⟨h₁, h₂, h₃, h₄, h₅, h₆, h₇⟩,
      fun ⟨h₁, h₂, h₃, h₄, h₅, h₆, h₇⟩ => ⟨h₁, h₂, h₃, h₄, h₅, h₆, h₇⟩⟩

end ModelEntry

/-! ## The registry -/

/-- The mapping of the file. -/
structure RegistryData where
  version : Int := 1
  models : List ModelEntry
  roles : List (Role × String) := []
  voters : List String := []
  deriving DecidableEq

namespace RegistryData

/-- `Registry.model`: the first entry with the id. -/
def model (d : RegistryData) (modelId : String) : Option ModelEntry :=
  d.models.find? fun m => m.id == modelId

/-- The model is there, and is declared for the role. -/
def declares (d : RegistryData) (role : Role) (modelId : String) : Bool :=
  (d.model modelId).any fun m => m.roles.contains role

/-- The checks of the loader. -/
structure Valid (d : RegistryData) : Prop where
  models_ne : d.models ≠ []
  entries : ∀ m ∈ d.models, m.Valid
  unique : (d.models.map (·.id)).Nodup
  keys : (Dict.keys d.roles).Nodup
  roles : ∀ p ∈ d.roles, d.declares p.1 p.2 = true
  voters : ∀ v ∈ d.voters, (d.model v).isSome
  distinct : d.voters.Nodup

instance : DecidablePred Valid := fun d =>
  decidable_of_iff (d.models ≠ [] ∧ (∀ m ∈ d.models, m.Valid) ∧ (d.models.map (·.id)).Nodup ∧
      (Dict.keys d.roles).Nodup ∧ (∀ p ∈ d.roles, d.declares p.1 p.2 = true) ∧
      (∀ v ∈ d.voters, (d.model v).isSome) ∧ d.voters.Nodup)
    ⟨fun ⟨h₁, h₂, h₃, h₄, h₅, h₆, h₇⟩ => ⟨h₁, h₂, h₃, h₄, h₅, h₆, h₇⟩,
      fun ⟨h₁, h₂, h₃, h₄, h₅, h₆, h₇⟩ => ⟨h₁, h₂, h₃, h₄, h₅, h₆, h₇⟩⟩

end RegistryData

structure Registry extends RegistryData where
  valid : toRegistryData.Valid

namespace Registry

def ofData? (d : RegistryData) : Option Registry :=
  if h : d.Valid then some ⟨d, h⟩ else none

theorem ofData?_eq_some {d : RegistryData} {r : Registry} (h : ofData? d = some r) :
    r.toRegistryData = d := by
  unfold ofData? at h
  split at h
  · rw [← Option.some.inj h]
  · cases h

variable (r : Registry) {modelId : String} {m : ModelEntry}

theorem id_of_model (h : r.model modelId = some m) : m.id = modelId := by
  simpa using List.find?_some h

theorem mem_of_model (h : r.model modelId = some m) : m ∈ r.models := List.mem_of_find?_eq_some h

end Registry

def instanceName (role : Role) : String := "vllm-" ++ role.name

def voterInstanceName (modelId : String) : String := "vllm-voter-" ++ modelId

/-- `registry_from_mapping`, with what the validation says of the data. -/
def registryFromMapping (reason : RegistryData → String) (source : String) (d : RegistryData) :
    Except ThreePartMessage Registry :=
  match Registry.ofData? d with
  | some r => .ok r
  | none =>
    .error ⟨"The model registry " ++ source ++ " could not be used.", reason d,
      "Fix " ++ source ++ " on the Models page or by hand; the format is in " ++
        "services/model-manager/README.md."⟩

end Models

end Slas
