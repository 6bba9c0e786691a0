/-
  Slas.Lib.Codec

  Values stored as JSON: a `Codec α` writes an `α` as a JSON value, reads one
  back, and carries the proof that reading undoes writing, so that a record's
  codec is assembled from those of its fields and its round trip is a `simp`.

  Records are objects.  Reading one refuses a key it does not know and takes
  the default of a field whose key is absent.
-/

import Slas.Lib.Json

namespace Json

/-- A lawful way to store the values of a type as JSON. -/
structure Codec (α : Type) where
  dump : α → Json
  validate : Json → Option α
  validate_dump : ∀ a, validate (dump a) = some a

attribute [simp] Codec.validate_dump

namespace Codec

variable {α : Type}

def str : Codec String where
  dump := .str
  validate := fun
    | .str s => some s
    | _ => none
  validate_dump := fun _ => rfl

def bool : Codec Bool where
  dump := .bool
  validate := fun
    | .bool b => some b
    | _ => none
  validate_dump := fun _ => rfl

def decimal : Codec Decimal where
  dump := .num
  validate := fun
    | .num d => some d
    | _ => none
  validate_dump := fun _ => rfl

def int : Codec Int where
  dump := fun i => .num (.ofInt i)
  validate := fun
    | .num d => d.toInt?
    | _ => none
  validate_dump := Decimal.toInt?_ofInt

/-- `null` or a value whose own text is never `null`. -/
def opt (c : Codec α) (hnull : ∀ a, c.dump a ≠ .null) : Codec (Option α) where
  dump := fun
    | none => .null
    | some a => c.dump a
  validate := fun j =>
    match j with
    | .null => some none
    | j => (c.validate j).map some
  validate_dump := by
    intro a
    cases a with
    | none => rfl
    | some a =>
      have hdump := c.validate_dump a
      have hne := hnull a
      cases hj : c.dump a <;> simp_all

theorem mapM_validate_dump (c : Codec α) (xs : List α) :
    (xs.map c.dump).mapM c.validate = some xs := by
  induction xs with
  | nil => rfl
  | cons x xs ih => simp [ih]

def list (c : Codec α) : Codec (List α) where
  dump := fun xs => .arr (xs.map c.dump)
  validate := fun
    | .arr js => js.mapM c.validate
    | _ => none
  validate_dump := c.mapM_validate_dump

/-- A string-keyed mapping, in insertion order. -/
def dict (c : Codec α) : Codec (List (String × α)) where
  dump := fun kvs => .obj (kvs.map fun kv => (kv.1, c.dump kv.2))
  validate := fun
    | .obj kvs => kvs.mapM fun kv => (c.validate kv.2).map fun a => (kv.1, a)
    | _ => none
  validate_dump := by
    intro kvs
    induction kvs with
    | nil => rfl
    | cons kv kvs ih => simp_all

/-- The members of an enumeration under their names. -/
def enum (name : α → String) (ofName : String → Option α)
    (h : ∀ a, ofName (name a) = some a) : Codec α where
  dump := fun a => .str (name a)
  validate := fun
    | .str s => ofName s
    | _ => none
  validate_dump := h

/-- The values of a type that pass a check, stored as the type stores them. -/
def sub (c : Codec α) (p : α → Prop) [DecidablePred p] : Codec {a : α // p a} where
  dump := fun a => c.dump a.1
  validate := fun j => (c.validate j).bind fun a => if h : p a then some ⟨a, h⟩ else none
  validate_dump := by
    rintro ⟨a, ha⟩
    simp [ha]

end Codec

/-! ## Members of an object -/

/-- The value under a key. -/
def lookup (key : String) : List (String × Json) → Option Json
  | [] => none
  | (k, v) :: kvs => if k = key then some v else lookup key kvs

/-- Every key of the object is one of those. -/
def onlyKeys (keys : List String) (kvs : List (String × Json)) : Bool :=
  kvs.all fun kv => keys.contains kv.1

/-- The field under a key, with the default a missing key stands for. -/
def fieldOr {α : Type} (c : Codec α) (key : String) (dflt : Option α)
    (kvs : List (String × Json)) : Option α :=
  match lookup key kvs with
  | some v => c.validate v
  | none => dflt

@[simp] theorem fieldOr_head {α : Type} (c : Codec α) (key : String) (dflt : Option α) (a : α)
    (kvs : List (String × Json)) : fieldOr c key dflt ((key, c.dump a) :: kvs) = some a := by
  simp [fieldOr, lookup]

theorem fieldOr_tail {α : Type} (c : Codec α) {key k : String} (dflt : Option α) (v : Json)
    (kvs : List (String × Json)) (h : k ≠ key) :
    fieldOr c key dflt ((k, v) :: kvs) = fieldOr c key dflt kvs := by
  simp [fieldOr, lookup, h]

end Json
