/-
  Slas.Lib.PyJson

  What `json.loads` returns, as Python has it: whole numbers and floats apart, and texts as
  their code points, since an escape may leave half of a surrogate pair in one.
-/

import Slas.Lib.JsonSchema
import Slas.Lib.Lines

/-! ## Texts -/

/-- A text of Python: its code points. -/
abbrev PyText := List Nat

namespace PyText

def ofString (s : String) : PyText := s.toList.map Char.toNat

/-- The text as Unicode, without a surrogate. -/
def unicode (cs : PyText) : Option String :=
  if cs.all (decide <| Nat.isValidChar ·) then some (String.ofList (cs.map Char.ofNat)) else none

def isSpace (n : Nat) : Bool := decide n.isValidChar && Lines.isSpace (Char.ofNat n)

/-- `str.strip` -/
def strip (cs : PyText) : PyText := (cs.dropWhile isSpace).reverse.dropWhile isSpace |>.reverse

/-- `or` between texts -/
def orElse (cs ds : PyText) : PyText := if cs = [] then ds else cs

end PyText

/-! ## Values -/

/-- A value that `json.loads` returns. -/
inductive PyJson where
  | none
  | bool (b : Bool)
  | int (n : Int)
  | float (x : JsonSchema.DecNum)
  | str (cs : PyText)
  | list (xs : List PyJson)
  | dict (items : List (PyText × PyJson))

namespace PyJson

/-- The items of a `dict`. -/
abbrev Object := List (PyText × PyJson)

/-- `bool` -/
def truth : PyJson → Bool
  | none => false
  | bool b => b
  | int n => n ≠ 0
  | float x => x ≠ .finite 0
  | str cs => cs ≠ []
  | list xs => !xs.isEmpty
  | dict items => !items.isEmpty

/-- `dict.get`, with a value for a key that is not there. -/
def getD (items : Object) (key : String) (default : PyJson) : PyJson :=
  (items.lookup (PyText.ofString key)).getD default

def get (items : Object) (key : String) : PyJson := getD items key none

/-- `isinstance(value, int)`, which the two truth values are. -/
def asInt : PyJson → Option Int
  | int n => some n
  | bool b => some (if b then 1 else 0)
  | _ => Option.none

def asDict : PyJson → Option Object
  | dict items => some items
  | _ => Option.none

def asList : PyJson → Option (List PyJson)
  | list xs => some xs
  | _ => Option.none

def asText : PyJson → Option PyText
  | str cs => some cs
  | _ => Option.none

/-- `or` between values -/
def orElse (v w : PyJson) : PyJson := if v.truth then v else w

/-- What Python does with texts and values in ways that its tables decide. -/
structure Builtins where
  lower : PyText → PyText
  /-- `str` of a value that is no text -/
  repr : PyJson → PyText
  /-- `int` of a text -/
  int : PyText → Option Int
  /-- `str(int(text, 16))` -/
  hex : PyText → Option PyText
  repr_ne : ∀ v, repr v ≠ []

variable (B : Builtins)

/-- `str` -/
def text : PyJson → PyText
  | str cs => cs
  | v => B.repr v

/-- `int`, or the class of what it raises. -/
def toInt : PyJson → Except String Int
  | int n => .ok n
  | bool b => .ok (if b then 1 else 0)
  | float (.finite q) => .ok (q.num.tdiv q.den)
  | float (.infinite _) => .error "OverflowError"
  | float .nan => .error "ValueError"
  | str cs => (B.int cs).elim (.error "ValueError") .ok
  | _ => .error "TypeError"

variable {B} {v w : PyJson}

def digits (cs : PyText) : Option Int :=
  if cs ≠ [] ∧ cs.all fun n => 48 ≤ n ∧ n ≤ 57 then
    some (cs.foldl (fun (n : Nat) c => 10 * n + (c - 48)) 0 : Nat)
  else Option.none

/-- A whole number in digits, with a minus or without. -/
def plainInt : PyText → Option Int
  | 45 :: cs => (digits cs).map fun n => -n
  | cs => digits cs

def plainRepr : PyJson → PyText
  | none => PyText.ofString "None"
  | bool b => PyText.ofString (if b then "True" else "False")
  | int n => (if n < 0 then [45] else []) ++ (Nat.toDigits 10 n.natAbs).map Char.toNat
  | float _ => PyText.ofString "..."
  | str cs => 39 :: (cs ++ [39])
  | list _ => PyText.ofString "[...]"
  | dict _ => PyText.ofString "\x7b...\x7d"

theorem plainRepr_ne (v : PyJson) : plainRepr v ≠ [] := by
  cases v with
  | bool b => cases b <;> simp [plainRepr, PyText.ofString]
  | int n =>
    have hdigits : Nat.toDigits 10 n.natAbs ≠ [] :=
      List.length_pos_iff.mp Nat.length_toDigits_pos
    simp [plainRepr, hdigits]
  | _ => simp [plainRepr, PyText.ofString]

/-- As far as ASCII goes, without the texts of floats, lists and dicts. -/
def Builtins.ascii : Builtins where
  lower cs := cs.map fun n => if 65 ≤ n ∧ n ≤ 90 then n + 32 else n
  repr := plainRepr
  int := plainInt
  hex _ := Option.none
  repr_ne := plainRepr_ne

end PyJson
