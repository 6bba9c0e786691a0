/-
  Slas.Skills.Values

  The values a skill works with, and what Python does with them: numbers as they
  compare, white space, truth, and the built-in functions on texts and values.
-/

import Mathlib.Data.List.DropRight
import Slas.Lib.Json

namespace Slas

/-! ## Numbers -/

/-- A number as Python compares it. -/
inductive FloatValue where
  | finite (d : Decimal)
  | infinite (negative : Bool)
  | nan
  deriving DecidableEq, Repr

namespace FloatValue

/-- `<=` -/
def le : FloatValue → FloatValue → Bool
  | .nan, _ => false
  | _, .nan => false
  | .infinite true, _ => true
  | _, .infinite false => true
  | .finite a, .finite b => a.le b
  | _, _ => false

/-- `>` -/
def gt (a b : FloatValue) : Bool := a ≠ .nan && b ≠ .nan && !a.le b

theorem le_iff_not_gt {a b : FloatValue} (ha : a ≠ .nan) (hb : b ≠ .nan) :
    a.le b = true ↔ a.gt b = false := by
  simp [gt, ha, hb]

theorem ne_nan_of_le {a b : FloatValue} (h : a.le b = true) : a ≠ .nan ∧ b ≠ .nan := by
  cases a <;> cases b <;> simp_all [le]

/-- `==` -/
def eq (a b : FloatValue) : Bool := a.le b && b.le a

/-- `bool` -/
def truth : FloatValue → Bool
  | .finite d => d.mant ≠ 0
  | _ => true

end FloatValue

/-! ## Characters -/

/-- The class `\s`: the characters of which `str.isspace` holds. -/
def isSpace (c : Char) : Bool :=
  let n := c.toNat
  (9 ≤ n && n ≤ 13) || (28 ≤ n && n ≤ 32) || n == 0x85 || n == 0xa0 || n == 0x1680 ||
    (0x2000 ≤ n && n ≤ 0x200a) || n == 0x2028 || n == 0x2029 || n == 0x202f || n == 0x205f ||
    n == 0x3000

/-- `str.strip` -/
def stripChars (cs : List Char) : List Char := (cs.dropWhile isSpace).rdropWhile isSpace

/-- `text.lower() == word`, for a word of the letters that no other character
    becomes in lower case. -/
def lowerIs (word : String) (cs : List Char) : Bool := cs.map Char.toLower == word.toList

/-- A result that passes a test is some value. -/
theorem exists_eq_ok {ε α : Type} {result : Except ε α} {test : α → Bool}
    (h : result.toOption.any test = true) : ∃ value, result = .ok value ∧ test value = true := by
  cases result with
  | ok value => exact ⟨value, rfl, h⟩
  | error e => cases h

/-! ## The built-in functions -/

/-- The class `\w`, `repr`, `int` and `float` of values, `int(text)` or else
    `float(text)`, and the format `g`. -/
structure Python where
  isWord : Char → Bool
  repr : Json → String
  int : Json → Except String Int
  float : Json → Except String FloatValue
  number : String → Option FloatValue
  general : FloatValue → String
  /-- On ASCII the class is the letters, the digits and the underscore. -/
  isWord_ascii : ∀ c : Char, c.toNat < 128 → isWord c = (c.isAlphanum || c == '_')
  isWord_space : ∀ c, isSpace c = true → isWord c = false
  repr_arr : ∀ xs, ∃ rest, (repr (.arr xs)).toList = '[' :: rest
  repr_obj : ∀ kvs, ∃ rest, (repr (.obj kvs)).toList = '\x7b' :: rest
  /-- Numbers are written with digits, signs, points, exponents, underscores and
      space around, or as an infinity, or as no number. -/
  number_chars : ∀ text x, number text = some x → ∀ c ∈ text.toList, c ≠ 'o' ∧ c ≠ '(' ∧ c ≠ ')'

namespace Python

variable (P : Python)

/-- `str` -/
def str : Json → String
  | .str s => s
  | value => P.repr value

@[simp] theorem str_str (s : String) : P.str (.str s) = s := rfl

-- ASCII texts and whole numbers

/-- A whole number in digits. -/
def digits? (cs : List Char) : Option Nat :=
  if cs ≠ [] ∧ cs.all Char.isDigit then
    some (cs.foldl (fun n c => 10 * n + (c.toNat - '0'.toNat)) 0)
  else none

/-- A whole number with or without a sign. -/
def whole? : List Char → Option Int
  | '-' :: cs => (digits? cs).map fun n : Nat => -(n : Int)
  | cs => (digits? cs).map fun n : Nat => (n : Int)

mutual

def plainRepr : Json → String
  | .null => "None"
  | .bool b => if b then "True" else "False"
  | .num d => String.ofList (Json.dumpNum d)
  | .str s => "'" ++ s ++ "'"
  | .arr xs => "[" ++ ", ".intercalate (plainReprs xs) ++ "]"
  | .obj kvs => "\x7b" ++ ", ".intercalate (plainReprFields kvs) ++ "\x7d"

def plainReprs : List Json → List String
  | [] => []
  | x :: xs => plainRepr x :: plainReprs xs

def plainReprFields : List (String × Json) → List String
  | [] => []
  | kv :: kvs => plainReprField kv :: plainReprFields kvs

def plainReprField : String × Json → String
  | (key, value) => "'" ++ key ++ "': " ++ plainRepr value

end

theorem whole?_chars {cs : List Char} {i : Int} (h : whole? cs = some i) :
    ∀ c ∈ cs, c.isDigit = true ∨ c = '-' := by
  have hdigits : ∀ {ds : List Char} {n : Nat}, digits? ds = some n → ∀ c ∈ ds, c.isDigit = true := by
    intro ds n hds c hc
    unfold digits? at hds
    split at hds
    · rename_i hall
      exact List.all_eq_true.mp hall.2 c hc
    · cases hds
  intro c hc
  unfold whole? at h
  split at h
  · obtain ⟨n, hn, -⟩ := Option.map_eq_some_iff.mp h
    rcases List.mem_cons.mp hc with rfl | hin
    · exact Or.inr rfl
    · exact Or.inl (hdigits hn c hin)
  · obtain ⟨n, hn, -⟩ := Option.map_eq_some_iff.mp h
    exact Or.inl (hdigits hn c hc)

theorem isAlpha_range {c : Char} (h : c.isAlpha = true) : 65 ≤ c.toNat ∧ c.toNat ≤ 122 := by
  change (decide (c.val ≥ 'A'.val ∧ c.val ≤ 'Z'.val) ||
    (decide (c.val ≥ 'a'.val) && decide (c.val ≤ 'z'.val))) = true at h
  have hnat : c.toNat = c.val.toNat := rfl
  have hA : 'A'.val.toNat = 65 := rfl
  have hZ : 'Z'.val.toNat = 90 := rfl
  have ha : 'a'.val.toNat = 97 := rfl
  have hz : 'z'.val.toNat = 122 := rfl
  simp only [Bool.or_eq_true, Bool.and_eq_true, decide_eq_true_eq, ge_iff_le,
    UInt32.le_iff_toNat_le] at h
  omega

theorem not_isAlphanum_of_isSpace {c : Char} (h : isSpace c = true) :
    (c.isAlphanum || c == '_') = false := by
  cases hword : (c.isAlphanum || c == '_') with
  | false => rfl
  | true =>
    simp only [isSpace, Bool.or_eq_true, Bool.and_eq_true, decide_eq_true_eq, beq_iff_eq] at h
    simp only [Char.isAlphanum, Bool.or_eq_true, beq_iff_eq] at hword
    rcases hword with (hletter | hdigit) | rfl
    · have hrange := isAlpha_range hletter
      omega
    · have hnat : c.toNat = c.val.toNat := rfl
      have h0 : '0'.val.toNat = 48 := rfl
      have h9 : '9'.val.toNat = 57 := rfl
      simp only [Char.isDigit, Bool.and_eq_true, decide_eq_true_eq, ge_iff_le,
        UInt32.le_iff_toNat_le] at hdigit
      omega
    · have h_ : '_'.toNat = 95 := rfl
      omega

/-- The functions, as far as ASCII texts and whole numbers go. -/
def plain : Python where
  isWord c := c.isAlphanum || c == '_'
  repr := plainRepr
  int
    | .num d => .ok ((if d.neg then -1 else 1) * (d.mant / 10 ^ d.scale : Nat))
    | .bool b => .ok b.toNat
    | .str s => match whole? s.toList with
      | some i => .ok i
      | none => .error "invalid literal for int() with base 10"
    | _ => .error "int() argument must be a string, a bytes-like object or a real number"
  float
    | .num d => .ok (.finite d)
    | .bool b => .ok (.finite (.ofNat b.toNat))
    | .str s => match whole? s.toList with
      | some i => .ok (.finite (.ofInt i))
      | none => .error "could not convert string to float"
    | _ => .error "float() argument must be a string or a real number"
  number text := (whole? text.toList).map fun i => .finite (.ofInt i)
  general
    | .finite d => String.ofList (Json.dumpNum d)
    | .infinite negative => if negative then "-inf" else "inf"
    | .nan => "nan"
  isWord_ascii c _ := rfl
  isWord_space c h := not_isAlphanum_of_isSpace h
  repr_arr xs := by
    refine ⟨(", ".intercalate (plainReprs xs)).toList ++ [']'], ?_⟩
    simp [plainRepr, String.toList_append]
  repr_obj kvs := by
    refine ⟨(", ".intercalate (plainReprFields kvs)).toList ++ ['\x7d'], ?_⟩
    simp [plainRepr, String.toList_append]
  number_chars text x h c hc := by
    obtain ⟨i, hi, -⟩ := Option.map_eq_some_iff.mp h
    rcases whole?_chars hi c hc with hdigit | rfl
    · refine ⟨?_, ?_, ?_⟩ <;> rintro rfl <;> revert hdigit <;> decide
    · decide

end Python

/-- `bool` of a value that is no text. -/
def Json.truth : Json → Bool
  | .null => false
  | .bool b => b
  | .num d => d.mant ≠ 0
  | .str s => s ≠ ""
  | .arr xs => !xs.isEmpty
  | .obj kvs => !kvs.isEmpty

end Slas
