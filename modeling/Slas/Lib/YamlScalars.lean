/-
  Slas.Lib.YamlScalars

  Scalars of YAML 1.1 as a safe loader reads them: plain ones by the patterns of its implicit
  tags, and double-quoted ones, whose line breaks are folded.

  A text that is not modelled is `beyond`: plain scalars with other signs than `.`, `_`, `-`
  and `+` among their letters and digits, and the numeric escapes but `\u`.

  Theorems:
    items_dumpChars — a JSON text is read character by character;
    fold_eq_ok_iff — which texts come back from between quotes.
-/

import Mathlib.Data.Rat.Defs
import Slas.Lib.Except
import Slas.Lib.JsonText

namespace Yaml

/-! ## Values -/

/-- A value as it is constructed; a float is the decimal that is written, before rounding. -/
inductive Value where
  | null
  | bool (b : Bool)
  | int (n : Int)
  | float (q : Rat)
  | date (year month day : Nat)
  | str (s : String)
  | seq (xs : List Value)
  | map (items : List (String × Value))

/-- Why there is no value: the loader raises, or the text is not modelled. -/
inductive Stop where
  | refused
  | beyond
  deriving DecidableEq

abbrev Read (α : Type) := Except Stop α

/-- What a stream may hold; the loader refuses any other character. -/
def isPrintable (c : Char) : Bool :=
  let n := c.toNat
  n == 0x09 || n == 0x0a || n == 0x0d || (0x20 ≤ n && n ≤ 0x7e) || n == 0x85 ||
    (0xa0 ≤ n && n ≤ 0xd7ff) || (0xe000 ≤ n && n ≤ 0xfffd) || 0x10000 ≤ n

/-! ## Plain scalars -/

def BOOLS : List (String × Bool) :=
  [("yes", true), ("Yes", true), ("YES", true), ("no", false), ("No", false), ("NO", false),
    ("true", true), ("True", true), ("TRUE", true), ("false", false), ("False", false),
    ("FALSE", false), ("on", true), ("On", true), ("ON", true), ("off", false), ("Off", false),
    ("OFF", false)]

def NULLS : List String := ["null", "Null", "NULL"]

/-- `[0-9_]` -/
def isDigitOr (c : Char) : Bool := c.isDigit || c == '_'

/-- The sign of a number, and what follows it. -/
def takeSign : List Char → Bool × List Char
  | '-' :: cs => (true, cs)
  | '+' :: cs => (false, cs)
  | cs => (false, cs)

def withoutBars (cs : List Char) : List Char := cs.filter (· ≠ '_')

/-- `[eE][-+][0-9]+`, or nothing. -/
def exponent : List Char → Option Int
  | [] => some 0
  | e :: sign :: ds =>
    if (e == 'e' || e == 'E') && (sign == '-' || sign == '+') && ds ≠ [] && ds.all Char.isDigit then
      let n : Int := Nat.ofDigitChars 10 ds 0
      some (if sign = '-' then -n else n)
    else none
  | _ => none

def decimal (whole fraction : List Char) (e : Int) : Rat :=
  let digits : Rat := Nat.ofDigitChars 10 (whole ++ fraction) 0
  let power := e - fraction.length
  if 0 ≤ power then digits * (10 ^ power.toNat : Nat) else digits / (10 ^ (-power).toNat : Nat)

/-- `[0-9][0-9_]*\.[0-9_]*([eE][-+][0-9]+)?` -/
def unsignedFloat (cs : List Char) : Option Rat :=
  match cs.takeWhile isDigitOr, cs.dropWhile isDigitOr with
  | first :: whole, '.' :: rest =>
    if first.isDigit then
      (exponent (rest.dropWhile isDigitOr)).map
        (decimal (withoutBars (first :: whole)) (withoutBars (rest.takeWhile isDigitOr)))
    else none
  | _, _ => none

/-- The digits of a number and its base: `0b[0-1_]+`, `0x[0-9a-fA-F_]+`, `0[0-7_]+`, `0` and
    `[1-9][0-9_]*`. -/
def unsignedInt : List Char → Option (Nat × List Char)
  | '0' :: 'b' :: ds =>
    if ds ≠ [] ∧ ds.all (fun c => c == '0' || c == '1' || c == '_') then some (2, ds) else none
  | '0' :: 'x' :: ds =>
    if ds ≠ [] ∧ ds.all (fun c => (Json.hexVal c).isSome || c == '_') then some (16, ds) else none
  | '0' :: ds =>
    if ds = [] then some (10, ['0'])
    else if ds.all (fun c => (c.isDigit && c != '8' && c != '9') || c == '_') then some (8, ds)
    else none
  | c :: ds => if c.isDigit ∧ ds.all isDigitOr then some (10, c :: ds) else none
  | [] => none

/-- The limit of `int` for decimal digits. -/
def MAX_STR_DIGITS : Nat := 4300

/-- `construct_yaml_int`: the digits without underscores. -/
def constructInt (neg : Bool) (base : Nat) (ds : List Char) : Read Value :=
  let digits := withoutBars ds
  let n : Nat := if base = 10 then Nat.ofDigitChars 10 digits 0
    else digits.foldl (fun n c => base * n + (Json.hexVal c).getD 0) 0
  if digits = [] ∧ base ≠ 8 ∨ base = 10 ∧ MAX_STR_DIGITS < digits.length then .error .refused
  else .ok (.int (if neg then -(n : Int) else n))

def daysOf (year month : Nat) : Nat :=
  if month = 2 then if year % 4 = 0 ∧ (year % 100 ≠ 0 ∨ year % 400 = 0) then 29 else 28
  else if month = 4 ∨ month = 6 ∨ month = 9 ∨ month = 11 then 30
  else 31

/-- `[0-9]{4}-[0-9]{2}-[0-9]{2}` -/
def dateOf : List Char → Option (Nat × Nat × Nat)
  | [a, b, c, d, '-', e, f, '-', g, h] =>
    if [a, b, c, d, e, f, g, h].all Char.isDigit then
      some (Nat.ofDigitChars 10 [a, b, c, d] 0, Nat.ofDigitChars 10 [e, f] 0,
        Nat.ofDigitChars 10 [g, h] 0)
    else none
  | _ => none

/-- The value of a plain scalar, by the first pattern that it has. -/
def resolve (cs : List Char) : Read Value :=
  match BOOLS.find? fun word => word.1.toList = cs with
  | some word => .ok (.bool word.2)
  | none =>
    let (neg, body) := takeSign cs
    match unsignedFloat body with
    | some q => .ok (.float (if neg then -q else q))
    | none =>
      match unsignedInt body with
      | some (base, ds) => constructInt neg base ds
      | none =>
        if NULLS.any (fun word => word.toList = cs) then .ok .null
        else
          match dateOf cs with
          | some (year, month, day) =>
            if 1 ≤ year ∧ 1 ≤ month ∧ month ≤ 12 ∧ 1 ≤ day ∧ day ≤ daysOf year month then
              .ok (.date year month day)
            else .error .refused
          | none => .ok (.str (String.ofList cs))

/-- The signs of a plain scalar that are modelled. -/
def isPlainChar (c : Char) : Bool :=
  (c.isAlphanum && c.toNat < 128) || c == '.' || c == '_' || c == '-' || c == '+'

def isPlain : List Char → Bool
  | '-' :: c :: cs => c.isDigit && cs.all isPlainChar
  | c :: cs => c.isAlphanum && isPlainChar c && cs.all isPlainChar
  | [] => false

def plain (cs : List Char) : Read Value := if isPlain cs then resolve cs else .error .beyond

/-! ## Double-quoted scalars -/

/-- A character between quotes: one that was escaped, or one that stands there. -/
inductive Item where
  | lit (c : Char)
  | raw (c : Char)
  deriving DecidableEq

/-- The characters up to the closing quote, and what follows it. -/
def items : List Char → Read (List Item × List Char)
  | [] => .error .beyond
  | '"' :: cs => .ok ([], cs)
  | '\\' :: 'u' :: h₃ :: h₂ :: h₁ :: h₀ :: cs =>
    match Json.hexVal h₃, Json.hexVal h₂, Json.hexVal h₁, Json.hexVal h₀ with
    | some a, some b, some c, some d =>
      (items cs).map fun read =>
        (.lit (Char.ofNat (((a * 16 + b) * 16 + c) * 16 + d)) :: read.1, read.2)
    | _, _, _, _ => .error .refused
  | '\\' :: e :: cs =>
    match Json.unescape e with
    | some c => (items cs).map fun read => (.lit c :: read.1, read.2)
    | none => .error .beyond
  | c :: cs => (items cs).map fun read => (.raw c :: read.1, read.2)

def isBlank (c : Char) : Bool := c == ' ' || c == '\t'

def isBreak (c : Char) : Bool :=
  c == '\n' || c == '\r' || c == '\x85' || c == '\u2028' || c == '\u2029'

/-- A break that is kept as it is. -/
def isWide (c : Char) : Bool := c == '\u2028' || c == '\u2029'

namespace Item

def blank : Item → Bool
  | lit _ => false
  | raw c => isBlank c

def break_ : Item → Bool
  | lit _ => false
  | raw c => isBreak c

end Item

/-- A break follows, maybe after blanks. -/
def breakNext (rest : List Item) : Bool := (rest.dropWhile Item.blank).head?.any Item.break_

/-- A mark between documents, `---` or `...` with a blank or a break after it. -/
def marks : List Item → Bool
  | .raw a :: .raw b :: .raw c :: d :: _ =>
    ((a == '-' && b == '-' && c == '-') || (a == '.' && b == '.' && c == '.')) &&
      (d.blank || d.break_)
  | _ => false

/-- The text of a scalar: blanks around breaks are left out, and a break that is not wide is a
    space, or nothing before other breaks.  `after` says that a break came last. -/
def fold (after : Bool) : List Item → Read (List Char)
  | [] => .ok []
  | .lit c :: rest => (fold false rest).map (c :: ·)
  | .raw c :: rest =>
    if isBlank c then
      if after || breakNext rest then fold after rest else (fold false rest).map (c :: ·)
    else if isBreak c then
      if marks rest then .error .refused
      else if isWide c then (fold true rest).map (c :: ·)
      else if after then (fold true rest).map ('\n' :: ·)
      else if breakNext rest then fold true rest
      else (fold true rest).map (' ' :: ·)
    else (fold false rest).map (c :: ·)

/-! ## What comes back from between quotes -/

variable {c : Char} {cs t : List Char} {after : Bool} {rest : List Item}

/-- How a character is read that JSON wrote. -/
def itemOf (c : Char) : Item :=
  if c.toNat < 0x20 ∨ c = '"' ∨ c = '\\' then .lit c else .raw c

theorem items_raw (hquote : c ≠ '"') (hescape : c ≠ '\\') (cs : List Char) :
    items (c :: cs) = (items cs).map fun read => (.raw c :: read.1, read.2) := by
  conv_lhs => unfold items
  split
  · next heq => cases heq
  · next heq => exact absurd (List.cons.inj heq).1 hquote
  · next heq => exact absurd (List.cons.inj heq).1 hescape
  · next heq => exact absurd (List.cons.inj heq).1 hescape
  · next heq =>
    obtain ⟨rfl, rfl⟩ := List.cons.inj heq
    rfl

theorem items_escapeChar (c : Char) (cs : List Char) :
    items (Json.escapeChar c ++ cs) =
      (items cs).map fun read => (itemOf c :: read.1, read.2) := by
  unfold Json.escapeChar
  split_ifs with h₁ h₂ h₃ h₄ h₅ h₆ h₇ h₈
  · subst h₁
    rfl
  · subst h₂
    rfl
  · subst h₃
    rfl
  · subst h₄
    rfl
  · subst h₅
    rfl
  · subst h₆
    rfl
  · subst h₇
    rfl
  · have hhi : c.toNat / 16 < 16 := by omega
    have hlo : c.toNat % 16 < 16 := Nat.mod_lt _ (by decide)
    have hval : ((0 * 16 + 0) * 16 + c.toNat / 16) * 16 + c.toNat % 16 = c.toNat := by omega
    simp only [List.cons_append, List.nil_append, items, Json.hexVal_digitChar hhi,
      Json.hexVal_digitChar hlo, show Json.hexVal '0' = some 0 from by decide, hval,
      Char.ofNat_toNat, itemOf, if_pos (Or.inl h₈)]
  · rw [itemOf, if_neg (by simp [h₁, h₂, h₈])]
    exact items_raw h₁ h₂ cs

theorem items_dumpChars (s cs : List Char) :
    items (Json.dumpChars s ++ cs) = .ok (s.map itemOf, cs) := by
  induction s with
  | nil => rfl
  | cons c s ih =>
    rw [Json.dumpChars, List.append_assoc, items_escapeChar, ih]
    rfl

/-- A mark between documents, in a text. -/
def marksText : List Char → Bool
  | a :: b :: c :: d :: _ =>
    ((a == '-' && b == '-' && c == '-') || (a == '.' && b == '.' && c == '.')) &&
      (d == ' ' || d == '\x85' || isWide d)
  | _ => false

/-- No blank stands beside a wide break, none is U+0085, and no mark follows one.  `after` says
    that a wide break came last. -/
def Keeps (after : Bool) : List Char → Prop
  | [] => True
  | c :: rest => (c = ' ' → after = false ∧ ∀ d ∈ rest.head?, isWide d = false) ∧
      c ≠ '\x85' ∧ (isWide c = true → marksText rest = false) ∧ Keeps (isWide c) rest

theorem itemOf_cases (c : Char) :
    (itemOf c = .lit c ∧ c ≠ ' ' ∧ c ≠ '\x85' ∧ isWide c = false ∧ c ≠ '-' ∧ c ≠ '.') ∨
      (itemOf c = .raw c ∧ isBlank c = (c == ' ') ∧ isBreak c = (c == '\x85' || isWide c)) := by
  unfold itemOf
  split_ifs with h
  · refine Or.inl ⟨rfl, ?_⟩
    have hne : ∀ d : Char, ¬ (d.toNat < 0x20 ∨ d = '"' ∨ d = '\\') → c ≠ d := by
      rintro d hd rfl
      exact hd h
    refine ⟨hne _ (by decide), hne _ (by decide), ?_, hne _ (by decide), hne _ (by decide)⟩
    simp only [isWide, Bool.or_eq_false_iff, beq_eq_false_iff_ne]
    exact ⟨hne _ (by decide), hne _ (by decide)⟩
  · refine Or.inr ⟨rfl, ?_, ?_⟩
    · have htab : c ≠ '\t' := by
        rintro rfl
        exact h (Or.inl (by decide))
      simp [isBlank, htab]
    · have hne : c ≠ '\n' ∧ c ≠ '\r' := by
        constructor <;> rintro rfl <;> exact h (Or.inl (by decide))
      simp only [isBreak, isWide, beq_eq_false_iff_ne.mpr hne.1, beq_eq_false_iff_ne.mpr hne.2,
        Bool.false_or, Bool.or_assoc]

theorem blank_or_break (c : Char) :
    ((itemOf c).blank || (itemOf c).break_) = (c == ' ' || c == '\x85' || isWide c) := by
  rcases itemOf_cases c with ⟨heq, hspace, hnel, hwide, -, -⟩ | ⟨heq, hblank, hbreak⟩
  · simp [heq, Item.blank, Item.break_, hspace, hnel, hwide]
  · rw [heq, Item.blank, Item.break_, hblank, hbreak, Bool.or_assoc]

theorem marks_map (cs : List Char) : marks (cs.map itemOf) = marksText cs := by
  rcases cs with _ | ⟨a, _ | ⟨b, _ | ⟨c, _ | ⟨d, rest⟩⟩⟩⟩
  · rfl
  · cases ha : itemOf a <;> simp [marks, marksText, ha]
  · cases ha : itemOf a <;> cases hb : itemOf b <;> simp [marks, marksText, ha, hb]
  · cases ha : itemOf a <;> cases hb : itemOf b <;> cases hc : itemOf c <;>
      simp [marks, marksText, ha, hb, hc]
  · rcases itemOf_cases a with ⟨ha, -, -, -, hdash, hdot⟩ | ⟨ha, -, -⟩
    · simp [marks, marksText, ha, hdash, hdot]
    rcases itemOf_cases b with ⟨hb, -, -, -, hdash, hdot⟩ | ⟨hb, -, -⟩
    · simp [marks, marksText, ha, hb, hdash, hdot]
    rcases itemOf_cases c with ⟨hc, -, -, -, hdash, hdot⟩ | ⟨hc, -, -⟩
    · simp [marks, marksText, ha, hb, hc, hdash, hdot]
    simp only [List.map_cons, marks, marksText, ha, hb, hc, blank_or_break]

/-- What is left of a text is not longer. -/
theorem length_fold_le {its : List Item} (h : fold after its = .ok t) : t.length ≤ its.length := by
  induction its generalizing after t with
  | nil =>
    cases h
    exact Nat.le_refl 0
  | cons it rest ih =>
    have hcons : ∀ {b : Bool} {c : Char}, (fold b rest).map (c :: ·) = .ok t →
        t.length ≤ (it :: rest).length := by
      intro b c hmap
      obtain ⟨t', ht', rfl⟩ := Except.map_eq_ok.mp hmap
      exact Nat.succ_le_succ (ih ht')
    have hskip : ∀ {b : Bool}, fold b rest = .ok t → t.length ≤ (it :: rest).length :=
      fun hrest => (ih hrest).trans (Nat.le_succ _)
    cases it with
    | lit c => exact hcons h
    | raw c =>
      rw [fold] at h
      split_ifs at h
      · exact hskip h
      · exact hcons h
      · exact hcons h
      · exact hcons h
      · exact hskip h
      · exact hcons h
      · exact hcons h

theorem not_fold_longer {s : List Char} (h : s.length < t.length) (after : Bool) :
    fold after (s.map itemOf) ≠ .ok t := by
  intro heq
  have hle := length_fold_le heq
  rw [List.length_map] at hle
  exact absurd hle (Nat.not_le_of_lt h)

theorem map_cons_eq_ok {x : Read (List Char)} :
    (x.map (c :: ·) = .ok (c :: cs)) ↔ x = .ok cs := by
  rw [Except.map_eq_ok]
  constructor
  · rintro ⟨t, ht, heq⟩
    rw [ht, (List.cons.inj heq).2]
  · exact fun h => ⟨cs, h, rfl⟩

theorem map_cons_ne_ok {x : Read (List Char)} {d : Char} (h : d ≠ c) :
    x.map (d :: ·) ≠ .ok (c :: cs) := by
  intro heq
  obtain ⟨t, -, htext⟩ := Except.map_eq_ok.mp heq
  exact h (List.cons.inj htext).1

/-- A blank before a break, maybe after other blanks, is not kept. -/
theorem not_keeps_of_breakNext (h : breakNext (cs.map itemOf) = true) :
    ¬ Keeps false (' ' :: cs) := by
  induction cs with
  | nil => cases h
  | cons c cs ih =>
    rintro ⟨hspace, -, -, hrest⟩
    have hnel := hrest.2.1
    have hwide : isWide c = false := (hspace rfl).2 c rfl
    rcases itemOf_cases c with ⟨heq, -⟩ | ⟨heq, hisBlank, hisBreak⟩
    · rw [List.map_cons, heq] at h
      cases h
    · by_cases hc : c = ' '
      · subst hc
        refine ih ?_ hrest
        rw [List.map_cons, heq] at h
        exact h
      · rw [List.map_cons, heq, breakNext, List.dropWhile_cons, Item.blank, hisBlank,
          if_neg (by simpa using hc)] at h
        simp [Item.break_, hisBreak, hnel, hwide] at h

theorem head_not_wide (h : breakNext (cs.map itemOf) = false) :
    ∀ d ∈ cs.head?, isWide d = false := by
  intro d hd
  cases cs with
  | nil => cases hd
  | cons c cs =>
    obtain rfl : c = d := Option.some.inj hd
    by_contra hwide
    rw [Bool.not_eq_false] at hwide
    rcases itemOf_cases c with ⟨-, -, -, hno, -, -⟩ | ⟨heq, hblank, hbreak⟩
    · rw [hno] at hwide
      cases hwide
    · have hspace : c ≠ ' ' := by
        rintro rfl
        exact absurd hwide (by decide)
      rw [List.map_cons, heq, breakNext, List.dropWhile_cons, Item.blank, hblank,
        if_neg (by simpa using hspace)] at h
      simp [Item.break_, hbreak, hwide] at h

/-- Which texts come back from between quotes. -/
theorem fold_eq_ok_iff (after : Bool) (s : List Char) :
    fold after (s.map itemOf) = .ok s ↔ Keeps after s := by
  induction s generalizing after with
  | nil => exact iff_of_true rfl trivial
  | cons c s ih =>
    rw [List.map_cons, Keeps]
    rcases itemOf_cases c with ⟨heq, hspace, hnel, hwide, -, -⟩ | ⟨heq, hblank, hbreak⟩
    · rw [heq, fold, map_cons_eq_ok, ih, hwide]
      simp [hspace, hnel]
    · rw [heq, fold, hblank, hbreak, marks_map]
      by_cases hspace : c = ' '
      · subst hspace
        rw [if_pos (by decide)]
        split_ifs with hdrop
        · refine iff_of_false (not_fold_longer (Nat.lt_succ_self _) after) ?_
          rintro ⟨hfirst, -, -, hrest⟩
          obtain ⟨hafter, hhead⟩ := hfirst rfl
          rw [hafter, Bool.false_or] at hdrop
          exact not_keeps_of_breakNext hdrop
            ⟨fun _ => ⟨rfl, hhead⟩, by decide, fun h => absurd h (by decide), hrest⟩
        · obtain ⟨hafter, hnext⟩ : after = false ∧ breakNext (s.map itemOf) = false := by
            simpa using hdrop
          rw [map_cons_eq_ok, ih]
          exact ⟨fun h => ⟨fun _ => ⟨hafter, head_not_wide hnext⟩, by decide,
            fun h => absurd h (by decide), h⟩, fun h => h.2.2.2⟩
      · rw [if_neg (by simpa using hspace)]
        by_cases hnel : c = '\x85'
        · subst hnel
          refine iff_of_false ?_ fun h => h.2.1 rfl
          rw [if_pos (by decide), if_neg (by decide : ¬ isWide '\x85' = true)]
          split_ifs
          · simp
          · exact map_cons_ne_ok (by decide)
          · exact not_fold_longer (Nat.lt_succ_self _) true
          · exact map_cons_ne_ok (by decide)
        · rw [beq_eq_false_iff_ne.mpr hnel, Bool.false_or]
          cases hwide : isWide c with
          | false =>
            rw [if_neg (by decide), map_cons_eq_ok, ih]
            simp [hspace, hnel]
          | true =>
            rw [if_pos rfl, if_pos rfl]
            cases hmarks : marksText s with
            | true => simp
            | false =>
              rw [if_neg (by decide), map_cons_eq_ok, ih]
              simp [hspace, hnel]

end Yaml
