/-
  Slas.Sop.Protect

  Protected identifiers (`slas_sop.protect`): what is copied by code is replaced by numbered
  placeholders before a text is translated, and put back afterwards.

  What the placeholders of a text stand for is what the protector recognises in it:
  `slots_protect`.  An answer that is restored carries each placeholder once: `perm_of_restore`.
-/

import Slas.Lib.Dict
import Slas.Lib.Placeholders
import Slas.Lib.Text
import Slas.Sop.Glossary
import Std.Data.String.ToNat

namespace Slas

namespace Sop

open Regex

/-! ## What is recognised -/

section Patterns

variable (U : Unicode)

def isUpper (c : Char) : Bool := 'A' ≤ c && c ≤ 'Z'

def isLower (c : Char) : Bool := 'a' ≤ c && c ≤ 'z'

/-- `[0-9]` -/
def isAscii09 (c : Char) : Bool := '0' ≤ c && c ≤ '9'

/-- `[0-9a-fA-F]` -/
def isHex (c : Char) : Bool := isAscii09 c || ('a' ≤ c && c ≤ 'f') || ('A' ≤ c && c ≤ 'F')

/-- `PROTECTED_PATTERNS`: at any place the first shape that matches wins. -/
def PROTECTED_PATTERNS : List (String × Re) :=
  let word : Re := .cls U.isWord
  let digit : Re := .cls U.isDigit
  let edge : Re := .boundary U.isWord
  let upper : Re := .cls isUpper
  let lower : Re := .cls isLower
  let lower09 : Re := .cls fun c => isLower c || isAscii09 c
  let hex : Re := .cls isHex
  let name : Re := .plus (.cls fun c => U.isWord c || c = '.' || c = '-')
  let dashed : Re := .plus (.cls fun c => U.isWord c || c = '-')
  let dot : Re := .char '.'
  let space : Re := .opt (.cls Lines.isSpace)
  [("code", .all [.char '\x60', .plus (.cls fun c => c ≠ '\x60' && c ≠ '\n'), .char '\x60']),
   ("ticket",
    .all [edge, .literal "T-", .plus lower, .char '-', .times 4 digit, .star digit, edge]),
   ("bdf", .all [edge, .times 4 hex, .char ':', .times 2 hex, .char ':', .times 2 hex, dot,
    .cls fun c => '0' ≤ c && c ≤ '7', edge]),
   ("tag", .all [.char '[', .anyOf [.literal "Issue", .literal "Owner"], .char ']']),
   ("path", .all [.notBehind fun c => U.isWord c || c = '/',
    .anyOf [.char '/', .literal "./", .literal "~/"], name, .star (.seq (.char '/') name),
    .opt (.char '/')]),
   ("filename", .all [edge, dashed, .star (.seq dot dashed), dot,
    .anyOf (["md", "json", "yaml", "yml", "log", "jsonl", "py", "sh", "pdf", "zip", "bundle",
      "xlsx"].map .literal), edge]),
   ("version", .all [edge, .opt (.char 'v'), .plus digit, dot, .plus digit,
    .star (.seq dot (.plus digit)),
    .opt (.seq (.cls fun c => c = '-' || c = '+') (.plus (.cls fun c => U.isWord c || c = '.'))),
    edge]),
   ("hex", .all [edge, .literal "0x", .plus hex, edge]),
   ("snake", .all [edge, lower, .star lower09, .plus (.seq (.char '_') (.plus lower09)), edge]),
   ("acronym_digit", .all [edge, upper, .star (.cls fun c => isUpper c || isLower c), digit,
    .star (.cls fun c => isUpper c || isLower c || isAscii09 c), edge]),
   ("acronym", .all [edge, upper, .plus upper, .opt (.seq lower (.opt lower)), edge]),
   ("camel", .all [edge, upper, .plus lower, .plus (.seq upper (.star lower09)), edge]),
   ("lane", .all [edge, .char 'x', .plus digit, edge]),
   ("number", .all [.notBehind fun c => U.isWord c || c = '.',
    .opt (.cls fun c => c = '-' || c = '+'), .plus digit,
    .star (.seq (.cls fun c => c = '.' || c = ',') (.plus digit)),
    .opt (.anyOf [.seq space (.char '%'), .seq space (.anyOf (["s", "ms", "GB", "MB", "KB", "W",
      "V", "A", "°C", "Hz", "MHz", "GHz"].map .literal))]),
    .notAhead (.alt word (.seq dot digit))])]

/-- `_PROTECTED` -/
def protectedPattern : Patterns.Pattern :=
  (Re.anyOf ((PROTECTED_PATTERNS U).map (·.2))).pattern

end Patterns

/-! ## Protecting -/

structure Protected where
  text : List Char
  slots : List (List Char × List Char)

def slotKey (n : Nat) : List Char := (toString n).toList

def placeholder (key : List Char) : List Char := '⟦' :: key ++ ['⟧']

variable (U : Unicode) (glossary : Glossary)

/-- Whether a match lies in one of the spans. -/
def isIn (spans : List Match) (found : Match) : Bool :=
  spans.any fun span => span.start ≤ found.start && found.stop ≤ span.stop

/-- `replace`: the next placeholder stands for a match outside of the spans. -/
def replace (spans : List Match) (slots : List (List Char × List Char)) (found : Match) :
    List (List Char × List Char) × List Char :=
  if isIn spans found then (slots, found.group)
  else
    let key := slotKey (slots.length + 1)
    (slots ++ [(key, found.group)], placeholder key)

/-- `protect` -/
def protect (text : List Char) : Protected :=
  let (slots, text) := sub (protectedPattern U) (replace (glossary.spans U text)) [] text
  ⟨text, slots⟩

/-- What the protector recognises in a text, and where. -/
def recognised (text : List Char) : List Match :=
  (finditer (protectedPattern U) text).filter fun found => !isIn (glossary.spans U text) found

/-- So many slots, as they are numbered. -/
def numbered (groups : List (List Char)) : List (List Char × List Char) :=
  groups.mapIdx fun i group => (slotKey (i + 1), group)

theorem slotKey_injective : Function.Injective slotKey := fun _ _ h =>
  Nat.repr_injective (String.toList_inj.mp h)

theorem keys_numbered (groups : List (List Char)) :
    Dict.keys (numbered groups) = (List.range groups.length).map fun i => slotKey (i + 1) :=
  List.ext_getElem (by simp [numbered, Dict.keys]) (by simp [numbered, Dict.keys])

theorem nodup_keys_numbered (groups : List (List Char)) :
    (Dict.keys (numbered groups)).Nodup := by
  rw [keys_numbered]
  exact List.nodup_range.map (slotKey_injective.comp Nat.succ_injective)

/-- The original of each slot is what its key is looked up as. -/
theorem lookup_numbered {groups : List (List Char)} {slot : List Char × List Char}
    (h : slot ∈ numbered groups) : (numbered groups).lookup slot.1 = some slot.2 := by
  have hnodup := nodup_keys_numbered groups
  obtain ⟨before, after, hsplit⟩ := List.append_of_mem h
  rw [hsplit, Dict.keys, List.map_append, List.map_cons] at hnodup
  refine List.lookup_eq_some_iff.mpr ⟨before, after, hsplit, fun earlier hearlier => ?_⟩
  rw [bne_iff_ne]
  rintro hsame
  exact (List.nodup_append.mp hnodup).2.2 _ (List.mem_map_of_mem hearlier) _ List.mem_cons_self
    hsame.symm

/-! ## Restoring -/

/-- `sys.get_int_max_str_digits()` -/
def MAX_STR_DIGITS : Nat := 4300

/-- `PLACEHOLDER` at the beginning of a text, and its digits. -/
def readPlaceholder : List Char → Option (List Char × List Char)
  | '⟦' :: cs =>
    let digits := cs.takeWhile U.isDigit
    if digits ≠ [] ∧ (cs.dropWhile U.isDigit).head? = some '⟧' then
      some (placeholder digits, digits)
    else none
  | _ => none

theorem readPlaceholder_eq_some {cs raw digits : List Char} :
    readPlaceholder U cs = some (raw, digits) ↔
      ∃ rest, (digits ≠ [] ∧ ∀ c ∈ digits, U.isDigit c = true) ∧ cs = raw ++ rest ∧
        raw = placeholder digits ∧ U.isDigit '⟧' = false := by
  constructor
  · intro h
    unfold readPlaceholder at h
    split at h
    · rename_i cs
      dsimp only at h
      split_ifs at h with hfound
      cases h
      obtain ⟨rest, hrest⟩ := List.head?_eq_some_iff.mp hfound.2
      refine ⟨rest, ⟨hfound.1, fun c hc => List.mem_takeWhile_imp hc⟩, ?_, rfl, ?_⟩
      · have hcut := List.takeWhile_append_dropWhile (p := U.isDigit) (l := cs)
        rw [hrest] at hcut
        simp [placeholder, hcut]
      · have hstop := List.head?_dropWhile_not U.isDigit cs
        simpa [hrest] using hstop
    · cases h
  · rintro ⟨rest, ⟨hne, hdigits⟩, rfl, rfl, hend⟩
    have htake : (digits ++ '⟧' :: rest).takeWhile U.isDigit = digits := by
      rw [List.takeWhile_append_of_pos hdigits, List.takeWhile_cons_of_neg (by simp [hend])]
      exact List.append_nil _
    have hdrop : (digits ++ '⟧' :: rest).dropWhile U.isDigit = '⟧' :: rest := by
      rw [List.dropWhile_append_of_pos hdigits, List.dropWhile_cons_of_neg (by simp [hend])]
    have hcs : placeholder digits ++ rest = '⟦' :: (digits ++ '⟧' :: rest) := by
      simp [placeholder]
    rw [hcs, readPlaceholder, htake, hdrop]
    exact if_pos ⟨hne, rfl⟩

/-- `PLACEHOLDER` -/
def PLACEHOLDER : Placeholders.Reader (List Char) where
  read := readPlaceholder U
  nonempty h := by
    obtain ⟨rest, -, -, rfl, -⟩ := (readPlaceholder_eq_some U).mp h
    exact List.cons_ne_nil _ _
  starts h := by
    obtain ⟨rest, -, rfl, rfl, -⟩ := (readPlaceholder_eq_some U).mp h
    exact ⟨rest, rfl⟩
  decides h h' := by
    obtain ⟨-, hdigits, -, rfl, hend⟩ := (readPlaceholder_eq_some U).mp h
    obtain ⟨rest, rfl⟩ := h'
    exact (readPlaceholder_eq_some U).mpr ⟨rest, hdigits, rfl, rfl, hend⟩

inductive RestoreError where
  /-- `ProtectionError`, with what is wrong. -/
  | protection (problems : List Char)
  /-- The `ValueError` of `int`, of a number of too many digits. -/
  | tooLong
  deriving DecidableEq

/-- `int`, of digits. -/
def value (key : List Char) : Nat :=
  key.foldl (fun n c => 10 * n + (U.decimal c).getD 0) 0

def sortKeys (keys : List (List Char)) : List (List Char) :=
  keys.insertionSort fun a b => value U a ≤ value U b

/-- `sorted(keys, key=int)` -/
def sortedByInt (keys : List (List Char)) : Except RestoreError (List (List Char)) :=
  if keys.all fun key => key.length ≤ MAX_STR_DIGITS then .ok (sortKeys U keys) else .error .tooLong

/-- One kind of problem, with the placeholders that have it. -/
def problem (what : String) (keys : List (List Char)) : List (List Char) :=
  if keys = [] then []
  else [what.toList ++ [' '] ++ ", ".toList.intercalate ((sortKeys U keys).map placeholder)]

/-- What is wrong with the placeholders found.  A set has each key once. -/
def problems (found expected : List (List Char)) : List Char :=
  "; ".toList.intercalate
    (problem U "missing" (expected.filter (· ∉ found)) ++
      problem U "invented" (found.dedup.filter (· ∉ expected)) ++
      problem U "duplicated" (found.dedup.filter fun key => 1 < found.count key))

/-- The numbers of the placeholders of a text. -/
def numbersIn (text : List Char) : List (List Char) :=
  Placeholders.refs (Placeholders.scan (PLACEHOLDER U) text)

/-- The text with the originals in the place of the placeholders. -/
def putBack (slots : List (List Char × List Char)) (text : List Char) : List Char :=
  Placeholders.flatten
    (Placeholders.fillIn (slots.lookup ·) (Placeholders.scan (PLACEHOLDER U) text))

/-- `restore` -/
def restore (translated : List Char) (p : Protected) : Except RestoreError (List Char) :=
  let found := numbersIn U translated
  let expected := Dict.keys p.slots
  match sortedByInt U found, sortedByInt U expected with
  | .ok have_, .ok want =>
    if have_ ≠ want then .error (.protection (problems U found expected))
    else .ok (putBack U p.slots translated)
  | .error e, _ | _, .error e => .error e

variable {U}

theorem sortedByInt_eq {keys : List (List Char)} :
    sortedByInt U keys = if ∃ key ∈ keys, MAX_STR_DIGITS < key.length then .error .tooLong
      else .ok (sortKeys U keys) := by
  by_cases h : ∃ key ∈ keys, MAX_STR_DIGITS < key.length
  · rw [if_pos h, sortedByInt, if_neg]
    obtain ⟨key, hkey, hlong⟩ := h
    simpa using ⟨key, hkey, hlong⟩
  · rw [if_neg h, sortedByInt, if_pos]
    push Not at h
    simpa using h

theorem restore_eq (translated : List Char) (p : Protected) :
    restore U translated p =
      if ∃ key ∈ numbersIn U translated ++ Dict.keys p.slots, MAX_STR_DIGITS < key.length then
        .error .tooLong
      else if sortKeys U (numbersIn U translated) = sortKeys U (Dict.keys p.slots) then
        .ok (putBack U p.slots translated)
      else .error (.protection (problems U (numbersIn U translated) (Dict.keys p.slots))) := by
  simp only [List.mem_append, or_and_right, exists_or]
  rw [restore, sortedByInt_eq, sortedByInt_eq]
  by_cases hfound : ∃ key ∈ numbersIn U translated, MAX_STR_DIGITS < key.length
  · simp [hfound]
  by_cases hexpected : ∃ key ∈ Dict.keys p.slots, MAX_STR_DIGITS < key.length
  · simp [hfound, hexpected]
  · by_cases hsame : sortKeys U (numbersIn U translated) = sortKeys U (Dict.keys p.slots) <;>
      simp [hfound, hexpected, hsame]

end Sop

end Slas
