/-
  Slas.Lib.Occurrences

  Keys in a text, and the text with each of them replaced.

  Where several keys begin at one place, the longest is what stands there; the text is
  read from left to right, and a key that was read is not read again.
-/

import Mathlib.Data.List.Infix
import Mathlib.Data.List.MinMax

namespace Occurrences

variable {α : Type} [DecidableEq α] {keys : List (List α)} {value : List α → List α}
  {key text : List α}

/-- The longest of the keys that begin a text. -/
def keyAt (keys : List (List α)) (text : List α) : Option (List α) :=
  (keys.filter fun key => key ≠ [] ∧ key <+: text).argmax List.length

/-- The text with its keys replaced, after so many of its characters. -/
def replaceFrom (keys : List (List α)) (value : List α → List α) : Nat → List α → List α
  | _, [] => []
  | k + 1, _ :: cs => replaceFrom keys value k cs
  | 0, c :: cs =>
    match keyAt keys (c :: cs) with
    | none => c :: replaceFrom keys value 0 cs
    | some key => value key ++ replaceFrom keys value (key.length - 1) cs

/-- The text with the value of each key in its place. -/
def replaceAll (keys : List (List α)) (value : List α → List α) (text : List α) : List α :=
  replaceFrom keys value 0 text

/-! ## The key at a place -/

theorem keyAt_eq_none (h : ∀ key ∈ keys, key ≠ [] → ¬ key <+: text) : keyAt keys text = none := by
  have hfilter : (keys.filter fun key => key ≠ [] ∧ key <+: text) = [] := by
    rw [List.filter_eq_nil_iff]
    intro key hkey hbegins
    simp only [decide_eq_true_eq] at hbegins
    exact h key hkey hbegins.1 hbegins.2
  rw [keyAt, hfilter, List.argmax_nil]

/-- A text that is a key is that key. -/
theorem keyAt_self (hkey : key ∈ keys) (hne : key ≠ []) : keyAt keys key = some key := by
  have hmem : key ∈ keys.filter fun key' => key' ≠ [] ∧ key' <+: key :=
    List.mem_filter.mpr ⟨hkey, by simp [hne]⟩
  cases hlongest : keyAt keys key with
  | none =>
    rw [keyAt, List.argmax_eq_none] at hlongest
    rw [hlongest] at hmem
    cases hmem
  | some longest =>
    have hbegins : longest <+: key := by
      have hin := List.mem_filter.mp (List.argmax_mem hlongest)
      simp only [decide_eq_true_eq] at hin
      exact hin.2.2
    have hle : key.length ≤ longest.length := List.le_of_mem_argmax hmem hlongest
    rw [hbegins.eq_of_length_le hle]

/-! ## Replacing -/

theorem replaceFrom_eq_replaceAll_drop (k : Nat) (cs : List α) :
    replaceFrom keys value k cs = replaceAll keys value (cs.drop k) := by
  induction cs generalizing k with
  | nil => cases k <;> rfl
  | cons c cs ih =>
    cases k with
    | zero => rfl
    | succ k => exact ih k

/-- A text without keys stays as it is. -/
theorem replaceAll_absent (h : ∀ key ∈ keys, key ≠ [] → ¬ key <:+: text) :
    replaceAll keys value text = text := by
  induction text with
  | nil => rfl
  | cons c cs ih =>
    have hhead : keyAt keys (c :: cs) = none :=
      keyAt_eq_none fun key hkey hne hbegins => h key hkey hne hbegins.isInfix
    have htail : replaceFrom keys value 0 cs = cs :=
      ih fun key hkey hne hinside => h key hkey hne (hinside.trans (List.suffix_cons c cs).isInfix)
    rw [replaceAll, replaceFrom, hhead, htail]

/-- A text that is a key becomes its value. -/
theorem replaceAll_self (hkey : key ∈ keys) (hne : key ≠ []) :
    replaceAll keys value key = value key := by
  obtain ⟨c, cs, rfl⟩ := List.exists_cons_of_ne_nil hne
  rw [replaceAll, replaceFrom, keyAt_self hkey hne]
  simp only [List.length_cons, Nat.add_sub_cancel]
  rw [replaceFrom_eq_replaceAll_drop, List.drop_length, replaceAll, replaceFrom, List.append_nil]

end Occurrences
