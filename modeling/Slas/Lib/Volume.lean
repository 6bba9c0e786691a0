/-
  Slas.Lib.Volume

  A volume of files at paths.  A file has an inode, which no other file ever had;
  to write a path puts a new file there, and to rename a path puts its file at
  another one, in place of what was there.

  `Keeps` says that given files are still there, inside a set of paths.  A write
  or a rename keeps them exactly if it does not land on one of them, and does not
  move one of them out.
-/

import Mathlib.Logic.ExistsUnique
import Mathlib.Logic.Function.Basic
import Mathlib.Tactic.SplitIfs
import Mathlib.Tactic.Tauto

structure VolumeFile (C : Type*) where
  inode : Nat
  content : C
  deriving DecidableEq

/-- The files of a volume; no two paths have the same file, and `next` is the inode of the
    next file. -/
structure Volume (P C : Type*) where
  files : P → Option (VolumeFile C)
  next : Nat
  distinct : ∀ p q f g, files p = some f → files q = some g → f.inode = g.inode → p = q
  bounded : ∀ p f, files p = some f → f.inode < next

namespace Volume

variable {P C : Type*} {p q r : P} {c : C} {f g : VolumeFile C} {v : Volume P C}
  {inside : P → Prop} {files : List (VolumeFile C)}

def empty (P C : Type*) : Volume P C where
  files _ := none
  next := 0
  distinct _ _ _ _ h := by cases h
  bounded _ _ h := by cases h

/-- A file is at one path only. -/
theorem path_unique (hp : v.files p = some f) (hq : v.files q = some f) : p = q :=
  v.distinct p q f f hp hq rfl

/-- The files are there, each at a path that is inside. -/
def Keeps (inside : P → Prop) (files : List (VolumeFile C)) (v : Volume P C) : Prop :=
  ∀ f ∈ files, ∃ p, inside p ∧ v.files p = some f

/-- The path is that of none of the files. -/
def Spares (files : List (VolumeFile C)) (v : Volume P C) (p : P) : Prop :=
  ∀ f, v.files p = some f → f ∉ files

/-- Each of the files is at exactly one path inside. -/
theorem keeps_iff_existsUnique :
    v.Keeps inside files ↔ ∀ f ∈ files, ∃! p, inside p ∧ v.files p = some f := by
  constructor
  · intro h f hf
    obtain ⟨p, hin, hp⟩ := h f hf
    exact ⟨p, ⟨hin, hp⟩, fun q hq => path_unique hq.2 hp⟩
  · exact fun h f hf => (h f hf).exists

variable [DecidableEq P]

/-- A new file at `p`. -/
def write (p : P) (c : C) (v : Volume P C) : Volume P C where
  files := Function.update v.files p (some ⟨v.next, c⟩)
  next := v.next + 1
  distinct q r f g hf hg heq := by
    have hnew : ∀ {q f}, q ≠ p → Function.update v.files p (some ⟨v.next, c⟩) q = some f →
        f.inode < v.next := fun hq hf =>
      v.bounded _ _ (by rwa [Function.update_of_ne hq] at hf)
    by_cases hq : q = p <;> by_cases hr : r = p
    · rw [hq, hr]
    · rw [hq, Function.update_self] at hf
      cases hf
      exact absurd heq (Nat.ne_of_gt (hnew hr hg))
    · rw [hr, Function.update_self] at hg
      cases hg
      exact absurd heq (Nat.ne_of_lt (hnew hq hf))
    · rw [Function.update_of_ne hq] at hf
      rw [Function.update_of_ne hr] at hg
      exact v.distinct q r f g hf hg heq
  bounded q f hf := by
    by_cases hq : q = p
    · rw [hq, Function.update_self] at hf
      cases hf
      exact Nat.lt_succ_self _
    · rw [Function.update_of_ne hq] at hf
      exact Nat.lt_succ_of_lt (v.bounded q f hf)

/-- The file at `p` to `q`. -/
def rename (p q : P) (v : Volume P C) : Volume P C where
  files r := if r = q then v.files p else if r = p then none else v.files r
  next := v.next
  distinct a b f g hf hg heq := by
    split_ifs at hf hg with ha hb hbp hap hb
    · rw [ha, hb]
    · exact absurd (v.distinct p b f g hf hg heq).symm hbp
    · exact absurd (v.distinct a p f g hf hg heq) hap
    · exact v.distinct a b f g hf hg heq
  bounded r f hf := by
    split_ifs at hf
    · exact v.bounded p f hf
    · exact v.bounded r f hf

@[simp] theorem next_write : (v.write p c).next = v.next + 1 := rfl
@[simp] theorem next_rename : (v.rename p q).next = v.next := rfl

theorem files_write : (v.write p c).files r =
    if r = p then some ⟨v.next, c⟩ else v.files r := by
  by_cases hr : r = p <;> simp [write, Function.update, hr]

theorem files_rename : (v.rename p q).files r =
    if r = q then v.files p else if r = p then none else v.files r := rfl

/-- A write keeps the files exactly if it lands on none of them. -/
theorem keeps_write_iff (hbound : ∀ f ∈ files, f.inode < v.next) (h : v.Keeps inside files) :
    (v.write p c).Keeps inside files ↔ v.Spares files p := by
  constructor
  · intro hkept f hp hf
    obtain ⟨q, -, hq⟩ := hkept f hf
    rw [files_write] at hq
    split_ifs at hq with heq
    · cases hq
      exact absurd (hbound _ hf) (Nat.lt_irrefl _)
    · exact heq (path_unique hq hp)
  · intro hspares f hf
    obtain ⟨q, hin, hq⟩ := h f hf
    refine ⟨q, hin, ?_⟩
    have hne : q ≠ p := by
      rintro rfl
      exact hspares f hq hf
    rw [files_write, if_neg hne]
    exact hq

/-- A rename keeps the files exactly if it lands on none of them, and does not move one of
    them out. -/
theorem keeps_rename_iff (hp : v.files p = some f) (h : v.Keeps inside files) :
    (v.rename p q).Keeps inside files ↔ (f ∈ files → inside q) ∧ (p ≠ q → v.Spares files q) := by
  have hmoved : ∀ r, (v.rename p q).files r = some f → r = q := by
    intro r hr
    rw [files_rename] at hr
    split_ifs at hr with hq hp'
    · exact hq
    · exact absurd (path_unique hr hp) hp'
  constructor
  · intro hkept
    constructor
    · intro hf
      obtain ⟨r, hin, hr⟩ := hkept f hf
      exact hmoved r hr ▸ hin
    · intro hne g hq hg
      obtain ⟨r, -, hr⟩ := hkept g hg
      rw [files_rename] at hr
      split_ifs at hr with hrq hrp
      · exact hne (path_unique hr hq)
      · exact hrq (path_unique hr hq)
  · rintro ⟨hin, hspares⟩ g hg
    obtain ⟨r, hrin, hr⟩ := h g hg
    by_cases hrp : r = p
    · subst hrp
      rw [hp] at hr
      cases hr
      exact ⟨q, hin hg, by rw [files_rename, if_pos rfl, hp]⟩
    · by_cases hrq : r = q
      · subst hrq
        exact absurd hg (hspares (Ne.symm hrp) g hr)
      · exact ⟨r, hrin, by rw [files_rename, if_neg hrq, if_neg hrp, hr]⟩

/-- To take one more file in, with the rename that moves it: the rename lands inside, and on
    none of the others. -/
theorem keeps_rename_concat_iff (hp : v.files p = some f) (h : v.Keeps inside files) :
    (v.rename p q).Keeps inside (files ++ [f]) ↔ inside q ∧ (p ≠ q → v.Spares files q) := by
  have hmoved : (v.rename p q).files q = some f := by rw [files_rename, if_pos rfl, hp]
  have hsplit : (v.rename p q).Keeps inside (files ++ [f]) ↔
      (v.rename p q).Keeps inside files ∧ inside q := by
    constructor
    · intro hkept
      refine ⟨fun g hg => hkept g (List.mem_append_left _ hg), ?_⟩
      obtain ⟨r, hin, hr⟩ := hkept f (by simp)
      exact path_unique hr hmoved ▸ hin
    · rintro ⟨hkept, hin⟩ g hg
      rcases List.mem_append.mp hg with hg | hg
      · exact hkept g hg
      · rw [List.mem_singleton.mp hg]
        exact ⟨q, hin, hmoved⟩
  rw [hsplit, keeps_rename_iff hp h]
  tauto

end Volume
