/-
  Slas.Lib.Disk

  A tree of files and directories.  A path is a list of names from the root, of which `..`
  leads up; `lexical` is the place it names, and `follow` goes there as a system does,
  through directories that are there.  A place that both lists name is a directory.

  `filePlace_spec` is what an operation on the file at a path may rely on: the place is the
  lexical one, and the path passes through directories only, none of which it is.
-/

import Mathlib.Data.List.DropRight
import Mathlib.Data.List.Infix
import Slas.Lib.Dict

/-- The names from the root. -/
abbrev Place := List String

structure Disk (C : Type*) where
  files : List (Place × C) := []
  dirs : List Place := []

namespace Disk

variable {C : Type*}

/-! ## Paths -/

def up (at_ : Place) (name : String) : Place := if name = ".." then at_.dropLast else at_ ++ [name]

/-- The place of a path of names. -/
def lexical (names : List String) : Place := names.foldl up []

/-- The places that a path passes through, its own among them. -/
def passed (names : List String) : List Place := names.inits.map lexical

/-- No system call takes a name with a zero character. -/
def Usable (name : String) : Prop := '\x00' ∉ name.toList

instance : DecidablePred Usable := fun _ => inferInstanceAs (Decidable (¬ _))

variable {names : List String} {name : String} {p q : Place} {c : C} {d d' : Disk C}

@[simp] theorem lexical_nil : lexical [] = [] := rfl

@[simp] theorem lexical_concat : lexical (names ++ [name]) = up (lexical names) name := by
  simp [lexical]

theorem up_of_ne (h : name ≠ "..") : up p name = p ++ [name] := if_neg h

theorem lexical_mem_passed : lexical names ∈ passed names :=
  List.mem_map_of_mem (List.mem_inits _ _ |>.mpr (List.prefix_refl _))

theorem mem_passed : p ∈ passed names ↔ ∃ init, init <+: names ∧ lexical init = p := by
  simp [passed]

/-- Names that lead nowhere up are the place itself. -/
theorem lexical_of_plain (h : ".." ∉ names) : lexical names = names := by
  induction names using List.reverseRecOn with
  | nil => rfl
  | append_singleton names name ih =>
    have hname : name ≠ ".." := fun heq => h (by simp [heq])
    rw [lexical_concat, up_of_ne hname, ih fun hmem => h (by simp [hmem])]

/-- From a place on, names that lead nowhere up are appended to it. -/
theorem lexical_append_plain {rest : List String} (h : ".." ∉ rest) :
    lexical (names ++ rest) = lexical names ++ rest := by
  induction rest using List.reverseRecOn with
  | nil => simp
  | append_singleton rest name ih =>
    have hname : name ≠ ".." := fun heq => h (by simp [heq])
    rw [← List.append_assoc, lexical_concat, up_of_ne hname, ih fun hmem => h (by simp [hmem]),
      List.append_assoc]

/-! ## What is there -/

def isDir (d : Disk C) (p : Place) : Bool := p.isEmpty || d.dirs.contains p

def file? (d : Disk C) (p : Place) : Option C :=
  if d.isDir p then none else @List.lookup _ _ instBEqOfDecidableEq p d.files

/-- The place of a path, if the system gets there. -/
def follow (d : Disk C) : Place → List String → Option Place
  | at_, [] => some at_
  | at_, name :: rest =>
    if d.isDir at_ ∧ Usable name then d.follow (up at_ name) rest else none

/-- The place of a path that a file can have: what ends in `..` is a directory. -/
def filePlace (d : Disk C) (names : List String) : Option Place :=
  if names.getLast? = some ".." then none else (d.follow [] names).filter fun p => !d.isDir p

/-- `Path.is_file` and what is in the file. -/
def read? (d : Disk C) (names : List String) : Option C := (d.filePlace names).bind d.file?

@[simp] theorem isDir_nil : d.isDir [] = true := rfl

theorem isDir_iff : d.isDir p = true ↔ p = [] ∨ p ∈ d.dirs := by
  simp [isDir, List.isEmpty_iff]

theorem file?_of_isDir (h : d.isDir p = true) : d.file? p = none := if_pos h

theorem isDir_of_file? (h : d.file? p = some c) : d.isDir p = false := by
  unfold file? at h
  split_ifs at h with hdir
  simpa using hdir

theorem follow_append {at_ : Place} {more : List String} :
    d.follow at_ (names ++ more) = (d.follow at_ names).bind fun p => d.follow p more := by
  induction names generalizing at_ with
  | nil => rfl
  | cons name names ih =>
    rw [List.cons_append, follow, follow]
    split_ifs
    · exact ih
    · rfl

theorem follow_concat : d.follow [] (names ++ [name]) = some p ↔
    ∃ at_, d.follow [] names = some at_ ∧ d.isDir at_ = true ∧ Usable name ∧ p = up at_ name := by
  rw [follow_append, Option.bind_eq_some_iff]
  refine exists_congr fun at_ => and_congr_right fun _ => ?_
  rw [follow]
  split_ifs with h
  · simp [follow, h, eq_comm]
  · simp only [false_iff]
    tauto

/-- The system gets there exactly through directories, by names that it takes. -/
theorem follow_eq_some_iff : d.follow [] names = some p ↔
    p = lexical names ∧ (∀ name ∈ names, Usable name) ∧
      ∀ init, init <+: names → init ≠ names → d.isDir (lexical init) = true := by
  induction names using List.reverseRecOn generalizing p with
  | nil =>
    constructor
    · intro h
      exact ⟨(Option.some.inj h).symm, by simp, fun init hinit hne =>
        absurd (List.prefix_nil.mp hinit) hne⟩
    · rintro ⟨rfl, -⟩
      rfl
  | append_singleton names name ih =>
    rw [follow_concat]
    constructor
    · rintro ⟨at_, hat, hdir, husable, rfl⟩
      obtain ⟨rfl, hnames, hpassed⟩ := ih.mp hat
      refine ⟨lexical_concat.symm, ?_, fun init hinit hne => ?_⟩
      · intro other hother
        rcases List.mem_append.mp hother with hother | hother
        · exact hnames other hother
        · exact List.mem_singleton.mp hother ▸ husable
      · rcases List.prefix_concat_iff.mp hinit with heq | hinit
        · exact absurd heq hne
        · by_cases heq : init = names
          · exact heq ▸ hdir
          · exact hpassed init hinit heq
    · rintro ⟨rfl, hnames, hpassed⟩
      have hshort : ∀ init, init <+: names → d.isDir (lexical init) = true := fun init hinit =>
        hpassed init (hinit.trans (List.prefix_append _ _)) fun heq => by
          have hlength := hinit.length_le
          simp only [heq, List.length_append, List.length_singleton] at hlength
          omega
      exact ⟨lexical names, ih.mpr ⟨rfl, fun n hn => hnames n (by simp [hn]),
        fun init hinit _ => hshort init hinit⟩, hshort names (List.prefix_refl _),
        hnames name (by simp), lexical_concat⟩

/-- What an operation on a file may rely on. -/
theorem filePlace_spec (h : d.filePlace names = some p) :
    names.getLast? ≠ some ".." ∧ p = lexical names ∧ d.isDir p = false ∧
      (∀ name ∈ names, Usable name) ∧ ∀ q ∈ passed names.dropLast, d.isDir q = true := by
  unfold filePlace at h
  split_ifs at h with hlast
  obtain ⟨hfollow, hdir⟩ := Option.filter_eq_some_iff.mp h
  obtain ⟨rfl, husable, hpassed⟩ := follow_eq_some_iff.mp hfollow
  refine ⟨hlast, rfl, by simpa using hdir, husable, fun q hq => ?_⟩
  obtain ⟨init, hinit, rfl⟩ := mem_passed.mp hq
  rcases List.eq_nil_or_concat names with rfl | ⟨names', name, rfl⟩
  · simp [List.prefix_nil.mp hinit]
  · rw [List.concat_eq_append, List.dropLast_concat] at hinit
    rw [List.concat_eq_append] at hpassed
    refine hpassed init (hinit.trans (List.prefix_append _ _)) fun heq => ?_
    have hlength := hinit.length_le
    simp only [heq, List.length_append, List.length_singleton] at hlength
    omega

/-- The place of a file, from what the path passes. -/
theorem filePlace_eq_some (hlast : names.getLast? ≠ some "..")
    (husable : ∀ name ∈ names, Usable name) (hdir : d.isDir (lexical names) = false)
    (hpassed : ∀ q ∈ passed names.dropLast, d.isDir q = true) :
    d.filePlace names = some (lexical names) := by
  unfold filePlace
  rw [if_neg hlast]
  refine Option.filter_eq_some_iff.mpr ⟨follow_eq_some_iff.mpr ⟨rfl, husable, ?_⟩, by simp [hdir]⟩
  intro init hinit hne
  refine hpassed _ (mem_passed.mpr ⟨init, ?_, rfl⟩)
  rcases List.eq_nil_or_concat names with rfl | ⟨names', name, rfl⟩
  · exact absurd (List.prefix_nil.mp hinit) hne
  · rw [List.concat_eq_append] at hinit hne ⊢
    rw [List.dropLast_concat]
    exact (List.prefix_concat_iff.mp hinit).resolve_left hne

theorem follow_congr {at_ : Place} (h : ∀ p, d'.isDir p = d.isDir p) :
    d'.follow at_ names = d.follow at_ names := by
  induction names generalizing at_ with
  | nil => rfl
  | cons name names ih => rw [follow, follow, h, ih]

/-- Where a path leads depends on the directories only. -/
theorem filePlace_congr (h : ∀ p, d'.isDir p = d.isDir p) :
    d'.filePlace names = d.filePlace names := by
  unfold filePlace
  rw [follow_congr h]
  simp only [h]

/-! ## What is done -/

def write (p : Place) (c : C) (d : Disk C) : Disk C := { d with files := Dict.set p c d.files }

def remove (p : Place) (d : Disk C) : Disk C := { d with files := Dict.pop p d.files }

/-- The file `c` that was at `p` to `q`, in place of what was there. -/
def move (p q : Place) (c : C) (d : Disk C) : Disk C := (d.remove p).write q c

@[simp] theorem files_write : (d.write q c).files = Dict.set q c d.files := rfl
@[simp] theorem files_remove : (d.remove q).files = Dict.pop q d.files := rfl
@[simp] theorem isDir_write : (d.write q c).isDir p = d.isDir p := rfl
@[simp] theorem isDir_remove : (d.remove q).isDir p = d.isDir p := rfl
@[simp] theorem isDir_move {r : Place} : (d.move q r c).isDir p = d.isDir p := rfl

theorem file?_write (hdir : d.isDir q = false) :
    (d.write q c).file? p = if p = q then some c else d.file? p := by
  unfold file?
  rw [isDir_write, files_write, Dict.lookup_set]
  split_ifs with h1 h2 h3
  · rw [h2, hdir] at h1
    cases h1
  all_goals rfl

theorem file?_remove : (d.remove q).file? p = if p = q then none else d.file? p := by
  unfold file?
  rw [isDir_remove, files_remove, Dict.lookup_pop]
  split_ifs <;> rfl

theorem file?_move {r : Place} (hdir : d.isDir r = false) :
    (d.move q r c).file? p = if p = r then some c else if p = q then none else d.file? p := by
  rw [move, file?_write (by rwa [isDir_remove]), file?_remove]

/-- One directory more. -/
def addDir (p : Place) (d : Disk C) : Disk C :=
  if d.isDir p then d else { d with dirs := p :: d.dirs }

theorem isDir_addDir : (d.addDir q).isDir p = true ↔ p = q ∨ d.isDir p = true := by
  unfold addDir
  split_ifs with hq
  · constructor
    · exact Or.inr
    · rintro (rfl | h)
      · exact hq
      · exact h
  · simp only [isDir_iff, List.mem_cons]
    tauto

theorem file?_addDir (h : d.file? q = none) : (d.addDir q).file? p = d.file? p := by
  unfold addDir
  split_ifs with hq
  · rfl
  · unfold file? at h ⊢
    rw [if_neg hq] at h
    by_cases hp : d.isDir p = true
    · rw [if_pos hp, if_pos]
      simp only [isDir_iff, List.mem_cons] at hp ⊢
      tauto
    · rw [if_neg hp]
      split_ifs with hnew
      · have heq : p = q := by
          simp only [isDir_iff, List.mem_cons] at hp hnew
          tauto
        rw [heq, h]
      · rfl

/-- `Path.mkdir(parents=True, exist_ok=True)` -/
def makeDirs (d : Disk C) : Place → List String → Option (Disk C)
  | _, [] => some d
  | at_, name :: rest =>
    if Usable name ∧ (d.file? (up at_ name)).isNone then
      (d.addDir (up at_ name)).makeDirs (up at_ name) rest
    else none

/-- The directories on the path are there then, and no others are new; files are as they were. -/
theorem makeDirs_spec {at_ : Place} (h : d.makeDirs at_ names = some d') :
    (∀ p, d'.file? p = d.file? p) ∧
      ∀ p, d'.isDir p = true ↔ d.isDir p = true ∨
        ∃ init, init <+: names ∧ init ≠ [] ∧ p = init.foldl up at_ := by
  induction names generalizing at_ d with
  | nil =>
    cases h
    refine ⟨fun _ => rfl, fun p => ⟨Or.inl, ?_⟩⟩
    rintro (h | ⟨init, hinit, hne, -⟩)
    · exact h
    · exact absurd (List.prefix_nil.mp hinit) hne
  | cons name names ih =>
    rw [makeDirs] at h
    split_ifs at h with hcond
    obtain ⟨hfiles, hdirs⟩ := ih h
    refine ⟨fun p => by rw [hfiles, file?_addDir (Option.isNone_iff_eq_none.mp hcond.2)],
      fun p => ?_⟩
    rw [hdirs, isDir_addDir]
    constructor
    · rintro ((rfl | hp) | ⟨init, hinit, hne, rfl⟩)
      · exact Or.inr ⟨[name], ⟨names, rfl⟩, by simp, rfl⟩
      · exact Or.inl hp
      · exact Or.inr ⟨name :: init, List.cons_prefix_cons.mpr ⟨rfl, hinit⟩, by simp, rfl⟩
    · rintro (hp | ⟨init, hinit, hne, rfl⟩)
      · exact Or.inl (Or.inr hp)
      · cases init with
        | nil => exact absurd rfl hne
        | cons first init =>
          obtain ⟨rfl, hrest⟩ := List.cons_prefix_cons.mp hinit
          by_cases hnil : init = []
          · exact Or.inl (Or.inl (by rw [hnil]; rfl))
          · exact Or.inr ⟨init, hrest, hnil, rfl⟩

/-- From the root, in the places that the path passes. -/
theorem isDir_makeDirs (h : d.makeDirs [] names = some d') :
    d'.isDir p = true ↔ d.isDir p = true ∨ p ∈ passed names := by
  rw [(makeDirs_spec h).2, mem_passed]
  constructor
  · rintro (hp | ⟨init, hinit, -, rfl⟩)
    · exact Or.inl hp
    · exact Or.inr ⟨init, hinit, rfl⟩
  · rintro (hp | ⟨init, hinit, rfl⟩)
    · exact Or.inl hp
    · by_cases hnil : init = []
      · subst hnil
        exact Or.inl rfl
      · exact Or.inr ⟨init, hinit, hnil, rfl⟩

theorem file?_makeDirs (h : d.makeDirs [] names = some d') : d'.file? p = d.file? p :=
  (makeDirs_spec h).1 p

/-- Where no file is on the path, its directories can be made. -/
theorem makeDirs_isSome {at_ : Place} (husable : ∀ name ∈ names, Usable name)
    (hfree : ∀ init, init <+: names → d.file? (init.foldl up at_) = none) :
    (d.makeDirs at_ names).isSome := by
  induction names generalizing at_ d with
  | nil => rfl
  | cons name names ih =>
    have hfirst : d.file? (up at_ name) = none := hfree [name] ⟨names, rfl⟩
    rw [makeDirs, if_pos ⟨husable name List.mem_cons_self, Option.isNone_iff_eq_none.mpr hfirst⟩]
    refine ih (fun other hother => husable other (List.mem_cons_of_mem _ hother)) fun init hinit => ?_
    rw [file?_addDir hfirst]
    exact hfree (name :: init) (List.cons_prefix_cons.mpr ⟨rfl, hinit⟩)

/-! ## What is read again -/

theorem read?_eq_some : d.read? names = some c ↔
    d.filePlace names = some (lexical names) ∧ d.file? (lexical names) = some c := by
  unfold read?
  rw [Option.bind_eq_some_iff]
  constructor
  · rintro ⟨p, hp, hc⟩
    have hplace := (filePlace_spec hp).2.1
    exact ⟨hplace ▸ hp, hplace ▸ hc⟩
  · rintro ⟨hp, hc⟩
    exact ⟨_, hp, hc⟩

/-- A file is read as before where its place has what it had, and no directory is gone. -/
theorem read?_of_same (h : d.read? names = some c)
    (hdirs : ∀ p, d.isDir p = true → d'.isDir p = true)
    (hfile : d'.file? (lexical names) = d.file? (lexical names)) : d'.read? names = some c := by
  obtain ⟨hplace, hc⟩ := read?_eq_some.mp h
  obtain ⟨hlast, -, -, husable, hpassed⟩ := filePlace_spec hplace
  have hc' : d'.file? (lexical names) = some c := hfile.trans hc
  exact read?_eq_some.mpr ⟨filePlace_eq_some hlast husable (isDir_of_file? hc')
    fun q hq => hdirs q (hpassed q hq), hc'⟩

theorem file?_write_of_ne (h : p ≠ q) : (d.write q c).file? p = d.file? p := by
  unfold file?
  rw [isDir_write, files_write, Dict.lookup_set, if_neg h]

end Disk
