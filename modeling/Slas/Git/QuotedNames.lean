/-
  Slas.Git.QuotedNames

  The paths that the gate reads against the paths of the tree.  A path of a tree is bytes;
  git prints it as it is or, when it has unusual bytes, in quotes with escapes.

  Theorems:
    realPaths_iff — of which changes the rules of the gate see the paths themselves.
-/

import Slas.Git.History

namespace Slas

namespace Git

open Lines (Unbroken)

/-! ## Names in quotes -/

def charOf (b : UInt8) : Char := Char.ofNat b.toNat

/-- A path as a text, with a character for each byte. -/
def nameText (name : List UInt8) : String := String.ofList (name.map charOf)

/-- The byte makes git put a path in quotes (`core.quotePath` is on). -/
def isUnusual (b : UInt8) : Bool := b < 0x20 || 0x7f ≤ b || b = 0x22 || b = 0x5c

/-- The bytes with an escape of one letter. -/
def ESCAPES : List (UInt8 × Char) :=
  [(0x07, 'a'), (0x08, 'b'), (0x09, 't'), (0x0a, 'n'), (0x0b, 'v'), (0x0c, 'f'), (0x0d, 'r'),
    (0x22, '"'), (0x5c, '\\')]

def octalDigit (n : Nat) : Char := Char.ofNat (0x30 + n % 8)

/-- A byte of a path in quotes (git's `quote_c_style`). -/
def quotedByte (b : UInt8) : List Char :=
  if isUnusual b then
    match ESCAPES.lookup b with
    | some letter => ['\\', letter]
    | none => ['\\', octalDigit (b.toNat / 64), octalDigit (b.toNat / 8), octalDigit b.toNat]
  else [charOf b]

/-- A path as git prints it. -/
def printedName (name : List UInt8) : List Char :=
  if name.any isUnusual then '"' :: name.flatMap quotedByte ++ ['"'] else name.map charOf

example : printedName [0x61, 0x09, 0xc3, 0xa9] = "\"a\\t\\303\\251\"".toList := by decide

/-- Printable characters of ASCII. -/
def isPrintable (c : Char) : Bool := 0x20 ≤ c.toNat && c.toNat < 0x7f

theorem quotedByte_spec (b : UInt8) : quotedByte b ≠ [] ∧ (quotedByte b).all isPrintable = true := by
  have hall : ∀ n : Fin 256, quotedByte (UInt8.ofNat n) ≠ [] ∧
      (quotedByte (UInt8.ofNat n)).all isPrintable = true := by
    decide +kernel
  simpa using hall ⟨b.toNat, b.toNat_lt⟩

theorem isPrintable_charOf {b : UInt8} (h : isUnusual b = false) : isPrintable (charOf b) = true := by
  have hprintable := (quotedByte_spec b).2
  rw [quotedByte, h] at hprintable
  simpa using hprintable

theorem unbroken_of_isPrintable {cs : List Char} (h : cs.all isPrintable = true) : Unbroken cs := by
  intro c hc
  have hprintable := List.all_eq_true.mp h c hc
  simp only [isPrintable, Bool.and_eq_true, decide_eq_true_eq] at hprintable
  by_contra hbreak
  rcases (Lines.isLineBreak_of_le hprintable.1).mp (by simpa using hbreak) with rfl | rfl | rfl <;>
    exact absurd hprintable.2 (by decide)

theorem isPrintable_printedName (name : List UInt8) :
    (printedName name).all isPrintable = true := by
  unfold printedName
  split_ifs with hunusual
  · have hquote : isPrintable '"' = true := by decide
    rw [List.cons_append, List.all_cons, List.all_append, List.all_flatMap, List.all_cons, hquote]
    simp [quotedByte_spec]
  · simp only [List.any_eq_true, not_exists, not_and, Bool.not_eq_true] at hunusual
    rw [List.all_map, List.all_eq_true]
    exact fun b hb => isPrintable_charOf (hunusual b hb)

/-- Quotes make a path longer. -/
theorem printedName_eq_iff (name : List UInt8) :
    printedName name = name.map charOf ↔ name.any isUnusual = false := by
  unfold printedName
  split_ifs with hunusual
  · have hlonger : name.length ≤ (name.flatMap quotedByte).length := by
      clear hunusual
      induction name with
      | nil => simp
      | cons b name ih =>
        have hb := List.length_pos_iff.mpr (quotedByte_spec b).1
        rw [List.flatMap_cons, List.length_append, List.length_cons]
        omega
    rw [hunusual]
    refine iff_of_false (fun heq => ?_) (by simp)
    have hlength := congrArg List.length heq
    simp only [List.cons_append, List.length_cons, List.length_append, List.length_map,
      List.length_nil] at hlength
    omega
  · exact iff_of_true rfl (by simpa using hunusual)

/-! ## What the rules see -/

/-- A file that a push adds or changes. -/
structure NamedChange where
  old : Option TreeFile
  mode : Mode
  sha : Sha
  name : List UInt8

def NamedChange.file (change : NamedChange) : TreeFile :=
  ⟨change.mode, change.sha, nameText change.name⟩

/-- The line of `git diff-tree` for a change. -/
def NamedChange.line (change : NamedChange) : List Char :=
  [' '].intercalate (lineWords change.old change.file) ++ '\t' :: printedName change.name

def compared (r : GateRequest) : List String :=
  ["diff-tree", "-r", "--no-commit-id", "--diff-filter=ACMRT", r.base, r.head]

/-- What git prints of the changes. -/
def changesText (changes : List NamedChange) : String :=
  String.ofList ((changes.map (·.line)).flatMap (· ++ ['\n']))

variable (P : Python) (W : GitWorkspace) (policy : GatePolicy) (scanner : SecretScanner)
  (crossChecker : Option CrossChecker) (r : GateRequest) (changes : List NamedChange)

/-- The rules see the paths of the tree, and a push that the gate accepts has no file at a
    path that they forbid. -/
structure RealPaths : Prop where
  exact : entriesOf (W.run (compared r)).stdout = changes.map (·.file.entry)
  allowed : ∀ report, validatePush P W policy scanner crossChecker r = .ok report →
    report.passed = true → ∀ change ∈ changes, Allowed W change.file

variable {P W policy scanner crossChecker r changes}

/-- The rules see the paths as they are printed. -/
theorem entriesOf_changesText (changes : List NamedChange) :
    entriesOf (changesText changes) = changes.map fun change =>
      ⟨change.mode.text, change.sha.text, String.ofList (printedName change.name)⟩ := by
  have hunbroken : ∀ line ∈ changes.map (·.line), Unbroken line := by
    intro line hline
    obtain ⟨change, -, rfl⟩ := List.mem_map.mp hline
    exact line_unbroken _ _ (unbroken_of_isPrintable (isPrintable_printedName change.name))
  rw [changesText, entriesOf, String.toList_ofList, Text.splitlines_flatMap hunbroken,
    List.filterMap_map]
  simp only [Function.comp_def, NamedChange.line, entryOf_line, List.filterMap_eq_map']
  rfl

/-- **Real paths**: the rules see the paths of the tree exactly if none of them has a byte
    for which git puts it in quotes. -/
theorem realPaths_iff (h : W.run (compared r) = { exitCode := 0, stdout := changesText changes }) :
    RealPaths P W policy scanner crossChecker r changes ↔
      ∀ change ∈ changes, change.name.any isUnusual = false := by
  have hread : entriesOf (W.run (compared r)).stdout = changes.map fun change =>
      ⟨change.mode.text, change.sha.text, String.ofList (printedName change.name)⟩ := by
    rw [h, entriesOf_changesText]
  have hexact : entriesOf (W.run (compared r)).stdout = changes.map (·.file.entry) ↔
      ∀ change ∈ changes, change.name.any isUnusual = false := by
    rw [hread, List.map_inj_left]
    refine forall₂_congr fun change _ => ?_
    rw [← printedName_eq_iff]
    simp [NamedChange.file, TreeFile.entry, nameText, String.ofList_inj]
  refine ⟨fun hreal => hexact.mp hreal.exact, fun husual => ⟨hexact.mpr husual, ?_⟩⟩
  intro report haccepted hpassed change hchange
  obtain ⟨entries, diffText, hentries, -, hpaths, hhooks, hsubmodules, hlinks, -⟩ :=
    validatePush_passed haccepted hpassed
  refine allowed_of_rulesRead ?_ hpaths hhooks hsubmodules hlinks
  have hmem : change.file.entry ∈ changes.map (·.file.entry) :=
    List.mem_map.mpr ⟨change, hchange, rfl⟩
  rw [hentries]
  exact (hexact.mpr husual) ▸ hmem

/-- A workspace where a push makes these changes; each blob has twelve bytes. -/
def workspaceWith (r : GateRequest) (changes : List NamedChange) : GitWorkspace where
  cwd := "/data/Coding/ann/Projects/bmc"
  run args :=
    if args = compared r then { exitCode := 0, stdout := changesText changes }
    else if args = ["diff", "--no-color", "--no-ext-diff", r.base, r.head] then { exitCode := 0 }
    else { exitCode := 0, stdout := "12\n" }

theorem run_workspaceWith (r : GateRequest) (changes : List NamedChange) :
    (workspaceWith r changes).run (compared r) =
      { exitCode := 0, stdout := changesText changes } :=
  if_pos rfl

def plainRequest : GateRequest := { base := baseCommit.text, head := addsConfig.text }

/-- The file `notes.md`. -/
def notesChange : NamedChange :=
  ⟨none, .file, readme.sha, [0x6e, 0x6f, 0x74, 0x65, 0x73, 0x2e, 0x6d, 0x64]⟩

/-- The file `hooks/é`. -/
def hookChange : NamedChange :=
  ⟨none, .executable, configFile.sha, [0x68, 0x6f, 0x6f, 0x6b, 0x73, 0x2f, 0xc3, 0xa9]⟩

theorem realPaths_notes :
    RealPaths .plain (workspaceWith plainRequest [notesChange]) plainBroker.policy tokenScanner none
        plainRequest [notesChange] ↔
      ∀ change ∈ [notesChange], change.name.any isUnusual = false :=
  realPaths_iff (run_workspaceWith plainRequest [notesChange])

/-- The gate accepts a hook whose name is not ASCII. -/
theorem hookChange_accepted :
    ¬ RealPaths .plain (workspaceWith plainRequest [hookChange]) plainBroker.policy tokenScanner
        none plainRequest [hookChange] ∧
      ((validatePush .plain (workspaceWith plainRequest [hookChange]) plainBroker.policy
        tokenScanner none plainRequest).toOption.map (·.passed)) = some true ∧
      isHook hookChange.file.path = true := by
  refine ⟨fun hreal => ?_, by decide +kernel, by decide⟩
  have hread := hreal.exact
  rw [run_workspaceWith, entriesOf_changesText] at hread
  exact absurd hread (by decide)

end Git

end Slas
