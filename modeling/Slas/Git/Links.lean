/-
  Slas.Git.Links

  The links of a tree that the gate accepts, when their paths are walked: the gate judges
  each link by its own target, and a walk goes on through the other links.

  Theorems:
    contained_of_accepted — in which accepted trees no walk of a link leaves the root.
-/

import Slas.Git.QuotedNames
import Slas.Lib.LinkTree

namespace Slas

namespace Git

open LinkTree

/-! ## Trees of files -/

/-- The parts of a path between slashes; empty ones and single dots lead nowhere. -/
def pieceOf (part : List Char) : Option (Piece (List Char)) :=
  if part = [] ∨ part = ['.'] then none
  else if part = ['.', '.'] then some .up
  else some (.name part)

def piecesOf (path : List Char) : List (Piece (List Char)) :=
  (path.splitOn '/').filterMap pieceOf

/-- What the kernel makes of the text of a link. -/
def targetOf (text : String) : Target (List Char) :=
  if text.toList.head? = some '/' then .absolute else .relative (piecesOf text.toList)

/-- Where a file lies. -/
def NamedChange.place (file : NamedChange) : List (List Char) :=
  (file.name.map charOf).splitOn '/'

/-- The names that git allows: no part of a path is empty, a dot or two dots. -/
def NamedChange.Proper (file : NamedChange) : Prop :=
  ∀ part ∈ file.place, part ≠ [] ∧ part ≠ ['.'] ∧ part ≠ ['.', '.']

/-- The tree of the files; `text` is what lies in a blob. -/
def treeOf (files : List NamedChange) (text : Sha → String) : LinkTree.Tree (List Char) where
  link place := (files.find? fun file => file.mode = .symlink ∧ file.place = place).map
    fun file => targetOf (text file.sha)
  isDir place := files.any fun file => place.isPrefixOf file.place && place ≠ file.place

/-- No walk to a link of the tree and on along it leaves the root. -/
def Contained (files : List NamedChange) (text : Sha → String) : Prop :=
  ∀ file ∈ files, file.mode = .symlink → ∀ walk,
    Relation.ReflTransGen (LinkTree.Step (treeOf files text)) ⟨[], file.place.map .name⟩ walk →
      ¬ Outside (treeOf files text) walk

/-- No link has, in its target, a step up after a link. -/
def Level (files : List NamedChange) (text : Sha → String) : Prop :=
  ∀ file ∈ files, file.mode = .symlink →
    climbs (treeOf files text) file.place.dropLast (piecesOf (text file.sha).toList) = false

/-! ## The rule of the gate -/

variable {part cs ds : List Char} {text path : String}

/-- The loop of `_escapes` counts the pieces of a target. -/
theorem stays_of_escapesFrom {depth level : Int} {parts : List (List Char)} (hlevel : level ≤ depth)
    (h : escapesFrom depth level ((parts.map String.ofList).filter fun name =>
      name ≠ "" ∧ name ≠ ".") = false) :
    Stays (depth - level).toNat (parts.filterMap pieceOf) := by
  have hempty : ∀ part : List Char, String.ofList part = "" ↔ part = [] := by
    intro part
    rw [← String.ofList_nil, String.ofList_inj]
  have hdot : ∀ part : List Char, String.ofList part = "." ↔ part = ['.'] := by
    intro part
    rw [show "." = String.ofList ['.'] from rfl, String.ofList_inj]
  have hup : ∀ part : List Char, String.ofList part = ".." ↔ part = ['.', '.'] := by
    intro part
    rw [show ".." = String.ofList ['.', '.'] from rfl, String.ofList_inj]
  induction parts generalizing level with
  | nil => cases (depth - level).toNat <;> trivial
  | cons part parts ih =>
    have hkept : decide (String.ofList part ≠ "" ∧ String.ofList part ≠ ".") = true ↔
        ¬ (part = [] ∨ part = ['.']) := by
      simp [hempty, hdot, not_or]
    rw [List.map_cons, List.filter_cons] at h
    rw [List.filterMap_cons, pieceOf]
    by_cases hskip : part = [] ∨ part = ['.']
    · rw [if_neg (mt hkept.mp (not_not.mpr hskip))] at h
      rw [if_pos hskip]
      exact ih hlevel h
    · rw [if_pos (hkept.mpr hskip), escapesFrom] at h
      rw [if_neg hskip]
      by_cases hdots : part = ['.', '.']
      · rw [if_pos ((hup part).mpr hdots)] at h
        rw [if_pos hdots]
        split_ifs at h with hdeep
        have hnext : Stays (depth - (level + 1)).toNat (parts.filterMap pieceOf) :=
          ih (by omega) h
        rw [show (depth - level).toNat = (depth - (level + 1)).toNat + 1 by omega]
        exact hnext
      · rw [if_neg (mt (hup part).mp hdots), if_pos fun h => hskip (Or.inr ((hdot part).mp h))] at h
        rw [if_neg hdots]
        have hnext : Stays (depth - (level - 1)).toNat (parts.filterMap pieceOf) :=
          ih (by omega) h
        rw [show (depth - (level - 1)).toNat = (depth - level).toNat + 1 by omega] at hnext
        cases hlevels : (depth - level).toNat <;> rw [hlevels] at hnext <;> exact hnext

/-- The part is a name that no rule counts as a step up, or the same as the other one. -/
def NoHigher (part part' : List Char) : Prop :=
  part = part' ∨ (part ≠ [] ∧ part ≠ ['.'] ∧ part ≠ ['.', '.'])

theorem stays_of_noHigher {n : Nat} {parts parts' : List (List Char)}
    (h : List.Forall₂ NoHigher parts parts') (hstays : Stays n (parts'.filterMap pieceOf)) :
    Stays n (parts.filterMap pieceOf) := by
  induction h generalizing n with
  | nil => exact hstays
  | @cons part part' parts parts' hpart hparts ih =>
    rcases hpart with rfl | ⟨hempty, hdot, hup⟩
    · rw [List.filterMap_cons] at hstays ⊢
      cases hpiece : pieceOf part with
      | none =>
        rw [hpiece] at hstays
        exact ih hstays
      | some piece =>
        rw [hpiece] at hstays
        cases piece with
        | up =>
          cases n with
          | zero => exact hstays.elim
          | succ n => exact ih (n := n) hstays
        | name name => cases n <;> exact ih (n := _ + 1) hstays
    · -- a name leads down, whatever the other part does
      have hname : pieceOf part = some (.name part) := by
        rw [pieceOf, if_neg (by simp [hempty, hdot]), if_neg hup]
      have hmore : Stays (n + 1) (parts'.filterMap pieceOf) := by
        rw [List.filterMap_cons] at hstays
        cases hpiece : pieceOf part' with
        | none =>
          rw [hpiece] at hstays
          exact Stays.mono (by omega) hstays
        | some piece =>
          rw [hpiece] at hstays
          cases piece with
          | up =>
            cases n with
            | zero => exact hstays.elim
            | succ n =>
              have hless : Stays n (parts'.filterMap pieceOf) := hstays
              exact hless.mono (by omega)
          | name name => cases n <;> exact hstays
      rw [List.filterMap_cons, hname]
      cases n <;> exact ih hmore

theorem forall₂_noHigher_refl (parts : List (List Char)) : List.Forall₂ NoHigher parts parts :=
  List.forall₂_same.mpr fun _ _ => Or.inl rfl

/-- Blanks before a path make a name of its first part. -/
theorem noHigher_before {blanks : List Char} (h : ∀ c ∈ blanks, Lines.isSpace c = true)
    (cs : List Char) :
    List.Forall₂ NoHigher ((blanks ++ cs).splitOn '/') (cs.splitOn '/') := by
  have hslash : '/' ∉ blanks := fun hin => absurd (h _ hin) (by decide)
  have hsplit : ∀ bs : List Char, '/' ∉ bs →
      (bs ++ cs).splitOn '/' = (cs.splitOn '/').modifyHead (bs ++ ·) := by
    intro bs hbs
    induction bs with
    | nil =>
      cases hparts : cs.splitOn '/' with
      | nil => simp [hparts]
      | cons part parts => simp [hparts]
    | cons b bs ih =>
      have hb : (b == '/') = false := by
        rw [beq_eq_false_iff_ne]
        rintro rfl
        exact hbs List.mem_cons_self
      rw [List.cons_append, List.splitOn_cons_eq_if_modifyHead, hb, if_neg (by simp),
        ih fun hin => hbs (List.mem_cons_of_mem _ hin), List.modifyHead_modifyHead]
      rfl
  rw [hsplit blanks hslash]
  cases hparts : cs.splitOn '/' with
  | nil => exact List.Forall₂.nil
  | cons part parts =>
    refine List.Forall₂.cons ?_ (forall₂_noHigher_refl parts)
    cases blanks with
    | nil => exact Or.inl rfl
    | cons b bs =>
      have hb : b ≠ '.' := by
        rintro rfl
        exact absurd (h '.' List.mem_cons_self) (by decide)
      exact Or.inr ⟨by simp, by simp [hb], by simp [hb]⟩

/-- Blanks after a path make a name of its last part. -/
theorem noHigher_after {blanks : List Char} (h : ∀ c ∈ blanks, Lines.isSpace c = true)
    (cs : List Char) :
    List.Forall₂ NoHigher ((cs ++ blanks).splitOn '/') (cs.splitOn '/') := by
  have hslash : '/' ∉ blanks := fun hin => absurd (h _ hin) (by decide)
  induction cs with
  | nil =>
    rw [List.nil_append, List.splitOn_eq_singleton hslash, List.splitOn_nil]
    refine List.Forall₂.cons ?_ .nil
    cases blanks with
    | nil => exact Or.inl rfl
    | cons b bs =>
      have hb : b ≠ '.' := by
        rintro rfl
        exact absurd (h '.' List.mem_cons_self) (by decide)
      exact Or.inr ⟨by simp, by simp [hb], by simp [hb]⟩
  | cons c cs ih =>
    rw [List.cons_append, List.splitOn_cons_eq_if_modifyHead, List.splitOn_cons_eq_if_modifyHead]
    split_ifs with hc
    · exact List.Forall₂.cons (Or.inl rfl) ih
    · cases hparts : (cs ++ blanks).splitOn '/' with
      | nil => exact absurd hparts (List.splitOn_ne_nil _ _)
      | cons part parts =>
        cases hparts' : cs.splitOn '/' with
        | nil => exact absurd hparts' (List.splitOn_ne_nil _ _)
        | cons part' parts' =>
          rw [hparts, hparts'] at ih
          obtain ⟨hpart, hrest⟩ := List.forall₂_cons.mp ih
          refine List.Forall₂.cons ?_ hrest
          rcases hpart with rfl | ⟨hempty, hdot, hup⟩
          · exact Or.inl rfl
          · exact Or.inr ⟨by simp, by simp [hempty], by simp [hdot]⟩

/-- What is stripped off a target cannot hide a step up. -/
theorem stays_of_strip {n : Nat} (h : Stays n (piecesOf (Text.strip cs))) :
    Stays n (piecesOf cs) := by
  have hstart : ∀ c ∈ cs.takeWhile Lines.isSpace, Lines.isSpace c = true :=
    fun c hc => List.mem_takeWhile_imp hc
  have hend : ∀ c ∈ (cs.dropWhile Lines.isSpace).rtakeWhile Lines.isSpace,
      Lines.isSpace c = true :=
    fun c hc => List.mem_rtakeWhile_imp hc
  have hbefore := noHigher_before hstart (cs.dropWhile Lines.isSpace)
  have hafter := noHigher_after hend ((cs.dropWhile Lines.isSpace).rdropWhile Lines.isSpace)
  rw [List.takeWhile_append_dropWhile] at hbefore
  rw [List.rdropWhile_append_rtakeWhile] at hafter
  exact stays_of_noHigher hbefore (stays_of_noHigher hafter h)

theorem escapesFrom_mono {depth depth' level : Int} {names : List String} (hdepth : depth ≤ depth')
    (h : escapesFrom depth level names = false) : escapesFrom depth' level names = false := by
  induction names generalizing level with
  | nil => rfl
  | cons name names ih =>
    rw [escapesFrom] at h ⊢
    split_ifs at h ⊢ with hup hdeep hdeep' hdot
    · omega
    · exact ih h
    · exact ih h
    · exact ih h

theorem parts_ofList (h : cs.head? ≠ some '/') :
    Text.parts (String.ofList cs) = ((cs.splitOn '/').map String.ofList).filter fun name =>
      name ≠ "" ∧ name ≠ "." := by
  have hroot : Text.root (String.ofList cs) = [] := by
    unfold Text.root
    rw [String.toList_ofList]
    split <;> first | rfl | exact absurd rfl h
  rw [Text.parts, hroot, List.nil_append, Text.names, String.toList_ofList]

theorem head?_strip_slash (cs : List Char) : (Text.strip ('/' :: cs)).head? = some '/' := by
  have hslash : Lines.isSpace '/' = false := by decide
  have hdrop : ('/' :: cs).dropWhile Lines.isSpace = '/' :: cs := by
    rw [List.dropWhile_cons, hslash, if_neg (by simp)]
  rw [Text.strip, Text.stripBy, hdrop]
  obtain ⟨rest, hrest⟩ := List.rdropWhile_prefix Lines.isSpace ('/' :: cs)
  cases hstripped : ('/' :: cs).rdropWhile Lines.isSpace with
  | nil =>
    have hall := (List.rdropWhile_eq_nil_iff).mp hstripped '/' List.mem_cons_self
    exact absurd (hslash.symm.trans hall) (by decide)
  | cons c stripped =>
    rw [hstripped, List.cons_append] at hrest
    rw [(List.cons.inj hrest).1, List.head?_cons]

/-- A target that the rule lets through, for a link at most so deep. -/
theorem sound_of_escapes {depth : Nat} (hdepth : (Text.parts path).length ≤ depth + 1)
    (h : escapes (stripText text) path = false) :
    text.toList.head? ≠ some '/' ∧ Stays depth (piecesOf text.toList) := by
  unfold escapes at h
  rw [stripText, String.toList_ofList] at h
  split_ifs at h with habsolute
  have hcounted : Stays ((depth : Int) - 0).toNat (piecesOf (Text.strip text.toList)) := by
    refine stays_of_escapesFrom (by omega) ?_
    rw [parts_ofList habsolute] at h
    exact escapesFrom_mono (by omega) h
  rw [show ((depth : Int) - 0).toNat = depth by omega] at hcounted
  refine ⟨fun hslash => habsolute ?_, stays_of_strip hcounted⟩
  cases hcs : text.toList with
  | nil => simp [hcs] at hslash
  | cons c cs =>
    rw [hcs] at hslash
    cases Option.some.inj hslash
    exact head?_strip_slash cs

/-! ## How deep a link lies -/

theorem length_splitOn (cs : List Char) : (cs.splitOn '/').length = cs.count '/' + 1 := by
  induction cs with
  | nil => simp
  | cons c cs ih =>
    rw [List.splitOn_cons_eq_if_modifyHead, List.count_cons]
    split_ifs with hc <;> simp [ih]

/-- Quotes and escapes have no slashes. -/
theorem count_printedName (name : List UInt8) :
    (printedName name).count '/' = (name.map charOf).count '/' := by
  have hbyte : ∀ b : UInt8, (quotedByte b).count '/' = [charOf b].count '/' := by
    have hall : ∀ n : Fin 256, (quotedByte (UInt8.ofNat n)).count '/' =
        [charOf (UInt8.ofNat n)].count '/' := by
      decide +kernel
    exact fun b => by simpa using hall ⟨b.toNat, b.toNat_lt⟩
  have hbytes : (name.flatMap quotedByte).count '/' = (name.map charOf).count '/' := by
    induction name with
    | nil => rfl
    | cons b name ih =>
      rw [List.flatMap_cons, List.count_append, hbyte, ih, ← List.count_append]
      rfl
  unfold printedName
  split_ifs with hunusual
  · simp [hbytes]
  · rfl

/-- The rule never takes a link for deeper than it lies. -/
theorem length_parts_le {file : NamedChange} (hproper : file.Proper)
    (hcs : cs = printedName file.name ∨ cs = file.name.map charOf) :
    (Text.parts (String.ofList cs)).length ≤ file.place.length := by
  have hfirst : (file.name.map charOf).head? ≠ some '/' := by
    intro hslash
    obtain ⟨rest, hrest⟩ := List.head?_eq_some_iff.mp hslash
    have hparts : file.place = [] :: rest.splitOn '/' := by
      rw [NamedChange.place, hrest, List.splitOn_cons_eq_if_modifyHead]
      simp
    exact (hproper [] (hparts ▸ List.mem_cons_self)).1 rfl
  have hhead : cs.head? ≠ some '/' := by
    rcases hcs with rfl | rfl
    · unfold printedName
      split_ifs
      · simp
      · exact hfirst
    · exact hfirst
  have hcount : cs.count '/' = (file.name.map charOf).count '/' := by
    rcases hcs with rfl | rfl
    · exact count_printedName file.name
    · rfl
  rw [parts_ofList hhead, NamedChange.place, length_splitOn, ← hcount, ← length_splitOn]
  exact (List.length_filter_le _ _).trans (by rw [List.length_map])

/-! ## Accepted trees -/

variable {P : Python} {W : GitWorkspace} {policy : GatePolicy} {scanner : SecretScanner}
  {crossChecker : Option CrossChecker} {r : GateRequest} {report : GateReport}
  {changes kept : List NamedChange} {content : Sha → String}

/-- The links of a change that the gate accepts stay, each by its own target. -/
theorem changed_sound (hprints : W.run (compared r) = { exitCode := 0, stdout := changesText changes })
    (hcontent : ∀ change ∈ changes, change.mode = .symlink → ∀ answer,
      W.git ["cat-file", "-p", change.sha.text] = .ok answer → answer = content change.sha)
    (hproper : ∀ change ∈ changes, change.Proper)
    (haccepted : validatePush P W policy scanner crossChecker r = .ok report)
    (hpassed : report.passed = true) :
    ∀ change ∈ changes, change.mode = .symlink → (content change.sha).toList.head? ≠ some '/' ∧
      Stays (change.place.length - 1) (piecesOf (content change.sha).toList) := by
  intro change hchange hlink
  obtain ⟨entries, diffText, hentries, -, -, -, -, hlinks, -⟩ :=
    validatePush_passed haccepted hpassed
  have hread : entries = changes.map fun change =>
      ⟨change.mode.text, change.sha.text, String.ofList (printedName change.name)⟩ := by
    rw [hentries, ← entriesOf_changesText, ← compared, hprints]
  obtain ⟨answer, hanswer, hstays⟩ := escaping_nil hlinks
    ⟨change.mode.text, change.sha.text, String.ofList (printedName change.name)⟩
    (hread ▸ List.mem_map.mpr ⟨change, hchange, rfl⟩) (by rw [hlink]; rfl)
  rw [hcontent change hchange hlink answer hanswer] at hstays
  have hlength := length_parts_le (hproper change hchange) (Or.inl rfl)
  exact sound_of_escapes (hlength.trans (by omega)) hstays

/-- **Accepted trees**: if the links that were there before pass the rule of the gate too,
    and no link has a step up after a link in its target, no walk along a link leaves the
    root. -/
theorem contained_of_accepted
    (hprints : W.run (compared r) = { exitCode := 0, stdout := changesText changes })
    (hcontent : ∀ change ∈ changes, change.mode = .symlink → ∀ answer,
      W.git ["cat-file", "-p", change.sha.text] = .ok answer → answer = content change.sha)
    (hproper : ∀ file ∈ changes ++ kept, file.Proper)
    (hkept : ∀ file ∈ kept, file.mode = .symlink →
      escapes (stripText (content file.sha)) (nameText file.name) = false)
    (hlevel : Level (changes ++ kept) content)
    (haccepted : validatePush P W policy scanner crossChecker r = .ok report)
    (hpassed : report.passed = true) : Contained (changes ++ kept) content := by
  have hlinks : ∀ file ∈ changes ++ kept, file.mode = .symlink →
      (content file.sha).toList.head? ≠ some '/' ∧
        Stays (file.place.length - 1) (piecesOf (content file.sha).toList) := by
    intro file hfile hlink
    rcases List.mem_append.mp hfile with hchanged | hold
    · exact changed_sound hprints hcontent (fun change hchange =>
        hproper change (List.mem_append_left _ hchange)) haccepted hpassed file hchanged hlink
    · have hlength := length_parts_le (hproper file hfile) (Or.inr rfl)
      exact sound_of_escapes (hlength.trans (by omega)) (hkept file hold hlink)
  -- what the tree has at a place is the target of a link there
  have hfound : ∀ place target, (treeOf (changes ++ kept) content).link place = some target →
      ∃ file ∈ changes ++ kept, file.mode = .symlink ∧ file.place = place ∧
        targetOf (content file.sha) = target := by
    intro place target htarget
    obtain ⟨file, hfile, rfl⟩ := Option.map_eq_some_iff.mp htarget
    have hplace := List.find?_some hfile
    simp only [decide_eq_true_eq] at hplace
    exact ⟨file, List.mem_of_find?_eq_some hfile, hplace.1, hplace.2, rfl⟩
  have htarget : ∀ file ∈ changes ++ kept, file.mode = .symlink →
      targetOf (content file.sha) = .relative (piecesOf (content file.sha).toList) :=
    fun file hfile hlink => if_neg (hlinks file hfile hlink).1
  intro file hfile hlink walk hwalk
  refine not_outside_of_walks (fun place habsolute => ?_) (fun place pieces hrelative => ?_) hwalk
  · obtain ⟨file, hfile, hlink, -, htext⟩ := hfound place _ habsolute
    rw [htarget file hfile hlink] at htext
    cases htext
  · obtain ⟨file, hfile, hlink, rfl, htext⟩ := hfound place _ hrelative
    rw [htarget file hfile hlink] at htext
    cases htext
    exact ⟨(hlinks file hfile hlink).2, hlevel file hfile hlink⟩

/-- A workspace where a push makes these changes; the blobs hold this text. -/
def workspaceHolding (content : Sha → String) (r : GateRequest) (changes : List NamedChange) :
    GitWorkspace where
  cwd := "/data/Coding/ann/Projects/bmc"
  run args :=
    match changes.find? fun change => args = ["cat-file", "-p", change.sha.text] with
    | some change => { exitCode := 0, stdout := content change.sha }
    | none => (workspaceWith r changes).run args

/-- Two links, `d` and `e`. -/
def linkD : NamedChange := ⟨none, .symlink, readme.sha, [0x64]⟩

def linkE : NamedChange := ⟨none, .symlink, configFile.sha, [0x65]⟩

/-- What `d` and `e` lead to. -/
def leading (d e : String) (id : Sha) : String := if id = readme.sha then d else e

theorem content_workspaceHolding {d e : String} : ∀ change ∈ [linkD, linkE], change.mode = .symlink →
    ∀ answer, (workspaceHolding (leading d e) plainRequest [linkD, linkE]).git
      ["cat-file", "-p", change.sha.text] = .ok answer → answer = leading d e change.sha := by
  intro change hchange _ answer hanswer
  rw [git_ok hanswer]
  simp only [List.mem_cons, List.not_mem_nil, or_false] at hchange
  rcases hchange with rfl | rfl <;> rfl

def gateOnLinks (d e : String) : Except GitFailure GateReport :=
  validatePush .plain (workspaceHolding (leading d e) plainRequest [linkD, linkE])
    plainBroker.policy tokenScanner none plainRequest

/-- Two links that lead on and stay. -/
theorem contained_leading : Contained ([linkD, linkE] ++ []) (leading "." "./d") := by
  obtain ⟨report, hgate, hpassed⟩ := exists_passed (show (gateOnLinks "." "./d").toOption.map
    (·.passed) = some true by decide +kernel)
  exact contained_of_accepted rfl content_workspaceHolding
    (by unfold NamedChange.Proper; decide) (by simp) (by unfold Level; decide) hgate hpassed

/-- The gate accepts a link to the directory above the one that another link leads to. -/
theorem linkE_leaves :
    ((gateOnLinks "." "d/..").toOption.map (·.passed)) = some true ∧
      ¬ Contained [linkD, linkE] (leading "." "d/..") := by
  refine ⟨by decide +kernel, fun h => ?_⟩
  let T := treeOf [linkD, linkE] (leading "." "d/..")
  have hfirst : LinkTree.Step T ⟨[], [.name ['e']]⟩ ⟨[], [.name ['d'], .up]⟩ :=
    .follow [] ['e'] [.name ['d'], .up] [] rfl
  have hsecond : LinkTree.Step T ⟨[], [.name ['d'], .up]⟩ ⟨[], [.up]⟩ :=
    .follow [] ['d'] [] [.up] rfl
  exact h linkE (by simp) rfl ⟨[], [.up]⟩ (.tail (.single hfirst) hsecond) (Or.inl ⟨rfl, rfl⟩)

end Git

end Slas
