/-
  Slas.Coding.ApplyEdits

  `apply_edits` of `slas_orchestrator.coding.executor`: the files that a model proposes are
  checked and written one after the other.

  No file outside of the project changes, and none under `.git`: `confined`.  A refusal leaves
  the project as it was, and is an `EditError`, only where the edits before it come to nothing
  and it is one of the two checks that refuses: `confinedAndAtomic_iff`.

  The project directory is taken as it is resolved.  What a decoder makes of bytes that are no
  text is a parameter.  Names that are too long, a disk that is full and files that may not be
  written are left out.
-/

import Slas.Coding.Executor
import Slas.Lib.FileTree
import Slas.Lib.Lines
import Slas.Lib.Trace

namespace Slas

namespace Coding

open FileTree hiding Tree

/-! ## The edits -/

abbrev FileBytes := List UInt8

abbrev Files := FileTree.Tree FileBytes

/-- A path, and the new content, or none to delete it. -/
abbrev Edit := String × Option String

inductive ApplyError where
  /-- `EditError` -/
  | edit (message : ThreePartMessage)
  | os (error : OsError)

def escapeMessage (rel : String) : ThreePartMessage where
  whatHappened := "The model tried to write outside the project: " ++ rel ++ "."
  likelyCause := "Edits are confined to the project directory."
  whatToDo := "The step stops here; review the model's proposal on the ticket."

def offLimitsMessage (rel : String) : ThreePartMessage where
  whatHappened := "The model tried to write to " ++ rel ++ "."
  likelyCause := "The repository metadata and anything outside the project are off limits."
  whatToDo := "The step stops here; review the model's proposal on the ticket."

/-- In the project, and not under `.git`. -/
def Permitted (root target : Place) : Prop :=
  root <+: target ∧ ".git" ∉ target.drop root.length

instance (root target : Place) : Decidable (Permitted root target) :=
  inferInstanceAs (Decidable (_ ∧ _))

/-- A name that cannot be one in the project. -/
def Escapes (rel : String) : Prop :=
  rel = "" ∨ rel.toList.head? = some '/' ∨ rel.toList.head? = some '~' ∨ ".." ∈ Text.names rel

instance (rel : String) : Decidable (Escapes rel) :=
  inferInstanceAs (Decidable (_ ∨ _ ∨ _ ∨ _))

variable (decode : FileBytes → List Char) (root : Place)

/-- The two checks of a name, and where it leads. -/
def checked (t : Files) (rel : String) : Except ApplyError Place :=
  if Escapes rel then .error (.edit (escapeMessage rel))
  else
    match FileTree.resolve t root (pieces rel) with
    | .error e => .error (.os e)
    | .ok target =>
      if Permitted root target then .ok target else .error (.edit (offLimitsMessage rel))

/-- What `write_text` writes. -/
def encode (content : String) : FileBytes := content.toUTF8.data.toList

/-- Whether the file reads as the text, by `read_text`. -/
def Reads (bytes : FileBytes) (content : String) : Prop :=
  Lines.universalNewlines (decode bytes) = content.toList

instance (bytes : FileBytes) (content : String) : Decidable (Reads decode bytes content) :=
  inferInstanceAs (Decidable (_ = _))

/-- Deleting what a name leads to: the tree after it, and whether it has changed. -/
def deleteFile (t : Files) (target : Place) : Except OsError (Files × Bool) :=
  if t.isFree target then .ok (t, false) else (t.unlink target).map (·, true)

/-- Writing it, if it does not read as the content already. -/
def writeFile (t : Files) (target : Place) (content : String) :
    Except OsError (Files × Bool) :=
  match t.mkdirs target.dropLast with
  | .error e => .error e
  | .ok t =>
    match t.node target with
    | some .dir => .error .isADirectory
    | some (.file bytes) =>
      if Reads decode bytes content then .ok (t, false)
      else (t.write target (encode content)).map (·, true)
    | _ => (t.write target (encode content)).map (·, true)

def applyEdit (t : Files) (e : Edit) : Except ApplyError (Files × Bool) :=
  match checked root t e.1 with
  | .error error => .error error
  | .ok target =>
    match e.2 with
    | none => (deleteFile t target).mapError .os
    | some content => (writeFile decode t target content).mapError .os

/-- `apply_edits`: the tree that is left, and what has changed in it. -/
def applyEditsFrom (t : Files) : List Edit →
    Files × Except ApplyError (List String)
  | [] => (t, .ok [])
  | e :: es =>
    match applyEdit decode root t e with
    | .error error => (t, .error error)
    | .ok (next, changed) =>
      let (last, result) := applyEditsFrom next es
      (last, result.map fun names => if changed then e.1 :: names else names)

def applyEdits (t : Files) (edits : EditSet) :
    Files × Except ApplyError (List String) := applyEditsFrom decode root t edits.files

/-! ## What the edits come to -/

/-- What is at the place that an edit writes. -/
def written (content : String) : Option (Node FileBytes) → Option (Node FileBytes)
  | some (.file bytes) =>
    if Reads decode bytes content then some (.file bytes) else some (.file (encode content))
  | _ => some (.file (encode content))

variable (t : Files)

/-- What an edit makes of what is at a place. -/
def effect (e : Edit) (q : Place) (node : Option (Node FileBytes)) : Option (Node FileBytes) :=
  match checked root t e.1 with
  | .error _ => node
  | .ok target =>
    match e.2 with
    | none => if q = target then none else node
    | some content =>
      if q = target then written decode content node
      else if q <+: target then some .dir
      else node

/-- What is at a place after some edits, each of which is applied. -/
def nodeAfter (edits : List Edit) (q : Place) : Option (Node FileBytes) :=
  edits.foldl (fun node e => effect decode root t e q node) (t.node q)

/-- After the edits before it, an edit can be applied: no directory is where it leads, and if it
    writes, nothing else than directories is above. -/
def Applies (before : List Edit) (e : Edit) : Prop :=
  ∃ target, checked root t e.1 = .ok target ∧ nodeAfter decode root t before target ≠ some .dir ∧
    (e.2 ≠ none → ∀ q, q <+: target → q ≠ target →
      nodeAfter decode root t before q = none ∨ nodeAfter decode root t before q = some .dir)

/-- One of the two checks refuses the edit. -/
def Refused (e : Edit) : Prop := ∃ message, checked root t e.1 = .error (.edit message)

/-- The edits, one after the other, leave every place as it was. -/
def ComeToNothing (edits : List Edit) : Prop := ∀ q, nodeAfter decode root t edits q = t.node q

variable {decode root t} {s s' : Files} {before es : List Edit} {e : Edit} {q : Place}

theorem nodeAfter_concat : nodeAfter decode root t (before ++ [e]) q =
    effect decode root t e q (nodeAfter decode root t before q) := by
  rw [nodeAfter, List.foldl_append]
  rfl

theorem checked_eq (h : Tree.SameLinks t s) (rel : String) :
    checked root s rel = checked root t rel := by
  rw [checked, checked, h.resolve]

theorem checked_eq_ok {rel : String} {target : Place} (h : checked root t rel = .ok target) :
    FileTree.resolve t root (pieces rel) = .ok target ∧ Permitted root target := by
  unfold checked at h
  split_ifs at h with hescapes
  split at h
  · cases h
  · rename_i hresolve
    split_ifs at h with hpermitted
    cases h
    exact ⟨hresolve, hpermitted⟩

theorem prefix_dropLast_iff {p : Place} (hne : p ≠ []) : q <+: p.dropLast ↔ q <+: p ∧ q ≠ p := by
  obtain ⟨init, name, rfl⟩ := (List.eq_nil_or_concat p).resolve_left hne
  rw [List.concat_eq_append, List.dropLast_concat, List.prefix_concat_iff]
  constructor
  · intro h
    refine ⟨Or.inr h, ?_⟩
    rintro rfl
    have hlength := h.length_le
    rw [List.length_append, List.length_singleton] at hlength
    omega
  · rintro ⟨h, hne⟩
    exact h.resolve_left hne

/-- The tree after some edits, each of which was applied. -/
structure Follows (decode : FileBytes → List Char) (root : Place) (t : Files)
    (before : List Edit) (s : Files) : Prop where
  same : Tree.SameLinks t s
  node : ∀ q, s.node q = nodeAfter decode root t before q

theorem deleteFile_ok {target : Place} (hdir : s.node target ≠ some .dir)
    (hlink : s.link target = none) : ∃ s' changed,
      deleteFile s target = .ok (s', changed) ∧ Tree.SameLinks s s' ∧
        ∀ q, s'.node q = if q = target then none else s.node q := by
  by_cases hfree : s.isFree target = true
  · refine ⟨s, false, if_pos hfree, .refl s, fun q => ?_⟩
    split_ifs with hq
    · rw [hq]
      exact Tree.isFree_iff.mp hfree
    · rfl
  · obtain ⟨s', hunlink, hsame, hnode⟩ := Tree.unlink_ok hdir hlink
    refine ⟨s', true, ?_, hsame, hnode⟩
    rw [deleteFile, if_neg hfree, hunlink]
    rfl

theorem writeFile_ok (decode : FileBytes → List Char) {target : Place} (content : String)
    (hdir : s.node target ≠ some .dir)
    (hlink : s.link target = none)
    (habove : ∀ q, q <+: target → q ≠ target → s.node q = none ∨ s.node q = some .dir) :
    ∃ s' changed, writeFile decode s target content = .ok (s', changed) ∧ Tree.SameLinks s s' ∧
      ∀ q, s'.node q = if q = target then written decode content (s.node q)
        else if q <+: target then some .dir else s.node q := by
  have hne : target ≠ [] := by
    rintro rfl
    exact hdir s.top
  obtain ⟨above, hmkdirs, hsame, hnode⟩ := Tree.mkdirs_ok (t := s) (p := target.dropLast)
    fun q hq => habove q ((prefix_dropLast_iff hne).mp hq).1 ((prefix_dropLast_iff hne).mp hq).2
  have htarget : above.node target = s.node target := by
    rw [hnode, if_neg fun h => ((prefix_dropLast_iff hne).mp h).2 rfl]
  have hother : ∀ q, q ≠ target →
      above.node q = if q <+: target then some .dir else s.node q := by
    intro q hq
    rw [hnode]
    simp [prefix_dropLast_iff hne, hq]
  obtain ⟨s', hwrite, hsame', hnode'⟩ := Tree.write_ok (t := above) (p := target)
    (encode content) (by rw [htarget]; exact hdir) (by rw [hsame.link]; exact hlink)
    (by rw [hnode, if_pos (List.prefix_refl _)])
  -- the file is written, or it reads as the content already
  have hwritten (hnew : written decode content (s.node target) = some (.file (encode content))) :
      ∀ q, s'.node q = if q = target then written decode content (s.node q)
        else if q <+: target then some .dir else s.node q := by
    intro q
    rw [hnode']
    by_cases hq : q = target
    · rw [if_pos hq, if_pos hq, hq, hnew]
    · rw [if_neg hq, if_neg hq, hother q hq]
  cases hold : s.node target with
  | none =>
    refine ⟨s', true, ?_, hsame.trans hsame', hwritten (by rw [hold]; rfl)⟩
    simp [writeFile, hmkdirs, htarget, hold, hwrite, Except.map]
  | some node =>
    cases node with
    | dir => exact absurd hold hdir
    | link text =>
      rw [Tree.link_eq_some.mpr hold] at hlink
      cases hlink
    | file bytes =>
      by_cases hreads : Reads decode bytes content
      · refine ⟨above, false, ?_, hsame, fun q => ?_⟩
        · simp [writeFile, hmkdirs, htarget, hold, hreads]
        · by_cases hq : q = target
          · rw [if_pos hq, hq, htarget, hold, written, if_pos hreads]
          · rw [if_neg hq, hother q hq]
      · refine ⟨s', true, ?_, hsame.trans hsame', hwritten ?_⟩
        · simp [writeFile, hmkdirs, htarget, hold, hreads, hwrite, Except.map]
        · rw [hold, written, if_neg hreads]

/-- **One edit that can be applied.** -/
theorem applyEdit_ok (hroot : t.node root = some .dir) (hs : Follows decode root t before s)
    (h : Applies decode root t before e) : ∃ s' changed,
      applyEdit decode root s e = .ok (s', changed) ∧
        Follows decode root t (before ++ [e]) s' := by
  obtain ⟨rel, content⟩ := e
  obtain ⟨target, hchecked, hdir, habove⟩ := h
  have hchecked' : checked root s rel = .ok target := (checked_eq hs.same rel).trans hchecked
  have hlink : s.link target = none := by
    rw [hs.same.link]
    exact plain_resolve hroot (checked_eq_ok hchecked).1 target (List.prefix_refl _)
  rw [← hs.node] at hdir
  cases content with
  | none =>
    obtain ⟨s', changed, happly, hsame, hnode⟩ := deleteFile_ok hdir hlink
    refine ⟨s', changed, ?_, hs.same.trans hsame, fun q => ?_⟩
    · rw [applyEdit, hchecked']
      dsimp only
      rw [happly]
      rfl
    · rw [nodeAfter_concat, effect, hchecked, hnode, hs.node]
  | some content =>
    have habove : ∀ q, q <+: target → q ≠ target → s.node q = none ∨ s.node q = some .dir := by
      intro q hpart hne
      rw [hs.node]
      exact habove (Option.some_ne_none _) q hpart hne
    obtain ⟨s', changed, happly, hsame, hnode⟩ := writeFile_ok decode content hdir hlink habove
    refine ⟨s', changed, ?_, hs.same.trans hsame, fun q => ?_⟩
    · rw [applyEdit, hchecked']
      dsimp only
      rw [happly]
      rfl
    · rw [nodeAfter_concat, effect, hchecked, hnode, hs.node]

theorem deleteFile_error {target : Place} (hdir : s.node target = some .dir) :
    deleteFile s target = .error .isADirectory := by
  have hfree : s.isFree target ≠ true := by
    rw [ne_eq, Tree.isFree_iff, hdir]
    exact Option.some_ne_none _
  rw [deleteFile, if_neg hfree, Tree.unlink_error hdir]
  rfl

theorem writeFile_error (decode : FileBytes → List Char) {target : Place} (content : String)
    (h : ¬ (s.node target ≠ some .dir ∧
      ∀ q, q <+: target → q ≠ target → s.node q = none ∨ s.node q = some .dir)) :
    ∃ error, writeFile decode s target content = .error error := by
  by_cases habove : ∀ q, q <+: target.dropLast → s.node q = none ∨ s.node q = some .dir
  · obtain ⟨above, hmkdirs, -, hnode⟩ := Tree.mkdirs_ok habove
    have hdir : s.node target = some .dir := by
      by_contra hdir
      have hne : target ≠ [] := by
        rintro rfl
        exact hdir s.top
      exact h ⟨hdir, fun q hq hother => habove q ((prefix_dropLast_iff hne).mpr ⟨hq, hother⟩)⟩
    have hdir' : above.node target = some .dir := by
      rw [hnode, hdir, ite_self]
    exact ⟨.isADirectory, by simp [writeFile, hmkdirs, hdir']⟩
  · push Not at habove
    obtain ⟨q, hq, hnone, hdir⟩ := habove
    exact ⟨.notADirectory, by rw [writeFile, Tree.mkdirs_error hq hnone hdir]⟩

/-- One that cannot be applied raises an `EditError` where a check refuses it. -/
theorem applyEdit_error (hs : Follows decode root t before s)
    (h : ¬ Applies decode root t before e) : ∃ error, applyEdit decode root s e = .error error ∧
      ((∃ message, error = .edit message) ↔ Refused root t e) := by
  obtain ⟨rel, content⟩ := e
  rw [Refused, ← checked_eq hs.same rel, applyEdit]
  cases hchecked : checked root s rel with
  | error error => exact ⟨error, rfl, by simp⟩
  | ok target =>
    have hchecked' : checked root t rel = .ok target := (checked_eq hs.same rel).symm.trans hchecked
    have hnot : ¬ (s.node target ≠ some .dir ∧ (content ≠ none →
        ∀ q, q <+: target → q ≠ target → s.node q = none ∨ s.node q = some .dir)) := by
      simp only [hs.node]
      exact fun happlies => h ⟨target, hchecked', happlies⟩
    cases content with
    | none =>
      have hdir : s.node target = some .dir := by
        by_contra hdir
        exact hnot ⟨hdir, fun hne => absurd rfl hne⟩
      refine ⟨.os .isADirectory, ?_, by simp⟩
      dsimp only
      rw [deleteFile_error hdir]
      rfl
    | some content =>
      obtain ⟨error, herror⟩ := writeFile_error decode content fun happlies =>
        hnot ⟨happlies.1, fun _ => happlies.2⟩
      refine ⟨.os error, ?_, by simp⟩
      dsimp only
      rw [herror]
      rfl

/-! ## A whole run -/

/-- How a run ends: every edit was applied, or the first that could not be. -/
inductive Ends (decode : FileBytes → List Char) (root : Place) (t : Files)
    (edits : List Edit) : Files × Except ApplyError (List String) → Prop where
  | applied {last : Files} {names : List String}
      (all : Trace.Always (Applies decode root t) edits)
      (after : Follows decode root t edits last) : Ends decode root t edits (last, .ok names)
  | refused {last : Files} {before later : List Edit} {e : Edit} {error : ApplyError}
      (cut : edits = before ++ e :: later)
      (all : Trace.Always (Applies decode root t) before)
      (after : Follows decode root t before last)
      (not : ¬ Applies decode root t before e)
      (kind : (∃ message, error = .edit message) ↔ Refused root t e) :
      Ends decode root t edits (last, .error error)

theorem ends_applyEditsFrom (hroot : t.node root = some .dir)
    (hall : Trace.Always (Applies decode root t) before) (hs : Follows decode root t before s) :
    Ends decode root t (before ++ es) (applyEditsFrom decode root s es) := by
  induction es generalizing before s with
  | nil =>
    rw [List.append_nil]
    exact .applied hall hs
  | cons e es ih =>
    by_cases happlies : Applies decode root t before e
    · obtain ⟨s', changed, hstep, hs'⟩ := applyEdit_ok hroot hs happlies
      have hrest := ih (Trace.always_snoc.mpr ⟨hall, happlies⟩) hs'
      rw [List.append_assoc, List.singleton_append] at hrest
      rw [applyEditsFrom, hstep]
      dsimp only
      generalize applyEditsFrom decode root s' es = run at hrest ⊢
      cases hrest with
      | applied all after => exact .applied all after
      | refused cut all after not kind => exact .refused cut all after not kind
    · obtain ⟨error, hstep, hkind⟩ := applyEdit_error hs happlies
      rw [applyEditsFrom, hstep]
      exact .refused rfl hall hs happlies hkind

/-- Edits that pass the checks change nothing outside of the project, and nothing under `.git`. -/
theorem nodeAfter_of_not_permitted (hroot : t.node root = some .dir) (hq : ¬ Permitted root q)
    (edits : List Edit) : nodeAfter decode root t edits q = t.node q := by
  induction edits using List.reverseRecOn with
  | nil => rfl
  | append_singleton edits e ih =>
    rw [nodeAfter_concat, ih, effect]
    cases hchecked : checked root t e.1 with
    | error error => rfl
    | ok target =>
      obtain ⟨hinside, hgit⟩ := (checked_eq_ok hchecked).2
      have hne : q ≠ target := by
        rintro rfl
        exact hq ⟨hinside, hgit⟩
      cases hcontent : e.2 with
      | none => exact if_neg hne
      | some content =>
        dsimp only
        rw [if_neg hne]
        by_cases hpart : q <+: target
        · -- a directory above the project, as what is in the project is permitted
          rw [if_pos hpart]
          have habove : q <+: root := by
            rcases List.prefix_or_prefix_of_prefix hpart hinside with h | h
            · exact h
            · exact absurd ⟨h, fun hmem => hgit ((hpart.drop root.length).subset hmem)⟩ hq
          have hne' : q ≠ root := by
            rintro rfl
            exact hq ⟨habove, by simp⟩
          have hthere : t.node root ≠ none := by
            rw [hroot]
            exact Option.some_ne_none _
          exact (Tree.isDir_above hthere habove hne').symm
        · exact if_neg hpart

/-- The first edit that cannot be applied is one. -/
theorem first_unique {before' later later' : List Edit} {e' : Edit}
    (hcut : before ++ e :: later = before' ++ e' :: later')
    (hall : Trace.Always (Applies decode root t) before)
    (hall' : Trace.Always (Applies decode root t) before')
    (hnot : ¬ Applies decode root t before e) (hnot' : ¬ Applies decode root t before' e') :
    before = before' ∧ e = e' := by
  rcases List.append_eq_append_iff.mp hcut with ⟨more, rfl, hmore⟩ | ⟨more, rfl, hmore⟩
  · cases more with
    | nil => exact ⟨(List.append_nil _).symm, (List.cons.inj hmore).1⟩
    | cons d more =>
      obtain ⟨rfl, -⟩ := List.cons.inj hmore
      exact absurd (hall' before e more rfl) hnot
  · cases more with
    | nil => exact ⟨List.append_nil _, (List.cons.inj hmore).1.symm⟩
    | cons d more =>
      obtain ⟨rfl, -⟩ := List.cons.inj hmore
      exact absurd (hall before' e' more rfl) hnot'

theorem Refused.not_applies (h : Refused root t e) : ¬ Applies decode root t before e := by
  rintro ⟨target, hok, -⟩
  obtain ⟨message, herror⟩ := h
  rw [hok] at herror
  cases herror

/-! ## Confined and atomic -/

/-- A directory of a tree, as it is resolved. -/
structure Project where
  tree : Files
  root : Place
  isDir : tree.node root = some .dir

/-- Nothing has changed outside of the project, and nothing under `.git`; and what is raised is an
    `EditError`, and has left everything as it was. -/
def ConfinedAndAtomic (decode : FileBytes → List Char) (project : Project) (edits : EditSet) :
    Prop :=
  let (last, result) := applyEdits decode project.root project.tree edits
  (∀ q, ¬ Permitted project.root q → last.node q = project.tree.node q) ∧
    ∀ error, result = .error error →
      (∃ message, error = .edit message) ∧ ∀ q, last.node q = project.tree.node q

/-- **Confined, always; atomic, where no edit is refused, or a check refuses the first one that
    is and the edits before it come to nothing.** -/
theorem confinedAndAtomic_iff (decode : FileBytes → List Char) (project : Project)
    (edits : EditSet) :
    ConfinedAndAtomic decode project edits ↔
      Trace.Always (Applies decode project.root project.tree) edits.files ∨
        ∃ before e later, edits.files = before ++ e :: later ∧
          Trace.Always (Applies decode project.root project.tree) before ∧
          Refused project.root project.tree e ∧
          ComeToNothing decode project.root project.tree before := by
  have hends : Ends decode project.root project.tree edits.files
      (applyEditsFrom decode project.root project.tree edits.files) :=
    ends_applyEditsFrom project.isDir Trace.always_nil ⟨.refl project.tree, fun q => rfl⟩
  rw [ConfinedAndAtomic, applyEdits]
  generalize applyEditsFrom decode project.root project.tree edits.files = run at hends
  have hconfined {files : List Edit} {last : Files}
      (hafter : Follows decode project.root project.tree files last) :
      ∀ q, ¬ Permitted project.root q → last.node q = project.tree.node q := fun q hq =>
    (hafter.node q).trans (nodeAfter_of_not_permitted project.isDir hq files)
  cases hends with
  | applied all after => exact iff_of_true ⟨hconfined after, by simp⟩ (Or.inl all)
  | @refused last before later e error cut all after not kind =>
    constructor
    · rintro ⟨-, hatomic⟩
      obtain ⟨hedit, hsame⟩ := hatomic error rfl
      exact Or.inr ⟨before, e, later, cut, all, kind.mp hedit, fun q =>
        (after.node q).symm.trans (hsame q)⟩
    · rintro (hall | ⟨before', e', later', hcut, hall, hrefused, hnothing⟩)
      · exact absurd (hall before e later cut) not
      · obtain ⟨rfl, rfl⟩ := first_unique (cut.symm.trans hcut) all hall not hrefused.not_applies
        exact ⟨hconfined after, fun error' herror => by
          cases herror
          exact ⟨kind.mpr hrefused, fun q => (after.node q).trans (hnothing q)⟩⟩

private def onlyProject (p : Place) : Option (Node FileBytes) :=
  if p = [] ∨ p = ["project"] then some .dir else none

private theorem grounded_onlyProject (p : Place) (name : String)
    (h : onlyProject (p ++ [name]) ≠ none) : onlyProject p = some .dir := by
  unfold onlyProject at h
  split_ifs at h with hplace
  · have hp : p = [] := by
      rcases hplace with hplace | hplace
      · exact (List.append_eq_nil_iff.mp hplace).1
      · exact (List.append_inj' hplace rfl : p = [] ∧ _).1
    exact if_pos (Or.inl hp)
  · exact absurd rfl h

private theorem listed_onlyProject (p : Place) (text : String)
    (h : onlyProject p = some (.link text)) : p ∈ ([] : List Place) := by
  unfold onlyProject at h
  split_ifs at h
  cases h

private def emptyProject : Project where
  tree := ⟨onlyProject, [], rfl, grounded_onlyProject, listed_onlyProject⟩
  root := ["project"]
  isDir := rfl

/-- Bytes that are the characters. -/
private def latin (bytes : FileBytes) : List Char := bytes.map fun byte => Char.ofNat byte.toNat

/-- The first of two edits is written, and then the second is refused. -/
theorem first_written :
    ¬ ConfinedAndAtomic latin emptyProject
      ⟨[("a.txt", some "x"), ("../b.txt", some "y")], ""⟩ := by
  rintro ⟨-, hatomic⟩
  have herror : ∃ error, (applyEdits latin emptyProject.root emptyProject.tree
      ⟨[("a.txt", some "x"), ("../b.txt", some "y")], ""⟩).2 = .error error := ⟨_, rfl⟩
  obtain ⟨error, herror⟩ := herror
  have hsame := (hatomic error herror).2 ["project", "a.txt"]
  cases hsame

end Coding

end Slas
