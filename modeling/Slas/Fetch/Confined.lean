/-
  Slas.Fetch.Confined

  Where a fetch writes: exactly when the names of a listing keep it inside the model's own
  directory.

  A name is joined to the directory unchecked, so it may lead out: by `..`, as an absolute
  path, or as a path without a name, whose `.part` file lies beside the directory.
-/

import Mathlib.Data.List.Perm.Subperm
import Slas.Fetch.Fetcher

namespace Slas

namespace Fetch

open Crash Disk

/-- `plan_model`, and `fetch_planned` of the plan. -/
def fetchModel (H : Hashes) (hub : Hub) (source : Source) (dest : Place)
    (include_ exclude : List String) (listed : Listed) : Fetching FetchedModel := do
  let plan ← planModel H source dest include_ exclude listed
  fetchPlanned H hub plan dest

/-- Which of the listed files are to be fetched. -/
def Listed.chosen (listed : Listed) (include_ exclude : List String) : List RemoteFile :=
  (select (tree listed.data) include_ exclude).1

/-! ## Where a name leads -/

/-- A place in the directory. -/
def Inside (dir p : Place) : Prop := dir <+: p ∧ p ≠ dir

/-- The place of the `.part` file of a name, where there can be one: not where the path itself
    needs a directory. -/
def writePlace (dir : List String) (name : String) : Option Place :=
  (partOf (joined dir name)).bind fun part =>
    if (∀ n ∈ part, Usable n) ∧ lexical part ∉ passed part.dropLast then some (lexical part)
    else none

/-- The files of the name are inside. -/
def Stays (dir : List String) (name : String) : Prop :=
  ∀ p, writePlace dir name = some p → Inside (lexical dir) p

variable {dir target part path : List String} {name : String} {p q : Place} {disk : Disk Bytes}

theorem inside_concat : Inside dir (p ++ [name]) ↔ dir <+: p := by
  constructor
  · rintro ⟨hstarts, hne⟩
    exact (List.prefix_concat_iff.mp hstarts).resolve_left fun heq => hne heq.symm
  · intro h
    refine ⟨h.trans (List.prefix_append _ _), fun heq => ?_⟩
    have hlength := h.length_le
    rw [← heq, List.length_append, List.length_singleton] at hlength
    omega

/-- The parts of a path with a name, and of its `.part` file. -/
theorem partOf_eq_some (h : partOf target = some part) :
    ∃ parent name, target = parent ++ [name] ∧ part = parent ++ [name ++ ".part"] := by
  rcases List.eq_nil_or_concat target with rfl | ⟨parent, name, rfl⟩
  · cases h
  · refine ⟨parent, name, List.concat_eq_append, ?_⟩
    rw [List.concat_eq_append] at h
    simpa [partOf] using h.symm

theorem partName_ne (name : String) : name ++ ".part" ≠ ".." := by
  intro h
  have hlength := congrArg (fun s => s.toList.length) h
  simp only [String.toList_append, List.length_append] at hlength
  have hpart : ".part".toList.length = 5 := by decide
  have hdots : "..".toList.length = 2 := by decide
  omega

/-- A `.part` file that can be opened is where the name says. -/
theorem writePlace_of_filePlace (hpart : partOf (joined dir name) = some part)
    (h : disk.filePlace part = some p) : writePlace dir name = some p := by
  obtain ⟨-, rfl, hfile, husable, hpassed⟩ := filePlace_spec h
  have hnot : lexical part ∉ passed part.dropLast := by
    intro hmem
    rw [hpassed _ hmem] at hfile
    cases hfile
  rw [writePlace, hpart, Option.bind_some, if_pos ⟨husable, hnot⟩]

/-- The file itself lies beside its `.part` file. -/
theorem inside_target (hpart : partOf target = some part) (hin : Inside dir (lexical part))
    (h : disk.filePlace target = some q) : Inside dir q := by
  obtain ⟨parent, name, rfl, rfl⟩ := partOf_eq_some hpart
  obtain ⟨hlast, rfl, -, -, -⟩ := filePlace_spec h
  have hname : name ≠ ".." := fun heq => hlast (by simp [heq])
  rw [lexical_concat, up_of_ne (partName_ne name), inside_concat] at hin
  rwa [lexical_concat, up_of_ne hname, inside_concat]

/-! ## What a fetch does -/

/-- Everything that was done to files was done inside. -/
def Confined (dir : Place) (w : Session) : Prop := ∀ op ∈ w.done, ∀ p ∈ op.places, Inside dir p

variable {dirPlace : Place} {w : Session} {op : FileOp} {H : Hashes} {hub : Hub} {source : Source}
  {remote : RemoteFile}

/-- A file at the path is inside, whatever the disk. -/
def Leads (dirPlace : Place) (path : List String) : Prop :=
  ∀ (disk : Disk Bytes) p, disk.filePlace path = some p → Inside dirPlace p

theorem Confined.snoc (h : Confined dirPlace w) (hop : ∀ p ∈ op.places, Inside dirPlace p)
    (disk : Disk Bytes) : Confined dirPlace { w with disk, done := w.done ++ [op] } := by
  intro other hother
  rcases List.mem_append.mp hother with hother | hother
  · exact h other hother
  · exact List.mem_singleton.mp hother ▸ hop

theorem confined_openPart {append : Bool} {bytes : Bytes}
    (hin : Leads dirPlace path) :
    Preserves (Confined dirPlace) (openPart path append bytes) := by
  refine Preserves.effect fun w hw => ?_
  split
  · rename_i p hp
    refine hw.snoc (fun r hr => ?_) _
    rw [List.mem_singleton.mp hr]
    exact hin _ _ hp
  · exact hw

theorem confined_unlink (hin : Leads dirPlace path) :
    Preserves (Confined dirPlace) (unlink path) := by
  refine Preserves.effect fun w hw => ?_
  split
  · rename_i p hp
    refine hw.snoc (fun r hr => ?_) _
    rw [List.mem_singleton.mp hr]
    exact hin _ _ (Option.filter_eq_some_iff.mp hp).1
  · exact hw

theorem confined_makeDirs : Preserves (Confined dirPlace) (makeDirs path) := by
  refine Preserves.effect fun w hw => ?_
  split <;> exact hw

/-- A download does what it does inside, and returns only where a `.part` file can be. -/
theorem confined_download {url : String} {expectedSize : Int} (hstays : Stays dir name) :
    Triple (Confined (lexical dir)) (download hub url (joined dir name) expectedSize)
      (fun _ w => (writePlace dir name).isSome ∧ Confined (lexical dir) w)
      (Confined (lexical dir)) := by
  have hin : ∀ part, partOf (joined dir name) = some part → Leads (lexical dir) part :=
    fun part hpart disk p hp => hstays p (writePlace_of_filePlace hpart hp)
  refine download_spec (fun _ => confined_makeDirs) (fun part hpart _ _ =>
    confined_openPart (hin part hpart)) (fun part hpart => confined_unlink (hin part hpart))
    (fun part hpart => ?_) fun _ _ hw => hw
  -- the rename: where the `.part` file is there is one, and the file lies beside it
  refine Triple.effect (fun _ hw => hw) (fun w a w' hw heq => ?_) fun w e w' hw heq => ?_
  · split at heq
    · rename_i p q hp hq
      have hpin := hin part hpart _ _ hp
      have hplace := (filePlace_spec hp).2.1
      split at heq
      · obtain ⟨-, rfl⟩ := Prod.mk.inj heq
        refine ⟨by rw [writePlace_of_filePlace hpart hp]; rfl, hw.snoc (fun r hr => ?_) _⟩
        rcases List.mem_cons.mp hr with rfl | hr
        · exact hpin
        · rw [List.mem_singleton.mp hr]
          exact inside_target hpart (hplace ▸ hpin) hq
      · cases (Prod.mk.inj heq).1
    · cases (Prod.mk.inj heq).1
  · split at heq
    · split at heq
      · cases (Prod.mk.inj heq).1
      · obtain ⟨-, rfl⟩ := Prod.mk.inj heq
        exact hw
    · obtain ⟨-, rfl⟩ := Prod.mk.inj heq
      exact hw

theorem confined_fetchFile (hstays : Stays dir remote.path) :
    Preserves (Confined (lexical dir))
      (fetchFile H hub source (joined dir remote.path) remote) := by
  refine Triple.bind (confined_download hstays) fun _ => Triple.assume fun hplace => ?_
  obtain ⟨p, hp⟩ := Option.isSome_iff_exists.mp hplace
  have hleads : Leads (lexical dir) (joined dir remote.path) := by
    intro disk q hq
    obtain ⟨part, hpart, hwrite⟩ := Option.bind_eq_some_iff.mp hp
    split_ifs at hwrite
    cases hwrite
    exact inside_target hpart (hstays _ hp) hq
  refine Preserves.bind preserves_readBytes fun bytes => ?_
  dsimp only
  split_ifs
  · exact Preserves.bind (confined_unlink hleads) fun _ => Preserves.raise _
  · exact Preserves.bind (confined_unlink hleads) fun _ => Preserves.raise _
  · exact Preserves.pure _

theorem confined_fetchFiles {plan : ModelPlan} {files : List RemoteFile} {fetched : FetchedModel}
    (hstays : ∀ remote ∈ files, Stays dir remote.path) :
    Preserves (Confined (lexical dir)) (fetchFiles H hub plan dir files fetched) := by
  induction files generalizing fetched with
  | nil => exact Preserves.pure _
  | cons remote files ih =>
    refine Preserves.bind (Preserves.quiet fun _ hw => hw) fun cancel => ?_
    split_ifs
    · exact Preserves.raise _
    · refine Preserves.bind ?_ fun actual => Preserves.bind preserves_statSize fun size => ?_
      · unfold digestOf
        split_ifs
        · exact preserves_keptDigest
        · exact confined_fetchFile (hstays remote List.mem_cons_self)
      · exact ih fun other hother => hstays other (List.mem_cons_of_mem _ hother)

theorem leads_beside (hname : name ≠ "..") : Leads (lexical dir) (dir ++ [name]) := by
  intro disk p hp
  rw [(filePlace_spec hp).2.1, lexical_concat, up_of_ne hname]
  exact inside_concat.mpr (List.prefix_refl _)

theorem confined_writeSums {files : List (String × String)} :
    Preserves (Confined (lexical dir)) (writeSums dir files) := by
  refine Preserves.bind (Preserves.bind (confined_openPart (leads_beside (by decide))) fun opened =>
    ?_) fun _ => ?_
  · split_ifs
    · exact Preserves.pure _
    · exact Preserves.raise _
  · refine Preserves.effect fun w hw => ?_
    split
    · rename_i p q hp hq
      split
      · refine hw.snoc (fun r hr => ?_) _
        rcases List.mem_cons.mp hr with rfl | hr
        · exact leads_beside (by decide) _ _ hp
        · rw [List.mem_singleton.mp hr]
          exact leads_beside (by decide) _ _ hq
      · exact hw
    · exact hw

/-- A survey only adds what is here. -/
theorem survey_spec {files : List RemoteFile} {plan plan' : ModelPlan}
    (h : survey H disk dir files plan = .ok plan') :
    plan'.source = plan.source ∧ plan'.commit = plan.commit ∧ plan'.files = plan.files := by
  induction files generalizing plan with
  | nil =>
    cases h
    exact ⟨rfl, rfl, rfl⟩
  | cons remote files ih =>
    rw [survey] at h
    split_ifs at h
    · have hrest := ih h
      exact hrest
    · split at h
      · cases h
      · split at h
        · split_ifs at h
          · have hrest := ih h
            exact hrest
          · exact ih h
        · exact ih h

/-- The plan before the disk is looked at. -/
def planned (source : Source) (include_ exclude : List String) (listed : Listed) : ModelPlan where
  source := source
  commit := revisionSha source listed.sha
  files := listed.chosen include_ exclude
  skipped := (select (tree listed.data) include_ exclude).2

/-- What a plan is made of. -/
theorem planModel_spec {P : Session → Prop} {include_ exclude : List String} {dest : Place}
    {listed : Listed} :
    Triple P (planModel H source dest include_ exclude listed)
      (fun plan w => P w ∧ listed.chosen include_ exclude ≠ [] ∧
        survey H w.disk (dest ++ [source.path]) (listed.chosen include_ exclude)
          (planned source include_ exclude listed) = .ok plan)
      P := by
  unfold planModel
  dsimp only
  split_ifs with hempty
  · exact Triple.raise fun _ hw => hw
  · refine Triple.bind (M := fun disk w => P w ∧ w.disk = disk)
      (Triple.look fun w hw => ⟨hw, rfl⟩) fun disk => ?_
    refine Triple.ofExcept (fun plan hplan w hw => ⟨hw.1, hempty, ?_⟩) fun _ hw => hw.1
    rw [hw.2]
    exact hplan

/-- A fetch of names that stay inside does nothing outside. -/
theorem confined_fetchModel {include_ exclude : List String} {dest : Place} {listed : Listed}
    (hstays : ∀ remote ∈ listed.chosen include_ exclude,
      Stays (dest ++ [source.path]) remote.path) :
    Preserves (Confined (lexical (dest ++ [source.path])))
      (fetchModel H hub source dest include_ exclude listed) := by
  refine Triple.bind planModel_spec fun plan => Triple.of_forall fun w₀ hw₀ => ?_
  obtain ⟨hconfined, -, hsurvey⟩ := hw₀
  obtain ⟨hsource, -, hfiles⟩ := survey_spec hsurvey
  have hfetch : Preserves (Confined (lexical (dest ++ [source.path])))
      (fetchPlanned H hub plan dest) := by
    unfold fetchPlanned
    rw [hsource, hfiles]
    exact Preserves.bind (confined_fetchFiles hstays) fun fetched =>
      Preserves.bind confined_writeSums fun _ => Preserves.pure _
  exact hfetch.conseq (fun w hw => hw ▸ hconfined) (fun _ _ h => h) fun _ h => h

/-! ## What a name that leads out does -/

/-- A listed file of which nothing but the name is known. -/
def plainEntry (name : String) : TreeEntry where
  type := "file"
  path := name

def plainFile (name : String) : RemoteFile where
  path := name
  size := 0
  sha256 := none

/-- Nothing of the list is skipped, unless someone asks for it. -/
def NothingSkipped (names : List String) : Prop :=
  (select (names.map plainFile) [] []).1 = names.map plainFile

instance : DecidablePred NothingSkipped := fun _ => inferInstanceAs (Decidable (_ = _))

theorem tree_plain (names : List String) : tree (names.map plainEntry) = names.map plainFile := by
  induction names with
  | nil => rfl
  | cons name names ih =>
    have hcons : tree (plainEntry name :: names.map plainEntry) =
        plainFile name :: tree (names.map plainEntry) := rfl
    rw [List.map_cons, hcons, ih, List.map_cons]

theorem nothingSkipped_iff {names : List String} : NothingSkipped names ↔
    ∀ name ∈ names, (ALWAYS_REDUNDANT ++
      if names.any fun n => ".safetensors".toList.isSuffixOf n.toList then
        REDUNDANT_WHEN_SAFETENSORS else []).any (fnmatch name) = false := by
  unfold NothingSkipped select
  simp only [List.filter_eq_self, List.mem_map, forall_exists_index, and_imp,
    forall_apply_eq_imp_iff₂, List.isEmpty_nil, Bool.not_true, Bool.false_and, Bool.false_or,
    Bool.not_eq_true', List.any_map, List.nil_append]
  rfl

/-- What is chosen of a listing is chosen of every part of it. -/
theorem nothingSkipped_of_chosen (listed : Listed) (include_ exclude : List String)
    {names : List String}
    (h : ∀ name ∈ names, ∃ f ∈ listed.chosen include_ exclude, f.path = name) :
    NothingSkipped names := by
  rw [nothingSkipped_iff]
  intro name hname
  obtain ⟨f, hf, rfl⟩ := h name hname
  obtain ⟨hmem, hskip⟩ := List.mem_filter.mp hf
  simp only [Bool.not_eq_true', Bool.or_eq_false_iff, List.any_append] at hskip
  rw [List.any_append, hskip.2.1.2, Bool.false_or]
  split_ifs with hany
  · obtain ⟨n, hn, hsuffix⟩ := List.any_eq_true.mp hany
    obtain ⟨g, hg, rfl⟩ := h n hn
    have hthere : (tree listed.data).any (fun f =>
        ".safetensors".toList.isSuffixOf f.path.toList) = true :=
      List.any_eq_true.mpr ⟨g, (List.mem_filter.mp hg).1, hsuffix⟩
    rw [if_pos hthere] at hskip
    exact hskip.2.2
  · rfl

theorem planModel_run {dest : Place} {include_ exclude : List String} {listed : Listed}
    {files : List RemoteFile} {plan : ModelPlan} {w : Session} {n : Nat}
    (hfiles : listed.chosen include_ exclude = files) (hne : files ≠ [])
    (hsurvey : survey H w.disk (dest ++ [source.path]) files
      (planned source include_ exclude listed) = .ok plan) :
    planModel H source dest include_ exclude listed w n = .ok plan w n := by
  subst hfiles
  have hprog : planModel H source dest include_ exclude listed =
      (Prog.look Session.disk >>= fun disk => Prog.ofExcept (survey H disk (dest ++ [source.path])
        (listed.chosen include_ exclude) (planned source include_ exclude listed))) := if_neg hne
  rw [hprog, Prog.look_bind, hsurvey]
  rfl

theorem read?_empty : ({} : Disk Bytes).read? path = none := by
  unfold Disk.read?
  cases ({} : Disk Bytes).filePlace path with
  | none => rfl
  | some p =>
    have hnone : ({} : Disk Bytes).file? p = none := by
      unfold Disk.file?
      split_ifs <;> rfl
    exact hnone

theorem isHttp_append {s t : String} (h : isHttp s = true) : isHttp (s ++ t) = true := by
  simp only [isHttp, Bool.or_eq_true, List.isPrefixOf_iff_prefix, String.toList_append] at h ⊢
  exact h.imp (fun h => h.trans (List.prefix_append _ _)) fun h => h.trans (List.prefix_append _ _)

theorem isHttp_fileUrl (source : Source) (remote : RemoteFile) :
    isHttp (fileUrl {} source remote) = true := by
  have hendpoint : isHttp ({} : Hub).endpoint = true := by decide +kernel
  exact isHttp_append (isHttp_append (isHttp_append (isHttp_append (isHttp_append
    (isHttp_append hendpoint)))))

/-- On an empty disk, the `.part` file of a name is written where the name says. -/
theorem written_of_writePlace (H : Hashes) {source : Source} {dest : Place} {name : String}
    {p : Place} (hskip : NothingSkipped [name])
    (hp : writePlace (dest ++ [source.path]) name = some p) :
    FileOp.write p ∈ (fetchModel H {} source dest [] [] ⟨none, [plainEntry name]⟩
      { disk := {}, net := [.body 200 [] .closed] } 2).world.done := by
  obtain ⟨part, hpart, hwrite⟩ := Option.bind_eq_some_iff.mp hp
  split_ifs at hwrite with hplace
  obtain ⟨husable, hnot⟩ := hplace
  cases hwrite
  have hchosen : (⟨none, [plainEntry name]⟩ : Listed).chosen [] [] = [plainFile name] := by
    have htree := tree_plain [name]
    simp only [List.map_cons, List.map_nil] at htree
    rw [Listed.chosen, htree]
    exact hskip
  -- nothing is here yet, so the file is to be downloaded
  let plan : ModelPlan := planned source [] [] ⟨none, [plainEntry name]⟩
  let w : Session := { disk := {}, net := [.body 200 [] .closed] }
  have hsurvey : survey H {} (dest ++ [source.path]) [plainFile name] plan = .ok plan := by
    have hpart' : partOf (joined (dest ++ [source.path]) (plainFile name).path) = some part := hpart
    simp only [survey, isComplete, read?_empty, hpart', Bool.false_eq_true, if_false]
  have hplan : planModel H source dest [] [] ⟨none, [plainEntry name]⟩ w 2 = .ok plan w 2 :=
    planModel_run hchosen (by simp) hsurvey
  -- its directories can be made, and none of them is in its place
  have hmade : (({} : Disk Bytes).makeDirs [] part.dropLast).isSome :=
    makeDirs_isSome (fun n hn => husable n (List.mem_of_mem_dropLast hn)) fun init _ => by
      unfold Disk.file?
      split_ifs <;> rfl
  obtain ⟨d, hdirs⟩ := Option.isSome_iff_exists.mp hmade
  have hdir : ∀ q, d.isDir q = true ↔ q ∈ passed part.dropLast := by
    intro q
    rw [isDir_makeDirs hdirs, isDir_iff]
    constructor
    · rintro ((rfl | hmem) | hmem)
      · exact mem_passed.mpr ⟨[], List.nil_prefix, rfl⟩
      · cases hmem
      · exact hmem
    · exact Or.inr
  have hpartPlace : d.filePlace part = some (lexical part) := by
    obtain ⟨parent, last, -, rfl⟩ := partOf_eq_some hpart
    refine filePlace_eq_some (by simpa using partName_ne last) husable ?_ fun q hq => (hdir q).mpr hq
    exact Bool.eq_false_iff.mpr fun h => hnot ((hdir _).mp h)
  -- the process dies before the rename
  have hdownload : download {} (fileUrl {} source (plainFile name))
      (joined (dest ++ [source.path]) name) 0 w 2 =
        .died (({ w with disk := d } : Session).written (lexical part) [] []) :=
    download_one hpart hdirs hpartPlace rfl (isHttp_fileUrl source _) 0
  have hfetch : fetchFile H {} source (joined (dest ++ [source.path]) name) (plainFile name) w 2 =
      .died (({ w with disk := d } : Session).written (lexical part) [] []) :=
    Prog.bind_died hdownload
  have hplanFiles : plan.files = [plainFile name] := hchosen
  have hfiles : fetchFiles H {} plan (dest ++ [source.path]) plan.files
      { path := source.path, repo := source.repo, revision := source.revision,
        commit := plan.commit, skipped := plan.skipped } w 2 =
      .died (({ w with disk := d } : Session).written (lexical part) [] []) := by
    have hdigest : digestOf H {} plan (joined (dest ++ [source.path]) name) (plainFile name) =
        fetchFile H {} source (joined (dest ++ [source.path]) name) (plainFile name) :=
      if_neg List.not_mem_nil
    rw [hplanFiles, fetchFiles, askCancel, Prog.quiet_bind]
    refine Prog.bind_died ?_
    exact (congrArg (fun p => p w 2) hdigest).trans hfetch
  have hrun : fetchModel H {} source dest [] [] ⟨none, [plainEntry name]⟩ w 2 =
      .died (({ w with disk := d } : Session).written (lexical part) [] []) := by
    refine (Prog.bind_run hplan).trans ?_
    exact Prog.bind_died hfiles
  show FileOp.write (lexical part) ∈ (fetchModel H {} source dest [] [] _ w 2).world.done
  rw [hrun]
  exact List.mem_singleton_self _

/-- **Confinement**: whatever the hub answers, a fetch of files of the list does nothing outside
    the model's directory, exactly when no name of the list leads out of it. -/
theorem confined_iff (H : Hashes) (source : Source) (dest : Place) (names : List String) :
    (∀ (hub : Hub) (include_ exclude : List String) (listed : Listed) (w : Session) (n : Nat),
      w.done = [] → ((listed.chosen include_ exclude).map (·.path)).Subperm names →
        Confined (lexical (dest ++ [source.path]))
          (fetchModel H hub source dest include_ exclude listed w n).world) ↔
      ∀ name ∈ names, NothingSkipped [name] → Stays (dest ++ [source.path]) name := by
  constructor
  · intro h name hname hskip p hp
    have hchosen : (⟨none, [plainEntry name]⟩ : Listed).chosen [] [] = [plainFile name] := by
      have htree := tree_plain [name]
      simp only [List.map_cons, List.map_nil] at htree
      rw [Listed.chosen, htree]
      exact hskip
    have hconfined := h {} [] [] ⟨none, [plainEntry name]⟩
      { disk := {}, net := [.body 200 [] .closed] } 2 rfl (by
        rw [hchosen]
        exact List.singleton_subperm_iff.mpr hname)
    exact hconfined _ (written_of_writePlace H hskip hp) p (List.mem_singleton_self p)
  · intro h hub include_ exclude listed w n hdone hnames
    have hstays : ∀ remote ∈ listed.chosen include_ exclude,
        Stays (dest ++ [source.path]) remote.path := by
      intro remote hremote
      refine h _ (hnames.subset (List.mem_map_of_mem hremote)) ?_
      refine nothingSkipped_of_chosen listed include_ exclude fun name hname => ?_
      exact ⟨remote, hremote, (List.mem_singleton.mp hname).symm⟩
    refine Triple.world_sat (confined_fetchModel hstays) ?_ n
    intro op hop
    rw [hdone] at hop
    cases hop

-- A listing that names a file beside the models

def someHashes : Hashes where
  sha256 bytes := if bytes = [] then
      ⟨"e3b0c44298fc1c149afbf4c8996fb92427ae41e4649b934ca495991b7852b855", by decide +kernel⟩
    else ⟨"6e340b9cffb37a989ca544e6bb780a2c78901d3fb33738768511a30617afa01d", by decide +kernel⟩
  blobSha1 _ := "e69de29bb2d1d6434b8b29ae775ad8c2e48c5391"

def bgeM3 : Source where
  path := "bge-m3"
  repo := "BAAI/bge-m3"
  directory := by decide +kernel

/-- Everything is answered, and the process lives on: a file beside the model's directory. -/
theorem fetched_outside :
    ∃ w : Session, w.done = [] ∧ ¬ Confined (lexical ["Models", "bge-m3"])
      (fetchModel someHashes {} bgeM3 ["Models"] [] [] ⟨none, [plainEntry "../models.yaml"]⟩
        w 100).world := by
  refine ⟨{ disk := {}, net := [.body 200 [0] .closed] }, rfl, fun h => ?_⟩
  have hdone : ((fetchModel someHashes {} bgeM3 ["Models"] [] []
      ⟨none, [plainEntry "../models.yaml"]⟩
      { disk := {}, net := [.body 200 [0] .closed] } 100).world.done.flatMap FileOp.places).contains
        ["Models", "models.yaml"] = true := by
    decide +kernel
  obtain ⟨op, hop, hplace⟩ := List.mem_flatMap.mp (List.contains_iff_mem.mp hdone)
  have hin := (h op hop _ hplace).1
  revert hin
  decide +kernel

end Fetch

end Slas
