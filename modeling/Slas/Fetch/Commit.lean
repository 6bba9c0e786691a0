/-
  Slas.Fetch.Commit

  The commit that a fetch records, on a branch that moves between the requests: exactly when
  what was fetched is what that commit has.

  The commit, the listing and each file are requests of their own.  Every file is checked
  against the listing, so what is recorded is what the listing's commit has, whatever the
  requests for the files are answered; the recorded commit is that of the first request.
-/

import Slas.Fetch.Verified

namespace Slas

namespace Fetch

open Crash Disk

/-! ## A branch of the hub -/

/-- A file of a commit: of a large one the repository has a pointer only. -/
structure GitFile where
  path : String
  content : Bytes
  pointer : Option String := none

structure GitTree where
  folders : List String := []
  files : List GitFile
  proper : ∀ f ∈ files, Text.root f.path = [] ∧ ".." ∉ Text.names f.path
  distinct : (files.map fun f => Text.names f.path).Nodup

/-- The commits, and the one that the branch is at when a request is answered. -/
structure Branch where
  tree : String → GitTree
  head : Nat → String
  named : ∀ i, head i ≠ ""

/-- What the hub publishes of a file: the sha256 of a large one, the blob id of another. -/
def GitFile.entry (H : Hashes) (f : GitFile) : TreeEntry :=
  match f.pointer with
  | some blob =>
    { type := "file", path := f.path, size := some f.content.length, oid := some blob,
      lfs := some { oid := some (H.sha256 f.content).1, size := some f.content.length } }
  | none =>
    { type := "file", path := f.path, size := some f.content.length,
      oid := some (H.blobSha1 f.content) }

def GitTree.listing (H : Hashes) (t : GitTree) : List TreeEntry :=
  (t.folders.map fun path => { type := "directory", path }) ++ t.files.map (GitFile.entry H)

/-- The first two requests: for the commit, and for the listing. -/
def Branch.listed (H : Hashes) (b : Branch) : Listed :=
  ⟨some (b.head 0), (b.tree (b.head 1)).listing H⟩

/-- The content of a file in a commit. -/
def GitTree.content? (t : GitTree) (path : String) : Option Bytes :=
  (t.files.find? fun f => f.path = path).map (·.content)

/-- The published ids tell the contents of the commits apart. -/
structure Tells (H : Hashes) (b : Branch) : Prop where
  named : ∀ bytes, H.blobSha1 bytes ≠ ""
  blob : ∀ f ∈ (b.tree (b.head 1)).files, f.pointer = none →
    ∀ bytes, H.blobSha1 bytes = H.blobSha1 f.content → bytes = f.content
  digest : ∀ f ∈ (b.tree (b.head 1)).files, ∀ g ∈ (b.tree (b.head 0)).files,
    (H.sha256 g.content).1 = (H.sha256 f.content).1 → g.content = f.content

variable {H : Hashes} {hub : Hub} {source : Source} {b : Branch} {t : GitTree} {f g : GitFile}
  {remote : RemoteFile} {dir : List String} {path name : String} {d d₀ : Disk Bytes} {bytes : Bytes}
  {plan : ModelPlan} {fetched : FetchedModel} {before rest : List RemoteFile}
  {files : List (String × String)}

theorem GitTree.path_injOn (hf : f ∈ t.files) (hg : g ∈ t.files)
    (h : Text.names f.path = Text.names g.path) : f = g :=
  List.inj_on_of_nodup_map t.distinct hf hg h

theorem GitTree.content?_of_mem (hf : f ∈ t.files) : t.content? f.path = some f.content := by
  unfold content?
  cases hfind : t.files.find? fun g => g.path = f.path with
  | none => exact absurd (List.find?_eq_none.mp hfind f hf) (by simp)
  | some g =>
    have hpath : g.path = f.path := by simpa using List.find?_some hfind
    rw [t.path_injOn (List.mem_of_find?_eq_some hfind) hf (by rw [hpath])]
    rfl

theorem GitTree.content?_eq_some : t.content? path = some bytes ↔
    ∃ f ∈ t.files, f.path = path ∧ f.content = bytes := by
  constructor
  · intro h
    obtain ⟨f, hfind, rfl⟩ := Option.map_eq_some_iff.mp h
    exact ⟨f, List.mem_of_find?_eq_some hfind, by simpa using List.find?_some hfind, rfl⟩
  · rintro ⟨f, hf, rfl, rfl⟩
    exact content?_of_mem hf

/-- What is read of the listing. -/
theorem GitTree.tree_listing : tree (t.listing H) =
    t.files.map fun f => RemoteFile.ofEntry (f.entry H) := by
  have hfolders : (t.folders.map fun path => ({ type := "directory", path } : TreeEntry)).filter
      (fun entry => decide (entry.type = "file")) = [] := by
    refine List.filter_eq_nil_iff.mpr fun entry hentry => ?_
    obtain ⟨path, -, rfl⟩ := List.mem_map.mp hentry
    simp
  have hfiles : (t.files.map (GitFile.entry H)).filter (fun entry => decide (entry.type = "file")) =
      t.files.map (GitFile.entry H) := by
    refine List.filter_eq_self.mpr fun entry hentry => ?_
    obtain ⟨f, -, rfl⟩ := List.mem_map.mp hentry
    unfold GitFile.entry
    split <;> rfl
  rw [tree, listing, List.filter_append, hfolders, hfiles, List.nil_append, List.map_map]
  rfl

/-- A listed file, and what is known of it. -/
structure Published (H : Hashes) (t : GitTree) (remote : RemoteFile) (f : GitFile) : Prop where
  mem : f ∈ t.files
  path : remote.path = f.path
  large : f.pointer.isSome → remote.sha256 = some (H.sha256 f.content).1
  small : f.pointer = none → remote.sha256 = none ∧ remote.blobOid = some (H.blobSha1 f.content)

theorem digest_truthy : truthy (some (H.sha256 bytes).1) = some (H.sha256 bytes).1 :=
  Option.filter_eq_some_iff.mpr ⟨rfl, decide_eq_true (isDigest_sha256 H bytes).1⟩

theorem published_ofEntry (hnamed : ∀ bytes, H.blobSha1 bytes ≠ "") (hf : f ∈ t.files) :
    Published H t (RemoteFile.ofEntry (f.entry H)) f := by
  have htruthy : truthy (some (H.blobSha1 f.content)) = some (H.blobSha1 f.content) :=
    Option.filter_eq_some_iff.mpr ⟨rfl, decide_eq_true (hnamed _)⟩
  refine ⟨hf, ?_, fun hlarge => ?_, fun hsmall => ?_⟩
  · unfold GitFile.entry
    split <;> rfl
  · obtain ⟨blob, hblob⟩ := Option.isSome_iff_exists.mp hlarge
    simp [GitFile.entry, RemoteFile.ofEntry, hblob, digest_truthy]
  · simp only [GitFile.entry, RemoteFile.ofEntry, hsmall, Option.bind_none, Option.isNone_none,
      if_true]
    exact ⟨rfl, htruthy⟩

/-! ## What is recorded is what was listed -/

/-- No file is new or different, but for the one at a place. -/
def NothingNew (q : Place) (d₀ d : Disk Bytes) : Prop :=
  ∀ r, r ≠ q → ∀ bytes, d.file? r = some bytes → d₀.file? r = some bytes

theorem fetchFile_checked :
    Triple (fun w => w.disk = d₀) (fetchFile H hub source (joined dir remote.path) remote)
      (fun actual w => NothingNew (placeOf dir remote.path) d₀ w.disk ∧ ∃ bytes,
        (H.sha256 bytes).1 = actual ∧ (∀ digest, remote.sha256 = some digest → actual = digest) ∧
          ∀ oid, remote.blobOid = some oid → H.blobSha1 bytes = oid)
      fun _ => True := by
  refine Triple.bind (M := fun _ w => NothingNew (placeOf dir remote.path) d₀ w.disk) ?_ fun _ => ?_
  · refine (leftAlone_download d₀).conseq (fun w hw => ?_) (fun _ w hw => ?_) fun _ _ => trivial
    · exact hw ▸ LeftAlone.refl
    · obtain ⟨hleft, hgone⟩ := hw
      intro r hr bytes hfile
      by_cases hpart : r = partPlace dir remote.path
      · rw [hpart, hgone (hpart ▸ hr)] at hfile
        cases hfile
      · rwa [← hleft.files r hpart hr]
  · refine Triple.bind (readBytes_spec fun _ _ => trivial) fun bytes => ?_
    dsimp only
    split_ifs with hsha hoid
    · exact unlink_raise
    · exact unlink_raise
    · refine Triple.pure fun w hw => ⟨hw.1, bytes, rfl, fun digest hdigest => ?_, fun oid hblob => ?_⟩
      · simpa [hdigest] using hsha
      · simpa [hblob] using hoid

/-- What holds of the files after the first of them. -/
structure Faithful (H : Hashes) (dir present : List String) (t : GitTree)
    (before rest : List RemoteFile) (files : List (String × String)) (disk : Disk Bytes) :
    Prop where
  keys : Dict.keys files = before.map (·.path)
  digests : ∀ item ∈ files, ∃ f ∈ t.files, f.path = item.1 ∧ (H.sha256 f.content).1 = item.2
  kept : ∀ remote ∈ rest, remote.path ∈ present → remote.sha256 = none →
    ∀ bytes, disk.file? (placeOf dir remote.path) = some bytes →
      ∀ oid, remote.blobOid = some oid → H.blobSha1 bytes = oid

/-- The files of a listing, and the ids tell what is in them. -/
structure FromTree (H : Hashes) (t : GitTree) (remotes : List RemoteFile) : Prop where
  published : ∀ remote ∈ remotes, ∃ f, Published H t remote f
  distinct : (remotes.map (·.path)).Nodup
  blob : ∀ f ∈ t.files, f.pointer = none →
    ∀ bytes, H.blobSha1 bytes = H.blobSha1 f.content → bytes = f.content

theorem placeOf_proper (hroot : Text.root name = []) (hplain : ".." ∉ Text.names name) :
    placeOf dir name = lexical dir ++ Text.names name := by
  rw [placeOf, joined, if_pos hroot, lexical_append_plain hplain]

/-- Files of a commit have places of their own. -/
theorem Published.placeOf_inj {other : RemoteFile} (hf : Published H t remote f)
    (hg : Published H t other g) (h : placeOf dir remote.path = placeOf dir other.path) :
    remote.path = other.path := by
  obtain ⟨hrootF, hplainF⟩ := t.proper f hf.mem
  obtain ⟨hrootG, hplainG⟩ := t.proper g hg.mem
  rw [hf.path, hg.path, placeOf_proper hrootF hplainF, placeOf_proper hrootG hplainG] at h
  rw [hf.path, hg.path, t.path_injOn hf.mem hg.mem (List.append_cancel_left h)]

/-- The digest that is recorded for a file is that of its content in the listed commit. -/
theorem digestOf_faithful (hf : Published H t remote f)
    (hblob : f.pointer = none → ∀ bytes, H.blobSha1 bytes = H.blobSha1 f.content →
      bytes = f.content)
    (hkept : remote.path ∈ plan.present → remote.sha256 = none →
      ∀ bytes, d₀.file? (placeOf dir remote.path) = some bytes →
        ∀ oid, remote.blobOid = some oid → H.blobSha1 bytes = oid) :
    Triple (fun w => w.disk = d₀) (digestOf H hub plan (joined dir remote.path) remote)
      (fun actual w => NothingNew (placeOf dir remote.path) d₀ w.disk ∧
        actual = (H.sha256 f.content).1)
      fun _ => True := by
  have hsame : NothingNew (placeOf dir remote.path) d₀ d₀ := fun _ _ _ h => h
  unfold digestOf
  split_ifs with hpresent
  · unfold keptDigest
    split
    · rename_i digest hsha
      refine Triple.pure fun w hw => ⟨hw ▸ hsame, ?_⟩
      have hlarge : f.pointer.isSome := by
        by_contra hnone
        rw [(hf.small (by simpa using hnone)).1] at hsha
        cases hsha
      exact Option.some.inj (hsha.symm.trans (hf.large hlarge))
    · rename_i hsha
      refine Triple.bind (readBytes_spec fun _ _ => trivial) fun bytes => ?_
      refine Triple.pure fun w hw => ⟨hw.1 ▸ hsame, ?_⟩
      obtain ⟨hdisk, hread⟩ := hw
      have hsmall : f.pointer = none := by
        by_contra hlarge
        rw [hf.large (Option.isSome_iff_ne_none.mpr hlarge)] at hsha
        cases hsha
      have hfile := (read?_eq_some.mp hread).2
      rw [hdisk] at hfile
      rw [hblob hsmall bytes (hkept hpresent hsha bytes hfile _ (hf.small hsmall).2)]
  · refine fetchFile_checked.conseq (fun _ h => h) (fun actual w hw => ?_) fun _ h => h
    obtain ⟨hnew, bytes, rfl, hsha, hoid⟩ := hw
    refine ⟨hnew, ?_⟩
    cases hpointer : f.pointer with
    | some blob => exact hsha _ (hf.large (by simp [hpointer]))
    | none => rw [hblob hpointer bytes (hoid _ (hf.small hpointer).2)]

theorem Faithful.snoc {actual : String}
    (h : Faithful H dir plan.present t before (remote :: rest) files d₀)
    (hfrom : FromTree H t (before ++ remote :: rest)) (hf : Published H t remote f)
    (hnew : NothingNew (placeOf dir remote.path) d₀ d) (hactual : actual = (H.sha256 f.content).1) :
    Faithful H dir plan.present t (before ++ [remote]) rest
      (Dict.set remote.path actual files) d := by
  have hdistinct := hfrom.distinct
  simp only [List.map_append, List.map_cons, List.nodup_middle] at hdistinct
  obtain ⟨hother, -⟩ := List.nodup_cons.mp hdistinct
  have hfresh : remote.path ∉ Dict.keys files := by
    rw [h.keys]
    exact fun hmem => hother (List.mem_append_left _ hmem)
  constructor
  · rw [Dict.set_of_not_mem hfresh]
    simp only [Dict.keys, List.map_append, List.map_cons, List.map_nil]
    rw [← h.keys]
    rfl
  · intro item hitem
    rw [Dict.set_of_not_mem hfresh] at hitem
    rcases List.mem_append.mp hitem with hitem | hitem
    · exact h.digests item hitem
    · obtain rfl := List.mem_singleton.mp hitem
      exact ⟨f, hf.mem, hf.path.symm, hactual.symm⟩
  · intro other hin hpresent hsha bytes hfile
    refine h.kept other (List.mem_cons_of_mem _ hin) hpresent hsha bytes (hnew _ ?_ _ hfile)
    intro heq
    obtain ⟨g, hg⟩ := hfrom.published other (by simp [hin])
    have hpath := hg.placeOf_inj hf heq
    exact hother (List.mem_append_right _ (hpath ▸ List.mem_map_of_mem hin))

theorem fetchFiles_faithful (before : List RemoteFile) (hfrom : FromTree H t (before ++ rest)) :
    Triple (fun w => Faithful H dir plan.present t before rest fetched.files w.disk)
      (fetchFiles H hub plan dir rest fetched)
      (fun fetched' w => fetched'.commit = fetched.commit ∧
        Faithful H dir plan.present t (before ++ rest) [] fetched'.files w.disk)
      fun _ => True := by
  induction rest generalizing before fetched with
  | nil =>
    refine Triple.pure fun w hw => ⟨rfl, ?_⟩
    rwa [List.append_nil]
  | cons remote rest ih =>
    refine Triple.bind (M := fun _ w =>
      Faithful H dir plan.present t before (remote :: rest) fetched.files w.disk)
      (Triple.quiet fun w hw => hw) fun cancel => ?_
    split_ifs
    · exact Triple.raise fun _ _ => trivial
    · have hsplit : before ++ remote :: rest = (before ++ [remote]) ++ rest := by simp
      obtain ⟨f, hf⟩ := hfrom.published remote (by simp)
      refine Triple.bind (M := fun actual w => Faithful H dir plan.present t (before ++ [remote]) rest
        (Dict.set remote.path actual fetched.files) w.disk) ?_ fun actual => ?_
      · refine Triple.of_forall fun w₀ hw₀ => ?_
        refine (digestOf_faithful hf (hfrom.blob f hf.mem)
          (hw₀.kept remote List.mem_cons_self)).conseq (fun w hw => congrArg Session.disk hw)
          (fun actual w hw => ?_) fun _ _ => trivial
        exact hw₀.snoc hfrom hf hw.1 hw.2
      · refine Triple.bind (preserves_statSize.weaken fun _ _ => trivial) fun size => ?_
        rw [hsplit] at hfrom ⊢
        have hrest : ∀ next : FetchedModel, next.commit = fetched.commit → Triple
            (fun w => Faithful H dir plan.present t (before ++ [remote]) rest next.files w.disk)
            (fetchFiles H hub plan dir rest next)
            (fun fetched' w => fetched'.commit = fetched.commit ∧
              Faithful H dir plan.present t (before ++ [remote] ++ rest) [] fetched'.files w.disk)
            fun _ => True := fun next hnext => hnext ▸ ih _ hfrom
        exact hrest { fetched with
          files := Dict.set remote.path actual fetched.files
          sizes := Dict.set remote.path size fetched.sizes
          bytes := fetched.bytes + size } rfl

/-! ## The recorded commit -/

/-- Every file that was recorded has the content that it has in the recorded commit. -/
def FromCommit (H : Hashes) (b : Branch) (fetched : FetchedModel) : Prop :=
  ∀ item ∈ fetched.files, ∃ f ∈ (b.tree fetched.commit).files,
    f.path = item.1 ∧ (H.sha256 f.content).1 = item.2

/-- The two commits have the same content of each file that is fetched. -/
def SameContents (H : Hashes) (b : Branch) (include_ exclude : List String) : Prop :=
  ∀ remote ∈ (b.listed H).chosen include_ exclude,
    (b.tree (b.head 0)).content? remote.path = (b.tree (b.head 1)).content? remote.path

theorem fromTree_chosen (include_ exclude : List String) (h : Tells H b) :
    FromTree H (b.tree (b.head 1)) ((b.listed H).chosen include_ exclude) := by
  have htree : tree (b.listed H).data =
      (b.tree (b.head 1)).files.map fun f => RemoteFile.ofEntry (f.entry H) :=
    GitTree.tree_listing
  have hpath : ∀ f ∈ (b.tree (b.head 1)).files, (RemoteFile.ofEntry (f.entry H)).path = f.path :=
    fun f hf => (published_ofEntry h.named hf).path
  have hsub := select_sublist (tree (b.listed H).data) include_ exclude
  refine ⟨fun remote hremote => ?_, ?_, h.blob⟩
  · have hmem := hsub.subset hremote
    rw [htree] at hmem
    obtain ⟨f, hf, rfl⟩ := List.mem_map.mp hmem
    exact ⟨f, published_ofEntry h.named hf⟩
  · refine (hsub.map _).nodup ?_
    rw [htree, List.map_map]
    have hnames : (((b.tree (b.head 1)).files.map (·.path)).map Text.names).Nodup := by
      rw [List.map_map]
      exact (b.tree (b.head 1)).distinct
    have hpaths : (b.tree (b.head 1)).files.map
        ((·.path) ∘ fun f => RemoteFile.ofEntry (f.entry H)) =
          (b.tree (b.head 1)).files.map (·.path) := List.map_congr_left hpath
    rw [hpaths]
    exact hnames.of_map _

/-- A fetch records the first commit, and the contents of the second. -/
theorem fetchModel_faithful (hub : Hub) (source : Source) (dest : Place)
    (include_ exclude : List String) (h : Tells H b) :
    Triple (fun _ => True) (fetchModel H hub source dest include_ exclude (b.listed H))
      (fun fetched _ => fetched.commit = b.head 0 ∧
        Dict.keys fetched.files = ((b.listed H).chosen include_ exclude).map (·.path) ∧
        ∀ item ∈ fetched.files, ∃ f ∈ (b.tree (b.head 1)).files,
          f.path = item.1 ∧ (H.sha256 f.content).1 = item.2)
      fun _ => True := by
  have hfrom := fromTree_chosen include_ exclude h
  refine Triple.bind planModel_spec fun plan => Triple.of_forall fun w₀ hw₀ => ?_
  obtain ⟨-, -, hsurvey⟩ := hw₀
  obtain ⟨hsource, hcommit, hfiles⟩ := survey_spec hsurvey
  have hfiles : plan.files = (b.listed H).chosen include_ exclude := hfiles
  have hcommit : plan.commit = b.head 0 := by
    have htruthy : truthy (some (b.head 0)) = some (b.head 0) :=
      Option.filter_eq_some_iff.mpr ⟨rfl, decide_eq_true (b.named 0)⟩
    rw [hcommit, planned, Branch.listed, revisionSha, htruthy, Option.getD_some]
  have hbegin : Faithful H (dest ++ [source.path]) plan.present (b.tree (b.head 1)) [] plan.files []
      w₀.disk := by
    refine ⟨rfl, fun _ h => absurd h List.not_mem_nil,
      fun remote hremote hpresent hsha bytes hfile oid hoid => ?_⟩
    rcases survey_present hsurvey hpresent with h | ⟨other, hother, hsame, hcomplete⟩
    · cases h
    · rw [hfiles] at hremote
      obtain rfl := List.inj_on_of_nodup_map hfrom.distinct hother hremote hsame
      unfold isComplete at hcomplete
      split at hcomplete
      · cases hcomplete
      · rename_i found hread
        have hfound : w₀.disk.file? (placeOf (dest ++ [source.path]) other.path) = some found :=
          (read?_eq_some.mp hread).2
        obtain rfl : found = bytes := Option.some.inj (hfound.symm.trans hfile)
        simpa [hsha, hoid] using hcomplete
  rw [← hfiles] at hfrom ⊢
  unfold fetchPlanned
  rw [show plan.source = source from hsource]
  refine Triple.bind ((fetchFiles_faithful [] hfrom).conseq (fun w hw => hw ▸ hbegin)
    (fun _ _ h => h) fun _ h => h) fun fetched => ?_
  refine Triple.of_forall fun w₁ hw₁ => ?_
  have hsums : Triple (fun w => w = w₁) (writeSums (dest ++ [source.path]) fetched.files)
      (fun _ _ => True) fun _ => True :=
    (writeSums_spec fetched.files).conseq (fun w hw => congrArg Session.disk hw)
      (fun _ _ _ => trivial) fun _ _ => trivial
  refine Triple.bind hsums fun _ => Triple.pure fun w _ => ?_
  obtain ⟨hrecorded, hfaithful⟩ := hw₁
  exact ⟨hrecorded.trans hcommit, hfaithful.keys, hfaithful.digests⟩

/-- **The recorded commit**: a fetch that returns has fetched what the commit has that it
    records, exactly when the commit that was listed has the same contents. -/
theorem fromCommit_iff (H : Hashes) (hub : Hub) (source : Source) (dest : Place)
    (include_ exclude : List String) (b : Branch) (htells : Tells H b) {w w' : Session} {n n' : Nat}
    {fetched : FetchedModel}
    (hrun : fetchModel H hub source dest include_ exclude (b.listed H) w n = .ok fetched w' n') :
    FromCommit H b fetched ↔ SameContents H b include_ exclude := by
  have hsat := fetchModel_faithful hub source dest include_ exclude htells w n trivial
  rw [hrun] at hsat
  obtain ⟨hcommit, hkeys, hdigests⟩ := hsat
  unfold FromCommit SameContents
  rw [hcommit]
  constructor
  · intro h remote hremote
    have hkey : remote.path ∈ Dict.keys fetched.files := hkeys ▸ List.mem_map_of_mem hremote
    obtain ⟨item, hitem, hname⟩ := List.mem_map.mp hkey
    obtain ⟨f, hf, hpath, hdigest⟩ := hdigests item hitem
    obtain ⟨g, hg, hpath', hdigest'⟩ := h item hitem
    have hsame := htells.digest f hf g hg (hdigest'.trans hdigest.symm)
    rw [GitTree.content?_eq_some.mpr ⟨g, hg, hpath'.trans hname, hsame⟩,
      GitTree.content?_eq_some.mpr ⟨f, hf, hpath.trans hname, rfl⟩]
  · intro h item hitem
    obtain ⟨f, hf, hpath, hdigest⟩ := hdigests item hitem
    have hkey : item.1 ∈ Dict.keys fetched.files := List.mem_map_of_mem hitem
    rw [hkeys] at hkey
    obtain ⟨remote, hremote, hname⟩ := List.mem_map.mp hkey
    have hcontent := h remote hremote
    rw [GitTree.content?_eq_some.mpr ⟨f, hf, hpath.trans hname.symm, rfl⟩] at hcontent
    obtain ⟨g, hg, hpath', hsame⟩ := GitTree.content?_eq_some.mp hcontent
    exact ⟨g, hg, hpath'.trans hname, hsame ▸ hdigest⟩

-- A branch with one small file, of which two commits have different contents

def gitHashes : Hashes where
  sha256 := someHashes.sha256
  blobSha1 bytes := if bytes = [] then "e69de29bb2d1d6434b8b29ae775ad8c2e48c5391"
    else "f76dd238ade08917e6712764a16a22005a50573d"

theorem config_proper :
    Text.root "config.json" = [] ∧ ".." ∉ Text.names "config.json" := by
  decide +kernel

def configTree (content : Bytes) : GitTree where
  files := [{ path := "config.json", content }]
  proper _ hf := List.mem_singleton.mp hf ▸ config_proper
  distinct := List.nodup_singleton _

/-- The branch is at one commit when it is asked for it, and at another from then on. -/
def configBranch (first second : {s : String // s ≠ ""}) : Branch where
  tree sha := configTree (if sha = "17c6d90" then [0] else [])
  head i := if i = 0 then first.1 else second.1
  named i := by
    split_ifs
    · exact first.2
    · exact second.2

def oldCommit : {s : String // s ≠ ""} := ⟨"17c6d90", by decide⟩
def newCommit : {s : String // s ≠ ""} := ⟨"60d8d70", by decide⟩

theorem tells_config (first : {s : String // s ≠ ""}) :
    Tells gitHashes (configBranch first newCommit) := by
  have hfile : ∀ f ∈ ((configBranch first newCommit).tree
      ((configBranch first newCommit).head 1)).files, f.content = [] := by
    intro f hf
    rw [List.mem_singleton.mp hf]
    rfl
  refine ⟨fun bytes => ?_, fun f hf _ bytes hblob => ?_, fun f hf g hg hdigest => ?_⟩
  · unfold gitHashes
    dsimp only
    split_ifs <;> decide
  · rw [hfile f hf] at hblob ⊢
    by_contra hne
    simp only [gitHashes, if_neg hne, if_true] at hblob
    exact absurd hblob (by decide)
  · rw [hfile f hf] at hdigest ⊢
    by_contra hne
    simp only [gitHashes, someHashes, if_neg hne, if_true] at hdigest
    exact absurd hdigest (by decide)

theorem config_run (first : {s : String // s ≠ ""}) (files : List (String × String))
    (h : ((fetchModel gitHashes {} bgeM3 ["Models"] [] []
      ((configBranch first newCommit).listed gitHashes)
      { disk := {}, net := [.body 200 [] .closed] } 100).value?.map fun fetched =>
        (fetched.commit, fetched.files)) = some (first.1, files)) :
    ∃ fetched w' n', fetchModel gitHashes {} bgeM3 ["Models"] [] []
        ((configBranch first newCommit).listed gitHashes)
        { disk := {}, net := [.body 200 [] .closed] } 100 = .ok fetched w' n' ∧
      fetched.commit = first.1 ∧ fetched.files = files := by
  obtain ⟨fetched, hfetched, hrecorded⟩ := Option.map_eq_some_iff.mp h
  obtain ⟨a, n', hrun⟩ := Result.eq_ok (Option.isSome_iff_exists.mpr ⟨fetched, hfetched⟩)
  rw [hrun] at hfetched
  obtain rfl : a = fetched := Option.some.inj hfetched
  exact ⟨a, _, n', hrun, congrArg Prod.fst hrecorded, congrArg Prod.snd hrecorded⟩

theorem fromCommit_still :
    ∃ fetched w' n', fetchModel gitHashes {} bgeM3 ["Models"] [] []
        ((configBranch newCommit newCommit).listed gitHashes)
        { disk := {}, net := [.body 200 [] .closed] } 100 = .ok fetched w' n' ∧
      FromCommit gitHashes (configBranch newCommit newCommit) fetched := by
  obtain ⟨fetched, w', n', hrun, -, -⟩ := config_run newCommit
    [("config.json", (gitHashes.sha256 []).1)] (by decide +kernel)
  refine ⟨fetched, w', n', hrun, ?_⟩
  exact (fromCommit_iff _ _ _ _ _ _ _ (tells_config newCommit) hrun).mpr fun _ _ => rfl

/-- The branch moves between the first two requests: the file is not the recorded commit's. -/
theorem moved_between :
    ∃ fetched w' n', fetchModel gitHashes {} bgeM3 ["Models"] [] []
        ((configBranch oldCommit newCommit).listed gitHashes)
        { disk := {}, net := [.body 200 [] .closed] } 100 = .ok fetched w' n' ∧
      ¬ FromCommit gitHashes (configBranch oldCommit newCommit) fetched := by
  obtain ⟨fetched, w', n', hrun, hcommit, hfiles⟩ := config_run oldCommit
    [("config.json", (gitHashes.sha256 []).1)] (by decide +kernel)
  refine ⟨fetched, w', n', hrun, fun h => ?_⟩
  obtain ⟨f, hf, -, hdigest⟩ := h _ (hfiles ▸ List.mem_singleton_self _)
  rw [hcommit] at hf
  rw [List.mem_singleton.mp hf] at hdigest
  revert hdigest
  decide +kernel

end Fetch

end Slas
