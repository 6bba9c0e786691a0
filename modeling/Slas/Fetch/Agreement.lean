/-
  Slas.Fetch.Agreement

  Exactly when a fetch and the check after it agree, whatever the hub answers.

  For each way in which names are not readable there is a small listing and an answer of the
  hub that the check does not agree with: one file that is here already, or such a file and one
  more.
-/

import Slas.Fetch.Verified

namespace Slas

namespace Fetch

open Crash Disk

variable {H : Hashes} {hub : Hub} {source : Source} {plan : ModelPlan} {remote : RemoteFile}
  {rest : List RemoteFile} {fetched : FetchedModel} {w w' : Session} {n n' : Nat}
  {dir target part path : List String} {bytes : Bytes} {name : String} {p q : Place}
  {d : Disk Bytes} {files : List (String × String)}

/-! ## Runs that return -/

theorem sizeOf?_of_read? (h : d.read? path = some bytes) : sizeOf? d path = some bytes.length := by
  obtain ⟨hplace, hfile⟩ := read?_eq_some.mp h
  unfold filePlace at hplace
  split_ifs at hplace
  obtain ⟨hfollow, hdir⟩ := Option.filter_eq_some_iff.mp hplace
  rw [sizeOf?, hfollow, Option.bind_some, hfile, if_neg (by simpa using hdir)]
  rfl

/-- One file more in what is recorded. -/
def FetchedModel.add (fetched : FetchedModel) (name digest : String) (size : Nat) : FetchedModel :=
  { fetched with
    files := Dict.set name digest fetched.files
    sizes := Dict.set name size fetched.sizes
    bytes := fetched.bytes + size }

@[simp] theorem FetchedModel.files_add {digest : String} {size : Nat} :
    (fetched.add name digest size).files = Dict.set name digest fetched.files := rfl

theorem fetchFiles_cons {actual : String} (hcancels : w.cancels = [])
    (hdigest : digestOf H hub plan (joined dir remote.path) remote w n = .ok actual w' n')
    (hread : w'.disk.read? (joined dir remote.path) = some bytes) :
    fetchFiles H hub plan dir (remote :: rest) fetched w n =
      fetchFiles H hub plan dir rest (fetched.add remote.path actual bytes.length) w' n' := by
  have hsize : statSize (joined dir remote.path) w' n' = .ok bytes.length w' n' := by
    unfold statSize
    rw [Prog.look_bind, sizeOf?_of_read? hread]
    rfl
  have hask : ({ w with cancels := w.cancels.tail } : Session) = w := by
    rw [hcancels, List.tail_nil, ← hcancels]
  rw [fetchFiles, askCancel, Prog.quiet_bind]
  simp only [hask]
  rw [hcancels]
  simp only [List.headD_nil, Bool.false_eq_true]
  refine (Prog.bind_run hdigest).trans ?_
  exact Prog.bind_run hsize

/-- A file that is here and of which the hub publishes no sha256. -/
theorem digestOf_kept (hpresent : remote.path ∈ plan.present) (hsha : remote.sha256 = none)
    (hread : w.disk.read? target = some bytes) :
    digestOf H hub plan target remote w n = .ok (H.sha256 bytes).1 w n := by
  have hprog : digestOf H hub plan target remote =
      (readBytes target >>= fun bytes => pure (H.sha256 bytes).1) := by
    rw [digestOf, if_pos hpresent, keptDigest, hsha]
  have hbytes : readBytes target w n = .ok bytes w n := by
    unfold readBytes
    rw [Prog.look_bind, hread]
    rfl
  rw [hprog]
  exact (Prog.bind_run hbytes).trans rfl

theorem fetchFiles_kept (hcancels : w.cancels = []) (hpresent : name ∈ plan.present)
    (hread : w.disk.read? (joined dir name) = some bytes) :
    fetchFiles H hub plan dir (plainFile name :: rest) fetched w n =
      fetchFiles H hub plan dir rest (fetched.add name (H.sha256 bytes).1 bytes.length) w n := by
  have hdigest : digestOf H hub plan (joined dir (plainFile name).path) (plainFile name) w n =
      .ok (H.sha256 bytes).1 w n := digestOf_kept hpresent rfl hread
  exact fetchFiles_cons hcancels hdigest hread

/-- One that is here, or so it seems, is recorded with the sha256 that the hub publishes. -/
theorem digestOf_published {digest : String} (hpresent : remote.path ∈ plan.present)
    (hsha : remote.sha256 = some digest) :
    digestOf H hub plan target remote w n = .ok digest w n := by
  rw [digestOf, if_pos hpresent, keptDigest, hsha]
  rfl

theorem replace_run (hp : w.disk.filePlace path = some p) (hq : w.disk.filePlace target = some q)
    (hfile : w.disk.file? p = some bytes) :
    ∃ w', replace path target w (n + 1) = .ok () w' n ∧ w'.disk = w.disk.move p q bytes ∧
      w'.cancels = w.cancels := by
  let w₁ : Session := { w with disk := w.disk.move p q bytes, done := w.done ++ [.rename p q] }
  exact ⟨w₁, Prog.effect_run (by simp only [hp, hq, hfile]; rfl) n, rfl, rfl⟩

/-- A file that is downloaded in one answer, and is what the hub publishes. -/
theorem digestOf_downloaded {w₁ : Session} (hpresent : remote.path ∉ plan.present)
    (hrun : download hub (fileUrl hub plan.source remote) target remote.size w n = .ok () w₁ n')
    (hread : w₁.disk.read? target = some bytes) (hsha : remote.sha256 = some (H.sha256 bytes).1)
    (hoid : remote.blobOid = none) :
    digestOf H hub plan target remote w n = .ok (H.sha256 bytes).1 w₁ n' := by
  have hbytes : readBytes target w₁ n' = .ok bytes w₁ n' := by
    unfold readBytes
    rw [Prog.look_bind, hread]
    rfl
  rw [digestOf, if_neg hpresent, fetchFile]
  refine (Prog.bind_run hrun).trans ?_
  refine (Prog.bind_run hbytes).trans ?_
  simp [hsha, hoid]
  rfl

theorem writeSums_run (files : List (String × String)) (n : Nat)
    (hp : w.disk.filePlace (dir ++ [SHA256SUMS ++ ".tmp"]) = some p)
    (hq : w.disk.filePlace (dir ++ [SHA256SUMS]) = some q) :
    ∃ w', writeSums dir files w (n + 2) = .ok () w' n ∧
      w'.disk = (w.disk.write p (sumsText files).toUTF8.data.toList).move p q
        (sumsText files).toUTF8.data.toList := by
  set text := (sumsText files).toUTF8.data.toList with htext
  let w₁ : Session := { w with disk := w.disk.write p text, done := w.done ++ [.write p] }
  have hopen : openPart (dir ++ [SHA256SUMS ++ ".tmp"]) false text w (n + 2) = .ok true w₁ (n + 1) :=
    Prog.effect_run (by simp only [hp, Bool.false_eq_true, if_false]; rfl) (n + 1)
  have hwrite : writeText (dir ++ [SHA256SUMS ++ ".tmp"]) (sumsText files) w (n + 2) =
      .ok () w₁ (n + 1) := (Prog.bind_run hopen).trans rfl
  have hsame : ∀ r, w₁.disk.isDir r = w.disk.isDir r := fun r => isDir_write
  have hwritten : w₁.disk.file? p = some text :=
    (file?_write (filePlace_spec hp).2.2.1).trans (if_pos rfl)
  obtain ⟨w₂, hreplace, hdisk, -⟩ := replace_run (n := n)
    ((filePlace_congr hsame).trans hp) ((filePlace_congr hsame).trans hq) hwritten
  exact ⟨w₂, (Prog.bind_run hwrite).trans hreplace, hdisk⟩

/-- A fetch of which every file is done: the checksums are left to be written. -/
theorem fetchModel_run {dest : Place} {listed : Listed} {remotes : List RemoteFile}
    (w w₁ : Session)
    (hchosen : listed.chosen [] [] = remotes) (hne : remotes ≠ [])
    (hsurvey : survey H w.disk (dest ++ [source.path]) remotes (planned source [] [] listed) =
      .ok plan)
    (hfiles : ∀ start : FetchedModel, start.files = [] → ∃ fetched,
      fetchFiles H hub plan (dest ++ [source.path]) remotes start w n = .ok fetched w₁ 2 ∧
        fetched.files = files)
    (hp : w₁.disk.filePlace (dest ++ [source.path] ++ [SHA256SUMS ++ ".tmp"]) = some p)
    (hq : w₁.disk.filePlace (dest ++ [source.path] ++ [SHA256SUMS]) = some q) :
    ∃ fetched w', fetchModel H hub source dest [] [] listed w n = .ok fetched w' 0 ∧
      fetched.files = files ∧
        w'.disk = (w₁.disk.write p (sumsText files).toUTF8.data.toList).move p q
          (sumsText files).toUTF8.data.toList := by
  obtain ⟨hsource, -, hplanFiles⟩ := survey_spec hsurvey
  have hsource : plan.source = source := hsource
  have hplanFiles : plan.files = remotes := hplanFiles.trans hchosen
  obtain ⟨fetched, hfetched, rfl⟩ := hfiles
    { path := plan.source.path, repo := plan.source.repo, revision := plan.source.revision,
      commit := plan.commit, skipped := plan.skipped } rfl
  obtain ⟨w', hsums, hdisk⟩ := writeSums_run fetched.files 0 hp hq
  refine ⟨fetched, w', ?_, rfl, hdisk⟩
  refine (Prog.bind_run (planModel_run hchosen hne hsurvey)).trans ?_
  unfold fetchPlanned
  rw [hsource, hplanFiles]
  rw [hsource] at hfetched
  refine (Prog.bind_run hfetched).trans ?_
  exact (Prog.bind_run hsums).trans rfl

/-! ## What agreement says -/

theorem Agrees.unbroken {dest : Place} {model : String} (h : Agrees H d dest model files)
    {item : String × String} (hitem : item ∈ files) : Lines.Unbroken item.1.toList := by
  obtain ⟨-, bytes, text, -, -, hperm⟩ := h
  exact unbroken_of_readSums (hperm.mem_iff.mpr hitem)

/-- A model without checksums is reported. -/
theorem mem_withSums_of_verify {dest : Place} {model : String}
    (h : verify H d dest [model] = .ok []) : model ∈ withSums d dest := by
  by_contra hnot
  have hmissing : ([model].dedup.filter fun name => name ∉ withSums d dest) = [model] := by
    simp [hnot]
  have hfound : ((withSums d dest).filter fun m => [model] = [] ∨ m ∈ [model]) = [] := by
    refine List.filter_eq_nil_iff.mpr fun m hm => ?_
    simp only [List.cons_ne_nil, false_or, List.mem_singleton, decide_eq_true_eq]
    exact fun heq => hnot (heq ▸ hm)
  unfold verify at h
  simp only [hmissing, hfound, List.mapM_nil, List.mergeSort_singleton] at h
  cases h

theorem Agrees.read {dest : Place} {model : String} (h : Agrees H d dest model files)
    {item : String × String} (hitem : item ∈ files) :
    ∃ bytes, d.read? (joined (dest ++ [model]) item.1) = some bytes ∧
      (H.sha256 bytes).1 = item.2 := by
  obtain ⟨hverify, bytes, text, hread, htext, hperm⟩ := h
  have hlist : dest ++ [model] ++ [SHA256SUMS] = dest ++ [model, SHA256SUMS] := by simp
  rw [verify_eq (mem_withSums_of_verify hverify)] at hverify
  unfold checkModel at hverify
  rw [← hlist, hread, Option.bind_some, htext] at hverify
  have hnone : checkFile H d dest model item = none :=
    List.filterMap_eq_nil_iff.mp (Except.ok.inj hverify) item (hperm.mem_iff.mpr hitem)
  unfold checkFile at hnone
  split at hnone
  · cases hnone
  · rename_i found hfound
    refine ⟨found, hfound, ?_⟩
    by_contra hne
    rw [if_neg hne] at hnone
    cases hnone

/-! ## A disk with one file -/

/-- A name that leads to a file below the directory, and not below its checksums. -/
structure Ordinary (name : String) : Prop where
  relative : Text.root name = []
  named : Text.names name ≠ []
  plain : ".." ∉ Text.names name
  usable : ∀ n ∈ Text.names name, Usable n
  beside : ∀ x ∈ [SHA256SUMS, SHA256SUMS ++ ".tmp"], ¬ [x] <+: (Text.names name).dropLast

/-- One file, and the directories on the way to it. -/
def around (target : Place) (bytes : Bytes) : Disk Bytes where
  files := [(target, bytes)]
  dirs := passed target.dropLast

/-- The directories of the disk are those on the way to the file. -/
def OnTheWay (d : Disk Bytes) (target : Place) : Prop :=
  ∀ p, d.isDir p = true ↔ p <+: target.dropLast

theorem not_prefix_dropLast (hne : target ≠ []) : ¬ target <+: target.dropLast := by
  intro h
  have hlength := h.length_le
  rw [List.length_dropLast] at hlength
  have hpos := List.length_pos_of_ne_nil hne
  omega

theorem onTheWay_around (bytes : Bytes) (hplain : ".." ∉ target) :
    OnTheWay (around target bytes) target := by
  intro p
  have hlex : ∀ init, init <+: target.dropLast → lexical init = init := fun init hinit =>
    lexical_of_plain fun hmem => hplain (List.mem_of_mem_dropLast (hinit.subset hmem))
  have hdirs : (around target bytes).dirs = passed target.dropLast := rfl
  rw [isDir_iff, hdirs, mem_passed]
  constructor
  · rintro (rfl | ⟨init, hinit, rfl⟩)
    · exact List.nil_prefix
    · rwa [hlex init hinit]
  · exact fun h => Or.inr ⟨p, h, hlex p h⟩

theorem file?_around (hplain : ".." ∉ target) (hne : target ≠ []) :
    (around target bytes).file? p = if p = target then some bytes else none := by
  unfold file?
  by_cases hdir : (around target bytes).isDir p = true
  · have hp := (onTheWay_around _ hplain p).mp hdir
    have hother : p ≠ target := fun heq => not_prefix_dropLast hne (heq ▸ hp)
    rw [if_pos hdir, if_neg hother]
  · rw [if_neg hdir]
    split_ifs with heq
    · simp [around, heq]
    · have hbeq : @BEq.beq _ instBEqOfDecidableEq p target = false := decide_eq_false heq
      simp only [around, List.lookup_cons, hbeq, List.lookup_nil]

/-- A file may be where the way leads past, but not on it. -/
theorem OnTheWay.filePlace (h : OnTheWay d target) (hplain : ".." ∉ path)
    (husable : ∀ n ∈ path, Usable n) (hdrop : path.dropLast <+: target.dropLast)
    (hnot : ¬ path <+: target.dropLast) : d.filePlace path = some path := by
  have hlex : lexical path = path := lexical_of_plain hplain
  have hplace : d.filePlace path = some (lexical path) := by
    refine filePlace_eq_some (fun hlast => hplain (List.mem_of_getLast? hlast)) husable ?_
      fun q hq => ?_
    · exact Bool.eq_false_iff.mpr fun hdir => hnot ((h _).mp (hlex ▸ hdir))
    · obtain ⟨init, hinit, rfl⟩ := mem_passed.mp hq
      have hinit' : lexical init = init := lexical_of_plain fun hmem =>
        hplain (List.mem_of_mem_dropLast (hinit.subset hmem))
      rw [hinit', h]
      exact hinit.trans hdrop
  rwa [hlex] at hplace

/-- The `.part` file of a path has a path like it. -/
theorem part_ordinary (hplain : ".." ∉ target) (husable : ∀ n ∈ target, Usable n)
    (hpart : partOf target = some part) : ".." ∉ part ∧ ∀ n ∈ part, Usable n := by
  obtain ⟨parent, last, rfl, rfl⟩ := partOf_eq_some hpart
  have hlast : Usable (last ++ ".part") := by
    have hname := husable last (List.mem_append_right _ (List.mem_singleton_self _))
    unfold Usable at hname ⊢
    rw [String.toList_append, List.mem_append]
    exact fun hmem => hmem.elim hname (by decide)
  constructor
  · intro hmem
    rcases List.mem_append.mp hmem with hmem | hmem
    · exact hplain (List.mem_append_left _ hmem)
    · exact partName_ne last (List.mem_singleton.mp hmem).symm
  · intro n hn
    rcases List.mem_append.mp hn with hn | hn
    · exact husable n (List.mem_append_left _ hn)
    · exact List.mem_singleton.mp hn ▸ hlast

section Names

variable {m : String} (hdir : ".." ∉ dir) (hdirUsable : ∀ n ∈ dir, Usable n) (hm : Ordinary m)
include hm

theorem Ordinary.joined_eq : joined dir m = dir ++ Text.names m := if_pos hm.relative

theorem Ordinary.joined_ne : joined dir m ≠ [] := by
  rw [hm.joined_eq]
  exact fun h => hm.named (List.append_eq_nil_iff.mp h).2

theorem Ordinary.partOf_isSome (dir : List String) : ∃ part, partOf (joined dir m) = some part := by
  obtain ⟨parent, last, hconcat⟩ :=
    (List.eq_nil_or_concat (joined dir m)).resolve_left hm.joined_ne
  rw [hconcat, List.concat_eq_append]
  exact ⟨_, by simp [partOf]; rfl⟩

theorem Ordinary.dropLast_joined : (joined dir m).dropLast = dir ++ (Text.names m).dropLast := by
  rw [hm.joined_eq, List.dropLast_append_of_ne_nil hm.named]

include hdirUsable in
theorem Ordinary.usable_joined : ∀ n ∈ joined dir m, Usable n := by
  rw [hm.joined_eq]
  intro n hn
  exact (List.mem_append.mp hn).elim (hdirUsable n) (hm.usable n)

include hdir

theorem Ordinary.plain_joined : ".." ∉ joined dir m := by
  rw [hm.joined_eq, List.mem_append]
  exact fun h => h.elim hdir hm.plain

theorem Ordinary.placeOf_eq : placeOf dir m = joined dir m :=
  lexical_of_plain (hm.plain_joined hdir)

include hdirUsable

theorem Ordinary.filePlace (h : OnTheWay d (joined dir m)) :
    d.filePlace (joined dir m) = some (joined dir m) :=
  h.filePlace (hm.plain_joined hdir) (hm.usable_joined hdirUsable) (List.prefix_refl _)
    (not_prefix_dropLast hm.joined_ne)

/-- The checksums can be written beside the file. -/
theorem Ordinary.filePlace_sums (h : OnTheWay d (joined dir m)) {x : String}
    (hx : x ∈ [SHA256SUMS, SHA256SUMS ++ ".tmp"]) :
    d.filePlace (dir ++ [x]) = some (dir ++ [x]) := by
  have hxPlain : x ≠ ".." ∧ Usable x := by
    simp only [List.mem_cons, List.not_mem_nil, or_false] at hx
    rcases hx with rfl | rfl <;> decide
  refine h.filePlace ?_ ?_ ?_ ?_
  · intro hmem
    rcases List.mem_append.mp hmem with hmem | hmem
    · exact hdir hmem
    · exact hxPlain.1 (List.mem_singleton.mp hmem).symm
  · intro n hn
    rcases List.mem_append.mp hn with hn | hn
    · exact hdirUsable n hn
    · exact List.mem_singleton.mp hn ▸ hxPlain.2
  · rw [List.dropLast_concat, hm.dropLast_joined]
    exact List.prefix_append _ _
  · rw [hm.dropLast_joined, List.prefix_append_right_inj]
    exact hm.beside x hx

theorem Ordinary.read?_around (bytes : Bytes) :
    (around (joined dir m) bytes).read? (joined dir m) = some bytes := by
  have hlex : lexical (joined dir m) = joined dir m := lexical_of_plain (hm.plain_joined hdir)
  refine read?_eq_some.mpr ?_
  rw [hlex]
  refine ⟨hm.filePlace hdir hdirUsable (onTheWay_around _ (hm.plain_joined hdir)), ?_⟩
  rw [file?_around (hm.plain_joined hdir) hm.joined_ne, if_pos rfl]

/-- A file that is downloaded in one answer, beside one that is here. -/
theorem Ordinary.download_run {url : String} {k : Nat} {answers : List Answer}
    (h : OnTheWay w.disk (joined dir m))
    (hpart : partOf (joined dir m) = some part)
    (hnet : w.net = .body 200 bytes .closed :: answers) (hhttp : isHttp url = true) :
    ∃ w₁, download {} url (joined dir m) 0 w (k + 3) = .ok () w₁ k ∧ w₁.cancels = w.cancels ∧
      OnTheWay w₁.disk (joined dir m) ∧ ∀ p, w₁.disk.file? p =
        if p = joined dir m then some bytes else if p = part then none else w.disk.file? p := by
  obtain ⟨hpartPlain, hpartUsable⟩ :=
    part_ordinary (hm.plain_joined hdir) (hm.usable_joined hdirUsable) hpart
  obtain ⟨parent, last, htarget, rfl⟩ := partOf_eq_some hpart
  have hparent : ".." ∉ parent := fun hmem => hpartPlain (List.mem_append_left _ hmem)
  have hparentUsable : ∀ n ∈ parent, Usable n := fun n hn =>
    hpartUsable n (List.mem_append_left _ hn)
  have hdrop : (joined dir m).dropLast = parent := by rw [htarget, List.dropLast_concat]
  -- the directories are there already
  have hlex : ∀ init, init <+: parent → lexical init = init := fun init hinit =>
    lexical_of_plain fun hmem => hparent (hinit.subset hmem)
  have hmade : (w.disk.makeDirs [] parent).isSome := by
    refine makeDirs_isSome hparentUsable fun init hinit => file?_of_isDir ((h _).mpr ?_)
    have hinit' : init.foldl up [] = init := hlex init hinit
    rw [hinit', hdrop]
    exact hinit
  obtain ⟨d, hd⟩ := Option.isSome_iff_exists.mp hmade
  have hway : OnTheWay d (joined dir m) := by
    intro p
    rw [isDir_makeDirs hd, h p, hdrop]
    refine or_iff_left_of_imp fun hp => ?_
    obtain ⟨init, hinit, rfl⟩ := mem_passed.mp hp
    rwa [hlex init hinit]
  have hplace : d.filePlace (parent ++ [last ++ ".part"]) = some (parent ++ [last ++ ".part"]) := by
    refine hway.filePlace hpartPlain hpartUsable ?_ ?_
    · rw [List.dropLast_concat, hdrop]
    · rw [hdrop]
      intro hstarts
      have hlength := hstarts.length_le
      rw [List.length_append, List.length_singleton] at hlength
      omega
  have htargetPlace := hm.filePlace hdir hdirUsable hway
  have hdirs : w.disk.makeDirs [] (parent ++ [last ++ ".part"]).dropLast = some d := by
    rwa [List.dropLast_concat]
  set part := parent ++ [last ++ ".part"] with hpartDef
  let w₀ : Session := ({ w with disk := d } : Session).written part bytes answers
  have hone : download {} url (joined dir m) 0 w (k + 3) =
      replace part (joined dir m) w₀ (k + 1) :=
    download_one hpart hdirs hplace hnet hhttp (k + 1)
  have hsame : ∀ r, w₀.disk.isDir r = d.isDir r := fun r => isDir_write
  have hbody : w₀.disk.file? part = some bytes :=
    (file?_write (filePlace_spec hplace).2.2.1).trans (if_pos rfl)
  obtain ⟨w₁, hreplace, hdisk, hcancels⟩ := replace_run (n := k)
    ((filePlace_congr hsame).trans hplace) ((filePlace_congr hsame).trans htargetPlace) hbody
  refine ⟨w₁, hone.trans hreplace, hcancels, ?_, fun p => ?_⟩
  · intro p
    rw [hdisk, isDir_move, hsame]
    exact hway p
  · rw [hdisk, file?_move ((hsame _).trans (filePlace_spec htargetPlace).2.2.1)]
    have hwritten : w₀.disk.file? p = if p = part then some bytes else d.file? p :=
      file?_write (filePlace_spec hplace).2.2.1
    rw [hwritten, file?_makeDirs hd]
    split_ifs <;> rfl

end Names

/-! ## What the hub may list -/

theorem ModelsDir.plain_model (dest : ModelsDir) (source : Source) :
    ".." ∉ dest.place ++ [source.path] := by
  intro hmem
  rcases List.mem_append.mp hmem with hmem | hmem
  · exact dest.plain hmem
  · exact source.directory.2.1 (List.mem_singleton.mp hmem).symm

theorem ModelsDir.usable_model (dest : ModelsDir) (source : Source) :
    ∀ n ∈ dest.place ++ [source.path], Usable n := by
  intro n hn
  rcases List.mem_append.mp hn with hn | hn
  · exact dest.usable n hn
  · exact List.mem_singleton.mp hn ▸ source.directory.2.2

/-- A listed file with the sha256 that the hub publishes of it. -/
def publishedEntry (name digest : String) : TreeEntry where
  type := "file"
  path := name
  lfs := some { oid := some digest }

def publishedFile (name digest : String) : RemoteFile where
  path := name
  size := 0
  sha256 := some digest

theorem ofEntry_published {digest : String} (h : digest ≠ "") :
    RemoteFile.ofEntry (publishedEntry name digest) = publishedFile name digest := by
  have htruthy : truthy (some digest) = some digest :=
    Option.filter_eq_some_iff.mpr ⟨rfl, decide_eq_true h⟩
  simp [RemoteFile.ofEntry, publishedEntry, publishedFile, htruthy, truthyInt]

/-- Whether files are skipped is a matter of their names. -/
theorem select_of_nothingSkipped {remotes : List RemoteFile}
    (h : NothingSkipped (remotes.map (·.path))) : (select remotes [] []).1 = remotes := by
  rw [nothingSkipped_iff] at h
  refine List.filter_eq_self.mpr fun f hf => ?_
  have hname := h f.path (List.mem_map_of_mem hf)
  rw [List.any_map] at hname
  simp only [List.isEmpty_nil, Bool.not_true, Bool.false_and, Bool.false_or, List.nil_append,
    Bool.not_eq_true']
  exact hname

theorem NothingSkipped.of_subset {names names' : List String} (h : NothingSkipped names)
    (hsub : names' ⊆ names) : NothingSkipped names' := by
  rw [nothingSkipped_iff] at h ⊢
  intro name hname
  have hskip := h name (hsub hname)
  rw [List.any_append, Bool.or_eq_false_iff] at hskip ⊢
  refine ⟨hskip.1, ?_⟩
  split_ifs with hany
  · obtain ⟨n, hn, hsuffix⟩ := List.any_eq_true.mp hany
    rw [if_pos (List.any_eq_true.mpr ⟨n, hsub hn, hsuffix⟩)] at hskip
    exact hskip.2
  · rfl

/-- The listing of one file that is here, and of one more. -/
def pairListed (m n digest : String) : Listed := ⟨none, [plainEntry m, publishedEntry n digest]⟩

theorem pairListed_chosen {m n digest : String} (h : NothingSkipped [m, n]) (hne : digest ≠ "") :
    (pairListed m n digest).chosen [] [] = [plainFile m, publishedFile n digest] := by
  have htree : tree [plainEntry m, publishedEntry n digest] =
      [plainFile m, publishedFile n digest] := by
    have hcons : tree [plainEntry m, publishedEntry n digest] =
        [plainFile m, RemoteFile.ofEntry (publishedEntry n digest)] := rfl
    rw [hcons, ofEntry_published hne]
  rw [Listed.chosen, pairListed, htree]
  exact select_of_nothingSkipped h

theorem isComplete_kept (h : d.read? target = some bytes) :
    isComplete H d target (plainFile name) = true := by
  simp [isComplete, h, plainFile]

theorem survey_one (plan₀ : ModelPlan) (hread : d.read? (joined dir name) = some bytes) :
    ∃ plan, survey H d dir [plainFile name] plan₀ = .ok plan ∧
      plan.present = plan₀.present ++ [name] := by
  have hkept : isComplete H d (joined dir (plainFile name).path) (plainFile name) = true :=
    isComplete_kept hread
  simp only [survey, hkept, if_true]
  exact ⟨_, rfl, rfl⟩

theorem survey_pair {m n digest : String} (plan₀ : ModelPlan)
    (hread : d.read? (joined dir m) = some bytes)
    (hnot : isComplete H d (joined dir n) (publishedFile n digest) = false)
    (hpart : partOf (joined dir n) = some part) :
    ∃ plan, survey H d dir [plainFile m, publishedFile n digest] plan₀ = .ok plan ∧
      plan.present = plan₀.present ++ [m] := by
  have hkept : isComplete H d (joined dir (plainFile m).path) (plainFile m) = true :=
    isComplete_kept hread
  have hpart' : partOf (joined dir (publishedFile n digest).path) = some part := hpart
  have hnot' : isComplete H d (joined dir (publishedFile n digest).path) (publishedFile n digest) =
      false := hnot
  simp only [survey, hkept, hnot', hpart', if_true, Bool.false_eq_true, if_false]
  cases d.read? part with
  | none => exact ⟨_, rfl, rfl⟩
  | some found =>
    dsimp only
    split_ifs <;> exact ⟨_, rfl, rfl⟩

/-! ## Names that are not readable -/

/-- Every fetch of files with some of the names that returns agrees with the check after it. -/
def AllAgree (H : Hashes) (source : Source) (dest : ModelsDir) (names : List String) : Prop :=
  ∀ (hub : Hub) (include_ exclude : List String) (listed : Listed) (w w' : Session) (n n' : Nat)
    (fetched : FetchedModel), ((listed.chosen include_ exclude).map (·.path)).Subperm names →
    fetchModel H hub source dest.place include_ exclude listed w n = .ok fetched w' n' →
      Agrees H w'.disk dest.place source.path fetched.files

theorem sums_ne_nil : (sumsText files).toUTF8.data.toList ≠ [] := by
  intro h
  have hsize : (sumsText files).toUTF8 = "".toUTF8 := by
    have hdata : (sumsText files).toUTF8.data = #[] := Array.toList_eq_nil_iff.mp h
    exact ByteArray.ext hdata
  have hnil := congrArg String.toList (String.toByteArray_inj.mp hsize)
  rw [toList_sumsText] at hnil
  exact List.append_ne_nil_of_right_ne_nil _ (by simp) hnil

theorem file?_sums {text : Bytes} {r : Place} (hp : d.isDir p = false) (hq : d.isDir q = false) :
    ((d.write p text).move p q text).file? r =
      if r = q then some text else if r = p then none else d.file? r := by
  rw [file?_move (by rwa [isDir_write]), file?_write hp]
  split_ifs <;> rfl

section Scenarios

variable {dest : ModelsDir} {m o digest : String}

/-- One file that is here: only the checksums are written. -/
theorem kept_run (H : Hashes) (source : Source) (dest : ModelsDir) (hm : Ordinary m)
    (hskip : NothingSkipped [m]) :
    ∃ fetched w', fetchModel H {} source dest.place [] [] ⟨none, [plainEntry m]⟩
        { disk := around (joined (dest.place ++ [source.path]) m) [] } 2 = .ok fetched w' 0 ∧
      fetched.files = [(m, (H.sha256 []).1)] ∧
      ∀ p, w'.disk.file? p =
        if p = dest.place ++ [source.path] ++ [SHA256SUMS] then
          some (sumsText [(m, (H.sha256 []).1)]).toUTF8.data.toList
        else if p = dest.place ++ [source.path] ++ [SHA256SUMS ++ ".tmp"] then none
        else (around (joined (dest.place ++ [source.path]) m) []).file? p := by
  set dir := dest.place ++ [source.path] with hdir
  have hplain : ".." ∉ dir := dest.plain_model source
  have husable : ∀ n ∈ dir, Usable n := dest.usable_model source
  have hway := onTheWay_around [] (hm.plain_joined hplain)
  have hread := hm.read?_around hplain husable []
  have htmp := hm.filePlace_sums hplain husable hway (x := SHA256SUMS ++ ".tmp") (by simp)
  have hsums := hm.filePlace_sums hplain husable hway (x := SHA256SUMS) (by simp)
  have hchosen : (⟨none, [plainEntry m]⟩ : Listed).chosen [] [] = [plainFile m] :=
    select_of_nothingSkipped hskip
  obtain ⟨plan, hsurvey, hpresent⟩ := survey_one (H := H)
    (planned source [] [] ⟨none, [plainEntry m]⟩) hread
  have hfiles : ∀ start : FetchedModel, start.files = [] → ∃ fetched,
      fetchFiles H {} plan dir [plainFile m] start { disk := around (joined dir m) [] } 2 =
        .ok fetched { disk := around (joined dir m) [] } 2 ∧
        fetched.files = [(m, (H.sha256 []).1)] := by
    intro start hstart
    have hmem : m ∈ plan.present := hpresent ▸ List.mem_singleton_self m
    refine ⟨start.add m (H.sha256 []).1 _, fetchFiles_kept rfl hmem hread, ?_⟩
    rw [FetchedModel.files_add, hstart, Dict.set_of_not_mem List.not_mem_nil, List.nil_append]
  obtain ⟨fetched, w', hrun, hrecorded, hdisk⟩ :=
    fetchModel_run { disk := around (joined dir m) [] } { disk := around (joined dir m) [] }
      hchosen (List.cons_ne_nil _ _) hsurvey hfiles htmp hsums
  refine ⟨fetched, w', hrun, hrecorded, fun p => ?_⟩
  rw [hdisk]
  exact file?_sums (filePlace_spec htmp).2.2.1 (filePlace_spec hsums).2.2.1

/-- A file that is here and listed twice: what the hub publishes of it is recorded unread. -/
theorem twice_run (source : Source) (dest : ModelsDir) (hm : Ordinary m)
    (hskip : NothingSkipped [m, m]) (hne : digest ≠ "")
    (hdigest : ∀ bytes, (H.sha256 bytes).1 ≠ digest) :
    ∃ fetched w', fetchModel H {} source dest.place [] [] (pairListed m m digest)
        { disk := around (joined (dest.place ++ [source.path]) m) [] } 2 = .ok fetched w' 0 ∧
      fetched.files = [(m, digest)] := by
  set dir := dest.place ++ [source.path] with hdir
  have hplain : ".." ∉ dir := dest.plain_model source
  have husable : ∀ n ∈ dir, Usable n := dest.usable_model source
  have hway := onTheWay_around [] (hm.plain_joined hplain)
  have hread := hm.read?_around hplain husable []
  have htmp := hm.filePlace_sums hplain husable hway (x := SHA256SUMS ++ ".tmp") (by simp)
  have hsums := hm.filePlace_sums hplain husable hway (x := SHA256SUMS) (by simp)
  have hnot : isComplete H (around (joined dir m) []) (joined dir m) (publishedFile m digest) =
      false := by
    simp [isComplete, hread, publishedFile, hdigest []]
  obtain ⟨part, hpart⟩ := hm.partOf_isSome dir
  obtain ⟨plan, hsurvey, hpresent⟩ := survey_pair
    (planned source [] [] (pairListed m m digest)) hread hnot hpart
  have hfiles : ∀ start : FetchedModel, start.files = [] → ∃ fetched,
      fetchFiles H {} plan dir [plainFile m, publishedFile m digest] start
        { disk := around (joined dir m) [] } 2 =
          .ok fetched { disk := around (joined dir m) [] } 2 ∧
        fetched.files = [(m, digest)] := by
    intro start hstart
    have hmem : m ∈ plan.present := hpresent ▸ List.mem_singleton_self m
    have hpublished : digestOf H {} plan (joined dir (publishedFile m digest).path)
        (publishedFile m digest) { disk := around (joined dir m) [] } 2 =
          .ok digest { disk := around (joined dir m) [] } 2 := digestOf_published hmem rfl
    refine ⟨(start.add m (H.sha256 []).1 _).add m digest _,
      (fetchFiles_kept rfl hmem hread).trans (fetchFiles_cons rfl hpublished hread), ?_⟩
    rw [FetchedModel.files_add, FetchedModel.files_add, hstart]
    simp [Dict.set]
  obtain ⟨fetched, w', hrun, hrecorded, -⟩ :=
    fetchModel_run { disk := around (joined dir m) [] } { disk := around (joined dir m) [] }
      (pairListed_chosen hskip hne) (List.cons_ne_nil _ _) hsurvey hfiles htmp hsums
  exact ⟨fetched, w', hrun, hrecorded⟩

theorem digest_ne : (H.sha256 bytes).1 ≠ "" := by
  intro h
  have hlength := (H.sha256 bytes).2.1
  rw [h] at hlength
  cases hlength

/-- A file that is here, and the download of another that takes its place. -/
theorem overwritten_run (hm : Ordinary m) (ho : Ordinary o) (hskip : NothingSkipped [m, o])
    (hmo : m ≠ o) (hpart : partOf (joined (dest.place ++ [source.path]) o) = some part)
    (hover : joined (dest.place ++ [source.path]) m = joined (dest.place ++ [source.path]) o ∨
      joined (dest.place ++ [source.path]) m = part)
    (hempty : ∀ c, c ≠ [] → (H.sha256 c).1 ≠ (H.sha256 []).1) :
    ∃ fetched w', fetchModel H {} source dest.place [] [] (pairListed m o (H.sha256 []).1)
        { disk := around (joined (dest.place ++ [source.path]) m) [0],
          net := [.body 200 [] .closed] } 5 = .ok fetched w' 0 ∧
      (m, (H.sha256 [0]).1) ∈ fetched.files ∧ ∀ p,
        p ≠ dest.place ++ [source.path] ++ [SHA256SUMS] →
        p ≠ dest.place ++ [source.path] ++ [SHA256SUMS ++ ".tmp"] →
        w'.disk.file? p = if p = joined (dest.place ++ [source.path]) o then some []
          else if p = part then none
          else (around (joined (dest.place ++ [source.path]) m) [0]).file? p := by
  set dir := dest.place ++ [source.path] with hdir
  have hplain : ".." ∉ dir := dest.plain_model source
  have husable : ∀ n ∈ dir, Usable n := dest.usable_model source
  have hread := hm.read?_around hplain husable [0]
  -- the other file is not here, or it is this one
  have hdrop : (joined dir m).dropLast = (joined dir o).dropLast := by
    rcases hover with heq | rfl
    · rw [heq]
    · obtain ⟨parent, last, htarget, hpartEq⟩ := partOf_eq_some hpart
      rw [htarget, hpartEq, List.dropLast_concat, List.dropLast_concat]
  have hway : OnTheWay (around (joined dir m) [0]) (joined dir o) := by
    intro p
    rw [← hdrop]
    exact onTheWay_around _ (hm.plain_joined hplain) p
  have hnot : isComplete H (around (joined dir m) [0]) (joined dir o)
      (publishedFile o (H.sha256 []).1) = false := by
    unfold isComplete
    cases hfound : (around (joined dir m) [0]).read? (joined dir o) with
    | none => rfl
    | some found =>
      have hfile := (read?_eq_some.mp hfound).2
      rw [file?_around (hm.plain_joined hplain) hm.joined_ne] at hfile
      split_ifs at hfile
      cases hfile
      exact decide_eq_false (hempty [0] (by simp))
  obtain ⟨plan, hsurvey, hpresent⟩ := survey_pair
    (planned source [] [] (pairListed m o (H.sha256 []).1)) hread hnot hpart
  have hsource : plan.source = source := (survey_spec hsurvey).1
  have hmem : m ∈ plan.present := hpresent ▸ List.mem_singleton_self m
  have hnew : o ∉ plan.present := by
    rw [hpresent]
    exact fun h => hmo (List.mem_singleton.mp h).symm
  obtain ⟨w₁, hdownload, hcancels, hway₁, hfiles₁⟩ := ho.download_run hplain husable
    (w := { disk := around (joined dir m) [0], net := [.body 200 [] .closed] }) (k := 2)
    hway hpart rfl (isHttp_fileUrl source (publishedFile o (H.sha256 []).1))
  have hread₁ : w₁.disk.read? (joined dir o) = some [] := by
    have hlex : lexical (joined dir o) = joined dir o := lexical_of_plain (ho.plain_joined hplain)
    refine read?_eq_some.mpr ?_
    rw [hlex, hfiles₁, if_pos rfl]
    exact ⟨ho.filePlace hplain husable hway₁, rfl⟩
  have hfiles : ∀ start : FetchedModel, start.files = [] → ∃ fetched,
      fetchFiles H {} plan dir [plainFile m, publishedFile o (H.sha256 []).1] start
        { disk := around (joined dir m) [0], net := [.body 200 [] .closed] } 5 =
          .ok fetched w₁ 2 ∧
        fetched.files = [(m, (H.sha256 [0]).1), (o, (H.sha256 []).1)] := by
    intro start hstart
    have hdigest : digestOf H {} plan (joined dir (publishedFile o (H.sha256 []).1).path)
        (publishedFile o (H.sha256 []).1)
        { disk := around (joined dir m) [0], net := [.body 200 [] .closed] } 5 =
          .ok (H.sha256 []).1 w₁ 2 := by
      refine digestOf_downloaded hnew ?_ hread₁ rfl rfl
      rw [hsource]
      exact hdownload
    refine ⟨(start.add m (H.sha256 [0]).1 _).add o (H.sha256 []).1 _,
      (fetchFiles_kept rfl hmem hread).trans (fetchFiles_cons rfl hdigest hread₁), ?_⟩
    rw [FetchedModel.files_add, FetchedModel.files_add, hstart]
    simp [Dict.set, hmo]
  have htmp := ho.filePlace_sums hplain husable hway₁ (x := SHA256SUMS ++ ".tmp") (by simp)
  have hsums := ho.filePlace_sums hplain husable hway₁ (x := SHA256SUMS) (by simp)
  obtain ⟨fetched, w', hrun, hrecorded, hdisk⟩ :=
    fetchModel_run { disk := around (joined dir m) [0], net := [.body 200 [] .closed] } w₁
      (pairListed_chosen hskip digest_ne) (List.cons_ne_nil _ _) hsurvey hfiles htmp hsums
  refine ⟨fetched, w', hrun, ?_, fun p hp hp' => ?_⟩
  · rw [hrecorded]
    exact List.mem_cons_self
  · rw [hdisk, file?_sums (filePlace_spec htmp).2.2.1 (filePlace_spec hsums).2.2.1, if_neg hp,
      if_neg hp', hfiles₁]

end Scenarios

/-! ## Exactly the readable names -/

section Exact

variable {dest : ModelsDir} {names names' : List String} {m o : String}

theorem AllAgree.of_subperm (h : AllAgree H source dest names) (hsub : names'.Subperm names) :
    AllAgree H source dest names' :=
  fun hub include_ exclude listed w w' n n' fetched hnames =>
    h hub include_ exclude listed w w' n n' fetched (hnames.trans hsub)

/-- A file that is here already has a name of one line, and is not where the checksums go. -/
theorem AllAgree.single (h : AllAgree H source dest [m]) (hm : Ordinary m)
    (hskip : NothingSkipped [m]) (hempty : ∀ c, c ≠ [] → (H.sha256 c).1 ≠ (H.sha256 []).1) :
    Lines.Unbroken m.toList ∧
      ∀ x ∈ [SHA256SUMS, SHA256SUMS ++ ".tmp"],
        joined (dest.place ++ [source.path]) m ≠ dest.place ++ [source.path] ++ [x] := by
  obtain ⟨fetched, w', hrun, hfiles, hdisk⟩ := kept_run H source dest hm hskip
  have hchosen : (⟨none, [plainEntry m]⟩ : Listed).chosen [] [] = [plainFile m] :=
    select_of_nothingSkipped hskip
  have hagrees := h {} [] [] _ _ _ _ _ _ (by rw [hchosen]; exact List.Subperm.refl _) hrun
  have hitem : (m, (H.sha256 []).1) ∈ fetched.files := hfiles ▸ List.mem_singleton_self _
  refine ⟨hagrees.unbroken hitem, fun x hx hplace => ?_⟩
  have hlex : lexical (joined (dest.place ++ [source.path]) m) =
      joined (dest.place ++ [source.path]) m :=
    lexical_of_plain (hm.plain_joined (dest.plain_model source))
  obtain ⟨bytes, hread, hdigest⟩ := hagrees.read hitem
  have hfile := (read?_eq_some.mp hread).2
  rw [hlex, hplace, hdisk] at hfile
  simp only [List.mem_cons, List.not_mem_nil, or_false] at hx
  rcases hx with rfl | rfl
  · rw [if_pos rfl] at hfile
    exact hempty bytes (Option.some.inj hfile ▸ sums_ne_nil) hdigest
  · have hne : dest.place ++ [source.path] ++ [SHA256SUMS ++ ".tmp"] ≠
        dest.place ++ [source.path] ++ [SHA256SUMS] := fun heq => by
      have hlast := List.append_cancel_left heq
      revert hlast
      decide
    rw [if_neg hne, if_pos rfl] at hfile
    cases hfile

theorem AllAgree.not_twice (h : AllAgree H source dest [m, m]) (hm : Ordinary m)
    (hskip : NothingSkipped [m, m]) : False := by
  have hdigest : ∀ bytes, (H.sha256 bytes).1 ≠ "x" := by
    intro bytes heq
    have hlength := (H.sha256 bytes).2.1
    rw [heq] at hlength
    cases hlength
  obtain ⟨fetched, w', hrun, hfiles⟩ :=
    twice_run source dest hm hskip (by decide) hdigest
  have hagrees := h {} [] [] _ _ _ _ _ _ (by
    rw [pairListed_chosen hskip (by decide)]
    exact List.Subperm.refl _) hrun
  obtain ⟨bytes, -, hread⟩ := hagrees.read (hfiles ▸ List.mem_singleton_self _)
  exact hdigest bytes hread

/-- No download takes the place of another file of the list. -/
theorem AllAgree.not_over {part : Place} (h : AllAgree H source dest [m, o]) (hm : Ordinary m)
    (ho : Ordinary o) (hskip : NothingSkipped [m, o]) (hmo : m ≠ o)
    (hempty : ∀ c, c ≠ [] → (H.sha256 c).1 ≠ (H.sha256 []).1)
    (hpart : partOf (joined (dest.place ++ [source.path]) o) = some part) :
    joined (dest.place ++ [source.path]) m ≠ joined (dest.place ++ [source.path]) o ∧
      joined (dest.place ++ [source.path]) m ≠ part := by
  by_contra hnot
  have hover : joined (dest.place ++ [source.path]) m = joined (dest.place ++ [source.path]) o ∨
      joined (dest.place ++ [source.path]) m = part := by tauto
  obtain ⟨fetched, w', hrun, hitem, hdisk⟩ := overwritten_run hm ho hskip hmo hpart hover hempty
  have hagrees := h {} [] [] _ _ _ _ _ _ (by
    rw [pairListed_chosen hskip digest_ne]
    exact List.Subperm.refl _) hrun
  have hfree := ((h.of_subperm (List.singleton_subperm_iff.mpr (List.mem_cons_self))).single hm
    (hskip.of_subset (by simp)) hempty).2
  have hlex : lexical (joined (dest.place ++ [source.path]) m) =
      joined (dest.place ++ [source.path]) m :=
    lexical_of_plain (hm.plain_joined (dest.plain_model source))
  obtain ⟨bytes, hread, hdigest⟩ := hagrees.read hitem
  have hfile := (read?_eq_some.mp hread).2
  rw [hlex, hdisk _ (hfree _ (by simp)) (hfree _ (by simp))] at hfile
  split_ifs at hfile
  · obtain rfl := Option.some.inj hfile
    exact hempty [0] (by simp) hdigest.symm
  · tauto

/-- Names that nothing goes wrong with are readable. -/
theorem readable_of_allAgree (h : AllAgree H source dest names)
    (hord : ∀ name ∈ names, Ordinary name)
    (hempty : ∀ c, c ≠ [] → (H.sha256 c).1 ≠ (H.sha256 []).1) (hskip : NothingSkipped names) :
    Readable (dest.place ++ [source.path]) names := by
  have hplain := dest.plain_model source
  have hsingle : ∀ name ∈ names, _ := fun name hname =>
    (h.of_subperm (List.singleton_subperm_iff.mpr hname)).single (hord name hname)
      (hskip.of_subset (by simpa using hname)) hempty
  constructor
  · exact fun name hname => (hsingle name hname).1
  · intro name hname
    have hfree := (hsingle name hname).2
    rw [(hord name hname).placeOf_eq hplain, sumsPlace, tmpPlace, lexical_of_plain hplain]
    exact ⟨hfree _ (by simp), hfree _ (by simp)⟩
  · rw [List.nodup_iff_sublist]
    intro p hp
    obtain ⟨l, hl, hmap⟩ := List.sublist_map_iff.mp hp
    obtain ⟨m, o, rfl⟩ : ∃ m o, l = [m, o] := by
      rw [← List.length_eq_two, ← List.length_map (f := placeOf (dest.place ++ [source.path])),
        ← hmap]
      rfl
    simp only [List.map_cons, List.map_nil, List.cons.injEq, and_true] at hmap
    have hm := hord m (hl.subset List.mem_cons_self)
    have ho := hord o (hl.subset (List.mem_cons_of_mem _ (List.mem_singleton_self o)))
    have hpair := h.of_subperm hl.subperm
    have hpairSkip := hskip.of_subset hl.subset
    have hplaces : joined (dest.place ++ [source.path]) m =
        joined (dest.place ++ [source.path]) o := by
      rw [← hm.placeOf_eq hplain, ← ho.placeOf_eq hplain, ← hmap.1, ← hmap.2]
    by_cases hmo : m = o
    · subst hmo
      exact hpair.not_twice hm hpairSkip
    · obtain ⟨part, hpart⟩ := ho.partOf_isSome (dest.place ++ [source.path])
      exact (hpair.not_over hm ho hpairSkip hmo hempty hpart).1 hplaces
  · intro m hm o ho heq
    obtain ⟨part, hpart⟩ := (hord o ho).partOf_isSome (dest.place ++ [source.path])
    have hpartPlain := (part_ordinary ((hord o ho).plain_joined hplain)
      ((hord o ho).usable_joined (dest.usable_model source)) hpart).1
    have hplace : joined (dest.place ++ [source.path]) m = part := by
      rw [← (hord m hm).placeOf_eq hplain, ← heq, ← lexical_part hpart, lexical_of_plain hpartPlain]
    have hmo : m ≠ o := by
      rintro rfl
      obtain ⟨parent, last, htarget, rfl⟩ := partOf_eq_some hpart
      have hlast := List.append_cancel_left (htarget.symm.trans hplace)
      have hlength := congrArg (fun l => l.map fun s => s.toList.length) hlast
      simp at hlength
    have hsub : [m, o] ⊆ names := by
      intro name hname
      simp only [List.mem_cons, List.not_mem_nil, or_false] at hname
      rcases hname with rfl | rfl
      · exact hm
      · exact ho
    have hpair := h.of_subperm (List.subperm_of_subset (by simpa using hmo) hsub)
    exact (hpair.not_over (hord m hm) (hord o ho) (hskip.of_subset hsub) hmo hempty hpart).2 hplace

/-- **Fetch, then verify**: the check agrees with every fetch of files of the list whose names
    are readable, and for a list of ordinary names with no other. -/
theorem agrees_iff (H : Hashes) (source : Source) (dest : ModelsDir) (names : List String) :
    ((∀ l : List String, l.Subperm names → NothingSkipped l →
        Readable (dest.place ++ [source.path]) l) → AllAgree H source dest names) ∧
      ((∀ name ∈ names, Ordinary name) →
        (∀ c, c ≠ [] → (H.sha256 c).1 ≠ (H.sha256 []).1) → AllAgree H source dest names →
          ∀ l : List String, l.Subperm names → NothingSkipped l →
            Readable (dest.place ++ [source.path]) l) := by
  constructor
  · intro h hub include_ exclude listed w w' n n' fetched hnames hrun
    have hskip : NothingSkipped ((listed.chosen include_ exclude).map (·.path)) :=
      nothingSkipped_of_chosen listed include_ exclude fun name hname => List.mem_map.mp hname
    have htriple := agrees_of_readable (H := H) hub (h _ hnames hskip)
    have hsat := htriple w n trivial
    rw [hrun] at hsat
    exact hsat
  · intro hord hempty h l hl hskip
    exact readable_of_allAgree (h.of_subperm hl) (fun name hname => hord name (hl.subset hname))
      hempty hskip

-- A repository that ships checksums of its own

theorem shipped_sums_disagree :
    ∃ fetched w' n', fetchModel someHashes {} bgeM3 ["Models"] [] []
        ⟨none, [plainEntry "SHA256SUMS"]⟩ { disk := {}, net := [.body 200 [] .closed] } 100 =
          .ok fetched w' n' ∧
      ¬ Agrees someHashes w'.disk ["Models"] "bge-m3" fetched.files := by
  have hvalue : ((fetchModel someHashes {} bgeM3 ["Models"] [] []
      ⟨none, [plainEntry "SHA256SUMS"]⟩ { disk := {}, net := [.body 200 [] .closed] }
        100).value?.map FetchedModel.files) =
      some [("SHA256SUMS", (someHashes.sha256 []).1)] := by
    decide +kernel
  have hread : ((fetchModel someHashes {} bgeM3 ["Models"] [] []
      ⟨none, [plainEntry "SHA256SUMS"]⟩ { disk := {}, net := [.body 200 [] .closed] }
        100).world.disk.read? (joined ["Models", "bge-m3"] "SHA256SUMS")).map
          (fun bytes => (someHashes.sha256 bytes).1) ≠ some (someHashes.sha256 []).1 := by
    decide +kernel
  obtain ⟨fetched, hfetched, hfiles⟩ := Option.map_eq_some_iff.mp hvalue
  obtain ⟨a, n', hrun⟩ := Result.eq_ok (Option.isSome_iff_exists.mpr ⟨fetched, hfetched⟩)
  refine ⟨a, _, n', hrun, fun hagrees => hread ?_⟩
  rw [hrun] at hfetched
  obtain rfl : a = fetched := Option.some.inj hfetched
  obtain ⟨bytes, hbytes, hdigest⟩ := hagrees.read (hfiles ▸ List.mem_singleton_self _)
  exact Option.map_eq_some_iff.mpr ⟨bytes, hbytes, hdigest⟩

end Exact

end Fetch

end Slas
