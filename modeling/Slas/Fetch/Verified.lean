/-
  Slas.Fetch.Verified

  A fetch and the offline check after it: when the check finds nothing wrong with what a fetch
  recorded.

  The fetch keeps its own files beside those of the model, under names that a listing may name
  too: `SHA256SUMS`, its temporary file, and a `.part` file for each one.  `agrees_of_readable`
  is an induction over the files, with what was recorded before as the invariant: the download
  of a file touches its own place and that of its `.part` file only.
-/

import Mathlib.Data.List.Dedup
import Slas.Fetch.Confined
import Slas.Fetch.Sums

namespace Slas

namespace Fetch

open Crash Disk

/-- The directory of the models, from the root. -/
structure ModelsDir where
  place : Place
  plain : ".." ∉ place
  usable : ∀ name ∈ place, Usable name

/-- The check reports nothing for the model, and reads what was recorded. -/
def Agrees (H : Hashes) (disk : Disk Bytes) (dest : Place) (model : String)
    (files : List (String × String)) : Prop :=
  verify H disk dest [model] = .ok [] ∧ ∃ bytes text,
    disk.read? (dest ++ [model] ++ [SHA256SUMS]) = some bytes ∧ readText bytes = some text ∧
      (readSums text).Perm files

/-! ## Names that do not get in the way of each other -/

def placeOf (dir : List String) (name : String) : Place := lexical (joined dir name)

def partPlace (dir : List String) (name : String) : Place :=
  lexical (joined dir name).dropLast ++ [nameOf (joined dir name) ++ ".part"]

def sumsPlace (dir : List String) : Place := lexical dir ++ [SHA256SUMS]

def tmpPlace (dir : List String) : Place := lexical dir ++ [SHA256SUMS ++ ".tmp"]

/-- Names of one line each, with places of their own. -/
structure Readable (dir : List String) (names : List String) : Prop where
  unbroken : ∀ name ∈ names, Lines.Unbroken name.toList
  free : ∀ name ∈ names, placeOf dir name ≠ sumsPlace dir ∧ placeOf dir name ≠ tmpPlace dir
  places : (names.map (placeOf dir)).Nodup
  parts : ∀ m ∈ names, ∀ n ∈ names, partPlace dir n ≠ placeOf dir m

variable {dir target part path : List String} {name : String} {p q : Place} {d d₀ : Disk Bytes}
  {H : Hashes} {hub : Hub} {source : Source} {remote : RemoteFile} {names names' : List String}

theorem lexical_part (h : partOf (joined dir name) = some part) :
    lexical part = partPlace dir name := by
  obtain ⟨parent, last, htarget, rfl⟩ := partOf_eq_some h
  rw [partPlace, htarget, lexical_concat, up_of_ne (partName_ne last), List.dropLast_concat]
  simp [nameOf]

/-! ## What is left alone -/

/-- Every file is as before, but for those at two places, and no directory is gone. -/
structure LeftAlone (p q : Place) (d₀ d : Disk Bytes) : Prop where
  files : ∀ r, r ≠ p → r ≠ q → d.file? r = d₀.file? r
  dirs : ∀ r, d₀.isDir r = true → d.isDir r = true

theorem LeftAlone.refl : LeftAlone p q d d := ⟨fun _ _ _ => rfl, fun _ h => h⟩

/-- What could be read can be read as before. -/
theorem LeftAlone.read? {bytes : Bytes} (h : LeftAlone p q d₀ d) (hp : lexical path ≠ p)
    (hq : lexical path ≠ q) (hread : d₀.read? path = some bytes) : d.read? path = some bytes :=
  read?_of_same hread h.dirs (h.files _ hp hq)

theorem leftAlone_openPart {append : Bool} {bytes : Bytes} (hp : lexical path = p) :
    Preserves (fun w => LeftAlone p q d₀ w.disk) (openPart path append bytes) := by
  refine Preserves.effect fun w hw => ?_
  split
  · rename_i r hr
    have hplace : r = p := (filePlace_spec hr).2.1.trans hp
    refine ⟨fun t htp htq => ?_, fun t ht => isDir_write.trans (hw.dirs t ht)⟩
    exact (file?_write_of_ne (hplace ▸ htp)).trans (hw.files t htp htq)
  · exact hw

theorem leftAlone_unlink (hp : lexical path = p) :
    Preserves (fun w => LeftAlone p q d₀ w.disk) (unlink path) := by
  refine Preserves.effect fun w hw => ?_
  split
  · rename_i r hr
    have hplace : r = p := ((filePlace_spec (Option.filter_eq_some_iff.mp hr).1).2.1).trans hp
    refine ⟨fun t htp htq => ?_, fun t ht => isDir_remove.trans (hw.dirs t ht)⟩
    show (w.disk.remove r).file? t = _
    rw [file?_remove, if_neg (hplace ▸ htp), hw.files t htp htq]
  · exact hw

/-- After a rename there is nothing at the first place. -/
theorem leftAlone_replace (hp : lexical path = p) (hq : lexical target = q) :
    Triple (fun w => LeftAlone p q d₀ w.disk) (replace path target)
      (fun _ w => LeftAlone p q d₀ w.disk ∧ (p ≠ q → w.disk.file? p = none))
      fun w => LeftAlone p q d₀ w.disk := by
  refine Triple.effect (fun _ hw => hw) (fun w a w' hw heq => ?_) fun w e w' hw heq => ?_
  · split at heq
    · rename_i r s hr hs
      have hplace : r = p := (filePlace_spec hr).2.1.trans hp
      have hplace' : s = q := (filePlace_spec hs).2.1.trans hq
      have hdir := (filePlace_spec hs).2.2.1
      split at heq
      · obtain ⟨-, rfl⟩ := Prod.mk.inj heq
        subst hplace hplace'
        refine ⟨⟨fun t htp htq => ?_, fun t ht => isDir_move.trans (hw.dirs t ht)⟩, fun hne => ?_⟩
        · show (w.disk.move r s _).file? t = _
          rw [file?_move hdir, if_neg htq, if_neg htp, hw.files t htp htq]
        · show (w.disk.move r s _).file? r = none
          rw [file?_move hdir, if_neg hne, if_pos rfl]
      · cases (Prod.mk.inj heq).1
    · cases (Prod.mk.inj heq).1
  · split at heq
    · split at heq
      · cases (Prod.mk.inj heq).1
      · exact (Prod.mk.inj heq).2 ▸ hw
    · exact (Prod.mk.inj heq).2 ▸ hw

theorem leftAlone_makeDirs : Preserves (fun w => LeftAlone p q d₀ w.disk) (makeDirs path) := by
  refine Preserves.effect fun w hw => ?_
  split
  · rename_i disk hdirs
    exact ⟨fun t htp htq => (file?_makeDirs hdirs).trans (hw.files t htp htq),
      fun t ht => (isDir_makeDirs hdirs).mpr (Or.inl (hw.dirs t ht))⟩
  · exact hw

/-- A download leaves everything alone but the file and its `.part` file, which is gone then. -/
theorem leftAlone_download (d₀ : Disk Bytes) {url : String} {expectedSize : Int} :
    Triple (fun w => LeftAlone (partPlace dir name) (placeOf dir name) d₀ w.disk)
      (download hub url (joined dir name) expectedSize)
      (fun _ w => LeftAlone (partPlace dir name) (placeOf dir name) d₀ w.disk ∧
        (partPlace dir name ≠ placeOf dir name → w.disk.file? (partPlace dir name) = none))
      fun w => LeftAlone (partPlace dir name) (placeOf dir name) d₀ w.disk := by
  refine download_spec (fun _ => leftAlone_makeDirs) (fun part hpart append bytes => ?_)
    (fun part hpart => ?_) (fun part hpart => ?_) fun w net hw => hw
  · exact leftAlone_openPart (lexical_part hpart)
  · exact leftAlone_unlink (lexical_part hpart)
  · exact leftAlone_replace (lexical_part hpart) rfl

theorem unlink_raise {α : Type} {P : Session → Prop} {Q : α → Session → Prop} {e : Stop} :
    Triple P (unlink path >>= fun _ => Prog.raise e) Q fun _ => True := by
  have hunlink : Preserves (fun _ => True) (unlink path) := Preserves.effect fun _ _ => trivial
  exact Triple.bind (hunlink.conseq (fun _ _ => trivial) (fun _ _ h => h) fun _ h => h)
    fun _ => Triple.raise fun _ _ => trivial

/-- So does the fetch of a file, which returns the digest of what is there then. -/
theorem fetchFile_spec :
    Triple (fun w => w.disk = d₀) (fetchFile H hub source (joined dir remote.path) remote)
      (fun actual w => LeftAlone (partPlace dir remote.path) (placeOf dir remote.path) d₀ w.disk ∧
        ∃ bytes, w.disk.read? (joined dir remote.path) = some bytes ∧
          (H.sha256 bytes).1 = actual)
      fun _ => True := by
  refine Triple.bind (M := fun _ w =>
    LeftAlone (partPlace dir remote.path) (placeOf dir remote.path) d₀ w.disk) ?_ fun _ => ?_
  · refine (leftAlone_download d₀).conseq (fun w hw => ?_) (fun _ _ h => h.1) fun _ _ => trivial
    exact hw ▸ LeftAlone.refl
  · refine Triple.bind (readBytes_spec fun _ _ => trivial) fun bytes => ?_
    dsimp only
    split_ifs
    · exact unlink_raise
    · exact unlink_raise
    · exact Triple.pure fun w hw => ⟨hw.1, bytes, hw.2, rfl⟩

/-! ## What was recorded -/

/-- What holds of the files after the first of them: each one that was recorded has its digest,
    and each one that is still to be kept has what the hub publishes. -/
structure Recorded (H : Hashes) (dir present : List String) (before rest : List RemoteFile)
    (files : List (String × String)) (disk : Disk Bytes) : Prop where
  keys : Dict.keys files = before.map (·.path)
  digests : ∀ item ∈ files, ∃ bytes, disk.read? (joined dir item.1) = some bytes ∧
    (H.sha256 bytes).1 = item.2
  kept : ∀ remote ∈ rest, remote.path ∈ present → ∃ bytes,
    disk.read? (joined dir remote.path) = some bytes ∧
      ∀ digest, remote.sha256 = some digest → (H.sha256 bytes).1 = digest

variable {plan : ModelPlan} {fetched : FetchedModel} {before rest : List RemoteFile}
  {files : List (String × String)}

theorem digestOf_spec
    (hkept : remote.path ∈ plan.present → ∃ bytes, d₀.read? (joined dir remote.path) = some bytes ∧
      ∀ digest, remote.sha256 = some digest → (H.sha256 bytes).1 = digest) :
    Triple (fun w => w.disk = d₀) (digestOf H hub plan (joined dir remote.path) remote)
      (fun actual w => LeftAlone (partPlace dir remote.path) (placeOf dir remote.path) d₀ w.disk ∧
        ∃ bytes, w.disk.read? (joined dir remote.path) = some bytes ∧
          (H.sha256 bytes).1 = actual)
      fun _ => True := by
  unfold digestOf
  split_ifs with hpresent
  · obtain ⟨bytes, hread, hdigest⟩ := hkept hpresent
    unfold keptDigest
    split
    · rename_i digest hsha
      exact Triple.pure fun w hw =>
        ⟨hw ▸ LeftAlone.refl, bytes, hw ▸ hread, hdigest digest hsha⟩
    · refine Triple.bind (readBytes_spec fun _ _ => trivial) fun found => ?_
      exact Triple.pure fun w hw => ⟨hw.1 ▸ LeftAlone.refl, found, hw.2, rfl⟩
  · exact fetchFile_spec

/-- One file more. -/
theorem Recorded.snoc {actual : String} {disk : Disk Bytes}
    (h : Recorded H dir plan.present before (remote :: rest) files d₀)
    (hreadable : Readable dir ((before ++ remote :: rest).map (·.path)))
    (hleft : LeftAlone (partPlace dir remote.path) (placeOf dir remote.path) d₀ disk)
    (hactual : ∃ bytes, disk.read? (joined dir remote.path) = some bytes ∧
      (H.sha256 bytes).1 = actual) :
    Recorded H dir plan.present (before ++ [remote]) rest
      (Dict.set remote.path actual files) disk := by
  have hother : ∀ other ∈ before ++ rest, placeOf dir other.path ≠ placeOf dir remote.path := by
    have hplaces := hreadable.places
    simp only [List.map_append, List.map_cons, List.nodup_middle] at hplaces
    intro other hin heq
    refine (List.nodup_cons.mp hplaces).1 (heq ▸ ?_)
    rw [← List.map_append, ← List.map_append]
    exact List.mem_map_of_mem (List.mem_map_of_mem hin)
  have hpart : ∀ other ∈ before ++ rest, placeOf dir other.path ≠ partPlace dir remote.path := by
    intro other hin heq
    refine hreadable.parts other.path ?_ remote.path ?_ heq.symm
    · refine List.mem_map_of_mem ?_
      rcases List.mem_append.mp hin with hin | hin
      · exact List.mem_append_left _ hin
      · exact List.mem_append_right _ (List.mem_cons_of_mem _ hin)
    · exact List.mem_map_of_mem (List.mem_append_right _ List.mem_cons_self)
  have hnew : remote.path ∉ Dict.keys files := by
    rw [h.keys]
    intro hmem
    obtain ⟨other, hin, heq⟩ := List.mem_map.mp hmem
    exact hother other (List.mem_append_left _ hin) (by rw [heq])
  constructor
  · rw [Dict.set_of_not_mem hnew]
    simp only [Dict.keys, List.map_append, List.map_cons, List.map_nil]
    rw [← h.keys]
    rfl
  · intro item hitem
    rw [Dict.set_of_not_mem hnew] at hitem
    rcases List.mem_append.mp hitem with hitem | hitem
    · obtain ⟨bytes, hread, hdigest⟩ := h.digests item hitem
      have hkey : item.1 ∈ before.map (·.path) := h.keys ▸ List.mem_map_of_mem hitem
      obtain ⟨other, hin, heq⟩ := List.mem_map.mp hkey
      rw [← heq] at hread ⊢
      exact ⟨bytes, hleft.read? (hpart other (List.mem_append_left _ hin))
        (hother other (List.mem_append_left _ hin)) hread, hdigest⟩
    · obtain rfl := List.mem_singleton.mp hitem
      exact hactual
  · intro other hin hpresent
    obtain ⟨bytes, hread, hdigest⟩ := h.kept other (List.mem_cons_of_mem _ hin) hpresent
    exact ⟨bytes, hleft.read? (hpart other (List.mem_append_right _ hin))
      (hother other (List.mem_append_right _ hin)) hread, hdigest⟩

/-- The files one after the other. -/
theorem fetchFiles_spec (before : List RemoteFile)
    (hreadable : Readable dir ((before ++ rest).map (·.path))) :
    Triple (fun w => Recorded H dir plan.present before rest fetched.files w.disk)
      (fetchFiles H hub plan dir rest fetched)
      (fun fetched' w =>
        Recorded H dir plan.present (before ++ rest) [] fetched'.files w.disk)
      fun _ => True := by
  induction rest generalizing before fetched with
  | nil =>
    refine Triple.pure fun w hw => ?_
    rwa [List.append_nil]
  | cons remote rest ih =>
    refine Triple.bind (M := fun _ w =>
      Recorded H dir plan.present before (remote :: rest) fetched.files w.disk)
      (Triple.quiet fun w hw => hw) fun cancel => ?_
    split_ifs
    · exact Triple.raise fun _ _ => trivial
    · have hsplit : before ++ remote :: rest = (before ++ [remote]) ++ rest := by simp
      refine Triple.bind (M := fun actual w => Recorded H dir plan.present (before ++ [remote]) rest
        (Dict.set remote.path actual fetched.files) w.disk) ?_ fun actual => ?_
      · refine Triple.of_forall fun w₀ hw₀ => ?_
        refine (digestOf_spec (hw₀.kept remote List.mem_cons_self)).conseq
          (fun w hw => congrArg Session.disk hw) (fun actual w hw => ?_) fun _ _ => trivial
        exact hw₀.snoc hreadable hw.1 hw.2
      · refine Triple.bind (preserves_statSize.weaken fun _ _ => trivial) fun size => ?_
        rw [hsplit] at hreadable ⊢
        have hrest : ∀ next : FetchedModel, Triple
            (fun w => Recorded H dir plan.present (before ++ [remote]) rest next.files w.disk)
            (fetchFiles H hub plan dir rest next)
            (fun fetched' w =>
              Recorded H dir plan.present (before ++ [remote] ++ rest) [] fetched'.files w.disk)
            fun _ => True := fun next => ih _ hreadable
        exact hrest { fetched with
          files := Dict.set remote.path actual fetched.files
          sizes := Dict.set remote.path size fetched.sizes
          bytes := fetched.bytes + size }

theorem lexical_beside {last : String} (h : last ≠ "..") :
    lexical (dir ++ [last]) = lexical dir ++ [last] := by
  rw [lexical_concat, up_of_ne h]

/-- The checksums beside the files, which are left alone. -/
theorem writeSums_spec (files : List (String × String)) :
    Triple (fun w => w.disk = d₀) (writeSums dir files)
      (fun _ w => LeftAlone (tmpPlace dir) (sumsPlace dir) d₀ w.disk ∧
        w.disk.read? (dir ++ [SHA256SUMS]) = some (sumsText files).toUTF8.data.toList)
      fun _ => True := by
  have htmp : lexical (dir ++ [SHA256SUMS ++ ".tmp"]) = tmpPlace dir := lexical_beside (by decide)
  have hsums : lexical (dir ++ [SHA256SUMS]) = sumsPlace dir := lexical_beside (by decide)
  have hne : sumsPlace dir ≠ tmpPlace dir := fun heq => by
    have hlast := List.append_cancel_left heq
    revert hlast
    decide
  refine Triple.bind (M := fun _ w => LeftAlone (tmpPlace dir) (sumsPlace dir) d₀ w.disk ∧
    w.disk.file? (tmpPlace dir) = some (sumsText files).toUTF8.data.toList) ?_ fun _ => ?_
  · refine Triple.bind (M := fun opened w => opened = true →
      LeftAlone (tmpPlace dir) (sumsPlace dir) d₀ w.disk ∧
        w.disk.file? (tmpPlace dir) = some (sumsText files).toUTF8.data.toList) ?_ fun opened => ?_
    · refine Triple.effect (fun _ _ => trivial) (fun w a w' hw heq hopened => ?_) fun _ _ _ _ _ =>
        trivial
      subst hopened
      split at heq
      · rename_i p hp
        obtain ⟨-, rfl⟩ := Prod.mk.inj heq
        have hplace : p = tmpPlace dir := (filePlace_spec hp).2.1.trans htmp
        subst hplace
        constructor
        · exact ⟨fun t htmp' _ => hw ▸ file?_write_of_ne htmp', fun t ht => hw ▸ ht⟩
        · show (w.disk.write _ _).file? _ = _
          rw [file?_write (filePlace_spec hp).2.2.1, if_pos rfl]
          rfl
      · cases (Prod.mk.inj heq).1
    · split_ifs with hopened
      · exact Triple.pure fun w hw => hw hopened
      · exact Triple.raise fun _ _ => trivial
  · refine Triple.effect (fun _ _ => trivial) (fun w a w' hw heq => ?_) fun _ _ _ _ _ => trivial
    split at heq
    · rename_i p q hp hq
      have hplace : p = tmpPlace dir := (filePlace_spec hp).2.1.trans htmp
      have hplace' : q = sumsPlace dir := (filePlace_spec hq).2.1.trans hsums
      subst hplace hplace'
      rw [hw.2] at heq
      obtain ⟨-, rfl⟩ := Prod.mk.inj heq
      obtain ⟨hlast, -, hfile, husable, hpassed⟩ := filePlace_spec hq
      constructor
      · refine ⟨fun t htmp' hsums' => ?_, fun t ht => isDir_move.trans (hw.1.dirs t ht)⟩
        show (w.disk.move _ _ _).file? t = _
        rw [file?_move hfile, if_neg hsums', if_neg htmp', hw.1.files t htmp' hsums']
      · refine read?_eq_some.mpr ⟨filePlace_eq_some hlast husable ?_ hpassed, ?_⟩
        · rw [hsums]
          exact hfile
        · rw [hsums, file?_move hfile, if_pos rfl]
    · cases (Prod.mk.inj heq).1

/-! ## What the check finds -/

theorem filter_eq_singleton {l : List String} {a : String} (hnodup : l.Nodup) (ha : a ∈ l) :
    (l.filter fun b => b = a) = [a] := by
  have hlast : (l.filter fun b => b = a) = List.replicate (l.count a) a := by
    rw [← List.filter_beq]
    exact List.filter_congr fun b _ => (beq_eq_decide b a).symm
  rw [hlast, List.count_eq_one_of_mem hnodup ha]
  rfl

theorem mem_withSums {dest : Place} {model : String} {disk : Disk Bytes} :
    model ∈ withSums disk dest ↔ (∃ p ∈ disk.dirs, (p.dropLast = dest ∧ p ≠ []) ∧ nameOf p = model) ∧
      (disk.isDir (dest ++ [model, SHA256SUMS]) = true ∨
        (disk.file? (dest ++ [model, SHA256SUMS])).isSome) := by
  unfold withSums
  rw [List.mem_mergeSort]
  simp only [List.mem_filter, List.mem_dedup, List.mem_map, decide_eq_true_eq, Bool.or_eq_true]
  simp only [and_assoc]

theorem nodup_withSums {dest : Place} {disk : Disk Bytes} : (withSums disk dest).Nodup :=
  (List.mergeSort_perm _ _).nodup_iff.mpr ((List.nodup_dedup _).filter _)

/-- A model with its checksums is looked at, and nothing else is asked for. -/
theorem verify_eq {dest : Place} {model : String} {disk : Disk Bytes}
    (h : model ∈ withSums disk dest) :
    verify H disk dest [model] = checkModel H disk dest model := by
  have hmissing : ([model].dedup.filter fun name => name ∉ withSums disk dest) = [] := by
    simp [h]
  have hfound : ((withSums disk dest).filter fun m => [model] = [] ∨ m ∈ [model]) = [model] := by
    simp only [List.cons_ne_nil, false_or, List.mem_singleton]
    exact filter_eq_singleton nodup_withSums h
  unfold verify
  simp only [hmissing, hfound, List.mapM_cons, List.mapM_nil, List.mergeSort_nil, List.map_nil]
  cases checkModel H disk dest model with
  | error e => rfl
  | ok problems => simp [Bind.bind, Except.bind, Pure.pure, Except.pure]

/-- Checksums that are there, and of which each line is right. -/
theorem agrees_of_read {dest : ModelsDir} {model : String} {disk : Disk Bytes}
    {bytes : Bytes} {text : List Char} (hname : model ≠ "..")
    (hread : disk.read? (dest.place ++ [model] ++ [SHA256SUMS]) = some bytes)
    (htext : readText bytes = some text) (hperm : (readSums text).Perm files)
    (hfiles : ∀ item ∈ files, ∃ bytes,
      disk.read? (joined (dest.place ++ [model]) item.1) = some bytes ∧
        (H.sha256 bytes).1 = item.2) :
    Agrees H disk dest.place model files := by
  refine ⟨?_, bytes, text, hread, htext, hperm⟩
  have hplain : lexical (dest.place ++ [model]) = dest.place ++ [model] := by
    rw [lexical_concat, up_of_ne hname, lexical_of_plain dest.plain]
  have hlist : dest.place ++ [model] ++ [SHA256SUMS] = dest.place ++ [model, SHA256SUMS] := by simp
  obtain ⟨hplace, hfile⟩ := read?_eq_some.mp hread
  obtain ⟨-, -, -, -, hpassed⟩ := filePlace_spec hplace
  have hdir : disk.isDir (dest.place ++ [model]) = true := by
    rw [List.dropLast_concat] at hpassed
    exact hplain ▸ hpassed _ lexical_mem_passed
  have hmem : dest.place ++ [model] ∈ disk.dirs := (isDir_iff.mp hdir).resolve_left (by simp)
  have hmodel : model ∈ withSums disk dest.place := by
    refine mem_withSums.mpr ⟨⟨_, hmem, ⟨by simp, by simp⟩, by simp [nameOf]⟩, Or.inr ?_⟩
    rw [lexical_beside (by decide), hplain] at hfile
    rw [← hlist, hfile]
    rfl
  rw [verify_eq hmodel]
  unfold checkModel
  rw [← hlist, hread, Option.bind_some, htext]
  refine congrArg Except.ok (List.filterMap_eq_nil_iff.mpr fun item hitem => ?_)
  obtain ⟨found, hfound, hdigest⟩ := hfiles item (hperm.mem_iff.mp hitem)
  unfold checkFile
  rw [hfound]
  exact if_pos hdigest

/-! ## Fetch, then verify -/

theorem isComplete_spec {disk : Disk Bytes} (h : isComplete H disk target remote = true) :
    ∃ bytes, disk.read? target = some bytes ∧
      ∀ digest, remote.sha256 = some digest → (H.sha256 bytes).1 = digest := by
  unfold isComplete at h
  split at h
  · cases h
  · rename_i bytes hread
    refine ⟨bytes, hread, fun digest hdigest => ?_⟩
    rw [hdigest] at h
    simpa using h

/-- What a survey calls present is complete. -/
theorem survey_present {disk : Disk Bytes} {files : List RemoteFile} {plan plan' : ModelPlan}
    (h : survey H disk dir files plan = .ok plan') (hname : name ∈ plan'.present) :
    name ∈ plan.present ∨ ∃ remote ∈ files, remote.path = name ∧
      isComplete H disk (joined dir remote.path) remote = true := by
  induction files generalizing plan with
  | nil =>
    cases h
    exact Or.inl hname
  | cons remote files ih =>
    have hlater : ∀ plan : ModelPlan, survey H disk dir files plan = .ok plan' →
        name ∈ plan.present ∨ ∃ other ∈ remote :: files, other.path = name ∧
          isComplete H disk (joined dir other.path) other = true := fun plan h =>
      (ih h).imp id fun ⟨other, hin, hother⟩ => ⟨other, List.mem_cons_of_mem _ hin, hother⟩
    rw [survey] at h
    split_ifs at h with hcomplete
    · rcases hlater _ h with hthere | hthere
      · rcases List.mem_append.mp hthere with hthere | hthere
        · exact Or.inl hthere
        · exact Or.inr ⟨remote, List.mem_cons_self, (List.mem_singleton.mp hthere).symm, hcomplete⟩
      · exact Or.inr hthere
    · split at h
      · cases h
      · split at h
        · split_ifs at h
          · have hrest := hlater _ h
            exact hrest
          · exact hlater _ h
        · exact hlater _ h

/-- Whatever the hub answers: a fetch that returns agrees with the check after it. -/
theorem agrees_of_readable (hub : Hub) {dest : ModelsDir} {include_ exclude : List String}
    {listed : Listed}
    (hreadable : Readable (dest.place ++ [source.path])
      ((listed.chosen include_ exclude).map (·.path))) :
    Triple (fun _ => True) (fetchModel H hub source dest.place include_ exclude listed)
      (fun fetched w => Agrees H w.disk dest.place source.path fetched.files) fun _ => True := by
  refine Triple.bind planModel_spec fun plan => Triple.of_forall fun w₀ hw₀ => ?_
  obtain ⟨-, hchosen, hsurvey⟩ := hw₀
  obtain ⟨hsource, -, hfiles⟩ := survey_spec hsurvey
  have hsource : plan.source = source := hsource
  have hfiles : plan.files = listed.chosen include_ exclude := hfiles
  set dir := dest.place ++ [source.path] with hdir
  have hnames : (plan.files.map (·.path)).Nodup := by
    rw [hfiles]
    exact hreadable.places.of_map _
  -- before the first file, what is present is complete
  have hbegin : Recorded H dir plan.present [] plan.files [] w₀.disk := by
    refine ⟨rfl, fun _ h => absurd h List.not_mem_nil, fun remote hremote hpresent => ?_⟩
    rcases survey_present hsurvey hpresent with h | ⟨other, hother, hsame, hcomplete⟩
    · cases h
    · rw [← hfiles] at hother
      obtain rfl := List.inj_on_of_nodup_map hnames hother hremote hsame
      exact isComplete_spec hcomplete
  unfold fetchPlanned
  rw [hsource, ← hdir]
  rw [← hfiles] at hreadable
  refine Triple.bind ((fetchFiles_spec [] hreadable).conseq
    (fun w hw => hw ▸ hbegin) (fun _ _ h => h) fun _ h => h) fun fetched => ?_
  refine Triple.of_forall fun w₁ hw₁ => ?_
  rw [List.nil_append] at hw₁
  refine Triple.bind ((writeSums_spec fetched.files).conseq
    (fun w hw => congrArg Session.disk hw) (fun _ _ h => h) fun _ h => h) fun _ =>
    Triple.pure fun w hw => ?_
  obtain ⟨hleft, hread⟩ := hw
  have hkeys : Dict.keys fetched.files = plan.files.map (·.path) := hw₁.keys
  have hmem : ∀ item ∈ fetched.files, item.1 ∈ plan.files.map (·.path) := fun item hitem =>
    hkeys ▸ List.mem_map_of_mem hitem
  have hlines : ∀ item ∈ fetched.files, IsLine item := by
    intro item hitem
    obtain ⟨bytes, -, hdigest⟩ := hw₁.digests item hitem
    exact ⟨hdigest ▸ isDigest_sha256 H bytes, hreadable.unbroken _ (hmem item hitem)⟩
  have hne : fetched.files ≠ [] := by
    intro hnil
    rw [hnil, hfiles] at hkeys
    exact hchosen (List.map_eq_nil_iff.mp hkeys.symm)
  refine agrees_of_read source.directory.2.1 hread (readText_sumsText hlines) ?_ ?_
  · rw [readSums_sumsText hlines hne (hkeys ▸ hnames)]
    exact sortedFiles_perm
  · intro item hitem
    obtain ⟨bytes, hfile, hdigest⟩ := hw₁.digests item hitem
    obtain ⟨hsums, htmp⟩ := hreadable.free _ (hmem item hitem)
    exact ⟨bytes, hleft.read? htmp hsums hfile, hdigest⟩

end Fetch

end Slas
