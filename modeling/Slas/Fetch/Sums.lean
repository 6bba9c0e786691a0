/-
  Slas.Fetch.Sums

  `SHA256SUMS` as text: one line for each file, a digest and a name.  What was recorded is read
  back exactly when no name has a line boundary.
-/

import Slas.Fetch.Fetcher

namespace Slas

namespace Fetch

open Lines (Unbroken)

/-- The files in the order of their names, as they are written. -/
def sortedFiles (files : List (String × String)) : List (String × String) :=
  files.mergeSort fun a b => a.1 ≤ b.1

/-- The line of a file, without its boundary. -/
def lineOf (item : String × String) : List Char := item.2.toList ++ ' ' :: ' ' :: item.1.toList

/-- A digest in hexadecimal. -/
def IsDigest (s : String) : Prop := s ≠ "" ∧ ∀ c ∈ s.toList, isHexDigit c = true

variable {files : List (String × String)} {item : String × String} {c : Char}
  {cs digest name : List Char}

theorem isDigest_sha256 (H : Hashes) (bytes : Bytes) : IsDigest (H.sha256 bytes).1 := by
  obtain ⟨hlength, hhex⟩ := (H.sha256 bytes).2
  refine ⟨fun hempty => ?_, List.all_eq_true.mp hhex⟩
  rw [hempty] at hlength
  cases hlength

theorem isHexDigit_plain (h : isHexDigit c = true) :
    Lines.isSpace c = false := by
  have hbounds : 48 ≤ c.toNat ∧ c.toNat ≤ 102 := by
    simp only [isHexDigit, Bool.or_eq_true, Bool.and_eq_true, decide_eq_true_eq, Char.isDigit,
      Char.le_def, UInt32.le_iff_toNat_le] at h
    have ha : 'a'.val.toNat = 97 := rfl
    have hf : 'f'.val.toNat = 102 := rfl
    have hc : c.toNat = c.val.toNat := rfl
    rcases h with h | h
    · have h1 : 48 ≤ c.val.toNat := h.1
      have h2 : c.val.toNat ≤ 57 := h.2
      omega
    · omega
  simp only [Lines.isSpace, Bool.or_eq_false_iff, Bool.and_eq_false_iff, decide_eq_false_iff_not]
  omega

theorem toList_sumsLine (item : String × String) : (sumsLine item).toList = lineOf item := by
  simp [sumsLine, lineOf]

theorem partitionTwo_append (h : ∀ c ∈ digest, c ≠ ' ') :
    partitionTwo (digest ++ ' ' :: ' ' :: name) = (digest, name) := by
  induction digest with
  | nil => rfl
  | cons c digest ih =>
    have hc : c ≠ ' ' := h c List.mem_cons_self
    rw [List.cons_append, partitionTwo, ih fun d hd => h d (List.mem_cons_of_mem _ hd)]
    intro cs hspace
    exact absurd hspace hc

/-- The name of a line has its characters. -/
theorem mem_partitionTwo (h : c ∈ (partitionTwo cs).2) : c ∈ cs := by
  induction cs using partitionTwo.induct with
  | case1 => cases h
  | case2 cs => exact List.mem_cons_of_mem _ (List.mem_cons_of_mem _ h)
  | case3 d cs hnot ih =>
    rw [partitionTwo] at h
    · exact List.mem_cons_of_mem _ (ih h)
    · exact hnot

theorem mem_foldl_set {K V L : Type} [DecidableEq K] {f : L → K × V} {lines : List L}
    {d : List (K × V)} {item : K × V}
    (h : item ∈ lines.foldl (fun d line => Dict.set (f line).1 (f line).2 d) d) :
    item ∈ d ∨ ∃ line ∈ lines, item = f line := by
  induction lines generalizing d with
  | nil => exact Or.inl h
  | cons line lines ih =>
    rw [List.foldl_cons] at h
    rcases ih h with h | ⟨other, hother, rfl⟩
    · rcases Dict.mem_set h with rfl | h
      · exact Or.inr ⟨line, List.mem_cons_self, rfl⟩
      · exact Or.inl h
    · exact Or.inr ⟨other, List.mem_cons_of_mem _ hother, rfl⟩

/-- Every name that is read is unbroken. -/
theorem unbroken_of_readSums {text : List Char} (h : item ∈ readSums text) :
    Unbroken item.1.toList := by
  rcases mem_foldl_set (f := fun line =>
    (String.ofList (partitionTwo line).2, String.ofList (partitionTwo line).1)) h with h | h
  · cases h
  · obtain ⟨line, hline, rfl⟩ := h
    intro c hc
    simp only [String.toList_ofList] at hc
    exact (Lines.mem_line text line (List.mem_filter.mp hline).1).1 c (mem_partitionTwo hc)

theorem toList_sumsText : (sumsText files).toList =
    ['\n'].intercalate ((sortedFiles files).map lineOf) ++ ['\n'] := by
  have hlines : ((sortedFiles files).map sumsLine).map String.toList =
      (sortedFiles files).map lineOf := by
    rw [List.map_map]
    exact List.map_congr_left fun item _ => toList_sumsLine item
  rw [sumsText, String.toList_append, String.toList_intercalate, ← hlines]
  rfl

theorem mem_sortedFiles : item ∈ sortedFiles files ↔ item ∈ files :=
  (List.mergeSort_perm _ _).mem_iff

theorem sortedFiles_perm : (sortedFiles files).Perm files := List.mergeSort_perm _ _

/-- What is recorded of a file: its digest, and a name that is one line. -/
def IsLine (item : String × String) : Prop := IsDigest item.2 ∧ Unbroken item.1.toList

theorem IsLine.unbroken (h : IsLine item) : Unbroken (lineOf item) := by
  intro c hc
  rcases List.mem_append.mp hc with hc | hc
  · refine Bool.eq_false_iff.mpr fun hbreak => ?_
    have hspace := Lines.isSpace_of_isLineBreak hbreak
    rw [isHexDigit_plain (h.1.2 c hc)] at hspace
    cases hspace
  · simp only [List.mem_cons] at hc
    rcases hc with rfl | rfl | hc
    · decide
    · decide
    · exact h.2 c hc

theorem IsLine.not_blank (h : IsLine item) : Lines.isBlank (lineOf item) = false := by
  obtain ⟨c, hc⟩ := List.exists_mem_of_ne_nil _ fun hnil =>
    h.1.1 (String.toList_eq_nil_iff.mp hnil)
  refine Bool.eq_false_iff.mpr fun hblank => ?_
  have hspace := List.all_eq_true.mp hblank c (List.mem_append_left _ hc)
  rw [isHexDigit_plain (h.1.2 c hc)] at hspace
  cases hspace

/-- The lines of the text are those of the files. -/
theorem splitlines_sumsText (h : ∀ item ∈ files, IsLine item) (hne : files ≠ []) :
    Lines.splitlines (sumsText files).toList = (sortedFiles files).map lineOf := by
  have hsorted : (sortedFiles files).map lineOf ≠ [] := by
    intro hnil
    have hempty := List.map_eq_nil_iff.mp hnil
    have hperm : (sortedFiles files).Perm files := sortedFiles_perm
    exact hne (List.Perm.nil_eq (hempty ▸ hperm)).symm
  rw [toList_sumsText, Text.intercalate_append hsorted, Text.splitlines_flatMap]
  intro line hline
  obtain ⟨item, hitem, rfl⟩ := List.mem_map.mp hline
  exact (h item (mem_sortedFiles.mp hitem)).unbroken

/-- **Read back**: the checksums of files with names of one line. -/
theorem readSums_sumsText (h : ∀ item ∈ files, IsLine item) (hne : files ≠ [])
    (hkeys : (Dict.keys files).Nodup) :
    readSums (sumsText files).toList = sortedFiles files := by
  have hparse : ∀ item ∈ sortedFiles files, partitionTwo (lineOf item) =
      (item.2.toList, item.1.toList) := by
    intro item hitem
    refine partitionTwo_append fun c hc => ?_
    rintro rfl
    have hspace := isHexDigit_plain ((h item (mem_sortedFiles.mp hitem)).1.2 _ hc)
    cases hspace
  have hfilter : ((sortedFiles files).map lineOf).filter (fun line => !Lines.isBlank line) =
      (sortedFiles files).map lineOf := by
    refine List.filter_eq_self.mpr fun line hline => ?_
    obtain ⟨item, hitem, rfl⟩ := List.mem_map.mp hline
    rw [(h item (mem_sortedFiles.mp hitem)).not_blank]
    rfl
  have hnodup : (Dict.keys ([] ++ sortedFiles files)).Nodup :=
    (sortedFiles_perm.map _).nodup_iff.mpr hkeys
  have hfold : ∀ d, (sortedFiles files).foldl (fun sums item =>
      Dict.set (String.ofList (partitionTwo (lineOf item)).2)
        (String.ofList (partitionTwo (lineOf item)).1) sums) d =
      (sortedFiles files).foldl (fun sums item => Dict.set item.1 item.2 sums) d := by
    intro d
    refine List.foldl_ext _ _ d fun sums item hitem => ?_
    rw [hparse item hitem]
    simp only [String.ofList_toList]
  unfold readSums
  rw [splitlines_sumsText h hne, hfilter, List.foldl_map]
  exact (hfold []).trans (Dict.foldl_set_of_nodup hnodup)

theorem not_mem_sumsText (h : ∀ item ∈ files, IsLine item) : '\r' ∉ (sumsText files).toList := by
  rw [toList_sumsText]
  intro hmem
  rcases List.mem_append.mp hmem with hmem | hmem
  · rcases Text.mem_intercalate hmem with hmem | ⟨line, hline, hmem⟩
    · simp at hmem
    · obtain ⟨item, hitem, rfl⟩ := List.mem_map.mp hline
      have hplain := (h item (mem_sortedFiles.mp hitem)).unbroken _ hmem
      cases hplain
  · simp at hmem

theorem readText_utf8 (text : String) :
    readText text.toUTF8.data.toList = some (Lines.universalNewlines text.toList) := by
  have hbytes : (⟨text.toUTF8.data.toList.toArray⟩ : ByteArray) = text.toUTF8 := by simp
  have hvalid : text.toUTF8.IsValidUTF8 := text.isValidUTF8
  unfold readText String.fromUTF8?
  rw [hbytes, dif_pos hvalid]
  rfl

/-- The same from the bytes of the file. -/
theorem readText_sumsText (h : ∀ item ∈ files, IsLine item) :
    readText (sumsText files).toUTF8.data.toList = some (sumsText files).toList := by
  rw [readText_utf8, Lines.universalNewlines_of_not_mem (not_mem_sumsText h)]

end Fetch

end Slas
