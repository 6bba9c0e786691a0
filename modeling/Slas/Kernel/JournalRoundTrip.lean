/-
  Slas.Kernel.JournalRoundTrip

  What survives on the journal file: `append` after `append` reads back as
  exactly what was appended when every text is free of the wide line
  boundaries, and a file with the torn beginning of one more entry reads back
  as its whole entries only when that beginning is empty.
-/

import Slas.Kernel.JournalFile

namespace Slas

variable {F : EntryFormat}

/-! ## Append after append -/

/-- The entries the appends make, numbered on from `n`. -/
def numbered : Nat → List AppendArgs → List JournalEntry
  | _, [] => []
  | n, a :: as => a.entry n :: numbered (n + 1) as

/-- No text of the arguments holds U+0085, U+2028 or U+2029. -/
def AppendArgs.readable (a : AppendArgs) : Bool := (a.entry 0).readable

/-- The number of an entry is not one of its texts. -/
theorem readable_entry (a : AppendArgs) (n : Nat) : (a.entry n).readable = a.readable := rfl

theorem readable_numbered (n : Nat) (as : List AppendArgs) :
    (∀ e ∈ numbered n as, e.readable = true) ↔ ∀ a ∈ as, a.readable = true := by
  induction as generalizing n with
  | nil => simp [numbered]
  | cons a as ih => simp [numbered, readable_entry, ih]

/-- The entries are numbered one after another. -/
theorem seq_numbered (n : Nat) (as : List AppendArgs) :
    (numbered n as).map (·.seq) = List.range' (n + 1) as.length := by
  induction as generalizing n with
  | nil => rfl
  | cons a as ih => simp [numbered, ih, List.range'_succ, AppendArgs.entry]

theorem fileOf_concat (es : List JournalEntry) (e : JournalEntry) :
    fileOf F (es ++ [e]) = some ((fileOf F es).getD .empty ++ encodeUtf8 (encodeLine F e)) := by
  have hsome : fileOf F (es ++ [e]) = some (encodeUtf8 (textOf F (es ++ [e]))) := by
    simp [fileOf]
  rw [hsome, textOf_concat, encodeUtf8_eq, List.utf8Encode_append, ← encodeUtf8_eq,
    ← encodeUtf8_eq]
  cases es with
  | nil => simp [fileOf, textOf, encodeUtf8_eq]
  | cons x xs => simp [fileOf]

theorem append_fileOf (hF : F.Lawful) {es : List JournalEntry}
    (hes : ∀ e ∈ es, e.readable = true) (a : AppendArgs) :
    append F (fileOf F es) a = .ok (a.entry es.length,
      (fileOf F es).getD .empty ++ encodeUtf8 (encodeLine F (a.entry es.length))) := by
  simp only [append, (hF.entries_fileOf es).1 hes]
  rfl

theorem append_fileOf_error (hF : F.Lawful) {es : List JournalEntry}
    (hes : ¬ ∀ e ∈ es, e.readable = true) (a : AppendArgs) :
    ∃ err, append F (fileOf F es) a = .error err := by
  obtain ⟨err, herr⟩ := (hF.entries_fileOf es).2 hes
  refine ⟨err, ?_⟩
  simp only [append, herr]
  rfl

/-- What a run of appends that did not raise leaves behind. -/
theorem appendAll_fileOf_ok (hF : F.Lawful) (es : List JournalEntry) {new : List JournalEntry}
    {as : List AppendArgs} {file : Option ByteArray} (h : appendAll F (fileOf F es) as = .ok (new, file)) :
    new = numbered es.length as ∧ file = fileOf F (es ++ new) := by
  induction as generalizing es new file with
  | nil =>
    simp only [appendAll, Except.ok.injEq, Prod.mk.injEq] at h
    obtain ⟨rfl, rfl⟩ := h
    simp [numbered]
  | cons a as ih =>
    by_cases hes : ∀ e ∈ es, e.readable = true
    · simp only [appendAll, append_fileOf hF hes, bind, Except.bind, ← fileOf_concat] at h
      cases hrest : appendAll F (fileOf F (es ++ [a.entry es.length])) as with
      | error err => simp [hrest] at h
      | ok r =>
        obtain ⟨rest, file'⟩ := r
        simp only [hrest, pure, Except.pure, Except.ok.injEq, Prod.mk.injEq] at h
        obtain ⟨rfl, rfl⟩ := h
        obtain ⟨rfl, rfl⟩ := ih _ hrest
        simp [numbered]
    · obtain ⟨err, herr⟩ := append_fileOf_error hF hes a
      simp [appendAll, herr, bind, Except.bind] at h

/-- Readable appends do not raise. -/
theorem appendAll_fileOf (hF : F.Lawful) (es : List JournalEntry) {as : List AppendArgs}
    (hes : ∀ e ∈ es, e.readable = true) (has : ∀ a ∈ as, a.readable = true) :
    ∃ r, appendAll F (fileOf F es) as = .ok r := by
  induction as generalizing es with
  | nil => exact ⟨_, rfl⟩
  | cons a as ih =>
    have hes' : ∀ e ∈ es ++ [a.entry es.length], e.readable = true := by
      intro e he
      rcases List.mem_append.mp he with he | he
      · exact hes e he
      · rw [List.mem_singleton.mp he, readable_entry]
        exact has a (List.mem_cons_self ..)
    obtain ⟨r, hr⟩ := ih _ hes' (fun x hx => has x (List.mem_cons_of_mem _ hx))
    refine ⟨(a.entry es.length :: r.1, r.2), ?_⟩
    simp only [appendAll, append_fileOf hF hes, bind, Except.bind, ← fileOf_concat, hr]
    rfl

/-- The appends succeed and `entries` returns what they appended, in order and
    numbered from 1. -/
def RoundTrips (F : EntryFormat) (as : List AppendArgs) : Prop :=
  ∃ es file, appendAll F none as = .ok (es, file) ∧ entries F file = .ok es ∧
    es = numbered 0 as ∧ es.map (·.seq) = List.range' 1 as.length

theorem roundTrips_of_readable (hF : F.Lawful) {as : List AppendArgs}
    (has : ∀ a ∈ as, a.readable = true) : RoundTrips F as := by
  obtain ⟨⟨es, file⟩, hrun⟩ := appendAll_fileOf hF [] (by simp) has
  obtain ⟨rfl, rfl⟩ := appendAll_fileOf_ok hF [] hrun
  refine ⟨_, _, hrun, ?_, rfl, seq_numbered 0 as⟩
  rw [List.nil_append]
  exact (hF.entries_fileOf _).1 ((readable_numbered _ as).mpr has)

theorem readable_of_roundTrips (hF : F.Lawful) {as : List AppendArgs} (h : RoundTrips F as) :
    ∀ a ∈ as, a.readable = true := by
  obtain ⟨es, file, hrun, hread, -, -⟩ := h
  obtain ⟨rfl, rfl⟩ := appendAll_fileOf_ok hF [] hrun
  by_contra hbad
  rw [← readable_numbered 0 as] at hbad
  obtain ⟨err, herr⟩ := (hF.entries_fileOf _).2 hbad
  rw [List.nil_append] at hread
  exact absurd (hread.symm.trans herr) (by simp)

/-- **Journal round trip**: `entries` returns exactly the appended entries if
    and only if no appended text holds one of the three wide line boundaries. -/
theorem roundTrips_iff_readable (F : EntryFormat) (hF : F.Lawful) (as : List AppendArgs) :
    RoundTrips F as ↔ ∀ a ∈ as, a.readable = true :=
  ⟨readable_of_roundTrips hF, roundTrips_of_readable hF⟩

/-- The observation of a step whose command printed `stdout`. -/
def printed (stdout : String) : AppendArgs where
  kind := .observation
  ticketId := "T-null-0001"
  stepId := some "s1"
  payload := some [("exit_code", .num (.ofNat 0)), ("stdout", .str stdout)]
  at_ := 63951408000000000

theorem roundTrips_plain_output :
    (∀ a ∈ [printed "ok\n", printed "日本\r\n"], a.readable = true) ∧
      RoundTrips jsonFormat [printed "ok\n", printed "日本\r\n"] :=
  ⟨by decide, (roundTrips_iff_readable jsonFormat jsonFormat_lawful _).mpr (by decide)⟩

/-- One line separator in a command's output and the journal is unreadable. -/
theorem not_roundTrips_line_separator :
    jsonFormat.Lawful ∧ ¬ RoundTrips jsonFormat [printed "a\u2028b"] := by
  refine ⟨jsonFormat_lawful, fun h => ?_⟩
  have hread := readable_of_roundTrips jsonFormat_lawful h (printed "a\u2028b") (by simp)
  exact absurd hread (by decide)

/-! ## Torn appends -/

/-- What a decoded file with a torn tail holds: the whole entries and a part of
    the torn one. -/
theorem decode_torn {es : List JournalEntry} {e : JournalEntry} {tail rest : ByteArray}
    {text : Array Char} (htorn : tail ++ rest = encodeUtf8 (encodeLine F e))
    (hrest : rest ≠ .empty)
    (hdec : (encodeUtf8 (textOf F es) ++ tail).utf8Decode? = some text) :
    ∃ p q, text.toList = textOf F es ++ p ∧ p ++ q = F.modelDumpJson e ∧
      (p = [] → tail = .empty) := by
  have hbytes : text.toList.utf8Encode = (textOf F es).utf8Encode ++ tail := by
    have hsome : (encodeUtf8 (textOf F es) ++ tail).utf8Decode?.isSome := by simp [hdec]
    have henc := ByteArray.utf8Encode_get_utf8Decode? (h := hsome)
    have hget : (encodeUtf8 (textOf F es) ++ tail).utf8Decode?.get hsome = text := by
      simp only [hdec, Option.get_some]
    rwa [hget, encodeUtf8_eq] at henc
  obtain ⟨p, hp⟩ := List.isPrefix_of_utf8Encode_append_eq_utf8Encode tail hbytes.symm
  have htail : p.utf8Encode = tail := by
    rw [← hp, List.utf8Encode_append] at hbytes
    exact (ByteArray.append_right_inj _).mp hbytes
  rw [← htail, encodeUtf8_eq] at htorn
  obtain ⟨q, hq⟩ := List.isPrefix_of_utf8Encode_append_eq_utf8Encode rest htorn
  have hqne : q ≠ [] := by
    rintro rfl
    rw [List.append_nil] at hq
    rw [hq] at htorn
    have hcancel := htorn.trans ByteArray.append_empty.symm
    exact hrest ((ByteArray.append_right_inj _).mp hcancel)
  -- the byte that is missing for sure is the final newline
  obtain ⟨q', c, rfl⟩ := List.eq_nil_or_concat q |>.resolve_left hqne
  have hsplit : p ++ q' = F.modelDumpJson e := by
    have hline : (p ++ q') ++ [c] = F.modelDumpJson e ++ ['\n'] := by
      simpa [encodeLine] using hq
    exact (List.append_inj' hline rfl).1
  refine ⟨p, q', hp.symm, hsplit, ?_⟩
  rintro rfl
  simpa using htail.symm

/-- A torn beginning of an entry is never read as nothing. -/
theorem readLines_torn (hF : F.Lawful) {e : JournalEntry} {p q : List Char}
    (hpq : p ++ q = F.modelDumpJson e) (hp : p ≠ []) :
    readLines F (Lines.splitlines p) ≠ .ok [] := by
  rcases Lines.unbroken_or_first_break p with hun | ⟨p', c, q', rfl, hun, hc⟩
  · rw [Lines.splitlines_unbroken hun hp]
    by_cases hq : q = []
    · subst hq
      rw [List.append_nil] at hpq
      rw [hpq, hF.readLines_whole]
      simp [readLines, Except.map]
    · rw [hF.readLines_cut hpq hp hq]
      simp
  · obtain ⟨ls, hls⟩ := Lines.splitlines_break (q := q') hun hc
    rw [List.append_assoc, List.cons_append] at hpq
    rw [hls, hF.readLines_cut hpq (hF.prefix_ne_nil hpq.symm hc) (by simp)]
    simp

/-- The bytes of whole entries followed by a torn tail. -/
def tornFile (F : EntryFormat) (es : List JournalEntry) (tail : ByteArray) : ByteArray :=
  encodeUtf8 (textOf F es) ++ tail

theorem entries_tornFile (hF : F.Lawful) {es : List JournalEntry} {e : JournalEntry}
    {tail rest : ByteArray} (htorn : tail ++ rest = encodeUtf8 (encodeLine F e))
    (hrest : rest ≠ .empty) :
    entries F (some (tornFile F es tail)) = .ok es ↔
      tail = .empty ∧ ∀ e ∈ es, e.readable = true := by
  have hread : ∀ text : Array Char, (tornFile F es tail).utf8Decode? = some text →
      ∃ p q, p ++ q = F.modelDumpJson e ∧ (p = [] → tail = .empty) ∧
        entries F (some (tornFile F es tail)) =
          readLines F (Lines.splitlines (textOf F es ++ p)) := by
    intro text hdec
    obtain ⟨p, q, htext, hpq, hempty⟩ := decode_torn htorn hrest hdec
    have hcr : '\r' ∉ textOf F es ++ p := by
      intro h
      rcases List.mem_append.mp h with h | h
      · exact hF.not_mem_cr_textOf es h
      · have hmem : '\r' ∈ F.modelDumpJson e := hpq ▸ List.mem_append_left q h
        exact absurd (hF.toNat_of_mem hmem) (by decide)
    refine ⟨p, q, hpq, hempty, ?_⟩
    simp only [entries, hdec, readText, htext, Lines.universalNewlines_of_not_mem hcr]
  constructor
  · intro hok
    cases hdec : (tornFile F es tail).utf8Decode? with
    | none => simp [entries, hdec] at hok
    | some text =>
      obtain ⟨p, q, hpq, hempty, hlines⟩ := hread text hdec
      rw [hlines] at hok
      by_cases hes : ∀ e ∈ es, e.readable = true
      · refine ⟨?_, hes⟩
        by_contra htail
        have hp : p ≠ [] := fun h => htail (hempty h)
        have hbad := readLines_torn hF hpq hp
        rw [hF.readLines_textOf hes] at hok
        cases hr : readLines F (Lines.splitlines p) with
        | error err => simp [hr, Except.map] at hok
        | ok new =>
          simp only [hr, Except.map, Except.ok.injEq, List.append_right_eq_self] at hok
          exact hbad (hok ▸ hr)
      · obtain ⟨err, herr⟩ := hF.readLines_textOf_error hes p
        rw [herr] at hok
        cases hok
  · rintro ⟨rfl, hes⟩
    have hdec : (tornFile F es .empty).utf8Decode? = some (textOf F es).toArray := by
      simp [tornFile, encodeUtf8_eq]
    have hcr := hF.not_mem_cr_textOf es
    have hlines := hF.readLines_textOf hes []
    simp only [entries, hdec, readText, Lines.universalNewlines_of_not_mem hcr]
    simpa [Lines.splitlines, readLines, Except.map] using hlines

/-- The journal with that tail reads as its whole entries, and goes on from
    them: one more append reads as those entries and the new one. -/
def Recovers (F : EntryFormat) (es : List JournalEntry) (tail : ByteArray) (new : AppendArgs) :
    Prop :=
  entries F (some (tornFile F es tail)) = .ok es ∧
    ∃ file, append F (some (tornFile F es tail)) new = .ok (new.entry es.length, file) ∧
      entries F (some file) = .ok (es ++ [new.entry es.length])

theorem entries_tornFile_empty (hF : F.Lawful) (es : List JournalEntry) :
    entries F (some (tornFile F es .empty)) = .ok es ↔ ∀ e ∈ es, e.readable = true := by
  by_cases hnil : es = []
  · subst hnil
    simp [tornFile, textOf, encodeUtf8_eq, entries, readText, Lines.universalNewlines,
      Lines.splitlines, readLines]
  · have hfile : some (tornFile F es .empty) = fileOf F es := by
      simp [tornFile, fileOf, hnil]
    rw [hfile]
    constructor
    · intro hok
      by_contra hes
      obtain ⟨err, herr⟩ := (hF.entries_fileOf es).2 hes
      exact absurd (hok.symm.trans herr) (by simp)
    · exact (hF.entries_fileOf es).1

theorem recovers_untorn (hF : F.Lawful) {es : List JournalEntry} {new : AppendArgs} :
    Recovers F es .empty new ↔ (∀ e ∈ es, e.readable = true) ∧ new.readable = true := by
  have happend : (∀ e ∈ es, e.readable = true) → append F (some (tornFile F es .empty)) new =
      .ok (new.entry es.length, tornFile F (es ++ [new.entry es.length]) .empty) := by
    intro hes
    rw [append, (entries_tornFile_empty hF es).mpr hes]
    simp only [bind, Except.bind, pure, Except.pure, Option.getD_some, tornFile,
      ByteArray.append_empty, textOf_concat, encodeUtf8_eq, List.utf8Encode_append]
  have hconcat : (∀ e ∈ es ++ [new.entry es.length], e.readable = true) ↔
      (∀ e ∈ es, e.readable = true) ∧ new.readable = true := by
    simp [or_imp, forall_and, readable_entry]
  constructor
  · rintro ⟨hok, file, hfile, hnew⟩
    have hes := (entries_tornFile_empty hF es).mp hok
    rw [happend hes] at hfile
    obtain ⟨-, rfl⟩ := Prod.mk.inj (Except.ok.inj hfile)
    exact hconcat.mp ((entries_tornFile_empty hF _).mp hnew)
  · intro h
    exact ⟨(entries_tornFile_empty hF es).mpr h.1, _, happend h.1,
      (entries_tornFile_empty hF _).mpr (hconcat.mpr h)⟩

/-- **Torn append**: a journal whose last append was cut, at whatever byte,
    recovers if and only if nothing of it reached the disk and every other text
    is readable. -/
theorem recovers_torn_iff (F : EntryFormat) (hF : F.Lawful) (es : List JournalEntry)
    (e : JournalEntry) (tail rest : ByteArray)
    (htorn : tail ++ rest = encodeUtf8 (encodeLine F e)) (hrest : rest ≠ .empty)
    (new : AppendArgs) :
    Recovers F es tail new ↔
      tail = .empty ∧ (∀ e ∈ es, e.readable = true) ∧ new.readable = true := by
  constructor
  · intro h
    obtain ⟨rfl, -⟩ := (entries_tornFile hF htorn hrest).mp h.1
    exact ⟨rfl, (recovers_untorn hF).mp h⟩
  · rintro ⟨rfl, h⟩
    exact (recovers_untorn hF).mpr h

theorem recovers_when_nothing_was_written :
    Recovers jsonFormat [(printed "ok").entry 0] .empty (printed "next") := by
  let next := encodeUtf8 (encodeLine jsonFormat ((printed "lost").entry 1))
  have hne : next ≠ .empty := by
    simp [next, encodeUtf8_eq, encodeLine]
  exact (recovers_torn_iff jsonFormat jsonFormat_lawful _ ((printed "lost").entry 1) .empty next
    ByteArray.empty_append hne (printed "next")).mpr ⟨rfl, by decide, by decide⟩

/-- A process that died after the first byte of an append leaves a journal that
    cannot be read again. -/
theorem not_recovers_after_one_byte :
    ∃ tail rest, tail ++ rest = encodeUtf8 (encodeLine jsonFormat ((printed "lost").entry 1)) ∧
      rest ≠ .empty ∧ tail = encodeUtf8 ['{'] ∧
      ¬ Recovers jsonFormat [(printed "ok").entry 0] tail (printed "next") := by
  let line := encodeLine jsonFormat ((printed "lost").entry 1)
  have hline : encodeUtf8 ['{'] ++ encodeUtf8 line.tail = encodeUtf8 line := by
    simp only [encodeUtf8_eq, ← List.utf8Encode_append]
    rfl
  have hrest : encodeUtf8 line.tail ≠ .empty := by
    rw [encodeUtf8_eq, Ne, List.utf8Encode_eq_empty]
    simp [line, encodeLine, jsonFormat, Json.dump, JournalEntry.fields, Json.dumpFields]
  refine ⟨_, _, hline, hrest, rfl, fun h => ?_⟩
  have htail := ((entries_tornFile jsonFormat_lawful hline hrest).mp h.1).1
  rw [encodeUtf8_eq, List.utf8Encode_eq_empty] at htail
  cases htail

end Slas
