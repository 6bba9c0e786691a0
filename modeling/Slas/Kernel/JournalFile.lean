/-
  Slas.Kernel.JournalFile

  The write-ahead journal on disk (`slas_kernel.journal`): one JSON object a
  line in an append-only UTF-8 file, read back whole with `str.splitlines`.

  How pydantic writes and reads one entry is a parameter, `EntryFormat`; what
  the journal relies on is `EntryFormat.Lawful`, and `jsonFormat` is a concrete
  format that is lawful.  The file holds bytes, so that a torn append may be
  cut anywhere, also inside a character.

  An entry is *readable* when no text in it holds U+0085, U+2028 or U+2029:
  the three line boundaries of `splitlines` that JSON leaves unescaped.
  `entries_fileOf` is the fact the kernel's model rests on: a file of whole
  entries reads as those entries when all of them are readable, and not at all
  otherwise.
-/

import Slas.Lib.JsonText
import Slas.Lib.Lines
import Slas.Schemas.Ticket

namespace Slas

/-! ## The format of one entry -/

/-- The characters of every text of an entry. -/
def JournalEntry.chars (e : JournalEntry) : List Char :=
  e.ticketId.toList ++ (e.stepId.getD "").toList ++ (e.traceId.getD "").toList ++
    Json.charsFields e.payload

/-- A line boundary of `splitlines` above U+0020. -/
def isWideBreak (c : Char) : Bool := c = '\u0085' || c = '\u2028' || c = '\u2029'

def JournalEntry.readable (e : JournalEntry) : Bool := e.chars.all fun c => !isWideBreak c

/-- `JournalEntry.model_dump_json` and `JournalEntry.model_validate_json`. -/
structure EntryFormat where
  modelDumpJson : JournalEntry → List Char
  modelValidateJson : List Char → Option JournalEntry

/-- What the journal relies on: reading undoes writing, the text is one JSON
    object, no part of which is one, and escapes only what JSON must escape. -/
structure EntryFormat.Lawful (F : EntryFormat) : Prop where
  validate_dump : ∀ e, F.modelValidateJson (F.modelDumpJson e) = some e
  spells : ∀ e, Json.Spells (F.modelDumpJson e) e.chars
  brace : ∀ e, ∃ cs, F.modelDumpJson e = '{' :: cs
  cut : ∀ e p q, p ++ q = F.modelDumpJson e → q ≠ [] → F.modelValidateJson p = none

/-- `datetime` fields as RFC 3339 text. -/
def dateTimeCodec : Json.Codec DateTime where
  dump t := .str (String.ofList (DateTime.isoformat t))
  validate
    | .str s => DateTime.parseIso s.toList
    | _ => none
  validate_dump t := by simp [DateTime.parseIso_isoformat]

/-- A JSON object under a field, as it is. -/
def payloadCodec : Json.Codec (List (String × Json)) where
  dump := .obj
  validate
    | .obj kvs => some kvs
    | _ => none
  validate_dump _ := rfl

def JournalEntry.fields (e : JournalEntry) : List (String × Json) :=
  [("seq", Json.Codec.int.dump e.seq), ("at", dateTimeCodec.dump e.at_),
   ("ticket_id", Json.Codec.str.dump e.ticketId), ("kind", JournalKind.codec.dump e.kind),
   ("step_id", strOpt.dump e.stepId), ("payload", payloadCodec.dump e.payload),
   ("trace_id", strOpt.dump e.traceId)]

def JournalEntry.ofFields (kvs : List (String × Json)) : Option JournalEntry := do
  guard (Json.onlyKeys ["seq", "at", "ticket_id", "kind", "step_id", "payload", "trace_id"] kvs)
  let seq ← Json.fieldOr Json.Codec.int "seq" none kvs
  let at_ ← Json.fieldOr dateTimeCodec "at" none kvs
  let ticketId ← Json.fieldOr Json.Codec.str "ticket_id" none kvs
  let kind ← Json.fieldOr JournalKind.codec "kind" none kvs
  let stepId ← Json.fieldOr strOpt "step_id" (some none) kvs
  let payload ← Json.fieldOr payloadCodec "payload" (some []) kvs
  let traceId ← Json.fieldOr strOpt "trace_id" (some none) kvs
  if h : 1 ≤ seq.toNat then some ⟨seq.toNat, at_, ticketId, kind, stepId, payload, traceId, h⟩
  else none

theorem JournalEntry.ofFields_fields (e : JournalEntry) : ofFields e.fields = some e := by
  obtain ⟨seq, at_, ticketId, kind, stepId, payload, traceId, hseq⟩ := e
  simp [ofFields, fields, Json.onlyKeys, Json.fieldOr_tail, hseq]

/-- A format of JSON as pydantic writes it. -/
def jsonFormat : EntryFormat where
  modelDumpJson e := Json.dump (.obj e.fields)
  modelValidateJson cs :=
    match Json.loads cs with
    | some (.obj kvs) => JournalEntry.ofFields kvs
    | _ => none

theorem ascii_of_mem_kind (k : JournalKind) : ∀ c ∈ k.value.toList, Json.Ascii c := by
  cases k <;> simp [JournalKind.value, Json.Ascii]

theorem chars_strOpt (o : Option String) : Json.chars (strOpt.dump o) = (o.getD "").toList := by
  cases o <;> rfl

theorem chars_fields (e : JournalEntry) : Json.chars (.obj e.fields) =
    "seq".toList ++ ("at".toList ++ DateTime.isoformat e.at_) ++
      ("ticket_id".toList ++ e.ticketId.toList) ++ ("kind".toList ++ e.kind.value.toList) ++
      ("step_id".toList ++ (e.stepId.getD "").toList) ++
      ("payload".toList ++ Json.charsFields e.payload) ++
      ("trace_id".toList ++ (e.traceId.getD "").toList) := by
  simp [JournalEntry.fields, Json.chars, Json.charsFields, Json.charsField, chars_strOpt,
    Json.Codec.int, Json.Codec.str, dateTimeCodec, JournalKind.codec, Json.Codec.enum,
    payloadCodec]

theorem spells_fields (e : JournalEntry) : Json.Spells (Json.dump (.obj e.fields)) e.chars := by
  have hspells := Json.spells_dump (.obj e.fields)
  have hkeys : ∀ k ∈ ["seq", "at", "ticket_id", "kind", "step_id", "payload", "trace_id"],
      ∀ c ∈ k.toList, Json.Ascii c := by
    simp [Json.Ascii]
  constructor
  · -- the object's own texts are its keys, the time, the kind and those of the entry
    intro x hx
    rcases hspells.own x hx with hascii | ⟨hmem, hlow⟩
    · exact Or.inl hascii
    · rw [chars_fields] at hmem
      simp only [List.mem_append] at hmem
      simp only [JournalEntry.chars, List.mem_append]
      rcases hmem with (((((h | h | h) | h | h) | h | h) | h | h) | h | h) | h | h
      · exact Or.inl (hkeys "seq" (by simp) x h)
      · exact Or.inl (hkeys "at" (by simp) x h)
      · exact Or.inl (DateTime.isoformat_ascii e.at_ x h)
      · exact Or.inl (hkeys "ticket_id" (by simp) x h)
      · exact Or.inr ⟨Or.inl (Or.inl (Or.inl h)), hlow⟩
      · exact Or.inl (hkeys "kind" (by simp) x h)
      · exact Or.inl (ascii_of_mem_kind e.kind x h)
      · exact Or.inl (hkeys "step_id" (by simp) x h)
      · exact Or.inr ⟨Or.inl (Or.inl (Or.inr h)), hlow⟩
      · exact Or.inl (hkeys "payload" (by simp) x h)
      · exact Or.inr ⟨Or.inr h, hlow⟩
      · exact Or.inl (hkeys "trace_id" (by simp) x h)
      · exact Or.inr ⟨Or.inl (Or.inr h), hlow⟩
  · intro x hx hwide
    apply hspells.wide x _ hwide
    rw [chars_fields]
    simp only [List.mem_append]
    simp only [JournalEntry.chars, List.mem_append] at hx
    rcases hx with ((h | h) | h) | h <;> simp [h]

theorem jsonFormat_lawful : jsonFormat.Lawful where
  validate_dump e := by simp [jsonFormat, Json.loads_dump, JournalEntry.ofFields_fields]
  spells := spells_fields
  brace e := ⟨_, rfl⟩
  cut e p q hpq hq := by simp [jsonFormat, Json.loads_cut hpq hq]

/-! ## The file -/

/-- Why `Journal.entries` raises: `UnicodeDecodeError`, or the
    `ValidationError` of a line. -/
inductive JournalError where
  | unicodeDecode
  | validation (line : List Char)

/-- The loop of `Journal.entries`: blank lines are passed over. -/
def readLines (F : EntryFormat) : List (List Char) → Except JournalError (List JournalEntry)
  | [] => .ok []
  | line :: lines =>
    if Lines.isBlank line then readLines F lines
    else match F.modelValidateJson line with
      | none => .error (.validation line)
      | some e => (readLines F lines).map (e :: ·)

/-- The entries of a decoded text. -/
def readText (F : EntryFormat) (text : List Char) : Except JournalError (List JournalEntry) :=
  readLines F (Lines.splitlines (Lines.universalNewlines text))

/-- `Journal.entries`; `none` is a file that does not exist. -/
def entries (F : EntryFormat) : Option ByteArray → Except JournalError (List JournalEntry)
  | none => .ok []
  | some bytes =>
    match bytes.utf8Decode? with
    | none => .error .unicodeDecode
    | some text => readText F text.toList

/-- The arguments of `Journal.append`, with the time and the trace id it reads. -/
structure AppendArgs where
  kind : JournalKind
  ticketId : String
  payload : Option (List (String × Json)) := none
  stepId : Option String := none
  at_ : DateTime
  traceId : Option String := none

/-- The entry `append` makes after `n` entries. -/
def AppendArgs.entry (a : AppendArgs) (n : Nat) : JournalEntry where
  seq := n + 1
  at_ := a.at_
  ticketId := a.ticketId
  kind := a.kind
  stepId := a.stepId
  payload := a.payload.getD []
  traceId := a.traceId
  seq_pos := by omega

/-- The bytes of a text in UTF-8. -/
def encodeUtf8 (text : List Char) : ByteArray := (String.ofList text).toByteArray

theorem encodeUtf8_eq (text : List Char) : encodeUtf8 text = text.utf8Encode :=
  String.toByteArray_ofList

/-- One entry as it is written: its text and a newline. -/
def encodeLine (F : EntryFormat) (e : JournalEntry) : List Char := F.modelDumpJson e ++ ['\n']

/-- `Journal.append`: number the entry by reading the file, then write it at
    the end. -/
def append (F : EntryFormat) (file : Option ByteArray) (a : AppendArgs) :
    Except JournalError (JournalEntry × ByteArray) := do
  let es ← entries F file
  let entry := a.entry es.length
  return (entry, file.getD .empty ++ encodeUtf8 (encodeLine F entry))

/-- One `append` after another: the entries returned, and the file. -/
def appendAll (F : EntryFormat) :
    Option ByteArray → List AppendArgs → Except JournalError (List JournalEntry × Option ByteArray)
  | file, [] => .ok ([], file)
  | file, a :: as => do
    let (entry, file) ← append F file a
    let (rest, file) ← appendAll F (some file) as
    return (entry :: rest, file)

/-! ## Files of whole entries -/

section Whole

variable {F : EntryFormat}

def textOf (F : EntryFormat) (es : List JournalEntry) : List Char := es.flatMap (encodeLine F)

/-- The file the entries make; before the first there is none. -/
def fileOf (F : EntryFormat) (es : List JournalEntry) : Option ByteArray :=
  if es.isEmpty then none else some (encodeUtf8 (textOf F es))

@[simp] theorem textOf_cons (e : JournalEntry) (es : List JournalEntry) :
    textOf F (e :: es) = F.modelDumpJson e ++ '\n' :: textOf F es := by
  simp [textOf, encodeLine]

theorem textOf_concat (es : List JournalEntry) (e : JournalEntry) :
    textOf F (es ++ [e]) = textOf F es ++ encodeLine F e := by
  simp [textOf]

theorem isLineBreak_eq_isWideBreak {c : Char} (hc : 0x20 ≤ c.toNat) :
    Lines.isLineBreak c = isWideBreak c := by
  rw [Bool.eq_iff_iff, Lines.isLineBreak_of_le hc]
  simp [isWideBreak, or_assoc]

theorem isWideBreak_of_ascii {c : Char} (hc : Json.Ascii c) : isWideBreak c = false := by
  have hne : ∀ d : Char, 0x80 ≤ d.toNat → c ≠ d := by
    rintro d hd rfl
    exact absurd hc.2 (by omega)
  simp [isWideBreak, hne '\u0085' (by decide), hne '\u2028' (by decide), hne '\u2029' (by decide)]

theorem toNat_of_isWideBreak {c : Char} (hc : isWideBreak c = true) : 0x80 ≤ c.toNat := by
  simp only [isWideBreak, Bool.or_eq_true, decide_eq_true_eq] at hc
  rcases hc with (rfl | rfl) | rfl <;> decide

namespace EntryFormat.Lawful

variable (hF : F.Lawful)
include hF

theorem toNat_of_mem {e : JournalEntry} {c : Char} (hc : c ∈ F.modelDumpJson e) :
    0x20 ≤ c.toNat := by
  rcases (hF.spells e).own c hc with hascii | ⟨-, hlow⟩
  · exact hascii.1
  · exact hlow

/-- A readable entry is one line. -/
theorem unbroken {e : JournalEntry} (he : e.readable = true) :
    Lines.Unbroken (F.modelDumpJson e) := by
  intro c hc
  rw [isLineBreak_eq_isWideBreak (hF.toNat_of_mem hc)]
  rcases (hF.spells e).own c hc with hascii | ⟨hmem, -⟩
  · exact isWideBreak_of_ascii hascii
  · simpa using List.all_eq_true.mp he c hmem

/-- An unreadable entry is cut by its first wide boundary. -/
theorem broken {e : JournalEntry} (he : e.readable = false) :
    ∃ p c q, F.modelDumpJson e = p ++ c :: q ∧ Lines.Unbroken p ∧ Lines.isLineBreak c = true := by
  rcases Lines.unbroken_or_first_break (F.modelDumpJson e) with hun | hbreak
  · exfalso
    obtain ⟨c, hmem, hc⟩ : ∃ c ∈ e.chars, isWideBreak c = true := by
      simpa [JournalEntry.readable] using he
    have htext := (hF.spells e).wide c hmem (toNat_of_isWideBreak hc)
    have hline := hun c htext
    rw [isLineBreak_eq_isWideBreak (hF.toNat_of_mem htext), hc] at hline
    cases hline
  · exact hbreak

/-- A part of an entry's text that is not empty is no blank line. -/
theorem not_blank {e : JournalEntry} {p q : List Char} (hpq : p ++ q = F.modelDumpJson e)
    (hp : p ≠ []) : Lines.isBlank p = false := by
  obtain ⟨cs, hcs⟩ := hF.brace e
  cases p with
  | nil => exact absurd rfl hp
  | cons c p =>
    rw [hcs] at hpq
    obtain ⟨rfl, -⟩ := List.cons.inj hpq
    simp [Lines.isBlank, Lines.isSpace]

theorem readLines_whole (e : JournalEntry) (lines : List (List Char)) :
    readLines F (F.modelDumpJson e :: lines) = (readLines F lines).map (e :: ·) := by
  have hne : F.modelDumpJson e ≠ [] := by
    obtain ⟨cs, hcs⟩ := hF.brace e
    simp [hcs]
  rw [readLines, hF.not_blank (List.append_nil _) hne, hF.validate_dump]
  rfl

/-- A line that is a proper part of an entry makes the whole read fail. -/
theorem readLines_cut {e : JournalEntry} {p q : List Char} (hpq : p ++ q = F.modelDumpJson e)
    (hp : p ≠ []) (hq : q ≠ []) (lines : List (List Char)) :
    readLines F (p :: lines) = .error (.validation p) := by
  rw [readLines, hF.not_blank hpq hp, hF.cut e p q hpq hq]
  rfl

theorem prefix_ne_nil {e : JournalEntry} {p q : List Char} {c : Char}
    (h : F.modelDumpJson e = p ++ c :: q) (hc : Lines.isLineBreak c = true) : p ≠ [] := by
  rintro rfl
  obtain ⟨cs, hcs⟩ := hF.brace e
  rw [hcs] at h
  obtain ⟨rfl, -⟩ := List.cons.inj h
  simp [Lines.isLineBreak] at hc

theorem readLines_textOf {es : List JournalEntry} (hes : ∀ e ∈ es, e.readable = true)
    (r : List Char) : readLines F (Lines.splitlines (textOf F es ++ r)) =
      (readLines F (Lines.splitlines r)).map (es ++ ·) := by
  induction es with
  | nil =>
    cases hr : readLines F (Lines.splitlines r) <;> simp [textOf, hr, Except.map]
  | cons e es ih =>
    have hline := Lines.splitlines_newline (r := textOf F es ++ r)
      (hF.unbroken (hes e (List.mem_cons_self ..)))
    rw [textOf_cons, List.append_assoc, List.cons_append, hline, hF.readLines_whole,
      ih (fun x hx => hes x (List.mem_cons_of_mem _ hx))]
    cases readLines F (Lines.splitlines r) <;> rfl

theorem readLines_textOf_error {es : List JournalEntry} (hes : ¬ ∀ e ∈ es, e.readable = true)
    (r : List Char) : ∃ err, readLines F (Lines.splitlines (textOf F es ++ r)) = .error err := by
  induction es with
  | nil => exact absurd (by simp) hes
  | cons e es ih =>
    rw [textOf_cons, List.append_assoc, List.cons_append]
    cases he : e.readable with
    | true =>
      have hrest : ¬ ∀ e ∈ es, e.readable = true := fun h => hes (by simpa [he] using h)
      obtain ⟨err, herr⟩ := ih hrest
      refine ⟨err, ?_⟩
      rw [Lines.splitlines_newline (hF.unbroken he), hF.readLines_whole, herr]
      rfl
    | false =>
      obtain ⟨p, c, q, hpcq, hp, hc⟩ := hF.broken he
      obtain ⟨ls, hls⟩ := Lines.splitlines_break (q := q ++ '\n' :: (textOf F es ++ r)) hp hc
      refine ⟨.validation p, ?_⟩
      rw [hpcq, List.append_assoc, List.cons_append, hls]
      exact hF.readLines_cut hpcq.symm (hF.prefix_ne_nil hpcq hc) (by simp) ls

theorem not_mem_cr_encodeLine (e : JournalEntry) : '\r' ∉ encodeLine F e := by
  intro h
  rcases List.mem_append.mp h with h | h
  · exact absurd (hF.toNat_of_mem h) (by decide)
  · simp at h

theorem not_mem_cr_textOf (es : List JournalEntry) : '\r' ∉ textOf F es := by
  intro h
  obtain ⟨e, -, he⟩ := List.mem_flatMap.mp h
  exact hF.not_mem_cr_encodeLine e he

/-- A file of whole entries reads as those entries exactly when every one of
    them is readable, and raises otherwise. -/
theorem entries_fileOf (es : List JournalEntry) :
    ((∀ e ∈ es, e.readable = true) → entries F (fileOf F es) = .ok es) ∧
      ((¬ ∀ e ∈ es, e.readable = true) → ∃ err, entries F (fileOf F es) = .error err) := by
  cases es with
  | nil => simp [fileOf, entries]
  | cons e es =>
    have hread : entries F (fileOf F (e :: es)) =
        readLines F (Lines.splitlines (textOf F (e :: es) ++ [])) := by
      simp only [fileOf, List.isEmpty_cons, Bool.false_eq_true, if_false, entries,
        encodeUtf8_eq, List.utf8Decode?_utf8Encode, readText,
        Lines.universalNewlines_of_not_mem (hF.not_mem_cr_textOf (e :: es)), List.append_nil]
    rw [hread]
    refine ⟨fun h => ?_, fun h => hF.readLines_textOf_error h []⟩
    rw [hF.readLines_textOf h]
    simp [Lines.splitlines, readLines, Except.map]

end EntryFormat.Lawful

end Whole

end Slas
