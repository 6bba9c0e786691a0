/-
  Slas.Container.Logs

  The log of a container (`slas_container.api`): frames of two streams, one after the other,
  taken apart by `demultiplex` and shown by `ContainerApi.logs`, of which the model manager reads
  the last lines.

  Theorems:
    demultiplex_cut — both streams come back, also when the last payload is cut short;
    shownInOrder_iff — when the log shows the payloads as they were written.
-/

import Mathlib.Algebra.Group.Nat.Defs
import Mathlib.Data.List.Infix
import Slas.Lib.Text

namespace Slas

namespace Container

abbrev Bytes := List UInt8

def STDOUT : UInt8 := 1

def STDERR : UInt8 := 2

/-! ## Frames -/

inductive Stream where
  | stdout
  | stderr
  deriving DecidableEq

def Stream.kind : Stream → UInt8
  | stdout => STDOUT
  | stderr => STDERR

/-- A payload of less than four gigabytes, and the stream it was written to. -/
structure Frame where
  stream : Stream
  payload : Bytes
  short : payload.length < 2 ^ 32

/-- A number in four bytes, the highest first. -/
def bigEndian (n : Nat) : Bytes :=
  [.ofNat (n / 2 ^ 24), .ofNat (n / 2 ^ 16), .ofNat (n / 2 ^ 8), .ofNat n]

namespace Frame

/-- What is sent in front of a payload. -/
def header (frame : Frame) : Bytes :=
  [frame.stream.kind, 0, 0, 0] ++ bigEndian frame.payload.length

def encode (frame : Frame) : Bytes := frame.header ++ frame.payload

end Frame

/-- The body of an answer. -/
def body (frames : List Frame) : Bytes := frames.flatMap Frame.encode

/-- What was written to a stream. -/
def written (stream : Stream) (frames : List Frame) : Bytes :=
  (frames.filter fun frame => frame.stream = stream).flatMap Frame.payload

/-! ## The log -/

/-- `int.from_bytes(_, "big")` of four bytes. -/
def fromBytes (a b c d : UInt8) : Nat :=
  ((a.toNat * 2 ^ 8 + b.toNat) * 2 ^ 8 + c.toNat) * 2 ^ 8 + d.toNat

/-- The loop of `demultiplex`: both streams and what is left, or nothing if it is not framed. -/
def demultiplexFrom (out err : Bytes) : Bytes → Option (Bytes × Bytes × Bytes)
  | kind :: z₁ :: z₂ :: z₃ :: a :: b :: c :: d :: rest =>
    if kind ∉ [0, STDOUT, STDERR] ∨ [z₁, z₂, z₃] ≠ [0, 0, 0] then none
    else
      let size := fromBytes a b c d
      let chunk := rest.take size
      demultiplexFrom (if kind = STDERR then out else out ++ chunk)
        (if kind = STDERR then err ++ chunk else err) (rest.drop size)
  | rest => some (out, err, rest)
termination_by payload => payload.length
decreasing_by
  simp only [List.length_cons, List.length_drop]
  omega

/-- `demultiplex` -/
def demultiplex (payload : Bytes) : Bytes × Bytes :=
  match demultiplexFrom [] [] payload with
  | none => (payload, [])
  | some (out, err, rest) => if rest ≠ [] ∧ out = [] ∧ err = [] then (payload, []) else (out, err)

/-- The bytes that are decoded. -/
def shown (payload : Bytes) : Bytes :=
  let (out, err) := demultiplex payload
  out ++ err

/-- `ContainerApi.logs`, of the body of the answer and of what decodes it. -/
def logs (decode : Bytes → List Char) (payload : Bytes) : List Char := decode (shown payload)

/-- The last lines of a text that are not blank; `lines[-0:]` is all of them. -/
def lastLines (n : Nat) (text : List Char) : List (List Char) :=
  let lines := ((Lines.splitlines text).filter fun line => Text.strip line ≠ []).map fun line =>
    line.rdropWhile Lines.isSpace
  lines.drop (if n = 0 then 0 else lines.length - n)

/-- `last_log_lines`, of which the crash report is made. -/
def lastLogLines (decode : Bytes → List Char) (payload : Bytes) (n : Nat) : List (List Char) :=
  lastLines n (logs decode payload)

/-! ## Both streams come back -/

theorem fromBytes_bigEndian {n : Nat} (h : n < 2 ^ 32) :
    ∃ a b c d, bigEndian n = [a, b, c, d] ∧ fromBytes a b c d = n := by
  refine ⟨_, _, _, _, rfl, ?_⟩
  simp only [fromBytes, UInt8.toNat_ofNat']
  omega

theorem written_cons (stream : Stream) (frame : Frame) (frames : List Frame) :
    written stream (frame :: frames) =
      (if frame.stream = stream then frame.payload else []) ++ written stream frames := by
  unfold written
  rw [List.filter_cons]
  split_ifs <;> simp_all

theorem written_append (stream : Stream) (frames later : List Frame) :
    written stream (frames ++ later) = written stream frames ++ written stream later := by
  simp [written]

/-- A frame is taken from the front, of which the payload may be cut short. -/
theorem demultiplexFrom_frame (out err : Bytes) (frame : Frame) (part rest : Bytes)
    (h : part = frame.payload ∨ (part <+: frame.payload ∧ rest = [])) :
    demultiplexFrom out err (frame.header ++ (part ++ rest)) =
      demultiplexFrom (out ++ if frame.stream = .stdout then part else [])
        (err ++ if frame.stream = .stderr then part else []) rest := by
  obtain ⟨a, b, c, d, hsize, hvalue⟩ := fromBytes_bigEndian frame.short
  have hcut : (part ++ rest).take frame.payload.length = part ∧
      (part ++ rest).drop frame.payload.length = rest := by
    rcases h with rfl | ⟨hpart, rfl⟩
    · exact ⟨List.take_left, List.drop_left⟩
    · rw [List.append_nil]
      exact ⟨List.take_of_length_le hpart.length_le, List.drop_eq_nil_of_le hpart.length_le⟩
  unfold Frame.header
  rw [hsize]
  simp only [List.cons_append, List.nil_append]
  rw [demultiplexFrom, hvalue]
  dsimp only
  rw [hcut.1, hcut.2]
  cases frame.stream <;> simp [Stream.kind, STDOUT, STDERR]

theorem demultiplexFrom_body (out err : Bytes) (frames : List Frame) (rest : Bytes) :
    demultiplexFrom out err (body frames ++ rest) =
      demultiplexFrom (out ++ written .stdout frames) (err ++ written .stderr frames) rest := by
  induction frames generalizing out err with
  | nil => simp [body, written]
  | cons frame frames ih =>
    have hbody : body (frame :: frames) ++ rest =
        frame.header ++ (frame.payload ++ (body frames ++ rest)) := by
      simp [body, Frame.encode]
    rw [hbody, demultiplexFrom_frame _ _ _ _ _ (Or.inl rfl), ih, written_cons, written_cons,
      List.append_assoc, List.append_assoc]

theorem demultiplexFrom_nil (out err : Bytes) : demultiplexFrom out err [] = some (out, err, []) := by
  rw [demultiplexFrom]
  simp

theorem demultiplex_body (frames : List Frame) :
    demultiplex (body frames) = (written .stdout frames, written .stderr frames) := by
  have h := demultiplexFrom_body [] [] frames []
  rw [List.append_nil, demultiplexFrom_nil] at h
  unfold demultiplex
  rw [h]
  simp

/-- **Both streams come back**, also when the last payload is cut short. -/
theorem demultiplex_cut (frames : List Frame) (last : Frame) {part : Bytes}
    (h : part <+: last.payload) :
    demultiplex (body frames ++ (last.header ++ part)) =
      (written .stdout frames ++ (if last.stream = .stdout then part else []),
        written .stderr frames ++ (if last.stream = .stderr then part else [])) := by
  have hlast := demultiplexFrom_frame (written .stdout frames) (written .stderr frames) last part []
    (Or.inr ⟨h, rfl⟩)
  rw [List.append_nil, demultiplexFrom_nil] at hlast
  have hbody := demultiplexFrom_body [] [] frames (last.header ++ part)
  rw [List.nil_append, List.nil_append, hlast] at hbody
  unfold demultiplex
  rw [hbody]
  simp

/-! ## In which order they are shown -/

/-- Where the log shows the payload of a frame, told what was written before and after it. -/
def place (before : List Frame) (frame : Frame) (after : List Frame) : Nat :=
  match frame.stream with
  | .stdout => (written .stdout before).length
  | .stderr => (written .stdout (before ++ frame :: after)).length + (written .stderr before).length

theorem shown_body (frames : List Frame) :
    shown (body frames) = written .stdout frames ++ written .stderr frames := by
  unfold shown
  rw [demultiplex_body]

/-- All that was written, as it was written. -/
def writtenInOrder (frames : List Frame) : Bytes := frames.flatMap Frame.payload

/-- The payloads come back, stream by stream, and the log shows them in the order in which they
    were written, so that the last lines that are read are the last that were written. -/
structure ShownInOrder (frames : List Frame) : Prop where
  streams : demultiplex (body frames) = (written .stdout frames, written .stderr frames)
  cut : ∀ before last, frames = before ++ [last] → ∀ part, part <+: last.payload →
    demultiplex (body before ++ (last.header ++ part)) =
      (written .stdout before ++ (if last.stream = .stdout then part else []),
        written .stderr before ++ (if last.stream = .stderr then part else []))
  order : ∀ before f between g after, frames = before ++ f :: (between ++ g :: after) →
    f.payload ≠ [] → g.payload ≠ [] →
      place before f (between ++ g :: after) + f.payload.length ≤
        place (before ++ f :: between) g after
  shown : shown (body frames) = writtenInOrder frames
  last : ∀ decode n, lastLogLines decode (body frames) n =
    lastLines n (decode (writtenInOrder frames))

/-- Nothing is written to the standard output after something was written to the error output. -/
def OutputFirst (frames : List Frame) : Prop :=
  ∀ before f between g after, frames = before ++ f :: (between ++ g :: after) →
    f.stream = .stderr → f.payload ≠ [] → g.stream = .stdout → g.payload = []

theorem written_eq_nil {stream : Stream} {frames : List Frame}
    (h : ∀ frame ∈ frames, frame.stream = stream → frame.payload = []) :
    written stream frames = [] := by
  simpa [written] using h

/-- What is left of the frames keeps to it. -/
theorem OutputFirst.tail {frame : Frame} {frames : List Frame} (h : OutputFirst (frame :: frames)) :
    OutputFirst frames := by
  intro before f between g after hframes
  exact h (frame :: before) f between g after (by rw [hframes, List.cons_append])

/-- The error output stands behind the standard output. -/
theorem written_of_outputFirst {frames : List Frame} (h : OutputFirst frames) :
    written .stdout frames ++ written .stderr frames = writtenInOrder frames := by
  induction frames with
  | nil => rfl
  | cons frame frames ih =>
    have hrest := ih h.tail
    rw [written_cons, written_cons, writtenInOrder, List.flatMap_cons, ← writtenInOrder, ← hrest]
    cases hstream : frame.stream with
    | stdout => simp
    | stderr =>
      by_cases hnil : frame.payload = []
      · simp [hnil]
      · -- nothing was written to the standard output after it
        have hnone : written .stdout frames = [] := by
          refine written_eq_nil fun g hg hstdout => ?_
          obtain ⟨between, after, rfl⟩ := List.append_of_mem hg
          exact h [] frame between g after rfl hstream hnil hstdout
        simp [hnone]

/-- **The log shows the payloads as they were written** exactly if nothing is written to the
    standard output after something was written to the error output. -/
theorem shownInOrder_iff (frames : List Frame) : ShownInOrder frames ↔ OutputFirst frames := by
  constructor
  · intro h before f between g after hframes hf hfne hg
    by_contra hgne
    have hle := h.order before f between g after hframes hfne hgne
    have hlength := List.length_pos_iff.mpr hgne
    simp only [place, hf, hg, written_append, written_cons, List.length_append, if_true] at hle
    omega
  · intro h
    have hshown : shown (body frames) = writtenInOrder frames := by
      rw [shown_body, written_of_outputFirst h]
    refine ⟨demultiplex_body frames, fun before last _ part hpart =>
      demultiplex_cut before last hpart, ?_, hshown, fun decode n => ?_⟩
    · intro before f between g after hframes hfne hgne
      cases hf : f.stream with
      | stdout =>
        cases hg : g.stream with
        | stdout =>
          simp only [place, hf, hg, written_append, written_cons, List.length_append, if_true]
          omega
        | stderr =>
          simp only [place, hf, hg, written_append, written_cons, List.length_append, if_true]
          omega
      | stderr =>
        cases hg : g.stream with
        | stdout => exact absurd (h before f between g after hframes hf hfne hg) hgne
        | stderr =>
          simp only [place, hf, hg, written_append, written_cons, List.length_append, if_true]
          omega
    · rw [lastLogLines, logs, hshown]

-- An attempt that failed, and the next one

/-- The error of the first attempt, and the first line of the second. -/
def restarted : List Frame :=
  [⟨.stderr, [79, 79, 77, 10], by decide⟩, ⟨.stdout, [85, 112, 10], by decide⟩]

/-- The last line that is read is not the last that was written. -/
theorem restarted_not_in_order : ¬ ShownInOrder restarted ∧
    lastLogLines (fun bytes => bytes.map fun b => Char.ofNat b.toNat) (body restarted) 1 =
      ["OOM".toList] := by
  constructor
  · intro h
    exact absurd (h.order [] _ [] _ [] rfl (by decide) (by decide)) (by decide)
  · rw [lastLogLines, logs, shown_body]
    rfl

end Container

end Slas
