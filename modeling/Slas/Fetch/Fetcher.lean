/-
  Slas.Fetch.Fetcher

  `plan_model`, `fetch_planned` and `verify` of `slas_fetch.fetch`: what a model still needs,
  the download of it into `<target>.part` files, and `SHA256SUMS` beside the files, against
  which the offline check reads them again.

  A path of the listing is joined to the model's directory as `pathlib` does.  The process may
  die between any two effects.  Log lines and progress reports are left out.
-/

import Slas.Fetch.Hub
import Slas.Lib.Crash

namespace Slas

namespace Fetch

open Crash

/-! ## The session -/

/-- What is done to files. -/
inductive FileOp where
  | write (p : Place)
  | delete (p : Place)
  | rename (p q : Place)

def FileOp.places : FileOp → List Place
  | .write p => [p]
  | .delete p => [p]
  | .rename p q => [p, q]

/-- The disk, what was done to its files, the answers of the hub that are still to come, and
    what `cancel` says when it is asked. -/
structure Session where
  disk : Disk Bytes
  done : List FileOp := []
  net : List Answer := []
  cancels : List Bool := []

inductive Stop where
  | fetchError (message : ThreePartMessage)
  | raised (what : String)

abbrev Fetching (α : Type) := Prog Session Stop α

/-- `Path.open` and one body written to it; `false` for an `OSError`. -/
def openPart (path : List String) (append : Bool) (bytes : Bytes) : Fetching Bool :=
  .effect fun w =>
    match w.disk.filePlace path with
    | some p =>
      let content := if append then (w.disk.file? p).getD [] ++ bytes else bytes
      (.ok true, { w with disk := w.disk.write p content, done := w.done ++ [.write p] })
    | none => (.ok false, w)

def writeText (path : List String) (text : String) : Fetching Unit := do
  let opened ← openPart path false text.toUTF8.data.toList
  if opened then pure () else Prog.raise (.raised "OSError")

/-- `Path.unlink` -/
def unlink (path : List String) : Fetching Unit :=
  .effect fun w =>
    match (w.disk.filePlace path).filter fun p => (w.disk.file? p).isSome with
    | some p => (.ok (), { w with disk := w.disk.remove p, done := w.done ++ [.delete p] })
    | none => (.error (.raised "OSError"), w)

/-- `Path.replace` of a file -/
def replace (path target : List String) : Fetching Unit :=
  .effect fun w =>
    match w.disk.filePlace path, w.disk.filePlace target with
    | some p, some q =>
      match w.disk.file? p with
      | some content =>
        (.ok (), { w with disk := w.disk.move p q content, done := w.done ++ [.rename p q] })
      | none => (.error (.raised "FileNotFoundError"), w)
    | _, _ => (.error (.raised "OSError"), w)

def makeDirs (path : List String) : Fetching Unit :=
  .effect fun w =>
    match w.disk.makeDirs [] path with
    | some disk => (.ok (), { w with disk })
    | none => (.error (.raised "OSError"), w)

/-- What is in the file, or the exception of reading it. -/
def readBytes (path : List String) : Fetching Bytes := do
  match ← Prog.look fun w => w.disk.read? path with
  | some bytes => pure bytes
  | none => Prog.raise (.raised "FileNotFoundError")

/-- `Path.stat().st_size`: a directory has a size too. -/
def sizeOf? (disk : Disk Bytes) (path : List String) : Option Nat :=
  (disk.follow [] path).bind fun p =>
    if disk.isDir p then some 4096 else (disk.file? p).map List.length

def statSize (path : List String) : Fetching Nat := do
  match ← Prog.look fun w => sizeOf? w.disk path with
  | some size => pure size
  | none => Prog.raise (.raised "FileNotFoundError")

/-! ## Paths -/

/-- `dir / path` -/
def joined (dir : List String) (path : String) : List String :=
  if Text.root path = [] then dir ++ Text.names path else Text.names path

/-- `part_of`: `with_name` refuses a path without a name. -/
def partOf (target : List String) : Option (List String) :=
  target.getLast?.map fun name => target.dropLast ++ [name ++ ".part"]

/-- `target.name` -/
def nameOf (target : List String) : String := target.getLastD ""

/-! ## One download -/

variable (H : Hashes) (hub : Hub)

/-- One request, and how far the file is then: with the reason when the body was cut off. -/
def receive (url : String) (part : List String) (have_ : Nat) :
    Answer → Fetching (Nat × Option String)
  | .httpError code => Prog.raise (.fetchError (httpError url code))
  | .notAllowed message => Prog.raise (.fetchError message)
  | .lost reason => pure (have_, some reason)
  | .body status bytes ending => do
    let append := decide (have_ ≠ 0 ∧ status = 206)
    let kept := if append then have_ else 0
    let opened ← openPart part append bytes
    if opened then
      match ending with
      | .closed => pure (kept + bytes.length, none)
      | .dropped reason => pure (kept + bytes.length, some reason)
      | .broken what => Prog.raise (.raised what)
    else pure (kept, some "OSError")

def stopped (target : List String) (have_ : Nat) (reason : String) : ThreePartMessage where
  whatHappened := "The download of " ++ nameOf target ++ " stopped after " ++ toString have_ ++
    " bytes."
  likelyCause := "The connection dropped " ++ toString (hub.retries + 1) ++
    " times in a row without progress: " ++ reason ++ "."
  whatToDo := "Run the same command again; it resumes where it stopped. If this site uses a " ++
    "proxy, export HTTPS_PROXY=http://<proxy>:<port> first."

/-- Why the file needs another request. -/
def cutOff (expectedSize : Int) (have_ : Nat) (reason : Option String) : Option String :=
  match reason with
  | some reason => some reason
  | none =>
    if expectedSize = 0 ∨ expectedSize ≤ have_ then none
    else some "the connection closed early"

/-- The requests of a download, as long as the hub answers: how many bytes are there then. -/
def attempts (url : String) (target part : List String) (expectedSize : Int) :
    List Answer → Nat → Nat → Fetching Nat
  | [], _, _ => Prog.raise (.raised "no answer")
  | answer :: answers, have_, stalls => do
    Prog.quiet fun w => ((), { w with net := answers })
    let (now, reason) ← receive url part have_ answer
    match cutOff expectedSize now reason with
    | none => pure now
    | some reason =>
      let stalls := if have_ < now then 0 else stalls + 1
      if hub.retries < stalls then Prog.raise (.fetchError (stopped hub target now reason))
      else attempts url target part expectedSize answers now stalls

def wrongSize (target : List String) (have_ : Nat) (expectedSize : Int) : ThreePartMessage where
  whatHappened := nameOf target ++ " is " ++ toString have_ ++ " bytes, but the hub says " ++
    toString expectedSize ++ "."
  likelyCause := "The download was cut short."
  whatToDo := "Run the same command again; it resumes where it stopped."

/-- How much of the `.part` file is there; one that is too long is removed. -/
def resumeFrom (part : List String) (expectedSize : Int) : Fetching Nat := do
  let there ← Prog.look fun w => (sizeOf? w.disk part).getD 0
  if expectedSize ≠ 0 ∧ expectedSize < there then do
    unlink part
    pure 0
  else pure there

/-- `Hub.download` -/
def download (url : String) (target : List String) (expectedSize : Int) : Fetching Unit := do
  match partOf target with
  | none => Prog.raise (.raised "ValueError")
  | some part =>
    makeDirs part.dropLast
    let kept ← resumeFrom part expectedSize
    if isHttp url then
      let answers ← Prog.look Session.net
      let now ← attempts hub url target part expectedSize answers kept 0
      if expectedSize ≠ 0 ∧ (now : Int) ≠ expectedSize then
        Prog.raise (.fetchError (wrongSize target now expectedSize))
      else replace part target
    else Prog.raise (.fetchError (notHttp url))

/-! ## The plan -/

/-- `is_complete` -/
def isComplete (disk : Disk Bytes) (target : List String) (remote : RemoteFile) : Bool :=
  match disk.read? target with
  | none => false
  | some bytes =>
    match remote.sha256 with
    | some digest => (H.sha256 bytes).1 = digest
    | none =>
      match remote.blobOid with
      | some oid => H.blobSha1 bytes = oid
      | none => remote.size = 0 ∨ (bytes.length : Int) = remote.size

structure ModelPlan where
  source : Source
  commit : String
  files : List RemoteFile
  skipped : List String
  present : List String := []
  partial_ : List (String × Nat) := []

def nothingChosen (source : Source) : ThreePartMessage where
  whatHappened := source.repo ++ " has no files to fetch after filtering."
  likelyCause := "The include or exclude patterns removed everything."
  whatToDo := "Loosen the patterns, or check the repository on the hub."

/-- What is here of each file. -/
def survey (disk : Disk Bytes) (dir : List String) :
    List RemoteFile → ModelPlan → Except Stop ModelPlan
  | [], plan => .ok plan
  | remote :: files, plan =>
    let target := joined dir remote.path
    if isComplete H disk target remote then
      survey disk dir files { plan with present := plan.present ++ [remote.path] }
    else
      match partOf target with
      | none => .error (.raised "ValueError")
      | some part =>
        match disk.read? part with
        | some bytes =>
          survey disk dir files
            (if remote.size = 0 ∨ (bytes.length : Int) ≤ remote.size then
              { plan with partial_ := Dict.set remote.path bytes.length plan.partial_ }
            else plan)
        | none => survey disk dir files plan

/-- What the two requests of a plan are answered. -/
structure Listed where
  sha : Option String
  data : List TreeEntry

/-- `plan_model`: `dest` from the root. -/
def planModel (source : Source) (dest : Place) (include_ exclude : List String) (listed : Listed) :
    Fetching ModelPlan := do
  let commit := revisionSha source listed.sha
  let (chosen, skipped) := select (tree listed.data) include_ exclude
  if chosen = [] then Prog.raise (.fetchError (nothingChosen source))
  else
    let disk ← Prog.look Session.disk
    Prog.ofExcept (survey H disk (dest ++ [source.path]) chosen
      { source, commit, files := chosen, skipped })

/-! ## The fetch -/

structure FetchedModel where
  path : String
  repo : String
  revision : String
  commit : String
  files : List (String × String) := []
  bytes : Nat := 0
  skipped : List String
  sizes : List (String × Nat) := []

def cancelled (path : String) : ThreePartMessage where
  whatHappened := "The fetch of " ++ path ++ " was cancelled."
  likelyCause := "Someone pressed Cancel."
  whatToDo := "Start the same fetch again; it resumes where it stopped."

def noMatch (source : Source) (remote : RemoteFile) (what : String) : ThreePartMessage where
  whatHappened := source.path ++ "/" ++ remote.path ++ " does not match the " ++ what ++
    " the hub publishes."
  likelyCause := "The file was corrupted in transit or altered by a proxy."
  whatToDo := "Run the same command again; the bad file was removed and will be fetched anew."

/-- `cancel`, asked once. -/
def askCancel : Fetching Bool :=
  .quiet fun w => (w.cancels.headD false, { w with cancels := w.cancels.tail })

/-- One file that is not here: downloaded, and checked against what the hub publishes. -/
def fetchFile (source : Source) (target : List String) (remote : RemoteFile) :
    Fetching String := do
  download hub (fileUrl hub source remote) target remote.size
  let bytes ← readBytes target
  let actual := (H.sha256 bytes).1
  if remote.sha256.any fun digest => actual ≠ digest then do
    unlink target
    Prog.raise (.fetchError (noMatch source remote "checksum"))
  else if remote.blobOid.any fun oid => H.blobSha1 bytes ≠ oid then do
    unlink target
    Prog.raise (.fetchError (noMatch source remote "git blob id"))
  else pure actual

/-- The digest of a file that is here, as it is recorded. -/
def keptDigest (target : List String) (remote : RemoteFile) : Fetching String :=
  match remote.sha256 with
  | some digest => pure digest
  | none => do
    let bytes ← readBytes target
    pure (H.sha256 bytes).1

/-- The digest that is recorded for a file. -/
def digestOf (plan : ModelPlan) (target : List String) (remote : RemoteFile) : Fetching String :=
  if remote.path ∈ plan.present then keptDigest H target remote
  else fetchFile H hub plan.source target remote

def fetchFiles (plan : ModelPlan) (dir : List String) :
    List RemoteFile → FetchedModel → Fetching FetchedModel
  | [], fetched => pure fetched
  | remote :: files, fetched => do
    let cancel ← askCancel
    if cancel then Prog.raise (.fetchError (cancelled plan.source.path))
    else
      let target := joined dir remote.path
      let actual ← digestOf H hub plan target remote
      let size ← statSize target
      fetchFiles plan dir files
        { fetched with
          files := Dict.set remote.path actual fetched.files
          sizes := Dict.set remote.path size fetched.sizes
          bytes := fetched.bytes + size }

def sumsLine (item : String × String) : String := item.2 ++ "  " ++ item.1

/-- The text of `SHA256SUMS`, in the order of the names. -/
def sumsText (files : List (String × String)) : String :=
  "\n".intercalate ((files.mergeSort fun a b => a.1 ≤ b.1).map sumsLine) ++ "\n"

def SHA256SUMS : String := "SHA256SUMS"

/-- `write_atomic`: through a temporary file beside it. -/
def writeAtomic (dir : List String) (name text : String) : Fetching Unit := do
  writeText (dir ++ [name ++ ".tmp"]) text
  replace (dir ++ [name ++ ".tmp"]) (dir ++ [name])

/-- `write_sums` -/
def writeSums (dir : List String) (files : List (String × String)) : Fetching Unit :=
  writeAtomic dir SHA256SUMS (sumsText files)

/-- `fetch_planned` -/
def fetchPlanned (plan : ModelPlan) (dest : Place) : Fetching FetchedModel := do
  let dir := dest ++ [plan.source.path]
  let fetched ← fetchFiles H hub plan dir plan.files
    { path := plan.source.path, repo := plan.source.repo, revision := plan.source.revision,
      commit := plan.commit, skipped := plan.skipped }
  writeSums dir fetched.files
  pure fetched

/-! ## Reading the checksums again -/

/-- `line.partition("  ")`, without the separator. -/
def partitionTwo : List Char → List Char × List Char
  | [] => ([], [])
  | ' ' :: ' ' :: cs => ([], cs)
  | c :: cs => (c :: (partitionTwo cs).1, (partitionTwo cs).2)

/-- `Path.read_text` -/
def readText (bytes : Bytes) : Option (List Char) :=
  (String.fromUTF8? ⟨bytes.toArray⟩).map fun text => Lines.universalNewlines text.toList

/-- `read_sums`, of the text. -/
def readSums (text : List Char) : List (String × String) :=
  ((Lines.splitlines text).filter fun line => !Lines.isBlank line).foldl
    (fun sums line =>
      let found := partitionTwo line
      Dict.set (String.ofList found.2) (String.ofList found.1) sums)
    []

/-- What `verify` reports. -/
inductive Problem where
  | noSums (model : String)
  | missing (model file : String)
  | mismatch (model file : String)
  | nothingFound

def Problem.sentence (dest : String) : Problem → String
  | .noSums model => dest ++ "/" ++ model ++ " has no SHA256SUMS file."
  | .missing model file => model ++ "/" ++ file ++ " is missing."
  | .mismatch model file => model ++ "/" ++ file ++ " does not match its checksum."
  | .nothingFound => "No model directory under " ++ dest ++ " has a SHA256SUMS file."

/-- The models of `dest.glob("*/SHA256SUMS")`, sorted. -/
def withSums (disk : Disk Bytes) (dest : Place) : List String :=
  let models := (disk.dirs.filter fun p => p.dropLast = dest ∧ p ≠ []).map nameOf
  let there (model : String) : Bool :=
    let p := dest ++ [model, SHA256SUMS]
    disk.isDir p || (disk.file? p).isSome
  (models.dedup.filter there).mergeSort (· ≤ ·)

/-- One line of the checksums against the file. -/
def checkFile (disk : Disk Bytes) (dest : Place) (model : String) (item : String × String) :
    Option Problem :=
  match disk.read? (joined (dest ++ [model]) item.1) with
  | none => some (.missing model item.1)
  | some bytes => if (H.sha256 bytes).1 = item.2 then none else some (.mismatch model item.1)

/-- The checksums of one model. -/
def checkModel (disk : Disk Bytes) (dest : Place) (model : String) : Except Stop (List Problem) :=
  match (disk.read? (dest ++ [model, SHA256SUMS])).bind readText with
  | none => .error (.raised "OSError")
  | some text => .ok ((readSums text).filterMap (checkFile H disk dest model))

/-- `verify` -/
def verify (disk : Disk Bytes) (dest : Place) (only : List String) :
    Except Stop (List Problem) := do
  let models := withSums disk dest
  let missing := (only.dedup.filter fun name => name ∉ models).mergeSort (· ≤ ·)
  let found := models.filter fun model => only = [] ∨ model ∈ only
  let problems ← found.mapM (checkModel H disk dest)
  return missing.map .noSums ++ problems.flatten ++
    if found = [] ∧ only = [] then [.nothingFound] else []

/-! ## What the parts of a fetch keep -/

section Keeps

variable {H hub} {I : Session → Prop} {target part path : List String} {remote : RemoteFile}

theorem preserves_readBytes : Preserves I (readBytes path) := by
  refine Preserves.bind (Preserves.look _) fun found => ?_
  cases found with
  | none => exact Preserves.raise _
  | some bytes => exact Preserves.pure _

theorem readBytes_spec {P R : Session → Prop} (hR : ∀ w, P w → R w) :
    Triple P (readBytes path) (fun bytes w => P w ∧ w.disk.read? path = some bytes) R := by
  refine Triple.bind (M := fun found w => P w ∧ w.disk.read? path = found)
    (Triple.look fun w hw => ⟨hw, rfl⟩) fun found => ?_
  cases found with
  | none => exact Triple.raise fun w hw => hR w hw.1
  | some bytes => exact Triple.pure fun w hw => hw

theorem preserves_statSize : Preserves I (statSize path) := by
  refine Preserves.bind (Preserves.look _) fun found => ?_
  cases found with
  | none => exact Preserves.raise _
  | some size => exact Preserves.pure _

theorem preserves_keptDigest : Preserves I (keptDigest H target remote) := by
  unfold keptDigest
  split
  · exact Preserves.pure _
  · exact Preserves.bind preserves_readBytes fun _ => Preserves.pure _

theorem preserves_receive {url : String} {have_ : Nat} {answer : Answer}
    (hopen : ∀ append bytes, Preserves I (openPart part append bytes)) :
    Preserves I (receive url part have_ answer) := by
  cases answer with
  | httpError code => exact Preserves.raise _
  | notAllowed message => exact Preserves.raise _
  | lost reason => exact Preserves.pure _
  | body status bytes ending =>
    refine Preserves.bind (hopen _ _) fun opened => ?_
    split
    · cases ending with
      | closed => exact Preserves.pure _
      | dropped reason => exact Preserves.pure _
      | broken what => exact Preserves.raise _
    · exact Preserves.pure _

/-- The requests of a download keep what an open of its `.part` file keeps. -/
theorem preserves_attempts {url : String} {expectedSize : Int} {answers : List Answer}
    (hopen : ∀ append bytes, Preserves I (openPart part append bytes))
    (hnet : ∀ w net, I w → I { w with net := net }) (have_ stalls : Nat) :
    Preserves I (attempts hub url target part expectedSize answers have_ stalls) := by
  induction answers generalizing have_ stalls with
  | nil => exact Preserves.raise _
  | cons answer answers ih =>
    refine Preserves.bind (Preserves.quiet fun w hw => hnet w answers hw) fun _ => ?_
    refine Preserves.bind (preserves_receive hopen) fun got => ?_
    dsimp only
    cases cutOff expectedSize got.1 got.2 with
    | none => exact Preserves.pure _
    | some reason =>
      have hnext : ∀ k, Preserves I
          (if hub.retries < k then
            Prog.raise (.fetchError (stopped hub target got.1 reason))
          else attempts hub url target part expectedSize answers got.1 k) := by
        intro k
        split_ifs
        · exact Preserves.raise _
        · exact ih _ _
      exact hnext _

theorem preserves_resumeFrom {expectedSize : Int} (hunlink : Preserves I (unlink part)) :
    Preserves I (resumeFrom part expectedSize) := by
  refine Preserves.bind (Preserves.look _) fun there => ?_
  split_ifs
  · exact Preserves.bind hunlink fun _ => Preserves.pure _
  · exact Preserves.pure _

/-- A download keeps what its operations keep, and returns after a rename. -/
theorem download_spec {Q : Unit → Session → Prop} {url : String} {expectedSize : Int}
    (hdirs : ∀ path, Preserves I (makeDirs path))
    (hopen : ∀ part, partOf target = some part →
      ∀ append bytes, Preserves I (openPart part append bytes))
    (hunlink : ∀ part, partOf target = some part → Preserves I (unlink part))
    (hreplace : ∀ part, partOf target = some part → Triple I (replace part target) Q I)
    (hnet : ∀ w net, I w → I { w with net := net }) :
    Triple I (download hub url target expectedSize) Q I := by
  unfold download
  cases hpart : partOf target with
  | none => exact Triple.raise fun _ hw => hw
  | some part =>
    refine Triple.bind (hdirs _) fun _ => ?_
    refine Triple.bind (preserves_resumeFrom (hunlink part hpart)) fun kept => ?_
    split_ifs
    · refine Triple.bind (Preserves.look _) fun answers => ?_
      refine Triple.bind (preserves_attempts (hopen part hpart) hnet _ _) fun now => ?_
      split_ifs
      · exact Triple.raise fun _ hw => hw
      · exact hreplace part hpart
    · exact Triple.raise fun _ hw => hw

end Keeps

/-! ## A file in one answer -/

section OneAnswer

variable {H hub} {w : Session} {url : String} {target part : List String} {bytes : Bytes}
  {rest : List Answer} {d : Disk Bytes} {p q : Place}

/-- What a session is once a body is written. -/
def Session.written (w : Session) (p : Place) (bytes : Bytes) (rest : List Answer) : Session :=
  { w with disk := w.disk.write p bytes, done := w.done ++ [.write p], net := rest }

theorem attempts_one (hplace : w.disk.filePlace part = some p) (have_ n : Nat) :
    attempts hub url target part 0 (.body 200 bytes .closed :: rest) have_ 0 w (n + 1) =
      .ok bytes.length (w.written p bytes rest) n := by
  have happend : decide (have_ ≠ 0 ∧ 200 = 206) = false := by simp
  have hopen : openPart part false bytes { w with net := rest } (n + 1) =
      .ok true (w.written p bytes rest) n := by
    refine Prog.effect_run ?_ n
    simp only [hplace, Session.written, Bool.false_eq_true, if_false]
  have hreceive : receive url part have_ (.body 200 bytes .closed) { w with net := rest } (n + 1) =
      .ok (bytes.length, none) (w.written p bytes rest) n := by
    have hbody : receive url part have_ (.body 200 bytes .closed) =
        (openPart part false bytes >>= fun opened =>
          if opened then pure (bytes.length, none) else pure (0, some "OSError")) := by
      simp only [receive, happend, Bool.false_eq_true, if_false, Nat.zero_add]
    rw [hbody]
    exact (Prog.bind_run hopen).trans rfl
  rw [attempts, Prog.quiet_bind]
  exact (Prog.bind_run hreceive).trans (by simp only [cutOff, true_or, if_true]; rfl)

/-- A download that is answered with the whole body, up to the rename. -/
theorem download_one (hpart : partOf target = some part)
    (hdirs : w.disk.makeDirs [] part.dropLast = some d) (hplace : d.filePlace part = some p)
    (hnet : w.net = .body 200 bytes .closed :: rest) (hhttp : isHttp url = true) (n : Nat) :
    download hub url target 0 w (n + 2) =
      replace part target (({ w with disk := d } : Session).written p bytes rest) n := by
  have hmade : makeDirs part.dropLast w (n + 2) = .ok () { w with disk := d } (n + 1) := by
    refine Prog.effect_run ?_ (n + 1)
    simp only [hdirs]
  have hresume : resumeFrom part 0 { w with disk := d } (n + 1) =
      .ok ((sizeOf? d part).getD 0) { w with disk := d } (n + 1) := by
    unfold resumeFrom
    rw [Prog.look_bind]
    simp only [ne_eq, not_true_eq_false, false_and, if_false]
    rfl
  unfold download
  simp only [hpart]
  refine (Prog.bind_run hmade).trans ?_
  refine (Prog.bind_run hresume).trans ?_
  rw [if_pos hhttp, Prog.look_bind]
  simp only [hnet]
  refine (Prog.bind_run (attempts_one hplace _ n)).trans ?_
  simp only [ne_eq, not_true_eq_false, false_and, if_false]

end OneAnswer

end Fetch

end Slas
