/-
  Slas.Factory.Mes

  The file-drop adapter of the manufacturing execution system
  (`slas_factory_executor.mes`): tickets come as files in an inbox, are moved to
  `processing` when they are picked up, and to `done` when they are reported back.

  The names in `processing` and `done` are ticket numbers, not the names the files came
  with, and nothing looks whether a name is taken: `none_lost_iff` says when every file of
  an accepted ticket is kept.
-/

import Slas.Kernel.World
import Slas.Lib.Runs
import Slas.Lib.Volume

namespace Slas

namespace Mes

/-! ## Tickets and verdicts -/

structure MesTicket where
  ticketNo : String
  station : String
  unitSn : String
  requestedBy : String
  payload : List (String × String) := []
  ticketNo_ne : ticketNo ≠ ""
  station_ne : station ≠ ""
  unitSn_ne : unitSn ≠ ""
  requestedBy_ne : requestedBy ≠ ""

inductive Verdict where
  | pass
  | fail
  | lineLead

structure MesVerdict where
  ticketNo : String
  unitSn : String
  station : String
  verdict : Verdict
  ticketId : String
  decidedBy : String
  sentence : String
  sopEn : Option String := none
  sopZh : Option String := none
  reportedAt : DateTime

/-! ## Paths -/

/-- The names from the root of the file system on. -/
abbrev Path := List String

/-- Where the adapter works: which directories there are, and which paths the system takes
    for a file (no name too long, no null character). -/
structure Host where
  root : Path
  isDir : Path → Bool
  takes : Path → Bool

namespace Host

variable (H : Host)

/-- A directory of the adapter. -/
def dir (name : String) : Path := H.root ++ [name]

/-- Where the names lead from a directory, through directories that exist. -/
def walk : Path → List String → Option Path
  | _, [] => none
  | here, [last] => if H.takes (here ++ [last]) then some (here ++ [last]) else none
  | here, name :: rest =>
    if name = ".." then walk here.dropLast rest
    else if H.isDir (here ++ [name]) then walk (here ++ [name]) rest
    else none

/-- The names of a path that is written out, as `pathlib` has them. -/
def parts (text : String) : List String :=
  ((text.toList.splitOn '/').map String.ofList).filter fun part => part ≠ "" ∧ part ≠ "."

/-- The path `directory / text`; an absolute text leaves the directory. -/
def resolve (directory : Path) (text : String) : Option Path :=
  H.walk (if text.toList.head? = some '/' then [] else directory) (parts text)

end Host

/-! ## The adapter -/

variable {C : Type}

/-- How tickets and verdicts are read and written. -/
structure Format (C : Type) where
  /-- `MesTicket.model_validate_json`, or what is wrong -/
  parse : C → Except String MesTicket
  dump : MesVerdict → C
  /-- the three-part message about a file that is no ticket -/
  reason : String → String → C

/-- The files, and those that were accepted as tickets so far. -/
structure MesWorld (C : Type) where
  volume : Volume Path C
  accepted : List (VolumeFile C) := []

variable (H : Host) (F : Format C)

/-- Where `shutil.move` puts a file: into a directory of that name, if there is one. -/
def landing (src dst : Path) (v : Volume Path C) : Option Path :=
  if H.isDir dst then
    let inner := dst ++ [src.getLastD ""]
    if (v.files inner).isSome ∨ H.isDir inner then none else some inner
  else some dst

/-- `f"\x7bticket_no\x7d.json"` -/
def jsonName (ticketNo : String) : String := ticketNo ++ ".json"

/-- Where a file of the inbox goes that is accepted as a ticket. -/
def destination (src : Path) (ticketNo : String) (v : Volume Path C) : Option Path :=
  (H.resolve (H.dir "processing") (jsonName ticketNo)).bind fun dst => landing H src dst v

/-- One file of the inbox, in the loop of `poll`: a ticket, or what is wrong with it. -/
def take (name : String) (w : MesWorld C) :
    Except String (Except String MesTicket) × MesWorld C :=
  let src := H.dir "inbox" ++ [name]
  match w.volume.files src with
  | none => (.error "No such file", w)
  | some file =>
    match F.parse file.content with
    | .error why =>
      match landing H src (H.dir "rejected" ++ [name]) w.volume with
      | none => (.error "the destination exists", w)
      | some dst => (.ok (.error why), { w with volume := w.volume.rename src dst })
    | .ok ticket =>
      match destination H src ticket.ticketNo w.volume with
      | none => (.error "the file cannot be moved", w)
      | some dst => (.ok (.ok ticket),
          { volume := w.volume.rename src dst, accepted := w.accepted ++ [file] })

/-- The reason beside a rejected file. -/
def explain (name why : String) (w : MesWorld C) : MesWorld C :=
  let path := H.dir "rejected" ++ [name ++ ".reason.txt"]
  if H.isDir path ∨ ¬ H.takes path then w
  else { w with volume := w.volume.write path (F.reason name why) }

/-- `poll`, over the names that `glob` lists; what raises ends it. -/
def poll : List String → MesWorld C → Except String (List MesTicket) × MesWorld C
  | [], w => (.ok [], w)
  | name :: names, w =>
    let taken := take H F name w
    match taken.1 with
    | .error e => (.error e, taken.2)
    | .ok (.error why) => poll names (explain H F name why taken.2)
    | .ok (.ok ticket) =>
      let rest := poll names taken.2
      (rest.1.map (ticket :: ·), rest.2)

/-- The verdict in the outbox. -/
def outbox (verdict : MesVerdict) (w : MesWorld C) : Except String Unit × MesWorld C :=
  match H.resolve (H.dir "outbox") (jsonName verdict.ticketNo) with
  | none => (.error "the verdict cannot be written", w)
  | some path =>
    if H.isDir path then (.error "Is a directory", w)
    else (.ok (), { w with volume := w.volume.write path (F.dump verdict) })

/-- Where a ticket that is reported lies, and where it goes. -/
def doneMove (ticketNo : String) (v : Volume Path C) : Option (Path × Path) :=
  (H.resolve (H.dir "processing") (jsonName ticketNo)).bind fun src =>
    if (v.files src).isSome then
      (landing H src (H.dir "done" ++ [src.getLastD ""]) v).map fun dst => (src, dst)
    else none

/-- A ticket that is there goes from `processing` to `done`. -/
def finish (ticketNo : String) (w : MesWorld C) : MesWorld C :=
  match doneMove H ticketNo w.volume with
  | none => w
  | some (src, dst) => { w with volume := w.volume.rename src dst }

def report (verdict : MesVerdict) (w : MesWorld C) : Except String Unit × MesWorld C :=
  let written := outbox H F verdict w
  match written.1 with
  | .error e => (.error e, written.2)
  | .ok () => (.ok (), finish H verdict.ticketNo written.2)

/-! ## One file at a time -/

/-- What happens to the files at once: the system drops a file in the inbox, or the adapter
    moves or writes one. -/
inductive MesEvent (C : Type) where
  | drop (name : String) (content : C)
  | take (name : String)
  | explain (name why : String)
  | outbox (verdict : MesVerdict)
  | finish (ticketNo : String)

def step (w : MesWorld C) : MesEvent C → MesWorld C
  | .drop name content =>
    { w with volume := w.volume.write (H.dir "inbox" ++ [name]) content }
  | .take name => (take H F name w).2
  | .explain name why => explain H F name why w
  | .outbox verdict => (outbox H F verdict w).2
  | .finish ticketNo => finish H ticketNo w

/-- What a poll does, in order; a crash cuts it short. -/
def pollEvents : List String → MesWorld C → List (MesEvent C)
  | [], _ => []
  | name :: names, w =>
    let taken := take H F name w
    .take name ::
      match taken.1 with
      | .error _ => []
      | .ok (.error why) => .explain name why :: pollEvents names (explain H F name why taken.2)
      | .ok (.ok _) => pollEvents names taken.2

def reportEvents (verdict : MesVerdict) (w : MesWorld C) : List (MesEvent C) :=
  .outbox verdict ::
    match (outbox H F verdict w).1 with
    | .error _ => []
    | .ok () => [.finish verdict.ticketNo]

variable {H F} {w : MesWorld C}

theorem poll_eq_run (names : List String) (w : MesWorld C) :
    (poll H F names w).2 = Runs.run (step H F) w (pollEvents H F names w) := by
  induction names generalizing w with
  | nil => rfl
  | cons name names ih =>
    rw [poll, pollEvents, Runs.run_cons]
    have hstep : step H F w (.take name) = (take H F name w).2 := rfl
    rw [hstep]
    dsimp only
    cases (take H F name w).1 with
    | error e => rfl
    | ok outcome =>
      cases outcome with
      | error why => exact ih _
      | ok ticket => exact ih _

theorem report_eq_run (verdict : MesVerdict) (w : MesWorld C) :
    (report H F verdict w).2 = Runs.run (step H F) w (reportEvents H F verdict w) := by
  rw [report, reportEvents, Runs.run_cons]
  have hstep : step H F w (.outbox verdict) = (outbox H F verdict w).2 := rfl
  rw [hstep]
  cases (outbox H F verdict w).1 with
  | error e => rfl
  | ok => rfl

/-! ## When every ticket is kept -/

variable (H F)

/-- Directly in `processing` or `done`. -/
def Inside (path : Path) : Prop :=
  ∃ name, path = H.dir "processing" ++ [name] ∨ path = H.dir "done" ++ [name]

/-- The file of each accepted ticket is in exactly one place in `processing` or `done`. -/
def NoneLost (w : MesWorld C) : Prop :=
  ∀ f ∈ w.accepted, ∃! path, Inside H path ∧ w.volume.files path = some f

/-- No file of an accepted ticket lies there. -/
def Free (w : MesWorld C) (path : Path) : Prop := w.volume.Spares w.accepted path

/-- A ticket goes into `processing` or `done`, and nothing goes where the file of an accepted
    ticket lies. -/
def Safe (w : MesWorld C) : MesEvent C → Prop
  | .take name =>
    let src := H.dir "inbox" ++ [name]
    ∀ file ticket dst, w.volume.files src = some file → F.parse file.content = .ok ticket →
      destination H src ticket.ticketNo w.volume = some dst → Inside H dst ∧ Free w dst
  | .outbox verdict =>
    ∀ path, H.resolve (H.dir "outbox") (jsonName verdict.ticketNo) = some path →
      H.isDir path = false → Free w path
  | .finish ticketNo =>
    ∀ src dst file, doneMove H ticketNo w.volume = some (src, dst) →
      w.volume.files src = some file →
        (file ∈ w.accepted → Inside H dst) ∧ (src ≠ dst → Free w dst)
  | _ => True

variable {H F}

/-- The files that were accepted are older than the next one. -/
def Bounded (w : MesWorld C) : Prop := ∀ f ∈ w.accepted, f.inode < w.volume.next

theorem noneLost_iff : NoneLost H w ↔ w.volume.Keeps (Inside H) w.accepted :=
  Volume.keeps_iff_existsUnique.symm

theorem not_inside {place name : String} (hprocessing : place ≠ "processing")
    (hdone : place ≠ "done") : ¬ Inside H (H.dir place ++ [name]) := by
  rintro ⟨other, h | h⟩ <;> simp [Host.dir] at h <;> simp_all

/-- What lies elsewhere is no file of an accepted ticket. -/
theorem free_of_not_inside {path : Path} (hkept : w.volume.Keeps (Inside H) w.accepted)
    (hpath : ¬ Inside H path) : Free w path := by
  intro f hf hmem
  obtain ⟨other, hin, hother⟩ := hkept f hmem
  exact hpath (Volume.path_unique hother hf ▸ hin)

/-- A file that is rejected lands where no ticket lies. -/
theorem landing_rejected {src dst : Path} {name : String}
    (h : landing H src (H.dir "rejected" ++ [name]) w.volume = some dst) : ¬ Inside H dst := by
  unfold landing at h
  dsimp only at h
  split_ifs at h
  · cases h
    rintro ⟨other, h | h⟩ <;> simp [Host.dir] at h
  · cases h
    exact not_inside (by decide) (by decide)

theorem take_step (name : String) (hbounded : Bounded w) (hkept : NoneLost H w) :
    Bounded (take H F name w).2 ∧ (NoneLost H (take H F name w).2 ↔ Safe H F w (.take name)) := by
  rw [noneLost_iff] at hkept ⊢
  have hsrc : ¬ Inside H (H.dir "inbox" ++ [name]) := not_inside (by decide) (by decide)
  unfold take Safe
  dsimp only
  cases hfile : w.volume.files (H.dir "inbox" ++ [name]) with
  | none => exact ⟨hbounded, iff_of_true hkept nofun⟩
  | some file =>
    have hfree := free_of_not_inside hkept hsrc file hfile
    dsimp only
    cases hparse : F.parse file.content with
    | error why =>
      dsimp only
      have hsafe : ∀ file' ticket dst, some file = some file' →
          F.parse file'.content = .ok ticket → destination H (H.dir "inbox" ++ [name])
            ticket.ticketNo w.volume = some dst → Inside H dst ∧ Free w dst := by
        rintro file' ticket dst ⟨⟩ hok
        rw [hparse] at hok
        cases hok
      cases hlanding : landing H (H.dir "inbox" ++ [name]) (H.dir "rejected" ++ [name])
          w.volume with
      | none => exact ⟨hbounded, iff_of_true hkept hsafe⟩
      | some dst =>
        refine ⟨hbounded, iff_of_true ((Volume.keeps_rename_iff hfile hkept).mpr ?_) hsafe⟩
        exact ⟨fun hmem => absurd hmem hfree,
          fun _ => free_of_not_inside hkept (landing_rejected hlanding)⟩
    | ok ticket =>
      dsimp only
      cases hdst : destination H (H.dir "inbox" ++ [name]) ticket.ticketNo w.volume with
      | none =>
        refine ⟨hbounded, iff_of_true hkept ?_⟩
        rintro file' ticket' dst ⟨⟩ hok hdst'
        rw [hparse] at hok
        cases hok
        rw [hdst] at hdst'
        cases hdst'
      | some dst =>
        constructor
        · intro f hf
          rcases List.mem_append.mp hf with hf | hf
          · exact hbounded f hf
          · rw [List.mem_singleton.mp hf]
            exact w.volume.bounded _ file hfile
        · refine (Volume.keeps_rename_concat_iff hfile hkept).trans ?_
          constructor
          · rintro ⟨hin, hspares⟩ file' ticket' dst' ⟨⟩ hok hdst'
            rw [hparse] at hok
            cases hok
            rw [hdst] at hdst'
            cases hdst'
            exact ⟨hin, hspares fun heq => hsrc (heq ▸ hin)⟩
          · intro h
            obtain ⟨hin, hfree⟩ := h file ticket dst rfl hparse hdst
            exact ⟨hin, fun _ => hfree⟩

theorem explain_step (name why : String) (hbounded : Bounded w) (hkept : NoneLost H w) :
    Bounded (explain H F name why w) ∧ NoneLost H (explain H F name why w) := by
  rw [noneLost_iff] at hkept ⊢
  unfold explain
  dsimp only
  split_ifs
  · exact ⟨hbounded, hkept⟩
  · refine ⟨fun f hf => Nat.lt_succ_of_lt (hbounded f hf), ?_⟩
    exact (Volume.keeps_write_iff hbounded hkept).mpr
      (free_of_not_inside hkept (not_inside (by decide) (by decide)))

theorem outbox_step (verdict : MesVerdict) (hbounded : Bounded w) (hkept : NoneLost H w) :
    Bounded (outbox H F verdict w).2 ∧
      (NoneLost H (outbox H F verdict w).2 ↔ Safe H F w (.outbox verdict)) := by
  rw [noneLost_iff] at hkept ⊢
  unfold outbox Safe
  dsimp only
  cases hpath : H.resolve (H.dir "outbox") (jsonName verdict.ticketNo) with
  | none => exact ⟨hbounded, iff_of_true hkept nofun⟩
  | some path =>
    dsimp only
    split_ifs with hdir
    · refine ⟨hbounded, iff_of_true hkept ?_⟩
      rintro path' ⟨⟩ hnot
      rw [hdir] at hnot
      cases hnot
    · refine ⟨fun f hf => Nat.lt_succ_of_lt (hbounded f hf), ?_⟩
      refine (Volume.keeps_write_iff hbounded hkept).trans ?_
      constructor
      · rintro hfree path' ⟨⟩ -
        exact hfree
      · exact fun h => h path rfl (Bool.not_eq_true _ ▸ hdir)

theorem finish_step (ticketNo : String) (hbounded : Bounded w) (hkept : NoneLost H w) :
    Bounded (finish H ticketNo w) ∧
      (NoneLost H (finish H ticketNo w) ↔ Safe H F w (.finish ticketNo)) := by
  rw [noneLost_iff] at hkept ⊢
  unfold finish Safe
  dsimp only
  cases hmove : doneMove H ticketNo w.volume with
  | none => exact ⟨hbounded, iff_of_true hkept nofun⟩
  | some move =>
    obtain ⟨src, dst⟩ := move
    have hsome : (w.volume.files src).isSome := by
      obtain ⟨src', -, hif⟩ := Option.bind_eq_some_iff.mp hmove
      split_ifs at hif with hsome
      obtain ⟨dst', -, hpair⟩ := Option.map_eq_some_iff.mp hif
      cases hpair
      exact hsome
    obtain ⟨file, hfile⟩ := Option.isSome_iff_exists.mp hsome
    refine ⟨hbounded, (Volume.keeps_rename_iff hfile hkept).trans ?_⟩
    constructor
    · rintro h src' dst' file' ⟨⟩ hfile'
      rw [hfile] at hfile'
      cases hfile'
      exact h
    · exact fun h => h src dst file rfl hfile

/-- One step keeps every accepted ticket exactly if it is safe. -/
theorem step_noneLost (e : MesEvent C) (hbounded : Bounded w) (hkept : NoneLost H w) :
    Bounded (step H F w e) ∧ (NoneLost H (step H F w e) ↔ Safe H F w e) := by
  cases e with
  | drop name content =>
    refine ⟨fun f hf => Nat.lt_succ_of_lt (hbounded f hf), iff_of_true ?_ trivial⟩
    rw [noneLost_iff] at hkept ⊢
    exact (Volume.keeps_write_iff hbounded hkept).mpr
      (free_of_not_inside hkept (not_inside (by decide) (by decide)))
  | take name => exact take_step name hbounded hkept
  | explain name why =>
    obtain ⟨hb, hk⟩ := @explain_step C H F w name why hbounded hkept
    exact ⟨hb, iff_of_true hk trivial⟩
  | outbox verdict => exact outbox_step verdict hbounded hkept
  | finish ticketNo => exact finish_step ticketNo hbounded hkept

/-- **No ticket is lost**, whatever is dropped, polled and reported and wherever the process
    dies, exactly if each accepted file goes into `processing` or `done` and nothing ever goes
    where the file of an accepted ticket lies. -/
theorem none_lost_iff (H : Host) (F : Format C) (v : Volume Path C) (es : List (MesEvent C)) :
    Runs.Throughout (step H F) (NoneLost H) { volume := v } es ↔
      Runs.Meets (step H F) (Safe H F) { volume := v } es :=
  Runs.throughout_iff_of_invariant (fun _ e hb hk => (step_noneLost e hb hk).1)
    (fun _ e hb hk => (step_noneLost e hb hk).2) nofun nofun

-- Two files with one ticket number

def numbered (unitSn : String) (hunit : unitSn ≠ "") : MesTicket where
  ticketNo := "MES-1"
  station := "L1"
  unitSn
  requestedBy := "mes"
  ticketNo_ne := by decide
  station_ne := by decide
  unitSn_ne := hunit
  requestedBy_ne := by decide

def sameNumber : Format Bool where
  parse second := .ok (if second then numbered "SN-2" (by decide) else numbered "SN-1" (by decide))
  dump _ := false
  reason _ _ := false

def line : Host where
  root := []
  isDir path := path.length ≤ 1
  takes _ := true

def dropped : MesWorld Bool :=
  Runs.run (step line sameNumber) { volume := .empty Path Bool }
    [.drop "a.json" false, .drop "b.json" true]

/-- Both tickets are accepted, and the file of the first is gone. -/
theorem same_number_lost :
    (poll line sameNumber ["a.json", "b.json"] dropped).1.toOption.map (·.map (·.unitSn)) =
        some ["SN-1", "SN-2"] ∧
      ¬ NoneLost line (poll line sameNumber ["a.json", "b.json"] dropped).2 := by
  have hvolume : (poll line sameNumber ["a.json", "b.json"] dropped).2.volume =
      ((((Volume.empty Path Bool).write ["inbox", "a.json"] false).write
        ["inbox", "b.json"] true).rename ["inbox", "a.json"] ["processing", "MES-1.json"]).rename
          ["inbox", "b.json"] ["processing", "MES-1.json"] := rfl
  refine ⟨by decide +kernel, fun hkept => ?_⟩
  obtain ⟨path, ⟨-, hpath⟩, -⟩ := hkept ⟨0, false⟩ (by decide +kernel)
  simp only [hvolume, Volume.files_rename, Volume.files_write, Volume.next_write] at hpath
  split_ifs at hpath <;> simp_all [Volume.empty]

end Mes

end Slas
