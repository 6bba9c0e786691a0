/-
  Slas.Factory.Enrolment

  Admin → Stations (`slas_factory_executor.stations`): one-time enrolment codes,
  and the registry they are kept in.

  The registry locks each write and no request.  A redeem reads the code, checks
  it, and writes the code back as it read it, used or with one more attempt; what
  another request wrote in between is gone.  When nothing happens to a station's
  code between a redeem's reading and its last write, a code grants once, not
  after it has expired or was cancelled, and at most `max_attempts` wrong codes
  are compared with it.
-/

import Mathlib.Logic.Function.Basic
import Slas.Kernel.World
import Slas.Lib.Sections

namespace Slas

open Sections (System State Event Alone Everywhere Along Settled)

/-! ## Records -/

/-- `StationRecord`; `config` is what `config()` dumps of the settings an
    administrator wrote. -/
structure StationRecord where
  name : String
  config : Json := .obj []
  runnerUrl : Option String := none
  enrolledAt : Option DateTime := none
  certFingerprint : Option String := none
  batchKeyId : Option String := none

/-- `EnrolmentCode`; `serial` says which issue it comes from, and nothing reads it. -/
structure EnrolmentCode where
  station : String
  salt : String
  codeHash : String
  issuedAt : DateTime
  expiresAt : DateTime
  issuedBy : String
  usedAt : Option DateTime := none
  attempts : Nat := 0
  serial : Nat := 0

structure IssuedCode where
  station : String
  code : String
  expiresAt : DateTime
  sentence : String

structure EnrolmentRequest where
  station : String
  code : String
  runnerUrl : String

structure EnrolmentGrant where
  station : String
  caPem : String
  clientCertPem : String
  clientKeyPem : String
  certFingerprint : String
  batchKeyId : String
  batchKey : String
  config : Json
  sentence : String

/-- What a redeem is going to get from the certificate authority and from the
    random generator. -/
structure Minted where
  certPem : String
  keyPem : String
  fingerprint : String
  batchKey : String

/-! ## The registry -/

/-- What happened to the codes of a station: the record the theorems are about. -/
inductive Mark where
  | issued (station : String) (serial : Nat)
  | revoked (station : String)
  /-- A wrong code was compared with the pending one. -/
  | wrong (station : String) (serial : Nat)
  | granted (station : String) (serial : Nat) (expiresAt at_ : DateTime)
  deriving DecidableEq

/-- How a request ends. -/
inductive Answer where
  | code (issued : IssuedCode)
  | grant (grant : EnrolmentGrant)
  | record (record : StationRecord)
  /-- `StationError` -/
  | refused (message : ThreePartMessage)

/-- `Factory/stations.json`, the key files beside it, and the clock. -/
structure Registry where
  clock : DateTime
  stations : String → Option StationRecord
  codes : String → Option EnrolmentCode := fun _ => none
  keyFiles : String → Option String := fun _ => none
  issued : Nat := 0
  log : List Mark := []
  answers : List Answer := []

namespace Registry

/-- `put` -/
def put (record : StationRecord) (g : Registry) : Registry :=
  { g with stations := Function.update g.stations record.name (some record) }

/-- `put_code` -/
def putCode (station : String) (code : Option EnrolmentCode) (g : Registry) : Registry :=
  { g with codes := Function.update g.codes station code }

def putKey (station : String) (key : Option String) (g : Registry) : Registry :=
  { g with keyFiles := Function.update g.keyFiles station key }

def mark (m : Mark) (g : Registry) : Registry := { g with log := g.log ++ [m] }

def answer (a : Answer) (g : Registry) : Registry := { g with answers := g.answers ++ [a] }

section Fields

variable (g : Registry) (s s' : String) (c : Option EnrolmentCode) (m : Mark) (a : Answer)

@[simp] theorem codes_putCode_self : (g.putCode s c).codes s = c := Function.update_self ..

@[simp] theorem codes_putCode_of_ne (h : s' ≠ s) : (g.putCode s c).codes s' = g.codes s' :=
  Function.update_of_ne h ..

@[simp] theorem log_putCode : (g.putCode s c).log = g.log := rfl

@[simp] theorem issued_putCode : (g.putCode s c).issued = g.issued := rfl

@[simp] theorem clock_putCode : (g.putCode s c).clock = g.clock := rfl

@[simp] theorem codes_mark : (g.mark m).codes = g.codes := rfl

@[simp] theorem log_mark : (g.mark m).log = g.log ++ [m] := rfl

@[simp] theorem issued_mark : (g.mark m).issued = g.issued := rfl

@[simp] theorem codes_answer : (g.answer a).codes = g.codes := rfl

@[simp] theorem log_answer : (g.answer a).log = g.log := rfl

@[simp] theorem issued_answer : (g.answer a).issued = g.issued := rfl

end Fields

end Registry

/-! ## Messages -/

def notAdded (name : String) : ThreePartMessage where
  whatHappened := "There is no station called " ++ name ++ "."
  likelyCause := "It has not been added under Admin → Stations."
  whatToDo := "Add the station first, then issue its enrolment code."

def noOpenCode (station : String) : ThreePartMessage where
  whatHappened := "No enrolment code is open for " ++ station ++ "."
  likelyCause := "None was issued, or the last one was already used."
  whatToDo := "Issue a new code under Admin → Stations and enter it on the station."

/-- The format `%H:%M`. -/
def hourText (t : DateTime) : String :=
  let minutes := t / 60000000
  String.ofList (DateTime.pad 2 (minutes % 1440 / 60) ++ ':' :: DateTime.pad 2 (minutes % 60))

def codeExpired (pending : EnrolmentCode) (station : String) : ThreePartMessage where
  whatHappened := "The enrolment code for " ++ station ++ " expired at " ++
    hourText pending.expiresAt ++ "."
  likelyCause := "Codes are valid for a few minutes so a code written down cannot be used later."
  whatToDo := "Issue a new code under Admin → Stations."

def enrolmentLocked (pending : EnrolmentCode) (station : String) : ThreePartMessage where
  whatHappened := "Enrolment of " ++ station ++ " is locked after " ++ toString pending.attempts ++
    " wrong codes."
  likelyCause := "Somebody entered wrong codes too often."
  whatToDo := "Issue a new code under Admin → Stations; that unlocks the station."

def wrongCode (station : String) (left : Nat) : ThreePartMessage where
  whatHappened := "The code for " ++ station ++ " is not right."
  likelyCause := toString left ++ " " ++ (if left = 1 then "attempt" else "attempts") ++
    " left before enrolment locks."
  whatToDo := "Check the code with the administrator who issued it and try again."

/-- The format `%Y%m%d%H%M%S`. -/
def compactStamp (t : DateTime) : String :=
  let seconds := t / 1000000
  let date := DateTime.civilOfDays (seconds / 86400)
  String.ofList (DateTime.pad 4 date.year ++ DateTime.pad 2 date.month ++
    DateTime.pad 2 date.day ++ DateTime.pad 2 (seconds % 86400 / 3600) ++
    DateTime.pad 2 (seconds % 3600 / 60) ++ DateTime.pad 2 (seconds % 60))

/-! ## The service -/

/-- `EnrolmentService`; `sha256` is in hexadecimal. -/
structure EnrolmentService where
  codeTtl : Nat := 15 * 60000000
  maxAttempts : Nat := 5
  caPem : String
  sha256 : String → String
  /-- `normalise_code` -/
  normaliseCode : String → String

/-- A request on its way, by the atomic step it takes next. -/
inductive StationRequest where
  /-- `issue`: `registry.get`, the clock, and `put_code` of the new code. -/
  | issue (station by_ code salt : String)
  | issueNow (station by_ code salt : String)
  | issuePut (station by_ code salt : String) (now : DateTime)
  /-- `redeem`: the clock, `registry.get`, and `code_for` with the checks. -/
  | redeem (r : EnrolmentRequest) (minted : Minted)
  | redeemGet (r : EnrolmentRequest) (minted : Minted) (now : DateTime)
  | redeemCheck (r : EnrolmentRequest) (minted : Minted) (now : DateTime) (record : StationRecord)
  /-- `put_code` of nothing, and of one attempt more. -/
  | expire (r : EnrolmentRequest) (pending : EnrolmentCode)
  | miss (r : EnrolmentRequest) (pending : EnrolmentCode)
  /-- The key file, `put` of the record, and `put_code` of the used code. -/
  | mint (r : EnrolmentRequest) (minted : Minted) (now : DateTime) (record : StationRecord)
      (pending : EnrolmentCode)
  | enrol (r : EnrolmentRequest) (minted : Minted) (now : DateTime) (record : StationRecord)
      (pending : EnrolmentCode)
  | use (r : EnrolmentRequest) (minted : Minted) (now : DateTime) (record : StationRecord)
      (pending : EnrolmentCode)
  /-- `revoke`: `registry.get`, `put`, `put_code` of nothing, and the key file. -/
  | revoke (station : String)
  | revokePut (station : String) (record : StationRecord)
  | revokeCode (station : String) (record : StationRecord)
  | revokeKey (station : String) (record : StationRecord)

namespace EnrolmentService

variable (E : EnrolmentService)

def hashCode (salt code : String) : String := E.sha256 (salt ++ ":" ++ E.normaliseCode code)

/-- The code `issue` writes. -/
def newCode (station by_ code salt : String) (now : DateTime) (serial : Nat) : EnrolmentCode where
  station := station
  salt := salt
  codeHash := E.hashCode salt code
  issuedAt := now
  expiresAt := now + E.codeTtl
  issuedBy := by_
  serial := serial

def issuedCode (station code : String) (expiresAt : DateTime) : IssuedCode where
  station := station
  code := code
  expiresAt := expiresAt
  sentence := "Enter this code on " ++ station ++ " within " ++
    toString (E.codeTtl / 60000000) ++ " minutes: " ++ code ++
    ". It works once; issuing a new code cancels it."

def keyId (r : EnrolmentRequest) (now : DateTime) : String := r.station ++ "-" ++ compactStamp now

/-- The record of a station that enrols. -/
def enrolled (r : EnrolmentRequest) (minted : Minted) (now : DateTime) (record : StationRecord) :
    StationRecord :=
  { record with
    runnerUrl := some r.runnerUrl
    enrolledAt := some now
    certFingerprint := some minted.fingerprint
    batchKeyId := some (keyId r now) }

def grant (r : EnrolmentRequest) (minted : Minted) (now : DateTime) (record : StationRecord) :
    EnrolmentGrant where
  station := r.station
  caPem := E.caPem
  clientCertPem := minted.certPem
  clientKeyPem := minted.keyPem
  certFingerprint := minted.fingerprint
  batchKeyId := keyId r now
  batchKey := minted.batchKey
  config := record.config
  sentence := r.station ++ " is enrolled: certificate " ++ minted.fingerprint ++
    ", batches signed with key " ++ keyId r now ++ ". The executor will reach it at " ++
    r.runnerUrl ++ "."

def refuse (g : Registry) (m : ThreePartMessage) : Registry × Option StationRequest :=
  (g.answer (.refused m), none)

/-- The checks of `redeem` on the code that `code_for` gives. -/
def check (g : Registry) (r : EnrolmentRequest) (minted : Minted) (now : DateTime)
    (record : StationRecord) : Registry × Option StationRequest :=
  match g.codes r.station with
  | none => refuse g (noOpenCode r.station)
  | some pending =>
    if pending.usedAt ≠ none then refuse g (noOpenCode r.station)
    else if pending.expiresAt < now then (g, some (.expire r pending))
    else if E.maxAttempts ≤ pending.attempts then refuse g (enrolmentLocked pending r.station)
    else if E.hashCode pending.salt r.code ≠ pending.codeHash then
      (g.mark (.wrong r.station pending.serial),
        some (.miss r { pending with attempts := pending.attempts + 1 }))
    else (g, some (.mint r minted now record pending))

/-- The next atomic step of a request, and what is left of it. -/
def next (g : Registry) : StationRequest → Registry × Option StationRequest
  | .issue station by_ code salt =>
    match g.stations station with
    | none => refuse g (notAdded station)
    | some _ => (g, some (.issueNow station by_ code salt))
  | .issueNow station by_ code salt => (g, some (.issuePut station by_ code salt g.clock))
  | .issuePut station by_ code salt now =>
    ((({ g with issued := g.issued + 1 }.putCode station
        (some (E.newCode station by_ code salt now g.issued))).mark
        (.issued station g.issued)).answer
      (.code (E.issuedCode station code (now + E.codeTtl))), none)
  | .redeem r minted => (g, some (.redeemGet r minted g.clock))
  | .redeemGet r minted now =>
    match g.stations r.station with
    | none => refuse g (notAdded r.station)
    | some record => (g, some (.redeemCheck r minted now record))
  | .redeemCheck r minted now record => E.check g r minted now record
  | .expire r pending => refuse (g.putCode r.station none) (codeExpired pending r.station)
  | .miss r pending =>
    refuse (g.putCode r.station (some pending))
      (wrongCode r.station (E.maxAttempts - pending.attempts))
  | .mint r minted now record pending =>
    (g.putKey r.station (some (minted.batchKey ++ "\n")), some (.enrol r minted now record pending))
  | .enrol r minted now record pending =>
    (g.put (enrolled r minted now record),
      some (.use r minted now (enrolled r minted now record) pending))
  | .use r minted now record pending =>
    (((g.putCode r.station (some { pending with usedAt := some now })).mark
        (.granted r.station pending.serial pending.expiresAt g.clock)).answer
      (.grant (E.grant r minted now record)), none)
  | .revoke station =>
    match g.stations station with
    | none => refuse g (notAdded station)
    | some record =>
      (g, some (.revokePut station { record with
        runnerUrl := none, enrolledAt := none, certFingerprint := none, batchKeyId := none }))
  | .revokePut station record => (g.put record, some (.revokeCode station record))
  | .revokeCode station record =>
    ((g.putCode station none).mark (.revoked station), some (.revokeKey station record))
  | .revokeKey station record => ((g.putKey station none).answer (.record record), none)

end EnrolmentService

/-- A request as it arrives. -/
def StationRequest.arrives : StationRequest → Bool
  | .issue .. | .redeem .. | .revoke .. => true
  | _ => false

/-- Between a redeem's reading of the code and its last write. -/
def StationRequest.inside : StationRequest → Option String
  | .expire r _ | .miss r _ | .mint r .. | .enrol r .. | .use r .. => some r.station
  | _ => none

/-- The station whose code the next step reads or writes. -/
def StationRequest.touches : StationRequest → Option String
  | .issuePut station .. | .revokeCode station _ => some station
  | .redeemCheck r .. => some r.station
  | q => q.inside

/-- The requests and the registry; the surroundings move the clock. -/
def enrolment (E : EnrolmentService) : System Registry StationRequest String DateTime where
  move g t := if g.clock ≤ t then some { g with clock := t } else none
  starts := StationRequest.arrives
  next := E.next
  touches := StationRequest.touches
  inside := StationRequest.inside

/-! ## What a code may do -/

namespace Mark

def station : Mark → String
  | .issued s _ | .revoked s | .wrong s _ | .granted s .. => s

/-- A grant for the code with that number of a station. -/
def grants (s : String) (n : Nat) : Mark → Bool
  | .granted s' n' _ _ => s' == s && n' == n
  | _ => false

/-- A wrong code compared with the code with that number of a station. -/
def misses (s : String) (n : Nat) : Mark → Bool
  | .wrong s' n' => s' == s && n' == n
  | _ => false

/-- The code that is open after a mark: an issue opens a new one in place of the
    last, a revocation and a grant close it. -/
def turns (s : String) (o : Option Nat) : Mark → Option Nat
  | .issued s' n => if s' = s then some n else o
  | .revoked s' | .granted s' .. => if s' = s then none else o
  | .wrong .. => o

end Mark

/-- The code of a station that was issued, and neither cancelled nor used since. -/
def openCode (s : String) (log : List Mark) : Option Nat := log.foldl (Mark.turns s) none

/-- Each code grants at most once, not after it has expired, only while it is the
    open one, and at most so many wrong codes are compared with it. -/
structure SingleUse (maxAttempts : Nat) (log : List Mark) : Prop where
  once : ∀ s n, log.countP (Mark.grants s n) ≤ 1
  unexpired : ∀ s n expiresAt at_, .granted s n expiresAt at_ ∈ log → at_ ≤ expiresAt
  standing : ∀ before s n expiresAt at_ after, log = before ++ .granted s n expiresAt at_ :: after →
    openCode s before = some n
  attempts : ∀ s n, log.countP (Mark.misses s n) ≤ maxAttempts

@[simp] theorem openCode_append (s : String) (log : List Mark) (m : Mark) :
    openCode s (log ++ [m]) = m.turns s (openCode s log) := by
  simp [openCode]

/-- What happens to another station's code is no matter. -/
theorem turns_of_ne {s : String} {m : Mark} (h : m.station ≠ s) (o : Option Nat) :
    m.turns s o = o := by
  cases m <;> simp_all [Mark.turns, Mark.station]

theorem misses_of_ne {s : String} {m : Mark} (h : m.station ≠ s) (n : Nat) :
    m.misses s n = false := by
  cases m <;> simp_all [Mark.misses, Mark.station]

/-- A growing log, when the new mark is no grant. -/
theorem SingleUse.append {maxAttempts : Nat} {log : List Mark} {m : Mark}
    (h : SingleUse maxAttempts log) (hgrant : ∀ s n, m.grants s n = false)
    (hmiss : ∀ s n, m.misses s n = true → log.countP (Mark.misses s n) < maxAttempts) :
    SingleUse maxAttempts (log ++ [m]) where
  once s n := by simpa [List.countP_append, hgrant] using h.once s n
  unexpired s n expiresAt at_ hmem := by
    rcases List.mem_append.mp hmem with hmem | hmem
    · exact h.unexpired s n expiresAt at_ hmem
    · have := hgrant s n
      rw [← List.mem_singleton.mp hmem] at this
      simp [Mark.grants] at this
  standing before s n expiresAt at_ after heq := by
    rcases List.eq_nil_or_concat after with rfl | ⟨after, m', rfl⟩
    · have := (List.append_inj' heq rfl).2
      have hm := hgrant s n
      rw [List.singleton_inj.mp this] at hm
      simp [Mark.grants] at hm
    · refine h.standing before s n expiresAt at_ after ?_
      have hsplit : log ++ [m] = (before ++ .granted s n expiresAt at_ :: after) ++ [m'] := by
        simpa using heq
      exact (List.append_inj' hsplit rfl).1
  attempts s n := by
    rw [List.countP_append]
    cases hm : m.misses s n with
    | false => simpa [hm] using h.attempts s n
    | true => simpa [hm, Nat.succ_le_iff] using hmiss s n hm

/-- A growing log, when the open code grants for the first time and in time. -/
theorem SingleUse.append_grant {maxAttempts : Nat} {log : List Mark} {s : String} {n : Nat}
    {expiresAt at_ : DateTime} (h : SingleUse maxAttempts log) (hopen : openCode s log = some n)
    (hfirst : log.countP (Mark.grants s n) = 0) (htime : at_ ≤ expiresAt) :
    SingleUse maxAttempts (log ++ [.granted s n expiresAt at_]) where
  once s' n' := by
    rw [List.countP_append]
    by_cases hsame : s = s' ∧ n = n'
    · obtain ⟨rfl, rfl⟩ := hsame
      simp [hfirst, Mark.grants]
    · have hno : (Mark.granted s n expiresAt at_).grants s' n' = false := by
        simpa [Mark.grants] using hsame
      simpa [hno] using h.once s' n'
  unexpired s' n' e t hmem := by
    rcases List.mem_append.mp hmem with hmem | hmem
    · exact h.unexpired s' n' e t hmem
    · obtain ⟨-, -, rfl, rfl⟩ : s' = s ∧ n' = n ∧ e = expiresAt ∧ t = at_ := by simpa using hmem
      exact htime
  standing before s' n' e t after heq := by
    rcases List.eq_nil_or_concat after with rfl | ⟨after, m', rfl⟩
    · obtain ⟨rfl, hmark⟩ := List.append_inj' heq rfl
      obtain ⟨rfl, rfl, -, -⟩ : s = s' ∧ n = n' ∧ expiresAt = e ∧ at_ = t := by simpa using hmark
      exact hopen
    · refine h.standing before s' n' e t after ?_
      have hsplit : log ++ [.granted s n expiresAt at_] =
          (before ++ .granted s' n' e t :: after) ++ [m'] := by
        simpa using heq
      exact (List.append_inj' hsplit rfl).1
  attempts s' n' := by simpa [List.countP_append, Mark.misses] using h.attempts s' n'

/-! ## What each step keeps -/

def Mark.serial : Mark → Option Nat
  | .issued _ n | .wrong _ n | .granted _ n _ _ => some n
  | .revoked _ => none

/-- What is kept of the whole registry: numbers are given out once. -/
structure OfficeKept (maxAttempts : Nat) (g : Registry) : Prop where
  single : SingleUse maxAttempts g.log
  given : ∀ m ∈ g.log, ∀ n ∈ m.serial, n < g.issued
  opened : ∀ s n, openCode s g.log = some n → n < g.issued ∧ g.log.countP (Mark.grants s n) = 0

theorem OfficeKept.congr {maxAttempts : Nat} {g g' : Registry} (h : OfficeKept maxAttempts g)
    (hlog : g'.log = g.log) (hissued : g'.issued = g.issued) : OfficeKept maxAttempts g' :=
  ⟨hlog ▸ h.single, hissued ▸ hlog ▸ h.given, hissued ▸ hlog ▸ h.opened⟩

/-- A code of a station is the open one, and its attempts are counted right. -/
def Stands (s : String) (g : Registry) (code : EnrolmentCode) : Prop :=
  openCode s g.log = some code.serial ∧ g.log.countP (Mark.misses s code.serial) = code.attempts

/-- What is known of a station while no redeem has read its code. -/
def Registry.Free (s : String) (g : Registry) : Prop :=
  ∀ code ∈ g.codes s, code.usedAt = none → Stands s g code

/-- What a redeem that has read the code of a station knows. -/
def Registry.Held (s : String) (g : Registry) : StationRequest → Prop
  | .miss _ pending => Stands s g pending
  | .mint _ _ now _ pending | .enrol _ _ now _ pending | .use _ _ now _ pending =>
    g.codes s = some pending ∧ now ≤ pending.expiresAt ∧ Stands s g pending
  | _ => True

/-- The station of a redeem that has read the clock, and what it read. -/
def StationRequest.began : StationRequest → Option (String × DateTime)
  | .redeemGet r _ now | .redeemCheck r _ now _ | .mint r _ now _ _ | .enrol r _ now _ _
  | .use r _ now _ _ => some (r.station, now)
  | _ => none

/-- The pending code does not expire while a redeem is under way. -/
def InTime (g : Registry) (q : StationRequest) : Prop :=
  ∀ b ∈ q.began, ∀ code ∈ g.codes b.1, b.2 ≤ code.expiresAt → g.clock ≤ code.expiresAt

instance (g : Registry) (q : StationRequest) : Decidable (InTime g q) :=
  inferInstanceAs (Decidable (∀ b ∈ q.began, ∀ code ∈ g.codes b.1,
    b.2 ≤ code.expiresAt → g.clock ≤ code.expiresAt))

theorem countP_eq_zero_of_given {maxAttempts : Nat} {g : Registry} (h : OfficeKept maxAttempts g)
    {f : Mark → Bool} (hf : ∀ m, f m = true → m.serial = some g.issued) :
    g.log.countP f = 0 := by
  refine List.countP_eq_zero.mpr fun m hm hfm => ?_
  exact absurd (h.given m hm g.issued (hf m hfm)) (Nat.lt_irrefl _)

section Steps

variable (E : EnrolmentService) (g : Registry) (q : StationRequest)

/-- A step leaves the codes of other stations alone. -/
theorem next_frame {s : String} (h : q.touches ≠ some s) :
    (E.next g q).1.codes s = g.codes s ∧
      ((E.next g q).1.log = g.log ∨ ∃ m : Mark, m.station ≠ s ∧ (E.next g q).1.log = g.log ++ [m]) := by
  -- the station a step works on is another one
  have hne : ∀ s', q.touches = some s' → s' ≠ s := fun s' hs' heq => h (heq ▸ hs')
  cases q with
  | issue | redeemGet | revoke =>
    simp only [EnrolmentService.next]
    split <;> exact ⟨rfl, .inl rfl⟩
  | redeemCheck r minted now record =>
    have hs := hne r.station rfl
    simp only [EnrolmentService.next, EnrolmentService.check]
    split
    · exact ⟨rfl, .inl rfl⟩
    · split_ifs
      · exact ⟨rfl, .inl rfl⟩
      · exact ⟨rfl, .inl rfl⟩
      · exact ⟨rfl, .inl rfl⟩
      · exact ⟨rfl, .inr ⟨.wrong .., hs, rfl⟩⟩
      · exact ⟨rfl, .inl rfl⟩
  | issuePut station by_ code salt now =>
    have hs := hne station rfl
    exact ⟨by simp [EnrolmentService.next, hs.symm], .inr ⟨.issued .., hs, rfl⟩⟩
  | revokeCode station record =>
    have hs := hne station rfl
    exact ⟨by simp [EnrolmentService.next, hs.symm], .inr ⟨.revoked _, hs, rfl⟩⟩
  | use r minted now record pending =>
    have hs := hne r.station rfl
    exact ⟨by simp [EnrolmentService.next, hs.symm], .inr ⟨.granted .., hs, rfl⟩⟩
  | expire r pending | miss r pending =>
    have hs := hne r.station rfl
    exact ⟨by simp [EnrolmentService.next, EnrolmentService.refuse, hs.symm], .inl rfl⟩
  | issueNow | redeem | mint | enrol | revokePut | revokeKey => exact ⟨rfl, .inl rfl⟩

/-- So what is known of the code of another station stays known. -/
theorem stands_frame {s : String} (h : q.touches ≠ some s) {code : EnrolmentCode}
    (hcode : Stands s g code) : Stands s (E.next g q).1 code := by
  obtain ⟨-, hlog | ⟨m, hm, hlog⟩⟩ := next_frame E g q h
  · exact ⟨hlog ▸ hcode.1, hlog ▸ hcode.2⟩
  · refine ⟨?_, ?_⟩
    · rw [hlog, openCode_append, turns_of_ne hm]
      exact hcode.1
    · simpa [hlog, List.countP_append, misses_of_ne hm] using hcode.2

/-- A step on no station's code marks nothing. -/
theorem next_idle (h : q.touches = none) :
    (E.next g q).1.issued = g.issued ∧ (E.next g q).1.log = g.log := by
  cases q with
  | issue | redeemGet | revoke =>
    simp only [EnrolmentService.next]
    split <;> exact ⟨rfl, rfl⟩
  | issueNow | redeem | revokePut | revokeKey => exact ⟨rfl, rfl⟩
  | redeemCheck | issuePut | revokeCode | use | expire | miss | mint | enrol => cases h

end Steps

/-- A new mark that opens no code, and closes the one it grants for. -/
theorem opened_append {log : List Mark} {bound : Nat} {m : Mark}
    (h : ∀ s n, openCode s log = some n → n < bound ∧ log.countP (Mark.grants s n) = 0)
    (hm : ∀ s o n, m.turns s o = some n → o = some n ∧ m.grants s n = false) (s : String) (n : Nat)
    (hopen : openCode s (log ++ [m]) = some n) :
    n < bound ∧ (log ++ [m]).countP (Mark.grants s n) = 0 := by
  rw [openCode_append] at hopen
  obtain ⟨hbefore, hgrants⟩ := hm s _ n hopen
  obtain ⟨hlt, hzero⟩ := h s n hbefore
  exact ⟨hlt, by simp [List.countP_append, hzero, hgrants]⟩

section Turns

variable {E : EnrolmentService} {g : Registry}

/-- What `issue` writes. -/
theorem issued_kept (hkept : OfficeKept E.maxAttempts g) (s : String) :
    OfficeKept E.maxAttempts { g with issued := g.issued + 1, log := g.log ++ [.issued s g.issued] } ∧
      (g.log ++ [Mark.issued s g.issued]).countP (Mark.misses s g.issued) = 0 := by
  have hfresh : g.log.countP (Mark.grants s g.issued) = 0 :=
    countP_eq_zero_of_given hkept fun m hm => by
      cases m <;> simp_all [Mark.grants, Mark.serial]
  have hunmissed : g.log.countP (Mark.misses s g.issued) = 0 :=
    countP_eq_zero_of_given hkept fun m hm => by
      cases m <;> simp_all [Mark.misses, Mark.serial]
  refine ⟨⟨?_, fun m hm n hn => ?_, fun s' n hopen => ?_⟩, ?_⟩
  · exact hkept.single.append (fun _ _ => rfl) fun _ _ h => by simp [Mark.misses] at h
  · rcases List.mem_append.mp hm with hm | hm
    · exact Nat.lt_succ_of_lt (hkept.given m hm n hn)
    · obtain rfl := List.mem_singleton.mp hm
      obtain rfl := Option.some.inj hn
      exact Nat.lt_succ_self _
  · rw [openCode_append] at hopen
    simp only [Mark.turns] at hopen
    split at hopen
    · rename_i hs
      obtain rfl := Option.some.inj hopen
      exact ⟨Nat.lt_succ_self _, by simp [List.countP_append, ← hs, hfresh, Mark.grants]⟩
    · obtain ⟨hlt, hzero⟩ := hkept.opened s' n hopen
      exact ⟨Nat.lt_succ_of_lt hlt, by simp [List.countP_append, hzero, Mark.grants]⟩
  · simp [List.countP_append, hunmissed, Mark.misses]

/-- A wrong code, compared while the station is not locked. -/
theorem missed_kept (hkept : OfficeKept E.maxAttempts g) {s : String} {pending : EnrolmentCode}
    (hstands : Stands s g pending) (hroom : pending.attempts < E.maxAttempts) :
    OfficeKept E.maxAttempts (g.mark (.wrong s pending.serial)) ∧
      Stands s (g.mark (.wrong s pending.serial))
        { pending with attempts := pending.attempts + 1 } := by
  refine ⟨⟨?_, fun m hm n hn => ?_, ?_⟩, ?_, ?_⟩
  · refine hkept.single.append (fun _ _ => rfl) fun s' n h => ?_
    obtain ⟨rfl, rfl⟩ : s = s' ∧ pending.serial = n := by simpa [Mark.misses] using h
    rw [hstands.2]
    exact hroom
  · rcases List.mem_append.mp hm with hm | hm
    · exact hkept.given m hm n hn
    · obtain rfl := List.mem_singleton.mp hm
      obtain rfl := Option.some.inj hn
      exact (hkept.opened s _ hstands.1).1
  · exact opened_append hkept.opened fun _ _ _ h => ⟨h, rfl⟩
  · rw [Registry.log_mark, openCode_append]
    exact hstands.1
  · simp [List.countP_append, hstands.2, Mark.misses]

/-- A grant for the open code, in time. -/
theorem granted_kept (hkept : OfficeKept E.maxAttempts g) {s : String} {pending : EnrolmentCode}
    (hstands : Stands s g pending) (htime : g.clock ≤ pending.expiresAt) :
    OfficeKept E.maxAttempts (g.mark (.granted s pending.serial pending.expiresAt g.clock)) := by
  obtain ⟨hlt, hfirst⟩ := hkept.opened s _ hstands.1
  refine ⟨hkept.single.append_grant hstands.1 hfirst htime, fun m hm n hn => ?_, ?_⟩
  · rcases List.mem_append.mp hm with hm | hm
    · exact hkept.given m hm n hn
    · obtain rfl := List.mem_singleton.mp hm
      obtain rfl := Option.some.inj hn
      exact hlt
  · refine opened_append hkept.opened fun s' o n h => ?_
    simp only [Mark.turns] at h
    split at h
    · cases h
    · rename_i hs
      exact ⟨h, by simp [Mark.grants, hs]⟩

theorem revoked_kept (hkept : OfficeKept E.maxAttempts g) (s : String) :
    OfficeKept E.maxAttempts (g.mark (.revoked s)) := by
  refine ⟨?_, fun m hm n hn => ?_, ?_⟩
  · exact hkept.single.append (fun _ _ => rfl) fun _ _ h => by simp [Mark.misses] at h
  · rcases List.mem_append.mp hm with hm | hm
    · exact hkept.given m hm n hn
    · obtain rfl := List.mem_singleton.mp hm
      cases hn
  · refine opened_append hkept.opened fun s' o n h => ?_
    simp only [Mark.turns] at h
    split at h
    · cases h
    · exact ⟨h, rfl⟩

end Turns

section Settling

variable {E : EnrolmentService} {g : Registry} {s : String}

/-- A request that ends leaves the key free. -/
theorem settled_end (h : Registry.Free s g) :
    Settled (enrolment E) Registry.Free Registry.Held s g none :=
  ⟨fun _ hq => (nomatch hq), fun _ => h⟩

/-- A request that stays inside goes on knowing what it knows. -/
theorem settled_inside {q : StationRequest} (hin : q.inside = some s) (h : Registry.Held s g q) :
    Settled (enrolment E) Registry.Free Registry.Held s g (some q) := by
  refine ⟨fun q' hq' _ => ?_, fun hout => absurd hin (hout q rfl)⟩
  obtain rfl := Option.some.inj hq'
  exact h

/-- The checks of `redeem` on a code that no other redeem has read. -/
theorem check_keeps {r : EnrolmentRequest} (minted : Minted) (now : DateTime)
    (record : StationRecord) (hkept : OfficeKept E.maxAttempts g)
    (hfree : Registry.Free r.station g) :
    OfficeKept E.maxAttempts (E.check g r minted now record).1 ∧
      Settled (enrolment E) Registry.Free Registry.Held r.station
        (E.check g r minted now record).1 (E.check g r minted now record).2 := by
  have hrefused : ∀ m, OfficeKept E.maxAttempts (EnrolmentService.refuse g m).1 ∧
      Settled (enrolment E) Registry.Free Registry.Held r.station
        (EnrolmentService.refuse g m).1 (EnrolmentService.refuse g m).2 := fun m =>
    ⟨hkept.congr rfl rfl, settled_end hfree⟩
  unfold EnrolmentService.check
  split
  · exact hrefused _
  · rename_i pending hcode
    split_ifs with hused hexpired hlocked hwrong
    · exact hrefused _
    · exact ⟨hkept, settled_inside rfl trivial⟩
    · exact hrefused _
    · have hstands := hfree pending hcode (not_not.mp hused)
      obtain ⟨hkept', hstands'⟩ := missed_kept hkept hstands (Nat.lt_of_not_le hlocked)
      exact ⟨hkept', settled_inside rfl hstands'⟩
    · have hstands := hfree pending hcode (not_not.mp hused)
      exact ⟨hkept, settled_inside rfl ⟨hcode, Nat.le_of_not_lt hexpired, hstands⟩⟩

end Settling

/-- A request is inside a section of a station after a step on its code. -/
theorem next_enters (E : EnrolmentService) {g : Registry} {q q' : StationRequest} {s : String}
    (hq' : q' ∈ (E.next g q).2) (hin : q'.inside = some s) : q.touches = some s := by
  cases q with
  | issue | redeemGet | revoke =>
    simp only [EnrolmentService.next] at hq'
    split at hq'
    · cases hq'
    · obtain rfl := Option.some.inj hq'
      cases hin
  | redeemCheck r minted now record =>
    simp only [EnrolmentService.next, EnrolmentService.check] at hq'
    split at hq'
    · cases hq'
    · split_ifs at hq' <;> first | cases hq'; done | (obtain rfl := Option.some.inj hq'; exact hin)
  | issueNow | redeem | revokePut | revokeCode =>
    obtain rfl := Option.some.inj hq'
    cases hin
  | mint | enrol =>
    obtain rfl := Option.some.inj hq'
    exact hin
  | issuePut | expire | miss | use | revokeKey => cases hq'

/-- A step on the code of a station, when no other request interferes. -/
theorem turn_keeps (E : EnrolmentService) {g : Registry} {q : StationRequest} {s : String}
    (hs : q.touches = some s) (htime : InTime g q) (hkept : OfficeKept E.maxAttempts g)
    (hsettled : Settled (enrolment E) Registry.Free Registry.Held s g (some q)) :
    OfficeKept E.maxAttempts (E.next g q).1 ∧
      Settled (enrolment E) Registry.Free Registry.Held s (E.next g q).1 (E.next g q).2 := by
  cases q with
  | issue | issueNow | redeem | redeemGet | revoke | revokePut | revokeKey => cases hs
  | issuePut station by_ code salt now =>
    obtain rfl := Option.some.inj hs
    obtain ⟨hissued, hzero⟩ := issued_kept hkept station
    refine ⟨hissued.congr rfl rfl, settled_end fun c hc _ => ?_⟩
    obtain rfl : E.newCode station by_ code salt now g.issued = c := by
      simpa [EnrolmentService.next] using hc
    exact ⟨by simp [EnrolmentService.next, Mark.turns, EnrolmentService.newCode], hzero⟩
  | redeemCheck r minted now record =>
    obtain rfl := Option.some.inj hs
    have hfree := hsettled.2 fun q hq => by
      obtain rfl := Option.some.inj hq
      exact fun h => nomatch h
    exact check_keeps minted now record hkept hfree
  | expire r pending =>
    obtain rfl := Option.some.inj hs
    refine ⟨hkept.congr rfl rfl, settled_end fun c hc _ => ?_⟩
    simp [EnrolmentService.next, EnrolmentService.refuse] at hc
  | miss r pending =>
    obtain rfl := Option.some.inj hs
    have hstands := hsettled.1 _ rfl rfl
    refine ⟨hkept.congr rfl rfl, settled_end fun c hc _ => ?_⟩
    obtain rfl : pending = c := by
      simpa [EnrolmentService.next, EnrolmentService.refuse] using hc
    exact hstands
  | mint r minted now record pending | enrol r minted now record pending =>
    obtain rfl := Option.some.inj hs
    have hheld := hsettled.1 _ rfl rfl
    exact ⟨hkept.congr rfl rfl, settled_inside rfl hheld⟩
  | use r minted now record pending =>
    obtain rfl := Option.some.inj hs
    obtain ⟨hcode, hnow, hstands⟩ := hsettled.1 _ rfl rfl
    have hclock := htime _ rfl pending hcode hnow
    refine ⟨?_, settled_end fun c hc hused => ?_⟩
    · exact (granted_kept hkept hstands hclock).congr rfl rfl
    · obtain rfl : { pending with usedAt := some now } = c := by
        simpa [EnrolmentService.next] using hc
      cases hused
  | revokeCode station record =>
    obtain rfl := Option.some.inj hs
    refine ⟨(revoked_kept hkept station).congr rfl rfl, ?_, fun _ c hc => ?_⟩
    · rintro q hq hin
      obtain rfl := Option.some.inj hq
      cases hin
    · simp [EnrolmentService.next] at hc

/-- What one step of a request keeps. -/
theorem enrolment_keeps (E : EnrolmentService) :
    Sections.Keeps (enrolment E) InTime (OfficeKept E.maxAttempts) Registry.Free Registry.Held where
  move_log g t g' hmove hkept := by
    simp only [enrolment] at hmove
    split at hmove
    · obtain rfl := Option.some.inj hmove
      exact hkept.congr rfl rfl
    · cases hmove
  move_free g t g' s hmove hfree := by
    simp only [enrolment] at hmove
    split at hmove
    · obtain rfl := Option.some.inj hmove
      exact hfree
    · cases hmove
  move_held g t g' s q hmove hheld := by
    simp only [enrolment] at hmove
    split at hmove
    · obtain rfl := Option.some.inj hmove
      cases q <;> exact hheld
    · cases hmove
  start q hq := by cases q <;> first | rfl | cases hq
  works q s hq := by cases q <;> first | exact hq | cases hq
  enters g q q' hq' s hin := next_enters E hq' hin
  idle g q hq hkept := by
    obtain ⟨hissued, hlog⟩ := next_idle E g q hq
    exact hkept.congr hlog hissued
  turn g q s hs htime hkept hsettled := turn_keeps E hs htime hkept hsettled
  frame_free g q s hs hfree code hcode hused := by
    have hsame := (next_frame E g q hs).1
    exact stands_frame E g q hs (hfree code (hsame ▸ hcode) hused)
  frame_held g q s q' hs hheld := by
    cases q' with
    | miss r pending => exact stands_frame E g q hs hheld
    | mint r minted now record pending | enrol r minted now record pending
    | use r minted now record pending =>
      obtain ⟨hcode, hnow, hstands⟩ := hheld
      exact ⟨(next_frame E g q hs).1.trans hcode, hnow, stands_frame E g q hs hstands⟩
    | _ => trivial

/-! ## Runs -/

/-- The stations an administrator has added, before any code is issued. -/
def office (stations : String → Option StationRecord) (clock : DateTime) :
    State Registry StationRequest :=
  { store := { clock, stations } }

/-- No step reads or writes the code of a station while a redeem is between its
    reading of it and its last write, and no code expires while a redeem of its
    station is under way. -/
def Uninterfered (E : EnrolmentService) :
    State Registry StationRequest → List (Event DateTime StationRequest) → Prop :=
  Along (enrolment E) fun st ev => Alone (enrolment E) st ev ∧ Everywhere InTime st

instance (E : EnrolmentService) (st : State Registry StationRequest)
    (evs : List (Event DateTime StationRequest)) : Decidable (Uninterfered E st evs) :=
  inferInstanceAs (Decidable (Along (enrolment E)
    (fun st ev => Alone (enrolment E) st ev ∧ Everywhere InTime st) st evs))

/-- **One use**: in every interleaving of issues, redeems and revocations in which no
    request interferes with a redeem, each code grants at most once, in time, while it
    is the open one, and at most `max_attempts` wrong codes are compared with it. -/
theorem codes_single_use (E : EnrolmentService) (stations : String → Option StationRecord)
    (clock : DateTime) {evs : List (Event DateTime StationRequest)}
    {st : State Registry StationRequest}
    (hrun : (enrolment E).run (office stations clock) evs = some st)
    (halone : Uninterfered E (office stations clock) evs) :
    SingleUse E.maxAttempts st.store.log := by
  have hstart : Sections.Invariant (enrolment E) (OfficeKept E.maxAttempts) Registry.Free
      Registry.Held (office stations clock) := by
    have hnobody : ∀ i, (office stations clock).at_ i = none := fun _ => rfl
    refine ⟨⟨?_, ?_, ?_⟩, ?_, ?_, ?_⟩
    · refine ⟨fun _ _ => Nat.zero_le _, fun _ _ _ _ h => (nomatch h), ?_, fun _ _ => Nat.zero_le _⟩
      intro before s n expiresAt at_ after heq
      simp [office] at heq
    · exact fun m hm => nomatch hm
    · exact fun s n h => nomatch h
    · exact fun s _ c hc => nomatch hc
    · exact fun i q hq => by simp [hnobody i] at hq
    · exact fun i j s q hq => by simp [hnobody i] at hq
  exact (Sections.run_invariant (enrolment_keeps E) hrun halone hstart).log.single

/-! ### Two redeems of one code -/

/-- The digest of the salt and the code below. -/
def lineService : EnrolmentService where
  caPem := "-----BEGIN CERTIFICATE-----"
  sha256 text :=
    if text = "0123456789abcdef:ABCDEFGHJKMN" then
      "8715a5be217ef2a74fa0ca69fcbef549b6ce2b618d90825fd3511af01bbe9f85"
    else ""
  normaliseCode code := String.ofList ((code.toList.map Char.toUpper).filter Char.isAlphanum)

def lineStations (name : String) : Option StationRecord :=
  if name = "station-07" then some { name } else none

/-- 2026-09-14T08:00:00Z -/
def lineStart : DateTime := 63951408000000000

def lineRequest (n : Nat) : StationRequest :=
  .redeem { station := "station-07", code := "ABCD-EFGH-JKMN"
            runnerUrl := "https://station-07:" ++ toString n }
    { certPem := "cert " ++ toString n, keyPem := "key " ++ toString n
      fingerprint := "SHA256:" ++ toString n, batchKey := "batch key " ++ toString n }

/-- A code is issued. -/
def issuing : List (Event DateTime StationRequest) :=
  [.start (.issue "station-07" "admin" "ABCD-EFGH-JKMN" "0123456789abcdef"),
   .turn 0, .turn 0, .turn 0]

/-- One redeem after the other: the second one finds the code used. -/
def oneByOne : List (Event DateTime StationRequest) :=
  issuing ++ [.start (lineRequest 1), .turn 1, .turn 1, .turn 1, .turn 1, .turn 1, .turn 1,
    .start (lineRequest 2), .turn 2, .turn 2, .turn 2]

theorem code_grants_once : ∃ st,
    (enrolment lineService).run (office lineStations lineStart) oneByOne = some st ∧
      st.store.log = [.issued "station-07" 0,
        .granted "station-07" 0 (lineStart + 15 * 60000000) lineStart] ∧
      SingleUse 5 st.store.log := by
  have hlog : ((enrolment lineService).run (office lineStations lineStart) oneByOne).map
      (·.store.log) = some [.issued "station-07" 0,
        .granted "station-07" 0 (lineStart + 15 * 60000000) lineStart] := by
    decide +kernel
  obtain ⟨st, hrun, hst⟩ := Option.map_eq_some_iff.mp hlog
  exact ⟨st, hrun, hst, codes_single_use lineService lineStations lineStart hrun (by decide +kernel)⟩

/-- Both redeems read the code before either one writes it back used. -/
def atOnce : List (Event DateTime StationRequest) :=
  issuing ++ [.start (lineRequest 1), .start (lineRequest 2), .turn 1, .turn 1, .turn 1,
    .turn 2, .turn 2, .turn 2, .turn 1, .turn 1, .turn 1, .turn 2, .turn 2, .turn 2]

theorem code_grants_twice : ∃ st,
    (enrolment lineService).run (office lineStations lineStart) atOnce = some st ∧
      ¬ SingleUse 5 st.store.log := by
  have hlog : ((enrolment lineService).run (office lineStations lineStart) atOnce).map
      (fun st => st.store.log.countP (Mark.grants "station-07" 0)) = some 2 := by
    decide +kernel
  obtain ⟨st, hrun, hst⟩ := Option.map_eq_some_iff.mp hlog
  refine ⟨st, hrun, fun h => ?_⟩
  have := h.once "station-07" 0
  omega

end Slas
