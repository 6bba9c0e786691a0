/-
  Slas.Api.Passwords

  The password and the sessions of one person: the statements of `sign_in`, `reset_password` and
  `change_own_password` (`slas_api.service`), each a transaction of its own at read committed.

  A transaction that has written the person's row holds it until it ends, and another one that
  wants to write it waits.  What it has written is seen by others once it is committed.
-/

import Slas.Api.People
import Slas.Lib.Text

namespace Slas

namespace Api

/-- `Passwords`, and `str.lower`. -/
structure Passwords where
  /-- Of a hash and a password. -/
  verify : String → String → Bool
  needsRehash : String → Bool
  lower : String → String

def MIN_PASSWORD_LENGTH : Nat := 12

/-- `check_password_policy` has no objection. -/
def Passwords.acceptable (P : Passwords) (password email : String) : Bool :=
  MIN_PASSWORD_LENGTH ≤ password.length &&
    P.lower (String.ofList (Text.strip password.toList)) !=
      P.lower (String.ofList (Text.strip email.toList))

structure SessionRow where
  id : String
  tokenSha256 : String
  createdAt : DateTime
  lastSeenAt : DateTime
  expiresAt : DateTime
  /-- Which password was checked when the session was opened: that of the reset or change of this
      number. -/
  checked : Nat
  deriving DecidableEq

/-- What is committed about a person. -/
structure Account where
  person : Person
  sessions : List SessionRow := []
  /-- Each reset or change of the password, in order, with the session it keeps. -/
  changes : List (Option String) := []
  /-- Of how many of them the password is the last. -/
  generation : Nat := 0
  /-- The transaction that holds the person's row. -/
  lock : Option Nat := none

/-- `resolve_session`: the session of a token, unless it has expired or the person is switched
    off. -/
def Account.resolve (account : Account) (token : String) (now : DateTime) : Option SessionRow :=
  match account.sessions.find? fun row => row.tokenSha256 = token with
  | none => none
  | some row => if row.expiresAt ≤ now ∨ account.person.isActive = false then none else some row

inductive PasswordRequest where
  | signIn (password : String)
  | reset
  | change (token current new : String)

/-- How far a call has come, with what it has read and what it has written. -/
inductive PasswordCall where
  | begun (request : PasswordRequest)
  /-- `sign_in` has verified a password against the hash. -/
  | verified (hash : String) (checked : Nat)
  /-- The settings are read; a new hash of the same password is written with them. -/
  | settled (rehash : Option String) (hours checked : Nat)
  /-- The session is inserted. -/
  | inserted (rehash : Option String) (row : SessionRow)
  /-- `resolve_session` has read the session. -/
  | resolved (row : SessionRow) (current new : String)
  /-- The password may be set; `kept` is the session to keep, as it will be. -/
  | allowed (kept : Option SessionRow)
  /-- The hash is written. -/
  | written (hash : String) (kept : Option SessionRow)
  /-- The sessions are deleted. -/
  | revoked (hash : String) (kept : Option SessionRow) (ids : List String)

/-- How a statement goes: the clock, the settings, and what is drawn at random. -/
inductive Statement where
  | next (now : DateTime) (hours : Nat) (id token hash : String)
  /-- The transaction is rolled back. -/
  | fails

namespace PasswordCall

variable (P : Passwords) (n : Nat) (d : Account)

def hours (h : Nat) : Nat := h * 3600000000

/-- The end of a transaction that has committed nothing. -/
def rollback : Account := if d.lock = some n then { d with lock := none } else d

/-- Nobody else holds the person's row. -/
def free : Bool := d.lock = none ∨ d.lock = some n

/-- The columns of a session that is kept. -/
def slide (kept : Option SessionRow) (row : SessionRow) : SessionRow :=
  match kept with
  | none => row
  | some k =>
    if row.id = k.id then { row with lastSeenAt := k.lastSeenAt, expiresAt := k.expiresAt } else row

def commitSignIn (rehash : Option String) (row : SessionRow) : Account :=
  { d with
    person := { d.person with
      passwordHash := rehash.getD d.person.passwordHash, lastSignInAt := some row.createdAt }
    generation := if rehash.isSome then row.checked else d.generation
    sessions := d.sessions ++ [row]
    lock := none }

/-- A reset makes a password for one use, a change does not. -/
def commitPassword (hash : String) (kept : Option SessionRow) (ids : List String) : Account :=
  { person := { d.person with passwordHash := hash, mustChangePassword := kept.isNone }
    sessions := (d.sessions.filter fun row => row.id ∉ ids).map (slide kept)
    changes := d.changes ++ [kept.map (·.id)]
    generation := d.changes.length + 1
    lock := none }

def advance (call : PasswordCall) : Statement → Account × Option PasswordCall
  | .fails => (rollback n d, none)
  | .next now h id token hash =>
    match call with
    | .begun (.signIn password) =>
      if P.verify d.person.passwordHash password && d.person.isActive then
        (d, some (.verified d.person.passwordHash d.generation))
      else (d, none)
    | .verified old checked =>
      if P.needsRehash old then
        if free n d then ({ d with lock := some n }, some (.settled (some hash) h checked))
        else (d, some call)
      else (d, some (.settled none h checked))
    | .settled rehash h checked =>
      if free n d then
        if d.sessions.any fun row => row.id = id ∨ row.tokenSha256 = token then (rollback n d, none)
        else ({ d with lock := some n },
          some (.inserted rehash ⟨id, token, now, now, now + hours h, checked⟩))
      else (d, some call)
    | .inserted rehash row => (commitSignIn d rehash row, none)
    | .begun .reset => (d, some (.allowed none))
    | .begun (.change token current new) =>
      match d.sessions.find? fun row => row.tokenSha256 = token with
      | none => (d, none)
      | some row =>
        if row.expiresAt ≤ now then
          ({ d with sessions := d.sessions.filter fun other => other.id ≠ row.id }, none)
        else (d, some (.resolved { row with
          lastSeenAt := now, expiresAt := now + (row.expiresAt - row.lastSeenAt) } current new))
    | .resolved row current new =>
      if d.person.isActive = false then ({ d with sessions := [] }, none)
      else if P.verify d.person.passwordHash current && P.acceptable new d.person.email then
        (d, some (.allowed (some row)))
      else (d, none)
    | .allowed kept =>
      if free n d then
        -- the row of the session that is kept is written with the person's, and must be there
        if kept.all fun k => d.sessions.any fun row => row.id = k.id then
          ({ d with lock := some n }, some (.written hash kept))
        else (rollback n d, none)
      else (d, some call)
    | .written hash kept =>
      (d, some (.revoked hash kept
        ((d.sessions.map (·.id)).filter fun id => kept.all fun k => k.id ≠ id)))
    | .revoked hash kept ids => (commitPassword d hash kept ids, none)

end PasswordCall

end Api

end Slas
