/-
  Slas.Api.People

  The people of the platform (`slas_api.service`) and the statements of `update_person`: each reads
  what is committed when it runs, and what a call changes is seen by others once it is committed.

  A session of the database keeps the rows it has loaded: a later statement finds them again as
  they were then.
-/

import Slas.Lib.DateTime
import Slas.Lib.Pool

namespace Slas

namespace Api

/-! ## People and roles -/

structure Person where
  email : String
  role : String
  passwordHash : String := ""
  mustChangePassword : Bool := false
  isActive : Bool
  lastSignInAt : Option DateTime := none
  deriving DecidableEq

/-- The roles by id, and whether each may manage people. -/
abbrev Roles := List (String × Bool)

/-- The table of people, by id. -/
structure People where
  rows : List (String × Person)
  nodup : (Dict.keys rows).Nodup

namespace People

def get (people : People) (id : String) : Option Person := people.rows.lookup id

def set (people : People) (id : String) (person : Person) : People :=
  ⟨Dict.set id person people.rows, Dict.nodup_keys_set people.nodup⟩

end People

def holdsAdmin (roles : Roles) (person : Person) : Bool := (roles.lookup person.role).getD false

/-- Active, and holding a role that may manage people. -/
def isAdministrator (roles : Roles) (person : Person) : Bool :=
  person.isActive && holdsAdmin roles person

/-- `active_administrators`: who is active is read from the table, the role of a person that the
    session has loaded is the one it has loaded. -/
def activeAdministrators (roles : Roles) (loaded : List (String × Person)) (people : People) :
    Nat :=
  (people.rows.filter fun item => item.2.isActive).countP fun item =>
    holdsAdmin roles ((loaded.lookup item.1).getD item.2)

/-! ## `update_person` -/

structure PatchPerson where
  /-- The person who is signed in; none for the command line. -/
  actor : Option String
  personId : String
  role : Option String := none
  isActive : Option Bool := none

inductive Refusal where
  | notSignedIn
  | notAllowed
  | personNotFound
  | unknownRole (role : String)
  | switchOffSelf
  | lastAdminSwitchOff
  | lastAdminRole
  deriving DecidableEq

namespace PatchPerson

variable (roles : Roles) (request : PatchPerson) (people : People)
  (loaded : List (String × Person)) (person : Person)

/-- The actor is signed in, active and may manage people: the rows that are loaded by then, and
    the subject of the actor. -/
def authorise : Except Refusal (List (String × Person) × Option String) :=
  match request.actor with
  | none => .ok ([], none)
  | some actor =>
    match people.get actor with
    | none => .error .notSignedIn
    | some row =>
      if row.isActive = false then .error .notSignedIn
      else if holdsAdmin roles row = false then .error .notAllowed
      else .ok ([(actor, row)], some row.email)

/-- `get_person`, and the check of the role's name. -/
def read : Except Refusal Person :=
  match (loaded.lookup request.personId).or (people.get request.personId) with
  | none => .error .personNotFound
  | some person =>
    match request.role with
    | some role =>
      if (roles.lookup role).isNone then .error (.unknownRole role) else .ok person
    | none => .ok person

/-- The guard of a switch off. -/
def guardSwitchOff (subject : Option String) : Option Refusal :=
  if request.isActive = some false then
    if subject = some person.email then some .switchOffSelf
    else if isAdministrator roles person ∧ activeAdministrators roles loaded people ≤ 1 then
      some .lastAdminSwitchOff
    else none
  else none

/-- The guard of a change of the role. -/
def guardRole : Option Refusal :=
  match request.role with
  | none => none
  | some role =>
    if role ≠ person.role ∧ isAdministrator roles person ∧ roles.lookup role = some false ∧
        activeAdministrators roles loaded people ≤ 1 then some .lastAdminRole
    else none

/-- The columns that the update sets: those that differ from what was read. -/
def changes : Option String × Option Bool :=
  (request.role.filter (· ≠ person.role), request.isActive.filter (· ≠ person.isActive))

/-- The row after the update. -/
def applied (row : Person) : Person :=
  { row with role := (request.changes person).1.getD row.role
             isActive := (request.changes person).2.getD row.isActive }

end PatchPerson

end Api

end Slas
