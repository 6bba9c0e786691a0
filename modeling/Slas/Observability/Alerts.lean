/-
  Slas.Observability.Alerts

  The local alert channel (`slas_observability.alerts`): the list of alerts that the file keeps,
  how an alert is raised or folded into an entry that is still open, and how Alertmanager's
  webhook is taken in.

  The digest of a fingerprint, its sixteen digits, is a parameter.  The trace id of an alert is
  left out.
-/

import Mathlib.Data.List.Sort
import Slas.Lib.Dict
import Slas.Lib.First
import Slas.Lib.Runs

namespace Slas

namespace Observability

inductive Severity where
  | info
  | warning
  | critical
  deriving DecidableEq

def Severity.rank : Severity → Nat
  | .info => 0
  | .warning => 1
  | .critical => 2

inductive Source where
  | platform
  | alertmanager
  deriving DecidableEq

/-- A dict of strings, each key once. -/
structure Labels where
  items : List (String × String)
  nodup : (Dict.keys items).Nodup

namespace Labels

def get (labels : Labels) (key : String) : Option String := labels.items.lookup key

/-- `labels.pop(key, …)` -/
def pop (labels : Labels) (key : String) : Labels where
  items := Dict.pop key labels.items
  nodup := (List.filter_sublist.map _).nodup labels.nodup

/-- `==` of two dicts -/
def Same (a b : Labels) : Prop := ∀ key, a.get key = b.get key

end Labels

/-- A time, or a time span, in microseconds. -/
abbrev Time := Int

structure Alert where
  id : String
  name : String
  severity : Severity
  sentence : String
  labels : Labels
  source : Source := .platform
  firedAt : Time
  lastSeenAt : Time
  count : Nat := 1
  acknowledgedBy : Option String := none
  acknowledgedAt : Option Time := none

/-- `Alert.open` -/
def Alert.isOpen (a : Alert) : Bool := a.acknowledgedAt.isNone

/-- What a fingerprint is the digest of. -/
def material (name : String) (labels : Labels) : String :=
  name ++ "|" ++ "|".intercalate
    (((Dict.keys labels.items).insertionSort (· ≤ ·)).map fun key =>
      key ++ "=" ++ (labels.get key).getD "")

/-- How a call ends that raises. -/
inductive Raised where
  /-- A label that is named like a parameter. -/
  | typeError (label : String)
  | validationError
  deriving DecidableEq

/-- The parameters of `raise_`, which no label can be named like. -/
def PARAMETERS : List String := ["self", "name", "severity", "sentence", "source"]

/-- One item of a payload. -/
structure Item where
  labels : Labels
  annotations : Labels
  status : String := "firing"

namespace Item

def name (item : Item) : String := (item.labels.get "alertname").getD "unnamed"

def rest (item : Item) : Labels := (item.labels.pop "alertname").pop "severity"

def severity (item : Item) : Severity :=
  match item.labels.get "severity" with
  | some "info" => .info
  | some "critical" => .critical
  | _ => .warning

def sentence (item : Item) : String :=
  (((item.annotations.get "summary").filter (· ≠ "")).or
    ((item.annotations.get "description").filter (· ≠ ""))).getD
      (item.name ++ " fired in Prometheus.")

def resolved (item : Item) : Bool := item.status = "resolved"

end Item

/-- `LocalAlertChannel`, without its file. -/
structure Channel where
  digest : String → String
  dedupeWindow : Time := 4 * 3600 * 1000000

namespace Channel

variable (C : Channel)

def fingerprint (name : String) (labels : Labels) : String := C.digest (material name labels)

/-- An entry that a repeat is folded into. -/
def folds (now : Time) (key : String) (a : Alert) : Bool :=
  a.id = key ∧ a.isOpen ∧ now - a.lastSeenAt ≤ C.dedupeWindow

/-- `raise_` -/
def raise_ (now : Time) (name : String) (severity : Severity) (sentence : String) (source : Source)
    (labels : Labels) (alerts : List Alert) : Except Raised (List Alert × Alert) :=
  match PARAMETERS.find? fun parameter => (labels.get parameter).isSome with
  | some parameter => .error (.typeError parameter)
  | none =>
    let key := C.fingerprint name labels
    let again (a : Alert) : Alert := { a with count := a.count + 1, lastSeenAt := now, sentence }
    match First.update (C.folds now key) again alerts with
    | some found => .ok found
    | none =>
      if name = "" then .error .validationError
      else
        let alert : Alert := { id := key, name, severity, sentence, labels, source, firedAt := now,
                               lastSeenAt := now }
        .ok (alerts ++ [alert], alert)

/-- `acknowledge`; `none` for its `KeyError`. -/
def acknowledge (now : Time) (alertId by_ : String) (alerts : List Alert) :
    Option (List Alert × Alert) :=
  First.update (fun a => a.id = alertId ∧ a.isOpen)
    (fun a => { a with acknowledgedBy := some by_, acknowledgedAt := some now }) alerts

/-- One item: what is kept, and the alert it is handled with. -/
def ingestItem (now : Time) (item : Item) (alerts : List Alert) :
    Except Raised (List Alert × Option Alert) :=
  if item.resolved then
    match acknowledge now (C.fingerprint item.name item.rest) "Prometheus (resolved)" alerts with
    | none => .ok (alerts, none)
    | some (alerts, a) => .ok (alerts, some a)
  else
    (C.raise_ now item.name item.severity item.sentence .alertmanager item.rest alerts).map
      fun r => (r.1, some r.2)

/-- `ingest_alertmanager`: each item at the time it is handled.  What was kept before an item
    that raises stays. -/
def ingest : List (Time × Item) → List Alert → List Alert × Except Raised (List Alert)
  | [], alerts => (alerts, .ok [])
  | (now, item) :: items, alerts =>
    match C.ingestItem now item alerts with
    | .error raised => (alerts, .error raised)
    | .ok (alerts, handled) =>
      let (alerts, rest) := ingest items alerts
      (alerts, rest.map (handled.toList ++ ·))

end Channel

end Observability

end Slas
