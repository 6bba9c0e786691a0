/-
  Slas.Screen.Driver

  The screen driver (`slas_screen.driver`, `slas_screen.policy`): what each primitive sends to the
  backend, told what the backend reports meanwhile, and the window that is expected to have the
  focus.

  Screenshots, sentences, the rate limit and the pauses are left out.  Python's `lower` and the
  search of a regular expression in any case are parameters.
-/

import Mathlib.Data.List.Infix

namespace Slas

namespace Screen

structure Window where
  id : String
  title : String := ""
  wmClass : String := ""
  deriving DecidableEq

structure Point where
  x : Nat
  y : Nat
  deriving DecidableEq

/-! ## The policy -/

def DEFAULT_DENY : List String :=
  ["\\bterminal\\b", "\\bxterm\\b", "\\bkonsole\\b", "gnome-terminal", "\\balacritty\\b",
    "\\bkitty\\b", "\\btilix\\b", "\\bkeepass", "1password", "\\bbitwarden\\b", "\\blastpass\\b"]

inductive WindowMatch where
  | contains
  | exact
  | leading
  | regex
  deriving DecidableEq

/-- `ScreenPolicy`, with the functions of texts it uses.  A search has no answer for a text that
    is no regular expression. -/
structure Policy where
  denyPatterns : List String := DEFAULT_DENY
  allowCoordinates : Bool := true
  windowMatch : WindowMatch := .contains
  lower : String → String
  search : String → String → Option Bool

namespace Policy

variable (P : Policy)

/-- `title_matches` -/
def titleMatches (wanted title : String) : Bool :=
  match P.windowMatch with
  | .exact => P.lower wanted = P.lower title
  | .leading => (P.lower wanted).toList <+: (P.lower title).toList
  | .regex => (P.search wanted title).getD false
  | .contains => (P.lower wanted).toList <:+: (P.lower title).toList

def deniedBy (haystack : String) : List String → Except Unit (Option String)
  | [] => .ok none
  | pattern :: patterns =>
    match P.search pattern haystack with
    | none => .error ()
    | some true => .ok (some pattern)
    | some false => deniedBy haystack patterns

/-- `denied`: the first pattern that is found; an error for one that is no regular expression. -/
def denied (w : Window) : Except Unit (Option String) :=
  P.deniedBy (w.title ++ " " ++ w.wmClass) P.denyPatterns

end Policy

/-! ## The driver -/

/-- What is sent to the backend. -/
inductive Sent where
  | activate (w : Window)
  | click (at_ : Point) (button : String) (count : Int)
  | typeText (text : String)
  | press (keys : String)
  | scroll (direction : String) (amount : Int)

/-- Why the driver stops. -/
inductive Stop where
  | denied (w : Window)
  | focusChanged (expected current : Window)
  | coordinates

/-- How a call ends: with a result, `ok` or not, a stop, or an error of Python. -/
inductive Ended where
  | ok (matched : Option String := none)
  | failed
  | stopped (why : Stop)
  | raised

/-- What one look at the screen finds. -/
structure Look where
  windows : List Window := []
  findText : String → Option Point := fun _ => none
  findImage : String → Option Point := fun _ => none
  findTarget : String → Option Point := fun _ => none

/-- What the backend reports during a call: the looks at the screen, one after the other, the
    window with the focus, and whether it acts without raising. -/
structure Report where
  looks : List Look := []
  focused : Option Window := none
  acts : Bool := true

def Report.first (r : Report) : Look := r.looks.headD {}

inductive Call where
  | focusWindow (title wmClass : Option String)
  | click (text image target : Option String) (x y : Option Int) (button : String) (count : Int)
  | typeText (text : String)
  | key (press : String)
  | scroll (direction : String) (amount : Int)
  /-- As often as it looks before the time is over. -/
  | waitFor (window text image : Option String)
  | screenshot
  | assertVisible (text image : Option String)

/-- `ScreenDriver` -/
structure Driver where
  expectedFocus : Option Window := none
  actions : Nat := 0

namespace Driver

variable (P : Policy)

/-- `_find_window` -/
def findWindow (title wmClass : Option String) (windows : List Window) : Option Window :=
  windows.find? fun w =>
    title.any (P.titleMatches · w.title) || wmClass.any fun c => P.lower c = P.lower w.wmClass

/-- `_deny_check`: what it ends the call with. -/
def denyCheck (w : Window) : Option Ended :=
  match P.denied w with
  | .error _ => some .raised
  | .ok (some _) => some (.stopped (.denied w))
  | .ok none => none

/-- `_action`, and how the call goes on. -/
def action (sent : Sent) (r : Report) (after : Driver → Driver × Ended) (d : Driver) :
    Driver × List Sent × Ended :=
  let d := { d with actions := d.actions + 1 }
  if r.acts then ((after d).1, [sent], (after d).2) else (d, [sent], .raised)

/-- `_guard_focus`: what it ends the call with. -/
def guardFocus (focused : Option Window) (d : Driver) : Driver × Option Ended :=
  match focused.bind (denyCheck P) with
  | some ended => (d, some ended)
  | none =>
    match d.expectedFocus, focused with
    | none, current => ({ d with expectedFocus := current }, none)
    | some _, none => (d, none)
    | some expected, some current =>
      if current.id ≠ expected.id then
        ({ d with expectedFocus := none }, some (.stopped (.focusChanged expected current)))
      else (d, none)

/-- An input: sent where the focus is as it should be. -/
def input (sent : Sent) (matched : Option String) (r : Report) (d : Driver) :
    Driver × List Sent × Ended :=
  match guardFocus P r.focused d with
  | (d, some ended) => (d, [], ended)
  | (d, none) => action sent r (fun d => (d, .ok matched)) d

/-- What `_locate` finds. -/
inductive Located where
  | found (p : Point) (label : String)
  | missing
  | stopped
  | raised

/-- `_locate` -/
def locate (text image target : Option String) (x y : Option Int) (look : Look) : Located :=
  let at_ (p : Option Point) (label : String) : Located :=
    match p with
    | some p => .found p label
    | none => .missing
  match text, target, image with
  | some text, _, _ => at_ (look.findText text) text
  | none, some target, _ => at_ (look.findTarget target) target
  | none, none, some image => at_ (look.findImage image) image
  | none, none, none =>
    match x, y with
    | some x, some y =>
      if !P.allowCoordinates then .stopped
      -- a point has no negative coordinates
      else if x < 0 ∨ y < 0 then .raised
      else .found ⟨x.toNat, y.toNat⟩ ("(" ++ toString x ++ ", " ++ toString y ++ ")")
    | _, _ => .missing

/-- `wait_for`, of what one look after the other finds. -/
def waitFor (window text image : Option String) (focused : Option Window) (d : Driver) :
    List Look → Driver × List Sent × Ended
  | [] => (d, [], .failed)
  | look :: looks =>
    match window with
    | some wanted =>
      match findWindow P (some wanted) none look.windows with
      | some found =>
        match denyCheck P found with
        | some ended => (d, [], ended)
        | none => ({ d with expectedFocus := some (focused.getD found) }, [], .ok (some found.title))
      | none => waitFor window text image focused d looks
    | none =>
      if text.any fun text => (look.findText text).isSome then (d, [], .ok text)
      else if image.any fun image => (look.findImage image).isSome then (d, [], .ok image)
      else waitFor window text image focused d looks

/-- A call: what becomes of the driver, what it sends, and how it ends. -/
def call (c : Call) (r : Report) (d : Driver) : Driver × List Sent × Ended :=
  match c with
  | .focusWindow title wmClass =>
    match findWindow P title wmClass r.first.windows with
    | none => (d, [], .failed)
    | some w =>
      match denyCheck P w with
      | some ended => (d, [], ended)
      | none => action (.activate w) r
          (fun d => ({ d with expectedFocus := some w }, .ok (some w.title))) d
  | .click text image target x y button count =>
    match locate P text image target x y r.first with
    | .found p label => input P (.click p button count) (some label) r d
    | .missing => (d, [], .failed)
    | .stopped => (d, [], .stopped .coordinates)
    | .raised => (d, [], .raised)
  | .typeText text => input P (.typeText text) none r d
  | .key press => input P (.press press) none r d
  | .scroll direction amount =>
    if direction ∈ ["up", "down", "left", "right"] then
      input P (.scroll direction amount) none r d
    else (d, [], .failed)
  | .waitFor window text image => waitFor P window text image r.focused d r.looks
  | .screenshot => (d, [], .ok)
  | .assertVisible text image =>
    if (text.any fun text => (r.first.findText text).isSome) ||
        image.any fun image => (r.first.findImage image).isSome then
      (d, [], .ok ((text.filter (· ≠ "")).or image))
    else (d, [], .failed)

end Driver

end Screen

end Slas
