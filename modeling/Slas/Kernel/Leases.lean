/-
  Slas.Kernel.Leases

  Exclusive leases on targets and stations (`slas_kernel.leases`), as the
  validation and factory executors use them.

  The table is one JSON file that `acquire` and `release` read and write back
  whole.  The executors serialise requests per ticket, so those of different
  tickets interleave: two of them may load the same table and both save, and
  what the first one saved is gone.  When every save finds the table as it was
  loaded, leases exclude each other and stay until they are released or
  expire.
-/

import Slas.Kernel.World
import Slas.Lib.ReadModifyWrite

namespace Slas

open ReadModifyWrite

/-! ## The table -/

structure Lease where
  target : String
  ticketId : String
  user : String
  since : DateTime
  until_ : DateTime
  target_ne : target ≠ ""
  ticketId_ne : ticketId ≠ ""
  user_ne : user ≠ ""

theorem Lease.eq_iff {a b : Lease} : a = b ↔ a.target = b.target ∧ a.ticketId = b.ticketId ∧
    a.user = b.user ∧ a.since = b.since ∧ a.until_ = b.until_ := by
  cases a
  cases b
  simp

instance : DecidableEq Lease := fun _ _ => decidable_of_iff' _ Lease.eq_iff

/-- The format `%Y-%m-%d %H:%M`. -/
def minuteText (t : DateTime) : String :=
  let minutes := t / 60000000
  let date := DateTime.civilOfDays (minutes / 1440)
  String.ofList (DateTime.pad 4 date.year ++ '-' :: DateTime.pad 2 date.month ++ '-' ::
    DateTime.pad 2 date.day ++ ' ' :: DateTime.pad 2 (minutes % 1440 / 60) ++ ':' ::
    DateTime.pad 2 (minutes % 60))

def Lease.sentence (l : Lease) : String :=
  l.target ++ " is leased to " ++ l.ticketId ++ " (" ++ l.user ++ ") until " ++
    minuteText l.until_ ++ "."

/-- `timedelta(hours=...)` -/
def hours (n : Nat) : Nat := n * 3600000000

/-- Why `acquire` gives no lease. -/
inductive LeaseFailure where
  /-- `LeaseError`: another ticket holds the target. -/
  | busy (message : ThreePartMessage)
  /-- The fields of the lease do not validate. -/
  | invalid

namespace LeaseTable

/-- The file: target → lease. -/
abbrev Items := String → Option Lease

def busyMessage (noun target : String) (current : Lease) : ThreePartMessage where
  whatHappened := target ++ " is busy: " ++ current.sentence
  likelyCause := "Only one run may use a " ++ noun ++ " at a time (exclusive lease)."
  whatToDo := "Pick another " ++ noun ++ ", or wait for that run to finish or its lease to expire."

/-- `LeaseTable.holder` -/
def holder (items : Items) (target : String) (now : DateTime) : Option Lease :=
  match items target with
  | none => none
  | some lease => if lease.until_ ≤ now then none else some lease

/-- Another ticket's lease that has not expired. -/
def blocking (items : Items) (target ticketId : String) (now : DateTime) : Option Lease :=
  match items target with
  | none => none
  | some current =>
    if now < current.until_ ∧ current.ticketId ≠ ticketId then some current else none

/-- `current.since if current and current.ticket_id == ticket_id else now` -/
def sinceOf (items : Items) (target ticketId : String) (now : DateTime) : DateTime :=
  match items target with
  | none => now
  | some current => if current.ticketId = ticketId then current.since else now

/-- `LeaseTable.acquire`: the lease, and what is saved. -/
def acquire (noun : String) (items : Items) (target ticketId user : String) (now : DateTime)
    (maxHours : Nat) : Except LeaseFailure (Lease × Items) :=
  match blocking items target ticketId now with
  | some current => .error (.busy (busyMessage noun target current))
  | none =>
    if h : target ≠ "" ∧ ticketId ≠ "" ∧ user ≠ "" then
      let lease : Lease :=
        { target, ticketId, user
          since := sinceOf items target ticketId now
          until_ := now + hours maxHours
          target_ne := h.1, ticketId_ne := h.2.1, user_ne := h.2.2 }
      .ok (lease, Function.update items target (some lease))
    else .error .invalid

/-- `LeaseTable.release`: what is saved, or nothing when the ticket has no
    lease of the target. -/
def release (items : Items) (target ticketId : String) : Option Items :=
  match items target with
  | none => none
  | some current =>
    if current.ticketId = ticketId then some (Function.update items target none) else none

variable {items items' : Items} {target ticketId user noun : String} {now : DateTime}
  {maxHours : Nat} {lease : Lease}

theorem holder_eq_some (h : holder items target now = some lease) :
    items target = some lease ∧ now < lease.until_ := by
  unfold holder at h
  split at h
  · cases h
  · rename_i current hcurrent
    split at h
    · cases h
    · obtain rfl := Option.some.inj h
      exact ⟨hcurrent, Nat.lt_of_not_le ‹_›⟩

theorem holder_of_live (h : items target = some lease) (hlive : now < lease.until_) :
    holder items target now = some lease := by
  rw [holder, h]
  exact if_neg (Nat.not_le.mpr hlive)

theorem blocking_eq_none (h : blocking items target ticketId now = none) {current : Lease}
    (hcurrent : items target = some current) (hlive : now < current.until_) :
    current.ticketId = ticketId := by
  unfold blocking at h
  rw [hcurrent] at h
  by_contra hne
  simp [hlive, hne] at h

/-- What a granted lease says, and that it is all that is saved. -/
theorem acquire_ok (h : acquire noun items target ticketId user now maxHours = .ok (lease, items')) :
    blocking items target ticketId now = none ∧ lease.target = target ∧
      lease.ticketId = ticketId ∧ items' = Function.update items target (some lease) := by
  unfold acquire at h
  split at h
  · cases h
  · rename_i hfree
    split at h
    · obtain ⟨rfl, rfl⟩ := Prod.mk.inj (Except.ok.inj h)
      exact ⟨hfree, rfl, rfl, rfl⟩
    · cases h

theorem release_some (h : release items target ticketId = some items') :
    ∃ current, items target = some current ∧ current.ticketId = ticketId ∧
      items' = Function.update items target none := by
  unfold release at h
  split at h
  · cases h
  · rename_i current hcurrent
    split at h
    · exact ⟨current, hcurrent, ‹_›, (Option.some.inj h).symm⟩
    · cases h

/-- A release leaves the leases of other targets and other tickets alone. -/
theorem release_keep {target' : String} (h : items target = some lease)
    (hother : target = target' → lease.ticketId ≠ ticketId) :
    (release items target' ticketId).getD items target = some lease := by
  rcases hrelease : release items target' ticketId with _ | items'
  · exact h
  · obtain ⟨current, hcurrent, hown, rfl⟩ := release_some hrelease
    rw [Option.getD_some, Function.update_of_ne, h]
    rintro rfl
    rw [h, Option.some.injEq] at hcurrent
    exact hother rfl (hcurrent ▸ hown)

/-- A release gives no lease. -/
theorem release_back {target' : String}
    (h : (release items target' ticketId).getD items target = some lease) :
    items target = some lease := by
  rcases hrelease : release items target' ticketId with _ | items'
  · rwa [hrelease, Option.getD_none] at h
  · obtain ⟨current, -, -, rfl⟩ := release_some hrelease
    rw [hrelease, Option.getD_some] at h
    by_cases ht : target = target'
    · subst ht
      simp at h
    · rwa [Function.update_of_ne ht] at h

end LeaseTable

/-! ## The executors -/

/-- A request that works on the table. -/
inductive LeaseRequest where
  /-- `/execute` of `lease_target` or `lease_station`; the clock is read before
      the table is. -/
  | lease (target ticketId user : String) (now : DateTime)
  /-- `/execute` of `release_target` or `release_station`. -/
  | release (target ticketId : String)
  /-- The line lead's decision on a held unit, which releases the station. -/
  | decide (station ticketId : String)
  deriving DecidableEq

/-- The ticket whose lock the request holds: `TicketLocks.hold` guards
    `/execute` only. -/
def LeaseRequest.lock : LeaseRequest → Option String
  | .lease _ ticketId _ _ => some ticketId
  | .release _ ticketId => some ticketId
  | .decide _ _ => none

/-- The surroundings: the clock, and the leases tickets were told they hold and
    did not release since.  Leasing a target again replaces the lease. -/
structure Holdings where
  now : DateTime
  told : List Lease := []

def Holdings.without (e : Holdings) (target ticketId : String) : List Lease :=
  e.told.filter fun l => !(l.target == target && l.ticketId == ticketId)

/-- What a request does with the table it loaded. -/
def LeaseRequest.serve (noun : String) (maxHours : Nat) (e : Holdings) (items : LeaseTable.Items) :
    LeaseRequest → Option (Holdings × LeaseTable.Items)
  | .lease target ticketId user now =>
    match LeaseTable.acquire noun items target ticketId user now maxHours with
    | .ok (granted, items') =>
      some ({ e with told := granted :: e.without target ticketId }, items')
    | .error _ => none
  | .release target ticketId =>
    (LeaseTable.release items target ticketId).map fun items' =>
      ({ e with told := e.without target ticketId }, items')
  | .decide station ticketId =>
    (LeaseTable.release items station ticketId).map fun items' =>
      ({ e with told := e.without station ticketId }, items')

/-- A request starts when no other one holds the lock of its ticket, and reads
    the clock. -/
def LeaseRequest.admitted (e : Holdings) (flights : List LeaseRequest) (r : LeaseRequest) : Bool :=
  (match r with
  | .lease _ _ _ now => now == e.now
  | _ => true) &&
  match r.lock with
  | none => true
  | some ticketId => flights.all fun r' => r'.lock != some ticketId

/-- An executor over one lease file: the clock does not go back. -/
def leaseProtocol (noun : String) (maxHours : Nat) :
    Protocol Holdings DateTime LeaseTable.Items LeaseRequest where
  move e t := if e.now ≤ t then some { e with now := t } else none
  accept := LeaseRequest.admitted
  serve e r items := r.serve noun maxHours e items

/-- A table and a clock, before any request. -/
def leaseStart (items : LeaseTable.Items) (now : DateTime) :
    State Holdings LeaseTable.Items LeaseRequest :=
  { env := { now }, store := items }

/-! ## Mutual exclusion -/

/-- No two tickets are both told they hold an unexpired lease of one target. -/
def Exclusive (e : Holdings) : Prop :=
  ∀ l ∈ e.told, ∀ l' ∈ e.told, l.target = l'.target → e.now < l.until_ → e.now < l'.until_ →
    l.ticketId = l'.ticketId

/-- Every lease that was granted, not released and has not expired is the one
    the table names as the holder. -/
def LeasesKept (e : Holdings) (items : LeaseTable.Items) : Prop :=
  ∀ l ∈ e.told, e.now < l.until_ → LeaseTable.holder items l.target e.now = some l

/-- The invariant: what tickets were told and has not expired is in the file. -/
def Filed (e : Holdings) (items : LeaseTable.Items) : Prop :=
  ∀ l ∈ e.told, e.now < l.until_ → items l.target = some l

theorem Filed.exclusive {e : Holdings} {items : LeaseTable.Items} (h : Filed e items) :
    Exclusive e := by
  intro l hl l' hl' htarget hlive hlive'
  have hsame := h l' hl' hlive'
  rw [← htarget, h l hl hlive, Option.some.injEq] at hsame
  rw [hsame]

theorem Filed.kept {e : Holdings} {items : LeaseTable.Items} (h : Filed e items) :
    LeasesKept e items := by
  exact fun l hl hlive => LeaseTable.holder_of_live (h l hl hlive) hlive

theorem mem_without {e : Holdings} {l : Lease} {target ticketId : String}
    (h : l ∈ e.without target ticketId) :
    l ∈ e.told ∧ (l.target = target → l.ticketId ≠ ticketId) := by
  obtain ⟨hmem, hne⟩ := List.mem_filter.mp h
  refine ⟨hmem, fun ht hid => ?_⟩
  simp [ht, hid] at hne

/-- An update of one target keeps the leases of all others. -/
theorem Filed.update {e : Holdings} {items : LeaseTable.Items} (h : Filed e items)
    {target ticketId : String} {entry : Option Lease}
    (hown : ∀ l, items target = some l → e.now < l.until_ → l.ticketId = ticketId) :
    Filed { e with told := e.without target ticketId } (Function.update items target entry) := by
  intro l hl hlive
  obtain ⟨hmem, hother⟩ := mem_without hl
  have hfile := h l hmem hlive
  have hne : l.target ≠ target := by
    intro heq
    rw [heq] at hfile
    exact hother heq (hown l hfile hlive)
  rw [Function.update_of_ne hne]
  exact hfile

theorem Filed.release {e e' : Holdings} {items items' : LeaseTable.Items} (h : Filed e items)
    {target ticketId : String}
    (hserve : (LeaseTable.release items target ticketId).map
      (fun items' => (({ e with told := e.without target ticketId } : Holdings), items')) =
        some (e', items')) : Filed e' items' := by
  obtain ⟨items'', hrelease, heq⟩ := Option.map_eq_some_iff.mp hserve
  obtain ⟨rfl, rfl⟩ := Prod.mk.inj heq
  obtain ⟨current, hcurrent, hid, rfl⟩ := LeaseTable.release_some hrelease
  refine h.update fun l hl _ => ?_
  rw [hcurrent, Option.some.injEq] at hl
  exact hl ▸ hid

/-- The clock reading of a request is not ahead of the clock. -/
def StampedBy (e : Holdings) : LeaseRequest → Prop
  | .lease _ _ _ now => now ≤ e.now
  | _ => True

theorem leaseProtocol_keeps (noun : String) (maxHours : Nat) :
    Keeps (leaseProtocol noun maxHours) Filed StampedBy where
  move e t e' items hmove h := by
    simp only [leaseProtocol] at hmove
    split at hmove
    · obtain rfl := Option.some.inj hmove
      exact fun l hl hlive => h l hl (Nat.lt_of_le_of_lt ‹_› hlive)
    · cases hmove
  move_request e t e' r hmove h := by
    simp only [leaseProtocol] at hmove
    split at hmove
    · obtain rfl := Option.some.inj hmove
      cases r with
      | lease _ _ _ now => exact Nat.le_trans h ‹_›
      | _ => trivial
    · cases hmove
  accept e rs r haccept := by
    cases r with
    | lease _ _ _ now =>
      simp only [leaseProtocol, LeaseRequest.admitted, Bool.and_eq_true, beq_iff_eq] at haccept
      exact Nat.le_of_eq haccept.1
    | _ => trivial
  serve e r items e' items' hserve hstamp h := by
    cases r with
    | lease target ticketId user now =>
      simp only [leaseProtocol, LeaseRequest.serve] at hserve
      split at hserve
      · rename_i lease items'' hacquire
        obtain ⟨rfl, rfl⟩ := Prod.mk.inj (Option.some.inj hserve)
        obtain ⟨hfree, htarget, hid, rfl⟩ := LeaseTable.acquire_ok hacquire
        have hothers : Filed { e with told := e.without target ticketId }
            (Function.update items target (some lease)) := h.update fun l hl hlive =>
          LeaseTable.blocking_eq_none hfree hl (Nat.lt_of_le_of_lt hstamp hlive)
        intro l hl hlive
        rcases List.mem_cons.mp hl with rfl | hl
        · rw [htarget, Function.update_self]
        · exact hothers l hl hlive
      · cases hserve
    | release target ticketId => exact h.release hserve
    | decide station ticketId => exact h.release hserve
  serve_request e r items e' items' r' hserve h := by
    have hnow : e'.now = e.now := by
      cases r with
      | lease target ticketId user now =>
        simp only [leaseProtocol, LeaseRequest.serve] at hserve
        split at hserve
        · obtain ⟨rfl, -⟩ := Prod.mk.inj (Option.some.inj hserve)
          rfl
        · cases hserve
      | release target ticketId =>
        obtain ⟨_, -, heq⟩ := Option.map_eq_some_iff.mp hserve
        exact (Prod.mk.inj heq).1 ▸ rfl
      | decide station ticketId =>
        obtain ⟨_, -, heq⟩ := Option.map_eq_some_iff.mp hserve
        exact (Prod.mk.inj heq).1 ▸ rfl
    cases r' with
    | lease _ _ _ now =>
      show now ≤ e'.now
      rw [hnow]
      exact h
    | _ => trivial

/-- **Lease exclusion**: in every run in which each save finds the table as its
    request loaded it, no two tickets are told they hold one target at a time,
    and no granted lease leaves the table before it is released or expires. -/
theorem leases_exclude (noun : String) (maxHours : Nat) (items : LeaseTable.Items) (now : DateTime)
    (evs : List (Event DateTime LeaseRequest)) (st : State Holdings LeaseTable.Items LeaseRequest)
    (hfresh : Unchanged (leaseProtocol noun maxHours) (leaseStart items now) evs)
    (hrun : (leaseProtocol noun maxHours).run (leaseStart items now) evs = some st) :
    Exclusive st.env ∧ LeasesKept st.env st.store := by
  have hfiled : Filed st.env st.store := by
    refine run_invariant (leaseProtocol_keeps noun maxHours) hfresh hrun ?_ ?_
    · intro l hl
      cases hl
    · intro f hf
      cases hf
  exact ⟨hfiled.exclusive, hfiled.kept⟩

/-! ### Two tickets and one machine -/

/-- One after the other. -/
def turns : List (Event DateTime LeaseRequest) :=
  [.accept (.lease "m-1" "T-1" "ana" 0), .load 0, .finish 0,
   .accept (.release "m-1" "T-1"), .load 0, .finish 0,
   .accept (.lease "m-1" "T-2" "bo" 0), .load 0, .finish 0]

theorem turns_exclude :
    ∃ st, (leaseProtocol "target" 24).run (leaseStart (fun _ => none) 0) turns = some st ∧
      st.env.told.map (·.ticketId) = ["T-2"] ∧ Exclusive st.env ∧ LeasesKept st.env st.store := by
  refine ⟨_, rfl, rfl, ?_⟩
  refine leases_exclude "target" 24 (fun _ => none) 0 turns _ ?_ rfl
  exact unchanged_alone rfl fun _ h₁ => unchanged_alone h₁ fun _ h₂ =>
    unchanged_alone h₂ fun _ _ => trivial

/-- Both load the empty table before one of them saves. -/
def collision : List (Event DateTime LeaseRequest) :=
  [.accept (.lease "m-1" "T-1" "ana" 0), .accept (.lease "m-1" "T-2" "bo" 0), .load 0, .load 1,
   .finish 0, .finish 0]

theorem collision_grants_twice :
    ∃ st, (leaseProtocol "target" 24).run (leaseStart (fun _ => none) 0) collision = some st ∧
      ¬ (Exclusive st.env ∧ LeasesKept st.env st.store) := by
  refine ⟨_, rfl, ?_⟩
  rintro ⟨hexclusive, -⟩
  have hsame := hexclusive _ (List.mem_cons_self ..) _
    (List.mem_cons_of_mem _ (List.mem_cons_self ..)) rfl (by decide) (by decide)
  exact absurd hsame (by decide)

end Slas
