/-
  Slas.Api.LastAdmin

  There is always an active administrator, whatever order the statements of `update_person` calls
  come in, as long as no call takes an administrator away after another one has done so since its
  first statement: `administered_of_meets`.
-/

import Slas.Api.People

namespace Slas

namespace Api

/-! ## Calls of `update_person` -/

/-- How far a call has come, with what it has read. -/
inductive Stage where
  | begun
  | allowed (loaded : List (String × Person)) (subject : Option String)
  | read (loaded : List (String × Person)) (subject : Option String) (person : Person)
  | switchChecked (loaded : List (String × Person)) (person : Person)
  | checked (person : Person)

/-- The committed table, and how often a commit has taken an administrator away. -/
structure Committed where
  people : People
  lost : Nat := 0

structure UpdateCall where
  request : PatchPerson
  stage : Stage := .begun
  /-- How often that had happened when the call began to read. -/
  seen : Nat := 0

inductive How where
  | next
  /-- The transaction is rolled back. -/
  | fails

namespace UpdateCall

variable (roles : Roles) (d : Committed) (call : UpdateCall)

/-- The commit sets the changed columns of the row as it is by then. -/
def commit (person : Person) : Committed :=
  match d.people.get call.request.personId with
  | none => d
  | some row =>
    let row' := call.request.applied person row
    { people := d.people.set call.request.personId row'
      lost := if isAdministrator roles row && !isAdministrator roles row' then d.lost + 1
        else d.lost }

def advance (_number : Nat) : How → Committed × Option UpdateCall
  | .fails => (d, none)
  | .next =>
    match call.stage with
    | .begun =>
      match call.request.authorise roles d.people with
      | .error _ => (d, none)
      | .ok (loaded, subject) => (d, some { call with stage := .allowed loaded subject,
                                                      seen := d.lost })
    | .allowed loaded subject =>
      match call.request.read roles d.people loaded with
      | .error _ => (d, none)
      | .ok person =>
        (d, some { call with stage := .read (Dict.set call.request.personId person loaded)
                               subject person })
    | .read loaded subject person =>
      match call.request.guardSwitchOff roles d.people loaded person subject with
      | some _ => (d, none)
      | none => (d, some { call with stage := .switchChecked loaded person })
    | .switchChecked loaded person =>
      match call.request.guardRole roles d.people loaded person with
      | some _ => (d, none)
      | none => (d, some { call with stage := .checked person })
    | .checked person => (call.commit roles d person, none)

end UpdateCall

/-- The table and the calls in progress. -/
abbrev Updates := Pool Committed UpdateCall

namespace Updates

variable (roles : Roles)

def step : Updates → Pool.Event PatchPerson How → Updates :=
  Pool.step (fun request => ⟨request, .begun, 0⟩)
    fun number d call how => UpdateCall.advance roles d call number how

/-- Somebody is an active administrator. -/
def Administered (p : Updates) : Prop :=
  ∃ item ∈ p.shared.people.rows, isAdministrator roles item.2 = true

/-- A call that commits, and takes an administrator away, is the first to do so since it began to
    read. -/
def Unrivalled : Updates → Pool.Event PatchPerson How → Prop :=
  Pool.Each fun _ d call how => ∀ person row, how = .next → call.stage = .checked person →
    d.people.get call.request.personId = some row → isAdministrator roles row = true →
    isAdministrator roles (call.request.applied person row) = false → call.seen = d.lost

end Updates

/-! ## What a call may rely on -/

/-- The person is an active administrator. -/
def People.Admin (roles : Roles) (people : People) (id : String) : Prop :=
  ∃ row, people.get id = some row ∧ isAdministrator roles row = true

/-- Somebody else is. -/
def People.Other (roles : Roles) (people : People) (id : String) : Prop :=
  ∃ other, other ≠ id ∧ people.Admin roles other

variable {roles : Roles} {people people' : People} {id : String} {d : Committed}
  {call : UpdateCall} {person row : Person} {loaded : List (String × Person)}
  {request : PatchPerson} {subject : Option String}

theorem administered_iff {p : Updates} :
    p.Administered roles ↔ ∃ id, p.shared.people.Admin roles id := by
  constructor
  · rintro ⟨item, hitem, hadmin⟩
    exact ⟨item.1, item.2, Dict.lookup_eq_of_mem p.shared.people.nodup hitem, hadmin⟩
  · rintro ⟨id, row, hrow, hadmin⟩
    exact ⟨(id, row), Dict.mem_of_lookup hrow, hadmin⟩

/-- Two of the rows that are counted are of two people. -/
theorem exists_other_of_count {p : String × Person → Bool} {rows : List (String × Person)}
    (h : (Dict.keys rows).Nodup) (hcount : 1 < rows.countP p) (id : String) :
    ∃ item ∈ rows, p item = true ∧ item.1 ≠ id := by
  by_contra hnone
  simp only [not_exists, not_and, not_not] at hnone
  have hsame : ∀ item ∈ rows.filter p, item.1 = id := fun item hitem =>
    hnone item (List.mem_of_mem_filter hitem) (List.of_mem_filter hitem)
  have hkeys : (Dict.keys (rows.filter p)).Nodup := h.sublist (List.filter_sublist.map _)
  have hle : (rows.filter p).length ≤ 1 := by
    have hrep : Dict.keys (rows.filter p) = List.replicate (rows.filter p).length id :=
      List.eq_replicate_iff.mpr ⟨by simp [Dict.keys], by simpa [Dict.keys] using hsame⟩
    rw [hrep, List.nodup_replicate] at hkeys
    exact hkeys
  rw [List.countP_eq_length_filter] at hcount
  omega

/-- What a call knows of the table, by how far it has come: which of the people it has read, other
    than the one it is about, are administrators; and that there is another administrator wherever
    the update might take this one away. -/
def UpdateCall.Knows (roles : Roles) (people : People) (call : UpdateCall) : Prop :=
  let id := call.request.personId
  match call.stage with
  | .begun => True
  | .allowed loaded _ =>
    ∀ item ∈ loaded, people.Admin roles item.1 ∧ isAdministrator roles item.2 = true
  | .read loaded _ person =>
    (∀ item ∈ loaded, item.1 ≠ id → people.Admin roles item.1) ∧
      (∀ role ∈ call.request.role, (roles.lookup role).isSome) ∧
      (isAdministrator roles person = false → people.Other roles id)
  | .switchChecked loaded person =>
    (∀ item ∈ loaded, item.1 ≠ id → people.Admin roles item.1) ∧
      (∀ role ∈ call.request.role, (roles.lookup role).isSome) ∧
      (isAdministrator roles person = false ∨ call.request.isActive = some false →
        people.Other roles id)
  | .checked person =>
    (∀ role ∈ call.request.role, (roles.lookup role).isSome) ∧
      (isAdministrator roles person = false ∨ call.request.isActive = some false ∨
        (∃ role ∈ call.request.role, role ≠ person.role ∧ roles.lookup role = some false) →
        people.Other roles id)

/-- The table is as the call knows it, if no administrator was taken away since it began. -/
structure UpdateCall.Current (roles : Roles) (d : Committed) (call : UpdateCall) : Prop where
  seen : call.seen ≤ d.lost
  knows : call.seen = d.lost → call.Knows roles d.people

theorem People.Other.mono (h : ∀ id, people.Admin roles id → people'.Admin roles id)
    (ho : people.Other roles id) : people'.Other roles id := by
  obtain ⟨other, hne, hadmin⟩ := ho
  exact ⟨other, hne, h other hadmin⟩

/-- What a call knows lasts as long as administrators do. -/
theorem UpdateCall.Knows.mono (h : ∀ id, people.Admin roles id → people'.Admin roles id)
    (hk : call.Knows roles people) : call.Knows roles people' := by
  unfold UpdateCall.Knows at hk ⊢
  cases hs : call.stage with
  | begun => trivial
  | allowed loaded subject =>
    rw [hs] at hk
    exact fun item hitem => ⟨h _ (hk item hitem).1, (hk item hitem).2⟩
  | read loaded subject person =>
    rw [hs] at hk
    obtain ⟨hloaded, hrole, hother⟩ := hk
    exact ⟨fun item hitem hne => h _ (hloaded item hitem hne), hrole,
      fun hp => (hother hp).mono h⟩
  | switchChecked loaded person =>
    rw [hs] at hk
    obtain ⟨hloaded, hrole, hother⟩ := hk
    exact ⟨fun item hitem hne => h _ (hloaded item hitem hne), hrole,
      fun hp => (hother hp).mono h⟩
  | checked person =>
    rw [hs] at hk
    exact ⟨hk.1, fun hp => (hk.2 hp).mono h⟩

/-- The count finds somebody else, unless it is at most one. -/
theorem other_of_count (hloaded : ∀ item ∈ loaded, item.1 ≠ id → people.Admin roles item.1)
    (hcount : 1 < activeAdministrators roles loaded people) : people.Other roles id := by
  have hnodup : (Dict.keys (people.rows.filter fun item => item.2.isActive)).Nodup :=
    people.nodup.sublist (List.filter_sublist.map _)
  obtain ⟨item, hitem, hholds, hne⟩ := exists_other_of_count hnodup hcount id
  refine ⟨item.1, hne, ?_⟩
  cases hl : loaded.lookup item.1 with
  | some row => exact hloaded (item.1, row) (Dict.mem_of_lookup hl) hne
  | none =>
    rw [hl, Option.getD_none] at hholds
    refine ⟨item.2, Dict.lookup_eq_of_mem people.nodup (List.mem_of_mem_filter hitem), ?_⟩
    have hactive : item.2.isActive = true := by simpa using List.of_mem_filter hitem
    rw [isAdministrator, hactive, hholds]
    rfl

/-! ## The statements of a call -/

theorem knows_of_authorise {seen : Nat}
    (h : request.authorise roles people = .ok (loaded, subject)) :
    UpdateCall.Knows roles people ⟨request, .allowed loaded subject, seen⟩ := by
  unfold PatchPerson.authorise at h
  split at h
  · cases h
    exact fun _ hitem => nomatch hitem
  · rename_i actor _
    split at h
    · cases h
    · rename_i row hrow
      split_ifs at h with hactive hholds
      cases h
      intro item hitem
      obtain rfl := List.mem_singleton.mp hitem
      have hadmin : isAdministrator roles row = true := by
        rw [isAdministrator, Bool.and_eq_true]
        exact ⟨by simpa using hactive, by simpa using hholds⟩
      exact ⟨⟨row, hrow, hadmin⟩, hadmin⟩

/-- Where the person that is read is no administrator, somebody else is one. -/
theorem knows_of_read {seen : Nat} (hadministered : ∃ id, people.Admin roles id)
    (hk : UpdateCall.Knows roles people ⟨request, .allowed loaded subject, seen⟩)
    (h : request.read roles people loaded = .ok person) :
    UpdateCall.Knows roles people
      ⟨request, .read (Dict.set request.personId person loaded) subject person, seen⟩ := by
  have hfound : (loaded.lookup request.personId).or (people.get request.personId) = some person ∧
      ∀ role ∈ request.role, (roles.lookup role).isSome := by
    unfold PatchPerson.read at h
    split at h
    · cases h
    · rename_i found hfound
      split at h
      · rename_i role hrole
        split_ifs at h with hknown
        cases h
        refine ⟨hfound, fun r hr => ?_⟩
        rw [hrole] at hr
        cases hr
        exact Option.isSome_iff_ne_none.mpr fun hnone => hknown (by rw [hnone]; rfl)
      · rename_i hrole
        cases h
        exact ⟨hfound, fun r hr => by rw [hrole] at hr; cases hr⟩
  refine ⟨fun item hitem hne => ?_, hfound.2, fun hnot => ?_⟩
  · rcases Dict.mem_set hitem with rfl | hitem
    · exact absurd rfl hne
    · exact (hk item hitem).1
  · obtain ⟨other, hother⟩ := hadministered
    refine ⟨other, ?_, hother⟩
    rintro rfl
    obtain ⟨row, hrow, hadmin⟩ := hother
    cases hl : loaded.lookup request.personId with
    | none =>
      have hsame : row = person := by
        have hfirst := hfound.1
        rw [hl, Option.none_or, hrow] at hfirst
        exact Option.some.inj hfirst
      rw [hsame, hnot] at hadmin
      cases hadmin
    | some was =>
      have hsame : was = person := by
        have hfirst := hfound.1
        rw [hl, Option.some_or] at hfirst
        exact Option.some.inj hfirst
      have hwas := (hk _ (Dict.mem_of_lookup hl)).2
      rw [hsame, hnot] at hwas
      cases hwas

theorem knows_of_guardSwitchOff {seen : Nat}
    (hk : UpdateCall.Knows roles people ⟨request, .read loaded subject person, seen⟩)
    (h : request.guardSwitchOff roles people loaded person subject = none) :
    UpdateCall.Knows roles people ⟨request, .switchChecked loaded person, seen⟩ := by
  obtain ⟨hloaded, hrole, hother⟩ := hk
  refine ⟨hloaded, hrole, ?_⟩
  rintro (hnot | hoff)
  · exact hother hnot
  · have hoff' : request.isActive = some false := hoff
    simp only [PatchPerson.guardSwitchOff, hoff', if_true] at h
    split_ifs at h with hself hlast
    cases hadmin : isAdministrator roles person with
    | false => exact hother hadmin
    | true =>
      refine other_of_count hloaded ?_
      by_contra hle
      exact hlast ⟨hadmin, not_lt.mp hle⟩

theorem knows_of_guardRole {seen : Nat}
    (hk : UpdateCall.Knows roles people ⟨request, .switchChecked loaded person, seen⟩)
    (h : request.guardRole roles people loaded person = none) :
    UpdateCall.Knows roles people ⟨request, .checked person, seen⟩ := by
  obtain ⟨hloaded, hrole, hother⟩ := hk
  refine ⟨hrole, ?_⟩
  rintro (hnot | hoff | ⟨role, hr, hne, hplain⟩)
  · exact hother (Or.inl hnot)
  · exact hother (Or.inr hoff)
  · cases hadmin : isAdministrator roles person with
    | false => exact hother (Or.inl hadmin)
    | true =>
      refine other_of_count hloaded ?_
      by_contra hle
      have hr' : request.role = some role := hr
      simp only [PatchPerson.guardRole, hr'] at h
      exact absurd h (by simp [hne, hadmin, hplain, not_lt.mp hle])

theorem applied_role : (request.applied person row).role =
    match request.role with
    | none => row.role
    | some role => if role = person.role then row.role else role := by
  cases hr : request.role with
  | none => simp [PatchPerson.applied, PatchPerson.changes, hr]
  | some role =>
    by_cases hsame : role = person.role <;>
      simp [PatchPerson.applied, PatchPerson.changes, hr, hsame, Option.filter]

theorem applied_isActive : (request.applied person row).isActive =
    match request.isActive with
    | none => row.isActive
    | some active => if active = person.isActive then row.isActive else active := by
  cases ha : request.isActive with
  | none => simp [PatchPerson.applied, PatchPerson.changes, ha]
  | some active =>
    by_cases hsame : active = person.isActive <;>
      simp [PatchPerson.applied, PatchPerson.changes, ha, hsame, Option.filter]

/-- An update that takes an administrator away is one of the kinds that the guards look for. -/
theorem other_of_takes_away {seen : Nat}
    (hk : UpdateCall.Knows roles people ⟨request, .checked person, seen⟩)
    (hadmin : isAdministrator roles row = true)
    (haway : isAdministrator roles (request.applied person row) = false) :
    people.Other roles request.personId := by
  obtain ⟨hrole, hother⟩ := hk
  apply hother
  by_cases hoff : request.isActive = some false
  · exact Or.inr (Or.inl hoff)
  cases hp : isAdministrator roles person with
  | false => exact Or.inl rfl
  | true =>
    -- the row stays active, so it is the role that changes
    refine Or.inr (Or.inr ?_)
    obtain ⟨hactive, hholds⟩ := (Bool.and_eq_true _ _).mp hadmin
    obtain ⟨hpactive, -⟩ := (Bool.and_eq_true _ _).mp hp
    have hstays : (request.applied person row).isActive = true := by
      rw [applied_isActive]
      cases ha : request.isActive with
      | none => exact hactive
      | some active =>
        cases active with
        | false => exact absurd ha hoff
        | true => simp [hactive]
    have hplain : holdsAdmin roles (request.applied person row) = false := by
      rwa [isAdministrator, hstays, Bool.true_and] at haway
    rw [holdsAdmin, applied_role] at hplain
    cases hr : request.role with
    | none =>
      simp only [hr] at hplain
      exact absurd hholds (by simp [holdsAdmin, hplain])
    | some role =>
      simp only [hr] at hplain
      by_cases hsame : role = person.role
      · rw [if_pos hsame] at hplain
        exact absurd hholds (by simp [holdsAdmin, hplain])
      · rw [if_neg hsame] at hplain
        refine ⟨role, rfl, hsame, ?_⟩
        obtain ⟨admin, hknown⟩ := Option.isSome_iff_exists.mp (hrole role hr)
        rw [hknown, Option.getD_some] at hplain
        rw [hknown, hplain]

/-! ## Commits -/

namespace UpdateCall

/-- A commit takes nobody away, or it is counted. -/
theorem admin_commit {other : String} (hadmin : d.people.Admin roles other)
    (hkeeps : (call.commit roles d person).lost = d.lost) :
    (call.commit roles d person).people.Admin roles other := by
  unfold commit at hkeeps ⊢
  cases hg : d.people.get call.request.personId with
  | none => exact hadmin
  | some row =>
    simp only [hg] at hkeeps ⊢
    obtain ⟨was, hwas, hwasAdmin⟩ := hadmin
    by_cases heq : other = call.request.personId
    · subst heq
      obtain rfl : row = was := Option.some.inj (hg.symm.trans hwas)
      refine ⟨_, by rw [People.get, People.set, Dict.lookup_set, if_pos rfl], ?_⟩
      by_contra hnot
      rw [hwasAdmin, Bool.true_and, if_pos (by simpa using hnot)] at hkeeps
      omega
    · refine ⟨was, ?_, hwasAdmin⟩
      rwa [People.get, People.set, Dict.lookup_set, if_neg heq]

theorem lost_le_commit : d.lost ≤ (call.commit roles d person).lost := by
  unfold commit
  split
  · exact le_rfl
  · simp only
    split_ifs
    · exact Nat.le_succ _
    · exact le_rfl

/-- After a commit there is an administrator: one that it keeps, or another one. -/
theorem administered_commit (h : ∃ id, d.people.Admin roles id)
    (hother : ∀ row, d.people.get call.request.personId = some row →
      isAdministrator roles row = true →
      isAdministrator roles (call.request.applied person row) = false →
      d.people.Other roles call.request.personId) :
    ∃ id, (call.commit roles d person).people.Admin roles id := by
  by_cases hkeeps : (call.commit roles d person).lost = d.lost
  · obtain ⟨id, hadmin⟩ := h
    exact ⟨id, admin_commit hadmin hkeeps⟩
  · unfold commit at hkeeps ⊢
    cases hg : d.people.get call.request.personId with
    | none =>
      simp only [hg] at hkeeps
      exact absurd trivial hkeeps
    | some row =>
      simp only [hg] at hkeeps ⊢
      split_ifs at hkeeps with haway
      · obtain ⟨hadmin, hlost⟩ := (Bool.and_eq_true _ _).mp haway
        obtain ⟨other, hne, was, hwas, hwasAdmin⟩ := hother row hg hadmin (by simpa using hlost)
        refine ⟨other, was, ?_, hwasAdmin⟩
        rwa [People.get, People.set, Dict.lookup_set, if_neg hne]
      · exact absurd rfl hkeeps

/-- The steps of a call before its commit leave the table. -/
theorem advance_fst (roles : Roles) (d : Committed) (call : UpdateCall) (n : Nat) (how : How) :
    (advance roles d call n how).1 = d ∨
      ∃ person, how = .next ∧ call.stage = .checked person ∧
        advance roles d call n how = (call.commit roles d person, none) := by
  cases how with
  | fails => exact Or.inl rfl
  | next =>
    cases hs : call.stage with
    | begun =>
      simp only [advance, hs]
      split <;> exact Or.inl rfl
    | allowed loaded subject =>
      simp only [advance, hs]
      split <;> exact Or.inl rfl
    | read loaded subject person =>
      simp only [advance, hs]
      split <;> exact Or.inl rfl
    | switchChecked loaded person =>
      simp only [advance, hs]
      split <;> exact Or.inl rfl
    | checked person => exact Or.inr ⟨person, rfl, rfl, by simp only [advance, hs]⟩

theorem current_advance {n : Nat} {how : How} {next : UpdateCall}
    (hadministered : ∃ id, d.people.Admin roles id) (h : call.Current roles d)
    (hnext : (advance roles d call n how).2 = some next) : next.Current roles d := by
  cases how with
  | fails => cases hnext
  | next =>
    obtain ⟨request, stage, seen⟩ := call
    cases stage with
    | begun =>
      simp only [advance] at hnext
      split at hnext
      · cases hnext
      · rename_i hauth
        cases hnext
        exact ⟨le_rfl, fun _ => knows_of_authorise hauth⟩
    | allowed loaded subject =>
      simp only [advance] at hnext
      split at hnext
      · cases hnext
      · rename_i hread
        cases hnext
        exact ⟨h.seen, fun hs => knows_of_read hadministered (h.knows hs) hread⟩
    | read loaded subject person =>
      simp only [advance] at hnext
      split at hnext
      · cases hnext
      · rename_i hguard
        cases hnext
        exact ⟨h.seen, fun hs => knows_of_guardSwitchOff (h.knows hs) hguard⟩
    | switchChecked loaded person =>
      simp only [advance] at hnext
      split at hnext
      · cases hnext
      · rename_i hguard
        cases hnext
        exact ⟨h.seen, fun hs => knows_of_guardRole (h.knows hs) hguard⟩
    | checked person => cases hnext

/-- What the other calls know lasts until an administrator is taken away. -/
theorem current_of_commit {other : UpdateCall} (h : other.Current roles d) :
    other.Current roles (call.commit roles d person) := by
  have hle : d.lost ≤ (call.commit roles d person).lost := lost_le_commit
  refine ⟨h.seen.trans hle, fun hs => ?_⟩
  have hkeeps : (call.commit roles d person).lost = d.lost := by
    have := h.seen
    omega
  exact (h.knows (hs.trans hkeeps)).mono fun _ hadmin => admin_commit hadmin hkeeps

end UpdateCall

/-! ## Runs -/

namespace Updates

/-- The table that the api starts with, and no calls. -/
def start (people : People) : Updates := { shared := { people := people } }

/-- **There is always an active administrator**, if there is one to begin with and each call that
    takes one away is the first to do so since it began to read. -/
theorem administered_of_meets (roles : Roles) (people : People)
    (es : List (Pool.Event PatchPerson How)) (h : (start people).Administered roles)
    (hmeets : Runs.Meets (step roles) (Unrivalled roles) (start people) es) :
    Runs.Throughout (step roles) (Administered roles) (start people) es := by
  have hrun : Runs.Throughout (step roles)
      (Pool.Holds (fun d => ∃ id, d.people.Admin roles id) fun _ d call => call.Current roles d)
      (start people) es := by
    refine Runs.throughout_of_meets ?_ ?_ hmeets
    · intro p e hp hc
      refine Pool.holds_step e hp (fun _ d request _ => ⟨Nat.zero_le _, fun _ => trivial⟩) ?_ ?_ hc
      · intro n d call how hadministered hcurrent hunrivalled
        rcases UpdateCall.advance_fst roles d call n how with
          hsame | ⟨person, hhow, hstage, hcommit⟩
        · rw [hsame]
          exact ⟨hadministered, fun next hnext =>
            UpdateCall.current_advance hadministered hcurrent hnext⟩
        · rw [hcommit]
          refine ⟨?_, fun _ hnext => nomatch hnext⟩
          refine UpdateCall.administered_commit hadministered fun row hrow hadmin haway => ?_
          have hseen := hunrivalled person row hhow hstage hrow hadmin haway
          obtain ⟨request, stage, seen⟩ := call
          cases hstage
          exact other_of_takes_away (hcurrent.knows hseen) hadmin haway
      · intro n d call how m other _ _ _ _ hother
        rcases UpdateCall.advance_fst roles d call n how with hsame | ⟨person, -, -, hcommit⟩
        · rwa [hsame]
        · rw [hcommit]
          exact UpdateCall.current_of_commit hother
    · exact ⟨administered_iff.mp h, fun n call hcall => nomatch hcall⟩
  exact fun pre hpre => administered_iff.mpr (hrun pre hpre).shared

private def shipped : Roles := [("administrator", true), ("engineer", false)]

private def two : People :=
  ⟨[("a", { email := "ada@lab", role := "administrator", isActive := true }),
    ("b", { email := "bob@lab", role := "administrator", isActive := true })], by decide⟩

private def demote (actor person : String) : PatchPerson :=
  { actor := some actor, personId := person, role := some "engineer" }

/-- Nobody has been taken away since the call began to read. -/
private def first (p : Updates) : Pool.Event PatchPerson How → Bool
  | .start _ => true
  | .go n _ => (p.calls.lookup n).all fun call => call.seen = p.shared.lost

/-- One of two administrators makes the other an engineer. -/
theorem administered_of_meets_demotion :
    Runs.Throughout (step shipped) (Administered shipped) (start two)
      [.start (demote "a" "b"), .go 0 .next, .go 0 .next, .go 0 .next, .go 0 .next,
        .go 0 .next] := by
  refine administered_of_meets shipped two _ ⟨_, List.mem_cons_self, rfl⟩
    (Runs.meets_of_allMeet (c := first) ?_ (by decide))
  intro p e hfirst
  cases e with
  | start request => trivial
  | go n how =>
    intro call hcall person row _ _ _ _ _
    rw [first, Option.mem_def.mp hcall] at hfirst
    simpa using hfirst

instance (roles : Roles) : DecidablePred (Administered roles) := fun p =>
  inferInstanceAs (Decidable (∃ item ∈ p.shared.people.rows, isAdministrator roles item.2 = true))

/-- Two administrators make each other engineers: each call counts the one that the other call is
    about to take away. -/
theorem no_administrator :
    (start two).Administered shipped ∧
      ¬ Runs.Throughout (step shipped) (Administered shipped) (start two)
        [.start (demote "a" "b"), .start (demote "b" "a"),
          .go 0 .next, .go 0 .next, .go 0 .next, .go 0 .next,
          .go 1 .next, .go 1 .next, .go 1 .next, .go 1 .next, .go 0 .next, .go 1 .next] :=
  ⟨by decide, fun h => absurd h.last (by decide +kernel)⟩

end Updates

end Api

end Slas
