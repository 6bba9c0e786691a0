/-
  Slas.Api.OldSessions

  A changed password ends old sessions, whatever order the statements of sign-ins, resets and
  changes come in, as long as no reset or change is committed while a sign-in is on its way from
  reading the hash to its own commit: `ended_of_meets`.
-/

import Slas.Api.Passwords

namespace Slas

namespace Api

/-! ## Runs -/

/-- The account and the calls in progress. -/
abbrev Account.Calls := Pool Account PasswordCall

namespace Account

/-- A session that was opened by checking a password from before a reset or change is not
    resolved, unless it is the one that was to be kept. -/
def Ended (account : Account) : Prop :=
  ∀ token now, ∀ row ∈ account.resolve token now, ∀ i, ∀ kept ∈ account.changes[i]?,
    row.checked ≤ i → kept = some row.id

namespace Calls

variable (P : Passwords)

def step : Calls → Pool.Event PasswordRequest Statement → Calls :=
  Pool.step .begun fun n d call how => PasswordCall.advance P n d call how

/-- When a sign-in commits, the password it has checked is that of the last reset or change. -/
def Undisturbed : Calls → Pool.Event PasswordRequest Statement → Prop :=
  Pool.Each fun _ d call how => ∀ rehash row, call = .inserted rehash row → how ≠ .fails →
    row.checked = d.changes.length

end Calls

end Account

/-! ## What is kept -/

variable {P : Passwords} {n m : Nat} {d : Account} {call other next : PasswordCall}
  {how : Statement} {kept : Option SessionRow} {row : SessionRow}

/-- No session of the table is of a password from before a change that was not to keep it. -/
structure Account.Current (d : Account) : Prop where
  generation : d.generation = d.changes.length
  rows : ∀ row ∈ d.sessions, ∀ i, ∀ kept ∈ d.changes[i]?, row.checked ≤ i → kept = some row.id

/-- A call that has written holds the person's row; once it has deleted the sessions, only the one
    that is kept is left. -/
def PasswordCall.Owns (n : Nat) (d : Account) : PasswordCall → Prop
  | .inserted _ _ => d.lock = some n
  | .written _ _ => d.lock = some n
  | .revoked _ kept ids =>
    d.lock = some n ∧ ∀ row ∈ d.sessions, row.id ∉ ids → kept.map (·.id) = some row.id
  | _ => True

namespace PasswordCall

theorem slide_id : (slide kept row).id = row.id := by
  unfold slide
  split
  · rfl
  · split_ifs <;> rfl

theorem slide_checked : (slide kept row).checked = row.checked := by
  unfold slide
  split
  · rfl
  · split_ifs <;> rfl

/-- **The commit of a sign-in** that has checked the last password. -/
theorem current_commitSignIn {rehash : Option String} (h : d.Current)
    (hrow : row.checked = d.changes.length) : (commitSignIn d rehash row).Current := by
  refine ⟨?_, ?_⟩
  · simp only [commitSignIn]
    split_ifs
    · exact hrow
    · exact h.generation
  · intro session hsession i kept hkept hle
    rcases List.mem_append.mp hsession with hold | hnew
    · exact h.rows session hold i kept hkept hle
    · obtain rfl := List.mem_singleton.mp hnew
      have hlt := (List.getElem?_eq_some_iff.mp hkept).1
      simp only [commitSignIn] at hlt
      omega

/-- **The commit of a reset or change**, whose statement has deleted every session but the one to
    keep. -/
theorem current_commitPassword {hash : String} {ids : List String} (h : d.Current)
    (hown : ∀ row ∈ d.sessions, row.id ∉ ids → kept.map (·.id) = some row.id) :
    (commitPassword d hash kept ids).Current := by
  refine ⟨by simp [commitPassword], ?_⟩
  intro session hsession i keep hkeep hle
  obtain ⟨row, hrow, rfl⟩ := List.mem_map.mp hsession
  obtain ⟨hmem, hleft⟩ := List.mem_filter.mp hrow
  rw [slide_checked] at hle
  rw [slide_id]
  have hlast := hown row hmem (by simpa using hleft)
  simp only [commitPassword, List.getElem?_append, Option.mem_def] at hkeep
  split_ifs at hkeep with hi
  · exact h.rows row hmem i keep hkeep hle
  · have hsame : some (kept.map (·.id)) = some keep := by
      cases hj : i - d.changes.length with
      | zero => simpa [hj] using hkeep
      | succ j => simp [hj] at hkeep
    rw [← Option.some.inj hsame]
    exact hlast

/-! ## What a step can do -/

/-- A step that commits nothing, or only deletes sessions.  It takes the person's row only if
    nobody else holds it. -/
structure Quiet (n : Nat) (d d' : Account) : Prop where
  generation : d'.generation = d.generation
  changes : d'.changes = d.changes
  sessions : d'.sessions ⊆ d.sessions
  lock : ∀ m, m ≠ n → d.lock = some m → d'.lock = some m

theorem Quiet.refl : Quiet n d d := ⟨rfl, rfl, List.Subset.refl _, fun _ _ h => h⟩

theorem Quiet.rollback : Quiet n d (rollback n d) := by
  unfold PasswordCall.rollback
  split_ifs with hown
  · refine ⟨rfl, rfl, List.Subset.refl _, fun m hm hlock => ?_⟩
    exact absurd (Option.some.inj (hlock.symm.trans hown)) hm
  · exact Quiet.refl

theorem Quiet.take (h : free n d = true) : Quiet n d { d with lock := some n } := by
  refine ⟨rfl, rfl, List.Subset.refl _, fun m hm hlock => ?_⟩
  rcases of_decide_eq_true h with hnone | hown
  · cases hnone.symm.trans hlock
  · exact absurd (Option.some.inj (hlock.symm.trans hown)) hm

theorem Quiet.delete {keep : SessionRow → Bool} :
    Quiet n d { d with sessions := d.sessions.filter keep } :=
  ⟨rfl, rfl, fun _ hrow => List.mem_of_mem_filter hrow, fun _ _ h => h⟩

/-- The last statement of a call has been sent. -/
def commits : PasswordCall → Statement → Prop
  | .inserted _ _, .next .. => True
  | .revoked _ _ _, .next .. => True
  | _, _ => False

theorem quiet_advance (h : ¬ call.commits how) : Quiet n d (advance P n d call how).1 := by
  cases how with
  | fails => exact Quiet.rollback
  | next now hrs id token hash =>
    cases call with
    | begun request =>
      cases request with
      | signIn password =>
        simp only [advance]
        split_ifs <;> exact Quiet.refl
      | reset => exact Quiet.refl
      | change token' current new =>
        simp only [advance]
        split
        · exact Quiet.refl
        · split_ifs
          · exact Quiet.delete
          · exact Quiet.refl
    | verified old checked =>
      simp only [advance]
      split_ifs with _ hfree
      · exact Quiet.take hfree
      · exact Quiet.refl
      · exact Quiet.refl
    | settled rehash hrs' checked =>
      simp only [advance]
      split_ifs with hfree
      · exact Quiet.rollback
      · exact Quiet.take hfree
      · exact Quiet.refl
    | inserted rehash row => exact absurd trivial h
    | resolved row current new =>
      simp only [advance]
      split_ifs
      · exact ⟨rfl, rfl, List.nil_subset _, fun _ _ hlock => hlock⟩
      · exact Quiet.refl
      · exact Quiet.refl
    | allowed kept =>
      simp only [advance]
      split_ifs with hfree
      · exact Quiet.take hfree
      · exact Quiet.rollback
      · exact Quiet.refl
    | written hash' kept => exact Quiet.refl
    | revoked hash' kept ids => exact absurd trivial h

/-- A call that goes on owns what it needs. -/
theorem owns_advance (h : call.Owns n d) (hnext : (advance P n d call how).2 = some next) :
    next.Owns n (advance P n d call how).1 := by
  cases how with
  | fails => cases hnext
  | next now hrs id token hash =>
    cases call with
    | begun request =>
      cases request with
      | signIn password =>
        simp only [advance] at hnext ⊢
        split_ifs at hnext
        cases hnext
        trivial
      | reset =>
        cases hnext
        trivial
      | change token' current new =>
        simp only [advance] at hnext
        split at hnext
        · cases hnext
        · split_ifs at hnext
          cases hnext
          trivial
    | verified old checked =>
      simp only [advance] at hnext ⊢
      split_ifs at hnext <;> cases hnext <;> trivial
    | settled rehash hrs' checked =>
      simp only [advance] at hnext ⊢
      split_ifs at hnext ⊢ <;> cases hnext
      · rfl
      · trivial
    | inserted rehash row => cases hnext
    | resolved row current new =>
      simp only [advance] at hnext
      split_ifs at hnext
      cases hnext
      trivial
    | allowed kept =>
      simp only [advance] at hnext ⊢
      split_ifs at hnext ⊢ <;> cases hnext
      · rfl
      · trivial
    | written hash' kept =>
      cases hnext
      refine ⟨h, fun row hrow hleft => ?_⟩
      have hmem : row.id ∈ d.sessions.map (·.id) := List.mem_map_of_mem hrow
      cases kept with
      | none => exact absurd (List.mem_filter.mpr ⟨hmem, rfl⟩) hleft
      | some k =>
        by_contra hne
        refine hleft (List.mem_filter.mpr ⟨hmem, ?_⟩)
        simpa using fun heq => hne (by simp [heq])
    | revoked hash' kept ids => cases hnext

/-- Another call that owns the person's row still does, after a step that is quiet. -/
theorem Quiet.owns {d' : Account} (h : Quiet n d d') (hm : m ≠ n) (ho : other.Owns m d) :
    other.Owns m d' := by
  cases other with
  | inserted rehash row => exact h.lock m hm ho
  | written hash kept => exact h.lock m hm ho
  | revoked hash kept ids => exact ⟨h.lock m hm ho.1, fun row hrow => ho.2 row (h.sessions hrow)⟩
  | _ => trivial

theorem Quiet.current {d' : Account} (h : Quiet n d d') (hd : d.Current) : d'.Current :=
  ⟨by rw [h.generation, h.changes]; exact hd.generation, fun row hrow i kept hkept =>
    hd.rows row (h.sessions hrow) i kept (h.changes ▸ hkept)⟩

theorem lock_of_commits (h : call.commits how) (ho : call.Owns n d) : d.lock = some n := by
  cases call with
  | inserted rehash row => exact ho
  | revoked hash kept ids => exact ho.1
  | _ => exact absurd h (by cases how <;> exact fun h => h)

/-- A call that does not hold the person's row needs nothing of the account. -/
theorem owns_of_not_holder {d' : Account} (h : d.lock ≠ some m) (ho : other.Owns m d) :
    other.Owns m d' := by
  cases other with
  | inserted rehash row => exact absurd ho h
  | written hash kept => exact absurd ho h
  | revoked hash kept ids => exact absurd ho.1 h
  | _ => trivial

theorem current_advance (hd : d.Current) (ho : call.Owns n d)
    (hrow : ∀ rehash row, call = .inserted rehash row → how ≠ .fails →
      row.checked = d.changes.length) :
    (advance P n d call how).1.Current := by
  by_cases hc : call.commits how
  · cases how with
    | fails => exact absurd hc (by cases call <;> exact fun h => h)
    | next now hrs id token hash =>
      cases call with
      | inserted rehash row => exact current_commitSignIn hd (hrow rehash row rfl (by simp))
      | revoked hash' kept ids => exact current_commitPassword hd ho.2
      | _ => exact hc.elim
  · exact (quiet_advance hc).current hd

theorem owns_others (hm : m ≠ n) (ho : call.Owns n d) (hother : other.Owns m d) :
    other.Owns m (advance P n d call how).1 := by
  by_cases hc : call.commits how
  · refine owns_of_not_holder (d := d) ?_ hother
    rw [lock_of_commits hc ho]
    exact fun h => hm (Option.some.inj h).symm
  · exact (quiet_advance hc).owns hm hother

end PasswordCall

theorem Account.Current.ended (h : d.Current) : d.Ended := by
  intro token now row hrow i kept hkept hle
  unfold Account.resolve at hrow
  split at hrow
  · cases hrow
  · rename_i found hfound
    split_ifs at hrow with hgone
    · cases hrow
    obtain rfl : found = row := Option.some.inj hrow
    exact h.rows _ (List.mem_of_find?_eq_some hfound) i kept hkept hle

namespace Account

namespace Calls

/-- No reset or change yet, whatever sessions there are. -/
def start (person : Person) (sessions : List SessionRow) : Calls :=
  { shared := { person := person, sessions := sessions } }

/-- **A changed password ends old sessions**, if each sign-in that commits has checked the password
    of the last reset or change. -/
theorem ended_of_meets (P : Passwords) (person : Person) (sessions : List SessionRow)
    (es : List (Pool.Event PasswordRequest Statement))
    (hmeets : Runs.Meets (step P) Undisturbed (start person sessions) es) :
    Runs.Throughout (step P) (fun p => p.shared.Ended) (start person sessions) es := by
  have hrun : Runs.Throughout (step P) (Pool.Holds Current fun n d call => call.Owns n d)
      (start person sessions) es := by
    refine Runs.throughout_of_meets ?_ ?_ hmeets
    · intro p e hp hc
      refine Pool.holds_step e hp (fun _ _ _ _ => trivial) ?_ ?_ hc
      · intro n d call how hd ho hrow
        exact ⟨PasswordCall.current_advance hd ho hrow, fun next hnext =>
          PasswordCall.owns_advance ho hnext⟩
      · intro n d call how m other _ ho _ hm hother
        exact PasswordCall.owns_others hm ho hother
    · exact ⟨⟨rfl, fun row _ i kept hkept => nomatch hkept⟩, fun n call hcall => nomatch hcall⟩
  exact fun pre hpre => (hrun pre hpre).shared.ended

private def plain : Passwords where
  verify hash password := hash == "argon2:" ++ password
  needsRehash _ := false
  lower s := String.ofList (s.toList.map Char.toLower)

private def ada : Person :=
  { email := "ada@lab", role := "engineer", passwordHash := "argon2:old", isActive := true }

private def at_ (id : String) : Statement := .next 0 8 id ("sha256:" ++ id) "argon2:one-time"

/-- A sign-in that is about to commit has checked the last password. -/
private def last (p : Calls) : Pool.Event PasswordRequest Statement → Bool
  | .start _ => true
  | .go n _ => (p.calls.lookup n).all fun call =>
    match call with
    | .inserted _ row => row.checked = p.shared.changes.length
    | _ => true

/-- Ada signs in; then her password is reset, and her session ends. -/
theorem ended_of_meets_reset :
    Runs.Throughout (step plain) (fun p => p.shared.Ended) (start ada [])
      [.start (.signIn "old"), .go 0 (at_ "s"), .go 0 (at_ "s"), .go 0 (at_ "s"),
        .go 0 (at_ "s"), .start .reset, .go 1 (at_ "-"), .go 1 (at_ "-"), .go 1 (at_ "-"),
        .go 1 (at_ "-")] := by
  refine ended_of_meets plain ada [] _ (Runs.meets_of_allMeet (c := last) ?_ (by decide))
  intro p e hlast
  cases e with
  | start request => trivial
  | go n how =>
    rintro call hcall rehash row rfl -
    rw [last, Option.mem_def.mp hcall] at hlast
    simpa using hlast

/-- The password is reset after a sign-in has checked the old one, and before it opens the
    session. -/
theorem session_of_old_password :
    ¬ Runs.Throughout (step plain) (fun p => p.shared.Ended) (start ada [])
      [.start (.signIn "old"), .go 0 (at_ "s"), .start .reset, .go 1 (at_ "-"), .go 1 (at_ "-"),
        .go 1 (at_ "-"), .go 1 (at_ "-"), .go 0 (at_ "s"), .go 0 (at_ "s"), .go 0 (at_ "s")] := by
  intro h
  have hend := h.last "sha256:s" 0 ⟨"s", "sha256:s", 0, 0, 28800000000, 0⟩ (by decide) 0 none
    (by decide) (by decide)
  cases hend

end Calls

end Account

end Api

end Slas
