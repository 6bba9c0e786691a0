/-
  Slas.Sandbox.Workspaces

  The directories of different people are disjoint: what the sessions of two names on disk may
  write lies below two directories, neither of which is inside the other: `disjoint_workspaces`.
  People whose addresses reduce to the same name share a workspace.
-/

import Slas.Sandbox.Tracked

namespace Slas

namespace Sandbox

/-! ## The name of a person on disk -/

/-- `[a-z0-9._-]` -/
def isSafe (c : Char) : Bool := c.isLower || c.isDigit || c = '.' || c = '_' || c = '-'

/-- `re.sub("[^a-z0-9._-]+", "-", text)`: one dash for each run of other characters. -/
def reduced : Bool → List Char → List Char
  | _, [] => []
  | inRun, c :: cs =>
    if isSafe c then c :: reduced false cs
    else if inRun then reduced true cs
    else '-' :: reduced true cs

def isEdge (c : Char) : Bool := c = '-' || c = '.'

/-- `workspace_user`, of an identity's address.  `lower` is `str.lower`. -/
def workspaceUser (lower : String → String) (user : String) : String :=
  let local_ := lower (String.ofList (Text.strip (user.toList.takeWhile (· ≠ '@'))))
  let safe := Text.stripBy isEdge (reduced false local_.toList)
  if safe = [] then "user" else String.ofList safe

/-- A safe character is printable, and no capital. -/
theorem toNat_of_isSafe {c : Char} (h : isSafe c = true) :
    45 ≤ c.toNat ∧ c.toNat ≤ 122 ∧ ¬ (65 ≤ c.toNat ∧ c.toNat ≤ 90) := by
  have hlower : c.isLower = true → 97 ≤ c.toNat ∧ c.toNat ≤ 122 := by
    intro hc
    change (decide (c.val ≥ 'a'.val) && decide (c.val ≤ 'z'.val)) = true at hc
    simp only [Bool.and_eq_true, decide_eq_true_eq, ge_iff_le, UInt32.le_iff_toNat_le] at hc
    exact hc
  simp only [isSafe, Bool.or_eq_true, decide_eq_true_eq, Char.isDigit,
    Bool.and_eq_true, ge_iff_le, UInt32.le_iff_toNat_le] at h
  rcases h with (((h | ⟨h, h'⟩) | rfl) | rfl) | rfl
  · obtain ⟨hlow, hhigh⟩ := hlower h
    omega
  · change 48 ≤ c.toNat at h
    change c.toNat ≤ 57 at h'
    omega
  all_goals decide

theorem not_isSpace_of_isSafe {c : Char} (h : isSafe c = true) : Lines.isSpace c = false := by
  obtain ⟨hlow, hhigh, -⟩ := toNat_of_isSafe h
  simp only [Lines.isSpace, Bool.or_eq_false_iff, Bool.and_eq_false_iff, decide_eq_false_iff_not]
  omega

theorem toLower_of_isSafe {c : Char} (h : isSafe c = true) : c.toLower = c := by
  obtain ⟨-, -, hcapital⟩ := toNat_of_isSafe h
  delta Char.toLower
  rw [dif_neg]
  rintro ⟨h, h'⟩
  rw [ge_iff_le, UInt32.le_iff_toNat_le] at h
  rw [UInt32.le_iff_toNat_le] at h'
  exact hcapital ⟨h, h'⟩

/-- A name of safe characters that neither begins nor ends with a dash or a dot. -/
def IsWorkspaceUser (name : String) : Prop :=
  name ≠ "" ∧ (∀ c ∈ name.toList, isSafe c = true) ∧ Text.Trimmed isEdge name.toList

theorem isSafe_of_mem_reduced {inRun : Bool} {cs : List Char} {c : Char}
    (h : c ∈ reduced inRun cs) : isSafe c = true := by
  induction cs generalizing inRun with
  | nil => cases h
  | cons d cs ih =>
    rw [reduced] at h
    split_ifs at h with hsafe hrun
    · rcases List.mem_cons.mp h with rfl | h
      · exact hsafe
      · exact ih h
    · exact ih h
    · rcases List.mem_cons.mp h with rfl | h
      · decide
      · exact ih h

theorem reduced_of_isSafe {inRun : Bool} {cs : List Char} (h : ∀ c ∈ cs, isSafe c = true) :
    reduced inRun cs = cs := by
  induction cs generalizing inRun with
  | nil => rfl
  | cons c cs ih =>
    rw [reduced, if_pos (h c List.mem_cons_self), ih fun d hd => h d (List.mem_cons_of_mem c hd)]

theorem isWorkspaceUser_workspaceUser (lower : String → String) (user : String) :
    IsWorkspaceUser (workspaceUser lower user) := by
  rw [workspaceUser]
  split_ifs with hempty
  · have hsafe : ("user".toList.all isSafe) = true := by decide
    have hedge : ("user".toList.all fun c => !isEdge c) = true := by decide
    exact ⟨by decide, List.all_eq_true.mp hsafe, Text.trimmed_of_forall fun c hc =>
      by simpa using List.all_eq_true.mp hedge c hc⟩
  · refine ⟨by simpa using hempty, fun c hc => ?_, ?_⟩
    · rw [String.toList_ofList] at hc
      exact isSafe_of_mem_reduced (Text.mem_of_mem_stripBy hc)
    · rw [String.toList_ofList]
      exact Text.trimmed_stripBy isEdge _

/-- Such a name is one name of a path. -/
theorem IsWorkspaceUser.isName {name : String} (h : IsWorkspaceUser name) : Text.IsName name := by
  obtain ⟨hne, hsafe, htrim⟩ := h
  refine ⟨fun hslash => absurd (hsafe _ hslash) (by decide), hne, ?_⟩
  rintro rfl
  exact absurd (htrim.1 '.' rfl) (by decide)

/-- So is a slug. -/
theorem isName_of_isSlug {name : String} (h : isSlug name.toList = true) : Text.IsName name := by
  cases hcs : name.toList with
  | nil => simp [hcs, isSlug] at h
  | cons c cs =>
    rw [hcs, isSlug, Bool.and_eq_true, List.all_eq_true] at h
    refine ⟨fun hslash => ?_, ?_, ?_⟩
    · rw [hcs] at hslash
      rcases List.mem_cons.mp hslash with rfl | hmem
      · exact absurd h.1 (by decide)
      · exact absurd (h.2 _ hmem) (by decide)
    · rintro rfl
      cases hcs
    · rintro rfl
      obtain ⟨rfl, -⟩ := List.cons.inj (hcs.symm.trans (show ".".toList = ['.'] from rfl))
      exact absurd h.1 (by decide)

/-! ## What a session may write -/

/-- The sources of the mounts that a sandbox may write. -/
def Session.writable (session : Session) : List PurePath :=
  (session.handle.spec.mounts.filter (·.mode = .rw)).map fun mount => .ofText mount.source

variable {S : Setup} {m : Manager} {call : OpenCall} {session : Session}

/-- What the fields of a spec that passes its own checks are. -/
theorem slugs_of_valid {spec : SandboxSpec} {id : String} (h : spec.invalidFields = [])
    (hname : spec.name = NAME_PREFIX ++ id) :
    isSlug id.toList = true ∧ isSlug spec.slug.toList = true := by
  have hchecks := List.filterMap_eq_nil_iff.mp h
  have hslug := hchecks ("slug", isSlug spec.slug.toList) (by simp)
  have hid := hchecks ("name", isSandboxName spec.name) (by simp)
  have hvalid : isSandboxName spec.name = true := by
    by_contra hnot
    simp [hnot] at hid
  rw [isSandboxName, hname, Bool.and_eq_true, String.toList_append] at hvalid
  refine ⟨?_, by by_contra hnot; simp [hnot] at hslug⟩
  have hdrop : (NAME_PREFIX.toList ++ id.toList).drop NAME_PREFIX.length = id.toList := by
    rw [← String.length_toList]
    exact List.drop_left
  rw [← hdrop]
  exact hvalid.2

theorem Manager.prepare_ok {counter : Nat} {asked : String × SandboxSpec × String}
    (h : m.prepare S call = (counter, .ok asked)) :
    (∃ runtime, asked.2.1 = specFor S call runtime asked.1) ∧ asked.2.1.invalidFields = [] := by
  simp only [Manager.prepare] at h
  split at h
  · cases h
  split at h
  · cases h
  rename_i runtime sentence _
  split at h
  · cases h
  split at h
  · cases h
  split at h
  · cases h
  · rename_i hcheck
    cases h
    refine ⟨⟨runtime, rfl⟩, ?_⟩
    by_contra hinvalid
    rw [checkSpec, if_pos hinvalid] at hcheck
    cases hcheck

/-- What a session is opened with: its own directories, below that of its user. -/
theorem Manager.open_ok (h : (m.open_ S call).2 = .ok session) :
    ∃ id, isSlug id.toList = true ∧ isSlug call.slug.toList = true ∧
      session.handle.spec.mounts = S.mounts call.user call.slug id := by
  rcases hp : m.prepare S call with ⟨counter, e | asked⟩
  · simp only [Manager.open_, hp] at h
    cases h
  · obtain ⟨⟨runtime, hspec⟩, hvalid⟩ := prepare_ok hp
    obtain ⟨id, spec, sentence⟩ := asked
    have hname : spec.name = NAME_PREFIX ++ id := congrArg SandboxSpec.name hspec
    have hslugs := slugs_of_valid hvalid hname
    simp only [Manager.open_, hp] at h
    cases hd : Driver.create spec call.answers m.containers with
    | mk cs result =>
      rw [hd] at h
      cases result with
      | error e => cases h
      | ok handle =>
        cases h
        have hhandle : handle.spec = spec := Driver.create_spec (congrArg Prod.snd hd)
        have hsame : spec = specFor S call runtime id := hspec
        refine ⟨id, hslugs.1, ?_, ?_⟩
        · have hslug := hslugs.2
          simp only [hsame] at hslug
          exact hslug
        · simp only [hhandle, hsame]
          rfl

/-- What a session may write is its project and its scratch directory. -/
theorem inside_of_writable (h : (m.open_ S call).2 = .ok session) :
    ∀ source ∈ session.writable, source.Inside (S.codingRoot call.user) := by
  obtain ⟨id, hid, hslug, hmounts⟩ := Manager.open_ok h
  have hbelow (directory name : String) (hdirectory : Text.IsName directory)
      (hname : Text.IsName name) :
      PurePath.Inside (((S.codingRoot call.user).join directory).join name)
        (S.codingRoot call.user) :=
    (PurePath.inside_join hname).trans (PurePath.inside_join hdirectory)
  intro source hsource
  rw [Session.writable, hmounts] at hsource
  simp only [Setup.mounts, List.filter_cons, List.filter_nil, decide_true, if_true,
    reduceCtorEq, decide_false, Bool.false_eq_true, if_false, List.map_cons, List.map_nil,
    List.mem_cons, List.not_mem_nil, or_false, PurePath.ofText_str] at hsource
  rcases hsource with rfl | rfl
  · exact hbelow "Projects" call.slug ⟨by decide, by decide, by decide⟩ (isName_of_isSlug hslug)
  · exact hbelow "Container" id ⟨by decide, by decide, by decide⟩ (isName_of_isSlug hid)

/-- An address of a name of that form, in a domain. -/
theorem workspaceUser_address {lower : String → String} {name : String} (h : IsWorkspaceUser name)
    (hlower : lower name = name) (domain : String) :
    workspaceUser lower (name ++ "@" ++ domain) = name := by
  obtain ⟨hne, hsafe, htrim⟩ := h
  have hat : ∀ c ∈ name.toList, decide (c ≠ '@') = true := by
    intro c hc
    rw [decide_eq_true_eq]
    rintro rfl
    exact absurd (hsafe _ hc) (by decide)
  have hspace : Text.strip name.toList = name.toList :=
    Text.stripBy_of_trimmed (Text.trimmed_of_forall fun c hc => not_isSpace_of_isSafe (hsafe c hc))
  have hcut : (name ++ "@" ++ domain).toList.takeWhile (· ≠ '@') = name.toList := by
    rw [String.toList_append, String.toList_append, List.append_assoc,
      List.takeWhile_append_of_pos hat]
    simp
  rw [workspaceUser, hcut, hspace, String.ofList_toList, hlower, reduced_of_isSafe hsafe,
    Text.stripBy_of_trimmed htrim, String.ofList_toList]
  exact if_neg (String.toList_eq_nil_iff.not.mpr hne)

/-- **Disjoint workspaces**: a name on disk is one name of a path, and is the local part of an
    address that has that form already.  For two different names, what the sessions may write lies
    below the directory of each, and none of it is at, inside or above that of the other. -/
theorem disjoint_workspaces (S : Setup) (lower : String → String)
    (hlower : ∀ name : String, (∀ c ∈ name.toList, isSafe c = true) → lower name = name) :
    (∀ person, IsWorkspaceUser (workspaceUser lower person) ∧
      Text.IsName (workspaceUser lower person)) ∧
    (∀ name domain, IsWorkspaceUser name → workspaceUser lower (name ++ "@" ++ domain) = name) ∧
    ∀ (m m' : Manager) (call call' : OpenCall), Text.IsName call.user → Text.IsName call'.user →
      call.user ≠ call'.user → ∀ session session', (m.open_ S call).2 = .ok session →
      (m'.open_ S call').2 = .ok session' →
      ∀ source ∈ session.writable, ∀ source' ∈ session'.writable,
        source.Inside ((S.dataRoot.join "Coding").join call.user) ∧
        source'.Inside ((S.dataRoot.join "Coding").join call'.user) ∧
        ¬ source.Inside source' ∧ ¬ source'.Inside source := by
  refine ⟨fun person => ?_, fun name domain h => ?_, ?_⟩
  · have hform := isWorkspaceUser_workspaceUser lower person
    exact ⟨hform, hform.isName⟩
  · exact workspaceUser_address h (hlower name h.2.1) domain
  · intro m m' call call' hname hname' hne session session' h h' source hsource source' hsource'
    have hin := inside_of_writable h source hsource
    have hin' := inside_of_writable h' source' hsource'
    exact ⟨hin, hin', PurePath.not_inside_of_join_ne hname hname' hne hin hin',
      PurePath.not_inside_of_join_ne hname' hname hne.symm hin' hin⟩

theorem lower_of_isSafe (name : String) (h : ∀ c ∈ name.toList, isSafe c = true) :
    quickstart.lower name = name := by
  have hsame : name.toList.map Char.toLower = name.toList :=
    (List.map_congr_left fun c hc => toLower_of_isSafe (h c hc)).trans (List.map_id' _)
  change String.ofList (name.toList.map Char.toLower) = name
  rw [hsame, String.ofList_toList]

/-- A call of the route for `user` and `slug`. -/
private def asked (user slug : String) : OpenCall :=
  { user, slug, image := "local/slas/sandbox-python:3.12", language := "python", now := 0 }

private def written (user slug : String) : Option (List String) :=
  ((Manager.initial true).open_ quickstart (asked user slug)).2.toOption.map fun session =>
    session.writable.map PurePath.str

private theorem exists_opened {user slug : String} {texts : List String}
    (h : written user slug = some texts) :
    ∃ session, ((Manager.initial true).open_ quickstart (asked user slug)).2 = .ok session ∧
      session.writable = texts.map PurePath.ofText := by
  obtain ⟨session, hsession, rfl⟩ := Option.map_eq_some_iff.mp h
  refine ⟨session, ?_, ?_⟩
  · cases hopened : ((Manager.initial true).open_ quickstart (asked user slug)).2 with
    | error e =>
      rw [hopened] at hsession
      cases hsession
    | ok _ =>
      rw [hopened] at hsession
      exact congrArg Except.ok (Option.some.inj hsession)
  · simp [List.map_map, Function.comp_def, PurePath.ofText_str]

private theorem written_ada : written "ada" "demo" = some ["/data/Coding/ada/Projects/demo",
    "/data/Coding/ada/Container/demo-00000301000000-1"] := by
  decide +kernel

private theorem written_bob : written "bob" "demo" = some ["/data/Coding/bob/Projects/demo",
    "/data/Coding/bob/Container/demo-00000301000000-1"] := by
  decide +kernel

private theorem written_nested : written "ada/Projects/demo" "x" =
    some ["/data/Coding/ada/Projects/demo/Projects/x",
      "/data/Coding/ada/Projects/demo/Container/x-00000301000000-1"] := by
  decide +kernel

theorem disjoint_workspaces_two : ∃ session session',
    ((Manager.initial true).open_ quickstart (asked "ada" "demo")).2 = .ok session ∧
      ((Manager.initial true).open_ quickstart (asked "bob" "demo")).2 = .ok session' ∧
      ∀ source ∈ session.writable, ∀ source' ∈ session'.writable,
        source.Inside ((quickstart.dataRoot.join "Coding").join "ada") ∧
        source'.Inside ((quickstart.dataRoot.join "Coding").join "bob") ∧
        ¬ source.Inside source' ∧ ¬ source'.Inside source := by
  obtain ⟨session, hopened, -⟩ := exists_opened written_ada
  obtain ⟨session', hopened', -⟩ := exists_opened written_bob
  obtain ⟨-, -, hdisjoint⟩ :=
    disjoint_workspaces quickstart quickstart.lower lower_of_isSafe
  exact ⟨session, session', hopened, hopened', hdisjoint _ _ _ _ ⟨by decide, by decide, by decide⟩
    ⟨by decide, by decide, by decide⟩ (by decide) session session' hopened hopened'⟩

/-- Two people of one local part share a name on disk, and a name of several parts is accepted. -/
theorem shared_workspaces :
    ¬ ((∀ person person' : String, person ≠ person' →
        workspaceUser quickstart.lower person ≠ workspaceUser quickstart.lower person') ∨
      ∀ (m m' : Manager) (call call' : OpenCall), call.user ≠ call'.user →
      ∀ session session', (m.open_ quickstart call).2 = .ok session →
      (m'.open_ quickstart call').2 = .ok session' →
      ∀ source ∈ session.writable, ∀ source' ∈ session'.writable,
        ¬ source'.Inside source) := by
  rintro (h | h)
  · exact h "alice@a.lab" "alice@b.lab" (by decide) (by decide +kernel)
  · obtain ⟨session, hopened, hwritable⟩ := exists_opened written_ada
    obtain ⟨session', hopened', hwritable'⟩ := exists_opened written_nested
    refine h _ _ _ _ (by decide) session session' hopened hopened'
      (.ofText "/data/Coding/ada/Projects/demo") (by simp [hwritable])
      (.ofText "/data/Coding/ada/Projects/demo/Projects/x") (by simp [hwritable']) ?_
    exact ⟨by decide, by decide⟩

end Sandbox

end Slas
