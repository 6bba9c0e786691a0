/-
  Slas.Models.RegistryFile

  The two services that rewrite `Models/models.yaml`: the model fetcher adds what it fetched
  (`import_model` of `slas_model_fetcher.registry_import`), the model manager changes roles and
  voters (`Controller.set_roles`).  Each reads the file, edits what it read and writes it back
  whole; the requests of the manager exclude each other, those of the fetcher's threads and of
  the two services do not.

  `none_lost_of_unchanged`: when every write finds the file as it was read, each imported
  model and each role change that was answered is there.
-/

import Slas.Models.Registry
import Slas.Lib.Except
import Slas.Lib.ReadModifyWrite

namespace Slas

namespace Models

open ReadModifyWrite

/-! ## The file -/

/-- The file, as its loader finds it: with what is raised where it is no registry. -/
inductive RegistryFile where
  | missing
  | unusable (message : ThreePartMessage)
  | usable (registry : Registry) (header : String)

def EMPTY_HEADER : String :=
  "Models/models.yaml for SW Local Agent Service (CLAUDE.md §7), written by the model\n" ++
  "fetcher (ADR-0018). Every `path` is a directory under Models/, never a URL (INV-1).\n" ++
  "Change roles and voters on the Models page; no restart is needed."

variable (reason : RegistryData → String) (source : String)

/-- What `import_model` adds its entry to. -/
def RegistryFile.data : RegistryFile → Except ThreePartMessage (RegistryData × String)
  | .missing => .ok ({ models := [] }, EMPTY_HEADER)
  | .unusable message => .error message
  | .usable registry header => .ok (registry.toRegistryData, header)

def alreadyRegistered (entry : ModelEntry) : ThreePartMessage where
  whatHappened := entry.id ++ " is already in the model registry."
  likelyCause := "A model with this id was registered earlier."
  whatToDo := "Give the new model another registry id, or remove the old entry from " ++
    "Models/models.yaml first."

/-- `import_model`: the file as it is written. -/
def importModel (file : RegistryFile) (entry : ModelEntry) :
    Except ThreePartMessage RegistryFile := do
  let (data, header) ← file.data
  if data.models.any fun m => m.id == entry.id then .error (alreadyRegistered entry)
  else
    let registry ← registryFromMapping reason source
      { data with models := data.models ++ [entry] }
    return .usable registry header

/-! ## Roles and voters -/

structure ServiceError where
  status : Nat
  message : ThreePartMessage

/-- `_present_entry`: a model of the registry whose weights are here. -/
def presentEntry (present : ModelEntry → Bool) (r : Registry) (modelId : String) :
    Except ServiceError ModelEntry :=
  match r.model modelId with
  | none =>
    .error ⟨400, ⟨"There is no model called " ++ modelId ++ " in the registry.",
      "The id is mistyped, or the entry was removed from Models/models.yaml.",
      "Pick a model from the Models page."⟩⟩
  | some entry =>
    if present entry then .ok entry
    else
      .error ⟨400, ⟨"The weights of " ++ entry.displayName ++ " are not here yet.",
        "Models/" ++ entry.path ++ "/SHA256SUMS does not exist, so an instance could not start.",
        "Add the model from this page (or run ./install.sh --models) first, then assign it."⟩⟩

def notARole (name : String) : ThreePartMessage where
  whatHappened := name ++ " is not a role."
  likelyCause := "The roles are " ++ ", ".intercalate (Role.ROLES.map (·.name)) ++ "."
  whatToDo := "Pick a role from the Models page."

/-- The roles and the entries while the changes are made. -/
structure Draft where
  assigned : List (Role × String)
  models : List ModelEntry

/-- The model is declared for the role that it is given. -/
def declareRole (role : Role) (modelId : String) (m : ModelEntry) : ModelEntry :=
  if m.id = modelId ∧ role ∉ m.roles then { m with roles := m.roles ++ [role] } else m

/-- The changes of roles, one after the other. -/
def assign (present : ModelEntry → Bool) (r : Registry) :
    List (String × Option String) → Draft → Except ServiceError Draft
  | [], d => .ok d
  | (name, value) :: changes, d =>
    match Role.ofName? name with
    | none => .error ⟨400, notARole name⟩
    | some role =>
      match value with
      | none => assign present r changes { d with assigned := Dict.pop role d.assigned }
      | some modelId => do
        let _ ← presentEntry present r modelId
        assign present r changes
          { assigned := Dict.set role modelId d.assigned
            models := d.models.map (declareRole role modelId) }

/-- The voters that are asked for, checked, or those of the registry. -/
def votersOf (present : ModelEntry → Bool) (r : Registry) :
    Option (List String) → Except ServiceError (List String)
  | none => .ok r.voters
  | some voters =>
    if ¬ voters.Nodup then
      .error ⟨400, ⟨"A model is listed twice among the voters.",
        "Voters are distinct models, from different families where possible.",
        "Tick each model once."⟩⟩
    else (voters.mapM (presentEntry present r)).map fun _ => voters

def nothingToChange : ThreePartMessage where
  whatHappened := "Nothing to change."
  likelyCause := "The request named neither a role nor the voters."
  whatToDo := "Pick a model for a role or tick the voters, then save."

def notReadable (source : String) : ThreePartMessage where
  whatHappened := "The model registry " ++ source ++ " could not be read."
  likelyCause := "The file is missing or unreadable (FileNotFoundError)."
  whatToDo := "Run `./install.sh` again, which writes the profile's registry when none " ++
    "exists, or create it from services/model-manager/models.example.yaml."

/-- `set_roles`, up to the write: the file as it is written. -/
def setRoles (present : ModelEntry → Bool) (file : RegistryFile)
    (roles : Option (List (String × Option String))) (voters : Option (List String)) :
    Except ServiceError RegistryFile :=
  if roles.isNone && voters.isNone then .error ⟨400, nothingToChange⟩
  else match file with
    | .missing => .error ⟨503, notReadable source⟩
    | .unusable message => .error ⟨503, message⟩
    | .usable r header => do
      let draft ← assign present r (roles.getD []) ⟨r.roles, r.models⟩
      let voters ← votersOf present r voters
      let data : RegistryData :=
        { r.toRegistryData with models := draft.models, roles := draft.assigned, voters }
      match registryFromMapping reason source data with
      | .ok written => return .usable written header
      | .error message => .error ⟨400, message⟩

/-! ## The two services -/

/-- What was answered as done. -/
inductive Change where
  | imported (entry : ModelEntry)
  | roles (changes : List (String × Option String))

def Change.assignments : Change → List (String × Option String)
  | .imported _ => []
  | .roles changes => changes

/-- Which weights are here, and what was answered so far. -/
structure Outside where
  present : ModelEntry → Bool
  done : List Change := []

inductive FileRequest where
  | importModel (entry : ModelEntry)
  | setRoles (roles : Option (List (String × Option String))) (voters : Option (List String))

def FileRequest.isSetRoles : FileRequest → Bool
  | .importModel _ => false
  | .setRoles _ _ => true

/-- The requests on the file: the manager's hold its lock from their read to their write. -/
def fileProtocol : Protocol Outside (ModelEntry → Bool) RegistryFile FileRequest where
  move o present := some { o with present }
  accept _ inFlight request := !(request.isSetRoles && inFlight.any FileRequest.isSetRoles)
  serve o request file :=
    match request with
    | .importModel entry =>
      match importModel reason source file entry with
      | .ok written => some ({ o with done := o.done ++ [.imported entry] }, written)
      | .error _ => none
    | .setRoles roles voters =>
      match setRoles reason source o.present file roles voters with
      | .ok written => some ({ o with done := o.done ++ [.roles (roles.getD [])] }, written)
      | .error _ => none

/-! ## What is kept -/

/-- An entry as it was, but for roles that it was declared for since. -/
def Extends (entry m : ModelEntry) : Prop :=
  { m with roles := entry.roles } = entry ∧ entry.roles ⊆ m.roles

/-- One change, to what the last one was. -/
def noted (role : Role) (last : Option (Option String)) (change : String × Option String) :
    Option (Option String) :=
  if change.1 = role.name then some change.2 else last

/-- What the last answered change of the role made of it. -/
def answered (done : List Change) (role : Role) : Option (Option String) :=
  (done.flatMap Change.assignments).foldl (noted role) none

/-- Every model whose import returned is in the file, and every role is as its last answered
    change left it. -/
structure NoneLost (done : List Change) (file : RegistryFile) : Prop where
  models : ∀ entry, Change.imported entry ∈ done →
    ∃ r header, file = .usable r header ∧ ∃ m ∈ r.models, Extends entry m
  roles : ∀ role served, answered done role = some served →
    ∃ r header, file = .usable r header ∧ r.roles.lookup role = served

variable {reason source} {present : ModelEntry → Bool} {file file' : RegistryFile}
  {entry m m' : ModelEntry} {r : Registry} {role : Role}

theorem Extends.refl (m : ModelEntry) : Extends m m := ⟨rfl, List.Subset.refl _⟩

theorem Extends.declareRole {modelId : String} (h : Extends entry m) :
    Extends entry (declareRole role modelId m) := by
  unfold Models.declareRole
  split
  · exact ⟨h.1, fun x hx => List.mem_append_left _ (h.2 hx)⟩
  · exact h

theorem registryFromMapping_ok {d : RegistryData}
    (h : registryFromMapping reason source d = .ok r) : r.toRegistryData = d := by
  unfold registryFromMapping at h
  split at h
  · rename_i r' hr'
    cases h
    exact Registry.ofData?_eq_some hr'
  · cases h

/-- An import writes what it read and its entry. -/
theorem importModel_ok (h : importModel reason source file entry = .ok file') :
    ∃ data header r, file.data = .ok (data, header) ∧ file' = .usable r header ∧
      r.toRegistryData = { data with models := data.models ++ [entry] } := by
  obtain ⟨⟨data, header⟩, hdata, h⟩ := Except.bind_eq_ok.mp h
  dsimp only at h
  split at h
  · cases h
  · obtain ⟨r, hr, h⟩ := Except.bind_eq_ok.mp h
    cases h
    exact ⟨data, header, r, hdata, rfl, registryFromMapping_ok hr⟩

/-- The draft has every entry, declared for more at most, and every role as changed. -/
theorem assign_ok {changes : List (String × Option String)} {d d' : Draft}
    (h : assign present r changes d = .ok d') :
    (∀ entry, (∃ m ∈ d.models, Extends entry m) → ∃ m ∈ d'.models, Extends entry m) ∧
      ∀ role, changes.foldl (noted role) (some (d.assigned.lookup role)) =
        some (d'.assigned.lookup role) := by
  induction changes generalizing d with
  | nil =>
    cases h
    exact ⟨fun _ h => h, fun _ => rfl⟩
  | cons change changes ih =>
    obtain ⟨name, value⟩ := change
    simp only [assign] at h
    split at h
    · cases h
    · rename_i role hrole
      obtain rfl := Role.ofName?_eq_some_iff.mp hrole
      have hname : ∀ other : Role, role.name = other.name ↔ other = role := fun other =>
        ⟨fun heq => by
          have hother := Role.ofName?_name other
          rw [← heq, Role.ofName?_name] at hother
          exact (Option.some.inj hother).symm, fun heq => heq ▸ rfl⟩
      cases value with
      | none =>
        obtain ⟨hmodels, hroles⟩ := ih h
        refine ⟨hmodels, fun other => ?_⟩
        rw [List.foldl_cons, ← hroles other, noted, Dict.lookup_pop]
        by_cases heq : other = role <;> simp [hname, heq]
      | some modelId =>
        obtain ⟨_, -, h⟩ := Except.bind_eq_ok.mp h
        obtain ⟨hmodels, hroles⟩ := ih h
        refine ⟨fun entry hentry => hmodels entry ?_, fun other => ?_⟩
        · obtain ⟨m, hm, hextends⟩ := hentry
          exact ⟨_, List.mem_map_of_mem hm, hextends.declareRole⟩
        · rw [List.foldl_cons, ← hroles other, noted, Dict.lookup_set]
          by_cases heq : other = role <;> simp [hname, heq]

/-- `set_roles` writes what it read, with its changes. -/
theorem setRoles_ok {roles : Option (List (String × Option String))} {voters : Option (List String)}
    (h : setRoles reason source present file roles voters = .ok file') :
    ∃ r header draft written, file = .usable r header ∧ file' = .usable written header ∧
      assign present r (roles.getD []) ⟨r.roles, r.models⟩ = .ok draft ∧
      written.models = draft.models ∧ written.roles = draft.assigned := by
  unfold setRoles at h
  split_ifs at h
  cases file with
  | missing => cases h
  | unusable message => cases h
  | usable r header =>
    obtain ⟨draft, hdraft, h⟩ := Except.bind_eq_ok.mp h
    obtain ⟨voters', -, h⟩ := Except.bind_eq_ok.mp h
    dsimp only at h
    split at h
    · rename_i written hwritten
      cases h
      have hdata := registryFromMapping_ok hwritten
      exact ⟨r, header, draft, written, rfl, rfl, hdraft, by rw [hdata], by rw [hdata]⟩
    · cases h

/-- Once the role is named, what was before does not matter. -/
theorem foldl_noted {changes : List (String × Option String)} {served : Option String}
    (h : changes.foldl (noted role) none = some served) (last : Option (Option String)) :
    changes.foldl (noted role) last = some served := by
  induction changes generalizing last with
  | nil => cases h
  | cons change changes ih =>
    rw [List.foldl_cons] at h ⊢
    by_cases hname : change.1 = role.name
    · rwa [noted, if_pos hname] at h ⊢
    · rw [noted, if_neg hname] at h
      exact ih h _

theorem answered_append_imported (done : List Change) :
    answered (done ++ [.imported entry]) role = answered done role := by
  simp [answered, Change.assignments]

theorem answered_append_roles (done : List Change) (changes : List (String × Option String)) :
    answered (done ++ [.roles changes]) role = changes.foldl (noted role) (answered done role) := by
  simp [answered, Change.assignments]

/-! ## No lost update -/

/-- An import that read the file as it is keeps all of it. -/
theorem NoneLost.importModel {done : List Change} (h : NoneLost done file)
    (hok : importModel reason source file entry = .ok file') :
    NoneLost (done ++ [.imported entry]) file' := by
  obtain ⟨data, header, r', hdata, rfl, hr'⟩ := importModel_ok hok
  have hmodels : r'.models = data.models ++ [entry] := by rw [hr']
  have hroles : r'.roles = data.roles := by rw [hr']
  constructor
  · intro other hother
    refine ⟨r', header, rfl, ?_⟩
    rw [hmodels]
    rcases List.mem_append.mp hother with hother | hother
    · obtain ⟨r, header', rfl, m, hm, hextends⟩ := h.models other hother
      cases hdata
      exact ⟨m, List.mem_append_left _ hm, hextends⟩
    · cases List.mem_singleton.mp hother
      exact ⟨entry, by simp, .refl entry⟩
  · intro role served hserved
    rw [answered_append_imported] at hserved
    obtain ⟨r, header', rfl, hlookup⟩ := h.roles role served hserved
    cases hdata
    exact ⟨r', header, rfl, hroles ▸ hlookup⟩

/-- So does a change of roles. -/
theorem NoneLost.setRoles {done : List Change} (h : NoneLost done file)
    {roles : Option (List (String × Option String))} {voters : Option (List String)}
    (hok : setRoles reason source present file roles voters = .ok file') :
    NoneLost (done ++ [.roles (roles.getD [])]) file' := by
  obtain ⟨r, header, draft, written, rfl, rfl, hdraft, hmodels, hroles⟩ := setRoles_ok hok
  obtain ⟨hentries, hassigned⟩ := assign_ok hdraft
  constructor
  · intro other hother
    rcases List.mem_append.mp hother with hother | hother
    · obtain ⟨r', header', heq, m, hm, hextends⟩ := h.models other hother
      cases heq
      obtain ⟨m', hm', hextends'⟩ := hentries other ⟨m, hm, hextends⟩
      exact ⟨written, header, rfl, m', hmodels ▸ hm', hextends'⟩
    · cases List.mem_singleton.mp hother
  · intro role served hserved
    refine ⟨written, header, rfl, ?_⟩
    rw [answered_append_roles] at hserved
    rw [hroles]
    cases hbefore : answered done role with
    | none =>
      rw [hbefore] at hserved
      have hfold := foldl_noted hserved (some (r.roles.lookup role))
      exact Option.some.inj ((hassigned role).symm.trans hfold)
    | some before =>
      obtain ⟨r', header', heq, hlookup⟩ := h.roles role before hbefore
      cases heq
      rw [hbefore, ← hlookup] at hserved
      exact Option.some.inj ((hassigned role).symm.trans hserved)

theorem keeps_noneLost :
    Keeps (fileProtocol reason source) (fun o file => NoneLost o.done file) fun _ _ => True where
  move _ _ _ _ hmove h := by
    cases hmove
    exact h
  move_request _ _ _ _ _ _ := trivial
  accept _ _ _ _ := trivial
  serve o request file o' file' hserve _ h := by
    cases request with
    | importModel entry =>
      cases hok : importModel reason source file entry with
      | error e => simp [fileProtocol, hok] at hserve
      | ok written =>
        simp only [fileProtocol, hok, Option.some.injEq, Prod.mk.injEq] at hserve
        obtain ⟨rfl, rfl⟩ := hserve
        exact h.importModel hok
    | setRoles roles voters =>
      cases hok : setRoles reason source o.present file roles voters with
      | error e => simp [fileProtocol, hok] at hserve
      | ok written =>
        simp only [fileProtocol, hok, Option.some.injEq, Prod.mk.injEq] at hserve
        obtain ⟨rfl, rfl⟩ := hserve
        exact h.setRoles hok
  serve_request _ _ _ _ _ _ _ _ := trivial

/-- **No lost update**: in a run of the two services in which every write finds the file as
    it was read, every model whose import returned is in the file, and every role is as the
    last answered change left it. -/
theorem none_lost_of_unchanged (present : ModelEntry → Bool) (file : RegistryFile)
    (events : List (Event (ModelEntry → Bool) FileRequest))
    {st : State Outside RegistryFile FileRequest}
    (hrun : (fileProtocol reason source).run ⟨{ present }, file, []⟩ events = some st)
    (hunchanged : Unchanged (fileProtocol reason source) ⟨{ present }, file, []⟩ events) :
    NoneLost st.env.done st.store :=
  run_invariant keeps_noneLost hunchanged hrun
    ⟨fun _ h => absurd h List.not_mem_nil, fun _ _ h => nomatch h⟩ fun _ h => nomatch h

/-! ### An import beside a change of roles -/

def coderEntry (id : String) : ModelEntry where
  id
  displayName := id
  family := "Qwen"
  path := id
  quant := .fp8
  vramGib := 40
  context := 131072
  roles := [.coder]

/-- One model, and no role that it serves. -/
def unassigned : RegistryFile :=
  match Registry.ofData? { models := [coderEntry "qwen"] } with
  | some r => .usable r ""
  | none => .missing

def assignQwen : FileRequest := .setRoles (some [("coder", some "qwen")]) none

def plainFile : Protocol Outside (ModelEntry → Bool) RegistryFile FileRequest :=
  fileProtocol (fun _ => "the value is invalid") "models.yaml"

def beginning : State Outside RegistryFile FileRequest := ⟨{ present := fun _ => true }, unassigned, []⟩

/-- The import is read before the roles are written, and written after. -/
def crossing : List (Event (ModelEntry → Bool) FileRequest) :=
  [.accept (.importModel (coderEntry "seed")), .accept assignQwen, .load 0, .load 1, .finish 1,
    .finish 0]

def oneByOne : List (Event (ModelEntry → Bool) FileRequest) :=
  [.accept (.importModel (coderEntry "seed")), .load 0, .finish 0, .accept assignQwen, .load 0,
    .finish 0]

theorem none_lost_one_by_one :
    ∃ st, plainFile.run beginning oneByOne = some st ∧ st.env.done.length = 2 ∧
      NoneLost st.env.done st.store := by
  have hrun : ((plainFile.run beginning oneByOne).map fun st => st.env.done.length) = some 2 := by
    decide +kernel
  obtain ⟨st, hst, hdone⟩ := Option.map_eq_some_iff.mp hrun
  refine ⟨st, hst, hdone, none_lost_of_unchanged _ _ oneByOne hst ?_⟩
  exact unchanged_alone rfl fun st' hst' => unchanged_alone hst' fun _ _ => trivial

/-- Who serves the role, in the file. -/
def RegistryFile.served (role : Role) : RegistryFile → Option String
  | .usable r _ => r.roles.lookup role
  | _ => none

theorem role_lost_in_crossing :
    ∃ st, plainFile.run beginning crossing = some st ∧ ¬ NoneLost st.env.done st.store := by
  have hrun : ((plainFile.run beginning crossing).map fun st =>
      (answered st.env.done .coder, st.store.served .coder)) = some (some (some "qwen"), none) := by
    decide +kernel
  obtain ⟨st, hst, heq⟩ := Option.map_eq_some_iff.mp hrun
  obtain ⟨hanswered, hserved⟩ := Prod.mk.inj heq
  refine ⟨st, hst, fun h => ?_⟩
  obtain ⟨r, header, hfile, hlookup⟩ := h.roles _ _ hanswered
  rw [hfile, RegistryFile.served, hlookup] at hserved
  cases hserved

end Models

end Slas
