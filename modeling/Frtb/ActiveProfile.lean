import Frtb.Library.NumberText
import Frtb.Library.EventRuns
import Mathlib.Data.Rat.Defs

/-!
# The stored profiles and the active target

The connections routes keep two things in step: the profile that is active in the store, and
the target and credentials last handed to the active-target module. The store merges the body
of an edit as it is; the route decides from the same body, with its own notion of what is
unchanged or empty, whether to hand over the whole target or only the label.
-/

namespace ActiveProfile

open EventRuns

/-- A member of a JSON body or of a stored profile. -/
inductive Field (α : Type)
  | missing
  | null
  | value (a : α)
  deriving DecidableEq

/-- `field ?? fallback`. -/
def Field.orElse {α : Type} (fallback : α) : Field α → α
  | .value a => a
  | _ => fallback

/-- `Object.assign` of one member. -/
def Field.merge {α : Type} (old : Field α) : Field α → Field α
  | .missing => old
  | .null => .null
  | .value a => .value a

structure TlsConfig where
  enabled : Bool
  ca : Option String
  deriving DecidableEq

/-- The members that the store and the routes read; of an edit, each may be missing. -/
structure CreateInput where
  name : Field String
  host : Field String
  port : Field ℚ
  username : Field String
  password : Field String
  tls : Field TlsConfig
  db : Field ℚ
  clusterMode : Field Bool
  deriving DecidableEq

structure ConnectionProfile extends CreateInput where
  id : Nat
  deriving DecidableEq

/-- The state of the store; an id is handed out once. -/
structure ConnectionsStore where
  profiles : List ConnectionProfile
  activeId : Option Nat
  nextId : Nat
  profile_lt : ∀ p ∈ profiles, p.id < nextId
  active_lt : ∀ id, activeId = some id → id < nextId

/-- What `setActiveTarget` and `setActiveTargetLabel` have last been given. -/
structure GivenTarget where
  host : Field String
  port : Field ℚ
  tls : Bool
  db : ℚ
  clusterMode : Bool
  label : Field String
  username : Field String
  password : Field String
  deriving DecidableEq

attribute [ext] GivenTarget

structure State where
  store : ConnectionsStore
  given : Option GivenTarget

section Store

def normaliseHost (h : Field String) : List Char :=
  (NumberText.trim (h.orElse "").toList).map Char.toLower

def find (s : ConnectionsStore) (id : Nat) : Option ConnectionProfile :=
  s.profiles.find? fun p => p.id = id

def getActiveRaw (s : ConnectionsStore) : Option ConnectionProfile := s.activeId.bind (find s)

def findByEndpoint (s : ConnectionsStore) (host : Field String) (port db : Field ℚ) :
    Option ConnectionProfile :=
  s.profiles.find? fun p =>
    normaliseHost p.host = normaliseHost host && p.port = port && p.db.orElse 0 = db.orElse 0

/-- `create`; none is the error of a duplicate endpoint. -/
def create (s : ConnectionsStore) (input : CreateInput) : Option ConnectionsStore :=
  if (findByEndpoint s input.host input.port input.db).isSome then none
  else
    some { s with
      profiles := s.profiles ++ [⟨input, s.nextId⟩]
      nextId := s.nextId + 1
      profile_lt := fun p mem => (List.mem_append.mp mem).elim
        (fun old => Nat.lt_succ_of_lt (s.profile_lt p old))
        (fun own => List.mem_singleton.mp own ▸ Nat.lt_succ_self _)
      active_lt := fun id active => Nat.lt_succ_of_lt (s.active_lt id active) }

/-- `Object.assign(p, patch)`. -/
def assign (p : ConnectionProfile) (patch : CreateInput) : ConnectionProfile where
  id := p.id
  name := p.name.merge patch.name
  host := p.host.merge patch.host
  port := p.port.merge patch.port
  username := p.username.merge patch.username
  password := p.password.merge patch.password
  tls := p.tls.merge patch.tls
  db := p.db.merge patch.db
  clusterMode := p.clusterMode.merge patch.clusterMode

/-- Change the first profile with the id. -/
def editFirst (id : Nat) (f : ConnectionProfile → ConnectionProfile) :
    List ConnectionProfile → List ConnectionProfile
  | [] => []
  | p :: ps => if p.id = id then f p :: ps else p :: editFirst id f ps

theorem mem_editFirst {id : Nat} {f : ConnectionProfile → ConnectionProfile}
    {ps : List ConnectionProfile} {q : ConnectionProfile} (mem : q ∈ editFirst id f ps) :
    q ∈ ps ∨ ∃ p ∈ ps, q = f p := by
  induction ps with
  | nil => cases mem
  | cons p ps ih =>
    rw [editFirst] at mem
    split at mem
    · rcases List.mem_cons.mp mem with own | rest
      · exact .inr ⟨p, List.mem_cons_self, own⟩
      · exact .inl (List.mem_cons_of_mem _ rest)
    · rcases List.mem_cons.mp mem with own | rest
      · exact .inl (own ▸ List.mem_cons_self)
      · exact (ih rest).imp (List.mem_cons_of_mem _) fun ⟨r, old, same⟩ =>
          ⟨r, List.mem_cons_of_mem _ old, same⟩

/-- The endpoint of the edited profile belongs to another one. -/
def duplicates (s : ConnectionsStore) (p : ConnectionProfile) (patch : CreateInput) : Bool :=
  let next := assign p patch
  let endpointChanges := normaliseHost next.host ≠ normaliseHost p.host || next.port ≠ p.port ||
    next.db.orElse 0 ≠ p.db.orElse 0
  endpointChanges &&
    (findByEndpoint s next.host next.port next.db).any fun dup => dup.id ≠ p.id

/-- `update`; none is an unknown id or the error of a duplicate endpoint. -/
def update (s : ConnectionsStore) (id : Nat) (patch : CreateInput) : Option ConnectionsStore :=
  match find s id with
  | none => none
  | some p =>
    if duplicates s p patch then none
    else
      some { s with
        profiles := editFirst id (fun p => assign p patch) s.profiles
        profile_lt := fun q mem => (mem_editFirst mem).elim (s.profile_lt q)
          fun ⟨p, old, same⟩ => same ▸ s.profile_lt p old }

def delete (s : ConnectionsStore) (id : Nat) : Option ConnectionsStore :=
  if (find s id).isSome then
    some { s with
      profiles := s.profiles.eraseP fun p => p.id = id
      profile_lt := fun p mem => s.profile_lt p (List.mem_of_mem_eraseP mem)
      activeId := if s.activeId = some id then none else s.activeId
      active_lt := fun k active => s.active_lt k (by
        split at active
        · cases active
        · exact active) }
  else none

def setActive (s : ConnectionsStore) (id : Nat) : Option ConnectionsStore :=
  match found : find s id with
  | none => none
  | some p =>
    some { s with
      activeId := some id
      active_lt := fun k active => by
        have mem := List.mem_of_find?_eq_some found
        have own : p.id = id := by simpa using List.find?_some found
        rw [← Option.some.inj active, ← own]
        exact s.profile_lt p mem }

end Store

section Routes

def tlsEnabled (tls : Field TlsConfig) : Bool :=
  match tls with
  | .value config => config.enabled
  | _ => false

/-- Whether a member is there and its value, as `read` takes it, is another one. -/
def differs {α β : Type} [DecidableEq α] [DecidableEq β] (read : Field α → β)
    (old patch : Field α) : Bool :=
  patch ≠ .missing && read patch ≠ read old

def identityWouldChange (prev : ConnectionProfile) (patch : CreateInput) : Bool :=
  differs id prev.host patch.host || differs id prev.port patch.port ||
    differs (Field.orElse 0) prev.db patch.db ||
    differs (Field.orElse false) prev.clusterMode patch.clusterMode ||
    differs tlsEnabled prev.tls patch.tls

def activateProfileTarget (p : ConnectionProfile) : GivenTarget where
  host := p.host
  port := p.port
  tls := tlsEnabled p.tls
  db := p.db.orElse 0
  clusterMode := p.clusterMode.orElse false
  label := p.name
  username := p.username
  password := p.password

def usernameChanged (prev : ConnectionProfile) (patch : CreateInput) : Bool :=
  differs (Field.orElse "") prev.username patch.username

/-- None is the error of reading the length of null. -/
def passwordChanged (prev : ConnectionProfile) (patch : CreateInput) : Option Bool :=
  match patch.password with
  | .missing => some false
  | .null => none
  | .value password => some (decide (password ≠ "" ∧ .value password ≠ prev.password))

/-- What the route does once the store has taken an edit of the active profile. -/
def pushTarget (prev raw : ConnectionProfile) (patch : CreateInput) (given : Option GivenTarget) :
    Option GivenTarget :=
  match passwordChanged prev patch with
  | none => given
  | some password =>
    if identityWouldChange prev patch || usernameChanged prev patch || password then
      some (activateProfileTarget raw)
    else given.map fun target => { target with label := raw.name }

/-- The active profile, if the request is about it. -/
def activeRow (s : ConnectionsStore) (id : Nat) : Option ConnectionProfile :=
  (getActiveRaw s).filter fun p => p.id = id

/-- Operations in flight lock out an edit that would change the identity of the target. -/
def lockedOut (s : ConnectionsStore) (id : Nat) (patch : CreateInput) (busy : Bool) : Bool :=
  busy && (activeRow s id).any fun prev => identityWouldChange prev patch

def updateHandler (s : State) (id : Nat) (patch : CreateInput) (busy : Bool) : State :=
  if lockedOut s.store id patch busy then s
  else
    match update s.store id patch with
    | none => s
    | some store =>
      match activeRow s.store id, getActiveRaw store with
      | some prev, some raw => ⟨store, pushTarget prev raw patch s.given⟩
      | _, _ => ⟨store, s.given⟩

inductive Request
  | create (input : CreateInput)
  | update (id : Nat) (patch : CreateInput) (busy : Bool)
  | delete (id : Nat)
  | activate (id : Nat) (busy : Bool)

def step (s : State) : Request → Option State
  | .create input => some ⟨(create s.store input).getD s.store, s.given⟩
  | .update id patch busy => some (updateHandler s id patch busy)
  | .delete id => some ⟨(delete s.store id).getD s.store, s.given⟩
  | .activate id busy =>
    some (if busy then s
      else
        match setActive s.store id with
        | none => s
        | some store =>
          ⟨store, ((getActiveRaw store).map activateProfileTarget).or s.given⟩)

/-- The process has started on a stored state and restored the active profile. -/
def started (store : ConnectionsStore) : State :=
  ⟨store, (getActiveRaw store).map activateProfileTarget⟩

end Routes

section Property

/-- The target last given is the stored active profile. -/
def Follows (s : State) : Prop :=
  ∀ raw, getActiveRaw s.store = some raw → s.given = some (activateProfileTarget raw)

/-- An edit with an empty password leaves the stored password as it was. -/
def PasswordKept (s : State) (r : Request) (t : State) : Prop :=
  ∀ id patch busy, r = .update id patch busy → patch.password = .value "" →
    ∀ p, find s.store id = some p →
      ∃ q, find t.store id = some q ∧ q.password = p.password

def unchanged {α : Type} (old patch : Field α) : Prop := patch = .missing ∨ patch = old

/-- What an edit of the active profile may contain without leaving the two out of step. -/
def InStep (p : ConnectionProfile) (patch : CreateInput) : Prop :=
  match passwordChanged p patch with
  | none => identityWouldChange p patch = false ∧ unchanged p.name patch.name ∧
      unchanged p.username patch.username ∧ p.password = .null
  | some password =>
    (identityWouldChange p patch || usernameChanged p patch || password) = true ∨
      unchanged p.username patch.username

/-- An edit that the store takes carries an empty password only where the stored one is empty,
and edits the active profile in step. -/
def EditFits (s : State) : Request → Prop
  | .update id patch busy => ∀ p, find s.store id = some p →
      lockedOut s.store id patch busy = false →
      duplicates s.store p patch = false →
        (patch.password = .value "" → p.password = .value "") ∧
          (s.store.activeId = some id → InStep p patch)
  | _ => True

end Property

section Lookups
variable {s : ConnectionsStore} {id : Nat} {p : ConnectionProfile}

theorem id_of_find (found : find s id = some p) : p.id = id := by
  simpa using List.find?_some found

theorem find?_editFirst (f : ConnectionProfile → ConnectionProfile) (keeps : ∀ p, (f p).id = p.id)
    (k : Nat) (ps : List ConnectionProfile) :
    (editFirst id f ps).find? (fun p => p.id = k) =
      if k = id then (ps.find? fun p => p.id = k).map f else ps.find? fun p => p.id = k := by
  induction ps with
  | nil => simp [editFirst]
  | cons p ps ih =>
    rw [editFirst]
    by_cases own : p.id = id
    · rw [if_pos own, List.find?_cons, List.find?_cons, keeps, own]
      by_cases same : k = id
      · subst same
        simp
      · simp [Ne.symm same, same]
    · rw [if_neg own, List.find?_cons, List.find?_cons, ih]
      by_cases here : p.id = k
      · simp [here, show ¬ k = id from here ▸ own]
      · simp [here]

theorem find?_eraseP {k : Nat} (other : k ≠ id) (ps : List ConnectionProfile) :
    (ps.eraseP fun p => p.id = id).find? (fun p => p.id = k) = ps.find? fun p => p.id = k := by
  induction ps with
  | nil => rfl
  | cons p ps ih =>
    rw [List.eraseP_cons]
    by_cases own : p.id = id
    · simp [own, Ne.symm other]
    · simp [own, List.find?_cons, ih]

theorem find_update {store : ConnectionsStore} {patch : CreateInput}
    (taken : update s id patch = some store) (k : Nat) :
    find store k = if k = id then (find s k).map fun p => assign p patch else find s k := by
  unfold update at taken
  split at taken
  · cases taken
  · split at taken
    · cases taken
    · cases taken
      exact find?_editFirst (fun p => assign p patch) (fun _ => rfl) k s.profiles

theorem activeId_update {store : ConnectionsStore} {patch : CreateInput}
    (taken : update s id patch = some store) : store.activeId = s.activeId := by
  unfold update at taken
  split at taken
  · cases taken
  · split at taken
    · cases taken
    · cases taken
      rfl

theorem update_isSome {patch : CreateInput} (found : find s id = some p) :
    (∃ store, update s id patch = some store) ↔ duplicates s p patch = false := by
  unfold update
  rw [found]
  dsimp only
  cases duplicates s p patch <;> simp

theorem activeRow_eq_some :
    activeRow s id = some p ↔ s.activeId = some id ∧ find s id = some p := by
  unfold activeRow getActiveRaw
  rw [Option.filter_eq_some_iff, Option.bind_eq_some_iff]
  constructor
  · rintro ⟨⟨k, active, found⟩, own⟩
    have same : p.id = id := of_decide_eq_true own
    obtain rfl : k = id := (id_of_find found).symm.trans same
    exact ⟨active, found⟩
  · rintro ⟨active, found⟩
    exact ⟨⟨id, active, found⟩, decide_eq_true (id_of_find found)⟩

end Lookups

section Edits
variable {α : Type} [DecidableEq α] {prev : ConnectionProfile} {patch : CreateInput}

omit [DecidableEq α] in
theorem merge_eq_iff {old patch : Field α} : old.merge patch = old ↔ unchanged old patch := by
  cases patch with
  | missing => exact iff_of_true rfl (.inl rfl)
  | null =>
    exact eq_comm.trans ⟨fun same => .inr same.symm, fun same => (same.resolve_left (by simp)).symm⟩
  | value a =>
    exact eq_comm.trans ⟨fun same => .inr same.symm, fun same => (same.resolve_left (by simp)).symm⟩

/-- A member differs exactly when merging it changes what is read. -/
theorem differs_eq_false {β : Type} [DecidableEq β] {read : Field α → β} {old patch : Field α} :
    differs read old patch = false ↔ read (old.merge patch) = read old := by
  cases patch <;> simp [differs, Field.merge]

/-- An edit keeps the identity exactly when the target it makes has the same identity. -/
theorem identity_kept_iff : identityWouldChange prev patch = false ↔
    (activateProfileTarget (assign prev patch)).host = (activateProfileTarget prev).host ∧
      (activateProfileTarget (assign prev patch)).port = (activateProfileTarget prev).port ∧
      (activateProfileTarget (assign prev patch)).db = (activateProfileTarget prev).db ∧
      (activateProfileTarget (assign prev patch)).clusterMode =
        (activateProfileTarget prev).clusterMode ∧
      (activateProfileTarget (assign prev patch)).tls = (activateProfileTarget prev).tls := by
  simp only [identityWouldChange, Bool.or_eq_false_iff, differs_eq_false, and_assoc]
  rfl

/-- The target pushed for an edit of the active profile is the edited one exactly when the edit
is in step and an empty password finds an empty one. -/
theorem pushTarget_iff (kept : patch.password = .value "" → prev.password = .value "") :
    pushTarget prev (assign prev patch) patch (some (activateProfileTarget prev)) =
        some (activateProfileTarget (assign prev patch)) ↔ InStep prev patch := by
  unfold pushTarget InStep
  cases changed : passwordChanged prev patch with
  | none =>
    have null : patch.password = .null := by
      unfold passwordChanged at changed
      split at changed
      · cases changed
      · assumption
      · cases changed
    dsimp only
    rw [Option.some.injEq, identity_kept_iff, ← merge_eq_iff, ← merge_eq_iff]
    have password : (assign prev patch).password = .null := by
      rw [assign, null]
      rfl
    constructor
    · intro same
      refine ⟨?_, ?_, ?_, ?_⟩
      · rw [← same]
        exact ⟨rfl, rfl, rfl, rfl, rfl⟩
      · exact (congrArg GivenTarget.label same).symm
      · exact (congrArg GivenTarget.username same).symm
      · exact (congrArg GivenTarget.password same).trans password
    · rintro ⟨⟨host, port, db, cluster, tls⟩, label, username, none⟩
      have password' : (activateProfileTarget (assign prev patch)).password =
          (activateProfileTarget prev).password := password.trans none.symm
      have label' : (activateProfileTarget (assign prev patch)).label =
          (activateProfileTarget prev).label := label
      have username' : (activateProfileTarget (assign prev patch)).username =
          (activateProfileTarget prev).username := username
      exact (GivenTarget.ext host port tls db cluster label' username' password').symm
  | some password =>
    dsimp only
    by_cases pushed : (identityWouldChange prev patch || usernameChanged prev patch || password) =
      true
    · rw [if_pos pushed]
      exact iff_of_true rfl (.inl pushed)
    · rw [if_neg pushed, or_iff_right pushed, Option.map_some, Option.some.injEq, ← merge_eq_iff]
      simp only [Bool.not_eq_true, Bool.or_eq_false_iff] at pushed
      obtain ⟨⟨identity, _⟩, same⟩ := pushed
      obtain ⟨host, port, db, cluster, tls⟩ := identity_kept_iff.mp identity
      have stored : (assign prev patch).password = prev.password := by
        unfold passwordChanged at changed
        split at changed
        · rename_i absent
          rw [assign, absent]
          rfl
        · cases changed
        · rename_i text given
          rw [same, Option.some.injEq, decide_eq_false_iff_not, not_and_or, not_not, not_not]
            at changed
          have merged : (assign prev patch).password = .value text := by
            rw [assign, given]
            rfl
          rw [merged]
          rcases changed with rfl | equal
          · exact (kept given).symm
          · exact equal
      constructor
      · intro target
        exact (congrArg GivenTarget.username target).symm
      · intro username
        have username' : (activateProfileTarget (assign prev patch)).username =
            (activateProfileTarget prev).username := username
        have stored' : (activateProfileTarget (assign prev patch)).password =
            (activateProfileTarget prev).password := stored
        exact GivenTarget.ext host.symm port.symm tls.symm db.symm cluster.symm rfl username'.symm
          stored'.symm

end Edits

section Requests
variable {s t : State}

theorem create_active {input : CreateInput} {store : ConnectionsStore}
    (made : create s.store input = some store) : getActiveRaw store = getActiveRaw s.store := by
  unfold create at made
  split at made
  · cases made
  · cases made
    unfold getActiveRaw find
    refine Option.bind_congr fun id active => ?_
    have other : s.store.nextId ≠ id := Nat.ne_of_gt (s.store.active_lt id active)
    rw [List.find?_append]
    cases s.store.profiles.find? fun p => p.id = id with
    | none => simp [other]
    | some _ => rfl

theorem delete_active {id : Nat} {store : ConnectionsStore} {raw : ConnectionProfile}
    (gone : delete s.store id = some store) (active : getActiveRaw store = some raw) :
    getActiveRaw s.store = some raw := by
  unfold delete at gone
  split at gone
  · cases gone
    obtain ⟨k, current, found⟩ := Option.bind_eq_some_iff.mp active
    dsimp only at current
    split at current
    · cases current
    · rename_i other
      have apart : k ≠ id := fun same => other (same ▸ current)
      refine Option.bind_eq_some_iff.mpr ⟨k, current, ?_⟩
      exact (find?_eraseP apart s.store.profiles).symm.trans found
  · cases gone

theorem activate_follows {store : ConnectionsStore} (given : Option GivenTarget) :
    Follows ⟨store, ((getActiveRaw store).map activateProfileTarget).or given⟩ := by
  intro raw active
  change getActiveRaw store = some raw at active
  dsimp only
  rw [active]
  rfl

/-- An edit that the store does not take, or that is locked out, changes nothing. -/
theorem updateHandler_eq_self {id : Nat} {patch : CreateInput} {busy : Bool}
    (refused : lockedOut s.store id patch busy = true ∨ update s.store id patch = none) :
    updateHandler s id patch busy = s := by
  unfold updateHandler
  rcases refused with locked | refused
  · rw [if_pos locked]
  · rw [refused]
    exact ite_self _

/-- What an edit that the store takes leaves behind. -/
theorem updateHandler_taken {id : Nat} {patch : CreateInput} {busy : Bool} {p : ConnectionProfile}
    {store : ConnectionsStore} (open_ : lockedOut s.store id patch busy = false)
    (found : find s.store id = some p) (taken : update s.store id patch = some store) :
    updateHandler s id patch busy = ⟨store, if s.store.activeId = some id then
      pushTarget p (assign p patch) patch s.given else s.given⟩ := by
  have edited : find store id = some (assign p patch) := by
    rw [find_update taken, if_pos rfl, found, Option.map_some]
  unfold updateHandler
  rw [open_, taken]
  simp only [Bool.false_eq_true, if_false]
  by_cases active : s.store.activeId = some id
  · have row : activeRow s.store id = some p := activeRow_eq_some.mpr ⟨active, found⟩
    have raw : getActiveRaw store = some (assign p patch) := by
      rw [getActiveRaw, activeId_update taken, active, Option.bind_some, edited]
    rw [row, raw, if_pos active]
  · have row : activeRow s.store id = none := by
      rw [Option.eq_none_iff_forall_ne_some]
      exact fun q here => active (activeRow_eq_some.mp here).1
    rw [row, if_neg active]

/-- An edit of another profile leaves the active one alone. -/
theorem update_other_active {id : Nat} {patch : CreateInput} {store : ConnectionsStore}
    (taken : update s.store id patch = some store) (other : s.store.activeId ≠ some id) :
    getActiveRaw store = getActiveRaw s.store := by
  rw [getActiveRaw, getActiveRaw, activeId_update taken]
  refine Option.bind_congr fun k active => ?_
  have apart : k ≠ id := by
    rintro rfl
    exact other active
  rw [find_update taken, if_neg apart]

theorem passwordKept_iff {id : Nat} {patch : CreateInput} {busy : Bool} {p : ConnectionProfile}
    {store : ConnectionsStore} (found : find s.store id = some p)
    (taken : update s.store id patch = some store) (given : Option GivenTarget) :
    PasswordKept s (.update id patch busy) ⟨store, given⟩ ↔
      (patch.password = .value "" → p.password = .value "") := by
  have edited : find store id = some (assign p patch) := by
    rw [find_update taken, if_pos rfl, found, Option.map_some]
  constructor
  · intro kept empty
    obtain ⟨q, here, same⟩ := kept id patch busy rfl empty p found
    obtain rfl := Option.some.inj (edited.symm.trans here)
    rw [← same, assign, empty]
    rfl
  · intro kept _ _ _ same empty q here
    cases same
    obtain rfl := Option.some.inj (found.symm.trans here)
    refine ⟨assign p patch, edited, ?_⟩
    rw [kept empty, assign, empty]
    rfl

/-- A request leaves the target and the active profile in step, and the password as it was,
exactly when its edit fits. -/
theorem step_fits_iff (follows : Follows s) {r : Request} (went : step s r = some t) :
    (Follows t ∧ PasswordKept s r t) ↔ EditFits s r := by
  cases r with
  | create input =>
    cases went
    refine iff_of_true ⟨fun raw active => ?_, fun _ _ _ same => by cases same⟩ trivial
    cases made : create s.store input with
    | none =>
      rw [made] at active
      exact follows raw active
    | some store =>
      rw [made] at active
      exact follows raw ((create_active made).symm.trans active)
  | delete id =>
    cases went
    refine iff_of_true ⟨fun raw active => ?_, fun _ _ _ same => by cases same⟩ trivial
    cases gone : delete s.store id with
    | none =>
      rw [gone] at active
      exact follows raw active
    | some store =>
      rw [gone] at active
      exact follows raw (delete_active gone active)
  | activate id busy =>
    cases went
    refine iff_of_true ⟨?_, fun _ _ _ same => by cases same⟩ trivial
    split
    · exact follows
    · split
      · exact follows
      · exact activate_follows s.given
  | update id patch busy =>
    cases went
    simp only [EditFits]
    have unaltered : PasswordKept s (.update id patch busy) s := by
      rintro _ _ _ _ _ p here
      exact ⟨p, here, rfl⟩
    cases found : find s.store id with
    | none =>
      have refused : update s.store id patch = none := by
        rw [update, found]
      rw [updateHandler_eq_self (.inr refused)]
      exact iff_of_true ⟨follows, unaltered⟩ fun _ none => by cases none
    | some p =>
      cases locked : lockedOut s.store id patch busy with
      | true =>
        rw [updateHandler_eq_self (.inl locked)]
        exact iff_of_true ⟨follows, unaltered⟩ fun _ _ open_ => by cases open_
      | false =>
        cases clash : duplicates s.store p patch with
        | true =>
          have refused : update s.store id patch = none := by
            rw [update, found]
            exact if_pos clash
          rw [updateHandler_eq_self (.inr refused)]
          refine iff_of_true ⟨follows, unaltered⟩ fun q here _ free => ?_
          obtain rfl := Option.some.inj here
          rw [clash] at free
          cases free
        | false =>
          obtain ⟨store, taken⟩ := (update_isSome found).mpr clash
          rw [updateHandler_taken locked found taken, passwordKept_iff found taken]
          simp only [Option.some.injEq, forall_eq', clash, forall_const]
          rw [and_comm]
          refine and_congr_right fun kept => ?_
          by_cases active : s.store.activeId = some id
          · have before : s.given = some (activateProfileTarget p) :=
              follows p (by rw [getActiveRaw, active, Option.bind_some, found])
            have raw : getActiveRaw store = some (assign p patch) := by
              rw [getActiveRaw, activeId_update taken, active, Option.bind_some,
                find_update taken, if_pos rfl, found, Option.map_some]
            rw [if_pos active, before, ← pushTarget_iff kept]
            constructor
            · exact fun now _ => now _ raw
            · intro now q here
              obtain rfl := Option.some.inj (raw.symm.trans here)
              exact now active
          · rw [if_neg active]
            refine iff_of_true (fun q here => follows q ?_) fun own => absurd own active
            rw [← update_other_active taken active]
            exact here

end Requests

section Demo

def emptyStore : ConnectionsStore :=
  ⟨[], none, 0, (fun _ mem => by cases mem), (fun _ none => by cases none)⟩

def noEdit : CreateInput :=
  ⟨.missing, .missing, .missing, .missing, .missing, .missing, .missing, .missing⟩

/-- A profile with a password is created and activated, and then saved with the password field
of the form left empty. -/
def emptyPasswordSaved : List Request :=
  [.create { noEdit with
      name := .value "demo", host := .value "redis", port := .value 6379, password := .value "pw" },
    .activate 0 false, .update 0 { noEdit with password := .value "" } false]

end Demo

end ActiveProfile
