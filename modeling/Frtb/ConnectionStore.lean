import Mathlib
import Frtb.Library.EventRuns
import Frtb.Library.NumberText

/-!
# The connection store under failed writes

The store as the code holds it: profiles are objects whose members come from the bodies
as they are, every call changes them in memory first and then writes the file. An edit
merges whatever members its body has, an id among them. `lower` stands for
`toLowerCase`.
-/

namespace ConnectionStore

open AssocMaps JsonText EventRuns

section Store

/-- The members of a stored profile. -/
abbrev Profile := String → Option Json

def idOf (p : Profile) : Option Json := p "id"

variable (lower : String → String)

structure PersistedState where
  profiles : List Profile
  activeId : Option String

/-- `state`, and what the file holds once it has been written. -/
structure Store where
  memory : PersistedState
  file : Option PersistedState

def loadOrInit (file : Option PersistedState) : PersistedState := file.getD ⟨[], none⟩

def createStore (file : Option PersistedState) : Store := ⟨loadOrInit file, file⟩

/-- The members that a body spreads; reading one of null throws. -/
def membersOf : Json → Option Profile
  | .null => none
  | body => some fun name => (ofPairs body.spread).lookup name

/-- `(h ?? "").trim().toLowerCase()`, which throws for a host that is no text. -/
def normaliseHost : Option Json → Option String
  | none | some .null => some ""
  | some (.str h) => some (lower (String.ofList (NumberText.trim h.toList)))
  | _ => none

def normaliseDb : Option Json → Json
  | none | some .null => .num 0
  | some db => db

/-- `===`, where an array or an object is the same as no other one. -/
def strictEq : Option Json → Option Json → Bool
  | none, none => true
  | some .null, some .null => true
  | some (.bool a), some (.bool b) => a = b
  | some (.num a), some (.num b) => a = b
  | some (.str a), some (.str b) => a = b
  | _, _ => false

def findById (ps : List Profile) (id : String) : Option Profile :=
  ps.find? fun p => strictEq (idOf p) (some (.str id))

def findByEndpoint (ps : List Profile) (host : String) (port db : Option Json) : Option Profile :=
  ps.find? fun p => normaliseHost lower (p "host") = some host && strictEq (p "port") port &&
    strictEq (some (normaliseDb (p "db"))) (some (normaliseDb db))

/-- What a call makes of the profiles in memory before it writes the file: an answer without a
write, an error, or the state that it writes. -/
inductive Attempt
  | answers
  | throws
  | writes (state : PersistedState)

def madeProfile (members : Profile) (ulid now : String) : Profile := fun name =>
  if name = "id" then some (.str ulid)
  else if name = "created_at" ∨ name = "updated_at" then some (.str now)
  else members name

def create (m : PersistedState) (input : Json) (ulid now : String) : Attempt :=
  match membersOf input with
  | none => .throws
  | some members =>
    match normaliseHost lower (members "host") with
    | none => .throws
    | some host =>
      if (findByEndpoint lower m.profiles host (members "port") (members "db")).isSome then .throws
      else .writes { m with profiles := m.profiles ++ [madeProfile members ulid now] }

/-- `Object.assign(p, patch, { updated_at })`. -/
def assigned (p patch : Profile) (now : String) : Profile := fun name =>
  if name = "updated_at" then some (.str now) else (patch name).or (p name)

/-- Change the first profile with the id. -/
def editFirst (id : String) (f : Profile → Profile) : List Profile → List Profile
  | [] => []
  | p :: ps => if strictEq (idOf p) (some (.str id)) then f p :: ps else p :: editFirst id f ps

/-- The patch gives another endpoint. A member that it lacks is the profile's own. -/
def endpointChanges (p patch : Profile) : Bool :=
  normaliseHost lower ((patch "host").or (p "host")) ≠ normaliseHost lower (p "host") ||
    ((patch "port").isSome && !strictEq (patch "port") (p "port")) ||
    ((patch "db").isSome && !strictEq (some (normaliseDb (patch "db")))
      (some (normaliseDb (p "db"))))

def update (m : PersistedState) (id : String) (patch : Json) (now : String) : Attempt :=
  match findById m.profiles id with
  | none => .answers
  | some p =>
    match membersOf patch with
    | none => .throws
    | some patch =>
      match normaliseHost lower ((patch "host").or (p "host")) with
      | none => .throws
      | some host =>
        if endpointChanges lower p patch && (findByEndpoint lower m.profiles host
            ((patch "port").or (p "port")) ((patch "db").or (p "db"))).any
              fun dup => !strictEq (idOf dup) (some (.str id)) then
          .throws
        else .writes { m with profiles := editFirst id (fun p => assigned p patch now) m.profiles }

def delete (m : PersistedState) (id : String) : Attempt :=
  if (findById m.profiles id).isSome then
    .writes
      { profiles := m.profiles.eraseP fun p => strictEq (idOf p) (some (.str id))
        activeId := if m.activeId = some id then none else m.activeId }
  else .answers

def setActive (m : PersistedState) (id : String) : Attempt :=
  if (findById m.profiles id).isSome then .writes { m with activeId := some id } else .answers

inductive Call
  | create (input : Json) (ulid : String)
  | update (id : String) (patch : Json)
  | delete (id : String)
  | setActive (id : String)

/-- A call, the time it is made at, and whether `mkdir`, the write and the rename succeed. -/
structure Event where
  call : Call
  now : String
  persists : Bool

def attempt (m : PersistedState) (e : Event) : Attempt :=
  match e.call with
  | .create input ulid => create lower m input ulid e.now
  | .update id patch => update lower m id patch e.now
  | .delete id => delete m id
  | .setActive id => setActive m id

/-- The store after a call, and whether the call rejects. -/
def perform (s : Store) (e : Event) : Store × Bool :=
  match attempt lower s.memory e with
  | .answers => (s, false)
  | .throws => (s, true)
  | .writes state => if e.persists then (⟨state, some state⟩, false) else (⟨state, s.file⟩, true)

def step (s : Store) (e : Event) : Option Store := some (perform lower s e).1

/-- `ulid()` gives an id that no profile has, and the server's parser refuses a body that
names its prototype. -/
def Parsed (s : Store) (e : Event) : Prop :=
  match e.call with
  | .create _ ulid => ∀ p ∈ s.memory.profiles, idOf p ≠ some (.str ulid)
  | .update _ patch => ∀ members, membersOf patch = some members → members "__proto__" = none
  | _ => True

end Store

section Property
variable (lower : String → String)

/-- The normalised endpoint. -/
def endpointOf (p : Profile) : Option String × Option Json × Json :=
  (normaliseHost lower (p "host"), p "port", normaliseDb (p "db"))

def ids (m : PersistedState) : List (Option Json) := m.profiles.map idOf

structure Integrity (m : PersistedState) : Prop where
  ids : (ids m).Nodup
  endpoints : (m.profiles.map (endpointOf lower)).Nodup
  active : ∀ id, m.activeId = some id → some (.str id) ∈ ConnectionStore.ids m

/-- Ids come with a created profile and go with a deleted one. -/
def IdsKept (m m' : PersistedState) : Call → Prop
  | .create _ ulid => ids m' = ids m ∨ ids m' = ids m ++ [some (.str ulid)]
  | .delete id => ids m' = ids m ∨ ∃ before after, ids m = before ++ some (.str id) :: after ∧
      ids m' = before ++ after
  | _ => ids m' = ids m

structure Good (s : Store) (e : Event) (t : Store) : Prop where
  integrity : Integrity lower t.memory
  ids : IdsKept s.memory t.memory e.call
  atomic : (perform lower s e).2 = true → t = s

/-- No profile has this endpoint with the same array or object as port or db. -/
def Distinguished (ps : List Profile) (p : Profile) : Prop :=
  ∀ q ∈ ps, endpointOf lower q = endpointOf lower p →
    strictEq (p "port") (p "port") = true ∧
      strictEq (some (normaliseDb (p "db"))) (some (normaliseDb (p "db"))) = true

/-- The patch has nothing that the profile does not have already. -/
def Idle (p patch : Profile) (now : String) : Prop :=
  p "updated_at" = some (.str now) ∧
    ∀ name, name ≠ "updated_at" → patch name = none ∨ patch name = p name

/-- A call that gets as far as its write: the write succeeds, or there is nothing new to write;
an edit gives no other id; and `===` can tell the endpoint from the others'. -/
def Fits (s : Store) (e : Event) : Prop :=
  match attempt lower s.memory e with
  | .answers | .throws => True
  | .writes _ =>
    match e.call with
    | .create input ulid => e.persists = true ∧ ∀ members, membersOf input = some members →
        Distinguished lower s.memory.profiles (madeProfile members ulid e.now)
    | .update id patch => ∀ p, findById s.memory.profiles id = some p →
        ∀ members, membersOf patch = some members →
          if e.persists then
            (members "id" = none ∨ members "id" = idOf p) ∧
              Distinguished lower
                (s.memory.profiles.filter fun q => !strictEq (idOf q) (some (.str id)))
                (assigned p members e.now)
          else Idle p members e.now
    | .delete _ => e.persists = true
    | .setActive id => e.persists = true ∨ s.memory.activeId = some id

end Property

section Profiles
variable {lower : String → String} {ps before after : List Profile} {p q patch : Profile}
  {id now : String}

theorem eq_of_strictEq {a b : Option Json} (same : strictEq a b = true) : a = b := by
  unfold strictEq at same
  split at same
  · rfl
  · rfl
  · rw [of_decide_eq_true same]
  · rw [of_decide_eq_true same]
  · rw [of_decide_eq_true same]
  · cases same

theorem strictEq_str {a : Option Json} :
    strictEq a (some (.str id)) = true ↔ a = some (.str id) := by
  constructor
  · exact eq_of_strictEq
  · rintro rfl
    exact decide_eq_true rfl

/-- The first profile with an id, and those around it. -/
theorem split_of_findById (found : findById ps id = some p) : ∃ before after,
    ps = before ++ p :: after ∧ idOf p = some (.str id) ∧
      ∀ q ∈ before, strictEq (idOf q) (some (.str id)) = false := by
  obtain ⟨own, before, after, rfl, others⟩ := List.find?_eq_some_iff_append.mp found
  refine ⟨before, after, rfl, strictEq_str.mp own, fun q mem => ?_⟩
  simpa using others q mem

theorem editFirst_split (f : Profile → Profile) (own : idOf p = some (.str id))
    (others : ∀ q ∈ before, strictEq (idOf q) (some (.str id)) = false) :
    editFirst id f (before ++ p :: after) = before ++ f p :: after := by
  induction before with
  | nil => rw [List.nil_append, editFirst, if_pos (strictEq_str.mpr own), List.nil_append]
  | cons q before ih =>
    rw [List.cons_append, editFirst, others q List.mem_cons_self,
      ih fun r mem => others r (List.mem_cons_of_mem _ mem)]
    rfl

theorem eraseP_split (own : idOf p = some (.str id))
    (others : ∀ q ∈ before, strictEq (idOf q) (some (.str id)) = false) :
    (before ++ p :: after).eraseP (fun q => strictEq (idOf q) (some (.str id))) =
      before ++ after := by
  rw [List.eraseP_append_right _ fun q mem => by simp [others q mem], List.eraseP_cons,
    strictEq_str.mpr own]
  rfl

/-- The profiles with another id are those around the first one with it. -/
theorem filter_split (nodup : ((before ++ p :: after).map idOf).Nodup)
    (own : idOf p = some (.str id)) :
    (before ++ p :: after).filter (fun q => !strictEq (idOf q) (some (.str id))) =
      before ++ after := by
  rw [List.map_append, List.map_cons, List.nodup_append] at nodup
  obtain ⟨_, tail, apart⟩ := nodup
  have front : before.filter (fun q => !strictEq (idOf q) (some (.str id))) = before := by
    refine List.filter_eq_self.mpr fun q mem => ?_
    have other := apart _ (List.mem_map_of_mem mem) _ List.mem_cons_self
    simp only [Bool.not_eq_true', Bool.eq_false_iff]
    exact fun same => other ((strictEq_str.mp same).trans own.symm)
  have back : after.filter (fun q => !strictEq (idOf q) (some (.str id))) = after := by
    refine List.filter_eq_self.mpr fun q mem => ?_
    simp only [Bool.not_eq_true', Bool.eq_false_iff]
    intro same
    refine (List.nodup_cons.mp tail).1 ?_
    rw [own, ← strictEq_str.mp same]
    exact List.mem_map_of_mem mem
  rw [List.filter_append, front, List.filter_cons_of_neg (by simp [strictEq_str.mpr own]), back]

/-- One element of a list without repetitions can be replaced by any that is not in the rest. -/
theorem nodup_replace {α : Type} {xs ys : List α} {a : α} (nodup : (xs ++ a :: ys).Nodup) (b : α) :
    (xs ++ b :: ys).Nodup ↔ b ∉ xs ++ ys := by
  have rest : (xs ++ ys).Nodup :=
    nodup.sublist (List.Sublist.append_left (List.sublist_cons_self ..) _)
  rw [List.nodup_middle, List.nodup_cons]
  exact and_iff_left rest

theorem assigned_eq_iff : assigned p patch now = p ↔ Idle p patch now := by
  constructor
  · intro same
    refine ⟨?_, fun name other => ?_⟩
    · rw [← same]
      exact if_pos rfl
    · have value := congrFun same name
      simp only [assigned, if_neg other] at value
      cases given : patch name with
      | none => exact .inl rfl
      | some v =>
        rw [given] at value
        exact .inr value
  · rintro ⟨stamp, rest⟩
    funext name
    unfold assigned
    split
    · rename_i same
      rw [same, stamp]
    · rename_i other
      rcases rest name other with none_ | same
      · rw [none_, Option.none_or]
      · rw [same, Option.or_self]

theorem endpointOf_assigned : endpointOf lower (assigned p patch now) =
    (normaliseHost lower ((patch "host").or (p "host")), (patch "port").or (p "port"),
      normaliseDb ((patch "db").or (p "db"))) := rfl

/-- An edit that gives no other endpoint keeps the endpoint. -/
theorem endpointOf_kept (kept : endpointChanges lower p patch = false) :
    endpointOf lower (assigned p patch now) = endpointOf lower p := by
  simp only [endpointChanges, Bool.or_eq_false_iff, decide_eq_false_iff_not, not_not,
    Bool.and_eq_false_iff, Bool.not_eq_false', Option.isSome_eq_false_iff,
    Option.isNone_iff_eq_none] at kept
  obtain ⟨⟨host, port⟩, db⟩ := kept
  rw [endpointOf_assigned, endpointOf, host]
  refine congrArg _ (Prod.ext ?_ ?_)
  · rcases port with none_ | same
    · rw [none_, Option.none_or]
    · have equal := eq_of_strictEq same
      dsimp only
      rw [equal, Option.or_self]
  · rcases db with none_ | same
    · rw [none_, Option.none_or]
    · have equal := Option.some.inj (eq_of_strictEq same)
      cases given : patch "db" with
      | none => rw [Option.none_or]
      | some v =>
        rw [given] at equal
        exact equal

end Profiles

section Calls
variable {lower : String → String} {s t : Store} {e : Event} {m m' : PersistedState}

/-- What every call finds: the profiles are sound and their hosts are texts. -/
structure Sound (lower : String → String) (m : PersistedState) :
    Prop extends Integrity lower m where
  hosts : ∀ p ∈ m.profiles, (normaliseHost lower (p "host")).isSome = true

theorem sound_empty : Sound lower ⟨[], none⟩ where
  ids := List.nodup_nil
  endpoints := List.nodup_nil
  active := nofun
  hosts := nofun

/-- A search by endpoint misses a profile only when it is told apart from it. -/
theorem findByEndpoint_isSome {ps : List Profile} {p q : Profile} {host : String}
    (mem : q ∈ ps) (readable : normaliseHost lower (p "host") = some host)
    (same : endpointOf lower q = endpointOf lower p) (port : strictEq (p "port") (p "port") = true)
    (db : strictEq (some (normaliseDb (p "db"))) (some (normaliseDb (p "db"))) = true) :
    (findByEndpoint lower ps host (p "port") (p "db")).isSome = true := by
  obtain ⟨hosts, rest⟩ := Prod.mk.inj same
  obtain ⟨ports, dbs⟩ := Prod.mk.inj rest
  refine List.find?_isSome.mpr ⟨q, mem, ?_⟩
  rw [hosts, ports, dbs, readable, port, db]
  simp

theorem endpointOf_of_findByEndpoint {ps : List Profile} {q : Profile} {host : String}
    {port db : Option Json} (found : findByEndpoint lower ps host port db = some q) :
    q ∈ ps ∧ endpointOf lower q = (some host, port, normaliseDb db) := by
  refine ⟨List.mem_of_find?_eq_some found, ?_⟩
  have same := List.find?_some found
  simp only [Bool.and_eq_true, decide_eq_true_eq] at same
  obtain ⟨⟨host_, port_⟩, db_⟩ := same
  exact Prod.ext host_ (Prod.ext (eq_of_strictEq port_) (Option.some.inj (eq_of_strictEq db_)))

/-- Without a write nothing changes. -/
theorem good_of_unchanged (sound : Sound lower s.memory) (ids : IdsKept s.memory s.memory e.call)
    (went : (perform lower s e).1 = s) : Good lower s e (perform lower s e).1 := by
  rw [went]
  exact ⟨sound.toIntegrity, ids, fun _ => rfl⟩

theorem idsKept_self (m : PersistedState) (call : Call) : IdsKept m m call := by
  cases call <;> first | exact .inl rfl | exact rfl

/-- A write that succeeds rejects nothing; one that fails must not have changed anything. -/
theorem good_write_iff (writes : attempt lower s.memory e = .writes m) :
    Good lower s e (perform lower s e).1 ↔
      if e.persists then Integrity lower m ∧ IdsKept s.memory m e.call
      else Integrity lower s.memory ∧ m = s.memory := by
  unfold perform
  rw [writes]
  dsimp only
  cases stored : e.persists with
  | true =>
    simp only [if_true]
    constructor
    · exact fun good => ⟨good.integrity, good.ids⟩
    · rintro ⟨integrity, ids⟩
      refine ⟨integrity, ids, fun rejects => ?_⟩
      simp [perform, writes, stored] at rejects
  | false =>
    simp only [Bool.false_eq_true, if_false]
    have rejects : (perform lower s e).2 = true := by simp [perform, writes, stored]
    constructor
    · intro good
      have same := good.atomic rejects
      have memory : m = s.memory := congrArg Store.memory same
      exact ⟨memory ▸ good.integrity, memory⟩
    · rintro ⟨integrity, rfl⟩
      exact ⟨integrity, idsKept_self _ _, fun _ => rfl⟩

/-- What a creation writes. -/
theorem create_writes {input : Json} {ulid now : String}
    (writes : create lower m input ulid now = .writes m') : ∃ members host,
      membersOf input = some members ∧ normaliseHost lower (members "host") = some host ∧
      findByEndpoint lower m.profiles host (members "port") (members "db") = none ∧
      m' = { m with profiles := m.profiles ++ [madeProfile members ulid now] } := by
  unfold create at writes
  split at writes
  · cases writes
  · rename_i members read
    split at writes
    · cases writes
    · rename_i host readable
      split at writes
      · cases writes
      · rename_i missed
        exact ⟨members, host, read, readable, Option.not_isSome_iff_eq_none.mp missed,
          (Attempt.writes.inj writes).symm⟩

/-- What an edit writes, and that its search found no other profile. -/
theorem update_writes {id : String} {patch : Json} {now : String}
    (writes : update lower m id patch now = .writes m') : ∃ p members host,
      findById m.profiles id = some p ∧ membersOf patch = some members ∧
      normaliseHost lower ((members "host").or (p "host")) = some host ∧
      (endpointChanges lower p members = true → ∀ dup, findByEndpoint lower m.profiles host
        ((members "port").or (p "port")) ((members "db").or (p "db")) = some dup →
          idOf dup = some (.str id)) ∧
      m' = { m with profiles := editFirst id (fun p => assigned p members now) m.profiles } := by
  unfold update at writes
  split at writes
  · cases writes
  · rename_i p found
    split at writes
    · cases writes
    · rename_i members read
      split at writes
      · cases writes
      · rename_i host readable
        split at writes
        · cases writes
        · rename_i free
          refine ⟨p, members, host, found, read, readable, fun changes dup hit => ?_,
            (Attempt.writes.inj writes).symm⟩
          rw [changes, hit] at free
          exact strictEq_str.mp (by simpa using free)

theorem create_good_iff {input : Json} {ulid now : String} {persists : Bool} (sound : Sound lower m)
    (fresh : ∀ p ∈ m.profiles, idOf p ≠ some (.str ulid))
    (writes : create lower m input ulid now = .writes m') :
    (if persists then Integrity lower m' ∧ IdsKept m m' (.create input ulid)
      else Integrity lower m ∧ m' = m) ↔
    persists = true ∧ ∀ members, membersOf input = some members →
      Distinguished lower m.profiles (madeProfile members ulid now) := by
  obtain ⟨members, host, read, readable, missed, rfl⟩ := create_writes writes
  cases persists with
  | false =>
    simp only [Bool.false_eq_true, if_false, false_and, iff_false]
    rintro ⟨_, same⟩
    have lengths := congrArg (fun state => state.profiles.length) same
    simp at lengths
  | true =>
    simp only [if_true, true_and, read, Option.some.injEq, forall_eq']
    have idList : ids { m with profiles := m.profiles ++ [madeProfile members ulid now] } =
        ids m ++ [some (.str ulid)] := List.map_append
    constructor
    · rintro ⟨integrity, _⟩ q mem same
      have apart := integrity.endpoints
      rw [List.map_append, List.nodup_append] at apart
      exact absurd same (apart.2.2 _ (List.mem_map_of_mem mem) _ List.mem_cons_self)
    · intro told
      refine ⟨⟨?_, ?_, ?_⟩, .inr idList⟩
      · rw [idList]
        refine sound.ids.append (List.nodup_singleton _) (List.disjoint_singleton.mpr fun mem => ?_)
        obtain ⟨p, held, same⟩ := List.mem_map.mp mem
        exact fresh p held same
      · rw [List.map_append]
        refine sound.endpoints.append (List.nodup_singleton _)
          (List.disjoint_singleton.mpr fun mem => ?_)
        obtain ⟨q, held, same⟩ := List.mem_map.mp mem
        obtain ⟨port, db⟩ := told q held same
        have hit := findByEndpoint_isSome held readable same port db
        have unseen : (findByEndpoint lower m.profiles host (members "port")
            (members "db")).isSome =
            true := hit
        rw [missed] at unseen
        cases unseen
      · intro id active
        rw [idList]
        exact List.mem_append_left _ (sound.active id active)

theorem update_good_iff {id now : String} {patch : Json} {persists : Bool} (sound : Sound lower m)
    (writes : update lower m id patch now = .writes m') :
    (if persists then Integrity lower m' ∧ IdsKept m m' (.update id patch)
      else Integrity lower m ∧ m' = m) ↔
    ∀ p, findById m.profiles id = some p → ∀ members, membersOf patch = some members →
      if persists then
        (members "id" = none ∨ members "id" = idOf p) ∧
          Distinguished lower (m.profiles.filter fun q => !strictEq (idOf q) (some (.str id)))
            (assigned p members now)
      else Idle p members now := by
  obtain ⟨p, members, host, found, read, readable, free, rfl⟩ := update_writes writes
  simp only [found, read, Option.some.injEq, forall_eq']
  obtain ⟨before, after, split, own, others⟩ := split_of_findById found
  have edited : editFirst id (fun p => assigned p members now) m.profiles =
      before ++ assigned p members now :: after := by
    rw [split, editFirst_split _ own others]
  have rest : m.profiles.filter (fun q => !strictEq (idOf q) (some (.str id))) =
      before ++ after := by
    have nodup := sound.ids
    rw [ids, split] at nodup
    rw [split, filter_split nodup own]
  cases persists with
  | false =>
    simp only [Bool.false_eq_true, if_false, and_iff_right sound.toIntegrity, ← assigned_eq_iff]
    constructor
    · intro same
      have profiles : before ++ assigned p members now :: after = before ++ p :: after := by
        rw [← edited, ← split]
        exact congrArg PersistedState.profiles same
      exact (List.cons.inj (List.append_cancel_left profiles)).1
    · intro same
      rw [edited, same, ← split]
  | true =>
    simp only [if_true, rest]
    have endpoints := sound.endpoints
    rw [split, List.map_append, List.map_cons] at endpoints
    have kept : ids { m with profiles := before ++ assigned p members now :: after } = ids m ↔
        members "id" = none ∨ members "id" = idOf p := by
      rw [ids, ids, split]
      simp only [List.map_append, List.map_cons, List.append_cancel_left_eq, List.cons.injEq,
        and_true]
      change (members "id").or (p "id") = p "id" ↔ _
      cases given : members "id" with
      | none => simp
      | some v => simp [idOf]
    rw [edited]
    constructor
    · rintro ⟨integrity, keeps⟩
      refine ⟨kept.mp keeps, fun q mem same => ?_⟩
      have apart := integrity.endpoints
      rw [List.map_append, List.map_cons, nodup_replace endpoints, ← List.map_append] at apart
      exact absurd (same ▸ List.mem_map_of_mem mem) apart
    · rintro ⟨ownId, told⟩
      have keeps := kept.mpr ownId
      refine ⟨⟨keeps ▸ sound.ids, ?_, fun active held => keeps ▸ sound.active active held⟩, keeps⟩
      rw [List.map_append, List.map_cons, nodup_replace endpoints, ← List.map_append]
      intro mem
      obtain ⟨q, held, same⟩ := List.mem_map.mp mem
      have apart : endpointOf lower q ≠ endpointOf lower p := by
        intro equal
        rw [List.nodup_middle, List.nodup_cons, ← List.map_append, ← equal] at endpoints
        exact endpoints.1 (List.mem_map_of_mem held)
      cases changes : endpointChanges lower p members with
      | false => exact apart (same.trans (endpointOf_kept changes))
      | true =>
        obtain ⟨port, db⟩ := told q held same
        have listed : q ∈ m.profiles := by
          rw [split]
          exact (List.Sublist.append_left (List.sublist_cons_self ..) _).subset held
        obtain ⟨dup, hit⟩ := Option.isSome_iff_exists.mp
          (findByEndpoint_isSome listed readable same port db)
        obtain ⟨dupListed, dupEndpoint⟩ := endpointOf_of_findByEndpoint hit
        have self : dup = p := by
          refine List.inj_on_of_nodup_map sound.ids dupListed (List.mem_of_find?_eq_some found) ?_
          rw [own, free changes dup hit]
        rw [self] at dupEndpoint
        refine apart (same.trans ?_)
        rw [dupEndpoint, endpointOf_assigned, readable]
        rfl

theorem delete_good_iff {id : String} {persists : Bool} (sound : Sound lower m)
    (writes : delete m id = .writes m') :
    (if persists then Integrity lower m' ∧ IdsKept m m' (.delete id)
      else Integrity lower m ∧ m' = m) ↔ persists = true := by
  unfold delete at writes
  split at writes
  case isFalse => cases writes
  rename_i listed
  obtain ⟨p, found⟩ := Option.isSome_iff_exists.mp listed
  obtain ⟨before, after, split, own, others⟩ := split_of_findById found
  have erased : m'.profiles = before ++ after := by
    rw [← Attempt.writes.inj writes, split]
    exact eraseP_split own others
  have active : m'.activeId = if m.activeId = some id then none else m.activeId := by
    rw [← Attempt.writes.inj writes]
  have shorter : (before ++ after).Sublist (before ++ p :: after) :=
    List.Sublist.append_left (List.sublist_cons_self ..) _
  have idList : ids m = before.map idOf ++ some (.str id) :: after.map idOf := by
    rw [ids, split, List.map_append, List.map_cons, own]
  have idRest : ids m' = before.map idOf ++ after.map idOf := by
    rw [ids, erased, List.map_append]
  cases persists with
  | false =>
    simp only [Bool.false_eq_true, if_false, iff_false]
    rintro ⟨_, same⟩
    have lengths := congrArg (fun state => state.profiles.length) same
    simp [erased, split] at lengths
  | true =>
    simp only [if_true, iff_true]
    refine ⟨⟨?_, ?_, fun other held => ?_⟩, .inr ⟨_, _, idList, idRest⟩⟩
    · rw [ids, erased]
      refine sound.ids.sublist ?_
      rw [ids, split]
      exact shorter.map _
    · rw [erased]
      refine sound.endpoints.sublist ?_
      rw [split]
      exact shorter.map _
    · rw [active] at held
      split at held
      · cases held
      · rename_i apart
        have mem := sound.active other held
        rw [idList, List.mem_append, List.mem_cons] at mem
        rw [idRest, List.mem_append]
        refine mem.imp_right fun later => later.resolve_left fun same => apart ?_
        cases same
        exact held

theorem setActive_good_iff {id : String} {persists : Bool} (sound : Sound lower m)
    (writes : setActive m id = .writes m') :
    (if persists then Integrity lower m' ∧ IdsKept m m' (.setActive id)
      else Integrity lower m ∧ m' = m) ↔ persists = true ∨ m.activeId = some id := by
  unfold setActive at writes
  split at writes
  case isFalse => cases writes
  rename_i listed
  obtain rfl := Attempt.writes.inj writes
  cases persists with
  | false =>
    simp only [Bool.false_eq_true, if_false, false_or, and_iff_right sound.toIntegrity]
    constructor
    · exact fun same => (congrArg PersistedState.activeId same).symm
    · intro same
      rw [← same]
  | true =>
    simp only [if_true, true_or, iff_true]
    refine ⟨⟨sound.ids, sound.endpoints, fun other active => ?_⟩, rfl⟩
    obtain rfl := Option.some.inj active
    obtain ⟨p, found⟩ := Option.isSome_iff_exists.mp listed
    obtain ⟨before, after, split, own, _⟩ := split_of_findById found
    rw [ids, split, List.map_append, List.map_cons, own]
    exact List.mem_append_right _ List.mem_cons_self

/-- One call goes well exactly when it fits. -/
theorem good_iff (sound : Sound lower s.memory) (parsed : Parsed s e) :
    Good lower s e (perform lower s e).1 ↔ Fits lower s e := by
  unfold Fits
  cases made : attempt lower s.memory e with
  | answers =>
    refine iff_of_true (good_of_unchanged sound (idsKept_self _ _) ?_) trivial
    rw [perform, made]
  | throws =>
    refine iff_of_true (good_of_unchanged sound (idsKept_self _ _) ?_) trivial
    rw [perform, made]
  | writes m' =>
    rw [good_write_iff made]
    obtain ⟨call, now, persists⟩ := e
    cases call with
    | create input ulid => exact create_good_iff sound parsed made
    | update id patch => exact update_good_iff sound made
    | delete id => exact delete_good_iff sound made
    | setActive id => exact setActive_good_iff sound made

/-- Whatever is written has readable hosts. -/
theorem hosts_of_writes (sound : Sound lower m) (writes : attempt lower m e = .writes m') :
    ∀ p ∈ m'.profiles, (normaliseHost lower (p "host")).isSome = true := by
  obtain ⟨call, now, persists⟩ := e
  cases call with
  | create input ulid =>
    obtain ⟨members, host, _, readable, _, rfl⟩ := create_writes writes
    intro p mem
    rcases List.mem_append.mp mem with old | new
    · exact sound.hosts p old
    · rw [List.mem_singleton.mp new]
      exact Option.isSome_iff_exists.mpr ⟨host, readable⟩
  | update id patch =>
    obtain ⟨p, members, host, found, _, readable, _, rfl⟩ := update_writes writes
    obtain ⟨before, after, split, own, others⟩ := split_of_findById found
    intro q mem
    dsimp only at mem
    rw [split, editFirst_split _ own others] at mem
    have kept : q ∈ before ++ after → (normaliseHost lower (q "host")).isSome = true := by
      intro held
      refine sound.hosts q ?_
      rw [split]
      exact (List.Sublist.append_left (List.sublist_cons_self ..) _).subset held
    rcases List.mem_append.mp mem with old | new
    · exact kept (List.mem_append_left _ old)
    · rcases List.mem_cons.mp new with rfl | old
      · exact Option.isSome_iff_exists.mpr ⟨host, readable⟩
      · exact kept (List.mem_append_right _ old)
  | delete id =>
    simp only [attempt, delete] at writes
    split at writes
    · obtain rfl := Attempt.writes.inj writes
      exact fun p mem => sound.hosts p (List.eraseP_subset mem)
    · cases writes
  | setActive id =>
    simp only [attempt, setActive] at writes
    split at writes
    · obtain rfl := Attempt.writes.inj writes
      exact sound.hosts
    · cases writes

theorem sound_of_good (sound : Sound lower s.memory) (good : Good lower s e (perform lower s e).1) :
    Sound lower (perform lower s e).1.memory := by
  refine ⟨good.integrity, ?_⟩
  unfold perform
  cases made : attempt lower s.memory e with
  | answers => exact sound.hosts
  | throws => exact sound.hosts
  | writes m' =>
    dsimp only
    cases e.persists
    · exact hosts_of_writes sound made
    · exact hosts_of_writes sound made

/-- In a run every call goes well exactly when every call fits. -/
theorem store_sound_iff (lower : String → String) (file : Option PersistedState)
    (sound : Sound lower (loadOrInit file)) (es : List Event)
    (parsed : ∀ p ∈ taken (step lower) (createStore file) es, Parsed p.1 p.2) :
    (∀ p ∈ taken (step lower) (createStore file) es, ∀ t, step lower p.1 p.2 = some t →
      Good lower p.1 p.2 t) ↔
    ∀ p ∈ taken (step lower) (createStore file) es, Fits lower p.1 p.2 := by
  refine @taken_good_iff_given _ _ (step lower) (fun s => Sound lower s.memory) (Fits lower) Parsed
    (Good lower) (fun s e t sound parsed went => ?_) (fun s e t sound _ went good => ?_) _ sound es
    parsed
  · rw [← Option.some.inj went]
    exact good_iff sound parsed
  · rw [← Option.some.inj went] at good ⊢
    exact sound_of_good sound good

/-- A creation and its activation, both of them written. -/
theorem store_sound_written :
    (taken (step String.toLower) (createStore none)
        [⟨.create (.obj [("host", .str "redis"), ("port", .num 6379)]) "01A", "10:00", true⟩,
          ⟨.setActive "01A", "10:01", true⟩]).length = 2 ∧
      ∀ p ∈ taken (step String.toLower) (createStore none)
        [⟨.create (.obj [("host", .str "redis"), ("port", .num 6379)]) "01A", "10:00", true⟩,
          ⟨.setActive "01A", "10:01", true⟩],
        ∀ t, step String.toLower p.1 p.2 = some t → Good String.toLower p.1 p.2 t := by
  refine ⟨rfl, (store_sound_iff String.toLower none sound_empty _ fun p mem => ?_).mpr
    fun p mem => ?_⟩
  · simp only [taken, step, List.mem_cons, List.not_mem_nil, or_false] at mem
    obtain rfl | rfl := mem
    · intro _ held
      cases held
    · trivial
  · simp only [taken, step, List.mem_cons, List.not_mem_nil, or_false] at mem
    unfold Fits
    split
    · trivial
    · trivial
    · obtain rfl | rfl := mem
      · refine ⟨rfl, ?_⟩
        intro _ _ _ held
        cases held
      · exact .inl rfl

/-- A creation whose write fails stays in memory, and an edit whose body has an id gives it to
the profile. -/
theorem failed_write_stays_and_patch_renames :
    (¬ ∀ p ∈ taken (step String.toLower) (createStore none)
        [⟨.create (.obj [("host", .str "redis"), ("port", .num 6379)]) "01A", "10:00", false⟩],
      ∀ t, step String.toLower p.1 p.2 = some t → Good String.toLower p.1 p.2 t) ∧
    ¬ ∀ p ∈ taken (step String.toLower) (createStore none)
        [⟨.create (.obj [("host", .str "redis"), ("port", .num 6379)]) "01A", "10:00", true⟩,
          ⟨.update "01A" (.obj [("id", .str "01B")]), "10:01", true⟩],
      ∀ t, step String.toLower p.1 p.2 = some t → Good String.toLower p.1 p.2 t := by
  constructor
  · intro all
    have good := all _ List.mem_cons_self _ rfl
    have same := congrArg (fun s => s.memory.profiles.length) (good.atomic rfl)
    cases same
  · intro all
    have good := all _ (List.mem_cons_of_mem _ List.mem_cons_self) _ rfl
    have same := congrArg (fun list => list.any fun id => strictEq id (some (.str "01A"))) good.ids
    exact absurd same (by decide +kernel)

end Calls

end ConnectionStore
