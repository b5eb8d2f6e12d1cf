import Mathlib.Logic.Function.Basic
import Mathlib.Data.Nat.Notation

/-!
# A result cache with a version, shared fetches and changing targets

Requests run concurrently. Each takes a client of the current target, looks
its answer up under a version, and on a miss fetches a bundle through its
client; the requests of one batch that fall into the same group wait for one
fetch. A finished answer is stored under the version read at that time. The
version in memory is filled by replies that may be late. A bump or a change of
target empties the cache.

Epochs count the invalidations. They and the clients of entries and fetches are
for the statements only: no step looks at them.
-/

namespace SharedCache

/-- What a service answers: its fetch sees a view of the data. -/
structure Service (Q K G V B R E : Type*) where
  lookupKey : Q → ℕ → K
  storeKey : Q → ℕ → K
  /-- Whether a request consults and fills the cache. -/
  uses : Q → Bool
  group : Q → G
  fetch : Q → V → Except E B
  finish : Q → B → R

structure Entry (T R : Type*) where
  value : R
  client : T
  epoch : ℕ

structure Fetch (Q T B E : Type*) where
  leader : Q
  client : T
  epoch : ℕ
  result : Option (Except E B)

/-- What a request needs a version for. -/
inductive Stage where
  | looking
  | storing (f : ℕ)

inductive Phase (T R E : Type*) where
  | needs (stage : Stage)
  | asked (stage : Stage) (version : ℕ)
  | has (stage : Stage) (version : ℕ)
  | waiting (f : ℕ)
  | hit (e : Entry T R)
  | computed (f : ℕ) (r : R)
  | failed (f : ℕ) (e : E)

structure Request (Q T R E : Type*) where
  query : Q
  client : T
  batch : Option ℕ
  phase : Phase T R E

def Request.goto {Q T R E : Type*} (req : Request Q T R E) (phase : Phase T R E) :
    Request Q T R E := { req with phase := phase }

structure State (Q K G T B R E : Type*) where
  requests : ℕ → Option (Request Q T R E)
  fetches : ℕ → Option (Fetch Q T B E)
  shares : ℕ → G → Option ℕ
  cache : K → Option (Entry T R)
  version : Option ℕ
  target : T
  epoch : ℕ

inductive Event (Q K T V : Type*) where
  | begin (n : ℕ) (q : Q) (batch : Option ℕ)
  | readVersion (n : ℕ)
  | askVersion (n version : ℕ)
  | takeVersion (n : ℕ)
  | lookup (n : ℕ)
  | answer (f : ℕ) (view : V)
  | receive (n : ℕ)
  | store (n : ℕ)
  | bump (version : ℕ)
  | retarget (t : T)
  | expire (k : K)

variable {Q K G T V B R E : Type*}

namespace State

def init (t : T) : State Q K G T B R E where
  requests := fun _ => none
  fetches := fun _ => none
  shares := fun _ _ => none
  cache := fun _ => none
  version := none
  target := t
  epoch := 0

def put (s : State Q K G T B R E) (n : ℕ) (req : Request Q T R E) : State Q K G T B R E :=
  { s with requests := Function.update s.requests n (some req) }

def resolve (s : State Q K G T B R E) (f : ℕ) (ft : Fetch Q T B E) (r : Except E B) :
    State Q K G T B R E :=
  { s with fetches := Function.update s.fetches f (some { ft with result := some r }) }

/-- Empty the cache, with what is then known of the version. -/
def invalidate (s : State Q K G T B R E) (version : Option ℕ) (t : T) : State Q K G T B R E :=
  { s with cache := fun _ => none, version := version, target := t, epoch := s.epoch + 1 }

@[simp] theorem requests_put (s : State Q K G T B R E) (n : ℕ) (req : Request Q T R E) :
    (s.put n req).requests n = some req := Function.update_self _ _ _

theorem requests_put_of_ne (s : State Q K G T B R E) {m n : ℕ} (req : Request Q T R E)
    (other : m ≠ n) : (s.put n req).requests m = s.requests m := Function.update_of_ne other _ _

@[simp] theorem fetches_put (s : State Q K G T B R E) (n : ℕ) (req : Request Q T R E) :
    (s.put n req).fetches = s.fetches := rfl

/-- Start a fetch in the name of a request, for its whole group when the
request belongs to a batch. -/
def start [DecidableEq G] (s : State Q K G T B R E) (n : ℕ) (req : Request Q T R E) (g : G) :
    State Q K G T B R E :=
  { s with
    fetches := Function.update s.fetches n (some ⟨req.query, req.client, s.epoch, none⟩)
    shares := fun b g' => if req.batch = some b ∧ g' = g then some n else s.shares b g' }

def keep [DecidableEq K] (s : State Q K G T B R E) (k : K) (e : Entry T R) : State Q K G T B R E :=
  { s with cache := Function.update s.cache k (some e) }

end State

section Links

def Stage.fetchOf : Stage → Option ℕ
  | .looking => none
  | .storing f => some f

/-- The fetch that a request waits for or has its answer from. -/
def Phase.fetchOf : Phase T R E → Option ℕ
  | .needs stage => stage.fetchOf
  | .asked stage _ => stage.fetchOf
  | .has stage _ => stage.fetchOf
  | .waiting f => some f
  | .hit _ => none
  | .computed f _ => some f
  | .failed f _ => some f

/-- The request has yet to look its answer up. -/
def Phase.Looks : Phase T R E → Prop
  | .needs .looking => True
  | .asked .looking _ => True
  | .has .looking _ => True
  | _ => False

variable (svc : Service Q K G V B R E) (member : ℕ → Q → Prop)

/-- The fetch of a request is its own, or the one its batch shares in its group. -/
def Leads (s : State Q K G T B R E) (req : Request Q T R E) (f : ℕ) (ft : Fetch Q T B E) : Prop :=
  match req.batch with
  | none => ft.leader = req.query
  | some b => svc.group ft.leader = svc.group req.query ∧ member b ft.leader ∧
    s.shares b (svc.group req.query) = some f

/-- The answer of a request comes from its fetch. -/
def Answered (s : State Q K G T B R E) (req : Request Q T R E) : Prop :=
  match req.phase with
  | .computed f r => ∃ ft b, s.fetches f = some ft ∧ ft.result = some (.ok b) ∧
    r = svc.finish req.query b
  | .failed f e => ∃ ft, s.fetches f = some ft ∧ ft.result = some (.error e)
  | _ => True

structure RequestOk (s : State Q K G T B R E) (req : Request Q T R E) : Prop where
  batched : ∀ b, req.batch = some b → member b req.query
  fetched : ∀ f, req.phase.fetchOf = some f →
    ∃ ft, s.fetches f = some ft ∧ Leads svc member s req f ft
  answered : Answered svc s req

structure Linked (s : State Q K G T B R E) : Prop where
  started : ∀ n ft, s.fetches n = some ft → ∃ req, s.requests n = some req ∧ ¬ req.phase.Looks
  shared : ∀ b g f, s.shares b g = some f →
    ∃ ft, s.fetches f = some ft ∧ svc.group ft.leader = g ∧ member b ft.leader
  requests : ∀ n req, s.requests n = some req → RequestOk svc member s req

/-- Fetches and shares only grow. -/
structure Extends (s s' : State Q K G T B R E) : Prop where
  fetches : ∀ f ft, s.fetches f = some ft → ∃ ft', s'.fetches f = some ft' ∧
    ft'.leader = ft.leader ∧ ft'.client = ft.client ∧
      ∀ r, ft.result = some r → ft'.result = some r
  shares : ∀ b g f, s.shares b g = some f → s'.shares b g = some f

variable {svc member} {s s' : State Q K G T B R E}

theorem Extends.of_eq (fetches : s'.fetches = s.fetches) (shares : s'.shares = s.shares) :
    Extends s s' := by
  constructor
  · intro f ft h
    exact ⟨ft, by rw [fetches, h], rfl, rfl, fun _ hr => hr⟩
  · intro b g f h
    rw [shares, h]

theorem RequestOk.extend {req : Request Q T R E} (ok : RequestOk svc member s req)
    (ext : Extends s s') : RequestOk svc member s' req := by
  refine ⟨ok.batched, ?_, ?_⟩
  · intro f hf
    obtain ⟨ft, hft, leads⟩ := ok.fetched f hf
    obtain ⟨ft', hft', leader, _, _⟩ := ext.fetches f ft hft
    refine ⟨ft', hft', ?_⟩
    unfold Leads at leads ⊢
    cases hb : req.batch with
    | none =>
      rw [hb] at leads
      exact leader.trans leads
    | some b =>
      rw [hb] at leads
      simp only [leader]
      exact ⟨leads.1, leads.2.1, ext.shares _ _ _ leads.2.2⟩
  · have answered := ok.answered
    unfold Answered at answered ⊢
    cases hp : req.phase with
    | computed f r =>
      rw [hp] at answered
      obtain ⟨ft, b, hft, hr, heq⟩ := answered
      obtain ⟨ft', hft', _, _, kept⟩ := ext.fetches f ft hft
      exact ⟨ft', b, hft', kept _ hr, heq⟩
    | failed f e =>
      rw [hp] at answered
      obtain ⟨ft, hft, hr⟩ := answered
      obtain ⟨ft', hft', _, _, kept⟩ := ext.fetches f ft hft
      exact ⟨ft', hft', kept _ hr⟩
    | _ => trivial

/-- A request that has yet to look up has no fetch in its name. -/
theorem Linked.unfetched (linked : Linked svc member s) {n : ℕ} {req : Request Q T R E}
    (here : s.requests n = some req) (looks : req.phase.Looks) : s.fetches n = none := by
  cases h : s.fetches n with
  | none => rfl
  | some ft =>
    obtain ⟨req', here', done⟩ := linked.started n ft h
    rw [here] at here'
    cases here'
    exact absurd looks done

/-- Moving one request on keeps the links, when the request stays linked. -/
theorem Linked.put (linked : Linked svc member s) {n : ℕ} {req : Request Q T R E}
    (ok : RequestOk svc member s req) (looks : req.phase.Looks → s.fetches n = none) :
    Linked svc member (s.put n req) := by
  have ext : Extends s (s.put n req) := Extends.of_eq rfl rfl
  constructor
  · intro m ft h
    by_cases same : m = n
    · subst same
      refine ⟨req, s.requests_put m req, fun hl => ?_⟩
      rw [State.fetches_put, looks hl] at h
      cases h
    · obtain ⟨req', here, done⟩ := linked.started m ft h
      exact ⟨req', by rw [s.requests_put_of_ne req same, here], done⟩
  · exact linked.shared
  · intro m req' here
    by_cases same : m = n
    · subst same
      rw [State.requests_put, Option.some.injEq] at here
      subst here
      exact ok.extend ext
    · rw [s.requests_put_of_ne req same] at here
      exact (linked.requests m req' here).extend ext

/-- Only cache, version, target and epoch differ. -/
theorem Linked.congr (linked : Linked svc member s) (requests : s'.requests = s.requests)
    (fetches : s'.fetches = s.fetches) (shares : s'.shares = s.shares) :
    Linked svc member s' := by
  have ext : Extends s s' := Extends.of_eq fetches shares
  constructor
  · intro n ft h
    rw [fetches] at h
    rw [requests]
    exact linked.started n ft h
  · intro b g f h
    rw [shares] at h
    rw [fetches]
    exact linked.shared b g f h
  · intro n req h
    rw [requests] at h
    exact (linked.requests n req h).extend ext

/-- A request that stays at its stage keeps its fetch. -/
theorem RequestOk.sameStage {req : Request Q T R E} (ok : RequestOk svc member s req)
    {phase : Phase T R E} (same : phase.fetchOf = req.phase.fetchOf)
    (answered : Answered svc s (req.goto phase)) : RequestOk svc member s (req.goto phase) := by
  refine ⟨ok.batched, ?_, answered⟩
  intro f hf
  exact ok.fetched f (same ▸ hf)

theorem looks_iff {phase : Phase T R E} {stage : Stage}
    (staged : phase = .needs stage ∨ (∃ v, phase = .asked stage v) ∨ ∃ v, phase = .has stage v) :
    (phase.Looks ↔ stage = .looking) ∧ phase.fetchOf = stage.fetchOf := by
  rcases staged with rfl | ⟨v, rfl⟩ | ⟨v, rfl⟩
  all_goals
    cases stage with
    | looking => exact ⟨iff_of_true trivial rfl, rfl⟩
    | storing f => exact ⟨iff_of_false id (fun h => by cases h), rfl⟩

/-- Moving on within a stage keeps the links. -/
theorem Linked.restage (linked : Linked svc member s) {n : ℕ} {req : Request Q T R E}
    {stage : Stage} (here : s.requests n = some req) {phase : Phase T R E}
    (before : req.phase = .needs stage ∨ (∃ v, req.phase = .asked stage v))
    (after : (∃ v, phase = .asked stage v) ∨ ∃ v, phase = .has stage v) :
    Linked svc member (s.put n (req.goto phase)) := by
  have old := looks_iff (before.imp_right Or.inl)
  have new := looks_iff (Or.inr after : phase = .needs stage ∨ _)
  refine linked.put ((linked.requests n req here).sameStage (new.2.trans old.2.symm) ?_) ?_
  · unfold Answered
    rcases after with ⟨v, rfl⟩ | ⟨v, rfl⟩
    · trivial
    · trivial
  · intro looks
    exact linked.unfetched here (old.1.mpr (new.1.mp looks))

end Links

section Steps
variable [DecidableEq K] [DecidableEq G]

inductive Step (svc : Service Q K G V B R E) :
    State Q K G T B R E → Event Q K T V → State Q K G T B R E → Prop where
  | begin {s n q batch} (free : s.requests n = none) :
    Step svc s (.begin n q batch) (s.put n ⟨q, s.target, batch, .needs .looking⟩)
  | readVersion {s n req stage v} (here : s.requests n = some req)
      (phase : req.phase = .needs stage) (known : s.version = some v) :
    Step svc s (.readVersion n) (s.put n (req.goto (.has stage v)))
  | askVersion {s n req stage v} (here : s.requests n = some req)
      (phase : req.phase = .needs stage) (unknown : s.version = none) :
    Step svc s (.askVersion n v) (s.put n (req.goto (.asked stage v)))
  | takeVersion {s n req stage v} (here : s.requests n = some req)
      (phase : req.phase = .asked stage v) :
    Step svc s (.takeVersion n) ({ s with version := some v }.put n (req.goto (.has stage v)))
  | hit {s n req v e} (here : s.requests n = some req) (phase : req.phase = .has .looking v)
      (uses : svc.uses req.query = true) (found : s.cache (svc.lookupKey req.query v) = some e) :
    Step svc s (.lookup n) (s.put n (req.goto (.hit e)))
  | join {s n req v b f} (here : s.requests n = some req) (phase : req.phase = .has .looking v)
      (miss : svc.uses req.query = true → s.cache (svc.lookupKey req.query v) = none)
      (batch : req.batch = some b) (shared : s.shares b (svc.group req.query) = some f) :
    Step svc s (.lookup n) (s.put n (req.goto (.waiting f)))
  | fetch {s n req v} (here : s.requests n = some req) (phase : req.phase = .has .looking v)
      (miss : svc.uses req.query = true → s.cache (svc.lookupKey req.query v) = none)
      (first : ∀ b, req.batch = some b → s.shares b (svc.group req.query) = none) :
    Step svc s (.lookup n)
      ((s.start n req (svc.group req.query)).put n (req.goto (.waiting n)))
  | answer {s f view ft} (here : s.fetches f = some ft) (open_ : ft.result = none) :
    Step svc s (.answer f view) (s.resolve f ft (svc.fetch ft.leader view))
  | receive {s n req f ft b} (here : s.requests n = some req) (phase : req.phase = .waiting f)
      (fetched : s.fetches f = some ft) (ok : ft.result = some (.ok b)) :
    Step svc s (.receive n) (s.put n (req.goto (.needs (.storing f))))
  | fail {s n req f ft e} (here : s.requests n = some req) (phase : req.phase = .waiting f)
      (fetched : s.fetches f = some ft) (error : ft.result = some (.error e)) :
    Step svc s (.receive n) (s.put n (req.goto (.failed f e)))
  | store {s n req f ft b v} (here : s.requests n = some req)
      (phase : req.phase = .has (.storing f) v) (fetched : s.fetches f = some ft)
      (ok : ft.result = some (.ok b)) :
    Step svc s (.store n)
      ((if svc.uses req.query then
          s.keep (svc.storeKey req.query v) ⟨svc.finish req.query b, ft.client, ft.epoch⟩
        else s).put n (req.goto (.computed f (svc.finish req.query b))))
  | bump {s v} : Step svc s (.bump v) (s.invalidate (some v) s.target)
  | retarget {s t} : Step svc s (.retarget t) (s.invalidate none t)
  | expire {s k} :
    Step svc s (.expire k) { s with cache := fun k' => if k' = k then none else s.cache k' }

/-- A run whose every step is allowed in the state it is taken in. -/
inductive Run (svc : Service Q K G V B R E)
    (allowed : State Q K G T B R E → Event Q K T V → Prop) (t : T) :
    State Q K G T B R E → Prop where
  | init : Run svc allowed t (State.init t)
  | step {s s' e} (run : Run svc allowed t s) (ok : allowed s e) (step : Step svc s e s') :
    Run svc allowed t s'

section Execution
variable {svc : Service Q K G V B R E} {s s' : State Q K G T B R E} {e : Event Q K T V}

/-- A request looks its answer up under version `v`. -/
def lookup (svc : Service Q K G V B R E) (s : State Q K G T B R E) (n : ℕ)
    (req : Request Q T R E) (v : ℕ) : State Q K G T B R E :=
  let found := if svc.uses req.query then s.cache (svc.lookupKey req.query v) else none
  match found, req.batch.bind fun b => s.shares b (svc.group req.query) with
  | some x, _ => s.put n (req.goto (.hit x))
  | none, some f => s.put n (req.goto (.waiting f))
  | none, none => (s.start n req (svc.group req.query)).put n (req.goto (.waiting n))

/-- The step of one request that waits for nothing but its turn. -/
def advance (svc : Service Q K G V B R E) (s : State Q K G T B R E) (e : Event Q K T V) (n : ℕ)
    (req : Request Q T R E) : Option (State Q K G T B R E) :=
  match e, req.phase with
  | .readVersion _, .needs stage => s.version.map fun v => s.put n (req.goto (.has stage v))
  | .askVersion _ v, .needs stage =>
    if s.version = none then some (s.put n (req.goto (.asked stage v))) else none
  | .takeVersion _, .asked stage v =>
    some ({ s with version := some v }.put n (req.goto (.has stage v)))
  | .lookup _, .has .looking v => some (lookup svc s n req v)
  | .receive _, .waiting f =>
    match (s.fetches f).bind Fetch.result with
    | some (.ok _) => some (s.put n (req.goto (.needs (.storing f))))
    | some (.error e) => some (s.put n (req.goto (.failed f e)))
    | none => none
  | .store _, .has (.storing f) v =>
    match s.fetches f with
    | some ⟨_, client, epoch, some (.ok b)⟩ =>
      some ((if svc.uses req.query then
          s.keep (svc.storeKey req.query v) ⟨svc.finish req.query b, client, epoch⟩
        else s).put n (req.goto (.computed f (svc.finish req.query b))))
    | _ => none
  | _, _ => none

/-- The state after an event, when the event is enabled. -/
def next (svc : Service Q K G V B R E) (s : State Q K G T B R E) (e : Event Q K T V) :
    Option (State Q K G T B R E) :=
  match e with
  | .begin n q batch =>
    match s.requests n with
    | none => some (s.put n ⟨q, s.target, batch, .needs .looking⟩)
    | some _ => none
  | .answer f view =>
    match s.fetches f with
    | some ⟨leader, client, epoch, none⟩ =>
      some (s.resolve f ⟨leader, client, epoch, none⟩ (svc.fetch leader view))
    | _ => none
  | .bump v => some (s.invalidate (some v) s.target)
  | .retarget t => some (s.invalidate none t)
  | .expire k => some { s with cache := fun k' => if k' = k then none else s.cache k' }
  | .readVersion n => (s.requests n).bind (advance svc s e n)
  | .askVersion n _ => (s.requests n).bind (advance svc s e n)
  | .takeVersion n => (s.requests n).bind (advance svc s e n)
  | .lookup n => (s.requests n).bind (advance svc s e n)
  | .receive n => (s.requests n).bind (advance svc s e n)
  | .store n => (s.requests n).bind (advance svc s e n)

theorem Step.of_lookup {n : ℕ} {req : Request Q T R E} {v : ℕ} (here : s.requests n = some req)
    (phase : req.phase = .has .looking v) : Step svc s (.lookup n) (lookup svc s n req v) := by
  unfold SharedCache.lookup
  dsimp only
  split
  · rename_i x found
    split at found
    · rename_i uses
      exact Step.hit here phase uses found
    · cases found
  · rename_i f miss shared
    obtain ⟨b, batch, shared⟩ := Option.bind_eq_some_iff.mp shared
    refine Step.join here phase (fun uses => ?_) batch shared
    rwa [if_pos uses] at miss
  · rename_i miss unshared
    refine Step.fetch here phase (fun uses => ?_) (fun b batch => ?_)
    · rwa [if_pos uses] at miss
    · rw [batch] at unshared
      exact unshared

theorem Step.of_advance {n : ℕ} {req : Request Q T R E} (here : s.requests n = some req)
    (names : e = .readVersion n ∨ (∃ v, e = .askVersion n v) ∨ e = .takeVersion n ∨
      e = .lookup n ∨ e = .receive n ∨ e = .store n)
    (moved : advance svc s e n req = some s') : Step svc s e s' := by
  unfold advance at moved
  split at moved
  · rename_i stage phase
    obtain ⟨v, known, rfl⟩ := Option.map_eq_some_iff.mp moved
    rcases names with h | ⟨_, h⟩ | h | h | h | h <;> cases h
    exact Step.readVersion here phase known
  · rename_i v stage phase
    split at moved
    · rename_i unknown
      cases moved
      rcases names with h | ⟨_, h⟩ | h | h | h | h <;> cases h
      exact Step.askVersion here phase unknown
    · cases moved
  · rename_i stage v phase
    cases moved
    rcases names with h | ⟨_, h⟩ | h | h | h | h <;> cases h
    exact Step.takeVersion here phase
  · rename_i v phase
    cases moved
    rcases names with h | ⟨_, h⟩ | h | h | h | h <;> cases h
    exact Step.of_lookup here phase
  · rename_i f phase
    rcases names with h | ⟨_, h⟩ | h | h | h | h <;> cases h
    split at moved
    · rename_i b found
      obtain ⟨ft, fetched, ok⟩ := Option.bind_eq_some_iff.mp found
      cases moved
      exact Step.receive here phase fetched ok
    · rename_i err found
      obtain ⟨ft, fetched, error⟩ := Option.bind_eq_some_iff.mp found
      cases moved
      exact Step.fail here phase fetched error
    · cases moved
  · rename_i f v phase
    rcases names with h | ⟨_, h⟩ | h | h | h | h <;> cases h
    split at moved
    · rename_i leader client epoch b fetched
      cases moved
      exact Step.store here phase fetched rfl
    · cases moved
  · cases moved

/-- What `next` computes is a step. -/
theorem Step.of_next (moved : next svc s e = some s') : Step svc s e s' := by
  have request : ∀ n, (s.requests n).bind (advance svc s e n) = some s' →
      (e = .readVersion n ∨ (∃ v, e = .askVersion n v) ∨ e = .takeVersion n ∨
        e = .lookup n ∨ e = .receive n ∨ e = .store n) → Step svc s e s' := by
    intro n found names
    obtain ⟨req, here, moved⟩ := Option.bind_eq_some_iff.mp found
    exact Step.of_advance here names moved
  cases e with
  | begin n q batch =>
    simp only [next] at moved
    split at moved
    · cases moved
      exact Step.begin (by assumption)
    · cases moved
  | answer f view =>
    simp only [next] at moved
    split at moved
    · rename_i fetched
      cases moved
      exact Step.answer fetched rfl
    · cases moved
  | bump v =>
    cases moved
    exact Step.bump
  | retarget t =>
    cases moved
    exact Step.retarget
  | expire k =>
    cases moved
    exact Step.expire
  | readVersion n => exact request n moved (by simp)
  | askVersion n v => exact request n moved (by simp)
  | takeVersion n => exact request n moved (by simp)
  | lookup n => exact request n moved (by simp)
  | receive n => exact request n moved (by simp)
  | store n => exact request n moved (by simp)

/-- Run events in order, each enabled and passing a check in the state it meets. -/
def execute (svc : Service Q K G V B R E) (check : State Q K G T B R E → Event Q K T V → Bool)
    (s : State Q K G T B R E) (events : List (Event Q K T V)) : Option (State Q K G T B R E) :=
  events.foldlM (fun s e => if check s e then next svc s e else none) s

/-- The states that executing events reaches are reached by a run. -/
theorem Run.execute {allowed : State Q K G T B R E → Event Q K T V → Prop}
    {check : State Q K G T B R E → Event Q K T V → Bool} {t : T} {events : List (Event Q K T V)}
    (run : Run svc allowed t s) (ok : ∀ s, ∀ e ∈ events, check s e = true → allowed s e)
    (reached : execute svc check s events = some s') : Run svc allowed t s' := by
  induction events generalizing s with
  | nil =>
    cases reached
    exact run
  | cons e events ih =>
    unfold SharedCache.execute at reached
    rw [List.foldlM_cons] at reached
    obtain ⟨mid, moved, rest⟩ := Option.bind_eq_some_iff.mp reached
    split at moved
    · rename_i checked
      refine ih (Run.step run (ok s e (by simp) checked) (Step.of_next moved)) ?_ rest
      intro s'' e' mem
      exact ok s'' e' (List.mem_cons_of_mem _ mem)
    · cases moved

end Execution

section Entries
variable {svc : Service Q K G V B R E} {s s' : State Q K G T B R E} {e : Event Q K T V}

/-- An entry that a step leaves in the cache was there before, unless the step
is the store that put it there. -/
theorem Step.entry (step : Step svc s e s') {k : K} {x : Entry T R} (kept : s'.cache k = some x) :
    (s.cache k = some x ∧ s'.epoch = s.epoch ∧ s'.target = s.target) ∨
      ∃ n req f ft b v, e = .store n ∧ s.requests n = some req ∧ svc.uses req.query = true ∧
        req.phase = .has (.storing f) v ∧ s.fetches f = some ft ∧ ft.result = some (.ok b) ∧
        k = svc.storeKey req.query v ∧ x = ⟨svc.finish req.query b, ft.client, ft.epoch⟩ ∧
        s'.epoch = s.epoch ∧ s'.target = s.target := by
  cases step with
  | store here phase fetched ok =>
    rename_i n req f ft b v
    by_cases uses : svc.uses req.query = true
    · rw [if_pos uses] at kept ⊢
      by_cases same : k = svc.storeKey req.query v
      · subst same
        simp only [State.put, State.keep, Function.update_self, Option.some.injEq] at kept
        exact Or.inr ⟨n, req, f, ft, b, v, rfl, here, uses, phase, fetched, ok, rfl, kept.symm,
          rfl, rfl⟩
      · left
        simp only [State.put, State.keep, Function.update_of_ne same] at kept
        exact ⟨kept, rfl, rfl⟩
    · rw [if_neg uses] at kept ⊢
      exact Or.inl ⟨kept, rfl, rfl⟩
  | bump => cases kept
  | retarget => cases kept
  | expire =>
    rename_i k'
    left
    by_cases same : k = k'
    · simp only [if_pos same] at kept
      cases kept
    · simp only [if_neg same] at kept
      exact ⟨kept, rfl, rfl⟩
  | _ => exact Or.inl ⟨kept, rfl, rfl⟩

omit [DecidableEq K] [DecidableEq G] in
theorem phase_put {n m : ℕ} {req req' : Request Q T R E} {x : Entry T R}
    (moved : ∀ x, req'.phase ≠ .hit x) (here : (s.put n req').requests m = some req)
    (phase : req.phase = .hit x) : s.requests m = some req := by
  by_cases same : m = n
  · subst same
    rw [State.requests_put, Option.some.injEq] at here
    subst here
    exact absurd phase (moved x)
  · rwa [State.requests_put_of_ne _ _ same] at here

/-- A request that has a hit had it before, unless the step is its lookup. -/
theorem Step.hit_origin (step : Step svc s e s') {n : ℕ} {req : Request Q T R E} {x : Entry T R}
    (here : s'.requests n = some req) (phase : req.phase = .hit x) :
    s.requests n = some req ∨ ∃ v, s.cache (svc.lookupKey req.query v) = some x := by
  cases step with
  | hit found looking uses kept =>
    rename_i m old v y
    by_cases same : n = m
    · subst same
      rw [State.requests_put, Option.some.injEq] at here
      subst here
      cases phase
      exact Or.inr ⟨v, kept⟩
    · left
      rwa [State.requests_put_of_ne _ _ same] at here
  | store found =>
    left
    have before := phase_put (fun x h => by cases h) here phase
    split at before
    · exact before
    · exact before
  | answer => exact Or.inl here
  | bump => exact Or.inl here
  | retarget => exact Or.inl here
  | expire => exact Or.inl here
  | _ => exact Or.inl (phase_put (fun x h => by cases h) here phase)

variable {P : B → Prop} {allowed : State Q K G T B R E → Event Q K T V → Prop} {t : T}

/-- Every bundle that a view gives has property `P`. -/
def Shows (svc : Service Q K G V B R E) (P : B → Prop) (e : Event Q K T V) : Prop :=
  ∀ f view, e = .answer f view → ∀ q b, svc.fetch q view = .ok b → P b

/-- What a fetch has after a step it had before, or the step answered it. -/
theorem Step.result_origin (step : Step svc s e s') {f : ℕ} {ft : Fetch Q T B E}
    {r : Except E B} (here : s'.fetches f = some ft) (ok : ft.result = some r) :
    s.fetches f = some ft ∨ ∃ view, e = .answer f view ∧ r = svc.fetch ft.leader view := by
  cases step with
  | fetch found looking miss first =>
    rename_i n req v
    left
    by_cases same : f = n
    · subst same
      simp only [State.fetches_put, State.start, Function.update_self, Option.some.injEq] at here
      subst here
      cases ok
    · simp only [State.fetches_put, State.start, Function.update_of_ne same] at here
      exact here
  | answer found unanswered =>
    rename_i g view old
    by_cases same : f = g
    · subst same
      right
      simp only [State.resolve, Function.update_self, Option.some.injEq] at here
      subst here
      exact ⟨view, rfl, (Option.some.inj ok).symm⟩
    · left
      simp only [State.resolve, Function.update_of_ne same] at here
      exact here
  | store found =>
    left
    rw [State.fetches_put] at here
    split at here
    · exact here
    · exact here
  | _ => exact Or.inl here

/-- A fetch has what its leader's request gives on a view that the fetch was
answered with. -/
theorem Run.result_seen (seen : ℕ → V → Prop)
    (sees : ∀ s e, allowed s e → ∀ f view, e = .answer f view → seen f view)
    (run : Run svc allowed t s) {f : ℕ} {ft : Fetch Q T B E} {r : Except E B}
    (here : s.fetches f = some ft) (answered : ft.result = some r) :
    ∃ view, seen f view ∧ r = svc.fetch ft.leader view := by
  induction run with
  | init => cases here
  | step run permitted step ih =>
    rcases step.result_origin here answered with before | ⟨view, rfl, fetched⟩
    · exact ih before
    · exact ⟨view, sees _ _ permitted f view rfl, fetched⟩

theorem Run.bundle_has (shows : ∀ s e, allowed s e → Shows svc P e) (run : Run svc allowed t s)
    {f : ℕ} {ft : Fetch Q T B E} {b : B} (here : s.fetches f = some ft)
    (ok : ft.result = some (.ok b)) : P b := by
  obtain ⟨view, has, fetched⟩ := run.result_seen
    (fun _ view => ∀ q b, svc.fetch q view = .ok b → P b)
    (fun s e ok f view he => shows s e ok f view he) here ok
  exact has _ b fetched.symm

/-- The answer is what a request of that key computed from a bundle with `P`. -/
def Computed (svc : Service Q K G V B R E) (P : B → Prop) (k : K) (r : R) : Prop :=
  ∃ q v b, P b ∧ k = svc.storeKey q v ∧ r = svc.finish q b

theorem Run.entry_computed (shows : ∀ s e, allowed s e → Shows svc P e)
    (run : Run svc allowed t s) {k : K} {x : Entry T R} (kept : s.cache k = some x) :
    Computed svc P k x.value := by
  induction run with
  | init => cases kept
  | step run permitted step ih =>
    rcases step.entry kept with ⟨before, _⟩ |
      ⟨n, req, f, ft, b, v, _, _, _, _, fetched, ok, rfl, rfl, _⟩
    · exact ih before
    · exact ⟨req.query, v, b, run.bundle_has shows fetched ok, rfl, rfl⟩

/-- A hit is what an earlier request of the key looked up computed. -/
theorem Run.hit_computed (shows : ∀ s e, allowed s e → Shows svc P e) (run : Run svc allowed t s)
    {n : ℕ} {req : Request Q T R E} {x : Entry T R} (here : s.requests n = some req)
    (phase : req.phase = .hit x) : ∃ v, Computed svc P (svc.lookupKey req.query v) x.value := by
  induction run with
  | init => cases here
  | step run permitted step ih =>
    rcases step.hit_origin here phase with before | ⟨v, kept⟩
    · exact ih before
    · exact ⟨v, run.entry_computed shows kept⟩

end Entries

section Freshness
variable {svc : Service Q K G V B R E} {s : State Q K G T B R E} {t : T}

/-- The entry was fetched before the last invalidation, or through another
target than the current one. -/
def Stale (s : State Q K G T B R E) (x : Entry T R) : Prop :=
  x.epoch ≠ s.epoch ∨ x.client ≠ s.target

/-- A store of what was fetched through the current target since the last
invalidation. -/
def CleanStore (svc : Service Q K G V B R E) (s : State Q K G T B R E) (e : Event Q K T V) : Prop :=
  ∀ n req f v ft, e = .store n → s.requests n = some req → svc.uses req.query = true →
    req.phase = .has (.storing f) v → s.fetches f = some ft →
    ft.epoch = s.epoch ∧ ft.client = s.target

/-- When every store is clean, the cache holds no stale entry. -/
theorem fresh_of_cleanStores (run : Run svc (CleanStore svc) t s) {k : K} {x : Entry T R}
    (kept : s.cache k = some x) : ¬ Stale s x := by
  induction run with
  | init => cases kept
  | step run clean step ih =>
    rcases step.entry kept with ⟨before, epoch, target⟩ |
      ⟨n, req, f, ft, b, v, he, here, uses, phase, fetched, ok, hk, rfl, epoch, target⟩
    · have old := ih before
      rwa [Stale, ← epoch, ← target] at old
    · have now := clean n req f v ft he here uses phase fetched
      rw [Stale, not_or, not_not, not_not, epoch, target]
      exact now

end Freshness


section Linking
variable {svc : Service Q K G V B R E} {member : ℕ → Q → Prop} {s s' : State Q K G T B R E}
  {e : Event Q K T V} {t : T}

/-- The requests of a batch are members of it. -/
def Joins (member : ℕ → Q → Prop) (e : Event Q K T V) : Prop :=
  ∀ n q b, e = .begin n q (some b) → member b q

omit [DecidableEq K] in
theorem extends_start {n : ℕ} {req : Request Q T R E} {g : G} (free : s.fetches n = none)
    (first : ∀ b, req.batch = some b → s.shares b g = none) : Extends s (s.start n req g) := by
  constructor
  · intro f ft h
    have other : f ≠ n := by
      rintro rfl
      rw [free] at h
      cases h
    exact ⟨ft, by simp [State.start, Function.update_of_ne other, h], rfl, rfl, fun _ hr => hr⟩
  · intro b g' f h
    have other : ¬ (req.batch = some b ∧ g' = g) := by
      rintro ⟨hb, rfl⟩
      rw [first b hb] at h
      cases h
    simp only [State.start, if_neg other]
    exact h

omit [DecidableEq K] [DecidableEq G] in
theorem extends_resolve {f : ℕ} {ft : Fetch Q T B E} (here : s.fetches f = some ft)
    (unanswered : ft.result = none) (r : Except E B) : Extends s (s.resolve f ft r) := by
  refine ⟨?_, fun _ _ _ h => h⟩
  intro f' ft' h
  by_cases same : f' = f
  · subst same
    rw [here, Option.some.injEq] at h
    subst h
    refine ⟨_, Function.update_self _ _ _, rfl, rfl, fun r' hr' => ?_⟩
    rw [unanswered] at hr'
    cases hr'
  · exact ⟨ft', by simp [State.resolve, Function.update_of_ne same, h], rfl, rfl, fun _ hr => hr⟩

omit [DecidableEq K] in
/-- A new fetch is linked to the request in whose name it starts. -/
theorem Linked.fetch (linked : Linked svc member s) {n : ℕ} {req : Request Q T R E}
    (here : s.requests n = some req) (looks : req.phase.Looks)
    (first : ∀ b, req.batch = some b → s.shares b (svc.group req.query) = none) :
    Linked svc member ((s.start n req (svc.group req.query)).put n (req.goto (.waiting n))) := by
  have free := linked.unfetched here looks
  have ext := extends_start free first
  have own : ((s.start n req (svc.group req.query)).put n (req.goto (.waiting n))).fetches n =
      some ⟨req.query, req.client, s.epoch, none⟩ := Function.update_self _ _ _
  have old := linked.requests n req here
  constructor
  · intro m ft h
    by_cases same : m = n
    · subst same
      exact ⟨_, State.requests_put _ _ _, id⟩
    · simp only [State.fetches_put, State.start, Function.update_of_ne same] at h
      obtain ⟨req', here', done⟩ := linked.started m ft h
      exact ⟨req', by rw [State.requests_put_of_ne _ _ same]; exact here', done⟩
  · intro b g f h
    by_cases new : req.batch = some b ∧ g = svc.group req.query
    · simp only [State.put, State.start, if_pos new, Option.some.injEq] at h
      subst h
      exact ⟨_, own, new.2.symm, old.batched b new.1⟩
    · simp only [State.put, State.start, if_neg new] at h
      obtain ⟨ft, hft, hg, hm⟩ := linked.shared b g f h
      obtain ⟨ft', hft', leader, _⟩ := ext.fetches f ft hft
      exact ⟨ft', hft', by rw [leader]; exact hg, by rw [leader]; exact hm⟩
  · intro m req' here'
    by_cases same : m = n
    · subst same
      rw [State.requests_put, Option.some.injEq] at here'
      subst here'
      refine ⟨old.batched, ?_, trivial⟩
      intro f hf
      cases hf
      refine ⟨_, own, ?_⟩
      unfold Leads
      cases hb : req.batch with
      | none => simp [Request.goto, hb]
      | some b =>
        simp only [Request.goto, hb, true_and]
        exact ⟨old.batched b hb, if_pos ⟨hb, rfl⟩⟩
    · rw [State.requests_put_of_ne _ _ same] at here'
      have kept := (linked.requests m req' here').extend ext
      exact kept.extend (Extends.of_eq rfl rfl)

omit [DecidableEq K] [DecidableEq G] in
theorem Linked.resolve (linked : Linked svc member s) {f : ℕ} {ft : Fetch Q T B E}
    (here : s.fetches f = some ft) (unanswered : ft.result = none) (r : Except E B) :
    Linked svc member (s.resolve f ft r) := by
  have ext := extends_resolve here unanswered r
  constructor
  · intro n ft' h
    by_cases same : n = f
    · subst same
      exact linked.started n ft here
    · simp only [State.resolve, Function.update_of_ne same] at h
      exact linked.started n ft' h
  · intro b g f' h
    obtain ⟨ft', hft', hg, hm⟩ := linked.shared b g f' h
    obtain ⟨ft'', hft'', leader, _⟩ := ext.fetches f' ft' hft'
    exact ⟨ft'', hft'', by rw [leader]; exact hg, by rw [leader]; exact hm⟩
  · intro n req h
    exact (linked.requests n req h).extend ext

theorem Linked.step (linked : Linked svc member s) (joins : Joins member e)
    (step : Step svc s e s') : Linked svc member s' := by
  cases step with
  | begin free =>
    rename_i n q batch
    refine linked.put ⟨?_, fun f hf => (by cases hf), trivial⟩ ?_
    · intro b hb
      subst hb
      exact joins n q b rfl
    · intro _
      cases h : s.fetches n with
      | none => rfl
      | some ft =>
        obtain ⟨req, here, _⟩ := linked.started n ft h
        rw [free] at here
        cases here
  | readVersion here phase known =>
    exact linked.restage here (Or.inl phase) (Or.inr ⟨_, rfl⟩)
  | askVersion here phase unknown =>
    exact linked.restage here (Or.inl phase) (Or.inl ⟨_, rfl⟩)
  | takeVersion here phase =>
    rename_i n req stage v
    have same : Linked svc member { s with version := some v } := linked.congr rfl rfl rfl
    exact same.restage here (Or.inr ⟨_, phase⟩) (Or.inr ⟨_, rfl⟩)
  | hit here phase uses found =>
    have old := linked.requests _ _ here
    exact linked.put ⟨old.batched, fun f hf => (by cases hf), trivial⟩ (fun h => h.elim)
  | join here phase miss batch shared =>
    rename_i n req v b f
    have old := linked.requests _ _ here
    obtain ⟨ft, hft, hg, hm⟩ := linked.shared _ _ _ shared
    refine linked.put ⟨old.batched, ?_, trivial⟩ (fun h => h.elim)
    intro f' hf'
    cases hf'
    refine ⟨ft, hft, ?_⟩
    unfold Leads
    simp only [Request.goto, batch]
    exact ⟨hg, hm, shared⟩
  | fetch here phase miss first =>
    exact linked.fetch here (by rw [phase]; trivial) first
  | answer here unanswered => exact linked.resolve here unanswered _
  | receive here phase fetched ok =>
    have old := linked.requests _ _ here
    refine linked.put (old.sameStage ?_ trivial) (fun h => h.elim)
    rw [phase]
    rfl
  | fail here phase fetched error =>
    have old := linked.requests _ _ here
    refine linked.put (old.sameStage ?_ ⟨_, fetched, error⟩) (fun h => h.elim)
    rw [phase]
    rfl
  | store here phase fetched ok =>
    rename_i n req f ft b v
    have old := linked.requests _ _ here
    have kept : Linked svc member (if svc.uses req.query then
        s.keep (svc.storeKey req.query v)
          ⟨svc.finish req.query b, ft.client, ft.epoch⟩ else s) := by
      split
      · exact linked.congr rfl rfl rfl
      · exact linked
    have fetches : (if svc.uses req.query then
        s.keep (svc.storeKey req.query v) ⟨svc.finish req.query b, ft.client, ft.epoch⟩
          else s).fetches = s.fetches := by split <;> rfl
    have shares : (if svc.uses req.query then
        s.keep (svc.storeKey req.query v) ⟨svc.finish req.query b, ft.client, ft.epoch⟩
          else s).shares = s.shares := by split <;> rfl
    refine kept.put (RequestOk.sameStage (old.extend (Extends.of_eq fetches shares)) ?_ ?_)
      (fun h => h.elim)
    · rw [phase]
      rfl
    · exact ⟨ft, b, by rw [fetches]; exact fetched, ok, rfl⟩
  | bump => exact linked.congr rfl rfl rfl
  | retarget => exact linked.congr rfl rfl rfl
  | expire => exact linked.congr rfl rfl rfl

theorem Run.linked {allowed : State Q K G T B R E → Event Q K T V → Prop}
    (joins : ∀ s e, allowed s e → Joins member e) (run : Run svc allowed t s) :
    Linked svc member s := by
  induction run with
  | init =>
    exact ⟨fun _ _ h => (by cases h), fun _ _ _ h => (by cases h), fun _ _ h => (by cases h)⟩
  | step run ok step ih => exact ih.step (joins _ _ ok) step

omit [DecidableEq K] [DecidableEq G] in
/-- All requests of one batch and one group that computed their answer did so
from one bundle, fetched by one client. -/
theorem Linked.one_bundle (linked : Linked svc member s) {b : ℕ} {g : G} :
    ∃ ft : Option (Fetch Q T B E), ∀ n req, s.requests n = some req → req.batch = some b →
      svc.group req.query = g → (∀ f r, req.phase = .computed f r → ∃ ft' bundle, ft = some ft' ∧
        ft'.result = some (.ok bundle) ∧ r = svc.finish req.query bundle) ∧
      ∀ f e, req.phase = .failed f e → ∃ ft', ft = some ft' ∧ ft'.result = some (.error e) := by
  refine ⟨(s.shares b g).bind s.fetches, ?_⟩
  intro n req here batch group
  have ok := linked.requests n req here
  have shared : ∀ f, req.phase.fetchOf = some f → s.shares b g = some f := by
    intro f hf
    obtain ⟨ft, _, leads⟩ := ok.fetched f hf
    unfold Leads at leads
    rw [batch] at leads
    rw [← group]
    exact leads.2.2
  have answered := ok.answered
  unfold Answered at answered
  constructor
  · intro f r phase
    rw [phase] at answered shared
    obtain ⟨ft, bundle, hft, hr, heq⟩ := answered
    exact ⟨ft, bundle, by rw [shared f rfl]; exact hft, hr, heq⟩
  · intro f e phase
    rw [phase] at answered shared
    obtain ⟨ft, hft, hr⟩ := answered
    exact ⟨ft, by rw [shared f rfl]; exact hft, hr⟩

end Linking

section Soundness
variable {svc : Service Q K G V B R E} {member : ℕ → Q → Prop} {s s' : State Q K G T B R E}
  {e : Event Q K T V} {t : T} {view : V}

/-- What a request computes on a view of the data when nothing is cached. -/
def Service.fresh (svc : Service Q K G V B R E) (view : V) (q : Q) : Except E R :=
  (svc.fetch q view).map (svc.finish q)

/-- Whatever is looked up under the key of a stored answer would compute that
answer. -/
def Neutral (svc : Service Q K G V B R E) (view : V) (q : Q) : Prop :=
  ∀ v q' v', svc.lookupKey q' v' = svc.storeKey q v → svc.fresh view q' = svc.fresh view q

/-- The steps of a run over unchanging data: fetches see one view, batches are
coherent, and a stored answer is neutral. -/
def Steady (svc : Service Q K G V B R E) (member : ℕ → Q → Prop) (view : V)
    (s : State Q K G T B R E) (e : Event Q K T V) : Prop :=
  (∀ f seen, e = .answer f seen → seen = view) ∧ Joins member e ∧
    ∀ n req, e = .store n → s.requests n = some req → svc.uses req.query = true →
      Neutral svc view req.query

/-- The answer of a request that has one. -/
def Phase.answer : Phase T R E → Option (Except E R)
  | .hit e => some (.ok e.value)
  | .computed _ r => some (.ok r)
  | .failed _ e => some (.error e)
  | _ => none

structure Sound (svc : Service Q K G V B R E) (view : V) (s : State Q K G T B R E) : Prop where
  fetches : ∀ f ft r, s.fetches f = some ft → ft.result = some r → r = svc.fetch ft.leader view
  cache : ∀ k x, s.cache k = some x → ∀ q v, svc.lookupKey q v = k →
    svc.fresh view q = .ok x.value
  hits : ∀ n req x, s.requests n = some req → req.phase = .hit x →
    svc.fresh view req.query = .ok x.value

omit [DecidableEq K] [DecidableEq G] in
theorem fetch_of_leads (coherent : ∀ b q q', member b q → member b q' →
      svc.group q = svc.group q' → svc.fetch q view = svc.fetch q' view)
    {req : Request Q T R E} {f : ℕ} {ft : Fetch Q T B E} (batched : ∀ b, req.batch = some b →
      member b req.query) (leads : Leads svc member s req f ft) :
    svc.fetch ft.leader view = svc.fetch req.query view := by
  unfold Leads at leads
  cases hb : req.batch with
  | none =>
    rw [hb] at leads
    rw [leads]
  | some b =>
    rw [hb] at leads
    exact coherent b _ _ leads.2.1 (batched b hb) leads.1

omit [DecidableEq K] [DecidableEq G] in
/-- A request that moves on without a hit keeps the answers sound. -/
theorem Sound.put (sound : Sound svc view s) {n : ℕ} {req : Request Q T R E}
    (hit : ∀ x, req.phase = .hit x → svc.fresh view req.query = .ok x.value) :
    Sound svc view (s.put n req) := by
  refine ⟨sound.fetches, sound.cache, ?_⟩
  intro m req' x here phase
  by_cases same : m = n
  · subst same
    rw [State.requests_put, Option.some.injEq] at here
    subst here
    exact hit x phase
  · rw [State.requests_put_of_ne _ _ same] at here
    exact sound.hits m req' x here phase

theorem Sound.step (sound : Sound svc view s) (linked : Linked svc member s)
    (coherent : ∀ b q q', member b q → member b q' →
      svc.group q = svc.group q' → svc.fetch q view = svc.fetch q' view)
    (steady : Steady svc member view s e) (step : Step svc s e s') : Sound svc view s' := by
  cases step with
  | begin free => exact sound.put (fun x h => by cases h)
  | readVersion here phase known => exact sound.put (fun x h => by cases h)
  | askVersion here phase unknown => exact sound.put (fun x h => by cases h)
  | takeVersion here phase =>
    rename_i n req stage v
    have same : Sound svc view { s with version := some v } :=
      ⟨sound.fetches, sound.cache, sound.hits⟩
    exact same.put (fun x h => by cases h)
  | hit here phase uses found =>
    apply sound.put
    intro x h
    cases h
    exact sound.cache _ _ found _ _ rfl
  | join here phase miss batch shared => exact sound.put (fun x h => by cases h)
  | fetch here phase miss first =>
    rename_i n req v
    have started : Sound svc view (s.start n req (svc.group req.query)) := by
      refine ⟨?_, sound.cache, sound.hits⟩
      intro f ft r hft hr
      by_cases same : f = n
      · subst same
        simp only [State.start, Function.update_self, Option.some.injEq] at hft
        subst hft
        cases hr
      · simp only [State.start, Function.update_of_ne same] at hft
        exact sound.fetches f ft r hft hr
    exact started.put (fun x h => by cases h)
  | answer here unanswered =>
    rename_i f seen ft
    refine ⟨?_, sound.cache, sound.hits⟩
    intro f' ft' r hft hr
    by_cases same : f' = f
    · subst same
      simp only [State.resolve, Function.update_self, Option.some.injEq] at hft
      subst hft
      cases hr
      rw [steady.1 f' seen rfl]
    · simp only [State.resolve, Function.update_of_ne same] at hft
      exact sound.fetches f' ft' r hft hr
  | receive here phase fetched ok => exact sound.put (fun x h => by cases h)
  | fail here phase fetched error => exact sound.put (fun x h => by cases h)
  | store here phase fetched ok =>
    rename_i n req f ft b v
    have old := linked.requests n req here
    have computed : svc.fresh view req.query = .ok (svc.finish req.query b) := by
      obtain ⟨ft', hft', leads⟩ := old.fetched f (by rw [phase]; rfl)
      rw [fetched, Option.some.injEq] at hft'
      subst hft'
      rw [Service.fresh, ← fetch_of_leads coherent old.batched leads,
        ← sound.fetches f ft _ fetched ok]
      rfl
    have kept : Sound svc view (if svc.uses req.query then
        s.keep (svc.storeKey req.query v)
          ⟨svc.finish req.query b, ft.client, ft.epoch⟩ else s) := by
      split
      · rename_i uses
        refine ⟨sound.fetches, ?_, sound.hits⟩
        intro k x hx q v' hk
        by_cases same : k = svc.storeKey req.query v
        · subst same
          simp only [State.keep, Function.update_self, Option.some.injEq] at hx
          subst hx
          rw [steady.2.2 n req rfl here uses v q v' hk, computed]
        · simp only [State.keep, Function.update_of_ne same] at hx
          exact sound.cache k x hx q v' hk
      · exact sound
    exact kept.put (fun x h => by cases h)
  | bump => exact ⟨sound.fetches, fun k x h => (by cases h), sound.hits⟩
  | retarget => exact ⟨sound.fetches, fun k x h => (by cases h), sound.hits⟩
  | expire =>
    rename_i k
    refine ⟨sound.fetches, ?_, sound.hits⟩
    intro k' x hx
    by_cases same : k' = k
    · simp only [if_pos same] at hx
      cases hx
    · simp only [if_neg same] at hx
      exact sound.cache k' x hx

/-- Over unchanging data, a request is answered as if nothing were cached. -/
theorem answer_eq_fresh (coherent : ∀ b q q', member b q → member b q' →
      svc.group q = svc.group q' → svc.fetch q view = svc.fetch q' view)
    (run : Run svc (Steady svc member view) t s) {n : ℕ} {req : Request Q T R E}
    {r : Except E R} (here : s.requests n = some req) (answered : req.phase.answer = some r) :
    r = svc.fresh view req.query := by
  have linked : Linked svc member s := run.linked (fun _ _ ok => ok.2.1)
  have sound : Sound svc view s := by
    clear here
    induction run with
    | init =>
      exact ⟨fun _ _ _ h => (by cases h), fun _ _ h => (by cases h), fun _ _ _ h => (by cases h)⟩
    | step run ok step ih =>
      have before : Linked svc member _ := run.linked (fun _ _ ok => ok.2.1)
      exact (ih before).step before coherent ok step
  have ok := linked.requests n req here
  have done := ok.answered
  unfold Answered at done
  cases phase : req.phase with
  | hit x =>
    rw [phase] at answered
    cases answered
    exact (sound.hits n req x here phase).symm
  | computed f r' =>
    rw [phase] at answered done
    cases answered
    obtain ⟨ft, b, hft, hr, rfl⟩ := done
    obtain ⟨ft', hft', leads⟩ := ok.fetched f (by rw [phase]; rfl)
    rw [hft, Option.some.injEq] at hft'
    subst hft'
    rw [Service.fresh, ← fetch_of_leads coherent ok.batched leads, ← sound.fetches f ft _ hft hr]
    rfl
  | failed f e =>
    rw [phase] at answered done
    cases answered
    obtain ⟨ft, hft, hr⟩ := done
    obtain ⟨ft', hft', leads⟩ := ok.fetched f (by rw [phase]; rfl)
    rw [hft, Option.some.injEq] at hft'
    subst hft'
    rw [Service.fresh, ← fetch_of_leads coherent ok.batched leads, ← sound.fetches f ft _ hft hr]
    rfl
  | needs stage => rw [phase] at answered; cases answered
  | asked stage v => rw [phase] at answered; cases answered
  | has stage v => rw [phase] at answered; cases answered
  | waiting f => rw [phase] at answered; cases answered

end Soundness

end Steps

end SharedCache
