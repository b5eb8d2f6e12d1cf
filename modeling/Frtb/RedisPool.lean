import Mathlib.Data.List.Infix
import Mathlib.Logic.Function.Basic
import Frtb.RedisTarget

/-!
# The pools of Redis clients

Each category of work has a pool of slots. A slot is built on its first acquisition,
rebuilt when the target or its circuit asks for it, and emptied by a target switch. A
member of a pool is an object that others keep hold of: a suspended acquisition, the
listeners of its clients, its probe timer. So members and clients stay in the order they
were made, and a pool lists the members in its slots.
-/

namespace RedisPool

open RedisTarget

inductive Category
  | heavyCalc
  | heavyIngest
  | light
  deriving DecidableEq, Repr

def allPools : List Category := [.heavyCalc, .heavyIngest, .light]

inductive CircuitState
  | closed
  | open
  | halfOpen
  deriving DecidableEq, Repr

/-- A client that has been built: the slot and the target it was built for. -/
structure Client where
  member : ℕ
  target : ActiveTarget
  creds : ActiveTargetCreds
  key : TargetKey
  /-- A wrapper of it has been handed out. -/
  wrapped : Bool
  disconnected : Bool
  deriving DecidableEq, Repr

structure PoolMember where
  category : Category
  index : ℕ
  /-- The client in the slot, with its wrapper. -/
  client : Option ℕ
  key : Option TargetKey
  generation : ℕ
  consecutiveFailures : ℕ
  circuitState : CircuitState
  openedAt : ℕ
  currentBackoffMs : ℕ
  probeTimer : Bool
  deriving DecidableEq, Repr

/-- `acquireFromPool` at its await: the target it found active, the slot it chose and the
client it has built. -/
structure Acquisition where
  target : ActiveTarget
  key : TargetKey
  member : ℕ
  client : ℕ
  deriving DecidableEq, Repr

structure State where
  target : TargetState
  members : List PoolMember
  slots : Category → List ℕ
  rrIndex : Category → ℕ
  clients : List Client
  drainingClients : List ℕ
  acquisitions : List Acquisition
  /-- The clients of the commands that have not settled. -/
  commands : List ℕ

def State.initial : State where
  target := .initial
  members := []
  slots _ := []
  rrIndex _ := 0
  clients := []
  drainingClients := []
  acquisitions := []
  commands := []

/-- What the module reads from the environment. -/
structure Env where
  redisUrl : Option ActiveTarget
  failureThreshold : ℕ
  halfOpenInitialBackoffMs : ℕ
  halfOpenBackoffCapMs : ℕ

structure CommandError where
  code : Option String
  message : String
  deriving DecidableEq, Repr

def includes (text pattern : String) : Bool := decide (pattern.toList <:+: text.toList)

def shouldRecycle (err : CommandError) : Bool :=
  err.code = some "ETIMEDOUT" || err.code = some "ECONNRESET" || err.code = some "EPIPE" ||
    includes err.message "Command timed out" || includes err.message "Stream isn't writeable"

def isFatalErrorPattern (err : CommandError) : Bool :=
  includes err.message "Command timed out" || includes err.message "Stream isn't writeable" ||
    includes err.message "Stream isnt writeable" || includes err.message "pool-command-fail-fast"

def unconfiguredActiveTarget : ActiveTarget := ⟨"", 0, false, 0, "", false⟩

def getActiveTarget (env : Env) (target : TargetState) : ActiveTarget :=
  (target.override.or env.redisUrl).getD unconfiguredActiveTarget

def newMember (category : Category) (index : ℕ) : PoolMember where
  category := category
  index := index
  client := none
  key := none
  generation := 0
  consecutiveFailures := 0
  circuitState := .closed
  openedAt := 0
  currentBackoffMs := 0
  probeTimer := false

def transitionCircuit (env : Env) (now : ℕ) (next : CircuitState) (m : PoolMember) : PoolMember :=
  if m.circuitState = next then m
  else match next with
    | .open =>
      let backoff :=
        if m.circuitState = .halfOpen ∧ 0 < m.currentBackoffMs then
          min (m.currentBackoffMs * 2) env.halfOpenBackoffCapMs
        else env.halfOpenInitialBackoffMs
      { m with
        circuitState := .open, openedAt := now, currentBackoffMs := backoff
        probeTimer := decide (0 < backoff) }
    | .closed =>
      { m with circuitState := .closed, openedAt := 0, currentBackoffMs := 0, probeTimer := false }
    | .halfOpen => { m with circuitState := .halfOpen, probeTimer := false }

def countFailure (env : Env) (now : ℕ) (fatal : Bool) (m : PoolMember) : PoolMember :=
  let m := { m with consecutiveFailures := m.consecutiveFailures + 1 }
  if m.circuitState = .halfOpen || fatal || env.failureThreshold ≤ m.consecutiveFailures then
    transitionCircuit env now .open m
  else m

def countSuccess (env : Env) (now : ℕ) (m : PoolMember) : PoolMember :=
  let m := if m.circuitState = .halfOpen then transitionCircuit env now .closed m else m
  { m with consecutiveFailures := 0 }

/-- The slot is emptied: `client`, `wrapper` and `key`. -/
def blank (m : PoolMember) : PoolMember := { m with client := none, key := none }

/-- `generation` is bumped with each client that is built for the slot. -/
def countBuild (m : PoolMember) : PoolMember := { m with generation := m.generation + 1 }

def cancelScheduledProbe (m : PoolMember) : PoolMember := { m with probeTimer := false }

/-- What a target switch does to a member of a pool. -/
def resetForSwap (m : PoolMember) : PoolMember :=
  { blank m with
    circuitState := .closed, consecutiveFailures := 0, openedAt := 0, currentBackoffMs := 0
    probeTimer := false }

namespace State

def edit (s : State) (m : ℕ) (f : PoolMember → PoolMember) : State :=
  { s with members := s.members.modify m f }

def clientOf (s : State) (m : ℕ) : Option ℕ := s.members[m]?.bind PoolMember.client

def disconnect (s : State) (c : ℕ) : State :=
  { s with clients := s.clients.modify c fun client => { client with disconnected := true } }

/-- `if (member.client) member.client.disconnect()`, which leaves the slot as it is. -/
def disconnectSlot (s : State) (m : ℕ) : State :=
  match s.clientOf m with
  | some c => s.disconnect c
  | none => s

def recyclePoolMember (s : State) (m c : ℕ) : State :=
  if s.clientOf m = some c then (s.edit m blank).disconnect c else s

/-- Count a failure against the member, and tear its client down if it is this one. -/
def noteFailure (s : State) (env : Env) (now m c : ℕ) (err : CommandError) : State :=
  (s.edit m (countFailure env now (isFatalErrorPattern err))).recyclePoolMember m c

def noteSuccess (s : State) (env : Env) (now m : ℕ) : State := s.edit m (countSuccess env now)

/-- A client of the slot for the target `t`. -/
def build (s : State) (m : ℕ) (t : ActiveTarget) (wrapped : Bool) : State :=
  { s with
    clients := s.clients ++
      [⟨m, t, s.target.overrideCreds, s.target.targetKey t, wrapped, false⟩] }

/-- The client becomes the one in the slot. -/
def publish (s : State) (m c : ℕ) (key : TargetKey) : State :=
  s.edit m fun member => { member with client := some c, key := some key }

/-- Drop the members beyond the size, or add empty slots up to it. -/
def ensurePoolSized (s : State) (category : Category) (size : ℕ) : State :=
  let slots := s.slots category
  if slots.length ≤ size then
    let more := (List.range (size - slots.length)).map fun i =>
      newMember category (slots.length + i)
    { s with
      members := s.members ++ more
      slots := Function.update s.slots category
        (slots ++ (List.range (size - slots.length)).map (s.members.length + ·)) }
  else
    let s := (slots.drop size).foldl disconnectSlot s
    { s with
      slots := Function.update s.slots category (slots.take size)
      rrIndex := Function.update s.rrIndex category
        (if size ≤ s.rrIndex category then 0 else s.rrIndex category) }

/-- The first slot from the round-robin index on whose circuit is not open. -/
def chooseSlot (s : State) (category : Category) : Option ℕ :=
  let slots := s.slots category
  ((List.range slots.length).map fun step => (s.rrIndex category + step) % slots.length).find?
    fun i => (slots[i]?.bind fun m => s.members[m]?).any fun member => member.circuitState ≠ .open

/-- The slot whose circuit opened the longest ago. -/
def oldestSlot (s : State) (category : Category) : ℕ :=
  let slots := s.slots category
  let openedAt := fun i => (slots[i]?.bind fun m => s.members[m]?).elim 0 PoolMember.openedAt
  (List.range slots.length).foldl (fun best i => if openedAt i < openedAt best then i else best) 0

/-- `promoteOldestToHalfOpen` on the member it has found; a probe starts the same way. -/
def promoteToHalfOpen (s : State) (env : Env) (now m : ℕ) : State :=
  ((s.edit m (transitionCircuit env now .halfOpen)).disconnectSlot m).edit m blank

/-- The next acquisition starts at the slot after this one. -/
def turn (s : State) (category : Category) (chosenIdx : ℕ) : State :=
  { s with
    rrIndex := Function.update s.rrIndex category ((chosenIdx + 1) % (s.slots category).length) }

/-- Build a client for the slot and wait for it to be ready. -/
def startAcquisition (s : State) (env : Env) (m : ℕ) : State :=
  let t := getActiveTarget env s.target
  { s.build m t false with
    acquisitions := s.acquisitions ++ [⟨t, s.target.targetKey t, m, s.clients.length⟩] }

/-- The rest of `acquireFromPool` for the slot it has chosen: the wrapper in it, or a
client of its own to wait for. -/
def useSlot (s : State) (env : Env) (m : ℕ) : State × Option ℕ :=
  match s.members[m]? with
  | none => (s, none)
  | some member =>
    if member.client.isSome &&
        member.key = some (s.target.targetKey (getActiveTarget env s.target)) then
      (s, member.client)
    else (((s.disconnectSlot m).edit m countBuild).startAcquisition env m, none)

/-- `acquireFromPool`, up to its await. -/
def acquireFromPool (s : State) (env : Env) (now : ℕ) (category : Category) (size : ℕ) :
    State × Option ℕ :=
  if (getActiveTarget env s.target).label = "" then (s, none)
  else
    let s := s.ensurePoolSized category size
    let chosenIdx := (s.chooseSlot category).getD (s.oldestSlot category)
    match (s.slots category)[chosenIdx]? with
    | none => (s, none)
    | some m =>
      let s := if (s.chooseSlot category).isNone then s.promoteToHalfOpen env now m else s
      (s.turn category chosenIdx).useSlot env m

/-- `awaitMemberReady` has settled for an acquisition. -/
def memberReady (s : State) (a : Acquisition) (ok : Bool) : State × Option ℕ :=
  if ok then
    let s := s.publish a.member a.client a.key
    ({ s with clients := s.clients.modify a.client fun c => { c with wrapped := true } },
      some a.client)
  else ((s.disconnect a.client).edit a.member blank, none)

/-- Hand the client of a slot over to the drain set. -/
def detach (s : State) (m : ℕ) : State :=
  match s.clientOf m with
  | some old =>
    { s.edit m resetForSwap with drainingClients := s.drainingClients.insert old }
  | none => s.edit m resetForSwap

def detachPoolMembersForSwap (s : State) : State :=
  (allPools.flatMap s.slots).foldl detach s

def commitActiveTargetSync (s : State) (t : ActiveTarget) (creds : Option ActiveTargetCreds) :
    State :=
  { s with target := s.target.commit t creds }.detachPoolMembersForSwap

/-- The probe timer of a member fires. The probe's `ping` is a command like others. -/
def runHalfOpenProbe (s : State) (env : Env) (now m : ℕ) : State :=
  match s.members[m]? with
  | none => s
  | some member =>
    if member.circuitState ≠ .open then s
    else
      let s := s.promoteToHalfOpen env now m
      let t := getActiveTarget env s.target
      let c := s.clients.length
      let s := (s.build m t true).publish m c (s.target.targetKey t)
      { s.edit m countBuild with commands := s.commands ++ [c] }

end State

inductive CommandOutcome
  | success
  | rejected (err : CommandError)
  deriving DecidableEq, Repr

def categoryName : Category → String
  | .heavyCalc => "heavy-calc"
  | .heavyIngest => "heavy-ingest"
  | .light => "light"

def memberId (member : PoolMember) : String :=
  categoryName member.category ++ ":" ++ toString member.index

/-- The error a command is rejected with when its budget runs out. -/
def failFastError (member : PoolMember) (timeoutMs : ℕ) (method : String) : CommandError where
  code := none
  message := "pool-command-fail-fast: Command timed out after " ++ toString timeoutMs ++
    "ms (category=" ++ categoryName member.category ++ " member=" ++ memberId
      member ++ " method=" ++
    method ++ ")"

/-- What happens to the pools, at a time: calls of the module, and timers, promises and
sockets that call back. Suspended acquisitions and commands are named by their place. -/
inductive Event
  | acquire (category : Category) (size : ℕ)
  | memberReady (i : ℕ) (ok : Bool)
  | commitActiveTargetSync (t : ActiveTarget) (creds : Option ActiveTargetCreds)
  | drainGrace (c : ℕ)
  | command (c : ℕ)
  | settle (i : ℕ) (outcome : CommandOutcome)
  | failFast (i timeoutMs : ℕ) (method : String)
  | socketError (c : ℕ) (err : CommandError)
  | probe (m : ℕ)

def settleCommand (env : Env) (now : ℕ) (s : State) (m c : ℕ) : CommandOutcome → State
  | .success => s.noteSuccess env now m
  | .rejected err => if shouldRecycle err then s.noteFailure env now m c err else s

/-- One event, with the client whose wrapper an acquisition returns at it. -/
def stepWith (env : Env) (s : State) : ℕ × Event → Option (State × Option ℕ)
  | (now, .acquire category size) => some (s.acquireFromPool env now category size)
  | (_, .memberReady i ok) => do
    let a ← s.acquisitions[i]?
    some ({ s with acquisitions := s.acquisitions.eraseIdx i }.memberReady a ok)
  | (_, .commitActiveTargetSync t creds) => some (s.commitActiveTargetSync t creds, none)
  | (_, .drainGrace c) =>
    if c ∈ s.drainingClients then
      some ({ s with drainingClients := s.drainingClients.erase c }.disconnect c, none)
    else none
  | (_, .command c) => do
    let client ← s.clients[c]?
    if client.wrapped then some ({ s with commands := s.commands ++ [c] }, none) else none
  | (now, .settle i outcome) => do
    let c ← s.commands[i]?
    let client ← s.clients[c]?
    some (settleCommand env now
      { s with commands := s.commands.eraseIdx i } client.member c outcome,
      none)
  | (now, .failFast i timeoutMs method) => do
    let c ← s.commands[i]?
    let client ← s.clients[c]?
    let member ← s.members[client.member]?
    some ({ s with commands := s.commands.eraseIdx i }.noteFailure env now client.member c
      (failFastError member timeoutMs method), none)
  | (now, .socketError c err) => do
    let client ← s.clients[c]?
    some (if shouldRecycle err then s.noteFailure env now client.member c err else s, none)
  | (now, .probe m) => do
    let member ← s.members[m]?
    if member.probeTimer then
      some ((s.edit m cancelScheduledProbe).runHalfOpenProbe env now m, none)
    else none

def step (env : Env) (s : State) (e : ℕ × Event) : Option State := (stepWith env s e).map Prod.fst

theorem stepWith_of_step {env : Env} {s t : State} {e : ℕ × Event}
    (admitted : step env s e = some t) :
    ∃ returned, stepWith env s e = some (t, returned) := by
  obtain ⟨⟨u, returned⟩, went, rfl⟩ := Option.map_eq_some_iff.mp admitted
  exact ⟨returned, went⟩

end RedisPool
