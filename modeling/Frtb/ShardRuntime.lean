import Mathlib
import Frtb.Library.NumberText

/-!
# The shard runtime

`createShardRuntime` owns the live consumer and its shard assignment. A rebuild drains
the old consumer and spawns a new one; halt-and-flush runs a step of its caller in
between; both hold the `rebuilding` flag. The prepare drain and the reset endpoint set the
consumer without it. A body that has been started is kept by the await it is suspended
at; one whose budget ran out goes on as the abandoned promise it was waiting for.
-/

namespace ShardRuntime

open NumberText

/-- `/^(\d+)\s*-\s*(\d+)$/`. -/
def readRange (cs : List Char) : Option (ℕ × ℕ) := do
  let lo := cs.takeWhile Char.isDigit
  let rest := (cs.dropWhile Char.isDigit).dropWhile isTrimmed
  let '-' :: rest := rest | none
  let hi := rest.dropWhile isTrimmed
  if lo.isEmpty || hi.isEmpty || !hi.all Char.isDigit then none
  else some (JsonText.digitsValue lo, JsonText.digitsValue hi)

/-- One entry of an explicit list, when it is the index of a shard. -/
def readIndex (total : ℕ) (piece : String) : Option ℕ :=
  match toNumber piece with
  | some q => if q.den = 1 ∧ 0 ≤ q.num ∧ q.num.toNat < total then some q.num.toNat else none
  | none => none

def parseShardAssignment (spec : String) (total : ℕ) : List ℕ :=
  let s := trim spec.toList
  if s.isEmpty || s.map Char.toLower = "all".toList then List.range total
  else match readRange s with
    | some (a, b) => (List.range total).filter fun i => min a b ≤ i && i ≤ max a b
    | none =>
      let pieces := (s.splitOn ',').map trim
      ((pieces.filter fun piece => !piece.isEmpty).filterMap fun piece =>
        readIndex total (String.ofList piece)).eraseDups

structure ShardConfig where
  totalShards : ℕ
  assignmentSpec : String
  assignment : List ℕ
  deriving DecidableEq, Repr

/-- A consumer that has been spawned; it runs from then until a `stop()` of it resolves. -/
structure MultiConsumer (τ : Type) where
  totalShards : ℕ
  assignment : List ℕ
  target : τ
  running : Bool
  deriving DecidableEq, Repr

/-- Where a started body is suspended. Consumers are named by the order of their spawns. -/
inductive Body (τ : Type)
  | rebuildDrain (m : ℕ) (next : ShardConfig)
  | rebuildSpawn (config : ShardConfig) (target : Option τ)
  | haltDrain (m : ℕ)
  | between
  | haltSpawn (config : ShardConfig) (target : Option τ)
  | prepareDrain (m : ℕ)
  | abandonedStop (m : ℕ)
  | abandonedSpawn (config : ShardConfig) (target : Option τ)
  deriving DecidableEq, Repr

/-- A body with the caller that awaits it. -/
structure Task (τ ω : Type) where
  body : Body τ
  owner : ω
  deriving DecidableEq, Repr

structure Runtime (τ ω : Type) where
  config : ShardConfig
  multi : Option ℕ
  rebuilding : Bool
  /-- What the `spawn` closure finds in `activeClient` and `makeRunnerClient`. -/
  activeTarget : Option τ
  consumers : List (MultiConsumer τ)
  tasks : List (Task τ ω)
  deriving DecidableEq, Repr

inductive RebuildError
  | busy
  | invalidShardSpec
  | timeout
  | failed
  deriving DecidableEq, Repr

/-- How an awaited promise settles, or that its budget runs out first. -/
inductive Outcome
  | ok
  | failed
  | timedOut
  deriving DecidableEq, Repr

variable {τ ω : Type}

def createShardRuntime (totalShards : ℕ) (spec : String) : Runtime τ ω where
  config := ⟨max 1 totalShards, spec, parseShardAssignment spec (max 1 totalShards)⟩
  multi := none
  rebuilding := false
  activeTarget := none
  consumers := []
  tasks := []

namespace Runtime

/-- The consumer `m` has stopped. -/
def stopped (r : Runtime τ ω) (m : ℕ) : Runtime τ ω :=
  { r with consumers := r.consumers.modify m fun c => { c with running := false } }

/-- A spawn has resolved: its consumer has been started. -/
def started (r : Runtime τ ω) (config : ShardConfig) (target : τ) : Runtime τ ω :=
  { r with consumers := r.consumers ++ [⟨config.totalShards, config.assignment, target, true⟩] }

def await (r : Runtime τ ω) (body : Body τ) (owner : ω) : Runtime τ ω :=
  { r with tasks := r.tasks ++ [⟨body, owner⟩] }

/-- The `finally` of `rebuild` and of `haltAndFlush`. -/
def release (r : Runtime τ ω) (timedOut : Bool) : Runtime τ ω :=
  { r with rebuilding := false, multi := if timedOut then none else r.multi }

/-- `rebuild` after the drain: the new assignment is taken over, and a consumer spawned. -/
def spawnNext (r : Runtime τ ω) (next : ShardConfig) (owner : ω) : Runtime τ ω :=
  { r with config := next }.await (.rebuildSpawn next r.activeTarget) owner

/-- The shard configuration a rebuild is asked for. -/
def nextConfig (r : Runtime τ ω) (totalShards : Option ℤ) (assignmentSpec : Option String) :
    Option ShardConfig :=
  let nextTotal := totalShards.getD r.config.totalShards
  if nextTotal < 1 then none
  else
    let nextSpec := assignmentSpec.getD
        (if totalShards.isSome then "all" else r.config.assignmentSpec)
    let nextAssignment := parseShardAssignment nextSpec nextTotal.toNat
    if nextAssignment.isEmpty then none else some ⟨nextTotal.toNat, nextSpec, nextAssignment⟩

/-- `rebuild`, up to its first await. -/
def rebuild (r : Runtime τ ω) (totalShards : Option ℤ)
    (assignmentSpec : Option String) (owner : ω) :
    Except RebuildError (Runtime τ ω) :=
  if r.rebuilding then .error .busy
  else match r.nextConfig totalShards assignmentSpec with
    | none => .error .invalidShardSpec
    | some next =>
      let r := { r with rebuilding := true }
      match r.multi with
      | some m => .ok (r.await (.rebuildDrain m next) owner)
      | none => .ok (r.spawnNext next owner)

/-- `haltAndFlush`, up to its first await. -/
def haltAndFlush (r : Runtime τ ω) (owner : ω) : Except RebuildError (Runtime τ ω) :=
  if r.rebuilding then .error .busy
  else
    let r := { r with rebuilding := true }
    match r.multi with
    | some m => .ok (r.await (.haltDrain m) owner)
    | none => .ok (r.await .between owner)

/-- The drain closure of the prepare endpoint. Without a consumer it is done at once. -/
def prepare (r : Runtime τ ω) (owner : ω) : Runtime τ ω :=
  match r.multi with
  | some m => r.await (.prepareDrain m) owner
  | none => r

/-- `POST /ingest/shards/reset`. -/
def reset (r : Runtime τ ω) : Runtime τ ω := { r with rebuilding := false, multi := none }

/-- What follows when the promise a body waits for settles or its budget runs out: the
runtime then, and what its caller is told if the body has ended. -/
def resume (r : Runtime τ ω) (owner : ω) : Body τ → Outcome →
    Option (Runtime τ ω × Option (ω × Except RebuildError Unit))
  | .rebuildDrain m next, .ok => some ((r.stopped m).spawnNext next owner, none)
  | .rebuildDrain _ next, .failed => some (r.spawnNext next owner, none)
  | .rebuildDrain m _, .timedOut =>
    some ((r.release true).await (.abandonedStop m) owner, some (owner, .error .timeout))
  | .rebuildSpawn config target, .ok | .haltSpawn config target, .ok => do
    let target ← target
    let r := { r.started config target with multi := some r.consumers.length }
    some (r.release false, some (owner, .ok ()))
  | .rebuildSpawn _ _, .failed | .haltSpawn _ _, .failed =>
    some (r.release false, some (owner, .error .failed))
  | .rebuildSpawn config target, .timedOut | .haltSpawn config target, .timedOut =>
    some ((r.release true).await (.abandonedSpawn config target) owner,
      some (owner, .error .timeout))
  | .haltDrain m, .ok => some (({ r.stopped m with multi := none }).await .between owner, none)
  | .haltDrain _, .failed => some (({ r with multi := none }).await .between owner, none)
  | .haltDrain m, .timedOut =>
    some ((r.release true).await (.abandonedStop m) owner, some (owner, .error .timeout))
  | .between, .ok => some (r.await (.haltSpawn r.config r.activeTarget) owner, none)
  | .between, .failed => some (r.release false, some (owner, .error .failed))
  | .prepareDrain m, .ok => some ({ r.stopped m with multi := none }, some (owner, .ok ()))
  | .prepareDrain _, .failed => some (r, some (owner, .error .failed))
  | .abandonedStop m, .ok => some (r.stopped m, none)
  | .abandonedSpawn config target, .ok => do
    let target ← target
    some (r.started config target, none)
  | .abandonedStop _, .failed | .abandonedSpawn _ _, .failed => some (r, none)
  | .between, .timedOut | .prepareDrain _, .timedOut | .abandonedStop _, .timedOut
  | .abandonedSpawn _ _, .timedOut => none

/-- The `i`-th suspended body goes on. -/
def settle (r : Runtime τ ω) (i : ℕ) (outcome : Outcome) :
    Option (Runtime τ ω × Option (ω × Except RebuildError Unit)) := do
  let task ← r.tasks[i]?
  { r with tasks := r.tasks.eraseIdx i }.resume task.owner task.body outcome

end Runtime

end ShardRuntime
