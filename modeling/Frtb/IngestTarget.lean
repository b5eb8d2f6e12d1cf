import Frtb.ShardRuntime

/-!
# The active target of the ingest service

`cli.ts` joins three parts: the watcher that polls the api for its active target, the
endpoints the api's switch coordinator pushes to, and the shard runtime they both rebuild.
The continuation of an awaited promise is kept with the promise: who waits for a poll,
and who waits for a body of the runtime.
-/

namespace IngestTarget

open ShardRuntime

structure ActiveTargetFull where
  host : String
  port : ℕ
  tls : Bool
  db : ℕ
  password : Option String
  label : String
  version : ℤ
  deriving DecidableEq, Repr

/-- `COMMIT_RETRY_DELAYS_MS.length`. -/
def commitRetries : ℕ := 3

/-- A commit request in its retry loop. `arrived` counts the targets the api had had active
before the one it had when the request came in. -/
structure Commit where
  switchId : String
  attempt : ℕ
  arrived : ℕ
  deriving DecidableEq, Repr

/-- Who awaits `swapTo`: the poll timer, `start`, or the closure of a commit. -/
inductive Caller
  | timer
  | boot
  | commit (c : Commit)
  deriving DecidableEq, Repr

/-- Who awaits a body of the runtime. -/
inductive Owner
  | swap (caller : Caller)
  | fallback
  | commit (c : Commit)
  | post
  | halt
  | prepare (switchId : String)
  | timedOutPrepare
  deriving DecidableEq, Repr

/-- A fetch in flight, with the target the api has answered. -/
structure Poll where
  caller : Caller
  answer : Option ActiveTargetFull
  deriving DecidableEq, Repr

inductive Reply
  | drained (switchId : String)
  | drainTimedOut (switchId : String)
  | drainFailed
  | mismatch (pendingSwitchId : String)
  | superseded (switchId : String)
  | committed (c : Commit)
  | pushFailed (switchId : String)
  | failed
  deriving DecidableEq, Repr

structure State where
  runtime : Runtime ActiveTargetFull Owner
  currentTarget : Option ActiveTargetFull
  swapping : Bool
  /-- `start` has set the poll timer. -/
  polling : Bool
  /-- `start` waits for its fetch, or for its swap. -/
  starting : Bool
  polls : List Poll
  /-- The commits between two attempts. -/
  sleeping : List Commit
  pendingSwitchId : Option String
  /-- The prepared switch still waits for a commit to be answered. -/
  awaitsCommit : Bool
  /-- The targets the api has had active, the last one now. -/
  reports : List ActiveTargetFull
  /-- What the last successful poll reported. -/
  lastPolled : Option ActiveTargetFull
  deriving DecidableEq

/-- The environment of the process. Without any shard of its own it exits. -/
structure Setup where
  streamShards : ℕ
  shardAssignmentSpec : String
  assigned : parseShardAssignment shardAssignmentSpec (max 1 streamShards) ≠ []

def State.initial (setup : Setup) (active : ActiveTargetFull) : State where
  runtime := createShardRuntime setup.streamShards setup.shardAssignmentSpec
  currentTarget := none
  swapping := false
  polling := false
  starting := false
  polls := []
  sleeping := []
  pendingSwitchId := none
  awaitsCommit := false
  reports := [active]
  lastPolled := none

namespace State

/-- `pollOnce` is called. -/
def fetchTarget (s : State) (caller : Caller) : State :=
  { s with polls := s.polls ++ [⟨caller, none⟩] }

def committed (s : State) (c : Commit) : State × Option Reply :=
  ({ s with pendingSwitchId := none, awaitsCommit := false }, some (.committed c))

/-- The commit has been answered 500. The switch stays prepared. -/
def refused (s : State) (c : Commit) : State :=
  { s with awaitsCommit := s.awaitsCommit && s.pendingSwitchId ≠ some c.switchId }

/-- An attempt has met a rebuild in progress. -/
def retry (s : State) (c : Commit) : State × Option Reply :=
  if c.attempt = commitRetries then (s.refused c, some (.pushFailed c.switchId))
  else ({ s with sleeping := s.sleeping ++ [c] }, none)

def attemptFailed (s : State) (c : Commit) : RebuildError → State × Option Reply
  | .busy => s.retry c
  | _ => (s.refused c, some .failed)

/-- The commit closure after its poll. -/
def resumeConsumer (s : State) (c : Commit) : State × Option Reply :=
  match s.runtime.multi with
  | some _ => s.committed c
  | none =>
    match s.runtime.rebuild none none (.commit c) with
    | .ok r => ({ s with runtime := r }, none)
    | .error err => s.attemptFailed c err

/-- A poll has ended. -/
def polled (s : State) : Caller → State × Option Reply
  | .timer => (s, none)
  | .boot => ({ s with polling := true, starting := false }, none)
  | .commit c => s.resumeConsumer c

/-- A fetch has failed: `start` will try again, `pollOnce` keeps the current client. -/
def fetchFailed (s : State) : Caller → State × Option Reply
  | .boot => ({ s with starting := false }, none)
  | caller => s.polled caller

/-- The target is recorded, and the next spawn opens its clients there. -/
def retarget (s : State) (t : ActiveTargetFull) : State :=
  { s with currentTarget := some t, runtime := { s.runtime with activeTarget := some t } }

/-- The swap onto a target; the error of a rebuild that is refused is logged. -/
def swapTo (s : State) (t : ActiveTargetFull) (caller : Caller) : State × Option Reply :=
  if s.currentTarget.map (·.version) = some t.version then s.polled caller
  else if s.swapping then s.polled caller
  else
    let s := s.retarget t
    match s.runtime.rebuild none none (.swap caller) with
    | .ok r => ({ s with runtime := r, swapping := true }, none)
    | .error _ => s.polled caller

/-- The client of `REDIS_URL`, when `start` has given up on the api. -/
def useFallback (s : State) (t : ActiveTargetFull) : State :=
  let s := s.retarget t
  match s.runtime.rebuild none none .fallback with
  | .ok r => { s with runtime := r, starting := true }
  | .error _ => { s with polling := true }

def prepared (s : State) (switchId : String) : State :=
  { s with pendingSwitchId := some switchId, awaitsCommit := true }

/-- A body of the runtime has settled for its owner. -/
def told (s : State) : Owner × Except RebuildError Unit → State × Option Reply
  | (.swap caller, _) => { s with swapping := false }.polled caller
  | (.fallback, _) => ({ s with polling := true, starting := false }, none)
  | (.commit c, .ok _) => s.committed c
  | (.commit c, .error err) => s.attemptFailed c err
  | (.prepare switchId, .ok _) =>
    (s.prepared switchId, some (.drained switchId))
  | (.prepare _, .error _) => (s, some .drainFailed)
  | (.timedOutPrepare, _) | (.post, _) | (.halt, _) => (s, none)

/-- A body of the runtime has gone on. -/
def bodyGone (s : State) (r : Runtime ActiveTargetFull Owner) :
    Option (Owner × Except RebuildError Unit) → State × Option Reply
  | some told => { s with runtime := r }.told told
  | none => ({ s with runtime := r }, none)

def prepare (s : State) (switchId : String) : State × Option Reply :=
  match s.runtime.multi with
  | none => (s.prepared switchId, some (.drained switchId))
  | some _ => ({ s with runtime := s.runtime.prepare (.prepare switchId) }, none)

/-- Another switch has been prepared. -/
def superseded (s : State) (switchId : String) : Bool :=
  s.pendingSwitchId.any fun pending => pending ≠ switchId

def commit (s : State) (switchId : String) : State × Option Reply :=
  if s.superseded switchId then (s, some (.mismatch (s.pendingSwitchId.getD "")))
  else (s.fetchTarget (.commit ⟨switchId, 0, s.reports.length - 1⟩), none)

def nextAttempt (s : State) (c : Commit) : State × Option Reply :=
  if s.superseded c.switchId then (s, some (.superseded c.switchId))
  else (s.fetchTarget (.commit { c with attempt := c.attempt + 1 }), none)

end State

/-- What happens in the process, and that the api switches its target. Fetches, bodies and
sleeping commits are named by their place. -/
inductive Event
  | apiSwitch (t : ActiveTargetFull)
  | pollTimer
  | start
  | fallback (t : ActiveTargetFull)
  | answer (i : ℕ)
  | arrive (i : ℕ)
  | fetchFails (i : ℕ)
  | prepare (switchId : String)
  | prepareTimeout (i : ℕ)
  | commit (switchId : String)
  | wake (i : ℕ)
  | post (totalShards : ℤ) (assignment : Option String)
  | haltAndFlush
  | settle (i : ℕ) (outcome : Outcome)
  deriving DecidableEq

/-- The runtime when a call of it may be refused. -/
def tryCall (s : State) (result : Except RebuildError (Runtime ActiveTargetFull Owner)) : State :=
  { s with runtime := result.toOption.getD s.runtime }

def stepWith (s : State) : Event → Option (State × Option Reply)
  | .apiSwitch t => some ({ s with reports := s.reports ++ [t] }, none)
  | .pollTimer => if s.polling then some (s.fetchTarget .timer, none) else none
  | .start =>
    if s.polling || s.starting then none
    else some ({ s with starting := true }.fetchTarget .boot, none)
  | .fallback t => if s.polling || s.starting then none else some (s.useFallback t, none)
  | .answer i => do
    let active ← s.reports.getLast?
    let polls := s.polls.modify i fun p => { p with answer := p.answer.or active }
    some ({ s with polls }, none)
  | .arrive i => do
    let p ← s.polls[i]?
    let t ← p.answer
    some ({ s with polls := s.polls.eraseIdx i, lastPolled := some t }.swapTo t p.caller)
  | .fetchFails i => do
    let p ← s.polls[i]?
    some ({ s with polls := s.polls.eraseIdx i }.fetchFailed p.caller)
  | .prepare switchId => some (s.prepare switchId)
  | .prepareTimeout i => do
    let task ← s.runtime.tasks[i]?
    let .prepare switchId := task.owner | none
    let tasks := s.runtime.tasks.modify i fun task => { task with owner := .timedOutPrepare }
    some ({ s with runtime := { s.runtime with tasks } }, some (.drainTimedOut switchId))
  | .commit switchId => some (s.commit switchId)
  | .wake i => do
    let c ← s.sleeping[i]?
    some ({ s with sleeping := s.sleeping.eraseIdx i }.nextAttempt c)
  | .post totalShards assignment =>
    if totalShards < 1 then none
    else some (tryCall s
      (s.runtime.rebuild (some totalShards) (some (assignment.getD "all")) .post),
      none)
  | .haltAndFlush => some (tryCall s (s.runtime.haltAndFlush .halt), none)
  | .settle i outcome => do
    let (r, told) ← s.runtime.settle i outcome
    some (s.bodyGone r told)

def step (s : State) (e : Event) : Option State := (stepWith s e).map Prod.fst

end IngestTarget
