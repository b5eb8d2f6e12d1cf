import Frtb.Library.EventRuns
import Frtb.RedisPool
import Frtb.SourceUpload

/-!
# The watched target of a source ingest

The watcher polls for the active target and replaces its client when the version has
changed. `ingestFile` sends one `XADD` a row through a wrapper that takes the client that
is current at each call, gives up after five seconds, and on a transient error polls and
sends the command once more.
-/

namespace SourceWatcher

open RedisTarget RedisPool SourceUpload StreamRouter

section Watcher

structure ActiveTargetFull extends ActiveTarget where
  password : Option String
  version : ℤ
  deriving DecidableEq, Repr

/-- Where the keys of a target live. -/
abbrev Address := String × ℕ × ℕ

def ActiveTargetFull.address (t : ActiveTargetFull) : Address := (t.host, t.port, t.db)

/-- The client is named by the target it was built for. -/
structure Watcher where
  current : Option ActiveTargetFull
  currentVersion : Option ℤ
  /-- `start` has not resolved yet. -/
  starting : Bool

structure RedisError where
  name : String
  code : Option String
  message : String
  deriving DecidableEq, Repr

def isTransientRedisError (err : RedisError) : Bool :=
  err.name = "MaxRetriesPerRequestError" ||
    (err.code.getD "") ∈ ["ETIMEDOUT", "ECONNREFUSED", "ECONNRESET", "ENOTFOUND", "EPIPE"] ||
    ["timed out", "timeout", "max retries", "connection is closed", "stream isn't writeable"].any
      fun part => includes (String.ofList (err.message.toList.map Char.toLower)) part

/-- What `withTimeout` rejects with after its five seconds. -/
def timeoutError (label : String) : RedisError where
  name := "Error"
  code := none
  message := "redis " ++ label ++ " timed out after 5000ms"

/-- What `getRedis` throws when there is no client. -/
def notStartedError : RedisError where
  name := "Error"
  code := none
  message := "active-target watcher: getRedis() called before start() resolved"

example : isTransientRedisError (timeoutError "XADD") = true ∧
    isTransientRedisError notStartedError = false := by decide +kernel

inductive PollStage
  /-- Waits for the api's answer. -/
  | fetching
  /-- Waits for the ping of the client built for the target. -/
  | pinging (t : ActiveTargetFull)

structure Poll where
  stage : PollStage
  /-- The wrapper has forced it and waits for it. -/
  forced : Bool

/-- `swapTo` up to its ping: nothing to do at the version there is. -/
def Watcher.swapTo (w : Watcher) (t : ActiveTargetFull) : Option PollStage :=
  if w.currentVersion = some t.version then none else some (.pinging t)

/-- `swapTo` after its ping. A client that does not answer is discarded. -/
def Watcher.swapped (w : Watcher) (t : ActiveTargetFull) (reachable : Bool) : Watcher :=
  if reachable then { w with current := some t, currentVersion := some t.version } else w

end Watcher

section Ingest

abbrev Message := String × List (String × String)

/-- The arguments of `ingestFile`, with the rows that the file reads as, and the target of
`REDIS_URL`. -/
structure Job where
  shards : StreamShards
  mapping : ColumnMapping
  rows : List SourceRow
  fallbackUrl : Option ActiveTargetFull

/-- The entry of each row, unless the router throws. -/
def Job.messages (job : Job) : Option (List Message) :=
  SourceUpload.ingestFile job.shards job.mapping job.rows

/-- Where a run of `ingestFile` is, with the rows it has counted. -/
inductive Phase
  | idle
  | reading
  | sending (n : ℕ)
  | first (n attempt : ℕ)
  | repolling (n : ℕ)
  | retrying (n : ℕ)
  | second (n attempt : ℕ)
  | resolved (n : ℕ)
  | failed
  deriving DecidableEq

/-- An `XADD` handed to a client. -/
structure Attempt where
  message : Message
  target : ActiveTargetFull
  /-- The server has applied it. -/
  applied : Bool

structure State where
  watcher : Watcher
  polls : List Poll
  phase : Phase
  /-- The target that was current when the run started. -/
  start : Option ActiveTargetFull
  attempts : List Attempt
  /-- Every entry the servers have appended for the run. -/
  streams : List (Address × Message)

def State.initial : State := ⟨⟨none, none, true⟩, [], .idle, none, [], []⟩

/-- What happens: polls of the watcher, its start and stop, the turns of the run, and its
commands. A server may apply a command late, or again when the client resends it after a
reconnect; a rejection is the client's or the wrapper's own timeout. -/
inductive Event
  | poll
  | fetched (i : ℕ) (t : Option ActiveTargetFull)
  | pinged (i : ℕ) (reachable : Bool)
  | started
  | fallback
  | stop
  | ingest
  | read
  | call
  | apply (attempt : ℕ)
  | answer
  | reject (err : RedisError)

/-- The wrapper catches an error of a command it has sent once. -/
def State.caught (s : State) (n : ℕ) (err : RedisError) : State :=
  if isTransientRedisError err then
    { s with phase := .repolling n, polls := s.polls ++ [⟨.fetching, true⟩] }
  else { s with phase := .failed }

def State.send (s : State) (m : Message) (t : ActiveTargetFull) (phase : ℕ → Phase) : State :=
  { s with attempts := s.attempts ++ [⟨m, t, false⟩], phase := phase s.attempts.length }

/-- A poll that the wrapper waits for lets it go on. -/
def resume : Phase → Phase
  | .repolling n => .retrying n
  | phase => phase

def State.endPoll (s : State) (i : ℕ) (p : Poll) : State :=
  { s with
    polls := s.polls.eraseIdx i
    phase := if p.forced then resume s.phase else s.phase }

def State.fetched (s : State) (i : ℕ) (p : Poll) (t : Option ActiveTargetFull) : State :=
  match t.bind s.watcher.swapTo with
  | none => s.endPoll i p
  | some stage => { s with polls := s.polls.set i ⟨stage, p.forced⟩ }

/-- The next `XADD` of the run, or its end after the last row. -/
def State.call (job : Job) (s : State) : Option State :=
  match s.phase with
  | .sending n =>
    match (job.messages.getD [])[n]? with
    | none => some { s with phase := .resolved n }
    | some m =>
      match s.watcher.current with
      | none => some (s.caught n notStartedError)
      | some t => some (s.send m t (.first n))
  | .retrying n => do
    let m ← (job.messages.getD [])[n]?
    match s.watcher.current with
    | none => some { s with phase := .failed }
    | some t => some (s.send m t (.second n))
  | _ => none

/-- The client answers the awaited command, which the server has applied. -/
def State.answer (s : State) : Option State :=
  match s.phase with
  | .first n a | .second n a => do
    let attempt ← s.attempts[a]?
    if attempt.applied then some { s with phase := .sending (n + 1) } else none
  | _ => none

def State.reject (s : State) (err : RedisError) : Option State :=
  match s.phase with
  | .first n _ => some (s.caught n err)
  | .second _ _ => some { s with phase := .failed }
  | _ => none

def step (job : Job) (s : State) : Event → Option State
  | .poll => some { s with polls := s.polls ++ [⟨.fetching, false⟩] }
  | .fetched i t => do
    let p ← s.polls[i]?
    match p.stage with
    | .fetching => some (s.fetched i p t)
    | .pinging _ => none
  | .pinged i reachable => do
    let p ← s.polls[i]?
    match p.stage with
    | .fetching => none
    | .pinging t => some ({ s with watcher := s.watcher.swapped t reachable }.endPoll i p)
  | .started =>
    if s.watcher.current.isSome then some { s with watcher := { s.watcher with starting := false } }
    else none
  | .fallback =>
    if s.watcher.starting then
      match job.fallbackUrl with
      | none => some { s with watcher := { s.watcher with starting := false } }
      | some t => some { s with watcher := ⟨some t, some (-1), false⟩ }
    else none
  | .stop => some { s with watcher := ⟨none, none, s.watcher.starting⟩ }
  | .ingest =>
    if s.phase = .idle then some { s with phase := .reading, start := s.watcher.current } else none
  | .read =>
    if s.phase = .reading then
      some { s with phase := if job.messages.isSome then .sending 0 else .failed }
    else none
  | .call => s.call job
  | .apply a => do
    let attempt ← s.attempts[a]?
    some { s with
      attempts := s.attempts.set a { attempt with applied := true }
      streams := s.streams ++ [(attempt.target.address, attempt.message)] }
  | .answer => s.answer
  | .reject err => s.reject err

end Ingest

end SourceWatcher
