import Mathlib.Algebra.BigOperators.Fin
import Frtb.BulkWorker
import Frtb.Library.EventRuns

/-!
# The dispatcher of the bulk loader

The dispatcher hands rows to its workers in turn and counts the rows in flight.
A producer that finds the bound reached waits until rows settle; it then looks
at the counter again before its row is pushed. A `drain()` waits for every
worker whose flush loop was running when it was called, or has been restarted
since, and for no other.
-/

namespace BulkLoader

open SlimWriter

structure DispatcherOptions extends WorkerOptions where
  highWater : ℕ
  high_pos : 0 < highWater

/-- A `drain()` of all workers: the rows pushed before it was called, and the
workers that it still waits for. -/
structure Drain (n : ℕ) where
  since : ℕ
  waiting : List (Fin n)

structure Dispatcher (n : ℕ) where
  workers : Fin n → Worker
  inFlight : ℕ
  nextWorker : Fin n
  /-- The producers queued in `enqueue`, each with its row. -/
  waiters : List Row
  /-- Those released that have not run on yet. -/
  released : List Row
  /-- The rows pushed so far. -/
  pushed : ℕ
  settled : List Settled
  drains : List (Drain n)

variable {n : ℕ} [NeZero n] (opts : DispatcherOptions)

def createDispatcher (n : ℕ) [NeZero n] : Dispatcher n where
  workers := fun _ => createWorker
  inFlight := 0
  nextWorker := 0
  waiters := []
  released := []
  pushed := 0
  settled := []
  drains := []

/-- `settle(1)`. The counter does not move while waiters are released, so one
below the bound releases them all. -/
def settle (d : Dispatcher n) (row : Settled) : Dispatcher n :=
  let d := { d with inFlight := d.inFlight - 1, settled := d.settled ++ [row] }
  if d.inFlight < opts.highWater then
    { d with waiters := [], released := d.released ++ d.waiters }
  else d

def putWorker (d : Dispatcher n) (i : Fin n) (w : Worker) : Dispatcher n :=
  { d with workers := Function.update d.workers i w }

/-- A worker has gone on, and each row that settled on the way was reported. -/
def report (d : Dispatcher n) (i : Fin n) (went : Worker × List Settled) : Dispatcher n :=
  went.2.foldl (settle opts) (putWorker d i went.1)

/-- `enqueue` looks at the counter. -/
def enqueueRow (d : Dispatcher n) (row : Row) : Dispatcher n :=
  if opts.highWater ≤ d.inFlight then { d with waiters := d.waiters ++ [row] }
  else
    { putWorker d d.nextWorker
        (push opts.toWorkerOptions (d.workers d.nextWorker) d.pushed row) with
      inFlight := d.inFlight + 1
      nextWorker := d.nextWorker + 1
      pushed := d.pushed + 1 }

def startDrains (d : Dispatcher n) : Dispatcher n :=
  let workers := fun i => startDrain opts.toWorkerOptions (d.workers i)
  { d with
    workers := workers
    drains := d.drains ++
      [⟨d.pushed, (List.finRange n).filter fun i => (workers i).flushPromise.isSome⟩] }

/-- A drain finds no flush loop of a worker running any more. -/
def Drain.leave (drain : Drain n) (i : Fin n) : Drain n :=
  { drain with waiting := drain.waiting.filter (· ≠ i) }

/-- What can happen next: a call, a promise that settles, or a suspended call
that runs on. -/
inductive Event (n : ℕ)
  | enqueue (row : Row)
  | drain
  /-- The producer released first looks at the counter again. -/
  | resumed
  | idle (i : Fin n)
  | replied (i : Fin n) (reply : Reply)
  | deadLettered (i : Fin n)
  | looped (i : Fin n)
  | drained (k : ℕ) (i : Fin n)

def step (d : Dispatcher n) : Event n → Option (Dispatcher n)
  | .enqueue row => some (enqueueRow opts d row)
  | .drain => some (startDrains opts d)
  | .resumed =>
    match d.released with
    | [] => none
    | row :: rest => some (enqueueRow opts { d with released := rest } row)
  | .idle i => (idleFlush opts.toWorkerOptions (d.workers i)).map (putWorker d i)
  | .replied i reply =>
    (BulkLoader.replied opts.toWorkerOptions (d.workers i) reply).map (report opts d i)
  | .deadLettered i =>
    (BulkLoader.deadLettered opts.toWorkerOptions (d.workers i)).map (report opts d i)
  | .looped i => (BulkLoader.looped opts.toWorkerOptions (d.workers i)).map (putWorker d i)
  | .drained k i => do
    let drain ← d.drains[k]?
    if i ∈ drain.waiting ∧ (d.workers i).flushPromise.isNone then
      some { d with drains := d.drains.set k (drain.leave i) }
    else none

section Accounting

def flushing : Option Flush → List BufferedRow
  | none => []
  | some (.malformed entry rest piped) => entry :: (rest ++ piped)
  | some (.exec batch) => batch
  | some (.deadLetter entry rest) => entry :: rest.map Prod.fst
  | some .done => []

/-- The rows of a worker that have not settled. -/
def Worker.held (w : Worker) : List BufferedRow := w.buffer ++ flushing w.flushPromise

def attemptsBound (opts : WorkerOptions) : ℤ := max 1 opts.maxRetries

def holdings (d : Dispatcher n) (ticket : ℕ) : ℕ :=
  ∑ i, (d.workers i).held.countP fun e => e.ticket = ticket

def settlements (d : Dispatcher n) (ticket : ℕ) : ℕ :=
  d.settled.countP fun s => s.entry.ticket = ticket

/-- What holds of the dispatcher in every state. -/
structure Conserves (d : Dispatcher n) : Prop where
  counted : d.inFlight =
    ∑ i, ((d.workers i).buffer.length + (flushing (d.workers i).flushPromise).length)
  bounded : d.inFlight ≤ opts.highWater
  /-- A pushed row is with one worker or has settled, once. -/
  once : ∀ ticket, holdings d ticket + settlements d ticket = if ticket < d.pushed then 1 else 0
  executed : (∀ i, ∀ e ∈ (d.workers i).held, e.executed ≤ attemptsBound opts.toWorkerOptions) ∧
    ∀ s ∈ d.settled, s.entry.executed ≤ attemptsBound opts.toWorkerOptions
  unblocked : d.waiters ≠ [] → opts.highWater ≤ d.inFlight
  /-- A drain that has returned leaves no row that was pushed before it was called. -/
  drainedBefore : ∀ drain ∈ d.drains, drain.waiting = [] →
    ∀ ticket < drain.since, settlements d ticket = 1
  /-- A drain that has returned, no row having been pushed meanwhile, leaves the workers empty
  and every row flushed or dead-lettered. -/
  drained : ∀ drain ∈ d.drains, drain.waiting = [] → drain.since = d.pushed →
    (∀ i, (d.workers i).buffer = [] ∧ (d.workers i).flushPromise = none) ∧
      ∑ i, (d.workers i).queued = ∑ i, ((d.workers i).flushed + (d.workers i).deadLettered)

/-- Nothing is left of what was enqueued. -/
structure Emptied (d : Dispatcher n) : Prop where
  waiters : d.waiters = [] ∧ d.released = []
  workers : ∀ i, (d.workers i).buffer = [] ∧ (d.workers i).flushPromise = none
  settled : ∀ ticket < d.pushed, settlements d ticket = 1
  balanced : ∑ i, (d.workers i).queued =
    ∑ i, ((d.workers i).flushed + (d.workers i).deadLettered)

/-- The events other than calls. -/
def Event.internal : Event n → Prop
  | .enqueue _ => False
  | .drain => False
  | _ => True

/-- `d'` comes after `d` by something other than a new call, in some run. -/
def Follows (d' d : Dispatcher n) : Prop :=
  (∃ es, EventRuns.final (step opts) (createDispatcher n) es = d) ∧
    ∃ e : Event n, e.internal ∧ step opts d e = some d'

/-- Nothing but a new call can happen. -/
def AtRest (d : Dispatcher n) : Prop := ∀ e : Event n, e.internal → step opts d e = none

end Accounting

end BulkLoader
