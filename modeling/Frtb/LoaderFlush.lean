import Mathlib.Algebra.BigOperators.Group.Multiset.Basic
import Frtb.BulkDispatcher
import Frtb.LoaderRows

/-!
# Accepted bodies and the flush loop

`/load/rows` hands every element of an accepted body to a worker, and the workers
flush what they buffer. A batch leaves the buffer before its rows are laid out, and
the rejection of a flush is handled nowhere: the loop ends, and the rows of the batch
are neither written nor settled. Here the rows are any JSON values and the buffer and
the flush of a worker are followed from await to await, as for typed rows.
-/

namespace LoaderFlush

open AssocMaps JsonText
open BulkLoader (Reply isPermanentError DispatcherOptions)
open LoaderRows (Laid layRow saddCount BodyError parseRowsBody Harmful)

/-- `BufferedRow`, with the number of the row among those accepted. -/
structure BufferedRow where
  ticket : ℕ
  row : Json
  attempts : ℕ

/-- A row of a batch and its error, if it has one. -/
abbrev Result := BufferedRow × Option String

/-- How a row has settled. -/
structure Settled where
  entry : BufferedRow
  flushed : Bool

inductive Flush where
  /-- The first malformed row is at its `await deadLetter`. -/
  | malformed (entry : BufferedRow) (rest piped : List BufferedRow)
  /-- At `await pipeline.exec()`. -/
  | exec (batch : List BufferedRow)
  /-- A row of the walk is at its `await deadLetter`. -/
  | deadLetter (entry : BufferedRow) (rest : List Result)
  /-- `flushBatch` has rejected and the `finally` of the loop has not run yet. -/
  | threw
  /-- The batch is done and the loop has not looked at the buffer again. -/
  | done

structure Worker where
  buffer : List BufferedRow
  flushPromise : Option Flush
  idleTimer : Bool
  /-- The rows of the batches whose flush has rejected. -/
  lost : List BufferedRow

def createWorker : Worker where
  buffer := []
  flushPromise := none
  idleTimer := false
  lost := []

section Worker
variable (opts : DispatcherOptions)

/-- `hsetErr ?? saddErrs[0] ?? null` of each row, the replies read on from `replyIdx`. -/
def rowResults (errors : List (Option String)) : ℕ → List BufferedRow → List Result
  | _, [] => []
  | replyIdx, entry :: rest =>
    let count := saddCount entry.row
    let hsetErr := (errors[replyIdx]?).join
    let saddErrs := ((errors.drop (replyIdx + 1)).take count).filterMap id
    (entry, hsetErr.or saddErrs.head?) :: rowResults errors (replyIdx + 1 + count) rest

def results (batch : List BufferedRow) : Reply → List Result
  | .thrown message => batch.map fun entry => (entry, some message)
  | .null => batch.map fun entry => (entry, some "pipeline aborted (null replies)")
  | .replies errors => rowResults errors 0 batch

/-- The loop over the replies, up to the next await: the worker and the rows that have
settled on the way. -/
def walk (w : Worker) : List Result → Worker × List Settled
  | [] => ({ w with flushPromise := some .done }, [])
  | (entry, none) :: rest =>
    let after := walk w rest
    (after.1, Settled.mk entry true :: after.2)
  | (entry, some err) :: rest =>
    let nextAttempt := entry.attempts + 1
    if isPermanentError err ∨ opts.maxRetries ≤ nextAttempt then
      ({ w with flushPromise := some (.deadLetter entry rest) }, [])
    else walk { w with buffer := { entry with attempts := nextAttempt } :: w.buffer } rest

/-- `pipeline.exec()`, unless every row was malformed. -/
def execute (w : Worker) (piped : List BufferedRow) : Worker :=
  { w with flushPromise := some (if piped.isEmpty then .done else .exec piped) }

def throws (entry : BufferedRow) : Bool := (layRow opts.tenorsByClass entry.row).isNone

def isMalformed (entry : BufferedRow) : Bool :=
  match layRow opts.tenorsByClass entry.row with
  | some .malformed => true
  | _ => false

/-- `flushBatch` up to its first await. All rows are laid out before any is sent. -/
def flushBatch (w : Worker) (batch : List BufferedRow) : Worker :=
  if batch.any (throws opts) then
    { w with flushPromise := some .threw, lost := w.lost ++ batch }
  else
    let piped := batch.filter fun entry => !isMalformed opts entry
    match batch.filter (isMalformed opts) with
    | [] => execute w piped
    | entry :: rest => { w with flushPromise := some (.malformed entry rest piped) }

/-- The flush loop looks at the buffer. -/
def turn (w : Worker) : Worker :=
  if w.buffer.isEmpty then { w with flushPromise := none }
  else
    flushBatch opts { w with buffer := w.buffer.drop opts.batchSize }
      (w.buffer.take opts.batchSize)

def scheduleFlush (w : Worker) : Worker :=
  if w.flushPromise.isSome then w else turn opts w

def push (w : Worker) (ticket : ℕ) (row : Json) : Worker :=
  let w := { w with buffer := w.buffer ++ [BufferedRow.mk ticket row 0] }
  if opts.batchSize ≤ w.buffer.length then scheduleFlush opts { w with idleTimer := false }
  else { w with idleTimer := decide (0 < opts.idleFlushMs) }

/-- The idle timer fires. -/
def idleFlush (w : Worker) : Option Worker :=
  if w.idleTimer then
    let w := { w with idleTimer := false }
    some (if w.buffer.isEmpty then w else scheduleFlush opts w)
  else none

/-- The pipeline settles. -/
def replied (w : Worker) (reply : Reply) : Option (Worker × List Settled) :=
  match w.flushPromise with
  | some (.exec batch) => some (walk opts w (results batch reply))
  | _ => none

/-- The dead-letter entry of a row has been appended, or has failed. -/
def deadLettered (w : Worker) : Option (Worker × List Settled) :=
  match w.flushPromise with
  | some (.malformed entry (next :: rest) piped) =>
    some ({ w with flushPromise := some (.malformed next rest piped) }, [Settled.mk entry false])
  | some (.malformed entry [] piped) => some (execute w piped, [Settled.mk entry false])
  | some (.deadLetter entry rest) =>
    let after := walk opts w rest
    some (after.1, Settled.mk entry false :: after.2)
  | _ => none

/-- The flush loop goes on after a batch, or ends with a rejection. -/
def looped (w : Worker) : Option Worker :=
  match w.flushPromise with
  | some .done => some (turn opts w)
  | some .threw => some { w with flushPromise := none }
  | _ => none

/-- `drain` of a worker up to its first await. -/
def startDrain (w : Worker) : Worker :=
  let w := { w with idleTimer := false }
  if w.buffer.isEmpty then w else scheduleFlush opts w

end Worker

section Server

/-- The server with the dispatcher that its state holds. -/
structure Loader (n : ℕ) where
  workers : Fin n → Worker
  inFlight : ℕ
  nextWorker : Fin n
  /-- The rows of the accepted bodies, in order. -/
  accepted : List Json
  settled : List Settled
  accepting : Bool
  targetStale : Bool
  targetStaleReason : Option String

variable {n : ℕ} [NeZero n] (opts : DispatcherOptions)

def createLoader (n : ℕ) [NeZero n] (accepting : Bool) : Loader n where
  workers := fun _ => createWorker
  inFlight := 0
  nextWorker := 0
  accepted := []
  settled := []
  accepting := accepting
  targetStale := false
  targetStaleReason := none

def putWorker (d : Loader n) (i : Fin n) (w : Worker) : Loader n :=
  { d with workers := Function.update d.workers i w }

/-- A worker has gone on and has called `onSettle(1)` for each row that settled. -/
def report (d : Loader n) (i : Fin n) (went : Worker × List Settled) : Loader n :=
  { putWorker d i went.1 with
    inFlight := d.inFlight - went.2.length
    settled := d.settled ++ went.2 }

/-- `enqueue` of a row below the high-water mark: it does not wait. -/
def enqueue (d : Loader n) (row : Json) : Loader n :=
  { putWorker d d.nextWorker
      (push opts (d.workers d.nextWorker) d.accepted.length row) with
    inFlight := d.inFlight + 1
    nextWorker := d.nextWorker + 1
    accepted := d.accepted ++ [row] }

inductive Answer where
  /-- 202. -/
  | accepted (count : ℕ)
  /-- 503. -/
  | unavailable (reason : String)
  /-- 400. -/
  | malformedBody (err : BodyError)
  /-- 429. -/
  | highWaterExceeded (inFlight highWater : ℕ)

/-- `POST /load/rows`. Nothing is awaited between the look at the counter and the last
`enqueue`, so none of them finds the mark reached. -/
def loadRows (d : Loader n) (contentType : Option String) (body : Option Json) :
    Loader n × Answer :=
  if d.targetStale then (d, .unavailable (d.targetStaleReason.getD "stale target"))
  else if !d.accepting then (d, .unavailable "bulk-loader not accepting (call /load/start)")
  else
    match parseRowsBody contentType body with
    | .error err => (d, .malformedBody err)
    | .ok rows =>
      if rows.isEmpty then (d, .accepted 0)
      else if opts.highWater < d.inFlight + rows.length then
        (d, .highWaterExceeded d.inFlight opts.highWater)
      else (rows.foldl (enqueue opts) d, .accepted rows.length)

/-- What can happen next: a call, a promise that settles, or a suspended call that
runs on. -/
inductive Event (n : ℕ)
  | post (contentType : Option String) (body : Option Json)
  | setAccepting (accepting : Bool)
  | setStale (stale : Bool) (reason : Option String)
  | drain
  | idle (i : Fin n)
  | replied (i : Fin n) (reply : Reply)
  | deadLettered (i : Fin n)
  | looped (i : Fin n)

def step (d : Loader n) : Event n → Option (Loader n)
  | .post contentType body => some (loadRows opts d contentType body).1
  | .setAccepting accepting => some { d with accepting := accepting }
  | .setStale stale reason => some { d with targetStale := stale, targetStaleReason := reason }
  | .drain => some { d with workers := fun i => startDrain opts (d.workers i) }
  | .idle i => (idleFlush opts (d.workers i)).map (putWorker d i)
  | .replied i reply => (replied opts (d.workers i) reply).map (report d i)
  | .deadLettered i => (deadLettered opts (d.workers i)).map (report d i)
  | .looped i => (looped opts (d.workers i)).map (putWorker d i)

end Server

end LoaderFlush
