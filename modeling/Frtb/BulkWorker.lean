import Frtb.Library.CodeUnits
import Frtb.SlimWriter

/-!
# The write workers of the bulk loader

A worker buffers rows and flushes them batch by batch, one flush loop at a
time. A flush is kept by the await it is suspended at: the pipeline, the
dead-letter entry of a row, or the end of its batch. A row of a batch settles,
flushed or dead-lettered, or goes back to the front of the buffer with one more
attempt. What a row settles is what the walk over the replies reports.
-/

namespace BulkLoader

open AssocMaps SlimWriter

structure WorkerOptions where
  batchSize : ℕ
  idleFlushMs : ℕ
  maxRetries : ℤ
  tenorsByClass : Option (Assoc String (List String))
  batch_pos : 0 < batchSize

/-- `BufferedRow`, with the number of the row among those pushed and the number
of pipelines that it has been part of. -/
structure BufferedRow where
  ticket : ℕ
  row : Row
  attempts : ℕ
  executed : ℕ

/-- A row of a batch and its error, if it has one. -/
abbrev Result := BufferedRow × Option String

inductive Flush where
  /-- The first malformed row is at its `await deadLetter`. -/
  | malformed (entry : BufferedRow) (rest piped : List BufferedRow)
  /-- At `await pipeline.exec()`. -/
  | exec (batch : List BufferedRow)
  /-- A row of the walk is at its `await deadLetter`. -/
  | deadLetter (entry : BufferedRow) (rest : List Result)
  /-- The batch is done and the loop has not looked at the buffer again. -/
  | done

structure Worker where
  buffer : List BufferedRow
  flushPromise : Option Flush
  idleTimer : Bool
  queued : ℕ
  flushed : ℕ
  retries : ℕ
  deadLettered : ℕ
  lastUlid : Option String

def createWorker : Worker where
  buffer := []
  flushPromise := none
  idleTimer := false
  queued := 0
  flushed := 0
  retries := 0
  deadLettered := 0
  lastUlid := none

/-- How a row has settled. -/
structure Settled where
  entry : BufferedRow
  flushed : Bool

section Errors

def hasText (part text : String) : Bool :=
  text.toList.tails.any fun rest => part.toList.isPrefixOf rest

def isPermanentError (message : String) : Bool :=
  "WRONGTYPE".toList.isPrefixOf message.toList ||
    hasText "syntax error" (String.ofList (message.toList.map Char.toLower)) ||
    hasText "protocol error" (String.ofList (message.toList.map Char.toLower))

/-- What `pipeline.exec()` comes back with: an error thrown, null, or the error
of each reply. -/
inductive Reply where
  | thrown (message : String)
  | null
  | replies (errors : List (Option String))

/-- The SADDs that follow the HSET of a row. -/
def saddCount (row : Row) : ℕ :=
  if row.riskClass ≠ "" ∧ row.bucket ≠ "" ∧ row.sensitivityType.text ≠ "" then 3 else 0

/-- `hsetErr ?? saddErrs[0] ?? null` of each row, the replies read on from
`replyIdx`. A missing reply is no error. -/
def rowResults (errors : List (Option String)) : ℕ → List BufferedRow → List Result
  | _, [] => []
  | replyIdx, entry :: rest =>
    let count := saddCount entry.row
    let hsetErr := (errors[replyIdx]?).join
    let saddErrs := ((errors.drop (replyIdx + 1)).take count).filterMap id
    (entry, hsetErr.or saddErrs.head?) :: rowResults errors (replyIdx + 1 + count) rest

def results (batch : List BufferedRow) : Reply → List Result
  | .thrown message => batch.map fun entry => (entry, some message)
  | .null => batch.map fun entry => (entry, some "pipeline aborted (null replies)")
  | .replies errors => rowResults errors 0 batch

end Errors

section Steps
variable (opts : WorkerOptions)

/-- `metrics.lastUlid` after a row is flushed. -/
def advance (lastUlid : Option String) (id : String) : Option String :=
  match lastUlid with
  | none => some id
  | some mark => if CodeUnits.le id mark then some mark else some id

/-- The loop over the replies, up to the next await: the worker and the rows
that have settled on the way. -/
def walk (w : Worker) : List Result → Worker × List Settled
  | [] => ({ w with flushPromise := some .done }, [])
  | (entry, none) :: rest =>
    let w := { w with flushed := w.flushed + 1, lastUlid := advance w.lastUlid entry.row.id }
    let after := walk w rest
    (after.1, Settled.mk entry true :: after.2)
  | (entry, some err) :: rest =>
    let nextAttempt := entry.attempts + 1
    if isPermanentError err ∨ opts.maxRetries ≤ nextAttempt then
      ({ w with deadLettered := w.deadLettered + 1, flushPromise := some (.deadLetter entry rest) },
        [])
    else
      walk { w with
        retries := w.retries + 1,
        buffer := { entry with attempts := nextAttempt } :: w.buffer } rest

/-- `pipeline.exec()`, unless every row was malformed. -/
def execute (w : Worker) (piped : List BufferedRow) : Worker :=
  if piped.isEmpty then { w with flushPromise := some .done }
  else
    { w with
      flushPromise := some (.exec (piped.map fun e => { e with executed := e.executed + 1 })) }

def writable (entry : BufferedRow) : Bool :=
  decide (0 < (rowToHashFields entry.row opts.tenorsByClass).length)

/-- `flushBatch` up to its first await. -/
def flushBatch (w : Worker) (batch : List BufferedRow) : Worker :=
  let piped := batch.filter (writable opts)
  match batch.filter fun entry => !writable opts entry with
  | [] => execute w piped
  | entry :: rest =>
    { w with
      deadLettered := w.deadLettered + 1, flushPromise := some (.malformed entry rest piped) }

/-- The flush loop looks at the buffer. -/
def turn (w : Worker) : Worker :=
  if w.buffer.isEmpty then { w with flushPromise := none }
  else
    flushBatch opts { w with buffer := w.buffer.drop opts.batchSize }
      (w.buffer.take opts.batchSize)

def scheduleFlush (w : Worker) : Worker :=
  if w.flushPromise.isSome then w else turn opts w

def push (w : Worker) (ticket : ℕ) (row : Row) : Worker :=
  let w := { w with buffer := w.buffer ++ [BufferedRow.mk ticket row 0 0], queued := w.queued + 1 }
  if opts.batchSize ≤ w.buffer.length then scheduleFlush opts { w with idleTimer := false }
  else { w with idleTimer := decide (0 < opts.idleFlushMs) }

/-- The idle timer fires. -/
def idleFlush (w : Worker) : Option Worker :=
  if w.idleTimer then
    let w := { w with idleTimer := false }
    some (if w.buffer.isEmpty then w else scheduleFlush opts w)
  else none

/-- The pipeline settles. -/
def replied (w : Worker) (reply : Reply) : Option (Worker × List Settled) :=
  match w.flushPromise with
  | some (.exec batch) => some (walk opts w (results batch reply))
  | _ => none

/-- The dead-letter entry of a row has been appended, or has failed. -/
def deadLettered (w : Worker) : Option (Worker × List Settled) :=
  match w.flushPromise with
  | some (.malformed entry (next :: rest) piped) =>
    some ({ w with
        deadLettered := w.deadLettered + 1, flushPromise := some (.malformed next rest piped) },
      [Settled.mk entry false])
  | some (.malformed entry [] piped) => some (execute w piped, [Settled.mk entry false])
  | some (.deadLetter entry rest) =>
    let after := walk opts w rest
    some (after.1, Settled.mk entry false :: after.2)
  | _ => none

/-- The flush loop goes on after a batch. -/
def looped (w : Worker) : Option Worker :=
  match w.flushPromise with
  | some .done => some (turn opts w)
  | _ => none

/-- `drain` of a worker up to its first await. -/
def startDrain (w : Worker) : Worker :=
  let w := { w with idleTimer := false }
  if w.buffer.isEmpty then w else scheduleFlush opts w

end Steps

end BulkLoader
