import Mathlib
import Frtb.Library.EventRuns
import Frtb.Library.StrideLoop

/-!
# The life of a bulk run

A run is executed on the thread of the route, or by worker threads that the route
listens to. A cancel request writes the last status at once; the executor writes one
when everything has ended, from what it has heard of the workers.
-/

namespace BulkRunLifecycle

open EventRuns StrideLoop

section Record

inductive Status where
  | running
  | cancelled
  | done
  | error
deriving DecidableEq

/-- The back-pressure counters and the times of a run, which decide nothing, are left out. -/
structure BulkRunRecord where
  rowsTotal : ℕ
  status : Status
  rowsSent : ℤ
  rowsSkipped : ℕ
  error : Option String
  cancelled : Bool

def BulkRunRecord.start (rowsTotal : ℕ) : BulkRunRecord := ⟨rowsTotal, .running, 0, 0, none, false⟩

/-- What `applyBulkRunCancel` writes into the record. -/
def BulkRunRecord.cancel (record : BulkRunRecord) : BulkRunRecord :=
  { record with cancelled := true, status := .cancelled }

/-- Whether a cancel is carried out: `POST /ingest/bulk/cancel` asks for the status only. -/
def BulkRunRecord.admits (record : BulkRunRecord) (all : Bool) : Bool :=
  record.status = .running && (!all || !record.cancelled)

end Record

section Producer

/-- The rows given to an HTTP producer: accepted by the loader, skipped as loaded before, or
buffered and posted. -/
structure Producer where
  rowsSent : ℕ
  rowsSkipped : ℕ
  pending : ℕ
  /-- `firstError` is set. -/
  failed : Bool

def Producer.fresh : Producer := ⟨0, 0, 0, false⟩

/-- What becomes of a row that is added. -/
inductive Added where
  | buffered
  | skipped
deriving DecidableEq

def Producer.add (p : Producer) : Added → Producer
  | .buffered => { p with pending := p.pending + 1 }
  | .skipped => { p with rowsSkipped := p.rowsSkipped + 1 }

/-- A batch of `k` rows is accepted. -/
def Producer.accept (p : Producer) (k : ℕ) : Option Producer :=
  if 0 < k ∧ k ≤ p.pending then
    some { p with rowsSent := p.rowsSent + k, pending := p.pending - k }
  else none

/-- A batch of `k` rows is given up on. -/
def Producer.giveUp (p : Producer) (k : ℕ) : Option Producer :=
  if 0 < k ∧ k ≤ p.pending then some { p with pending := p.pending - k, failed := true } else none

/-- `flush` and `close` resolve. -/
def Producer.drained (p : Producer) : Bool := p.pending = 0 && !p.failed

/-- The rows sent or skipped. -/
def Producer.handled (p : Producer) : ℕ := p.rowsSent + p.rowsSkipped

end Producer

section Inline

structure InlineRun where
  record : BulkRunRecord
  producer : Producer
  /-- The index of the next row. -/
  next : ℕ
  /-- The loop was left by its `break`. -/
  left : Bool
  aborted : Bool
  finished : Bool

def InlineRun.start (rowsTotal : ℕ) : InlineRun :=
  ⟨.start rowsTotal, .fresh, 0, false, false, false⟩

inductive InlineEvent where
  | row
  | accept (k : ℕ)
  | giveUp (k : ℕ)
  | closed
  | thrown (message : String)
  | cancel (all : Bool)

/-- The record with the counts of the producer. -/
def InlineRun.sampled (r : InlineRun) : BulkRunRecord :=
  { r.record with rowsSent := r.producer.rowsSent, rowsSkipped := r.producer.rowsSkipped }

/-- One event; a post that is under way goes on after an error. -/
def runInline (r : InlineRun) : InlineEvent → Option InlineRun
  | .row =>
    if r.finished ∨ r.left ∨ r.record.rowsTotal ≤ r.next ∨ r.producer.failed then none
    else
      let fed := { r with producer := r.producer.add .buffered, next := r.next + 1 }
      if r.next % 1024 = 0 then
        if r.record.cancelled then
          some { fed with record := fed.sampled, left := true, aborted := true }
        else some { fed with record := fed.sampled }
      else some fed
  | .accept k => (r.producer.accept k).map fun p => { r with producer := p }
  | .giveUp k => (r.producer.giveUp k).map fun p => { r with producer := p }
  | .closed =>
    if r.finished ∨ (r.left = false ∧ r.next < r.record.rowsTotal) ∨
      r.producer.drained = false then none
    else
      let status := if r.record.cancelled then .cancelled else .done
      some { r with record := { r.sampled with status := status }, finished := true }
  | .thrown message =>
    if r.finished then none
    else
      let status := if r.record.cancelled then .cancelled else .error
      let error := if r.record.cancelled then r.record.error else some message
      some { r with
        record := { r.sampled with status := status, error := error }, finished := true }
  | .cancel all =>
    if r.record.admits all then some { r with record := r.record.cancel, aborted := true }
    else some r

end Inline

section Workers

inductive WorkerMessage where
  | progress (rowsSent : ℕ)
  | done (rowsSent : ℕ) (cancelled : Bool)
  | error (message : String)

structure WorkerThread where
  workerIdx : ℕ
  /-- The index of the next row of its stride. -/
  next : ℕ
  localCount : ℕ
  producer : Producer
  /-- The loop was left for the cancel flag. -/
  left : Bool
  /-- Its last message is posted. -/
  ended : Bool
  /-- The messages that are not delivered yet. -/
  posted : List WorkerMessage
  exited : Bool

def WorkerThread.spawn (w : ℕ) : WorkerThread := ⟨w, w, 0, .fresh, false, false, [], false⟩

/-- What a worker does on its own thread. -/
inductive Turn where
  | row (added : Added)
  | accept (k : ℕ)
  | giveUp (k : ℕ)
  | flushed
  | thrown (message : String)

/-- One turn of a worker; a post that is under way goes on after an error. -/
def WorkerThread.turn (total stride : ℕ) (cancelView : Bool) (th : WorkerThread) :
    Turn → Option WorkerThread
  | .row added =>
    if th.ended ∨ th.left ∨ total ≤ th.next then none
    else if th.localCount % 1024 = 0 ∧ cancelView then some { th with left := true }
    else if th.producer.failed then none
    else
      let fed := { th with
        producer := th.producer.add added
        next := th.next + stride
        localCount := th.localCount + 1 }
      if fed.localCount % 1000 = 0 then
        some { fed with posted := fed.posted ++ [.progress fed.producer.rowsSent] }
      else some fed
  | .accept k => (th.producer.accept k).map fun p => { th with producer := p }
  | .giveUp k => (th.producer.giveUp k).map fun p => { th with producer := p }
  | .flushed =>
    if th.ended ∨ (th.left = false ∧ th.next < total) ∨ th.producer.drained = false then none
    else
      let sent := th.producer.rowsSent
      some { th with posted := th.posted ++ [.progress sent, .done sent th.left], ended := true }
  | .thrown message =>
    if th.ended then none
    else some { th with posted := th.posted ++ [.error message], ended := true }

structure WorkerRun where
  record : BulkRunRecord
  cancelView : Bool
  perWorkerRows : List ℤ
  totalRowsSent : ℤ
  firstError : Option String
  threads : List WorkerThread
  finished : Bool

def WorkerRun.start (rowsTotal workers : ℕ) : WorkerRun where
  record := .start rowsTotal
  cancelView := false
  perWorkerRows := List.replicate workers 0
  totalRowsSent := 0
  firstError := none
  threads := (List.range workers).map .spawn
  finished := false

inductive WorkerEvent where
  | turn (w : ℕ) (t : Turn)
  /-- The next message of a worker arrives. -/
  | message (w : ℕ)
  /-- The `error` event: the worker has thrown outside its own `try`. -/
  | error (w : ℕ) (message : String)
  | exit (w : ℕ) (code : ℤ)
  | cancel (all : Bool)
  /-- `Promise.all` finished the exits resolves. -/
  | settled

/-- An element of an `Int32Array`. -/
def toInt32 (n : ℕ) : ℤ := Int.bmod n (2 ^ 32)

/-- The thread of a worker that has not exited. -/
def WorkerRun.live (r : WorkerRun) (w : ℕ) : Option WorkerThread :=
  r.threads[w]?.filter fun th => !th.exited

def WorkerRun.put (r : WorkerRun) (w : ℕ) (th : WorkerThread) : WorkerRun :=
  { r with threads := r.threads.set w th }

def WorkerRun.fail (r : WorkerRun) (message : String) : WorkerRun :=
  { r with firstError := r.firstError.or (some message) }

/-- The listener of the `message` event. -/
def WorkerRun.onMessage (r : WorkerRun) (w : ℕ) : WorkerMessage → WorkerRun
  | .progress rowsSent =>
    let rows := r.perWorkerRows.set w (toInt32 rowsSent)
    { r with
      perWorkerRows := rows
      record := if rows.sum > r.record.rowsSent then { r.record with rowsSent := rows.sum }
        else r.record }
  | .done rowsSent _ =>
    { r with
      perWorkerRows := r.perWorkerRows.set w (toInt32 rowsSent)
      totalRowsSent := r.totalRowsSent + rowsSent }
  | .error message =>
    { r.fail ("worker " ++ toString w ++ ": " ++ message) with cancelView := true }

/-- The record after all workers have exited. -/
def WorkerRun.closing (r : WorkerRun) : BulkRunRecord :=
  let record := { r.record with rowsSent := r.totalRowsSent }
  match r.firstError with
  | some error => { record with status := .error, error := some error }
  | none =>
    if record.cancelled || r.cancelView then { record with status := .cancelled }
    else { record with status := .done }

/-- One event; the workers that a cancel terminates exit later. -/
def runWithWorkers (r : WorkerRun) : WorkerEvent → Option WorkerRun
  | .turn w t => (r.live w).bind fun th =>
    (th.turn r.record.rowsTotal r.threads.length r.cancelView t).map (r.put w)
  | .message w => (r.live w).bind fun th =>
    match th.posted with
    | [] => none
    | message :: posted => some ((r.put w { th with posted := posted }).onMessage w message)
  | .error w message => (r.live w).map fun _ => { r.fail message with cancelView := true }
  | .exit w code => (r.live w).map fun th =>
    let gone := r.put w { th with exited := true, posted := [] }
    if code = 0 then gone
    else gone.fail ("worker " ++ toString w ++ " exited with code " ++ toString code)
  | .cancel all =>
    if r.record.admits all then some { r with record := r.record.cancel, cancelView := true }
    else some r
  | .settled =>
    if r.finished ∨ r.threads.all WorkerThread.exited = false then none
    else some { r with record := r.closing, finished := true }

end Workers

section Property

/-- A status other than running stays, the rows sent never decrease, a run that is done has sent or
skipped all its rows, and a run that is finished runs no more. -/
structure Keeps (before after : BulkRunRecord) (handled : ℕ) (finished : Bool) : Prop where
  final : before.status ≠ .running → after.status = before.status
  sent : before.rowsSent ≤ after.rowsSent
  complete : after.status = .done → handled = after.rowsTotal
  ends : finished = true → after.status ≠ .running

def InlineKeeps (r t : InlineRun) : Prop := Keeps r.record t.record t.producer.handled t.finished

def WorkerRun.handled (r : WorkerRun) : ℕ := (r.threads.map fun th => th.producer.handled).sum

def WorkersKeep (r t : WorkerRun) : Prop := Keeps r.record t.record t.handled t.finished

/-- No row of the worker is left finished: not generated, not answered for, or given up on. -/
def WorkerThread.Complete (total : ℕ) (th : WorkerThread) : Prop :=
  total ≤ th.next ∧ th.producer.drained = true

/-- When all workers have exited, no error was noted of a cancelled run, the rows reported by `done`
are as many as were recorded before, and a run without error or cancel has no row left finished. -/
def Fits (r : WorkerRun) : WorkerEvent → Prop
  | .settled =>
    (r.record.cancelled = true → r.firstError = none) ∧ r.record.rowsSent ≤ r.totalRowsSent ∧
      (r.firstError = none → r.cancelView = false →
        ∀ th ∈ r.threads, th.Complete r.record.rowsTotal)
  | _ => True

end Property

section Records
variable {record : BulkRunRecord} {p q : Producer} {k : ℕ}

/-- A run that has not ended is running, or was cancelled. -/
def Open (record : BulkRunRecord) : Prop :=
  record.status = .running ∧ record.cancelled = false ∨
    record.status = .cancelled ∧ record.cancelled = true

theorem admits_iff (open_ : Open record) (all : Bool) :
    record.admits all = true ↔ record.status = .running := by
  rcases open_ with ⟨running, cancelled⟩ | ⟨running, cancelled⟩ <;>
    simp [BulkRunRecord.admits, running, cancelled]

theorem accept_eq_some_iff : p.accept k = some q ↔ 0 < k ∧ k ≤ p.pending ∧
    q = { p with rowsSent := p.rowsSent + k, pending := p.pending - k } := by
  unfold Producer.accept
  rw [Option.ite_none_right_eq_some, Option.some.injEq, and_assoc, eq_comm]

theorem giveUp_eq_some_iff : p.giveUp k = some q ↔ 0 < k ∧ k ≤ p.pending ∧
    q = { p with pending := p.pending - k, failed := true } := by
  unfold Producer.giveUp
  rw [Option.ite_none_right_eq_some, Option.some.injEq, and_assoc, eq_comm]

theorem drained_iff : p.drained = true ↔ p.pending = 0 ∧ p.failed = false := by
  simp [Producer.drained]

/-- Of `n` rows that were added some are sent or skipped, some pending, and the rest was given
up on. -/
def Accounts (p : Producer) (n : ℕ) : Prop :=
  ∃ lost, p.handled + p.pending + lost = n ∧ (p.failed = true ↔ 0 < lost)

theorem Accounts.add {n : ℕ} (accounts : Accounts p n) (added : Added) :
    Accounts (p.add added) (n + 1) := by
  obtain ⟨lost, sum, failed⟩ := accounts
  refine ⟨lost, ?_, by cases added <;> exact failed⟩
  cases added <;> simp only [Producer.add, Producer.handled] at sum ⊢ <;> omega

theorem Accounts.accept {n : ℕ} (accounts : Accounts p n) (accepted : p.accept k = some q) :
    Accounts q n := by
  obtain ⟨lost, sum, failed⟩ := accounts
  obtain ⟨_, enough, rfl⟩ := accept_eq_some_iff.mp accepted
  refine ⟨lost, ?_, failed⟩
  simp only [Producer.handled] at sum ⊢
  omega

theorem Accounts.giveUp {n : ℕ} (accounts : Accounts p n) (given : p.giveUp k = some q) :
    Accounts q n := by
  obtain ⟨lost, sum, failed⟩ := accounts
  obtain ⟨some_, enough, rfl⟩ := giveUp_eq_some_iff.mp given
  refine ⟨lost + k, ?_, by simp; omega⟩
  simp only [Producer.handled] at sum ⊢
  omega

/-- All added rows are sent or skipped exactly when the producer is drained. -/
theorem Accounts.handled_eq_iff {n : ℕ} (accounts : Accounts p n) :
    p.handled = n ↔ p.drained = true := by
  obtain ⟨lost, sum, failed⟩ := accounts
  rw [drained_iff, ← Bool.not_eq_true, failed]
  omega

theorem Accounts.handled_le {n : ℕ} (accounts : Accounts p n) : p.handled ≤ n := by
  obtain ⟨lost, sum, _⟩ := accounts
  omega

end Records

section InlineRuns
variable {r t : InlineRun} {e : InlineEvent}

structure InlineInv (r : InlineRun) : Prop where
  live : r.finished = false → Open r.record
  ended : r.finished = true → r.record.status ≠ .running ∧
    (r.record.status = .done → r.producer.handled = r.record.rowsTotal ∧ r.producer.pending = 0)
  sent : r.record.rowsSent ≤ r.producer.rowsSent
  left : r.left = true → r.record.cancelled = true
  rows : Accounts r.producer r.next ∧ r.next ≤ r.record.rowsTotal

theorem inlineInv_start (rowsTotal : ℕ) : InlineInv (.start rowsTotal) where
  live := fun _ => .inl ⟨rfl, rfl⟩
  ended := fun finished => by cases finished
  sent := le_refl _
  left := fun left => by cases left
  rows := ⟨⟨0, rfl, by simp [InlineRun.start, Producer.fresh]⟩, Nat.zero_le _⟩

theorem Open.ne_done {record : BulkRunRecord} (open_ : Open record) : record.status ≠ .done := by
  rcases open_ with ⟨status, _⟩ | ⟨status, _⟩ <;> rw [status] <;> decide

/-- A step that leaves the status of a run that has not ended. -/
theorem keeps_of_open {before after : BulkRunRecord} {handled : ℕ} (open_ : Open before)
    (same : after.status = before.status) (sent : before.rowsSent ≤ after.rowsSent) :
    Keeps before after handled false where
  final := fun _ => same
  sent := sent
  complete := fun done => absurd (same ▸ done) open_.ne_done
  ends := fun finished => by cases finished

/-- The last status, where a cancel goes before. -/
theorem keeps_of_end {before after : BulkRunRecord} {handled : ℕ} {last : Status}
    (open_ : Open before) (status : after.status = if before.cancelled then .cancelled else last)
    (sent : before.rowsSent ≤ after.rowsSent) (real : last ≠ .running)
    (complete : before.cancelled = false → last = .done → handled = after.rowsTotal) :
    Keeps before after handled true := by
  rcases open_ with ⟨running, kept⟩ | ⟨stopped, cancelled⟩
  · simp only [kept, Bool.false_eq_true, if_false] at status
    exact ⟨fun other => absurd running other, sent, fun done => complete kept (status ▸ done),
      fun _ => status ▸ real⟩
  · simp only [cancelled, if_true] at status
    refine ⟨fun _ => status.trans stopped.symm, sent, fun done => ?_, fun _ => ?_⟩
    · exact nomatch status.symm.trans done
    · rw [status]
      decide

/-- A cancel, carried out or not. -/
theorem keeps_of_cancel {before : BulkRunRecord} {handled : ℕ} {finished : Bool} (all : Bool)
    (live : finished = false → Open before)
    (ended : finished = true → before.status ≠ .running ∧
      (before.status = .done → handled = before.rowsTotal)) :
    Keeps before (if before.admits all then before.cancel else before) handled finished := by
  cases finished with
  | true =>
    have refused : before.admits all = false := by
      simp [BulkRunRecord.admits, (ended rfl).1]
    rw [refused]
    exact ⟨fun _ => rfl, le_refl _, (ended rfl).2, fun _ => (ended rfl).1⟩
  | false =>
    split
    · rename_i admitted
      have running := (admits_iff (live rfl) all).mp admitted
      exact ⟨fun stopped => absurd running stopped, le_refl _, fun done => (nomatch done),
        fun finished => (nomatch finished)⟩
    · exact keeps_of_open (live rfl) rfl (le_refl _)

theorem inline_row (inv : InlineInv r) (went : runInline r .row = some t) :
    InlineInv t ∧ InlineKeeps r t := by
  simp only [runInline] at went
  split at went
  · cases went
  · rename_i going
    simp only [not_or, Bool.not_eq_true, not_le] at going
    obtain ⟨running, _, inside, _⟩ := going
    have open_ := inv.live running
    have rows : Accounts (r.producer.add .buffered) (r.next + 1) := inv.rows.1.add .buffered
    have sent : r.record.rowsSent ≤ (r.producer.add .buffered).rowsSent := inv.sent
    split at went
    · split at went
      · rename_i cancelled
        cases went
        exact ⟨⟨fun _ => open_, fun finished => (nomatch running.symm.trans finished), le_refl _,
          fun _ => cancelled, rows, inside⟩, running ▸ keeps_of_open open_ rfl sent⟩
      · cases went
        exact ⟨⟨fun _ => open_, fun finished => (nomatch running.symm.trans finished), le_refl _,
          inv.left, rows, inside⟩, running ▸ keeps_of_open open_ rfl sent⟩
    · cases went
      exact ⟨⟨fun _ => open_, fun finished => (nomatch running.symm.trans finished), sent, inv.left,
        rows, inside⟩, running ▸ keeps_of_open open_ rfl (le_refl _)⟩

/-- The answer to a post leaves the record as it is. -/
theorem inline_answer {q : Producer} (inv : InlineInv r) (rows : Accounts q r.next)
    (sent : r.producer.rowsSent ≤ q.rowsSent) (pending : 0 < r.producer.pending) :
    InlineInv { r with producer := q } ∧ InlineKeeps r { r with producer := q } := by
  have undone : r.record.status ≠ .done := by
    cases finished : r.finished with
    | true => exact fun done => absurd ((inv.ended finished).2 done).2 (Nat.ne_of_gt pending)
    | false => exact (inv.live finished).ne_done
  refine ⟨⟨inv.live, fun finished => ⟨(inv.ended finished).1, fun done => absurd done undone⟩,
    inv.sent.trans (by exact_mod_cast sent), inv.left, rows, inv.rows.2⟩, ?_⟩
  exact ⟨fun _ => rfl, le_refl _, fun done => absurd done undone, fun finished =>
    (inv.ended finished).1⟩

theorem inline_closed (inv : InlineInv r) (went : runInline r .closed = some t) :
    InlineInv t ∧ InlineKeeps r t := by
  simp only [runInline] at went
  split at went
  · cases went
  · rename_i going
    simp only [not_or, not_and, Bool.not_eq_true, not_lt, Bool.not_eq_false] at going
    obtain ⟨running, outside, drained⟩ := going
    cases went
    have all : r.record.cancelled = false → r.producer.handled = r.record.rowsTotal := by
      intro kept
      have stayed : r.left = false := by
        cases left : r.left with
        | false => rfl
        | true => exact nomatch kept.symm.trans (inv.left left)
      exact (inv.rows.1.handled_eq_iff.mpr drained).trans
        (Nat.le_antisymm inv.rows.2 (outside stayed))
    have keeps := @keeps_of_end r.record { r.sampled with
      status := if r.record.cancelled then .cancelled else .done } r.producer.handled .done
      (inv.live running) rfl inv.sent (by decide) fun kept _ => all kept
    exact ⟨⟨fun finished => (nomatch finished), fun _ => ⟨keeps.ends rfl, fun done =>
      ⟨keeps.complete done, (drained_iff.mp drained).1⟩⟩, le_refl _, inv.left, inv.rows⟩, keeps⟩

theorem inline_thrown {message : String} (inv : InlineInv r)
    (went : runInline r (.thrown message) = some t) : InlineInv t ∧ InlineKeeps r t := by
  simp only [runInline] at went
  split at went
  · cases went
  · rename_i running
    rw [Bool.not_eq_true] at running
    cases went
    have keeps := @keeps_of_end r.record { r.sampled with
      status := if r.record.cancelled then .cancelled else .error
      error := if r.record.cancelled then r.record.error else some message } r.producer.handled
      .error (inv.live running) rfl inv.sent (by decide) fun _ done => (nomatch done)
    refine ⟨⟨fun finished => (nomatch finished), fun _ => ⟨keeps.ends rfl, fun done => ?_⟩,
      le_refl _, inv.left, inv.rows⟩, keeps⟩
    dsimp only at done
    split at done <;> cases done

theorem inline_step (inv : InlineInv r) (went : runInline r e = some t) :
    InlineInv t ∧ InlineKeeps r t := by
  cases e with
  | row => exact inline_row inv went
  | accept k =>
    obtain ⟨q, accepted, rfl⟩ := Option.map_eq_some_iff.mp went
    obtain ⟨some_, enough, rfl⟩ := accept_eq_some_iff.mp accepted
    exact inline_answer inv (inv.rows.1.accept accepted) (Nat.le_add_right _ _)
      (Nat.lt_of_lt_of_le some_ enough)
  | giveUp k =>
    obtain ⟨q, given, rfl⟩ := Option.map_eq_some_iff.mp went
    obtain ⟨some_, enough, rfl⟩ := giveUp_eq_some_iff.mp given
    exact inline_answer inv (inv.rows.1.giveUp given) (le_refl _)
      (Nat.lt_of_lt_of_le some_ enough)
  | closed => exact inline_closed inv went
  | thrown message => exact inline_thrown inv went
  | cancel all =>
    have keeps := @keeps_of_cancel r.record r.producer.handled r.finished all inv.live
      fun finished => (inv.ended finished).imp_right fun all done => (all done).1
    simp only [runInline] at went
    split at went
    · rename_i admitted
      rw [if_pos admitted] at keeps
      cases went
      refine ⟨⟨fun _ => .inr ⟨rfl, rfl⟩, fun _ => ⟨by simp [BulkRunRecord.cancel], fun done => ?_⟩,
        inv.sent, fun _ => rfl, inv.rows⟩, keeps⟩
      cases done
    · rename_i refused
      rw [if_neg refused] at keeps
      cases went
      exact ⟨inv, keeps⟩

end InlineRuns

section Threads
variable {total stride : ℕ} {view : Bool} {th th' : WorkerThread} {t : Turn}

/-- The rows of the stride of a worker are added or still to come. -/
def Strides (total stride : ℕ) (th : WorkerThread) : Prop :=
  ∃ n, Accounts th.producer n ∧ n + rounds total stride th.next = rounds total stride th.workerIdx

theorem strides_spawn (w : ℕ) : Strides total stride (.spawn w) :=
  ⟨0, ⟨0, rfl, by simp [WorkerThread.spawn, Producer.fresh]⟩, Nat.zero_add _⟩

theorem turn_strides (pos : 0 < stride) (strides : Strides total stride th)
    (went : th.turn total stride view t = some th') :
    Strides total stride th' ∧ th'.workerIdx = th.workerIdx := by
  obtain ⟨n, accounts, rest⟩ := strides
  cases t with
  | row added =>
    simp only [WorkerThread.turn] at went
    split at went
    · cases went
    · rename_i going
      simp only [not_or, not_le] at going
      split at went
      · cases went
        exact ⟨⟨n, accounts, rest⟩, rfl⟩
      · split at went
        · cases went
        · have next : n + 1 + rounds total stride (th.next + stride) =
              rounds total stride th.workerIdx := by
            rw [← rest, rounds_of_lt pos going.2.2]
            omega
          split at went <;> cases went <;> exact ⟨⟨n + 1, accounts.add added, next⟩, rfl⟩
  | accept k =>
    obtain ⟨q, accepted, rfl⟩ := Option.map_eq_some_iff.mp went
    exact ⟨⟨n, accounts.accept accepted, rest⟩, rfl⟩
  | giveUp k =>
    obtain ⟨q, given, rfl⟩ := Option.map_eq_some_iff.mp went
    exact ⟨⟨n, accounts.giveUp given, rest⟩, rfl⟩
  | flushed =>
    simp only [WorkerThread.turn] at went
    split at went
    · cases went
    · cases went
      exact ⟨⟨n, accounts, rest⟩, rfl⟩
  | thrown message =>
    simp only [WorkerThread.turn] at went
    split at went
    · cases went
    · cases went
      exact ⟨⟨n, accounts, rest⟩, rfl⟩

theorem Strides.handled_le (strides : Strides total stride th) :
    th.producer.handled ≤ rounds total stride th.workerIdx := by
  obtain ⟨n, accounts, rest⟩ := strides
  have := accounts.handled_le
  omega

/-- A worker has sent or skipped all rows of its stride exactly when none is left over. -/
theorem Strides.handled_eq_iff (pos : 0 < stride) (strides : Strides total stride th) :
    th.producer.handled = rounds total stride th.workerIdx ↔ th.Complete total := by
  obtain ⟨n, accounts, rest⟩ := strides
  have le := accounts.handled_le
  rw [WorkerThread.Complete, ← accounts.handled_eq_iff]
  constructor
  · intro all
    refine ⟨?_, by omega⟩
    by_contra inside
    rw [rounds_of_lt pos (not_le.mp inside)] at rest
    omega
  · rintro ⟨outside, all⟩
    rw [rounds_of_le pos outside] at rest
    omega

theorem sum_eq_iff_of_le {α : Type} {l : List α} {f g : α → ℕ} (le : ∀ x ∈ l, f x ≤ g x) :
    (l.map f).sum = (l.map g).sum ↔ ∀ x ∈ l, f x = g x := by
  induction l with
  | nil => simp
  | cons x l ih =>
    rw [List.forall_mem_cons] at le
    have rest := List.sum_le_sum le.2
    rw [List.forall_mem_cons, ← ih le.2, List.map_cons, List.map_cons, List.sum_cons, List.sum_cons]
    omega

end Threads

section WorkerRuns
variable {r t : WorkerRun} {e : WorkerEvent} {w : ℕ} {th : WorkerThread}

structure WorkerInv (r : WorkerRun) : Prop where
  live : r.finished = false → Open r.record
  ended : r.finished = true → r.record.status ≠ .running ∧ (∀ th ∈ r.threads, th.exited = true) ∧
    (r.record.status = .done → r.handled = r.record.rowsTotal)
  flag : r.record.cancelled = true → r.cancelView = true
  indices : r.threads.map WorkerThread.workerIdx = List.range r.threads.length
  strides : 0 < r.threads.length ∧ ∀ th ∈ r.threads, Strides r.record.rowsTotal r.threads.length th

theorem workerInv_start (rowsTotal n : ℕ) : WorkerInv (.start rowsTotal (n + 1)) where
  live := fun _ => .inl ⟨rfl, rfl⟩
  ended := fun finished => by cases finished
  flag := fun cancelled => by cases cancelled
  indices := by
    simp [WorkerRun.start, Function.comp_def, WorkerThread.spawn]
  strides := by
    refine ⟨by simp [WorkerRun.start], fun th mem => ?_⟩
    obtain ⟨w, _, rfl⟩ := List.mem_map.mp mem
    exact strides_spawn w

/-- All rows are sent or skipped exactly when no worker has one left over. -/
theorem WorkerInv.handled_eq_iff (inv : WorkerInv r) :
    r.handled = r.record.rowsTotal ↔ ∀ th ∈ r.threads, th.Complete r.record.rowsTotal := by
  obtain ⟨pos, strides⟩ := inv.strides
  have quota : (r.threads.map fun th =>
      rounds r.record.rowsTotal r.threads.length th.workerIdx).sum = r.record.rowsTotal := by
    have shares := @sum_rounds r.record.rowsTotal r.threads.length pos
    rw [← inv.indices, List.map_map] at shares
    exact shares
  have compare := sum_eq_iff_of_le fun th mem => (strides th mem).handled_le
  rw [quota] at compare
  rw [WorkerRun.handled, compare]
  exact forall₂_congr fun th mem => (strides th mem).handled_eq_iff pos

theorem live_eq_some (here : r.live w = some th) : r.threads[w]? = some th ∧ th.exited = false := by
  obtain ⟨found, running⟩ := Option.filter_eq_some_iff.mp here
  exact ⟨found, by simpa using running⟩

/-- While a worker runs the run is not over. -/
theorem WorkerInv.unfinished (inv : WorkerInv r) (here : r.live w = some th) :
    r.finished = false := by
  obtain ⟨found, running⟩ := live_eq_some here
  cases finished : r.finished with
  | false => rfl
  | true =>
    have gone := (inv.ended finished).2.1 th (List.mem_of_getElem? found)
    exact nomatch running.symm.trans gone

/-- A step of a thread that keeps the rows of its stride together. -/
theorem WorkerInv.put (inv : WorkerInv r) (here : r.live w = some th) {th' : WorkerThread}
    (strides : Strides r.record.rowsTotal r.threads.length th')
    (same : th'.workerIdx = th.workerIdx) : WorkerInv (r.put w th') := by
  have unfinished := inv.unfinished here
  obtain ⟨found, _⟩ := live_eq_some here
  have length : (r.put w th').threads.length = r.threads.length := List.length_set ..
  refine ⟨inv.live, fun finished => (nomatch unfinished.symm.trans finished), inv.flag, ?_, ?_⟩
  · rw [length, ← inv.indices]
    refine List.ext_getElem? fun k => ?_
    rw [WorkerRun.put, List.getElem?_map, List.getElem?_map, List.getElem?_set]
    split
    · rename_i own
      rw [← own, found, if_pos (List.getElem?_eq_some_iff.mp found).1, Option.map_some,
        Option.map_some, same]
    · rfl
  · rw [length]
    refine ⟨inv.strides.1, fun x mem => ?_⟩
    rcases List.mem_or_eq_of_mem_set mem with old | rfl
    · exact inv.strides.2 x old
    · exact strides

/-- A step of the listeners, which leaves status, threads and end as they are. -/
theorem WorkerInv.heard (inv : WorkerInv r) (unfinished : r.finished = false)
    (threads : t.threads = r.threads) (finished : t.finished = r.finished)
    (status : t.record.status = r.record.status) (total : t.record.rowsTotal = r.record.rowsTotal)
    (cancelled : t.record.cancelled = r.record.cancelled)
    (flag : r.cancelView = true → t.cancelView = true)
    (sent : r.record.rowsSent ≤ t.record.rowsSent) : WorkerInv t ∧ WorkersKeep r t := by
  have open_ : Open t.record := by
    rw [Open, status, cancelled]
    exact inv.live unfinished
  have still := finished.trans unfinished
  refine ⟨⟨fun _ => open_, fun ended => (nomatch still.symm.trans ended), fun gone => ?_, ?_, ?_⟩,
    ?_⟩
  · exact flag (inv.flag (cancelled ▸ gone))
  · rw [threads]
    exact inv.indices
  · rw [threads, total]
    exact inv.strides
  · rw [WorkersKeep, still]
    exact keeps_of_open (inv.live unfinished) status sent

/-- A step of a thread leaves the record. -/
theorem workersKeep_put (inv : WorkerInv r) (here : r.live w = some th) (th' : WorkerThread) :
    WorkersKeep r (r.put w th') := by
  have unfinished := inv.unfinished here
  have keeps := @keeps_of_open r.record r.record (r.put w th').handled (inv.live unfinished) rfl
    (le_refl _)
  rw [← unfinished] at keeps
  exact keeps

theorem onMessage_kept (inv : WorkerInv r) (unfinished : r.finished = false)
    (message : WorkerMessage) :
    WorkerInv (r.onMessage w message) ∧ WorkersKeep r (r.onMessage w message) := by
  cases message with
  | progress rowsSent =>
    refine inv.heard unfinished rfl rfl ?_ ?_ ?_ id ?_ <;> simp only [WorkerRun.onMessage] <;> split
    all_goals first | rfl | exact le_refl _ | skip
    rename_i more
    exact le_of_lt more
  | done rowsSent cancelled => exact inv.heard unfinished rfl rfl rfl rfl rfl id (le_refl _)
  | error message => exact inv.heard unfinished rfl rfl rfl rfl rfl (fun _ => rfl) (le_refl _)

/-- Every step but the last one keeps to the lifecycle. -/
theorem workers_step (inv : WorkerInv r) (went : runWithWorkers r e = some t)
    (going : e ≠ .settled) : WorkerInv t ∧ WorkersKeep r t := by
  have pos := inv.strides.1
  cases e with
  | turn w turn =>
    obtain ⟨th, here, next⟩ := Option.bind_eq_some_iff.mp went
    obtain ⟨th', turned, rfl⟩ := Option.map_eq_some_iff.mp next
    obtain ⟨strides, same⟩ := turn_strides pos
      (inv.strides.2 th (List.mem_of_getElem? (live_eq_some here).1)) turned
    exact ⟨inv.put here strides same, workersKeep_put inv here th'⟩
  | message w =>
    obtain ⟨th, here, next⟩ := Option.bind_eq_some_iff.mp went
    have strides := inv.strides.2 th (List.mem_of_getElem? (live_eq_some here).1)
    cases posted : th.posted with
    | nil => rw [posted] at next; cases next
    | cons message rest =>
      rw [posted] at next
      cases next
      have put : WorkerInv (r.put w { th with posted := rest }) := inv.put here strides rfl
      exact onMessage_kept put (inv.unfinished here) message
  | error w message =>
    obtain ⟨th, here, rfl⟩ := Option.map_eq_some_iff.mp went
    exact inv.heard (inv.unfinished here) rfl rfl rfl rfl rfl (fun _ => rfl) (le_refl _)
  | exit w code =>
    obtain ⟨th, here, rfl⟩ := Option.map_eq_some_iff.mp went
    have strides := inv.strides.2 th (List.mem_of_getElem? (live_eq_some here).1)
    have put : WorkerInv (r.put w { th with exited := true, posted := [] }) :=
      inv.put here strides rfl
    dsimp only
    split
    · exact ⟨put, workersKeep_put inv here _⟩
    · exact put.heard (inv.unfinished here) rfl rfl rfl rfl rfl id (le_refl _)
  | cancel all =>
    have keeps := @keeps_of_cancel r.record r.handled r.finished all inv.live
      fun finished => (inv.ended finished).imp_right fun rest => rest.2
    simp only [runWithWorkers] at went
    split at went
    · rename_i admitted
      rw [if_pos admitted] at keeps
      cases went
      refine ⟨⟨fun _ => .inr ⟨rfl, rfl⟩, fun finished => ⟨by simp [BulkRunRecord.cancel],
        (inv.ended finished).2.1, fun done => by cases done⟩, fun _ => rfl, inv.indices,
        inv.strides⟩, keeps⟩
    · rename_i refused
      rw [if_neg refused] at keeps
      cases went
      exact ⟨inv, keeps⟩
  | settled => exact absurd rfl going

theorem closing_fields (r : WorkerRun) : r.closing.rowsTotal = r.record.rowsTotal ∧
    r.closing.cancelled = r.record.cancelled ∧ r.closing.rowsSent = r.totalRowsSent := by
  unfold WorkerRun.closing
  dsimp only
  split
  · exact ⟨rfl, rfl, rfl⟩
  · split <;> exact ⟨rfl, rfl, rfl⟩

theorem closing_status (r : WorkerRun) : r.closing.status =
    if r.firstError.isSome then .error
    else if r.record.cancelled || r.cancelView then .cancelled else .done := by
  unfold WorkerRun.closing
  dsimp only
  cases r.firstError with
  | some error => rfl
  | none =>
    simp only [Option.isSome_none, Bool.false_eq_true, if_false]
    split <;> rfl

/-- The last step keeps to the lifecycle exactly when it fits. -/
theorem closing_keeps_iff (inv : WorkerInv r) (unfinished : r.finished = false) :
    Keeps r.record r.closing r.handled true ↔ Fits r .settled := by
  obtain ⟨total, _, sent⟩ := closing_fields r
  have status := closing_status r
  have all := inv.handled_eq_iff
  cases failed : r.firstError with
  | some error =>
    simp only [failed, Option.isSome_some, if_true] at status
    constructor
    · intro keeps
      refine ⟨fun cancelled => ?_, sent ▸ keeps.sent, fun none_ => nomatch failed.symm.trans none_⟩
      rcases inv.live unfinished with ⟨_, kept⟩ | ⟨stopped, _⟩
      · exact nomatch kept.symm.trans cancelled
      · have same := keeps.final (by rw [stopped]; decide)
        rw [status, stopped] at same
        cases same
    · rintro ⟨none_, enough, _⟩
      refine ⟨fun stopped => ?_, sent ▸ enough, fun done => ?_, fun _ => by rw [status]; decide⟩
      · rcases inv.live unfinished with ⟨running, _⟩ | ⟨_, cancelled⟩
        · exact absurd running stopped
        · exact nomatch failed.symm.trans (none_ cancelled)
      · exact nomatch status.symm.trans done
  | none =>
    simp only [failed, Option.isSome_none, Bool.false_eq_true, if_false] at status
    cases flag : r.cancelView with
    | true =>
      simp only [flag, Bool.or_true, if_true] at status
      constructor
      · intro keeps
        exact ⟨fun _ => failed, sent ▸ keeps.sent, fun _ unset => nomatch flag.symm.trans unset⟩
      · rintro ⟨_, enough, _⟩
        refine ⟨fun stopped => ?_, sent ▸ enough, fun done => ?_, fun _ => by rw [status]; decide⟩
        · rcases inv.live unfinished with ⟨running, _⟩ | ⟨cancelled, _⟩
          · exact absurd running stopped
          · rw [status, cancelled]
        · exact nomatch status.symm.trans done
    | false =>
      have kept : r.record.cancelled = false := by
        cases cancelled : r.record.cancelled with
        | false => rfl
        | true => exact nomatch flag.symm.trans (inv.flag cancelled)
      simp only [kept, flag, Bool.or_self, Bool.false_eq_true, if_false] at status
      constructor
      · intro keeps
        refine ⟨fun _ => failed, sent ▸ keeps.sent, fun _ _ => all.mp ?_⟩
        exact (keeps.complete status).trans total
      · rintro ⟨_, enough, complete⟩
        refine ⟨fun stopped => ?_, sent ▸ enough, fun _ => ?_, fun _ => by rw [status]; decide⟩
        · rcases inv.live unfinished with ⟨running, _⟩ | ⟨_, cancelled⟩
          · exact absurd running stopped
          · exact nomatch kept.symm.trans cancelled
        · exact (all.mpr (complete failed flag)).trans total.symm

theorem workers_keep_iff (inv : WorkerInv r) (went : runWithWorkers r e = some t) :
    WorkersKeep r t ↔ Fits r e := by
  by_cases last : e = .settled
  · subst last
    simp only [runWithWorkers] at went
    split at went
    · cases went
    · rename_i going
      simp only [not_or, Bool.not_eq_true] at going
      cases went
      exact closing_keeps_iff inv going.1
  · have keeps := (workers_step inv went last).2
    cases e with
    | settled => exact absurd rfl last
    | turn | message | error | exit | cancel => exact iff_of_true keeps trivial

theorem workers_inv (inv : WorkerInv r) (went : runWithWorkers r e = some t)
    (keeps : WorkersKeep r t) : WorkerInv t := by
  by_cases last : e = .settled
  · subst last
    simp only [runWithWorkers] at went
    split at went
    · cases went
    · rename_i going
      simp only [not_or, Bool.not_eq_false] at going
      cases went
      obtain ⟨total, cancelled, _⟩ := closing_fields r
      refine ⟨fun finished => (nomatch finished), fun _ => ⟨keeps.ends rfl,
        List.all_eq_true.mp going.2, keeps.complete⟩, fun gone => ?_, inv.indices, ?_⟩
      · exact inv.flag (cancelled ▸ gone)
      · rw [total]
        exact inv.strides
  · exact (workers_step inv went last).1

end WorkerRuns

section Lifecycle

/-- A run on the thread of the route keeps to its lifecycle. A run of workers does exactly when,
each time all its workers have exited, what was heard of them fits. -/
theorem bulk_run_lifecycle_iff (rowsTotal n : ℕ) :
    (∀ es, ∀ p ∈ taken runInline (.start rowsTotal) es, ∀ t, runInline p.1 p.2 = some t →
      InlineKeeps p.1 t) ∧
    ∀ es, (∀ p ∈ taken runWithWorkers (.start rowsTotal (n + 1)) es,
        ∀ t, runWithWorkers p.1 p.2 = some t → WorkersKeep p.1 t) ↔
      ∀ p ∈ taken runWithWorkers (.start rowsTotal (n + 1)) es, Fits p.1 p.2 := by
  refine ⟨fun es p mem t went => ?_, fun es => ?_⟩
  · have inv := @taken_of_inv _ _ runInline InlineInv (fun _ _ => True)
      (fun s e t inv _ went => (inline_step inv went).1) _ (inlineInv_start rowsTotal) es
      (fun _ _ => trivial) p mem
    exact (inline_step inv went).2
  · exact @taken_good_iff _ _ runWithWorkers WorkerInv Fits (fun s _ t => WorkersKeep s t)
      (fun s e t inv went => workers_keep_iff inv went)
      (fun s e t inv went keeps => workers_inv inv went keeps) _ (workerInv_start rowsTotal n) es

/-- A worker has reported its row before the cancel; both are terminated. -/
def terminated : List WorkerEvent :=
  [.turn 0 (.row .buffered), .turn 0 (.accept 1), .turn 0 .flushed, .message 0, .cancel false,
    .exit 0 1, .exit 1 1]

/-- The exit codes of terminated workers turn a cancelled run into a failed one, and the count of
the rows sent goes back to those of `done` messages. A worker that exits in order before it has
done its rows leaves a run that is done. -/
theorem terminated_run_fails :
    let before := final runWithWorkers (.start 2 2) terminated
    let after := final runWithWorkers (.start 2 2) (terminated ++ [WorkerEvent.settled])
    let early := final runWithWorkers (.start 2 2) [.exit 0 0, .exit 1 0, .settled]
    before.record.status = .cancelled ∧ before.record.rowsSent = 1 ∧
      after.record.status = .error ∧ after.record.rowsSent = 0 ∧
      early.record.status = .done ∧ early.handled = 0 ∧
      ¬ ∀ p ∈ taken runWithWorkers (.start 2 2) (terminated ++ [WorkerEvent.settled]),
        ∀ t, runWithWorkers p.1 p.2 = some t → WorkersKeep p.1 t := by
  refine ⟨by decide, by decide, by decide, by decide, by decide, by decide, fun keep => ?_⟩
  have last : (taken runWithWorkers (.start 2 2) (terminated ++ [WorkerEvent.settled])).getLast? =
      some (final runWithWorkers (.start 2 2) terminated, .settled) := rfl
  have kept := (keep _ (List.mem_of_getLast? last) _ rfl).final (by decide)
  exact absurd kept (by decide)

end Lifecycle

end BulkRunLifecycle
