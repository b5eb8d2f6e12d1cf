import Frtb.BulkDispatcher

/-!
# No row is lost between enqueue and settlement

A worker step moves rows between the buffer, the batch and the rows it reports,
and keeps each with its number of attempts. The dispatcher's counters follow
what the workers report. Every step that is not a new call spends something:
an attempt of a row, a wait, or a timer.
-/

namespace BulkLoader

open EventRuns SlimWriter

section Workers
variable (opts : WorkerOptions)

/-- A row in the buffer, or not yet in a pipeline this time round. -/
def Fresh (e : BufferedRow) : Prop := e.executed = e.attempts ∧ e.attempts < attemptsBound opts

/-- A row whose pipeline has been sent. -/
def Tried (e : BufferedRow) : Prop := e.executed = e.attempts + 1 ∧ e.attempts < attemptsBound opts

def FlushFits : Option Flush → Prop
  | none => True
  | some (.malformed entry rest piped) => ∀ e ∈ entry :: (rest ++ piped), Fresh opts e
  | some (.exec batch) => batch ≠ [] ∧ ∀ e ∈ batch, Tried opts e
  | some (.deadLetter entry rest) => ∀ e ∈ entry :: rest.map Prod.fst, Tried opts e
  | some .done => True

/-- The rows of a flush that no counter has counted yet. -/
def uncounted : Option Flush → ℕ
  | none => 0
  | some (.malformed _ rest piped) => rest.length + piped.length
  | some (.exec batch) => batch.length
  | some (.deadLetter _ rest) => rest.length
  | some .done => 0

structure Fits (w : Worker) : Prop where
  fresh : ∀ e ∈ w.buffer, Fresh opts e
  flush : FlushFits opts w.flushPromise
  balanced : w.queued = w.flushed + w.deadLettered + (w.buffer.length + uncounted w.flushPromise)

/-- What a row in the buffer has left to spend. -/
def weight (e : BufferedRow) : ℕ := 5 * ((attemptsBound opts).toNat - e.attempts)

def weights (es : List BufferedRow) : ℕ := (es.map (weight opts)).sum

def flushWeight : Option Flush → ℕ
  | none => 0
  | some (.malformed _ rest piped) => 3 + (weights opts rest + weights opts piped)
  | some (.exec batch) => weights opts batch
  | some (.deadLetter _ rest) => 4 + weights opts (rest.map Prod.fst)
  | some .done => 1

/-- What a worker has left to spend. -/
def Worker.weight (w : Worker) : ℕ :=
  weights opts w.buffer + flushWeight opts w.flushPromise + w.idleTimer.toNat

def tickets (es : List BufferedRow) : List ℕ := es.map BufferedRow.ticket

def settledTickets (settled : List Settled) : List ℕ := settled.map fun s => s.entry.ticket

/-- A worker goes from `w` to `went.1` and reports the rows of `went.2`. -/
structure Goes (w : Worker) (went : Worker × List Settled) : Prop where
  rows : ∀ t, (tickets w.held).count t =
    (tickets went.1.held).count t + (settledTickets went.2).count t
  fits : Fits opts went.1
  executed : ∀ s ∈ went.2, s.entry.executed ≤ attemptsBound opts
  queued : went.1.queued = w.queued

variable {opts} {w : Worker} {e : BufferedRow}

theorem Fresh.executed_le (fresh : Fresh opts e) : e.executed ≤ attemptsBound opts := by
  rw [fresh.1]
  exact fresh.2.le

theorem Tried.executed_le (tried : Tried opts e) : e.executed ≤ attemptsBound opts := by
  rw [tried.1]
  push_cast
  exact Int.add_one_le_iff.mpr tried.2

theorem weight_pos (room : (e.attempts : ℤ) < attemptsBound opts) : 5 ≤ weight opts e := by
  unfold weight
  omega

/-- An attempt less is left. -/
theorem weight_requeued (room : (e.attempts : ℤ) < attemptsBound opts) :
    weight opts { e with attempts := e.attempts + 1 } + 5 = weight opts e := by
  simp only [weight]
  omega

theorem tickets_append (xs ys : List BufferedRow) : tickets (xs ++ ys) = tickets xs ++ tickets ys :=
  List.map_append

theorem weights_append (xs ys : List BufferedRow) :
    weights opts (xs ++ ys) = weights opts xs + weights opts ys := by
  rw [weights, List.map_append, List.sum_append, weights, weights]

@[simp] theorem weights_cons (x : BufferedRow) (xs : List BufferedRow) :
    weights opts (x :: xs) = weight opts x + weights opts xs := by
  rw [weights, List.map_cons, List.sum_cons, weights]

@[simp] theorem weights_nil : weights opts [] = 0 := rfl

/-- The walk over the results of a batch, with the rows still to be walked. -/
structure Walked (w : Worker) (rest : List Result) (went : Worker × List Settled) : Prop where
  rows : ∀ t, (tickets w.buffer).count t + (tickets (rest.map Prod.fst)).count t =
    (tickets went.1.held).count t + (settledTickets went.2).count t
  fits : Fits opts went.1
  executed : ∀ s ∈ went.2, s.entry.executed ≤ attemptsBound opts
  queued : went.1.queued = w.queued
  weighs : went.1.weight opts + (if rest = [] then 0 else 2) ≤
    weights opts w.buffer + weights opts (rest.map Prod.fst) + 1 + w.idleTimer.toNat

theorem walked (rest : List Result) : ∀ w : Worker,
    (∀ e ∈ w.buffer, Fresh opts e) → (∀ e ∈ rest.map Prod.fst, Tried opts e) →
    w.queued = w.flushed + w.deadLettered + (w.buffer.length + rest.length) →
    @Walked opts w rest (walk opts w rest) := by
  induction rest with
  | nil =>
    intro w fresh _ balanced
    refine ⟨?_, ⟨fresh, trivial, balanced⟩, (fun s mem => by cases mem), rfl, ?_⟩
    · intro t
      simp [walk, Worker.held, flushing, settledTickets, tickets]
    · simp [walk, Worker.weight, flushWeight]
  | cons result rest ih =>
    intro w fresh tried balanced
    obtain ⟨entry, error⟩ := result
    have own : Tried opts entry := tried entry List.mem_cons_self
    have others : ∀ e ∈ rest.map Prod.fst, Tried opts e :=
      fun e mem => tried e (List.mem_cons_of_mem _ mem)
    have big := weight_pos own.2
    rw [List.length_cons] at balanced
    cases error with
    | none =>
      obtain ⟨rows, fits, executed, queued, weighs⟩ := ih
        { w with
          flushed := w.flushed + 1
          lastUlid := advance w.lastUlid entry.row.id } fresh others
        (by simp only; omega)
      refine ⟨?_, fits, ?_, queued, ?_⟩
      · intro t
        have := rows t
        simp only [walk, settledTickets, tickets, List.map_cons, List.count_cons] at this ⊢
        omega
      · intro s mem
        rcases List.mem_cons.mp mem with rfl | mem
        · exact own.executed_le
        · exact executed s mem
      · simp only [List.map_cons, weights_cons, walk] at weighs ⊢
        split_ifs at weighs ⊢ <;> simp_all <;> omega
    | some err =>
      by_cases gone : isPermanentError err ∨ opts.maxRetries ≤ entry.attempts + 1
      · have walks : walk opts w ((entry, some err) :: rest) =
            ({ w with deadLettered := w.deadLettered + 1,
                      flushPromise := some (.deadLetter entry rest) }, []) := by
          simp only [walk]
          rw [if_pos (by exact_mod_cast gone)]
        rw [walks]
        refine ⟨?_, ⟨fresh, tried, ?_⟩, (fun s mem => by cases mem), rfl, ?_⟩
        · intro t
          simp [Worker.held, flushing, settledTickets, tickets]
        · simp only [uncounted]
          omega
        · simp only [Worker.weight, flushWeight, List.map_cons, weights_cons]
          split_ifs <;> simp_all
          omega
      · have walks : walk opts w ((entry, some err) :: rest) =
            walk opts { w with retries := w.retries + 1,
                               buffer := { entry with attempts := entry.attempts + 1 } :: w.buffer }
              rest := by
          simp only [walk]
          rw [if_neg (by exact_mod_cast gone)]
        have room : ((entry.attempts + 1 : ℕ) : ℤ) < attemptsBound opts := by
          rw [not_or, not_le] at gone
          exact lt_of_lt_of_le (by exact_mod_cast gone.2) (le_max_right 1 opts.maxRetries)
        have again : Fresh opts { entry with attempts := entry.attempts + 1 } := ⟨own.1, room⟩
        have lighter := weight_requeued own.2
        obtain ⟨rows, fits, executed, queued, weighs⟩ := ih
          { w with retries := w.retries + 1,
                   buffer := { entry with attempts := entry.attempts + 1 } :: w.buffer }
          (by
            intro e mem
            rcases List.mem_cons.mp mem with rfl | mem
            · exact again
            · exact fresh e mem) others
          (by simp only [List.length_cons]; omega)
        rw [walks]
        refine ⟨?_, fits, executed, queued, ?_⟩
        · intro t
          have := rows t
          simp only [tickets, List.map_cons, List.count_cons] at this ⊢
          omega
        · simp only [List.map_cons, weights_cons] at weighs ⊢
          split_ifs at weighs ⊢ <;> simp_all <;> omega

/-- A flush of rows that were in the buffer. -/
structure Flushes (w : Worker) (batch : List BufferedRow) (after : Worker) : Prop where
  rows : ∀ t, (tickets w.buffer).count t + (tickets batch).count t = (tickets after.held).count t
  fits : Fits opts after
  queued : after.queued = w.queued
  weighs : after.weight opts ≤ weights opts w.buffer + weights opts batch + w.idleTimer.toNat

/-- Sending the pipeline of the rows that are not malformed. -/
theorem executes (piped : List BufferedRow) (fresh : ∀ e ∈ w.buffer, Fresh opts e)
    (freshToo : ∀ e ∈ piped, Fresh opts e)
    (balanced : w.queued = w.flushed + w.deadLettered + (w.buffer.length + piped.length)) :
    (∀ t, (tickets w.buffer).count t + (tickets piped).count t =
        (tickets (execute w piped).held).count t) ∧
      Fits opts (execute w piped) ∧ (execute w piped).queued = w.queued ∧
      (execute w piped).weight opts ≤ weights opts w.buffer +
        (if piped = [] then 1 else weights opts piped) + w.idleTimer.toNat := by
  unfold execute
  cases piped with
  | nil =>
    refine ⟨fun t => ?_, ⟨fresh, trivial, balanced⟩, rfl, le_rfl⟩
    simp [Worker.held, flushing, tickets]
  | cons e piped =>
    have names : ∀ es : List BufferedRow,
        tickets (es.map fun e => { e with executed := e.executed + 1 }) = tickets es := by
      intro es
      rw [tickets, List.map_map, tickets]
      rfl
    have weighs : ∀ es : List BufferedRow,
        weights opts (es.map fun e => { e with executed := e.executed + 1 }) = weights opts es := by
      intro es
      rw [weights, List.map_map, weights]
      rfl
    have tried : ∀ e' ∈ (e :: piped).map fun e => { e with executed := e.executed + 1 },
        Tried opts e' := by
      intro e' mem
      obtain ⟨e'', mem', rfl⟩ := List.mem_map.mp mem
      exact ⟨congrArg (· + 1) (freshToo e'' mem').1, (freshToo e'' mem').2⟩
    rw [List.isEmpty_cons, if_neg Bool.false_ne_true, if_neg (List.cons_ne_nil _ _)]
    refine ⟨fun t => ?_, ⟨fresh, ⟨by simp, tried⟩, ?_⟩, rfl, ?_⟩
    · rw [Worker.held, flushing, tickets_append, List.count_append, names]
    · simpa only [uncounted, List.length_map] using balanced
    · simp only [Worker.weight, flushWeight, weighs, le_refl]

theorem count_filter_split (p : BufferedRow → Bool) (es : List BufferedRow) (t : ℕ) :
    (tickets es).count t =
      (tickets (es.filter p)).count t + (tickets (es.filter fun e => !p e)).count t := by
  induction es with
  | nil => rfl
  | cons e es ih =>
    cases own : p e <;> simp [own, tickets, List.count_cons] at ih ⊢ <;> omega

theorem weights_filter_split (p : BufferedRow → Bool) (es : List BufferedRow) :
    weights opts es =
      weights opts (es.filter p) + weights opts (es.filter fun e => !p e) := by
  induction es with
  | nil => rfl
  | cons e es ih =>
    cases own : p e <;> simp [own] <;> omega

theorem length_filter_split (p : BufferedRow → Bool) (es : List BufferedRow) :
    es.length = (es.filter p).length + (es.filter fun e => !p e).length := by
  induction es with
  | nil => rfl
  | cons e es ih =>
    cases own : p e <;> simp [own] <;> omega

theorem flushBatch_flushes {batch : List BufferedRow} (nonempty : batch ≠ [])
    (fresh : ∀ e ∈ w.buffer, Fresh opts e) (freshToo : ∀ e ∈ batch, Fresh opts e)
    (balanced : w.queued = w.flushed + w.deadLettered + (w.buffer.length + batch.length)) :
    @Flushes opts w batch (flushBatch opts w batch) := by
  have rowsSplit := count_filter_split (writable opts) batch
  have weightSplit := @weights_filter_split opts (writable opts) batch
  have lengthSplit := length_filter_split (writable opts) batch
  have pipedFresh : ∀ e ∈ batch.filter (writable opts), Fresh opts e :=
    fun e mem => freshToo e (List.mem_of_mem_filter mem)
  have badFresh : ∀ e ∈ batch.filter (fun e => !writable opts e), Fresh opts e :=
    fun e mem => freshToo e (List.mem_of_mem_filter mem)
  unfold flushBatch
  cases bad : batch.filter fun e => !writable opts e with
  | nil =>
    rw [bad] at rowsSplit weightSplit lengthSplit
    have some : batch.filter (writable opts) ≠ [] := by
      intro none
      rw [none] at lengthSplit
      exact nonempty (List.length_eq_zero_iff.mp lengthSplit)
    obtain ⟨rows, fits, queued, weighs⟩ := @executes opts w
      (batch.filter (writable opts)) fresh pipedFresh
      (by simp only [List.length_nil, Nat.add_zero] at lengthSplit; omega)
    rw [if_neg some] at weighs
    refine ⟨fun t => ?_, fits, queued, ?_⟩
    · have := rowsSplit t
      have := rows t
      simp only [tickets, List.map_nil, List.count_nil, Nat.add_zero] at *
      omega
    · simp only [weights_nil, Nat.add_zero] at weightSplit
      dsimp only
      omega
  | cons entry rest =>
    rw [bad] at rowsSplit weightSplit lengthSplit badFresh
    have big := weight_pos (badFresh entry List.mem_cons_self).2
    refine ⟨fun t => ?_, ⟨fresh, ?_, ?_⟩, rfl, ?_⟩
    · have := rowsSplit t
      simp only [Worker.held, flushing, tickets, List.map_append, List.map_cons, List.count_append,
        List.count_cons] at this ⊢
      omega
    · intro e mem
      rcases List.mem_cons.mp mem with rfl | mem
      · exact badFresh _ List.mem_cons_self
      · rcases List.mem_append.mp mem with mem | mem
        · exact badFresh e (List.mem_cons_of_mem _ mem)
        · exact pipedFresh e mem
    · simp only [uncounted, List.length_cons] at lengthSplit ⊢
      omega
    · simp only [Worker.weight, flushWeight, weights_cons] at weightSplit ⊢
      omega

/-- The flush loop takes the front of the buffer or ends. -/
theorem turns (fresh : ∀ e ∈ w.buffer, Fresh opts e)
    (balanced : w.queued = w.flushed + w.deadLettered + w.buffer.length) :
    @Flushes opts { w with buffer := [] } w.buffer (turn opts w) := by
  unfold turn
  cases empty : w.buffer with
  | nil =>
    rw [List.isEmpty_nil, if_pos rfl]
    refine ⟨fun t => ?_, ⟨fun e mem => ?_, trivial, ?_⟩, rfl, ?_⟩
    · simp [Worker.held, flushing, tickets]
    · cases mem
    · rw [empty] at balanced
      exact balanced
    · simp [Worker.weight, flushWeight]
  | cons e es =>
    rw [List.isEmpty_cons, if_neg Bool.false_ne_true]
    rw [empty] at fresh balanced
    have split := List.take_append_drop opts.batchSize (e :: es)
    have nonempty : (e :: es).take opts.batchSize ≠ [] := by
      obtain ⟨k, size⟩ : ∃ k, opts.batchSize = k + 1 := ⟨opts.batchSize - 1, by
        have := opts.batch_pos
        omega⟩
      rw [size, List.take_succ_cons]
      exact List.cons_ne_nil _ _
    have lengths : ((e :: es).take opts.batchSize).length + ((e :: es).drop opts.batchSize).length =
        (e :: es).length := by
      rw [← List.length_append, split]
    obtain ⟨rows, fits, queued, weighs⟩ := @flushBatch_flushes opts
      { w with buffer := (e :: es).drop opts.batchSize } _ nonempty
      (fun x mem => fresh x (List.mem_of_mem_drop mem))
      (fun x mem => fresh x (List.mem_of_mem_take mem)) (by simp only; omega)
    refine ⟨fun t => ?_, fits, queued, ?_⟩
    · rw [← rows t]
      have both := congrArg (fun l => (tickets l).count t) split
      simp only [tickets_append, List.count_append] at both
      simp only [tickets, List.map_nil, List.count_nil] at both ⊢
      omega
    · have both := congrArg (weights opts) split
      rw [weights_append] at both
      simp only [weights_nil] at weighs ⊢
      omega

/-- Nothing is left with the worker. -/
def Calm (w : Worker) : Prop := w.buffer = [] ∧ w.flushPromise = none

/-- Whatever is in the buffer, a flush loop will look at it. -/
def Emptying (w : Worker) : Prop := w.flushPromise = none → w.buffer = []

/-- The worker holds no row pushed before the `since`-th. -/
def Clear (since : ℕ) (w : Worker) : Prop := ∀ e ∈ w.held, since ≤ e.ticket

/-- A row in the buffer has a flush loop or a timer that will look at it. -/
def Armed (opts : WorkerOptions) (w : Worker) : Prop :=
  0 < opts.idleFlushMs → w.flushPromise = none → w.buffer ≠ [] → w.idleTimer = true

/-- A worker that goes on by itself: it spends something, and stays calm if it was. -/
structure Works (opts : WorkerOptions) (w : Worker) (went : Worker × List Settled) : Prop
    extends Goes opts w went where
  spends : went.1.weight opts < w.weight opts
  calm : Calm w → Calm went.1
  empties : Emptying went.1

theorem held_of_ended (emptying : Emptying w) (ended : w.flushPromise = none) : w.held = [] := by
  rw [Worker.held, emptying ended, ended]
  rfl

theorem Emptying.clear (emptying : Emptying w) (since : ℕ) (ended : w.flushPromise = none) :
    Clear since w := by
  intro e mem
  rw [held_of_ended emptying ended] at mem
  cases mem

theorem Emptying.armed (emptying : Emptying w) : Armed opts w :=
  fun _ ended nonempty => absurd (emptying ended) nonempty

/-- No row comes to a worker that goes on by itself. -/
theorem Goes.clear {went : Worker × List Settled} (goes : Goes opts w went) {since : ℕ}
    (clear : Clear since w) : Clear since went.1 := by
  intro e mem
  have some : 0 < (tickets went.1.held).count e.ticket :=
    List.count_pos_iff.mpr (List.mem_map_of_mem mem)
  have rows := goes.rows e.ticket
  have before : e.ticket ∈ tickets w.held := List.count_pos_iff.mp (by omega)
  obtain ⟨e', mem', same⟩ := List.mem_map.mp before
  rw [← same]
  exact clear e' mem'

theorem execute_running (piped : List BufferedRow) : (execute w piped).flushPromise ≠ none := by
  unfold execute
  split <;> exact Option.some_ne_none _

theorem flushBatch_running (batch : List BufferedRow) :
    (flushBatch opts w batch).flushPromise ≠ none := by
  unfold flushBatch
  split
  · exact execute_running _
  · exact Option.some_ne_none _

theorem turn_running (nonempty : w.buffer ≠ []) : (turn opts w).flushPromise ≠ none := by
  unfold turn
  rw [if_neg (by simpa using nonempty)]
  exact flushBatch_running _

theorem turn_empties (w : Worker) : Emptying (turn opts w) := by
  intro ended
  by_cases nonempty : w.buffer = []
  · unfold turn
    rw [if_pos (by simp [nonempty])]
    exact nonempty
  · exact absurd ended (turn_running nonempty)

theorem walk_running (rest : List Result) :
    ∀ w : Worker, (walk opts w rest).1.flushPromise ≠ none := by
  induction rest with
  | nil => exact fun w => Option.some_ne_none _
  | cons result rest ih =>
    intro w
    obtain ⟨entry, _ | err⟩ := result
    · exact ih _
    · simp only [walk]
      split
      · exact Option.some_ne_none _
      · exact ih _

theorem schedule_goes (fits : Fits opts w) : Goes opts w (scheduleFlush opts w, []) ∧
    (scheduleFlush opts w).weight opts ≤ w.weight opts := by
  unfold scheduleFlush
  cases running : w.flushPromise with
  | some f =>
    rw [Option.isSome_some, if_pos rfl]
    exact ⟨⟨fun t => by simp [settledTickets], fits, (fun s mem => by cases mem), rfl⟩, le_rfl⟩
  | none =>
    rw [Option.isSome_none, if_neg Bool.false_ne_true]
    have balanced := fits.balanced
    rw [running] at balanced
    obtain ⟨rows, fit, queued, weighs⟩ := turns fits.fresh balanced
    refine ⟨⟨fun t => ?_, fit, (fun s mem => by cases mem), queued⟩, ?_⟩
    · have := rows t
      simp only [Worker.held, running, flushing, List.append_nil, settledTickets, List.map_nil,
        List.count_nil, tickets] at this ⊢
      omega
    · simp only [weights_nil] at weighs
      simp only [Worker.weight, running, flushWeight] at weighs ⊢
      omega

theorem looped_works (fits : Fits opts w) {w' : Worker} (went : looped opts w = some w') :
    Works opts w (w', []) := by
  unfold looped at went
  split at went
  · rename_i done
    cases went
    have balanced := fits.balanced
    rw [done] at balanced
    obtain ⟨rows, fit, queued, weighs⟩ := turns fits.fresh balanced
    refine ⟨⟨fun t => ?_, fit, (fun s mem => by cases mem), queued⟩, ?_, fun calm => ?_,
      turn_empties w⟩
    · have := rows t
      simp only [Worker.held, done, flushing, List.append_nil, settledTickets, List.map_nil,
        List.count_nil, tickets] at this ⊢
      omega
    · simp only [weights_nil] at weighs
      simp only [Worker.weight, done, flushWeight] at weighs ⊢
      omega
    · rw [calm.2] at done
      cases done
  · cases went

theorem Fits.unarmed (fits : Fits opts w) : Fits opts { w with idleTimer := false } :=
  ⟨fits.fresh, fits.flush, fits.balanced⟩

theorem weight_unarmed (w : Worker) :
    ({ w with idleTimer := false } : Worker).weight opts + w.idleTimer.toNat = w.weight opts := by
  simp [Worker.weight]

theorem scheduleIfAny (fits : Fits opts w) :
    let w' := if w.buffer.isEmpty then w else scheduleFlush opts w
    Goes opts w (w', []) ∧ w'.weight opts ≤ w.weight opts ∧ (Calm w → w' = w) ∧ Emptying w' := by
  dsimp only
  cases empty : w.buffer with
  | nil =>
    rw [List.isEmpty_nil, if_pos rfl]
    exact ⟨⟨fun t => by simp [settledTickets], fits, (fun s mem => by cases mem), rfl⟩, le_rfl,
      fun _ => rfl, fun _ => empty⟩
  | cons e es =>
    rw [List.isEmpty_cons, if_neg Bool.false_ne_true]
    obtain ⟨goes, weighs⟩ := schedule_goes fits
    refine ⟨goes, weighs, fun calm => absurd (empty.symm.trans calm.1) (List.cons_ne_nil _ _), ?_⟩
    intro ended
    unfold scheduleFlush at ended ⊢
    split at ended
    · rename_i running
      rw [ended] at running
      cases running
    · exact absurd ended (turn_running (by rw [empty]; exact List.cons_ne_nil _ _))

theorem idle_works (fits : Fits opts w) {w' : Worker} (went : idleFlush opts w = some w') :
    Works opts w (w', []) := by
  unfold idleFlush at went
  cases armed : w.idleTimer with
  | false =>
    rw [armed, if_neg Bool.false_ne_true] at went
    cases went
  | true =>
    rw [armed, if_pos rfl] at went
    cases went
    obtain ⟨goes, weighs, same, empties⟩ := scheduleIfAny fits.unarmed
    have spent := @weight_unarmed opts w
    rw [armed] at spent
    refine ⟨⟨goes.rows, goes.fits, goes.executed, goes.queued⟩, ?_, fun calm => ?_, empties⟩
    · simp only [Bool.toNat_true] at spent
      dsimp only at weighs ⊢
      omega
    · dsimp only at same ⊢
      rw [same calm]
      exact calm

/-- After `drain` is called, what is left in the buffer is being flushed. -/
theorem startDrain_goes (fits : Fits opts w) : Goes opts w (startDrain opts w, []) ∧
    (Calm w → Calm (startDrain opts w)) ∧ Emptying (startDrain opts w) := by
  obtain ⟨goes, _, same, empties⟩ := scheduleIfAny fits.unarmed
  refine ⟨⟨goes.rows, goes.fits, goes.executed, goes.queued⟩, fun calm => ?_, empties⟩
  unfold startDrain
  dsimp only at same ⊢
  rw [same calm]
  exact calm

theorem results_fst (batch : List BufferedRow) (reply : Reply) :
    (results batch reply).map Prod.fst = batch := by
  have replies : ∀ errors i, (rowResults errors i batch).map Prod.fst = batch := by
    intro errors i
    induction batch generalizing i with
    | nil => rfl
    | cons e es ih => simp only [rowResults, List.map_cons, ih]
  cases reply with
  | thrown m => simp [results, List.map_map, Function.comp_def]
  | null => simp [results, List.map_map, Function.comp_def]
  | replies errors => exact replies errors 0

theorem replied_works (fits : Fits opts w) {reply : Reply} {went : Worker × List Settled}
    (h : replied opts w reply = some went) : Works opts w went := by
  unfold replied at h
  split at h
  · rename_i batch exec
    cases h
    have flush := fits.flush
    have balanced := fits.balanced
    rw [exec] at flush balanced
    have names := results_fst batch reply
    have lengths := congrArg List.length names
    rw [List.length_map] at lengths
    have some : results batch reply ≠ [] := by
      intro none
      rw [none] at names
      exact flush.1 names.symm
    obtain ⟨rows, fit, executed, queued, weighs⟩ := @walked opts (results batch reply) w
      fits.fresh (by rw [names]; exact flush.2) (by rw [lengths]; exact balanced)
    rw [names] at rows weighs
    refine ⟨⟨fun t => ?_, fit, executed, queued⟩, ?_, fun calm => ?_,
      fun ended => absurd ended (walk_running _ w)⟩
    · rw [← rows t, Worker.held, exec, flushing, tickets_append, List.count_append]
    · rw [if_neg some] at weighs
      simp only [Worker.weight, exec, flushWeight] at weighs ⊢
      omega
    · rw [calm.2] at exec
      cases exec
  · cases h

theorem deadLettered_works (fits : Fits opts w) {went : Worker × List Settled}
    (h : deadLettered opts w = some went) : Works opts w went := by
  have flush := fits.flush
  have balanced := fits.balanced
  unfold deadLettered at h
  split at h
  · rename_i entry next rest piped waits
    cases h
    rw [waits] at flush balanced
    have big := weight_pos (flush next (by simp)).2
    refine ⟨⟨fun t => ?_, ⟨fits.fresh, ?_, ?_⟩, ?_, rfl⟩, ?_, fun calm => ?_,
      fun ended => absurd ended (Option.some_ne_none _)⟩
    · simp only [Worker.held, waits, flushing, tickets, settledTickets, List.map_append,
        List.map_cons, List.count_append, List.count_cons, List.map_nil, List.count_nil]
      omega
    · exact fun e mem => flush e (List.mem_cons_of_mem _ mem)
    · simp only [uncounted, List.length_cons] at balanced ⊢
      omega
    · intro s mem
      rw [List.mem_singleton.mp mem]
      exact (flush entry List.mem_cons_self).executed_le
    · simp only [Worker.weight, waits, flushWeight, weights_cons]
      omega
    · rw [calm.2] at waits
      cases waits
  · rename_i entry piped waits
    cases h
    rw [waits] at flush balanced
    obtain ⟨rows, fit, queued, weighs⟩ := @executes opts w piped fits.fresh
      (fun e mem => flush e (by simp [mem]))
      (by simpa only [uncounted, List.length_nil, Nat.zero_add] using balanced)
    refine ⟨⟨fun t => ?_, fit, ?_, queued⟩, ?_, fun calm => ?_,
      fun ended => absurd ended (execute_running piped)⟩
    · have := rows t
      simp only [Worker.held, waits, flushing, tickets, settledTickets, List.map_append,
        List.map_cons, List.count_append, List.count_cons, List.map_nil, List.count_nil,
        List.nil_append] at this ⊢
      omega
    · intro s mem
      rw [List.mem_singleton.mp mem]
      exact (flush entry List.mem_cons_self).executed_le
    · simp only [Worker.weight, waits, flushWeight, weights_nil] at weighs ⊢
      split_ifs at weighs <;> omega
    · rw [calm.2] at waits
      cases waits
  · rename_i entry rest waits
    cases h
    rw [waits] at flush balanced
    obtain ⟨rows, fit, executed, queued, weighs⟩ := @walked opts rest w fits.fresh
      (fun e mem => flush e (List.mem_cons_of_mem _ mem)) balanced
    refine ⟨⟨fun t => ?_, fit, ?_, queued⟩, ?_, fun calm => ?_,
      fun ended => absurd ended (walk_running rest w)⟩
    · have := rows t
      simp only [Worker.held, waits, flushing, tickets, settledTickets, List.map_append,
        List.map_cons, List.count_append, List.count_cons] at this ⊢
      omega
    · intro s mem
      rcases List.mem_cons.mp mem with rfl | mem
      · exact (flush entry List.mem_cons_self).executed_le
      · exact executed s mem
    · simp only [Worker.weight, waits, flushWeight] at weighs ⊢
      split_ifs at weighs <;> omega
    · rw [calm.2] at waits
      cases waits
  · cases h

/-- A worker without a flush loop after a push had none before, and has its
timer set. -/
theorem push_ended {ticket : ℕ} {row : Row}
    (ended : (push opts w ticket row).flushPromise = none) :
    w.flushPromise = none ∧ (push opts w ticket row).idleTimer = decide (0 < opts.idleFlushMs) := by
  unfold push at ended ⊢
  dsimp only at ended ⊢
  split at ended
  · exfalso
    unfold scheduleFlush at ended
    split at ended
    · rename_i running
      rw [ended] at running
      cases running
    · exact turn_running (by simp) ended
  · rename_i few
    rw [if_neg few]
    exact ⟨ended, rfl⟩

/-- A pushed row is held, with all of its attempts to spend. -/
theorem push_fits (fits : Fits opts w) (ticket : ℕ) (row : Row) :
    let w' := push opts w ticket row
    (∀ t, (tickets w'.held).count t = (tickets w.held).count t + if t = ticket then 1 else 0) ∧
      Fits opts w' ∧ w'.queued = w.queued + 1 ∧
      w'.weight opts ≤ w.weight opts + (5 * (attemptsBound opts).toNat + 1) := by
  have bound : 0 < attemptsBound opts := lt_of_lt_of_le one_pos (le_max_left 1 opts.maxRetries)
  have fresh : ∀ e ∈ w.buffer ++ [BufferedRow.mk ticket row 0 0], Fresh opts e := by
    intro e mem
    rcases List.mem_append.mp mem with mem | mem
    · exact fits.fresh e mem
    · rw [List.mem_singleton.mp mem]
      exact ⟨rfl, bound⟩
  have balanced := fits.balanced
  have pushed : ∀ armed, Fits opts { w with
      buffer := w.buffer ++ [BufferedRow.mk ticket row 0 0], queued := w.queued + 1,
      idleTimer := armed } := by
    intro armed
    refine ⟨fresh, fits.flush, ?_⟩
    simp only [List.length_append, List.length_singleton]
    omega
  have rows : ∀ armed t, (tickets ({ w with
      buffer := w.buffer ++ [BufferedRow.mk ticket row 0 0], queued := w.queued + 1,
      idleTimer := armed } : Worker).held).count t =
        (tickets w.held).count t + if t = ticket then 1 else 0 := by
    intro armed t
    simp only [Worker.held, tickets, List.map_append, List.map_cons, List.map_nil,
      List.count_append, List.count_cons, List.count_nil, beq_iff_eq]
    split_ifs <;> omega
  have weighs : ∀ armed : Bool, ({ w with
      buffer := w.buffer ++ [BufferedRow.mk ticket row 0 0], queued := w.queued + 1,
      idleTimer := armed } : Worker).weight opts ≤
        w.weight opts + (5 * (attemptsBound opts).toNat + armed.toNat) := by
    intro armed
    simp only [Worker.weight, weights_append, weights_cons, weights_nil, BulkLoader.weight]
    omega
  unfold push
  dsimp only
  split
  · obtain ⟨goes, light⟩ := schedule_goes (pushed false)
    refine ⟨fun t => ?_, goes.fits, goes.queued, light.trans ((weighs false).trans ?_)⟩
    · have := goes.rows t
      have := rows false t
      simp only [settledTickets, List.map_nil, List.count_nil] at *
      omega
    · simp
  · refine ⟨rows _, pushed _, rfl, (weighs _).trans ?_⟩
    have := Bool.toNat_le (decide (0 < opts.idleFlushMs))
    omega

end Workers

section Dispatch
variable {n : ℕ} [NeZero n] {opts : DispatcherOptions} {d : Dispatcher n}

def heldLength (d : Dispatcher n) : ℕ := ∑ i, (d.workers i).held.length

/-- A drain, as long as nothing has been pushed since it was called, waits for every worker
that is not calm, and these are being emptied. -/
def DrainFits (d : Dispatcher n) (drain : Drain n) : Prop :=
  drain.since ≤ d.pushed ∧ (drain.since = d.pushed →
    ∀ i, (i ∉ drain.waiting → Calm (d.workers i)) ∧ Emptying (d.workers i))

/-- The invariant of a run. -/
structure Accounted (opts : DispatcherOptions) (d : Dispatcher n) : Prop where
  counted : d.inFlight = heldLength d
  bounded : d.inFlight ≤ opts.highWater
  once : ∀ t, holdings d t + settlements d t = if t < d.pushed then 1 else 0
  fits : ∀ i, Fits opts.toWorkerOptions (d.workers i)
  executed : ∀ s ∈ d.settled, s.entry.executed ≤ attemptsBound opts.toWorkerOptions
  unblocked : d.waiters ≠ [] → opts.highWater ≤ d.inFlight
  queued : ∑ i, (d.workers i).queued = d.pushed
  drains : ∀ drain ∈ d.drains, DrainFits d drain
  clears : ∀ drain ∈ d.drains, ∀ i, i ∉ drain.waiting ∨ (d.workers i).flushPromise = none →
    Clear drain.since (d.workers i)
  armed : ∀ i, Armed opts.toWorkerOptions (d.workers i)

omit [NeZero n] in
/-- A sum over the workers after one of them has changed. -/
theorem sum_update (ws : Fin n → Worker) (i : Fin n) (w : Worker) (f : Worker → ℕ) :
    ∑ j, f (Function.update ws i w j) + f (ws i) = ∑ j, f (ws j) + f w := by
  have one : ∀ g : Fin n → ℕ, ∑ j, g j = g i + ∑ j ∈ Finset.univ.erase i, g j :=
    fun g => (Finset.add_sum_erase _ g (Finset.mem_univ i)).symm
  have rest : ∑ j ∈ Finset.univ.erase i, f (Function.update ws i w j) =
      ∑ j ∈ Finset.univ.erase i, f (ws j) := by
    refine Finset.sum_congr rfl fun j mem => ?_
    rw [Function.update_of_ne (Finset.ne_of_mem_erase mem)]
  rw [one, one fun j => f (ws j), rest, Function.update_self]
  omega

theorem count_tickets (es : List BufferedRow) (t : ℕ) :
    (tickets es).count t = es.countP fun e => e.ticket = t := by
  rw [tickets, List.count, List.countP_map]
  rfl

/-- What a list of reports does to the dispatcher. -/
structure Reported (d d' : Dispatcher n) (rows : List Settled) : Prop where
  workers : d'.workers = d.workers
  inFlight : d'.inFlight = d.inFlight - rows.length
  settled : d'.settled = d.settled ++ rows
  pushed : d'.pushed = d.pushed
  drains : d'.drains = d.drains
  producers : d'.waiters.length + d'.released.length = d.waiters.length + d.released.length
  unblocked : (d.waiters ≠ [] → opts.highWater ≤ d.inFlight) →
    d'.waiters ≠ [] → opts.highWater ≤ d'.inFlight

omit [NeZero n] in
theorem settle_reported (d : Dispatcher n) (row : Settled) :
    @Reported n opts d (settle opts d row) [row] := by
  unfold settle
  dsimp only
  split
  · rename_i below
    exact ⟨rfl, rfl, rfl, rfl, rfl, by simp [Nat.add_comm], fun _ some => absurd rfl some⟩
  · rename_i full
    exact ⟨rfl, rfl, rfl, rfl, rfl, rfl, fun _ _ => not_lt.mp full⟩

omit [NeZero n] in
theorem settles_reported (rows : List Settled) : ∀ d : Dispatcher n,
    @Reported n opts d (rows.foldl (settle opts) d) rows := by
  induction rows with
  | nil => exact fun d => ⟨rfl, rfl, (List.append_nil _).symm, rfl, rfl, rfl, fun h => h⟩
  | cons row rows ih =>
    intro d
    have first := @settle_reported n opts d row
    have rest := ih (settle opts d row)
    refine ⟨rest.workers.trans first.workers, ?_, ?_, rest.pushed.trans first.pushed,
      rest.drains.trans first.drains, rest.producers.trans first.producers,
      fun h => rest.unblocked (first.unblocked h)⟩
    · have := rest.inFlight
      have := first.inFlight
      simp only [List.foldl_cons, List.length_cons, List.length_nil] at *
      omega
    · rw [List.foldl_cons, rest.settled, first.settled, List.append_assoc, List.singleton_append]

omit [NeZero n] in
theorem holdings_put (i : Fin n) (w : Worker) (t : ℕ) :
    holdings (putWorker d i w) t + (tickets (d.workers i).held).count t =
      holdings d t + (tickets w.held).count t := by
  rw [count_tickets, count_tickets]
  exact sum_update d.workers i w fun w => w.held.countP fun e => e.ticket = t

theorem length_of_counts {xs ys zs : List ℕ} (same : ∀ t, xs.count t = ys.count t + zs.count t) :
    xs.length = ys.length + zs.length := by
  have perm : xs.Perm (ys ++ zs) := by
    rw [List.perm_iff_count]
    intro t
    rw [same t, List.count_append]
  rw [perm.length_eq, List.length_append]

omit [NeZero n] in
/-- A worker that goes on by itself keeps the accounts. -/
theorem Accounted.report (ok : Accounted opts d) {i : Fin n} {went : Worker × List Settled}
    (goes : Goes opts.toWorkerOptions (d.workers i) went)
    (calm : Calm (d.workers i) → Calm went.1)
    (empties : Emptying went.1) : Accounted opts (report opts d i went) := by
  have reported := @settles_reported n opts went.2 (putWorker d i went.1)
  have lengths := length_of_counts goes.rows
  simp only [tickets, settledTickets, List.length_map] at lengths
  have total := sum_update d.workers i went.1 fun w => w.held.length
  have queued := sum_update d.workers i went.1 Worker.queued
  have counted := ok.counted
  have workers : (BulkLoader.report opts d i went).workers =
      Function.update d.workers i went.1 := reported.workers
  have pushed : (BulkLoader.report opts d i went).pushed = d.pushed := reported.pushed
  have inFlight : (BulkLoader.report opts d i went).inFlight = d.inFlight - went.2.length :=
    reported.inFlight
  have enough : went.2.length ≤ d.inFlight := by
    have part : (d.workers i).held.length ≤ heldLength d :=
      Finset.single_le_sum (f := fun j => (d.workers j).held.length) (fun _ _ => Nat.zero_le _)
        (Finset.mem_univ i)
    omega
  constructor
  · rw [inFlight, heldLength, workers]
    unfold heldLength at counted
    omega
  · exact le_trans (inFlight.trans_le (Nat.sub_le _ _)) ok.bounded
  · intro t
    have once := ok.once t
    have moved := goes.rows t
    have put := holdings_put (d := d) i went.1 t
    have more : settlements (BulkLoader.report opts d i went) t =
        settlements d t + (settledTickets went.2).count t := by
      rw [settlements, BulkLoader.report, reported.settled, List.countP_append, settledTickets,
        List.count, List.countP_map]
      rfl
    have same : holdings (BulkLoader.report opts d i went) t =
        holdings (putWorker d i went.1) t := by
      rw [holdings, BulkLoader.report, reported.workers, holdings]
    rw [more, same, pushed]
    omega
  · intro j
    rw [workers]
    by_cases own : j = i
    · rw [own, Function.update_self]
      exact goes.fits
    · rw [Function.update_of_ne own]
      exact ok.fits j
  · intro s mem
    have mem' : s ∈ d.settled ++ went.2 := reported.settled ▸ mem
    rcases List.mem_append.mp mem' with old | new
    · exact ok.executed s old
    · exact goes.executed s new
  · exact reported.unblocked ok.unblocked
  · rw [pushed, workers]
    have := ok.queued
    have := goes.queued
    omega
  · intro drain mem
    have mem' : drain ∈ d.drains := reported.drains ▸ mem
    obtain ⟨since, calms⟩ := ok.drains drain mem'
    refine ⟨since.trans_eq pushed.symm, fun same j => ?_⟩
    obtain ⟨before, emptying⟩ := calms (same.trans pushed) j
    rw [workers]
    by_cases own : j = i
    · rw [own, Function.update_self]
      exact ⟨fun out => calm (own ▸ before (own ▸ out)), empties⟩
    · rw [Function.update_of_ne own]
      exact ⟨before, emptying⟩
  · intro drain mem j
    have mem' : drain ∈ d.drains := reported.drains ▸ mem
    rw [workers]
    by_cases own : j = i
    · rw [own, Function.update_self]
      rintro (out | ended)
      · exact goes.clear (ok.clears drain mem' i (Or.inl out))
      · exact empties.clear _ ended
    · rw [Function.update_of_ne own]
      exact ok.clears drain mem' j
  · intro j
    rw [workers]
    by_cases own : j = i
    · rw [own, Function.update_self]
      exact empties.armed
    · rw [Function.update_of_ne own]
      exact ok.armed j

theorem Accounted.initial (opts : DispatcherOptions) : Accounted opts (createDispatcher n) := by
  constructor
  · simp [createDispatcher, heldLength, createWorker, Worker.held, flushing]
  · exact Nat.zero_le _
  · intro t
    simp [createDispatcher, holdings, settlements, createWorker, Worker.held, flushing]
  · intro i
    exact ⟨(fun e mem => by cases mem), trivial, rfl⟩
  · exact fun s mem => by cases mem
  · exact fun some => absurd rfl some
  · simp [createDispatcher, createWorker]
  · exact fun drain mem => by cases mem
  · exact fun drain mem => by cases mem
  · exact fun i _ _ nonempty => absurd rfl nonempty

/-- A producer that looks at the counter waits again or has its row pushed. -/
theorem Accounted.enqueue (ok : Accounted opts d) (row : Row) :
    Accounted opts (enqueueRow opts d row) := by
  unfold enqueueRow
  split
  · rename_i full
    exact ⟨ok.counted, ok.bounded, ok.once, ok.fits, ok.executed, fun _ => full, ok.queued,
      ok.drains, ok.clears, ok.armed⟩
  · rename_i below
    have room := not_le.mp below
    obtain ⟨rows, fits, queued, _⟩ := push_fits (ok.fits d.nextWorker) d.pushed row
    have ends := @push_ended opts.toWorkerOptions (d.workers d.nextWorker) d.pushed row
    generalize BulkLoader.push opts.toWorkerOptions (d.workers d.nextWorker) d.pushed row = w at *
    have total := sum_update d.workers d.nextWorker w fun w => w.held.length
    have queues := sum_update d.workers d.nextWorker w Worker.queued
    have longer : w.held.length = (d.workers d.nextWorker).held.length + 1 := by
      have lengths := @length_of_counts (tickets w.held)
        (tickets (d.workers d.nextWorker).held) [d.pushed] (by
          intro t
          rw [rows t]
          by_cases own : t = d.pushed
          · simp [own]
          · simp [own, Ne.symm own])
      simpa only [tickets, List.length_map, List.length_singleton] using lengths
    have counted := ok.counted
    refine ⟨?_, room, fun t => ?_, fun j => ?_, ok.executed, fun some => ?_, ?_, ?_, ?_, ?_⟩
    · simp only [heldLength, putWorker] at counted ⊢
      omega
    · have once := ok.once t
      have put := holdings_put (d := d) d.nextWorker w t
      have more := rows t
      show holdings (putWorker d d.nextWorker w) t + settlements d t =
        if t < d.pushed + 1 then 1 else 0
      split_ifs at * <;> omega
    · simp only [putWorker]
      by_cases own : j = d.nextWorker
      · rw [own, Function.update_self]
        exact fits
      · rw [Function.update_of_ne own]
        exact ok.fits j
    · exact absurd (ok.unblocked some) below
    · have := ok.queued
      simp only [putWorker] at this ⊢
      omega
    · intro drain mem
      have since := (ok.drains drain mem).1
      refine ⟨Nat.le_succ_of_le since, fun same => ?_⟩
      have now : drain.since = d.pushed + 1 := same
      omega
    · intro drain mem j free
      simp only [putWorker] at free ⊢
      by_cases own : j = d.nextWorker
      · rw [own, Function.update_self] at free ⊢
        have clear := ok.clears drain mem d.nextWorker (free.imp_right fun ended => (ends ended).1)
        intro e held
        have some : 0 < (tickets w.held).count e.ticket :=
          List.count_pos_iff.mpr (List.mem_map_of_mem held)
        by_cases pushed : e.ticket = d.pushed
        · rw [pushed]
          exact (ok.drains drain mem).1
        · rw [rows, if_neg pushed] at some
          obtain ⟨e', mem', same⟩ := List.mem_map.mp (List.count_pos_iff.mp some)
          rw [← same]
          exact clear e' mem'
      · rw [Function.update_of_ne own] at free ⊢
        exact ok.clears drain mem j free
    · intro j
      simp only [putWorker]
      by_cases own : j = d.nextWorker
      · rw [own, Function.update_self]
        intro timed ended _
        rw [(ends ended).2]
        exact decide_eq_true timed
      · rw [Function.update_of_ne own]
        exact ok.armed j

omit [NeZero n] in
theorem Accounted.startDrains (ok : Accounted opts d) : Accounted opts (startDrains opts d) := by
  have goes := fun i => (startDrain_goes (ok.fits i)).1
  have lengths : ∀ i, (startDrain opts.toWorkerOptions (d.workers i)).held.length =
      (d.workers i).held.length := by
    intro i
    have same := length_of_counts (goes i).rows
    simpa [tickets, settledTickets] using same.symm
  refine ⟨?_, ok.bounded, fun t => ?_, fun i => (goes i).fits, ok.executed, ok.unblocked, ?_, ?_,
    ?_, fun i => (startDrain_goes (ok.fits i)).2.2.armed⟩
  · rw [heldLength]
    exact ok.counted.trans (Finset.sum_congr rfl fun i _ => (lengths i).symm)
  · refine (congrArg (· + settlements d t) (Finset.sum_congr rfl fun i _ => ?_)).trans (ok.once t)
    have rows := (goes i).rows t
    rw [count_tickets, count_tickets, settledTickets, List.map_nil, List.count_nil,
      Nat.add_zero] at rows
    exact rows.symm
  · exact (Finset.sum_congr rfl fun i _ => (goes i).queued).trans ok.queued
  · intro drain mem
    rcases List.mem_append.mp mem with old | new
    · obtain ⟨since, calms⟩ := ok.drains drain old
      refine ⟨since, fun same i => ⟨fun out => ?_, (startDrain_goes (ok.fits i)).2.2⟩⟩
      exact (startDrain_goes (ok.fits i)).2.1 ((calms same i).1 out)
    · rw [List.mem_singleton.mp new]
      refine ⟨le_rfl, fun _ i => ⟨fun out => ?_, (startDrain_goes (ok.fits i)).2.2⟩⟩
      rw [List.mem_filter, not_and] at out
      have ended : (startDrain opts.toWorkerOptions (d.workers i)).flushPromise = none := by
        simpa using out (List.mem_finRange i)
      exact ⟨(startDrain_goes (ok.fits i)).2.2 ended, ended⟩
  · rintro drain mem i (out | ended)
    · rcases List.mem_append.mp mem with old | new
      · exact (goes i).clear (ok.clears drain old i (Or.inl out))
      · rw [List.mem_singleton.mp new, List.mem_filter, not_and] at out
        have ended : (startDrain opts.toWorkerOptions (d.workers i)).flushPromise = none := by
          simpa using out (List.mem_finRange i)
        exact (startDrain_goes (ok.fits i)).2.2.clear _ ended
    · exact (startDrain_goes (ok.fits i)).2.2.clear _ ended

omit [NeZero n] in
/-- A drain finds that a worker has no flush loop any more. -/
theorem Accounted.left (ok : Accounted opts d) {k : ℕ} {i : Fin n} {drain : Drain n}
    (found : d.drains[k]? = some drain) (ended : (d.workers i).flushPromise = none) :
    Accounted opts { d with drains := d.drains.set k (drain.leave i) } := by
  have listed := List.mem_of_getElem? found
  have others : ∀ j, j ≠ i → j ∉ (drain.leave i).waiting → j ∉ drain.waiting :=
    fun j own out waits => out (List.mem_filter.mpr ⟨waits, by simpa using own⟩)
  refine ⟨ok.counted, ok.bounded, ok.once, ok.fits, ok.executed, ok.unblocked, ok.queued, ?_, ?_,
    ok.armed⟩
  · intro other mem
    rcases List.mem_or_eq_of_mem_set mem with old | rfl
    · exact ok.drains other old
    · obtain ⟨since, calms⟩ := ok.drains drain listed
      refine ⟨since, fun same j => ⟨fun out => ?_, (calms same j).2⟩⟩
      by_cases own : j = i
      · rw [own]
        exact ⟨(calms same i).2 ended, ended⟩
      · exact (calms same j).1 (others j own out)
  · intro other mem j free
    rcases List.mem_or_eq_of_mem_set mem with old | rfl
    · exact ok.clears other old j free
    · by_cases own : j = i
      · rw [own]
        exact ok.clears drain listed i (Or.inr ended)
      · exact ok.clears drain listed j (free.imp_left (others j own))

theorem step_accounted (ok : Accounted opts d) {e : Event n} {d' : Dispatcher n}
    (went : step opts d e = some d') : Accounted opts d' := by
  cases e with
  | enqueue row =>
    cases went
    exact ok.enqueue row
  | drain =>
    cases went
    exact ok.startDrains
  | resumed =>
    simp only [step] at went
    cases waiting : d.released with
    | nil =>
      rw [waiting] at went
      cases went
    | cons row rest =>
      rw [waiting] at went
      cases went
      have released : Accounted opts { d with released := rest } :=
        ⟨ok.counted, ok.bounded, ok.once, ok.fits, ok.executed, ok.unblocked, ok.queued, ok.drains,
          ok.clears, ok.armed⟩
      exact released.enqueue row
  | idle i =>
    obtain ⟨w, works, rfl⟩ := Option.map_eq_some_iff.mp went
    have works := idle_works (ok.fits i) works
    exact ok.report works.toGoes works.calm works.empties
  | replied i reply =>
    obtain ⟨w, works, rfl⟩ := Option.map_eq_some_iff.mp went
    have works := replied_works (ok.fits i) works
    exact ok.report works.toGoes works.calm works.empties
  | deadLettered i =>
    obtain ⟨w, works, rfl⟩ := Option.map_eq_some_iff.mp went
    have works := deadLettered_works (ok.fits i) works
    exact ok.report works.toGoes works.calm works.empties
  | looped i =>
    obtain ⟨w, works, rfl⟩ := Option.map_eq_some_iff.mp went
    have works := looped_works (ok.fits i) works
    exact ok.report works.toGoes works.calm works.empties
  | drained k i =>
    obtain ⟨drain, found, went⟩ := Option.bind_eq_some_iff.mp went
    split at went
    · rename_i ended
      cases went
      exact ok.left found (Option.isNone_iff_eq_none.mp ended.2)
    · cases went

/-- What all workers, producers and drains have left to spend. -/
def budget (opts : DispatcherOptions) (d : Dispatcher n) : ℕ :=
  ∑ i, (d.workers i).weight opts.toWorkerOptions +
    (d.waiters.length + d.released.length) *
      (5 * (attemptsBound opts.toWorkerOptions).toNat + 2) +
    (d.drains.map fun drain => drain.waiting.length).sum

omit [NeZero n] in
theorem budget_report {i : Fin n} {went : Worker × List Settled}
    (spends : went.1.weight opts.toWorkerOptions < (d.workers i).weight opts.toWorkerOptions) :
    budget opts (report opts d i went) < budget opts d := by
  have reported := @settles_reported n opts went.2 (putWorker d i went.1)
  have workers : (BulkLoader.report opts d i went).workers =
      Function.update d.workers i went.1 := reported.workers
  have drains : (BulkLoader.report opts d i went).drains = d.drains := reported.drains
  have producers : (BulkLoader.report opts d i went).waiters.length +
      (BulkLoader.report opts d i went).released.length =
        d.waiters.length + d.released.length := reported.producers
  have total := sum_update d.workers i went.1 (Worker.weight opts.toWorkerOptions)
  rw [budget, budget, workers, drains, producers]
  omega

theorem sum_map_set {α : Type*} (f : α → ℕ) (l : List α) {k : ℕ} {x : α} (y : α)
    (found : l[k]? = some x) : ((l.set k y).map f).sum + f x = (l.map f).sum + f y := by
  induction l generalizing k with
  | nil => cases found
  | cons a l ih =>
    cases k with
    | zero =>
      cases found
      simp only [List.set_cons_zero, List.map_cons, List.sum_cons]
      omega
    | succ k =>
      have rest := ih (k := k) found
      simp only [List.set_cons_succ, List.map_cons, List.sum_cons]
      omega

/-- Every step that is not a call spends something, or a released producer waits again. -/
theorem internal_spends (ok : Accounted opts d) {e : Event n} (own : e.internal)
    {d' : Dispatcher n} (went : step opts d e = some d') :
    budget opts d' < budget opts d ∨
      budget opts d' = budget opts d ∧ d'.released.length < d.released.length := by
  cases e with
  | enqueue row => exact own.elim
  | drain => exact own.elim
  | resumed =>
    simp only [step] at went
    cases waiting : d.released with
    | nil =>
      rw [waiting] at went
      cases went
    | cons row rest =>
      rw [waiting] at went
      cases went
      unfold enqueueRow
      split
      · refine Or.inr ⟨?_, Nat.lt_succ_self _⟩
        simp only [budget, waiting, List.length_append, List.length_cons, List.length_nil]
        rw [show d.waiters.length + (0 + 1) + rest.length = d.waiters.length + (rest.length + 1) by
          omega]
      · left
        obtain ⟨_, _, _, weighs⟩ := push_fits (ok.fits d.nextWorker) d.pushed row
        dsimp only
        have total := sum_update d.workers d.nextWorker
          (BulkLoader.push opts.toWorkerOptions (d.workers d.nextWorker) d.pushed row)
          (Worker.weight opts.toWorkerOptions)
        simp only [budget, putWorker, waiting, List.length_cons]
        generalize hcost : 5 * (attemptsBound opts.toWorkerOptions).toNat + 2 = cost at *
        rw [show d.waiters.length + (rest.length + 1) = d.waiters.length + rest.length + 1 from rfl,
          Nat.succ_mul]
        omega
  | idle i =>
    obtain ⟨w, works, rfl⟩ := Option.map_eq_some_iff.mp went
    exact Or.inl (@budget_report n opts d i (w, []) (idle_works (ok.fits i) works).spends)
  | replied i reply =>
    obtain ⟨w, works, rfl⟩ := Option.map_eq_some_iff.mp went
    exact Or.inl (budget_report (replied_works (ok.fits i) works).spends)
  | deadLettered i =>
    obtain ⟨w, works, rfl⟩ := Option.map_eq_some_iff.mp went
    exact Or.inl (budget_report (deadLettered_works (ok.fits i) works).spends)
  | looped i =>
    obtain ⟨w, works, rfl⟩ := Option.map_eq_some_iff.mp went
    exact Or.inl (@budget_report n opts d i (w, []) (looped_works (ok.fits i) works).spends)
  | drained k i =>
    obtain ⟨drain, found, went⟩ := Option.bind_eq_some_iff.mp went
    split at went
    · rename_i waits
      cases went
      left
      have shorter : (drain.leave i).waiting.length < drain.waiting.length :=
        List.length_filter_lt_length_iff_exists.mpr ⟨i, waits.1, by simp⟩
      have total := sum_map_set (fun drain : Drain n => drain.waiting.length) d.drains
        (drain.leave i) found
      simp only [budget]
      omega
    · cases went

theorem accounted_final (opts : DispatcherOptions) (es : List (Event n)) :
    Accounted opts (final (step opts) (createDispatcher n) es) :=
  @visited_of_taken _ _ (step opts) (Accounted opts) (fun _ _ => True)
    (fun _ _ _ ok _ went => step_accounted ok went) _ (Accounted.initial opts) _
    (fun _ _ => trivial) _ (final_mem_visited _ es)

theorem follows_wellFounded (opts : DispatcherOptions) : WellFounded (Follows (n := n) opts) := by
  have order : WellFounded (Prod.Lex (fun a b : ℕ => a < b) (fun a b : ℕ => a < b)) :=
    WellFounded.prod_lex wellFounded_lt wellFounded_lt
  refine Subrelation.wf ?_ (InvImage.wf
    (fun d : Dispatcher n => (budget opts d, d.released.length)) order)
  rintro d' d ⟨⟨es, rfl⟩, e, own, went⟩
  rcases internal_spends (accounted_final opts es) own went with less | ⟨same, less⟩
  · exact Prod.Lex.left _ _ less
  · show Prod.Lex _ _ (_, _) (_, _)
    rw [same]
    exact Prod.Lex.right _ less

/-- Where nothing but a call can happen, no flush loop is running. -/
theorem ended_of_rest {d : Dispatcher n} (rest : AtRest opts d) (i : Fin n) :
    (d.workers i).flushPromise = none := by
  cases running : (d.workers i).flushPromise with
  | none => rfl
  | some f =>
    cases f with
    | malformed entry bad piped =>
      have stuck := rest (.deadLettered i) trivial
      cases bad <;> simp [step, BulkLoader.deadLettered, running] at stuck
    | exec batch =>
      have stuck := rest (.replied i .null) trivial
      simp [step, BulkLoader.replied, running] at stuck
    | deadLetter entry results =>
      have stuck := rest (.deadLettered i) trivial
      simp [step, BulkLoader.deadLettered, running] at stuck
    | done =>
      have stuck := rest (.looped i) trivial
      simp [step, BulkLoader.looped, running] at stuck

/-- Every drain has returned then. -/
theorem drains_returned {d : Dispatcher n} (rest : AtRest opts d) :
    ∀ drain ∈ d.drains, drain.waiting = [] := by
  intro drain mem
  by_contra waits
  obtain ⟨i, waiting⟩ := List.exists_mem_of_ne_nil _ waits
  obtain ⟨k, found⟩ := List.getElem?_of_mem mem
  have stuck := rest (.drained k i) trivial
  simp only [step, found, Option.bind_eq_bind, Option.bind_some] at stuck
  rw [if_pos ⟨waiting, by rw [ended_of_rest rest i]; rfl⟩] at stuck
  cases stuck

omit [NeZero n] in
/-- A row that no worker holds has settled. -/
theorem Accounted.settled_of_clear (ok : Accounted opts d) {since : ℕ} (bound : since ≤ d.pushed)
    (clear : ∀ i, Clear since (d.workers i)) : ∀ ticket < since, settlements d ticket = 1 := by
  intro ticket early
  have none : holdings d ticket = 0 := by
    refine Finset.sum_eq_zero fun i _ => List.countP_eq_zero.mpr fun e mem same => ?_
    have late := clear i e mem
    have own : e.ticket = ticket := of_decide_eq_true same
    omega
  have once := ok.once ticket
  rw [none, if_pos (lt_of_lt_of_le early bound), Nat.zero_add] at once
  exact once

/-- With idle timers nothing is left at rest. -/
theorem Accounted.emptied (ok : Accounted opts d) (rest : AtRest opts d)
    (timed : 0 < opts.idleFlushMs) : Emptied d := by
  have ended := ended_of_rest rest
  have buffers : ∀ i, (d.workers i).buffer = [] := by
    intro i
    by_contra nonempty
    have armed := ok.armed i timed (ended i) nonempty
    have stuck := rest (.idle i) trivial
    simp [step, idleFlush, armed] at stuck
  have held : ∀ i, (d.workers i).held = [] := fun i => held_of_ended (fun _ => buffers i) (ended i)
  have released : d.released = [] := by
    cases waiting : d.released with
    | nil => rfl
    | cons row rows =>
      have stuck := rest .resumed trivial
      simp [step, waiting] at stuck
  have waiters : d.waiters = [] := by
    by_contra waits
    have full := ok.unblocked waits
    have room := opts.high_pos
    have none : d.inFlight = 0 := by
      rw [ok.counted, heldLength]
      exact Finset.sum_eq_zero fun i _ => by rw [held i]; rfl
    omega
  refine ⟨⟨waiters, released⟩, fun i => ⟨buffers i, ended i⟩, ?_,
    Finset.sum_congr rfl fun i _ => ?_⟩
  · refine ok.settled_of_clear le_rfl fun i e mem => ?_
    rw [held i] at mem
    cases mem
  · have balanced := (ok.fits i).balanced
    rw [buffers i, ended i] at balanced
    exact balanced

omit [NeZero n] in
theorem Accounted.conserves (ok : Accounted opts d) : Conserves opts d := by
  have lengths : ∀ i, (d.workers i).held.length =
      (d.workers i).buffer.length + (flushing (d.workers i).flushPromise).length :=
    fun i => List.length_append
  refine ⟨?_, ok.bounded, ok.once, ⟨?_, ok.executed⟩, ok.unblocked, ?_, ?_⟩
  · exact ok.counted.trans (Finset.sum_congr rfl fun i _ => lengths i)
  · intro i e mem
    have fits := ok.fits i
    rcases List.mem_append.mp mem with mem | mem
    · exact (fits.fresh e mem).executed_le
    · have flush := fits.flush
      cases running : (d.workers i).flushPromise with
      | none =>
        rw [running] at mem
        cases mem
      | some f =>
        rw [running] at mem flush
        cases f with
        | malformed entry bad piped => exact (flush e mem).executed_le
        | exec batch => exact (flush.2 e mem).executed_le
        | deadLetter entry results => exact (flush e mem).executed_le
        | done => cases mem
  · intro drain mem returned
    refine ok.settled_of_clear (ok.drains drain mem).1 fun i => ?_
    refine ok.clears drain mem i (Or.inl ?_)
    rw [returned]
    exact List.not_mem_nil
  · intro drain mem returned since
    have calms : ∀ i, Calm (d.workers i) := by
      intro i
      refine ((ok.drains drain mem).2 since i).1 ?_
      rw [returned]
      exact List.not_mem_nil
    refine ⟨calms, Finset.sum_congr rfl fun i _ => ?_⟩
    have balanced := (ok.fits i).balanced
    rw [(calms i).1, (calms i).2] at balanced
    exact balanced

/-- In every state of every run the counter is the number of rows in the workers and within the
bound, each pushed row is held or settled once and sent to Redis a bounded number of times, no
producer is kept waiting below the bound, and a drain that has returned leaves no row pushed
before it, and nothing at all where no row was pushed meanwhile. Whatever happens without a new
call comes to an end; every drain has returned then, and with idle timers every row has settled. -/
theorem dispatcher_conserves (n : ℕ) [NeZero n] (opts : DispatcherOptions) :
    (∀ es, ∀ d ∈ visited (step opts) (createDispatcher n) es, Conserves opts d) ∧
      WellFounded (Follows (n := n) opts) ∧
      ∀ es, AtRest opts (final (step opts) (createDispatcher n) es) →
        (∀ drain ∈ (final (step opts) (createDispatcher n) es).drains, drain.waiting = []) ∧
          (0 < opts.idleFlushMs → Emptied (final (step opts) (createDispatcher n) es)) := by
  refine ⟨fun es d mem => ?_, follows_wellFounded opts, fun es rest =>
    ⟨drains_returned rest, (accounted_final opts es).emptied rest⟩⟩
  exact (@visited_of_taken _ _ (step opts) (Accounted opts) (fun _ _ => True)
    (fun _ _ _ ok _ went => step_accounted ok went) _ (Accounted.initial opts) _
    (fun _ _ => trivial) d mem).conserves

end Dispatch

section Demo

def demoRow (id : String) : Row where
  id := id
  riskClass := "FX"
  bucket := "EURUSD"
  sensitivityType := .delta
  book := none
  tradeId := none
  riskFactor := none
  desk := none
  riskValue := .number 1
  tenor := none

def demoOptions (maxRetries : ℤ) : DispatcherOptions where
  batchSize := 2
  idleFlushMs := 50
  maxRetries := maxRetries
  tenorsByClass := none
  batch_pos := Nat.two_pos
  highWater := 1
  high_pos := Nat.one_pos

/-- A drain returns while the row of a producer it let through waits with the other worker. -/
def passedBy : List (Event 2) :=
  [.enqueue (demoRow "1"), .enqueue (demoRow "2"), .drain, .replied 0 (.replies []), .resumed,
    .looped 0, .drained 0 0]

/-- With no retries allowed a row is still sent once. -/
def sentOnce : List (Event 2) :=
  [.enqueue (demoRow "1"), .drain, .replied 0 (.replies [])]

def returnedEmpty (d : Dispatcher 2) : Bool :=
  d.drains.all fun drain => !drain.waiting.isEmpty || (d.workers 0).buffer.isEmpty &&
    (d.workers 1).buffer.isEmpty

theorem dispatcher_conserves_two :
    (∀ es, ∀ d ∈ visited (step (demoOptions 3)) (createDispatcher 2) es,
      Conserves (demoOptions 3) d) ∧
      WellFounded (Follows (n := 2) (demoOptions 3)) ∧
      ∀ es, AtRest (demoOptions 3) (final (step (demoOptions 3)) (createDispatcher 2) es) →
        (∀ drain ∈ (final (step (demoOptions 3)) (createDispatcher 2) es).drains,
          drain.waiting = []) ∧
          (0 < (demoOptions 3).idleFlushMs →
            Emptied (final (step (demoOptions 3)) (createDispatcher 2) es)) :=
  dispatcher_conserves 2 (demoOptions 3)

theorem drain_leaves_row :
    returnedEmpty (final (step (demoOptions 3)) (createDispatcher 2) passedBy) = false ∧
      ∃ s ∈ (final (step (demoOptions 0)) (createDispatcher 2) sentOnce).settled,
        (demoOptions 0).maxRetries < s.entry.executed := by
  constructor
  · decide +kernel
  · refine ⟨_, List.mem_cons_self, ?_⟩
    decide +kernel

end Demo

end BulkLoader
