import Frtb.LoaderFlush

/-!
# Every accepted row settles

A worker keeps the rows that it buffers or flushes and those of the batches whose
flush has rejected; whatever else it is handed settles once. Each step that is no
request spends an attempt of a row, a timer or a turn of the loop. Where no accepted
row is harmful no flush rejects, so at rest nothing is kept.
-/

namespace LoaderFlush

open AssocMaps JsonText EventRuns
open BulkLoader (Reply isPermanentError DispatcherOptions)
open LoaderRows (layRow layRow_eq_none_iff parseRowsBody Harmful)

section Accounting

def BufferedRow.label (e : BufferedRow) : Json × ℕ := (e.row, e.ticket)

/-- The rows of a list with their tickets. -/
def bag (es : List BufferedRow) : Multiset (Json × ℕ) := (es.map BufferedRow.label : List _)

def settledBag (settled : List Settled) : Multiset (Json × ℕ) := bag (settled.map Settled.entry)

/-- The accepted rows, numbered in order. -/
def acceptedBag (rows : List Json) : Multiset (Json × ℕ) := (rows.zipIdx : List _)

def flushing : Option Flush → List BufferedRow
  | some (.malformed entry rest piped) => entry :: (rest ++ piped)
  | some (.exec batch) => batch
  | some (.deadLetter entry rest) => entry :: rest.map Prod.fst
  | _ => []

/-- The rows of a worker that it has still to do with. -/
def Worker.held (w : Worker) : List BufferedRow := w.buffer ++ flushing w.flushPromise

/-- The rows that have not settled. -/
def Worker.kept (w : Worker) : Multiset (Json × ℕ) := bag w.held + bag w.lost

variable (opts : DispatcherOptions)

def attemptsBound : ℕ := max 1 opts.maxRetries.toNat

/-- What a row has left to spend. -/
def weight (e : BufferedRow) : ℕ := 5 * (attemptsBound opts - e.attempts)

def weights (es : List BufferedRow) : ℕ := (es.map (weight opts)).sum

def flushWeight : Option Flush → ℕ
  | none => 0
  | some (.malformed _ rest piped) => 3 + (weights opts rest + weights opts piped)
  | some (.exec batch) => weights opts batch
  | some (.deadLetter _ rest) => 4 + weights opts (rest.map Prod.fst)
  | some .threw => 1
  | some .done => 1

def Worker.weight (w : Worker) : ℕ :=
  weights opts w.buffer + flushWeight opts w.flushPromise + w.idleTimer.toNat

/-- Every row has attempts left, the rows of a flush have been laid out, and no empty
pipeline is sent. -/
structure Fits (w : Worker) : Prop where
  room : ∀ e ∈ w.held, e.attempts < attemptsBound opts
  laid : ∀ e ∈ flushing w.flushPromise, ¬ Harmful e.row
  sent : w.flushPromise ≠ some (.exec [])

/-- A worker with no harmful row that has lost nothing. -/
structure Whole (w : Worker) : Prop where
  clean : ∀ p ∈ w.kept, ¬ Harmful p.1
  lost : w.lost = []
  unbroken : w.flushPromise ≠ some .threw

/-- Such a worker, the rows of which will be looked at. -/
structure Sound (w : Worker) : Prop extends Whole w where
  attended : w.buffer ≠ [] → w.flushPromise.isSome ∨ w.idleTimer

@[simp] theorem bag_nil : bag [] = 0 := rfl

@[simp] theorem bag_cons (e : BufferedRow) (es : List BufferedRow) :
    bag (e :: es) = {e.label} + bag es := rfl

@[simp] theorem bag_append (es fs : List BufferedRow) : bag (es ++ fs) = bag es + bag fs := by
  rw [bag, List.map_append, ← Multiset.coe_add]
  rfl

@[simp] theorem settledBag_nil : settledBag [] = 0 := rfl

@[simp] theorem settledBag_cons (s : Settled) (settled : List Settled) :
    settledBag (s :: settled) = {s.entry.label} + settledBag settled := rfl

@[simp] theorem settledBag_append (ss ts : List Settled) :
    settledBag (ss ++ ts) = settledBag ss + settledBag ts := by
  rw [settledBag, List.map_append, bag_append]
  rfl

theorem card_bag (es : List BufferedRow) : (bag es).card = es.length := by
  rw [bag, Multiset.coe_card, List.length_map]

theorem card_settledBag (settled : List Settled) : (settledBag settled).card = settled.length := by
  rw [settledBag, card_bag, List.length_map]

theorem bag_filter (p : BufferedRow → Bool) (es : List BufferedRow) :
    bag (es.filter p) + bag (es.filter fun e => !p e) = bag es := by
  induction es with
  | nil => rfl
  | cons e es ih =>
    rw [bag_cons, ← ih]
    cases own : p e
    · simp only [List.filter_cons, own, Bool.not_false, if_true, if_false, bag_cons,
        Bool.false_eq_true]
      abel
    · simp only [List.filter_cons, own, Bool.not_true, if_true, if_false, bag_cons,
        Bool.false_eq_true]
      abel

@[simp] theorem weights_nil : weights opts [] = 0 := rfl

@[simp] theorem weights_cons (e : BufferedRow) (es : List BufferedRow) :
    weights opts (e :: es) = weight opts e + weights opts es := by
  rw [weights, List.map_cons, List.sum_cons, weights]

@[simp] theorem weights_append (es fs : List BufferedRow) :
    weights opts (es ++ fs) = weights opts es + weights opts fs := by
  rw [weights, List.map_append, List.sum_append, weights, weights]

theorem weights_filter (p : BufferedRow → Bool) (es : List BufferedRow) :
    weights opts (es.filter p) + weights opts (es.filter fun e => !p e) = weights opts es := by
  induction es with
  | nil => rfl
  | cons e es ih =>
    rw [weights_cons, ← ih]
    cases own : p e <;> simp [own] <;> omega

end Accounting

section Steps
variable {opts : DispatcherOptions} {w : Worker}

theorem weight_pos {e : BufferedRow} (room : e.attempts < attemptsBound opts) :
    5 ≤ weight opts e := by
  unfold weight
  omega

theorem weights_pos {es : List BufferedRow} (some : es ≠ [])
    (room : ∀ e ∈ es, e.attempts < attemptsBound opts) : 5 ≤ weights opts es := by
  obtain ⟨e, rest, rfl⟩ := List.exists_cons_of_ne_nil some
  have own := weight_pos (room e List.mem_cons_self)
  rw [weights_cons]
  omega

/-- What the walk over the rest of a batch does: the rows are requeued or settle, and
unless nothing is left of the batch, attempts are spent. -/
structure Walks (opts : DispatcherOptions) (w : Worker) (rest : List Result)
    (went : Worker × List Settled) : Prop where
  rows : bag went.1.held + settledBag went.2 = bag w.buffer + bag (rest.map Prod.fst)
  settles : ∀ s ∈ went.2, s.entry ∈ rest.map Prod.fst
  stays : ∀ e ∈ flushing went.1.flushPromise, e ∈ rest.map Prod.fst
  lost : went.1.lost = w.lost
  room : ∀ e ∈ went.1.held, e.attempts < attemptsBound opts
  sent : went.1.flushPromise ≠ some (.exec [])
  running : went.1.flushPromise.isSome
  unbroken : went.1.flushPromise ≠ some .threw
  weighs : went.1.weight opts ≤ weights opts w.buffer + weights opts (rest.map Prod.fst) + 1 +
    w.idleTimer.toNat
  spends : rest ≠ [] → went.1.weight opts < weights opts w.buffer +
    weights opts (rest.map Prod.fst) + w.idleTimer.toNat

theorem walk_walks (rest : List Result) : ∀ w : Worker,
    (∀ e ∈ w.buffer, e.attempts < attemptsBound opts) →
    (∀ e ∈ rest.map Prod.fst, e.attempts < attemptsBound opts) →
    Walks opts w rest (walk opts w rest) := by
  induction rest with
  | nil =>
    intro w room _
    refine ⟨?_, nofun, nofun, rfl, ?_, nofun, rfl, nofun, ?_, fun some => absurd rfl some⟩
    · simp [walk, Worker.held, flushing]
    · simpa [walk, Worker.held, flushing] using room
    · simp [walk, Worker.weight, flushWeight]
  | cons result rest ih =>
    intro w room tried
    obtain ⟨entry, error⟩ := result
    have own := tried entry List.mem_cons_self
    have others : ∀ e ∈ rest.map Prod.fst, e.attempts < attemptsBound opts :=
      fun e mem => tried e (List.mem_cons_of_mem _ mem)
    have heavy := weight_pos own
    cases error with
    | none =>
      obtain ⟨rows, settles, stays, lost, room', sent, running, unbroken, weighs, -⟩ :=
        ih w room others
      refine ⟨?_, ?_, fun e mem =>
        List.mem_cons_of_mem _ (stays e mem), lost, room', sent, running, unbroken, ?_, fun _ => ?_⟩
      · simp only [walk, settledBag_cons, List.map_cons, bag_cons]
        rw [add_left_comm, rows]
        abel
      · exact List.forall_mem_cons.mpr
          ⟨List.mem_cons_self, fun s mem => List.mem_cons_of_mem _ (settles s mem)⟩
      · simp only [walk, List.map_cons, weights_cons]
        omega
      · simp only [walk, List.map_cons, weights_cons]
        omega
    | some err =>
      by_cases gone : isPermanentError err ∨ opts.maxRetries ≤ ((entry.attempts + 1 : ℕ) : ℤ)
      · have walks : walk opts w ((entry, some err) :: rest) =
            ({ w with flushPromise := some (.deadLetter entry rest) }, []) := by
          rw [walk, if_pos gone]
        rw [walks]
        refine ⟨?_, nofun, fun e mem => mem, rfl, ?_, nofun, rfl, nofun, ?_, fun _ => ?_⟩
        · simp [Worker.held, flushing]
        · intro e mem
          rcases List.mem_append.mp mem with mem | mem
          · exact room e mem
          · exact tried e mem
        · simp only [Worker.weight, flushWeight, List.map_cons, weights_cons]
          omega
        · simp only [Worker.weight, flushWeight, List.map_cons, weights_cons]
          omega
      · have walks : walk opts w ((entry, some err) :: rest) =
            walk opts { w with buffer := { entry with attempts := entry.attempts + 1 } :: w.buffer }
              rest := by
          rw [walk, if_neg gone]
        have again : entry.attempts + 1 < attemptsBound opts := by
          rw [not_or, not_le] at gone
          have := gone.2
          unfold attemptsBound
          omega
        have lighter : weight opts { entry with attempts := entry.attempts + 1 } + 5 =
            weight opts entry := by
          simp only [weight]
          omega
        rw [walks]
        obtain ⟨rows, settles, stays, lost, room', sent, running, unbroken, weighs, -⟩ := ih
          { w with buffer := { entry with attempts := entry.attempts + 1 } :: w.buffer }
          (fun e mem => (List.mem_cons.mp mem).elim (fun same => same ▸ again) (room e)) others
        refine ⟨?_, fun s mem => List.mem_cons_of_mem _ (settles s mem),
          fun e mem => List.mem_cons_of_mem _ (stays e mem), lost, room', sent,
            running, unbroken, ?_,
          fun _ => ?_⟩
        · rw [rows, bag_cons, List.map_cons, bag_cons]
          show {entry.label} + bag w.buffer + _ = _
          abel
        · simp only [List.map_cons, weights_cons] at weighs ⊢
          omega
        · simp only [List.map_cons, weights_cons] at weighs ⊢
          omega

theorem results_rows (batch : List BufferedRow) (reply : Reply) :
    (results batch reply).map Prod.fst = batch := by
  have walked : ∀ (errors : List (Option String)) (i : ℕ),
      (rowResults errors i batch).map Prod.fst = batch := by
    intro errors
    induction batch with
    | nil => exact fun _ => rfl
    | cons entry rest ih => exact fun i => congrArg (entry :: ·) (ih _)
  cases reply with
  | thrown message => simp [results, Function.comp_def]
  | null => simp [results, Function.comp_def]
  | replies errors => exact walked errors 0

/-- A flush rejects exactly when its batch holds a harmful row. -/
theorem flushBatch_threw_iff (batch : List BufferedRow) :
    (flushBatch opts w batch).flushPromise = some .threw ↔ ∃ e ∈ batch, Harmful e.row := by
  have thrown : batch.any (throws opts) = true ↔ ∃ e ∈ batch, Harmful e.row := by
    simp only [List.any_eq_true, throws, Option.isNone_iff_eq_none, layRow_eq_none_iff]
  rw [← thrown]
  unfold flushBatch
  split
  · rename_i throws
    exact iff_of_true rfl throws
  · rename_i lays
    refine iff_of_false ?_ lays
    split
    · rw [execute]
      split <;> nofun
    · nofun

/-- What a flush does with its batch. -/
structure Flushes (opts : DispatcherOptions) (w : Worker) (batch : List BufferedRow)
    (after : Worker) : Prop where
  rows : after.kept = bag w.buffer + bag batch + bag w.lost
  fits : Fits opts after
  running : after.flushPromise.isSome
  weighs : after.weight opts ≤ weights opts w.buffer + weights opts batch + w.idleTimer.toNat
  whole : (∀ e ∈ batch, ¬ Harmful e.row) → after.lost = w.lost

theorem flushBatch_flushes {batch : List BufferedRow} (some : batch ≠ [])
    (room : ∀ e ∈ w.buffer, e.attempts < attemptsBound opts)
    (roomToo : ∀ e ∈ batch, e.attempts < attemptsBound opts) :
    Flushes opts w batch (flushBatch opts w batch) := by
  have rowsSplit := bag_filter (isMalformed opts) batch
  have weightSplit := weights_filter opts (isMalformed opts) batch
  have heavy := weights_pos some roomToo
  have threw := @flushBatch_threw_iff opts w batch
  have good : ∀ p : BufferedRow → Bool, ∀ e ∈ batch.filter p, e.attempts < attemptsBound opts :=
    fun p e mem => roomToo e (List.mem_of_mem_filter mem)
  have lays : ¬ batch.any (throws opts) = true → ∀ e ∈ batch, ¬ Harmful e.row := by
    intro lays e mem bad
    have threw := threw.mpr ⟨e, mem, bad⟩
    simp only [List.any_eq_true, throws, Option.isNone_iff_eq_none, layRow_eq_none_iff] at lays
    exact lays ⟨e, mem, bad⟩
  unfold flushBatch at threw ⊢
  split
  · rename_i throws
    refine ⟨?_, ⟨?_, nofun, nofun⟩, rfl, ?_, fun clean => ?_⟩
    · simp only [Worker.kept, Worker.held, flushing, List.append_nil, bag_append]
      abel
    · simpa [Worker.held, flushing] using room
    · simp only [Worker.weight, flushWeight]
      omega
    · rw [if_pos throws] at threw
      obtain ⟨e, mem, bad⟩ := threw.mp rfl
      exact absurd bad (clean e mem)
  · rename_i lay
    have clean : ∀ p : BufferedRow → Bool, ∀ e ∈ batch.filter p, ¬ Harmful e.row :=
      fun p e mem => lays lay e (List.mem_of_mem_filter mem)
    split
    · rename_i allPiped
      rw [allPiped, bag_nil, zero_add] at rowsSplit
      rw [allPiped, weights_nil, Nat.zero_add] at weightSplit
      have nonempty : batch.filter (fun e => !isMalformed opts e) ≠ [] := by
        intro empty
        rw [empty, weights_nil] at weightSplit
        omega
      rw [execute, List.isEmpty_eq_false_iff.mpr nonempty, if_neg Bool.false_ne_true]
      refine ⟨?_, ⟨?_, clean _, fun same => ?_⟩, rfl, ?_, fun _ => rfl⟩
      · simp only [Worker.kept, Worker.held, flushing, bag_append, rowsSplit]
      · intro e mem
        exact (List.mem_append.mp mem).elim (room e) (good _ e)
      · exact nonempty (Flush.exec.inj (Option.some.inj same))
      · simp only [Worker.weight, flushWeight]
        omega
    · rename_i entry rest bad
      have first : entry.attempts < attemptsBound opts :=
        good _ entry (bad ▸ List.mem_cons_self)
      rw [bad, bag_cons] at rowsSplit
      rw [bad, weights_cons] at weightSplit
      have heavyFirst := weight_pos first
      refine ⟨?_, ⟨?_, ?_, nofun⟩, rfl, ?_, fun _ => rfl⟩
      · simp only [Worker.kept, Worker.held, flushing, bag_append, bag_cons, ← rowsSplit]
        abel
      · intro e mem
        rcases List.mem_append.mp mem with mem | mem
        · exact room e mem
        · rw [flushing, ← List.cons_append] at mem
          refine (List.mem_append.mp mem).elim (fun mem => ?_) (good _ e)
          exact good (isMalformed opts) e (bad ▸ mem)
      · intro e mem
        rw [flushing, ← List.cons_append] at mem
        refine (List.mem_append.mp mem).elim (fun mem => ?_) (clean _ e)
        exact clean (isMalformed opts) e (bad ▸ mem)
      · simp only [Worker.weight, flushWeight]
        omega

/-- The loop takes the front of the buffer or ends. -/
structure Turns (opts : DispatcherOptions) (w after : Worker) : Prop where
  rows : after.kept = bag w.buffer + bag w.lost
  fits : Fits opts after
  attended : after.buffer ≠ [] → after.flushPromise.isSome
  running : w.buffer ≠ [] → after.flushPromise.isSome
  weighs : after.weight opts ≤ weights opts w.buffer + w.idleTimer.toNat
  whole : (∀ e ∈ w.buffer, ¬ Harmful e.row) →
    after.lost = w.lost ∧ after.flushPromise ≠ some .threw

theorem turn_turns (room : ∀ e ∈ w.buffer, e.attempts < attemptsBound opts) :
    Turns opts w (turn opts w) := by
  unfold turn
  split
  · rename_i empty
    have none : w.buffer = [] := List.isEmpty_iff.mp empty
    refine ⟨?_, ⟨?_, nofun, nofun⟩, fun some => absurd none some, fun some => absurd none some, ?_,
      fun _ => ⟨rfl, nofun⟩⟩
    · simp [Worker.kept, Worker.held, flushing]
    · simpa [Worker.held, flushing] using room
    · simp [Worker.weight, flushWeight]
  · rename_i filled
    have some : w.buffer.take opts.batchSize ≠ [] := by
      intro empty
      rcases List.take_eq_nil_iff.mp empty with zero | none
      · exact absurd opts.batch_pos (by omega)
      · exact filled (List.isEmpty_iff.mpr none)
    have split := List.take_append_drop opts.batchSize w.buffer
    have spec := @flushBatch_flushes opts
      { w with buffer := w.buffer.drop opts.batchSize } (w.buffer.take opts.batchSize) some
      (fun e mem => room e (List.mem_of_mem_drop mem))
      (fun e mem => room e (List.mem_of_mem_take mem))
    refine ⟨?_, spec.fits, fun _ => spec.running, fun _ => spec.running, ?_, fun clean => ⟨?_, ?_⟩⟩
    · rw [spec.rows, ← split, bag_append, split]
      abel
    · have both := congrArg (weights opts) split
      have := spec.weighs
      rw [weights_append] at both
      dsimp only at this
      omega
    · exact spec.whole fun e mem => clean e (List.mem_of_mem_take mem)
    · rw [Ne, flushBatch_threw_iff]
      rintro ⟨e, mem, bad⟩
      exact clean e (List.mem_of_mem_take mem) bad

theorem Whole.mono {after : Worker} (whole : Whole w) (lost : after.lost = w.lost)
    (unbroken : after.flushPromise ≠ some .threw)
    (kept : ∀ p ∈ after.kept, ¬ Harmful p.1) : Whole after :=
  ⟨kept, lost.trans whole.lost, unbroken⟩

theorem Whole.buffer (whole : Whole w) : ∀ e ∈ w.buffer, ¬ Harmful e.row := by
  intro e mem
  refine whole.clean e.label (Multiset.mem_add.mpr (.inl ?_))
  exact Multiset.mem_coe.mpr (List.mem_map_of_mem (List.mem_append_left _ mem))

/-- `scheduleFlush`: the loop is running if there was anything in the buffer. -/
structure Schedules (opts : DispatcherOptions) (w after : Worker) : Prop where
  rows : after.kept = w.kept
  fits : Fits opts after
  attended : after.buffer ≠ [] → after.flushPromise.isSome
  weighs : after.weight opts ≤ w.weight opts
  whole : Whole w → Whole after

theorem schedule_schedules (fits : Fits opts w) : Schedules opts w (scheduleFlush opts w) := by
  unfold scheduleFlush
  split
  · rename_i running
    exact ⟨rfl, fits, fun _ => running, le_rfl, id⟩
  · rename_i stopped
    rw [Option.not_isSome_iff_eq_none] at stopped
    have spec := @turn_turns opts w fun e mem =>
      fits.room e (List.mem_append_left _ mem)
    have kept : w.kept = bag w.buffer + bag w.lost := by
      rw [Worker.kept, Worker.held, stopped]
      exact congrArg (bag · + bag w.lost) (List.append_nil _)
    refine ⟨spec.rows.trans kept.symm, spec.fits, spec.attended, ?_, fun whole => ?_⟩
    · have := spec.weighs
      unfold Worker.weight at this ⊢
      omega
    · obtain ⟨lost, unbroken⟩ := spec.whole whole.buffer
      refine whole.mono lost unbroken ?_
      rw [spec.rows, ← kept]
      exact whole.clean

/-- A worker goes on with the rows that it keeps and those it is handed. -/
structure Goes (opts : DispatcherOptions) (w : Worker) (new : Multiset (Json × ℕ))
    (went : Worker × List Settled) : Prop where
  rows : went.1.kept + settledBag went.2 = w.kept + new
  laid : ∀ s ∈ went.2, ¬ Harmful s.entry.row
  fits : Fits opts went.1
  sound : 0 < opts.idleFlushMs → (∀ p ∈ new, ¬ Harmful p.1) → Sound w → Sound went.1

/-- A worker that goes on by itself spends something. -/
structure Works (opts : DispatcherOptions) (w : Worker) (went : Worker × List Settled) : Prop
    extends Goes opts w 0 went where
  spends : went.1.weight opts < w.weight opts

theorem push_goes (fits : Fits opts w) (ticket : ℕ) (row : Json) :
    Goes opts w {(row, ticket)} (push opts w ticket row, []) := by
  have first : 0 < attemptsBound opts := lt_of_lt_of_le Nat.zero_lt_one (le_max_left _ _)
  have kept : ∀ timer, Worker.kept { w with
      buffer := w.buffer ++ [BufferedRow.mk ticket row 0], idleTimer := timer } =
        w.kept + {(row, ticket)} := by
    intro timer
    simp only [Worker.kept, Worker.held, bag_append, bag_cons, bag_nil, add_zero,
      BufferedRow.label]
    abel
  have fitsToo : ∀ timer, Fits opts { w with
      buffer := w.buffer ++ [BufferedRow.mk ticket row 0], idleTimer := timer } := by
    refine fun timer => ⟨fun e mem => ?_, fits.laid, fits.sent⟩
    simp only [Worker.held, List.mem_append, List.mem_singleton] at mem
    rcases mem with (mem | rfl) | mem
    · exact fits.room e (List.mem_append_left _ mem)
    · exact first
    · exact fits.room e (List.mem_append_right _ mem)
  have wholeToo : ∀ timer, ¬ Harmful row → Whole w → Whole { w with
      buffer := w.buffer ++ [BufferedRow.mk ticket row 0], idleTimer := timer } := by
    intro timer clean whole
    refine whole.mono rfl whole.unbroken ?_
    rw [kept timer]
    intro p mem
    rcases Multiset.mem_add.mp mem with mem | mem
    · exact whole.clean p mem
    · rw [Multiset.mem_singleton.mp mem]
      exact clean
  unfold push
  dsimp only
  split
  · have spec := schedule_schedules (fitsToo false)
    refine ⟨?_, nofun, spec.fits, fun _ clean sound => ⟨?_, fun some => .inl (spec.attended some)⟩⟩
    · rw [settledBag_nil, add_zero, spec.rows, kept]
    · exact spec.whole (wholeToo false (clean _ (Multiset.mem_singleton_self _)) sound.toWhole)
  · refine ⟨?_, nofun, fitsToo _, fun idle clean sound => ⟨?_, fun _ => .inr (decide_eq_true idle)⟩⟩
    · rw [settledBag_nil, add_zero, kept]
    · exact wholeToo _ (clean _ (Multiset.mem_singleton_self _)) sound.toWhole

/-- The timer is stopped. -/
theorem quiet_fits (fits : Fits opts w) : Fits opts { w with idleTimer := false } :=
  ⟨fits.room, fits.laid, fits.sent⟩

theorem quiet_whole (whole : Whole w) : Whole { w with idleTimer := false } :=
  ⟨whole.clean, whole.lost, whole.unbroken⟩

theorem drain_goes (fits : Fits opts w) : Goes opts w 0 (startDrain opts w, []) := by
  unfold startDrain
  dsimp only
  split
  · rename_i empty
    refine ⟨rfl, nofun, quiet_fits fits, fun _ _ sound =>
      ⟨quiet_whole sound.toWhole, fun some => ?_⟩⟩
    exact absurd (List.isEmpty_iff.mp empty) some
  · have spec := schedule_schedules (quiet_fits fits)
    exact ⟨by rw [settledBag_nil, add_zero, add_zero, spec.rows]; rfl, nofun, spec.fits,
      fun _ _ sound => ⟨spec.whole (quiet_whole sound.toWhole), fun some =>
        .inl (spec.attended some)⟩⟩

theorem idle_works (fits : Fits opts w) {w' : Worker} (went : idleFlush opts w = some w') :
    Works opts w (w', []) := by
  unfold idleFlush at went
  split at went
  · rename_i armed
    have lighter : Worker.weight opts { w with idleTimer := false } < w.weight opts := by
      simp [Worker.weight, armed]
    cases went
    split
    · rename_i empty
      refine ⟨⟨rfl, nofun, quiet_fits fits, fun _ _ sound =>
        ⟨quiet_whole sound.toWhole, fun some => ?_⟩⟩,
        lighter⟩
      exact absurd (List.isEmpty_iff.mp empty) some
    · have spec := schedule_schedules (quiet_fits fits)
      refine ⟨⟨?_, nofun, spec.fits, fun _ _ sound =>
        ⟨spec.whole (quiet_whole sound.toWhole), fun some =>
        .inl (spec.attended some)⟩⟩, lt_of_le_of_lt spec.weighs lighter⟩
      rw [settledBag_nil, add_zero, add_zero, spec.rows]
      rfl
  · cases went

/-- The walk over the rest of a batch, from a flush that holds it and perhaps one row more. -/
theorem walk_goes (fits : Fits opts w) {rest : List Result} {entry : List Settled}
    (holds : flushing w.flushPromise = entry.map Settled.entry ++ rest.map Prod.fst)
    (room : ∀ e ∈ rest.map Prod.fst, e.attempts < attemptsBound opts) :
    Goes opts w 0 ((walk opts w rest).1, entry ++ (walk opts w rest).2) := by
  have spec := walk_walks rest w (fun e mem => fits.room e (List.mem_append_left _ mem)) room
  have rows : (walk opts w rest).1.kept + settledBag (entry ++ (walk opts w rest).2) = w.kept := by
    have held : bag w.held = bag w.buffer + (settledBag entry + bag (rest.map Prod.fst)) := by
      rw [Worker.held, bag_append, holds, bag_append]
      rfl
    rw [Worker.kept, Worker.kept, held, settledBag_append, spec.lost]
    have := spec.rows
    calc _ = bag (walk opts w rest).1.held + settledBag (walk opts w rest).2 + bag w.lost +
          settledBag entry := by abel
      _ = _ := by rw [this]; abel
  have laid : ∀ e ∈ rest.map Prod.fst, ¬ Harmful e.row := fun e mem =>
    fits.laid e (holds ▸ List.mem_append_right _ mem)
  refine ⟨rows.trans (add_zero _).symm, fun s mem => ?_,
    ⟨spec.room, fun e mem => laid e (spec.stays e mem), spec.sent⟩,
    fun _ _ sound => ⟨?_, fun _ => .inl spec.running⟩⟩
  · rcases List.mem_append.mp mem with mem | mem
    · exact fits.laid _ (holds ▸ List.mem_append_left _ (List.mem_map_of_mem mem))
    · exact laid _ (spec.settles s mem)
  refine sound.toWhole.mono spec.lost spec.unbroken fun p mem => ?_
  exact sound.clean p (rows ▸ Multiset.mem_add.mpr (.inl mem))

theorem replied_works (fits : Fits opts w) {reply : Reply} {went : Worker × List Settled}
    (goes : replied opts w reply = some went) : Works opts w went := by
  unfold replied at goes
  split at goes
  · rename_i batch own
    cases goes
    have rows := results_rows batch reply
    have held : ∀ e ∈ batch, e.attempts < attemptsBound opts := fun e mem =>
      fits.room e (List.mem_append_right _ (by rw [own]; exact mem))
    have spec := walk_walks (results batch reply) w
      (fun e mem => fits.room e (List.mem_append_left _ mem)) (by rwa [rows])
    refine ⟨@walk_goes _ _ fits _ [] ?_ (by rwa [rows]), ?_⟩
    · rw [own, rows]
      rfl
    · have nonempty : results batch reply ≠ [] := by
        intro empty
        rw [empty] at rows
        rw [← rows] at own
        exact fits.sent own
      have := spec.spends nonempty
      rw [rows] at this
      rw [Worker.weight, Worker.weight, own, flushWeight]
      exact this
  · cases goes

/-- The pipeline of a batch the malformed rows of which are dead-lettered. -/
theorem execute_goes (fits : Fits opts w) {entry : BufferedRow} {piped : List BufferedRow}
    (own : w.flushPromise = some (.malformed entry [] piped)) :
    Works opts w (execute w piped, [Settled.mk entry false]) := by
  have room : ∀ e ∈ entry :: ([] ++ piped), e.attempts < attemptsBound opts := fun e mem =>
    fits.room e (List.mem_append_right _ (by rw [own]; exact mem))
  have rows : (execute w piped).kept + settledBag [Settled.mk entry false] = w.kept := by
    rw [Worker.kept, Worker.kept, Worker.held, Worker.held, own, execute]
    cases piped with
    | nil =>
      simp only [List.isEmpty_nil, if_true, flushing, bag_append, bag_cons, bag_nil,
        settledBag_cons, settledBag_nil, List.append_nil]
      abel
    | cons e piped =>
      simp only [List.isEmpty_cons, Bool.false_eq_true, if_false, flushing, bag_append, bag_cons,
        settledBag_cons, settledBag_nil, List.nil_append]
      abel
  have unbroken : (execute w piped).flushPromise ≠ some .threw := by
    rw [execute]
    split <;> nofun
  have laid : ∀ e ∈ entry :: ([] ++ piped), ¬ Harmful e.row := fun e mem =>
    fits.laid e (by rw [own]; exact mem)
  refine ⟨⟨rows.trans (add_zero _).symm, fun s mem => ?_, ⟨fun e mem => ?_, fun e mem => ?_, ?_⟩,
    fun _ _ sound => ⟨?_, fun _ => .inl rfl⟩⟩, ?_⟩
  · rw [List.mem_singleton.mp mem]
    exact laid entry List.mem_cons_self
  · rcases List.mem_append.mp mem with mem | mem
    · exact fits.room e (List.mem_append_left _ mem)
    · rw [execute] at mem
      cases piped with
      | nil => cases mem
      | cons first rest => exact room e (List.mem_cons_of_mem _ mem)
  · rw [execute] at mem
    cases piped with
    | nil => cases mem
    | cons first rest => exact laid e (List.mem_cons_of_mem _ mem)
  · cases piped <;> simp [execute]
  · refine sound.toWhole.mono rfl unbroken fun p mem => ?_
    exact sound.clean p (rows ▸ Multiset.mem_add.mpr (.inl mem))
  · rw [Worker.weight, Worker.weight, own, execute]
    cases piped with
    | nil =>
      simp only [List.isEmpty_nil, if_true, flushWeight]
      omega
    | cons e piped =>
      simp only [List.isEmpty_cons, Bool.false_eq_true, if_false, flushWeight, weights_nil]
      omega

theorem deadLettered_works (fits : Fits opts w) {went : Worker × List Settled}
    (goes : deadLettered opts w = some went) : Works opts w went := by
  unfold deadLettered at goes
  split at goes
  · rename_i entry next rest piped own
    cases goes
    have room : ∀ e ∈ entry :: (next :: rest ++ piped), e.attempts < attemptsBound opts :=
      fun e mem => fits.room e (List.mem_append_right _ (by rw [own]; exact mem))
    have rows : Worker.kept { w with flushPromise := some (.malformed next rest piped) } +
        settledBag [Settled.mk entry false] = w.kept := by
      rw [Worker.kept, Worker.kept, Worker.held, Worker.held, own]
      simp only [flushing, bag_append, bag_cons, settledBag_cons, settledBag_nil]
      abel
    have laid : ∀ e ∈ entry :: (next :: rest ++ piped), ¬ Harmful e.row := fun e mem =>
      fits.laid e (by rw [own]; exact mem)
    refine ⟨⟨rows.trans (add_zero _).symm, fun s mem => ?_, ⟨fun e mem => ?_,
      fun e mem => laid e (List.mem_cons_of_mem _ mem), nofun⟩,
      fun _ _ sound => ⟨?_, fun _ => .inl rfl⟩⟩, ?_⟩
    · rw [List.mem_singleton.mp mem]
      exact laid entry List.mem_cons_self
    · rcases List.mem_append.mp mem with mem | mem
      · exact fits.room e (List.mem_append_left _ mem)
      · exact room e (List.mem_cons_of_mem _ mem)
    · refine sound.toWhole.mono rfl nofun fun p mem => ?_
      exact sound.clean p (rows ▸ Multiset.mem_add.mpr (.inl mem))
    · have := weight_pos (room next (List.mem_cons_of_mem _ List.mem_cons_self))
      rw [Worker.weight, Worker.weight, own]
      simp only [flushWeight, weights_cons]
      omega
  · rename_i entry piped own
    cases goes
    exact execute_goes fits own
  · rename_i entry rest own
    cases goes
    have room : ∀ e ∈ entry :: rest.map Prod.fst, e.attempts < attemptsBound opts :=
      fun e mem => fits.room e (List.mem_append_right _ (by rw [own]; exact mem))
    have others : ∀ e ∈ rest.map Prod.fst, e.attempts < attemptsBound opts :=
      fun e mem => room e (List.mem_cons_of_mem _ mem)
    have spec := walk_walks rest w (fun e mem => fits.room e (List.mem_append_left _ mem)) others
    refine ⟨@walk_goes _ _ fits _ [Settled.mk entry false] ?_ others, ?_⟩
    · rw [own]
      rfl
    · have := spec.weighs
      unfold Worker.weight at this ⊢
      rw [own, flushWeight]
      dsimp only
      omega
  · cases goes

theorem looped_works (fits : Fits opts w) {w' : Worker} (went : looped opts w = some w') :
    Works opts w (w', []) := by
  unfold looped at went
  split at went
  · rename_i own
    cases went
    have spec := @turn_turns opts w fun e mem =>
      fits.room e (List.mem_append_left _ mem)
    have kept : w.kept = bag w.buffer + bag w.lost := by
      rw [Worker.kept, Worker.held, own]
      exact congrArg (bag · + bag w.lost) (List.append_nil _)
    refine ⟨⟨?_, nofun, spec.fits, fun _ _ sound => ⟨?_, fun some => .inl (spec.attended some)⟩⟩,
      ?_⟩
    · rw [settledBag_nil, add_zero, add_zero, kept, spec.rows]
    · obtain ⟨lost, unbroken⟩ := spec.whole sound.buffer
      refine sound.toWhole.mono lost unbroken ?_
      rw [spec.rows, ← kept]
      exact sound.clean
    · have := spec.weighs
      unfold Worker.weight at this ⊢
      rw [own, flushWeight]
      dsimp only
      omega
  · rename_i own
    cases went
    refine ⟨⟨?_, nofun, ⟨fun e mem => ?_, nofun, nofun⟩,
      fun _ _ sound => absurd own sound.unbroken⟩, ?_⟩
    · rw [Worker.kept, Worker.kept, Worker.held, Worker.held, own]
      rfl
    · exact fits.room e (List.mem_append_left _ (by simpa [Worker.held, flushing] using mem))
    · rw [Worker.weight, Worker.weight, own]
      simp only [flushWeight]
      omega
  · cases went

end Steps

section Runs
variable {n : ℕ} [NeZero n] {opts : DispatcherOptions} {d : Loader n}

/-- The accounts of the server. The workers are sound as long as no accepted row is harmful. -/
structure Accounted (opts : DispatcherOptions) (d : Loader n) : Prop where
  fits : ∀ i, Fits opts (d.workers i)
  once : ∑ i, (d.workers i).kept + settledBag d.settled = acceptedBag d.accepted
  counted : d.inFlight = (∑ i, (d.workers i).kept).card
  laid : ∀ s ∈ d.settled, ¬ Harmful s.entry.row
  sound : 0 < opts.idleFlushMs → (∀ row ∈ d.accepted, ¬ Harmful row) → ∀ i, Sound (d.workers i)

omit [NeZero n] in
theorem sum_put {M : Type*} [AddCommMonoid M] (f : Worker → M) (ws : Fin n → Worker) (i : Fin n)
    (w : Worker) : ∑ j, f (Function.update ws i w j) + f (ws i) = ∑ j, f (ws j) + f w := by
  have split : ∀ g : Fin n → M, ∑ j, g j = g i + ∑ j ∈ Finset.univ.erase i, g j :=
    fun g => (Finset.add_sum_erase Finset.univ g (Finset.mem_univ i)).symm
  have others : ∑ j ∈ Finset.univ.erase i, f (Function.update ws i w j) =
      ∑ j ∈ Finset.univ.erase i, f (ws j) :=
    Finset.sum_congr rfl fun j mem => by rw [Function.update_of_ne (Finset.ne_of_mem_erase mem)]
  rw [split, split fun j => f (ws j), others, Function.update_self]
  abel

theorem acceptedBag_append (rows : List Json) (row : Json) :
    acceptedBag (rows ++ [row]) = acceptedBag rows + {(row, rows.length)} := by
  rw [acceptedBag, List.zipIdx_append, ← Multiset.coe_add, Nat.zero_add]
  rfl

theorem Accounted.initial (opts : DispatcherOptions) (accepting : Bool) :
    Accounted opts (createLoader n accepting) := by
  refine ⟨fun _ => ⟨nofun, nofun, nofun⟩, ?_, ?_, nofun, fun _ _ i =>
    ⟨⟨nofun, rfl, nofun⟩, fun some => absurd rfl some⟩⟩
  · exact (add_zero _).trans (Finset.sum_eq_zero fun i _ => rfl)
  · exact (congrArg Multiset.card (Finset.sum_eq_zero fun i _ => rfl)).symm

omit [NeZero n] in
/-- A worker goes on without being handed a row. -/
theorem Accounted.report (ok : Accounted opts d) {i : Fin n} {went : Worker × List Settled}
    (goes : Goes opts (d.workers i) 0 went) : Accounted opts (report d i went) := by
  have rows : ∑ j, Worker.kept (Function.update d.workers i went.1 j) + settledBag went.2 =
      ∑ j, (d.workers j).kept := by
    have total := sum_put Worker.kept d.workers i went.1
    have own := goes.rows
    rw [add_zero] at own
    apply add_right_cancel (b := (d.workers i).kept)
    rw [add_right_comm, total, add_assoc, own]
  refine ⟨fun j => ?_, ?_, ?_, fun s mem => ?_, fun idle clean j => ?_⟩
  · by_cases own : j = i
    · subst own
      show Fits opts (Function.update d.workers j went.1 j)
      rw [Function.update_self]
      exact goes.fits
    · show Fits opts (Function.update d.workers i went.1 j)
      rw [Function.update_of_ne own]
      exact ok.fits j
  · show ∑ j, Worker.kept (Function.update d.workers i went.1 j) +
      settledBag (d.settled ++ went.2) = acceptedBag d.accepted
    rw [← ok.once, ← rows, settledBag_append]
    abel
  · show d.inFlight - went.2.length = (∑ j, Worker.kept (Function.update d.workers i went.1 j)).card
    rw [ok.counted, ← rows, Multiset.card_add, card_settledBag, Nat.add_sub_cancel]
  · exact (List.mem_append.mp mem).elim (ok.laid s) (goes.laid s)
  · show Sound (Function.update d.workers i went.1 j)
    have sound := ok.sound idle clean
    by_cases own : j = i
    · subst own
      rw [Function.update_self]
      exact goes.sound idle nofun (sound j)
    · rw [Function.update_of_ne own]
      exact sound j

omit [NeZero n] in
theorem report_nothing (i : Fin n) (w : Worker) : report d i (w, []) = putWorker d i w := by
  simp [report, putWorker]

theorem Accounted.enqueue (ok : Accounted opts d) (row : Json) :
    Accounted opts (enqueue opts d row) := by
  have goes := push_goes (ok.fits d.nextWorker) d.accepted.length row
  have rows : ∑ j, Worker.kept (Function.update d.workers d.nextWorker
      (push opts (d.workers d.nextWorker) d.accepted.length row) j) =
        ∑ j, (d.workers j).kept + {(row, d.accepted.length)} := by
    have total := sum_put Worker.kept d.workers d.nextWorker
      (push opts (d.workers d.nextWorker) d.accepted.length row)
    have own := goes.rows
    rw [settledBag_nil, add_zero] at own
    apply add_right_cancel (b := (d.workers d.nextWorker).kept)
    rw [total, own]
    abel
  refine ⟨fun j => ?_, ?_, ?_, ok.laid, fun idle clean j => ?_⟩
  · show Fits opts (Function.update d.workers d.nextWorker _ j)
    by_cases own : j = d.nextWorker
    · rw [own, Function.update_self]
      exact goes.fits
    · rw [Function.update_of_ne own]
      exact ok.fits j
  · show ∑ j, Worker.kept (Function.update d.workers d.nextWorker _ j) + settledBag d.settled =
      acceptedBag (d.accepted ++ [row])
    rw [rows, acceptedBag_append, ← ok.once]
    abel
  · show d.inFlight + 1 = (∑ j, Worker.kept (Function.update d.workers d.nextWorker _ j)).card
    rw [rows, Multiset.card_add, Multiset.card_singleton, ok.counted]
  · show Sound (Function.update d.workers d.nextWorker _ j)
    have sound := ok.sound idle fun row mem => clean row (List.mem_append_left _ mem)
    by_cases own : j = d.nextWorker
    · rw [own, Function.update_self]
      refine goes.sound idle (fun p mem => ?_) (sound d.nextWorker)
      rw [Multiset.mem_singleton.mp mem]
      exact clean row (List.mem_append_right _ List.mem_cons_self)
    · rw [Function.update_of_ne own]
      exact sound j

theorem Accounted.loadRows (ok : Accounted opts d) (contentType : Option String)
    (body : Option Json) : Accounted opts (loadRows opts d contentType body).1 := by
  unfold LoaderFlush.loadRows
  split
  · exact ok
  split
  · exact ok
  split
  · exact ok
  · rename_i rows _
    split
    · exact ok
    split
    · exact ok
    · exact List.foldlRecOn rows _ ok fun d ok row _ => ok.enqueue row

omit [NeZero n] in
theorem Accounted.drain (ok : Accounted opts d) :
    Accounted opts { d with workers := fun i => startDrain opts (d.workers i) } := by
  have goes := fun i => drain_goes (ok.fits i)
  have rows : ∀ i, (startDrain opts (d.workers i)).kept = (d.workers i).kept := by
    intro i
    have own := (goes i).rows
    rwa [settledBag_nil, add_zero, add_zero] at own
  have total := Finset.sum_congr (rfl : Finset.univ = Finset.univ) fun i _ => rows i
  exact ⟨fun i => (goes i).fits, total ▸ ok.once, total ▸ ok.counted, ok.laid,
    fun idle clean i => (goes i).sound idle nofun (ok.sound idle clean i)⟩

theorem step_accounted (ok : Accounted opts d) {e : Event n} {d' : Loader n}
    (went : step opts d e = some d') : Accounted opts d' := by
  cases e with
  | post contentType body =>
    cases went
    exact ok.loadRows contentType body
  | setAccepting accepting =>
    cases went
    exact ⟨ok.fits, ok.once, ok.counted, ok.laid, ok.sound⟩
  | setStale stale reason =>
    cases went
    exact ⟨ok.fits, ok.once, ok.counted, ok.laid, ok.sound⟩
  | drain =>
    cases went
    exact ok.drain
  | idle i =>
    obtain ⟨w, works, rfl⟩ := Option.map_eq_some_iff.mp went
    rw [← report_nothing]
    exact ok.report (idle_works (ok.fits i) works).toGoes
  | replied i reply =>
    obtain ⟨w, works, rfl⟩ := Option.map_eq_some_iff.mp went
    exact ok.report (replied_works (ok.fits i) works).toGoes
  | deadLettered i =>
    obtain ⟨w, works, rfl⟩ := Option.map_eq_some_iff.mp went
    exact ok.report (deadLettered_works (ok.fits i) works).toGoes
  | looped i =>
    obtain ⟨w, works, rfl⟩ := Option.map_eq_some_iff.mp went
    rw [← report_nothing]
    exact ok.report (looped_works (ok.fits i) works).toGoes

theorem accounted_final (opts : DispatcherOptions) (accepting : Bool) (es : List (Event n)) :
    Accounted opts (final (step opts) (createLoader n accepting) es) :=
  @visited_of_taken _ _ (step opts) (Accounted opts) (fun _ _ => True)
    (fun _ _ _ ok _ went => step_accounted ok went) _ (Accounted.initial opts accepting) _
    (fun _ _ => trivial) _ (final_mem_visited _ es)

/-- The events other than requests and calls. -/
def Event.internal : Event n → Prop
  | .idle _ => True
  | .replied _ _ => True
  | .deadLettered _ => True
  | .looped _ => True
  | _ => False

/-- Nothing happens until the next request or call. -/
def AtRest (opts : DispatcherOptions) (d : Loader n) : Prop :=
  ∀ e : Event n, e.internal → step opts d e = none

/-- `d'` comes after `d` by something other than a call, in some run. -/
def Follows (opts : DispatcherOptions) (d' d : Loader n) : Prop :=
  (∃ accepting es, final (step opts) (createLoader n accepting) es = d) ∧
    ∃ e : Event n, e.internal ∧ step opts d e = some d'

/-- What all workers have left to spend. -/
def budget (opts : DispatcherOptions) (d : Loader n) : ℕ := ∑ i, (d.workers i).weight opts

omit [NeZero n] in
theorem budget_report {i : Fin n} {went : Worker × List Settled}
    (works : Works opts (d.workers i) went) : budget opts (report d i went) < budget opts d := by
  have total := sum_put (Worker.weight opts) d.workers i went.1
  have spends := works.spends
  show ∑ j, Worker.weight opts (Function.update d.workers i went.1 j) < budget opts d
  unfold budget
  omega

theorem internal_spends (ok : Accounted opts d) {e : Event n} (own : e.internal)
    {d' : Loader n} (went : step opts d e = some d') : budget opts d' < budget opts d := by
  cases e with
  | post contentType body => exact own.elim
  | setAccepting accepting => exact own.elim
  | setStale stale reason => exact own.elim
  | drain => exact own.elim
  | idle i =>
    obtain ⟨w, works, rfl⟩ := Option.map_eq_some_iff.mp went
    rw [← report_nothing]
    exact budget_report (idle_works (ok.fits i) works)
  | replied i reply =>
    obtain ⟨w, works, rfl⟩ := Option.map_eq_some_iff.mp went
    exact budget_report (replied_works (ok.fits i) works)
  | deadLettered i =>
    obtain ⟨w, works, rfl⟩ := Option.map_eq_some_iff.mp went
    exact budget_report (deadLettered_works (ok.fits i) works)
  | looped i =>
    obtain ⟨w, works, rfl⟩ := Option.map_eq_some_iff.mp went
    rw [← report_nothing]
    exact budget_report (looped_works (ok.fits i) works)

theorem follows_wellFounded (opts : DispatcherOptions) : WellFounded (Follows (n := n) opts) := by
  refine Subrelation.wf ?_ (InvImage.wf (budget (n := n) opts) wellFounded_lt)
  rintro d' d ⟨⟨accepting, es, rfl⟩, e, own, went⟩
  exact internal_spends (accounted_final opts accepting es) own went

/-- At rest no flush is running and no timer armed. -/
theorem idle_of_atRest (rest : AtRest opts d) (i : Fin n) :
    (d.workers i).flushPromise = none ∧ (d.workers i).idleTimer = false := by
  constructor
  · cases running : (d.workers i).flushPromise with
    | none => rfl
    | some f =>
      cases f with
      | malformed entry bad piped =>
        have stuck := rest (.deadLettered i) trivial
        cases bad <;> simp [step, deadLettered, running] at stuck
      | exec batch =>
        have stuck := rest (.replied i .null) trivial
        simp [step, replied, running] at stuck
      | deadLetter entry results =>
        have stuck := rest (.deadLettered i) trivial
        simp [step, deadLettered, running] at stuck
      | threw =>
        have stuck := rest (.looped i) trivial
        simp [step, looped, running] at stuck
      | done =>
        have stuck := rest (.looped i) trivial
        simp [step, looped, running] at stuck
  · have stuck := rest (.idle i) trivial
    by_contra armed
    rw [Bool.not_eq_false] at armed
    simp [step, idleFlush, armed] at stuck

/-- A sound worker at rest keeps nothing. -/
theorem kept_of_atRest {w : Worker} (sound : Sound w) (stopped : w.flushPromise = none)
    (unarmed : w.idleTimer = false) : w.kept = 0 := by
  have empty : w.buffer = [] := by
    by_contra some
    rcases sound.attended some with running | armed
    · rw [stopped] at running
      cases running
    · rw [unarmed] at armed
      cases armed
  rw [Worker.kept, Worker.held, empty, stopped, sound.lost]
  rfl

/-- What holds of the server all along: no batch has been thrown away, every accepted row is
with one worker or has settled, once, and the counter is the number of the former. -/
structure Settles (opts : DispatcherOptions) (d : Loader n) : Prop where
  lost : ∀ i, (d.workers i).lost = []
  once : ∑ i, bag (d.workers i).held + settledBag d.settled = acceptedBag d.accepted
  counted : d.inFlight = ∑ i, (d.workers i).held.length

omit [NeZero n] in
theorem Accounted.settles (ok : Accounted opts d) (idle : 0 < opts.idleFlushMs)
    (clean : ∀ row ∈ d.accepted, ¬ Harmful row) : Settles opts d := by
  have sound := ok.sound idle clean
  have kept : ∀ i, (d.workers i).kept = bag (d.workers i).held := by
    intro i
    rw [Worker.kept, (sound i).lost, bag_nil, add_zero]
  have total := Finset.sum_congr (rfl : Finset.univ = Finset.univ) fun i _ => kept i
  refine ⟨fun i => (sound i).lost, total ▸ ok.once, ?_⟩
  rw [ok.counted, total, Multiset.card_sum]
  exact Finset.sum_congr rfl fun i _ => card_bag _

/-- At rest everything accepted has settled exactly when nothing accepted was harmful. -/
theorem Accounted.settled_iff (ok : Accounted opts d) (idle : 0 < opts.idleFlushMs)
    (rest : AtRest opts d) :
    (settledBag d.settled = acceptedBag d.accepted ∧ d.inFlight = 0) ↔
      ∀ row ∈ d.accepted, ¬ Harmful row := by
  constructor
  · rintro ⟨all, -⟩ row mem
    obtain ⟨i, here⟩ := List.mem_iff_getElem?.mp mem
    have member : (row, i) ∈ acceptedBag d.accepted :=
      Multiset.mem_coe.mpr (List.mk_mem_zipIdx_iff_getElem?.mpr here)
    rw [← all, settledBag, bag, List.map_map] at member
    obtain ⟨s, settled, same⟩ := List.mem_map.mp (Multiset.mem_coe.mp member)
    rw [← (Prod.mk.inj same).1]
    exact ok.laid s settled
  · intro clean
    have none : ∑ i, (d.workers i).kept = 0 := Finset.sum_eq_zero fun i _ =>
      kept_of_atRest (ok.sound idle clean i) (idle_of_atRest rest i).1 (idle_of_atRest rest i).2
    have once := ok.once
    have counted := ok.counted
    rw [none] at once counted
    exact ⟨(zero_add _).symm.trans once, counted⟩

theorem accepted_foldl (rows : List Json) :
    ∀ d : Loader n, (rows.foldl (enqueue opts) d).accepted = d.accepted ++ rows := by
  induction rows with
  | nil => exact fun d => (List.append_nil _).symm
  | cons row rows ih =>
    intro d
    rw [List.foldl_cons, ih]
    exact List.append_assoc _ _ _

/-- A 202 hands over the rows of the body, and any other answer none. -/
theorem accepted_loadRows (d : Loader n) (contentType : Option String) (body : Option Json) :
    (∃ rows, parseRowsBody contentType body = .ok rows ∧
        (loadRows opts d contentType body).2 = .accepted rows.length ∧
        (loadRows opts d contentType body).1.accepted = d.accepted ++ rows) ∨
      (∀ count, (loadRows opts d contentType body).2 ≠ .accepted count) ∧
        (loadRows opts d contentType body).1 = d := by
  unfold loadRows
  split
  · exact .inr ⟨nofun, rfl⟩
  split
  · exact .inr ⟨nofun, rfl⟩
  split
  · exact .inr ⟨nofun, rfl⟩
  · rename_i rows read
    split
    · rename_i empty
      rw [List.isEmpty_iff.mp empty] at read
      exact .inl ⟨[], read, rfl, (List.append_nil _).symm⟩
    split
    · exact .inr ⟨nofun, rfl⟩
    · exact .inl ⟨rows, read, rfl, accepted_foldl rows d⟩

theorem inFlight_foldl (rows : List Json) :
    ∀ d : Loader n, (rows.foldl (enqueue opts) d).inFlight = d.inFlight + rows.length := by
  induction rows with
  | nil => exact fun d => rfl
  | cons row rows ih =>
    intro d
    rw [List.foldl_cons, ih, List.length_cons]
    show d.inFlight + 1 + rows.length = _
    omega

/-- No row of an accepted body finds the high-water mark reached. -/
theorem inFlight_lt_highWater {rows : List Json}
    (below : ¬ opts.highWater < d.inFlight + rows.length) {k : ℕ} (taken : k < rows.length) :
    ((rows.take k).foldl (enqueue opts) d).inFlight < opts.highWater := by
  rw [inFlight_foldl, List.length_take]
  omega

/-- A flush rejects exactly when a row of its batch is harmful. In every run that has accepted
no such row nothing is lost and the counter is exact; what happens without a request comes to
an end, and then everything accepted has been flushed or dead-lettered, once, exactly when
nothing accepted was harmful. -/
theorem accepted_rows_settle_iff (n : ℕ) [NeZero n] (opts : DispatcherOptions)
    (idle : 0 < opts.idleFlushMs) :
    (∀ (w : Worker) (batch : List BufferedRow),
      (flushBatch opts w batch).flushPromise = some .threw ↔ ∃ e ∈ batch, Harmful e.row) ∧
    (∀ accepting (es : List (Event n)),
      (∀ row ∈ (final (step opts) (createLoader n accepting) es).accepted, ¬ Harmful row) →
        Settles opts (final (step opts) (createLoader n accepting) es)) ∧
    (∀ accepting (es : List (Event n)),
      AtRest opts (final (step opts) (createLoader n accepting) es) →
      ((settledBag (final (step opts) (createLoader n accepting) es).settled =
          acceptedBag (final (step opts) (createLoader n accepting) es).accepted ∧
        (final (step opts) (createLoader n accepting) es).inFlight = 0) ↔
        ∀ row ∈ (final (step opts) (createLoader n accepting) es).accepted, ¬ Harmful row)) ∧
    WellFounded (Follows (n := n) opts) ∧
    ∀ (d : Loader n) contentType body count,
      (loadRows opts d contentType body).2 = .accepted count →
        ∃ rows, parseRowsBody contentType body = .ok rows ∧ rows.length = count ∧
          (loadRows opts d contentType body).1.accepted = d.accepted ++ rows := by
  refine ⟨fun w batch => flushBatch_threw_iff batch, fun accepting es clean => ?_,
    fun accepting es rest =>
      ?_, follows_wellFounded opts, fun d contentType body count answer => ?_⟩
  · exact (accounted_final opts accepting es).settles idle clean
  · exact (accounted_final opts accepting es).settled_iff idle rest
  · rcases @accepted_loadRows _ _ opts d contentType body with
      ⟨rows, read, own, more⟩ | ⟨other, -⟩
    · rw [own, Answer.accepted.injEq] at answer
      exact ⟨rows, read, answer, more⟩
    · exact absurd answer (other count)

end Runs

section Demo

def smallOptions : DispatcherOptions where
  batchSize := 2
  idleFlushMs := 50
  maxRetries := 3
  tenorsByClass := none
  batch_pos := Nat.two_pos
  highWater := 10
  high_pos := by decide

def goodRow : Json :=
  .obj [("id", .str "01A"), ("risk_class", .str "FX"), ("bucket", .str "EURUSD"),
    ("sensitivity_type", .str "Delta"), ("risk_value", .num 1)]

def nullBeside : Event 1 := .post (some "application/json") (some (.arr [goodRow, .null]))

theorem accepted_rows_settle_iff_small :
    (∀ (w : Worker) (batch : List BufferedRow),
      (flushBatch smallOptions w batch).flushPromise = some .threw ↔
        ∃ e ∈ batch, Harmful e.row) ∧
    (∀ accepting (es : List (Event 1)),
      (∀ row ∈ (final (step smallOptions) (createLoader 1 accepting) es).accepted,
        ¬ Harmful row) →
        Settles smallOptions (final (step smallOptions) (createLoader 1 accepting) es)) ∧
    (∀ accepting (es : List (Event 1)),
      AtRest smallOptions (final (step smallOptions) (createLoader 1 accepting) es) →
      ((settledBag (final (step smallOptions) (createLoader 1 accepting) es).settled =
          acceptedBag (final (step smallOptions) (createLoader 1 accepting) es).accepted ∧
        (final (step smallOptions) (createLoader 1 accepting) es).inFlight = 0) ↔
        ∀ row ∈ (final (step smallOptions) (createLoader 1 accepting) es).accepted,
          ¬ Harmful row)) ∧
    WellFounded (Follows (n := 1) smallOptions) ∧
    ∀ (d : Loader 1) contentType body count,
      (loadRows smallOptions d contentType body).2 = .accepted count →
        ∃ rows, parseRowsBody contentType body = .ok rows ∧ rows.length = count ∧
          (loadRows smallOptions d contentType body).1.accepted = d.accepted ++ rows :=
  accepted_rows_settle_iff 1 smallOptions (by decide)

/-- A body of a good row and a null is accepted. The flush of the two rejects, and at rest
neither has settled and the counter stands at two. -/
theorem null_row_loses_batch :
    (loadRows smallOptions (createLoader 1 true) (some "application/json")
      (some (.arr [goodRow, .null]))).2 = .accepted 2 ∧
    AtRest smallOptions
      (final (step smallOptions) (createLoader 1 true) [nullBeside, .looped 0]) ∧
    (final (step smallOptions) (createLoader 1 true) [nullBeside, .looped 0]).settled = [] ∧
    (final (step smallOptions) (createLoader 1 true) [nullBeside, .looped 0]).inFlight = 2 := by
  refine ⟨by rfl, ?_, by rfl, by rfl⟩
  intro e own
  cases e with
  | post contentType body => exact own.elim
  | setAccepting accepting => exact own.elim
  | setStale stale reason => exact own.elim
  | drain => exact own.elim
  | idle i =>
    rw [Subsingleton.elim i 0]
    rfl
  | replied i reply =>
    rw [Subsingleton.elim i 0]
    rfl
  | deadLettered i =>
    rw [Subsingleton.elim i 0]
    rfl
  | looped i =>
    rw [Subsingleton.elim i 0]
    rfl

end Demo

end LoaderFlush
