import Mathlib.Tactic.Linarith
import Frtb.Library.CodeUnits
import Frtb.Library.EventRuns

/-!
# The slots of the HTTP producer

`createHttpProducer` bounds the POSTs it has running by a counter. A caller that fills a
batch takes a slot or queues for one, and a POST that ends gives its slot back or hands
it to the caller at the head of the queue. The calls in progress are kept by the await
they are suspended at, so that what a state holds and who waits for it can be read off.
-/

namespace HttpProducer

open EventRuns

/-- A row of the generator, by what the producer reads of it. -/
structure Row where
  id : String
  riskClass : String
  deriving DecidableEq, Repr

/-- `batchSize` and `maxInFlight`, which the constructor raises to at least one. -/
structure Options where
  batchSize : Nat
  maxInFlight : Nat
  resumeEnabled : Bool
  batch_pos : 0 < batchSize
  slots_pos : 0 < maxInFlight

inductive Call
  | add
  | flush
  | close
  deriving DecidableEq, Repr

/-- A call suspended at `await acquireSlot()`, with the batch it cut. -/
structure Suspended where
  call : Call
  batch : List Row
  deriving DecidableEq, Repr

structure Producer where
  buffer : List Row
  closed : Bool
  firstError : Option String
  /-- The watermark, once `/load/checkpoints` has been answered. -/
  resume : Option (Option String)
  inFlight : Int
  rowsSent : Nat
  batchCount : Nat
  rowsSkipped : Nat
  /-- `add` calls at `await ensureResumeLoaded()`. -/
  loading : List Row
  /-- Calls queued in `acquireSlot`. -/
  waiters : List Suspended
  /-- Calls whose `acquireSlot` has resolved and which have not run on yet. -/
  granted : List Suspended
  /-- `inFlightSet`: the POST loops running. -/
  posts : List (List Row)
  /-- `flush` and `close` calls that wait for `inFlightSet` to be empty. -/
  settling : List Call
  /-- `close` calls whose flush has returned. -/
  closing : Nat
  deriving DecidableEq, Repr

def createHttpProducer (opts : Options) : Producer where
  buffer := []
  closed := false
  firstError := none
  resume := if opts.resumeEnabled then none else some none
  inFlight := 0
  rowsSent := 0
  batchCount := 0
  rowsSkipped := 0
  loading := []
  waiters := []
  granted := []
  posts := []
  settling := []
  closing := 0

/-- Hand the freed slot to the caller at the head of the queue. -/
def releaseOneWaiter (p : Producer) : Producer :=
  match p.waiters with
  | [] => p
  | w :: ws => { p with waiters := ws, inFlight := p.inFlight + 1, granted := p.granted ++ [w] }

def acquireSlot (opts : Options) (p : Producer) (w : Suspended) : Producer :=
  if p.inFlight < opts.maxInFlight then
    { p with inFlight := p.inFlight + 1, granted := p.granted ++ [w] }
  else { p with waiters := p.waiters ++ [w] }

def dispatch (p : Producer) (batch : List Row) : Producer :=
  { p with batchCount := p.batchCount + 1, posts := p.posts ++ [batch] }

/-- The `finally` of a POST loop. -/
def releaseSlot (p : Producer) : Producer :=
  if p.waiters.isEmpty then { p with inFlight := p.inFlight - 1 } else releaseOneWaiter p

/-- `add` after the watermark has been loaded. -/
def addRow (opts : Options) (p : Producer) (resumeUlid : Option String) (row : Row) : Producer :=
  if p.firstError.isSome then p
  else if resumeUlid.any fun mark => CodeUnits.le row.id mark then
    { p with rowsSkipped := p.rowsSkipped + 1 }
  else
    let buffer := p.buffer ++ [row]
    if opts.batchSize ≤ buffer.length then
      acquireSlot opts { p with buffer := buffer.drop opts.batchSize }
        ⟨.add, buffer.take opts.batchSize⟩
    else { p with buffer := buffer }

/-- `flush`, up to its first await; `close` starts with the same steps. -/
def flushRows (opts : Options) (p : Producer) (call : Call) : Producer :=
  if p.buffer.isEmpty then { p with settling := p.settling ++ [call] }
  else acquireSlot opts { p with buffer := [] } ⟨call, p.buffer⟩

/-- A caller that has been given a slot runs on. -/
def runOn (p : Producer) (w : Suspended) : Producer :=
  if p.firstError.isSome then p
  else
    let p := dispatch p w.batch
    match w.call with
    | .add => p
    | call => { p with settling := p.settling ++ [call] }

/-- How a POST loop ends: with a 202, or with the error it throws. -/
abbrev Outcome := Except String Unit

def settlePost (p : Producer) (batch : List Row) : Outcome → Producer
  | .ok () => { p with rowsSent := p.rowsSent + batch.length }
  | .error err => { p with firstError := p.firstError.or (some err) }

/-- What can happen next: a call starts, a promise settles, or a suspended call runs on.
Suspended calls and running POSTs are named by their place. -/
inductive Event
  | add (row : Row)
  | flush
  | close
  | resumeLoaded (resumeUlid : Option String)
  | loaded (i : Nat)
  | slotted (i : Nat)
  | posted (i : Nat) (outcome : Outcome)
  | settled (i : Nat)
  | closed

/-- One event; callers left waiting are resumed by the close without a slot of their own. -/
def step (opts : Options) (p : Producer) : Event → Option Producer
  | .add row =>
    if p.closed || p.firstError.isSome then some p
    else some { p with loading := p.loading ++ [row] }
  | .flush => some (flushRows opts p .flush)
  | .close => some (flushRows opts p .close)
  | .resumeLoaded resumeUlid =>
    if p.resume.isNone && !p.loading.isEmpty
      then some { p with resume := some resumeUlid } else none
  | .loaded i => do
    let resumeUlid ← p.resume
    let row ← p.loading[i]?
    some (addRow opts { p with loading := p.loading.eraseIdx i } resumeUlid row)
  | .slotted i => do
    let w ← p.granted[i]?
    some (runOn { p with granted := p.granted.eraseIdx i } w)
  | .posted i outcome => do
    let batch ← p.posts[i]?
    some (releaseSlot (settlePost { p with posts := p.posts.eraseIdx i } batch outcome))
  | .settled i => do
    let call ← p.settling[i]?
    if p.posts.isEmpty then
      let p := { p with settling := p.settling.eraseIdx i }
      some (if call = .close && p.firstError.isNone then { p with closing := p.closing + 1 } else p)
    else none
  | .closed =>
    if 0 < p.closing then
      some { p with
        closing := p.closing - 1, closed := true, granted := p.granted ++ p.waiters, waiters := [] }
    else none

/-- The slots really held: the POST loops running, and what was given to a caller that
has not dispatched yet. -/
def held (p : Producer) : Nat := p.posts.length + p.granted.length

structure SlotsAccounted (opts : Options) (p : Producer) : Prop where
  counted : p.inFlight = held p
  bounded : p.inFlight ≤ opts.maxInFlight
  idle : held p = 0 → p.inFlight = 0
  waits : p.waiters ≠ [] → opts.maxInFlight ≤ held p

/-- The events after which the counter still tells the slots held: a POST ends with
nobody queued, a caller that was given a slot dispatches, and `close` leaves no caller
behind. -/
def KeepsSlots (p : Producer) : Event → Prop
  | .posted _ _ => p.waiters = []
  | .slotted _ => p.firstError = none
  | .closed => p.waiters = []
  | _ => True

variable {opts : Options} {p : Producer}

theorem SlotsAccounted.of_counted (counted : p.inFlight = held p)
    (bounded : p.inFlight ≤ opts.maxInFlight)
    (waits : p.waiters ≠ [] → opts.maxInFlight ≤ held p) : SlotsAccounted opts p :=
  ⟨counted, bounded, fun none => by omega, waits⟩

/-- Only the counter, the queue and the numbers of POSTs and of granted callers matter. -/
theorem SlotsAccounted.congr {q : Producer} (ok : SlotsAccounted opts p)
    (counter : q.inFlight = p.inFlight) (slots : held q = held p)
    (queue : q.waiters = p.waiters) : SlotsAccounted opts q := by
  obtain ⟨counted, bounded, idle, waits⟩ := ok
  refine .of_counted ?_ ?_ ?_
  · omega
  · omega
  · rw [queue, slots]
    exact waits

theorem SlotsAccounted.acquireSlot (ok : SlotsAccounted opts p) (w : Suspended) :
    SlotsAccounted opts (acquireSlot opts p w) := by
  obtain ⟨counted, bounded, idle, waits⟩ := ok
  unfold HttpProducer.acquireSlot
  split
  · have more : held { p with inFlight := p.inFlight + 1, granted := p.granted ++ [w] } =
        held p + 1 := by
      simp only [held, List.length_append, List.length_singleton]
      omega
    refine .of_counted ?_ ?_ ?_
    · rw [more]
      push_cast
      omega
    · dsimp only
      omega
    · rintro queued
      have := waits queued
      omega
  · refine .of_counted counted bounded ?_
    rintro _
    change opts.maxInFlight ≤ held p
    omega

theorem SlotsAccounted.addRow (ok : SlotsAccounted opts p) (mark : Option String) (row : Row) :
    SlotsAccounted opts (addRow opts p mark row) := by
  unfold HttpProducer.addRow
  split
  · exact ok
  · split
    · exact ok.congr rfl rfl rfl
    · dsimp only
      have cut : SlotsAccounted opts
          { p with buffer := (p.buffer ++ [row]).drop opts.batchSize } := ok.congr rfl rfl rfl
      split
      · exact cut.acquireSlot _
      · exact ok.congr rfl rfl rfl

theorem SlotsAccounted.flushRows (ok : SlotsAccounted opts p) (call : Call) :
    SlotsAccounted opts (flushRows opts p call) := by
  unfold HttpProducer.flushRows
  split
  · exact ok.congr rfl rfl rfl
  · have cut : SlotsAccounted opts { p with buffer := [] } := ok.congr rfl rfl rfl
    exact cut.acquireSlot _

/-- A caller that dispatches turns the slot it was given into a running POST. -/
theorem held_runOn (w : Suspended) (clear : p.firstError = none) :
    held (runOn p w) = held p + 1 ∧ (runOn p w).inFlight = p.inFlight ∧
      (runOn p w).waiters = p.waiters := by
  rw [runOn, clear]
  cases w.call <;>
    simp [dispatch, held, List.length_append] <;> omega

theorem settlePost_slots (batch : List Row) (outcome : Outcome) :
    held (settlePost p batch outcome) = held p ∧
      (settlePost p batch outcome).inFlight = p.inFlight ∧
      (settlePost p batch outcome).waiters = p.waiters := by
  cases outcome <;> exact ⟨rfl, rfl, rfl⟩

theorem releaseSlot_slots :
    held (releaseSlot p) = held p + (if p.waiters = [] then 0 else 1) ∧
      (releaseSlot p).inFlight = p.inFlight + (if p.waiters = [] then -1 else 1) ∧
      (releaseSlot p).waiters = p.waiters.tail := by
  unfold releaseSlot releaseOneWaiter
  cases p.waiters with
  | nil => exact ⟨rfl, rfl, rfl⟩
  | cons w ws => simp [held, List.length_append]; omega

theorem length_eraseIdx_of_get {α : Type} {xs : List α} {i : Nat} {x : α} (h : xs[i]? = some x) :
    (xs.eraseIdx i).length + 1 = xs.length := by
  obtain ⟨inside, _⟩ := List.getElem?_eq_some_iff.mp h
  rw [List.length_eraseIdx_of_lt inside]
  omega

theorem SlotsAccounted.step (ok : SlotsAccounted opts p) {e : Event} {q : Producer}
    (keeps : KeepsSlots p e) (admitted : step opts p e = some q) : SlotsAccounted opts q := by
  cases e with
  | add row =>
    simp only [HttpProducer.step] at admitted
    split at admitted
    all_goals
      obtain rfl := Option.some.inj admitted
      exact ok.congr rfl rfl rfl
  | flush =>
    obtain rfl := Option.some.inj admitted
    exact ok.flushRows .flush
  | close =>
    obtain rfl := Option.some.inj admitted
    exact ok.flushRows .close
  | resumeLoaded mark =>
    simp only [HttpProducer.step] at admitted
    split at admitted
    · obtain rfl := Option.some.inj admitted
      exact ok.congr rfl rfl rfl
    · cases admitted
  | loaded i =>
    simp only [HttpProducer.step, Option.bind_eq_bind, Option.bind_eq_some_iff,
      Option.some.injEq] at admitted
    obtain ⟨mark, _, row, _, rfl⟩ := admitted
    have left : SlotsAccounted opts { p with loading := p.loading.eraseIdx i } :=
      ok.congr rfl rfl rfl
    exact left.addRow mark row
  | slotted i =>
    simp only [HttpProducer.step, Option.bind_eq_bind, Option.bind_eq_some_iff,
      Option.some.injEq] at admitted
    obtain ⟨w, here, rfl⟩ := admitted
    obtain ⟨slots, counter, queue⟩ :=
      @held_runOn { p with granted := p.granted.eraseIdx i } w keeps
    have one := length_eraseIdx_of_get here
    refine ok.congr counter ?_ queue
    rw [slots]
    simp only [held]
    omega
  | posted i outcome =>
    simp only [HttpProducer.step, Option.bind_eq_bind, Option.bind_eq_some_iff,
      Option.some.injEq] at admitted
    obtain ⟨batch, here, rfl⟩ := admitted
    obtain ⟨slots, counter, queue⟩ :=
      @settlePost_slots { p with posts := p.posts.eraseIdx i } batch outcome
    have one := length_eraseIdx_of_get here
    have none : (settlePost { p with posts := p.posts.eraseIdx i } batch outcome).waiters = [] :=
      queue.trans keeps
    obtain ⟨held', counter', queue'⟩ :=
      @releaseSlot_slots (settlePost { p with posts := p.posts.eraseIdx i } batch outcome)
    rw [if_pos none] at held' counter'
    obtain ⟨counted, bounded, idle, waits⟩ := ok
    simp only [held] at slots counted
    refine .of_counted ?_ ?_ ?_
    · rw [counter', held', counter, held]
      push_cast
      omega
    · rw [counter', counter]
      dsimp only
      omega
    · rw [queue', none]
      exact fun queued => absurd rfl queued
  | settled i =>
    simp only [HttpProducer.step, Option.bind_eq_bind, Option.bind_eq_some_iff] at admitted
    obtain ⟨call, _, admitted⟩ := admitted
    split at admitted
    · obtain rfl := Option.some.inj admitted
      split <;> exact ok.congr rfl rfl rfl
    · cases admitted
  | closed =>
    simp only [HttpProducer.step] at admitted
    split at admitted
    · obtain rfl := Option.some.inj admitted
      have none : p.waiters = [] := keeps
      refine ok.congr rfl ?_ none.symm
      simp only [held, none, List.append_nil]
    · cases admitted

/-- Every other event loses count: a hand-off counts the slot twice, an error keeps the
slot of the caller it stops, and a caller resumed by `close` has none. -/
theorem SlotsAccounted.loss (ok : SlotsAccounted opts p) {e : Event} {q : Producer}
    (breaks : ¬ KeepsSlots p e) (admitted : HttpProducer.step opts p e = some q) :
    ¬ SlotsAccounted opts q := by
  obtain ⟨counted, bounded, idle, waits⟩ := ok
  rintro ⟨counted', _, _, _⟩
  cases e with
  | slotted i =>
    simp only [HttpProducer.step, Option.bind_eq_bind, Option.bind_eq_some_iff,
      Option.some.injEq] at admitted
    obtain ⟨w, here, rfl⟩ := admitted
    have failed : p.firstError.isSome = true := Option.isSome_iff_ne_none.mpr breaks
    have one := length_eraseIdx_of_get here
    simp only [runOn, failed, if_true, held] at counted counted'
    omega
  | posted i outcome =>
    simp only [HttpProducer.step, Option.bind_eq_bind, Option.bind_eq_some_iff,
      Option.some.injEq] at admitted
    obtain ⟨batch, here, rfl⟩ := admitted
    obtain ⟨slots, counter, queue⟩ :=
      @settlePost_slots { p with posts := p.posts.eraseIdx i } batch outcome
    have one := length_eraseIdx_of_get here
    have queued : (settlePost { p with posts := p.posts.eraseIdx i } batch outcome).waiters ≠ [] :=
      fun none => breaks (queue.symm.trans none)
    obtain ⟨held', counter', _⟩ :=
      @releaseSlot_slots (settlePost { p with posts := p.posts.eraseIdx i } batch outcome)
    rw [if_neg queued] at held' counter'
    simp only [held] at slots counted
    rw [counter', held', counter, held] at counted'
    push_cast at counted'
    omega
  | closed =>
    simp only [HttpProducer.step] at admitted
    split at admitted
    · obtain rfl := Option.some.inj admitted
      have queued : 0 < p.waiters.length := List.length_pos_iff.mpr breaks
      simp only [held, List.length_append] at counted counted'
      omega
    · cases admitted
  | _ => exact breaks trivial

theorem slotsAccounted_start (opts : Options) : SlotsAccounted opts (createHttpProducer opts) :=
  .of_counted rfl (Int.natCast_nonneg _) (fun queued => absurd rfl queued)

/-- The counter tells the slots held, all along a run, exactly when no POST of the run
ends while a caller is queued, no caller that was given a slot finds the producer failed,
and no `close` finds a caller queued. -/
theorem slots_accounted_iff (opts : Options) (events : List Event) :
    (∀ p ∈ visited (step opts) (createHttpProducer opts) events, SlotsAccounted opts p) ↔
      ∀ t ∈ taken (step opts) (createHttpProducer opts) events, KeepsSlots t.1 t.2 :=
  visited_safe_iff (fun _ _ _ ok keeps admitted => ok.step keeps admitted) (fun _ ok => ok)
    (fun _ _ _ ok breaks admitted => ok.loss breaks admitted) (slotsAccounted_start opts) events

def oneSlot : Options := ⟨1, 1, false, by decide, by decide⟩

/-- Two `add` calls share one slot, then both POSTs end, then a third call comes. -/
def handOff : List Event :=
  [.add ⟨"1", "FX"⟩, .loaded 0, .slotted 0, .add ⟨"2", "FX"⟩, .loaded 0, .posted 0 (.ok ()),
   .slotted 0, .posted 0 (.ok ()), .add ⟨"3", "FX"⟩, .loaded 0]

/-- After one hand-off the counter never comes back to zero, and the third call is
queued for good with no POST running. -/
theorem hand_off_counts_twice :
    final (step oneSlot) (createHttpProducer oneSlot) handOff ∈
        visited (step oneSlot) (createHttpProducer oneSlot) handOff ∧
      (final (step oneSlot) (createHttpProducer oneSlot) handOff).posts = [] ∧
      (final (step oneSlot) (createHttpProducer oneSlot) handOff).waiters =
      [⟨.add, [⟨"3", "FX"⟩]⟩] ∧
      ¬ SlotsAccounted oneSlot (final (step oneSlot) (createHttpProducer oneSlot) handOff) := by
  refine ⟨final_mem_visited _ _, by decide +kernel, by decide +kernel, ?_⟩
  rintro ⟨counted, _, _, _⟩
  exact absurd counted (by decide +kernel)

end HttpProducer
