import Frtb.StoredContribution
import Frtb.Library.DeltaLedger

/-!
# Interleaved consumers

Every consumer runs the entry loop on its own connection, one awaited command
at a time. A WATCH remembers the version of its key, and an EXEC commits only
if the version still stands; otherwise the phase starts over until its retries
are spent and the entry stays pending. An entry is pending at one consumer.
-/

namespace Interleaving

open AssocMaps JsonText EnrichDoc RollupKeys RedisStore StorageWriter RollupDelta BatchWriters
open RollupContribution HashLayout RowVersions AtomicDelivery StoredContribution DeltaLedger

def maxWatchRetries : ℕ := 8

/-- Where a consumer stands in its entry loop. -/
inductive Local where
  | idle
  /-- before the WATCH of Phase 1 -/
  | start1 (r : Row) (attempts : ℕ)
  /-- before its HGETALL -/
  | watched1 (r : Row) (attempts version : ℕ)
  /-- before its EXEC -/
  | read1 (r : Row) (attempts version : ℕ) (oldHash : Hash)
  /-- before the WATCH of Phase 2 -/
  | start2 (r : Row) (oldHash : Hash) (attempts : ℕ)
  /-- before its EXISTS -/
  | watched2 (r : Row) (oldHash : Hash) (attempts : ℕ) (marker : String) (version : ℕ)
  /-- before its EXEC -/
  | read2 (r : Row) (oldHash : Hash) (attempts : ℕ) (marker : String) (version : ℕ)
      (queued : List Cmd)
  /-- before the tail pipeline -/
  | tail (r : Row)

structure World (C : Type) where
  store : Redis
  versions : String → ℕ
  locals : C → Local
  /-- The entries that each consumer has been handed and has not acknowledged. -/
  pending : List (C × Row)

/-- The key that a command modifies. -/
def writtenKey : Cmd → Option String
  | .hset key _ => some key
  | .jsonSet key _ => some key
  | .hincrbyfloat key _ _ => some key
  | .sadd key _ => some key
  | .setEx key _ => some key
  | .probe _ => none
  | .sugadd key _ => some key
  | .xack _ => none

/-- Every write to a key moves its version. -/
def bump (versions : String → ℕ) (cmds : List Cmd) (key : String) : ℕ :=
  versions key + cmds.countP (fun c => writtenKey c = some key)

section Step
variable {C : Type} [DecidableEq C]

def World.goto (W : World C) (c : C) (l : Local) : World C :=
  { W with locals := Function.update W.locals c l }

/-- Serve a transaction or a pipeline without a turn for anybody else. -/
def World.commit (W : World C) (c : C) (cmds : List Cmd) (l : Local) : World C :=
  { W with
    store := exec W.store cmds
    versions := bump W.versions cmds
    locals := Function.update W.locals c l }

/-- The next command of a consumer inside its entry loop. -/
def runLocal (opts : ConsumerOptions) (W : World C) (c : C) : Option (World C) :=
  match W.locals c with
  | .idle => none
  | .start1 r attempts => some (W.goto c (.watched1 r attempts (W.versions r.key)))
  | .watched1 r attempts version =>
    some (W.goto c (.read1 r attempts version (W.store.hashes r.key)))
  | .read1 r attempts version oldHash =>
    if W.versions r.key = version then
      some (W.commit c (phase1Cmds opts r) (.start2 r oldHash 0))
    else if attempts + 1 ≤ maxWatchRetries then some (W.goto c (.start1 r (attempts + 1)))
    else some (W.goto c .idle)
  | .start2 r oldHash attempts =>
    match rowTags r.doc with
    | none => some (W.goto c (.tail r))
    | some tags =>
      if opts.liveTailMode then some (W.goto c (.tail r))
      else
        some (W.goto c (.watched2 r oldHash attempts (markerKeyOf tags r)
          (W.versions (markerKeyOf tags r))))
  | .watched2 r oldHash attempts marker version =>
    some (W.goto c (.read2 r oldHash attempts marker version
      (phase2Cmds opts oldHash W.store.markers r)))
  | .read2 r oldHash attempts marker version queued =>
    if W.versions marker = version then some (W.commit c queued (.tail r))
    else if attempts + 1 ≤ maxWatchRetries then some (W.goto c (.start2 r oldHash (attempts + 1)))
    else some (W.goto c .idle)
  | .tail r =>
    some { W.commit c (tailCmds opts r) .idle with
      pending := W.pending.filter (fun p => p.2.entryId ≠ r.entryId) }

/-- One step of the interleaving; a step that is not enabled does not happen. -/
inductive Step (opts : ConsumerOptions) (W : World C) : World C → Prop where
  | take {c : C} {r : Row} (free : W.locals c = .idle) (mine : (c, r) ∈ W.pending) :
      Step opts W (W.goto c (.start1 r 0))
  | run {c : C} {W' : World C} (h : runLocal opts W c = some W') : Step opts W W'

/-- The worlds that some interleaving reaches. -/
inductive Reach (opts : ConsumerOptions) (W₀ : World C) : World C → Prop where
  | start : Reach opts W₀ W₀
  | step {W W' : World C} (h : Reach opts W₀ W) (next : Step opts W W') : Reach opts W₀ W'

/-- The world after a consumer's next command, if it has one. -/
def advance (opts : ConsumerOptions) (W : World C) (c : C) : World C :=
  (runLocal opts W c).getD W

theorem Reach.advance {opts : ConsumerOptions} {W₀ W : World C} (h : Reach opts W₀ W) (c : C) :
    Reach opts W₀ (advance opts W c) := by
  unfold Interleaving.advance
  cases hr : runLocal opts W c with
  | none => exact h
  | some W' => exact .step h (.run hr)

/-- Every schedule of commands is an interleaving. -/
theorem reach_schedule {opts : ConsumerOptions} {W₀ W : World C} (h : Reach opts W₀ W)
    (schedule : List C) : Reach opts W₀ (schedule.foldl (Interleaving.advance opts) W) := by
  induction schedule generalizing W with
  | nil => exact h
  | cons c schedule ih => exact ih (h.advance c)

end Step

end Interleaving
