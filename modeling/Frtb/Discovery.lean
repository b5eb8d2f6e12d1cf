import Frtb.AckSafety
import Frtb.BulkWorker
import Frtb.CalcService
import Frtb.DirectWriter
import Frtb.Library.EventRuns

/-!
# Discovery of the written buckets

A calculation finds its buckets in the set `seen:bucket:<rc>` of the class as the request
spells it, in upper case. The stream consumer, the direct writer and the bulk loader add to
the set of the class as the row spells it. The index matches a class in any case, so a row
under another spelling is matched by the query and missed by the discovery.
-/

namespace Discovery

open JsonText RollupKeys RedisStore StorageWriter RollupDelta BatchWriters EventRuns
open BulkLoader (BufferedRow Reply)

/-- Class and bucket of a row. -/
structure RowPlace where
  riskClass : String
  bucket : String
deriving DecidableEq

/-- The store, and the rows that have been acked, flushed or reported written. -/
structure State where
  redis : Redis
  settled : List RowPlace

structure Writers where
  consumer : ConsumerOptions
  loader : BulkLoader.WorkerOptions
  schema : EnrichDoc.Schema
  format : StorageFormat

def placeOf (tags : RowTags) : RowPlace := ⟨tags.riskClass, tags.bucket⟩

section Bulk

/-- The SADDs that follow the HSET of a row. -/
def bulkSadds (row : SlimWriter.Row) : List Cmd :=
  if row.riskClass ≠ "" ∧ row.bucket ≠ "" ∧ row.sensitivityType.text ≠ "" then
    [Cmd.sadd seenRiskClassKey row.riskClass, .sadd (seenBucketKey row.riskClass) row.bucket,
      .sadd (seenSensTypeKey row.riskClass row.bucket) row.sensitivityType.text]
  else []

def bulkRowCmds (opts : BulkLoader.WorkerOptions) (entry : BufferedRow) : List Cmd :=
  .hset ("sens:" ++ entry.row.id) (SlimWriter.rowToHashFields entry.row opts.tenorsByClass) ::
    bulkSadds entry.row

/-- The rows of a batch that have fields to write. -/
def pipedRows (opts : BulkLoader.WorkerOptions) (batch : List BufferedRow) : List BufferedRow :=
  batch.filter (BulkLoader.writable opts)

/-- The commands that fail. Where the pipeline comes back without replies, nothing is known
of them. -/
def failing (reply : Reply) (unknown : ℕ → Bool) : ℕ → Bool :=
  match reply with
  | .replies errors => fun i => (errors[i]?).join.isSome
  | _ => unknown

/-- The rows of a batch that settle as flushed. -/
def flushedRows (opts : BulkLoader.WorkerOptions) (batch : List BufferedRow) (reply : Reply) :
    List BufferedRow :=
  ((BulkLoader.results (pipedRows opts batch) reply).filter fun r => r.2.isNone).map Prod.fst

/-- The buckets that the pipeline adds, the commands of the rows numbered on from `i`. -/
def bulkAdds (fails : ℕ → Bool) : ℕ → List BufferedRow → List RowPlace
  | _, [] => []
  | i, entry :: rest =>
    (if BulkLoader.saddCount entry.row = 3 ∧ fails (i + 2) = false then
        [RowPlace.mk entry.row.riskClass entry.row.bucket]
      else []) ++ bulkAdds fails (i + 1 + BulkLoader.saddCount entry.row) rest

end Bulk

section Steps

/-- What happens to the store: a delivery of an entry by either consumer, a batch of the
direct writer, or a batch of a bulk worker. -/
inductive Event
  | atomic (entry : Entry) (fails : Faults) (stop : Stop)
  | piped (entry : Entry) (fails : Faults)
  | direct (rows : List DirectWriter.SensitivityRow) (fails : ℕ → Bool)
  | bulk (batch : List BufferedRow) (reply : Reply) (unknown : ℕ → Bool)

variable (w : Writers)

/-- Where the command that adds the bucket stands in the pipeline of `processBatch`. -/
def pipedSaddAt (r : BatchWriters.Row) : ℕ :=
  (writeDocForStorage r.key r.doc w.consumer.format ++ emitRollupHincrs r.doc).length + 1

/-- The place of a row that has a class, a bucket and a sensitivity type. -/
def rowPlaces (r : BatchWriters.Row) : List RowPlace := ((rowTags r.doc).map placeOf).toList

def collected (rows : List DirectWriter.SensitivityRow) : DirectWriter.Accum :=
  DirectWriter.collect w.schema rows

def directCmds (rows : List DirectWriter.SensitivityRow) : List Cmd :=
  DirectWriter.dispatchCmds w.format (collected w rows)

/-- `dispatch` throws at the first error. -/
def reported (rows : List DirectWriter.SensitivityRow) (fails : ℕ → Bool) : Bool :=
  (List.range (directCmds w rows).length).all fun i => !fails i

def directPlaces (rows : List DirectWriter.SensitivityRow) : List RowPlace :=
  rows.flatMap fun row =>
    ((rowTags (EnrichDoc.enrichDoc (DirectWriter.rowToDoc row) (some w.schema))).map placeOf).toList

def bulkPlaces (rows : List BufferedRow) : List RowPlace :=
  rows.filterMap fun entry =>
    if BulkLoader.saddCount entry.row = 3 then some ⟨entry.row.riskClass, entry.row.bucket⟩
    else none

def atomicAcks (r : BatchWriters.Row) (fails : Faults) (stop : Stop) : Bool :=
  stop = .afterTail && !fails r.entryId .tail (tailSadds w.consumer r).length

def pipedAcks (r : BatchWriters.Row) (fails : Faults) : Bool :=
  !fails r.entryId .pipeline (rowCmds w.consumer r).length

/-- The rows that an event settles. -/
def settles : Event → List RowPlace
  | .atomic entry fails stop =>
    match prepare w.consumer entry with
    | some (.row r) => if atomicAcks w r fails stop then rowPlaces r else []
    | _ => []
  | .piped entry fails =>
    match prepare w.consumer entry with
    | some (.row r) => if pipedAcks w r fails then rowPlaces r else []
    | _ => []
  | .direct rows fails => if reported w rows fails then directPlaces w rows else []
  | .bulk batch reply _ => bulkPlaces (flushedRows w.loader batch reply)

def serve (s : Redis) : Event → Redis
  | .atomic entry fails stop =>
    match prepare w.consumer entry with
    | some (.row r) => deliver w.consumer fails stop s r
    | some (.malformed entryId) => apply s (.xack entryId)
    | none => s
  | .piped entry fails =>
    match prepare w.consumer entry with
    | some p => execFrom (fails (pipelineCmds w.consumer p).1 .pipeline) 0 s
        (pipelineCmds w.consumer p).2
    | none => s
  | .direct rows fails => execFrom fails 0 s (directCmds w rows)
  | .bulk batch reply unknown =>
    execFrom (failing reply unknown) 0 s ((pipedRows w.loader batch).flatMap (bulkRowCmds w.loader))

def step (s : State) (e : Event) : Option State :=
  some ⟨serve w s.redis e, s.settled ++ settles w e⟩

end Steps

section Discovered

/-- A request for all buckets of a class finds the bucket, however SMEMBERS lists the set. -/
def Finds (s : Redis) (riskClass bucket : String) : Prop :=
  ∀ q : CalcService.ComputeSbmInput, q.riskClass = riskClass → q.bucketCells = [] →
    q.bucketSubset = [] →
      ∀ seen : List String, (∀ b, b ∈ seen ↔ b ∈ s.sets (seenBucketKey riskClass)) →
        bucket ∈ CalcService.narrowBuckets q seen

/-- Every settled row lies in a bucket that the request for its class finds. -/
def Discovered (toUpperCase : String → String) (s : State) : Prop :=
  ∀ p ∈ s.settled, Finds s.redis (toUpperCase p.riskClass) p.bucket

variable (w : Writers)

/-- The rows whose bucket an event adds to the set of the class as they spell it. -/
def adds : Event → List RowPlace
  | .atomic entry fails stop =>
    match prepare w.consumer entry with
    | some (.row r) =>
      if stop = .afterTail ∧ fails r.entryId .tail 1 = false then rowPlaces r else []
    | _ => []
  | .piped entry fails =>
    match prepare w.consumer entry with
    | some (.row r) =>
      if fails r.entryId .pipeline (pipedSaddAt w r) = false then rowPlaces r else []
    | _ => []
  | .direct rows fails => if reported w rows fails then directPlaces w rows else []
  | .bulk batch reply unknown => bulkAdds (failing reply unknown) 0 (pipedRows w.loader batch)

/-- Every row that the event settles has its bucket added by a row of the event that spells the
class in upper case, or the bucket was there before. -/
def SpelledUp (toUpperCase : String → String) (s : State) (e : Event) : Prop :=
  ∀ p ∈ settles w e,
    (∃ q ∈ adds w e, q.riskClass = toUpperCase p.riskClass ∧ q.bucket = p.bucket) ∨
      p.bucket ∈ s.redis.sets (seenBucketKey (toUpperCase p.riskClass))

end Discovered

section Sets
variable {fails : ℕ → Bool} {s : Redis}

def executedSadd (failed : Bool) : Cmd → List (String × String)
  | .sadd key member => if failed then [] else [(key, member)]
  | _ => []

/-- The members that a command list adds, key by key. -/
def executedSadds (fails : ℕ → Bool) : ℕ → List Cmd → List (String × String)
  | _, [] => []
  | i, c :: cs => executedSadd (fails i) c ++ executedSadds fails (i + 1) cs

/-- A set holds what it held and what has been added. -/
theorem mem_sets_execFrom {cmds : List Cmd} {key member : String} (i : ℕ) (s : Redis) :
    member ∈ (execFrom fails i s cmds).sets key ↔
      member ∈ s.sets key ∨ (key, member) ∈ executedSadds fails i cmds := by
  induction cmds generalizing i s with
  | nil => simp [execFrom, executedSadds]
  | cons c cs ih =>
    rw [execFrom, ih, executedSadds, List.mem_append, ← or_assoc]
    refine or_congr_left ?_
    cases fails i with
    | true => cases c <;> simp [executedSadd]
    | false =>
      cases c with
      | sadd k m =>
        by_cases own : key = k
        · subst own
          simp [executedSadd, apply, or_comm]
        · simp [executedSadd, apply, own]
      | _ => simp [executedSadd, apply]

theorem executedSadds_append (i : ℕ) (cs ds : List Cmd) :
    executedSadds fails i (cs ++ ds) =
      executedSadds fails i cs ++ executedSadds fails (i + cs.length) ds := by
  induction cs generalizing i with
  | nil => rfl
  | cons c cs ih =>
    rw [List.cons_append, executedSadds, executedSadds, ih, List.append_assoc, List.length_cons]
    congr 3
    omega

theorem mem_of_executedSadds {cmds : List Cmd} {key member : String} {i : ℕ}
    (added : (key, member) ∈ executedSadds fails i cmds) : .sadd key member ∈ cmds := by
  induction cmds generalizing i with
  | nil => cases added
  | cons c cs ih =>
    rcases List.mem_append.mp added with own | later
    · cases c with
      | sadd k m =>
        rw [executedSadd] at own
        split_ifs at own
        · cases own
        · cases List.mem_singleton.mp own
          exact List.mem_cons_self
      | _ => cases own
    · exact List.mem_cons_of_mem _ (ih later)

/-- A command list that adds to no set of buckets leaves these sets as they are. -/
theorem mem_buckets_execFrom {cmds : List Cmd} {rc bucket : String} {i : ℕ}
    (spares : .sadd (seenBucketKey rc) bucket ∉ cmds) :
    bucket ∈ (execFrom fails i s cmds).sets (seenBucketKey rc) ↔
      bucket ∈ s.sets (seenBucketKey rc) := by
  rw [mem_sets_execFrom]
  exact or_iff_left fun added => spares (mem_of_executedSadds added)

theorem seenBucketKey_inj {rc rc' : String} : seenBucketKey rc = seenBucketKey rc' ↔ rc = rc' :=
  AssocMaps.append_left_cancel_iff _ rc rc'

theorem seenBucketKey_ne_class (rc : String) : seenBucketKey rc ≠ seenRiskClassKey := by
  intro same
  have := congrArg (fun key => (key.toList.drop 5).head?) same
  simp [seenBucketKey, seenRiskClassKey] at this

theorem seenBucketKey_ne_sensType (rc rc' bkt : String) :
    seenBucketKey rc ≠ seenSensTypeKey rc' bkt := by
  intro same
  delta seenBucketKey seenSensTypeKey at same
  have := congrArg (fun key => (key.toList.drop 5).head?) same
  simp at this

theorem not_mem_increments {cmds : List Cmd} (increments : ∀ c ∈ cmds, AtomicDelivery.IsIncrement c)
    {key member : String} : .sadd key member ∉ cmds :=
  fun mem => increments _ mem

theorem not_mem_writeDocForStorage {key : String} {doc : Props} {format : StorageFormat}
    {k m : String} : .sadd k m ∉ writeDocForStorage key doc format := by
  have hset : ∀ key fields, .sadd k m ∉ hsetUnlessEmpty key fields := by
    intro key fields mem
    cases fields with
    | nil => cases mem
    | cons _ _ => cases List.mem_singleton.mp mem
  intro mem
  cases format with
  | hashSidetable =>
    rcases List.mem_append.mp mem with mem | mem
    · exact hset _ _ mem
    · rw [Option.mem_toList, Option.map_eq_some_iff] at mem
      obtain ⟨_, _, same⟩ := mem
      cases same
  | hashEncoded => exact hset _ _ mem
  | json => cases List.mem_singleton.mp mem
  | jsonShadowHash =>
    rcases List.mem_cons.mp mem with same | mem
    · cases same
    · exact hset _ _ mem

end Sets

section Consumer
variable {opts : ConsumerOptions} {fails : Faults} {s : Redis} {r : BatchWriters.Row}
  {rc bucket : String}

theorem buckets_runPhase1 :
    bucket ∈ (runPhase1 opts fails s r).sets (seenBucketKey rc) ↔
      bucket ∈ s.sets (seenBucketKey rc) :=
  mem_buckets_execFrom not_mem_writeDocForStorage

theorem buckets_runPhase2 (oldHash : Hash) :
    bucket ∈ (runPhase2 opts fails oldHash s r).sets (seenBucketKey rc) ↔
      bucket ∈ s.sets (seenBucketKey rc) := by
  refine mem_buckets_execFrom fun mem => ?_
  unfold phase2Cmds at mem
  split at mem
  · cases mem
  · split at mem
    · cases mem
    · split at mem
      · cases List.mem_singleton.mp mem
      · rcases List.mem_append.mp mem with mem | mem
        · exact not_mem_increments (fun _ => AtomicDelivery.isIncrement_rollupDelta) mem
        · rcases List.mem_cons.mp mem with same | mem
          · exact seenBucketKey_ne_sensType _ _ _ (Cmd.sadd.inj same).1
          · cases List.mem_singleton.mp mem

theorem mem_rowPlaces {tags : RowTags} (tagged : rowTags r.doc = some tags) {p : RowPlace} :
    p ∈ rowPlaces r ↔ p = placeOf tags := by
  rw [rowPlaces, tagged, Option.map_some, Option.mem_toList, Option.some.injEq]
  exact eq_comm

theorem rowTags_some {tags : RowTags} {doc : Props} (tagged : rowTags doc = some tags) :
    EnrichDoc.textOrEmpty doc "risk_class" = tags.riskClass ∧
      EnrichDoc.textOrEmpty doc "bucket" = tags.bucket ∧
      tags.riskClass ≠ "" ∧ tags.bucket ≠ "" := by
  unfold rowTags at tagged
  simp only [Option.bind_eq_bind, Option.bind_eq_some_iff] at tagged
  obtain ⟨cls, hc, bkt, hb, sens, _, tagged⟩ := tagged
  split at tagged
  · cases tagged
  · rename_i filled
    cases tagged
    simp only [not_or] at filled
    simp [EnrichDoc.textOrEmpty, hc, hb, filled.1, filled.2.1]

/-- The tail of a delivery adds the row's bucket to the set of its class, unless that command
fails. -/
theorem buckets_runTail {tags : RowTags} (tagged : rowTags r.doc = some tags)
    (off : opts.liveTailMode = false) :
    bucket ∈ (runTail opts fails s r).sets (seenBucketKey rc) ↔
      bucket ∈ s.sets (seenBucketKey rc) ∨
        fails r.entryId .tail 1 = false ∧ placeOf tags = ⟨rc, bucket⟩ := by
  obtain ⟨hc, hb, someClass, someBucket⟩ := rowTags_some tagged
  have cmds : tailCmds opts r = [Cmd.sadd seenRiskClassKey tags.riskClass,
      .sadd (seenBucketKey tags.riskClass) tags.bucket, .xack r.entryId] := by
    rw [tailCmds, tailSadds]
    simp [hc, hb, off, someClass, someBucket]
  rw [runTail, cmds, mem_sets_execFrom]
  refine or_congr_right ?_
  simp only [executedSadds, executedSadd, List.mem_append, List.not_mem_nil, or_false, Nat.zero_add]
  rw [or_iff_right (a := _ ∈ ite _ _ _) ?_]
  · cases fails r.entryId .tail 1
    · simp only [Bool.false_eq_true, if_false, List.mem_singleton, Prod.mk.injEq, seenBucketKey_inj,
        true_and, placeOf, RowPlace.mk.injEq]
      exact and_congr eq_comm eq_comm
    · simp
  · intro first
    split at first
    · cases first
    · exact seenBucketKey_ne_class rc (Prod.mk.inj (List.mem_singleton.mp first)).1

/-- A completed delivery by the atomic consumer. -/
theorem buckets_deliver {tags : RowTags} (tagged : rowTags r.doc = some tags)
    (off : opts.liveTailMode = false) :
    bucket ∈ (deliver opts fails .afterTail s r).sets (seenBucketKey rc) ↔
      bucket ∈ s.sets (seenBucketKey rc) ∨
        fails r.entryId .tail 1 = false ∧ placeOf tags = ⟨rc, bucket⟩ := by
  rw [deliver, buckets_runTail tagged off, buckets_runPhase2, buckets_runPhase1]

/-- What the pipeline adds for one row of `processBatch`. -/
theorem buckets_piped {w : Writers} {tags : RowTags} (tagged : rowTags r.doc = some tags)
    (off : w.consumer.liveTailMode = false) :
    bucket ∈ (execFrom (fails r.entryId .pipeline) 0 s
        (rowCmds w.consumer r ++ [Cmd.xack r.entryId])).sets (seenBucketKey rc) ↔
      bucket ∈ s.sets (seenBucketKey rc) ∨
        fails r.entryId .pipeline (pipedSaddAt w r) = false ∧ placeOf tags = ⟨rc, bucket⟩ := by
  set before := writeDocForStorage r.key r.doc w.consumer.format ++ emitRollupHincrs r.doc
    with writes
  have cmds : rowCmds w.consumer r ++ [Cmd.xack r.entryId] =
      before ++ ([Cmd.sadd seenRiskClassKey tags.riskClass,
        .sadd (seenBucketKey tags.riskClass) tags.bucket,
        .sadd (seenSensTypeKey tags.riskClass tags.bucket) tags.sensType] ++
          (suggestCmds r.doc ++ [Cmd.xack r.entryId])) := by
    rw [rowCmds, off, emitSeenSadds, tagged, writes]
    simp only [Bool.false_eq_true, if_false, List.append_assoc]
  have quiet : ∀ key member, .sadd key member ∉ before := by
    intro key member mem
    rcases List.mem_append.mp mem with mem | mem
    · exact not_mem_writeDocForStorage mem
    · exact not_mem_increments (fun _ => AckSafety.isIncrement_rollupHincrs) mem
  have quietToo : ∀ key member, .sadd key member ∉ suggestCmds r.doc ++ [Cmd.xack r.entryId] := by
    intro key member mem
    rcases List.mem_append.mp mem with mem | mem
    · obtain ⟨p, _, suggested⟩ := List.mem_filterMap.mp mem
      split at suggested
      · cases suggested
      · split at suggested <;> cases suggested
    · cases List.mem_singleton.mp mem
  have place : pipedSaddAt w r = before.length + 1 := rfl
  clear_value before
  rw [cmds, mem_sets_execFrom, executedSadds_append, executedSadds_append, place]
  refine or_congr_right ?_
  rw [List.mem_append, List.mem_append, or_iff_right fun mem =>
    quiet _ _ (mem_of_executedSadds mem),
    or_iff_left fun mem => quietToo _ _ (mem_of_executedSadds mem)]
  simp only [executedSadds, executedSadd, List.mem_append, List.not_mem_nil, or_false, Nat.zero_add]
  rw [or_iff_right (a := _ ∈ ite _ _ _) ?_, or_iff_left (b := _ ∈ ite _ _ _) ?_]
  · cases fails r.entryId .pipeline (before.length + 1)
    · simp only [Bool.false_eq_true, if_false, List.mem_singleton, Prod.mk.injEq, seenBucketKey_inj,
        true_and, placeOf, RowPlace.mk.injEq]
      exact and_congr eq_comm eq_comm
    · simp
  · intro last
    split at last
    · cases last
    · exact seenBucketKey_ne_sensType rc _ _ (Prod.mk.inj (List.mem_singleton.mp last)).1
  · intro first
    split at first
    · cases first
    · exact seenBucketKey_ne_class rc (Prod.mk.inj (List.mem_singleton.mp first)).1

end Consumer

section Direct
open DirectWriter

theorem mem_addTo {members : List String} {member m : String} :
    m ∈ addTo members member ↔ m ∈ members ∨ m = member := by
  unfold addTo
  split
  · rename_i known
    exact ⟨.inl, fun mem => mem.elim id fun same => same ▸ known⟩
  · rw [List.mem_append, List.mem_singleton]

/-- The members a map of sets has under a key. -/
def under (sets : AssocMaps.Assoc String (List String)) (key : String) : List String :=
  (sets.lookup key).getD []

theorem mem_addUnder {sets : AssocMaps.Assoc String (List String)} {key member k m : String} :
    m ∈ under (addUnder sets key member) k ↔ m ∈ under sets k ∨ k = key ∧ m = member := by
  unfold under addUnder
  by_cases own : k = key
  · subst own
    rw [AList.lookup_insert, Option.getD_some, mem_addTo]
    simp
  · rw [AList.lookup_insert_ne own]
    simp [own]

theorem seenBktByRc_bumps (cmds : List Cmd) (acc : Accum) :
    (cmds.foldl bumpCmd acc).seenBktByRc = acc.seenBktByRc := by
  induction cmds generalizing acc with
  | nil => rfl
  | cons c cs ih =>
    rw [List.foldl_cons, ih]
    cases c <;> rfl

theorem mem_seenBktByRc_add {schema : EnrichDoc.Schema} {acc : Accum} {row : SensitivityRow}
    {k m : String} :
    m ∈ under (add schema acc row).seenBktByRc k ↔ m ∈ under acc.seenBktByRc k ∨
      ⟨k, m⟩ ∈ ((rowTags (EnrichDoc.enrichDoc (rowToDoc row) (some schema))).map
        placeOf).toList := by
  simp only [add, accumulateSeen]
  split
  · rename_i untagged
    rw [untagged]
    simp only [accumulateRollup, seenBktByRc_bumps, Option.map_none, Option.toList_none,
      List.not_mem_nil, or_false]
  · rename_i tags tagged
    rw [tagged]
    simp only [mem_addUnder, accumulateRollup, seenBktByRc_bumps, Option.map_some,
      Option.toList_some, List.mem_singleton, placeOf, RowPlace.mk.injEq]

/-- The accumulated buckets are those of the rows. -/
theorem mem_seenBktByRc_collect {w : Writers} {rows : List SensitivityRow} {k m : String} :
    m ∈ under (collected w rows).seenBktByRc k ↔ ⟨k, m⟩ ∈ directPlaces w rows := by
  have grows : ∀ acc : Accum, m ∈ under (rows.foldl (add w.schema) acc).seenBktByRc k ↔
      m ∈ under acc.seenBktByRc k ∨ ⟨k, m⟩ ∈ directPlaces w rows := by
    induction rows with
    | nil => simp [directPlaces]
    | cons row rows ih =>
      intro acc
      rw [List.foldl_cons, ih, mem_seenBktByRc_add, or_assoc]
      simp only [directPlaces, List.flatMap_cons, List.mem_append]
  exact (grows newAccum).trans (or_iff_right (List.not_mem_nil))

theorem sadd_bucket_mem_dispatchCmds {format : StorageFormat} {batch : Accum} {k m : String} :
    .sadd (seenBucketKey k) m ∈ dispatchCmds format batch ↔ m ∈ under batch.seenBktByRc k := by
  have documents : .sadd (seenBucketKey k) m ∉
      batch.docs.flatMap fun d => writeDocForStorage d.1 d.2 format := by
    intro mem
    obtain ⟨d, _, mem⟩ := List.mem_flatMap.mp mem
    exact not_mem_writeDocForStorage mem
  have sums : .sadd (seenBucketKey k) m ∉ rollupCmds batch := by
    intro mem
    obtain ⟨p, _, mem⟩ := List.mem_flatMap.mp mem
    obtain ⟨f, _, same⟩ := List.mem_map.mp mem
    cases same
  have classes : .sadd (seenBucketKey k) m ∉ batch.seenRc.map (Cmd.sadd seenRiskClassKey) := by
    intro mem
    obtain ⟨c, _, same⟩ := List.mem_map.mp mem
    exact seenBucketKey_ne_class k (Cmd.sadd.inj same).1.symm
  have types : .sadd (seenBucketKey k) m ∉ (AssocMaps.pairs batch.seenSensByRcBkt).flatMap fun p =>
      let tags := splitPair p.1
      p.2.map (Cmd.sadd (seenSensTypeKey tags.1 tags.2)) := by
    intro mem
    obtain ⟨p, _, mem⟩ := List.mem_flatMap.mp mem
    obtain ⟨t, _, same⟩ := List.mem_map.mp mem
    exact seenBucketKey_ne_sensType _ _ _ (Cmd.sadd.inj same).1.symm
  rw [dispatchCmds, seenCmds, List.mem_append, or_iff_right fun mem =>
    (List.mem_append.mp mem).elim documents sums, List.mem_append, or_iff_left types,
    List.mem_append, or_iff_right classes, List.mem_flatMap]
  constructor
  · rintro ⟨p, mem, added⟩
    obtain ⟨b, bucket, same⟩ := List.mem_map.mp added
    obtain ⟨key, rfl⟩ := Cmd.sadd.inj same
    obtain rfl := seenBucketKey_inj.mp key
    rw [under, (AssocMaps.mem_pairs _ p.1 p.2).mp mem]
    exact bucket
  · intro mem
    unfold under at mem
    cases found : batch.seenBktByRc.lookup k with
    | none =>
      rw [found] at mem
      cases mem
    | some buckets =>
      rw [found] at mem
      exact ⟨(k, buckets), (AssocMaps.mem_pairs _ _ _).mpr found, List.mem_map_of_mem mem⟩

/-- Where no command fails, the adds of a command list are its SADDs. -/
theorem executedSadds_of_succeeding {fails : ℕ → Bool} {key member : String} {cmds : List Cmd} :
    ∀ i, (∀ j < cmds.length, fails (i + j) = false) →
      ((key, member) ∈ executedSadds fails i cmds ↔ .sadd key member ∈ cmds) := by
  induction cmds with
  | nil => simp [executedSadds]
  | cons c cs ih =>
    intro i succeeds
    have first := succeeds 0 (Nat.succ_pos _)
    have rest := ih (i + 1) fun j below => by
      have := succeeds (j + 1) (Nat.succ_lt_succ below)
      rwa [← Nat.add_assoc, Nat.add_right_comm] at this
    rw [executedSadds, List.mem_append, rest, List.mem_cons]
    refine or_congr_left ?_
    rw [Nat.add_zero] at first
    rw [first]
    cases c <;> simp [executedSadd]

theorem buckets_direct {w : Writers} {rows : List SensitivityRow} {fails : ℕ → Bool} {s : Redis}
    {k m : String} (done : reported w rows fails) :
    m ∈ (execFrom fails 0 s (directCmds w rows)).sets (seenBucketKey k) ↔
      m ∈ s.sets (seenBucketKey k) ∨ ⟨k, m⟩ ∈ directPlaces w rows := by
  have succeeds : ∀ j < (directCmds w rows).length, fails (0 + j) = false := by
    intro j below
    rw [Nat.zero_add]
    simpa using List.all_eq_true.mp done j (List.mem_range.mpr below)
  rw [mem_sets_execFrom, executedSadds_of_succeeding 0 succeeds, directCmds,
    sadd_bucket_mem_dispatchCmds, mem_seenBktByRc_collect]

end Direct

section Loader
variable {opts : BulkLoader.WorkerOptions} {fails : ℕ → Bool}

theorem bulkSadds_length (row : SlimWriter.Row) :
    (bulkSadds row).length = BulkLoader.saddCount row := by
  unfold bulkSadds BulkLoader.saddCount
  split <;> rfl

theorem executedSadds_bulkSadds {row : SlimWriter.Row} {k m : String} (i : ℕ) :
    (seenBucketKey k, m) ∈ executedSadds fails i (bulkSadds row) ↔
      (BulkLoader.saddCount row = 3 ∧ fails (i + 1) = false) ∧ RowPlace.mk k m =
        ⟨row.riskClass, row.bucket⟩ := by
  unfold bulkSadds BulkLoader.saddCount
  split
  · simp only [executedSadds, executedSadd, List.mem_append, List.not_mem_nil, or_false, true_and]
    rw [or_iff_right (a := _ ∈ ite _ _ _) ?_, or_iff_left (b := _ ∈ ite _ _ _) ?_]
    · cases fails (i + 1)
      · simp [seenBucketKey_inj]
      · simp
    · intro last
      split at last
      · cases last
      · exact seenBucketKey_ne_sensType k _ _ (Prod.mk.inj (List.mem_singleton.mp last)).1
    · intro first
      split at first
      · cases first
      · exact seenBucketKey_ne_class k (Prod.mk.inj (List.mem_singleton.mp first)).1
  · simp [executedSadds]

theorem executedSadds_bulk {k m : String} (rows : List BufferedRow) :
    ∀ i, (seenBucketKey k, m) ∈ executedSadds fails i (rows.flatMap (bulkRowCmds opts)) ↔
      ⟨k, m⟩ ∈ bulkAdds fails i rows := by
  induction rows with
  | nil => simp [executedSadds, bulkAdds]
  | cons entry rows ih =>
    intro i
    have hset : ∀ key fields, executedSadd (fails i) (.hset key fields) = [] := fun _ _ => rfl
    rw [List.flatMap_cons, executedSadds_append, List.mem_append, ih, bulkRowCmds, executedSadds,
      hset, List.nil_append, executedSadds_bulkSadds, List.length_cons, bulkSadds_length,
      bulkAdds, List.mem_append]
    refine or_congr ?_ (by rw [Nat.add_comm _ 1, ← Nat.add_assoc])
    split
    · rename_i added
      rw [List.mem_singleton]
      exact and_iff_right added
    · rename_i missed
      exact iff_of_false (fun own => missed own.1) List.not_mem_nil

theorem buckets_bulk {w : Writers} {batch : List BufferedRow} {s : Redis} {k m : String} :
    m ∈ (execFrom fails 0 s ((pipedRows w.loader batch).flatMap (bulkRowCmds w.loader))).sets
        (seenBucketKey k) ↔
      m ∈ s.sets (seenBucketKey k) ∨ ⟨k, m⟩ ∈ bulkAdds fails 0 (pipedRows w.loader batch) := by
  rw [mem_sets_execFrom, executedSadds_bulk]

/-- A row that has no error in the replies has had its bucket added. -/
theorem bulkAdds_of_flushed {errors : List (Option String)} {entry : BufferedRow}
    (counted : BulkLoader.saddCount entry.row = 3) (rows : List BufferedRow) :
    ∀ i, (entry, none) ∈ BulkLoader.rowResults errors i rows →
      ⟨entry.row.riskClass, entry.row.bucket⟩ ∈
        bulkAdds (fun j => (errors[j]?).join.isSome) i rows := by
  induction rows with
  | nil => exact fun i mem => by cases mem
  | cons head rows ih =>
    intro i mem
    rw [bulkAdds, List.mem_append]
    rw [BulkLoader.rowResults] at mem
    rcases List.mem_cons.mp mem with own | later
    · left
      obtain ⟨rfl, clean⟩ := Prod.mk.inj own
      have answered : (errors[i + 2]?).join = none := by
        have sadds := (Option.or_eq_none_iff.mp clean.symm).2
        rw [List.head?_eq_none_iff, List.filterMap_eq_nil_iff, counted] at sadds
        cases reply : errors[i + 2]? with
        | none => rfl
        | some error =>
          have third : error ∈ (errors.drop (i + 1)).take 3 := by
            refine List.mem_iff_getElem?.mpr ⟨1, ?_⟩
            rw [List.getElem?_take_of_lt (by decide), List.getElem?_drop]
            exact reply
          exact sadds error third
      rw [if_pos ⟨counted, by rw [answered]; rfl⟩]
      exact List.mem_singleton_self _
    · exact .inr (ih _ later)

end Loader

section Runs
variable {w : Writers} {toUpperCase : String → String}

theorem finds_iff {s : Redis} {riskClass bucket : String} :
    Finds s riskClass bucket ↔ bucket ∈ s.sets (seenBucketKey riskClass) := by
  constructor
  · intro finds
    have found := finds ⟨⟨[], [], CalcService.emptyExcludeCsv, CalcService.emptyIncludeCsv, none,
        false⟩, riskClass, .delta, .medium⟩ rfl rfl rfl
      (s.sets (seenBucketKey riskClass)).toList (fun b => Finset.mem_toList)
    exact Finset.mem_toList.mp found
  · intro mem q _ cells subset seen lists
    rw [CalcService.narrowBuckets, if_neg (not_not_intro cells), if_neg (not_not_intro subset)]
    exact (lists bucket).mpr mem

/-- Nothing leaves a set. -/
theorem serve_sets_mono (s : Redis) (e : Event) (key : String) :
    s.sets key ⊆ (serve w s e).sets key := by
  have grows : ∀ {fails : ℕ → Bool} {cmds : List Cmd} {s : Redis} {m : String},
      m ∈ s.sets key → m ∈ (execFrom fails 0 s cmds).sets key :=
    fun mem => (mem_sets_execFrom 0 _).mpr (.inl mem)
  intro m mem
  cases e with
  | atomic entry fails stop =>
    simp only [serve]
    split
    · cases stop with
      | beforePhase1 => exact mem
      | afterPhase1 => exact grows mem
      | afterPhase2 => exact grows (grows mem)
      | afterTail => exact grows (grows (grows mem))
    · exact mem
    · exact mem
  | piped entry fails =>
    simp only [serve]
    split
    · exact grows mem
    · exact mem
  | direct rows fails => exact grows mem
  | bulk batch reply unknown => exact grows mem

/-- An event that settles rows adds the buckets of `adds` and no others. -/
theorem serve_buckets (off : w.consumer.liveTailMode = false) {s : Redis} {e : Event}
    {p : RowPlace} (settled : p ∈ settles w e) (k m : String) :
    m ∈ (serve w s e).sets (seenBucketKey k) ↔
      m ∈ s.sets (seenBucketKey k) ∨ ⟨k, m⟩ ∈ adds w e := by
  cases e with
  | atomic entry fails stop =>
    simp only [settles] at settled
    simp only [serve, adds]
    cases prepared : prepare w.consumer entry with
    | none =>
      rw [prepared] at settled
      cases settled
    | some what =>
      rw [prepared] at settled
      cases what with
      | malformed entryId => cases settled
      | row r =>
        dsimp only at settled ⊢
        split at settled
        · rename_i acked
          obtain rfl : stop = .afterTail := of_decide_eq_true (Bool.and_eq_true_iff.mp acked).1
          cases tagged : rowTags r.doc with
          | none =>
            rw [rowPlaces, tagged] at settled
            cases settled
          | some tags =>
            rw [buckets_deliver tagged off]
            refine or_congr_right ?_
            by_cases added : fails r.entryId .tail 1 = false
            · rw [if_pos ⟨rfl, added⟩, mem_rowPlaces tagged]
              exact (and_iff_right added).trans eq_comm
            · rw [if_neg fun own => added own.2]
              exact iff_of_false (fun own => added own.1) List.not_mem_nil
        · cases settled
  | piped entry fails =>
    simp only [settles] at settled
    simp only [serve, adds]
    cases prepared : prepare w.consumer entry with
    | none =>
      rw [prepared] at settled
      cases settled
    | some what =>
      rw [prepared] at settled
      cases what with
      | malformed entryId => cases settled
      | row r =>
        dsimp only at settled ⊢
        split at settled
        · cases tagged : rowTags r.doc with
          | none =>
            rw [rowPlaces, tagged] at settled
            cases settled
          | some tags =>
            rw [pipelineCmds, buckets_piped tagged off]
            refine or_congr_right ?_
            split
            · rename_i added
              rw [mem_rowPlaces tagged]
              exact (and_iff_right added).trans eq_comm
            · rename_i missed
              exact iff_of_false (fun own => missed own.1) List.not_mem_nil
        · cases settled
  | direct rows fails =>
    simp only [settles] at settled
    simp only [serve, adds]
    split at settled
    · rename_i done
      rw [if_pos done, buckets_direct done]
    · cases settled
  | bulk batch reply unknown => exact buckets_bulk

/-- What settles is discovered exactly when the event or an earlier one has added its bucket to
the set of the upper-case class. -/
theorem settled_found_iff (off : w.consumer.liveTailMode = false) {s : State} {e : Event} :
    (∀ p ∈ settles w e, Finds (serve w s.redis e) (toUpperCase p.riskClass) p.bucket) ↔
      SpelledUp w toUpperCase s e := by
  refine forall₂_congr fun p settled => ?_
  rw [finds_iff, serve_buckets off settled, or_comm]
  refine or_congr_left ?_
  constructor
  · exact fun added => ⟨_, added, rfl, rfl⟩
  · rintro ⟨q, added, cls, same⟩
    rwa [← cls, ← same]

/-- At every point of every run of the writers each settled row lies in a discovered bucket,
exactly when with every row that settles its bucket is, or has been, added by a row that spells
the class in upper case. -/
theorem discovered_iff (toUpperCase : String → String) (w : Writers)
    (off : w.consumer.liveTailMode = false) (s : Redis) (es : List Event) :
    (∀ t ∈ visited (step w) ⟨s, []⟩ es, Discovered toUpperCase t) ↔
      ∀ p ∈ taken (step w) ⟨s, []⟩ es, SpelledUp w toUpperCase p.1 p.2 := by
  refine @visited_safe_iff _ _ (step w) (Discovered toUpperCase) (Discovered toUpperCase)
    (SpelledUp w toUpperCase) ?_ (fun _ safe => safe) ?_ ⟨s, []⟩ (fun _ mem => by cases mem) es
  · rintro s e t safe up went
    cases went
    intro p mem
    rcases List.mem_append.mp mem with old | own
    · exact finds_iff.mpr (serve_sets_mono s.redis e _ (finds_iff.mp (safe p old)))
    · exact (settled_found_iff off).mpr up p own
  · rintro s e t _ down went safe
    cases went
    exact down ((settled_found_iff off).mp fun p own => safe p (List.mem_append_right _ own))

/-- For the direct writer and the bulk loader a row in upper case is enough: each adds the bucket
of every row that it settles. -/
theorem settles_subset_adds {e : Event} (direct : ∀ entry fails stop, e ≠ .atomic entry fails stop)
    (loaded : ∀ entry fails, e ≠ .piped entry fails) : settles w e ⊆ adds w e := by
  cases e with
  | atomic entry fails stop => exact absurd rfl (direct entry fails stop)
  | piped entry fails => exact absurd rfl (loaded entry fails)
  | direct rows fails => exact fun _ mem => mem
  | bulk batch reply unknown =>
    intro p mem
    obtain ⟨entry, flushed, place⟩ := List.mem_filterMap.mp mem
    split at place
    · rename_i counted
      cases place
      obtain ⟨result, clean, rfl⟩ := List.mem_map.mp flushed
      obtain ⟨mem, none⟩ := List.mem_filter.mp clean
      obtain ⟨entry, error⟩ := result
      obtain rfl := Option.isNone_iff_eq_none.mp none
      cases reply with
      | replies errors => exact bulkAdds_of_flushed counted _ 0 mem
      | thrown message =>
        obtain ⟨_, _, same⟩ := List.mem_map.mp mem
        cases same
      | null =>
        obtain ⟨_, _, same⟩ := List.mem_map.mp mem
        cases same
    · cases place

end Runs

section Demo

def fxWriters : Writers where
  consumer := ⟨none, none, none, none, false⟩
  loader := ⟨1, 0, 3, none, Nat.one_pos⟩
  schema := ⟨∅, ∅⟩
  format := .hashSidetable

/-- The bulk loader flushes a row whose class is written in small letters. -/
def flushedFx (riskClass : String) : Event :=
  .bulk [⟨0, ⟨"1", riskClass, "EURUSD", .delta, none, none, none, none, .number 1, none⟩, 0, 0⟩]
    (.replies [none, none, none, none]) fun _ => false

theorem discovered_fx :
    (∀ t ∈ visited (step fxWriters) ⟨Redis.empty, []⟩ [flushedFx "FX"],
        Discovered StorageWriter.upperCase t) ↔
      ∀ p ∈ taken (step fxWriters) ⟨Redis.empty, []⟩ [flushedFx "FX"],
        SpelledUp fxWriters StorageWriter.upperCase p.1 p.2 :=
  discovered_iff StorageWriter.upperCase fxWriters rfl Redis.empty [flushedFx "FX"]

theorem small_letters_missed :
    ¬ ∀ t ∈ visited (step fxWriters) ⟨Redis.empty, []⟩ [flushedFx "fx"],
      Discovered StorageWriter.upperCase t := by
  intro all
  have found := all _ (final_mem_visited _ _) ⟨"fx", "EURUSD"⟩ (by decide +kernel)
  rw [finds_iff] at found
  revert found
  decide +kernel

end Demo

end Discovery
