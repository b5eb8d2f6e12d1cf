import Frtb.RollupDelta

/-!
# The two batch writers and the consumer's drain loop

`processBatch` queues the whole batch on one pipeline. `processBatchAtomic`
runs each entry through three phases: the HASH write, the rollup delta guarded
by the entry's marker, and the tail with the acknowledgement. A thrown error
ends the call at once and reaches `tick`, which answers zero. Every reply is
taken from a pattern of failing commands; no writer looks at a reply except to
log it.
-/

namespace BatchWriters

open AssocMaps JsonText EnrichDoc RollupKeys RedisStore StorageWriter RollupDelta

structure ConsumerOptions where
  batchSize : Option ℕ
  processedMarkerTtlSec : Option ℕ
  schema : Option Schema
  storageFormat : Option StorageFormat
  liveTailMode : Bool

def ConsumerOptions.format (opts : ConsumerOptions) : StorageFormat :=
  opts.storageFormat.getD defaultStorageFormat

def ConsumerOptions.count (opts : ConsumerOptions) : ℕ := max 1 (opts.batchSize.getD 500)

def defaultStreamRetentionSec : ℕ := 86400

def ConsumerOptions.markerTtl (opts : ConsumerOptions) : ℕ :=
  opts.processedMarkerTtlSec.getD defaultStreamRetentionSec

inductive Phase where
  | pipeline
  | phase1
  | phase2
  | tail
deriving DecidableEq

/-- Which commands of which phase of which entry reply with an error. -/
abbrev Faults := EntryId → Phase → ℕ → Bool

def noFaults : Faults := fun _ _ _ => false

/-- A well-formed entry with its document key and enriched document. -/
structure Row where
  entryId : EntryId
  key : String
  doc : Props

inductive Prepared where
  | malformed (entryId : EntryId)
  | row (r : Row)

section Prepare

def buildKey (id : String) : String := "sens:" ++ id

/-- `msg._hash_tag ?? (rc && bucket ? rc:bucket : undefined)`. -/
def hashTagOf (message : Message) : Option String :=
  match message.lookup "_hash_tag" with
  | some hashTag => some hashTag
  | none =>
    match message.lookup "risk_class", message.lookup "bucket" with
    | some rc, some bkt => if rc = "" ∨ bkt = "" then none else some (rc ++ ":" ++ bkt)
    | _, _ => none

/-- The id of a message that carries a hash tag and an id. -/
def routedId (message : Message) : Option String :=
  match hashTagOf message, message.lookup "_id" with
  | some hashTag, some id => if hashTag = "" ∨ id = "" then none else some id
  | _, _ => none

/-- One turn of the entry loop up to the first write. None is a thrown error:
a nil field list, or a payload that is not JSON. -/
def prepare (opts : ConsumerOptions) (entry : Entry) : Option Prepared := do
  let fields ← entry.fields
  let message := ofPairs fields
  match routedId message with
  | none => some (.malformed entry.entryId)
  | some id =>
    let doc ← buildDoc message
    some (.row ⟨entry.entryId, buildKey id, enrichDoc doc opts.schema⟩)

/-- The row of an entry that prepares as one. -/
def rowOf (opts : ConsumerOptions) (entry : Entry) : Row :=
  match prepare opts entry with
  | some (.row r) => r
  | _ => ⟨entry.entryId, "", ∅⟩

def isRow : Prepared → Bool
  | .malformed _ => false
  | .row _ => true

theorem prepare_rowOf {opts : ConsumerOptions} {entry : Entry}
    (h : (prepare opts entry).map isRow = some true) :
    prepare opts entry = some (.row (rowOf opts entry)) := by
  unfold rowOf
  cases hp : prepare opts entry with
  | none => rw [hp] at h; cases h
  | some p =>
    cases p with
    | malformed entryId => rw [hp] at h; cases h
    | row r => rfl

/-- The fields that the generator stamps on a stream entry. -/
def streamFields (riskClass bucket id payload : String) : List (String × String) :=
  [("risk_class", riskClass), ("bucket", bucket), ("_hash_tag", riskClass ++ ":" ++ bucket),
    ("_id", id), ("payload", payload)]

end Prepare

section Atomic

def phase1Cmds (opts : ConsumerOptions) (r : Row) : List Cmd :=
  writeDocForStorage r.key r.doc opts.format

def markerKeyOf (tags : RowTags) (r : Row) : String :=
  processedMarkerKey tags.riskClass tags.bucket r.entryId

/-- The rollup delta, the sensitivity-type set and the marker. -/
def rollupCmds (opts : ConsumerOptions) (oldHash : Hash) (tags : RowTags) (r : Row) : List Cmd :=
  emitRollupDelta (parseOldContribution oldHash tags.riskClass tags.sensType) r.doc ++
    [Cmd.sadd (seenSensTypeKey tags.riskClass tags.bucket) tags.sensType,
      .setEx (markerKeyOf tags r) opts.markerTtl]

/-- The transaction of Phase 2, given the HASH as it stood before Phase 1. A
row whose marker is set probes it and increments nothing. -/
def phase2Cmds (opts : ConsumerOptions) (oldHash : Hash) (markers : Finset String) (r : Row) :
    List Cmd :=
  if opts.liveTailMode then []
  else
    match rowTags r.doc with
    | none => []
    | some tags =>
      if markerKeyOf tags r ∈ markers then [.probe (markerKeyOf tags r)]
      else rollupCmds opts oldHash tags r

def tailSadds (opts : ConsumerOptions) (r : Row) : List Cmd :=
  let rc := textOrEmpty r.doc "risk_class"
  let bkt := textOrEmpty r.doc "bucket"
  (if opts.liveTailMode = false ∧ rc ≠ "" then [Cmd.sadd seenRiskClassKey rc] else []) ++
    (if opts.liveTailMode = false ∧ rc ≠ "" ∧ bkt ≠ "" then [Cmd.sadd (seenBucketKey rc) bkt]
      else [])

def tailCmds (opts : ConsumerOptions) (r : Row) : List Cmd :=
  tailSadds opts r ++ [Cmd.xack r.entryId]

def runPhase1 (opts : ConsumerOptions) (fails : Faults) (s : Redis) (r : Row) : Redis :=
  execFrom (fails r.entryId .phase1) 0 s (phase1Cmds opts r)

def runPhase2 (opts : ConsumerOptions) (fails : Faults) (oldHash : Hash) (s : Redis) (r : Row) :
    Redis :=
  execFrom (fails r.entryId .phase2) 0 s (phase2Cmds opts oldHash s.markers r)

def runTail (opts : ConsumerOptions) (fails : Faults) (s : Redis) (r : Row) : Redis :=
  execFrom (fails r.entryId .tail) 0 s (tailCmds opts r)

/-- Where one delivery of an entry comes to a stop. -/
inductive Stop where
  | beforePhase1
  | afterPhase1
  | afterPhase2
  | afterTail
deriving DecidableEq

/-- One delivery of a row by a consumer that nobody interferes with, so that
no EXEC is discarded, up to its stop. -/
def deliver (opts : ConsumerOptions) (fails : Faults) (stop : Stop) (s : Redis) (r : Row) :
    Redis :=
  let s₁ := runPhase1 opts fails s r
  let s₂ := runPhase2 opts fails (s.hashes r.key) s₁ r
  match stop with
  | .beforePhase1 => s
  | .afterPhase1 => s₁
  | .afterPhase2 => s₂
  | .afterTail => runTail opts fails s₂ r

/-- The entries of one reply in order, with the number processed so far. The
call answers none when it throws. -/
def processBatchAtomic (opts : ConsumerOptions) (fails : Faults) :
    Redis → ℕ → List Entry → Redis × Option ℕ
  | s, processed, [] => (s, some processed)
  | s, processed, entry :: entries =>
    match prepare opts entry with
    | none => (s, none)
    | some (.malformed entryId) =>
      processBatchAtomic opts fails (apply s (.xack entryId)) (processed + 1) entries
    | some (.row r) =>
      processBatchAtomic opts fails (deliver opts fails .afterTail s r) (processed + 1) entries

end Atomic

section Pipelined

def truthy : Json → Bool
  | .null => false
  | .bool b => b
  | .num q => q ≠ 0
  | .str s => s ≠ ""
  | .arr _ => true
  | .obj _ => true

def suggestCmds (doc : Props) : List Cmd :=
  [("sug:book", "book"), ("sug:trade_id", "trade_id"),
    ("sug:risk_factor", "risk_factor")].filterMap fun p =>
    match doc.lookup p.2 with
    | none => none
    | some v => if truthy v then some (.sugadd p.1 v) else none

/-- What the pipeline carries for a row before its XACK. -/
def rowCmds (opts : ConsumerOptions) (r : Row) : List Cmd :=
  writeDocForStorage r.key r.doc opts.format ++
    (if opts.liveTailMode then []
      else emitRollupHincrs r.doc ++ emitSeenSadds r.doc ++ suggestCmds r.doc)

/-- The commands the pipeline queues for one entry, the XACK last. -/
def pipelineCmds (opts : ConsumerOptions) : Prepared → EntryId × List Cmd
  | .malformed entryId => (entryId, [Cmd.xack entryId])
  | .row r => (r.entryId, rowCmds opts r ++ [Cmd.xack r.entryId])

/-- One pipeline for the whole batch. A throw comes before its exec. -/
def processBatch (opts : ConsumerOptions) (fails : Faults) (s : Redis) (entries : List Entry) :
    Redis × Option ℕ :=
  match entries.mapM (prepare opts) with
  | none => (s, none)
  | some prepared =>
    ((prepared.map (pipelineCmds opts)).foldl
      (fun s block => execFrom (fails block.1 .pipeline) 0 s block.2) s,
      some (prepared.countP isRow))

end Pipelined

section Consumer

/-- The writer that the storage format selects. -/
def processEntries (opts : ConsumerOptions) (fails : Faults) (s : Redis) (entries : List Entry) :
    Redis × Option ℕ :=
  if useAtomic opts.format then processBatchAtomic opts fails s 0 entries
  else processBatch opts fails s entries

/-- `tick("0")`: read the first pending entries and process them. -/
def tickPending (opts : ConsumerOptions) (fails : Faults) (s : Redis) : Redis × ℕ :=
  let result := processEntries opts fails s (s.pel.take opts.count)
  (result.1, result.2.getD 0)

/-- `tick("0")` over and over until it answers zero. -/
inductive Drains (opts : ConsumerOptions) (fails : Faults) : Redis → Redis → Prop where
  | stop {s s' : Redis} (h : tickPending opts fails s = (s', 0)) : Drains opts fails s s'
  | again {s s' s'' : Redis} {n : ℕ} (h : tickPending opts fails s = (s', n + 1))
      (rest : Drains opts fails s' s'') : Drains opts fails s s''

end Consumer

end BatchWriters
