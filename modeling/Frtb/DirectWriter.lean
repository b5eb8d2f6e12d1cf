import Frtb.BatchWriters

/-!
# The direct writer of the generator

`createDirectWriter` writes generator rows without the stream. A batch is
collected before anything is sent: the documents in order, one sum for each
field of a rollup, and each member of a discovery set once.
-/

namespace DirectWriter

open AssocMaps JsonText EnrichDoc RollupKeys RedisStore StorageWriter RollupDelta BatchWriters

/-- The fields that every generator row has and that no other member is named like. -/
def rowFields : List String := ["risk_class", "bucket", "_hash_tag", "_id"]

/-- A row of the generator; `rest` are the members besides the four it always has. -/
structure SensitivityRow where
  riskClass : String
  bucket : String
  hashTag : String
  id : String
  rest : List (String × Json)
  own : ∀ p ∈ rest, p.1 ∉ rowFields

structure Accum where
  rollup : Assoc String (Assoc String ℚ)
  seenRc : List String
  seenBktByRc : Assoc String (List String)
  seenSensByRcBkt : Assoc String (List String)
  docs : List (String × Props)
  count : ℕ

def newAccum : Accum where
  rollup := ∅
  seenRc := []
  seenBktByRc := ∅
  seenSensByRcBkt := ∅
  docs := []
  count := 0

section Accumulate

/-- `Set.add`. -/
def addTo (members : List String) (member : String) : List String :=
  if member ∈ members then members else members ++ [member]

/-- `Set.add` on the set that a map has under a key, new if there is none. -/
def addUnder (sets : Assoc String (List String)) (key member : String) :
    Assoc String (List String) :=
  sets.insert key (addTo ((sets.lookup key).getD []) member)

def bump (acc : Accum) (key field : String) (delta : ℚ) : Accum :=
  let m := (acc.rollup.lookup key).getD ∅
  { acc with rollup := acc.rollup.insert key (m.insert field ((m.lookup field).getD 0 + delta)) }

/-- The accumulated counterpart of an increment. -/
def bumpCmd (acc : Accum) : Cmd → Accum
  | .hincrbyfloat key field increment => bump acc key field increment
  | _ => acc

/-- `accumulateRollup` bumps what `emitRollupHincrs` increments, key by key and field by field. -/
def accumulateRollup (acc : Accum) (doc : Props) : Accum :=
  (emitRollupHincrs doc).foldl bumpCmd acc

def accumulateSeen (acc : Accum) (doc : Props) : Accum :=
  match rowTags doc with
  | none => acc
  | some tags =>
    { acc with
      seenRc := addTo acc.seenRc tags.riskClass
      seenBktByRc := addUnder acc.seenBktByRc tags.riskClass tags.bucket
      seenSensByRcBkt :=
        addUnder acc.seenSensByRcBkt (tags.riskClass ++ ":" ++ tags.bucket) tags.sensType }

/-- The row without its meta fields. -/
def rowToDoc (row : SensitivityRow) : Props :=
  assign (ofPairs [("bucket", .str row.bucket), ("risk_class", .str row.riskClass)]) row.rest

def add (schema : Schema) (acc : Accum) (row : SensitivityRow) : Accum :=
  let doc := enrichDoc (rowToDoc row) (some schema)
  let acc := { acc with docs := acc.docs ++ [(buildKey row.id, doc)] }
  let acc := accumulateSeen (accumulateRollup acc doc) doc
  { acc with count := acc.count + 1 }

def collect (schema : Schema) (rows : List SensitivityRow) : Accum :=
  rows.foldl (add schema) newAccum

end Accumulate

section Dispatch

/-- `rcBkt.split(":")` read as a pair: what follows a second colon is dropped. -/
def splitPair (rcBkt : String) : String × String :=
  let parts := (rcBkt.toList.splitOn ':').map String.ofList
  (parts.getD 0 "", parts.getD 1 "")

def rollupCmds (batch : Accum) : List Cmd :=
  (pairs batch.rollup).flatMap fun p =>
    (pairs p.2).map fun f => .hincrbyfloat p.1 f.1 f.2

def seenCmds (batch : Accum) : List Cmd :=
  batch.seenRc.map (.sadd seenRiskClassKey) ++
    ((pairs batch.seenBktByRc).flatMap fun p => p.2.map (.sadd (seenBucketKey p.1))) ++
      (pairs batch.seenSensByRcBkt).flatMap fun p =>
        let tags := splitPair p.1
        p.2.map (.sadd (seenSensTypeKey tags.1 tags.2))

/-- The pipeline of one batch. -/
def dispatchCmds (format : StorageFormat) (batch : Accum) : List Cmd :=
  (batch.docs.flatMap fun d => writeDocForStorage d.1 d.2 format) ++ rollupCmds batch ++
    seenCmds batch

end Dispatch

end DirectWriter
