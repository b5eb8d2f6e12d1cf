import Frtb.Library.SharedCache
import Frtb.ChargeReduce
import Frtb.StreamRouter
import Mathlib.Data.List.Sort
import Mathlib.Data.String.Basic

/-!
# The charge service

`computeSbmCharge` of one class, leg and regime: look the answer up, fan out
over the discovered buckets, reduce, store. A fan-out reads the data through
one client; what it reads is a `Backend`. Timings and command echoes are left
out. `calcService` is the service as an instance of the shared cache.
-/

namespace CalcService

open SharedCache ChargeReduce

section Requests

inductive Leg where
  | delta
  | vega
  | curvature
deriving DecidableEq

inductive ForcePath where
  | lua
  | fast
deriving DecidableEq

structure BucketCell where
  riskClass : String
  bucket : String
deriving DecidableEq

/-- The `exclude` lists, each joined with commas. -/
structure ExcludeCsv where
  book : String
  tradeId : String
  riskFactor : String
  desk : String
  region : String
  bucket : String
deriving DecidableEq

structure IncludeCsv where
  book : String
  tradeId : String
  desk : String
  region : String
  bucket : String
deriving DecidableEq

def emptyExcludeCsv : ExcludeCsv := ⟨"", "", "", "", "", ""⟩

def emptyIncludeCsv : IncludeCsv := ⟨"", "", "", "", ""⟩

/-- What every cell of one total request has in common. -/
structure SharedInput where
  bucketSubset : List String
  bucketCells : List BucketCell
  excludeCsv : ExcludeCsv
  includeCsv : IncludeCsv
  forcePath : Option ForcePath
  noCache : Bool
deriving DecidableEq

structure ComputeSbmInput extends SharedInput where
  riskClass : String
  leg : Leg
  regime : CorrelationRegime
deriving DecidableEq

end Requests

section Keys

/-- The canonical request body and version that a key spells. -/
structure CacheKey where
  version : ℕ
  riskClass : String
  leg : Leg
  bucketSubset : List String
  bucketCells : Option (List String)
  regime : CorrelationRegime
  excludeCsv : ExcludeCsv
  includeCsv : IncludeCsv
  forcePath : Option ForcePath
deriving DecidableEq

/-- The order of `Array.prototype.sort`. -/
def textLe (a b : String) : Bool :=
  decide (a.toList.flatMap StreamRouter.codeUnits ≤ b.toList.flatMap StreamRouter.codeUnits)

def sorted (texts : List String) : List String :=
  texts.insertionSort fun a b => textLe a b = true

def bucketCellsCacheKey (cells : List BucketCell) : List String :=
  sorted (cells.map fun c => c.riskClass ++ ":" ++ c.bucket)

/-- The key `finalizeSbmCharge` stores under. -/
def storeKey (q : ComputeSbmInput) (version : ℕ) : CacheKey where
  version := version
  riskClass := q.riskClass
  leg := q.leg
  bucketSubset := sorted q.bucketSubset
  bucketCells := none
  regime := q.regime
  excludeCsv := q.excludeCsv
  includeCsv := q.includeCsv
  forcePath := q.forcePath

/-- The key `computeSbmCharge` looks up: it also names the bucket cells. -/
def lookupKey (q : ComputeSbmInput) (version : ℕ) : CacheKey :=
  { storeKey q version with
    bucketCells :=
      if q.bucketCells = [] then none else some (bucketCellsCacheKey q.bucketCells) }

end Keys

section Errors

inductive Failure where
  | answered (statusCode : ℕ) (error : String)
  | thrown (message : String)
deriving DecidableEq

def mentions (message part : String) : Bool := 1 < (message.splitOn part).length

/-- The answer a known Redis error is translated to. `pending` tells the state
of the bootstrap. -/
def translateRedisError (targetLabel pending message : String) : Option Failure :=
  let msg := message.toLower
  if mentions msg "unknown index name" ∨ mentions msg "index not found" then
    some (.answered 412 ("idx:sens not found on '" ++ targetLabel ++ "' — bootstrap " ++ pending))
  else if mentions msg "function not found" ∨ mentions msg "unknown command 'fcall'" then
    some (.answered 412 ("frtb Lua library not loaded on '" ++ targetLabel ++ "' — bootstrap " ++
      pending))
  else none

end Errors

section Data

/-- Row filters pushed into the index query, each a list of values. -/
structure RowFilter where
  book : List String
  tradeId : List String
  riskFactor : List String
  desk : List String
  bucket : List String

structure AggregateQuery where
  riskClass : String
  leg : Leg
  bucketSubset : List String
  excluded : RowFilter
  included : RowFilter

inductive AggregateError where
  | fallbackDisabled
  | redis (message : String)

/-- What the commands of one fan-out reply. -/
structure Backend where
  /-- The target's label, and where its bootstrap stands. -/
  targetLabel : String
  pending : String
  seenBuckets : String → Except String (List String)
  /-- `num_docs` of `FT.INFO`, none when it cannot be read. -/
  info : Option ℕ
  desks : List String
  /-- `tryRollupReadout`; none also when it throws. -/
  rollup : String → Leg → List String → Option (List BucketResult)
  aggregate : AggregateQuery → Except AggregateError (List BucketResult)
  fcall : String → Leg → String → ExcludeCsv → Except String (Option (ℝ × ℚ × ℚ))
  /-- A tag clause is a union: the order of its values does not matter. -/
  tagUnion : ∀ q subset, List.Perm q.bucketSubset subset →
    aggregate q = aggregate { q with bucketSubset := subset }

/-- The documents of the index; zero when their number cannot be read. -/
def Backend.numDocs (v : Backend) : ℕ := v.info.getD 0

end Data

structure CalcConfig where
  hasSchema : Bool
  fastPathEnabled : Bool
  fcallFallback : Bool
  lazyMath : Bool
  rollupPath : Bool
  correlations : String → Option CorrelationSpec

section Fanout

inductive EngineTag where
  | ftAggregate
  | fcallLua
  | rollup
deriving DecidableEq

structure Bundle where
  results : List BucketResult
  engineUsed : EngineTag
  buckets : List String

/-- The discovered buckets that the request asks for. Cells of other classes
leave none. -/
def narrowBuckets (q : ComputeSbmInput) (seen : List String) : List String :=
  if q.bucketCells ≠ [] then
    seen.filter (· ∈ (q.bucketCells.filter (·.riskClass = q.riskClass)).map BucketCell.bucket)
  else if q.bucketSubset ≠ [] then seen.filter (· ∈ q.bucketSubset)
  else seen

def splitCsv (csv : String) : List String := if csv = "" then [] else csv.splitOn ","

def hasFilter (q : ComputeSbmInput) : Bool :=
  q.excludeCsv ≠ emptyExcludeCsv || q.includeCsv ≠ emptyIncludeCsv

def regionFromDesk (desk : String) : String :=
  match desk.splitOn "_" with
  | _ :: part :: rest =>
    let region := "_".intercalate (part :: rest)
    if region = "" then "UNKNOWN" else region
  | _ => "UNKNOWN"

def desksOfRegions (regions : String) (desks : List String) : List String :=
  desks.filter fun d => regionFromDesk d ∈ splitCsv regions

/-- The desks to keep; a list that matches no desk when the regions leave none. -/
def includedDesks (c : IncludeCsv) (desks : List String) : List String :=
  let own := splitCsv c.desk
  if c.region = "" then own
  else
    let matched := desksOfRegions c.region desks
    let kept := if own = [] then matched else own.filter (· ∈ matched)
    if kept = [] then ["__no_match__"] else kept

def excludedDesks (c : ExcludeCsv) (desks : List String) : List String :=
  let own := splitCsv c.desk
  if c.region = "" then own else (own ++ desksOfRegions c.region desks).eraseDups

def aggregateQuery (q : ComputeSbmInput) (desks : List String) : AggregateQuery where
  riskClass := q.riskClass
  leg := q.leg
  bucketSubset := q.bucketSubset
  excluded := ⟨splitCsv q.excludeCsv.book, splitCsv q.excludeCsv.tradeId,
    splitCsv q.excludeCsv.riskFactor, excludedDesks q.excludeCsv desks,
    splitCsv q.excludeCsv.bucket⟩
  included := ⟨splitCsv q.includeCsv.book, splitCsv q.includeCsv.tradeId, [],
    includedDesks q.includeCsv desks, splitCsv q.includeCsv.bucket⟩

/-- One result for each bucket, zero where the reply has none. -/
def fillBuckets (buckets : List String) (rows : List BucketResult) : List BucketResult :=
  buckets.map fun b => (rows.reverse.find? (fun r => r.bucket = b)).getD ⟨b, 0, 0, 0⟩

def failWith (v : Backend) (message : String) : Failure :=
  (translateRedisError v.targetLabel v.pending message).getD (.thrown message)

def fastPath (cfg : CalcConfig) (q : ComputeSbmInput) (v : Backend) (buckets : List String) :
    Except Failure Bundle :=
  let rollup :=
    if cfg.rollupPath && !hasFilter q then v.rollup q.riskClass q.leg buckets else none
  match rollup with
  | some rows => .ok ⟨fillBuckets buckets rows, .rollup, buckets⟩
  | none =>
    match v.aggregate (aggregateQuery q v.desks) with
    | .ok rows => .ok ⟨fillBuckets buckets rows, .ftAggregate, buckets⟩
    | .error .fallbackDisabled => .error (.answered 412 "fallback-disabled")
    | .error (.redis message) => .error (failWith v message)

/-- The kernel calls, one a bucket. The first failing one is reported. -/
def luaPath (q : ComputeSbmInput) (v : Backend) (buckets : List String) :
    Except Failure Bundle :=
  match buckets.mapM fun b => v.fcall q.riskClass q.leg b q.excludeCsv with
  | .ok replies =>
    let results := (buckets.zip replies).map fun p =>
      let reply := p.2.getD (0, 0, 0)
      ⟨p.1, reply.1, reply.2.1, reply.2.2⟩
    .ok ⟨results, .fcallLua, buckets⟩
  | .error message => .error (failWith v message)

/-- The path asked for by the request, else by the configuration. -/
def wantsFastPath (cfg : CalcConfig) (q : ComputeSbmInput) : Bool :=
  match q.forcePath with
  | some .fast => cfg.hasSchema
  | some .lua => false
  | none => cfg.hasSchema && cfg.fastPathEnabled

def dispatch (cfg : CalcConfig) (q : ComputeSbmInput) (v : Backend) (buckets : List String) :
    Except Failure Bundle :=
  let wanted := wantsFastPath cfg q
  if !wanted && !cfg.fcallFallback && !cfg.hasSchema then
    .error (.answered 503 "fcall-fallback-disabled")
  else
    let useFastPath := wanted || !cfg.fcallFallback
    if !useFastPath && cfg.lazyMath then
      .error (.answered 503 "fcall-incompatible-with-lazy-math")
    else if useFastPath then fastPath cfg q v buckets
    else luaPath q v buckets

def noData : Failure := .answered 503 "no-data-or-index"

def runSbmFanoutPhase (cfg : CalcConfig) (q : ComputeSbmInput) (v : Backend) :
    Except Failure Bundle :=
  match v.seenBuckets q.riskClass with
  | .error message =>
    match translateRedisError v.targetLabel v.pending message with
    | some failure => .error failure
    | none => if v.numDocs = 0 then .error noData else .error (.answered 502 "discovery-failed")
  | .ok seen =>
    let buckets := narrowBuckets q seen.eraseDups
    if buckets = [] ∧ v.numDocs = 0 then .error noData else dispatch cfg q v buckets

/-- The class has no data for a request, as far as the view could be read: no listed bucket is
asked for, and the index is empty. -/
structure Absent (q : ComputeSbmInput) (v : Backend) : Prop where
  listed : ∀ seen, v.seenBuckets q.riskClass = .ok seen → narrowBuckets q seen.eraseDups = []
  indexed : ∀ n, v.info = some n → n = 0

end Fanout

section Answers

inductive CurvatureBranch where
  | positiveInterior
  | fallbackClippedS
deriving DecidableEq

inductive DataStatus where
  | populated
  | empty
deriving DecidableEq

structure Body where
  charge : ℝ
  perBucket : List BucketResult
  regime : CorrelationRegime
  engine : EngineTag
  dataStatus : DataStatus
  curvatureBranch : Option CurvatureBranch

def scaledCorrelations (cfg : CalcConfig) (q : ComputeSbmInput) : CorrelationSpec :=
  scaleCorrelationSpec ((cfg.correlations q.riskClass).getD (.constant 0))
    (correlationRegimeFactor q.regime) 1

/-- The charge of bucket results under the regime of a request, and the
curvature branch. -/
noncomputable def reduceCharge (cfg : CalcConfig) (q : ComputeSbmInput)
    (per : List BucketResult) : ℝ × Option CurvatureBranch :=
  match q.leg with
  | .curvature =>
    let out := reduceCurvatureCharge per (scaledCorrelations cfg q)
    (out.1, some (if out.2 then .fallbackClippedS else .positiveInterior))
  | _ => (reduceRiskClassCharge per (scaledCorrelations cfg q), none)

noncomputable def finalizeSbmCharge (cfg : CalcConfig) (q : ComputeSbmInput) (bundle : Bundle) :
    Body where
  charge := (reduceCharge cfg q bundle.results).1
  perBucket := bundle.results
  regime := q.regime
  engine := bundle.engineUsed
  dataStatus := if bundle.results.any (fun r => 0 < r.count) then .populated else .empty
  curvatureBranch := (reduceCharge cfg q bundle.results).2

noncomputable def calcService (cfg : CalcConfig) :
    Service ComputeSbmInput CacheKey (String × Leg) Backend Bundle Body Failure where
  lookupKey := lookupKey
  storeKey := storeKey
  uses := fun q => !q.noCache
  group := fun q => (q.riskClass, q.leg)
  fetch := runSbmFanoutPhase cfg
  finish := finalizeSbmCharge cfg

end Answers

end CalcService
