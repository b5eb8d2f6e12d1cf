import Frtb.Library.ApplyExpr
import Frtb.ChargeReduce
import Frtb.StorageWriter

/-!
# The index aggregate

`aggregateBucketsViaIndex`: the clauses sent to every node, what the nodes
reply, the merges of the replies and the bucket results. The names that the
source spells with underscores (`<field>_safe`, `sum_d_<field>_sq`) are kept as
structured names; the spelling tells them apart as long as no tenor label
contains an underscore. A number read from a reply is none when it is not
finite.
-/

namespace FastPath

open AssocMaps EnrichDoc StorageWriter ApplyExpr ChargeReduce PairSums

section Fields

inductive FastLeg where
  | delta
  | vega
  | curvature
deriving DecidableEq

/-- The schema with its correlations. -/
structure CalcSchema extends Schema where
  intraBucketCorrelationRef : String → Option String
  correlations : String → Option CorrelationSpec

def perTenorClasses : List String := ["GIRR"]

def tenorNodesOf (schema : CalcSchema) (rc : String) : List String :=
  ((schema.riskClasses.lookup rc).bind RiskClassConfig.tenorNodes).getD []

def isPerTenor (schema : CalcSchema) (rc : String) : Bool :=
  rc ∈ perTenorClasses && tenorNodesOf schema rc ≠ []

/-- The index fields of a leg, with the sensitivity type they belong to. -/
structure LegFields where
  delta : List String
  vega : List String
  cvrUp : List String
  cvrDown : List String
  sensitivityType : String

def fieldFor (pre lower root tenor : String) : String :=
  pre ++ "_" ++ lower ++ "_" ++ root ++ (if tenor = "" then "" else "_" ++ tenor)

/-- The tenors that a class has fields for; a scalar class has one field. -/
def fieldTenors (schema : CalcSchema) (rc : String) : List String :=
  if isPerTenor schema rc then tenorNodesOf schema rc else [""]

def resolveLegFieldsForPrefix [Casing] (schema : CalcSchema) (rc : String) (leg : FastLeg)
    (pre : String) :
    LegFields :=
  let fieldsFor := fun root => (fieldTenors schema rc).map (fieldFor pre (lowerCase rc) root)
  match leg with
  | .delta => ⟨fieldsFor "delta", [], [], [], "Delta"⟩
  | .vega => ⟨[], fieldsFor "vega", [], [], "Vega"⟩
  | .curvature => ⟨[], [], fieldsFor "cvr_up", fieldsFor "cvr_down", "Curvature"⟩

def resolveLegFields [Casing] (schema : CalcSchema) (rc : String) (leg : FastLeg) : LegFields :=
  resolveLegFieldsForPrefix schema rc leg "ws"

def resolveSlimLegFields [Casing] (schema : CalcSchema) (rc : String) (leg : FastLeg) : LegFields :=
  resolveLegFieldsForPrefix schema rc leg "s"

/-- The value of a constant correlation, else zero. -/
def constantOf (schema : CalcSchema) (name : String) : ℚ :=
  match schema.correlations name with
  | some (.constant value) => value
  | _ => 0

def resolveRho (schema : CalcSchema) (rc : String) (leg : FastLeg) : ℚ :=
  if rc = "GIRR" ∧ leg = .vega then constantOf schema "girr_vega_rho_kl"
  else
    let rhoDelta := ((schema.intraBucketCorrelationRef rc).map (constantOf schema)).getD 0
    if leg = .curvature then squareCorrelation rhoDelta else rhoDelta

end Fields

section Weights

inductive WeightSpec where
  | constant (value : ℚ)
  | byTenor (values : List ℚ)
  | byBucket (map : Assoc String ℚ)

def riskWeightTable (schema : CalcSchema) (rc : String) : Option RiskWeightTable :=
  (schema.riskClasses.lookup rc).bind fun cls =>
    if cls.riskWeightsRef = "" then none else schema.riskWeights.lookup cls.riskWeightsRef

def resolveLazyMathWeights (schema : CalcSchema) (rc : String) (leg : FastLeg) (perTenor : Bool) :
    WeightSpec :=
  if leg = .vega ∨ leg = .curvature then .constant 1
  else
    match riskWeightTable schema rc with
    | none => .constant 0
    | some (.constant weight) => .constant weight
    | some (.byTenor weights) =>
      if perTenor ∧ tenorNodesOf schema rc ≠ [] then
        .byTenor ((tenorNodesOf schema rc).map fun t => (weights.lookup t).getD 0)
      else .constant 0
    | some (.byBucket weights) => .byBucket weights

/-- The literal each field is multiplied by. A bucket's weight is not known yet. -/
def applyMultipliers (roots : List String) (weights : Option WeightSpec) : List ℚ :=
  match weights with
  | none => roots.map fun _ => 1
  | some (.constant value) => roots.map fun _ => value
  | some (.byTenor values) => roots.zipIdx.map fun p => values[p.2]?.getD 0
  | some (.byBucket _) => roots.map fun _ => 1

end Weights

section Clauses

/-- The prefix of a leg's names. -/
inductive LegPrefix where
  | d
  | v
  | u
  | n
deriving DecidableEq

inductive Part where
  | value
  | sq
  | neg
  | negSq
deriving DecidableEq

/-- A name of the pipeline: an index field, its null-safe value, or a value
derived from that. -/
inductive Name where
  | field (f : String)
  | safe (f : String)
  | derived (pre : LegPrefix) (f : String) (part : Part)
deriving DecidableEq

/-- A name of the reply, `sum_<pre>_<f>[_<part>]`. -/
structure SumName where
  pre : LegPrefix
  f : String
  part : Part
deriving DecidableEq

structure AggregateArgs where
  load : List String
  apply : List (List (Tok Name) × Name)
  reduce : List (Name × SumName)

def nullCoerceApplyExpr (f : String) (searchVer : ℕ) : List (Tok Name) :=
  if 80000 ≤ searchVer then
    [.caseOf, .lpar, .existsOf, .lpar, .ref (.field f), .rpar, .comma, .ref (.field f), .comma,
      .lit 0, .rpar]
  else [.ref (.field f), .plus, .lit 0]

def safeExpr (f : String) (multiplier : ℚ) (searchVer : ℕ) : List (Tok Name) :=
  let base := nullCoerceApplyExpr f searchVer
  if multiplier = 1 then base else paren (base ++ [Tok.times, .lit multiplier])

/-- `(@safe*@safe)`. -/
def squareExpr (f : String) : List (Tok Name) :=
  [.lpar, .ref (.safe f), .times, .ref (.safe f), .rpar]

/-- `(@safe<0)*@safe`. -/
def negativeExpr (f : String) : List (Tok Name) :=
  [.lpar, .ref (.safe f), .less, .lit 0, .rpar, .times, .ref (.safe f)]

/-- `(((@safe<0)*@safe)*((@safe<0)*@safe))`. -/
def negativeSquareExpr (f : String) : List (Tok Name) :=
  paren (paren (negativeExpr f) ++ .times :: paren (negativeExpr f))

def numericClauses (pre : LegPrefix) (searchVer : ℕ) (f : String) (multiplier : ℚ) :
    AggregateArgs where
  load := [f]
  apply := [(safeExpr f multiplier searchVer, .safe f), (squareExpr f, .derived pre f .sq)]
  reduce := [(.safe f, ⟨pre, f, .value⟩), (.derived pre f .sq, ⟨pre, f, .sq⟩)]

def curvatureClauses (pre : LegPrefix) (searchVer : ℕ) (f : String) (multiplier : ℚ) :
    AggregateArgs where
  load := [f]
  apply := [(safeExpr f multiplier searchVer, .safe f), (negativeExpr f, .derived pre f .neg),
    (squareExpr f, .derived pre f .sq), (negativeSquareExpr f, .derived pre f .negSq)]
  reduce := [(.safe f, ⟨pre, f, .value⟩), (.derived pre f .sq, ⟨pre, f, .sq⟩),
    (.derived pre f .neg, ⟨pre, f, .neg⟩), (.derived pre f .negSq, ⟨pre, f, .negSq⟩)]

/-- The clauses of several fields, one after the other; each field is loaded once. -/
def joinClauses (parts : List AggregateArgs) : AggregateArgs where
  load := (parts.flatMap AggregateArgs.load).eraseDups
  apply := parts.flatMap AggregateArgs.apply
  reduce := parts.flatMap AggregateArgs.reduce

/-- The clauses of one leg, each field with its multiplier. -/
def legClauses (clauses : String → ℚ → AggregateArgs) (roots : List String)
    (weights : Option WeightSpec) : List AggregateArgs :=
  (roots.zip (applyMultipliers roots weights)).map fun p => clauses p.1 p.2

/-- The weights of each leg that has some. -/
structure LegWeights where
  delta : Option WeightSpec
  vega : Option WeightSpec
  curvature : Option WeightSpec

def noWeights : LegWeights := ⟨none, none, none⟩

/-- The clauses grouped by bucket. A COUNT of the rows rides along. -/
def buildFastPathAggregateArgs (fields : LegFields) (searchVer : ℕ) (weights : LegWeights) :
    AggregateArgs :=
  joinClauses <|
    legClauses (numericClauses .d searchVer) fields.delta weights.delta ++
    legClauses (numericClauses .v searchVer) fields.vega weights.vega ++
    legClauses (curvatureClauses .u searchVer) fields.cvrUp weights.curvature ++
    legClauses (curvatureClauses .n searchVer) fields.cvrDown weights.curvature

/-- The clauses grouped by bucket and risk factor. -/
def buildComponentsAggregateArgs (fields : LegFields) (searchVer : ℕ) (weights : LegWeights) :
    AggregateArgs :=
  joinClauses <|
    legClauses (numericClauses .d searchVer) fields.delta weights.delta ++
    legClauses (numericClauses .v searchVer) fields.vega weights.vega ++
    legClauses (numericClauses .u searchVer) fields.cvrUp weights.curvature ++
    legClauses (numericClauses .n searchVer) fields.cvrDown weights.curvature

end Clauses

section Replies

/-- A document as the index sees it. -/
structure IndexDoc where
  bucket : String
  riskFactor : String
  field : String → Option ℚ

/-- The row of a document in the pipeline. -/
def pipelineRow (args : AggregateArgs) (doc : IndexDoc) : Name → Option ℚ :=
  applyAll args.apply fun name =>
    match name with
    | .field f => if f ∈ args.load then doc.field f else none
    | _ => none

/-- The exact `SUM` of a pipeline value over documents. -/
def sumOver (args : AggregateArgs) (docs : List IndexDoc) (src : Name) : ℚ :=
  (docs.map fun d => (pipelineRow args d src).getD 0).sum

/-- A number read with `Number`, none when it is not finite. -/
abbrev JsNum := Option ℚ

/-- What a reply row maps a name to; none where it has no such name. -/
structure Record where
  sums : SumName → Option JsNum
  rowCount : JsNum

/-- The reducer behind a name; a later one of the same name wins. -/
def reducerOf (args : AggregateArgs) (name : SumName) : Option Name :=
  (args.reduce.reverse.find? (fun p => p.2 = name)).map Prod.fst

/-- All documents miss the index field behind a name. -/
def allMiss (docs : List IndexDoc) (name : SumName) : Bool :=
  docs.all fun d => (d.field name.f).isNone

/-- How a node reports the sums that are over no value: as `nan`, or as zero. -/
abbrev NanChoice (K : Type) := K → SumName → Bool

def recordOf {K : Type} (args : AggregateArgs) (nan : NanChoice K) (key : K)
    (docs : List IndexDoc) : Record where
  sums := fun name => (reducerOf args name).map fun src =>
    if nan key name && allMiss docs name then none else some (sumOver args docs src)
  rowCount := some docs.length

/-- A row for each group of the documents that one node holds. -/
def groupRows {K : Type} [DecidableEq K] (args : AggregateArgs) (key : IndexDoc → K)
    (nan : NanChoice K) (docs : List IndexDoc) : List (K × Record) :=
  ((docs.map key).dedup).map fun k => (k, recordOf args nan k (docs.filter fun d => key d = k))

/-- The reply of one node: the rows that `LIMIT 0 limit` lets through. -/
def ftAggregate {K : Type} [DecidableEq K] (args : AggregateArgs) (key : IndexDoc → K)
    (nan : NanChoice K) (limit : ℕ) (docs : List IndexDoc) : List (K × Record) :=
  (groupRows args key nan docs).take limit

/-- The LIMIT of the rows by bucket. -/
def bucketLimit : ℕ := 10000

/-- The LIMIT of the rows by bucket and risk factor. -/
def perRfLimit : ℕ := 100000

end Replies

section Merging

def addNum (a b : JsNum) : JsNum := a.bind fun x => b.map fun y => x + y

/-- Add the numbers of a row to those of an earlier row. -/
def mergeRecord (prev row : Record) : Record where
  sums := fun name =>
    match row.sums name with
    | none => prev.sums name
    | some v => some (addNum ((prev.sums name).getD (some 0)) v)
  rowCount := addNum prev.rowCount row.rowCount

/-- Put a row into a map, added to what the map has there. -/
def mergeInto {K : Type} [DecidableEq K] (m : Assoc K Record) (p : K × Record) : Assoc K Record :=
  m.insert p.1 (match m.lookup p.1 with
    | none => p.2
    | some prev => mergeRecord prev p.2)

/-- The rows of one reply by key, without those that `keep` drops. -/
def parseRows {K : Type} [DecidableEq K] (keep : K → Bool) (reply : List (K × Record)) :
    Assoc K Record :=
  (reply.filter fun p => keep p.1).foldl mergeInto ∅

def parseAggregateRows (reply : List (String × Record)) : Assoc String Record :=
  parseRows (fun b => b ≠ "") reply

/-- The nested map of the source, keyed by bucket and risk factor together. -/
def parsePerRfRows (reply : List ((String × String) × Record)) : Assoc (String × String) Record :=
  parseRows (fun k => k.1 ≠ "" && k.2 ≠ "") reply

/-- Add the parsed replies of the nodes up. -/
def mergeReplies {K : Type} [DecidableEq K] (replies : List (Assoc K Record)) : Assoc K Record :=
  replies.foldl (fun m reply => (pairs reply).foldl mergeInto m) ∅

end Merging

section Results

def safeNum (v : Option JsNum) : ℚ := (v.getD (some 0)).getD 0

noncomputable def kbFromConstantRho (sumWs sumWsSq rho : ℚ) : ℝ × ℚ × ℚ :=
  let crossTerm := rho * max (sumWs * sumWs - sumWsSq) 0
  (√((max (sumWsSq + crossTerm) 0 : ℚ) : ℝ), sumWsSq, crossTerm)

/-- The raw interior `Σ CVR² + Σ_{k≠l} ρ · CVR_k · CVR_l · ψ(CVR_k, CVR_l)`. -/
def kbSquaredForDirection (cvr : List ℚ) (rhoCurv : ℚ) : ℚ :=
  (cvr.map fun x => x * x).sum + pairSum (fun a b => rhoCurv * a * b * psi a b) cvr

structure DirectionResult where
  kb : ℝ
  sb : ℚ
  wsSquaredSum : ℚ
  crossTerm : ℚ

noncomputable def kbCurvatureForDirection (row : Record) (fields : List String) (pre : LegPrefix)
    (rhoCurv : ℚ) (perTenor : Bool) : DirectionResult :=
  let num := fun f part => safeNum (row.sums ⟨pre, f, part⟩)
  if perTenor then
    let cvr := fields.map fun f => num f .value
    let kbSq := max 0 (kbSquaredForDirection cvr rhoCurv)
    let wsSq := (cvr.map fun x => x * x).sum
    ⟨√(kbSq : ℝ), cvr.sum, wsSq, kbSq - wsSq⟩
  else
    let f := fields.headD ""
    let s := num f .value
    let sq := num f .sq
    let n := num f .neg
    let sqn := num f .negSq
    let crossTerm := rhoCurv * ((s * s - sq) - (n * n - sqn))
    ⟨√((max 0 (sq + crossTerm) : ℚ) : ℝ), s, sq, crossTerm⟩

structure WsComponent where
  k : String
  ws : ℚ
  wsSquared : ℚ

structure CrossComponent where
  k : String
  l : String
  rho : ℚ
  wsK : ℚ
  wsL : ℚ
  contrib : ℚ

structure CvrComponent where
  k : String
  cvrUp : ℚ
  cvrDown : ℚ

structure Intermediate where
  wsSquaredSum : ℚ
  crossTerm : ℚ
  wsComponents : List WsComponent
  crossComponents : List CrossComponent
  crossTotal : ℕ
  cvrComponents : List CvrComponent

structure BucketReport extends BucketResult where
  intermediate : Intermediate

/-- The part of a field name after its last underscore. -/
def tenorFromField (f : String) : String := ((f.splitOn "_").getLast?).getD f

/-- Every ordered pair of components at distinct positions, the largest
contributions first, the first `topN` of them. -/
def buildCrossComponents (ws : List WsComponent) (rho : ℚ) (topN : Option ℕ) :
    List CrossComponent × ℕ :=
  let all := ws.zipIdx.flatMap fun p => (ws.zipIdx.filter fun q => p.2 ≠ q.2).map fun q =>
    ⟨p.1.k, q.1.k, rho, p.1.ws, q.1.ws, rho * p.1.ws * q.1.ws⟩
  let sorted := all.insertionSort fun x y => |y.contrib| ≤ |x.contrib|
  (match topN with
    | none => sorted
    | some n => sorted.take n, all.length)

/-- Components by name, in the order of the risk factors. -/
def perRfComponents {α : Type} (name : α → String) (make : String → Record → α)
    (perRf : List (String × Record)) : List α :=
  (perRf.map fun p => make p.1 p.2).insertionSort fun a b => name a ≤ name b

def buildWsComponents (row : Record) (fields : List String) (pre : LegPrefix) (perTenor : Bool)
    (perRf : List (String × Record)) : List WsComponent :=
  if perTenor then
    fields.map fun f =>
      let ws := safeNum (row.sums ⟨pre, f, .value⟩)
      ⟨tenorFromField f, ws, if pre = .d then ws * ws else safeNum (row.sums ⟨pre, f, .sq⟩)⟩
  else
    let f := fields.headD ""
    perRfComponents WsComponent.k (fun rf m =>
      ⟨rf, safeNum (m.sums ⟨pre, f, .value⟩), safeNum (m.sums ⟨pre, f, .sq⟩)⟩) perRf

def buildCurvatureComponents (fields : LegFields) (row : Record) (perTenor : Bool)
    (perRf : List (String × Record)) : List CvrComponent :=
  if perTenor then
    (fields.cvrUp.zip fields.cvrDown).map fun p =>
      ⟨tenorFromField p.1, safeNum (row.sums ⟨.u, p.1, .value⟩),
        safeNum (row.sums ⟨.n, p.2, .value⟩)⟩
  else
    perRfComponents CvrComponent.k (fun rf m =>
      ⟨rf, safeNum (m.sums ⟨.u, fields.cvrUp.headD "", .value⟩),
        safeNum (m.sums ⟨.n, fields.cvrDown.headD "", .value⟩)⟩) perRf

/-- `Σ WS` and `Σ WS²` of a leg: squares of the sums per tenor for a per-tenor
Delta, sums of the squares per row for the others. -/
def legSums (row : Record) (fields : List String) (pre : LegPrefix) (perTenor : Bool) : ℚ × ℚ :=
  let values := fields.map fun f => safeNum (row.sums ⟨pre, f, .value⟩)
  if perTenor && pre = .d then (values.sum, (values.map fun x => x * x).sum)
  else (values.sum, (fields.map fun f => safeNum (row.sums ⟨pre, f, .sq⟩)).sum)

noncomputable def bucketResultFromRow (bucket : String) (row : Record) (fields : LegFields)
    (leg : FastLeg) (rho : ℚ) (perTenor : Bool) (perRf : List (String × Record))
    (topN : Option ℕ) : BucketReport :=
  let count := safeNum (some row.rowCount)
  let numeric := fun (list : List String) (pre : LegPrefix) =>
    let sums := legSums row list pre perTenor
    let r := kbFromConstantRho sums.1 sums.2 rho
    let ws := buildWsComponents row list pre perTenor perRf
    let cross := buildCrossComponents ws rho topN
    ⟨⟨bucket, r.1, sums.1, count⟩, ⟨r.2.1, r.2.2, ws, cross.1, cross.2, []⟩⟩
  match leg with
  | .delta => numeric fields.delta .d
  | .vega => numeric fields.vega .v
  | .curvature =>
    let up := kbCurvatureForDirection row fields.cvrUp .u rho perTenor
    let down := kbCurvatureForDirection row fields.cvrDown .n rho perTenor
    let winner := if up.kb < down.kb then down else up
    ⟨⟨bucket, winner.kb, winner.sb, count⟩, ⟨winner.wsSquaredSum, winner.crossTerm, [], [], 0,
      buildCurvatureComponents fields row perTenor perRf⟩⟩

end Results

section LazyMath

/-- Multiply the Delta sums of a row by its bucket's weight, field by field. -/
def scaleRow (fields : List String) (w : ℚ) (row : Record) : Record :=
  fields.foldl (fun row f =>
    { row with
      sums := fun name =>
        if name = ⟨.d, f, .value⟩ then (row.sums name).map fun v => some (v.elim 0 (· * w))
        else if name = ⟨.d, f, .sq⟩ then (row.sums name).map fun v => some (v.elim 0 (· * (w * w)))
        else row.sums name }) row

def applyByBucketDeltaWeights {K : Type} [DecidableEq K] (bucketOf : K → String)
    (fields : List String) (weights : Assoc String ℚ) (merged : Assoc K Record) :
    Assoc K Record :=
  ofPairs ((pairs merged).map fun p =>
    let w := (weights.lookup (bucketOf p.1)).getD 0
    (p.1, if w = 1 then p.2 else scaleRow fields w p.2))

def legWeightsOf (leg : FastLeg) (spec : WeightSpec) : LegWeights where
  delta := if leg = .delta then some spec else none
  vega := if leg = .vega then some spec else none
  curvature := if leg = .curvature then some spec else none

end LazyMath

section Aggregate

/-- A node of the cluster: the matching documents it holds, and how it reports
the sums that are over no value. -/
structure Node where
  docs : List IndexDoc
  nan : NanChoice String
  nanPerRf : NanChoice (String × String)

def groupKey (d : IndexDoc) : String × String := (d.bucket, d.riskFactor)

/-- Scale the merged rows when the weights are per bucket. -/
def weighRows {K : Type} [DecidableEq K] (bucketOf : K → String) (leg : FastLeg)
    (fields : LegFields) (spec : Option WeightSpec) (merged : Assoc K Record) : Assoc K Record :=
  match spec, leg with
  | some (.byBucket weights), .delta =>
    applyByBucketDeltaWeights bucketOf fields.delta weights merged
  | _, _ => merged

/-- The fields and the weights that the fat or the slim index is asked with. -/
def requestOf [Casing] (schema : CalcSchema) (rc : String) (leg : FastLeg) (lazyMath : Bool) :
    LegFields × Option WeightSpec :=
  if lazyMath then
    (resolveSlimLegFields schema rc leg,
      some (resolveLazyMathWeights schema rc leg (isPerTenor schema rc)))
  else (resolveLegFields schema rc leg, none)

def builderWeights (leg : FastLeg) (spec : Option WeightSpec) : LegWeights :=
  (spec.map (legWeightsOf leg)).getD noWeights

/-- The rows of all nodes by bucket, merged before any LIMIT. -/
def mergedRows (fields : LegFields) (leg : FastLeg) (spec : Option WeightSpec) (searchVer : ℕ)
    (nodes : List Node) : Assoc String Record :=
  let args := buildFastPathAggregateArgs fields searchVer (builderWeights leg spec)
  weighRows id leg fields spec <| mergeReplies <| nodes.map fun node =>
    parseAggregateRows (groupRows args IndexDoc.bucket node.nan node.docs)

/-- The merged replies of all nodes by bucket. -/
def repliedRows (fields : LegFields) (leg : FastLeg) (spec : Option WeightSpec) (searchVer : ℕ)
    (nodes : List Node) : Assoc String Record :=
  let args := buildFastPathAggregateArgs fields searchVer (builderWeights leg spec)
  weighRows id leg fields spec <| mergeReplies <| nodes.map fun node =>
    parseAggregateRows (ftAggregate args IndexDoc.bucket node.nan bucketLimit node.docs)

/-- The merged replies of all nodes by bucket and risk factor. -/
def repliedPerRf (fields : LegFields) (leg : FastLeg) (spec : Option WeightSpec) (searchVer : ℕ)
    (nodes : List Node) : Assoc (String × String) Record :=
  let args := buildComponentsAggregateArgs fields searchVer (builderWeights leg spec)
  weighRows Prod.fst leg fields spec <| mergeReplies <| nodes.map fun node =>
    parsePerRfRows (ftAggregate args groupKey node.nanPerRf perRfLimit node.docs)

/-- The risk factors of one bucket. -/
def perRfOf (merged : Assoc (String × String) Record) (bucket : String) :
    List (String × Record) :=
  (pairs merged).filterMap fun p => if p.1.1 = bucket then some (p.1.2, p.2) else none

/-- The result of each bucket that some node has documents of. The nodes hold
the documents that match the query. -/
noncomputable def aggregateBucketsViaIndex [Casing] (schema : CalcSchema) (riskClass : String)
    (leg : FastLeg) (lazyMath : Bool) (topN : Option ℕ) (searchVer : ℕ) (nodes : List Node) :
    Assoc String BucketReport :=
  let rc := upperCase riskClass
  let request := requestOf schema rc leg lazyMath
  let perTenor := isPerTenor schema rc
  let merged := repliedRows request.1 leg request.2 searchVer nodes
  let perRf := if perTenor then ∅ else repliedPerRf request.1 leg request.2 searchVer nodes
  ofPairs ((pairs merged).map fun p =>
    (p.1, bucketResultFromRow p.1 p.2 request.1 leg (resolveRho schema rc leg) perTenor
      (perRfOf perRf p.1) topN))

end Aggregate

end FastPath
