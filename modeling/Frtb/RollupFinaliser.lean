import Frtb.SlimAgreement
import Frtb.FastPath
import Frtb.RollupContribution

/-!
# The rollup finaliser

After a bulk load one aggregate per class and sensitivity type computes the
rollups that ingest would have incremented row by row. The weight of a field is
a literal of its clause, except that a weight per bucket scales the merged sums;
a row counts where a presence clause says so. The bulk loader has padded the
per-tenor classes with zeros by then.

The aliases of the clauses (`<field>_safe`, `__t_<tenor>_<leg>_sum`) are kept as
structured names; the spelling tells them apart as long as no tenor label
contains an underscore.
-/

namespace RollupFinaliser

open AssocMaps JsonText EnrichDoc RollupKeys RedisStore RollupDelta SlimWriter ApplyExpr
open FastPath (WeightSpec perTenorClasses)

section Fields

def sensTypes : List SensitivityType := [.delta, .vega, .curvature]

def legsBySens : SensitivityType → List String
  | .delta => ["delta"]
  | .vega => ["vega"]
  | .curvature => ["cvr_up", "cvr_down"]

/-- Distinct from the key constructor that ingest uses, with the same shape. -/
def rollupKeyNoTag (rc bkt sens : String) (tenor : Option String) : String :=
  let base := "rollup:" ++ rc ++ ":" ++ bkt ++ ":" ++ sens
  match tenor with
  | some t => base ++ ":tenor:" ++ t
  | none => base

def nodesOf (cfg : RiskClassConfig) : List String := cfg.tenorNodes.getD []

def isPerTenor (rc : String) (cfg : RiskClassConfig) : Bool :=
  rc ∈ perTenorClasses && nodesOf cfg ≠ []

/-- The tenors that a class has index fields for; a scalar class has one field. -/
def indexLabels (rc : String) (cfg : RiskClassConfig) : List (Option String) :=
  if isPerTenor rc cfg then (nodesOf cfg).map some else [none]

/-- An index field `s_<class>_<leg>[_<tenor>]` of the class at hand. -/
abbrev Field := String × Option String

def sFields (rc : String) (cfg : RiskClassConfig) (leg : String) : List Field :=
  (indexLabels rc cfg).map fun label => (leg, label)

def resolveWeights (schema : Schema) (cfg : RiskClassConfig) (leg : String) (perTenor : Bool) :
    WeightSpec :=
  if leg ≠ "delta" then .constant 1
  else
    match tableOf schema cfg with
    | none => .constant 0
    | some (.constant weight) => .constant weight
    | some (.byTenor weights) =>
      if perTenor ∧ nodesOf cfg ≠ [] then
        .byTenor ((nodesOf cfg).map fun t => (weights.lookup t).getD 0)
      else .constant 0
    | some (.byBucket weights) => .byBucket weights

/-- The literal of the `i`-th field. A bucket's weight is not known yet. -/
def multiplier (weights : WeightSpec) (i : ℕ) : ℚ :=
  match weights with
  | .constant value => value
  | .byTenor values => values[i]?.getD 0
  | .byBucket _ => 1

end Fields

section Clauses

/-- A name of the pipeline. -/
inductive Name where
  | field (f : Field)
  | safe (f : Field)
  | sq (f : Field)
  | n (f : Field)
  | row (leg : String)
  | rowSq (leg : String)
  | rowPresent
deriving DecidableEq

/-- A name of the reply: `__t_<tenor>_<leg>_sum`, `_sumsq` and `_count`, then
`__scalar_<leg>_sum`, `_sumsq` and `__scalar_count`. -/
inductive SumName where
  | tenorSum (t leg : String)
  | tenorSumsq (t leg : String)
  | tenorCount (t leg : String)
  | scalarSum (leg : String)
  | scalarSumsq (leg : String)
  | scalarCount
deriving DecidableEq

structure AggregateArgs where
  load : List Field
  apply : List (List (Tok Name) × Name)
  reduce : List (Name × SumName)

def nullSafe (f : Field) (searchVer : ℕ) : List (Tok Name) :=
  if 80000 ≤ searchVer then
    [.caseOf, .lpar, .existsOf, .lpar, .ref (.field f), .rpar, .comma, .ref (.field f), .comma,
      .lit 0, .rpar]
  else [.ref (.field f), .plus, .lit 0]

def existsAs1 (f : Field) (searchVer : ℕ) : List (Tok Name) :=
  if 80000 ≤ searchVer then
    [.caseOf, .lpar, .existsOf, .lpar, .ref (.field f), .rpar, .comma, .lit 1, .comma, .lit 0,
      .rpar]
  else paren [.ref (.field f), .plus, .lit 0, .unequal, .lit 0]

def safeExpr (f : Field) (mult : ℚ) (searchVer : ℕ) : List (Tok Name) :=
  if mult = 1 then nullSafe f searchVer else paren (nullSafe f searchVer ++ [Tok.times, .lit mult])

def squareExpr (name : Name) : List (Tok Name) := paren [.ref name, .times, .ref name]

/-- The clauses of one field. -/
def fieldApply (searchVer : ℕ) (f : Field) (mult : ℚ) : List (List (Tok Name) × Name) :=
  [(safeExpr f mult searchVer, .safe f), (squareExpr (.safe f), .sq f),
    (existsAs1 f searchVer, .n f)]

/-- The reducers of one field: those of its tenor key. -/
def fieldReduce (sens : SensitivityType) (f : Field) : List (Name × SumName) :=
  match f.2 with
  | none => []
  | some t =>
    [(.safe f, .tenorSum t f.1)] ++
      (if sens ≠ .curvature then [(.sq f, .tenorSumsq t f.1)] else []) ++
      [(.n f, .tenorCount t f.1)]

/-- The sum of several names, without parentheses around a single one. -/
def rowExpr (names : List Name) : List (Tok Name) :=
  if names.length = 1 then refSum names else paren (refSum names)

def rowApply (sens : SensitivityType) (leg : String) (fields : List Field) :
    List (List (Tok Name) × Name) :=
  (rowExpr (fields.map .safe), .row leg) ::
    if sens ≠ .curvature then [(squareExpr (.row leg), .rowSq leg)] else []

def rowReduce (sens : SensitivityType) (leg : String) : List (Name × SumName) :=
  (.row leg, .scalarSum leg) ::
    if sens ≠ .curvature then [(.rowSq leg, .scalarSumsq leg)] else []

/-- Whether any of the fields is populated. -/
def presenceExpr (fields : List Field) : List (Tok Name) :=
  paren (rowExpr (fields.map .n) ++ [Tok.greater, .lit 0])

/-- The clauses of one class and type. -/
def aggregateArgs (schema : Schema) (rc : String) (cfg : RiskClassConfig) (sens : SensitivityType)
    (searchVer : ℕ) : AggregateArgs :=
  let legs := legsBySens sens
  let fields := legs.flatMap (sFields rc cfg)
  { load := fields.eraseDups
    apply := (legs.flatMap fun leg =>
        (sFields rc cfg leg).zipIdx.flatMap fun p =>
          fieldApply searchVer p.1
            (multiplier (resolveWeights schema cfg leg (isPerTenor rc cfg)) p.2)) ++
      (legs.flatMap fun leg => rowApply sens leg (sFields rc cfg leg)) ++
      [(presenceExpr fields, .rowPresent)]
    reduce := fields.flatMap (fieldReduce sens) ++ legs.flatMap (rowReduce sens) ++
      [(.rowPresent, .scalarCount)] }

end Clauses

section Aggregate

/-- The HASHes of a bulk load. -/
def bulkLoad (schema : Schema) (rows : List Row) : Assoc String Hash :=
  rows.foldl (fun store row =>
    let key := "sens:" ++ row.id
    store.insert key (assign ((store.lookup key).getD ∅)
      (rowToHashFields row (some (buildTenorsByClass schema))))) ∅

def slimDocs (schema : Schema) (rows : List Row) : List Hash :=
  (pairs (bulkLoad schema rows)).map Prod.snd

/-- The value of a TAG attribute. -/
def tagOf (doc : Hash) (name : String) : String := ((doc.lookup name).map Stored.toText).getD ""

/-- `@risk_class:{rc} @sensitivity_type:{sens}`; a TAG matches in any case. -/
def matchesQuery (rc : String) (sens : SensitivityType) (doc : Hash) : Bool :=
  StorageWriter.upperCase (tagOf doc "risk_class") = StorageWriter.upperCase rc &&
    StorageWriter.upperCase (tagOf doc "sensitivity_type") = StorageWriter.upperCase sens.text

/-- The value of a NUMERIC attribute. -/
def fieldOf (rc : String) (doc : Hash) (f : Field) : Option ℚ :=
  (doc.lookup (slimField (StorageWriter.lowerCase rc) f.1 f.2)).bind IndexedRows.numericValue

def loadedRow (args : AggregateArgs) (fields : Field → Option ℚ) : Name → Option ℚ
  | .field f => if f ∈ args.load then fields f else none
  | _ => none

/-- The row of a document in the pipeline. -/
def pipelineRow (args : AggregateArgs) (fields : Field → Option ℚ) : Name → Option ℚ :=
  applyAll args.apply (loadedRow args fields)

/-- The reducer behind a name; a later one of the same name wins. -/
def reducerOf (args : AggregateArgs) (name : SumName) : Option Name :=
  (args.reduce.reverse.find? fun p => p.2 = name).map Prod.fst

structure ReplyRow where
  bucket : String
  values : SumName → Option ℚ

/-- `Number(row[name] ?? 0)`. -/
def ReplyRow.number (row : ReplyRow) (name : SumName) : ℚ := (row.values name).getD 0

def replyLimit : ℕ := 100000

def groupRow (args : AggregateArgs) (rc bucket : String) (docs : List Hash) : ReplyRow where
  bucket := bucket
  values := fun name => (reducerOf args name).map fun src =>
    (docs.map fun d => (pipelineRow args (fieldOf rc d) src).getD 0).sum

/-- The reply: a row for each bucket, cut off at the limit. -/
def ftAggregate (args : AggregateArgs) (rc : String) (sens : SensitivityType)
    (docs : List Hash) : List ReplyRow :=
  let matching := docs.filter (matchesQuery rc sens)
  ((matching.map fun d => tagOf d "bucket").dedup.take replyLimit).map fun b =>
    groupRow args rc b (matching.filter fun d => tagOf d "bucket" = b)

end Aggregate

section Writes

/-- One HSET of a rollup key. -/
abbrev Write := String × List (String × ℚ)

/-- The weight that is still to be applied to the sums of a bucket. -/
def bucketWeight (weights : WeightSpec) (b : String) : ℚ :=
  match weights with
  | .byBucket map => (map.lookup b).getD 0
  | _ => 1

def curvatureFields (up down count : ℚ) : List (String × ℚ) :=
  [("sum_ws_up", up), ("sum_ws_down", down), ("count", count)]

def scalarFields (w sum sumSq count : ℚ) : List (String × ℚ) :=
  [("sum_ws", sum * w), ("sum_ws_sq", sumSq * (w * w)), ("count", count)]

def scalarWrite (schema : Schema) (rc : String) (cfg : RiskClassConfig) (sens : SensitivityType)
    (row : ReplyRow) : Write :=
  (rollupKeyNoTag rc row.bucket sens.text none,
    if sens = .curvature then
      curvatureFields (row.number (.scalarSum "cvr_up")) (row.number (.scalarSum "cvr_down"))
        (row.number .scalarCount)
    else
      let leg := scalarRoot sens
      scalarFields (bucketWeight (resolveWeights schema cfg leg (isPerTenor rc cfg)) row.bucket)
        (row.number (.scalarSum leg)) (row.number (.scalarSumsq leg)) (row.number .scalarCount))

/-- The leg whose presence counts a tenor. -/
def countLeg (sens : SensitivityType) : String :=
  if sens = .curvature then "cvr_up" else scalarRoot sens

/-- The write of a tenor key, none where the tenor counts no row. -/
def tenorWrite (schema : Schema) (rc : String) (cfg : RiskClassConfig) (sens : SensitivityType)
    (row : ReplyRow) (t : String) : Option Write :=
  let tCount := row.number (.tenorCount t (countLeg sens))
  if tCount = 0 then none
  else some (rollupKeyNoTag rc row.bucket sens.text (some t),
    if sens = .curvature then
      curvatureFields (row.number (.tenorSum t "cvr_up")) (row.number (.tenorSum t "cvr_down"))
        tCount
    else
      let leg := scalarRoot sens
      scalarFields (bucketWeight (resolveWeights schema cfg leg (isPerTenor rc cfg)) row.bucket)
        (row.number (.tenorSum t leg)) (row.number (.tenorSumsq t leg)) tCount)

def bucketWrites (schema : Schema) (rc : String) (cfg : RiskClassConfig) (sens : SensitivityType)
    (row : ReplyRow) : List Write :=
  if row.bucket = "" then []
  else
    scalarWrite schema rc cfg sens row ::
      if isPerTenor rc cfg then (nodesOf cfg).filterMap (tenorWrite schema rc cfg sens row) else []

def finaliseRcSens (schema : Schema) (rc : String) (sens : SensitivityType) (searchVer : ℕ)
    (docs : List Hash) : List Write :=
  match schema.riskClasses.lookup rc with
  | none => []
  | some cfg =>
    (ftAggregate (aggregateArgs schema rc cfg sens searchVer) rc sens docs).flatMap
      (bucketWrites schema rc cfg sens)

/-- The writes of a whole run. -/
def finalise (schema : Schema) (searchVer : ℕ) (docs : List Hash) : List Write :=
  schema.riskClasses.keys.flatMap fun rc => sensTypes.flatMap fun sens =>
    finaliseRcSens schema rc sens searchVer docs

/-- The numbers of the rollup hashes; one that is absent reads as zero. -/
abbrev Rollups := String → String → ℚ

def hset (rollups : Rollups) (w : Write) : Rollups := fun key field =>
  if key = w.1 then ((ofPairs w.2).lookup field).getD (rollups key field) else rollups key field

/-- The rollups after a bulk load of the rows and a run of the finaliser. -/
def finalised (schema : Schema) (searchVer : ℕ) (rows : List Row) : Rollups :=
  (finalise schema searchVer (slimDocs schema rows)).foldl hset fun _ _ => 0

/-- The rollups after each row was ingested once. -/
def ingested (schema : Schema) (rows : List Row) : Rollups :=
  (exec Redis.empty (rows.flatMap fun row =>
    emitRollupHincrs (enrichDoc row.doc (some schema)))).rollups

def comparedFields : List String :=
  ["sum_ws", "sum_ws_sq", "sum_ws_up", "sum_ws_down", "count"]

def FinaliserAgrees (schema : Schema) (searchVer : ℕ) (rows : List Row) : Prop :=
  ∀ key, ∀ field ∈ comparedFields,
    finalised schema searchVer rows key field = ingested schema rows key field

end Writes

section WellFormed

/-- The numbers of a row: of one scalar, or of the tenors it carries. A Delta or
Vega number is paired with zero, a curvature number is up and down. -/
inductive Reading where
  | scalar (v : ℚ × ℚ)
  | tenors (values : List (String × ℚ × ℚ))

def Reading.at : Reading → Option String → Option (ℚ × ℚ)
  | .scalar v, none => some v
  | .tenors values, some t => (ofPairs values).lookup t
  | _, _ => none

/-- No tenor is carried twice. -/
def Reading.Distinct : Reading → Prop
  | .scalar _ => True
  | .tenors values => (values.map Prod.fst).Nodup

/-- The numbers of a row in one of the shapes of its type; an array needs the
tenor list of the row. -/
def reading (row : Row) : Option Reading :=
  if row.sensitivityType = .curvature then
    match row.riskValue with
    | .members m =>
      (RollupContribution.bothOf (m.lookup "cvr_up") (m.lookup "cvr_down")).map .scalar
    | .curvatureArrays up down =>
      row.listed.map fun labels => .tenors (labels.zip (up.zip down))
    | _ => none
  else
    match row.riskValue with
    | .number v => some (.scalar (v, 0))
    | .members m =>
      match spotMember m with
      | some v => some (.scalar (v, 0))
      | none => some (.tenors ((pairs m).map fun p => (p.1, p.2, 0)))
    | .array items =>
      row.listed.map fun labels => .tenors ((labels.zip items).map fun p => (p.1, p.2, 0))
    | .curvatureArrays _ _ => none

/-- Curvature arrays run along the tenor nodes of the class, and the row's own
list says so. -/
def AlongNodes (cfg : RiskClassConfig) (row : Row) : Prop :=
  match row.riskValue with
  | .curvatureArrays up down => ∃ nodes, cfg.tenorNodes = some nodes ∧
      nodes.zip (up.zip down) = (row.listed.getD []).zip (up.zip down)
  | _ => True

structure WellFormedRow (schema : Schema) (row : Row) : Prop where
  classed : ∃ cfg, row.classIn schema = some cfg ∧ AlongNodes cfg row
  bucketed : row.bucket ≠ ""
  /-- The parts of a rollup key contain no separator. -/
  plain : DelimitedNames.Free ':' row.riskClass ∧ DelimitedNames.Free ':' row.bucket
  shaped : ∃ r, reading row = some r ∧ r.Distinct

structure WellFormed (schema : Schema) (rows : List Row) : Prop where
  /-- No two classes differ only by their case. -/
  spelled : ∀ rc ∈ schema.riskClasses.keys, ∀ rc' ∈ schema.riskClasses.keys,
    StorageWriter.upperCase rc = StorageWriter.upperCase rc' → rc = rc'
  nodes : ∀ rc cfg, schema.riskClasses.lookup rc = some cfg → (nodesOf cfg).Nodup
  ids : (rows.map Row.id).Nodup
  rows : ∀ row ∈ rows, WellFormedRow schema row

end WellFormed

section Condition

/-- The row counts under the keys that ingest counts it under. From version 8 of
the search module on a padded zero counts as well, so the row must carry exactly
the fields that the class has; before that a zero does not count. -/
def Counted (searchVer : ℕ) (cfg : RiskClassConfig) (row : Row) : Prop :=
  ∀ r, reading row = some r →
    if 80000 ≤ searchVer then
      ∀ label, (r.at label).isSome ↔ label ∈ indexLabels row.riskClass cfg
    else
      (∃ label ∈ indexLabels row.riskClass cfg, ∃ v, r.at label = some v ∧ v ≠ (0, 0)) ∧
        ∀ t v, r.at (some t) = some v → some t ∈ indexLabels row.riskClass cfg ∧ v.1 ≠ 0

/-- The Delta number of a row, zero where it carries none. -/
def deltaAt (row : Row) (label : Option String) : ℚ :=
  (((reading row).bind (·.at label)).map Prod.fst).getD 0

def tupleRows (rows : List Row) (rc b : String) (sens : SensitivityType) : List Row :=
  rows.filter fun row => row.riskClass = rc ∧ row.bucket = b ∧ row.sensitivityType = sens

/-- The Delta numbers of a row whose weight is `w`, added up. -/
def weighedBy (weight : Option String → ℚ) (labels : List (Option String)) (w : ℚ)
    (row : Row) : ℚ :=
  ((labels.filter fun label => weight label = w).map (deltaAt row)).sum

/-- The weights of one bucket that a clause without `case` leaves out make no
difference: they are one where the bucket has a number, or are minus one and
cancel out. -/
def BucketUnseen (schema : Schema) (rows : List Row) (rc b : String) (cfg : RiskClassConfig) :
    Prop :=
  let own := tupleRows rows rc b .delta
  let weight := legWeight "Delta" (tableOf schema cfg) b
  (∀ label ∈ indexLabels rc cfg, (∀ row ∈ own, deltaAt row label = 0) ∨ weight label = 1 ∨
    weight label = -1 ∧ (own.map fun row => deltaAt row label).sum = 0) ∧
  (own.map fun row => weighedBy weight (indexLabels rc cfg) 1 row *
    weighedBy weight (indexLabels rc cfg) (-1) row).sum = 0

/-- A weight per bucket is never in a clause. -/
def WeightsUnseen (schema : Schema) (rows : List Row) : Prop :=
  ∀ rc cfg b, schema.riskClasses.lookup rc = some cfg →
    (∀ map, tableOf schema cfg ≠ some (.byBucket map)) → BucketUnseen schema rows rc b cfg

structure RollupsExact (schema : Schema) (searchVer : ℕ) (rows : List Row) : Prop where
  /-- The buckets of a class and type fit in one reply. -/
  fits : ∀ rc sens, ((rows.filter fun row => row.riskClass = rc ∧ row.sensitivityType = sens).map
    Row.bucket).dedup.length ≤ replyLimit
  counted : ∀ row ∈ rows, ∀ cfg, row.classIn schema = some cfg → Counted searchVer cfg row
  weighed : searchVer < 80000 → WeightsUnseen schema rows

end Condition

end RollupFinaliser
