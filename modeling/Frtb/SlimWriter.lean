import Frtb.IndexedRows

/-!
# The slim writer of the bulk loader

The bulk loader lays a row out as raw `s_<class>_<leg>[_<tenor>]` fields and
leaves the weights to the query; ingest stores the weighted
`ws_<class>_<leg>[_<tenor>]` fields. Both read the same shapes of risk value,
each with its own rule for the labels of an array: the slim writer takes the
row's tenor list and nothing else, ingest falls back to the tenor nodes of the
schema, and for curvature takes no other.
-/

namespace SlimWriter

open AssocMaps JsonText EnrichDoc RedisStore StorageWriter FastPath

section Row

inductive SensitivityType where
  | delta
  | vega
  | curvature
deriving DecidableEq

def SensitivityType.text : SensitivityType → String
  | .delta => "Delta"
  | .vega => "Vega"
  | .curvature => "Curvature"

/-- `SensitivityRiskValue`. The three object shapes with number members,
`{ spot }`, `{ <tenor>: v }` and `{ cvr_up, cvr_down }`, are one here. -/
inductive SensitivityRiskValue where
  | number (v : ℚ)
  | array (items : List ℚ)
  | members (m : Assoc String ℚ)
  | curvatureArrays (up down : List ℚ)

def SensitivityRiskValue.toJson : SensitivityRiskValue → Json
  | .number v => .num v
  | .array items => .arr (items.map .num)
  | .members m => .obj ((pairs m).map fun p => (p.1, .num p.2))
  | .curvatureArrays up down =>
    .obj [("cvr_up", .arr (up.map .num)), ("cvr_down", .arr (down.map .num))]

/-- The field `tenor`: one label or a list of them. -/
inductive Tenor where
  | label (s : String)
  | labels (ls : List String)

def Tenor.toJson : Tenor → Json
  | .label s => .str s
  | .labels ls => .arr (ls.map .str)

structure Row where
  id : String
  riskClass : String
  bucket : String
  sensitivityType : SensitivityType
  book : Option String
  tradeId : Option String
  riskFactor : Option String
  desk : Option String
  riskValue : SensitivityRiskValue
  tenor : Option Tenor

def tagFields : List String :=
  ["risk_class", "bucket", "sensitivity_type", "book", "trade_id", "risk_factor", "desk"]

/-- `row[k]` of a TAG field. -/
def Row.tag (row : Row) (k : String) : Option String :=
  if k = "risk_class" then some row.riskClass
  else if k = "bucket" then some row.bucket
  else if k = "sensitivity_type" then some row.sensitivityType.text
  else if k = "book" then row.book
  else if k = "trade_id" then row.tradeId
  else if k = "risk_factor" then row.riskFactor
  else if k = "desk" then row.desk
  else none

/-- The same row as the document that ingest enriches. -/
def Row.doc (row : Row) : Props :=
  let tags := ofPairs (tagFields.filterMap fun k => (row.tag k).map fun v => (k, Json.str v))
  let typed := tags.insert "risk_value" row.riskValue.toJson
  match row.tenor with
  | none => typed
  | some tenor => typed.insert "tenor" tenor.toJson

/-- The labels of a row whose tenor is a list. -/
def Row.listed (row : Row) : Option (List String) :=
  match row.tenor with
  | some (.labels ls) => some ls
  | _ => none

end Row

section Fields

/-- `<class>_<leg>[_<tenor>]`. -/
def legName (lower leg : String) (tenor : Option String) : String :=
  lower ++ "_" ++ leg ++ (tenor.elim "" ("_" ++ ·))

def slimField (lower leg : String) (tenor : Option String) : String :=
  "s_" ++ legName lower leg tenor

/-- The field and its number; a value that is no number is not emitted. -/
def numberArg (name : String) : Json → List (String × Stored)
  | .num q => [(name, .shown (.num q))]
  | _ => []

def scalarRoot (sens : SensitivityType) : String := if sens = .vega then "vega" else "delta"

def slimTagArgs (row : Row) : List (String × Stored) :=
  tagFields.filterMap fun k => (row.tag k).map fun v => (k, .shown (.str v))

/-- The fields of a curvature row. -/
def curvatureArgs (row : Row) (lower : String) : List (String × Stored) :=
  match row.riskValue.toJson with
  | .obj members =>
    match (ofPairs members).lookup "cvr_up", (ofPairs members).lookup "cvr_down" with
    | some (.arr up), some (.arr dn) =>
      match row.listed with
      | some tenors => (tenors.zip (up.zip dn)).flatMap fun r =>
          numberArg (slimField lower "cvr_up" (some r.1)) r.2.1 ++
            numberArg (slimField lower "cvr_down" (some r.1)) r.2.2
      | none => []
    | some (.num up), some (.num dn) =>
      numberArg (slimField lower "cvr_up" none) (.num up) ++
        numberArg (slimField lower "cvr_down" none) (.num dn)
    | _, _ => []
  | _ => []

/-- The fields of a Delta or Vega row. -/
def scalarLegArgs (row : Row) (lower leg : String) : List (String × Stored) :=
  match row.riskValue.toJson with
  | .obj members =>
    match spotOf (ofPairs members) with
    | some spot => numberArg (slimField lower leg none) (.num spot)
    | none => (pairs (ofPairs members)).flatMap fun p =>
        numberArg (slimField lower leg (some p.1)) p.2
  | .arr items =>
    match row.listed with
    | some labels => (labels.zip items).flatMap fun p =>
        numberArg (slimField lower leg (some p.1)) p.2
    | none => []
  | .num v => numberArg (slimField lower leg none) (.num v)
  | _ => []

def rawArgs [Casing] (row : Row) : List (String × Stored) :=
  let lower := lowerCase row.riskClass
  if row.sensitivityType = .curvature then curvatureArgs row lower
  else scalarLegArgs row lower (scalarRoot row.sensitivityType)

/-- A zero under each of the names that is not present yet. -/
def padZeros (args : List (String × Stored)) (names : List String) : List (String × Stored) :=
  names.foldl (fun args name =>
    if name ∈ args.map Prod.fst then args else args ++ [(name, .shown (.num 0))]) args

def padLegs (sens : SensitivityType) : List String :=
  if sens = .curvature then ["cvr_up", "cvr_down"] else [scalarRoot sens]

def rowToHashFields [Casing] (row : Row) (tenorsByClass : Option (Assoc String (List String))) :
    List (String × Stored) :=
  let args := slimTagArgs row ++ rawArgs row
  match tenorsByClass.bind fun byClass => byClass.lookup (upperCase row.riskClass) with
  | some tenors =>
    if args.length > 0 ∧ tenors.length > 0 then
      padZeros args ((padLegs row.sensitivityType).flatMap fun leg =>
        tenors.map fun t => slimField (lowerCase row.riskClass) leg (some t))
    else args
  | none => args

def slimPerTenorClasses : List String := ["GIRR"]

def buildTenorsByClass [Casing] (schema : Schema) : Assoc String (List String) :=
  slimPerTenorClasses.foldl (fun out cls =>
    match (schema.riskClasses.lookup cls).bind RiskClassConfig.tenorNodes with
    | some nodes => if nodes.length > 0 then out.insert (upperCase cls) nodes else out
    | none => out) ∅

end Fields

section Index

def wsLegs : List String := ["delta", "vega", "cvr_up", "cvr_down"]

/-- The leg and the tenor of the fields that the index declares for a class:
one a tenor node for the per-tenor classes, one a leg for the others. -/
def schemaFields (className : String) (cfg : RiskClassConfig) : List (String × Option String) :=
  let tenorNodes := cfg.tenorNodes.getD []
  let isPerTenor := className ∈ perTenorClasses ∧ tenorNodes.length > 0
  wsLegs.flatMap fun leg =>
    if isPerTenor then tenorNodes.map fun tenor => (leg, some tenor) else [(leg, none)]

/-- The weight table of a class. -/
def tableOf (schema : Schema) (cfg : RiskClassConfig) : Option RiskWeightTable :=
  if cfg.riskWeightsRef = "" then none else schema.riskWeights.lookup cfg.riskWeightsRef

/-- The number under a field, a missing field counting as zero. -/
def numberUnder (args : List (String × Stored)) (name : String) : ℚ :=
  (((ofPairs args).lookup name).bind IndexedRows.numericValue).getD 0

/-- The weight of the query times the slim value is the weighted value, at
every field that the index declares; and no field is emitted twice. -/
def WritersAgree [Casing] (schema : Schema) (row : Row) : Prop :=
  let slim := rowToHashFields row (some (buildTenorsByClass schema))
  (∀ className cfg, schema.riskClasses.lookup className = some cfg →
    ∀ f ∈ schemaFields className cfg,
      legWeight row.sensitivityType.text (tableOf schema cfg) row.bucket f.2 *
          numberUnder slim ("s_" ++ legName (lowerCase className) f.1 f.2) =
        numberUnder (flattenDocForHash (enrichDoc row.doc (some schema)))
          ("ws_" ++ legName (lowerCase className) f.1 f.2)) ∧
    (slim.map Prod.fst).Nodup

end Index

section Condition

/-- The up or the down value of a curvature pair. -/
def sideOf (root : String) (v : ℚ × ℚ) : Option ℚ :=
  if root = "cvr_up" then some v.1 else if root = "cvr_down" then some v.2 else none

/-- The number of `{ spot: v }`. -/
def spotMember (m : Assoc String ℚ) : Option ℚ :=
  match pairs m with
  | [("spot", v)] => some v
  | _ => none

/-- The raw number of a row at a leg and label, when an array of numbers is
labelled by `labels` and curvature arrays by `nodes`. -/
def Row.cell (row : Row) (labels nodes : List String) (root : String) (label : Option String) :
    Option ℚ :=
  if row.sensitivityType = .curvature then
    match row.riskValue with
    | .members m =>
      if label = none then
        (RollupContribution.bothOf (m.lookup "cvr_up") (m.lookup "cvr_down")).bind (sideOf root)
      else none
    | .curvatureArrays up down =>
      (label.bind (ofPairs (nodes.zip (up.zip down))).lookup).bind (sideOf root)
    | _ => none
  else if root = scalarRoot row.sensitivityType then
    match row.riskValue with
    | .number v => if label = none then some v else none
    | .members m =>
      match spotMember m with
      | some v => if label = none then some v else none
      | none => label.bind m.lookup
    | .array items => label.bind (ofPairs (labels.zip items)).lookup
    | .curvatureArrays _ _ => none
  else none

/-- What the slim writer reads: both kinds of array by the row's own list. -/
def Row.slimCell (row : Row) : String → Option String → Option ℚ :=
  row.cell (row.listed.getD []) (row.listed.getD [])

/-- What ingest reads under a class. -/
def Row.ingestCell (row : Row) (cfg : RiskClassConfig) : String → Option String → Option ℚ :=
  row.cell (row.listed.getD (cfg.tenorNodes.getD [])) (cfg.tenorNodes.getD [])

/-- The class that ingest finds for the row. -/
def Row.classIn (row : Row) (schema : Schema) : Option RiskClassConfig :=
  if row.riskClass = "" then none else schema.riskClasses.lookup row.riskClass

/-- The weighted number that ingest stores. -/
def Row.weighted (row : Row) (schema : Schema) (root : String) (label : Option String) : ℚ :=
  match row.classIn schema with
  | some cfg => legWeight row.sensitivityType.text (tableOf schema cfg) row.bucket label *
      (row.ingestCell cfg root label).getD 0
  | none => 0

/-- No label is used twice. -/
def LabelsDistinct (row : Row) : Prop :=
  let labels := row.listed.getD []
  match row.riskValue with
  | .array items => row.sensitivityType ≠ .curvature → (labels.take items.length).Nodup
  | .curvatureArrays up down =>
    row.sensitivityType = .curvature → (labels.take (min up.length down.length)).Nodup
  | _ => True

/-- At a tenor node, the row's own labels and the nodes give an array the same
number. An array without a tenor list counts as zero on the slim side. -/
def ReadAlike (row : Row) (nodes : List String) (t : String) : Prop :=
  match row.riskValue with
  | .array items => row.sensitivityType ≠ .curvature → row.listed = none →
      (ofPairs (nodes.zip items)).lookup t = none ∨ (ofPairs (nodes.zip items)).lookup t = some 0
  | .curvatureArrays up down => row.sensitivityType = .curvature →
      ((ofPairs ((row.listed.getD []).zip (up.zip down))).lookup t).getD (0, 0) =
        ((ofPairs (nodes.zip (up.zip down))).lookup t).getD (0, 0)
  | _ => True

/-- The row's own class: each node is weighed zero or read alike. -/
def NodesReadAlike (schema : Schema) (row : Row) : Prop :=
  ∀ cfg, row.classIn schema = some cfg → ∀ root t, (root, some t) ∈ schemaFields row.riskClass cfg →
    legWeight row.sensitivityType.text (tableOf schema cfg) row.bucket (some t) = 0 ∨
      ReadAlike row (cfg.tenorNodes.getD []) t

/-- A field of another class that is named like a field of the row, as when the
class is spelled in another case, weighs what ingest has stored. -/
def OtherClassesMatch [Casing] (schema : Schema) (row : Row) : Prop :=
  ∀ className cfg, schema.riskClasses.lookup className = some cfg →
    (className = row.riskClass → className = "") →
    ∀ f ∈ schemaFields className cfg, ∀ root ∈ wsLegs, ∀ label,
      legName (lowerCase className) f.1 f.2 = legName (lowerCase row.riskClass) root label →
      legWeight row.sensitivityType.text (tableOf schema cfg) row.bucket f.2 *
        (row.slimCell root label).getD 0 = row.weighted schema root label

end Condition

end SlimWriter
