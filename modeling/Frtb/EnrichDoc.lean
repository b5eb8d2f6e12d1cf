import Mathlib
import Frtb.Library.JsonText

/-!
# Rebuilding and enriching a row

A stream message becomes a document: the routing fields, the other top-level
fields and the parsed payload, each spread over the ones before it. Enrichment
adds the pre-weighted sensitivities. Arithmetic is exact. A value declared
`Record<string, number>` or `number[]` in the source is read as such: a map
keeps its numeric members and an array item that is not a number counts as
zero.
-/

namespace EnrichDoc

open AssocMaps JsonText

/-- The fields of one stream entry, one value a name. -/
abbrev Message := Assoc String String

section Accessors

def strAt (doc : Props) (name : String) : Option String :=
  match doc.lookup name with
  | some (.str s) => some s
  | _ => none

def numAt (doc : Props) (name : String) : Option ℚ :=
  match doc.lookup name with
  | some (.num q) => some q
  | _ => none

def objAt (doc : Props) (name : String) : Option Props :=
  match doc.lookup name with
  | some (.obj members) => some (ofPairs members)
  | _ => none

/-- The members that are numbers, in the object's order. -/
def numericMembers (members : List (String × Json)) : List (String × ℚ) :=
  members.filterMap fun p =>
    match p.2 with
    | .num q => some (p.1, q)
    | _ => none

/-- The value of `name` read as a `Record<string, number>`. -/
def tenorMapAt (doc : Props) (name : String) : Option (Assoc String ℚ) :=
  (objAt doc name).map fun members => ofPairs (numericMembers (pairs members))

/-- A field read as a string, with the empty string for anything else. -/
def textOrEmpty (doc : Props) (name : String) : String := (strAt doc name).getD ""

end Accessors

section BuildDoc

/-- The value of `payload ? JSON.parse(payload) : {}`; none is a thrown error. -/
def parsedPayload (message : Message) : Option Json :=
  match message.lookup "payload" with
  | none => some (.obj [])
  | some payload => if payload = "" then some (.obj []) else parse payload

def transportFields : List String := ["_hash_tag", "_id", "payload"]

/-- The top-level fields a document keeps: all but the transport ones. -/
def messageFields (message : Message) : List (String × Json) :=
  ((pairs message).filter (fun p => p.1 ∉ transportFields)).map (fun p => (p.1, .str p.2))

def buildDoc (message : Message) : Option Props :=
  (parsedPayload message).map fun parsed =>
    assign (ofPairs (messageFields message)) parsed.spread

end BuildDoc

inductive RiskWeightTable where
  | byTenor (weights : Assoc String ℚ)
  | byBucket (weights : Assoc String ℚ)
  | constant (weight : ℚ)

structure RiskClassConfig where
  tenorNodes : Option (List String)
  riskWeightsRef : String

structure Schema where
  riskClasses : Assoc String RiskClassConfig
  riskWeights : Assoc String RiskWeightTable

def calibrationTag : String := "demo"

def weightFor (table : Option RiskWeightTable) (bucket : String) (tenor : Option String) : ℚ :=
  match table with
  | none => 0
  | some (.constant weight) => weight
  | some (.byTenor weights) => (tenor.bind weights.lookup).getD 0
  | some (.byBucket weights) => (weights.lookup bucket).getD 0

def legWeight (sensType : String) (table : Option RiskWeightTable) (bucket : String)
    (tenor : Option String) : ℚ :=
  if sensType = "Vega" ∨ sensType = "Curvature" then 1 else weightFor table bucket tenor

def asNumber : Json → ℚ
  | .num q => q
  | _ => 0

/-- The labelled numbers among `items`, each under the weight of its label. -/
def weighTenors (weight : String → ℚ) (items : List (String × Json)) : List (String × ℚ) :=
  (numericMembers items).map fun p => (p.1, weight p.1 * p.2)

def tenorObject (out : List (String × ℚ)) : Json := .obj (out.map fun p => (p.1, .num p.2))

/-- Store a per-tenor map under `name ++ "_per_tenor"` and its signed sum under `name`. -/
def putTenors (enriched : Props) (name : String) (out : List (String × ℚ)) : Props :=
  (enriched.insert (name ++ "_per_tenor") (tenorObject out)).insert name
    (.num (out.map Prod.snd).sum)

def enrichCurvature (enriched rv : Props) (weight : Option String → ℚ)
    (tenorNodes : Option (List String)) : Props :=
  match rv.lookup "cvr_up", rv.lookup "cvr_down", tenorNodes with
  | some (.arr up), some (.arr down), some nodes =>
    let rows := nodes.zip (up.zip down)
    let ups := rows.map fun r => (r.1, weight (some r.1) * asNumber r.2.1)
    let downs := rows.map fun r => (r.1, weight (some r.1) * asNumber r.2.2)
    putTenors (putTenors enriched "weighted_cvr_up" ups) "weighted_cvr_down" downs
  | some (.num up), some (.num down), _ =>
    (enriched.insert "weighted_cvr_up" (.num (weight none * up))).insert "weighted_cvr_down"
      (.num (weight none * down))
  | _, _, _ => enriched

/-- The members of `{ spot: v }`, the scalar shape. -/
def spotOf (rv : Props) : Option ℚ :=
  match pairs rv with
  | [("spot", .num v)] => some v
  | _ => none

def enrichObject (enriched rv : Props) (weight : Option String → ℚ) : Props :=
  match spotOf rv with
  | some v => enriched.insert "weighted_value" (.num (weight none * v))
  | none => putTenors enriched "weighted_value" (weighTenors (fun t => weight (some t)) (pairs rv))

/-- The labels of the legacy array shape: `doc.tenor` when it is an array of
strings, else the class's tenor nodes. -/
def tenorLabels (doc : Props) (tenorNodes : Option (List String)) : Option (List String) :=
  match doc.lookup "tenor" with
  | some (.arr items) =>
    let labels := items.filterMap fun v =>
      match v with
      | .str s => some s
      | _ => none
    if labels.length = items.length then some labels else tenorNodes
  | _ => tenorNodes

def enrichArray (enriched : Props) (labels : Option (List String)) (rv : List Json)
    (weight : Option String → ℚ) : Props :=
  match labels with
  | some labels =>
    putTenors enriched "weighted_value" (weighTenors (fun t => weight (some t)) (labels.zip rv))
  | none => enriched

/-- The class block a document's `risk_class` selects. -/
def classOf (schema : Option Schema) (doc : Props) : Option (Schema × RiskClassConfig) := do
  let schema ← schema
  let riskClass ← strAt doc "risk_class"
  if riskClass = "" then none
  else
    let cls ← schema.riskClasses.lookup riskClass
    some (schema, cls)

def enrichDoc (doc : Props) (schema : Option Schema) : Props :=
  let enriched := doc.insert "_calibration" (.str calibrationTag)
  match classOf schema doc with
  | none => enriched
  | some (schema, cls) =>
    let table :=
      if cls.riskWeightsRef = "" then none else schema.riskWeights.lookup cls.riskWeightsRef
    let sensType := textOrEmpty doc "sensitivity_type"
    let weight := legWeight sensType table (textOrEmpty doc "bucket")
    match doc.lookup "risk_value" with
    | some (.obj members) =>
      if sensType = "Curvature" then
        enrichCurvature enriched (ofPairs members) weight cls.tenorNodes
      else enrichObject enriched (ofPairs members) weight
    | some (.arr items) => enrichArray enriched (tenorLabels doc cls.tenorNodes) items weight
    | some (.num v) => enriched.insert "weighted_value" (.num (weight none * v))
    | _ => enriched

end EnrichDoc
