import Frtb.Library.NumberText
import Frtb.StreamRouter
import Frtb.StoredRows

/-!
# Uploaded source files

`ingestFile` sends each row of a file as flat text fields with a hash tag in
front. The consumer looks for an id and a payload among them. The generator
sends the same row with its risk value as a number inside the payload.
-/

namespace SourceUpload

open AssocMaps JsonText NumberText EnrichDoc RollupKeys RedisStore BatchWriters BatchRuns
open AckSafety PoisonEntries StoredRows StreamRouter

inductive MappingValueType where
  | string
  | number
  | arrayNumber
deriving DecidableEq

/-- `from`: one column, or a list of columns. -/
inductive Columns where
  | one (column : String)
  | many (columns : List String)

structure MappedField where
  source : Columns
  type : Option MappingValueType

abbrev ColumnMapping := Assoc String MappedField

/-- A row of the file, one text a column. -/
abbrev SourceRow := Assoc String String

section Ingest

def cell (row : SourceRow) (column : String) : String := (row.lookup column).getD ""

def resolveField (row : SourceRow) (field : MappedField) : String :=
  match field.source with
  | .many columns =>
    bracket (columns.map fun column =>
      if field.type = some .arrayNumber then showNumber ((toNumber (cell row column)).getD 0)
      else quote (cell row column))
  | .one column =>
    if field.type = some .number then ((toNumber (cell row column)).map showNumber).getD ""
    else cell row column

def applyMapping (row : SourceRow) (mapping : ColumnMapping) : List (String × String) :=
  (pairs mapping).map fun p => (p.1, resolveField row p.2)

def hashTagFor (fields : List (String × String)) : String :=
  buildHashTag (((ofPairs fields).lookup "risk_class").getD "")
    (((ofPairs fields).lookup "bucket").getD "")

/-- The fields of the entry that a row is sent as. -/
def entryFields (mapping : ColumnMapping) (row : SourceRow) : List (String × String) :=
  ("_hash_tag", hashTagFor (applyMapping row mapping)) :: applyMapping row mapping

def inboundStream : String := "sensitivities:in"

/-- The entries sent for the rows of a file, each with its stream. Each counts
in `rows_ingested`. -/
def ingestFile (shards : StreamShards) (mapping : ColumnMapping) (rows : List SourceRow) :
    Option (List (String × List (String × String))) :=
  (createStreamRouter inboundStream shards).map fun route =>
    rows.map fun row =>
      (route (hashTagFor (applyMapping row mapping)), entryFields mapping row)

end Ingest

section Generated

/-- The number, or the numbers, in the columns of a field. -/
def typedValue (row : SourceRow) (field : MappedField) : Json :=
  match field.source with
  | .one column => ((toNumber (cell row column)).map Json.num).getD .null
  | .many columns => .arr (columns.map fun column => .num ((toNumber (cell row column)).getD 0))

/-- The document of the same row on the generator's path: its risk value is
typed. -/
def generatedDoc (mapping : ColumnMapping) (row : SourceRow) (risk : MappedField) : Props :=
  (ofPairs (messageFields (ofPairs (applyMapping row mapping)))).insert "risk_value"
    (typedValue row risk)

def shockNames : List String :=
  ["weighted_cvr_up", "weighted_cvr_up_per_tenor", "weighted_cvr_down",
    "weighted_cvr_down_per_tenor"]

def weightedNames : List String :=
  "weighted_value" :: "weighted_value_per_tenor" :: shockNames

/-- A number, or an object of numbers. -/
def IsNumeric : Json → Prop
  | .num _ => True
  | .obj members => ∀ label v, (ofPairs members).lookup label = some v → ∃ q, v = .num q
  | _ => False

/-- The same number, or objects with the same members. -/
def SameValue : Json → Json → Prop
  | .num p, .num q => p = q
  | .obj members, .obj members' =>
    ∀ label, (ofPairs members).lookup label = (ofPairs members').lookup label
  | _, _ => False

def SameField : Option Json → Option Json → Prop
  | none, none => True
  | some v, some w => IsNumeric v ∧ SameValue v w
  | _, _ => False

/-- The weighted fields of a document are numeric and those of another. -/
def SameWeights (doc other : Props) : Prop :=
  ∀ name ∈ weightedNames, SameField (doc.lookup name) (other.lookup name)

/-- `risk_value` is bound to one numeric column or to a list of them. -/
def NumericRisk (mapping : ColumnMapping) (risk : MappedField) : Prop :=
  mapping.lookup "risk_value" = some risk ∧
    match risk.source with
    | .one _ => risk.type = some .number
    | .many _ => risk.type = some .arrayNumber

end Generated

section Charge
variable (opts : ConsumerOptions)

/-- Once an entry with these fields is acknowledged, its row is stored with
the given weights, whichever writer has processed the batch. -/
def Charged (fields : List (String × String)) (generated : Props) : Prop :=
  ∀ (s : Redis) (entries : List Entry) (entry : Entry),
    (entries.map Entry.entryId).Nodup → (∀ e ∈ entries, e ∈ s.pel) →
    (s.pel.map Entry.entryId).Nodup → entry ∈ entries → entry.fields = some fields →
    (entry ∉ (processBatchAtomic opts noFaults s 0 entries).1.pel →
      ∃ r, prepare opts entry = some (.row r) ∧
        Kept opts (processBatchAtomic opts noFaults s 0 entries).1 (rowsIn opts entries) r ∧
        SameWeights r.doc (enrichDoc generated opts.schema)) ∧
    (entry ∉ (processBatch opts noFaults s entries).1.pel →
      ∃ r, prepare opts entry = some (.row r) ∧
        Kept opts (processBatch opts noFaults s entries).1 (rowsIn opts entries) r ∧
        SameWeights r.doc (enrichDoc generated opts.schema))

/-- Every row that a file counts reaches the charge. -/
def FileCharged (shards : StreamShards) (mapping : ColumnMapping) (risk : MappedField)
    (rows : List SourceRow) : Prop :=
  ∀ sent, ingestFile shards mapping rows = some sent →
    ∀ p ∈ rows.zip sent, Charged opts p.2.2 (generatedDoc mapping p.1 risk)

end Charge

section Weighing

/-- What a document gives the schema to weigh: numbers, each with its risk
weight. -/
inductive Weighing where
  | nothing
  | scalar (weight value : ℚ)
  | tenors (legs : List (String × ℚ × ℚ))
  | shocks

/-- The numbers among labelled items, each with the weight of its label. -/
def legsOf (weight : String → ℚ) (items : List (String × Json)) : List (String × ℚ × ℚ) :=
  (numericMembers items).map fun p => (p.1, weight p.1, p.2)

def weighing (schema : Option Schema) (doc : Props) : Weighing :=
  match classOf schema doc with
  | none => .nothing
  | some (schema, cls) =>
    let table :=
      if cls.riskWeightsRef = "" then none else schema.riskWeights.lookup cls.riskWeightsRef
    let sensType := textOrEmpty doc "sensitivity_type"
    let weight := legWeight sensType table (textOrEmpty doc "bucket")
    match doc.lookup "risk_value" with
    | some (.obj members) =>
      let rv := ofPairs members
      if sensType = "Curvature" then
        match rv.lookup "cvr_up", rv.lookup "cvr_down", cls.tenorNodes with
        | some (.arr _), some (.arr _), some _ => .shocks
        | some (.num _), some (.num _), _ => .shocks
        | _, _, _ => .nothing
      else
        match spotOf rv with
        | some v => .scalar (weight none) v
        | none => .tenors (legsOf (fun t => weight (some t)) (pairs rv))
    | some (.arr items) =>
      match tenorLabels doc cls.tenorNodes with
      | some labels => .tenors (legsOf (fun t => weight (some t)) (labels.zip items))
      | none => .nothing
    | some (.num v) => .scalar (weight none) v
    | _ => .nothing

/-- Each number times its weight. -/
def products (legs : List (String × ℚ × ℚ)) : List (String × ℚ) :=
  legs.map fun p => (p.1, p.2.1 * p.2.2)

def productSum (legs : List (String × ℚ × ℚ)) : ℚ := ((products legs).map Prod.snd).sum

/-- No field of the document has one of the names. -/
def Free (names : List String) (doc : Props) : Prop := ∀ name ∈ names, doc.lookup name = none

/-- The document itself carries the products, one member a label. -/
def Carries (doc : Props) (legs : List (String × ℚ × ℚ)) : Prop :=
  ∃ members, doc.lookup "weighted_value_per_tenor" = some (.obj members) ∧
    ∀ label, (ofPairs members).lookup label = ((ofPairs (products legs)).lookup label).map Json.num

/-- The document gives a scalar of this product, or nothing, and carries it. -/
def GivesScalar (product : ℚ) (doc : Props) : Weighing → Prop
  | .nothing => doc.lookup "weighted_value" = some (.num product)
  | .scalar weight value => weight * value = product
  | .tenors _ => False
  | .shocks => False

/-- The document gives the products of these legs, or carries what it does not
give. -/
def GivesTenors (legs : List (String × ℚ × ℚ)) (doc : Props) : Weighing → Prop
  | .nothing => doc.lookup "weighted_value" = some (.num (productSum legs)) ∧ Carries doc legs
  | .scalar weight value => weight * value = productSum legs ∧ Carries doc legs
  | .tenors legs' => productSum legs' = productSum legs ∧
    ∀ label, (ofPairs (products legs')).lookup label = (ofPairs (products legs)).lookup label
  | .shocks => False

/-- A document gives what the mapped numbers give. No other field is named
like a weighted one. -/
def Alike (mapped given : Weighing) (doc : Props) : Prop :=
  match mapped with
  | .nothing => Free weightedNames doc ∧ given = .nothing
  | .scalar weight value =>
    Free ("weighted_value_per_tenor" :: shockNames) doc ∧ GivesScalar (weight * value) doc given
  | .tenors legs => Free shockNames doc ∧ GivesTenors legs doc given
  | .shocks => False

end Weighing

section Condition
variable (opts : ConsumerOptions)

/-- The mapped text alone: a row with an id that the schema does not weigh. -/
def PlainRow (mapping : ColumnMapping) (row : SourceRow) (risk : MappedField) : Prop :=
  (routedId (ofPairs (entryFields mapping row))).isSome ∧
    weighing opts.schema (generatedDoc mapping row risk) = .nothing ∧
    ∀ name ∈ weightedNames, name ∉ mapping

/-- The document of the mapped text alone. -/
def textDoc (mapping : ColumnMapping) (row : SourceRow) : Props :=
  ofPairs (messageFields (ofPairs (entryFields mapping row)))

/-- A mapped payload column: its text is not JSON, so that the entry is never
acknowledged, or its members, laid over the mapped text, give the products of
the mapped numbers. -/
def PayloadRow (mapping : ColumnMapping) (row : SourceRow) (risk : MappedField)
    (payload : String) : Prop :=
  (routedId (ofPairs (entryFields mapping row))).isSome ∧
    ∀ parsed, parse payload = some parsed →
      let doc := assign (textDoc mapping row) parsed.spread
      Alike (weighing opts.schema (generatedDoc mapping row risk)) (weighing opts.schema doc) doc

/-- The condition on a row and its mapping. -/
def Restored (mapping : ColumnMapping) (row : SourceRow) (risk : MappedField) : Prop :=
  match (ofPairs (entryFields mapping row)).lookup "payload" with
  | none => PlainRow opts mapping row risk
  | some payload =>
    if payload = "" then PlainRow opts mapping row risk
    else PayloadRow opts mapping row risk payload

end Condition

section Acknowledged
variable {opts : ConsumerOptions}

/-- An entry of the batch that the atomic writer acknowledges was reached. -/
theorem front_of_acked {s : Redis} {entries : List Entry} {entry : Entry}
    (distinct : (entries.map Entry.entryId).Nodup) (pending : ∀ e ∈ entries, e ∈ s.pel)
    (mem : entry ∈ entries) (acked : entry ∉ (processBatchAtomic opts noFaults s 0 entries).1.pel) :
    entry ∈ beforeBad opts entries := by
  rw [pel_atomic, List.mem_filter, not_and, decide_eq_true_eq, not_not] at acked
  obtain ⟨e, he, hid⟩ := List.mem_map.mp (acked (pending entry mem))
  have inBatch : e ∈ entries := (List.takeWhile_sublist _).subset he
  rwa [List.inj_on_of_nodup_map distinct inBatch mem hid] at he

/-- Whether an entry charges is a matter of what it prepares as. -/
theorem charged_iff (fields : List (String × String)) (generated : Props) :
    Charged opts fields generated ↔
      ∀ entry : Entry, entry.fields = some fields → ∀ p, prepare opts entry = some p →
        ∃ r, p = .row r ∧ SameWeights r.doc (enrichDoc generated opts.schema) := by
  constructor
  · intro charged entry hfields p hp
    have alone := (charged { Redis.empty with pel := [entry] } [entry] entry
      (List.nodup_singleton _) (fun _ h => h) (List.nodup_singleton _) List.mem_cons_self
      hfields).1
    have front : beforeBad opts [entry] = [entry] := by
      simp [beforeBad, List.takeWhile, hp]
    obtain ⟨r, row, _, same⟩ := alone (by rw [pel_atomic, front]; simp)
    rw [hp] at row
    cases row
    exact ⟨r, rfl, same⟩
  · intro rows s entries entry distinct pending _ mem hfields
    constructor
    · intro acked
      have front := front_of_acked distinct pending mem acked
      have prepares : (prepare opts entry).isSome = true :=
        List.mem_takeWhile_imp (p := fun e => (prepare opts e).isSome) front
      obtain ⟨p, hp⟩ := Option.isSome_iff_exists.mp prepares
      obtain ⟨r, rfl, same⟩ := rows entry hfields p hp
      exact ⟨r, hp, kept_atomic (mem_rowsIn.mpr ⟨entry, front, hp⟩), same⟩
    · intro acked
      by_cases clean : Clean opts entries
      · obtain ⟨p, hp⟩ := Option.isSome_iff_exists.mp (clean entry mem)
        obtain ⟨r, rfl, same⟩ := rows entry hfields p hp
        exact ⟨r, hp, kept_piped clean (mem_rowsIn.mpr ⟨entry, mem, hp⟩), same⟩
      · rw [processBatch_of_thrown clean] at acked
        exact absurd (pending entry mem) acked

end Acknowledged

section Fields
variable {mapping : ColumnMapping} {row : SourceRow} {risk : MappedField}

theorem lookup_messageFields (m : Message) (name : String) :
    (ofPairs (messageFields m)).lookup name =
      if name ∈ transportFields then none else (m.lookup name).map Json.str := by
  have names : (messageFields m).map Prod.fst =
      ((pairs m).map Prod.fst).filter (fun k => k ∉ transportFields) := by
    rw [messageFields, List.map_map, List.filter_map]
    rfl
  have nodup : ((messageFields m).map Prod.fst).Nodup := by
    rw [names, map_fst_pairs]
    exact m.keys_nodup.filter _
  have listed : ∀ v, (name, v) ∈ messageFields m ↔
      name ∉ transportFields ∧ ∃ text, m.lookup name = some text ∧ v = .str text := by
    intro v
    simp only [messageFields, List.mem_map, List.mem_filter, decide_eq_true_eq]
    constructor
    · rintro ⟨⟨k, text⟩, ⟨hk, kept⟩, heq⟩
      cases heq
      exact ⟨kept, text, (mem_pairs m k text).mp hk, rfl⟩
    · rintro ⟨kept, text, htext, rfl⟩
      exact ⟨(name, text), ⟨(mem_pairs m name text).mpr htext, kept⟩, rfl⟩
  cases hl : (ofPairs (messageFields m)).lookup name with
  | some v =>
    obtain ⟨kept, text, htext, rfl⟩ := (listed v).mp (mem_of_lookup_ofPairs hl)
    rw [if_neg kept, htext]
    rfl
  | none =>
    by_cases kept : name ∈ transportFields
    · rw [if_pos kept]
    · rw [if_neg kept]
      cases htext : m.lookup name with
      | none => rfl
      | some text =>
        have found := lookup_assign_of_mem ∅ nodup
          ((listed (.str text)).mpr ⟨kept, text, htext, rfl⟩)
        rw [ofPairs, found] at hl
        cases hl

theorem lookup_applyMapping (name : String) :
    (ofPairs (applyMapping row mapping)).lookup name =
      (mapping.lookup name).map (resolveField row) := by
  rw [applyMapping, lookup_ofPairs_map, lookup_ofPairs_pairs]

theorem lookup_entryFields {name : String} (other : name ≠ "_hash_tag") :
    (ofPairs (entryFields mapping row)).lookup name =
      (mapping.lookup name).map (resolveField row) := by
  have single : entryFields mapping row =
      [("_hash_tag", hashTagFor (applyMapping row mapping))] ++ applyMapping row mapping := rfl
  rw [single, lookup_ofPairs_append_of_notMem_left (by simpa using other), lookup_applyMapping]

theorem lookup_textDoc {name : String} (kept : name ∉ transportFields) :
    (textDoc mapping row).lookup name =
      (mapping.lookup name).map (fun field => .str (resolveField row field)) := by
  have other : name ≠ "_hash_tag" := by
    rintro rfl
    exact kept List.mem_cons_self
  rw [textDoc, lookup_messageFields, if_neg kept, lookup_entryFields other, Option.map_map]
  rfl

theorem lookup_generatedDoc {name : String} (kept : name ∉ transportFields)
    (other : name ≠ "risk_value") :
    (generatedDoc mapping row risk).lookup name =
      (mapping.lookup name).map (fun field => .str (resolveField row field)) := by
  rw [generatedDoc, AList.lookup_insert_ne other, lookup_messageFields, if_neg kept,
    lookup_applyMapping, Option.map_map]
  rfl

theorem weightedNames_apart {name : String} (h : name ∈ weightedNames) :
    name ∉ transportFields ∧ name ≠ "risk_value" ∧ name ≠ "_calibration" := by
  revert name
  decide

end Fields

section Enriched
variable (schema : Option Schema) (doc : Props)

/-- What enrichment does with what a document gives it. -/
def Enriches : Weighing → Prop
  | .nothing => enrichDoc doc schema = doc.insert "_calibration" (.str calibrationTag)
  | .scalar weight value => enrichDoc doc schema =
      (doc.insert "_calibration" (.str calibrationTag)).insert "weighted_value"
        (.num (weight * value))
  | .tenors legs => enrichDoc doc schema =
      putTenors (doc.insert "_calibration" (.str calibrationTag)) "weighted_value" (products legs)
  | .shocks => ∃ q, (enrichDoc doc schema).lookup "weighted_cvr_up" = some (.num q)

theorem weighTenors_eq (weight : String → ℚ) (items : List (String × Json)) :
    weighTenors weight items = products (legsOf weight items) := by
  rw [products, legsOf, List.map_map]
  rfl

theorem lookup_putTenors_scalar (doc : Props) (name : String) (out : List (String × ℚ)) :
    (putTenors doc name out).lookup name = some (.num (out.map Prod.snd).sum) := by
  rw [putTenors, AList.lookup_insert]

theorem enriches : Enriches schema doc (weighing schema doc) := by
  unfold weighing
  cases hclass : classOf schema doc with
  | none => simp only [Enriches, enrichDoc, hclass]
  | some block =>
    obtain ⟨schema', cls⟩ := block
    cases hrisk : doc.lookup "risk_value" with
    | none => simp only [Enriches, enrichDoc, hclass, hrisk]
    | some v =>
      cases v with
      | null => simp only [Enriches, enrichDoc, hclass, hrisk]
      | bool b => simp only [Enriches, enrichDoc, hclass, hrisk]
      | str text => simp only [Enriches, enrichDoc, hclass, hrisk]
      | num q => simp only [Enriches, enrichDoc, hclass, hrisk]
      | arr items =>
        simp only
        cases hlabels : tenorLabels doc cls.tenorNodes with
        | none => simp only [Enriches, enrichDoc, hclass, hrisk, enrichArray, hlabels]
        | some labels =>
          simp only [Enriches, enrichDoc, hclass, hrisk, enrichArray, hlabels, weighTenors_eq]
      | obj members =>
        simp only
        by_cases curvature : textOrEmpty doc "sensitivity_type" = "Curvature"
        · rw [if_pos curvature]
          split
          · rename_i up down nodes hup hdown hnodes
            simp only [Enriches, enrichDoc, hclass, hrisk, if_pos curvature, enrichCurvature, hup,
              hdown, hnodes]
            exact ⟨_, (AList.lookup_insert_ne (by decide)).trans
              ((AList.lookup_insert_ne (by decide)).trans (lookup_putTenors_scalar _ _ _))⟩
          · rename_i up down hup hdown
            simp only [Enriches, enrichDoc, hclass, hrisk, if_pos curvature, enrichCurvature, hup,
              hdown]
            exact ⟨_, (AList.lookup_insert_ne (by decide)).trans (AList.lookup_insert _)⟩
          · simp only [Enriches, enrichDoc, hclass, hrisk, if_pos curvature, enrichCurvature]
        · rw [if_neg curvature]
          cases hspot : spotOf (ofPairs members) with
          | none =>
            simp only [Enriches, enrichDoc, hclass, hrisk, if_neg curvature, enrichObject, hspot,
              weighTenors_eq]
          | some v =>
            simp only [Enriches, enrichDoc, hclass, hrisk, if_neg curvature, enrichObject, hspot]

variable {schema doc}

theorem lookup_of_nothing (h : weighing schema doc = .nothing) {name : String}
    (weighted : name ∈ weightedNames) : (enrichDoc doc schema).lookup name = doc.lookup name := by
  have enriched := enriches schema doc
  rw [h] at enriched
  rw [enriched, AList.lookup_insert_ne (weightedNames_apart weighted).2.2]

theorem lookup_of_scalar {weight value : ℚ} (h : weighing schema doc = .scalar weight value) :
    (enrichDoc doc schema).lookup "weighted_value" = some (.num (weight * value)) ∧
      ∀ name ∈ "weighted_value_per_tenor" :: shockNames,
        (enrichDoc doc schema).lookup name = doc.lookup name := by
  have enriched := enriches schema doc
  rw [h] at enriched
  rw [enriched]
  refine ⟨AList.lookup_insert _, fun name other => ?_⟩
  have apart : name ≠ "weighted_value" ∧ name ≠ "_calibration" := by
    revert name
    decide
  rw [AList.lookup_insert_ne apart.1, AList.lookup_insert_ne apart.2]

theorem lookup_of_tenors {legs : List (String × ℚ × ℚ)}
    (h : weighing schema doc = .tenors legs) :
    (enrichDoc doc schema).lookup "weighted_value" = some (.num (productSum legs)) ∧
      (enrichDoc doc schema).lookup "weighted_value_per_tenor" =
        some (tenorObject (products legs)) ∧
      ∀ name ∈ shockNames, (enrichDoc doc schema).lookup name = doc.lookup name := by
  have enriched := enriches schema doc
  rw [h] at enriched
  rw [enriched]
  refine ⟨lookup_putTenors_scalar _ _ _, ?_, fun name other => ?_⟩
  · rw [putTenors, AList.lookup_insert_ne (by decide)]
    exact AList.lookup_insert _
  · have apart : name ≠ "weighted_value" ∧ name ≠ "weighted_value" ++ "_per_tenor" ∧
        name ≠ "_calibration" := by
      revert name
      decide
    rw [putTenors, AList.lookup_insert_ne apart.1, AList.lookup_insert_ne apart.2.1,
      AList.lookup_insert_ne apart.2.2]

theorem lookup_of_shocks (h : weighing schema doc = .shocks) :
    ∃ q, (enrichDoc doc schema).lookup "weighted_cvr_up" = some (.num q) := by
  have enriched := enriches schema doc
  rwa [h] at enriched

end Enriched

section Compared
variable {schema : Option Schema} {doc generated : Props}

theorem sameField_num_iff {found : Option Json} {q : ℚ} :
    SameField found (some (.num q)) ↔ found = some (.num q) := by
  constructor
  · intro same
    cases found with
    | none => exact same.elim
    | some v =>
      cases v with
      | num p =>
        have equal : p = q := same.2
        rw [equal]
      | _ => exact same.2.elim
  · rintro rfl
    exact ⟨trivial, rfl⟩

theorem lookup_tenorMembers (out : List (String × ℚ)) (label : String) :
    (ofPairs (out.map fun p => (p.1, Json.num p.2))).lookup label =
      ((ofPairs out).lookup label).map Json.num := lookup_ofPairs_map out Json.num label

theorem sameField_tenorObject_iff {found : Option Json} {out : List (String × ℚ)} :
    SameField found (some (tenorObject out)) ↔ ∃ members, found = some (.obj members) ∧
      ∀ label, (ofPairs members).lookup label = ((ofPairs out).lookup label).map Json.num := by
  constructor
  · intro same
    cases found with
    | none => exact same.elim
    | some v =>
      cases v with
      | obj members =>
        exact ⟨members, rfl, fun label => (same.2 label).trans (lookup_tenorMembers out label)⟩
      | _ => exact same.2.elim
  · rintro ⟨members, rfl, same⟩
    refine ⟨fun label v hv => ?_,
      fun label => (same label).trans (lookup_tenorMembers out label).symm⟩
    rw [same label, Option.map_eq_some_iff] at hv
    obtain ⟨q, _, rfl⟩ := hv
    exact ⟨q, rfl⟩

theorem sameField_tenorObjects_iff {out out' : List (String × ℚ)} :
    SameField (some (tenorObject out)) (some (tenorObject out')) ↔
      ∀ label, (ofPairs out).lookup label = (ofPairs out').lookup label := by
  rw [sameField_tenorObject_iff]
  constructor
  · rintro ⟨members, heq, same⟩ label
    have spelled : members = out.map fun p => (p.1, Json.num p.2) := by
      have objects := Option.some.inj heq
      exact (Json.obj.inj objects).symm
    have labelled := same label
    rw [spelled, lookup_tenorMembers] at labelled
    exact Option.map_injective (fun _ _ h => Json.num.inj h) labelled
  · intro same
    exact ⟨_, rfl, fun label => by rw [lookup_tenorMembers, same label]⟩

section Overlay
variable (text : ∀ name ∈ weightedNames, ∀ v, generated.lookup name = some v → ∃ s, v = .str s)
  (overlay : ∀ name ∈ weightedNames, doc.lookup name = none → generated.lookup name = none)

include text in
/-- A text is the weight of nothing. -/
theorem sameField_raw {name : String} (weighted : name ∈ weightedNames) {found : Option Json}
    (same : SameField found (generated.lookup name)) : found = none := by
  cases hg : generated.lookup name with
  | none =>
    rw [hg] at same
    cases found with
    | none => rfl
    | some v => exact same.elim
  | some v =>
    obtain ⟨s, rfl⟩ := text name weighted v hg
    rw [hg] at same
    cases found with
    | none => exact same.elim
    | some w => cases w <;> exact same.2.elim

include text overlay in
theorem sameField_raw_iff {name : String} (weighted : name ∈ weightedNames) :
    SameField (doc.lookup name) (generated.lookup name) ↔ doc.lookup name = none := by
  constructor
  · exact sameField_raw text weighted
  · intro absent
    rw [absent, overlay name weighted absent]
    trivial

include text overlay in
theorem free_iff {names : List String} (weighted : ∀ name ∈ names, name ∈ weightedNames)
    {other : Props} (raw : ∀ name ∈ names, other.lookup name = doc.lookup name)
    {other' : Props} (raw' : ∀ name ∈ names, other'.lookup name = generated.lookup name) :
    (∀ name ∈ names, SameField (other.lookup name) (other'.lookup name)) ↔ Free names doc := by
  refine forall₂_congr fun name mem => ?_
  rw [raw name mem, raw' name mem]
  exact sameField_raw_iff text overlay (weighted name mem)

include text overlay in
/-- The weights agree exactly when what the documents give agrees. -/
theorem sameWeights_iff (plain : weighing schema generated ≠ .shocks) :
    SameWeights (enrichDoc doc schema) (enrichDoc generated schema) ↔
      Alike (weighing schema generated) (weighing schema doc) doc := by
  have listed : ∀ name ∈ shockNames, name ∈ weightedNames :=
    fun name mem => List.mem_cons_of_mem _ (List.mem_cons_of_mem _ mem)
  have listed' : ∀ name ∈ "weighted_value_per_tenor" :: shockNames, name ∈ weightedNames :=
    fun name mem => List.mem_cons_of_mem _ mem
  have first : "weighted_value" ∈ weightedNames := List.mem_cons_self
  have second : "weighted_value_per_tenor" ∈ weightedNames := listed' _ List.mem_cons_self
  have third : "weighted_cvr_up" ∈ weightedNames := listed _ List.mem_cons_self
  cases hm : weighing schema generated with
  | shocks => exact absurd hm plain
  | nothing =>
    have raw := fun name mem => @lookup_of_nothing schema generated hm name mem
    cases hg : weighing schema doc with
    | nothing =>
      have given := fun name mem => @lookup_of_nothing schema doc hg name mem
      rw [SameWeights, free_iff text overlay (fun _ h => h) given raw, Alike]
      exact (and_iff_left rfl).symm
    | scalar weight value =>
      refine iff_of_false (fun same => ?_) (fun alike => Weighing.noConfusion alike.2)
      have field := same _ first
      rw [raw _ first, (lookup_of_scalar hg).1] at field
      cases sameField_raw text first field
    | tenors legs =>
      refine iff_of_false (fun same => ?_) (fun alike => Weighing.noConfusion alike.2)
      have field := same _ first
      rw [raw _ first, (lookup_of_tenors hg).1] at field
      cases sameField_raw text first field
    | shocks =>
      refine iff_of_false (fun same => ?_) (fun alike => Weighing.noConfusion alike.2)
      obtain ⟨q, hq⟩ := lookup_of_shocks hg
      have field := same _ third
      rw [raw _ third, hq] at field
      cases sameField_raw text third field
  | scalar weight value =>
    obtain ⟨value', raw⟩ := lookup_of_scalar hm
    rw [SameWeights, weightedNames, List.forall_mem_cons, value', and_comm, Alike]
    cases hg : weighing schema doc with
    | nothing =>
      have given := fun name mem => @lookup_of_nothing schema doc hg name mem
      rw [given _ first, sameField_num_iff,
        free_iff text overlay listed' (fun name mem => given name (listed' name mem)) raw,
        GivesScalar]
    | scalar weight' value' =>
      obtain ⟨found, given⟩ := lookup_of_scalar hg
      rw [found, sameField_num_iff, free_iff text overlay listed' given raw, GivesScalar,
        Option.some.injEq, Json.num.injEq]
    | tenors legs =>
      refine iff_of_false (fun same => ?_) (fun alike => alike.2)
      have field := same.1 _ List.mem_cons_self
      rw [raw _ List.mem_cons_self, (lookup_of_tenors hg).2.1] at field
      cases sameField_raw text second field
    | shocks =>
      refine iff_of_false (fun same => ?_) (fun alike => alike.2)
      obtain ⟨q, hq⟩ := lookup_of_shocks hg
      have mem : "weighted_cvr_up" ∈ "weighted_value_per_tenor" :: shockNames :=
        List.mem_cons_of_mem _ List.mem_cons_self
      have field := same.1 _ mem
      rw [raw _ mem, hq] at field
      cases sameField_raw text third field
  | tenors legs =>
    obtain ⟨sum, map, raw⟩ := lookup_of_tenors hm
    rw [SameWeights, weightedNames, List.forall_mem_cons, List.forall_mem_cons, sum, map,
      ← and_assoc, and_comm, Alike]
    cases hg : weighing schema doc with
    | nothing =>
      have given := fun name mem => @lookup_of_nothing schema doc hg name mem
      rw [given _ first, given _ second, sameField_num_iff, sameField_tenorObject_iff,
        free_iff text overlay listed (fun name mem => given name (listed name mem)) raw,
        GivesTenors, Carries]
    | scalar weight value =>
      obtain ⟨found, given⟩ := lookup_of_scalar hg
      rw [found, given _ List.mem_cons_self, sameField_num_iff, sameField_tenorObject_iff,
        free_iff text overlay listed (fun name mem => given name (List.mem_cons_of_mem _ mem)) raw]
      rw [GivesTenors, Option.some.injEq, Json.num.injEq, Carries]
    | tenors legs' =>
      obtain ⟨sum', map', given⟩ := lookup_of_tenors hg
      rw [sum', map', sameField_num_iff, sameField_tenorObjects_iff,
        free_iff text overlay listed given raw, GivesTenors, Option.some.injEq, Json.num.injEq]
    | shocks =>
      refine iff_of_false (fun same => ?_) (fun alike => alike.2)
      obtain ⟨q, hq⟩ := lookup_of_shocks hg
      have field := same.1 _ List.mem_cons_self
      rw [raw _ List.mem_cons_self, hq] at field
      cases sameField_raw text third field

end Overlay

end Compared

section Uploaded
variable {opts : ConsumerOptions} {mapping : ColumnMapping} {row : SourceRow} {risk : MappedField}

theorem weighing_generatedDoc : weighing opts.schema (generatedDoc mapping row risk) ≠ .shocks := by
  have typed : (∃ q, typedValue row risk = .num q) ∨ (∃ items, typedValue row risk = .arr items) ∨
      typedValue row risk = .null := by
    unfold typedValue
    split
    · rename_i column _
      cases toNumber (cell row column) with
      | none => exact Or.inr (Or.inr rfl)
      | some q => exact Or.inl ⟨q, rfl⟩
    · exact Or.inr (Or.inl ⟨_, rfl⟩)
  have found : (generatedDoc mapping row risk).lookup "risk_value" =
      some (typedValue row risk) := AList.lookup_insert _
  unfold weighing
  cases classOf opts.schema (generatedDoc mapping row risk) with
  | none => exact Weighing.noConfusion
  | some block =>
    simp only [found]
    rcases typed with ⟨q, hq⟩ | ⟨items, hitems⟩ | hnull
    · rw [hq]
      exact Weighing.noConfusion
    · rw [hitems]
      simp only
      split
      · exact Weighing.noConfusion
      · exact Weighing.noConfusion
    · rw [hnull]
      exact Weighing.noConfusion

theorem generatedDoc_text {name : String} (weighted : name ∈ weightedNames) {v : Json}
    (h : (generatedDoc mapping row risk).lookup name = some v) : ∃ s, v = .str s := by
  rw [lookup_generatedDoc (weightedNames_apart weighted).1 (weightedNames_apart weighted).2.1,
    Option.map_eq_some_iff] at h
  obtain ⟨field, _, rfl⟩ := h
  exact ⟨_, rfl⟩

/-- Text laid under a payload. -/
theorem sameWeights_overlay_iff (payload : List (String × Json)) :
    SameWeights (enrichDoc (assign (textDoc mapping row) payload) opts.schema)
        (enrichDoc (generatedDoc mapping row risk) opts.schema) ↔
      Alike (weighing opts.schema (generatedDoc mapping row risk))
        (weighing opts.schema (assign (textDoc mapping row) payload))
        (assign (textDoc mapping row) payload) := by
  refine sameWeights_iff (fun name weighted v h => generatedDoc_text weighted h)
    (fun name weighted absent => ?_) weighing_generatedDoc
  have unlisted : name ∉ assign (textDoc mapping row) payload := AList.lookup_eq_none.mp absent
  rw [mem_assign, not_or] at unlisted
  have unmapped := AList.lookup_eq_none.mpr unlisted.1
  rw [lookup_textDoc (weightedNames_apart weighted).1, Option.map_eq_none_iff] at unmapped
  rw [lookup_generatedDoc (weightedNames_apart weighted).1 (weightedNames_apart weighted).2.1,
    unmapped, Option.map_none]

/-- Mapped text gives nothing to weigh: its risk value is a text. -/
theorem weighing_textDoc (bound : mapping.lookup "risk_value" = some risk)
    (schema : Option Schema) : weighing schema (textDoc mapping row) = .nothing := by
  have typed : (textDoc mapping row).lookup "risk_value" = some (.str (resolveField row risk)) := by
    rw [lookup_textDoc (by decide), bound]
    rfl
  unfold weighing
  cases classOf schema (textDoc mapping row) with
  | none => rfl
  | some block => simp only [typed]

theorem sameWeights_textDoc_iff (bound : mapping.lookup "risk_value" = some risk) :
    SameWeights (enrichDoc (textDoc mapping row) opts.schema)
        (enrichDoc (generatedDoc mapping row risk) opts.schema) ↔
      weighing opts.schema (generatedDoc mapping row risk) = .nothing ∧
        ∀ name ∈ weightedNames, name ∉ mapping := by
  have alone := @sameWeights_overlay_iff opts mapping row risk []
  rw [assign_nil, weighing_textDoc bound] at alone
  have text : ∀ name ∈ weightedNames, (textDoc mapping row).lookup name =
      (mapping.lookup name).map (fun field => .str (resolveField row field)) :=
    fun name weighted => lookup_textDoc (weightedNames_apart weighted).1
  have unnumbered : ∀ name ∈ weightedNames, ∀ q,
      (textDoc mapping row).lookup name ≠ some (.num q) := by
    intro name weighted q h
    rw [text name weighted, Option.map_eq_some_iff] at h
    obtain ⟨_, _, heq⟩ := h
    cases heq
  have free : Free weightedNames (textDoc mapping row) ↔
      ∀ name ∈ weightedNames, name ∉ mapping := by
    refine forall₂_congr fun name weighted => ?_
    rw [text name weighted, Option.map_eq_none_iff, AList.lookup_eq_none]
  rw [alone]
  cases weighing opts.schema (generatedDoc mapping row risk) with
  | nothing => rw [Alike, free, and_comm]
  | scalar weight value =>
    refine iff_of_false (fun alike => ?_) (fun plain => Weighing.noConfusion plain.1)
    exact unnumbered _ List.mem_cons_self _ alike.2
  | tenors legs =>
    refine iff_of_false (fun alike => ?_) (fun plain => Weighing.noConfusion plain.1)
    exact unnumbered _ List.mem_cons_self _ alike.2.1
  | shocks => exact iff_of_false (fun alike => alike) (fun plain => Weighing.noConfusion plain.1)

end Uploaded

section File
variable {opts : ConsumerOptions} {mapping : ColumnMapping} {risk : MappedField}

/-- An entry with an id is stored as the enriched overlay of its payload. -/
theorem prepare_of_routed {entry : Entry} {fields : List (String × String)}
    (hfields : entry.fields = some fields) {id : String}
    (routed : routedId (ofPairs fields) = some id) :
    prepare opts entry = (buildDoc (ofPairs fields)).map fun doc =>
      .row ⟨entry.entryId, buildKey id, enrichDoc doc opts.schema⟩ := by
  simp only [prepare, hfields, Option.bind_eq_bind, Option.bind_some, routed]
  cases buildDoc (ofPairs fields) <;> rfl

theorem prepare_of_unrouted {entry : Entry} {fields : List (String × String)}
    (hfields : entry.fields = some fields) (unrouted : routedId (ofPairs fields) = none) :
    prepare opts entry = some (.malformed entry.entryId) := by
  simp only [prepare, hfields, Option.bind_eq_bind, Option.bind_some, unrouted]

def someEntry (fields : List (String × String)) : Entry where
  entryId := ⟨"0-0", by decide⟩
  fields := some fields

/-- A row is charged exactly when it has an id and what it sends weighs the
same, or when it is never acknowledged. -/
theorem charged_row_iff (bound : mapping.lookup "risk_value" = some risk) (row : SourceRow) :
    Charged opts (entryFields mapping row) (generatedDoc mapping row risk) ↔
      Restored opts mapping row risk := by
  rw [charged_iff]
  cases routed : routedId (ofPairs (entryFields mapping row)) with
  | none =>
    have fails : ¬ Restored opts mapping row risk := by
      unfold Restored
      split
      · rintro ⟨h, _⟩
        rw [routed] at h
        cases h
      · split
        · rintro ⟨h, _⟩
          rw [routed] at h
          cases h
        · rintro ⟨h, _⟩
          rw [routed] at h
          cases h
    refine iff_of_false (fun charged => ?_) fails
    obtain ⟨r, hr, _⟩ := charged (someEntry (entryFields mapping row)) rfl _
      (prepare_of_unrouted rfl routed)
    cases hr
  | some id =>
    have built : (∀ entry : Entry, entry.fields = some (entryFields mapping row) → ∀ p,
        prepare opts entry = some p → ∃ r, p = .row r ∧
          SameWeights r.doc (enrichDoc (generatedDoc mapping row risk) opts.schema)) ↔
        ∀ doc, buildDoc (ofPairs (entryFields mapping row)) = some doc →
          SameWeights (enrichDoc doc opts.schema)
            (enrichDoc (generatedDoc mapping row risk) opts.schema) := by
      constructor
      · intro rows doc hdoc
        obtain ⟨r, hr, same⟩ := rows (someEntry (entryFields mapping row)) rfl _
          (by rw [prepare_of_routed rfl routed, hdoc]; rfl)
        cases hr
        exact same
      · intro docs entry hfields p hp
        rw [prepare_of_routed hfields routed] at hp
        obtain ⟨doc, hdoc, rfl⟩ := Option.map_eq_some_iff.mp hp
        exact ⟨_, rfl, docs doc hdoc⟩
    have plain : SameWeights (enrichDoc (textDoc mapping row) opts.schema)
        (enrichDoc (generatedDoc mapping row risk) opts.schema) ↔
        PlainRow opts mapping row risk := by
      rw [sameWeights_textDoc_iff bound, PlainRow, routed]
      exact (and_iff_right rfl).symm
    have laid := fun ps => @sameWeights_overlay_iff opts mapping row risk ps
    rw [built]
    unfold Restored buildDoc parsedPayload
    cases hpayload : (ofPairs (entryFields mapping row)).lookup "payload" with
    | none =>
      simp only [Option.map_some, Option.some.injEq, forall_eq']
      exact plain
    | some payload =>
      by_cases empty : payload = ""
      · simp only [if_pos empty, Option.map_some, Option.some.injEq, forall_eq']
        exact plain
      · simp only [if_neg empty, Option.map_eq_some_iff, PayloadRow, routed, Option.isSome_some,
          true_and, forall_exists_index, and_imp, forall_apply_eq_imp_iff₂, ← laid]
        rfl

end File

section Samples

def spotColumn : MappedField := ⟨.one "spot", some .number⟩

/-- The mapping that inference proposes for a file of spot sensitivities. -/
def spotMapping : ColumnMapping :=
  ofPairs [("risk_class", ⟨.one "class", none⟩), ("bucket", ⟨.one "pair", none⟩),
    ("sensitivity_type", ⟨.one "leg", none⟩), ("risk_value", spotColumn)]

def spotRow : SourceRow :=
  ofPairs [("class", "FX"), ("pair", "EURUSD"), ("leg", "Delta"), ("spot", "10")]

end Samples

end SourceUpload
