import Frtb.RqeIndex
import Frtb.SlimAgreement

/-!
# Field names from writer to index to query

Four places build the name of a field from the class, the leg and the tenor label:
the two writers of a row, the two index definitions, and the query with its
aggregation. Here the names that a query refers to are matched against the fields of
the index and against what is written of a row.
-/

namespace FieldNames

open AssocMaps EnrichDoc RedisStore StorageWriter ApplyExpr FastPath HashLayout SlimWriter RqeIndex

section Query

/-- The filters of a request; `included` and `excluded` are keyed by field. -/
structure Filters where
  bucketSubset : List String
  included : Assoc String (List String)
  excluded : Assoc String (List String)

/-- One `@field:(v|w)` of the query. -/
structure TagClause where
  negated : Bool
  field : String
  values : List String

def includeKeys : List String := ["book", "trade_id", "desk", "bucket"]

def excludeKeys : List String := ["book", "trade_id", "risk_factor", "desk", "bucket"]

def filterClauses (negated : Bool) (keys : List String) (lists : Assoc String (List String)) :
    List TagClause :=
  keys.filterMap fun key =>
    match lists.lookup key with
    | some (v :: vs) => some ⟨negated, key, v :: vs⟩
    | _ => none

def queryClauses (riskClass sensitivityType : String) (filters : Filters) : List TagClause :=
  [⟨false, "risk_class", [riskClass]⟩, ⟨false, "sensitivity_type", [sensitivityType]⟩] ++
    (if filters.bucketSubset = [] then [] else [⟨false, "bucket", filters.bucketSubset⟩]) ++
    filterClauses false includeKeys filters.included ++
    filterClauses true excludeKeys filters.excluded

/-- The characters that a TAG value is escaped at: white space and punctuation. -/
def tagSpecials : List Char :=
  ",.<>\x7b\x7d[]\x22\x27:;!@#$%^&*()-+=~|/?".toList ++
    ([9, 10, 11, 12, 13, 32, 0xa0, 0x1680, 0x2000, 0x2001, 0x2002, 0x2003, 0x2004, 0x2005, 0x2006,
      0x2007, 0x2008, 0x2009, 0x200a, 0x2028, 0x2029, 0x202f, 0x205f, 0x3000,
        0xfeff].map Char.ofNat)

def escapeTag (v : String) : String :=
  String.ofList (v.toList.flatMap fun c => if c ∈ tagSpecials then ['\\', c] else [c])

def TagClause.text (clause : TagClause) : String :=
  (if clause.negated then "-@" else "@") ++ clause.field ++ ":\x7b" ++
    String.intercalate "|" (clause.values.map escapeTag) ++ "\x7d"

def buildFastPathQuery (riskClass sensitivityType : String) (filters : Filters) : String :=
  String.intercalate " " ((queryClauses riskClass sensitivityType filters).map TagClause.text)

/-- The index field behind a token of an expression. -/
def tokenField : Tok Name → Option String
  | .ref (.field f) => some f
  | _ => none

/-- The numeric fields that the aggregation refers to, in its LOAD and APPLY clauses. -/
def numericRefs (args : AggregateArgs) : List String :=
  args.load ++ args.apply.flatMap fun clause => clause.1.filterMap tokenField

/-- The TAG fields that the query and its GROUPBY refer to. -/
def tagRefs (riskClass sensitivityType : String) (filters : Filters) : List String :=
  "bucket" :: (queryClauses riskClass sensitivityType filters).map TagClause.field

end Query

section Sides

/-- Weighted fields in the fat index, raw ones in the slim index of the lazy path. -/
inductive Side where
  | fat
  | slim

def Side.initials : Side → String
  | .fat => "ws"
  | .slim => "s"

def Side.legFields [Casing] : Side → CalcSchema → String → FastLeg → LegFields
  | .fat => resolveLegFields
  | .slim => resolveSlimLegFields

def Side.schemaFields [Casing] : Side → Schema → List IndexField
  | .fat => buildSchemaFields
  | .slim => buildSlimSchemaFields

/-- The command that creates the index of the side. -/
def Side.createArgs [Casing] : Side → Schema → List String
  | .fat => buildCreateArgs
  | .slim => buildSlimCreateArgs

/-- The fields that the writer of the side stores of a row. -/
def Side.written [Casing] : Side → Schema → Row → List String
  | .fat, schema, row => (flattenDocForHash (enrichDoc row.doc (some schema))).map Prod.fst
  | .slim, schema, row => (rowToHashFields row (some (buildTenorsByClass schema))).map Prod.fst

/-- The path that a command declares under a name: the word before `AS` and the name. -/
def declaredPath : List String → String → Option String
  | path :: mark :: called :: rest, name =>
    if mark = "AS" ∧ called = name then some path else declaredPath (mark :: called :: rest) name
  | _, _ => none

/-- The number a row has for a leg and label: a number or `spot` alone without a label; a member
under its label; an item of an array under the label of the row's list, or of the tenor nodes where
it has none; of curvature arrays under the tenor nodes. -/
def carried (row : Row) (nodes : List String) (root : String) (label : Option String) : Option ℚ :=
  match row.riskValue with
  | .members m =>
    if row.sensitivityType = .curvature then row.cell [] nodes root label
    else if root = scalarRoot row.sensitivityType then label.elim (spotMember m) m.lookup
    else none
  | _ => row.cell (row.listed.getD nodes) nodes root label

/-- The legs and labels behind the fields of a leg. -/
def legCells (schema : CalcSchema) (rc : String) (leg : FastLeg) : List (String × Option String) :=
  let labels := if isPerTenor schema rc then (tenorNodesOf schema rc).map some else [none]
  match leg with
  | .delta => labels.map ("delta", ·)
  | .vega => labels.map ("vega", ·)
  | .curvature => labels.map ("cvr_up", ·) ++ labels.map ("cvr_down", ·)

/-- The name under which the query looks for a leg and label. -/
def queryName [Casing] (side : Side) (rc : String) (cell : String × Option String) : String :=
  fieldFor side.initials (lowerCase rc) cell.1 (cell.2.getD "")

/-- Every field that a query of the side refers to is declared, and is written for the rows that
have a value for it. -/
def NamesAgree [Casing] (side : Side) (schema : CalcSchema) : Prop :=
  ∀ className ∈ schema.riskClasses.keys, ∀ (leg : FastLeg) (searchVer : ℕ) (weights : LegWeights)
    (filters : Filters),
    let rc := upperCase className
    let fields := side.legFields schema rc leg
    let rows := fun row : Row =>
      row.riskClass = className ∧ row.sensitivityType.text = fields.sensitivityType
    (∀ name ∈ numericRefs (buildFastPathAggregateArgs fields searchVer weights),
      ∃ path, declaredPath (side.createArgs schema.toSchema) name = some path ∧
        ∀ row, rows row → ∀ cell ∈ legCells schema rc leg, queryName side rc cell = name →
          carried row (tenorNodesOf schema className) cell.1 cell.2 ≠ none →
            path ∈ side.written schema.toSchema row) ∧
      ∀ name ∈ tagRefs className fields.sensitivityType filters,
        ∃ path, declaredPath (side.createArgs schema.toSchema) name = some path ∧
          ∀ row, rows row → row.tag name ≠ none → path ∈ side.written schema.toSchema row

end Sides

section References

variable {side : Side} {schema : CalcSchema} {rc : String} {leg : FastLeg}

/-- The fields of a leg are named after its legs and labels. -/
theorem legFields_names [Casing] :
    let fields := side.legFields schema rc leg
    fields.delta ++ fields.vega ++ fields.cvrUp ++ fields.cvrDown =
      (legCells schema rc leg).map (queryName side rc) := by
  have tenors : ∀ root, (fieldTenors schema rc).map (fieldFor side.initials (lowerCase rc) root) =
      ((if isPerTenor schema rc then (tenorNodesOf schema rc).map some else [none]).map
        (root, ·)).map (queryName side rc) := by
    intro root
    unfold fieldTenors
    split
    · simp only [List.map_map]
      rfl
    · rfl
  cases side <;> cases leg <;>
    simp only [Side.legFields, resolveLegFields, resolveSlimLegFields, resolveLegFieldsForPrefix,
      legCells, List.map_append, List.append_nil, List.nil_append, ← tenors, Side.initials]

theorem tokenField_safeExpr {f g : String} {multiplier : ℚ} {searchVer : ℕ}
    (mem : g ∈ (safeExpr f multiplier searchVer).filterMap tokenField) : g = f := by
  have coerced : ∀ g, g ∈ (nullCoerceApplyExpr f searchVer).filterMap tokenField → g = f := by
    intro g mem
    unfold nullCoerceApplyExpr at mem
    split at mem <;> simpa [tokenField, eq_comm] using mem
  unfold safeExpr at mem
  dsimp only at mem
  split at mem
  · exact coerced g mem
  · simp only [paren, List.filterMap_append, List.filterMap_cons, tokenField, List.filterMap_nil,
      List.append_nil] at mem
    exact coerced g mem

/-- An aggregation refers to the fields it is given and to no others. -/
theorem mem_numericRefs {fields : LegFields} {searchVer : ℕ} {weights : LegWeights} {name : String}
    (mem : name ∈ numericRefs (buildFastPathAggregateArgs fields searchVer weights)) :
    name ∈ fields.delta ++ fields.vega ++ fields.cvrUp ++ fields.cvrDown := by
  have leg : ∀ (clauses : String → ℚ → AggregateArgs) (roots : List String) (w : Option WeightSpec),
      (∀ f q, name ∈ numericRefs (clauses f q) → name = f) →
      ∀ part ∈ legClauses clauses roots w, name ∈ numericRefs part → name ∈ roots := by
    intro clauses roots w own part among refs
    obtain ⟨p, zipped, rfl⟩ := List.mem_map.mp among
    rw [own _ _ refs]
    exact (List.of_mem_zip zipped).1
  have numeric : ∀ pre f q, name ∈ numericRefs (numericClauses pre searchVer f q) → name = f := by
    intro pre f q refs
    simp only [numericRefs, numericClauses, List.flatMap_cons, List.flatMap_nil, List.append_nil,
      List.mem_append, List.mem_singleton] at refs
    rcases refs with rfl | safe | square
    · rfl
    · exact tokenField_safeExpr safe
    · simp [squareExpr, tokenField] at square
  have curvature : ∀ pre f q, name ∈ numericRefs (curvatureClauses pre searchVer f q) →
      name = f := by
    intro pre f q refs
    simp only [numericRefs, curvatureClauses, List.flatMap_cons, List.flatMap_nil, List.append_nil,
      List.mem_append, List.mem_singleton] at refs
    rcases refs with rfl | safe | negative | square | negativeSquare
    · rfl
    · exact tokenField_safeExpr safe
    · simp [negativeExpr, tokenField] at negative
    · simp [squareExpr, tokenField] at square
    · simp [negativeSquareExpr, negativeExpr, paren, tokenField] at negativeSquare
  have joined : ∀ parts : List AggregateArgs, name ∈ numericRefs (joinClauses parts) →
      ∃ part ∈ parts, name ∈ numericRefs part := by
    intro parts refs
    simp only [numericRefs, joinClauses, List.mem_append, List.mem_eraseDups,
      List.mem_flatMap] at refs
    rcases refs with ⟨part, among, load⟩ | ⟨clause, ⟨part, among, own⟩, token⟩
    · exact ⟨part, among, List.mem_append_left _ load⟩
    · exact ⟨part, among, List.mem_append_right _ (List.mem_flatMap.mpr ⟨clause, own, token⟩)⟩
  obtain ⟨part, among, refs⟩ := joined _ mem
  simp only [List.mem_append] at among ⊢
  rcases among with ((delta | vega) | up) | down
  · exact .inl (.inl (.inl (leg _ _ _ (numeric _) part delta refs)))
  · exact .inl (.inl (.inr (leg _ _ _ (numeric _) part vega refs)))
  · exact .inl (.inr (leg _ _ _ (curvature _) part up refs))
  · exact .inr (leg _ _ _ (curvature _) part down refs)

/-- Without weights, every field of a Delta or Vega leg is loaded. -/
theorem loaded_delta {fields : LegFields} {name : String} (mem : name ∈ fields.delta) :
    name ∈ numericRefs (buildFastPathAggregateArgs fields 0 noWeights) := by
  refine List.mem_append_left _ (List.mem_eraseDups.mpr (List.mem_flatMap.mpr
    ⟨numericClauses .d 0 name 1, ?_, List.mem_singleton_self name⟩))
  simp only [List.mem_append]
  refine .inl (.inl (.inl (List.mem_map.mpr ⟨(name, 1), ?_, rfl⟩)))
  obtain ⟨i, at_i⟩ := List.getElem?_of_mem mem
  refine List.mem_of_getElem? (i := i) (List.getElem?_zip_eq_some.mpr ⟨at_i, ?_⟩)
  rw [noWeights, applyMultipliers, List.getElem?_map, at_i]
  rfl

end References

section Declared

variable {side : Side} {schema : CalcSchema}

/-- In front of another word than `AS`, a word declares nothing. -/
theorem declaredPath_cons (word : String) {words : List String} (name : String)
    (next : words.head? ≠ some "AS") :
    declaredPath (word :: words) name = declaredPath words name := by
  cases words with
  | nil => rfl
  | cons mark words =>
    cases words with
    | nil => rfl
    | cons called words =>
      rw [declaredPath, if_neg]
      rintro ⟨rfl, _⟩
      exact next rfl

theorem declaredPath_append {before words : List String} (name : String) (plain : "AS" ∉ before)
    (next : words.head? ≠ some "AS") :
    declaredPath (before ++ words) name = declaredPath words name := by
  induction before with
  | nil => rfl
  | cons word before ih =>
    have later : "AS" ∉ before := fun mark => plain (List.mem_cons_of_mem word mark)
    rw [List.cons_append, declaredPath_cons _ _ ?_, ih later]
    cases before with
    | nil => exact next
    | cons first before =>
      intro mark
      exact later (Option.some.inj mark ▸ List.mem_cons_self)

/-- A field whose words are all other than `AS`, declared under its own path. -/
def Plain (f : IndexField) : Prop :=
  f.path = f.as ∧ "AS" ∉ [f.path, f.as, f.type]

theorem head_fields {fields : List IndexField} (plain : ∀ f ∈ fields, Plain f) :
    (fields.flatMap IndexField.args).head? ≠ some "AS" := by
  cases fields with
  | nil => exact (Option.some_ne_none _).symm
  | cons f fields =>
    intro mark
    exact (plain f List.mem_cons_self).2 (Option.some.inj mark ▸ List.mem_cons_self)

/-- Plain fields are found under their names. -/
theorem declaredPath_fields {fields : List IndexField} (name : String)
    (plain : ∀ f ∈ fields, Plain f) :
    declaredPath (fields.flatMap IndexField.args) name =
      (fields.find? fun f => f.as = name).map IndexField.path := by
  induction fields with
  | nil => rfl
  | cons f fields ih =>
    have others : ∀ g ∈ fields, Plain g := fun g mem => plain g (List.mem_cons_of_mem f mem)
    have words := (plain f List.mem_cons_self).2
    simp only [List.mem_cons, List.not_mem_nil, or_false, not_or] at words
    rw [List.flatMap_cons, IndexField.args, List.append_assoc]
    simp only [List.cons_append, List.nil_append, declaredPath, true_and]
    by_cases same : f.as = name
    · rw [if_pos same, List.find?_cons_of_pos (by simpa using same)]
      rfl
    · have rest : "AS" ∉ f.as :: f.type :: if f.sortable then ["SORTABLE"] else [] := by
        cases f.sortable <;> simp [words]
      rw [if_neg same, List.find?_cons_of_neg (by simpa using same), ← ih others,
        ← declaredPath_append name rest (head_fields others)]
      rw [if_neg fun mark => words.2.1 mark.1.symm]
      rfl

theorem fields_plain [Casing] : ∀ f ∈ side.schemaFields schema.toSchema, Plain f := by
  have legs : ∀ pre, (∀ rest, "AS" ≠ pre ++ rest) →
      ∀ f ∈ legFields pre schema.toSchema, Plain f := by
    intro pre apart f mem
    obtain ⟨p, _, own⟩ := List.mem_flatMap.mp mem
    obtain ⟨g, _, rfl⟩ := List.mem_map.mp own
    exact ⟨rfl, by simp [numericField, apart]⟩
  have weighted : ∀ rest, "AS" ≠ "ws_" ++ rest := by
    intro rest same
    simpa using congrArg String.toList same
  have raw : ∀ rest, "AS" ≠ "s_" ++ rest := by
    intro rest same
    simpa using congrArg String.toList same
  have tags : (∀ f ∈ idxSchemaFields, f.path = f.as ∧ "AS" ∉ [f.path, f.as, f.type]) ∧
      ∀ f ∈ idxSlimSchemaFields, f.path = f.as ∧ "AS" ∉ [f.path, f.as, f.type] := by decide
  intro f mem
  cases side with
  | fat => exact (List.mem_append.mp mem).elim (tags.1 f) (legs _ weighted f)
  | slim => exact (List.mem_append.mp mem).elim (tags.2 f) (legs _ raw f)

theorem declaredPath_command {index : String} {fields : List IndexField} (name : String)
    (other : "AS" ≠ index) (plain : ∀ f ∈ fields, Plain f) :
    declaredPath (index :: createHead ++ fields.flatMap IndexField.args) name =
      (fields.find? fun f => f.as = name).map IndexField.path := by
  have head : "AS" ∉ createHead := by decide
  rw [declaredPath_append name (List.not_mem_cons_of_ne_of_not_mem other head) (head_fields plain),
    declaredPath_fields name plain]

/-- The command declares the fields of the index. -/
theorem declaredPath_createArgs [Casing] (name : String) :
    declaredPath (side.createArgs schema.toSchema) name =
      ((side.schemaFields schema.toSchema).find? fun f => f.as = name).map IndexField.path := by
  have plain : ∀ f ∈ side.schemaFields schema.toSchema, Plain f := fields_plain
  cases side with
  | fat => exact declaredPath_command name (by decide) plain
  | slim => exact declaredPath_command name (by decide) plain

/-- The path of a declared name is the name. -/
theorem declaredPath_eq_some_iff [Casing] {name path : String} :
    declaredPath (side.createArgs schema.toSchema) name = some path ↔
      path = name ∧ ∃ f ∈ side.schemaFields schema.toSchema, f.as = name := by
  rw [declaredPath_createArgs, Option.map_eq_some_iff]
  constructor
  · rintro ⟨f, found, rfl⟩
    have mem := List.mem_of_find?_eq_some found
    have named : f.as = name := by simpa using List.find?_some found
    exact ⟨(fields_plain f mem).1.trans named, f, mem, named⟩
  · rintro ⟨rfl, f, mem, named⟩
    obtain ⟨g, found⟩ := Option.isSome_iff_exists.mp
      (List.find?_isSome.mpr ⟨f, mem, by simpa using named⟩ :
        ((side.schemaFields schema.toSchema).find? fun f => f.as = path).isSome)
    refine ⟨g, found, ?_⟩
    rw [(fields_plain g (List.mem_of_find?_eq_some found)).1]
    simpa using List.find?_some found

theorem tag_declared [Casing] {name : String} (tag : name ∈ tagFields) :
    declaredPath (side.createArgs schema.toSchema) name = some name := by
  have both : (∀ k ∈ tagFields, tagField k ∈ idxSchemaFields) ∧
      ∀ k ∈ tagFields, tagField k ∈ idxSlimSchemaFields := by decide
  refine declaredPath_eq_some_iff.mpr ⟨rfl, tagField name, ?_, rfl⟩
  cases side with
  | fat => exact List.mem_append_left _ (both.1 name tag)
  | slim => exact List.mem_append_left _ (both.2 name tag)

/-- The fields of a class are declared under the initials of the side. -/
theorem leg_declared [Casing] {className : String} {cfg : RiskClassConfig}
    {f : String × Option String}
    (found : schema.riskClasses.lookup className = some cfg)
    (own : f ∈ SlimWriter.schemaFields className cfg) :
    declaredPath (side.createArgs schema.toSchema)
        (side.initials ++ "_" ++ legName (lowerCase className) f.1 f.2) =
      some (side.initials ++ "_" ++ legName (lowerCase className) f.1 f.2) := by
  have leg : ∀ pre, numericField (pre ++ legName (lowerCase className) f.1 f.2) ∈
      legFields pre schema.toSchema := by
    intro pre
    exact List.mem_flatMap.mpr ⟨(className, cfg), (mem_pairs _ _ _).mpr found,
      List.mem_map_of_mem own⟩
  refine declaredPath_eq_some_iff.mpr ⟨rfl, numericField _, ?_, rfl⟩
  cases side with
  | fat => exact List.mem_append_right _ (leg "ws_")
  | slim => exact List.mem_append_right _ (leg "s_")

end Declared

section Written

variable {schema : Schema} {row : Row} {cfg : RiskClassConfig} {root : String}
  {label : Option String}

/-- Ingest writes a weighted field for each number it reads. -/
theorem fat_written_iff [Casing] (found : row.classIn schema = some cfg) (known : root ∈ wsLegs) :
    "ws_" ++ legName (lowerCase row.riskClass) root label ∈ Side.fat.written schema row ↔
      row.ingestCell cfg root label ≠ none := by
  have read : (ofPairs (weightArgs (enrichDoc row.doc (some schema)))).lookup
      ("ws_" ++ legName (lowerCase row.riskClass) root label) =
      ((row.ingestCell cfg root label).map (row.weight schema cfg label * ·)).map shownNum := by
    by_cases own : row.sensitivityType = .curvature
    · exact lookup_ingest_curvature found (classIn_present found) own known
    · exact lookup_ingest_scalar found (classIn_present found) own known
  rw [Side.written, ← lookup_ofPairs_isSome, lookup_flatten_weight (isWeightField_ws _), read,
    Option.isSome_map, Option.isSome_map, Option.isSome_iff_ne_none]

theorem mem_padZeros (args : List (String × Stored)) (names : List String) (name : String) :
    name ∈ (padZeros args names).map Prod.fst ↔ name ∈ args.map Prod.fst ∨ name ∈ names := by
  unfold padZeros
  induction names generalizing args with
  | nil => simp
  | cons n names ih =>
    rw [List.foldl_cons, ih]
    split
    · rename_i there
      rw [List.mem_cons]
      constructor
      · rintro (old | later)
        · exact .inl old
        · exact .inr (.inr later)
      · rintro (old | rfl | later)
        · exact .inl old
        · exact .inl there
        · exact .inr later
    · simp only [List.map_append, List.map_cons, List.map_nil, List.mem_append, List.mem_cons,
        List.not_mem_nil, or_false, or_assoc]

theorem slimTagArgs_ne_nil [Casing] (row : Row) : 0 < (slimTagArgs row ++ rawArgs row).length := by
  have first : slimTagArgs row = ("risk_class", .shown (.str row.riskClass)) ::
      (tagFields.tail.filterMap fun k => (row.tag k).map fun v => (k, Stored.shown (.str v))) := rfl
  rw [first]
  exact Nat.succ_pos _

/-- The tenor nodes that the slim writer pads a row with. -/
def padNodes [Casing] (schema : Schema) (row : Row) : List String :=
  ((buildTenorsByClass schema).lookup (upperCase row.riskClass)).getD []

/-- The slim writer pads the legs of the row's type at the nodes of its class. -/
theorem rowToHashFields_eq [Casing] (row : Row) :
    rowToHashFields row (some (buildTenorsByClass schema)) =
      padZeros (slimTagArgs row ++ rawArgs row)
        ((padLegs row.sensitivityType).flatMap fun leg =>
          (padNodes schema row).map fun t => slimField (lowerCase row.riskClass) leg (some t)) := by
  have bare : ∀ legs : List String, ∀ f : String → String → String,
      (legs.flatMap fun leg => ([] : List String).map (f leg)) = [] := by
    intro legs f
    simp only [List.map_nil, List.flatMap_eq_nil_iff, implies_true]
  rw [rowToHashFields, Option.bind_some, padNodes]
  cases (buildTenorsByClass schema).lookup (upperCase row.riskClass) with
  | none =>
    rw [Option.getD_none, bare _ fun leg t => slimField (lowerCase row.riskClass) leg (some t)]; rfl
  | some tenors =>
    dsimp only
    rw [Option.getD_some]
    split
    · rfl
    · rename_i short
      have empty : tenors = [] := by
        by_contra full
        exact short ⟨slimTagArgs_ne_nil row, List.length_pos_iff.mpr full⟩
      rw [empty, bare _ fun leg t => slimField (lowerCase row.riskClass) leg (some t)]
      rfl

theorem slim_written [Casing] (row : Row) :
    Side.slim.written schema row = (padZeros (slimTagArgs row ++ rawArgs row)
      ((padLegs row.sensitivityType).flatMap fun leg =>
        (padNodes schema row).map fun t => slimField (lowerCase row.riskClass) leg (some t))).map
          Prod.fst := by
  rw [Side.written, rowToHashFields_eq]

theorem known_of_padLegs {sens : SensitivityType} {leg : String} (padded : leg ∈ padLegs sens) :
    leg ∈ wsLegs := by
  have all : ∀ sens, ∀ leg ∈ padLegs sens, leg ∈ wsLegs := by
    intro sens
    cases sens <;> decide
  exact all sens leg padded

/-- The names that the slim writer pads. -/
theorem mem_padFields {sens : SensitivityType} {lower : String} {nodes : List String}
    (known : root ∈ wsLegs) :
    slimField lower root label ∈
        ((padLegs sens).flatMap fun leg => nodes.map fun t => slimField lower leg (some t)) ↔
      root ∈ padLegs sens ∧ ∃ t ∈ nodes, label = some t := by
  simp only [List.mem_flatMap, List.mem_map, slimField, append_left_cancel_iff]
  constructor
  · rintro ⟨leg, padded, t, node, same⟩
    obtain ⟨rfl, rfl⟩ := legName_inj (known_of_padLegs padded) known same
    exact ⟨padded, t, node, rfl⟩
  · rintro ⟨padded, t, node, rfl⟩
    exact ⟨root, padded, t, node, rfl⟩

/-- The slim writer writes a raw field for each number it reads, and for each node it pads. -/
theorem slim_written_iff [Casing] (known : root ∈ wsLegs) :
    "s_" ++ legName (lowerCase row.riskClass) root label ∈ Side.slim.written schema row ↔
      row.slimCell root label ≠ none ∨
        root ∈ padLegs row.sensitivityType ∧ ∃ t ∈ padNodes schema row, label = some t := by
  rw [slim_written, mem_padZeros]
  refine or_congr ?_ ?_
  · rw [← lookup_ofPairs_isSome, lookup_slim, ← slimField, lookup_rawArgs row known,
      Option.isSome_map, Option.isSome_iff_ne_none]
  · exact mem_padFields known

theorem upperCase_girr [Casing] : upperCase "GIRR" = "GIRR" :=
  (upperCase_ascii (by simp)).trans (by decide)

theorem padNodes_eq [Casing] (schema : CalcSchema) (row : Row) :
    padNodes schema.toSchema row =
      if upperCase row.riskClass = "GIRR" then tenorNodesOf schema "GIRR" else [] := by
  unfold padNodes buildTenorsByClass slimPerTenorClasses tenorNodesOf
  simp only [List.foldl_cons, List.foldl_nil, upperCase_girr]
  cases (schema.riskClasses.lookup "GIRR").bind RiskClassConfig.tenorNodes with
  | none => simp
  | some nodes =>
    cases nodes with
    | nil => simp
    | cons node nodes =>
      dsimp only
      rw [if_pos (show (node :: nodes).length > 0 from Nat.succ_pos _)]
      by_cases girr : upperCase row.riskClass = "GIRR"
      · rw [girr, AList.lookup_insert, if_pos rfl]
      · rw [AList.lookup_insert_ne girr, if_neg girr]
        rfl

theorem tag_written [Casing] (side : Side) {name : String} (tag : name ∈ tagFields)
    (present : row.tag name ≠ none) : name ∈ side.written schema row := by
  obtain ⟨v, value⟩ := Option.ne_none_iff_exists'.mp present
  cases side with
  | slim =>
    rw [slim_written, mem_padZeros, List.map_append]
    refine .inl (List.mem_append_left _ (List.mem_map.mpr ⟨(name, .shown (.str v)), ?_, rfl⟩))
    exact List.mem_filterMap.mpr ⟨name, tag, by rw [value]; rfl⟩
  | fat =>
    have apart : ∀ k ∈ tagFields, k ∉ weightedNames ∧ k ≠ "_calibration" ∧ k ∈ hashTagFields := by
      decide
    have kept : (enrichDoc row.doc (some schema)).lookup name = some (.str v) := by
      refine enrichDoc_keeps (P := fun d => d.lookup name = some (.str v)) ?_ ?_
      · rw [AList.lookup_insert_ne (apart name tag).2.1, lookup_doc_tag tag, value]
        rfl
      · intro d other w keep listed
        rw [AList.lookup_insert_ne fun same : name = other =>
          (apart name tag).1 (by rw [same]; exact listed),
          keep]
    rw [Side.written, flattenDocForHash, List.map_append]
    refine List.mem_append_left _ (List.mem_map.mpr ⟨(name, .shown (.str v)), ?_, rfl⟩)
    refine List.mem_filterMap.mpr ⟨name, (apart name tag).2.2, ?_⟩
    rw [tagValue, kept]
    rfl

end Written

section Agreement

variable {schema : CalcSchema} {row : Row}

/-- The name of a cell is the writers' name for the folded class, unless its label is empty. -/
theorem queryName_eq [Casing] (side : Side) (rc : String) {cell : String × Option String}
    (labelled : cell.2 ≠ some "") :
    queryName side rc cell = side.initials ++ "_" ++ legName (lowerCase rc) cell.1 cell.2 := by
  obtain ⟨root, label⟩ := cell
  rw [queryName, fieldFor, legName]
  cases label with
  | none => simp [String.append_assoc]
  | some t =>
    have full : t ≠ "" := fun empty => labelled (congrArg some empty)
    simp [full, String.append_assoc]

/-- The tag fields that a query refers to. -/
theorem mem_tagFields_of_tagRefs {riskClass sens name : String} {filters : Filters}
    (mem : name ∈ tagRefs riskClass sens filters) : name ∈ tagFields := by
  have clauses : ∀ negated keys lists, (∀ k ∈ keys, k ∈ tagFields) →
      ∀ clause ∈ filterClauses negated keys lists, clause.field ∈ tagFields := by
    intro negated keys lists known clause among
    obtain ⟨key, listed, made⟩ := List.mem_filterMap.mp among
    split at made
    · cases made
      exact known key listed
    · cases made
  rcases List.mem_cons.mp mem with rfl | own
  · decide
  · obtain ⟨clause, among, rfl⟩ := List.mem_map.mp own
    simp only [queryClauses, List.mem_append, List.mem_cons, List.not_mem_nil, or_false] at among
    rcases among with (((rfl | rfl) | subset) | included) | excluded
    · exact (by decide : "risk_class" ∈ tagFields)
    · exact (by decide : "sensitivity_type" ∈ tagFields)
    · split at subset
      · cases subset
      · rw [List.mem_singleton.mp subset]
        exact (by decide : "bucket" ∈ tagFields)
    · exact clauses _ _ _ (by decide) clause included
    · exact clauses _ _ _ (by decide) clause excluded

/-- Only a member labelled `spot` is read otherwise. -/
theorem carried_eq_cell (nodes : List String) (root : String) {label : Option String}
    (other : label ≠ some "spot") :
    carried row nodes root label = row.cell (row.listed.getD nodes) nodes root label := by
  unfold carried
  split
  · rename_i m shape
    unfold Row.cell
    rw [shape]
    dsimp only
    split
    · rfl
    · split
      · cases label with
        | none => cases spotMember m <;> rfl
        | some t =>
          simp only [Option.elim_some]
          cases spot : spotMember m with
          | none => rfl
          | some v =>
            have single : pairs m = [("spot", v)] := by
              unfold spotMember at spot
              split at spot
              · rename_i v' only
                rw [only, Option.some.inj spot]
              · cases spot
            rw [← lookup_ofPairs_pairs, single]
            rw [lookup_ofPairs_eq_none (by simpa using fun same => other (congrArg some same))]
            rfl
      · rfl
  · rfl

/-- A cell of a leg has the root of the leg, and a label when the class has tenors. -/
theorem legCells_cases {rc : String} {leg : FastLeg} {cell : String × Option String}
    (mem : cell ∈ legCells schema rc leg) :
    cell.1 ∈ wsLegs ∧
      ((isPerTenor schema rc = true ∧ ∃ t ∈ tenorNodesOf schema rc, cell.2 = some t) ∨
        (isPerTenor schema rc = false ∧ cell.2 = none)) := by
  have labels : ∀ root : String, ∀ cell ∈ (if isPerTenor schema rc then
      (tenorNodesOf schema rc).map some else [none]).map (root, ·), cell.1 = root ∧
        ((isPerTenor schema rc = true ∧ ∃ t ∈ tenorNodesOf schema rc, cell.2 = some t) ∨
          (isPerTenor schema rc = false ∧ cell.2 = none)) := by
    intro root cell mem
    obtain ⟨label, listed, rfl⟩ := List.mem_map.mp mem
    refine ⟨rfl, ?_⟩
    split at listed
    · rename_i perTenor
      obtain ⟨t, node, rfl⟩ := List.mem_map.mp listed
      exact .inl ⟨perTenor, t, node, rfl⟩
    · rename_i scalar
      exact .inr ⟨Bool.eq_false_iff.mpr scalar, List.mem_singleton.mp listed⟩
  cases leg with
  | delta =>
    obtain ⟨root, rest⟩ := labels _ cell mem
    exact ⟨root ▸ by decide, rest⟩
  | vega =>
    obtain ⟨root, rest⟩ := labels _ cell mem
    exact ⟨root ▸ by decide, rest⟩
  | curvature =>
    rcases List.mem_append.mp mem with up | down
    · obtain ⟨root, rest⟩ := labels _ cell up
      exact ⟨root ▸ by decide, rest⟩
    · obtain ⟨root, rest⟩ := labels _ cell down
      exact ⟨root ▸ by decide, rest⟩

theorem perTenor_girr {rc : String} (perTenor : isPerTenor schema rc = true) :
    rc = "GIRR" ∧ tenorNodesOf schema "GIRR" ≠ [] := by
  simp only [isPerTenor, perTenorClasses, Bool.and_eq_true, List.mem_singleton, decide_eq_true_eq,
    ne_eq] at perTenor
  obtain ⟨rfl, nodes⟩ := perTenor
  exact ⟨rfl, nodes⟩

theorem tenorNodesOf_found {className : String} {cfg : RiskClassConfig}
    (found : schema.riskClasses.lookup className = some cfg) :
    tenorNodesOf schema className = cfg.tenorNodes.getD [] := by
  rw [tenorNodesOf, found]
  rfl

/-- The condition: no class without a name, none that the query folds to another name, and no tenor
node without a name or called `spot`. -/
structure NamesClear [Casing] (schema : CalcSchema) : Prop where
  named : "" ∉ schema.riskClasses.keys
  folds : ∀ className ∈ schema.riskClasses.keys,
    lowerCase (upperCase className) = lowerCase className
  labelled : "" ∉ tenorNodesOf schema "GIRR"
  apart : "spot" ∉ tenorNodesOf schema "GIRR"

/-- The type of the rows behind a leg. -/
def legType : FastLeg → SensitivityType
  | .delta => .delta
  | .vega => .vega
  | .curvature => .curvature

theorem type_of_leg [Casing] {side : Side} {rc : String} {leg : FastLeg}
    (sens : row.sensitivityType.text = (side.legFields schema rc leg).sensitivityType) :
    row.sensitivityType = legType leg := by
  have type : (side.legFields schema rc leg).sensitivityType = (legType leg).text := by
    cases side <;> cases leg <;> rfl
  have inj : ∀ a b : SensitivityType, a.text = b.text → a = b := by
    intro a b
    cases a <;> cases b <;> decide
  exact inj _ _ (sens.trans type)

/-- The legs of a sensitivity type are those the slim writer pads. -/
theorem padded_of_legCells {rc : String} {leg : FastLeg} {cell : String × Option String}
    (mem : cell ∈ legCells schema rc leg) : cell.1 ∈ padLegs (legType leg) := by
  have roots : ∀ root : String, cell ∈ (if isPerTenor schema rc then
      (tenorNodesOf schema rc).map some else [none]).map (root, ·) → cell.1 = root := by
    intro root mem
    obtain ⟨_, _, rfl⟩ := List.mem_map.mp mem
    rfl
  cases leg with
  | delta => exact roots _ mem ▸ (by decide)
  | vega => exact roots _ mem ▸ (by decide)
  | curvature =>
    rcases List.mem_append.mp mem with up | down
    · exact roots _ up ▸ (by decide)
    · exact roots _ down ▸ (by decide)

/-- Under the condition no cell has an empty label or the label `spot`. -/
theorem label_clear [Casing] (clear : NamesClear schema) {rc : String} {leg : FastLeg}
    {cell : String × Option String} (mem : cell ∈ legCells schema rc leg) :
    cell.2 ≠ some "" ∧ cell.2 ≠ some "spot" := by
  rcases (legCells_cases mem).2 with ⟨perTenor, t, node, label⟩ | ⟨_, label⟩
  · obtain ⟨rfl, _⟩ := perTenor_girr perTenor
    rw [label]
    constructor
    · intro empty
      exact clear.labelled (Option.some.inj empty ▸ node)
    · intro spot
      exact clear.apart (Option.some.inj spot ▸ node)
  · rw [label]
    exact ⟨nofun, nofun⟩

/-- The field of a cell is declared. -/
theorem cell_declared [Casing] (side : Side) {className : String} {cfg : RiskClassConfig}
    (found : schema.riskClasses.lookup className = some cfg)
    (folds : lowerCase (upperCase className) = lowerCase className) {leg : FastLeg}
    {cell : String × Option String} (mem : cell ∈ legCells schema (upperCase className) leg) :
    declaredPath (side.createArgs schema.toSchema)
        (side.initials ++ "_" ++ legName (lowerCase className) cell.1 cell.2) =
      some (side.initials ++ "_" ++ legName (lowerCase className) cell.1 cell.2) := by
  obtain ⟨known, shape⟩ := legCells_cases mem
  obtain ⟨root, label⟩ := cell
  rcases shape with ⟨perTenor, t, node, rfl⟩ | ⟨scalar, rfl⟩
  · obtain ⟨girr, nodes⟩ := perTenor_girr perTenor
    rw [girr] at node
    have lower : lowerCase className = lowerCase "GIRR" := by rw [← folds, girr]
    rw [lower]
    cases own : schema.riskClasses.lookup "GIRR" with
    | none =>
      rw [tenorNodesOf, own] at nodes
      exact absurd rfl nodes
    | some girrCfg =>
      rw [tenorNodesOf_found own] at node nodes
      refine leg_declared (f := (root, some t)) own (List.mem_flatMap.mpr ⟨root, known, ?_⟩)
      rw [if_pos ⟨List.mem_singleton_self _, List.length_pos_iff.mpr nodes⟩]
      exact List.mem_map.mpr ⟨t, node, rfl⟩
  · refine leg_declared (f := (root, none)) found (List.mem_flatMap.mpr ⟨root, known, ?_⟩)
    rw [if_neg]
    · exact List.mem_singleton_self _
    · rintro ⟨girr, nodes⟩
      rw [perTenorClasses, List.mem_singleton] at girr
      subst girr
      rw [← tenorNodesOf_found found, gt_iff_lt, List.length_pos_iff] at nodes
      rw [upperCase_girr] at scalar
      simp [isPerTenor, perTenorClasses, nodes] at scalar

/-- The field of a cell is written for a row that has a value for it. -/
theorem cell_written [Casing] (side : Side) (clear : NamesClear schema) {className : String}
    {cfg : RiskClassConfig} (found : schema.riskClasses.lookup className = some cfg) {leg : FastLeg}
    {cell : String × Option String} (mem : cell ∈ legCells schema (upperCase className) leg)
    (own : row.riskClass = className)
    (sens : row.sensitivityType.text =
      (side.legFields schema (upperCase className) leg).sensitivityType)
    (value : carried row (tenorNodesOf schema className) cell.1 cell.2 ≠ none) :
    side.initials ++ "_" ++ legName (lowerCase className) cell.1 cell.2 ∈
      side.written schema.toSchema row := by
  obtain ⟨known, shape⟩ := legCells_cases mem
  rw [carried_eq_cell _ _ (label_clear clear mem).2, tenorNodesOf_found found] at value
  subst own
  cases side with
  | fat =>
    have named : row.riskClass ≠ "" := by
      intro empty
      rw [empty] at found
      exact clear.named (AList.lookup_isSome.mp (by rw [found]; rfl))
    have classed : row.classIn schema.toSchema = some cfg := by
      rw [Row.classIn, if_neg named]
      exact found
    exact (fat_written_iff classed known).mpr value
  | slim =>
    refine (slim_written_iff known).mpr ?_
    rcases shape with ⟨perTenor, t, node, label⟩ | ⟨_, label⟩
    · obtain ⟨girr, _⟩ := perTenor_girr perTenor
      refine .inr ⟨type_of_leg sens ▸ padded_of_legCells mem, t, ?_, label⟩
      rw [padNodes_eq, if_pos girr]
      rwa [girr] at node
    · rw [label] at value ⊢
      refine .inl ?_
      rw [cell_none row cfg cell.1]
      exact value

theorem namesAgree_of_clear [Casing] (side : Side) (clear : NamesClear schema) :
    NamesAgree side schema := by
  intro className key leg searchVer weights filters rc fields rows
  obtain ⟨cfg, found⟩ := Option.isSome_iff_exists.mp (AList.lookup_isSome.mpr key)
  constructor
  · intro name refs
    have cells := mem_numericRefs refs
    rw [legFields_names] at cells
    obtain ⟨cell, mem, rfl⟩ := List.mem_map.mp cells
    refine ⟨queryName side rc cell, ?_, ?_⟩
    · rw [queryName_eq side rc (label_clear clear mem).1, clear.folds className key]
      exact cell_declared side found (clear.folds className key) mem
    · rintro row ⟨own, sens⟩ other among same value
      rw [← same, queryName_eq side rc (label_clear clear among).1, clear.folds className key]
      exact cell_written side clear found among own sens value
  · intro name refs
    have tag := mem_tagFields_of_tagRefs refs
    exact ⟨name, tag_declared tag, fun row _ present => tag_written side tag present⟩

/-- A row without tags beyond the three that every row has. -/
def plainRow (riskClass : String) (value : SensitivityRiskValue) : Row :=
  ⟨"1", riskClass, "1", .delta, none, none, none, none, value, none⟩

/-- What agreement says of the Delta field of a cell and a plain row. -/
theorem plain_written [Casing] {side : Side} (agrees : NamesAgree side schema) {className : String}
    (key : className ∈ schema.riskClasses.keys) (value : SensitivityRiskValue)
    {label : Option String} (mem : ("delta", label) ∈ legCells schema (upperCase className) .delta)
    (present : carried (plainRow className value) (tenorNodesOf schema className) "delta" label ≠
      none) :
    queryName side (upperCase className) ("delta", label) ∈
      side.written schema.toSchema (plainRow className value) := by
  have field : queryName side (upperCase className) ("delta", label) ∈
      (side.legFields schema (upperCase className) .delta).delta := by
    have names : (side.legFields schema (upperCase className) .delta).delta ++
        (side.legFields schema (upperCase className) .delta).vega ++
        (side.legFields schema (upperCase className) .delta).cvrUp ++
        (side.legFields schema (upperCase className) .delta).cvrDown =
          (legCells schema (upperCase className) .delta).map
          (queryName side (upperCase className)) :=
      legFields_names
    have others : (side.legFields schema (upperCase className) .delta).vega = [] ∧
        (side.legFields schema (upperCase className) .delta).cvrUp = [] ∧
        (side.legFields schema (upperCase className) .delta).cvrDown = [] := by
      cases side <;> exact ⟨rfl, rfl, rfl⟩
    rw [others.1, others.2.1, others.2.2, List.append_nil, List.append_nil,
      List.append_nil] at names
    rw [names]
    exact List.mem_map_of_mem mem
  obtain ⟨path, declared, written⟩ := (agrees className key .delta 0 noWeights ⟨[], ∅, ∅⟩).1 _
    (loaded_delta field)
  have own : (plainRow className value).sensitivityType.text =
      (side.legFields schema (upperCase className) .delta).sensitivityType := by
    cases side <;> rfl
  have there := written (plainRow className value) ⟨rfl, own⟩ ("delta", label) mem rfl present
  rwa [(declaredPath_eq_some_iff.mp declared).1] at there

/-- A node of GIRR gives a cell of its own. -/
theorem node_cell [Casing] {t : String} (node : t ∈ tenorNodesOf schema "GIRR") :
    ("delta", some t) ∈ legCells schema (upperCase "GIRR") .delta ∧
      ∃ cfg, schema.riskClasses.lookup "GIRR" = some cfg ∧
        "GIRR" ∈ schema.riskClasses.keys := by
  have perTenor : isPerTenor schema "GIRR" = true := by
    simp [isPerTenor, perTenorClasses, List.ne_nil_of_mem node]
  constructor
  · rw [upperCase_girr, legCells, perTenor]
    exact List.mem_map.mpr ⟨some t, List.mem_map_of_mem node, rfl⟩
  · cases found : schema.riskClasses.lookup "GIRR" with
    | none =>
      rw [tenorNodesOf, found] at node
      cases node
    | some cfg => exact ⟨cfg, rfl, AList.lookup_isSome.mp (by rw [found]; rfl)⟩

/-- A weighted field of a row is the field of a number that ingest reads. -/
theorem fat_written_named [Casing] {cfg : RiskClassConfig} {rest : String}
    (classed : row.classIn schema.toSchema = some cfg)
    (there : "ws_" ++ rest ∈ Side.fat.written schema.toSchema row) :
    ∃ root ∈ wsLegs, ∃ label, row.ingestCell cfg root label ≠ none ∧
      rest = legName (lowerCase row.riskClass) root label := by
  have stored : "ws_" ++ rest ∈
      (weightArgs (enrichDoc row.doc (some schema.toSchema))).map Prod.fst := by
    rwa [Side.written, ← lookup_ofPairs_isSome, lookup_flatten_weight (isWeightField_ws _),
      lookup_ofPairs_isSome] at there
  obtain ⟨root, known, label, same⟩ := named_of_mem_weightArgs (Tagged.enriched row _) stored
  rw [same] at there
  exact ⟨root, known, label, (fat_written_iff classed known).mp there,
    (append_left_cancel_iff _ _ _).mp same⟩

/-- Agreement on a plain row with one number, read under one label, folds the class to itself. -/
theorem folds_of_written [Casing] (fat : NamesAgree .fat schema) {className : String}
    {cfg : RiskClassConfig} {value : SensitivityRiskValue} {label : Option String}
    (key : className ∈ schema.riskClasses.keys)
    (classed : (plainRow className value).classIn schema.toSchema = some cfg)
    (labelled : label ≠ some "")
    (mem : ("delta", label) ∈ legCells schema (upperCase className) .delta)
    (present : carried (plainRow className value) (tenorNodesOf schema className) "delta" label ≠
      none)
    (only : ∀ root l, (plainRow className value).ingestCell cfg root l ≠ none →
      root = "delta" ∧ l = label) :
    lowerCase (upperCase className) = lowerCase className := by
  have there := plain_written fat key value mem present
  have name : queryName .fat (upperCase className) ("delta", label) =
      "ws_" ++ legName (lowerCase (upperCase className)) "delta" label :=
    queryName_eq .fat (upperCase className) labelled
  rw [name] at there
  obtain ⟨root, _, l, read, same⟩ := fat_written_named classed there
  obtain ⟨rfl, rfl⟩ := only root l read
  simpa only [legName, String.append_left_inj, plainRow] using same

theorem folds_of_namesAgree [Casing] (fat : NamesAgree .fat schema)
    (named : "" ∉ schema.riskClasses.keys) (labelled : "" ∉ tenorNodesOf schema "GIRR")
    (apart : "spot" ∉ tenorNodesOf schema "GIRR") {className : String}
    (key : className ∈ schema.riskClasses.keys) :
    lowerCase (upperCase className) = lowerCase className := by
  obtain ⟨cfg, found⟩ := Option.isSome_iff_exists.mp (AList.lookup_isSome.mpr key)
  have classed : ∀ value, (plainRow className value).classIn schema.toSchema = some cfg := by
    intro value
    have full : className ≠ "" := fun empty => named (empty ▸ key)
    exact (if_neg full).trans found
  cases perTenor : isPerTenor schema (upperCase className) with
  | false =>
    have scalar : ("delta", none) ∈ legCells schema (upperCase className) .delta := by
      rw [legCells, perTenor]
      exact List.mem_singleton_self _
    refine folds_of_written fat key (classed (.number 1)) (Option.some_ne_none _).symm scalar
      (Option.some_ne_none (1 : ℚ)) fun root l read => ?_
    simp only [Row.ingestCell, Row.cell, plainRow, scalarRoot] at read
    grind
  | true =>
    obtain ⟨girr, nodes⟩ := perTenor_girr perTenor
    obtain ⟨t, node⟩ := List.exists_mem_of_ne_nil _ nodes
    have cell : ("delta", some t) ∈ legCells schema (upperCase className) .delta := by
      rw [girr, ← upperCase_girr]
      exact (node_cell node).1
    have value : (ofPairs [(t, (1 : ℚ))]).lookup t = some 1 := AList.lookup_insert _
    have others : ∀ l ≠ t, (ofPairs [(t, (1 : ℚ))]).lookup l = none := fun l other =>
      lookup_ofPairs_eq_none (by simpa using other)
    have spotless : spotMember (ofPairs [(t, (1 : ℚ))]) = none := by
      unfold spotMember
      split
      · rename_i v single
        have member : [(t, (1 : ℚ))] = [("spot", v)] := single
        cases member
        exact absurd node apart
      · rfl
    refine folds_of_written fat key (classed (.members (ofPairs [(t, 1)])))
      (fun empty => labelled (Option.some.inj empty ▸ node)) cell ?_ fun root l read => ?_
    · rw [show carried _ _ "delta" (some t) = (ofPairs [(t, (1 : ℚ))]).lookup t from rfl, value]
      exact Option.some_ne_none 1
    · simp only [Row.ingestCell, Row.cell, plainRow, scalarRoot, spotless] at read
      rcases eq_or_ne root "delta" with rfl | other
      · refine ⟨rfl, ?_⟩
        cases l with
        | none => exact absurd rfl read
        | some l =>
          by_contra other
          exact read (others l fun same => other (congrArg some same))
      · exact absurd (if_neg other) read

/-- A class without a name is stored without a weighted field. -/
theorem named_of_namesAgree [Casing] (fat : NamesAgree .fat schema) :
    "" ∉ schema.riskClasses.keys := by
  intro key
  have upper : upperCase "" = "" := (upperCase_ascii (by simp)).trans (by decide)
  have scalar : ("delta", none) ∈ legCells schema (upperCase "") .delta := by
    rw [upper, legCells, isPerTenor]
    exact List.mem_singleton_self _
  have there := plain_written fat key (.number 1) scalar (Option.some_ne_none (1 : ℚ))
  have name : queryName .fat (upperCase "") ("delta", none) =
      "ws_" ++ legName (lowerCase (plainRow "" (.number 1)).riskClass) "delta" none := by
    rw [upper]
    exact queryName_eq .fat "" (Option.some_ne_none _).symm
  rw [name, Side.written, ← lookup_ofPairs_isSome, lookup_flatten_weight (isWeightField_ws _),
    lookup_ingest_missing rfl (by decide)] at there
  cases there

/-- An empty label: the query leaves it out of the name, the writer does not. -/
theorem labelled_of_namesAgree [Casing] (slim : NamesAgree .slim schema) :
    "" ∉ tenorNodesOf schema "GIRR" := by
  intro node
  obtain ⟨cell, _, _, key⟩ := node_cell node
  have there := plain_written slim key (.members (ofPairs [("", 1)])) cell
    (Option.some_ne_none (1 : ℚ))
  have bare : queryName .slim "GIRR" ("delta", none) =
      "s_" ++ legName (lowerCase "GIRR") "delta" none :=
    queryName_eq .slim "GIRR" (Option.some_ne_none _).symm
  have name : queryName .slim (upperCase "GIRR") ("delta", some "") = "s_" ++ legName
      (lowerCase (plainRow "GIRR" (.members (ofPairs [("", 1)]))).riskClass) "delta" none := by
    rw [upperCase_girr]
    exact bare
  rw [name, slim_written_iff (by decide)] at there
  rcases there with read | ⟨_, _, _, padded⟩
  · exact read (by decide)
  · cases padded

/-- A member `spot` alone: both writers take it for a scalar. -/
theorem apart_of_namesAgree [Casing] (fat : NamesAgree .fat schema) :
    "spot" ∉ tenorNodesOf schema "GIRR" := by
  intro node
  obtain ⟨cell, cfg, found, key⟩ := node_cell node
  have there := plain_written fat key (.members (ofPairs [("spot", 1)])) cell
    (Option.some_ne_none (1 : ℚ))
  have name : queryName .fat (upperCase "GIRR") ("delta", some "spot") = "ws_" ++ legName
      (lowerCase (plainRow "GIRR" (.members (ofPairs [("spot", 1)]))).riskClass) "delta"
        (some "spot") := by
    rw [upperCase_girr]
    exact queryName_eq .fat "GIRR" (by decide)
  have classed : (plainRow "GIRR" (.members (ofPairs [("spot", 1)]))).classIn schema.toSchema =
      some cfg := by
    rw [Row.classIn, if_neg (by decide)]
    exact found
  rw [name, fat_written_iff classed (by decide)] at there
  exact there rfl

theorem clear_of_namesAgree [Casing] (fat : NamesAgree .fat schema)
    (slim : NamesAgree .slim schema) : NamesClear schema where
  named := named_of_namesAgree fat
  folds := fun _ key => folds_of_namesAgree fat (named_of_namesAgree fat)
    (labelled_of_namesAgree slim) (apart_of_namesAgree fat) key
  labelled := labelled_of_namesAgree slim
  apart := apart_of_namesAgree fat

/-- GIRR with a tenor node that has no name. -/
def namelessNode : CalcSchema where
  riskClasses := ofPairs [("GIRR", ⟨some ["", "1Y"], "girr_delta_weights"⟩)]
  riskWeights := ofPairs [("girr_delta_weights", .constant (1 / 100))]
  intraBucketCorrelationRef := fun _ => some "girr_rho_kl"
  correlations := fun _ => some (.constant (1 / 2))

end Agreement

end FieldNames
