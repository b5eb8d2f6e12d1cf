import Frtb.FastPathSums

/-!
# The rows of a request

Each request multiplies an index field by one number, so its clauses are those
of `itemArgs`, and what the reducer reads of a merged row is an exact sum over
the documents of all nodes.
-/

namespace FastPathRows

open AssocMaps FastPath FastPathSums
open StorageWriter (upperCase)

section Multipliers
variable {schema : CalcSchema} {rc : String} {leg : FastLeg} {lazyMath : Bool} {searchVer : ℕ}

/-- The multiplier at the first position of a field. -/
def multOf (roots : List String) (spec : Option WeightSpec) (f : String) : ℚ :=
  (applyMultipliers roots spec)[roots.idxOf f]?.getD 1

theorem length_applyMultipliers (roots : List String) (spec : Option WeightSpec) :
    (applyMultipliers roots spec).length = roots.length := by
  cases spec with
  | none => exact List.length_map _
  | some spec => cases spec <;> simp [applyMultipliers]

/-- Equal fields have equal multipliers. -/
def Consistent (roots : List String) (spec : Option WeightSpec) : Prop :=
  ∀ i j : ℕ, i < roots.length → j < roots.length → roots[i]? = roots[j]? →
    (applyMultipliers roots spec)[i]? = (applyMultipliers roots spec)[j]?

theorem Consistent.map_multOf {roots : List String} {spec : Option WeightSpec}
    (consistent : Consistent roots spec) :
    applyMultipliers roots spec = roots.map (multOf roots spec) := by
  apply List.ext_getElem
  · rw [length_applyMultipliers, List.length_map]
  · intro i hi hi'
    rw [length_applyMultipliers] at hi
    have first : roots.idxOf roots[i] < roots.length := List.idxOf_lt_length_of_mem (by simp)
    have same : roots[roots.idxOf roots[i]]? = roots[i]? := by
      rw [List.getElem?_eq_getElem first, List.getElem?_eq_getElem hi, List.getElem_idxOf]
    have value := consistent _ i first hi same
    rw [List.getElem_map, multOf, value, List.getElem?_eq_getElem, Option.getD_some]

theorem consistent_of_eq {roots : List String} {spec : Option WeightSpec} {v : ℚ}
    (flat : applyMultipliers roots spec = roots.map fun _ => v) : Consistent roots spec := by
  intro i j hi hj _
  rw [flat]
  simp [hi, hj]

theorem fieldFor_injective (pre lower root : String) :
    Function.Injective (fieldFor pre lower root) := by
  intro t t' same
  have chars := congrArg String.toList same
  simp only [fieldFor, String.toList_append, List.append_cancel_left_eq] at chars
  by_cases empty : t = ""
  · by_cases empty' : t' = ""
    · rw [empty, empty']
    · rw [if_pos empty, if_neg empty', String.toList_append] at chars
      cases chars
  · by_cases empty' : t' = ""
    · rw [if_neg empty, if_pos empty', String.toList_append] at chars
      cases chars
    · rw [if_neg empty, if_neg empty', String.toList_append, String.toList_append,
        List.append_cancel_left_eq] at chars
      exact String.toList_injective chars

/-- A vector of weights by tenor, over the fields of the same tenors. -/
theorem consistent_byTenor (tenors : List String) (field : String → String)
    (injective : Function.Injective field) (w : String → ℚ) :
    Consistent (tenors.map field) (some (.byTenor (tenors.map w))) := by
  intro i j hi hj same
  rw [List.length_map] at hi hj
  have tenor : tenors[i] = tenors[j] := by
    simpa [hi, hj, injective.eq_iff] using same
  simp [applyMultipliers, hi, hj, tenor]

/-- What a request multiplies a field by. -/
def requestMult (schema : CalcSchema) (rc : String) (leg : FastLeg) (lazyMath : Bool) :
    String → ℚ :=
  multOf (requestOf schema rc leg lazyMath).1.delta (requestOf schema rc leg lazyMath).2

theorem requestOf_consistent :
    Consistent (requestOf schema rc leg lazyMath).1.delta (requestOf schema rc leg lazyMath).2 := by
  unfold requestOf
  cases lazyMath with
  | false => exact consistent_of_eq rfl
  | true =>
    unfold resolveLazyMathWeights
    by_cases unit : leg = .vega ∨ leg = .curvature
    · simp only [if_true, if_pos unit]
      exact consistent_of_eq rfl
    · have delta : leg = .delta := by
        cases leg <;> simp_all
      subst delta
      simp only [if_true, if_neg unit]
      cases riskWeightTable schema rc with
      | none => exact consistent_of_eq rfl
      | some table =>
        cases table with
        | constant weight => exact consistent_of_eq rfl
        | byBucket weights => exact consistent_of_eq rfl
        | byTenor weights =>
          by_cases perTenor : isPerTenor schema rc = true ∧ tenorNodesOf schema rc ≠ []
          · simp only [if_pos perTenor, resolveSlimLegFields, resolveLegFieldsForPrefix,
              fieldTenors, if_pos perTenor.1]
            exact consistent_byTenor _ _ (fieldFor_injective _ _ _) _
          · simp only [if_neg perTenor]
            exact consistent_of_eq rfl

/-- A request other than a lazy Delta multiplies by one. -/
theorem requestMult_eq_one (plain : lazyMath = false ∨ leg ≠ .delta) (f : String) :
    requestMult schema rc leg lazyMath f = 1 := by
  have ones : applyMultipliers (requestOf schema rc leg lazyMath).1.delta
      (requestOf schema rc leg lazyMath).2 =
      (requestOf schema rc leg lazyMath).1.delta.map fun _ => (1 : ℚ) := by
    rcases plain with rfl | other
    · rfl
    · cases lazyMath with
      | false => rfl
      | true =>
        have unit : leg = .vega ∨ leg = .curvature := by
          cases leg <;> simp_all
        simp only [requestOf, if_true, resolveLazyMathWeights, if_pos unit]
        rfl
  rw [requestMult, multOf, ones]
  cases h : ((requestOf schema rc leg lazyMath).1.delta.map fun _ => (1 : ℚ))[
      (requestOf schema rc leg lazyMath).1.delta.idxOf f]? with
  | none => rfl
  | some v =>
    obtain ⟨_, _, rfl⟩ := List.mem_map.mp (List.mem_of_getElem? h)
    rfl

end Multipliers

section Requests
variable {schema : CalcSchema} {rc : String} {leg : FastLeg} {lazyMath : Bool} {searchVer : ℕ}

/-- The fields of a request as items; the bucket query splits the curvature by sign. -/
def requestItems (split : Bool) (fields : LegFields) : List Item :=
  fields.delta.map (⟨.d, ·, false⟩) ++ fields.vega.map (⟨.v, ·, false⟩) ++
    fields.cvrUp.map (⟨.u, ·, split⟩) ++ fields.cvrDown.map (⟨.n, ·, split⟩)

theorem legClauses_eq (clauses : String → ℚ → AggregateArgs) {roots : List String}
    {weights : Option WeightSpec} {mult : String → ℚ}
    (multiplies : applyMultipliers roots weights = roots.map mult) :
    legClauses clauses roots weights = roots.map fun f => clauses f (mult f) := by
  rw [legClauses, multiplies]
  clear multiplies
  induction roots with
  | nil => rfl
  | cons f roots ih => simp [ih]

theorem applyMultipliers_nil (spec : Option WeightSpec) : applyMultipliers [] spec = [] :=
  List.eq_nil_of_length_eq_zero (length_applyMultipliers [] spec)

theorem applyMultipliers_delta (schema : CalcSchema) (rc : String) (lazyMath : Bool) :
    applyMultipliers (requestOf schema rc .delta lazyMath).1.delta
        (requestOf schema rc .delta lazyMath).2 =
      (requestOf schema rc .delta lazyMath).1.delta.map (requestMult schema rc .delta lazyMath) :=
  requestOf_consistent.map_multOf

theorem applyMultipliers_of_ne_delta (other : leg ≠ .delta) (roots : List String) :
    applyMultipliers roots (requestOf schema rc leg lazyMath).2 =
      roots.map (requestMult schema rc leg lazyMath) := by
  have ones : requestMult schema rc leg lazyMath = fun _ => 1 :=
    funext (requestMult_eq_one (Or.inr other))
  have unit : leg = .vega ∨ leg = .curvature := by
    cases leg <;> simp_all
  rw [ones]
  unfold requestOf
  cases lazyMath with
  | false => rfl
  | true =>
    simp only [if_true, resolveLazyMathWeights, if_pos unit]
    rfl

theorem builderWeights_own (leg : FastLeg) (spec : Option WeightSpec) :
    builderWeights leg spec =
      ⟨if leg = .delta then spec else none, if leg = .vega then spec else none,
        if leg = .curvature then spec else none⟩ := by
  cases spec with
  | none => simp [builderWeights, noWeights]
  | some spec => simp [builderWeights, legWeightsOf]

theorem requestOf_fields :
    (requestOf schema rc leg lazyMath).1 =
      resolveLegFieldsForPrefix schema rc leg (if lazyMath then "s" else "ws") := by
  cases lazyMath <;> rfl

theorem legClauses_nil (clauses : String → ℚ → AggregateArgs) (spec : Option WeightSpec) :
    legClauses clauses [] spec = [] := by
  rw [legClauses, applyMultipliers_nil]
  rfl

/-- The clauses of a request are those of its items. -/
theorem joinClauses_request (clauses : LegPrefix → Bool → String → ℚ → AggregateArgs)
    (split : Bool)
    (shape : ∀ pre b f m, clauses pre b f m =
      Item.clauses searchVer (fun _ => m) ⟨pre, f, b⟩) :
    let request := requestOf schema rc leg lazyMath
    let weights := builderWeights leg request.2
    joinClauses
      (legClauses (clauses .d false) request.1.delta weights.delta ++
        legClauses (clauses .v false) request.1.vega weights.vega ++
        legClauses (clauses .u split) request.1.cvrUp weights.curvature ++
        legClauses (clauses .n split) request.1.cvrDown weights.curvature) =
      itemArgs searchVer (requestMult schema rc leg lazyMath) (requestItems split request.1) := by
  intro request weights
  have own : ∀ (pre : LegPrefix) (b : Bool) (roots : List String),
      applyMultipliers roots request.2 = roots.map (requestMult schema rc leg lazyMath) →
      legClauses (clauses pre b) roots request.2 =
        (roots.map (⟨pre, ·, b⟩)).map
          (Item.clauses searchVer (requestMult schema rc leg lazyMath)) := by
    intro pre b roots multiplies
    rw [legClauses_eq _ multiplies, List.map_map]
    exact List.map_congr_left (fun f _ => shape pre b f _)
  have fields : request.1 = _ := requestOf_fields
  have spec : weights = _ := builderWeights_own leg request.2
  rw [itemArgs, requestItems, List.map_append, List.map_append, List.map_append, spec]
  cases leg with
  | delta =>
    rw [if_pos rfl, own .d false _ (applyMultipliers_delta schema rc lazyMath), fields]
    simp only [resolveLegFieldsForPrefix, legClauses_nil, List.map_nil]
  | vega =>
    rw [if_pos rfl, own .v false _ (applyMultipliers_of_ne_delta (by decide) _), fields]
    simp only [resolveLegFieldsForPrefix, legClauses_nil, List.map_nil]
  | curvature =>
    rw [if_pos rfl, own .u split _ (applyMultipliers_of_ne_delta (by decide) _),
      own .n split _ (applyMultipliers_of_ne_delta (by decide) _), fields]
    simp only [resolveLegFieldsForPrefix, legClauses_nil, List.map_nil]

theorem buildFastPathAggregateArgs_request :
    buildFastPathAggregateArgs (requestOf schema rc leg lazyMath).1 searchVer
        (builderWeights leg (requestOf schema rc leg lazyMath).2) =
      itemArgs searchVer (requestMult schema rc leg lazyMath)
        (requestItems true (requestOf schema rc leg lazyMath).1) :=
  joinClauses_request (fun pre b f m => Item.clauses searchVer (fun _ => m) ⟨pre, f, b⟩) true
    (fun _ _ _ _ => rfl)

theorem buildComponentsAggregateArgs_request :
    buildComponentsAggregateArgs (requestOf schema rc leg lazyMath).1 searchVer
        (builderWeights leg (requestOf schema rc leg lazyMath).2) =
      itemArgs searchVer (requestMult schema rc leg lazyMath)
        (requestItems false (requestOf schema rc leg lazyMath).1) :=
  joinClauses_request (fun pre b f m => Item.clauses searchVer (fun _ => m) ⟨pre, f, b⟩) false
    (fun _ _ _ _ => rfl)

end Requests

section Rows
variable {K : Type} [DecidableEq K] {searchVer : ℕ} {mult : String → ℚ} {items : List Item}

/-- What is read of a group without documents. -/
def noRow : Record := ⟨fun _ => none, some 0⟩

def rowAt (m : Assoc K Record) (k : K) : Record := (m.lookup k).getD noRow

theorem RowOf.safeNum {docs : List IndexDoc} {nan : SumName → Bool} {row : Record}
    (h : RowOf searchVer mult items docs nan row) {name : SumName} (mem : name ∈ sumNames items) :
    safeNum (row.sums name) = if nan name then 0 else exactSum searchVer mult name docs := by
  rw [h.sums, if_pos mem]
  cases nan name <;> rfl

theorem safeNum_rowAt {key : IndexDoc → K} {keep : K → Bool} {docs : List IndexDoc}
    {nan : K → SumName → Bool} {m : Assoc K Record}
    (h : MapOf searchVer mult items key keep docs nan m) {k : K} (kept : keep k = true)
    {name : SumName} (mem : name ∈ sumNames items) :
    safeNum ((rowAt m k).sums name) =
      if nan k name then 0 else exactSum searchVer mult name (docsOf key docs k) := by
  have here := h k
  by_cases some_ : docsOf key docs k = []
  · rw [if_neg (by tauto)] at here
    rw [rowAt, here, some_]
    cases nan k name <;> rfl
  · rw [if_pos ⟨kept, some_⟩] at here
    obtain ⟨row, found, rowOf⟩ := here
    rw [rowAt, found, Option.getD_some]
    exact RowOf.safeNum rowOf mem

theorem rowCount_rowAt {key : IndexDoc → K} {keep : K → Bool} {docs : List IndexDoc}
    {nan : K → SumName → Bool} {m : Assoc K Record}
    (h : MapOf searchVer mult items key keep docs nan m) {k : K} (kept : keep k = true) :
    safeNum (some (rowAt m k).rowCount) = (docsOf key docs k).length := by
  have here := h k
  by_cases some_ : docsOf key docs k = []
  · rw [if_neg (by tauto)] at here
    rw [rowAt, here, some_]
    rfl
  · rw [if_pos ⟨kept, some_⟩] at here
    obtain ⟨row, found, rowOf⟩ := here
    rw [rowAt, found, Option.getD_some, rowOf.rowCount]
    rfl

/-- A row of a bucket under the weights of a Delta request. -/
def weighRow (leg : FastLeg) (fields : LegFields) (spec : Option WeightSpec) (bucket : String)
    (row : Record) : Record :=
  match spec, leg with
  | some (.byBucket weights), .delta =>
    let w := (weights.lookup bucket).getD 0
    if w = 1 then row else scaleRow fields.delta w row
  | _, _ => row

theorem scaleRow_noRow (fields : List String) (w : ℚ) : scaleRow fields w noRow = noRow := by
  induction fields with
  | nil => rfl
  | cons f fields ih =>
    have one : scaleRow [f] w noRow = noRow := by
      refine congrArg₂ Record.mk (funext fun name => ?_) rfl
      change (if name = _ then none else if name = _ then none else none) = none
      rw [ite_self, ite_self]
    calc scaleRow (f :: fields) w noRow = scaleRow fields w (scaleRow [f] w noRow) := rfl
      _ = noRow := by rw [one, ih]

theorem weighRow_noRow (leg : FastLeg) (fields : LegFields) (spec : Option WeightSpec)
    (bucket : String) : weighRow leg fields spec bucket noRow = noRow := by
  unfold weighRow
  split
  · dsimp only
    rw [scaleRow_noRow, ite_self]
  · rfl

theorem lookup_weighRows (bucketOf : K → String) (leg : FastLeg) (fields : LegFields)
    (spec : Option WeightSpec) (m : Assoc K Record) (k : K) :
    (weighRows bucketOf leg fields spec m).lookup k =
      (m.lookup k).map (weighRow leg fields spec (bucketOf k)) := by
  have same : ∀ o : Option Record, o = o.map fun row => row := by
    intro o
    cases o <;> rfl
  cases spec with
  | none => exact same _
  | some spec =>
    cases spec with
    | constant value => exact same _
    | byTenor values => exact same _
    | byBucket weights =>
      cases leg with
      | delta =>
        exact lookup_ofPairs_pairs_map m (fun k row =>
          weighRow .delta fields (some (.byBucket weights)) (bucketOf k) row) k
      | vega => exact same _
      | curvature => exact same _

end Rows

section Nodes
variable {schema : CalcSchema} {rc : String} {leg : FastLeg} {lazyMath : Bool} {searchVer : ℕ}

/-- The rows of a request before any LIMIT and any weight of a bucket. -/
def unweighedRows (schema : CalcSchema) (rc : String) (leg : FastLeg) (lazyMath : Bool)
    (searchVer : ℕ) (nodes : List Node) : Assoc String Record :=
  mergeReplies <| nodes.map fun node =>
    parseAggregateRows (groupRows
      (itemArgs searchVer (requestMult schema rc leg lazyMath)
        (requestItems true (requestOf schema rc leg lazyMath).1)) IndexDoc.bucket
          node.nan node.docs)

/-- The replies to a request before any weight of a bucket. -/
def unweighedReplies (schema : CalcSchema) (rc : String) (leg : FastLeg) (lazyMath : Bool)
    (searchVer : ℕ) (nodes : List Node) : Assoc String Record :=
  mergeReplies <| nodes.map fun node =>
    parseAggregateRows (ftAggregate
      (itemArgs searchVer (requestMult schema rc leg lazyMath)
        (requestItems true (requestOf schema rc leg lazyMath).1)) IndexDoc.bucket node.nan
      bucketLimit node.docs)

def unweighedPerRf (schema : CalcSchema) (rc : String) (leg : FastLeg) (lazyMath : Bool)
    (searchVer : ℕ) (nodes : List Node) : Assoc (String × String) Record :=
  mergeReplies <| nodes.map fun node =>
    parsePerRfRows (ftAggregate
      (itemArgs searchVer (requestMult schema rc leg lazyMath)
        (requestItems false (requestOf schema rc leg lazyMath).1)) groupKey node.nanPerRf
      perRfLimit node.docs)

/-- No node groups its documents into more rows than the LIMIT lets through. -/
def Within {K : Type} [DecidableEq K] (key : IndexDoc → K) (limit : ℕ) (nodes : List Node) : Prop :=
  ∀ node ∈ nodes, ((node.docs.map key).dedup).length ≤ limit

theorem ftAggregate_of_fits {K : Type} [DecidableEq K] {key : IndexDoc → K} {limit : ℕ}
    {docs : List IndexDoc} (args : AggregateArgs) (nan : NanChoice K)
    (fits : ((docs.map key).dedup).length ≤ limit) :
    ftAggregate args key nan limit docs = groupRows args key nan docs := by
  refine List.take_of_length_le ?_
  rw [groupRows, List.length_map]
  exact fits

theorem unweighedReplies_eq {nodes : List Node}
    (within : Within IndexDoc.bucket bucketLimit nodes) :
    unweighedReplies schema rc leg lazyMath searchVer nodes =
      unweighedRows schema rc leg lazyMath searchVer nodes := by
  refine congrArg mergeReplies (List.map_congr_left fun node mem => ?_)
  rw [ftAggregate_of_fits _ _ (within node mem)]

theorem mapOf_unweighedRows (schema : CalcSchema) (rc : String) (leg : FastLeg) (lazyMath : Bool)
    (searchVer : ℕ) (nodes : List Node) :
    MapOf searchVer (requestMult schema rc leg lazyMath)
      (requestItems true (requestOf schema rc leg lazyMath).1) IndexDoc.bucket (fun b => b ≠ "")
      (nodes.flatMap Node.docs) (someNan Node.docs Node.nan IndexDoc.bucket nodes)
      (unweighedRows schema rc leg lazyMath searchVer nodes) :=
  mapOf_mergeReplies Node.docs Node.nan nodes

theorem mapOf_unweighedPerRf (schema : CalcSchema) (rc : String) (leg : FastLeg)
    (lazyMath : Bool) (searchVer : ℕ) {nodes : List Node}
    (within : Within groupKey perRfLimit nodes) :
    MapOf searchVer (requestMult schema rc leg lazyMath)
      (requestItems false (requestOf schema rc leg lazyMath).1) groupKey
      (fun k => k.1 ≠ "" && k.2 ≠ "") (nodes.flatMap Node.docs)
      (someNan Node.docs Node.nanPerRf groupKey nodes)
      (unweighedPerRf schema rc leg lazyMath searchVer nodes) := by
  have whole : unweighedPerRf schema rc leg lazyMath searchVer nodes =
      mergeReplies (nodes.map fun node => parsePerRfRows (groupRows
        (itemArgs searchVer (requestMult schema rc leg lazyMath)
          (requestItems false (requestOf schema rc leg lazyMath).1)) groupKey node.nanPerRf
        node.docs)) := by
    refine congrArg mergeReplies (List.map_congr_left fun node mem => ?_)
    rw [ftAggregate_of_fits _ _ (within node mem)]
  rw [whole]
  exact mapOf_mergeReplies Node.docs Node.nanPerRf nodes

theorem lookup_mergedRows (nodes : List Node) (b : String) :
    (mergedRows (requestOf schema rc leg lazyMath).1 leg (requestOf schema rc leg lazyMath).2
        searchVer nodes).lookup b =
      ((unweighedRows schema rc leg lazyMath searchVer nodes).lookup b).map
        (weighRow leg (requestOf schema rc leg lazyMath).1 (requestOf schema rc leg lazyMath).2
          b) := by
  rw [mergedRows, lookup_weighRows, buildFastPathAggregateArgs_request]
  rfl

/-- Within the LIMIT the merged replies are the merged rows. -/
theorem repliedRows_eq (fields : LegFields) (leg : FastLeg) (spec : Option WeightSpec)
    (searchVer : ℕ) {nodes : List Node} (within : Within IndexDoc.bucket bucketLimit nodes) :
    repliedRows fields leg spec searchVer nodes = mergedRows fields leg spec searchVer nodes := by
  unfold repliedRows mergedRows
  refine congrArg (fun replies => weighRows id leg fields spec (mergeReplies replies))
    (List.map_congr_left fun node mem => ?_)
  rw [ftAggregate_of_fits _ _ (within node mem)]

theorem lookup_repliedPerRf (nodes : List Node) (k : String × String) :
    (repliedPerRf (requestOf schema rc leg lazyMath).1 leg (requestOf schema rc leg lazyMath).2
        searchVer nodes).lookup k =
      ((unweighedPerRf schema rc leg lazyMath searchVer nodes).lookup k).map
        (weighRow leg (requestOf schema rc leg lazyMath).1 (requestOf schema rc leg lazyMath).2
          k.1) := by
  rw [repliedPerRf, lookup_weighRows, buildComponentsAggregateArgs_request]
  rfl

/-- Only a Delta request has a row weighed after the merge. -/
theorem weighRow_of_plain (plain : lazyMath = false ∨ leg ≠ .delta) (bucket : String)
    (row : Record) :
    weighRow leg (requestOf schema rc leg lazyMath).1 (requestOf schema rc leg lazyMath).2 bucket
      row = row := by
  rcases plain with rfl | other
  · rfl
  · unfold weighRow
    split
    · exact absurd rfl other
    · rfl

/-- A merged row, whether or not the bucket has documents. -/
theorem rowAt_mergedRows (nodes : List Node) (b : String) :
    rowAt (mergedRows (requestOf schema rc leg lazyMath).1 leg
        (requestOf schema rc leg lazyMath).2 searchVer nodes) b =
      weighRow leg (requestOf schema rc leg lazyMath).1 (requestOf schema rc leg lazyMath).2 b
        (rowAt (unweighedRows schema rc leg lazyMath searchVer nodes) b) := by
  rw [rowAt, lookup_mergedRows, rowAt]
  cases (unweighedRows schema rc leg lazyMath searchVer nodes).lookup b with
  | none => exact (weighRow_noRow _ _ _ _).symm
  | some row => rfl

/-- Documents that all miss a field add nothing to its sums. -/
theorem exactSum_of_allMiss {mult : String → ℚ} {docs : List IndexDoc} {name : SumName}
    (miss : allMiss docs name = true) : exactSum searchVer mult name docs = 0 := by
  have zero : ∀ d ∈ docs,
      partValue name.part (safeValue searchVer (mult name.f) (d.field name.f)) = 0 := by
    intro d mem
    have absent := List.all_eq_true.mp miss d mem
    rw [Option.isNone_iff_eq_none.mp absent]
    cases name.part <;> simp [safeValue, partValue, negativeOf]
  rw [exactSum, List.map_congr_left zero, List.map_const', List.sum_replicate, smul_zero]

/-- On one node a sum that is reported as `nan` is zero anyway. -/
theorem safeNum_single (node : Node) {b : String} (named : b ≠ "") {name : SumName}
    (mem : name ∈ sumNames (requestItems true (requestOf schema rc leg lazyMath).1)) :
    safeNum ((rowAt (unweighedRows schema rc leg lazyMath searchVer [node]) b).sums name) =
      exactSum searchVer (requestMult schema rc leg lazyMath) name
        (docsOf IndexDoc.bucket node.docs b) := by
  have rows := mapOf_unweighedRows schema rc leg lazyMath searchVer [node]
  rw [List.flatMap_singleton] at rows
  rw [safeNum_rowAt rows (decide_eq_true named) mem]
  by_cases reported : someNan Node.docs Node.nan IndexDoc.bucket [node] b name = true
  · have miss : allMiss (docsOf IndexDoc.bucket node.docs b) name = true := by
      simp only [someNan, nodeNan, List.any_cons, List.any_nil, Bool.or_false,
        Bool.and_eq_true] at reported
      exact reported.2.2
    rw [if_pos reported, exactSum_of_allMiss miss]
  · rw [if_neg reported]

/-- The merged rows by risk factor that the components are made of. -/
def componentRows (schema : CalcSchema) (rc : String) (leg : FastLeg) (lazyMath : Bool)
    (searchVer : ℕ) (nodes : List Node) : Assoc (String × String) Record :=
  if isPerTenor schema rc then ∅
  else repliedPerRf (requestOf schema rc leg lazyMath).1 leg (requestOf schema rc leg lazyMath).2
    searchVer nodes

/-- A bucket's report is made of its merged row. -/
theorem lookup_aggregateBucketsViaIndex (schema : CalcSchema) (riskClass : String) (leg : FastLeg)
    (lazyMath : Bool) (topN : Option ℕ) (searchVer : ℕ) {nodes : List Node}
    (within : Within IndexDoc.bucket bucketLimit nodes) (b : String) :
    (aggregateBucketsViaIndex schema riskClass leg lazyMath topN searchVer nodes).lookup b =
      ((mergedRows (requestOf schema (upperCase riskClass) leg lazyMath).1 leg
        (requestOf schema (upperCase riskClass) leg lazyMath).2 searchVer nodes).lookup b).map
        fun row => bucketResultFromRow b row (requestOf schema (upperCase riskClass) leg lazyMath).1
          leg (resolveRho schema (upperCase riskClass) leg)
          (isPerTenor schema (upperCase riskClass))
          (perRfOf (componentRows schema (upperCase riskClass) leg lazyMath searchVer nodes) b)
          topN := by
  rw [← repliedRows_eq _ _ _ _ within]
  exact lookup_ofPairs_pairs_map _ (fun b row => bucketResultFromRow b row
    (requestOf schema (upperCase riskClass) leg lazyMath).1 leg
    (resolveRho schema (upperCase riskClass) leg) (isPerTenor schema (upperCase riskClass))
    (perRfOf (componentRows schema (upperCase riskClass) leg lazyMath searchVer nodes) b) topN) b

end Nodes

section Reports
variable {schema : CalcSchema} {rc : String} {leg : FastLeg}

/-- The prefix of the names and the root of the fields of each side of a leg. -/
def legSides : FastLeg → List (LegPrefix × String)
  | .delta => [(.d, "delta")]
  | .vega => [(.v, "vega")]
  | .curvature => [(.u, "cvr_up"), (.n, "cvr_down")]

/-- The parts that are summed of each field of a leg. -/
def legParts : FastLeg → List Part
  | .curvature => [.value, .sq, .neg, .negSq]
  | _ => [.value, .sq]

theorem fieldTenors_ne_nil (schema : CalcSchema) (rc : String) : fieldTenors schema rc ≠ [] := by
  unfold fieldTenors
  by_cases perTenor : isPerTenor schema rc = true
  · rw [if_pos perTenor]
    unfold isPerTenor at perTenor
    rw [Bool.and_eq_true] at perTenor
    exact of_decide_eq_true perTenor.2
  · rw [if_neg perTenor]
    exact List.cons_ne_nil _ _

/-- The name of a sum in a request whose fields have the prefix `pre`. -/
def sideName (rc pre : String) (side : LegPrefix × String) (t : String) (part : Part) : SumName :=
  ⟨side.1, fieldFor pre (StorageWriter.lowerCase rc) side.2 t, part⟩

theorem sideName_mem (lazyMath : Bool) {side : LegPrefix × String} (hside : side ∈ legSides leg)
    {t : String} (ht : t ∈ fieldTenors schema rc) {part : Part} (hpart : part ∈ legParts leg) :
    sideName rc (if lazyMath then "s" else "ws") side t part ∈
      sumNames (requestItems true (requestOf schema rc leg lazyMath).1) := by
  rw [requestOf_fields, mem_sumNames]
  cases leg with
  | delta =>
    obtain rfl := List.mem_singleton.mp hside
    exact ⟨⟨.d, _, false⟩, by simpa [requestItems, resolveLegFieldsForPrefix] using ⟨t, ht, rfl⟩,
      hpart, rfl⟩
  | vega =>
    obtain rfl := List.mem_singleton.mp hside
    exact ⟨⟨.v, _, false⟩, by simpa [requestItems, resolveLegFieldsForPrefix] using ⟨t, ht, rfl⟩,
      hpart, rfl⟩
  | curvature =>
    simp only [legSides, List.mem_cons, List.not_mem_nil, or_false] at hside
    rcases hside with rfl | rfl
    · exact ⟨⟨.u, _, true⟩, by simpa [requestItems, resolveLegFieldsForPrefix] using ⟨t, ht, rfl⟩,
        hpart, rfl⟩
    · exact ⟨⟨.n, _, true⟩, by simpa [requestItems, resolveLegFieldsForPrefix] using ⟨t, ht, rfl⟩,
        hpart, rfl⟩

/-- Rows with the same sums have the same result. -/
theorem bucketResultFromRow_congr {bucket : String} {row row' : Record} {pre pre' : String}
    {rho : ℚ} {perTenor : Bool} {perRf perRf' : List (String × Record)} {topN topN' : Option ℕ}
    (same : ∀ side ∈ legSides leg, ∀ t ∈ fieldTenors schema rc, ∀ part ∈ legParts leg,
      safeNum (row.sums (sideName rc pre side t part)) =
        safeNum (row'.sums (sideName rc pre' side t part))) :
    (bucketResultFromRow bucket row (resolveLegFieldsForPrefix schema rc leg pre) leg rho perTenor
        perRf topN).kb =
      (bucketResultFromRow bucket row' (resolveLegFieldsForPrefix schema rc leg pre') leg rho
        perTenor perRf' topN').kb ∧
    (bucketResultFromRow bucket row (resolveLegFieldsForPrefix schema rc leg pre) leg rho perTenor
        perRf topN).sb =
      (bucketResultFromRow bucket row' (resolveLegFieldsForPrefix schema rc leg pre') leg rho
        perTenor perRf' topN').sb := by
  have values : ∀ side ∈ legSides leg, ∀ part ∈ legParts leg,
      ((fieldTenors schema rc).map (fieldFor pre (StorageWriter.lowerCase rc) side.2)).map
          (fun f => safeNum (row.sums ⟨side.1, f, part⟩)) =
        ((fieldTenors schema rc).map (fieldFor pre' (StorageWriter.lowerCase rc) side.2)).map
          (fun f => safeNum (row'.sums ⟨side.1, f, part⟩)) := by
    intro side hside part hpart
    rw [List.map_map, List.map_map]
    exact List.map_congr_left (fun t ht => same side hside t ht part hpart)
  have heads : ∀ side ∈ legSides leg, ∀ part ∈ legParts leg,
      safeNum (row.sums ⟨side.1, ((fieldTenors schema rc).map
          (fieldFor pre (StorageWriter.lowerCase rc) side.2)).headD "", part⟩) =
        safeNum (row'.sums ⟨side.1, ((fieldTenors schema rc).map
          (fieldFor pre' (StorageWriter.lowerCase rc) side.2)).headD "", part⟩) := by
    intro side hside part hpart
    have lists := values side hside part hpart
    obtain ⟨t, ts, tenors⟩ := List.exists_cons_of_ne_nil (fieldTenors_ne_nil schema rc)
    rw [tenors, List.map_cons, List.map_cons, List.map_cons, List.map_cons,
      List.cons.injEq] at lists
    rw [tenors]
    exact lists.1
  cases leg with
  | delta =>
    have value := values (.d, "delta") (by simp [legSides]) .value (by simp [legParts])
    have sq := values (.d, "delta") (by simp [legSides]) .sq (by simp [legParts])
    simp only [bucketResultFromRow, resolveLegFieldsForPrefix, legSums, value, sq, and_self]
  | vega =>
    have value := values (.v, "vega") (by simp [legSides]) .value (by simp [legParts])
    have sq := values (.v, "vega") (by simp [legSides]) .sq (by simp [legParts])
    simp only [bucketResultFromRow, resolveLegFieldsForPrefix, legSums, value, sq, and_self]
  | curvature =>
    have direction : ∀ side ∈ legSides .curvature,
        kbCurvatureForDirection row ((fieldTenors schema rc).map
            (fieldFor pre (StorageWriter.lowerCase rc) side.2)) side.1 rho perTenor =
          kbCurvatureForDirection row' ((fieldTenors schema rc).map
            (fieldFor pre' (StorageWriter.lowerCase rc) side.2)) side.1 rho perTenor := by
      intro side hside
      simp only [kbCurvatureForDirection, values side hside .value (by simp [legParts]),
        heads side hside .value (by simp [legParts]), heads side hside .sq (by simp [legParts]),
        heads side hside .neg (by simp [legParts]), heads side hside .negSq (by simp [legParts])]
    have up := direction (.u, "cvr_up") (by simp [legSides])
    have down := direction (.n, "cvr_down") (by simp [legSides])
    simp only [bucketResultFromRow, resolveLegFieldsForPrefix, up, down]
    exact ⟨rfl, rfl⟩

end Reports

end FastPathRows
