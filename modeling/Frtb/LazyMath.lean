import Frtb.CurvatureKernel

/-!
# Weights applied at query time

The slim index holds the raw sensitivities `s_*`, the fat index the values
`ws_*` that ingest has weighed. A lazy request puts the weight in the clauses,
or on the merged sums when it depends on the bucket. Both give the same sums
where the text of the clause binds the weight to the field.
-/

namespace LazyMath

open AssocMaps EnrichDoc FastPath FastPathSums FastPathRows

section Scaling
variable {fields : List String} {w : ℚ}

theorem safeNum_scaled (v : Option JsNum) (c : ℚ) :
    safeNum (v.map fun v => some (v.elim 0 (· * c))) = c * safeNum v := by
  rcases v with _ | _ | x
  · exact (mul_zero c).symm
  · exact (mul_zero c).symm
  · exact mul_comm x c

/-- What one field of the scaling does to a sum. -/
def scaleOne (f : String) (w : ℚ) (row : Record) : Record := scaleRow [f] w row

theorem scaleRow_cons (f : String) (fields : List String) (w : ℚ) (row : Record) :
    scaleRow (f :: fields) w row = scaleRow fields w (scaleOne f w row) := rfl

theorem safeNum_scaleOne_value (f g : String) (w : ℚ) (row : Record) :
    safeNum ((scaleOne g w row).sums ⟨.d, f, .value⟩) =
      (if g = f then w else 1) * safeNum (row.sums ⟨.d, f, .value⟩) := by
  unfold scaleOne scaleRow
  by_cases same : g = f
  · subst same
    simp only [List.foldl_cons, List.foldl_nil, if_true, safeNum_scaled]
  · have other : (⟨.d, f, .value⟩ : SumName) ≠ ⟨.d, g, .value⟩ := by
      intro h
      exact same (SumName.mk.inj h).2.1.symm
    have sq : (⟨.d, f, .value⟩ : SumName) ≠ ⟨.d, g, .sq⟩ := by
      intro h
      cases (SumName.mk.inj h).2.2
    simp only [List.foldl_cons, List.foldl_nil, if_neg other, if_neg sq, if_neg same, one_mul]

theorem safeNum_scaleOne_sq (f g : String) (w : ℚ) (row : Record) :
    safeNum ((scaleOne g w row).sums ⟨.d, f, .sq⟩) =
      (if g = f then w * w else 1) * safeNum (row.sums ⟨.d, f, .sq⟩) := by
  unfold scaleOne scaleRow
  have value : (⟨.d, f, .sq⟩ : SumName) ≠ ⟨.d, g, .value⟩ := by
    intro h
    cases (SumName.mk.inj h).2.2
  by_cases same : g = f
  · subst same
    simp only [List.foldl_cons, List.foldl_nil, if_neg value, if_true, safeNum_scaled]
  · have other : (⟨.d, f, .sq⟩ : SumName) ≠ ⟨.d, g, .sq⟩ := by
      intro h
      exact same (SumName.mk.inj h).2.1.symm
    simp only [List.foldl_cons, List.foldl_nil, if_neg other, if_neg value, if_neg same, one_mul]

/-- A field that is listed several times is scaled as often. -/
theorem safeNum_scaleRow (fields : List String) (w : ℚ) (row : Record) (f : String) :
    safeNum ((scaleRow fields w row).sums ⟨.d, f, .value⟩) =
        w ^ fields.count f * safeNum (row.sums ⟨.d, f, .value⟩) ∧
      safeNum ((scaleRow fields w row).sums ⟨.d, f, .sq⟩) =
        (w * w) ^ fields.count f * safeNum (row.sums ⟨.d, f, .sq⟩) := by
  induction fields generalizing row with
  | nil => simp [scaleRow]
  | cons g fields ih =>
    obtain ⟨value, sq⟩ := ih (scaleOne g w row)
    rw [scaleRow_cons, value, sq, safeNum_scaleOne_value, safeNum_scaleOne_sq, List.count_cons]
    by_cases same : g = f
    · simp only [same, if_true, beq_self_eq_true, pow_succ]
      constructor <;> ring
    · simp only [if_neg same, beq_iff_eq, add_zero, one_mul, and_self]

end Scaling

section Weighed

/-- The tenor under which ingest looks up the weight of a field. -/
def weightTenor (schema : CalcSchema) (rc : String) (t : String) : Option String :=
  if isPerTenor schema rc then some t else none

/-- The weight that ingest gives a field of a document of the bucket. -/
def fieldWeight (schema : CalcSchema) (rc : String) (leg : FastLeg) (bucket t : String) : ℚ :=
  legWeight (resolveLegFields schema rc leg).sensitivityType (riskWeightTable schema rc) bucket
    (weightTenor schema rc t)

/-- The weighed fields of the document are its raw ones under ingest's weights. -/
def Weighed (schema : CalcSchema) (rc : String) (leg : FastLeg) (d : IndexDoc) : Prop :=
  ∀ side ∈ legSides leg, ∀ t ∈ fieldTenors schema rc,
    d.field (fieldFor "ws" (StorageWriter.lowerCase rc) side.2 t) =
      (d.field (fieldFor "s" (StorageWriter.lowerCase rc) side.2 t)).map
        fun x => fieldWeight schema rc leg d.bucket t * x

variable {schema : CalcSchema} {rc : String} {leg : FastLeg} {searchVer : ℕ}

/-- The merged rows of one request over the documents of one node. -/
def rowsOver (schema : CalcSchema) (rc : String) (leg : FastLeg) (lazyMath : Bool) (searchVer : ℕ)
    (node : Node) : Assoc String Record :=
  mergedRows (requestOf schema rc leg lazyMath).1 leg (requestOf schema rc leg lazyMath).2
    searchVer [node]

/-- Both requests over the same documents give every bucket the same sums, and
with them the same result. -/
def PathsAgree (schema : CalcSchema) (rc : String) (leg : FastLeg) (searchVer : ℕ)
    (slim fat : Node) : Prop :=
  ∀ b ≠ "",
    (∀ side ∈ legSides leg, ∀ t ∈ fieldTenors schema rc, ∀ part ∈ legParts leg,
      safeNum ((rowAt (rowsOver schema rc leg true searchVer slim) b).sums
          (sideName rc "s" side t part)) =
        safeNum ((rowAt (rowsOver schema rc leg false searchVer fat) b).sums
          (sideName rc "ws" side t part))) ∧
    ∀ rho perRf topN,
      let lazyResult := bucketResultFromRow b (rowAt (rowsOver schema rc leg true searchVer slim) b)
        (resolveSlimLegFields schema rc leg) leg rho (isPerTenor schema rc) perRf topN
      let fatResult := bucketResultFromRow b (rowAt (rowsOver schema rc leg false searchVer fat) b)
        (resolveLegFields schema rc leg) leg rho (isPerTenor schema rc) perRf topN
      lazyResult.kb = fatResult.kb ∧ lazyResult.sb = fatResult.sb

/-- The raw values of a bucket's documents in a field of Delta. -/
def rawValues (rc : String) (docs : List IndexDoc) (b t : String) : List ℚ :=
  (docsOf IndexDoc.bucket docs b).map fun d =>
    (d.field (fieldFor "s" (StorageWriter.lowerCase rc) "delta" t)).getD 0

/-- The weight reaches the sums, or does not matter to them. A weight per
bucket is applied once for each time the tenor is listed; other weights are in
the clause, which binds them to the field only from version 8 of the search
module on. -/
def WeightApplies (table : Option RiskWeightTable) (searchVer listed : ℕ) (w : ℚ)
    (values : List ℚ) : Prop :=
  (∀ x ∈ values, x = 0) ∨
  match table with
  | some (.byBucket _) => w ^ listed = w ∨ (w ^ listed = -w ∧ values.sum = 0)
  | _ => 80000 ≤ searchVer ∨ w = 1 ∨ (w = -1 ∧ values.sum = 0)

end Weighed

section Sums
variable {schema : CalcSchema} {rc : String} {leg : FastLeg} {searchVer : ℕ}

theorem safeValue_eq (searchVer : ℕ) (m : ℚ) (v : Option ℚ) :
    safeValue searchVer m v = (if 80000 ≤ searchVer then m else 1) * v.getD 0 := by
  unfold safeValue
  by_cases new : 80000 ≤ searchVer
  · rw [if_pos new]
    by_cases unit : m = 1
    · rw [if_pos (Or.inl unit), unit, one_mul]
    · rw [if_neg (by simp [unit, new]), mul_comm]
  · rw [if_neg new, if_pos (Or.inr (not_le.mp new)), one_mul]

theorem exactSum_value (searchVer : ℕ) (mult : String → ℚ) (pre : LegPrefix) (f : String)
    (docs : List IndexDoc) :
    exactSum searchVer mult ⟨pre, f, .value⟩ docs =
      (if 80000 ≤ searchVer then mult f else 1) * (docs.map fun d => (d.field f).getD 0).sum := by
  simp only [exactSum, partValue, safeValue_eq, List.sum_map_mul_left]

theorem exactSum_sq (searchVer : ℕ) (mult : String → ℚ) (pre : LegPrefix) (f : String)
    (docs : List IndexDoc) :
    exactSum searchVer mult ⟨pre, f, .sq⟩ docs =
      (if 80000 ≤ searchVer then mult f else 1) ^ 2 *
        (docs.map fun d => (d.field f).getD 0 * (d.field f).getD 0).sum := by
  have square : ∀ c x : ℚ, c * x * (c * x) = c ^ 2 * (x * x) := fun c x => by ring
  simp only [exactSum, partValue, safeValue_eq, square, List.sum_map_mul_left]

theorem fieldWeight_delta (schema : CalcSchema) (rc b t : String) :
    fieldWeight schema rc .delta b t =
      weightFor (riskWeightTable schema rc) b (weightTenor schema rc t) := by
  simp [fieldWeight, legWeight, resolveLegFields, resolveLegFieldsForPrefix]

theorem fieldWeight_of_ne_delta (other : leg ≠ .delta) (b t : String) :
    fieldWeight schema rc leg b t = 1 := by
  cases leg with
  | delta => exact absurd rfl other
  | vega => simp [fieldWeight, legWeight, resolveLegFields, resolveLegFieldsForPrefix]
  | curvature => simp [fieldWeight, legWeight, resolveLegFields, resolveLegFieldsForPrefix]

/-- The literal of a lazy Delta clause is ingest's weight, except that a weight
per bucket is left for later. -/
theorem requestMult_delta {t : String} (ht : t ∈ fieldTenors schema rc) (b : String) :
    requestMult schema rc .delta true (fieldFor "s" (StorageWriter.lowerCase rc) "delta" t) =
      match riskWeightTable schema rc with
      | some (.byBucket _) => 1
      | _ => fieldWeight schema rc .delta b t := by
  set field := fieldFor "s" (StorageWriter.lowerCase rc) "delta" with hfield
  have multiplies : applyMultipliers ((fieldTenors schema rc).map field)
      (some (resolveLazyMathWeights schema rc .delta (isPerTenor schema rc))) =
      ((fieldTenors schema rc).map field).map (requestMult schema rc .delta true) :=
    applyMultipliers_delta schema rc true
  have flat : ∀ v : ℚ, (((fieldTenors schema rc).map field).map fun _ => v) =
      ((fieldTenors schema rc).map field).map (requestMult schema rc .delta true) →
      requestMult schema rc .delta true (field t) = v := fun v same =>
    (List.map_inj_left.mp same (field t) (List.mem_map_of_mem ht)).symm
  rw [fieldWeight_delta]
  unfold resolveLazyMathWeights at multiplies
  rw [if_neg (by decide)] at multiplies
  cases htable : riskWeightTable schema rc with
  | none =>
    rw [htable] at multiplies
    exact flat 0 multiplies
  | some table =>
    rw [htable] at multiplies
    cases table with
    | constant weight => exact flat weight multiplies
    | byBucket weights => exact flat 1 multiplies
    | byTenor weights =>
      by_cases perTenor : isPerTenor schema rc = true
      · have tenors : fieldTenors schema rc = tenorNodesOf schema rc := if_pos perTenor
        have nonempty : tenorNodesOf schema rc ≠ [] := tenors ▸ fieldTenors_ne_nil schema rc
        dsimp only at multiplies
        rw [if_pos ⟨perTenor, nonempty⟩, ← tenors] at multiplies
        have vector : applyMultipliers ((fieldTenors schema rc).map field)
            (some (.byTenor ((fieldTenors schema rc).map fun t => (weights.lookup t).getD 0))) =
            (fieldTenors schema rc).map fun t => (weights.lookup t).getD 0 := by
          apply List.ext_getElem
          · simp [applyMultipliers]
          · intro i hi hi'
            rw [List.length_map] at hi'
            simp [applyMultipliers, hi']
        rw [vector, List.map_map] at multiplies
        have own := List.map_inj_left.mp multiplies t ht
        rw [weightTenor, if_pos perTenor]
        exact own.symm
      · dsimp only at multiplies
        rw [if_neg (fun h => perTenor h.1)] at multiplies
        rw [weightTenor, if_neg perTenor]
        exact flat 0 multiplies

/-- The sums of a request other than a lazy Delta. -/
theorem safeNum_plain (searchVer : ℕ) {lazyMath : Bool} (plain : lazyMath = false ∨ leg ≠ .delta)
    (node : Node) {b : String} (named : b ≠ "") {side : LegPrefix × String}
    (hside : side ∈ legSides leg)
    {t : String} (ht : t ∈ fieldTenors schema rc) {part : Part} (hpart : part ∈ legParts leg) :
    safeNum ((rowAt (rowsOver schema rc leg lazyMath searchVer node) b).sums
        (sideName rc (if lazyMath then "s" else "ws") side t part)) =
      exactSum searchVer (fun _ => 1) (sideName rc (if lazyMath then "s" else "ws") side t part)
        (docsOf IndexDoc.bucket node.docs b) := by
  have one : requestMult schema rc leg lazyMath = fun _ => 1 := funext (requestMult_eq_one plain)
  rw [rowsOver, rowAt_mergedRows, weighRow_of_plain plain,
    safeNum_single node named (sideName_mem lazyMath hside ht hpart), one]

/-- The weighed fields summed as they are. -/
theorem exactSum_weighed (searchVer : ℕ) {docs : List IndexDoc}
    (weighed : ∀ d ∈ docs, Weighed schema rc leg d)
    {side : LegPrefix × String} (hside : side ∈ legSides leg) {t : String}
    (ht : t ∈ fieldTenors schema rc) (part : Part) :
    exactSum searchVer (fun _ => 1) (sideName rc "ws" side t part) docs =
      (docs.map fun d => partValue part (fieldWeight schema rc leg d.bucket t *
        (d.field (fieldFor "s" (StorageWriter.lowerCase rc) side.2 t)).getD 0)).sum := by
  refine congrArg List.sum (List.map_congr_left fun d mem => ?_)
  have value := weighed d mem side hside t ht
  simp only [sideName, safeValue_eq, ite_self, one_mul, value]
  congr 1
  cases d.field (fieldFor "s" (StorageWriter.lowerCase rc) side.2 t) with
  | none => exact (mul_zero _).symm
  | some x => rfl

/-- Other legs than Delta have the weight one on both paths. -/
theorem pathsAgree_of_ne_delta (other : leg ≠ .delta) {slim fat : Node}
    (sameDocs : slim.docs = fat.docs) (weighed : ∀ d ∈ fat.docs, Weighed schema rc leg d) :
    ∀ b ≠ "", ∀ side ∈ legSides leg, ∀ t ∈ fieldTenors schema rc, ∀ part ∈ legParts leg,
      safeNum ((rowAt (rowsOver schema rc leg true searchVer slim) b).sums
          (sideName rc "s" side t part)) =
        safeNum ((rowAt (rowsOver schema rc leg false searchVer fat) b).sums
          (sideName rc "ws" side t part)) := by
  intro b named side hside t ht part hpart
  have lazySum := safeNum_plain searchVer (Or.inr other : true = false ∨ leg ≠ .delta) slim named
    hside ht hpart
  have fatSum := safeNum_plain searchVer (Or.inl rfl : false = false ∨ leg ≠ .delta) fat named
    hside ht hpart
  rw [if_pos rfl] at lazySum
  rw [if_neg Bool.false_ne_true] at fatSum
  have inBucket : ∀ d ∈ docsOf IndexDoc.bucket fat.docs b, Weighed schema rc leg d :=
    fun d mem => weighed d (List.mem_filter.mp mem).1
  rw [lazySum, fatSum, exactSum_weighed searchVer inBucket hside ht part, sameDocs]
  simp only [exactSum, sideName, safeValue_eq, ite_self, one_mul, fieldWeight_of_ne_delta other]

/-- The factor between the raw values and the sums of a lazy Delta. -/
def lazyFactor (table : Option RiskWeightTable) (searchVer listed : ℕ) (w : ℚ) : ℚ :=
  match table with
  | some (.byBucket _) => w ^ listed
  | _ => if 80000 ≤ searchVer then w else 1

/-- How often the class has a field for the tenor. -/
def listedTimes (schema : CalcSchema) (rc t : String) : ℕ := (fieldTenors schema rc).count t

theorem weighRow_lazy_delta (b : String) (row : Record) :
    weighRow .delta (requestOf schema rc .delta true).1 (requestOf schema rc .delta true).2 b row =
      match riskWeightTable schema rc with
      | some (.byBucket weights) =>
        if (weights.lookup b).getD 0 = 1 then row
        else scaleRow (requestOf schema rc .delta true).1.delta ((weights.lookup b).getD 0) row
      | _ => row := by
  have spec : (requestOf schema rc .delta true).2 =
      some (resolveLazyMathWeights schema rc .delta (isPerTenor schema rc)) := rfl
  rw [spec]
  unfold resolveLazyMathWeights
  rw [if_neg (by decide)]
  cases riskWeightTable schema rc with
  | none => rfl
  | some table =>
    cases table with
    | constant weight => rfl
    | byBucket weights => rfl
    | byTenor weights =>
      dsimp only
      by_cases perTenor : isPerTenor schema rc = true ∧ tenorNodesOf schema rc ≠ []
      · rw [if_pos perTenor]
        rfl
      · rw [if_neg perTenor]
        rfl

/-- The scaling by a bucket's weight, also where it is left out. -/
theorem safeNum_weighed (fields : List String) (w : ℚ) (row : Record) (f : String) :
    safeNum ((if w = 1 then row else scaleRow fields w row).sums ⟨.d, f, .value⟩) =
        w ^ fields.count f * safeNum (row.sums ⟨.d, f, .value⟩) ∧
      safeNum ((if w = 1 then row else scaleRow fields w row).sums ⟨.d, f, .sq⟩) =
        (w ^ fields.count f) ^ 2 * safeNum (row.sums ⟨.d, f, .sq⟩) := by
  obtain ⟨value, sq⟩ := safeNum_scaleRow fields w row f
  by_cases unit : w = 1
  · rw [if_pos unit, unit]
    simp only [one_pow, one_mul, and_self]
  · rw [if_neg unit, value, sq, mul_pow, pow_two]
    exact ⟨rfl, rfl⟩

theorem lazy_delta_sums (searchVer : ℕ) (slim : Node) {b : String} (named : b ≠ "") {t : String}
    (ht : t ∈ fieldTenors schema rc) :
    let factor := lazyFactor (riskWeightTable schema rc) searchVer (listedTimes schema rc t)
      (fieldWeight schema rc .delta b t)
    let values := rawValues rc slim.docs b t
    safeNum ((rowAt (rowsOver schema rc .delta true searchVer slim) b).sums
        (sideName rc "s" (.d, "delta") t .value)) = factor * values.sum ∧
      safeNum ((rowAt (rowsOver schema rc .delta true searchVer slim) b).sums
        (sideName rc "s" (.d, "delta") t .sq)) = factor ^ 2 * (values.map fun x => x * x).sum := by
  intro factor values
  have mem : ∀ part ∈ legParts .delta, sideName rc "s" (.d, "delta") t part ∈
      sumNames (requestItems true (requestOf schema rc .delta true).1) :=
    fun part hpart => sideName_mem true (by simp [legSides]) ht hpart
  have rawValue : safeNum ((rowAt (unweighedRows schema rc .delta true searchVer [slim]) b).sums
      (sideName rc "s" (.d, "delta") t .value)) =
      (if 80000 ≤ searchVer then requestMult schema rc .delta true
        (fieldFor "s" (StorageWriter.lowerCase rc) "delta" t) else 1) * values.sum := by
    rw [safeNum_single slim named (mem .value (by simp [legParts])), sideName, exactSum_value]
    rfl
  have rawSq : safeNum ((rowAt (unweighedRows schema rc .delta true searchVer [slim]) b).sums
      (sideName rc "s" (.d, "delta") t .sq)) =
      (if 80000 ≤ searchVer then requestMult schema rc .delta true
        (fieldFor "s" (StorageWriter.lowerCase rc) "delta" t) else 1) ^ 2 *
          (values.map fun x => x * x).sum := by
    rw [safeNum_single slim named (mem .sq (by simp [legParts])), sideName, exactSum_sq]
    simp only [values, rawValues, List.map_map, Function.comp_def]
  rw [requestMult_delta ht b] at rawValue rawSq
  rw [rowsOver, rowAt_mergedRows, weighRow_lazy_delta]
  have listed : (requestOf schema rc .delta true).1.delta.count
      (fieldFor "s" (StorageWriter.lowerCase rc) "delta" t) = listedTimes schema rc t :=
    List.count_map_of_injective _ _ (fieldFor_injective _ _ _) t
  simp only [factor, lazyFactor]
  cases htable : riskWeightTable schema rc with
  | none =>
    rw [htable] at rawValue rawSq
    exact ⟨rawValue, rawSq⟩
  | some table =>
    rw [htable] at rawValue rawSq
    cases table with
    | constant weight => exact ⟨rawValue, rawSq⟩
    | byTenor weights => exact ⟨rawValue, rawSq⟩
    | byBucket weights =>
      have weight : fieldWeight schema rc .delta b t = (weights.lookup b).getD 0 := by
        rw [fieldWeight_delta, htable]
        rfl
      obtain ⟨value, sq⟩ := safeNum_weighed (requestOf schema rc .delta true).1.delta
        ((weights.lookup b).getD 0)
        (rowAt (unweighedRows schema rc .delta true searchVer [slim]) b)
        (fieldFor "s" (StorageWriter.lowerCase rc) "delta" t)
      dsimp only at rawValue rawSq ⊢
      rw [ite_self, one_mul] at rawValue
      rw [ite_self, one_pow, one_mul] at rawSq
      rw [weight, ← listed]
      rw [sideName] at rawValue rawSq ⊢
      rw [value, rawValue, sideName, sq, rawSq]
      exact ⟨rfl, rfl⟩

theorem fat_delta_sums (searchVer : ℕ) (fat : Node)
    (weighed : ∀ d ∈ fat.docs, Weighed schema rc .delta d) {b : String} (named : b ≠ "")
    {t : String} (ht : t ∈ fieldTenors schema rc) :
    let w := fieldWeight schema rc .delta b t
    let values := rawValues rc fat.docs b t
    safeNum ((rowAt (rowsOver schema rc .delta false searchVer fat) b).sums
        (sideName rc "ws" (.d, "delta") t .value)) = w * values.sum ∧
      safeNum ((rowAt (rowsOver schema rc .delta false searchVer fat) b).sums
        (sideName rc "ws" (.d, "delta") t .sq)) = w ^ 2 * (values.map fun x => x * x).sum := by
  intro w values
  have inBucket : ∀ d ∈ docsOf IndexDoc.bucket fat.docs b, Weighed schema rc .delta d :=
    fun d mem => weighed d (List.mem_filter.mp mem).1
  have bucket : ∀ d ∈ docsOf IndexDoc.bucket fat.docs b, d.bucket = b :=
    fun d mem => of_decide_eq_true (List.mem_filter.mp mem).2
  have side : ((.d, "delta") : LegPrefix × String) ∈ legSides .delta := by simp [legSides]
  have sums : ∀ part ∈ legParts .delta,
      safeNum ((rowAt (rowsOver schema rc .delta false searchVer fat) b).sums
        (sideName rc "ws" (.d, "delta") t part)) =
        (values.map fun x => partValue part (w * x)).sum := by
    intro part hpart
    have fatSum := safeNum_plain searchVer (Or.inl rfl : false = false ∨ FastLeg.delta ≠ .delta)
      fat named side ht hpart
    rw [if_neg Bool.false_ne_true, exactSum_weighed searchVer inBucket side ht part] at fatSum
    rw [fatSum]
    simp only [values, rawValues, List.map_map, Function.comp_def]
    refine congrArg List.sum (List.map_congr_left fun d mem => ?_)
    rw [bucket d mem]
  have square : ∀ x : ℚ, w * x * (w * x) = w ^ 2 * (x * x) := fun x => by ring
  constructor
  · rw [sums .value (by simp [legParts])]
    have scaled := List.sum_map_mul_left values (fun x : ℚ => x) w
    rwa [List.map_id'] at scaled
  · rw [sums .sq (by simp [legParts])]
    simp only [partValue, square, List.sum_map_mul_left]

end Sums

section Agreement
variable {schema : CalcSchema} {rc : String} {leg : FastLeg} {searchVer : ℕ}

/-- A sum of squares is zero only for zeros. -/
theorem sum_squares_eq_zero_iff (values : List ℚ) :
    (values.map fun x => x * x).sum = 0 ↔ ∀ x ∈ values, x = 0 := by
  induction values with
  | nil => simp
  | cons x values ih =>
    have rest : 0 ≤ (values.map fun x => x * x).sum := by
      apply List.sum_nonneg
      intro y mem
      obtain ⟨z, _, rfl⟩ := List.mem_map.mp mem
      exact mul_self_nonneg z
    rw [List.map_cons, List.sum_cons, add_eq_zero_iff_of_nonneg (mul_self_nonneg x) rest,
      mul_self_eq_zero, ih, List.forall_mem_cons]

/-- Two factors give the same sum and the same sum of squares. -/
theorem factors_agree_iff (factor w : ℚ) (values : List ℚ) :
    (factor * values.sum = w * values.sum ∧
      factor ^ 2 * (values.map fun x => x * x).sum = w ^ 2 * (values.map fun x => x * x).sum) ↔
    (∀ x ∈ values, x = 0) ∨ factor = w ∨ (factor = -w ∧ values.sum = 0) := by
  rw [mul_eq_mul_right_iff, mul_eq_mul_right_iff, sum_squares_eq_zero_iff,
    sq_eq_sq_iff_eq_or_eq_neg]
  have zeros : (∀ x ∈ values, x = 0) → values.sum = 0 := List.sum_eq_zero
  tauto

theorem weightApplies_iff (table : Option RiskWeightTable) (searchVer listed : ℕ) (w : ℚ)
    (values : List ℚ) :
    WeightApplies table searchVer listed w values ↔
      (∀ x ∈ values, x = 0) ∨ lazyFactor table searchVer listed w = w ∨
        (lazyFactor table searchVer listed w = -w ∧ values.sum = 0) := by
  have literal : (80000 ≤ searchVer ∨ w = 1 ∨ (w = -1 ∧ values.sum = 0)) ∨
      (∀ x ∈ values, x = 0) ↔
      ((if 80000 ≤ searchVer then w else 1) = w ∨
        ((if 80000 ≤ searchVer then w else 1) = -w ∧ values.sum = 0)) ∨
      (∀ x ∈ values, x = 0) := by
    by_cases new : 80000 ≤ searchVer
    · simp [new]
    · have one : (1 : ℚ) = w ↔ w = 1 := eq_comm
      have minus : (1 : ℚ) = -w ↔ w = -1 := by
        constructor
        · intro h
          linarith
        · intro h
          linarith
      simp only [new, false_or, if_false, one, minus]
  unfold WeightApplies lazyFactor
  cases table with
  | none => rw [or_comm, literal, or_comm]
  | some table =>
    cases table with
    | byBucket weights => exact Iff.rfl
    | byTenor weights => rw [or_comm, literal, or_comm]
    | constant weight => rw [or_comm, literal, or_comm]

/-- Both paths give the same sums and results exactly where the weight of every
Delta field applies to the bucket's raw values. -/
theorem pathsAgree_iff_weightApplies (slim fat : Node) (sameDocs : slim.docs = fat.docs)
    (weighed : ∀ d ∈ fat.docs, Weighed schema rc leg d) :
    PathsAgree schema rc leg searchVer slim fat ↔
      (leg = .delta → ∀ b ≠ "", ∀ t ∈ fieldTenors schema rc,
        WeightApplies (riskWeightTable schema rc) searchVer (listedTimes schema rc t)
          (fieldWeight schema rc leg b t) (rawValues rc fat.docs b t)) := by
  have sums_suffice : (∀ b ≠ "", ∀ side ∈ legSides leg, ∀ t ∈ fieldTenors schema rc,
      ∀ part ∈ legParts leg,
        safeNum ((rowAt (rowsOver schema rc leg true searchVer slim) b).sums
            (sideName rc "s" side t part)) =
          safeNum ((rowAt (rowsOver schema rc leg false searchVer fat) b).sums
            (sideName rc "ws" side t part))) → PathsAgree schema rc leg searchVer slim fat := by
    intro sums b named
    exact ⟨sums b named, fun rho perRf topN => bucketResultFromRow_congr (sums b named)⟩
  by_cases delta : leg = .delta
  · subst delta
    have sums_iff : ∀ b ≠ "", ∀ t ∈ fieldTenors schema rc,
        (∀ part ∈ legParts .delta,
          safeNum ((rowAt (rowsOver schema rc .delta true searchVer slim) b).sums
              (sideName rc "s" (.d, "delta") t part)) =
            safeNum ((rowAt (rowsOver schema rc .delta false searchVer fat) b).sums
              (sideName rc "ws" (.d, "delta") t part))) ↔
        WeightApplies (riskWeightTable schema rc) searchVer (listedTimes schema rc t)
          (fieldWeight schema rc .delta b t) (rawValues rc fat.docs b t) := by
      intro b named t ht
      obtain ⟨lazyValue, lazySq⟩ := lazy_delta_sums searchVer slim named ht
      obtain ⟨fatValue, fatSq⟩ := fat_delta_sums searchVer fat weighed named ht
      rw [sameDocs] at lazyValue lazySq
      rw [weightApplies_iff, ← factors_agree_iff]
      simp only [legParts, List.forall_mem_cons, List.not_mem_nil, false_implies, implies_true,
        and_true, lazyValue, lazySq, fatValue, fatSq]
    constructor
    · intro agree _ b named t ht
      exact (sums_iff b named t ht).mp ((agree b named).1 _ (by simp [legSides]) t ht)
    · intro applies
      apply sums_suffice
      intro b named side hside t ht
      obtain rfl := List.mem_singleton.mp hside
      exact (sums_iff b named t ht).mpr (applies rfl b named t ht)
  · constructor
    · intro _ isDelta
      exact absurd isDelta delta
    · intro _
      exact sums_suffice (pathsAgree_of_ne_delta delta sameDocs weighed)

/-- An FX row of 5 under the weight 1/5, as both indexes hold it. -/
def fxDeltaDoc : IndexDoc where
  bucket := "EUR"
  riskFactor := "EURUSD"
  field := fun f => if f = "s_fx_delta" then some 5 else if f = "ws_fx_delta" then some 1 else none

def fxDeltaNode : Node := ⟨[fxDeltaDoc], fun _ _ => false, fun _ _ => false⟩

theorem fxDeltaNode_weighed :
    ∀ d ∈ fxDeltaNode.docs, Weighed CurvatureKernel.fxSchema "FX" .delta d := by
  unfold Weighed
  decide +kernel

theorem pathsAgree_iff_weightApplies_fx :
    PathsAgree CurvatureKernel.fxSchema "FX" .delta 80205 fxDeltaNode fxDeltaNode := by
  refine (pathsAgree_iff_weightApplies fxDeltaNode fxDeltaNode rfl fxDeltaNode_weighed).mpr ?_
  intro _ b _ t _
  have table : riskWeightTable CurvatureKernel.fxSchema "FX" = some (.constant (1 / 5)) := rfl
  rw [table]
  exact Or.inr (Or.inl (by decide))

/-- Before version 8 the clause `(@s_fx_delta+0*0.2)` leaves the value unweighed. -/
theorem lazy_sum_unweighed :
    (∀ d ∈ fxDeltaNode.docs, Weighed CurvatureKernel.fxSchema "FX" .delta d) ∧
      ¬PathsAgree CurvatureKernel.fxSchema "FX" .delta 20810 fxDeltaNode fxDeltaNode := by
  refine ⟨fxDeltaNode_weighed, ?_⟩
  intro agree
  have same := (agree "EUR" (by decide)).1 (.d, "delta") (by decide) "" (by decide +kernel) .value
    (by decide)
  revert same
  decide +kernel

end Agreement

end LazyMath
