import Frtb.ShardPlacement
import Frtb.SlimAgreement
import Frtb.ConstantRho

/-!
# What the fast path reports of enriched rows

Each row that ingest has enriched adds its weighted numbers to the sums of its bucket, so the
report of the bucket is a closed form of the columns of these numbers.
-/

namespace EnrichedReports

open AssocMaps EnrichDoc StorageWriter SlimWriter IndexedRows FastPath FastPathSums
open FastPathRows ConstantRho CurvatureKernel ShardPlacement AliasNames

section Columns
variable {schema : CalcSchema} {row : Row} {root t : String}

/-- A row as ingest stores it and the index sees it. -/
def indexed (schema : CalcSchema) (row : Row) : IndexDoc :=
  indexDocOf (enrichDoc row.doc (some schema.toSchema))

/-- The label of a tenor; a scalar class has the empty one. -/
def labelOf (t : String) : Option String := if t = "" then none else some t

/-- The weighted numbers of the rows at a tenor. -/
def column (schema : CalcSchema) (rows : List Row) (root t : String) : List ℚ :=
  rows.map fun r => r.weighted schema.toSchema root (labelOf t)

theorem fieldFor_eq (lower root t : String) :
    fieldFor "ws" lower root t = "ws_" ++ legName lower root (labelOf t) := by
  apply String.toList_injective
  by_cases empty : t = ""
  · simp [fieldFor, legName, labelOf, empty]
  · simp [fieldFor, legName, labelOf, empty]

theorem field_indexed (schema : CalcSchema) (row : Row) (t : String) (known : root ∈ wsLegs) :
    ((indexed schema row).field (fieldFor "ws" (lowerCase row.riskClass) root t)).getD 0 =
      row.weighted schema.toSchema root (labelOf t) := by
  rw [fieldFor_eq, ← numberUnder_ingest row schema.toSchema known]
  rfl

/-- Enrichment leaves the fields of the row alone. -/
theorem lookup_enriched {name : String} (own : name ∉ "_calibration" :: weightedNames) :
    (enrichDoc row.doc (some schema.toSchema)).lookup name = row.doc.lookup name := by
  rw [List.mem_cons, not_or] at own
  refine enrichDoc_keeps (P := fun d => d.lookup name = row.doc.lookup name) ?_ ?_
  · exact AList.lookup_insert_ne own.1
  · intro d written v kept listed
    have apart : name ≠ written := fun same => own.2 (by rw [same]; exact listed)
    rw [AList.lookup_insert_ne apart]
    exact kept

theorem bucket_indexed : (indexed schema row).bucket = row.bucket := by
  change textOf (enrichDoc row.doc (some schema.toSchema)) "bucket" = row.bucket
  rw [textOf, lookup_enriched (by decide), lookup_doc_tag (by decide)]
  rfl

end Columns

section Figures

/-- What is shown of a bucket. -/
structure Figures where
  kb : ℝ
  sb : ℚ
  count : ℚ

/-- The figures of a report; zeros where the bucket is not there. -/
noncomputable def figuresOf (report : Option BucketReport) : Figures :=
  match report with
  | some r => ⟨r.kb, r.sb, r.count⟩
  | none => ⟨0, 0, 0⟩

noncomputable def constantRhoFigures (sumWs sumWsSq rho : ℚ) (count : ℕ) : Figures :=
  ⟨(kbFromConstantRho sumWs sumWsSq rho).1, sumWs, count⟩

noncomputable def curvatureFigures (up down : List ℚ) (rho : ℚ) (count : ℕ) : Figures :=
  let r := resolveBucketCurvature "" up down rho count
  ⟨r.kb, r.sb, count⟩

/-- The name of the bucket is not part of its figures. -/
theorem curvatureFigures_eq (bucket : String) (up down : List ℚ) (rho : ℚ) (count : ℕ) :
    curvatureFigures up down rho count =
      ⟨(resolveBucketCurvature bucket up down rho count).kb,
        (resolveBucketCurvature bucket up down rho count).sb, count⟩ := by
  unfold curvatureFigures resolveBucketCurvature
  dsimp only
  split_ifs <;> rfl

/-- The sums of the columns of a leg. -/
def columnSums (schema : CalcSchema) (rc : String) (rows : List Row) (root : String) : List ℚ :=
  (fieldTenors schema rc).map fun t => (column schema rows root t).sum

/-- The squares of all numbers of a leg. -/
def columnSquares (schema : CalcSchema) (rc : String) (rows : List Row) (root : String) : ℚ :=
  ((fieldTenors schema rc).map fun t => squares (column schema rows root t)).sum

/-- The closed form of a bucket's figures. -/
noncomputable def enrichedFigures (schema : CalcSchema) (rc : String) (leg : FastLeg)
    (rows : List Row) : Figures :=
  let sums := columnSums schema rc rows
  let rho := resolveRho schema rc leg
  match leg with
  | .delta =>
    constantRhoFigures (sums "delta").sum (if isPerTenor schema rc then squares (sums "delta")
      else columnSquares schema rc rows "delta") rho rows.length
  | .vega =>
    constantRhoFigures (sums "vega").sum (columnSquares schema rc rows "vega") rho rows.length
  | .curvature =>
    if isPerTenor schema rc then curvatureFigures (sums "cvr_up") (sums "cvr_down") rho rows.length
    else curvatureFigures (column schema rows "cvr_up" "") (column schema rows "cvr_down" "") rho
      rows.length

theorem constantRhoFigures_zero (rho : ℚ) : constantRhoFigures 0 0 rho 0 = ⟨0, 0, 0⟩ := by
  simp [constantRhoFigures, kbFromConstantRho]

theorem curvatureFigures_zero {up down : List ℚ} (ups : ∀ x ∈ up, x = 0)
    (downs : ∀ x ∈ down, x = 0) (rho : ℚ) : curvatureFigures up down rho 0 = ⟨0, 0, 0⟩ := by
  have zero : ∀ l : List ℚ, (∀ x ∈ l, x = 0) → l.sum = 0 ∧ kbSquaredForDirection l rho = 0 := by
    intro l zeros
    obtain ⟨n, rfl⟩ : ∃ n, l = List.replicate n 0 := ⟨l.length, List.eq_replicate_of_mem zeros⟩
    rw [kbSquaredForDirection_eq]
    simp [negativeOf]
  simp [curvatureFigures, resolveBucketCurvature, zero up ups, zero down downs]

/-- Without rows all figures are zero. -/
theorem enrichedFigures_nil (schema : CalcSchema) (rc : String) (leg : FastLeg) :
    enrichedFigures schema rc leg [] = ⟨0, 0, 0⟩ := by
  have sums : ∀ root, ∀ x ∈ columnSums schema rc [] root, x = 0 := by
    intro root x mem
    obtain ⟨t, -, rfl⟩ := List.mem_map.mp mem
    rfl
  have total : ∀ root, (columnSums schema rc [] root).sum = 0 :=
    fun root => List.sum_eq_zero (sums root)
  have squared : ∀ root, squares (columnSums schema rc [] root) = 0 := by
    intro root
    refine List.sum_eq_zero fun x mem => ?_
    obtain ⟨y, here, rfl⟩ := List.mem_map.mp mem
    rw [sums root y here, mul_zero]
  have each : ∀ root, columnSquares schema rc [] root = 0 := by
    intro root
    refine List.sum_eq_zero fun x mem => ?_
    obtain ⟨t, -, rfl⟩ := List.mem_map.mp mem
    rfl
  unfold enrichedFigures
  cases leg with
  | delta =>
    dsimp only
    rw [total, squared, each, ite_self]
    exact constantRhoFigures_zero _
  | vega =>
    dsimp only
    rw [total, each]
    exact constantRhoFigures_zero _
  | curvature =>
    dsimp only
    split
    · exact curvatureFigures_zero (sums "cvr_up") (sums "cvr_down") _
    · have empty : ∀ root, ∀ x ∈ column schema [] root "", x = 0 :=
        fun _ _ mem => absurd mem List.not_mem_nil
      exact curvatureFigures_zero (empty "cvr_up") (empty "cvr_down") _

end Figures

section Report
variable {schema : CalcSchema} {rc : String} {leg : FastLeg} {searchVer : ℕ} {nodes : List Node}
  {rows : List Row} {b : String}

/-- The nodes hold the rows of one bucket, and no sum of it is lost. -/
structure Holds (schema : CalcSchema) (rc : String) (leg : FastLeg) (searchVer : ℕ)
    (nodes : List Node) (b : String) (rows : List Row) : Prop where
  named : b ≠ ""
  docs : (docsOf IndexDoc.bucket (nodes.flatMap Node.docs) b).Perm (rows.map (indexed schema))
  class_ : ∀ r ∈ rows, r.riskClass = rc
  whole : Whole searchVer (requestMult schema rc leg false)
    (requestItems true (requestOf schema rc leg false).1) IndexDoc.bucket
    (nodes.flatMap Node.docs) (someNan Node.docs Node.nan IndexDoc.bucket nodes) b

theorem side_known {side : LegPrefix × String} (mem : side ∈ legSides leg) : side.2 ∈ wsLegs := by
  cases leg <;> simp only [legSides, List.mem_cons, List.not_mem_nil, or_false] at mem
  · rw [mem]
    decide
  · rw [mem]
    decide
  · rcases mem with rfl | rfl <;> decide

/-- A merged row that shows the sums of the columns. -/
def Shows (schema : CalcSchema) (rc : String) (leg : FastLeg) (rows : List Row) (row : Record) :
    Prop :=
  ∀ side ∈ legSides leg, ∀ t ∈ fieldTenors schema rc, ∀ part ∈ legParts leg,
    safeNum (row.sums (sideName rc "ws" side t part)) =
      ((column schema rows side.2 t).map (partValue part)).sum

theorem shows_mergedRow (holds : Holds schema rc leg searchVer nodes b rows) :
    Shows schema rc leg rows
      (rowAt (mergedRows (requestOf schema rc leg false).1 leg none searchVer nodes) b) := by
  intro side hside t ht part hpart
  have merged := mapOf_unweighedRows schema rc leg false searchVer nodes
  have listed : sideName rc "ws" side t part ∈
      sumNames (requestItems true (requestOf schema rc leg false).1) :=
    sideName_mem false hside ht hpart
  have row : rowAt (mergedRows (requestOf schema rc leg false).1 leg none searchVer nodes) b =
      rowAt (unweighedRows schema rc leg false searchVer nodes) b :=
    rowAt_mergedRows nodes b
  rw [row, safeNum_rowAt_whole merged (decide_eq_true holds.named) holds.whole listed, exactSum,
    (holds.docs.map _).sum_eq, List.map_map, column, List.map_map]
  refine congrArg List.sum (List.map_congr_left fun r mem => ?_)
  have unit : requestMult schema rc leg false (fieldFor "ws" (lowerCase rc) side.2 t) = 1 :=
    requestMult_eq_one (.inl rfl) _
  have own := field_indexed schema r t (side_known hside)
  rw [holds.class_ r mem] at own
  simp only [Function.comp_apply, sideName, unit, safeValue, true_or, if_true, own]

section Shown
variable {row : Record} {side : LegPrefix × String}

theorem Shows.values (shows : Shows schema rc leg rows row) (hside : side ∈ legSides leg)
    {part : Part} (hpart : part ∈ legParts leg) :
    ((fieldTenors schema rc).map (fieldFor "ws" (lowerCase rc) side.2)).map (fun f =>
        safeNum (row.sums ⟨side.1, f, part⟩)) =
      (fieldTenors schema rc).map fun t =>
        ((column schema rows side.2 t).map (partValue part)).sum := by
  rw [List.map_map]
  exact List.map_congr_left fun t ht => shows side hside t ht part hpart

theorem Shows.sums (shows : Shows schema rc leg rows row) (hside : side ∈ legSides leg) :
    ((fieldTenors schema rc).map (fieldFor "ws" (lowerCase rc) side.2)).map (fun f =>
        safeNum (row.sums ⟨side.1, f, .value⟩)) = columnSums schema rc rows side.2 := by
  have listed : Part.value ∈ legParts leg := by
    cases leg <;> simp [legParts]
  rw [shows.values hside listed, columnSums]
  refine List.map_congr_left fun t _ => ?_
  rw [show partValue .value = fun x => x from rfl, List.map_id']

/-- The two totals of a leg: a per-tenor Delta has the squares of the sums, the others the sums of
the squares. -/
theorem Shows.legSums (shows : Shows schema rc leg rows row) (hside : side ∈ legSides leg)
    (perTenor : Bool) :
    legSums row ((fieldTenors schema rc).map (fieldFor "ws" (lowerCase rc) side.2)) side.1
        perTenor =
      ((columnSums schema rc rows side.2).sum,
        if perTenor = true ∧ side.1 = .d then squares (columnSums schema rc rows side.2)
        else columnSquares schema rc rows side.2) := by
  have listed : Part.sq ∈ legParts leg := by
    cases leg <;> simp [legParts]
  unfold FastPath.legSums
  simp only [shows.sums hside, shows.values hside listed, Bool.and_eq_true, decide_eq_true_eq]
  split_ifs <;> rfl

/-- The numbers of one direction: the sums of the tenors, or those of the rows. -/
def directionOf (schema : CalcSchema) (rc : String) (rows : List Row) (root : String) : List ℚ :=
  if isPerTenor schema rc then columnSums schema rc rows root else column schema rows root ""

theorem Shows.direction (shows : Shows schema rc .curvature rows row)
    (hside : side ∈ legSides .curvature) (rho : ℚ) :
    let d := kbCurvatureForDirection row
      ((fieldTenors schema rc).map (fieldFor "ws" (lowerCase rc) side.2)) side.1 rho
      (isPerTenor schema rc)
    d.kb = √((max 0 (kbSquaredForDirection (directionOf schema rc rows side.2) rho) : ℚ) : ℝ) ∧
      d.sb = (directionOf schema rc rows side.2).sum := by
  dsimp only
  unfold directionOf
  cases perTenor : isPerTenor schema rc with
  | true =>
    simp only [kbCurvatureForDirection, if_true, shows.sums hside, and_self]
  | false =>
    have scalar : fieldTenors schema rc = [""] := by
      rw [fieldTenors, perTenor, if_neg Bool.false_ne_true]
    rw [scalar, List.map_singleton, if_neg Bool.false_ne_true]
    refine kbCurvatureForDirection_eq rho fun part => ?_
    exact shows side hside "" (scalar ▸ List.mem_singleton.mpr rfl) part
      (by cases part <;> simp [legParts])

variable {perRf : List (String × Record)} {topN : Option ℕ}

theorem Shows.curvature (shows : Shows schema rc .curvature rows row)
    (counted : safeNum (some row.rowCount) = rows.length) :
    figuresOf (some (bucketResultFromRow b row (resolveLegFieldsForPrefix schema rc .curvature "ws")
        .curvature (resolveRho schema rc .curvature) (isPerTenor schema rc) perRf topN)) =
      curvatureFigures (directionOf schema rc rows "cvr_up") (directionOf schema rc rows "cvr_down")
        (resolveRho schema rc .curvature) rows.length := by
  have upSide : ((.u, "cvr_up") : LegPrefix × String) ∈ legSides .curvature := List.mem_cons_self
  have downSide : ((.n, "cvr_down") : LegPrefix × String) ∈ legSides .curvature :=
    List.mem_cons_of_mem _ List.mem_cons_self
  have up := shows.direction upSide (resolveRho schema rc .curvature)
  have down := shows.direction downSide (resolveRho schema rc .curvature)
  have ups : (resolveLegFieldsForPrefix schema rc .curvature "ws").cvrUp =
      (fieldTenors schema rc).map (fieldFor "ws" (lowerCase rc) "cvr_up") := rfl
  have downs : (resolveLegFieldsForPrefix schema rc .curvature "ws").cvrDown =
      (fieldTenors schema rc).map (fieldFor "ws" (lowerCase rc) "cvr_down") := rfl
  dsimp only at up down
  rw [← ups] at up
  rw [← downs] at down
  obtain ⟨kb, sb⟩ := bucketResultFromRow_eq_resolveBucketCurvature b perRf topN rows.length
    up.1 up.2 down.1 down.2
  have count : (bucketResultFromRow b row (resolveLegFieldsForPrefix schema rc .curvature "ws")
      .curvature (resolveRho schema rc .curvature) (isPerTenor schema rc) perRf topN).count =
      rows.length := counted
  rw [figuresOf, kb, sb, count, curvatureFigures_eq b]

/-- What is reported of such a row. -/
theorem Shows.figures (shows : Shows schema rc leg rows row)
    (counted : safeNum (some row.rowCount) = rows.length) :
    figuresOf (some (bucketResultFromRow b row (resolveLegFieldsForPrefix schema rc leg "ws") leg
        (resolveRho schema rc leg) (isPerTenor schema rc) perRf topN)) =
      enrichedFigures schema rc leg rows := by
  cases leg with
  | delta =>
    have deltaSide : ((.d, "delta") : LegPrefix × String) ∈ legSides .delta := List.mem_cons_self
    have sums := shows.legSums deltaSide (isPerTenor schema rc)
    simp only [and_true] at sums
    simp only [figuresOf, bucketResultFromRow, resolveLegFieldsForPrefix, sums, counted]
    rfl
  | vega =>
    have vegaSide : ((.v, "vega") : LegPrefix × String) ∈ legSides .vega := List.mem_cons_self
    have sums := shows.legSums vegaSide (isPerTenor schema rc)
    simp only [reduceCtorEq, and_false, if_false] at sums
    simp only [figuresOf, bucketResultFromRow, resolveLegFieldsForPrefix, sums, counted]
    rfl
  | curvature =>
    refine (shows.curvature counted).trans ?_
    unfold enrichedFigures directionOf
    dsimp only
    split <;> rfl

end Shown

/-- The report of a bucket is the closed form of its columns. -/
theorem figuresOf_aggregate (upper : upperCase rc = rc) (topN : Option ℕ)
    (answerable : RowsAnswerable schema rc nodes)
    (holds : Holds schema rc leg searchVer nodes b rows) :
    figuresOf ((aggregateBucketsViaIndex schema rc leg false topN searchVer nodes).lookup b) =
      enrichedFigures schema rc leg rows := by
  have merged := mapOf_unweighedRows schema rc leg false searchVer nodes
  have plain : (mergedRows (requestOf schema rc leg false).1 leg none searchVer nodes).lookup b =
      ((unweighedRows schema rc leg false searchVer nodes).lookup b).map id :=
    lookup_mergedRows nodes b
  rw [Option.map_id, id] at plain
  have present := merged b
  have length : (docsOf IndexDoc.bucket (nodes.flatMap Node.docs) b).length = rows.length := by
    rw [holds.docs.length_eq, List.length_map]
  have unweighted : (requestOf schema rc leg false).2 = none := rfl
  rw [lookup_aggregateBucketsViaIndex _ _ _ _ _ _ answerable.bucket, upper, unweighted]
  by_cases none_ : rows = []
  · have empty : docsOf IndexDoc.bucket (nodes.flatMap Node.docs) b = [] := by
      rw [← List.length_eq_zero_iff, length, none_]
      rfl
    rw [if_neg fun both => both.2 empty] at present
    rw [plain, present, none_, enrichedFigures_nil]
    rfl
  · have some_ : docsOf IndexDoc.bucket (nodes.flatMap Node.docs) b ≠ [] := by
      intro empty
      rw [empty] at length
      exact none_ (List.length_eq_zero_iff.mp length.symm)
    rw [if_pos ⟨decide_eq_true holds.named, some_⟩] at present
    obtain ⟨row, found, -⟩ := present
    have own : rowAt (mergedRows (requestOf schema rc leg false).1 leg none searchVer nodes) b =
        row := by
      rw [rowAt, plain, found]
      rfl
    have counted : safeNum (some row.rowCount) = (rows.length : ℚ) := by
      have count := rowCount_rowAt merged (decide_eq_true holds.named : decide (b ≠ "") = true)
      rwa [rowAt, found, length] at count
    rw [plain, found, Option.map_some, requestOf_fields]
    exact (own ▸ shows_mergedRow holds).figures counted

/-- The rows of a bucket on one node lose no sum: a node that has none of them reports nothing of
the bucket. -/
theorem holds_of_oneNode {before after : List Node} {node : Node} (named : b ≠ "")
    (class_ : ∀ r ∈ rows, r.riskClass = rc)
    (here : (docsOf IndexDoc.bucket node.docs b).Perm (rows.map (indexed schema)))
    (alone : ∀ other ∈ before ++ after, docsOf IndexDoc.bucket other.docs b = []) :
    Holds schema rc leg searchVer (before ++ node :: after) b rows := by
  have nothing : ∀ others : List Node,
      (∀ other ∈ others, docsOf IndexDoc.bucket other.docs b = []) →
        docsOf IndexDoc.bucket (others.flatMap Node.docs) b = [] := by
    intro others none_
    induction others with
    | nil => rfl
    | cons other others ih =>
      rw [List.flatMap_cons, docsOf_append, none_ other List.mem_cons_self,
        ih fun o mem => none_ o (List.mem_cons_of_mem _ mem), List.append_nil]
  have all : docsOf IndexDoc.bucket ((before ++ node :: after).flatMap Node.docs) b =
      docsOf IndexDoc.bucket node.docs b := by
    rw [List.flatMap_append, List.flatMap_cons, docsOf_append, docsOf_append,
      nothing before fun o mem => alone o (List.mem_append_left _ mem),
      nothing after fun o mem => alone o (List.mem_append_right _ mem), List.nil_append,
      List.append_nil]
  refine ⟨named, all ▸ here, class_, fun name _ lost => ?_⟩
  obtain ⟨other, mem, hit⟩ := List.any_eq_true.mp lost
  rw [nodeNan, Bool.and_eq_true, decide_eq_true_eq, Bool.and_eq_true] at hit
  rw [all]
  rcases List.mem_append.mp mem with earlier | later
  · exact absurd (alone other (List.mem_append_left _ earlier)) hit.1
  · rcases List.mem_cons.mp later with rfl | later
    · exact exactSum_of_allMiss hit.2.2
    · exact absurd (alone other (List.mem_append_right _ later)) hit.1

end Report

section Demo

/-- FX with a correlation of one half. -/
def fxCorrelated : CalcSchema where
  toSchema := fxSchema.toSchema
  intraBucketCorrelationRef := fun _ => some "fx_rho"
  correlations := fun _ => some (.constant (1 / 2))

/-- A spot in the bucket `EUR`. -/
def fxSpot (id pair : String) (value : ℚ) : Row :=
  ⟨id, "FX", "EUR", .delta, none, none, some pair, none, .number value, none⟩

def fxSpots : List Row := [fxSpot "1" "EURUSD" 5, fxSpot "2" "EURGBP" 15]

end Demo

end EnrichedReports
