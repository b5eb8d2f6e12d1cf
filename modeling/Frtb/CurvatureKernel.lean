import Frtb.FastPathRows

/-!
# The curvature kernels

Three programs reduce the curvature of a bucket: the index aggregate from four
sums per direction, the TypeScript oracle and the Lua function from the list of
the rows' values by a double loop. Up to the sign split of the values, the
double loop over distinct rows is a difference of squares of sums.
-/

namespace CurvatureKernel

open AssocMaps PairSums ChargeReduce FastPath FastPathSums FastPathRows

section Kernels

inductive Direction where
  | up
  | down
  | tie
deriving DecidableEq

structure BucketCurvature where
  bucket : String
  kb : ℝ
  kbUp : ℝ
  kbDown : ℝ
  sb : ℚ
  sbUp : ℚ
  sbDown : ℚ
  direction : Direction
  count : ℕ

noncomputable def resolveBucketCurvature (bucket : String) (cvrUp cvrDown : List ℚ) (rhoCurv : ℚ)
    (count : ℕ) : BucketCurvature :=
  let kbUp : ℝ := √((max 0 (kbSquaredForDirection cvrUp rhoCurv) : ℚ) : ℝ)
  let kbDown : ℝ := √((max 0 (kbSquaredForDirection cvrDown rhoCurv) : ℚ) : ℝ)
  if kbDown < kbUp then
    ⟨bucket, kbUp, kbUp, kbDown, cvrUp.sum, cvrUp.sum, cvrDown.sum, .up, count⟩
  else if kbUp < kbDown then
    ⟨bucket, kbDown, kbUp, kbDown, cvrDown.sum, cvrUp.sum, cvrDown.sum, .down, count⟩
  else ⟨bucket, kbUp, kbUp, kbDown, cvrUp.sum, cvrUp.sum, cvrDown.sum, .tie, count⟩

/-- `_frtb_curv_kb_sq`: the gate is a branch, not a factor. -/
def frtbCurvKbSq (cvr : List ℚ) (rho : ℚ) : ℚ :=
  (cvr.map fun a => a * a).sum + pairSum
  (fun a b => if ¬(a < 0 ∧ b < 0) then rho * a * b else 0) cvr

/-- `_frtb_curv_winner`. -/
noncomputable def frtbCurvWinner (kbUp kbDown : ℝ) (sUp sDown : ℚ) : ℝ × ℚ × Direction :=
  if kbDown < kbUp then (kbUp, sUp, .up)
  else if kbUp < kbDown then (kbDown, sDown, .down)
  else (kbUp, sUp, .tie)

/-- What the Lua functions of the scalar classes do with the rows of a bucket. -/
noncomputable def scalarCurvature (upArr downArr : List ℚ) (rho : ℚ) : ℝ × ℚ × Direction :=
  let kbUpSq := frtbCurvKbSq upArr rho
  let kbDownSq := frtbCurvKbSq downArr rho
  frtbCurvWinner (√((if kbUpSq < 0 then 0 else kbUpSq : ℚ) : ℝ))
    (√((if kbDownSq < 0 then 0 else kbDownSq : ℚ) : ℝ)) upArr.sum downArr.sum

end Kernels

section ClosedForm

/-- The gate takes the product of the negative parts off. -/
theorem mul_psi (a b : ℚ) : a * b * psi a b = a * b - negativeOf a * negativeOf b := by
  unfold psi negativeOf
  by_cases ha : a < 0
  · by_cases hb : b < 0
    · rw [if_pos ⟨ha, hb⟩, if_pos ha, if_pos hb]
      ring
    · rw [if_neg (fun h => hb h.2), if_neg hb]
      ring
  · rw [if_neg (fun h => ha h.1), if_neg ha]
    ring

theorem gated_pair (rho a b : ℚ) :
    rho * a * b * psi a b = rho * a * b + -(rho * negativeOf a * negativeOf b) := by
  have gate := mul_psi a b
  calc rho * a * b * psi a b = rho * (a * b * psi a b) := by ring
    _ = rho * (a * b - negativeOf a * negativeOf b) := by rw [gate]
    _ = rho * a * b + -(rho * negativeOf a * negativeOf b) := by ring

/-- The double sum over all pairs, the diagonal included. -/
theorem sum_sum_gated (rho : ℚ) (l : List ℚ) :
    (l.map fun a => (l.map fun b => rho * a * b * psi a b).sum).sum =
      rho * (l.sum * l.sum - (l.map negativeOf).sum * (l.map negativeOf).sum) := by
  have plain := sum_mul_sum (fun a : ℚ => rho * a) (fun b : ℚ => b) l l
  have negatives := sum_mul_sum (fun a : ℚ => rho * negativeOf a) negativeOf l l
  rw [List.sum_map_mul_left, List.map_id'] at plain
  rw [List.sum_map_mul_left] at negatives
  simp only [gated_pair, sum_map_add, sum_map_neg, plain, negatives]
  ring

/-- The double loop over distinct rows, from four sums over the rows. -/
theorem kbSquaredForDirection_eq (cvr : List ℚ) (rho : ℚ) :
    kbSquaredForDirection cvr rho =
      (cvr.map fun x => x * x).sum +
        rho * ((cvr.sum * cvr.sum - (cvr.map fun x => x * x).sum) -
          ((cvr.map negativeOf).sum * (cvr.map negativeOf).sum -
            (cvr.map fun x => negativeOf x * negativeOf x).sum)) := by
  have diagonal : (cvr.map fun a => rho * a * a * psi a a).sum =
      rho * ((cvr.map fun x => x * x).sum - (cvr.map fun x =>
        negativeOf x * negativeOf x).sum) := by
    simp only [gated_pair, sum_map_add, sum_map_neg]
    simp only [mul_assoc, List.sum_map_mul_left]
    ring
  unfold kbSquaredForDirection
  rw [pairSum_eq, sum_sum_gated, diagonal]
  ring

/-- The branch of the Lua kernel is the factor of the oracle. -/
theorem frtbCurvKbSq_eq (cvr : List ℚ) (rho : ℚ) :
    frtbCurvKbSq cvr rho = kbSquaredForDirection cvr rho := by
  have gate : (fun a b : ℚ => if ¬(a < 0 ∧ b < 0) then rho * a * b else 0) =
      fun a b => rho * a * b * psi a b := by
    funext a b
    unfold psi
    by_cases both : a < 0 ∧ b < 0
    · rw [if_neg (not_not.mpr both), if_pos both, mul_zero]
    · rw [if_pos both, if_neg both, mul_one]
  rw [frtbCurvKbSq, gate, kbSquaredForDirection]

end ClosedForm

section Winners

theorem clamp_eq (x : ℚ) : (if x < 0 then 0 else x) = max 0 x := by
  by_cases negative : x < 0
  · rw [if_pos negative, max_eq_left negative.le]
  · rw [if_neg negative, max_eq_right (not_lt.mp negative)]

/-- The oracle and the Lua function pick the same direction. -/
theorem resolveBucketCurvature_eq_scalarCurvature (bucket : String) (cvrUp cvrDown : List ℚ)
    (rho : ℚ) (count : ℕ) :
    ((resolveBucketCurvature bucket cvrUp cvrDown rho count).kb,
      (resolveBucketCurvature bucket cvrUp cvrDown rho count).sb,
      (resolveBucketCurvature bucket cvrUp cvrDown rho count).direction) =
        scalarCurvature cvrUp cvrDown rho := by
  simp only [scalarCurvature, frtbCurvKbSq_eq, clamp_eq]
  unfold resolveBucketCurvature frtbCurvWinner
  dsimp only
  split
  · rfl
  · split <;> rfl

/-- The result of a row whose directions have the kernels' values. -/
theorem bucketResultFromRow_eq_resolveBucketCurvature (bucket : String) {row : Record}
    {fields : LegFields} {rho : ℚ} {perTenor : Bool} (perRf : List (String × Record))
    (topN : Option ℕ) {cvrUp cvrDown : List ℚ} (count : ℕ)
    (upKb : (kbCurvatureForDirection row fields.cvrUp .u rho perTenor).kb =
      √((max 0 (kbSquaredForDirection cvrUp rho) : ℚ) : ℝ))
    (upSb : (kbCurvatureForDirection row fields.cvrUp .u rho perTenor).sb = cvrUp.sum)
    (downKb : (kbCurvatureForDirection row fields.cvrDown .n rho perTenor).kb =
      √((max 0 (kbSquaredForDirection cvrDown rho) : ℚ) : ℝ))
    (downSb : (kbCurvatureForDirection row fields.cvrDown .n rho perTenor).sb = cvrDown.sum) :
    (bucketResultFromRow bucket row fields .curvature rho perTenor perRf topN).kb =
        (resolveBucketCurvature bucket cvrUp cvrDown rho count).kb ∧
      (bucketResultFromRow bucket row fields .curvature rho perTenor perRf topN).sb =
        (resolveBucketCurvature bucket cvrUp cvrDown rho count).sb := by
  unfold bucketResultFromRow resolveBucketCurvature
  dsimp only
  rw [upKb, downKb]
  by_cases up : √((max 0 (kbSquaredForDirection cvrDown rho) : ℚ) : ℝ) <
      √((max 0 (kbSquaredForDirection cvrUp rho) : ℚ) : ℝ)
  · rw [if_neg (not_lt.mpr up.le), if_pos up]
    exact ⟨upKb, upSb⟩
  · rw [if_neg up]
    by_cases down : √((max 0 (kbSquaredForDirection cvrUp rho) : ℚ) : ℝ) <
        √((max 0 (kbSquaredForDirection cvrDown rho) : ℚ) : ℝ)
    · rw [if_pos down, if_pos down]
      exact ⟨downKb, downSb⟩
    · rw [if_neg down, if_neg down]
      exact ⟨upKb, upSb⟩

end Winners

section Shards
variable {schema : CalcSchema} {rc : String} {searchVer : ℕ} {lazyMath : Bool}

/-- The rows of a bucket on all nodes. -/
def rowsOf (nodes : List Node) (b : String) : List IndexDoc :=
  docsOf IndexDoc.bucket (nodes.flatMap Node.docs) b

/-- The values of the rows in one direction. -/
def cvrOf (f : String) (rows : List IndexDoc) : List ℚ := rows.map fun d => (d.field f).getD 0

/-- A scalar class has one field per direction. -/
theorem scalar_fields (lazyMath : Bool) (scalar : isPerTenor schema rc = false) :
    ∃ up down, (requestOf schema rc .curvature lazyMath).1.cvrUp = [up] ∧
      (requestOf schema rc .curvature lazyMath).1.cvrDown = [down] ∧
      requestItems true (requestOf schema rc .curvature lazyMath).1 =
        [⟨.u, up, true⟩, ⟨.n, down, true⟩] := by
  rw [requestOf_fields]
  refine ⟨fieldFor (if lazyMath then "s" else "ws") (StorageWriter.lowerCase rc) "cvr_up" "",
    fieldFor (if lazyMath then "s" else "ws")
      (StorageWriter.lowerCase rc) "cvr_down" "", ?_, ?_, ?_⟩
  · simp only [resolveLegFieldsForPrefix, fieldTenors, scalar]
    rfl
  · simp only [resolveLegFieldsForPrefix, fieldTenors, scalar]
    rfl
  · simp only [requestItems, resolveLegFieldsForPrefix, fieldTenors, scalar]
    rfl

/-- A group whose rows all carry a field is never reported as `nan` for it. -/
theorem someNan_of_valued {nodes : List Node} {b : String} {name : SumName}
    (valued : ∀ d ∈ rowsOf nodes b, (d.field name.f).isSome) :
    someNan Node.docs Node.nan IndexDoc.bucket nodes b name = false := by
  rw [someNan, List.any_eq_false]
  intro node mem reported
  rw [nodeNan, Bool.and_eq_true, Bool.and_eq_true, decide_eq_true_eq] at reported
  obtain ⟨nonempty, _, miss⟩ := reported
  obtain ⟨d, here⟩ := List.exists_mem_of_ne_nil _ nonempty
  have absent := List.all_eq_true.mp miss d here
  rw [docsOf, List.mem_filter] at here
  have present := valued d
    (List.mem_filter.mpr ⟨List.mem_flatMap.mpr ⟨node, mem, here.1⟩, here.2⟩)
  rw [Option.isNone_iff_eq_none.mp absent] at present
  cases present

/-- The four sums of one direction are those of the rows' values. -/
theorem exactSum_cvr (part : Part) (pre : LegPrefix) (f : String) (rows : List IndexDoc) :
    exactSum searchVer (fun _ => 1) ⟨pre, f, part⟩ rows =
      ((cvrOf f rows).map (partValue part)).sum := by
  simp only [exactSum, cvrOf, List.map_map, Function.comp_def, safeValue, true_or, if_true]

/-- One direction from the merged sums of the shards. -/
theorem kbCurvatureForDirection_eq {row : Record} {f : String} {pre : LegPrefix} {cvr : List ℚ}
    (rho : ℚ)
    (sums : ∀ part, safeNum (row.sums ⟨pre, f, part⟩) = (cvr.map (partValue part)).sum) :
    (kbCurvatureForDirection row [f] pre rho false).kb =
        √((max 0 (kbSquaredForDirection cvr rho) : ℚ) : ℝ) ∧
      (kbCurvatureForDirection row [f] pre rho false).sb = cvr.sum := by
  have value : (cvr.map (partValue .value)).sum = cvr.sum := by
    rw [show partValue .value = fun x => x from rfl, List.map_id']
  simp only [kbCurvatureForDirection, Bool.false_eq_true, if_false, List.headD_cons, sums, value,
    kbSquaredForDirection_eq]
  exact ⟨rfl, trivial⟩

/-- Over any shards of the rows the four sums reduce to what the double loop
over all rows gives, and all three winners agree. -/
theorem curvature_eq_pairwise_kernel (schema : CalcSchema) (rc : String) (lazyMath : Bool)
    (searchVer : ℕ) (nodes : List Node) (b : String) (rho : ℚ)
    (perRf : List (String × Record)) (topN : Option ℕ)
    (scalar : isPerTenor schema rc = false) (named : b ≠ "")
    (valued : ∀ f ∈ (requestOf schema rc .curvature lazyMath).1.cvrUp ++
      (requestOf schema rc .curvature lazyMath).1.cvrDown,
      ∀ d ∈ rowsOf nodes b, (d.field f).isSome) :
    let fields := (requestOf schema rc .curvature lazyMath).1
    let row := rowAt (mergedRows fields .curvature
      (requestOf schema rc .curvature lazyMath).2 searchVer nodes) b
    let up := cvrOf (fields.cvrUp.headD "") (rowsOf nodes b)
    let down := cvrOf (fields.cvrDown.headD "") (rowsOf nodes b)
    let kernelUp := kbCurvatureForDirection row fields.cvrUp .u rho (isPerTenor schema rc)
    let kernelDown := kbCurvatureForDirection row fields.cvrDown .n rho (isPerTenor schema rc)
    let result := bucketResultFromRow b row fields .curvature rho (isPerTenor schema rc) perRf topN
    let oracle := resolveBucketCurvature b up down rho (rowsOf nodes b).length
    kernelUp.kb = √((max 0 (kbSquaredForDirection up rho) : ℚ) : ℝ) ∧ kernelUp.sb = up.sum ∧
    kernelDown.kb = √((max 0 (kbSquaredForDirection down rho) : ℚ) : ℝ) ∧
    kernelDown.sb = down.sum ∧
    result.kb = oracle.kb ∧ result.sb = oracle.sb ∧
    (oracle.kb, oracle.sb, oracle.direction) = scalarCurvature up down rho := by
  intro fields row up down kernelUp kernelDown result oracle
  obtain ⟨fUp, fDown, hup, hdown, hitems⟩ := scalar_fields lazyMath scalar
  have plain : lazyMath = false ∨ FastLeg.curvature ≠ .delta := Or.inr (by decide)
  have mult : requestMult schema rc .curvature lazyMath = fun _ => 1 :=
    funext (requestMult_eq_one plain)
  have merged := mapOf_unweighedRows schema rc .curvature lazyMath searchVer nodes
  rw [mult, hitems] at merged
  have direction : ∀ (pre : LegPrefix) (f : String), (∀ d ∈ rowsOf nodes b, (d.field f).isSome) →
      (∀ part, ⟨pre, f, part⟩ ∈ sumNames [⟨.u, fUp, true⟩, ⟨.n, fDown, true⟩]) →
      (kbCurvatureForDirection row [f] pre rho false).kb =
          √((max 0 (kbSquaredForDirection (cvrOf f (rowsOf nodes b)) rho) : ℚ) : ℝ) ∧
        (kbCurvatureForDirection row [f] pre rho false).sb = (cvrOf f (rowsOf nodes b)).sum := by
    intro pre f present summed
    refine kbCurvatureForDirection_eq rho ?_
    intro part
    have sum := safeNum_rowAt merged (decide_eq_true named) (summed part)
    rw [someNan_of_valued present, if_neg Bool.false_ne_true, exactSum_cvr] at sum
    rwa [← weighRow_of_plain plain b (rowAt _ b), ← rowAt_mergedRows] at sum
  have up_eq : up = cvrOf fUp (rowsOf nodes b) := by
    simp only [up, fields, hup, List.headD_cons]
  have down_eq : down = cvrOf fDown (rowsOf nodes b) := by
    simp only [down, fields, hdown, List.headD_cons]
  obtain ⟨upKb, upSb⟩ := direction .u fUp (valued fUp (by simp [hup])) (by
    intro part
    cases part <;> simp [sumNames, Item.parts])
  obtain ⟨downKb, downSb⟩ := direction .n fDown (valued fDown (by simp [hdown])) (by
    intro part
    cases part <;> simp [sumNames, Item.parts])
  rw [← up_eq, ← hup, ← scalar] at upKb upSb
  rw [← down_eq, ← hdown, ← scalar] at downKb downSb
  obtain ⟨kb, sb⟩ := bucketResultFromRow_eq_resolveBucketCurvature b perRf topN
    (rowsOf nodes b).length upKb upSb downKb downSb
  exact ⟨upKb, upSb, downKb, downSb, kb, sb,
    resolveBucketCurvature_eq_scalarCurvature b up down rho (rowsOf nodes b).length⟩

/-- FX, a class of scalar rows. -/
def fxSchema : CalcSchema where
  riskClasses := ofPairs [("FX", ⟨none, "fx_weights"⟩)]
  riskWeights := ofPairs [("fx_weights", .constant (1 / 5))]
  intraBucketCorrelationRef := fun _ => none
  correlations := fun _ => none

/-- An indexed curvature row of FX. -/
def fxCurvatureDoc (bucket riskFactor : String) (up down : ℚ) : IndexDoc where
  bucket := bucket
  riskFactor := riskFactor
  field := fun f =>
    if f = "ws_fx_cvr_up" then some up else if f = "ws_fx_cvr_down" then some down else none

/-- Three rows on two shards, two of them losing in the up direction. -/
def fxCurvatureNodes : List Node :=
  [⟨[fxCurvatureDoc "EUR" "EURUSD" (-3) 2, fxCurvatureDoc "EUR" "EURGBP" 4 (-1)],
      fun _ _ => true, fun _ _ => true⟩,
    ⟨[fxCurvatureDoc "EUR" "EURJPY" (-5) 1], fun _ _ => false, fun _ _ => false⟩]

theorem curvature_eq_pairwise_kernel_fx :
    let row := rowAt (mergedRows (requestOf fxSchema "FX" .curvature false).1 .curvature none 0
      fxCurvatureNodes) "EUR"
    let result := bucketResultFromRow "EUR" row (requestOf fxSchema "FX" .curvature false).1
      .curvature (1 / 4) (isPerTenor fxSchema "FX") [] none
    let oracle := resolveBucketCurvature "EUR"
        (cvrOf "ws_fx_cvr_up" (rowsOf fxCurvatureNodes "EUR"))
      (cvrOf "ws_fx_cvr_down" (rowsOf fxCurvatureNodes "EUR")) (1 / 4) 3
    result.kb = oracle.kb ∧ result.sb = oracle.sb := by
  obtain ⟨_, _, _, _, kb, sb, _⟩ := curvature_eq_pairwise_kernel fxSchema "FX" false 0
    fxCurvatureNodes "EUR" (1 / 4) [] none (by decide +kernel) (by decide) (by decide +kernel)
  exact ⟨kb, sb⟩

end Shards

end CurvatureKernel
