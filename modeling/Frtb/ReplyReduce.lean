import Frtb.BackendReplies
import Frtb.ReadoutAgreement

/-!
# Reducing what replies were read as

The formulas of the readout and of the reducers on numbers that need not be
finite. On finite numbers they are the exact ones.
-/

namespace ReplyReduce

open JsNumbers JsNumber PairSums AssocMaps JsonText FastPath ChargeReduce BackendReplies
open RollupReadout (RollupHash readoutReport)

/-- A bucket's result as it was read. -/
structure ReadResult where
  bucket : String
  kb : JsNumber ℝ
  sb : JsNumber ℚ
  count : JsNumber ℚ

section Formulas

/-- `if (x < 0) x = 0`: NaN stays. -/
def clampNegative (x : JsNumber ℚ) : JsNumber ℚ := if x < 0 then 0 else x

noncomputable def kbFromConstantRho (sumWs sumWsSq : JsNumber ℚ) (rho : ℚ) : JsNumber ℝ :=
  let cross := clampNegative (sumWs * sumWs - sumWsSq)
  sqrt (ofRat (clampNegative (sumWsSq + .fin rho * cross)))

def kbSquaredForDirection (cvr : List (JsNumber ℚ)) (rhoCurv : ℚ) : JsNumber ℚ :=
  (cvr.map fun x => x * x).sum + pairSum (fun a b => .fin rhoCurv * a * b * psi a b) cvr

noncomputable def kbForDirection (cvr : List (JsNumber ℚ)) (rhoCurv : ℚ) : JsNumber ℝ :=
  sqrt (ofRat (maxNum 0 (kbSquaredForDirection cvr rhoCurv)))

theorem clampNegative_fin (x : ℚ) : clampNegative (.fin x) = .fin (max x 0) := by
  have zero : (0 : JsNumber ℚ) = .fin 0 := rfl
  rw [clampNegative, zero]
  by_cases negative : x < 0
  · rw [if_pos ((fin_lt x 0).mpr negative), max_eq_right negative.le]
  · rw [if_neg (fun less => negative ((fin_lt x 0).mp less)), max_eq_left (not_lt.mp negative)]

theorem sqrt_ofRat {x : ℚ} (nonneg : 0 ≤ x) : sqrt (ofRat (.fin x)) = .fin √(x : ℝ) :=
  sqrt_fin (by exact_mod_cast nonneg)

theorem kbFromConstantRho_fin (sumWs sumWsSq rho : ℚ) :
    kbFromConstantRho (.fin sumWs) (.fin sumWsSq) rho =
      .fin (FastPath.kbFromConstantRho sumWs sumWsSq rho).1 := by
  simp only [kbFromConstantRho, fin_mul, fin_sub, clampNegative_fin, fin_add]
  exact sqrt_ofRat (le_max_right _ _)

theorem psi_fin {K : Type*} [Field K] [LinearOrder K] (a b : K) :
    psi (.fin a : JsNumber K) (.fin b) = .fin (psi a b) := by
  have zero : (0 : JsNumber K) = .fin 0 := rfl
  simp only [psi, zero, fin_lt]
  by_cases both : a < 0 ∧ b < 0
  · rw [if_pos both, if_pos both]
  · rw [if_neg both, if_neg both]
    rfl

theorem kbSquaredForDirection_fin (cvr : List ℚ) (rhoCurv : ℚ) :
    kbSquaredForDirection (cvr.map .fin) rhoCurv =
      .fin (FastPath.kbSquaredForDirection cvr rhoCurv) := by
  simp only [kbSquaredForDirection, pairSum_map, List.map_map, Function.comp_def, psi_fin, fin_mul,
    sum_fin, pairSum_fin, fin_add]
  rfl

theorem kbForDirection_fin (cvr : List ℚ) (rhoCurv : ℚ) :
    kbForDirection (cvr.map .fin) rhoCurv =
      .fin √(max 0 (FastPath.kbSquaredForDirection cvr rhoCurv) : ℚ) := by
  have zero : (0 : JsNumber ℚ) = .fin 0 := rfl
  rw [kbForDirection, kbSquaredForDirection_fin, zero, maxNum_fin]
  exact sqrt_ofRat (le_max_left _ _)

end Formulas

section Readout

/-- The result of one bucket from the hashes that were read; an absent tenor reads
as zero. -/
noncomputable def readoutResult (schema : CalcSchema) (rc : String) (leg : FastLeg)
    (bucket : String) (tm : String → Option ReplyHash) : ReadResult :=
  let rho := resolveRho schema rc leg
  let list := fun field => (fieldTenors schema rc).map fun t => hashNumber (tm t) field
  let count := (list "count").sum
  if leg = .curvature then
    let cvrUp := list "sum_ws_up"
    let cvrDown := list "sum_ws_down"
    let kbUp := kbForDirection cvrUp rho
    let kbDown := kbForDirection cvrDown rho
    if kbUp < kbDown then ⟨bucket, kbDown, cvrDown.sum, count⟩
    else ⟨bucket, kbUp, cvrUp.sum, count⟩
  else
    let ws := list "sum_ws"
    let wsSq :=
      if isPerTenor schema rc ∧ leg = .delta then ws.map fun x => x * x else list "sum_ws_sq"
    ⟨bucket, kbFromConstantRho ws.sum wsSq.sum rho, ws.sum, count⟩

/-- The fields of a hash that `K_b` and `S_b` are made of. -/
def readFields (schema : CalcSchema) (rc : String) (leg : FastLeg) : List String :=
  if leg = .curvature then ["sum_ws_up", "sum_ws_down"]
  else if isPerTenor schema rc ∧ leg = .delta then ["sum_ws"]
  else ["sum_ws", "sum_ws_sq"]

/-- The numbers of a hash, without the fields that spell none. -/
def numberHash (h : ReplyHash) : RollupHash :=
  ofPairs ((pairs h).filterMap fun e => (numeral e.2).map fun q => (e.1, q))

def isNumeric (fields : List String) (h : ReplyHash) : Bool :=
  fields.all fun field => ((h.lookup field).map fun v => (numeral v).isSome).getD true

theorem eq_fin_of_toFinite {K : Type*} {a : JsNumber K} (finite : a.toFinite.isSome = true) :
    ∃ x, a = .fin x ∧ a.toFinite = some x := by
  cases a with
  | nan => cases finite
  | inf s => cases finite
  | fin x => exact ⟨x, rfl, rfl⟩

theorem hashNumber_numeric {fields : List String} {h : Option ReplyHash} {field : String}
    (numeric : ∀ own, h = some own → isNumeric fields own = true) (mem : field ∈ fields) :
    hashNumber h field = .fin (RollupReadout.hashNumber (h.map numberHash) field) := by
  cases h with
  | none => rfl
  | some own =>
    have spelled := List.all_eq_true.mp (numeric own rfl) field mem
    have numbers : (numberHash own).lookup field = (own.lookup field).bind numeral :=
      lookup_ofPairs_filterMap_pairs own numeral field
    simp only [hashNumber, RollupReadout.hashNumber, Option.map_some, Option.bind_some, numbers]
    cases found : own.lookup field with
    | none => rfl
    | some v =>
      rw [found, Option.map_some, Option.getD_some] at spelled
      obtain ⟨q, read⟩ := Option.isSome_iff_exists.mp spelled
      simp only [Option.bind_some, read, shownNumber_of_numeral read, Option.getD_some]

/-- On hashes of numbers the readout is the exact one. -/
theorem readoutResult_numeric {schema : CalcSchema} {rc : String} {leg : FastLeg} (bucket : String)
    {tm : String → Option ReplyHash}
    (numeric : ∀ t ∈ fieldTenors schema rc, ∀ h, tm t = some h →
      isNumeric (readFields schema rc leg) h = true) :
    (readoutResult schema rc leg bucket tm).kb =
        .fin (readoutReport schema rc leg bucket fun t => (tm t).map numberHash).kb ∧
      (readoutResult schema rc leg bucket tm).sb =
        .fin (readoutReport schema rc leg bucket fun t => (tm t).map numberHash).sb := by
  have numbers : ∀ field ∈ readFields schema rc leg,
      ((fieldTenors schema rc).map fun t => hashNumber (tm t) field) =
        ((fieldTenors schema rc).map fun t =>
          RollupReadout.hashNumber ((tm t).map numberHash) field).map .fin := by
    intro field mem
    rw [List.map_map]
    exact List.map_congr_left fun t ht => hashNumber_numeric (numeric t ht) mem
  have sums : ∀ l : List ℚ, (l.map (.fin : ℚ → JsNumber ℚ)).sum = .fin l.sum := by
    intro l
    rw [sum_fin, List.map_id']
  by_cases curvature : leg = .curvature
  · subst curvature
    have up := numbers "sum_ws_up" (by simp [readFields])
    have down := numbers "sum_ws_down" (by simp [readFields])
    simp only [readoutResult, readoutReport, if_true, up, down, kbForDirection_fin, fin_lt, sums]
    split
    · exact ⟨rfl, rfl⟩
    · exact ⟨rfl, rfl⟩
  · have ws := numbers "sum_ws" (by
      rw [readFields, if_neg curvature]
      split <;> simp)
    simp only [readoutResult, readoutReport, if_neg curvature, ws, sums]
    by_cases squares : isPerTenor schema rc = true ∧ leg = .delta
    · rw [if_pos squares, if_pos squares]
      simp only [List.map_map, Function.comp_def, fin_mul, sum_fin, kbFromConstantRho_fin]
      exact ⟨trivial, trivial⟩
    · have sq := numbers "sum_ws_sq" (by simp [readFields, curvature, squares])
      rw [if_neg squares, if_neg squares, sq, sums, kbFromConstantRho_fin]
      exact ⟨rfl, trivial⟩

end Readout

section Reducers

/-- A bucket's `S_b` capped inside `[-K_b, K_b]`. -/
noncomputable def clippedSb (p : ReadResult) : JsNumber ℝ :=
  maxNum (minNum (ofRat p.sb) p.kb) (-p.kb)

noncomputable def crossTerm (corr : CorrelationSpec) (s : ReadResult → JsNumber ℝ)
    (per : List ReadResult) : JsNumber ℝ :=
  pairSum (fun p q => .fin (gammaOf corr p.bucket q.bucket : ℝ) * s p * s q) per

noncomputable def gatedCrossTerm (corr : CorrelationSpec) (s : ReadResult → JsNumber ℝ)
    (per : List ReadResult) : JsNumber ℝ :=
  pairSum (fun p q => .fin (gammaOf corr p.bucket q.bucket : ℝ) * s p * s q * psi (s p) (s q)) per

noncomputable def sumKbSquared (per : List ReadResult) : JsNumber ℝ :=
  (per.map fun p => p.kb * p.kb).sum

noncomputable def reduceRiskClassCharge (per : List ReadResult) (corr : CorrelationSpec) :
    JsNumber ℝ :=
  if per = [] then 0
  else
    let sum := sumKbSquared per + crossTerm corr (fun p => ofRat p.sb) per
    if 0 ≤ sum then sqrt sum
    else sqrt (maxNum (sumKbSquared per + crossTerm corr clippedSb per) 0)

/-- The charge, and whether the clipped fallback produced it. -/
noncomputable def aggregateAcrossBuckets (per : List ReadResult) (gammaCurv : CorrelationSpec) :
    JsNumber ℝ × Bool :=
  if per = [] then (0, false)
  else
    let sum := sumKbSquared per + gatedCrossTerm gammaCurv (fun p => ofRat p.sb) per
    if 0 ≤ sum then (sqrt sum, false)
    else (sqrt (maxNum (sumKbSquared per + gatedCrossTerm gammaCurv clippedSb per) 0), true)

noncomputable def reduceCurvatureCharge (per : List ReadResult) (deltaCorr : CorrelationSpec) :
    JsNumber ℝ × Bool :=
  aggregateAcrossBuckets per (squareCorrelationSpec deltaCorr)

def IsFinite (p : ReadResult) : Prop := p.kb.toFinite.isSome = true ∧ p.sb.toFinite.isSome = true

/-- The result of finite numbers. -/
noncomputable def exactResult (p : ReadResult) : BucketResult :=
  ⟨p.bucket, p.kb.toFinite.getD 0, p.sb.toFinite.getD 0, p.count.toFinite.getD 0⟩

/-- The result with its `K_b` and `S_b` put down as finite numbers. -/
noncomputable def spelledResult (p : ReadResult) : ReadResult :=
  { p with kb := .fin (exactResult p).kb, sb := .fin (exactResult p).sb }

theorem spelledResult_of_finite {p : ReadResult} (finite : IsFinite p) : spelledResult p = p := by
  obtain ⟨bucket, kb, sb, count⟩ := p
  obtain ⟨k, rfl, _⟩ := eq_fin_of_toFinite finite.1
  obtain ⟨s, rfl, _⟩ := eq_fin_of_toFinite finite.2
  rfl

theorem map_spelledResult {per : List ReadResult} (finite : ∀ p ∈ per, IsFinite p) :
    per.map spelledResult = per := by
  rw [List.map_congr_left fun p mem => spelledResult_of_finite (finite p mem), List.map_id']

theorem clippedSb_spelled (p : ReadResult) :
    clippedSb (spelledResult p) = .fin (ChargeReduce.clippedSb (exactResult p)) := by
  simp only [clippedSb, spelledResult, ofRat, minNum_fin, neg_fin, maxNum_fin]
  rfl

theorem sumKbSquared_spelled (per : List ReadResult) :
    sumKbSquared (per.map spelledResult) =
      .fin (ChargeReduce.sumKbSquared (per.map exactResult)) := by
  simp only [sumKbSquared, ChargeReduce.sumKbSquared, List.map_map, Function.comp_def,
    spelledResult, fin_mul, sum_fin]

variable {s : ReadResult → JsNumber ℝ} {s' : BucketResult → ℝ}

theorem crossTerm_spelled (corr : CorrelationSpec)
    (same : ∀ p, s (spelledResult p) = .fin (s' (exactResult p))) (per : List ReadResult) :
    crossTerm corr s (per.map spelledResult) =
      .fin (ChargeReduce.crossTerm corr s' (per.map exactResult)) := by
  simp only [crossTerm, ChargeReduce.crossTerm, pairSum_map, same, fin_mul, pairSum_fin]
  rfl

theorem gatedCrossTerm_spelled (corr : CorrelationSpec)
    (same : ∀ p, s (spelledResult p) = .fin (s' (exactResult p))) (per : List ReadResult) :
    gatedCrossTerm corr s (per.map spelledResult) =
      .fin (ChargeReduce.gatedCrossTerm corr s' (per.map exactResult)) := by
  simp only [gatedCrossTerm, ChargeReduce.gatedCrossTerm, pairSum_map, same, psi_fin, fin_mul,
    pairSum_fin]
  rfl

/-- The charge of finite results is the exact one. -/
theorem reduceRiskClassCharge_finite {per : List ReadResult} (finite : ∀ p ∈ per, IsFinite p)
    (corr : CorrelationSpec) :
    reduceRiskClassCharge per corr =
      .fin (ChargeReduce.reduceRiskClassCharge (per.map exactResult) corr) := by
  have zero : (0 : JsNumber ℝ) = .fin 0 := rfl
  rw [← map_spelledResult finite]
  have exact_ : (per.map spelledResult).map exactResult = per.map exactResult := by
    rw [List.map_map]
    rfl
  rw [exact_]
  unfold reduceRiskClassCharge ChargeReduce.reduceRiskClassCharge
  simp only [List.map_eq_nil_iff]
  by_cases empty : per = []
  · rw [if_pos empty, if_pos empty, zero]
  · rw [if_neg empty, if_neg empty]
    rw [@crossTerm_spelled (fun p => ofRat p.sb) (fun p => (p.sb : ℝ)) corr fun _ => rfl,
      sumKbSquared_spelled, crossTerm_spelled corr clippedSb_spelled, fin_add, fin_add, zero,
      maxNum_fin]
    by_cases positive : 0 ≤ ChargeReduce.sumKbSquared (per.map exactResult) +
        ChargeReduce.crossTerm corr (fun p => (p.sb : ℝ)) (per.map exactResult)
    · rw [if_pos ((fin_le _ _).mpr positive), if_pos positive, sqrt_fin positive]
    · rw [if_neg (fun le => positive ((fin_le _ _).mp le)), if_neg positive,
        sqrt_fin (le_max_right _ _)]

theorem reduceCurvatureCharge_finite {per : List ReadResult} (finite : ∀ p ∈ per, IsFinite p)
    (corr : CorrelationSpec) :
    reduceCurvatureCharge per corr =
      (.fin (ChargeReduce.reduceCurvatureCharge (per.map exactResult) corr).1,
        (ChargeReduce.reduceCurvatureCharge (per.map exactResult) corr).2) := by
  have zero : (0 : JsNumber ℝ) = .fin 0 := rfl
  rw [← map_spelledResult finite]
  have exact_ : (per.map spelledResult).map exactResult = per.map exactResult := by
    rw [List.map_map]
    rfl
  rw [exact_]
  unfold reduceCurvatureCharge ChargeReduce.reduceCurvatureCharge aggregateAcrossBuckets
    ChargeReduce.aggregateAcrossBuckets
  generalize squareCorrelationSpec corr = gammaCurv
  simp only [List.map_eq_nil_iff]
  by_cases empty : per = []
  · rw [if_pos empty, if_pos empty, zero]
  · rw [if_neg empty, if_neg empty]
    rw [@gatedCrossTerm_spelled (fun p => ofRat p.sb) (fun p => (p.sb : ℝ)) gammaCurv fun _ => rfl,
      sumKbSquared_spelled, gatedCrossTerm_spelled gammaCurv clippedSb_spelled, fin_add, fin_add,
      zero, maxNum_fin]
    by_cases positive : 0 ≤ ChargeReduce.sumKbSquared (per.map exactResult) +
        ChargeReduce.gatedCrossTerm gammaCurv (fun p => (p.sb : ℝ)) (per.map exactResult)
    · rw [if_pos ((fin_le _ _).mpr positive), if_pos positive, sqrt_fin positive]
    · rw [if_neg (fun le => positive ((fin_le _ _).mp le)), if_neg positive,
        sqrt_fin (le_max_right _ _)]

end Reducers

end ReplyReduce
