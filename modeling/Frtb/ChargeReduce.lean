import Frtb.Library.PairSums
import Mathlib.Analysis.Real.Sqrt

/-!
# Reducing bucket results to a charge

`reduceRiskClassCharge` for Delta and Vega and `reduceCurvatureCharge` for
Curvature, with the correlation regimes that scale the cross-bucket
correlations. Sums are exact and square roots are real. The double loops over
buckets are `pairSum`.
-/

namespace ChargeReduce

open PairSums

inductive CorrelationSpec where
  | constant (value : ℚ)
  | matrix (labels : List String) (rows : List (List ℚ))
deriving DecidableEq

inductive CorrelationRegime where
  | low
  | medium
  | high
deriving DecidableEq

def correlationRegimeFactor : CorrelationRegime → ℚ
  | .low => 3 / 4
  | .medium => 1
  | .high => 5 / 4

/-- Scale each correlation and cap it at `cap` in magnitude. -/
def scaleCorrelationSpec (spec : CorrelationSpec) (factor cap : ℚ) : CorrelationSpec :=
  if factor = 1 then spec
  else
    let clamp := fun v => max (-cap) (min cap (v * factor))
    match spec with
    | .constant value => .constant (clamp value)
    | .matrix labels rows => .matrix labels (rows.map (·.map clamp))

structure BucketResult where
  bucket : String
  kb : ℝ
  sb : ℚ
  count : ℚ

/-- The index of a label, the last one when it is listed twice. -/
def labelIdx (labels : List String) (label : String) : Option ℕ :=
  (labels.zipIdx.reverse.find? (fun p => p.1 = label)).map Prod.snd

def gammaOf (corr : CorrelationSpec) (b c : String) : ℚ :=
  match corr with
  | .constant value => value
  | .matrix labels rows =>
    match labelIdx labels b, labelIdx labels c with
    | some i, some j => ((rows[i]?).bind (·[j]?)).getD 0
    | _, _ => 0

noncomputable section

/-- A bucket's `S_b` capped inside `[-K_b, K_b]`. -/
def clippedSb (p : BucketResult) : ℝ := max (min (p.sb : ℝ) p.kb) (-p.kb)

/-- The cross term `Σ_{b≠c} γ_bc · S_b · S_c` of the values that `s` reads. -/
def crossTerm (corr : CorrelationSpec) (s : BucketResult → ℝ) (per : List BucketResult) : ℝ :=
  pairSum (fun p q => (gammaOf corr p.bucket q.bucket : ℝ) * s p * s q) per

def sumKbSquared (per : List BucketResult) : ℝ := (per.map fun p => p.kb * p.kb).sum

def reduceRiskClassCharge (per : List BucketResult) (corr : CorrelationSpec) : ℝ :=
  if per = [] then 0
  else
    let sum := sumKbSquared per + crossTerm corr (fun p => (p.sb : ℝ)) per
    if 0 ≤ sum then √sum
    else √(max (sumKbSquared per + crossTerm corr clippedSb per) 0)

end

section Curvature

/-- Zero when both arguments are negative, one otherwise. -/
def psi {R : Type*} [Zero R] [One R] [LT R] [DecidableLT R] (a b : R) : R :=
  if a < 0 ∧ b < 0 then 0 else 1

def squareCorrelation (rho : ℚ) : ℚ := rho * rho

def squareCorrelationSpec : CorrelationSpec → CorrelationSpec
  | .constant value => .constant (value * value)
  | .matrix labels rows => .matrix labels (rows.map (·.map fun v => v * v))

/-- The cross term with each pair gated by `psi`. -/
noncomputable def gatedCrossTerm (corr : CorrelationSpec) (s : BucketResult → ℝ)
    (per : List BucketResult) : ℝ :=
  pairSum (fun p q => (gammaOf corr p.bucket q.bucket : ℝ) * s p * s q * psi (s p) (s q)) per

/-- The charge, and whether the clipped fallback produced it. -/
noncomputable def aggregateAcrossBuckets (per : List BucketResult) (gammaCurv : CorrelationSpec) :
    ℝ × Bool :=
  if per = [] then (0, false)
  else
    let sum := sumKbSquared per + gatedCrossTerm gammaCurv (fun p => (p.sb : ℝ)) per
    if 0 ≤ sum then (√sum, false)
    else (√(max (sumKbSquared per + gatedCrossTerm gammaCurv clippedSb per) 0), true)

noncomputable def reduceCurvatureCharge (per : List BucketResult) (deltaCorr : CorrelationSpec) :
    ℝ × Bool :=
  aggregateAcrossBuckets per (squareCorrelationSpec deltaCorr)

end Curvature

section Bounds

/-- A charge is never negative. -/
theorem reduceRiskClassCharge_nonneg (per : List BucketResult) (corr : CorrelationSpec) :
    0 ≤ reduceRiskClassCharge per corr := by
  unfold reduceRiskClassCharge
  split
  · exact le_rfl
  · dsimp only
    split
    · exact Real.sqrt_nonneg _
    · exact Real.sqrt_nonneg _

theorem reduceCurvatureCharge_nonneg (per : List BucketResult) (corr : CorrelationSpec) :
    0 ≤ (reduceCurvatureCharge per corr).1 := by
  unfold reduceCurvatureCharge aggregateAcrossBuckets
  split
  · exact le_rfl
  · dsimp only
    split
    · exact Real.sqrt_nonneg _
    · exact Real.sqrt_nonneg _

/-- Without correlations every regime reduces to the same charge. -/
theorem scale_zero (factor cap : ℚ) (positive : 0 ≤ cap) :
    scaleCorrelationSpec (.constant 0) factor cap = .constant 0 := by
  unfold scaleCorrelationSpec
  split
  · rfl
  · simp [min_eq_right positive, max_eq_right (neg_nonpos.mpr positive)]

end Bounds

end ChargeReduce
