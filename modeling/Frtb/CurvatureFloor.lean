import Frtb.ChargeFormula

/-!
# The Curvature charge of a risk class at real numbers

The pairs of two negative buckets are gated off, so the interior is no quadratic form, and
the clipped interior can be negative: the last clamp is what keeps the root real. It is
inert while the squared correlations of each bucket sum to at most one.
-/

namespace CurvatureFloor

open PairSums ChargeReduce ChargeFormula

noncomputable section

section Reduction

def squareCorrelationSpecReal : RealSpec → RealSpec
  | .constant value => .constant (value * value)
  | .matrix labels rows => .matrix labels (rows.map (·.map fun v => v * v))

/-- The cross term with each pair gated by `psi`. -/
def gatedSum (corr : RealSpec) (s : RealBucket → ℝ) (per : List RealBucket) : ℝ :=
  pairSum (fun p q => gammaAt corr p.bucket q.bucket * s p * s q * psi (s p) (s q)) per

/-- The charge, and whether the clipped fallback produced it. -/
def aggregateAcrossBucketsReal (per : List RealBucket) (gammaCurv : RealSpec) : ℝ × Bool :=
  if per = [] then (0, false)
  else
    let sum := sumSquares RealBucket.kb per + gatedSum gammaCurv RealBucket.sb per
    if 0 ≤ sum then (√sum, false)
    else (√(max (sumSquares RealBucket.kb per + gatedSum gammaCurv clipped per) 0), true)

def reduceCurvatureChargeReal (per : List RealBucket) (deltaCorr : RealSpec) : ℝ × Bool :=
  aggregateAcrossBucketsReal per (squareCorrelationSpecReal deltaCorr)

end Reduction

section Rational

theorem squareCorrelationSpec_toReal (corr : CorrelationSpec) :
    specToReal (squareCorrelationSpec corr) = squareCorrelationSpecReal (specToReal corr) := by
  cases corr with
  | constant value => exact congrArg RealSpec.constant (by push_cast; rfl)
  | matrix labels rows =>
    simp only [squareCorrelationSpec, specToReal, squareCorrelationSpecReal, List.map_map,
      Function.comp_def, Rat.cast_mul]

theorem gatedSum_toReal (corr : CorrelationSpec) (s : RealBucket → ℝ) (s' : BucketResult → ℝ)
    (same : ∀ p, s (toReal p) = s' p) (per : List BucketResult) :
    gatedSum (specToReal corr) s (per.map toReal) = gatedCrossTerm corr s' per := by
  rw [gatedSum, pairSum_map, gatedCrossTerm]
  simp only [same, gammaAt_toReal]
  rfl

/-- The charge of exact bucket sums is the charge at their real values. -/
theorem reduceCurvatureCharge_real (per : List BucketResult) (corr : CorrelationSpec) :
    reduceCurvatureCharge per corr =
      reduceCurvatureChargeReal (per.map toReal) (specToReal corr) := by
  have kbs : sumSquares RealBucket.kb (per.map toReal) = sumKbSquared per := by
    rw [sumSquares, List.map_map, sumKbSquared]
    rfl
  unfold reduceCurvatureCharge reduceCurvatureChargeReal aggregateAcrossBuckets
    aggregateAcrossBucketsReal
  rw [← squareCorrelationSpec_toReal]
  by_cases empty : per = []
  · rw [if_pos empty, if_pos (by rw [empty]; rfl)]
  · rw [if_neg empty, if_neg (show ¬ per.map toReal = [] from by simpa using empty), kbs,
      gatedSum_toReal _ RealBucket.sb (fun p => (p.sb : ℝ)) (fun _ => rfl),
      gatedSum_toReal _ clipped clippedSb (fun _ => rfl)]

end Rational

section Gamma
variable {spec : RealSpec}

/-- Every correlation of a Delta spec is between zero and one. -/
def Admitted : RealSpec → Prop
  | .constant value => 0 ≤ value ∧ value ≤ 1
  | .matrix _ rows => ∀ row ∈ rows, ∀ v ∈ row, 0 ≤ v ∧ v ≤ 1

/-- Two specs of one shape, the entries of the second made from the first's. -/
theorem gammaAt_map (f : ℝ → ℝ) (zero : f 0 = 0) (labels : List String) (rows : List (List ℝ))
    (b c : String) :
    gammaAt (.matrix labels (rows.map (·.map f))) b c = f (gammaAt (.matrix labels rows) b c) := by
  unfold gammaAt
  dsimp only
  split
  · rename_i i j _ _
    rw [List.getElem?_map]
    cases rows[i]? with
    | none => exact zero.symm
    | some row =>
      simp only [Option.map_some, Option.bind_some, List.getElem?_map]
      cases row[j]? with
      | none => exact zero.symm
      | some v => rfl
  · exact zero.symm

theorem gammaAt_square (spec : RealSpec) (b c : String) :
    gammaAt (squareCorrelationSpecReal spec) b c = gammaAt spec b c ^ 2 := by
  rw [sq]
  cases spec with
  | constant value => rfl
  | matrix labels rows => exact gammaAt_map (fun v => v * v) (mul_zero 0) labels rows b c

theorem gammaAt_bounds (admitted : Admitted spec) (b c : String) :
    0 ≤ gammaAt spec b c ∧ gammaAt spec b c ≤ 1 := by
  cases spec with
  | constant value => exact admitted
  | matrix labels rows =>
    unfold gammaAt
    dsimp only
    split
    · rename_i i j _ _
      cases here : rows[i]? with
      | none => exact ⟨le_rfl, zero_le_one⟩
      | some row =>
        rw [Option.bind_some]
        cases there : row[j]? with
        | none => exact ⟨le_rfl, zero_le_one⟩
        | some v => exact admitted row (List.mem_of_getElem? here) v (List.mem_of_getElem? there)
    · exact ⟨le_rfl, zero_le_one⟩

/-- The correlation of two buckets under a regime, capped at one. -/
def regimeGammaAt (spec : RealSpec) (regime : CorrelationRegime) (b c : String) : ℝ :=
  min 1 (gammaAt spec b c * (correlationRegimeFactor regime : ℝ))

theorem gammaAt_scale (admitted : Admitted spec) (regime : CorrelationRegime) (b c : String) :
    gammaAt (scaleCorrelationSpecReal spec (correlationRegimeFactor regime) 1) b c =
      regimeGammaAt spec regime b c := by
  obtain ⟨low, high⟩ := gammaAt_bounds admitted b c
  have positive : (0 : ℝ) < correlationRegimeFactor regime := by exact_mod_cast factor_pos regime
  have scaled := mul_nonneg low positive.le
  have clamp : max (-1) (min 1 (gammaAt spec b c * (correlationRegimeFactor regime : ℝ))) =
      regimeGammaAt spec regime b c :=
    max_eq_right (by linarith [le_min zero_le_one scaled])
  unfold scaleCorrelationSpecReal
  split
  · rename_i unit
    rw [regimeGammaAt, unit, mul_one, min_eq_right high]
  · rw [← clamp]
    cases spec with
    | constant value => rfl
    | matrix labels rows =>
      refine gammaAt_map (fun v => max (-1) (min 1 (v * (correlationRegimeFactor regime : ℝ)))) ?_
        labels rows b c
      simp

end Gamma

section Floor
variable {per per' : List RealBucket} {spec : RealSpec} {g : String → String → ℝ}

/-- A gated pair takes away at most the mean of the two squares. -/
theorem gated_pair_ge {h a b : ℝ} (positive : 0 ≤ h) :
    -(h * (a * a) + h * (b * b)) / 2 ≤ h * a * b * psi a b := by
  unfold psi
  split
  · nlinarith [mul_nonneg positive (mul_self_nonneg a), mul_nonneg positive (mul_self_nonneg b)]
  · nlinarith [mul_nonneg positive (mul_self_nonneg (a + b))]

/-- The squared correlations of each bucket with the others sum to at most one. -/
def Dominated (g : String → String → ℝ) (per : List RealBucket) : Prop :=
  ∀ p ∈ per, (per.map fun q => g p.bucket q.bucket ^ 2).sum - g p.bucket p.bucket ^ 2 ≤ 1

/-- Under dominated correlations the gated pairs take away at most the squares. -/
theorem gated_sum_ge (symmetric : ∀ b c, g b c = g c b) (dominated : Dominated g per)
    (s : RealBucket → ℝ) :
    -sumSquares s per ≤
      pairSum (fun p q => g p.bucket q.bucket ^ 2 * s p * s q * psi (s p) (s q)) per := by
  have halves : pairSum (fun p q => -(g p.bucket q.bucket ^ 2 * (s p * s p) +
      g p.bucket q.bucket ^ 2 * (s q * s q)) / 2) per =
      -pairSum (fun p q => s p * s p * g p.bucket q.bucket ^ 2) per := by
    have swapped : pairSum (fun p q => g p.bucket q.bucket ^ 2 * (s q * s q)) per =
        pairSum (fun p q => s p * s p * g p.bucket q.bucket ^ 2) per := by
      rw [pairSum_swap]
      refine congrArg (pairSum · per) ?_
      funext p q
      rw [symmetric q.bucket p.bucket, mul_comm]
    have first : pairSum (fun p q => g p.bucket q.bucket ^ 2 * (s p * s p)) per =
        pairSum (fun p q => s p * s p * g p.bucket q.bucket ^ 2) per :=
      congrArg (pairSum · per) (funext fun p => funext fun q => mul_comm _ _)
    have split_ : ∀ p q : RealBucket, -(g p.bucket q.bucket ^ 2 * (s p * s p) +
        g p.bucket q.bucket ^ 2 * (s q * s q)) / 2 =
          -1 / 2 * (g p.bucket q.bucket ^ 2 * (s p * s p) +
          g p.bucket q.bucket ^ 2 * (s q * s q)) := fun p q => by ring
    simp only [split_]
    rw [pairSum_mul_left, pairSum_add, first, swapped]
    ring
  have rows : pairSum (fun p q => s p * s p * g p.bucket q.bucket ^ 2) per ≤ sumSquares s per := by
    rw [pairSum_left]
    refine List.sum_le_sum fun p mem => ?_
    have row := dominated p mem
    nlinarith [mul_self_nonneg (s p)]
  calc -sumSquares s per
      ≤ -pairSum (fun p q => s p * s p * g p.bucket q.bucket ^ 2) per := neg_le_neg rows
    _ = _ := halves.symm
    _ ≤ _ := pairSum_mono fun p _ q _ => gated_pair_ge (sq_nonneg _)

theorem reduceCurvatureChargeReal_perm (perm : per.Perm per') (corr : RealSpec) :
    reduceCurvatureChargeReal per corr = reduceCurvatureChargeReal per' corr := by
  have empty : per = [] ↔ per' = [] :=
    ⟨fun h => (h ▸ perm).nil_eq.symm, fun h => (h ▸ perm).eq_nil⟩
  have squares : sumSquares RealBucket.kb per = sumSquares RealBucket.kb per' :=
    (perm.map _).sum_eq
  have cross : ∀ corr s, gatedSum corr s per = gatedSum corr s per' :=
    fun _ _ => pairSum_perm _ perm
  unfold reduceCurvatureChargeReal aggregateAcrossBucketsReal
  simp only [squares, cross]
  exact if_congr empty rfl rfl

/-- The squares of the buckets' charges with the gated pairs of their sums. -/
def interior (g : String → String → ℝ) (s : RealBucket → ℝ) (per : List RealBucket) : ℝ :=
  sumSquares RealBucket.kb per +
    pairSum (fun p q => g p.bucket q.bucket ^ 2 * s p * s q * psi (s p) (s q)) per

theorem reduceCurvatureChargeReal_eq (admitted : Admitted spec) (regime : CorrelationRegime)
    (per : List RealBucket) :
    reduceCurvatureChargeReal per
      (scaleCorrelationSpecReal spec (correlationRegimeFactor regime) 1) =
      if 0 ≤ interior (regimeGammaAt spec regime) RealBucket.sb per then
        (√(interior (regimeGammaAt spec regime) RealBucket.sb per), false)
      else (√(max (interior (regimeGammaAt spec regime) clipped per) 0), true) := by
  have sums : ∀ s, sumSquares RealBucket.kb per +
      gatedSum (squareCorrelationSpecReal
        (scaleCorrelationSpecReal spec (correlationRegimeFactor regime) 1)) s per =
        interior (regimeGammaAt spec regime) s per := by
    intro s
    unfold gatedSum interior
    refine congrArg (fun f => _ + pairSum f per) ?_
    funext p q
    rw [gammaAt_square, gammaAt_scale admitted]
  unfold reduceCurvatureChargeReal aggregateAcrossBucketsReal
  dsimp only
  rw [sums, sums]
  by_cases empty : per = []
  · have zero : interior (regimeGammaAt spec regime) RealBucket.sb per = 0 := by
      rw [interior, empty]
      simp [sumSquares, pairSum]
    rw [if_pos empty, zero, if_pos le_rfl, Real.sqrt_zero]
  · rw [if_neg empty]

/-- The charge is the root of the interior, or else of the clipped interior that the clamp
keeps from being negative; the clamp is inert under dominated symmetric correlations. -/
theorem curvature_charge (nonneg : ∀ p ∈ per, 0 ≤ p.kb) (admitted : Admitted spec)
    (regime : CorrelationRegime) :
    let scaled := scaleCorrelationSpecReal spec (correlationRegimeFactor regime) 1
    let g := regimeGammaAt spec regime
    (0 ≤ interior g RealBucket.sb per →
      reduceCurvatureChargeReal per scaled = (√(interior g RealBucket.sb per), false)) ∧
    (interior g RealBucket.sb per < 0 →
      reduceCurvatureChargeReal per scaled = (√(max (interior g clipped per) 0), true)) ∧
    ((∀ b c, g b c = g c b) → Dominated g per → 0 ≤ interior g clipped per) ∧
    ∀ per', per'.Perm per →
      reduceCurvatureChargeReal per' scaled = reduceCurvatureChargeReal per scaled := by
  intro scaled g
  have whole := reduceCurvatureChargeReal_eq admitted regime per
  refine ⟨fun inside => by rw [whole, if_pos inside],
    fun outside => by rw [whole, if_neg (not_le.mpr outside)], fun symmetric dominated => ?_,
    fun per' perm => reduceCurvatureChargeReal_perm perm _⟩
  have pairs := gated_sum_ge symmetric dominated clipped
  have squares := sumSquares_clipped_le nonneg
  unfold interior
  linarith

/-- Two opposite buckets, half correlated. -/
theorem curvature_charge_hedged :
    reduceCurvatureChargeReal hedged
      (scaleCorrelationSpecReal (.constant (1 / 2)) (correlationRegimeFactor .medium) 1) =
        (√(max (interior (regimeGammaAt (.constant (1 / 2)) .medium) clipped hedged) 0), true) := by
  have nonneg : ∀ p ∈ hedged, 0 ≤ p.kb := by
    intro p mem
    simp only [hedged, List.mem_cons, List.not_mem_nil, or_false] at mem
    rcases mem with rfl | rfl <;> norm_num
  have admitted : Admitted (.constant (1 / 2)) := by
    constructor <;> norm_num
  refine (curvature_charge nonneg admitted .medium).2.1 ?_
  norm_num [hedged, interior, sumSquares, pairSum, regimeGammaAt, gammaAt, psi,
    correlationRegimeFactor]

/-- One bucket against four, fully correlated. -/
def fourShort : List RealBucket :=
  [⟨"A", 1, 1⟩, ⟨"B", 1, -1⟩, ⟨"C", 1, -1⟩, ⟨"D", 1, -1⟩, ⟨"E", 1, -1⟩]

/-- The clipped interior is negative, and the clamp makes the charge zero. -/
theorem clamp_charges_zero :
    (∀ p ∈ fourShort, 0 < p.kb) ∧ Admitted (.constant 1) ∧
      interior (regimeGammaAt (.constant 1) .medium) clipped fourShort = -3 ∧
      reduceCurvatureChargeReal fourShort
        (scaleCorrelationSpecReal (.constant 1) (correlationRegimeFactor .medium) 1) =
        (0, true) := by
  have admitted : Admitted (.constant 1) := ⟨zero_le_one, le_rfl⟩
  have open_ : interior (regimeGammaAt (.constant 1) .medium) RealBucket.sb fourShort = -3 := by
    norm_num [fourShort, interior, sumSquares, pairSum, regimeGammaAt, gammaAt, psi,
      correlationRegimeFactor]
  have closed : interior (regimeGammaAt (.constant 1) .medium) clipped fourShort = -3 := by
    norm_num [fourShort, interior, sumSquares, pairSum, regimeGammaAt, gammaAt, psi, clipped,
      correlationRegimeFactor]
  refine ⟨?_, admitted, closed, ?_⟩
  · intro p mem
    simp only [fourShort, List.mem_cons, List.not_mem_nil, or_false] at mem
    rcases mem with rfl | rfl | rfl | rfl | rfl <;> norm_num
  · rw [reduceCurvatureChargeReal_eq admitted, open_, closed]
    norm_num

end Floor

end

end CurvatureFloor
