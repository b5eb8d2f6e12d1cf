import Frtb.ChargeReduce

/-!
# The charge of a risk class at real numbers

The reduction once more, with real bucket sums and correlations; the one at
rational sums is its value there. Under one constant correlation the cross term
is a square less the squares, which bounds the clipped interior from both
sides.
-/

namespace ChargeFormula

open PairSums ChargeReduce

noncomputable section

section Reduction

structure RealBucket where
  bucket : String
  kb : ℝ
  sb : ℝ

inductive RealSpec where
  | constant (value : ℝ)
  | matrix (labels : List String) (rows : List (List ℝ))

def scaleCorrelationSpecReal (spec : RealSpec) (factor cap : ℝ) : RealSpec :=
  if factor = 1 then spec
  else
    let clamp := fun v => max (-cap) (min cap (v * factor))
    match spec with
    | .constant value => .constant (clamp value)
    | .matrix labels rows => .matrix labels (rows.map (·.map clamp))

def gammaAt (corr : RealSpec) (b c : String) : ℝ :=
  match corr with
  | .constant value => value
  | .matrix labels rows =>
    match labelIdx labels b, labelIdx labels c with
    | some i, some j => ((rows[i]?).bind (·[j]?)).getD 0
    | _, _ => 0

/-- `S_b` capped inside `[-K_b, K_b]`. -/
def clipped (p : RealBucket) : ℝ := max (min p.sb p.kb) (-p.kb)

def crossSum (corr : RealSpec) (s : RealBucket → ℝ) (per : List RealBucket) : ℝ :=
  pairSum (fun p q => gammaAt corr p.bucket q.bucket * s p * s q) per

def sumSquares (s : RealBucket → ℝ) (per : List RealBucket) : ℝ :=
  (per.map fun p => s p * s p).sum

def reduceRiskClassChargeReal (per : List RealBucket) (corr : RealSpec) : ℝ :=
  if per = [] then 0
  else
    let sum := sumSquares RealBucket.kb per + crossSum corr RealBucket.sb per
    if 0 ≤ sum then √sum
    else √(max (sumSquares RealBucket.kb per + crossSum corr clipped per) 0)

end Reduction

section Rational

def toReal (p : BucketResult) : RealBucket := ⟨p.bucket, p.kb, p.sb⟩

def specToReal : CorrelationSpec → RealSpec
  | .constant value => .constant value
  | .matrix labels rows => .matrix labels (rows.map fun row => row.map fun v : ℚ => (v : ℝ))

theorem gammaAt_toReal (corr : CorrelationSpec) (b c : String) :
    gammaAt (specToReal corr) b c = (gammaOf corr b c : ℝ) := by
  cases corr with
  | constant value => rfl
  | matrix labels rows =>
    simp only [specToReal, gammaAt, gammaOf]
    cases labelIdx labels b with
    | none => simp
    | some i =>
      cases labelIdx labels c with
      | none => simp
      | some j =>
        dsimp only
        rw [List.getElem?_map]
        cases rows[i]? with
        | none => simp
        | some row =>
          simp only [Option.map_some, Option.bind_some, List.getElem?_map]
          cases row[j]? <;> simp

/-- The regimes scale the correlations alike. -/
theorem scaleCorrelationSpec_toReal (corr : CorrelationSpec) (factor cap : ℚ) :
    specToReal (scaleCorrelationSpec corr factor cap) =
      scaleCorrelationSpecReal (specToReal corr) (factor : ℝ) (cap : ℝ) := by
  have clamp : ∀ v : ℚ, ((max (-cap) (min cap (v * factor)) : ℚ) : ℝ) =
      max (-(cap : ℝ)) (min (cap : ℝ) ((v : ℝ) * (factor : ℝ))) := by
    intro v
    push_cast
    rfl
  unfold scaleCorrelationSpec scaleCorrelationSpecReal
  by_cases unit : factor = 1
  · rw [if_pos unit, if_pos (by rw [unit]; norm_num)]
  · rw [if_neg unit, if_neg (by exact_mod_cast unit)]
    cases corr with
    | constant value => exact congrArg RealSpec.constant (clamp value)
    | matrix labels rows =>
      simp only [specToReal, List.map_map, Function.comp_def, clamp]

theorem crossSum_toReal (corr : CorrelationSpec) (s : RealBucket → ℝ) (s' : BucketResult → ℝ)
    (same : ∀ p, s (toReal p) = s' p) (per : List BucketResult) :
    crossSum (specToReal corr) s (per.map toReal) = crossTerm corr s' per := by
  rw [crossSum, pairSum_map, crossTerm]
  simp only [same, gammaAt_toReal]
  rfl

/-- The charge of exact bucket sums is the charge at their real values. -/
theorem reduceRiskClassCharge_real (per : List BucketResult) (corr : CorrelationSpec) :
    reduceRiskClassCharge per corr =
      reduceRiskClassChargeReal (per.map toReal) (specToReal corr) := by
  have kbs : sumSquares RealBucket.kb (per.map toReal) = sumKbSquared per := by
    rw [sumSquares, List.map_map, sumKbSquared]
    rfl
  unfold reduceRiskClassCharge reduceRiskClassChargeReal
  by_cases empty : per = []
  · rw [if_pos empty, if_pos (by rw [empty]; rfl)]
  · rw [if_neg empty, if_neg (show ¬ per.map toReal = [] from by simpa using empty), kbs,
      crossSum_toReal corr RealBucket.sb (fun p => (p.sb : ℝ)) (fun _ => rfl),
      crossSum_toReal corr clipped clippedSb (fun _ => rfl)]

end Rational

section Constant
variable {per per' : List RealBucket} {gamma : ℝ}

theorem crossSum_constant (gamma : ℝ) (s : RealBucket → ℝ) (per : List RealBucket) :
    crossSum (.constant gamma) s per =
      gamma * ((per.map s).sum * (per.map s).sum - sumSquares s per) :=
  pairSum_mul gamma s per

/-- The cross term with the correlation in front. -/
theorem crossSum_factor (gamma : ℝ) (s : RealBucket → ℝ) (per : List RealBucket) :
    crossSum (.constant gamma) s per = gamma * pairSum (fun p q => s p * s q) per := by
  have one := pairSum_mul 1 s per
  simp only [one_mul] at one
  rw [crossSum_constant, one]
  rfl

/-- Clipping keeps a sum inside the bucket's own charge. -/
theorem abs_clipped_le {p : RealBucket} (nonneg : 0 ≤ p.kb) : |clipped p| ≤ p.kb := by
  rw [clipped, abs_le]
  constructor
  · exact le_max_right _ _
  · exact max_le (min_le_right _ _) (by linarith)

theorem sumSquares_clipped_le (nonneg : ∀ p ∈ per, 0 ≤ p.kb) :
    sumSquares clipped per ≤ sumSquares RealBucket.kb per := by
  refine List.sum_le_sum fun p mem => ?_
  have bound := abs_clipped_le (nonneg p mem)
  nlinarith [abs_mul_abs_self (clipped p), abs_nonneg (clipped p), nonneg p mem]

theorem sumSquares_nonneg (s : RealBucket → ℝ) (per : List RealBucket) : 0 ≤ sumSquares s per := by
  refine List.sum_nonneg fun x mem => ?_
  obtain ⟨p, _, rfl⟩ := List.mem_map.mp mem
  exact mul_self_nonneg _

/-- The clipped interior keeps at least the part of the squares that is left
uncorrelated. -/
theorem clipped_interior_ge (nonneg : ∀ p ∈ per, 0 ≤ p.kb) (positive : 0 ≤ gamma) :
    (1 - gamma) * sumSquares RealBucket.kb per ≤
      sumSquares RealBucket.kb per + crossSum (.constant gamma) clipped per := by
  rw [crossSum_constant]
  have square : 0 ≤ (per.map clipped).sum * (per.map clipped).sum := mul_self_nonneg _
  nlinarith [sumSquares_clipped_le nonneg, mul_nonneg positive square,
    mul_le_mul_of_nonneg_left (sumSquares_clipped_le nonneg) positive]

theorem sumSquares_le_square (nonneg : ∀ p ∈ per, 0 ≤ p.kb) :
    sumSquares RealBucket.kb per ≤ (per.map RealBucket.kb).sum * (per.map RealBucket.kb).sum := by
  induction per with
  | nil => simp [sumSquares]
  | cons p per ih =>
    have rest := ih fun q mem => nonneg q (List.mem_cons_of_mem _ mem)
    have first := nonneg p List.mem_cons_self
    have total : 0 ≤ (per.map RealBucket.kb).sum := by
      refine List.sum_nonneg fun x mem => ?_
      obtain ⟨q, listed, rfl⟩ := List.mem_map.mp mem
      exact nonneg q (List.mem_cons_of_mem _ listed)
    simp only [sumSquares, List.map_cons, List.sum_cons] at rest ⊢
    nlinarith [mul_nonneg first total]

/-- The clipped interior is at most the square of the sum of the charges. -/
theorem clipped_interior_le (nonneg : ∀ p ∈ per, 0 ≤ p.kb) (positive : 0 ≤ gamma)
    (capped : gamma ≤ 1) :
    sumSquares RealBucket.kb per + crossSum (.constant gamma) clipped per ≤
      (per.map RealBucket.kb).sum * (per.map RealBucket.kb).sum := by
  rw [crossSum_factor]
  have pairs : pairSum (fun p q => clipped p * clipped q) per ≤
      pairSum (fun p q => RealBucket.kb p * RealBucket.kb q) per := by
    unfold pairSum
    refine List.sum_le_sum fun p listed => List.sum_le_sum fun q listed' => ?_
    split
    · exact le_rfl
    · have first := nonneg p.1 (List.fst_mem_of_mem_zipIdx listed)
      have second := nonneg q.1 (List.fst_mem_of_mem_zipIdx listed')
      calc clipped p.1 * clipped q.1 ≤ |clipped p.1 * clipped q.1| := le_abs_self _
        _ = |clipped p.1| * |clipped q.1| := abs_mul _ _
        _ ≤ p.1.kb * q.1.kb := mul_le_mul (abs_clipped_le first) (abs_clipped_le second)
            (abs_nonneg _) first
  have all := pairSum_mul 1 RealBucket.kb per
  simp only [one_mul] at all
  have squares : (per.map fun p => p.kb * p.kb).sum = sumSquares RealBucket.kb per := rfl
  rw [squares] at all
  have cross : 0 ≤ pairSum (fun p q => RealBucket.kb p * RealBucket.kb q) per := by
    rw [all]
    linarith [sumSquares_le_square nonneg]
  nlinarith [mul_le_mul_of_nonneg_left pairs positive]

/-- The charge does not depend on the order of the buckets. -/
theorem reduceRiskClassChargeReal_perm (perm : per.Perm per') (corr : RealSpec) :
    reduceRiskClassChargeReal per corr = reduceRiskClassChargeReal per' corr := by
  have empty : per = [] ↔ per' = [] :=
    ⟨fun h => (h ▸ perm).nil_eq.symm, fun h => (h ▸ perm).eq_nil⟩
  have squares : sumSquares RealBucket.kb per = sumSquares RealBucket.kb per' :=
    (perm.map _).sum_eq
  have cross : ∀ s, crossSum corr s per = crossSum corr s per' := fun s => pairSum_perm _ perm
  unfold reduceRiskClassChargeReal
  simp only [squares, cross]
  exact if_congr empty rfl rfl

/-- The constant correlation of a regime. -/
def regimeGamma (gamma : ℝ) (regime : CorrelationRegime) : ℝ :=
  min 1 (gamma * (correlationRegimeFactor regime : ℝ))

theorem factor_pos (regime : CorrelationRegime) : 0 < correlationRegimeFactor regime := by
  cases regime <;> norm_num [correlationRegimeFactor]

theorem regimeGamma_bounds (regime : CorrelationRegime) (positive : 0 ≤ gamma) :
    0 ≤ regimeGamma gamma regime ∧ regimeGamma gamma regime ≤ 1 := by
  have factor : (0 : ℝ) < correlationRegimeFactor regime := by exact_mod_cast factor_pos regime
  exact ⟨le_min zero_le_one (mul_nonneg positive factor.le), min_le_left _ _⟩

theorem scaleCorrelationSpecReal_constant (regime : CorrelationRegime) (positive : 0 ≤ gamma)
    (capped : gamma ≤ 1) :
    scaleCorrelationSpecReal (.constant gamma) (correlationRegimeFactor regime) 1 =
      .constant (regimeGamma gamma regime) := by
  unfold scaleCorrelationSpecReal
  split
  · rename_i unit
    rw [regimeGamma, unit, mul_one, min_eq_right capped]
  · have low := (regimeGamma_bounds regime positive).1
    exact congrArg RealSpec.constant (max_eq_right (by rw [regimeGamma] at low; linarith))

/-- The charge under a constant correlation and a regime: the root of the
interior, or of the clipped interior, which needs no clamp and stays below the
sum of the buckets' charges; in any order of the buckets. -/
theorem constant_charge (nonneg : ∀ p ∈ per, 0 ≤ p.kb) (positive : 0 ≤ gamma) (capped : gamma ≤ 1)
    (regime : CorrelationRegime) :
    let charge := reduceRiskClassChargeReal per
      (scaleCorrelationSpecReal (.constant gamma) (correlationRegimeFactor regime) 1)
    let gamma' := regimeGamma gamma regime
    let squares := sumSquares RealBucket.kb per
    let interior := squares + gamma' * pairSum (fun p q => p.sb * q.sb) per
    let clippedInterior := squares + gamma' * pairSum (fun p q => clipped p * clipped q) per
    (0 ≤ interior → charge = √interior) ∧
    (interior < 0 → charge = √clippedInterior ∧ (1 - gamma') * squares ≤ clippedInterior ∧
      0 ≤ (1 - gamma') * squares ∧ charge ≤ (per.map RealBucket.kb).sum) ∧
    ∀ per', per'.Perm per → reduceRiskClassChargeReal per'
      (scaleCorrelationSpecReal (.constant gamma) (correlationRegimeFactor regime) 1) = charge := by
  intro charge gamma' squares interior clippedInterior
  obtain ⟨low, high⟩ := regimeGamma_bounds regime positive
  have spec := scaleCorrelationSpecReal_constant regime positive capped
  have root : charge = if 0 ≤ interior then √interior else √(max clippedInterior 0) := by
    have cross := crossSum_factor gamma' RealBucket.sb per
    have crossClipped := crossSum_factor gamma' clipped per
    have unfolded : charge = reduceRiskClassChargeReal per (.constant gamma') :=
      congrArg (reduceRiskClassChargeReal per) spec
    rw [unfolded, reduceRiskClassChargeReal, cross, crossClipped]
    by_cases empty : per = []
    · have zero : interior = 0 := by
        simp only [interior, squares, empty, sumSquares, pairSum]
        simp
      rw [if_pos empty, zero, if_pos le_rfl, Real.sqrt_zero]
    · rw [if_neg empty]
  have bound := clipped_interior_ge nonneg low
  rw [crossSum_factor] at bound
  have kept : 0 ≤ (1 - gamma') * squares :=
    mul_nonneg (by linarith) (sumSquares_nonneg _ _)
  refine ⟨fun inside => by rw [root, if_pos inside], fun outside => ?_, ?_⟩
  · have clamped : charge = √clippedInterior := by
      rw [root, if_neg (not_le.mpr outside), max_eq_left (kept.trans bound)]
    have above := clipped_interior_le nonneg low high
    rw [crossSum_factor] at above
    have total : 0 ≤ (per.map RealBucket.kb).sum := by
      refine List.sum_nonneg fun x mem => ?_
      obtain ⟨p, listed, rfl⟩ := List.mem_map.mp mem
      exact nonneg p listed
    refine ⟨clamped, bound, kept, ?_⟩
    rw [clamped]
    exact Real.sqrt_le_iff.mpr ⟨total, by rw [sq]; exact above⟩
  · intro per' perm
    exact reduceRiskClassChargeReal_perm perm _

/-- A book whose interior is negative. -/
def hedged : List RealBucket := [⟨"A", 1, -10⟩, ⟨"B", 1, 10⟩]

theorem constant_charge_hedged :
    reduceRiskClassChargeReal hedged
        (scaleCorrelationSpecReal (.constant (1 / 2)) (correlationRegimeFactor .medium) 1) ≤
      (hedged.map RealBucket.kb).sum := by
  have nonneg : ∀ p ∈ hedged, 0 ≤ p.kb := by
    intro p mem
    simp only [hedged, List.mem_cons, List.not_mem_nil, or_false] at mem
    rcases mem with rfl | rfl <;> norm_num
  have all := constant_charge nonneg (by norm_num : (0 : ℝ) ≤ 1 / 2) (by norm_num) .medium
  refine (all.2.1 ?_).2.2.2
  norm_num [hedged, sumSquares, pairSum, regimeGamma, correlationRegimeFactor]

end Constant

end

end ChargeFormula
