import Frtb.ConstantRho
import Frtb.CurvatureKernel
import Frtb.FastPathRows
import Frtb.Library.OrderedPairs

/-!
# The drilldown against the charge of a bucket

A bucket's result carries what its `K_b` was made of: `ΣWS²`, the cross term, and lists of
components and of pairs of them. The cross term comes from a closed form over two sums and is
cut off at zero, while the list holds every pair. Here the lists are added up and compared
with the numbers they are shown beside.
-/

namespace Drilldown

open AssocMaps EnrichDoc ChargeReduce FastPath PairSums OrderedPairs FastPathSums FastPathRows
  ConstantRho CurvatureKernel

section Rows

/-- The fields that a leg reads, each under its prefix. -/
def sidesOf (leg : FastLeg) (fields : LegFields) : List (LegPrefix × String) :=
  match leg with
  | .delta => fields.delta.map (LegPrefix.d, ·)
  | .vega => fields.vega.map (LegPrefix.v, ·)
  | .curvature => fields.cvrUp.map (LegPrefix.u, ·) ++ fields.cvrDown.map (LegPrefix.n, ·)

/-- The row holds the exact sums over rows, which have `values pre f` under a field. -/
def Aggregated (leg : FastLeg) (fields : LegFields) (values : LegPrefix → String → List ℚ)
    (row : Record) : Prop :=
  ∀ side ∈ sidesOf leg fields, ∀ part ∈ legParts leg,
    safeNum (row.sums ⟨side.1, side.2, part⟩) = ((values side.1 side.2).map (partValue part)).sum

/-- The map by risk factor has one row for each factor, and these rows are the rows that were
aggregated. -/
def OneRowEach (pre : LegPrefix) (f : String) (rows : List ℚ) (perRf : List (String × Record)) :
    Prop :=
  ∃ value : String → ℚ, (perRf.map Prod.fst).Nodup ∧
    (∀ p ∈ perRf, ∀ part ∈ [Part.value, Part.sq],
      safeNum (p.2.sums ⟨pre, f, part⟩) = partValue part (value p.1)) ∧
    (perRf.map fun p => value p.1).Perm rows

end Rows

section Lists

def crossOf (rho : ℚ) (p : WsComponent × WsComponent) : CrossComponent :=
  ⟨p.1.k, p.2.k, rho, p.1.ws, p.2.ws, rho * p.1.ws * p.2.ws⟩

/-- Every pair of components, before sorting and cutting. -/
def allCross (ws : List WsComponent) (rho : ℚ) : List CrossComponent :=
  (orderedPairs ws).map (crossOf rho)

theorem buildCrossComponents_eq (ws : List WsComponent) (rho : ℚ) (topN : Option ℕ) :
    buildCrossComponents ws rho topN =
      (match topN with
        | none => (allCross ws rho).insertionSort fun x y => |y.contrib| ≤ |x.contrib|
        | some n => ((allCross ws rho).insertionSort fun x y => |y.contrib| ≤ |x.contrib|).take n,
        (allCross ws rho).length) := by
  have all : (ws.zipIdx.flatMap fun p => (ws.zipIdx.filter fun q => p.2 ≠ q.2).map fun q =>
      (⟨p.1.k, q.1.k, rho, p.1.ws, q.1.ws, rho * p.1.ws * q.1.ws⟩ : CrossComponent)) =
        allCross ws rho := by
    simp only [allCross, orderedPairs, List.map_flatMap, List.map_map]
    rfl
  unfold buildCrossComponents
  cases topN <;> simp only [all]

theorem length_allCross (ws : List WsComponent) (rho : ℚ) :
    (allCross ws rho).length = ws.length * (ws.length - 1) := by
  rw [allCross, List.length_map, length_orderedPairs]

theorem sum_allCross (ws : List WsComponent) (rho : ℚ) :
    ((allCross ws rho).map CrossComponent.contrib).sum =
      rho * crossProducts (ws.map WsComponent.ws) := by
  have pairs_ := sum_orderedPairs (fun a b : WsComponent => rho * a.ws * b.ws) ws
  rw [pairSum_mul rho WsComponent.ws ws] at pairs_
  rw [allCross, List.map_map, crossProducts_eq, squares, List.map_map]
  exact pairs_

/-- The list of pairs is not cut. -/
def Untruncated (n : ℕ) (topN : Option ℕ) : Prop := ∀ N, topN = some N → n * (n - 1) ≤ N

theorem sum_buildCrossComponents {ws : List WsComponent} {topN : Option ℕ} (rho : ℚ)
    (whole : Untruncated ws.length topN) :
    ((buildCrossComponents ws rho topN).1.map CrossComponent.contrib).sum =
      rho * crossProducts (ws.map WsComponent.ws) := by
  have perm := List.perm_insertionSort (fun x y : CrossComponent => |y.contrib| ≤ |x.contrib|)
    (allCross ws rho)
  rw [buildCrossComponents_eq, ← sum_allCross]
  cases topN with
  | none => exact (perm.map _).sum_eq
  | some N =>
    have long := whole N rfl
    rw [← length_allCross ws rho, ← perm.length_eq] at long
    dsimp only
    rw [List.take_of_length_le long]
    exact (perm.map _).sum_eq

theorem largest_buildCrossComponents (ws : List WsComponent) (rho : ℚ) (N : ℕ) :
    Largest (fun x => |x.contrib|) N (allCross ws rho)
      (buildCrossComponents ws rho (some N)).1 := by
  rw [buildCrossComponents_eq]
  apply largest_take
  exact fun _ _ => Iff.rfl

end Lists

section Totals
variable {row : Record} {values : LegPrefix → String → List ℚ} {pre : LegPrefix}
  {list : List String} {perRf : List (String × Record)}

/-- The fields of a leg without directions. -/
def listOf (leg : FastLeg) (fields : LegFields) : List String :=
  match leg with
  | .delta => fields.delta
  | .vega => fields.vega
  | .curvature => []

def prefixOf (leg : FastLeg) : LegPrefix :=
  match leg with
  | .delta => .d
  | _ => .v

/-- The components come from the sums that the charge is made of: the sums per tenor of a
Delta, or a map with one row for each risk factor. -/
def OneLevel (pre : LegPrefix) (list : List String) (perTenor : Bool)
    (values : LegPrefix → String → List ℚ) (perRf : List (String × Record)) : Prop :=
  match perTenor with
  | true => pre = .d
  | false => ∃ f, list = [f] ∧ OneRowEach pre f (values pre f) perRf

/-- What the components are: the tenors' sums, or the rows. -/
def factors (pre : LegPrefix) (list : List String) (perTenor : Bool)
    (values : LegPrefix → String → List ℚ) : List ℚ :=
  if perTenor then list.map fun f => (values pre f).sum else values pre (list.headD "")

def Numeric (pre : LegPrefix) (list : List String) (values : LegPrefix → String → List ℚ)
    (row : Record) : Prop :=
  ∀ f ∈ list, ∀ part ∈ [Part.value, Part.sq],
    safeNum (row.sums ⟨pre, f, part⟩) = ((values pre f).map (partValue part)).sum

theorem Numeric.value (numeric : Numeric pre list values row) {f : String} (mem : f ∈ list) :
    safeNum (row.sums ⟨pre, f, .value⟩) = (values pre f).sum := by
  rw [numeric f mem .value (by simp)]
  exact congrArg List.sum (List.map_id _)

theorem Numeric.sq (numeric : Numeric pre list values row) {f : String} (mem : f ∈ list) :
    safeNum (row.sums ⟨pre, f, .sq⟩) = squares (values pre f) :=
  numeric f mem .sq (by simp)

theorem legSums_nonneg (numeric : Numeric pre list values row) (perTenor : Bool) :
    0 ≤ (legSums row list pre perTenor).2 := by
  unfold legSums
  dsimp only
  split
  · exact squares_nonneg _
  · refine List.sum_nonneg fun x mem => ?_
    obtain ⟨f, listed, rfl⟩ := List.mem_map.mp mem
    rw [numeric.sq listed]
    exact squares_nonneg _

/-- The two sums are those of the factors, where the components come from them. -/
theorem legSums_factors (numeric : Numeric pre list values row) {perTenor : Bool}
    (level : OneLevel pre list perTenor values perRf) :
    legSums row list pre perTenor = ((factors pre list perTenor values).sum,
      squares (factors pre list perTenor values)) := by
  cases perTenor with
  | true =>
    obtain rfl : pre = .d := level
    have sums : (list.map fun f => safeNum (row.sums ⟨.d, f, .value⟩)) =
        list.map fun f => (values .d f).sum :=
      List.map_congr_left fun f mem => numeric.value mem
    unfold legSums
    rw [sums]
    rfl
  | false =>
    obtain ⟨f, rfl, -⟩ := level
    have value := numeric.value List.mem_cons_self
    have sq := numeric.sq List.mem_cons_self
    simp only [legSums, Bool.false_and, Bool.false_eq_true, if_false, List.map_singleton,
      List.sum_singleton, value, sq]
    rfl

/-- The components are the factors, in some order, with their squares. -/
theorem buildWsComponents_factors (numeric : Numeric pre list values row) {perTenor : Bool}
    (level : OneLevel pre list perTenor values perRf) :
    ((buildWsComponents row list pre perTenor perRf).map fun c => (c.ws, c.wsSquared)).Perm
      ((factors pre list perTenor values).map fun x => (x, x * x)) := by
  cases perTenor with
  | true =>
    obtain rfl : pre = .d := level
    have same : (buildWsComponents row list .d true perRf).map (fun c => (c.ws, c.wsSquared)) =
        (factors .d list true values).map fun x => (x, x * x) := by
      simp only [buildWsComponents, factors, if_true, List.map_map]
      refine List.map_congr_left fun f mem => ?_
      simp only [Function.comp_apply, numeric.value mem]
    rw [same]
  | false =>
    obtain ⟨f, rfl, value, -, sums, rows⟩ := level
    have sorted : (buildWsComponents row [f] pre false perRf).Perm (perRf.map fun p =>
        ⟨p.1, safeNum (p.2.sums ⟨pre, f, .value⟩), safeNum (p.2.sums ⟨pre, f, .sq⟩)⟩) :=
      List.perm_insertionSort _ _
    refine (sorted.map _).trans ?_
    have named : (perRf.map fun p => (⟨p.1, safeNum (p.2.sums ⟨pre, f, .value⟩),
          safeNum (p.2.sums ⟨pre, f, .sq⟩)⟩ : WsComponent)).map (fun c => (c.ws, c.wsSquared)) =
        (perRf.map fun p => value p.1).map fun x => (x, x * x) := by
      rw [List.map_map, List.map_map]
      refine List.map_congr_left fun p mem => ?_
      simp only [Function.comp_apply, sums p mem .value (by simp), sums p mem .sq (by simp)]
      rfl
    rw [named]
    exact rows.map _

end Totals

section Numeric
variable {row : Record} {values : LegPrefix → String → List ℚ} {pre : LegPrefix}
  {list : List String} {perRf : List (String × Record)} {perTenor : Bool} {rho : ℚ}

theorem kbFromConstantRho_square {sumWs sumWsSq : ℚ} (nonneg : 0 ≤ rho) (squares_ : 0 ≤ sumWsSq) :
    (kbFromConstantRho sumWs sumWsSq rho).1 ^ 2 =
      ((kbFromConstantRho sumWs sumWsSq rho).2.1 + (kbFromConstantRho sumWs sumWsSq rho).2.2 :
        ℚ) := by
  have cross : 0 ≤ rho * max (sumWs * sumWs - sumWsSq) 0 := mul_nonneg nonneg (le_max_right _ _)
  have whole : max (sumWsSq + rho * max (sumWs * sumWs - sumWsSq) 0) 0 =
      sumWsSq + rho * max (sumWs * sumWs - sumWsSq) 0 := max_eq_left (add_nonneg squares_ cross)
  simp only [kbFromConstantRho]
  rw [whole, Real.sq_sqrt]
  exact_mod_cast add_nonneg squares_ cross

/-- The totals of the lists are the numbers they are shown beside. -/
def TotalsMatch (ws : List WsComponent) (cross : List CrossComponent)
    (sumWs sumWsSq crossTerm : ℚ) :
    Prop :=
  (ws.map WsComponent.ws).sum = sumWs ∧ (ws.map WsComponent.wsSquared).sum = sumWsSq ∧
    (cross.map CrossComponent.contrib).sum = crossTerm

/-- The totals match exactly when no cross term is cut away. -/
theorem totalsMatch_iff (numeric : Numeric pre list values row)
    (level : OneLevel pre list perTenor values perRf) {topN : Option ℕ}
    (whole : Untruncated (buildWsComponents row list pre perTenor perRf).length topN) :
    TotalsMatch (buildWsComponents row list pre perTenor perRf)
        (buildCrossComponents (buildWsComponents row list pre perTenor perRf) rho topN).1
        (legSums row list pre perTenor).1 (legSums row list pre perTenor).2
        (kbFromConstantRho (legSums row list pre perTenor).1 (legSums row list pre perTenor).2
          rho).2.2 ↔
      CrossKept (factors pre list perTenor values) rho := by
  have perm := buildWsComponents_factors numeric level
  have wsPerm : ((buildWsComponents row list pre perTenor perRf).map WsComponent.ws).Perm
      (factors pre list perTenor values) := by
    have firsts := perm.map Prod.fst
    rw [List.map_map, List.map_map] at firsts
    simpa only [Function.comp_def, List.map_id'] using firsts
  have sqPerm : ((buildWsComponents row list pre perTenor perRf).map WsComponent.wsSquared).Perm
      ((factors pre list perTenor values).map fun x => x * x) := by
    have seconds := perm.map Prod.snd
    rw [List.map_map, List.map_map] at seconds
    simpa only [Function.comp_def] using seconds
  have crossPerm : crossProducts ((buildWsComponents row list pre perTenor perRf).map
      WsComponent.ws) = crossProducts (factors pre list perTenor values) := pairSum_perm _ wsPerm
  unfold TotalsMatch
  rw [sum_buildCrossComponents rho whole, crossPerm, legSums_factors numeric level,
    wsPerm.sum_eq, sqPerm.sum_eq]
  simp only [kbFromConstantRho, ← crossProducts_eq]
  constructor
  · rintro ⟨-, -, same⟩
    rcases mul_eq_mul_left_iff.mp same with kept | zero
    · exact .inr (kept ▸ le_max_right _ _)
    · exact .inl zero
  · rintro (zero | kept)
    · exact ⟨trivial, rfl, by rw [zero, zero_mul, zero_mul]⟩
    · exact ⟨trivial, rfl, by rw [max_eq_left kept]⟩

end Numeric

section Directions
variable {row : Record} {rho : ℚ}

/-- `K_b²` is what the two numbers beside it add up to. -/
def AddsUp (r : DirectionResult) : Prop :=
  r.kb ^ 2 = (r.wsSquaredSum + r.crossTerm : ℚ)

theorem square_perTenor (fields : List String) (pre : LegPrefix) :
    AddsUp (kbCurvatureForDirection row fields pre rho true) := by
  unfold AddsUp kbCurvatureForDirection
  dsimp only
  rw [if_pos rfl]
  dsimp only
  rw [add_sub_cancel, Real.sq_sqrt]
  exact_mod_cast le_max_left _ _

/-- The four sums add up to the gated sum over the rows. -/
theorem gated_scalar {f : String} {pre : LegPrefix} {cvr : List ℚ}
    (sums : ∀ part, safeNum (row.sums ⟨pre, f, part⟩) = (cvr.map (partValue part)).sum) :
    (kbCurvatureForDirection row [f] pre rho false).wsSquaredSum +
        (kbCurvatureForDirection row [f] pre rho false).crossTerm =
      kbSquaredForDirection cvr rho := by
  have value : (cvr.map (partValue .value)).sum = cvr.sum := by
    rw [show partValue .value = fun x => x from rfl, List.map_id']
  simp only [kbCurvatureForDirection, Bool.false_eq_true, if_false, List.headD_cons, sums, value,
    kbSquaredForDirection_eq]
  rfl

theorem square_scalar_iff {f : String} {pre : LegPrefix} {cvr : List ℚ}
    (sums : ∀ part, safeNum (row.sums ⟨pre, f, part⟩) = (cvr.map (partValue part)).sum) :
    AddsUp (kbCurvatureForDirection row [f] pre rho false) ↔
      0 ≤ kbSquaredForDirection cvr rho := by
  have root := (kbCurvatureForDirection_eq rho sums).1
  rw [AddsUp, gated_scalar sums, root, Real.sq_sqrt, Rat.cast_inj]
  · exact max_eq_right_iff
  · exact_mod_cast le_max_left _ _

theorem winner_kb (up down : DirectionResult) :
    (if up.kb < down.kb then down else up).kb = max up.kb down.kb := by
  split
  · rename_i less
    exact (max_eq_right less.le).symm
  · rename_i least
    exact (max_eq_left (not_lt.mp least)).symm

/-- The winner's numbers add up unless both sums are cut off at zero and the one that is shown
is negative. -/
theorem winner_square_iff {f g : String} {up down : List ℚ}
    (sumsUp : ∀ part, safeNum (row.sums ⟨.u, f, part⟩) = (up.map (partValue part)).sum)
    (sumsDown : ∀ part, safeNum (row.sums ⟨.n, g, part⟩) = (down.map (partValue part)).sum) :
    AddsUp
        (if (kbCurvatureForDirection row [f] .u rho false).kb <
            (kbCurvatureForDirection row [g] .n rho false).kb
          then kbCurvatureForDirection row [g] .n rho false
          else kbCurvatureForDirection row [f] .u rho false) ↔
      0 ≤ kbSquaredForDirection up rho ∨ 0 < kbSquaredForDirection down rho := by
  have upKb := (kbCurvatureForDirection_eq rho sumsUp).1
  have downKb := (kbCurvatureForDirection_eq rho sumsDown).1
  have less : (kbCurvatureForDirection row [f] .u rho false).kb <
      (kbCurvatureForDirection row [g] .n rho false).kb ↔
        max 0 (kbSquaredForDirection up rho) < max 0 (kbSquaredForDirection down rho) := by
    rw [upKb, downKb, Real.sqrt_lt_sqrt_iff (by exact_mod_cast le_max_left _ _), Rat.cast_lt]
  split
  · rename_i wins
    have positive : 0 < kbSquaredForDirection down rho := by
      have more := lt_of_le_of_lt (le_max_left 0 _) (less.mp wins)
      exact (lt_max_iff.mp more).resolve_left (lt_irrefl 0)
    rw [square_scalar_iff sumsDown]
    exact ⟨fun _ => .inr positive, fun _ => positive.le⟩
  · rename_i loses
    rw [square_scalar_iff sumsUp]
    refine ⟨.inl, ?_⟩
    rintro (kept | positive)
    · exact kept
    · have least := not_lt.mp fun wins => loses (less.mpr wins)
      have more := lt_of_lt_of_le (lt_max_of_lt_right positive) least
      exact ((lt_max_iff.mp more).resolve_left (lt_irrefl 0)).le

end Directions

section Reports
variable {schema : CalcSchema} {rc : String} {lazyMath : Bool} {row : Record}
  {values : LegPrefix → String → List ℚ} {rho : ℚ}

/-- The drilldown of a result agrees with the result. The winner is the greater of the two
directions; the lists are compared where they are whole and come from the charge's own sums. -/
structure Reconciles (leg : FastLeg) (fields : LegFields) (perTenor : Bool) (rho : ℚ)
    (row : Record) (values : LegPrefix → String → List ℚ) (perRf : List (String × Record))
    (topN : Option ℕ) (report : BucketReport) : Prop where
  square : report.kb ^ 2 =
    ((report.intermediate.wsSquaredSum + report.intermediate.crossTerm : ℚ) : ℝ)
  winner : leg = .curvature → report.kb =
    max (kbCurvatureForDirection row fields.cvrUp .u rho perTenor).kb
      (kbCurvatureForDirection row fields.cvrDown .n rho perTenor).kb
  totals : leg ≠ .curvature → OneLevel (prefixOf leg) (listOf leg fields) perTenor values perRf →
    Untruncated report.intermediate.wsComponents.length topN →
      TotalsMatch report.intermediate.wsComponents report.intermediate.crossComponents report.sb
        report.intermediate.wsSquaredSum report.intermediate.crossTerm
  largest : leg ≠ .curvature → ∀ N, topN = some N →
    Largest (fun c => |c.contrib|) N (allCross report.intermediate.wsComponents rho)
      report.intermediate.crossComponents

/-- Nothing that is shown was cut off at zero. -/
def Uncut (leg : FastLeg) (fields : LegFields) (perTenor : Bool) (rho : ℚ)
    (values : LegPrefix → String → List ℚ) (perRf : List (String × Record)) (topN : Option ℕ) :
    Prop :=
  match leg with
  | .curvature => perTenor = true ∨
      0 ≤ kbSquaredForDirection (values .u (fields.cvrUp.headD "")) rho ∨
      0 < kbSquaredForDirection (values .n (fields.cvrDown.headD "")) rho
  | leg => OneLevel (prefixOf leg) (listOf leg fields) perTenor values perRf →
      Untruncated (if perTenor then (listOf leg fields).length else perRf.length) topN →
        CrossKept (factors (prefixOf leg) (listOf leg fields) perTenor values) rho

theorem length_buildWsComponents (row : Record) (list : List String) (pre : LegPrefix)
    (perTenor : Bool) (perRf : List (String × Record)) :
    (buildWsComponents row list pre perTenor perRf).length =
      if perTenor then list.length else perRf.length := by
  unfold buildWsComponents
  split
  · exact List.length_map _
  · rw [perRfComponents, (List.perm_insertionSort _ _).length_eq, List.length_map]

theorem numeric_delta {fields : LegFields} (aggregated : Aggregated .delta fields values row) :
    Numeric .d fields.delta values row :=
  fun f mem => aggregated (.d, f) (List.mem_map_of_mem mem)

theorem numeric_vega {fields : LegFields} (aggregated : Aggregated .vega fields values row) :
    Numeric .v fields.vega values row :=
  fun f mem => aggregated (.v, f) (List.mem_map_of_mem mem)

/-- A result of a Delta or Vega row. -/
theorem reconciles_numeric_iff {leg : FastLeg} {fields : LegFields} {perTenor : Bool}
    {perRf : List (String × Record)} {topN : Option ℕ} {report : BucketReport} {pre : LegPrefix}
    {list : List String} (nonneg : 0 ≤ rho) (numeric : Numeric pre list values row)
    (other : leg ≠ .curvature) (hpre : prefixOf leg = pre) (hlist : listOf leg fields = list)
    (made : report.kb = (kbFromConstantRho (legSums row list pre perTenor).1
        (legSums row list pre perTenor).2 rho).1 ∧
      report.sb = (legSums row list pre perTenor).1 ∧
      report.intermediate = ⟨(legSums row list pre perTenor).2,
        (kbFromConstantRho (legSums row list pre perTenor).1 (legSums row list pre perTenor).2
          rho).2.2, buildWsComponents row list pre perTenor perRf,
        (buildCrossComponents (buildWsComponents row list pre perTenor perRf) rho topN).1,
        (buildCrossComponents (buildWsComponents row list pre perTenor perRf) rho topN).2, []⟩) :
    Reconciles leg fields perTenor rho row values perRf topN report ↔
      (OneLevel pre list perTenor values perRf →
        Untruncated (if perTenor then list.length else perRf.length) topN →
          CrossKept (factors pre list perTenor values) rho) := by
  obtain ⟨kb, sb, shown⟩ := made
  constructor
  · rintro ⟨-, -, totals, -⟩ level whole
    rw [hpre, hlist, shown, sb] at totals
    dsimp only at totals
    rw [← length_buildWsComponents row list pre perTenor perRf] at whole
    rw [← totalsMatch_iff numeric level whole]
    exact totals other level whole
  · intro kept
    refine ⟨?_, fun same => absurd same other, fun _ level whole => ?_, fun _ N cut => ?_⟩
    · rw [kb, shown]
      exact kbFromConstantRho_square nonneg (legSums_nonneg numeric perTenor)
    · rw [hpre, hlist] at level
      rw [shown] at whole ⊢
      dsimp only at whole ⊢
      rw [sb]
      refine (totalsMatch_iff numeric level whole).mpr (kept level ?_)
      rwa [length_buildWsComponents] at whole
    · rw [shown, cut]
      exact largest_buildCrossComponents _ rho N

/-- A result of a Curvature row. -/
theorem reconciles_curvature_iff {fields : LegFields} {perTenor : Bool}
    (bucket : String) (perRf : List (String × Record)) (topN : Option ℕ)
    (aggregated : Aggregated .curvature fields values row)
    (scalar : perTenor = false → ∃ f g, fields.cvrUp = [f] ∧ fields.cvrDown = [g]) :
    Reconciles .curvature fields perTenor rho row values perRf topN
        (bucketResultFromRow bucket row fields .curvature rho perTenor perRf topN) ↔
      Uncut .curvature fields perTenor rho values perRf topN := by
  have shown : Reconciles .curvature fields perTenor rho row values perRf topN
      (bucketResultFromRow bucket row fields .curvature rho perTenor perRf topN) ↔
        AddsUp (if (kbCurvatureForDirection row fields.cvrUp .u rho perTenor).kb <
            (kbCurvatureForDirection row fields.cvrDown .n rho perTenor).kb
          then kbCurvatureForDirection row fields.cvrDown .n rho perTenor
          else kbCurvatureForDirection row fields.cvrUp .u rho perTenor) :=
    ⟨Reconciles.square, fun square =>
      ⟨square, fun _ => winner_kb _ _, fun other => absurd rfl other,
      fun other => absurd rfl other⟩⟩
  rw [shown]
  cases perTenor with
  | true =>
    refine ⟨fun _ => .inl rfl, fun _ => ?_⟩
    split
    · exact square_perTenor fields.cvrDown .n
    · exact square_perTenor fields.cvrUp .u
  | false =>
    obtain ⟨f, g, up, down⟩ := scalar rfl
    have sumsUp : ∀ part, safeNum (row.sums ⟨.u, f, part⟩) =
        ((values .u f).map (partValue part)).sum := fun part =>
      aggregated (.u, f) (by simp [sidesOf, up]) part (by cases part <;> decide)
    have sumsDown : ∀ part, safeNum (row.sums ⟨.n, g, part⟩) =
        ((values .n g).map (partValue part)).sum := fun part =>
      aggregated (.n, g) (by simp [sidesOf, down]) part (by cases part <;> decide)
    rw [up, down, winner_square_iff sumsUp sumsDown]
    simp only [Uncut, up, down, List.headD_cons, Bool.false_eq_true, false_or]

/-- The drilldown of an aggregated row agrees with its result exactly when nothing that is
shown was cut off at zero. -/
theorem reconciles_iff (schema : CalcSchema) (rc : String) (leg : FastLeg) (lazyMath : Bool)
    (bucket : String) (perRf : List (String × Record)) (topN : Option ℕ) (nonneg : 0 ≤ rho)
    (aggregated : Aggregated leg (requestOf schema rc leg lazyMath).1 values row) :
    Reconciles leg (requestOf schema rc leg lazyMath).1 (isPerTenor schema rc) rho row values perRf
        topN (bucketResultFromRow bucket row (requestOf schema rc leg lazyMath).1 leg rho
          (isPerTenor schema rc) perRf topN) ↔
      Uncut leg (requestOf schema rc leg lazyMath).1 (isPerTenor schema rc) rho values perRf
        topN := by
  cases leg with
  | delta =>
    exact reconciles_numeric_iff nonneg (numeric_delta aggregated) nofun rfl rfl ⟨rfl, rfl, rfl⟩
  | vega =>
    exact reconciles_numeric_iff nonneg (numeric_vega aggregated) nofun rfl rfl ⟨rfl, rfl, rfl⟩
  | curvature =>
    refine reconciles_curvature_iff bucket perRf topN aggregated fun scalar => ?_
    obtain ⟨f, g, up, down, -⟩ := scalar_fields lazyMath scalar
    exact ⟨f, g, up, down⟩

theorem mem_sumNames_of_side {leg : FastLeg} {fields : LegFields} {side : LegPrefix × String}
    (mem : side ∈ sidesOf leg fields) {part : Part} (summed : part ∈ legParts leg) :
    ⟨side.1, side.2, part⟩ ∈ sumNames (requestItems true fields) := by
  rw [mem_sumNames]
  cases leg with
  | delta =>
    obtain ⟨f, listed, rfl⟩ := List.mem_map.mp mem
    exact ⟨⟨.d, f, false⟩, by simp [requestItems, listed], summed, rfl⟩
  | vega =>
    obtain ⟨f, listed, rfl⟩ := List.mem_map.mp mem
    exact ⟨⟨.v, f, false⟩, by simp [requestItems, listed], summed, rfl⟩
  | curvature =>
    rcases List.mem_append.mp mem with up | down
    · obtain ⟨f, listed, rfl⟩ := List.mem_map.mp up
      exact ⟨⟨.u, f, true⟩, by simp [requestItems, listed], summed, rfl⟩
    · obtain ⟨f, listed, rfl⟩ := List.mem_map.mp down
      exact ⟨⟨.n, f, true⟩, by simp [requestItems, listed], summed, rfl⟩

/-- The merged row of the shards is such a row, over the indexed rows of the bucket. -/
theorem aggregated_mergedRows {leg : FastLeg} (plain : lazyMath = false ∨ leg ≠ .delta)
    (searchVer : ℕ) (nodes : List Node) {b : String} (named : b ≠ "")
    (valued : ∀ side ∈ sidesOf leg (requestOf schema rc leg lazyMath).1, ∀ d ∈ rowsOf nodes b,
      (d.field side.2).isSome) :
    Aggregated leg (requestOf schema rc leg lazyMath).1 (fun _ f => cvrOf f (rowsOf nodes b))
      (rowAt (mergedRows (requestOf schema rc leg lazyMath).1 leg
        (requestOf schema rc leg lazyMath).2 searchVer nodes) b) := by
  intro side mem part summed
  have merged := mapOf_unweighedRows schema rc leg lazyMath searchVer nodes
  rw [show requestMult schema rc leg lazyMath = fun _ => 1 from
    funext (requestMult_eq_one plain)] at merged
  have sum := safeNum_rowAt merged (decide_eq_true named) (mem_sumNames_of_side mem summed)
  rw [someNan_of_valued (valued side mem), if_neg Bool.false_ne_true, exactSum_cvr] at sum
  rwa [← weighRow_of_plain plain b (rowAt _ b), ← rowAt_mergedRows] at sum

/-- The row that one field has over some rows. -/
def rowOver (pre : LegPrefix) (f : String) (rows : List ℚ) : Record where
  sums := fun name =>
    if name.pre = pre ∧ name.f = f then some (some (rows.map (partValue name.part)).sum) else none
  rowCount := some rows.length

theorem safeNum_rowOver (pre : LegPrefix) (f : String) (rows : List ℚ) (part : Part) :
    safeNum ((rowOver pre f rows).sums ⟨pre, f, part⟩) = (rows.map (partValue part)).sum := by
  rw [rowOver]
  simp only [and_self, if_true]
  rfl

def fxDelta : String := "ws_fx_delta"

theorem fx_scalar : isPerTenor fxSchema "FX" = false := by decide +kernel

theorem fx_fields :
    (requestOf fxSchema "FX" .delta false).1 = ⟨[fxDelta], [], [], [], "Delta"⟩ := by
  have base : [fieldFor "ws" (StorageWriter.lowerCase "FX") "delta" ""] = [fxDelta] := by
    decide +kernel
  rw [requestOf_fields, ← base]
  simp only [resolveLegFieldsForPrefix, fieldTenors, fx_scalar]
  rfl

/-- Two risk factors in one bucket, long three and long one. -/
theorem reconciles_long :
    Reconciles .delta (requestOf fxSchema "FX" .delta false).1 (isPerTenor fxSchema "FX") (1 / 2)
      (rowOver .d fxDelta [3, 1]) (fun _ _ => [3, 1])
      [("EURUSD", rowOver .d fxDelta [3]), ("EURGBP", rowOver .d fxDelta [1])] none
      (bucketResultFromRow "EUR" (rowOver .d fxDelta [3, 1])
        (requestOf fxSchema "FX" .delta false).1 .delta (1 / 2) (isPerTenor fxSchema "FX")
        [("EURUSD", rowOver .d fxDelta [3]), ("EURGBP", rowOver .d fxDelta [1])] none) := by
  refine (reconciles_iff fxSchema "FX" .delta false "EUR" _ none (by norm_num) ?_).mpr ?_
  · rw [fx_fields]
    rintro side (⟨⟩ | ⟨-, ⟨⟩⟩) part -
    exact safeNum_rowOver .d fxDelta [3, 1] part
  · intro _ _
    rw [fx_fields]
    exact .inr (by decide +kernel)

def fxUp : String := "ws_fx_cvr_up"

def fxDown : String := "ws_fx_cvr_down"

theorem fx_curvature_fields :
    (requestOf fxSchema "FX" .curvature false).1 = ⟨[], [], [fxUp], [fxDown], "Curvature"⟩ := by
  have up : [fieldFor "ws" (StorageWriter.lowerCase "FX") "cvr_up" ""] = [fxUp] := by
    decide +kernel
  have down : [fieldFor "ws" (StorageWriter.lowerCase "FX") "cvr_down" ""] = [fxDown] := by
    decide +kernel
  rw [requestOf_fields, ← up, ← down]
  simp only [resolveLegFieldsForPrefix, fieldTenors, fx_scalar]
  rfl

/-- The row of a bucket whose rows lose and gain in one direction only. -/
def upOver (rows : List ℚ) : Record where
  sums := fun name =>
    if name.pre = .u then some (some (rows.map (partValue name.part)).sum) else some (some 0)
  rowCount := some rows.length

theorem upOver_aggregated (rows : List ℚ) :
    Aggregated .curvature (requestOf fxSchema "FX" .curvature false).1
      (fun pre _ => if pre = .u then rows else []) (upOver rows) := by
  rw [fx_curvature_fields]
  rintro side (⟨⟩ | ⟨-, ⟨⟩ | ⟨-, ⟨⟩⟩⟩) part -
  · rfl
  · rfl

theorem kbSquared_gainLoss : kbSquaredForDirection [1, -1, -1] 1 = -1 := by decide +kernel

/-- A hedged Delta bucket lists cross components that add up to `-1` beside a cross term of
zero, and a Curvature bucket that gains once and loses twice shows `ΣCVR²` and a cross term
that add up to `-1` beside a charge of zero. -/
theorem reconciles_fails_hedged :
    ¬ Reconciles .delta (requestOf fxSchema "FX" .delta false).1 (isPerTenor fxSchema "FX") (1 / 2)
      (rowOver .d fxDelta [1, -1]) (fun _ _ => [1, -1])
      [("EURUSD", rowOver .d fxDelta [1]), ("EURGBP", rowOver .d fxDelta [-1])] none
      (bucketResultFromRow "EUR" (rowOver .d fxDelta [1, -1])
        (requestOf fxSchema "FX" .delta false).1 .delta (1 / 2) (isPerTenor fxSchema "FX")
        [("EURUSD", rowOver .d fxDelta [1]), ("EURGBP", rowOver .d fxDelta [-1])] none) ∧
    ¬ Reconciles .curvature (requestOf fxSchema "FX" .curvature false).1 (isPerTenor fxSchema "FX")
      1 (upOver [1, -1, -1]) (fun pre _ => if pre = .u then [1, -1, -1] else []) [] none
      (bucketResultFromRow "EUR" (upOver [1, -1, -1])
        (requestOf fxSchema "FX" .curvature false).1 .curvature 1 (isPerTenor fxSchema "FX") []
        none) := by
  refine ⟨fun whole => ?_, fun whole => ?_⟩
  · rw [fx_fields, fx_scalar] at whole
    have numeric : Numeric .d [fxDelta] (fun _ _ => [1, -1]) (rowOver .d fxDelta [1, -1]) := by
      rintro f (⟨⟩ | ⟨-, ⟨⟩⟩) part -
      exact safeNum_rowOver .d fxDelta [1, -1] part
    have kept := (reconciles_numeric_iff (by norm_num) numeric (by decide) (by rfl) (by rfl)
      ⟨by rfl, by rfl, by rfl⟩).mp whole
    refine crossKept_hedged (kept ⟨fxDelta, rfl, ?_⟩ nofun)
    refine ⟨fun rf => if rf = "EURUSD" then 1 else -1, by decide, ?_, by decide +kernel⟩
    rintro p (⟨⟩ | ⟨-, ⟨⟩ | ⟨-, ⟨⟩⟩⟩) part mem
    · rw [safeNum_rowOver]
      exact List.sum_singleton
    · rw [safeNum_rowOver]
      exact List.sum_singleton
  · rw [fx_scalar, reconciles_curvature_iff "EUR" [] none (upOver_aggregated [1, -1, -1])
      fun _ => ⟨fxUp, fxDown, by rw [fx_curvature_fields], by rw [fx_curvature_fields]⟩] at whole
    rcases whole with scalar | up | down
    · exact absurd scalar (by decide)
    · dsimp only at up
      rw [if_pos rfl, kbSquared_gainLoss] at up
      exact absurd up (by norm_num)
    · exact absurd down (by decide +kernel)

end Reports

end Drilldown
