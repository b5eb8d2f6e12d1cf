import Frtb.FastPath

/-!
# The constant-correlation bucket charge and its oracles

The closed form `K_b² = ΣWS² + ρ · ((ΣWS)² − ΣWS²)` as the fast path, the Lua
library and the three reference oracles compute it. All of them cut the cross
term at zero, so the charge is the documented one unless a book is hedged.
-/

namespace ConstantRho

open AssocMaps JsonText EnrichDoc PairSums FastPath

section Closed

/-- The closed form of the Lua library. -/
noncomputable def frtbConstantRhoKb (sumWs sumWsSq rho : ℚ) : ℝ :=
  let cross := sumWs * sumWs - sumWsSq
  let cross := if cross < 0 then 0 else cross
  let kbSq := sumWsSq + rho * cross
  let kbSq := if kbSq < 0 then 0 else kbSq
  √(kbSq : ℝ)

/-- The last two lines of each oracle. -/
noncomputable def oracleKb (sumWs sumWsSq rho : ℚ) : ℝ :=
  let cross := max 0 (sumWs * sumWs - sumWsSq)
  let kbSq := max 0 (sumWsSq + rho * cross)
  √(kbSq : ℝ)

theorem frtbConstantRhoKb_eq (sumWs sumWsSq rho : ℚ) :
    frtbConstantRhoKb sumWs sumWsSq rho = (kbFromConstantRho sumWs sumWsSq rho).1 := by
  have cut : ∀ x : ℚ, (if x < 0 then 0 else x) = max x 0 := by
    intro x
    split
    · rename_i negative
      exact (max_eq_right negative.le).symm
    · rename_i positive
      exact (max_eq_left (not_lt.mp positive)).symm
  simp only [frtbConstantRhoKb, kbFromConstantRho, cut]

theorem oracleKb_eq (sumWs sumWsSq rho : ℚ) :
    oracleKb sumWs sumWsSq rho = (kbFromConstantRho sumWs sumWsSq rho).1 := by
  simp only [oracleKb, kbFromConstantRho, max_comm]

end Closed

section Oracles

structure RowExclude where
  book : Option (List String)
  tradeId : Option (List String)
  riskFactor : Option (List String)

def excludedBy (row : Props) (name : String) (names : Option (List String)) : Bool :=
  match names, strAt row name with
  | some names, some v => decide (v ∈ names)
  | _, _ => false

def isRowExcluded (row : Props) : Option RowExclude → Bool
  | none => false
  | some exclude =>
    excludedBy row "book" exclude.book || excludedBy row "trade_id" exclude.tradeId ||
      excludedBy row "risk_factor" exclude.riskFactor

structure KbResult where
  kb : ℝ
  sb : ℚ
  count : ℕ

/-- A row of one sensitivity type that no filter drops. -/
def admitted (type : String) (exclude : Option RowExclude) : Json → Option Props
  | .obj members =>
    let row := ofPairs members
    if strAt row "sensitivity_type" = some type ∧ ¬ isRowExcluded row exclude then some row
    else none
  | _ => none

/-- A value that counts: a number, and zero for anything else. -/
def finiteOrZero : Option Json → ℚ
  | some (.num q) => q
  | _ => 0

/-- What a row adds to the totals of the `size` tenors, if it counts at all. -/
def deltaRow (size : ℕ) (tenors : Option (List String)) (row : Props) : Option (List ℚ) :=
  match row.lookup "risk_value" with
  | some (.arr items) => some ((List.range size).map fun k => finiteOrZero items[k]?)
  | some (.obj members) =>
    match tenors with
    | some names =>
      if size ≤ names.length then
        some ((names.take size).map fun t => finiteOrZero ((ofPairs members).lookup t))
      else none
    | none => none
  | _ => none

def addRow (acc : List ℚ × ℕ) (sums : Option (List ℚ)) : List ℚ × ℕ :=
  match sums with
  | some sums => (List.zipWith (· + ·) acc.1 sums, acc.2 + 1)
  | none => acc

structure DeltaKbResult extends KbResult where
  ws : List ℚ

/-- The weighted sensitivities summed up, and their squares. -/
def totals (acc : ℚ × ℚ) (ws : ℚ) : ℚ × ℚ := (acc.1 + ws, acc.2 + ws * ws)

noncomputable def computeKbDelta (rows : List Json) (weights : List ℚ) (rho : ℚ)
    (tenors : Option (List String)) (exclude : Option RowExclude) : DeltaKbResult :=
  let step := fun acc row =>
    match admitted "Delta" exclude row with
    | some row => addRow acc (deltaRow weights.length tenors row)
    | none => acc
  let sums := rows.foldl step (List.replicate weights.length 0, 0)
  let ws := List.zipWith (· * ·) weights sums.1
  let total := ws.foldl totals (0, 0)
  { kb := oracleKb total.1 total.2 rho, sb := total.1, count := sums.2, ws := ws }

/-- The running sums of an oracle that weighs each value by itself, with the
weighted values, which the Vega oracle does not return. -/
structure Acc where
  sumWs : ℚ
  sumWsSq : ℚ
  count : ℕ
  ws : List ℚ

def Acc.empty : Acc := ⟨0, 0, 0, []⟩

def Acc.push (acc : Acc) (ws : ℚ) : Acc :=
  { acc with sumWs := acc.sumWs + ws, sumWsSq := acc.sumWsSq + ws * ws, ws := acc.ws ++ [ws] }

def Acc.counted (acc : Acc) : Acc := { acc with count := acc.count + 1 }

/-- Weigh one value if it is a number. -/
def Acc.weigh (weight : ℚ) (acc : Acc) : Option Json → Acc
  | some (.num s) => acc.push (weight * s)
  | _ => acc

/-- A row object stands for its `risk_value` where it has one. -/
def unwrap (exclude : Option RowExclude) : Json → Option Json
  | .obj members =>
    let row := ofPairs members
    if isRowExcluded row exclude then none
    else some ((row.lookup "risk_value").getD (.obj members))
  | r => some r

def vegaRow (weight : ℚ) (tenors : Option (List String)) (acc : Acc) : Json → Acc
  | .arr items => (items.foldl (fun acc s => acc.weigh weight (some s)) acc).counted
  | .obj members =>
    match tenors with
    | some (t :: names) =>
      ((t :: names).foldl (fun acc t => acc.weigh weight ((ofPairs members).lookup t))
        acc).counted
    | _ => acc
  | .num s => (acc.push (weight * s)).counted
  | _ => acc

def vegaSums (rows : List Json) (weight : ℚ) (tenors : Option (List String))
    (exclude : Option RowExclude) : Acc :=
  rows.foldl (fun acc r =>
    match unwrap exclude r with
    | some rv => vegaRow weight tenors acc rv
    | none => acc) Acc.empty

noncomputable def computeKbVega (rows : List Json) (weight rho : ℚ) (tenors : Option (List String))
    (exclude : Option RowExclude) : KbResult :=
  let acc := vegaSums rows weight tenors exclude
  { kb := oracleKb acc.sumWs acc.sumWsSq rho, sb := acc.sumWs, count := acc.count }

/-- A bare number, or the `spot` of an object. -/
def spotOf (row : Props) : Option Json :=
  match row.lookup "risk_value" with
  | some (.num q) => some (.num q)
  | some (.obj members) => (ofPairs members).lookup "spot"
  | _ => none

def equityRow (weight : ℚ) (acc : Acc) (row : Props) : Acc :=
  match spotOf row with
  | some (.num v) => (acc.push (weight * v)).counted
  | _ => acc

def equitySums (rows : List Json) (weight : ℚ) (exclude : Option RowExclude) : Acc :=
  rows.foldl (fun acc row =>
    match admitted "Delta" exclude row with
    | some row => equityRow weight acc row
    | none => acc) Acc.empty

noncomputable def computeKbEquityDelta (rows : List Json) (weight rho : ℚ)
    (exclude : Option RowExclude) : DeltaKbResult :=
  let acc := equitySums rows weight exclude
  { kb := oracleKb acc.sumWs acc.sumWsSq rho, sb := acc.sumWs, count := acc.count, ws := acc.ws }

end Oracles

section Documented
variable {ws : List ℚ} {rho : ℚ}

def squares (ws : List ℚ) : ℚ := (ws.map fun x => x * x).sum

/-- The sum of `WS_k · WS_l` over `k ≠ l`. -/
def crossProducts (ws : List ℚ) : ℚ := pairSum (fun a b => a * b) ws

/-- The charge that the sources document. -/
def Documented (kb : ℝ) (ws : List ℚ) (rho : ℚ) : Prop :=
  0 ≤ kb ∧ kb ^ 2 = (max 0 (squares ws + rho * crossProducts ws) : ℚ)

/-- No cross term is cut away. -/
def CrossKept (ws : List ℚ) (rho : ℚ) : Prop := rho = 0 ∨ 0 ≤ crossProducts ws

theorem crossProducts_eq (ws : List ℚ) : crossProducts ws = ws.sum * ws.sum - squares ws := by
  have all := pairSum_mul 1 (fun x : ℚ => x) ws
  simp only [one_mul, List.map_id'] at all
  exact all

theorem squares_nonneg (ws : List ℚ) : 0 ≤ squares ws := by
  refine List.sum_nonneg fun x mem => ?_
  obtain ⟨w, _, rfl⟩ := List.mem_map.mp mem
  exact mul_self_nonneg w

/-- Where the cross term is negative there are squares left to cut it from. -/
theorem squares_pos (hedged : crossProducts ws < 0) : 0 < squares ws := by
  have total : 0 ≤ ws.sum * ws.sum := mul_self_nonneg _
  rw [crossProducts_eq] at hedged
  linarith

theorem kbFromConstantRho_sq (ws : List ℚ) (rho : ℚ) :
    (kbFromConstantRho ws.sum (squares ws) rho).1 ^ 2 =
      (max (squares ws + rho * max (crossProducts ws) 0) 0 : ℚ) := by
  rw [crossProducts_eq]
  exact Real.sq_sqrt (by exact_mod_cast le_max_right _ _)

/-- The closed form is the documented charge exactly when no cross term is cut. -/
theorem kbFromConstantRho_documented_iff (ws : List ℚ) (rho : ℚ) :
    Documented (kbFromConstantRho ws.sum (squares ws) rho).1 ws rho ↔ CrossKept ws rho := by
  have root : 0 ≤ (kbFromConstantRho ws.sum (squares ws) rho).1 := Real.sqrt_nonneg _
  rw [Documented, kbFromConstantRho_sq, Rat.cast_inj, max_comm]
  constructor
  · rintro ⟨-, same⟩
    by_contra cut
    obtain ⟨correlated, hedged⟩ := not_or.mp cut
    have negative : crossProducts ws < 0 := not_le.mp hedged
    have left := squares_pos negative
    rw [max_eq_right negative.le, mul_zero, add_zero, max_eq_right left.le] at same
    rcases le_total 0 (squares ws + rho * crossProducts ws) with kept | gone
    · rw [max_eq_right kept] at same
      have none_ : rho * crossProducts ws = 0 := by linarith
      rcases mul_eq_zero.mp none_ with zero | zero
      · exact correlated zero
      · exact negative.ne zero
    · rw [max_eq_left gone] at same
      exact left.ne' same
  · rintro (rfl | kept)
    · exact ⟨root, by simp only [zero_mul]⟩
    · exact ⟨root, by rw [max_eq_left kept]⟩

end Documented

section Accumulated

/-- The running sums are those of the weighted values seen. -/
structure Acc.Sound (acc : Acc) : Prop where
  sum : acc.sumWs = acc.ws.sum
  squares : acc.sumWsSq = squares acc.ws

theorem Acc.Sound.push {acc : Acc} (sound : acc.Sound) (ws : ℚ) : (acc.push ws).Sound where
  sum := by simp [Acc.push, sound.sum]
  squares := by simp [Acc.push, ConstantRho.squares, sound.squares]

theorem Acc.Sound.counted {acc : Acc} (sound : acc.Sound) : acc.counted.Sound :=
  ⟨sound.sum, sound.squares⟩

theorem Acc.Sound.weigh {acc : Acc} (sound : acc.Sound) (weight : ℚ) (s : Option Json) :
    (acc.weigh weight s).Sound := by
  unfold Acc.weigh
  split
  · exact sound.push _
  · exact sound

theorem vegaRow_sound {acc : Acc} (sound : acc.Sound) (weight : ℚ)
    (tenors : Option (List String)) (rv : Json) : (vegaRow weight tenors acc rv).Sound := by
  unfold vegaRow
  split
  · exact (List.foldlRecOn _ _ sound fun acc sound s _ => sound.weigh weight (some s)).counted
  · split
    · exact (List.foldlRecOn _ _ sound fun acc sound t _ => sound.weigh weight _).counted
    · exact sound
  · exact (sound.push _).counted
  · exact sound

theorem vegaSums_sound (rows : List Json) (weight : ℚ) (tenors : Option (List String))
    (exclude : Option RowExclude) : (vegaSums rows weight tenors exclude).Sound := by
  refine List.foldlRecOn _ _ ⟨rfl, rfl⟩ fun acc sound r _ => ?_
  split
  · exact vegaRow_sound sound weight tenors _
  · exact sound

theorem equitySums_sound (rows : List Json) (weight : ℚ) (exclude : Option RowExclude) :
    (equitySums rows weight exclude).Sound := by
  refine List.foldlRecOn _ _ ⟨rfl, rfl⟩ fun acc sound r _ => ?_
  split
  · unfold equityRow
    split
    · exact (sound.push _).counted
    · exact sound
  · exact sound

theorem totals_eq (ws : List ℚ) (acc : ℚ × ℚ) :
    ws.foldl totals acc = (acc.1 + ws.sum, acc.2 + squares ws) := by
  induction ws generalizing acc with
  | nil => simp [squares]
  | cons w ws ih =>
    rw [List.foldl_cons, ih]
    simp only [totals, squares, List.map_cons, List.sum_cons, add_assoc]

end Accumulated

section Agreement

theorem computeKbDelta_kb (rows : List Json) (weights : List ℚ) (rho : ℚ)
    (tenors : Option (List String)) (exclude : Option RowExclude) :
    let result := computeKbDelta rows weights rho tenors exclude
    result.kb = (kbFromConstantRho result.ws.sum (squares result.ws) rho).1 := by
  intro result
  have sums := totals_eq result.ws (0, 0)
  rw [zero_add, zero_add] at sums
  change oracleKb (result.ws.foldl totals (0, 0)).1 (result.ws.foldl totals (0, 0)).2 rho = _
  rw [sums]
  exact oracleKb_eq _ _ rho

theorem computeKbVega_kb (rows : List Json) (weight rho : ℚ) (tenors : Option (List String))
    (exclude : Option RowExclude) :
    let ws := (vegaSums rows weight tenors exclude).ws
    (computeKbVega rows weight rho tenors exclude).kb =
      (kbFromConstantRho ws.sum (squares ws) rho).1 := by
  have sound := vegaSums_sound rows weight tenors exclude
  dsimp only
  rw [← sound.sum, ← sound.squares]
  exact oracleKb_eq _ _ rho

theorem computeKbEquityDelta_kb (rows : List Json) (weight rho : ℚ)
    (exclude : Option RowExclude) :
    let result := computeKbEquityDelta rows weight rho exclude
    result.kb = (kbFromConstantRho result.ws.sum (squares result.ws) rho).1 := by
  have sound := equitySums_sound rows weight exclude
  change _ = (kbFromConstantRho (equitySums rows weight exclude).ws.sum
    (squares (equitySums rows weight exclude).ws) rho).1
  rw [← sound.sum, ← sound.squares]
  exact oracleKb_eq _ _ rho

/-- Each of the five implementations returns the documented charge exactly when
its cross term is not negative, or not correlated at all. -/
theorem constantRho_documented_iff (rho : ℚ) :
    (∀ ws, Documented (kbFromConstantRho ws.sum (squares ws) rho).1 ws rho ↔ CrossKept ws rho) ∧
    (∀ ws, Documented (frtbConstantRhoKb ws.sum (squares ws) rho) ws rho ↔ CrossKept ws rho) ∧
    (∀ rows weights tenors exclude,
      let result := computeKbDelta rows weights rho tenors exclude
      Documented result.kb result.ws rho ↔ CrossKept result.ws rho) ∧
    (∀ rows weight tenors exclude,
      let ws := (vegaSums rows weight tenors exclude).ws
      Documented (computeKbVega rows weight rho tenors exclude).kb ws rho ↔ CrossKept ws rho) ∧
    ∀ rows weight exclude,
      let result := computeKbEquityDelta rows weight rho exclude
      Documented result.kb result.ws rho ↔ CrossKept result.ws rho := by
  refine ⟨fun ws => ?_, fun ws => ?_, ?_, ?_, ?_⟩
  · exact kbFromConstantRho_documented_iff ws rho
  · rw [frtbConstantRhoKb_eq]
    exact kbFromConstantRho_documented_iff ws rho
  · intro rows weights tenors exclude result
    rw [computeKbDelta_kb]
    exact kbFromConstantRho_documented_iff result.ws rho
  · intro rows weight tenors exclude ws
    rw [computeKbVega_kb]
    exact kbFromConstantRho_documented_iff ws rho
  · intro rows weight exclude result
    rw [computeKbEquityDelta_kb]
    exact kbFromConstantRho_documented_iff result.ws rho

/-- A long and a short position of equal weight. -/
def hedgedRow : Json :=
  .obj [("sensitivity_type", .str "Delta"), ("risk_value", .arr [.num 1, .num (-1)])]

def spotRow (spot : ℚ) : Json :=
  .obj [("sensitivity_type", .str "Delta"), ("risk_value", .obj [("spot", .num spot)])]

theorem crossKept_hedged : ¬ CrossKept [1, -1] (1 / 2) := by
  rw [CrossKept, crossProducts_eq]
  norm_num [squares]

theorem constantRho_undocumented_hedged :
    ¬ Documented (kbFromConstantRho ([1, -1] : List ℚ).sum (squares [1, -1]) (1 / 2)).1
      [1, -1] (1 / 2) ∧
    ¬ Documented (frtbConstantRhoKb ([1, -1] : List ℚ).sum (squares [1, -1]) (1 / 2))
      [1, -1] (1 / 2) ∧
    ¬ Documented (computeKbDelta [hedgedRow] [1, 1] (1 / 2) none none).kb [1, -1] (1 / 2) ∧
    ¬ Documented (computeKbVega [.num 1, .num (-1)] 1 (1 / 2) none none).kb [1, -1] (1 / 2) ∧
    ¬ Documented (computeKbEquityDelta [spotRow 1, spotRow (-1)] 1 (1 / 2) none).kb
      [1, -1] (1 / 2) := by
  have closed := (kbFromConstantRho_documented_iff [1, -1] (1 / 2)).not.mpr crossKept_hedged
  have delta : (computeKbDelta [hedgedRow] [1, 1] (1 / 2) none none).ws = [1, -1] := by
    decide +kernel
  have vega : (vegaSums [.num 1, .num (-1)] 1 none none).ws = [1, -1] := by decide +kernel
  have equity : (computeKbEquityDelta [spotRow 1, spotRow (-1)] 1 (1 / 2) none).ws = [1, -1] := by
    decide +kernel
  refine ⟨closed, ?_, ?_, ?_, ?_⟩
  · rwa [frtbConstantRhoKb_eq]
  · rwa [computeKbDelta_kb, delta]
  · rwa [computeKbVega_kb, vega]
  · rwa [computeKbEquityDelta_kb, equity]

end Agreement

end ConstantRho
