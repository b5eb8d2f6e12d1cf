import Mathlib
import Frtb.Library.AssocMaps
import Mathlib.Algebra.Order.Floor.Ring
import Mathlib.Data.Rat.Floor

/-!
# Which sensitivity types the row generator picks

`computeCoverageQuotas` and the pick of `createRowGenerator`, with the rows planned
for each class. A row is its class and its sensitivity type; the draws of the other
fields are left out.
-/

namespace RowGenerator

open AssocMaps

section Quotas

def firstBelow (quotas : List ℕ) (effFloor : ℕ) : Option ℕ :=
  quotas.findIdx? fun q => q < effFloor

/-- The largest quota above the floor at another index, the first such one. -/
def stealFrom (quotas : List ℕ) (effFloor needIdx : ℕ) : Option ℕ :=
  (quotas.zipIdx.foldl (fun (best : Option ℕ × ℕ) p =>
    if p.2 = needIdx then best else if best.2 < p.1 then (some p.2, p.1) else best)
    (none, effFloor)).1

/-- The passes that raise a quota below the floor. -/
def reallocate (effFloor : ℕ) : ℕ → List ℕ → List ℕ
  | 0, quotas => quotas
  | iter + 1, quotas =>
    match firstBelow quotas effFloor with
    | none => quotas
    | some needIdx =>
      match stealFrom quotas effFloor needIdx with
      | none => quotas
      | some stealIdx =>
        let need := quotas.getD needIdx 0
        let steal := quotas.getD stealIdx 0
        let transfer := min (effFloor - need) (steal - effFloor)
        if transfer = 0 then quotas
        else reallocate effFloor iter
          ((quotas.set needIdx (need + transfer)).set stealIdx (steal - transfer))

def computeCoverageQuotas (plannedRows n floor : ℕ) : List ℕ :=
  if plannedRows = 0 then List.replicate n 0
  else
    let base := plannedRows / n
    let remainder := plannedRows - base * n
    let quotas := (List.range n).map fun i => base + if i < remainder then 1 else 0
    let effFloor := min floor (plannedRows / n)
    if effFloor = 0 then quotas else reallocate effFloor (n + 1) quotas

end Quotas

section Generator

def defaultSensitivityTypes : List String := ["Delta", "Vega"]

structure Options where
  sensitivityTypes : List String
  coverageFloor : ℕ
  plannedRowsByClass : Option (Assoc String ℕ)

def Options.sensTypes (opts : Options) : List String :=
  if opts.sensitivityTypes = [] then defaultSensitivityTypes else opts.sensitivityTypes

structure State where
  quotasByClass : Option (Assoc String (List ℕ))
  sensCountsByClass : Assoc String (List ℕ)

/-- The quota tables of the classes with planned rows. -/
def Options.quotasByClass (opts : Options) : Option (Assoc String (List ℕ)) :=
  if 0 < opts.coverageFloor ∧ 1 < opts.sensTypes.length then
    opts.plannedRowsByClass.map fun planned => ofPairs <| (pairs planned).filterMap fun p =>
      if 0 < p.2 then
        some (p.1, computeCoverageQuotas p.2 opts.sensTypes.length opts.coverageFloor)
      else none
  else none

def createRowGenerator (opts : Options) : State := ⟨opts.quotasByClass, ∅⟩

/-- The first largest quota, with its index. -/
def largest (quotas : List ℕ) : ℕ × ℕ :=
  quotas.zipIdx.foldl (fun best p => if best.2 < p.1 then (p.2, p.1) else best)
    (0, quotas.headD 0)

/-- `(sensR * n) | 0`. -/
def uniformIdx (n : ℕ) (sensR : ℚ) : ℕ := ⌊sensR * n⌋.toNat

/-- The index of the sensitivity type of a row. -/
def pickSensType (opts : Options) (sensR : ℚ) (riskClass : String) (st : State) : ℕ × State :=
  let n := opts.sensTypes.length
  if 0 < opts.coverageFloor ∧ 1 < n then
    match st.quotasByClass.bind (·.lookup riskClass) with
    | some quotas =>
      let best := largest quotas
      if best.2 = 0 then (uniformIdx n sensR, st)
      else (best.1, { st with
        quotasByClass := st.quotasByClass.map fun tables =>
          tables.insert riskClass (quotas.set best.1 (best.2 - 1)) })
    | none =>
      let counts := (st.sensCountsByClass.lookup riskClass).getD (List.replicate n 0)
      let idx := (counts.findIdx? fun count => count < opts.coverageFloor).getD
        (uniformIdx n sensR)
      (idx, { st with
        sensCountsByClass :=
          st.sensCountsByClass.insert riskClass (counts.set idx (counts.getD idx 0 + 1)) })
  else (uniformIdx n sensR, st)

structure SensitivityRow where
  riskClass : String
  sensitivityType : String
deriving DecidableEq

def unknownClass (riskClasses : List String) (riskClass : String) : String :=
  "risk class " ++ riskClass ++ " not defined in schema (known: " ++
    ", ".intercalate riskClasses ++ ")"

/-- A row of a class. `riskClasses` are those of the schema. -/
def generate (riskClasses : List String) (opts : Options) (sensR : ℚ) (riskClass : String)
    (st : State) : Except String (SensitivityRow × State) :=
  if riskClass ∉ riskClasses then .error (unknownClass riskClasses riskClass)
  else
    let picked := pickSensType opts sensR riskClass st
    .ok (⟨riskClass, opts.sensTypes.getD picked.1 ""⟩, picked.2)

end Generator

section Even

theorem reallocate_eq_self {effFloor : ℕ} {quotas : List ℕ} (above : ∀ q ∈ quotas, effFloor ≤ q)
    (iter : ℕ) : reallocate effFloor iter quotas = quotas := by
  cases iter with
  | zero => rfl
  | succ iter =>
    have none_ : firstBelow quotas effFloor = none := by
      rw [firstBelow, List.findIdx?_eq_none_iff]
      intro q mem
      rw [decide_eq_false_iff_not, not_lt]
      exact above q mem
    rw [reallocate, none_]

/-- The quotas are an even split: no quota is ever below the floor, so the passes move
nothing. -/
theorem computeCoverageQuotas_eq (plannedRows n floor : ℕ) :
    computeCoverageQuotas plannedRows n floor =
      (List.range n).map fun i => plannedRows / n + if i < plannedRows % n then 1 else 0 := by
  have remainder : plannedRows - plannedRows / n * n = plannedRows % n := by
    have split := Nat.div_add_mod' plannedRows n
    omega
  unfold computeCoverageQuotas
  by_cases none_ : plannedRows = 0
  · rw [if_pos none_, none_]
    simp
  · rw [if_neg none_]
    dsimp only
    rw [remainder]
    split
    · rfl
    · apply reallocate_eq_self
      intro q mem
      obtain ⟨i, _, rfl⟩ := List.mem_map.mp mem
      exact (min_le_right _ _).trans (Nat.le_add_right _ _)

theorem length_computeCoverageQuotas (plannedRows n floor : ℕ) :
    (computeCoverageQuotas plannedRows n floor).length = n := by
  rw [computeCoverageQuotas_eq, List.length_map, List.length_range]

theorem getD_computeCoverageQuotas {n s : ℕ} (listed : s < n) (plannedRows floor : ℕ) :
    (computeCoverageQuotas plannedRows n floor).getD s 0 =
      plannedRows / n + if s < plannedRows % n then 1 else 0 := by
  rw [computeCoverageQuotas_eq, List.getD_eq_getElem?_getD, List.getElem?_map,
    List.getElem?_range listed]
  rfl

/-- The quotas of a class sum to its planned rows. -/
theorem sum_computeCoverageQuotas {n : ℕ} (pos : 0 < n) (plannedRows floor : ℕ) :
    (computeCoverageQuotas plannedRows n floor).sum = plannedRows := by
  have extra : ∀ m : ℕ, ((List.range m).map fun i => if i < plannedRows % n then 1 else 0).sum =
      min m (plannedRows % n) := by
    intro m
    induction m with
    | zero => simp
    | succ m ih =>
      rw [List.range_succ, List.map_append, List.sum_append, ih, List.map_singleton,
        List.sum_singleton]
      split <;> omega
  have below := (Nat.mod_lt plannedRows pos).le
  have split := Nat.div_add_mod plannedRows n
  rw [computeCoverageQuotas_eq, List.sum_map_add, extra, min_eq_right below, List.map_const',
    List.sum_replicate, List.length_range, smul_eq_mul]
  exact split

end Even

section Picks

/-- The first largest quota is there, and it is zero only where all are. -/
theorem largest_spec {quotas : List ℕ} (some_ : 0 < quotas.sum) :
    quotas[(largest quotas).1]? = some (largest quotas).2 ∧ 0 < (largest quotas).2 := by
  have walk : ∀ (l : List (ℕ × ℕ)) (best : ℕ × ℕ), quotas[best.1]? = some best.2 →
      (∀ p ∈ l, quotas[p.2]? = some p.1) →
      let out := l.foldl (fun best p => if best.2 < p.1 then (p.2, p.1) else best) best
      quotas[out.1]? = some out.2 ∧ best.2 ≤ out.2 ∧ ∀ p ∈ l, p.1 ≤ out.2 := by
    intro l
    induction l with
    | nil =>
      intro best here _
      exact ⟨here, le_rfl, fun _ mem => nomatch mem⟩
    | cons p l ih =>
      intro best here listed
      have rest : ∀ p ∈ l, quotas[p.2]? = some p.1 := fun p mem => listed p (by simp [mem])
      rw [List.foldl_cons]
      by_cases more : best.2 < p.1
      · obtain ⟨there, le, all⟩ := ih (p.2, p.1) (listed p (by simp)) rest
        rw [if_pos more]
        refine ⟨there, more.le.trans le, ?_⟩
        intro p' mem
        rcases List.mem_cons.mp mem with rfl | mem
        · exact le
        · exact all p' mem
      · obtain ⟨there, le, all⟩ := ih best here rest
        rw [if_neg more]
        refine ⟨there, le, ?_⟩
        intro p' mem
        rcases List.mem_cons.mp mem with rfl | mem
        · exact (not_lt.mp more).trans le
        · exact all p' mem
  cases quotas with
  | nil => simp at some_
  | cons q quotas =>
    obtain ⟨there, _, all⟩ := walk (q :: quotas).zipIdx (0, q) rfl
      (fun p mem => List.mem_zipIdx_iff_getElem?.mp mem)
    refine ⟨there, Nat.pos_of_ne_zero fun zero => ?_⟩
    have zeros : ∀ x ∈ q :: quotas, x = 0 := by
      intro x mem
      obtain ⟨i, hi, rfl⟩ := List.mem_iff_getElem.mp mem
      have le := all ((q :: quotas)[i], i) (List.mem_zipIdx_iff_getElem?.mpr (by simp))
      have none_ : (largest (q :: quotas)).2 = 0 := zero
      unfold largest at none_
      rw [List.headD_cons] at none_
      omega
    rw [List.sum_eq_zero zeros] at some_
    exact absurd some_ (lt_irrefl 0)

end Picks

end RowGenerator
