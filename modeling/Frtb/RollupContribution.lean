import Frtb.BatchWriters

/-!
# What a row contributes to the rollups

The contribution of a document is stated on its own terms: at the base key the
row's scalar and at each tenor key that tenor's value, each with its square
and a count of one. The delta writer is then compared with it. A fresh row
adds its contribution. A re-ingested row of the same shape adds the difference
to the contribution its HASH holds, at every key whose values the HASH stores;
the base key of a per-tenor row is not such a key, since the layout drops the
scalar.
-/

namespace RollupContribution

open AssocMaps JsonText EnrichDoc RollupKeys RedisStore StorageWriter RollupDelta BatchWriters

section Parts

def scalarPart (field : String) (v : ℚ) : ℚ :=
  if field = "sum_ws" then v else if field = "sum_ws_sq" then v * v else 0

def curvaturePart (field : String) (v : ℚ × ℚ) : ℚ :=
  if field = "sum_ws_up" then v.1
  else if field = "sum_ws_up_sq" then v.1 * v.1
  else if field = "sum_ws_down" then v.2
  else if field = "sum_ws_down_sq" then v.2 * v.2
  else 0

def countPart (field : String) (n : ℚ) : ℚ := if field = "count" then n else 0

@[simp] theorem scalarPart_zero (field : String) : scalarPart field 0 = 0 := by
  simp [scalarPart]

@[simp] theorem curvaturePart_zero (field : String) : curvaturePart field (0, 0) = 0 := by
  simp [curvaturePart]

@[simp] theorem countPart_zero (field : String) : countPart field 0 = 0 := by
  simp [countPart]

theorem increments_emitScalarDelta (key' : String) (countDelta new old : ℚ)
    (key field : String) :
    increments (emitScalarDelta key' countDelta new old) key field =
      if key = key' then
        scalarPart field new - scalarPart field old + countPart field countDelta
      else 0 := by
  by_cases hk : key = key'
  · by_cases hc : countDelta = 0 <;> by_cases h₁ : field = "sum_ws" <;>
      by_cases h₂ : field = "sum_ws_sq" <;> by_cases h₃ : field = "count" <;>
      simp_all [increments, emitScalarDelta, scalarPart, countPart]
  · by_cases hc : countDelta = 0 <;> simp [increments, emitScalarDelta, hk, hc]

theorem increments_emitCurvatureDelta (key' : String) (countDelta : ℚ) (new old : ℚ × ℚ)
    (key field : String) :
    increments (emitCurvatureDelta key' countDelta new old) key field =
      if key = key' then
        curvaturePart field new - curvaturePart field old + countPart field countDelta
      else 0 := by
  by_cases hk : key = key'
  · by_cases hc : countDelta = 0 <;> by_cases h₁ : field = "sum_ws_up" <;>
      by_cases h₂ : field = "sum_ws_up_sq" <;> by_cases h₃ : field = "sum_ws_down" <;>
      by_cases h₄ : field = "sum_ws_down_sq" <;> by_cases h₅ : field = "count" <;>
      simp_all [increments, emitCurvatureDelta, curvaturePart, countPart]
  · by_cases hc : countDelta = 0 <;> simp [increments, emitCurvatureDelta, hk, hc]

theorem increments_flatMap {α : Type*} (l : List α) (g : α → List Cmd) (key field : String) :
    increments (l.flatMap g) key field = (l.map fun a => increments (g a) key field).sum := by
  induction l with
  | nil => rfl
  | cons a l ih => rw [List.flatMap_cons, increments_append, ih, List.map_cons, List.sum_cons]

end Parts

section Contribution

/-- A value of the base key: present when the row has its scalar. -/
def baseTerm (tags : RowTags) (key : String) (value : Option ℚ) : ℚ :=
  if key = tags.key none then value.getD 0 else 0

/-- The values of the tenor keys over the tenors of a row. -/
def tenorTerm (tags : RowTags) (key : String) (tenors : Finset String) (value : String → ℚ) : ℚ :=
  ∑ t ∈ tenors, if key = tags.key (some t) then value t else 0

def tenorSet (m : Option (Assoc String ℚ)) : Finset String := (namesOf m).toFinset

/-- What one scalar value adds to a field, its count included. -/
def scalarTerm (field : String) (v : ℚ) : ℚ := scalarPart field v + countPart field 1

def curvatureTerm (field : String) (v : ℚ × ℚ) : ℚ := curvaturePart field v + countPart field 1

/-- Both halves of a curvature value. -/
def bothOf {α β : Type} (up : Option α) (down : Option β) : Option (α × β) :=
  up.bind fun u => down.map fun d => (u, d)

/-- What a document contributes to one field of one rollup. -/
def contribution (doc : Props) (key field : String) : ℚ :=
  match rowTags doc with
  | none => 0
  | some tags =>
    if tags.sensType = "Curvature" then
      baseTerm tags key ((bothOf (numAt doc "weighted_cvr_up")
        (numAt doc "weighted_cvr_down")).map (curvatureTerm field)) +
      match bothOf (tenorMapAt doc "weighted_cvr_up_per_tenor")
          (tenorMapAt doc "weighted_cvr_down_per_tenor") with
      | none => 0
      | some (ups, downs) =>
        tenorTerm tags key (tenorSet (some ups) ∪ tenorSet (some downs)) fun t =>
          curvatureTerm field (valueAt (some ups) t, valueAt (some downs) t)
    else
      baseTerm tags key ((numAt doc "weighted_value").map (scalarTerm field)) +
      match tenorMapAt doc "weighted_value_per_tenor" with
      | none => 0
      | some perTenor =>
        tenorTerm tags key (tenorSet (some perTenor)) fun t =>
          scalarTerm field (valueAt (some perTenor) t)

/-- The keys a row increments whose values its HASH does not store: the base
key of a per-tenor row, and every key of a type that has no leg. -/
def unstoredKeys (doc : Props) : List String :=
  match rowTags doc with
  | none => []
  | some tags =>
    if tags.sensType = "Curvature" then
      if (tenorMapAt doc "weighted_cvr_up_per_tenor").isSome then [tags.key none] else []
    else if scalarLeg tags.sensType = "" then
      tags.key none :: (namesOf (tenorMapAt doc "weighted_value_per_tenor")).map
        fun t => tags.key (some t)
    else if (tenorMapAt doc "weighted_value_per_tenor").isSome then [tags.key none]
    else []

end Contribution

section Emission
variable {tags : RowTags} {key field : String}

theorem increments_emitScalarBase (v : Option ℚ) (countDelta old : ℚ) :
    increments (emitScalarBase (tags.key none) countDelta v old) key field =
      baseTerm tags key (v.map fun ws =>
        scalarPart field ws - scalarPart field old + countPart field countDelta) := by
  cases v with
  | none => simp [emitScalarBase, baseTerm]
  | some ws =>
    simp only [emitScalarBase, increments_emitScalarDelta, Option.map_some, baseTerm,
      Option.getD_some]

theorem increments_emitCurvatureBase (up down : Option ℚ) (countDelta : ℚ) (old : ℚ × ℚ) :
    increments (emitCurvatureBase (tags.key none) countDelta up down old) key field =
      baseTerm tags key ((bothOf up down).map fun v =>
        curvaturePart field v - curvaturePart field old + countPart field countDelta) := by
  cases up with
  | none => simp [emitCurvatureBase, baseTerm, bothOf]
  | some u =>
    cases down with
    | none => simp [emitCurvatureBase, baseTerm, bothOf]
    | some d =>
      simp only [emitCurvatureBase, increments_emitCurvatureDelta, bothOf, baseTerm,
        Option.bind_some, Option.map_some, Option.getD_some]

theorem increments_emitScalarTenors (m : Assoc String ℚ) (old : Option (Assoc String ℚ))
    (countDelta : ℚ) :
    increments (emitScalarTenors tags countDelta (some m) old) key field =
      tenorTerm tags key (tenorSet (some m) ∪ tenorSet old) fun t =>
        scalarPart field (valueAt (some m) t) - scalarPart field (valueAt old t) +
          countPart field countDelta := by
  rw [emitScalarTenors, increments_flatMap, ← List.sum_toFinset _ (List.nodup_dedup _), tenorTerm]
  have hset : (m.keys ++ namesOf old).dedup.toFinset = tenorSet (some m) ∪ tenorSet old := by
    ext t; simp [tenorSet, namesOf]
  rw [hset]
  exact Finset.sum_congr rfl (fun t _ => increments_emitScalarDelta _ _ _ _ _ _)

theorem increments_emitCurvatureTenors (ups downs : Assoc String ℚ)
    (oldUp oldDown : Option (Assoc String ℚ)) (countDelta : ℚ) :
    increments (emitCurvatureTenors tags countDelta (some ups) (some downs) oldUp oldDown)
        key field =
      tenorTerm tags key
        (tenorSet (some ups) ∪ tenorSet (some downs) ∪ (tenorSet oldUp ∪ tenorSet oldDown))
        fun t => curvaturePart field (valueAt (some ups) t, valueAt (some downs) t) -
          curvaturePart field (valueAt oldUp t, valueAt oldDown t) +
          countPart field countDelta := by
  rw [emitCurvatureTenors, increments_flatMap, ← List.sum_toFinset _ (List.nodup_dedup _),
    tenorTerm]
  have hset : (ups.keys ++ namesOf oldUp ++ downs.keys ++ namesOf oldDown).dedup.toFinset =
      tenorSet (some ups) ∪ tenorSet (some downs) ∪ (tenorSet oldUp ∪ tenorSet oldDown) := by
    ext t; simp [tenorSet, namesOf]; tauto
  rw [hset]
  exact Finset.sum_congr rfl (fun t _ => increments_emitCurvatureDelta _ _ _ _ _ _)

theorem tenorTerm_sub (tenors : Finset String) (v w : String → ℚ) :
    tenorTerm tags key tenors (fun t => v t - w t) =
      tenorTerm tags key tenors v - tenorTerm tags key tenors w := by
  simp only [tenorTerm, ← Finset.sum_sub_distrib]
  exact Finset.sum_congr rfl (fun t _ => by split <;> ring)

theorem tenorTerm_congr {tenors : Finset String} {v w : String → ℚ}
    (same : ∀ t ∈ tenors, v t = w t) : tenorTerm tags key tenors v = tenorTerm tags key tenors w :=
  Finset.sum_congr rfl (fun t ht => by rw [same t ht])

end Emission

end RollupContribution
