import Frtb.FastPathRows
import Frtb.HashLayout

/-!
# The index fields of an enriched row

The index reads the HASH that a document is laid out in. A per-tenor row has
one field per tenor and no scalar field, a scalar row the scalar field only.
-/

namespace IndexedRows

open AssocMaps JsonText EnrichDoc RedisStore StorageWriter RollupDelta HashLayout FastPath

/-- The number that a NUMERIC attribute takes from a stored text. -/
def numericValue : Stored → Option ℚ
  | .shown (.num q) => some q
  | _ => none

/-- A document as its HASH is indexed. -/
def indexDocOf (doc : Props) : IndexDoc where
  bucket := textOf doc "bucket"
  riskFactor := textOf doc "risk_factor"
  field := fun f => ((ofPairs (flattenDocForHash doc)).lookup f).bind numericValue

def legSens : FastLeg → String
  | .delta => "Delta"
  | .vega => "Vega"
  | .curvature => "Curvature"

section Names

theorem fieldFor_empty (lower root : String) :
    fieldFor "ws" lower root "" = weightField lower root := by
  apply String.toList_injective
  simp [fieldFor, weightField]

theorem fieldFor_tenor (lower root : String) {t : String} (nonempty : t ≠ "") :
    fieldFor "ws" lower root t = tenorPrefix lower root ++ t := by
  apply String.toList_injective
  simp [fieldFor, tenorPrefix, weightField, nonempty]

theorem isWeightField_fieldFor (lower root t : String) :
    IsWeightField (fieldFor "ws" lower root t) := by
  by_cases empty : t = ""
  · rw [empty, fieldFor_empty]
    exact isWeightField_weightField lower root
  · rw [fieldFor_tenor lower root empty]
    exact isWeightField_tenorPrefix lower root t

end Names

section Fields
variable {doc : Props} {tags : RowTags} {lower root t : String}

/-- The value of a leg's field at a tenor, from the tenor map of the leg and its
scalar; the scalar field has the empty tenor. -/
def fieldValue (m : Option (Assoc String ℚ)) (scalar : Option ℚ) (t : String) : Option ℚ :=
  match m with
  | some m => if t = "" then none else m.lookup t
  | none => if t = "" then scalar else none

theorem lookup_tenorArgs_fieldFor (lower root t : String) (m : Assoc String ℚ) :
    ((ofPairs (tenorArgs lower root m)).lookup (fieldFor "ws" lower root t)).bind numericValue =
      fieldValue (some m) none t := by
  by_cases empty : t = ""
  · have absent : fieldFor "ws" lower root t ∉ (tenorArgs lower root m).map Prod.fst := by
      rw [tenorArgs_names, empty, fieldFor_empty]
      intro mem
      obtain ⟨t', _, same⟩ := List.mem_map.mp mem
      exact tenorPrefix_append_ne lower root t' same
    rw [lookup_ofPairs_eq_none absent, fieldValue, if_pos empty]
    rfl
  · rw [fieldFor_tenor lower root empty, lookup_tenorArgs, fieldValue, if_neg empty]
    cases m.lookup t <;> rfl

theorem lookup_scalarArgs_fieldFor (lower root t : String) (v : Option ℚ) :
    ((ofPairs (scalarArgs lower root v)).lookup (fieldFor "ws" lower root t)).bind numericValue =
      fieldValue none v t := by
  by_cases empty : t = ""
  · rw [empty, fieldFor_empty, lookup_scalarArgs, fieldValue, if_pos rfl]
    cases v <;> rfl
  · have absent : fieldFor "ws" lower root t ∉ (scalarArgs lower root v).map Prod.fst := by
      rw [scalarArgs_names, fieldFor_tenor lower root empty]
      split
      · rw [List.mem_singleton]
        exact tenorPrefix_append_ne lower root t
      · exact List.not_mem_nil
    rw [lookup_ofPairs_eq_none absent, fieldValue, if_neg empty]
    rfl

theorem field_eq_weightArgs (doc : Props) (lower root t : String) :
    (indexDocOf doc).field (fieldFor "ws" lower root t) =
      ((ofPairs (weightArgs doc)).lookup (fieldFor "ws" lower root t)).bind numericValue := by
  simp only [indexDocOf, lookup_flatten_weight (isWeightField_fieldFor lower root t)]

/-- The field of a Delta or Vega row. -/
theorem field_scalarLeg (ht : rowTags doc = some tags) (hleg : scalarLeg tags.sensType ≠ "")
    (t : String) :
    (indexDocOf doc).field
        (fieldFor "ws" (lowerCase tags.riskClass) (scalarLeg tags.sensType) t) =
      fieldValue (tenorMapAt doc "weighted_value_per_tenor") (numAt doc "weighted_value") t := by
  rw [field_eq_weightArgs, weightArgs_scalarLeg ht hleg]
  cases tenorMapAt doc "weighted_value_per_tenor" with
  | some m => exact lookup_tenorArgs_fieldFor _ _ t m
  | none => exact lookup_scalarArgs_fieldFor _ _ t _

/-- The name is one of the leg's. -/
def OfLeg (lower root name : String) : Prop := ∃ rest, name = weightField lower root ++ rest

theorem ofLeg_fieldFor (lower root t : String) : OfLeg lower root (fieldFor "ws" lower root t) := by
  refine ⟨if t = "" then "" else "_" ++ t, ?_⟩
  apply String.toList_injective
  simp [fieldFor, weightField]

theorem ofLeg_of_mem_tenorArgs {lower root name : String} {m : Assoc String ℚ}
    (mem : name ∈ (tenorArgs lower root m).map Prod.fst) : OfLeg lower root name := by
  rw [tenorArgs_names] at mem
  obtain ⟨t, _, rfl⟩ := List.mem_map.mp mem
  exact ⟨"_" ++ t, by rw [tenorPrefix, String.append_assoc]⟩

theorem ofLeg_of_mem_scalarArgs {lower root name : String} {v : Option ℚ}
    (mem : name ∈ (scalarArgs lower root v).map Prod.fst) : OfLeg lower root name := by
  rw [scalarArgs_names] at mem
  split at mem
  · rw [List.mem_singleton.mp mem]
    exact ⟨"", (String.append_empty).symm⟩
  · cases mem

/-- No name is one of the up leg and one of the down leg. -/
theorem not_ofLeg_both {lower name : String} (up : OfLeg lower "cvr_up" name)
    (down : OfLeg lower "cvr_down" name) : False := by
  obtain ⟨x, hx⟩ := up
  obtain ⟨y, hy⟩ := down
  exact cvr_up_ne_cvr_down lower x y (hx.symm.trans hy)

theorem field_cvrUp (ht : rowTags doc = some tags) (hs : tags.sensType = "Curvature") (t : String) :
    (indexDocOf doc).field (fieldFor "ws" (lowerCase tags.riskClass) "cvr_up" t) =
      fieldValue (tenorMapAt doc "weighted_cvr_up_per_tenor") (numAt doc "weighted_cvr_up") t := by
  have own := ofLeg_fieldFor (lowerCase tags.riskClass) "cvr_up" t
  rw [field_eq_weightArgs, weightArgs_curvature ht hs]
  cases tenorMapAt doc "weighted_cvr_up_per_tenor" with
  | some ups =>
    cases tenorMapAt doc "weighted_cvr_down_per_tenor" with
    | some downs =>
      have absent : fieldFor "ws" (lowerCase tags.riskClass) "cvr_up" t ∉
          (tenorArgs (lowerCase tags.riskClass) "cvr_down" downs).map Prod.fst :=
        fun mem => not_ofLeg_both own (ofLeg_of_mem_tenorArgs mem)
      rw [Option.map_some, Option.getD_some, lookup_ofPairs_append_of_notMem absent]
      exact lookup_tenorArgs_fieldFor _ _ t ups
    | none =>
      simp only [Option.map_none, Option.getD_none, List.append_nil]
      exact lookup_tenorArgs_fieldFor _ _ t ups
  | none =>
    have absent : fieldFor "ws" (lowerCase tags.riskClass) "cvr_up" t ∉
        (scalarArgs (lowerCase tags.riskClass) "cvr_down"
          (numAt doc "weighted_cvr_down")).map Prod.fst :=
      fun mem => not_ofLeg_both own (ofLeg_of_mem_scalarArgs mem)
    rw [lookup_ofPairs_append_of_notMem absent]
    exact lookup_scalarArgs_fieldFor _ _ t _

/-- The down fields follow the up map: without it the row is a scalar one. -/
theorem field_cvrDown (ht : rowTags doc = some tags) (hs : tags.sensType = "Curvature")
    (t : String) :
    (indexDocOf doc).field (fieldFor "ws" (lowerCase tags.riskClass) "cvr_down" t) =
      match tenorMapAt doc "weighted_cvr_up_per_tenor" with
      | some _ => (tenorMapAt doc "weighted_cvr_down_per_tenor").bind fun downs =>
          fieldValue (some downs) none t
      | none => fieldValue none (numAt doc "weighted_cvr_down") t := by
  have own := ofLeg_fieldFor (lowerCase tags.riskClass) "cvr_down" t
  rw [field_eq_weightArgs, weightArgs_curvature ht hs]
  cases tenorMapAt doc "weighted_cvr_up_per_tenor" with
  | some ups =>
    have absent : fieldFor "ws" (lowerCase tags.riskClass) "cvr_down" t ∉
        (tenorArgs (lowerCase tags.riskClass) "cvr_up" ups).map Prod.fst :=
      fun mem => not_ofLeg_both (ofLeg_of_mem_tenorArgs mem) own
    dsimp only
    rw [lookup_ofPairs_append_of_notMem_left absent]
    cases tenorMapAt doc "weighted_cvr_down_per_tenor" with
    | some downs => exact lookup_tenorArgs_fieldFor _ _ t downs
    | none => rfl
  | none =>
    have absent : fieldFor "ws" (lowerCase tags.riskClass) "cvr_down" t ∉
        (scalarArgs (lowerCase tags.riskClass) "cvr_up"
          (numAt doc "weighted_cvr_up")).map Prod.fst :=
      fun mem => not_ofLeg_both (ofLeg_of_mem_scalarArgs mem) own
    dsimp only
    rw [lookup_ofPairs_append_of_notMem_left absent]
    exact lookup_scalarArgs_fieldFor _ _ t _

end Fields

end IndexedRows
