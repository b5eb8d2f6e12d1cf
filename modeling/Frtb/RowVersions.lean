import Frtb.HashLayout

/-!
# Versions of a row

Re-ingesting a row replaces one version by another. The delta writer adds the
difference of their contributions at every tracked key, so that a chain of
versions telescopes to the contribution of the last one.
-/

namespace RowVersions

open AssocMaps JsonText EnrichDoc RedisStore StorageWriter RollupDelta BatchWriters
open RollupContribution HashLayout

section Read
variable {h : Hash} {doc : Props} {tags : RowTags}

theorem parse_scalarLeg (present : h.keys ≠ []) (ht : rowTags doc = some tags)
    (hleg : scalarLeg tags.sensType ≠ "") :
    parseOldContribution h tags.riskClass tags.sensType =
      { OldContribution.absent with
        present := true
        scalarWs :=
          numberField h (weightField (lowerCase tags.riskClass) (scalarLeg tags.sensType))
        perTenorWs :=
          tenorFields h (tenorPrefix (lowerCase tags.riskClass) (scalarLeg tags.sensType)) } := by
  obtain ⟨_, _, _, hne, _, hne'⟩ := rowTags_eq_some ht
  have hcurv := (legsForSensType_scalar hleg).2
  simp only [parseOldContribution, present, lowerCase_ne_empty hne, hne', hcurv, hleg, or_self,
    if_false]

theorem parse_curvature (present : h.keys ≠ []) (ht : rowTags doc = some tags)
    (hs : tags.sensType = "Curvature") :
    parseOldContribution h tags.riskClass tags.sensType =
      { OldContribution.absent with
        present := true
        scalarCvrUp := numberField h (weightField (lowerCase tags.riskClass) "cvr_up")
        scalarCvrDown := numberField h (weightField (lowerCase tags.riskClass) "cvr_down")
        perTenorCvrUp := tenorFields h (tenorPrefix (lowerCase tags.riskClass) "cvr_up")
        perTenorCvrDown := tenorFields h (tenorPrefix (lowerCase tags.riskClass) "cvr_down") } := by
  obtain ⟨_, _, _, hne, _, _⟩ := rowTags_eq_some ht
  simp only [parseOldContribution, present, lowerCase_ne_empty hne, hs, String.reduceEq, or_self,
    if_false, if_true]

theorem parse_noLeg (present : h.keys ≠ []) (ht : rowTags doc = some tags)
    (hcurv : tags.sensType ≠ "Curvature") (hleg : scalarLeg tags.sensType = "") :
    parseOldContribution h tags.riskClass tags.sensType =
      { OldContribution.absent with present := true } := by
  obtain ⟨_, _, _, hne, _, hne'⟩ := rowTags_eq_some ht
  simp only [parseOldContribution, present, lowerCase_ne_empty hne, hne', hcurv, hleg, or_self,
    if_false, if_true]

theorem reads_scalarTenors (holds : Holds h doc) (ht : rowTags doc = some tags)
    (hleg : scalarLeg tags.sensType ≠ "") :
    ReadsBack h (tenorPrefix (lowerCase tags.riskClass) (scalarLeg tags.sensType))
      (tenorMapAt doc "weighted_value_per_tenor") := by
  apply readsBack_of_lookup
  intro t
  rw [holds.lookup_weight (isWeightField_tenorPrefix _ _ _), weightArgs_scalarLeg ht hleg]
  cases tenorMapAt doc "weighted_value_per_tenor" with
  | some m => exact lookup_tenorArgs _ _ m t
  | none =>
    apply lookup_ofPairs_eq_none
    rw [scalarArgs_names]
    split
    · simpa using tenorPrefix_append_ne _ _ t
    · exact List.not_mem_nil

theorem reads_scalar (holds : Holds h doc) (ht : rowTags doc = some tags)
    (hleg : scalarLeg tags.sensType ≠ "")
    (scalar : tenorMapAt doc "weighted_value_per_tenor" = none) :
    numberField h (weightField (lowerCase tags.riskClass) (scalarLeg tags.sensType)) =
      numAt doc "weighted_value" := by
  apply numberField_eq
  rw [holds.lookup_weight (isWeightField_weightField _ _), weightArgs_scalarLeg ht hleg, scalar]
  exact lookup_scalarArgs _ _ _

section Curvature
variable (hs : tags.sensType = "Curvature")
include hs

theorem reads_curvature (holds : Holds h doc) (ht : rowTags doc = some tags)
    (scalar : tenorMapAt doc "weighted_cvr_up_per_tenor" = none) :
    numberField h (weightField (lowerCase tags.riskClass) "cvr_up") =
        numAt doc "weighted_cvr_up" ∧
      numberField h (weightField (lowerCase tags.riskClass) "cvr_down") =
        numAt doc "weighted_cvr_down" := by
  constructor
  · apply numberField_eq
    rw [holds.lookup_weight (isWeightField_weightField _ _), weightArgs_curvature ht hs, scalar]
    simp only
    rw [lookup_ofPairs_append_of_notMem]
    · exact lookup_scalarArgs _ _ _
    · rw [scalarArgs_names]
      split
      · simpa using cvr_up_ne_cvr_down (lowerCase tags.riskClass) "" ""
      · exact List.not_mem_nil
  · apply numberField_eq
    rw [holds.lookup_weight (isWeightField_weightField _ _), weightArgs_curvature ht hs, scalar]
    simp only
    rw [lookup_ofPairs_append_of_notMem_left]
    · exact lookup_scalarArgs _ _ _
    · rw [scalarArgs_names]
      split
      · simpa [eq_comm] using cvr_up_ne_cvr_down (lowerCase tags.riskClass) "" ""
      · exact List.not_mem_nil

theorem reads_curvatureTenors (holds : Holds h doc) (ht : rowTags doc = some tags)
    {ups downs : Assoc String ℚ} (hu : tenorMapAt doc "weighted_cvr_up_per_tenor" = some ups)
    (hd : tenorMapAt doc "weighted_cvr_down_per_tenor" = some downs) :
    ReadsBack h (tenorPrefix (lowerCase tags.riskClass) "cvr_up") (some ups) ∧
      ReadsBack h (tenorPrefix (lowerCase tags.riskClass) "cvr_down") (some downs) := by
  constructor
  · apply readsBack_of_lookup
    intro t
    rw [holds.lookup_weight (isWeightField_tenorPrefix _ _ _), weightArgs_curvature ht hs, hu, hd]
    simp only [Option.map_some, Option.getD_some]
    rw [lookup_ofPairs_append_of_notMem]
    · exact lookup_tenorArgs _ _ ups t
    · rw [tenorArgs_names]
      intro hmem
      obtain ⟨t', _, heq⟩ := List.mem_map.mp hmem
      simp only [tenorPrefix, String.append_assoc] at heq
      exact cvr_up_ne_cvr_down _ _ _ heq.symm
  · apply readsBack_of_lookup
    intro t
    rw [holds.lookup_weight (isWeightField_tenorPrefix _ _ _), weightArgs_curvature ht hs, hu, hd]
    simp only [Option.map_some, Option.getD_some]
    rw [lookup_ofPairs_append_of_notMem_left]
    · exact lookup_tenorArgs _ _ downs t
    · rw [tenorArgs_names]
      intro hmem
      obtain ⟨t', _, heq⟩ := List.mem_map.mp hmem
      simp only [tenorPrefix, String.append_assoc] at heq
      exact cvr_up_ne_cvr_down _ _ _ heq

end Curvature

end Read

section Telescope
variable {h : Hash} {old new : Props} {tags : RowTags} {key field : String}

theorem baseTerm_of_ne (hkey : key ≠ tags.key none) (v : Option ℚ) : baseTerm tags key v = 0 := by
  rw [baseTerm, if_neg hkey]

/-- A row written over an empty HASH adds its whole contribution. -/
theorem increments_fresh (doc : Props) (key field : String) :
    increments (emitRollupDelta .absent doc) key field = contribution doc key field := by
  cases ht : rowTags doc with
  | none => simp only [emitRollupDelta, contribution, ht, increments_nil]
  | some tags =>
    have count : OldContribution.absent.countDelta = 1 := rfl
    simp only [emitRollupDelta, contribution, ht, count]
    split
    · rw [increments_append, increments_emitCurvatureBase]
      congr 1
      · simp [OldContribution.absent]
        rfl
      · cases tenorMapAt doc "weighted_cvr_up_per_tenor" with
        | none => rfl
        | some ups =>
          cases tenorMapAt doc "weighted_cvr_down_per_tenor" with
          | none => rfl
          | some downs =>
            rw [increments_emitCurvatureTenors]
            simp [OldContribution.absent, bothOf, tenorSet, namesOf, valueAt, curvatureTerm]
    · rw [increments_append, increments_emitScalarBase]
      congr 1
      · simp [OldContribution.absent]
        rfl
      · cases tenorMapAt doc "weighted_value_per_tenor" with
        | none => rfl
        | some m =>
          rw [increments_emitScalarTenors]
          simp [OldContribution.absent, tenorSet, namesOf, valueAt, scalarTerm]

theorem tenorTerm_eq_zero {tenors : Finset String} {v : String → ℚ}
    (apart : ∀ t ∈ tenors, key ≠ tags.key (some t)) : tenorTerm tags key tenors v = 0 :=
  Finset.sum_eq_zero (fun t ht => if_neg (apart t ht))

/-- Values of the base key that one presence pattern shares. -/
theorem baseTerm_sub {v w : Option ℚ} (same : v.isSome = w.isSome) :
    baseTerm tags key v - baseTerm tags key w =
      baseTerm tags key (v.map fun x => x - w.getD 0) := by
  cases v with
  | none =>
    rw [Option.isSome_none, eq_comm, Option.isSome_eq_false_iff, Option.isNone_iff_eq_none] at same
    subst same
    simp [baseTerm]
  | some x =>
    rw [Option.isSome_some, eq_comm, Option.isSome_iff_exists] at same
    obtain ⟨y, rfl⟩ := same
    simp only [baseTerm, Option.getD_some, Option.map_some]
    split <;> ring

theorem bothOf_isSome {α β : Type} (up : Option α) (down : Option β) :
    (bothOf up down).isSome = (up.isSome && down.isSome) := by
  cases up <;> cases down <;> rfl

section Scalar
variable (ht : rowTags new = some tags) (holds : Holds h old) (same : SameShape old new)
  (tracked : key ∉ unstoredKeys new)
include ht holds same tracked

theorem increments_reingest_scalarLeg (hleg : scalarLeg tags.sensType ≠ "") :
    increments (emitRollupDelta (parseOldContribution h tags.riskClass tags.sensType) new)
        key field = contribution new key field - contribution old key field := by
  have ht₀ : rowTags old = some tags := by rw [same.rowTags_eq, ht]
  have hcurv := (legsForSensType_scalar hleg).2
  have reads := reads_scalarTenors holds ht₀ hleg
  rw [parse_scalarLeg holds.nonempty ht hleg]
  simp only [emitRollupDelta, contribution, ht, ht₀, hcurv, if_false]
  rw [increments_append, increments_emitScalarBase]
  simp only [OldContribution.countDelta, if_true, countPart_zero, add_zero]
  obtain ⟨hnone, hnone'⟩ | ⟨m₀, m, hm₀, hm, hset⟩ :=
    same.tenorMaps "weighted_value_per_tenor" (by simp)
  · -- a scalar row: the HASH holds the scalar
    have presence := same.scalars "weighted_value" (by simp)
    rw [reads_scalar holds ht₀ hleg hnone, hnone, hnone']
    simp only [emitScalarTenors, increments_nil, add_zero]
    rw [baseTerm_sub (by simpa using presence.symm), Option.map_map]
    congr 1
    cases hv : numAt new "weighted_value" with
    | none => rfl
    | some ws =>
      rw [hv, Option.isSome_some, Option.isSome_iff_exists] at presence
      obtain ⟨ws₀, hv₀⟩ := presence
      simp only [hv₀, Option.map_some, Function.comp_apply, Option.getD_some, scalarTerm]
      congr 1
      ring
  · -- a per-tenor row: the base key is not tracked
    have hbase : key ≠ tags.key none := by
      simpa only [unstoredKeys, ht, hcurv, hleg, hm, if_false, Option.isSome_some, if_true,
        List.mem_singleton] using tracked
    rw [hm₀] at reads
    rw [hm₀, hm, increments_emitScalarTenors, reads.tenors, hset, Finset.union_self]
    simp only [baseTerm_of_ne hbase, zero_add, countPart_zero, add_zero, reads.values]
    rw [hset, ← tenorTerm_sub]
    exact tenorTerm_congr (fun t _ => by simp only [scalarTerm]; ring)

theorem increments_reingest_noLeg (hcurv : tags.sensType ≠ "Curvature")
    (hleg : scalarLeg tags.sensType = "") :
    increments (emitRollupDelta (parseOldContribution h tags.riskClass tags.sensType) new)
        key field = contribution new key field - contribution old key field := by
  have ht₀ : rowTags old = some tags := by rw [same.rowTags_eq, ht]
  simp only [unstoredKeys, ht, hcurv, hleg, if_false, if_true, List.mem_cons, List.mem_map,
    not_or, not_exists, not_and] at tracked
  obtain ⟨hbase, htenors⟩ := tracked
  rw [parse_noLeg holds.nonempty ht hcurv hleg]
  simp only [emitRollupDelta, contribution, ht, ht₀, hcurv, if_false]
  rw [increments_append, increments_emitScalarBase, baseTerm_of_ne hbase]
  simp only [baseTerm_of_ne hbase, zero_add, OldContribution.absent]
  obtain ⟨hnone, hnone'⟩ | ⟨m₀, m, hm₀, hm, hset⟩ :=
    same.tenorMaps "weighted_value_per_tenor" (by simp)
  · simp [hnone, hnone', emitScalarTenors]
  · have apart : ∀ t ∈ tenorSet (some m), key ≠ tags.key (some t) := by
      intro t hmem heq
      refine htenors t ?_ heq.symm
      simpa [hm, tenorSet] using hmem
    have apart₀ : ∀ t ∈ tenorSet (some m₀), key ≠ tags.key (some t) := by rwa [hset]
    have hunion : tenorSet (some m) ∪ tenorSet none = tenorSet (some m) := by
      simp [tenorSet, namesOf]
    simp only [hm₀, hm, increments_emitScalarTenors, hunion, tenorTerm_eq_zero apart,
      tenorTerm_eq_zero apart₀, sub_zero]

theorem increments_reingest_curvature (hs : tags.sensType = "Curvature") :
    increments (emitRollupDelta (parseOldContribution h tags.riskClass tags.sensType) new)
        key field = contribution new key field - contribution old key field := by
  have ht₀ : rowTags old = some tags := by rw [same.rowTags_eq, ht]
  rw [parse_curvature holds.nonempty ht hs]
  simp only [emitRollupDelta, contribution, ht, ht₀, hs, if_true]
  rw [increments_append, increments_emitCurvatureBase]
  simp only [OldContribution.countDelta, if_true, countPart_zero, add_zero]
  obtain ⟨hnone, hnone'⟩ | ⟨ups₀, ups, hu₀, hu, hupset⟩ :=
    same.tenorMaps "weighted_cvr_up_per_tenor" (by simp)
  · -- a scalar row: the HASH holds both scalars
    have up := same.scalars "weighted_cvr_up" (by simp)
    have down := same.scalars "weighted_cvr_down" (by simp)
    obtain ⟨readsUp, readsDown⟩ := reads_curvature hs holds ht₀ hnone
    rw [readsUp, readsDown, hnone, hnone']
    have noTenors : ∀ x : Option (Assoc String ℚ),
        bothOf (none : Option (Assoc String ℚ)) x = none := fun _ => rfl
    simp only [emitCurvatureTenors, increments_nil, noTenors, add_zero]
    rw [baseTerm_sub (by rw [Option.isSome_map, Option.isSome_map, bothOf_isSome, bothOf_isSome,
      up, down]), Option.map_map]
    congr 1
    cases hu : numAt new "weighted_cvr_up" with
    | none => rfl
    | some u =>
      cases hd : numAt new "weighted_cvr_down" with
      | none => rfl
      | some d =>
        rw [hu, Option.isSome_some, Option.isSome_iff_exists] at up
        rw [hd, Option.isSome_some, Option.isSome_iff_exists] at down
        obtain ⟨u₀, hu₀⟩ := up
        obtain ⟨d₀, hd₀⟩ := down
        simp only [hu₀, hd₀, bothOf, Option.bind_some, Option.map_some, Function.comp_apply,
          Option.getD_some, curvatureTerm]
        congr 1
        ring
  · -- a per-tenor row: the base key is not tracked
    have hbase : key ≠ tags.key none := by
      simpa only [unstoredKeys, ht, hs, hu, if_true, Option.isSome_some, List.mem_singleton]
        using tracked
    simp only [baseTerm_of_ne hbase, zero_add]
    obtain ⟨hd₀, hd⟩ | ⟨downs₀, downs, hd₀, hd, hdownset⟩ :=
      same.tenorMaps "weighted_cvr_down_per_tenor" (by simp)
    · simp [hu₀, hu, hd₀, hd, emitCurvatureTenors, bothOf]
    · obtain ⟨readsUp, readsDown⟩ := reads_curvatureTenors hs holds ht₀ hu₀ hd₀
      rw [hu₀, hu, hd₀, hd, increments_emitCurvatureTenors, readsUp.tenors, readsDown.tenors,
        hupset, hdownset, Finset.union_self]
      simp only [bothOf, Option.bind_some, Option.map_some, readsUp.values, readsDown.values,
        countPart_zero, add_zero]
      rw [hupset, hdownset, ← tenorTerm_sub]
      exact tenorTerm_congr (fun t _ => by simp only [curvatureTerm]; ring)

/-- A row re-ingested in the same shape adds the difference of the two
contributions at every tracked key. -/
theorem increments_reingest :
    increments (emitRollupDelta (parseOldContribution h tags.riskClass tags.sensType) new)
        key field = contribution new key field - contribution old key field := by
  by_cases hcurv : tags.sensType = "Curvature"
  · exact increments_reingest_curvature ht holds same tracked hcurv
  · by_cases hleg : scalarLeg tags.sensType = ""
    · exact increments_reingest_noLeg ht holds same tracked hcurv hleg
    · exact increments_reingest_scalarLeg ht holds same tracked hleg

end Scalar

/-- The increments of a Phase 2 that finds its marker unset. -/
def rollupIncrements (oldHash : Hash) (doc : Props) (key field : String) : ℚ :=
  match rowTags doc with
  | none => 0
  | some tags =>
    increments (emitRollupDelta (parseOldContribution oldHash tags.riskClass tags.sensType) doc)
      key field

theorem rollupIncrements_empty (doc : Props) :
    rollupIncrements ∅ doc key field = contribution doc key field := by
  rw [rollupIncrements, ← increments_fresh]
  cases ht : rowTags doc with
  | none => simp [emitRollupDelta, ht]
  | some tags => rfl

/-- Phase 2 of a row whose HASH holds its former version. -/
theorem rollupIncrements_reingest (holds : Holds h old) (same : SameShape old new)
    (tracked : key ∉ unstoredKeys new) :
    rollupIncrements h new key field = contribution new key field - contribution old key field := by
  cases ht : rowTags new with
  | none => simp only [rollupIncrements, contribution, ht, same.rowTags_eq, sub_zero]
  | some tags =>
    simp only [rollupIncrements, ht]
    exact increments_reingest ht holds same tracked

end Telescope

end RowVersions
