import Frtb.AtomicDelivery

/-!
# The contribution a HASH stores

A HASH names its class, bucket and type and holds the weighted fields of one
leg. What it stores is read through the same parser that the delta uses. For a
HASH that agrees with a document it is the document's contribution at every
tracked key.
-/

namespace StoredContribution

open AssocMaps JsonText EnrichDoc RollupKeys RedisStore StorageWriter RollupDelta BatchWriters
open RollupContribution HashLayout RowVersions

def textField (h : Hash) (name : String) : String := ((h.lookup name).map Stored.toText).getD ""

/-- The class, bucket and type that a HASH names, when it names all three. -/
def hashTags (h : Hash) : Option RowTags :=
  let rc := textField h "risk_class"
  let bkt := textField h "bucket"
  let sens := textField h "sensitivity_type"
  if rc = "" ∨ bkt = "" ∨ sens = "" then none else some ⟨rc, bkt, sens⟩

/-- What a HASH stores for one field of one rollup. -/
def storedContribution (h : Hash) (key field : String) : ℚ :=
  match hashTags h with
  | none => 0
  | some tags =>
    let stored := parseOldContribution h tags.riskClass tags.sensType
    if tags.sensType = "Curvature" then
      baseTerm tags key ((bothOf stored.scalarCvrUp stored.scalarCvrDown).map
        (curvatureTerm field)) +
      tenorTerm tags key (tenorSet stored.perTenorCvrUp ∪ tenorSet stored.perTenorCvrDown)
        fun t => curvatureTerm field
          (valueAt stored.perTenorCvrUp t, valueAt stored.perTenorCvrDown t)
    else
      baseTerm tags key (stored.scalarWs.map (scalarTerm field)) +
      tenorTerm tags key (tenorSet stored.perTenorWs) fun t =>
        scalarTerm field (valueAt stored.perTenorWs t)

/-- A curvature row has one tenor set, for its up values and its down values. -/
def OneTenorSet (doc : Props) : Prop :=
  (tenorMapAt doc "weighted_cvr_up_per_tenor").isSome =
      (tenorMapAt doc "weighted_cvr_down_per_tenor").isSome ∧
    tenorSet (tenorMapAt doc "weighted_cvr_up_per_tenor") =
      tenorSet (tenorMapAt doc "weighted_cvr_down_per_tenor")

section Tags
variable {h : Hash} {doc : Props}

theorem textField_eq (holds : Holds h doc) {name : String} (routing : name ∈ routingFields) :
    textField h name = textOrEmpty doc name := by
  have tag : name ∈ hashTagFields := (by decide : routingFields ⊆ hashTagFields) routing
  rw [textField, holds.fields name (Or.inl routing), lookup_flatten_tag tag, tagValue,
    textOrEmpty, strAt]
  cases doc.lookup name with
  | none => rfl
  | some v => cases v <;> rfl

theorem rowTags_eq_textOrEmpty :
    rowTags doc =
      if textOrEmpty doc "risk_class" = "" ∨ textOrEmpty doc "bucket" = "" ∨
          textOrEmpty doc "sensitivity_type" = "" then none
      else some ⟨textOrEmpty doc "risk_class", textOrEmpty doc "bucket",
        textOrEmpty doc "sensitivity_type"⟩ := by
  have bind : ∀ rc bkt sens : Option String,
      (rc.bind fun rc => bkt.bind fun bkt => sens.bind fun sens =>
        if rc = "" ∨ bkt = "" ∨ sens = "" then none else some (⟨rc, bkt, sens⟩ : RowTags)) =
      if rc.getD "" = "" ∨ bkt.getD "" = "" ∨ sens.getD "" = "" then none
      else some ⟨rc.getD "", bkt.getD "", sens.getD ""⟩ := by
    intro rc bkt sens
    cases rc with
    | none => simp
    | some rc =>
      cases bkt with
      | none => simp
      | some bkt =>
        cases sens with
        | none => simp
        | some sens => rfl
  exact bind _ _ _

theorem hashTags_eq (holds : Holds h doc) : hashTags h = rowTags doc := by
  rw [rowTags_eq_textOrEmpty]
  simp only [hashTags, textField_eq holds (by simp [routingFields] : "risk_class" ∈ routingFields),
    textField_eq holds (by simp [routingFields] : "bucket" ∈ routingFields),
    textField_eq holds (by simp [routingFields] : "sensitivity_type" ∈ routingFields)]

end Tags

section Stored
variable {h : Hash} {doc : Props} {tags : RowTags} {key field : String}

theorem reads_curvature_noTenors (holds : Holds h doc) (ht : rowTags doc = some tags)
    (hs : tags.sensType = "Curvature")
    (scalar : tenorMapAt doc "weighted_cvr_up_per_tenor" = none) :
    ReadsBack h (tenorPrefix (lowerCase tags.riskClass) "cvr_up") none ∧
      ReadsBack h (tenorPrefix (lowerCase tags.riskClass) "cvr_down") none := by
  have absent : ∀ leg ∈ ["cvr_up", "cvr_down"], ∀ t,
      h.lookup (tenorPrefix (lowerCase tags.riskClass) leg ++ t) = none := by
    intro leg hleg t
    rw [holds.lookup_weight (isWeightField_tenorPrefix _ _ _), weightArgs_curvature ht hs, scalar]
    apply lookup_ofPairs_eq_none
    rw [List.map_append, scalarArgs_names, scalarArgs_names, List.mem_append, not_or]
    simp only [List.mem_cons, List.not_mem_nil, or_false] at hleg
    have apartUp : tenorPrefix (lowerCase tags.riskClass) leg ++ t ≠
        weightField (lowerCase tags.riskClass) "cvr_up" := by
      rcases hleg with rfl | rfl
      · exact tenorPrefix_append_ne _ _ t
      · simpa [tenorPrefix, String.append_assoc] using
          (cvr_up_ne_cvr_down (lowerCase tags.riskClass) "" ("_" ++ t)).symm
    have apartDown : tenorPrefix (lowerCase tags.riskClass) leg ++ t ≠
        weightField (lowerCase tags.riskClass) "cvr_down" := by
      rcases hleg with rfl | rfl
      · simpa [tenorPrefix, String.append_assoc] using
          cvr_up_ne_cvr_down (lowerCase tags.riskClass) ("_" ++ t) ""
      · exact tenorPrefix_append_ne _ _ t
    constructor
    · split
      · simpa using apartUp
      · exact List.not_mem_nil
    · split
      · simpa using apartDown
      · exact List.not_mem_nil
  exact ⟨readsBack_of_lookup (fun t => absent "cvr_up" (by simp) t),
    readsBack_of_lookup (fun t => absent "cvr_down" (by simp) t)⟩

theorem storedContribution_scalarLeg (holds : Holds h doc) (ht : rowTags doc = some tags)
    (hleg : scalarLeg tags.sensType ≠ "") (tracked : key ∉ unstoredKeys doc) :
    storedContribution h key field = contribution doc key field := by
  have hcurv := (legsForSensType_scalar hleg).2
  have reads := reads_scalarTenors holds ht hleg
  simp only [storedContribution, contribution, hashTags_eq holds, ht, hcurv, if_false,
    parse_scalarLeg holds.nonempty ht hleg, reads.values, reads.tenors]
  cases hm : tenorMapAt doc "weighted_value_per_tenor" with
  | none =>
    rw [reads_scalar holds ht hleg hm]
    simp [tenorTerm, tenorSet, namesOf]
  | some m =>
    have hbase : key ≠ tags.key none := by
      simpa only [unstoredKeys, ht, hcurv, hleg, hm, if_false, Option.isSome_some, if_true,
        List.mem_singleton] using tracked
    simp only [baseTerm_of_ne hbase]

theorem storedContribution_noLeg (holds : Holds h doc) (ht : rowTags doc = some tags)
    (hcurv : tags.sensType ≠ "Curvature") (hleg : scalarLeg tags.sensType = "")
    (tracked : key ∉ unstoredKeys doc) :
    storedContribution h key field = contribution doc key field := by
  simp only [unstoredKeys, ht, hcurv, hleg, if_false, if_true, List.mem_cons, List.mem_map,
    not_or, not_exists, not_and] at tracked
  obtain ⟨hbase, htenors⟩ := tracked
  simp only [storedContribution, contribution, hashTags_eq holds, ht, hcurv, if_false,
    parse_noLeg holds.nonempty ht hcurv hleg, baseTerm_of_ne hbase, OldContribution.absent]
  cases hm : tenorMapAt doc "weighted_value_per_tenor" with
  | none => simp [tenorTerm, tenorSet, namesOf]
  | some m =>
    have apart : ∀ t ∈ tenorSet (some m), key ≠ tags.key (some t) := by
      intro t hmem heq
      refine htenors t ?_ heq.symm
      simpa [hm, tenorSet] using hmem
    simp only [tenorTerm_eq_zero apart]
    simp [tenorTerm, tenorSet, namesOf]

theorem storedContribution_curvature (holds : Holds h doc) (ht : rowTags doc = some tags)
    (hs : tags.sensType = "Curvature") (one : OneTenorSet doc)
    (tracked : key ∉ unstoredKeys doc) :
    storedContribution h key field = contribution doc key field := by
  have hparse := parse_curvature holds.nonempty ht hs
  simp only [storedContribution, contribution, hashTags_eq holds, ht, hparse, if_pos hs]
  cases hu : tenorMapAt doc "weighted_cvr_up_per_tenor" with
  | none =>
    obtain ⟨readsUp, readsDown⟩ := reads_curvature_noTenors holds ht hs hu
    obtain ⟨up, down⟩ := reads_curvature hs holds ht hu
    rw [up, down, readsUp.tenors, readsDown.tenors]
    simp [bothOf, tenorTerm, tenorSet, namesOf]
  | some ups =>
    have hbase : key ≠ tags.key none := by
      simpa only [unstoredKeys, ht, hs, hu, if_true, Option.isSome_some, List.mem_singleton]
        using tracked
    rw [OneTenorSet, hu, Option.isSome_some, eq_comm, Option.isSome_iff_exists] at one
    obtain ⟨⟨downs, hd⟩, _⟩ := one
    obtain ⟨readsUp, readsDown⟩ := reads_curvatureTenors hs holds ht hu hd
    simp only [baseTerm_of_ne hbase, hd, bothOf, Option.bind_some, Option.map_some,
      readsUp.values, readsUp.tenors, readsDown.values, readsDown.tenors]

/-- A HASH that agrees with a document stores the document's contribution. -/
theorem storedContribution_eq (holds : Holds h doc) (one : OneTenorSet doc)
    (tracked : key ∉ unstoredKeys doc) :
    storedContribution h key field = contribution doc key field := by
  cases ht : rowTags doc with
  | none => simp only [storedContribution, contribution, hashTags_eq holds, ht]
  | some tags =>
    by_cases hcurv : tags.sensType = "Curvature"
    · exact storedContribution_curvature holds ht hcurv one tracked
    · by_cases hleg : scalarLeg tags.sensType = ""
      · exact storedContribution_noLeg holds ht hcurv hleg tracked
      · exact storedContribution_scalarLeg holds ht hleg tracked

theorem storedContribution_empty : storedContribution ∅ key field = 0 := rfl

end Stored

section Count
variable {h : Hash} {key : String}

/-- The HASH stores a value for the rollup. -/
def Contributes (h : Hash) (key : String) : Prop := storedContribution h key "count" ≠ 0

instance (h : Hash) (key : String) : Decidable (Contributes h key) :=
  inferInstanceAs (Decidable (¬ storedContribution h key "count" = 0))

theorem scalarTerm_count : scalarTerm "count" = fun _ => 1 := by
  funext v
  simp [scalarTerm, scalarPart, countPart]

theorem curvatureTerm_count : curvatureTerm "count" = fun _ => 1 := by
  funext v
  simp [curvatureTerm, curvaturePart, countPart]

/-- One value at most stands under one key, so a row counts at most once. -/
theorem count_term (key : String) (tags : RowTags) (present : Option Unit)
    (tenors : Finset String) :
    baseTerm tags key (present.map fun _ => 1) + tenorTerm tags key tenors (fun _ => 1) = 0 ∨
      baseTerm tags key (present.map fun _ => 1) + tenorTerm tags key tenors (fun _ => 1) = 1 := by
  by_cases hbase : key = tags.key none
  · have apart : ∀ t ∈ tenors, key ≠ tags.key (some t) := by
      intro t _ heq
      exact rollupKey_tenor_ne_base _ _ _ t (heq.symm.trans hbase)
    rw [tenorTerm_eq_zero apart, add_zero, baseTerm, if_pos hbase]
    cases present with
    | none => exact Or.inl rfl
    | some _ => exact Or.inr rfl
  · rw [baseTerm_of_ne hbase, zero_add, tenorTerm]
    by_cases found : ∃ t ∈ tenors, key = tags.key (some t)
    · obtain ⟨t, ht, hkey⟩ := found
      right
      rw [Finset.sum_eq_single t]
      · rw [if_pos hkey]
      · intro t' _ hne
        rw [if_neg]
        intro heq
        exact hne (rollupKey_tenor_inj (heq.symm.trans hkey))
      · exact fun hnot => absurd ht hnot
    · left
      exact Finset.sum_eq_zero (fun t ht => if_neg (fun heq => found ⟨t, ht, heq⟩))

theorem storedContribution_count :
    storedContribution h key "count" = if Contributes h key then 1 else 0 := by
  have zeroOrOne : storedContribution h key "count" = 0 ∨ storedContribution h key "count" = 1 := by
    unfold storedContribution
    split
    · exact Or.inl rfl
    · rename_i tags _
      dsimp only
      split
      · have cell := count_term key tags ((bothOf
          (parseOldContribution h tags.riskClass tags.sensType).scalarCvrUp
          (parseOldContribution h tags.riskClass tags.sensType).scalarCvrDown).map fun _ => ())
          (tenorSet (parseOldContribution h tags.riskClass tags.sensType).perTenorCvrUp ∪
            tenorSet (parseOldContribution h tags.riskClass tags.sensType).perTenorCvrDown)
        simpa only [Option.map_map, Function.comp_def, curvatureTerm_count] using cell
      · have cell := count_term key tags
          ((parseOldContribution h tags.riskClass tags.sensType).scalarWs.map fun _ => ())
          (tenorSet (parseOldContribution h tags.riskClass tags.sensType).perTenorWs)
        simpa only [Option.map_map, Function.comp_def, scalarTerm_count] using cell
  rcases zeroOrOne with zero | one
  · rw [zero, if_neg (fun hc => hc zero)]
  · rw [one, if_pos (by rw [Contributes, one]; exact one_ne_zero)]

end Count

end StoredContribution
