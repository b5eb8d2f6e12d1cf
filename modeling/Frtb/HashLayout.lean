import Frtb.RollupContribution

/-!
# Reading a row's contribution back from its HASH

A HASH is only ever added to. It agrees with the layout of the last document
written under its key as long as every document of that key has one shape: one
class, bucket and type, one set of scalars and one set of tenors. The fields
that the delta reads back are then those of the last document.
-/

namespace HashLayout

open AssocMaps JsonText EnrichDoc RedisStore StorageWriter RollupDelta BatchWriters
open RollupContribution

def routingFields : List String := ["risk_class", "bucket", "sensitivity_type"]

/-- The weighted fields all start with `ws_`. -/
def IsWeightField (name : String) : Prop := ∃ rest, name = "ws_" ++ rest

/-- Documents that write the same names. -/
structure SameShape (d d' : Props) : Prop where
  tags : ∀ name ∈ routingFields, d.lookup name = d'.lookup name
  scalars : ∀ name ∈ ["weighted_value", "weighted_cvr_up", "weighted_cvr_down"],
    (numAt d name).isSome = (numAt d' name).isSome
  tenors : ∀ name ∈ ["weighted_value_per_tenor", "weighted_cvr_up_per_tenor",
      "weighted_cvr_down_per_tenor"],
    (tenorMapAt d name).isSome = (tenorMapAt d' name).isSome ∧
      tenorSet (tenorMapAt d name) = tenorSet (tenorMapAt d' name)

/-- The HASH agrees with the layout of `doc` at every name the delta reads. -/
structure Holds [Casing] (h : Hash) (doc : Props) : Prop where
  nonempty : h.keys ≠ []
  fields : ∀ name, name ∈ routingFields ∨ IsWeightField name →
    h.lookup name = (ofPairs (flattenDocForHash doc)).lookup name

section Names

theorem lookup_of_strAt {d : Props} {name s : String} (h : strAt d name = some s) :
    d.lookup name = some (.str s) := by
  unfold strAt at h
  split at h
  · rename_i s' hs
    rw [hs, Option.some.inj h]
  · cases h

theorem strAt_congr {d d' : Props} {name : String} (h : d.lookup name = d'.lookup name) :
    strAt d name = strAt d' name := by
  simp only [strAt, h]

/-- Documents whose routing fields are equal strings. -/
theorem SameShape.of_strings {d d' : Props}
    (tags : ∀ name ∈ routingFields, (strAt d name).isSome ∧ strAt d name = strAt d' name)
    (scalars : ∀ name ∈ ["weighted_value", "weighted_cvr_up", "weighted_cvr_down"],
      (numAt d name).isSome = (numAt d' name).isSome)
    (tenors : ∀ name ∈ ["weighted_value_per_tenor", "weighted_cvr_up_per_tenor",
        "weighted_cvr_down_per_tenor"],
      (tenorMapAt d name).isSome = (tenorMapAt d' name).isSome ∧
        tenorSet (tenorMapAt d name) = tenorSet (tenorMapAt d' name)) : SameShape d d' := by
  refine ⟨fun name hname => ?_, scalars, tenors⟩
  obtain ⟨isString, same⟩ := tags name hname
  obtain ⟨s, hs⟩ := Option.isSome_iff_exists.mp isString
  rw [lookup_of_strAt hs, lookup_of_strAt (same.symm.trans hs)]

theorem textOf_congr {d d' : Props} {name : String} (h : d.lookup name = d'.lookup name) :
    textOf d name = textOf d' name := by
  simp only [textOf, h]

theorem SameShape.rowTags_eq {d d' : Props} (same : SameShape d d') : rowTags d = rowTags d' := by
  simp only [rowTags, strAt_congr (same.tags "risk_class" (by simp [routingFields])),
    strAt_congr (same.tags "bucket" (by simp [routingFields])),
    strAt_congr (same.tags "sensitivity_type" (by simp [routingFields]))]

theorem isWeightField_weightField (lower leg : String) : IsWeightField (weightField lower leg) :=
  ⟨lower ++ "_" ++ leg, by simp [weightField, String.append_assoc]⟩

theorem isWeightField_tenorPrefix (lower leg t : String) :
    IsWeightField (tenorPrefix lower leg ++ t) :=
  ⟨lower ++ "_" ++ leg ++ "_" ++ t, by simp [tenorPrefix, weightField, String.append_assoc]⟩

theorem scalarArgs_names (lower leg : String) (v : Option ℚ) :
    (scalarArgs lower leg v).map Prod.fst = if v.isSome then [weightField lower leg] else [] := by
  cases v <;> rfl

theorem tenorArgs_names (lower leg : String) (m : Assoc String ℚ) :
    (tenorArgs lower leg m).map Prod.fst = m.keys.map (tenorPrefix lower leg ++ ·) := by
  rw [tenorArgs, ← map_fst_pairs, List.map_map, List.map_map]
  rfl

theorem isWeightField_of_mem_weightArgs [Casing] {doc : Props} {name : String}
    (h : name ∈ (weightArgs doc).map Prod.fst) : IsWeightField name := by
  have scalar : ∀ lower leg v, name ∈ (scalarArgs lower leg v).map Prod.fst →
      IsWeightField name := by
    intro lower leg v hmem
    rw [scalarArgs_names] at hmem
    split at hmem
    · rw [List.mem_singleton.mp hmem]
      exact isWeightField_weightField lower leg
    · cases hmem
  have tenor : ∀ lower leg m, name ∈ (tenorArgs lower leg m).map Prod.fst →
      IsWeightField name := by
    intro lower leg m hmem
    rw [tenorArgs_names] at hmem
    obtain ⟨t, _, rfl⟩ := List.mem_map.mp hmem
    exact isWeightField_tenorPrefix lower leg t
  simp only [weightArgs] at h
  split at h
  · cases h
  split at h
  · split at h
    · rw [List.map_append, List.mem_append] at h
      rcases h with h | h
      · exact tenor _ _ _ h
      · cases hd : tenorMapAt doc "weighted_cvr_down_per_tenor" with
        | none => rw [hd] at h; cases h
        | some downs => rw [hd] at h; exact tenor _ _ _ h
    · rw [List.map_append, List.mem_append] at h
      exact h.elim (scalar _ _ _) (scalar _ _ _)
  · split at h
    · cases h
    · split at h
      · exact tenor _ _ _ h
      · exact scalar _ _ _ h

theorem not_isWeightField_of_tag {name : String} (h : name ∈ hashTagFields) :
    ¬ IsWeightField name := by
  have bare : ∀ name ∈ hashTagFields, stripPrefix "ws_" name = none := by decide
  rintro ⟨rest, heq⟩
  have hstrip := (stripPrefix_eq_some_iff "ws_" name rest).mpr heq
  rw [bare name h] at hstrip
  cases hstrip

end Names

section Layout
variable {doc : Props}

theorem tagArgs_names_subset {name : String} (h : name ∈ (tagArgs doc).map Prod.fst) :
    name ∈ hashTagFields := by
  obtain ⟨⟨k, v⟩, hp, rfl⟩ := List.mem_map.mp h
  obtain ⟨k', hk', hv⟩ := List.mem_filterMap.mp hp
  obtain ⟨_, _, heq⟩ := Option.map_eq_some_iff.mp hv
  cases heq
  exact hk'

theorem lookup_flatten_tag [Casing] {name : String} (h : name ∈ hashTagFields) :
    (ofPairs (flattenDocForHash doc)).lookup name = tagValue doc name := by
  have absent : name ∉ (weightArgs doc).map Prod.fst :=
    fun hmem => not_isWeightField_of_tag h (isWeightField_of_mem_weightArgs hmem)
  rw [flattenDocForHash, lookup_ofPairs_append_of_notMem absent]
  exact lookup_ofPairs_filterMap (by decide) (tagValue doc) h

theorem lookup_flatten_weight [Casing] {name : String} (h : IsWeightField name) :
    (ofPairs (flattenDocForHash doc)).lookup name = (ofPairs (weightArgs doc)).lookup name := by
  have absent : name ∉ (tagArgs doc).map Prod.fst :=
    fun hmem => not_isWeightField_of_tag (tagArgs_names_subset hmem) h
  rw [flattenDocForHash, lookup_ofPairs_append_of_notMem_left absent]

end Layout

section Shape

theorem scalarArgs_names_congr {lower leg : String} {v v' : Option ℚ}
    (h : v.isSome = v'.isSome) :
    (scalarArgs lower leg v).map Prod.fst = (scalarArgs lower leg v').map Prod.fst := by
  rw [scalarArgs_names, scalarArgs_names, h]

theorem mem_tenorArgs_names_congr {lower leg name : String} {m m' : Assoc String ℚ}
    (h : tenorSet (some m) = tenorSet (some m')) :
    name ∈ (tenorArgs lower leg m).map Prod.fst ↔
      name ∈ (tenorArgs lower leg m').map Prod.fst := by
  have keys : ∀ t, t ∈ m.keys ↔ t ∈ m'.keys := by
    intro t
    have := congrArg (t ∈ ·) h
    simpa [tenorSet, namesOf] using this
  rw [tenorArgs_names, tenorArgs_names, List.mem_map, List.mem_map]
  exact exists_congr fun t => and_congr_left fun _ => keys t

/-- Documents of one shape agree on which per-tenor maps they carry. -/
theorem SameShape.tenorMaps {d d' : Props} (same : SameShape d d') (name : String)
    (h : name ∈ ["weighted_value_per_tenor", "weighted_cvr_up_per_tenor",
      "weighted_cvr_down_per_tenor"]) :
    (tenorMapAt d name = none ∧ tenorMapAt d' name = none) ∨
      ∃ m m', tenorMapAt d name = some m ∧ tenorMapAt d' name = some m' ∧
        tenorSet (some m) = tenorSet (some m') := by
  obtain ⟨hsome, hset⟩ := same.tenors name h
  cases hm : tenorMapAt d name with
  | none =>
    rw [hm, Option.isSome_none, eq_comm, Option.isSome_eq_false_iff,
      Option.isNone_iff_eq_none] at hsome
    exact Or.inl ⟨rfl, hsome⟩
  | some m =>
    rw [hm, Option.isSome_some, eq_comm, Option.isSome_iff_exists] at hsome
    obtain ⟨m', hm'⟩ := hsome
    rw [hm, hm'] at hset
    exact Or.inr ⟨m, m', rfl, hm', hset⟩

theorem mem_weightArgs_names_congr [Casing] {d d' : Props} (same : SameShape d d') (name : String) :
    name ∈ (weightArgs d).map Prod.fst ↔ name ∈ (weightArgs d').map Prod.fst := by
  have rc := textOf_congr (same.tags "risk_class" (by simp [routingFields]))
  have sens := textOf_congr (same.tags "sensitivity_type" (by simp [routingFields]))
  simp only [weightArgs, rc, sens]
  split
  · rfl
  split
  · obtain ⟨hu, hu'⟩ | ⟨ups, ups', hu, hu', hset⟩ :=
      same.tenorMaps "weighted_cvr_up_per_tenor" (by simp)
    · rw [hu, hu']
      simp only [List.map_append,
        scalarArgs_names_congr (same.scalars "weighted_cvr_up" (by simp)),
        scalarArgs_names_congr (same.scalars "weighted_cvr_down" (by simp))]
    · rw [hu, hu']
      simp only [List.map_append, List.mem_append, mem_tenorArgs_names_congr hset]
      apply or_congr_right
      obtain ⟨hd, hd'⟩ | ⟨downs, downs', hd, hd', hset'⟩ :=
        same.tenorMaps "weighted_cvr_down_per_tenor" (by simp)
      · rw [hd, hd']
      · rw [hd, hd']
        exact mem_tenorArgs_names_congr hset'
  · split
    · rfl
    · obtain ⟨hv, hv'⟩ | ⟨m, m', hv, hv', hset⟩ :=
        same.tenorMaps "weighted_value_per_tenor" (by simp)
      · rw [hv, hv']
        simp only [scalarArgs_names_congr (same.scalars "weighted_value" (by simp))]
      · rw [hv, hv']
        exact mem_tenorArgs_names_congr hset

end Shape

section Write

/-- Every enriched document carries its calibration tag. -/
def Calibrated (doc : Props) : Prop := doc.lookup "_calibration" = some (.str calibrationTag)

theorem Calibrated.tagArgs_ne_nil {doc : Props} (h : Calibrated doc) : tagArgs doc ≠ [] := by
  apply List.ne_nil_of_mem (a := ("_calibration", .shown (.str calibrationTag)))
  refine List.mem_filterMap.mpr ⟨"_calibration", by decide, ?_⟩
  have hlookup : doc.lookup "_calibration" = some (.str calibrationTag) := h
  simp [tagValue, hlookup]

theorem Calibrated.flatten_ne_nil [Casing] {doc : Props} (h : Calibrated doc) :
    flattenDocForHash doc ≠ [] := by
  intro hnil
  exact h.tagArgs_ne_nil (List.append_eq_nil_iff.mp hnil).1

/-- A name that a document of one shape writes, the other writes too. -/
theorem lookup_flatten_isSome_congr [Casing] {d d' : Props} (same : SameShape d d') {name : String}
    (h : name ∈ routingFields ∨ IsWeightField name) :
    ((ofPairs (flattenDocForHash d)).lookup name).isSome =
      ((ofPairs (flattenDocForHash d')).lookup name).isSome := by
  rcases h with h | h
  · have tag : name ∈ hashTagFields := (by decide : routingFields ⊆ hashTagFields) h
    rw [lookup_flatten_tag tag, lookup_flatten_tag tag, tagValue, tagValue, same.tags name h]
  · rw [lookup_flatten_weight h, lookup_flatten_weight h, Bool.eq_iff_iff,
      lookup_ofPairs_isSome, lookup_ofPairs_isSome]
    exact mem_weightArgs_names_congr same name

/-- Writing a document over an empty HASH, or over the HASH of a document of
the same shape, leaves the layout of the new document. -/
theorem Holds.write [Casing] {h : Hash} {doc : Props} {extra : List (String × Stored)}
    (calibrated : Calibrated doc)
    (apart : ∀ name ∈ extra.map Prod.fst, ¬ (name ∈ routingFields ∨ IsWeightField name))
    (former : h = ∅ ∨ ∃ old, Holds h old ∧ SameShape old doc) :
    Holds (assign h (flattenDocForHash doc ++ extra)) doc := by
  constructor
  · obtain ⟨p, hp⟩ := List.exists_mem_of_ne_nil _ calibrated.flatten_ne_nil
    apply List.ne_nil_of_mem (a := p.1)
    rw [← AList.mem_keys, mem_assign]
    exact Or.inr (List.mem_map_of_mem (List.mem_append_left _ hp))
  · intro name hname
    rw [assign_append, lookup_assign_of_notMem _ _ (fun hmem => apart name hmem hname)]
    by_cases written : name ∈ (flattenDocForHash doc).map Prod.fst
    · exact lookup_assign_congr _ _ written
    · rw [lookup_assign_of_notMem _ _ written, lookup_ofPairs_eq_none written]
      rcases former with rfl | ⟨old, holds, same⟩
      · rw [AList.lookup_empty]
      · rw [holds.fields name hname, ← Option.not_isSome_iff_eq_none,
          lookup_flatten_isSome_congr same hname, lookup_ofPairs_isSome]
        exact written

end Write

section Read
variable {h : Hash} {doc : Props} {tags : RowTags}

theorem rowTags_eq_some (ht : rowTags doc = some tags) :
    strAt doc "risk_class" = some tags.riskClass ∧ strAt doc "bucket" = some tags.bucket ∧
      strAt doc "sensitivity_type" = some tags.sensType ∧
      tags.riskClass ≠ "" ∧ tags.bucket ≠ "" ∧ tags.sensType ≠ "" := by
  simp only [rowTags, Option.bind_eq_bind, Option.bind_eq_some_iff] at ht
  obtain ⟨rc, hrc, bkt, hbkt, sens, hsens, ht⟩ := ht
  split at ht
  · cases ht
  · rename_i present
    cases ht
    simp only [not_or] at present
    exact ⟨hrc, hbkt, hsens, present⟩

theorem weightArgs_curvature [Casing] (ht : rowTags doc = some tags)
    (hs : tags.sensType = "Curvature") :
    weightArgs doc =
      match tenorMapAt doc "weighted_cvr_up_per_tenor" with
      | some ups =>
        tenorArgs (lowerCase tags.riskClass) "cvr_up" ups ++
          ((tenorMapAt doc "weighted_cvr_down_per_tenor").map
            (tenorArgs (lowerCase tags.riskClass) "cvr_down")).getD []
      | none =>
        scalarArgs (lowerCase tags.riskClass) "cvr_up" (numAt doc "weighted_cvr_up") ++
          scalarArgs (lowerCase tags.riskClass) "cvr_down" (numAt doc "weighted_cvr_down") := by
  obtain ⟨hrc, _, hsens, hne, _, _⟩ := rowTags_eq_some ht
  cases ups : tenorMapAt doc "weighted_cvr_up_per_tenor" <;>
    simp only [weightArgs, textOf_of_strAt hrc, textOf_of_strAt hsens, hs,
      lowerCase_ne_empty hne, String.reduceEq, or_self, if_false, if_true, ups]

theorem legsForSensType_scalar {sens : String} (h : scalarLeg sens ≠ "") :
    legsForSensType sens = [scalarLeg sens] ∧ sens ≠ "Curvature" := by
  unfold scalarLeg at h ⊢
  by_cases hd : sens = "Delta"
  · subst hd; decide
  · by_cases hv : sens = "Vega"
    · subst hv; decide
    · simp [hd, hv] at h

theorem weightArgs_scalarLeg [Casing] (ht : rowTags doc = some tags)
    (hleg : scalarLeg tags.sensType ≠ "") :
    weightArgs doc =
      match tenorMapAt doc "weighted_value_per_tenor" with
      | some m => tenorArgs (lowerCase tags.riskClass) (scalarLeg tags.sensType) m
      | none =>
        scalarArgs (lowerCase tags.riskClass) (scalarLeg tags.sensType)
          (numAt doc "weighted_value") := by
  obtain ⟨hrc, _, hsens, hne, _, hne'⟩ := rowTags_eq_some ht
  obtain ⟨hlegs, hcurv⟩ := legsForSensType_scalar hleg
  cases map : tenorMapAt doc "weighted_value_per_tenor" <;>
    simp only [weightArgs, textOf_of_strAt hrc, textOf_of_strAt hsens,
      lowerCase_ne_empty hne, hne', hcurv, or_self, if_false, hlegs, map]

theorem Holds.lookup_weight [Casing] (holds : Holds h doc) {name : String}
    (hname : IsWeightField name) :
    h.lookup name = (ofPairs (weightArgs doc)).lookup name := by
  rw [holds.fields name (Or.inr hname), lookup_flatten_weight hname]

theorem tenorPrefix_injective (lower leg : String) :
    Function.Injective (tenorPrefix lower leg ++ ·) :=
  fun t t' heq => (append_left_cancel_iff _ t t').mp heq

theorem lookup_tenorArgs (lower leg : String) (m : Assoc String ℚ) (t : String) :
    (ofPairs (tenorArgs lower leg m)).lookup (tenorPrefix lower leg ++ t) =
      (m.lookup t).map fun q => Stored.shown (.num q) :=
  lookup_ofPairs_renamed m (tenorPrefix_injective lower leg) (fun q => Stored.shown (.num q)) t

theorem lookup_scalarArgs (lower leg : String) (v : Option ℚ) :
    (ofPairs (scalarArgs lower leg v)).lookup (weightField lower leg) =
      v.map fun q => Stored.shown (.num q) := by
  cases v with
  | none => rfl
  | some q =>
    exact lookup_assign_of_mem ∅ (by simp [scalarArgs]) (by simp [scalarArgs])

theorem tenorPrefix_append_ne (lower leg t : String) :
    tenorPrefix lower leg ++ t ≠ weightField lower leg := by
  intro heq
  have hlen := congrArg (fun s => s.toList.length) heq
  simp [tenorPrefix] at hlen

/-- The up and the down names of a class never meet. -/
theorem cvr_up_ne_cvr_down (lower x y : String) :
    weightField lower "cvr_up" ++ x ≠ weightField lower "cvr_down" ++ y := by
  intro heq
  simp only [weightField, String.append_assoc, append_left_cancel_iff] at heq
  have hlist := congrArg String.toList heq
  simp at hlist

theorem numberField_eq {name : String} {v : Option ℚ}
    (hl : h.lookup name = v.map fun q => Stored.shown (.num q)) : numberField h name = v := by
  rw [numberField, hl, Option.map_map]
  cases v <;> rfl

theorem lookup_tenorFields (fieldPrefix t : String) :
    (tenorFields h fieldPrefix).bind (·.lookup t) =
      (h.lookup (fieldPrefix ++ t)).map Stored.toNumber := by
  have hread := lookup_ofPairs_renamed (collectPrefix fieldPrefix h)
    (Function.injective_id) Stored.toNumber t
  simp only [id] at hread
  rw [lookup_collectPrefix] at hread
  rw [tenorFields]
  split
  · rename_i hempty
    have absent : (collectPrefix fieldPrefix h).lookup t = none := by
      rw [AList.lookup_eq_none, AList.mem_keys, hempty]
      exact List.not_mem_nil
    rw [lookup_collectPrefix] at absent
    rw [absent]
    rfl
  · exact hread

theorem valueAt_tenorFields (fieldPrefix t : String) :
    valueAt (tenorFields h fieldPrefix) t =
      ((h.lookup (fieldPrefix ++ t)).map Stored.toNumber).getD 0 := by
  rw [valueAt, lookup_tenorFields]

theorem mem_tenorSet (m : Option (Assoc String ℚ)) (t : String) :
    t ∈ tenorSet m ↔ (m.bind (·.lookup t)).isSome := by
  cases m with
  | none => simp [tenorSet, namesOf]
  | some m => simp [tenorSet, namesOf, AList.lookup_isSome, AList.mem_keys]

/-- Fields that read back as a map agree with it at every tenor. -/
structure ReadsBack (h : Hash) (fieldPrefix : String) (m : Option (Assoc String ℚ)) : Prop where
  values : ∀ t, valueAt (tenorFields h fieldPrefix) t = valueAt m t
  tenors : tenorSet (tenorFields h fieldPrefix) = tenorSet m

theorem readsBack_of_lookup {fieldPrefix : String} {m : Option (Assoc String ℚ)}
    (hl : ∀ t, h.lookup (fieldPrefix ++ t) =
      (m.bind (·.lookup t)).map fun q => Stored.shown (.num q)) :
    ReadsBack h fieldPrefix m := by
  have hnum : ∀ t, (h.lookup (fieldPrefix ++ t)).map Stored.toNumber = m.bind (·.lookup t) := by
    intro t
    rw [hl t, Option.map_map]
    cases m.bind (·.lookup t) <;> rfl
  constructor
  · intro t
    rw [valueAt_tenorFields, hnum t, valueAt]
  · ext t
    rw [mem_tenorSet, mem_tenorSet, lookup_tenorFields, hnum t]

end Read

end HashLayout
