import Frtb.FinaliserSums
import Frtb.RollupReadout
import Frtb.FieldNames

/-!
# One row on both sides of the finaliser

A well-formed row is read alike by the bulk loader and by ingest. The HASH of
the bulk loader gives the pipeline the raw numbers of the row, padded with
zeros in a per-tenor class; ingest adds the weighted numbers to the rollups of
the row's tuple.
-/

namespace RollupFinaliser

open AssocMaps JsonText EnrichDoc RollupKeys RedisStore RollupDelta RollupContribution SlimWriter
open ApplyExpr
open FastPath (WeightSpec perTenorClasses)
open StorageWriter (lowerCase Casing)

section Loaded
variable {schema : Schema} {row : Row} {cfg : RiskClassConfig}

theorem lookup_padZeros (args : List (String × Stored)) (names : List String) (name : String) :
    (ofPairs (padZeros args names)).lookup name =
      ((ofPairs args).lookup name).or (if name ∈ names then some (.shown (.num 0)) else none) := by
  unfold padZeros
  induction names generalizing args with
  | nil => simp
  | cons n names ih =>
    rw [List.foldl_cons, ih]
    by_cases there : n ∈ args.map Prod.fst
    · rw [if_pos there]
      by_cases same : name = n
      · obtain ⟨v, here⟩ := Option.isSome_iff_exists.mp ((lookup_ofPairs_isSome args n).mpr there)
        rw [same, here, Option.some_or, Option.some_or]
      · simp only [List.mem_cons, same, false_or]
    · rw [if_neg there]
      by_cases same : name = n
      · have padded : (ofPairs [(n, Stored.shown (.num 0))]).lookup n = some (.shown (.num 0)) :=
          lookup_assign_of_mem ∅ (by simp) (by simp)
        rw [same, lookup_ofPairs_append_of_notMem_left there, padded, lookup_ofPairs_eq_none there,
          if_pos List.mem_cons_self]
        rfl
      · rw [lookup_ofPairs_append_of_notMem (by simpa using same)]
        simp only [List.mem_cons, same, false_or]

def slimHash [Casing] (schema : Schema) (row : Row) : Hash :=
  ofPairs (rowToHashFields row (some (buildTenorsByClass schema)))

/-- Rows with ids of their own have HASHes of their own. -/
theorem slimDocs_perm {rows : List Row} (ids : (rows.map Row.id).Nodup) :
    List.Perm (slimDocs schema rows) (rows.map (slimHash schema)) := by
  have loads : bulkLoad schema rows =
      ofPairs (rows.map fun row => ("sens:" ++ row.id, slimHash schema row)) ∧
      (pairs (bulkLoad schema rows)).map Prod.snd = (rows.map (slimHash schema)).reverse := by
    induction rows using List.reverseRecOn with
    | nil => exact ⟨rfl, rfl⟩
    | append_singleton rows row ih =>
      rw [List.map_append, List.map_singleton, List.nodup_append_comm, List.singleton_append,
        List.nodup_cons] at ids
      obtain ⟨store, docs⟩ := ih ids.2
      have fresh : "sens:" ++ row.id ∉ bulkLoad schema rows := by
        rw [store, ofPairs, mem_assign]
        rintro (mem | mem)
        · exact absurd mem (AList.notMem_empty _)
        · obtain ⟨p, hp, same⟩ := List.mem_map.mp mem
          obtain ⟨other, listed, rfl⟩ := List.mem_map.mp hp
          exact ids.1 (List.mem_map.mpr
            ⟨other, listed, (append_left_cancel_iff "sens:" _ _).mp same⟩)
      have put : bulkLoad schema (rows ++ [row]) =
          (bulkLoad schema rows).insert ("sens:" ++ row.id) (slimHash schema row) := by
        simp only [bulkLoad, List.foldl_append, List.foldl_cons, List.foldl_nil]
        have absent := AList.lookup_eq_none.mpr fresh
        rw [bulkLoad] at absent
        rw [absent]
        rfl
      refine ⟨?_, ?_⟩
      · rw [put, store, List.map_append, ofPairs, ofPairs, assign_append]
        rfl
      · rw [put, pairs, AList.entries_insert_of_notMem fresh, List.map_append, List.reverse_append,
          List.map_cons, List.map_cons, ← pairs, docs]
        rfl
  rw [slimDocs, loads.2]
  exact List.reverse_perm _

theorem lookup_slimHash_tag [Casing] {k v : String} (tag : k ∈ tagFields)
    (value : row.tag k = some v) :
    (slimHash schema row).lookup k = some (.shown (.str v)) := by
  have listed : (ofPairs (slimTagArgs row ++ rawArgs row)).lookup k = some (.shown (.str v)) := by
    have absent : k ∉ (rawArgs row).map Prod.fst := by
      intro mem
      obtain ⟨root, _, label, same⟩ := named_of_mem_rawArgs mem
      have stripped := (stripPrefix_eq_some_iff "s_" k _).mpr same
      rw [tagFields_bare k tag] at stripped
      cases stripped
    rw [lookup_ofPairs_append_of_notMem absent, slimTagArgs]
    have here := lookup_ofPairs_filterMap (by decide : tagFields.Nodup)
      (fun k => (row.tag k).map fun v => Stored.shown (.str v)) tag
    simp only [Option.map_map, Function.comp_def] at here
    rw [here, value, Option.map_some]
  obtain ⟨names, padded⟩ := rowToHashFields_padded row (some (buildTenorsByClass schema))
  rw [slimHash, padded, lookup_padZeros, listed]
  rfl

theorem slimHash_tag {k v : String} (tag : k ∈ tagFields) (value : row.tag k = some v) :
    tagOf (slimHash schema row) k = v := by
  rw [tagOf, lookup_slimHash_tag tag value]
  rfl

/-- A class with several fields a leg is padded at all of its nodes. -/
theorem padNodes_of_perTenor (found : schema.riskClasses.lookup row.riskClass = some cfg)
    (perTenor : isPerTenor row.riskClass cfg = true) :
    FieldNames.padNodes schema row = nodesOf cfg := by
  rw [isPerTenor, Bool.and_eq_true, decide_eq_true_eq, decide_eq_true_eq] at perTenor
  have girr : row.riskClass = "GIRR" := List.mem_singleton.mp perTenor.1
  rw [girr] at found
  have upper : StorageWriter.upperCase "GIRR" = "GIRR" := by decide
  obtain ⟨nodes, some_nodes⟩ : ∃ nodes, cfg.tenorNodes = some nodes := by
    cases nodes : cfg.tenorNodes with
    | none => rw [nodesOf, nodes] at perTenor; exact absurd rfl perTenor.2
    | some listed => exact ⟨listed, rfl⟩
  have long : nodes.length > 0 := by
    rw [nodesOf, some_nodes] at perTenor
    exact List.length_pos_iff.mpr perTenor.2
  have table : buildTenorsByClass schema =
      (∅ : Assoc String (List String)).insert "GIRR" nodes := by
    simp only [buildTenorsByClass, slimPerTenorClasses, List.foldl_cons, List.foldl_nil, found,
      Option.bind_some, some_nodes, if_pos long, upper]
  rw [FieldNames.padNodes, girr, upper, table, AList.lookup_insert, nodesOf, some_nodes]

theorem legsBySens_eq (sens : SensitivityType) : legsBySens sens = padLegs sens := by
  cases sens <;> decide

/-- The number under a field of the HASH: a raw one of the row, or a padded zero. -/
def laidCell [Casing] (schema : Schema) (row : Row) (leg : String)
    (label : Option String) : Option ℚ :=
  (row.slimCell leg label).or
    (if leg ∈ padLegs row.sensitivityType ∧ ∃ t ∈ FieldNames.padNodes schema row, label = some t
      then some 0 else none)

theorem lookup_slimHash [Casing] {leg : String} {label : Option String} (known : leg ∈ wsLegs) :
    (slimHash schema row).lookup (slimField (lowerCase row.riskClass) leg label) =
      (laidCell schema row leg label).map shownNum := by
  have raw : (ofPairs (slimTagArgs row ++ rawArgs row)).lookup
      (slimField (lowerCase row.riskClass) leg label) = (row.slimCell leg label).map shownNum := by
    rw [slimField, lookup_slim, ← slimField, lookup_rawArgs row known]
  rw [slimHash, FieldNames.rowToHashFields_eq, lookup_padZeros, raw, laidCell]
  simp only [FieldNames.mem_padFields known]
  cases row.slimCell leg label with
  | some v => rfl
  | none =>
    simp only [Option.map_none, Option.none_or]
    split <;> rfl

/-- The number that the pipeline loads from a field of the row: the raw number
of the row, or a padded zero. -/
theorem fieldOf_slimHash (found : schema.riskClasses.lookup row.riskClass = some cfg) {f : Field}
    (field : f ∈ indexFields row.riskClass cfg row.sensitivityType) :
    fieldOf row.riskClass (slimHash schema row) f =
      if isPerTenor row.riskClass cfg then some ((row.slimCell f.1 f.2).getD 0)
      else row.slimCell f.1 f.2 := by
  obtain ⟨leg, label⟩ := f
  obtain ⟨listed, labelled⟩ := mem_indexFields.mp field
  change label ∈ indexLabels row.riskClass cfg at labelled
  have padLeg : leg ∈ padLegs row.sensitivityType := legsBySens_eq row.sensitivityType ▸ listed
  rw [fieldOf, lookup_slimHash (FieldNames.known_of_padLegs padLeg), laidCell]
  by_cases perTenor : isPerTenor row.riskClass cfg = true
  · rw [if_pos perTenor, padNodes_of_perTenor found perTenor]
    rw [indexLabels, if_pos perTenor] at labelled
    obtain ⟨t, node, rfl⟩ := List.mem_map.mp labelled
    rw [if_pos ⟨padLeg, t, node, rfl⟩]
    cases row.slimCell leg (some t) <;> rfl
  · rw [if_neg perTenor]
    rw [indexLabels, if_neg perTenor, List.mem_singleton] at labelled
    rw [labelled, if_neg fun padded => by simp at padded]
    cases row.slimCell leg none <;> rfl

end Loaded

section Readings
variable {schema : Schema} {row : Row} {cfg : RiskClassConfig} {r : Reading}

/-- The number of a leg. -/
def side (leg : String) (v : ℚ × ℚ) : ℚ := if leg = "cvr_down" then v.2 else v.1

theorem at_scalar (v : ℚ × ℚ) (label : Option String) :
    (Reading.scalar v).at label = if label = none then some v else none := by
  cases label <;> rfl

theorem at_tenors (values : List (String × ℚ × ℚ)) (label : Option String) :
    (Reading.tenors values).at label = label.bind (ofPairs values).lookup := by
  cases label <;> rfl

theorem lookup_paired (ps : List (String × ℚ)) (t : String) :
    (ofPairs (ps.map fun p => (p.1, p.2, (0 : ℚ)))).lookup t =
      ((ofPairs ps).lookup t).map fun v => (v, 0) :=
  lookup_ofPairs_map ps (fun v => (v, 0)) t

/-- A shape of the row's type, by the type and the shape. -/
theorem reading_cases (read : reading row = some r) :
    (row.sensitivityType = .curvature ∧
      ((∃ m v, row.riskValue = .members m ∧ r = .scalar v ∧
          bothOf (m.lookup "cvr_up") (m.lookup "cvr_down") = some v) ∨
        ∃ up down labels, row.riskValue = .curvatureArrays up down ∧ row.listed = some labels ∧
          r = .tenors (labels.zip (up.zip down)))) ∨
    (row.sensitivityType ≠ .curvature ∧
      ((∃ v, row.riskValue = .number v ∧ r = .scalar (v, 0)) ∨
        (∃ m v, row.riskValue = .members m ∧ spotMember m = some v ∧ r = .scalar (v, 0)) ∨
        (∃ m, row.riskValue = .members m ∧ spotMember m = none ∧
          r = .tenors ((pairs m).map fun p => (p.1, p.2, 0))) ∨
        ∃ items labels, row.riskValue = .array items ∧ row.listed = some labels ∧
          r = .tenors ((labels.zip items).map fun p => (p.1, p.2, 0)))) := by
  unfold reading at read
  by_cases own : row.sensitivityType = .curvature
  · refine .inl ⟨own, ?_⟩
    rw [if_pos own] at read
    cases shape : row.riskValue with
    | number v => rw [shape] at read; cases read
    | array items => rw [shape] at read; cases read
    | members m =>
      rw [shape] at read
      obtain ⟨v, both, rfl⟩ := Option.map_eq_some_iff.mp read
      exact .inl ⟨m, v, rfl, rfl, both⟩
    | curvatureArrays up down =>
      rw [shape] at read
      obtain ⟨labels, listed, rfl⟩ := Option.map_eq_some_iff.mp read
      exact .inr ⟨up, down, labels, rfl, listed, rfl⟩
  · refine .inr ⟨own, ?_⟩
    rw [if_neg own] at read
    cases shape : row.riskValue with
    | number v =>
      rw [shape] at read
      exact .inl ⟨v, rfl, (Option.some.inj read).symm⟩
    | array items =>
      rw [shape] at read
      obtain ⟨labels, listed, rfl⟩ := Option.map_eq_some_iff.mp read
      exact .inr (.inr (.inr ⟨items, labels, rfl, listed, rfl⟩))
    | members m =>
      rw [shape] at read
      dsimp only at read
      cases spot : spotMember m with
      | some v =>
        rw [spot] at read
        exact .inr (.inl ⟨m, v, rfl, spot, (Option.some.inj read).symm⟩)
      | none =>
        rw [spot] at read
        exact .inr (.inr (.inl ⟨m, rfl, spot, (Option.some.inj read).symm⟩))
    | curvatureArrays up down => rw [shape] at read; cases read

/-- What the bulk loader reads from the row. -/
theorem slimCell_reading (read : reading row = some r) {leg : String} {label : Option String}
    (listed : leg ∈ legsBySens row.sensitivityType) :
    row.slimCell leg label = (r.at label).map (side leg) := by
  rw [Row.slimCell, Row.cell]
  rcases reading_cases read with ⟨own, shape⟩ | ⟨other, shape⟩
  · have legs : leg = "cvr_up" ∨ leg = "cvr_down" := by
      rw [own] at listed
      simpa [legsBySens] using listed
    have sided : ∀ v, sideOf leg v = some (side leg v) := by
      intro v
      rcases legs with rfl | rfl <;> rfl
    rw [if_pos own]
    rcases shape with ⟨m, v, shape, rfl, both⟩ | ⟨up, down, labels, shape, list, rfl⟩
    · rw [shape, at_scalar]
      dsimp only
      rw [both]
      split
      · exact sided v
      · rfl
    · rw [shape, at_tenors, list, Option.getD_some]
      dsimp only
      cases label.bind (ofPairs (labels.zip (up.zip down))).lookup with
      | none => rfl
      | some v => exact sided v
  · have legs : leg = scalarRoot row.sensitivityType := by
      cases sens : row.sensitivityType with
      | curvature => exact absurd sens other
      | delta => rw [sens] at listed; exact List.mem_singleton.mp listed
      | vega => rw [sens] at listed; exact List.mem_singleton.mp listed
    have up : side leg = Prod.fst := by
      funext v
      rw [legs, side, if_neg]
      cases row.sensitivityType <;> decide
    rw [if_neg other, if_pos legs, up]
    rcases shape with ⟨v, shape, rfl⟩ | ⟨m, v, shape, spot, rfl⟩ | ⟨m, shape, spot, rfl⟩ |
      ⟨items, labels, shape, list, rfl⟩
    · rw [shape, at_scalar]
      dsimp only
      split <;> rfl
    · rw [shape, at_scalar]
      dsimp only
      rw [spot]
      dsimp only
      split <;> rfl
    · rw [shape, at_tenors]
      dsimp only
      rw [spot]
      cases label with
      | none => rfl
      | some t =>
        rw [Option.bind_some, Option.bind_some, lookup_paired, lookup_ofPairs_pairs]
        cases m.lookup t <;> rfl
    · rw [shape, at_tenors, list, Option.getD_some]
      dsimp only
      cases label with
      | none => rfl
      | some t =>
        rw [Option.bind_some, Option.bind_some, lookup_paired]
        cases (ofPairs (labels.zip items)).lookup t <;> rfl

/-- The row's value under the base key: its scalar, or the sum over its tenors. -/
def Reading.base (weight : Option String → ℚ) : Reading → ℚ × ℚ
  | .scalar v => (weight none * v.1, weight none * v.2)
  | .tenors values => ((values.map fun p => weight (some p.1) * p.2.1).sum,
      (values.map fun p => weight (some p.1) * p.2.2).sum)

theorem numericMembers_reverse (l : List (String × Json)) :
    numericMembers l.reverse = (numericMembers l).reverse := by
  rw [numericMembers, List.filterMap_reverse, numericMembers]

theorem numericMembers_num (ps : List (String × ℚ)) :
    numericMembers (ps.map fun p => (p.1, Json.num p.2)) = ps := by
  induction ps with
  | nil => rfl
  | cons p ps ih =>
    rw [List.map_cons, numericMembers, List.filterMap_cons]
    exact congrArg (p :: ·) ih

/-- The map that ingest makes of a Delta or Vega row. -/
theorem enriched_tenors {weight : Option String → ℚ} {ps : List (String × ℚ)}
    {out : List (String × ℚ)}
    (perm : List.Perm out (ps.map fun p => (p.1, weight (some p.1) * p.2)))
    (same : ∀ t, (ofPairs out).lookup t = ((ofPairs ps).lookup t).map (weight (some t) * ·)) :
    let doc := putTenors row.stamped "weighted_value" out
    numAt doc "weighted_value" =
        some (Reading.base weight (.tenors (ps.map fun p => (p.1, p.2, 0)))).1 ∧
      ∃ m, tenorMapAt doc "weighted_value_per_tenor" = some m ∧ ∀ t, m.lookup t =
        ((Reading.tenors (ps.map fun p => (p.1, p.2, 0))).at (some t)).map
          fun v => weight (some t) * v.1 := by
  refine ⟨?_, ?_⟩
  · rw [putTenors, numAt, AList.lookup_insert]
    refine congrArg some ?_
    rw [(perm.map Prod.snd).sum_eq, Reading.base, List.map_map, List.map_map]
    rfl
  · obtain ⟨m, stored, reads⟩ := tenorMapAt_putTenors row.stamped "weighted_value" out
    refine ⟨m, stored, fun t => ?_⟩
    rw [reads, same, at_tenors, Option.bind_some, lookup_paired]
    cases (ofPairs ps).lookup t <;> rfl

/-- What ingest stores for a Delta or Vega row. -/
theorem enriched_scalarRow (found : row.classIn schema = some cfg)
    (other : row.sensitivityType ≠ .curvature) (read : reading row = some r) :
    let doc := enrichDoc row.doc (some schema)
    numAt doc "weighted_value" = some (r.base (row.weight schema cfg)).1 ∧
      ∀ t, ((tenorMapAt doc "weighted_value_per_tenor").getD ∅).lookup t =
        (r.at (some t)).map fun v => row.weight schema cfg (some t) * v.1 := by
  have value : ∀ v, numAt (row.stamped.insert "weighted_value"
        (.num (row.weight schema cfg none * v))) "weighted_value" =
          some ((Reading.scalar (v, 0)).base (row.weight schema cfg)).1 ∧
      ∀ t, ((tenorMapAt (row.stamped.insert "weighted_value"
        (.num (row.weight schema cfg none * v)))
          "weighted_value_per_tenor").getD ∅).lookup t =
        ((Reading.scalar (v, 0)).at (some t)).map fun v =>
          row.weight schema cfg (some t) * v.1 := by
    intro v
    refine ⟨by rw [numAt, AList.lookup_insert]; rfl, fun t => ?_⟩
    rw [tenorMapAt_eq_none (by
      rw [AList.lookup_insert_ne (by decide), lookup_stamped (by decide)])]
    rfl
  have tenors : ∀ ps out, List.Perm out (ps.map fun p =>
        (p.1, row.weight schema cfg (some p.1) * p.2)) →
      (∀ t, (ofPairs out).lookup t =
        ((ofPairs ps).lookup t).map (row.weight schema cfg (some t) * ·)) →
      numAt (putTenors row.stamped "weighted_value" out) "weighted_value" =
          some ((Reading.tenors (ps.map fun p => (p.1, p.2, 0))).base (row.weight schema cfg)).1 ∧
        ∀ t, ((tenorMapAt (putTenors row.stamped "weighted_value" out)
          "weighted_value_per_tenor").getD ∅).lookup t =
          ((Reading.tenors (ps.map fun p => (p.1, p.2, 0))).at (some t)).map
            fun v => row.weight schema cfg (some t) * v.1 := by
    intro ps out perm same
    obtain ⟨scalar, m, map, reads⟩ := @enriched_tenors row _ ps out perm same
    refine ⟨scalar, fun t => ?_⟩
    rw [map, Option.getD_some]
    exact reads t
  rw [enrichDoc_doc found]
  rcases reading_cases read with ⟨own, _⟩ | ⟨_, shape⟩
  · exact absurd own other
  rcases shape with ⟨v, shape, rfl⟩ | ⟨m, v, shape, spot, rfl⟩ | ⟨m, shape, spot, rfl⟩ |
    ⟨items, labels, shape, list, rfl⟩
  · rw [shape]
    exact value v
  · rw [shape]
    simp only [SensitivityRiskValue.toJson, if_neg other, enrichObject, spotOf_jsonMembers, spot]
    exact value v
  · rw [shape]
    simp only [SensitivityRiskValue.toJson, if_neg other, enrichObject, spotOf_jsonMembers, spot]
    have nodup : (((pairs m).map fun p => (p.1, Json.num p.2)).map Prod.fst).Nodup := by
      rw [List.map_map]
      exact (map_fst_pairs m).symm ▸ m.keys_nodup
    refine tenors (pairs m) _ ?_ ?_
    · rw [pairs_ofPairs nodup, weighTenors, numericMembers_reverse, numericMembers_num]
      exact (List.reverse_perm _).map _
    · intro t
      rw [lookup_weighTenors, lookup_numericMembers_json, lookup_ofPairs_pairs]
  · rw [shape, list]
    simp only [SensitivityRiskValue.toJson, Option.elim_some, enrichArray]
    refine tenors (labels.zip items) _ ?_ ?_
    · rw [weighTenors, numericMembers_zip]
    · intro t
      rw [lookup_weighTenors, numericMembers_zip]

/-- What ingest stores for a curvature row. -/
theorem enriched_curvatureRow (found : row.classIn schema = some cfg)
    (own : row.sensitivityType = .curvature) (along : AlongNodes cfg row)
    (read : reading row = some r) :
    let doc := enrichDoc row.doc (some schema)
    bothOf (numAt doc "weighted_cvr_up") (numAt doc "weighted_cvr_down") =
        some (r.base (row.weight schema cfg)) ∧
      ∀ t, ((tenorMapAt doc "weighted_cvr_up_per_tenor").getD ∅).lookup t =
          ((r.at (some t)).map fun v => row.weight schema cfg (some t) * v.1) ∧
        ((tenorMapAt doc "weighted_cvr_down_per_tenor").getD ∅).lookup t =
          (r.at (some t)).map fun v => row.weight schema cfg (some t) * v.2 := by
  have bare : ∀ name ∈ ["weighted_cvr_up_per_tenor", "weighted_cvr_down_per_tenor"],
      row.stamped.lookup name = none :=
    fun name listed => lookup_stamped (by revert name; decide)
  rw [enrichDoc_doc found]
  rcases reading_cases read with ⟨_, shape⟩ | ⟨other, _⟩
  · rcases shape with ⟨m, v, shape, rfl, both⟩ | ⟨up, down, labels, shape, list, rfl⟩
    · obtain ⟨u, up, both⟩ := Option.bind_eq_some_iff.mp both
      obtain ⟨d, down, rfl⟩ := Option.map_eq_some_iff.mp both
      rw [shape]
      simp only [SensitivityRiskValue.toJson, if_pos own, enrichCurvature, lookup_jsonMembers, up,
        down, Option.map_some]
      refine ⟨?_, fun t => ⟨?_, ?_⟩⟩
      · rw [numAt, numAt, AList.lookup_insert, AList.lookup_insert_ne (by decide),
          AList.lookup_insert]
        rfl
      · rw [tenorMapAt_eq_none]
        · rfl
        · rw [AList.lookup_insert_ne (by decide), AList.lookup_insert_ne (by decide),
            bare _ (by simp)]
      · rw [tenorMapAt_eq_none]
        · rfl
        · rw [AList.lookup_insert_ne (by decide), AList.lookup_insert_ne (by decide),
            bare _ (by simp)]
    · rw [AlongNodes, shape] at along
      obtain ⟨nodes, some_nodes, same⟩ := along
      rw [list, Option.getD_some] at same
      rw [shape, some_nodes]
      simp only [SensitivityRiskValue.toJson, if_pos own, enrichCurvature,
        (lookup_cvrArrays _ _).1, (lookup_cvrArrays _ _).2]
      rw [zip_numbers, same, List.map_map, List.map_map]
      obtain ⟨ups, upStored, upReads⟩ := tenorMapAt_putTenors row.stamped "weighted_cvr_up"
        ((labels.zip (up.zip down)).map fun r => (r.1, row.weight schema cfg (some r.1) * r.2.1))
      obtain ⟨downs, downStored, downReads⟩ := tenorMapAt_putTenors
        (putTenors row.stamped "weighted_cvr_up" ((labels.zip (up.zip down)).map fun r =>
          (r.1, row.weight schema cfg (some r.1) * r.2.1))) "weighted_cvr_down"
        ((labels.zip (up.zip down)).map fun r => (r.1, row.weight schema cfg (some r.1) * r.2.2))
      have upKept : tenorMapAt (putTenors (putTenors row.stamped "weighted_cvr_up"
          ((labels.zip (up.zip down)).map fun r =>
            (r.1, row.weight schema cfg (some r.1) * r.2.1))) "weighted_cvr_down"
          ((labels.zip (up.zip down)).map fun r => (r.1, row.weight schema cfg (some r.1) * r.2.2)))
          "weighted_cvr_up_per_tenor" = some ups :=
        (tenorMapAt_congr (ParentChild.lookup_putTenors_of_ne _ (by decide))).trans upStored
      refine ⟨?_, fun t => ⟨?_, ?_⟩⟩
      · rw [@numAt_congr _ _ "weighted_cvr_up"
          (ParentChild.lookup_putTenors_of_ne _ (by decide)), numAt, numAt, putTenors, putTenors,
          AList.lookup_insert, AList.lookup_insert]
        simp only [bothOf, Option.bind_some, Option.map_some, Reading.base, List.map_map,
          Function.comp_def, asNumber]
      · refine (congrArg (fun o => (Option.getD o ∅).lookup t) upKept).trans ?_
        rw [Option.getD_some, upReads, lookup_ofPairs_weighed (labels.zip (up.zip down))
          (fun t v => row.weight schema cfg (some t) * v.1), at_tenors, Option.bind_some]
      · refine (congrArg (fun o => (Option.getD o ∅).lookup t) downStored).trans ?_
        rw [Option.getD_some, downReads, lookup_ofPairs_weighed (labels.zip (up.zip down))
          (fun t v => row.weight schema cfg (some t) * v.2), at_tenors, Option.bind_some]
  · exact absurd own other

end Readings

section Increments
variable {schema : Schema} {row : Row} {cfg : RiskClassConfig} {r : Reading} {field : String}

/-- What a row that carries `v` adds to a field. -/
def term (sens : SensitivityType) (field : String) (v : ℚ × ℚ) : ℚ :=
  if sens = .curvature then curvatureTerm field v else scalarTerm field v.1

def tagsOf (row : Row) : RowTags := ⟨row.riskClass, row.bucket, row.sensitivityType.text⟩

theorem rowTags_enriched (formed : WellFormedRow schema row) :
    rowTags (enrichDoc row.doc (some schema)) = some (tagsOf row) := by
  have kept : ∀ k ∈ ["risk_class", "bucket", "sensitivity_type"],
      strAt (enrichDoc row.doc (some schema)) k = row.tag k := by
    have apart : ∀ k ∈ ["risk_class", "bucket", "sensitivity_type"],
        k ≠ "_calibration" ∧ k ∈ tagFields ∧ ∀ name ∈ weightedNames, k ≠ name := by decide
    intro k listed
    obtain ⟨calibration, tag, other⟩ := apart k listed
    refine enrichDoc_keeps (P := fun d => strAt d k = row.tag k) ?_ ?_
    · rw [strAt, AList.lookup_insert_ne calibration, lookup_doc_tag tag]
      cases row.tag k <;> rfl
    · intro d name v same weighted
      rw [strAt, AList.lookup_insert_ne (other name weighted)]
      exact same
  have present : ¬(row.riskClass = "" ∨ row.bucket = "" ∨ row.sensitivityType.text = "") := by
    obtain ⟨cfg, found, _⟩ := formed.classed
    rintro (empty | empty | empty)
    · exact classIn_present found empty
    · exact formed.bucketed empty
    · revert empty
      cases row.sensitivityType <;> decide
  rw [rowTags, kept _ (by simp), kept _ (by simp), kept _ (by simp)]
  simp only [Row.tag, String.reduceEq, if_true, if_false, Option.bind_eq_bind, Option.bind_some,
    if_neg present]
  rfl

theorem bind_lookup (m : Option (Assoc String ℚ)) (t : String) :
    m.bind (·.lookup t) = (m.getD ∅).lookup t := by
  cases m <;> rfl

theorem increments_row_base (formed : WellFormedRow schema row)
    (found : row.classIn schema = some cfg) (along : AlongNodes cfg row)
    (read : reading row = some r) :
    increments (emitRollupHincrs (enrichDoc row.doc (some schema))) ((tagsOf row).key none) field =
      term row.sensitivityType field (r.base (row.weight schema cfg)) := by
  have tags := rowTags_enriched formed
  rw [term]
  by_cases own : row.sensitivityType = .curvature
  · rw [if_pos own, RollupReadout.increments_curvatureRow_base tags (text_eq_curvature.mpr own),
      (enriched_curvatureRow found own along read).1]
    rfl
  · rw [if_neg own, RollupReadout.increments_scalarRow_base tags
      (fun text => own (text_eq_curvature.mp text)), (enriched_scalarRow found own read).1]
    rfl

theorem increments_row_tenor (formed : WellFormedRow schema row)
    (found : row.classIn schema = some cfg) (along : AlongNodes cfg row)
    (read : reading row = some r) (t : String) :
    increments (emitRollupHincrs (enrichDoc row.doc (some schema))) ((tagsOf row).key (some t))
        field =
      ((r.at (some t)).map fun v => term row.sensitivityType field
        (row.weight schema cfg (some t) * v.1, row.weight schema cfg (some t) * v.2)).getD 0 := by
  have tags := rowTags_enriched formed
  by_cases own : row.sensitivityType = .curvature
  · obtain ⟨up, down⟩ := (enriched_curvatureRow found own along read).2 t
    rw [RollupReadout.increments_curvatureRow_tenor tags (text_eq_curvature.mpr own), bind_lookup,
      bind_lookup, up, down]
    cases r.at (some t) with
    | none => rfl
    | some v => simp [bothOf, term, own]
  · obtain ⟨_, map⟩ := enriched_scalarRow found own read
    rw [RollupReadout.increments_scalarRow_tenor tags
      (fun text => own (text_eq_curvature.mp text)), bind_lookup, map]
    cases r.at (some t) with
    | none => rfl
    | some v => simp [term, own]

end Increments

end RollupFinaliser
