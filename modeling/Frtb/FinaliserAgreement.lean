import Frtb.FinaliserRows
import Frtb.Library.WeightedSums

/-!
# The finaliser against incremental ingest

The names of well-formed rows keep the rollup keys apart, so each key belongs to
one class, bucket, type and tenor. There the finaliser writes sums over the rows
of the tuple and ingest has added their terms. The counts agree exactly where
each row counts on both sides; then the sums agree as well, except for Delta
weights that an old search module leaves out.
-/

namespace RollupFinaliser

open AssocMaps JsonText EnrichDoc RollupKeys RedisStore RollupDelta RollupContribution SlimWriter
open ApplyExpr DelimitedNames WeightedSums
open FastPath (WeightSpec perTenorClasses)

section Keys

/-- What follows the bucket in a key. -/
def keyTail (sens : String) (label : Option String) : String :=
  match label with
  | some t => join ':' sens ("tenor:" ++ t)
  | none => sens

theorem rollupKey_join (rc b sens : String) (label : Option String) :
    rollupKey rc b sens label = join ':' "rollup"
      (join ':' rc (join ':' b (keyTail sens label))) := by
  apply String.toList_injective
  cases label <;> simp [rollupKey, join, keyTail]

theorem text_free (sens : SensitivityType) : Free ':' sens.text := by
  cases sens <;> decide

theorem text_injective {sens sens' : SensitivityType} (same : sens.text = sens'.text) :
    sens = sens' := by
  cases sens <;> cases sens' <;> first | rfl | exact absurd same (by decide)

theorem keyTail_inj {sens sens' : SensitivityType} {label label' : Option String}
    (same : keyTail sens.text label = keyTail sens'.text label') :
    sens = sens' ∧ label = label' := by
  have split : ∀ (s : SensitivityType) (a x : String), s.text ≠ join ':' a x := by
    intro s a x whole
    have free := text_free s
    rw [whole, Free, toList_join] at free
    simp at free
  cases label with
  | none =>
    cases label' with
    | none => exact ⟨text_injective same, rfl⟩
    | some t' => exact absurd same (split _ _ _)
  | some t =>
    cases label' with
    | none => exact absurd same.symm (split _ _ _)
    | some t' =>
      obtain ⟨texts, tenors⟩ := join_inj_left (text_free sens) (text_free sens') same
      exact ⟨text_injective texts, by rw [(append_left_cancel_iff "tenor:" t t').mp tenors]⟩

/-- Names without a separator keep the keys apart. -/
theorem rollupKey_inj {rc b rc' b' : String} {sens sens' : SensitivityType}
    {label label' : Option String} (free : Free ':' rc ∧ Free ':' b)
    (free' : Free ':' rc' ∧ Free ':' b')
    (same : rollupKey rc b sens.text label = rollupKey rc' b' sens'.text label') :
    rc = rc' ∧ b = b' ∧ sens = sens' ∧ label = label' := by
  rw [rollupKey_join, rollupKey_join] at same
  have rollup : Free ':' "rollup" := by decide
  obtain ⟨_, rest⟩ := join_inj_left rollup rollup same
  obtain ⟨classes, rest⟩ := join_inj_left free.1 free'.1 rest
  obtain ⟨buckets, tails⟩ := join_inj_left free.2 free'.2 rest
  obtain ⟨types, labels⟩ := keyTail_inj tails
  exact ⟨classes, buckets, types, labels⟩

end Keys

section Ingested
variable {schema : Schema} {rows : List Row} {rc b field : String} {sens : SensitivityType}
  {label : Option String}

/-- What a row adds under a key of its own tuple. -/
def adds (schema : Schema) (row : Row) (label : Option String) (field : String) : ℚ :=
  increments (emitRollupHincrs (enrichDoc row.doc (some schema))) ((tagsOf row).key label) field

theorem mem_tupleRows {row : Row} : row ∈ tupleRows rows rc b sens ↔
    row ∈ rows ∧ row.riskClass = rc ∧ row.bucket = b ∧ row.sensitivityType = sens := by
  simp [tupleRows]

theorem key_of_mem {row : Row} (mem : row ∈ tupleRows rows rc b sens) (label : Option String) :
    (tagsOf row).key label = rollupKey rc b sens.text label := by
  obtain ⟨_, rfl, rfl, rfl⟩ := mem_tupleRows.mp mem
  rfl

theorem ingested_eq (key field : String) :
    ingested schema rows key field = (rows.map fun row =>
      increments (emitRollupHincrs (enrichDoc row.doc (some schema))) key field).sum := by
  rw [ingested, rollups_exec, increments_flatMap]
  exact zero_add _

/-- The rows of a tuple add up under its keys. -/
theorem ingested_at (formed : ∀ row ∈ rows, WellFormedRow schema row)
    (free : Free ':' rc ∧ Free ':' b) :
    ingested schema rows (rollupKey rc b sens.text label) field =
      ((tupleRows rows rc b sens).map fun row => adds schema row label field).sum := by
  have own : ((tupleRows rows rc b sens).map fun row => adds schema row label field) =
      (tupleRows rows rc b sens).map fun row =>
        increments (emitRollupHincrs (enrichDoc row.doc (some schema)))
          (rollupKey rc b sens.text label) field := by
    refine List.map_congr_left fun row mem => ?_
    rw [adds, key_of_mem mem]
  rw [ingested_eq, own, tupleRows, RollupReadout.sum_map_filter]
  intro row mem other
  apply RollupReadout.increments_of_other_key
  intro tags tagged label' same
  rw [rowTags_enriched (formed row mem), Option.some.injEq] at tagged
  subst tagged
  obtain ⟨classes, buckets, types, _⟩ := rollupKey_inj (formed row mem).plain free same
  exact absurd ⟨classes, buckets, types⟩ (of_decide_eq_false other)

/-- A key that belongs to no row is not written by ingest. -/
theorem ingested_of_other {key : String} (formed : ∀ row ∈ rows, WellFormedRow schema row)
    (other : ∀ row ∈ rows, ∀ label, (tagsOf row).key label ≠ key) :
    ingested schema rows key field = 0 := by
  rw [ingested_eq]
  refine List.sum_eq_zero ?_
  intro x mem
  obtain ⟨row, listed, rfl⟩ := List.mem_map.mp mem
  apply RollupReadout.increments_of_other_key
  intro tags tagged label
  rw [rowTags_enriched (formed row listed), Option.some.injEq] at tagged
  subst tagged
  exact other row listed label

end Ingested

section Replies
variable {schema : Schema} {rows : List Row} {rc b : String} {cfg : RiskClassConfig}
  {sens : SensitivityType} {searchVer : ℕ}

theorem row_tags (schema : Schema) (row : Row) :
    tagOf (slimHash schema row) "risk_class" = row.riskClass ∧
      tagOf (slimHash schema row) "bucket" = row.bucket ∧
      tagOf (slimHash schema row) "sensitivity_type" = row.sensitivityType.text :=
  ⟨slimHash_tag (by decide) rfl, slimHash_tag (by decide) rfl, slimHash_tag (by decide) rfl⟩

def classRows (rows : List Row) (rc : String) (sens : SensitivityType) : List Row :=
  rows.filter fun row => row.riskClass = rc ∧ row.sensitivityType = sens

theorem found_of_classed {row : Row} {cfg : RiskClassConfig}
    (classed : row.classIn schema = some cfg) :
    schema.riskClasses.lookup row.riskClass = some cfg := by
  rw [Row.classIn, if_neg (classIn_present classed)] at classed
  exact classed

/-- Among the classes of a schema, the query finds the rows of its own class and type. -/
theorem matchesQuery_row (formed : WellFormed schema rows)
    (found : schema.riskClasses.lookup rc = some cfg) {row : Row} (mem : row ∈ rows) :
    matchesQuery rc sens (slimHash schema row) =
      decide (row.riskClass = rc ∧ row.sensitivityType = sens) := by
  obtain ⟨cls, _, type⟩ := row_tags schema row
  obtain ⟨own, classed, _⟩ := (formed.rows row mem).classed
  have key : rc ∈ schema.riskClasses.keys := AList.lookup_isSome.mp (by rw [found]; rfl)
  have listed : row.riskClass ∈ schema.riskClasses.keys :=
    AList.lookup_isSome.mp (by rw [found_of_classed classed]; rfl)
  have types : ∀ a b : SensitivityType,
      StorageWriter.upperCase a.text = StorageWriter.upperCase b.text → a = b := by
    intro a b
    cases a <;> cases b <;> decide
  rw [matchesQuery, cls, type, Bool.decide_and]
  congr 1
  · exact decide_eq_decide.mpr ⟨formed.spelled _ listed _ key, fun same => by rw [same]⟩
  · exact decide_eq_decide.mpr ⟨types _ _, fun same => by rw [same]⟩

/-- The documents of a query are the rows of the class and type. -/
theorem matching_perm (formed : WellFormed schema rows)
    (found : schema.riskClasses.lookup rc = some cfg) :
    List.Perm ((slimDocs schema rows).filter (matchesQuery rc sens))
      ((classRows rows rc sens).map (slimHash schema)) := by
  refine ((slimDocs_perm formed.ids).filter _).trans ?_
  rw [List.filter_map, classRows]
  refine List.Perm.of_eq (congrArg _ (List.filter_congr ?_))
  intro row mem
  exact matchesQuery_row formed found mem

theorem classRows_bucket : (classRows rows rc sens).filter (fun row => row.bucket = b) =
    tupleRows rows rc b sens := by
  rw [classRows, tupleRows, List.filter_filter]
  refine List.filter_congr fun row _ => ?_
  simp only [Bool.decide_and, Bool.and_left_comm]

/-- The reply row of a bucket. -/
def replyOf (schema : Schema) (searchVer : ℕ) (rows : List Row) (rc : String)
    (cfg : RiskClassConfig) (sens : SensitivityType) (b : String) : ReplyRow :=
  groupRow (aggregateArgs schema rc cfg sens searchVer) rc b
    (((slimDocs schema rows).filter (matchesQuery rc sens)).filter fun d => tagOf d "bucket" = b)

/-- The buckets that the reply has room for. -/
def keptBuckets (schema : Schema) (rows : List Row) (rc : String) (sens : SensitivityType) :
    List String :=
  ((((slimDocs schema rows).filter (matchesQuery rc sens)).map fun d =>
    tagOf d "bucket").dedup).take replyLimit

theorem buckets_perm (formed : WellFormed schema rows)
    (found : schema.riskClasses.lookup rc = some cfg) :
    List.Perm (((slimDocs schema rows).filter (matchesQuery rc sens)).map fun d => tagOf d "bucket")
      ((classRows rows rc sens).map Row.bucket) := by
  refine ((matching_perm formed found).map _).trans (List.Perm.of_eq ?_)
  rw [List.map_map]
  exact List.map_congr_left fun row _ => (row_tags schema row).2.1

theorem kept_row (formed : WellFormed schema rows)
    (found : schema.riskClasses.lookup rc = some cfg) (kept : b ∈ keptBuckets schema rows rc sens) :
    ∃ row ∈ rows, row.riskClass = rc ∧ row.bucket = b ∧ row.sensitivityType = sens := by
  have mem := (buckets_perm formed found).mem_iff.mp (List.mem_dedup.mp (List.mem_of_mem_take kept))
  obtain ⟨row, listed, rfl⟩ := List.mem_map.mp mem
  rw [classRows, List.mem_filter, decide_eq_true_eq] at listed
  exact ⟨row, listed.1, listed.2.1, rfl, listed.2.2⟩

/-- A number of the reply adds the values of the tuple's rows up. -/
theorem replyOf_number (formed : WellFormed schema rows)
    (found : schema.riskClasses.lookup rc = some cfg) (name : SumName)
    (asked : Asked rc cfg sens name) :
    (replyOf schema searchVer rows rc cfg sens b).number name =
      ((tupleRows rows rc b sens).map fun row => (valueOf schema rc cfg sens searchVer
        (fieldOf rc (slimHash schema row)) (srcOf name)).getD 0).sum := by
  rw [replyOf, groupRow_number asked, ← classRows_bucket]
  have docs : List.Perm
      (((slimDocs schema rows).filter (matchesQuery rc sens)).filter fun d => tagOf d "bucket" = b)
      (((classRows rows rc sens).filter fun row => row.bucket = b).map (slimHash schema)) := by
    refine ((matching_perm formed found).filter _).trans (List.Perm.of_eq ?_)
    rw [List.filter_map]
    refine congrArg _ (List.filter_congr fun row _ => ?_)
    rw [Function.comp_apply, (row_tags schema row).2.1]
  rw [(docs.map _).sum_eq, List.map_map]
  rfl

end Replies

section Written
variable {schema : Schema} {rows : List Row} {rc b field : String} {cfg : RiskClassConfig}
  {sens : SensitivityType} {searchVer : ℕ} {label : Option String}

/-- Writes that agree under a key leave their fields there. -/
theorem foldl_hset {ws : List Write} {key : String} {fields : List (String × ℚ)}
    (same : ∀ w ∈ ws, w.1 = key → w.2 = fields) (written : ∃ w ∈ ws, w.1 = key) (s : Rollups) :
    ws.foldl hset s key field = ((ofPairs fields).lookup field).getD (s key field) := by
  have later : ∀ (ws : List Write) (s : Rollups), (∀ w ∈ ws, w.1 = key → w.2 = fields) →
      s key field = ((ofPairs fields).lookup field).getD (s key field) →
      ws.foldl hset s key field = s key field := by
    intro ws
    induction ws with
    | nil => exact fun _ _ _ => rfl
    | cons w ws ih =>
      intro s same settled
      have step : hset s w key field = s key field := by
        unfold hset
        split
        · rename_i own
          rw [same w List.mem_cons_self own.symm]
          exact settled.symm
        · rfl
      rw [List.foldl_cons, ih _ (fun w mem => same w (List.mem_cons_of_mem _ mem)), step]
      rw [step]
      exact settled
  induction ws generalizing s with
  | nil =>
    obtain ⟨w, mem, _⟩ := written
    cases mem
  | cons w ws ih =>
    rw [List.foldl_cons]
    by_cases own : w.1 = key
    · have step : hset s w key field = ((ofPairs fields).lookup field).getD (s key field) := by
        rw [hset, if_pos own.symm, same w List.mem_cons_self own]
      rw [later ws _ (fun w mem => same w (List.mem_cons_of_mem _ mem)), step]
      rw [step]
      cases (ofPairs fields).lookup field <;> rfl
    · have step : hset s w key field = s key field := by
        rw [hset, if_neg fun h => own h.symm]
      have rest : ∃ w ∈ ws, w.1 = key := by
        obtain ⟨w', mem, here⟩ := written
        rcases List.mem_cons.mp mem with rfl | mem
        · exact absurd here own
        · exact ⟨w', mem, here⟩
      rw [ih (fun w mem => same w (List.mem_cons_of_mem _ mem)) rest, step]

theorem foldl_hset_other {ws : List Write} {key : String} (other : ∀ w ∈ ws, w.1 ≠ key)
    (s : Rollups) : ws.foldl hset s key field = s key field := by
  induction ws generalizing s with
  | nil => rfl
  | cons w ws ih =>
    rw [List.foldl_cons, ih fun w mem => other w (List.mem_cons_of_mem _ mem), hset,
      if_neg fun h => other w List.mem_cons_self h.symm]

/-- The write of a bucket under the base key or under a tenor key. -/
def writeAt (schema : Schema) (rc : String) (cfg : RiskClassConfig) (sens : SensitivityType)
    (row : ReplyRow) (label : Option String) : Option Write :=
  match label with
  | none => some (scalarWrite schema rc cfg sens row)
  | some t => if some t ∈ indexLabels rc cfg then tenorWrite schema rc cfg sens row t else none

theorem key_of_writeAt {row : ReplyRow} {w : Write}
    (written : writeAt schema rc cfg sens row label = some w) :
    w.1 = rollupKey rc row.bucket sens.text label := by
  cases label with
  | none =>
    cases written
    rfl
  | some t =>
    unfold writeAt tenorWrite at written
    dsimp only at written
    split at written
    · split at written
      · cases written
      · cases written
        rfl
    · cases written

theorem mem_bucketWrites {row : ReplyRow} {w : Write} (bucketed : row.bucket ≠ "") :
    w ∈ bucketWrites schema rc cfg sens row ↔
      ∃ label, writeAt schema rc cfg sens row label = some w := by
  have tenors : (∃ t, writeAt schema rc cfg sens row (some t) = some w) ↔
      w ∈ if isPerTenor rc cfg then (nodesOf cfg).filterMap (tenorWrite schema rc cfg sens row)
        else [] := by
    unfold writeAt indexLabels
    by_cases perTenor : isPerTenor rc cfg = true
    · simp only [if_pos perTenor, List.mem_filterMap, List.mem_map, Option.some.injEq,
        exists_eq_right]
      constructor
      · rintro ⟨t, made⟩
        split at made
        · rename_i node
          exact ⟨t, node, made⟩
        · cases made
      · rintro ⟨t, node, made⟩
        exact ⟨t, by rw [if_pos node]; exact made⟩
    · simp [perTenor]
  rw [bucketWrites, if_neg bucketed, List.mem_cons, ← tenors]
  constructor
  · rintro (rfl | ⟨t, made⟩)
    · exact ⟨none, rfl⟩
    · exact ⟨some t, made⟩
  · rintro ⟨_ | t, made⟩
    · exact .inl (Option.some.inj made).symm
    · exact .inr ⟨t, made⟩

/-- The writes of a run, bucket by bucket and key by key. -/
theorem mem_finalise {w : Write} (formed : WellFormed schema rows) :
    w ∈ finalise schema searchVer (slimDocs schema rows) ↔
      ∃ rc cfg sens b label, schema.riskClasses.lookup rc = some cfg ∧
        b ∈ keptBuckets schema rows rc sens ∧
        writeAt schema rc cfg sens
          (replyOf schema searchVer rows rc cfg sens b) label = some w := by
  have all : ∀ sens : SensitivityType, sens ∈ sensTypes := by
    intro sens
    cases sens <;> decide
  have filled : ∀ {rc cfg sens b}, schema.riskClasses.lookup rc = some cfg →
      b ∈ keptBuckets schema rows rc sens → b ≠ "" := by
    intro rc cfg sens b found kept
    obtain ⟨row, mem, _, rfl, _⟩ := kept_row formed found kept
    exact (formed.rows row mem).bucketed
  simp only [finalise, List.mem_flatMap]
  constructor
  · rintro ⟨rc, _, sens, _, mem⟩
    unfold finaliseRcSens at mem
    cases found : schema.riskClasses.lookup rc with
    | none => rw [found] at mem; cases mem
    | some cfg =>
      rw [found] at mem
      obtain ⟨reply, listed, mem⟩ := List.mem_flatMap.mp mem
      obtain ⟨b, kept, rfl⟩ := List.mem_map.mp listed
      obtain ⟨label, made⟩ := (mem_bucketWrites (filled found kept)).mp mem
      exact ⟨rc, cfg, sens, b, label, found, kept, made⟩
  · rintro ⟨rc, cfg, sens, b, label, found, kept, made⟩
    have key : rc ∈ schema.riskClasses.keys := by
      rw [← AList.mem_keys, ← AList.lookup_isSome, found]
      rfl
    refine ⟨rc, key, sens, all sens, ?_⟩
    rw [finaliseRcSens, found]
    refine List.mem_flatMap.mpr ⟨_, List.mem_map.mpr ⟨b, kept, rfl⟩, ?_⟩
    exact (mem_bucketWrites (filled found kept)).mpr ⟨label, made⟩

theorem names_plain (formed : WellFormed schema rows)
    (found : schema.riskClasses.lookup rc = some cfg) (kept : b ∈ keptBuckets schema rows rc sens) :
    Free ':' rc ∧ Free ':' b := by
  obtain ⟨row, mem, rfl, rfl, _⟩ := kept_row formed found kept
  exact (formed.rows row mem).plain

/-- What the run leaves under a key of a tuple. -/
theorem finalised_at (formed : WellFormed schema rows) (plain : Free ':' rc ∧ Free ':' b)
    (found : schema.riskClasses.lookup rc = some cfg) :
    finalised schema searchVer rows (rollupKey rc b sens.text label) field =
      if b ∈ keptBuckets schema rows rc sens then
        ((writeAt schema rc cfg sens (replyOf schema searchVer rows rc cfg sens b) label).bind
          fun w => (ofPairs w.2).lookup field).getD 0
      else 0 := by
  have own : ∀ w ∈ finalise schema searchVer (slimDocs schema rows),
      w.1 = rollupKey rc b sens.text label → b ∈ keptBuckets schema rows rc sens ∧
        writeAt schema rc cfg sens
          (replyOf schema searchVer rows rc cfg sens b) label = some w := by
    intro w mem key
    obtain ⟨rc', cfg', sens', b', label', found', kept, made⟩ :=
      (mem_finalise formed).mp mem
    rw [key_of_writeAt made] at key
    obtain ⟨rfl, rfl, rfl, rfl⟩ := rollupKey_inj (names_plain formed found' kept) plain key
    rw [found, Option.some.injEq] at found'
    subst found'
    exact ⟨kept, made⟩
  unfold finalised
  split
  · rename_i kept
    cases made : writeAt schema rc cfg sens (replyOf schema searchVer rows rc cfg sens b) label with
    | none =>
      refine foldl_hset_other ?_ _
      intro w mem key
      obtain ⟨_, made'⟩ := own w mem key
      rw [made] at made'
      cases made'
    | some w =>
      have mem : w ∈ finalise schema searchVer (slimDocs schema rows) :=
        (mem_finalise formed).mpr ⟨rc, cfg, sens, b, label, found, kept, made⟩
      refine @foldl_hset field _ _ w.2 ?_ ⟨w, mem, key_of_writeAt made⟩ _
      intro w' mem' key
      obtain ⟨_, made'⟩ := own w' mem' key
      rw [made, Option.some.injEq] at made'
      rw [made']
  · rename_i dropped
    refine foldl_hset_other ?_ _
    intro w mem key
    exact dropped (own w mem key).1

/-- A key that belongs to no row is not written by the finaliser. -/
theorem finalised_of_other {key : String} (formed : WellFormed schema rows)
    (other : ∀ row ∈ rows, ∀ label, (tagsOf row).key label ≠ key) :
    finalised schema searchVer rows key field = 0 := by
  refine foldl_hset_other ?_ _
  intro w mem same
  obtain ⟨rc, cfg, sens, b, label, found, kept, made⟩ := (mem_finalise formed).mp mem
  obtain ⟨row, listed, rfl, rfl, rfl⟩ := kept_row formed found kept
  rw [key_of_writeAt made] at same
  exact other row listed label same

end Written

section Values
variable {schema : Schema} {rows : List Row} {rc b field : String} {cfg : RiskClassConfig}
  {sens : SensitivityType} {searchVer : ℕ} {label : Option String} {row : Row} {r : Reading}

/-- The weight that has been applied to a field once a bucket's sums are written. -/
def applied (schema : Schema) (rc : String) (cfg : RiskClassConfig) (sens : SensitivityType)
    (searchVer : ℕ) (b : String) (label : Option String) : ℚ :=
  if searchVer < 80000 then
    if sens = .delta then
      bucketWeight (resolveWeights schema cfg "delta" (isPerTenor rc cfg)) b
    else 1
  else legWeight sens.text (tableOf schema cfg) b label

/-- The literal of the clause and the weight of the bucket make ingest's weight. -/
theorem clauseWeight_bucketWeight (labelled : label ∈ indexLabels rc cfg) :
    clauseWeight schema rc cfg "delta" label *
        bucketWeight (resolveWeights schema cfg "delta" (isPerTenor rc cfg)) b =
      legWeight "Delta" (tableOf schema cfg) b label := by
  have notVega : ¬("Delta" = "Vega" ∨ "Delta" = "Curvature") := by decide
  have isDelta : ¬("delta" ≠ "delta") := by decide
  unfold clauseWeight resolveWeights legWeight weightFor
  rw [if_neg isDelta, if_neg notVega]
  cases table : tableOf schema cfg with
  | none => simp [bucketWeight]
  | some table' =>
    cases table' with
    | constant weight => simp [bucketWeight]
    | byBucket weights => simp [bucketWeight]
    | byTenor weights =>
      dsimp only
      by_cases perTenor : isPerTenor rc cfg = true
      · have nodes : nodesOf cfg ≠ [] := by
          rw [isPerTenor, Bool.and_eq_true, decide_eq_true_eq, decide_eq_true_eq] at perTenor
          exact perTenor.2
        simp [perTenor, nodes, bucketWeight]
      · rw [indexLabels, if_neg perTenor, List.mem_singleton] at labelled
        simp [perTenor, labelled, bucketWeight]

theorem other_weight {leg : String} (other : leg ≠ "delta") (label : Option String) :
    clauseWeight schema rc cfg leg label = 1 ∧
      bucketWeight (resolveWeights schema cfg leg (isPerTenor rc cfg)) b = 1 := by
  unfold clauseWeight resolveWeights
  rw [if_pos other]
  exact ⟨rfl, rfl⟩

theorem safeValue_mul (weight w : ℚ) (v : Option ℚ) :
    safeValue searchVer weight v * w =
      (if searchVer < 80000 then w else weight * w) * v.getD 0 := by
  unfold safeValue
  split <;> ring

/-- The weighted value of a field in the sums of its leg. -/
theorem safeValue_applied {leg : String} (listed : leg ∈ legsBySens sens)
    (labelled : label ∈ indexLabels rc cfg) (v : Option ℚ) :
    safeValue searchVer (clauseWeight schema rc cfg leg label) v *
        bucketWeight (resolveWeights schema cfg leg (isPerTenor rc cfg)) b =
      applied schema rc cfg sens searchVer b label * v.getD 0 := by
  rw [safeValue_mul, applied]
  refine congrArg (· * v.getD 0) ?_
  cases sens with
  | delta =>
    rw [List.mem_singleton.mp listed, clauseWeight_bucketWeight labelled]
    rfl
  | vega =>
    obtain ⟨clause, bucket⟩ := @other_weight schema rc b cfg leg
      (by rw [List.mem_singleton.mp listed]; decide) label
    rw [clause, bucket]
    simp [legWeight, SensitivityType.text]
  | curvature =>
    have other : leg ≠ "delta" := by
      rintro rfl
      exact absurd listed (by decide)
    obtain ⟨clause, bucket⟩ := @other_weight schema rc b cfg leg other label
    rw [clause, bucket]
    simp [legWeight, SensitivityType.text]

/-- The numbers of a row. -/
def readingOf (row : Row) : Reading := (reading row).getD (.scalar (0, 0))

def fstAt (r : Reading) (label : Option String) : ℚ := ((r.at label).map Prod.fst).getD 0

def sndAt (r : Reading) (label : Option String) : ℚ := ((r.at label).map Prod.snd).getD 0

/-- What the sums under a key take from a row. -/
def finalValue (weight : Option String → ℚ) (labels : List (Option String)) (r : Reading)
    (label : Option String) : ℚ × ℚ :=
  match label with
  | none => ((labels.map fun l => weight l * fstAt r l).sum,
      (labels.map fun l => weight l * sndAt r l).sum)
  | some t => (weight (some t) * fstAt r (some t), weight (some t) * sndAt r (some t))

/-- What the count under a key takes from a row. -/
def finalCount (schema : Schema) (rc : String) (cfg : RiskClassConfig) (sens : SensitivityType)
    (searchVer : ℕ) (row : Row) (label : Option String) : ℚ :=
  match label with
  | none => presentRow rc cfg sens searchVer (fieldOf rc (slimHash schema row))
  | some t => presenceOf searchVer (fieldOf rc (slimHash schema row) (countLeg sens, some t))

/-- What `v` adds to the sums of a type. -/
def part (sens : SensitivityType) (field : String) (v : ℚ × ℚ) : ℚ :=
  if sens = .curvature then curvaturePart field v else scalarPart field v.1

theorem lookup_curvatureFields (compared : field ∈ comparedFields) (up down count : ℚ) :
    ((ofPairs (curvatureFields up down count)).lookup field).getD 0 =
      curvaturePart field (up, down) + countPart field count := by
  simp only [comparedFields, List.mem_cons, List.not_mem_nil, or_false] at compared
  rcases compared with rfl | rfl | rfl | rfl | rfl <;>
    simp [curvatureFields, ofPairs, curvaturePart, countPart, AList.lookup_insert_ne,
      -AList.insert_empty]

theorem lookup_scalarFields (compared : field ∈ comparedFields) (w sum sumSq count : ℚ) :
    ((ofPairs (scalarFields w sum sumSq count)).lookup field).getD 0 =
      (if field = "sum_ws" then sum * w else if field = "sum_ws_sq" then sumSq * (w * w) else 0) +
        countPart field count := by
  simp only [comparedFields, List.mem_cons, List.not_mem_nil, or_false] at compared
  rcases compared with rfl | rfl | rfl | rfl | rfl <;>
    simp [scalarFields, ofPairs, countPart, AList.lookup_insert_ne, -AList.insert_empty]

theorem readingOf_eq (read : reading row = some r) : readingOf row = r := by
  rw [readingOf, read, Option.getD_some]

/-- The number that the pipeline has of a field of the row. -/
theorem fieldOf_reading (found : schema.riskClasses.lookup row.riskClass = some cfg)
    (read : reading row = some r) {f : Field}
    (field : f ∈ indexFields row.riskClass cfg row.sensitivityType) :
    fieldOf row.riskClass (slimHash schema row) f =
      if isPerTenor row.riskClass cfg then some (((r.at f.2).map (side f.1)).getD 0)
      else (r.at f.2).map (side f.1) := by
  rw [fieldOf_slimHash found field, slimCell_reading read (mem_indexFields.mp field).1]

theorem fieldOf_getD (found : schema.riskClasses.lookup row.riskClass = some cfg)
    (read : reading row = some r) {f : Field}
    (field : f ∈ indexFields row.riskClass cfg row.sensitivityType) :
    (fieldOf row.riskClass (slimHash schema row) f).getD 0 =
    ((r.at f.2).map (side f.1)).getD 0 := by
  rw [fieldOf_reading found read field]
  split <;> rfl

theorem side_fst {leg : String} (other : leg ≠ "cvr_down") : side leg = Prod.fst := by
  funext v
  rw [side, if_neg other]

theorem scalarRoot_other (sens : SensitivityType) : scalarRoot sens ≠ "cvr_down" := by
  cases sens <;> decide

theorem scalarRoot_listed (other : sens ≠ .curvature) : scalarRoot sens ∈ legsBySens sens := by
  cases sens with
  | curvature => exact absurd rfl other
  | delta => decide
  | vega => decide

end Values

section Numbers
variable {schema : Schema} {rows : List Row} {rc b field : String} {cfg : RiskClassConfig}
  {sens : SensitivityType} {searchVer : ℕ} {label : Option String} {row : Row} {r : Reading}

theorem sum_curvatureParts {α : Type*} (compared : field ∈ comparedFields) (l : List α)
    (u d c : α → ℚ) :
    curvaturePart field ((l.map u).sum, (l.map d).sum) + countPart field (l.map c).sum =
      (l.map fun a => curvaturePart field (u a, d a) + countPart field (c a)).sum := by
  simp only [comparedFields, List.mem_cons, List.not_mem_nil, or_false] at compared
  rcases compared with rfl | rfl | rfl | rfl | rfl <;> simp [curvaturePart, countPart]

theorem sum_scalarParts {α : Type*} (compared : field ∈ comparedFields) (l : List α)
    (v c : α → ℚ) :
    (if field = "sum_ws" then (l.map v).sum
      else if field = "sum_ws_sq" then (l.map fun a => v a * v a).sum else 0) +
        countPart field (l.map c).sum =
      (l.map fun a => scalarPart field (v a) + countPart field (c a)).sum := by
  simp only [comparedFields, List.mem_cons, List.not_mem_nil, or_false] at compared
  rcases compared with rfl | rfl | rfl | rfl | rfl <;> simp [scalarPart, countPart]

/-- The row has its class and a reading. -/
theorem row_of_tuple (formed : WellFormed schema rows)
    (found : schema.riskClasses.lookup rc = some cfg) (mem : row ∈ tupleRows rows rc b sens) :
    schema.riskClasses.lookup row.riskClass = some cfg ∧ reading row = some (readingOf row) := by
  obtain ⟨listed, rfl, _, _⟩ := mem_tupleRows.mp mem
  obtain ⟨r, read, _⟩ := (formed.rows row listed).shaped
  exact ⟨found, by rw [readingOf_eq read, read]⟩

/-- A sum of a leg over the fields of a row, under the weight of its bucket. -/
theorem rowSum_applied (formed : WellFormed schema rows)
    (found : schema.riskClasses.lookup rc = some cfg) (mem : row ∈ tupleRows rows rc b sens)
    {leg : String} (listed : leg ∈ legsBySens sens) :
    rowSum schema rc cfg searchVer (fieldOf rc (slimHash schema row)) leg *
        bucketWeight (resolveWeights schema cfg leg (isPerTenor rc cfg)) b =
      ((indexLabels rc cfg).map fun l => applied schema rc cfg sens searchVer b l *
        (((readingOf row).at l).map (side leg)).getD 0).sum := by
  obtain ⟨own, read⟩ := row_of_tuple formed found mem
  obtain ⟨_, rfl, _, rfl⟩ := mem_tupleRows.mp mem
  rw [rowSum, sFields, List.map_map, ← List.sum_map_mul_right]
  refine congrArg List.sum (List.map_congr_left fun l labelled => ?_)
  rw [Function.comp_apply, safeAt, safeValue_applied listed labelled,
    fieldOf_getD own read (mem_indexFields.mpr ⟨listed, labelled⟩)]

/-- The value of a leg at a tenor, under the weight of its bucket. -/
theorem safeAt_applied (formed : WellFormed schema rows)
    (found : schema.riskClasses.lookup rc = some cfg) (mem : row ∈ tupleRows rows rc b sens)
    {leg : String} (listed : leg ∈ legsBySens sens) (labelled : label ∈ indexLabels rc cfg) :
    safeAt schema rc cfg searchVer (fieldOf rc (slimHash schema row)) (leg, label) *
        bucketWeight (resolveWeights schema cfg leg (isPerTenor rc cfg)) b =
      applied schema rc cfg sens searchVer b label *
        (((readingOf row).at label).map (side leg)).getD 0 := by
  obtain ⟨own, read⟩ := row_of_tuple formed found mem
  obtain ⟨_, rfl, _, rfl⟩ := mem_tupleRows.mp mem
  rw [safeAt, safeValue_applied listed labelled,
    fieldOf_getD own read (mem_indexFields.mpr ⟨listed, labelled⟩)]

/-- A sum over the rows, scaled, when each row's value is known under the scale. -/
theorem sum_scaled {l : List Row} {f g : Row → ℚ} {w : ℚ} (each : ∀ row ∈ l, f row * w = g row) :
    (l.map f).sum * w = (l.map g).sum ∧
      (l.map fun row => f row * f row).sum * (w * w) = (l.map fun row => g row * g row).sum := by
  rw [← List.sum_map_mul_right, ← List.sum_map_mul_right]
  constructor
  · exact congrArg List.sum (List.map_congr_left each)
  · refine congrArg List.sum (List.map_congr_left fun row mem => ?_)
    rw [← each row mem]
    ring

/-- Curvature sums stand under no weight. -/
theorem curvature_unscaled {leg : String} (listed : leg ∈ legsBySens .curvature) :
    bucketWeight (resolveWeights schema cfg leg (isPerTenor rc cfg)) b = 1 := by
  refine (@other_weight schema rc b cfg leg ?_ none).2
  rintro rfl
  exact absurd listed (by decide)

/-- What is written under the base key of a bucket. -/
theorem written_base (formed : WellFormed schema rows)
    (found : schema.riskClasses.lookup rc = some cfg) (compared : field ∈ comparedFields) :
    ((ofPairs (scalarWrite schema rc cfg sens
        (replyOf schema searchVer rows rc cfg sens b)).2).lookup field).getD 0 =
      ((tupleRows rows rc b sens).map fun row =>
        part sens field (finalValue (applied schema rc cfg sens searchVer b) (indexLabels rc cfg)
          (readingOf row) none) +
        countPart field (finalCount schema rc cfg sens searchVer row none)).sum := by
  have count : (replyOf schema searchVer rows rc cfg sens b).number .scalarCount =
      ((tupleRows rows rc b sens).map fun row =>
        finalCount schema rc cfg sens searchVer row none).sum := replyOf_number formed found
          .scalarCount trivial
  have leg : ∀ leg ∈ legsBySens sens, ∀ row ∈ tupleRows rows rc b sens,
      rowSum schema rc cfg searchVer (fieldOf rc (slimHash schema row)) leg *
        bucketWeight (resolveWeights schema cfg leg (isPerTenor rc cfg)) b =
      ((indexLabels rc cfg).map fun l => applied schema rc cfg sens searchVer b l *
        (((readingOf row).at l).map (side leg)).getD 0).sum :=
    fun leg listed row mem => rowSum_applied formed found mem listed
  have sums : ∀ leg ∈ legsBySens sens,
      (replyOf schema searchVer rows rc cfg sens b).number (.scalarSum leg) =
        ((tupleRows rows rc b sens).map fun row =>
          rowSum schema rc cfg searchVer (fieldOf rc (slimHash schema row)) leg).sum :=
    fun leg listed => replyOf_number formed found (.scalarSum leg) listed
  have bucket : (replyOf schema searchVer rows rc cfg sens b).bucket = b := rfl
  rw [scalarWrite, bucket]
  dsimp only
  by_cases curved : sens = .curvature
  · subst curved
    have up : "cvr_up" ∈ legsBySens .curvature := by decide
    have down : "cvr_down" ∈ legsBySens .curvature := by decide
    have ups := (sum_scaled (leg _ up)).1
    have downs := (sum_scaled (leg _ down)).1
    rw [curvature_unscaled up, mul_one] at ups
    rw [curvature_unscaled down, mul_one] at downs
    rw [if_pos rfl, lookup_curvatureFields compared, sums _ up, sums _ down, count, ups, downs,
      sum_curvatureParts compared, side_fst (by decide)]
    refine congrArg List.sum (List.map_congr_left fun row _ => ?_)
    rw [part, if_pos rfl]
    rfl
  · have listed := scalarRoot_listed curved
    have squares : (replyOf schema searchVer rows rc cfg sens b).number
        (.scalarSumsq (scalarRoot sens)) = ((tupleRows rows rc b sens).map fun row =>
          rowSum schema rc cfg searchVer (fieldOf rc (slimHash schema row)) (scalarRoot sens) *
            rowSum schema rc cfg searchVer (fieldOf rc (slimHash schema row))
              (scalarRoot sens)).sum :=
      replyOf_number formed found (.scalarSumsq (scalarRoot sens)) ⟨listed, curved⟩
    obtain ⟨value, square⟩ := sum_scaled (leg _ listed)
    rw [if_neg curved, lookup_scalarFields compared, sums _ listed, squares, count, value, square,
      sum_scalarParts compared, side_fst (scalarRoot_other sens)]
    refine congrArg List.sum (List.map_congr_left fun row _ => ?_)
    rw [part, if_neg curved]
    rfl

/-- What is written under a tenor key of a bucket. -/
theorem written_tenor (formed : WellFormed schema rows)
    (found : schema.riskClasses.lookup rc = some cfg) (compared : field ∈ comparedFields)
    {t : String} (labelled : some t ∈ indexLabels rc cfg) :
    ((tenorWrite schema rc cfg sens (replyOf schema searchVer rows rc cfg sens b) t).bind
        fun w => (ofPairs w.2).lookup field).getD 0 =
      if ((tupleRows rows rc b sens).map fun row =>
          finalCount schema rc cfg sens searchVer row (some t)).sum = 0 then 0
      else ((tupleRows rows rc b sens).map fun row =>
        part sens field (finalValue (applied schema rc cfg sens searchVer b) (indexLabels rc cfg)
          (readingOf row) (some t)) +
        countPart field (finalCount schema rc cfg sens searchVer row (some t))).sum := by
  have fielded : ∀ leg ∈ legsBySens sens, (leg, some t) ∈ indexFields rc cfg sens :=
    fun leg listed => mem_indexFields.mpr ⟨listed, labelled⟩
  have countListed : countLeg sens ∈ legsBySens sens := by cases sens <;> decide
  have count : (replyOf schema searchVer rows rc cfg sens b).number
      (.tenorCount t (countLeg sens)) =
      ((tupleRows rows rc b sens).map fun row =>
        finalCount schema rc cfg sens searchVer row (some t)).sum :=
    replyOf_number formed found (.tenorCount t (countLeg sens)) (fielded _ countListed)
  have leg : ∀ leg ∈ legsBySens sens, ∀ row ∈ tupleRows rows rc b sens,
      safeAt schema rc cfg searchVer (fieldOf rc (slimHash schema row)) (leg, some t) *
        bucketWeight (resolveWeights schema cfg leg (isPerTenor rc cfg)) b =
      applied schema rc cfg sens searchVer b (some t) *
        (((readingOf row).at (some t)).map (side leg)).getD 0 :=
    fun leg listed row mem => safeAt_applied formed found mem listed labelled
  have sums : ∀ leg ∈ legsBySens sens,
      (replyOf schema searchVer rows rc cfg sens b).number (.tenorSum t leg) =
        ((tupleRows rows rc b sens).map fun row =>
          safeAt schema rc cfg searchVer (fieldOf rc (slimHash schema row)) (leg, some t)).sum :=
    fun leg listed => replyOf_number formed found (.tenorSum t leg) (fielded leg listed)
  have bucket : (replyOf schema searchVer rows rc cfg sens b).bucket = b := rfl
  rw [tenorWrite, count, bucket]
  dsimp only
  by_cases nothing : ((tupleRows rows rc b sens).map fun row =>
      finalCount schema rc cfg sens searchVer row (some t)).sum = 0
  · rw [if_pos nothing, if_pos nothing]
    rfl
  rw [if_neg nothing, if_neg nothing, Option.bind_some]
  by_cases curved : sens = .curvature
  · subst curved
    have up : "cvr_up" ∈ legsBySens .curvature := by decide
    have down : "cvr_down" ∈ legsBySens .curvature := by decide
    have ups := (sum_scaled (leg _ up)).1
    have downs := (sum_scaled (leg _ down)).1
    rw [curvature_unscaled up, mul_one] at ups
    rw [curvature_unscaled down, mul_one] at downs
    rw [if_pos rfl, lookup_curvatureFields compared, sums _ up, sums _ down, ups, downs,
      sum_curvatureParts compared, side_fst (by decide)]
    refine congrArg List.sum (List.map_congr_left fun row _ => ?_)
    rw [part, if_pos rfl]
    rfl
  · have listed := scalarRoot_listed curved
    have squares : (replyOf schema searchVer rows rc cfg sens b).number
        (.tenorSumsq t (scalarRoot sens)) = ((tupleRows rows rc b sens).map fun row =>
          safeAt schema rc cfg searchVer (fieldOf rc (slimHash schema row))
              (scalarRoot sens, some t) *
            safeAt schema rc cfg searchVer (fieldOf rc (slimHash schema row))
              (scalarRoot sens, some t)).sum :=
      replyOf_number formed found (.tenorSumsq t (scalarRoot sens))
        ⟨fielded _ listed, curved⟩
    obtain ⟨value, square⟩ := sum_scaled (leg _ listed)
    rw [if_neg curved, lookup_scalarFields compared, sums _ listed, squares, value, square,
      sum_scalarParts compared, side_fst (scalarRoot_other sens)]
    refine congrArg List.sum (List.map_congr_left fun row _ => ?_)
    rw [part, if_neg curved]
    rfl

end Numbers

section Rows
variable {schema : Schema} {rows : List Row} {rc b field : String} {cfg : RiskClassConfig}
  {sens : SensitivityType} {searchVer : ℕ} {row : Row} {r : Reading}

theorem term_eq (sens : SensitivityType) (field : String) (v : ℚ × ℚ) :
    term sens field v = part sens field v + countPart field 1 := by
  unfold term part
  split <;> rfl

theorem part_count (sens : SensitivityType) (v : ℚ × ℚ) : part sens "count" v = 0 := by
  unfold part
  split <;> rfl

/-- One if the row carries the tenor. -/
def carries (r : Reading) (t : String) : ℚ := if (r.at (some t)).isSome then 1 else 0

theorem adds_base (formed : WellFormedRow schema row) (found : row.classIn schema = some cfg)
    (read : reading row = some r) :
    adds schema row none field = part row.sensitivityType field (r.base (row.weight schema cfg)) +
      countPart field 1 := by
  obtain ⟨cfg', found', along⟩ := formed.classed
  rw [found, Option.some.injEq] at found'
  subst found'
  rw [adds, increments_row_base formed found along read, term_eq]

theorem adds_tenor (formed : WellFormedRow schema row) (found : row.classIn schema = some cfg)
    (read : reading row = some r) (t : String) :
    adds schema row (some t) field = ((r.at (some t)).map fun v => part row.sensitivityType field
      (row.weight schema cfg (some t) * v.1, row.weight schema cfg (some t) * v.2) +
        countPart field 1).getD 0 := by
  obtain ⟨cfg', found', along⟩ := formed.classed
  rw [found, Option.some.injEq] at found'
  subst found'
  rw [adds, increments_row_tenor formed found along read]
  simp only [term_eq]

theorem presenceOf_nonneg (v : Option ℚ) : 0 ≤ presenceOf searchVer v := by
  unfold presenceOf
  split_ifs <;> norm_num

/-- A Delta or Vega number is paired with zero. -/
theorem snd_zero (other : row.sensitivityType ≠ .curvature) (read : reading row = some r)
    {label : Option String} {v : ℚ × ℚ} (here : r.at label = some v) : v.2 = 0 := by
  rcases reading_cases read with ⟨own, _⟩ | ⟨_, shape⟩
  · exact absurd own other
  have paired : ∀ ps : List (String × ℚ),
      (Reading.tenors (ps.map fun p => (p.1, p.2, 0))).at label = some v → v.2 = 0 := by
    intro ps here
    rw [at_tenors] at here
    cases label with
    | none => cases here
    | some t =>
      rw [Option.bind_some, lookup_paired] at here
      obtain ⟨x, _, rfl⟩ := Option.map_eq_some_iff.mp here
      rfl
  have single : ∀ x : ℚ, (Reading.scalar (x, 0)).at label = some v → v.2 = 0 := by
    intro x here
    rw [at_scalar] at here
    split at here
    · cases here
      rfl
    · cases here
  rcases shape with ⟨x, _, rfl⟩ | ⟨_, x, _, _, rfl⟩ | ⟨_, _, _, rfl⟩ | ⟨_, _, _, _, rfl⟩
  · exact single x here
  · exact single x here
  · exact paired _ here
  · exact paired _ here

/-- Some leg of the row has a number other than zero at the label. -/
theorem some_side_ne (read : reading row = some r) {label : Option String} :
    (∃ leg ∈ legsBySens row.sensitivityType, ((r.at label).map (side leg)).getD 0 ≠ 0) ↔
      ∃ v, r.at label = some v ∧ v ≠ (0, 0) := by
  cases here : r.at label with
  | none => simp
  | some v =>
    simp only [Option.map_some, Option.getD_some, Option.some.injEq, ne_eq,
      Prod.ext_iff, not_and_or]
    by_cases own : row.sensitivityType = .curvature
    · rw [own]
      simp [legsBySens, side]
    · have zero := snd_zero own read here
      have legs : legsBySens row.sensitivityType = [scalarRoot row.sensitivityType] := by
        cases sens : row.sensitivityType with
        | curvature => exact absurd sens own
        | delta => rfl
        | vega => rfl
      rw [legs]
      simp [side_fst (scalarRoot_other row.sensitivityType), zero]

/-- Whether a row counts under the base key. -/
theorem finalCount_base (found : schema.riskClasses.lookup row.riskClass = some cfg)
    (read : reading row = some r) :
    finalCount schema row.riskClass cfg row.sensitivityType searchVer row none = 1 ↔
      if 80000 ≤ searchVer then
        isPerTenor row.riskClass cfg = true ∨ (r.at none).isSome
      else ∃ label ∈ indexLabels row.riskClass cfg, ∃ v, r.at label = some v ∧ v ≠ (0, 0) := by
  have counted : finalCount schema row.riskClass cfg row.sensitivityType searchVer row none = 1 ↔
      ∃ f ∈ indexFields row.riskClass cfg row.sensitivityType,
        presenceOf searchVer (fieldOf row.riskClass (slimHash schema row) f) ≠ 0 := by
    rw [finalCount, presentRow, ← sum_pos_iff fun f _ => presenceOf_nonneg _]
    split
    · rename_i positive
      exact iff_of_true rfl positive
    · rename_i zero
      exact iff_of_false (by norm_num) zero
  rw [counted]
  by_cases new : 80000 ≤ searchVer
  · rw [if_pos new]
    have present : ∀ v : Option ℚ, presenceOf searchVer v ≠ 0 ↔ v.isSome := by
      intro v
      rw [presenceOf, if_neg (not_lt.mpr new)]
      cases v <;> simp
    simp only [present]
    by_cases perTenor : isPerTenor row.riskClass cfg = true
    · refine iff_of_true ?_ (.inl perTenor)
      obtain ⟨f, rest, fields⟩ := List.exists_cons_of_ne_nil
        (@indexFields_ne_nil row.riskClass cfg row.sensitivityType)
      have field : f ∈ indexFields row.riskClass cfg row.sensitivityType := by
        rw [fields]
        exact List.mem_cons_self
      refine ⟨f, field, ?_⟩
      rw [fieldOf_reading found read field, if_pos perTenor]
      rfl
    · have labels : indexLabels row.riskClass cfg = [none] := if_neg perTenor
      constructor
      · rintro ⟨f, field, there⟩
        rw [fieldOf_reading found read field, if_neg perTenor, Option.isSome_map] at there
        have bare := (mem_indexFields.mp field).2
        rw [labels, List.mem_singleton] at bare
        rw [bare] at there
        exact .inr there
      · rintro (yes | there)
        · exact absurd yes perTenor
        · have field : (countLeg row.sensitivityType, none) ∈
              indexFields row.riskClass cfg row.sensitivityType := by
            refine mem_indexFields.mpr ⟨?_, by rw [labels]; exact List.mem_cons_self⟩
            cases row.sensitivityType <;> decide
          refine ⟨_, field, ?_⟩
          rw [fieldOf_reading found read field, if_neg perTenor, Option.isSome_map]
          exact there
  · rw [if_neg new]
    have present : ∀ v : Option ℚ, presenceOf searchVer v ≠ 0 ↔ v.getD 0 ≠ 0 := by
      intro v
      rw [presenceOf, if_pos (not_le.mp new)]
      split
      · rename_i zero
        exact iff_of_false (not_not.mpr rfl) (not_not.mpr zero)
      · rename_i nonzero
        exact iff_of_true one_ne_zero nonzero
    constructor
    · rintro ⟨f, field, nonzero⟩
      rw [present, fieldOf_getD found read field] at nonzero
      obtain ⟨listed, labelled⟩ := mem_indexFields.mp field
      exact ⟨f.2, labelled, (some_side_ne read).mp ⟨f.1, listed, nonzero⟩⟩
    · rintro ⟨label, labelled, value⟩
      obtain ⟨leg, listed, nonzero⟩ := (some_side_ne read).mpr value
      have field := mem_indexFields.mpr (show (leg, label).1 ∈ legsBySens row.sensitivityType ∧
        (leg, label).2 ∈ indexLabels row.riskClass cfg from ⟨listed, labelled⟩)
      refine ⟨_, field, ?_⟩
      rw [present, fieldOf_getD found read field]
      exact nonzero

/-- Whether a row counts under a tenor key. -/
theorem finalCount_tenor (found : schema.riskClasses.lookup row.riskClass = some cfg)
    (read : reading row = some r) {t : String}
    (labelled : some t ∈ indexLabels row.riskClass cfg) :
    finalCount schema row.riskClass cfg row.sensitivityType searchVer row (some t) =
      if 80000 ≤ searchVer then 1 else if fstAt r (some t) = 0 then 0 else 1 := by
  have listed : countLeg row.sensitivityType ∈ legsBySens row.sensitivityType := by
    cases row.sensitivityType <;> decide
  have field : (countLeg row.sensitivityType, some t) ∈
      indexFields row.riskClass cfg row.sensitivityType := mem_indexFields.mpr ⟨listed, labelled⟩
  have perTenor : isPerTenor row.riskClass cfg = true := by
    by_contra scalar
    rw [indexLabels, if_neg scalar, List.mem_singleton] at labelled
    cases labelled
  have leg : countLeg row.sensitivityType ≠ "cvr_down" := by
    cases row.sensitivityType <;> decide
  rw [finalCount, presenceOf, fieldOf_reading found read field, if_pos perTenor, side_fst leg]
  by_cases new : 80000 ≤ searchVer
  · rw [if_pos new, if_neg (not_lt.mpr new)]
    rfl
  · rw [if_neg new, if_pos (not_le.mp new)]
    rfl

/-- A row counts as it should exactly when it has the counts of ingest. -/
theorem counted_iff (found : schema.riskClasses.lookup row.riskClass = some cfg)
    (read : reading row = some r) :
    Counted searchVer cfg row ↔
      finalCount schema row.riskClass cfg row.sensitivityType searchVer row none = 1 ∧
      (∀ t, some t ∈ indexLabels row.riskClass cfg →
        finalCount schema row.riskClass cfg row.sensitivityType searchVer row (some t) =
          carries r t) ∧
      ∀ t, some t ∉ indexLabels row.riskClass cfg → carries r t = 0 := by
  have own : Counted searchVer cfg row ↔
      if 80000 ≤ searchVer then
        ∀ label, (r.at label).isSome ↔ label ∈ indexLabels row.riskClass cfg
      else
        (∃ label ∈ indexLabels row.riskClass cfg, ∃ v, r.at label = some v ∧ v ≠ (0, 0)) ∧
          ∀ t v, r.at (some t) = some v → some t ∈ indexLabels row.riskClass cfg ∧ v.1 ≠ 0 := by
    unfold Counted
    constructor
    · exact fun counted => counted r read
    · intro counted r' read'
      rw [read, Option.some.injEq] at read'
      rwa [← read']
  have carried : ∀ t, carries r t = 0 ↔ r.at (some t) = none := by
    intro t
    rw [carries]
    cases r.at (some t) <;> simp
  rw [own, finalCount_base found read]
  by_cases new : 80000 ≤ searchVer
  · rw [if_pos new, if_pos new]
    have tenor : ∀ t, some t ∈ indexLabels row.riskClass cfg →
        (finalCount schema row.riskClass cfg row.sensitivityType searchVer row (some t) =
          carries r t ↔ (r.at (some t)).isSome) := by
      intro t labelled
      rw [finalCount_tenor found read labelled, if_pos new, carries]
      split
      · rename_i there
        exact iff_of_true rfl there
      · rename_i absent
        exact iff_of_false one_ne_zero absent
    constructor
    · intro all
      refine ⟨?_, fun t labelled => (tenor t labelled).mpr ((all _).mpr labelled), ?_⟩
      · by_cases perTenor : isPerTenor row.riskClass cfg = true
        · exact .inl perTenor
        · exact .inr ((all none).mpr
            (by rw [indexLabels, if_neg perTenor]; exact List.mem_cons_self))
      · intro t other
        rw [carried, ← Option.not_isSome_iff_eq_none]
        exact fun there => other ((all _).mp there)
    · rintro ⟨base, labelledAll, otherAll⟩ label
      cases label with
      | some t =>
        by_cases labelled : some t ∈ indexLabels row.riskClass cfg
        · exact iff_of_true ((tenor t labelled).mp (labelledAll t labelled)) labelled
        · refine iff_of_false ?_ labelled
          rw [Option.not_isSome_iff_eq_none]
          exact (carried t).mp (otherAll t labelled)
      | none =>
        by_cases perTenor : isPerTenor row.riskClass cfg = true
        · have bare : none ∉ indexLabels row.riskClass cfg := by
            rw [indexLabels, if_pos perTenor]
            simp
          refine iff_of_false ?_ bare
          obtain ⟨label, rest, labels⟩ := List.exists_cons_of_ne_nil
            (indexLabels_ne_nil row.riskClass cfg)
          have first : label ∈ indexLabels row.riskClass cfg := by
            rw [labels]
            exact List.mem_cons_self
          obtain _ | t := label
          · exact absurd first bare
          have there := (tenor t first).mp (labelledAll t first)
          cases r with
          | scalar v => cases there
          | tenors values => simp [Reading.at]
        · rw [indexLabels, if_neg perTenor]
          exact iff_of_true (base.resolve_left perTenor) List.mem_cons_self
  · rw [if_neg new, if_neg new]
    refine and_congr_right fun _ => ?_
    have tenor : ∀ t, some t ∈ indexLabels row.riskClass cfg →
        (finalCount schema row.riskClass cfg row.sensitivityType searchVer row (some t) =
          carries r t ↔ ∀ v, r.at (some t) = some v → v.1 ≠ 0) := by
      intro t labelled
      rw [finalCount_tenor found read labelled, if_neg new, carries, fstAt]
      cases r.at (some t) with
      | none => simp
      | some v => simp
    constructor
    · intro all
      refine ⟨fun t labelled => (tenor t labelled).mpr fun v here => (all t v here).2, ?_⟩
      intro t other
      rw [carried]
      by_contra there
      obtain ⟨v, here⟩ := Option.ne_none_iff_exists'.mp there
      exact other (all t v here).1
    · rintro ⟨labelledAll, otherAll⟩ t v here
      have labelled : some t ∈ indexLabels row.riskClass cfg := by
        by_contra other
        have absent := (carried t).mp (otherAll t other)
        rw [absent] at here
        cases here
      exact ⟨labelled, (tenor t labelled).mp (labelledAll t labelled) v here⟩

end Rows

end RollupFinaliser
