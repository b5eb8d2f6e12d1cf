import Frtb.FinaliserAgreement

/-!
# When the finaliser is exact

With every row counted as ingest counts it, both sides are sums of the same
values under two weights. The weights are the same unless an old search module
leaves the Delta weight of a clause out; then the sums and the sums of squares
say what the weights have to be.
-/

namespace RollupFinaliser

open AssocMaps JsonText EnrichDoc RollupKeys RedisStore RollupDelta RollupContribution SlimWriter
open ApplyExpr DelimitedNames WeightedSums

section Base
variable {schema : Schema} {cfg : RiskClassConfig} {row : Row} {r : Reading} {searchVer : ℕ}

/-- A sum over distinct tenors is one over the nodes that list them. -/
theorem sum_values_nodes {values : List (String × ℚ × ℚ)} (distinct : (values.map Prod.fst).Nodup)
    {nodes : List String} (nodup : nodes.Nodup) (within : ∀ p ∈ values, p.1 ∈ nodes)
    (f : String → ℚ × ℚ → ℚ) :
    (values.map fun p => f p.1 p.2).sum =
      (nodes.map fun t => ((ofPairs values).lookup t).elim 0 (f t)).sum := by
  have keyed : (values.map fun p => f p.1 p.2) =
      (values.map Prod.fst).map fun t => ((ofPairs values).lookup t).elim 0 (f t) := by
    rw [List.map_map]
    refine List.map_congr_left fun p mem => ?_
    rw [Function.comp_apply, ofPairs, lookup_assign_of_mem ∅ distinct (b := p.2) mem]
    rfl
  rw [keyed, ← List.sum_toFinset _ distinct, ← List.sum_toFinset _ nodup]
  refine Finset.sum_subset ?_ ?_
  · intro t mem
    obtain ⟨p, listed, rfl⟩ := List.mem_map.mp (List.mem_toFinset.mp mem)
    exact List.mem_toFinset.mpr (within p listed)
  · intro t _ absent
    rw [lookup_ofPairs_eq_none fun mem => absent (List.mem_toFinset.mpr mem)]
    rfl

/-- A counted row has a number at a field of its class. -/
theorem counted_label (counted : Counted searchVer cfg row) (read : reading row = some r) :
    (∃ label ∈ indexLabels row.riskClass cfg, (r.at label).isSome) ∧
      ∀ t, (r.at (some t)).isSome → some t ∈ indexLabels row.riskClass cfg := by
  have own := counted r read
  by_cases new : 80000 ≤ searchVer
  · rw [if_pos new] at own
    obtain ⟨label, rest, labels⟩ :=
      List.exists_cons_of_ne_nil (indexLabels_ne_nil row.riskClass cfg)
    have first : label ∈ indexLabels row.riskClass cfg := by
      rw [labels]
      exact List.mem_cons_self
    exact ⟨⟨label, first, (own label).mpr first⟩, fun t there => (own _).mp there⟩
  · rw [if_neg new] at own
    obtain ⟨⟨label, labelled, v, here, _⟩, tenors⟩ := own
    refine ⟨⟨label, labelled, by rw [here]; rfl⟩, fun t there => ?_⟩
    obtain ⟨v, here⟩ := Option.isSome_iff_exists.mp there
    exact (tenors t v here).1

/-- The scalar of a counted row is the sum over the fields of its class. -/
theorem base_eq (nodup : (nodesOf cfg).Nodup) (counted : Counted searchVer cfg row)
    (read : reading row = some r) (distinct : r.Distinct) (weight : Option String → ℚ) :
    r.base weight = finalValue weight (indexLabels row.riskClass cfg) r none := by
  obtain ⟨⟨label, labelled, there⟩, within⟩ := counted_label counted read
  by_cases perTenor : isPerTenor row.riskClass cfg = true
  · rw [indexLabels, if_pos perTenor] at labelled within
    have tenors : ∃ values, r = .tenors values := by
      obtain ⟨t, _, rfl⟩ := List.mem_map.mp labelled
      cases r with
      | scalar v => cases there
      | tenors values => exact ⟨values, rfl⟩
    obtain ⟨values, rfl⟩ := tenors
    have listed : ∀ p ∈ values, p.1 ∈ nodesOf cfg := by
      intro p mem
      have carried : ((Reading.tenors values).at (some p.1)).isSome := by
        rw [at_tenors, Option.bind_some, lookup_ofPairs_isSome]
        exact List.mem_map_of_mem mem
      obtain ⟨t, node, same⟩ := List.mem_map.mp (within p.1 carried)
      rwa [← Option.some.inj same]
    rw [Reading.base, finalValue, indexLabels, if_pos perTenor, List.map_map, List.map_map,
      sum_values_nodes distinct nodup listed fun t v => weight (some t) * v.1,
      sum_values_nodes distinct nodup listed fun t v => weight (some t) * v.2]
    refine Prod.ext (congrArg List.sum ?_) (congrArg List.sum ?_)
    · refine List.map_congr_left fun t _ => ?_
      rw [Function.comp_apply, fstAt, at_tenors, Option.bind_some]
      cases (ofPairs values).lookup t <;> simp
    · refine List.map_congr_left fun t _ => ?_
      rw [Function.comp_apply, sndAt, at_tenors, Option.bind_some]
      cases (ofPairs values).lookup t <;> simp
  · rw [indexLabels, if_neg perTenor, List.mem_singleton] at labelled
    rw [labelled] at there
    cases r with
    | tenors values => cases there
    | scalar v =>
      rw [finalValue, indexLabels, if_neg perTenor]
      simp [Reading.base, fstAt, sndAt, Reading.at]

end Base

section Groups
variable {schema : Schema} {rows : List Row} {rc b field : String} {cfg : RiskClassConfig}
  {sens : SensitivityType} {searchVer : ℕ} {row : Row}

/-- The weight that ingest gives a field of the tuple. -/
def ingestWeight (schema : Schema) (cfg : RiskClassConfig) (sens : SensitivityType) (b : String)
    (label : Option String) : ℚ :=
  legWeight sens.text (tableOf schema cfg) b label

/-- The rows of a tuple of a class. -/
structure Grouped (schema : Schema) (rows : List Row) (rc b : String) (cfg : RiskClassConfig)
    (sens : SensitivityType) (row : Row) : Prop where
  formed : WellFormedRow schema row
  found : schema.riskClasses.lookup row.riskClass = some cfg
  classed : row.classIn schema = some cfg
  read : reading row = some (readingOf row)
  distinct : (readingOf row).Distinct
  weighed : row.weight schema cfg = ingestWeight schema cfg sens b
  ofClass : row.riskClass = rc
  typed : row.sensitivityType = sens

theorem grouped (formed : WellFormed schema rows)
    (found : schema.riskClasses.lookup rc = some cfg) (mem : row ∈ tupleRows rows rc b sens) :
    Grouped schema rows rc b cfg sens row := by
  obtain ⟨own, read⟩ := row_of_tuple formed found mem
  obtain ⟨listed, rfl, rfl, rfl⟩ := mem_tupleRows.mp mem
  have formedRow := formed.rows row listed
  obtain ⟨r, read', distinct⟩ := formedRow.shaped
  obtain ⟨cfg', classed, _⟩ := formedRow.classed
  have same : cfg' = cfg := by
    rw [Row.classIn, if_neg (classIn_present classed), found, Option.some.injEq] at classed
    exact classed.symm
  rw [same] at classed
  refine ⟨formedRow, own, classed, read, ?_, rfl, rfl, rfl⟩
  rw [readingOf_eq read']
  exact distinct

/-- Each row of the tuple contributes the value under a key and one to its count. -/
def groupSum (weight : Option String → ℚ) (labels : List (Option String)) (sens : SensitivityType)
    (field : String) (label : Option String) (count : Row → ℚ) (own : List Row) : ℚ :=
  (own.map fun row => part sens field (finalValue weight labels (readingOf row) label) +
    countPart field (count row)).sum

theorem part_zero (sens : SensitivityType) (field : String) : part sens field (0, 0) = 0 := by
  unfold part
  split <;> simp

theorem notCarried_value (weight : Option String → ℚ) (labels : List (Option String)) {r : Reading}
    {t : String} (absent : carries r t = 0) : finalValue weight labels r (some t) = (0, 0) := by
  have none_ : r.at (some t) = none := by
    by_contra there
    obtain ⟨v, here⟩ := Option.ne_none_iff_exists'.mp there
    rw [carries, here] at absent
    exact one_ne_zero absent
  rw [finalValue, fstAt, sndAt, none_]
  simp

theorem ingested_base (formed : WellFormed schema rows) (plain : Free ':' rc ∧ Free ':' b)
    (found : schema.riskClasses.lookup rc = some cfg)
    (counted : ∀ row ∈ tupleRows rows rc b sens, Counted searchVer cfg row) :
    ingested schema rows (rollupKey rc b sens.text none) field =
      groupSum (ingestWeight schema cfg sens b) (indexLabels rc cfg) sens field none (fun _ => 1)
        (tupleRows rows rc b sens) := by
  rw [ingested_at formed.rows plain, groupSum]
  refine congrArg List.sum (List.map_congr_left fun row mem => ?_)
  have own := grouped formed found mem
  rw [adds_base own.formed own.classed own.read,
    base_eq (formed.nodes rc cfg found) (counted row mem) own.read own.distinct, own.weighed,
    own.ofClass, own.typed]

theorem ingested_tenor (formed : WellFormed schema rows) (plain : Free ':' rc ∧ Free ':' b)
    (found : schema.riskClasses.lookup rc = some cfg) (t : String) :
    ingested schema rows (rollupKey rc b sens.text (some t)) field =
      groupSum (ingestWeight schema cfg sens b) (indexLabels rc cfg) sens field (some t)
        (fun row => carries (readingOf row) t) (tupleRows rows rc b sens) := by
  rw [ingested_at formed.rows plain, groupSum]
  refine congrArg List.sum (List.map_congr_left fun row mem => ?_)
  have own := grouped formed found mem
  rw [adds_tenor own.formed own.classed own.read, own.weighed, own.typed, finalValue, fstAt, sndAt,
    carries]
  cases (readingOf row).at (some t) with
  | none => simp [part_zero]
  | some v => simp

theorem finalised_base (formed : WellFormed schema rows) (plain : Free ':' rc ∧ Free ':' b)
    (found : schema.riskClasses.lookup rc = some cfg) (kept : b ∈ keptBuckets schema rows rc sens)
    (compared : field ∈ comparedFields) :
    finalised schema searchVer rows (rollupKey rc b sens.text none) field =
      groupSum (applied schema rc cfg sens searchVer b) (indexLabels rc cfg) sens field none
        (fun row => finalCount schema rc cfg sens searchVer row none)
        (tupleRows rows rc b sens) := by
  rw [finalised_at formed plain found, if_pos kept]
  exact written_base formed found compared

theorem finalised_tenor (formed : WellFormed schema rows) (plain : Free ':' rc ∧ Free ':' b)
    (found : schema.riskClasses.lookup rc = some cfg) (kept : b ∈ keptBuckets schema rows rc sens)
    (compared : field ∈ comparedFields) (t : String) :
    finalised schema searchVer rows (rollupKey rc b sens.text (some t)) field =
      if some t ∈ indexLabels rc cfg ∧ ((tupleRows rows rc b sens).map fun row =>
          finalCount schema rc cfg sens searchVer row (some t)).sum ≠ 0 then
        groupSum (applied schema rc cfg sens searchVer b) (indexLabels rc cfg) sens field (some t)
          (fun row => finalCount schema rc cfg sens searchVer row (some t))
          (tupleRows rows rc b sens)
      else 0 := by
  rw [finalised_at formed plain found, if_pos kept, writeAt]
  by_cases labelled : some t ∈ indexLabels rc cfg
  · rw [if_pos labelled, written_tenor formed found compared labelled, groupSum]
    by_cases nothing : ((tupleRows rows rc b sens).map fun row =>
        finalCount schema rc cfg sens searchVer row (some t)).sum = 0
    · rw [if_pos nothing, if_neg fun both => both.2 nothing]
    · rw [if_neg nothing, if_pos ⟨labelled, nothing⟩]
  · rw [if_neg labelled, if_neg fun both => labelled both.1]
    rfl

theorem groupSum_count (weight : Option String → ℚ) (labels : List (Option String))
    (label : Option String) (count : Row → ℚ) (own : List Row) :
    groupSum weight labels sens "count" label count own = (own.map count).sum := by
  rw [groupSum]
  refine congrArg List.sum (List.map_congr_left fun row _ => ?_)
  rw [part_count, zero_add]
  rfl

theorem groupSum_split (weight : Option String → ℚ) (labels : List (Option String))
    (label : Option String) (count : Row → ℚ) (own : List Row) :
    groupSum weight labels sens field label count own =
      (own.map fun row => part sens field (finalValue weight labels (readingOf row) label)).sum +
        (own.map fun row => countPart field (count row)).sum :=
  List.sum_map_add

end Groups

section Counts
variable {schema : Schema} {rows : List Row} {rc b field : String} {cfg : RiskClassConfig}
  {sens : SensitivityType} {searchVer : ℕ} {row : Row}

/-- Both sides agree under each key of a tuple. -/
def TupleAgrees (schema : Schema) (searchVer : ℕ) (rows : List Row) (rc b : String)
    (sens : SensitivityType) : Prop :=
  ∀ label, ∀ field ∈ comparedFields,
    finalised schema searchVer rows (rollupKey rc b sens.text label) field =
      ingested schema rows (rollupKey rc b sens.text label) field

theorem carries_le (r : Reading) (t : String) : 0 ≤ carries r t ∧ carries r t ≤ 1 := by
  unfold carries
  split <;> norm_num

theorem counted_row (own : Grouped schema rows rc b cfg sens row) :
    Counted searchVer cfg row ↔
      finalCount schema rc cfg sens searchVer row none = 1 ∧
      (∀ t, some t ∈ indexLabels rc cfg →
        finalCount schema rc cfg sens searchVer row (some t) = carries (readingOf row) t) ∧
      ∀ t, some t ∉ indexLabels rc cfg → carries (readingOf row) t = 0 := by
  obtain ⟨_, found, _, read, _, _, rfl, rfl⟩ := own
  exact counted_iff found read

/-- A count is one or zero. -/
theorem finalCount_bounds (own : Grouped schema rows rc b cfg sens row) :
    finalCount schema rc cfg sens searchVer row none ≤ 1 ∧
      ∀ t, some t ∈ indexLabels rc cfg →
        if 80000 ≤ searchVer then
          carries (readingOf row) t ≤ finalCount schema rc cfg sens searchVer row (some t)
        else finalCount schema rc cfg sens searchVer row (some t) ≤ carries (readingOf row) t := by
  obtain ⟨_, found, _, read, _, _, rfl, rfl⟩ := own
  constructor
  · rw [finalCount, presentRow]
    split <;> norm_num
  · intro t labelled
    rw [finalCount_tenor found read labelled]
    by_cases new : 80000 ≤ searchVer
    · rw [if_pos new, if_pos new]
      exact (carries_le _ t).2
    · rw [if_neg new, if_neg new, fstAt, carries]
      cases (readingOf row).at (some t) with
      | none => simp
      | some v =>
        rw [Option.isSome_some, if_pos rfl]
        split <;> norm_num

/-- Where the counts of a tuple agree, each of its rows is counted. -/
theorem counted_of_agrees (formed : WellFormed schema rows) (plain : Free ':' rc ∧ Free ':' b)
    (found : schema.riskClasses.lookup rc = some cfg) (kept : b ∈ keptBuckets schema rows rc sens)
    (agrees : TupleAgrees schema searchVer rows rc b sens) :
    ∀ row ∈ tupleRows rows rc b sens, Counted searchVer cfg row := by
  have countField : "count" ∈ comparedFields := by decide
  have own := fun row mem => @grouped schema rows rc b cfg sens row formed found mem
  have base := agrees none "count" countField
  rw [finalised_base formed plain found kept countField, groupSum_count,
    ingested_at formed.rows plain] at base
  have baseCounts : ((tupleRows rows rc b sens).map fun row => adds schema row none "count") =
      (tupleRows rows rc b sens).map fun _ => (1 : ℚ) := by
    refine List.map_congr_left fun row mem => ?_
    rw [adds_base (own row mem).formed (own row mem).classed (own row mem).read,
      part_count, zero_add]
    rfl
  rw [baseCounts] at base
  have ones := eq_of_sum_eq (fun row mem => (finalCount_bounds (own row mem)).1) base
  have tenor : ∀ t, ((if some t ∈ indexLabels rc cfg then
      ((tupleRows rows rc b sens).map fun row =>
        finalCount schema rc cfg sens searchVer row (some t)).sum else 0) : ℚ) =
      ((tupleRows rows rc b sens).map fun row => carries (readingOf row) t).sum := by
    intro t
    have here := agrees (some t) "count" countField
    rw [finalised_tenor formed plain found kept countField, ingested_tenor formed plain found,
      groupSum_count, groupSum_count] at here
    rw [← here]
    by_cases labelled : some t ∈ indexLabels rc cfg
    · by_cases nothing : ((tupleRows rows rc b sens).map fun row =>
          finalCount schema rc cfg sens searchVer row (some t)).sum = 0
      · rw [if_pos labelled, if_neg fun both => both.2 nothing, nothing]
      · rw [if_pos labelled, if_pos ⟨labelled, nothing⟩]
    · rw [if_neg labelled, if_neg fun both => labelled both.1]
  intro row mem
  refine (counted_row (own row mem)).mpr ⟨ones row mem, ?_, ?_⟩
  · intro t labelled
    have sums := tenor t
    rw [if_pos labelled] at sums
    by_cases new : 80000 ≤ searchVer
    · refine (eq_of_sum_eq (fun row mem => ?_) sums.symm row mem).symm
      have bound := (@finalCount_bounds _ _ _ _ _ _ searchVer _ (own row mem)).2 t labelled
      rwa [if_pos new] at bound
    · refine eq_of_sum_eq (fun row mem => ?_) sums row mem
      have bound := (@finalCount_bounds _ _ _ _ _ _ searchVer _ (own row mem)).2 t labelled
      rwa [if_neg new] at bound
  · intro t other
    have sums := tenor t
    rw [if_neg other] at sums
    have zero : ((tupleRows rows rc b sens).map fun _ => (0 : ℚ)).sum =
        ((tupleRows rows rc b sens).map fun row => carries (readingOf row) t).sum := by
      rw [← sums]
      simp
    exact (eq_of_sum_eq (fun row _ => (carries_le (readingOf row) t).1) zero row mem).symm

/-- With counted rows only the weights are left to compare. -/
theorem agrees_iff_parts (formed : WellFormed schema rows) (plain : Free ':' rc ∧ Free ':' b)
    (found : schema.riskClasses.lookup rc = some cfg) (kept : b ∈ keptBuckets schema rows rc sens)
    (counted : ∀ row ∈ tupleRows rows rc b sens, Counted searchVer cfg row) :
    TupleAgrees schema searchVer rows rc b sens ↔
      ∀ label, (label = none ∨ label ∈ indexLabels rc cfg) → ∀ field ∈ comparedFields,
        ((tupleRows rows rc b sens).map fun row => part sens field
          (finalValue (applied schema rc cfg sens searchVer b) (indexLabels rc cfg)
            (readingOf row) label)).sum =
        ((tupleRows rows rc b sens).map fun row => part sens field
          (finalValue (ingestWeight schema cfg sens b) (indexLabels rc cfg)
            (readingOf row) label)).sum := by
  have own := fun row mem => @grouped schema rows rc b cfg sens row formed found mem
  have counts := fun row mem => (counted_row (own row mem)).mp (counted row mem)
  have key : ∀ label, ∀ field ∈ comparedFields,
      (finalised schema searchVer rows (rollupKey rc b sens.text label) field =
          ingested schema rows (rollupKey rc b sens.text label) field ↔
        (label = none ∨ label ∈ indexLabels rc cfg →
          ((tupleRows rows rc b sens).map fun row => part sens field
            (finalValue (applied schema rc cfg sens searchVer b) (indexLabels rc cfg)
              (readingOf row) label)).sum =
          ((tupleRows rows rc b sens).map fun row => part sens field
            (finalValue (ingestWeight schema cfg sens b) (indexLabels rc cfg)
              (readingOf row) label)).sum)) := by
    intro label field compared
    cases label with
    | none =>
      have ones : ((tupleRows rows rc b sens).map fun row =>
          countPart field (finalCount schema rc cfg sens searchVer row none)) =
          (tupleRows rows rc b sens).map fun _ => countPart field 1 :=
        List.map_congr_left fun row mem => by rw [(counts row mem).1]
      rw [finalised_base formed plain found kept compared,
        ingested_base formed plain found counted, groupSum_split, groupSum_split,
          ones, add_left_inj]
      exact ⟨fun same _ => same, fun same => same (.inl rfl)⟩
    | some t =>
      rw [finalised_tenor formed plain found kept compared, ingested_tenor formed plain found]
      have silent : ∀ weight, (∀ row ∈ tupleRows rows rc b sens, carries (readingOf row) t = 0) →
          groupSum weight (indexLabels rc cfg) sens field (some t)
            (fun row => carries (readingOf row) t) (tupleRows rows rc b sens) = 0 ∧
          ((tupleRows rows rc b sens).map fun row => part sens field
            (finalValue weight (indexLabels rc cfg) (readingOf row) (some t))).sum = 0 := by
        intro weight absent
        have each : ∀ row ∈ tupleRows rows rc b sens, part sens field
            (finalValue weight (indexLabels rc cfg) (readingOf row) (some t)) = 0 := by
          intro row mem
          rw [notCarried_value weight _ (absent row mem), part_zero]
        refine ⟨?_, List.sum_eq_zero (by simpa using each)⟩
        rw [groupSum]
        refine List.sum_eq_zero ?_
        intro x mem
        obtain ⟨row, listed, rfl⟩ := List.mem_map.mp mem
        rw [each row listed, absent row listed, countPart_zero, add_zero]
      by_cases labelled : some t ∈ indexLabels rc cfg
      · have same : ((tupleRows rows rc b sens).map fun row =>
            finalCount schema rc cfg sens searchVer row (some t)) =
            (tupleRows rows rc b sens).map fun row => carries (readingOf row) t :=
          List.map_congr_left fun row mem => (counts row mem).2.1 t labelled
        by_cases nothing : ((tupleRows rows rc b sens).map fun row =>
            carries (readingOf row) t).sum = 0
        · have absent : ∀ row ∈ tupleRows rows rc b sens, carries (readingOf row) t = 0 := by
            have zero : ((tupleRows rows rc b sens).map fun _ => (0 : ℚ)).sum =
                ((tupleRows rows rc b sens).map fun row => carries (readingOf row) t).sum := by
              rw [nothing]
              simp
            exact fun row mem =>
              (eq_of_sum_eq (fun row _ => (carries_le (readingOf row) t).1) zero row mem).symm
          rw [same, if_neg fun both => both.2 nothing, (silent _ absent).1, (silent _ absent).2,
            (silent _ absent).2]
          simp
        · rw [same, if_pos ⟨labelled, nothing⟩, groupSum_split, groupSum_split]
          have countParts : ((tupleRows rows rc b sens).map fun row =>
              countPart field (finalCount schema rc cfg sens searchVer row (some t))) =
              (tupleRows rows rc b sens).map fun row =>
                countPart field (carries (readingOf row) t) :=
            List.map_congr_left fun row mem => by rw [(counts row mem).2.1 t labelled]
          rw [countParts, add_left_inj]
          exact ⟨fun same _ => same, fun same => same (.inr labelled)⟩
      · have absent : ∀ row ∈ tupleRows rows rc b sens, carries (readingOf row) t = 0 :=
          fun row mem => (counts row mem).2.2 t labelled
        rw [if_neg fun both => labelled both.1, (silent _ absent).1]
        exact iff_of_true rfl fun here => absurd here (by simpa using labelled)
  unfold TupleAgrees
  constructor
  · intro agrees label here field compared
    exact (key label field compared).mp (agrees label field compared) here
  · intro parts label field compared
    exact (key label field compared).mpr fun here => parts label here field compared

end Counts

section Weights
variable {schema : Schema} {rows : List Row} {rc b : String} {cfg : RiskClassConfig}
  {sens : SensitivityType} {searchVer : ℕ}

theorem scalarParts_iff {own : List Row} (f g : Row → ℚ) :
    (∀ field ∈ comparedFields, (own.map fun row => scalarPart field (f row)).sum =
        (own.map fun row => scalarPart field (g row)).sum) ↔
      (own.map f).sum = (own.map g).sum ∧
        (own.map fun row => f row * f row).sum = (own.map fun row => g row * g row).sum := by
  constructor
  · intro all
    exact ⟨all "sum_ws" (by decide), all "sum_ws_sq" (by decide)⟩
  · rintro ⟨sums, squares⟩ field compared
    simp only [comparedFields, List.mem_cons, List.not_mem_nil, or_false] at compared
    rcases compared with rfl | rfl | rfl | rfl | rfl
    · exact sums
    · exact squares
    · simp [scalarPart]
    · simp [scalarPart]
    · simp [scalarPart]

theorem deltaAt_eq (formed : WellFormed schema rows)
    (found : schema.riskClasses.lookup rc = some cfg) {row : Row}
    (mem : row ∈ tupleRows rows rc b sens) (label : Option String) :
    fstAt (readingOf row) label = deltaAt row label := by
  rw [deltaAt, (grouped formed found mem).read, Option.bind_some, fstAt]

/-- The sums of Delta under weight one against those under ingest's weights. -/
theorem delta_parts_iff (formed : WellFormed schema rows)
    (found : schema.riskClasses.lookup rc = some cfg) :
    (∀ label, (label = none ∨ label ∈ indexLabels rc cfg) → ∀ field ∈ comparedFields,
        ((tupleRows rows rc b .delta).map fun row => part .delta field
          (finalValue (fun _ => 1) (indexLabels rc cfg) (readingOf row) label)).sum =
        ((tupleRows rows rc b .delta).map fun row => part .delta field
          (finalValue (ingestWeight schema cfg .delta b) (indexLabels rc cfg)
            (readingOf row) label)).sum) ↔
      BucketUnseen schema rows rc b cfg := by
  set own := tupleRows rows rc b .delta with ownDef
  set weight := legWeight "Delta" (tableOf schema cfg) b with weightDef
  have value : ∀ (w : Option String → ℚ) (t : String), ∀ row ∈ own,
      (finalValue w (indexLabels rc cfg) (readingOf row) (some t)).1 =
        w (some t) * deltaAt row (some t) := by
    intro w t row mem
    rw [finalValue, deltaAt_eq formed found mem]
  have base : ∀ (w : Option String → ℚ), ∀ row ∈ own,
      (finalValue w (indexLabels rc cfg) (readingOf row) none).1 =
        ((indexLabels rc cfg).map fun l => w l * deltaAt row l).sum := by
    intro w row mem
    rw [finalValue]
    exact congrArg List.sum (List.map_congr_left fun l _ => by rw [deltaAt_eq formed found mem])
  have split : ∀ label (f g : Row → ℚ),
      (∀ row ∈ own, (finalValue (fun _ => 1) (indexLabels rc cfg) (readingOf row) label).1 =
        f row) →
      (∀ row ∈ own, (finalValue weight (indexLabels rc cfg) (readingOf row) label).1 = g row) →
      ((∀ field ∈ comparedFields,
        (own.map fun row => part .delta field
          (finalValue (fun _ => 1) (indexLabels rc cfg) (readingOf row) label)).sum =
        (own.map fun row => part .delta field
          (finalValue (ingestWeight schema cfg .delta b) (indexLabels rc cfg)
            (readingOf row) label)).sum) ↔
      (own.map f).sum = (own.map g).sum ∧
        (own.map fun row => f row * f row).sum = (own.map fun row => g row * g row).sum) := by
    intro label f g plain weighed
    rw [← scalarParts_iff]
    refine forall₂_congr fun field _ => ?_
    have left : (own.map fun row => part .delta field
        (finalValue (fun _ => 1) (indexLabels rc cfg) (readingOf row) label)) =
        own.map fun row => scalarPart field (f row) :=
      List.map_congr_left fun row mem => by rw [← plain row mem]; rfl
    have right : (own.map fun row => part .delta field
        (finalValue (ingestWeight schema cfg .delta b) (indexLabels rc cfg)
          (readingOf row) label)) = own.map fun row => scalarPart field (g row) :=
      List.map_congr_left fun row mem => by rw [← weighed row mem]; rfl
    rw [left, right]
  have tenor := fun t => split (some t) (fun row => deltaAt row (some t))
    (fun row => weight (some t) * deltaAt row (some t))
    (fun row mem => by rw [value _ t row mem, one_mul]) (fun row mem => value _ t row mem)
  have scalar := split none (fun row => ((indexLabels rc cfg).map (deltaAt row)).sum)
    (fun row => ((indexLabels rc cfg).map fun l => weight l * deltaAt row l).sum)
    (fun row mem => by rw [base _ row mem]; simp only [one_mul]) (fun row mem => base _ row mem)
  unfold BucketUnseen
  dsimp only
  rw [← ownDef, ← weightDef]
  constructor
  · intro parts
    have columns : ∀ label ∈ indexLabels rc cfg, (∀ row ∈ own, deltaAt row label = 0) ∨
        weight label = 1 ∨ weight label = -1 ∧ (own.map fun row => deltaAt row label).sum = 0 := by
      intro label labelled
      refine (unseen_iff own (fun row => deltaAt row label) (weight label)).mp ?_
      cases label with
      | some t => exact (tenor t).mp (parts (some t) (.inr labelled))
      | none =>
        have single : indexLabels rc cfg = [none] := by
          unfold indexLabels at labelled ⊢
          split
          · rename_i perTenor
            rw [if_pos perTenor] at labelled
            simp at labelled
          · rfl
        have here := scalar.mp (parts none (.inl rfl))
        rw [single] at here
        simpa using here
    refine ⟨columns, ?_⟩
    exact (rows_unseen own (indexLabels rc cfg) weight deltaAt columns).2.mp
      (scalar.mp (parts none (.inl rfl))).2
  · rintro ⟨columns, products⟩ label here
    cases label with
    | some t =>
      have labelled : some t ∈ indexLabels rc cfg := by simpa using here
      exact (tenor t).mpr ((unseen_iff own _ _).mpr (columns (some t) labelled))
    | none =>
      obtain ⟨sums, squares⟩ := rows_unseen own (indexLabels rc cfg) weight deltaAt columns
      exact scalar.mpr ⟨sums, squares.mpr products⟩

/-- A bucket's weights are those of ingest, or are left out. -/
theorem applied_cases (rc b : String) (sens : SensitivityType) :
    (∀ label ∈ indexLabels rc cfg, applied schema rc cfg sens searchVer b label =
        ingestWeight schema cfg sens b label) ∨
      searchVer < 80000 ∧ sens = .delta ∧ (∀ map, tableOf schema cfg ≠ some (.byBucket map)) ∧
        applied schema rc cfg sens searchVer b = fun _ => 1 := by
  by_cases old : searchVer < 80000
  · cases sens with
    | vega =>
      refine .inl fun label _ => ?_
      rw [applied, if_pos old, if_neg (by decide)]
      rfl
    | curvature =>
      refine .inl fun label _ => ?_
      rw [applied, if_pos old, if_neg (by decide)]
      rfl
    | delta =>
      have isDelta : ¬("delta" ≠ "delta") := by decide
      cases table : tableOf schema cfg with
      | none =>
        refine .inr ⟨old, rfl, by simp, funext fun label => ?_⟩
        rw [applied, if_pos old, if_pos rfl, resolveWeights, if_neg isDelta, table]
        rfl
      | some table' =>
        cases table' with
        | byBucket map =>
          refine .inl fun label _ => ?_
          rw [applied, if_pos old, if_pos rfl, resolveWeights, if_neg isDelta, table, ingestWeight,
            table]
          rfl
        | constant weight =>
          refine .inr ⟨old, rfl, by simp, funext fun label => ?_⟩
          rw [applied, if_pos old, if_pos rfl, resolveWeights, if_neg isDelta, table]
          rfl
        | byTenor weights =>
          refine .inr ⟨old, rfl, by simp, funext fun label => ?_⟩
          rw [applied, if_pos old, if_pos rfl, resolveWeights, if_neg isDelta, table]
          dsimp only
          split <;> rfl
  · refine .inl fun label _ => ?_
    rw [applied, if_neg old]
    rfl

theorem finalValue_congr {w w' : Option String → ℚ} {labels : List (Option String)}
    (same : ∀ label ∈ labels, w label = w' label) (r : Reading) {label : Option String}
    (here : label = none ∨ label ∈ labels) :
    finalValue w labels r label = finalValue w' labels r label := by
  cases label with
  | none =>
    rw [finalValue, finalValue]
    refine Prod.ext (congrArg List.sum ?_) (congrArg List.sum ?_)
    · exact List.map_congr_left fun l mem => by rw [same l mem]
    · exact List.map_congr_left fun l mem => by rw [same l mem]
  | some t =>
    have labelled : some t ∈ labels := by simpa using here
    rw [finalValue, finalValue, same _ labelled]

/-- With counted rows a tuple agrees unless weights that were left out are seen. -/
theorem tupleAgrees_iff (formed : WellFormed schema rows) (plain : Free ':' rc ∧ Free ':' b)
    (found : schema.riskClasses.lookup rc = some cfg) (kept : b ∈ keptBuckets schema rows rc sens)
    (counted : ∀ row ∈ tupleRows rows rc b sens, Counted searchVer cfg row) :
    TupleAgrees schema searchVer rows rc b sens ↔
      (searchVer < 80000 → sens = .delta → (∀ map, tableOf schema cfg ≠ some (.byBucket map)) →
        BucketUnseen schema rows rc b cfg) := by
  rw [agrees_iff_parts formed plain found kept counted]
  rcases @applied_cases schema cfg searchVer rc b sens with same | ⟨old, rfl, notBucket, ones⟩
  · have parts : ∀ label, (label = none ∨ label ∈ indexLabels rc cfg) → ∀ field ∈ comparedFields,
        ((tupleRows rows rc b sens).map fun row => part sens field
          (finalValue (applied schema rc cfg sens searchVer b) (indexLabels rc cfg)
            (readingOf row) label)).sum =
        ((tupleRows rows rc b sens).map fun row => part sens field
          (finalValue (ingestWeight schema cfg sens b) (indexLabels rc cfg)
            (readingOf row) label)).sum := by
      intro label here field _
      refine congrArg List.sum (List.map_congr_left fun row _ => ?_)
      rw [finalValue_congr same _ here]
    refine iff_of_true parts ?_
    intro old delta notBucket
    subst delta
    have applied_one : ∀ label, applied schema rc cfg .delta searchVer b label = 1 := by
      intro label
      have isDelta : ¬("delta" ≠ "delta") := by decide
      rw [applied, if_pos old, if_pos rfl, resolveWeights, if_neg isDelta]
      cases table : tableOf schema cfg with
      | none => rfl
      | some table' =>
        cases table' with
        | byBucket map => exact absurd table (notBucket map)
        | constant weight => rfl
        | byTenor weights =>
          dsimp only
          split <;> rfl
    refine (delta_parts_iff formed found).mp ?_
    rw [funext applied_one] at parts
    exact parts
  · rw [ones, delta_parts_iff formed found]
    exact ⟨fun unseen _ _ _ => unseen, fun unseen => unseen old rfl notBucket⟩

end Weights

section Exactness
variable {schema : Schema} {rows : List Row} {searchVer : ℕ}

/-- All buckets are in the reply when they fit, and else one is not. -/
theorem kept_iff (formed : WellFormed schema rows) {rc : String} {cfg : RiskClassConfig}
    (found : schema.riskClasses.lookup rc = some cfg) (sens : SensitivityType) :
    (∀ row ∈ rows, row.riskClass = rc → row.sensitivityType = sens →
        row.bucket ∈ keptBuckets schema rows rc sens) ↔
      ((classRows rows rc sens).map Row.bucket).dedup.length ≤ replyLimit := by
  have perm : List.Perm (((slimDocs schema rows).filter (matchesQuery rc sens)).map fun d =>
      tagOf d "bucket") ((classRows rows rc sens).map Row.bucket) := buckets_perm formed found
  have length := perm.dedup.length_eq
  constructor
  · intro all
    have within : (((slimDocs schema rows).filter (matchesQuery rc sens)).map fun d =>
        tagOf d "bucket").dedup ⊆ keptBuckets schema rows rc sens := by
      intro b mem
      obtain ⟨row, listed, rfl⟩ := List.mem_map.mp (perm.mem_iff.mp (List.mem_dedup.mp mem))
      rw [classRows, List.mem_filter, decide_eq_true_eq] at listed
      exact all row listed.1 listed.2.1 listed.2.2
    have short := (List.Nodup.subperm (List.nodup_dedup _) within).length_le
    rw [length] at short
    exact le_trans short (List.length_take_le _ _)
  · intro fits row mem classed typed
    rw [keptBuckets, List.take_of_length_le (by rw [length]; exact fits), List.mem_dedup,
      perm.mem_iff]
    refine List.mem_map_of_mem ?_
    rw [classRows, List.mem_filter, decide_eq_true_eq]
    exact ⟨mem, classed, typed⟩

/-- A row whose bucket is not in the reply is missing from its count. -/
theorem kept_of_agrees (formed : WellFormed schema rows)
    (agrees : FinaliserAgrees schema searchVer rows) {row : Row} (mem : row ∈ rows) :
    row.bucket ∈ keptBuckets schema rows row.riskClass row.sensitivityType := by
  by_contra dropped
  have countField : "count" ∈ comparedFields := by decide
  obtain ⟨cfg, classed, _⟩ := (formed.rows row mem).classed
  have found := found_of_classed classed
  have plain := (formed.rows row mem).plain
  have here := agrees (rollupKey row.riskClass row.bucket row.sensitivityType.text none) "count"
    countField
  rw [finalised_at formed plain found, if_neg dropped, ingested_at formed.rows plain] at here
  have ones : ((tupleRows rows row.riskClass row.bucket row.sensitivityType).map fun row =>
      adds schema row none "count") =
      (tupleRows rows row.riskClass row.bucket row.sensitivityType).map fun _ => (1 : ℚ) := by
    refine List.map_congr_left fun other listed => ?_
    have own := grouped formed found listed
    rw [adds_base own.formed own.classed own.read, part_count, zero_add]
    rfl
  have own : row ∈ tupleRows rows row.riskClass row.bucket row.sensitivityType :=
    mem_tupleRows.mpr ⟨mem, rfl, rfl, rfl⟩
  have positive := (sum_pos_iff (l := tupleRows rows row.riskClass row.bucket row.sensitivityType)
    (f := fun _ => (1 : ℚ)) fun _ _ => zero_le_one).mpr ⟨row, own, one_ne_zero⟩
  rw [ones] at here
  rw [← here] at positive
  exact lt_irrefl _ positive

/-- The finaliser leaves what ingest leaves exactly when every row is counted,
the buckets fit in a reply and no weight that was left out is seen. -/
theorem finaliserAgrees_iff (formed : WellFormed schema rows) :
    FinaliserAgrees schema searchVer rows ↔ RollupsExact schema searchVer rows := by
  have tuple : ∀ row ∈ rows, ∀ cfg, row.classIn schema = some cfg →
      row.bucket ∈ keptBuckets schema rows row.riskClass row.sensitivityType →
      (∀ row' ∈ tupleRows rows row.riskClass row.bucket row.sensitivityType,
        Counted searchVer cfg row') →
      (TupleAgrees schema searchVer rows row.riskClass row.bucket row.sensitivityType ↔
        (searchVer < 80000 → row.sensitivityType = .delta →
          (∀ map, tableOf schema cfg ≠ some (.byBucket map)) →
          BucketUnseen schema rows row.riskClass row.bucket cfg)) :=
    fun row mem cfg classed kept counted =>
      tupleAgrees_iff formed (formed.rows row mem).plain (found_of_classed classed) kept counted
  constructor
  · intro agrees
    have kept := fun row mem => @kept_of_agrees schema rows searchVer formed agrees row mem
    have counted : ∀ row ∈ rows, ∀ cfg, row.classIn schema = some cfg →
        ∀ row' ∈ tupleRows rows row.riskClass row.bucket row.sensitivityType,
          Counted searchVer cfg row' := by
      intro row mem cfg classed
      exact counted_of_agrees formed (formed.rows row mem).plain (found_of_classed classed)
        (kept row mem) fun label field compared => agrees _ field compared
    refine ⟨?_, ?_, ?_⟩
    · intro rc sens
      cases found : schema.riskClasses.lookup rc with
      | some cfg =>
        refine (kept_iff formed found sens).mp ?_
        rintro row mem rfl rfl
        exact kept row mem
      | none =>
        have none_ :
            (rows.filter fun row => row.riskClass = rc ∧ row.sensitivityType = sens) = [] := by
          refine List.filter_eq_nil_iff.mpr fun row mem => ?_
          rw [decide_eq_true_eq]
          rintro ⟨rfl, _⟩
          obtain ⟨cfg, classed, _⟩ := (formed.rows row mem).classed
          rw [found_of_classed classed] at found
          cases found
        rw [none_]
        exact Nat.zero_le _
    · intro row mem cfg classed
      exact counted row mem cfg classed row (mem_tupleRows.mpr ⟨mem, rfl, rfl, rfl⟩)
    · intro old rc cfg b found notBucket
      cases rowsHere : tupleRows rows rc b .delta with
      | nil =>
        simp only [BucketUnseen, rowsHere]
        exact ⟨fun label _ => .inl fun row none_ => absurd none_ List.not_mem_nil, rfl⟩
      | cons row rest =>
        have own : row ∈ tupleRows rows rc b .delta := by
          rw [rowsHere]
          exact List.mem_cons_self
        obtain ⟨mem, rfl, rfl, delta⟩ := mem_tupleRows.mp own
        have classed := (grouped formed found own).classed
        have agreesHere := (tuple row mem cfg classed (kept row mem)
            (counted row mem cfg classed)).mp
          fun label field compared => agrees _ field compared
        exact agreesHere old delta notBucket
  · intro exact_ key field compared
    by_cases owned : ∃ row ∈ rows, ∃ label, (tagsOf row).key label = key
    · obtain ⟨row, mem, label, rfl⟩ := owned
      obtain ⟨cfg, classed, _⟩ := (formed.rows row mem).classed
      have kept := (kept_iff formed (found_of_classed classed) row.sensitivityType).mpr
        (exact_.fits row.riskClass row.sensitivityType) row mem rfl rfl
      have counted : ∀ row' ∈ tupleRows rows row.riskClass row.bucket row.sensitivityType,
          Counted searchVer cfg row' := by
        intro row' listed
        exact exact_.counted row' (mem_tupleRows.mp listed).1 cfg
          (grouped formed (found_of_classed classed) listed).classed
      refine (tuple row mem cfg classed kept counted).mpr ?_ label field compared
      intro old _ notBucket
      exact exact_.weighed old row.riskClass cfg row.bucket (found_of_classed classed) notBucket
    · push Not at owned
      rw [finalised_of_other formed owned, ingested_of_other formed.rows owned]

/-- A row that carries one of two tenors: the padded zero of the other one is
counted by the finaliser and not by ingest. -/
def oneTenor : Row where
  id := "01"
  riskClass := "GIRR"
  bucket := "USD"
  sensitivityType := .vega
  book := none
  tradeId := none
  riskFactor := none
  desk := none
  riskValue := .members (ofPairs [("1Y", 5)])
  tenor := none

def twoNodes : Schema where
  riskClasses := ofPairs [("GIRR", ⟨some ["1Y", "2Y"], "girr_delta_weights"⟩)]
  riskWeights := ∅

theorem wellFormed_oneTenor : WellFormed twoNodes [oneTenor] := by
  refine ⟨by decide, ?_, by decide, ?_⟩
  · intro rc cfg found
    obtain ⟨rfl, rfl⟩ : rc = "GIRR" ∧ cfg = ⟨some ["1Y", "2Y"], "girr_delta_weights"⟩ := by
      have mem := mem_of_lookup_ofPairs found
      simpa using mem
    decide
  · intro row mem
    rw [List.mem_singleton.mp mem]
    refine ⟨⟨⟨some ["1Y", "2Y"], "girr_delta_weights"⟩, ?_, trivial⟩, by decide, by decide,
      ⟨.tenors [("1Y", 5, 0)], rfl, List.nodup_singleton _⟩⟩
    rfl

theorem finaliserAgrees_oneTenor :
    FinaliserAgrees twoNodes 80000 [oneTenor] ↔ RollupsExact twoNodes 80000 [oneTenor] :=
  finaliserAgrees_iff wellFormed_oneTenor

/-- The padded tenor is counted. -/
theorem padded_counts : WellFormed twoNodes [oneTenor] ∧
    ¬ FinaliserAgrees twoNodes 80000 [oneTenor] := by
  refine ⟨wellFormed_oneTenor, fun agrees => ?_⟩
  have counts := agrees "rollup:GIRR:USD:Vega:tenor:2Y" "count" (by decide)
  revert counts
  decide +kernel

end Exactness

end RollupFinaliser
