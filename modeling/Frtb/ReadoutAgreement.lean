import Frtb.RollupReadout
import Frtb.AliasNames

/-!
# The rollup readout against the index

The readout answers with one report for each requested bucket that has a hash.
Its sums are those of the index; its count is one for each tenor of a row, and
its `K_b` may come from the cache.
-/

namespace ReadoutAgreement

open AssocMaps JsonText EnrichDoc RedisStore StorageWriter RollupDelta FastPath FastPathSums
open FastPathRows IndexedRows RollupReadout AliasNames

section Loop
variable {digest : RollupHash → String} {schema : CalcSchema} {rc : String} {leg : FastLeg}

def hasHash (schema : CalcSchema) (rc : String) (h : BucketHashes) : Bool :=
  (fieldTenors schema rc).any fun t => (h.tm t).isSome

def kbKey (rc : String) (leg : FastLeg) (b : String) : String :=
  kbCacheKey rc b (legSens leg) "default" "n_a"

/-- The `K_b` that a readout with this cache answers with. -/
noncomputable def servedKb (digest : RollupHash → String) (schema : CalcSchema) (rc : String)
    (leg : FastLeg) (cache : KbCache) (h : BucketHashes) : ℝ :=
  if isPerTenor schema rc then (readoutReport schema rc leg h.bucket h.tm).kb
  else (lookupKbCacheEntry cache (kbKey rc leg h.bucket) (digest ((h.tm "").getD ∅))).getD
    (readoutReport schema rc leg h.bucket h.tm).kb

noncomputable def servedReport (digest : RollupHash → String) (schema : CalcSchema) (rc : String)
    (leg : FastLeg) (cache : KbCache) (h : BucketHashes) : BucketReport :=
  { readoutReport schema rc leg h.bucket h.tm with kb := servedKb digest schema rc leg cache h }

theorem kbKey_injective (rc : String) (leg : FastLeg) : Function.Injective (kbKey rc leg) := by
  intro b b' same
  delta kbKey kbCacheKey at same
  have chars := congrArg String.toList same
  simp only [String.toList_append, List.append_assoc, List.append_cancel_left_eq] at chars
  exact String.toList_injective (List.append_cancel_right chars)

/-- One bucket: its report is appended, and no bucket's answer changes. -/
theorem readBucket_spec (acc : List BucketReport × KbCache) (h : BucketHashes) :
    (readBucket digest schema rc leg acc h).1 =
        acc.1 ++ (if hasHash schema rc h then [servedReport digest schema rc leg acc.2 h] else []) ∧
      ∀ h' : BucketHashes, (h'.bucket = h.bucket → h' = h) →
        servedKb digest schema rc leg (readBucket digest schema rc leg acc h).2 h' =
          servedKb digest schema rc leg acc.2 h' := by
  have absent : ((fieldTenors schema rc).all fun t => (h.tm t).isNone) = !hasHash schema rc h := by
    simp [hasHash, List.not_any_eq_all_not]
  unfold readBucket
  rw [absent]
  cases present : hasHash schema rc h with
  | false =>
    rw [Bool.not_false, if_pos rfl, if_neg Bool.false_ne_true, List.append_nil]
    exact ⟨rfl, fun _ _ => rfl⟩
  | true =>
    rw [Bool.not_true, if_neg Bool.false_ne_true, if_pos rfl]
    cases perTenor : isPerTenor schema rc with
    | true =>
      have own : servedReport digest schema rc leg acc.2 h =
          readoutReport schema rc leg h.bucket h.tm := by
        rw [servedReport, servedKb, if_pos perTenor]
      rw [own]
      exact ⟨rfl, fun _ _ => rfl⟩
    | false =>
      have scalar : ¬isPerTenor schema rc = true := by simp [perTenor]
      dsimp only
      rw [if_neg Bool.false_ne_true]
      unfold cacheKb
      dsimp only
      cases found : lookupKbCacheEntry acc.2 (kbCacheKey rc h.bucket (legSens leg) "default" "n_a")
          (digest ((h.tm "").getD ∅)) with
      | some kb =>
        have kbOf : servedKb digest schema rc leg acc.2 h = kb := by
          rw [servedKb, if_neg scalar, kbKey, found, Option.getD_some]
        rw [servedReport, kbOf]
        exact ⟨rfl, fun _ _ => rfl⟩
      | none =>
        have kbOf : servedKb digest schema rc leg acc.2 h =
            (readoutReport schema rc leg h.bucket h.tm).kb := by
          rw [servedKb, if_neg scalar, kbKey, found, Option.getD_none]
        refine ⟨by rw [servedReport, kbOf], ?_⟩
        intro h' determined
        by_cases same : h'.bucket = h.bucket
        · obtain rfl := determined same
          rw [kbOf, servedKb, if_neg scalar]
          simp [lookupKbCacheEntry, storeKbCacheEntry, kbKey]
        · have otherKey : kbKey rc leg h'.bucket ≠
              kbCacheKey rc h.bucket (legSens leg) "default" "n_a" :=
            fun key => same (kbKey_injective rc leg key)
          simp only [servedKb, if_neg scalar, lookupKbCacheEntry, storeKbCacheEntry,
            Function.update_of_ne otherKey]

/-- The whole loop over the requested buckets. -/
theorem readBuckets_spec (tm : String → String → Option RollupHash) (buckets : List String)
    (acc : List BucketReport × KbCache) :
    ((buckets.map fun b => BucketHashes.mk b (tm b)).foldl
        (readBucket digest schema rc leg) acc).1 =
      acc.1 ++ ((buckets.map fun b => BucketHashes.mk b (tm b)).filter (hasHash schema rc)).map
        (servedReport digest schema rc leg acc.2) := by
  induction buckets generalizing acc with
  | nil => simp
  | cons b buckets ih =>
    obtain ⟨appended, kept⟩ := @readBucket_spec digest schema rc leg acc ⟨b, tm b⟩
    have later : ∀ h ∈ (buckets.map fun b => BucketHashes.mk b (tm b)).filter (hasHash schema rc),
        servedReport digest schema rc leg (readBucket digest schema rc leg acc ⟨b, tm b⟩).2 h =
          servedReport digest schema rc leg acc.2 h := by
      intro h mem
      obtain ⟨b', _, rfl⟩ := List.mem_map.mp (List.mem_filter.mp mem).1
      rw [servedReport, servedReport, kept ⟨b', tm b'⟩]
      rintro rfl
      rfl
    rw [List.map_cons, List.foldl_cons, ih, appended, List.map_congr_left later, List.append_assoc]
    cases present : hasHash schema rc ⟨b, tm b⟩ with
    | true => rw [List.filter_cons_of_pos present, if_pos rfl]; rfl
    | false =>
      rw [List.filter_cons_of_neg (by simp [present]), if_neg Bool.false_ne_true, List.nil_append]

end Loop

section Results
variable {digest : RollupHash → String} {schema : CalcSchema} {riskClass : String} {leg : FastLeg}
  {buckets : List String} {docs : List Props} {cache : KbCache} {results : List BucketReport}

/-- The readout after each document was ingested once. -/
noncomputable def readout (digest : RollupHash → String) (schema : CalcSchema) (riskClass : String)
    (leg : FastLeg) (buckets : List String) (docs : List Props) (cache : KbCache) :
    Option (List BucketReport) :=
  (tryRollupReadout digest schema riskClass leg buckets (some (ingestedHash docs)) cache).1

def bucketHashes (schema : CalcSchema) (rc : String) (leg : FastLeg) (docs : List Props)
    (b : String) : BucketHashes :=
  ⟨b, ingestedHashes schema rc leg docs b⟩

/-- The hashes of a bucket as they are read from the store. -/
def storedHashes (schema : CalcSchema) (rc : String) (leg : FastLeg) (hgetall : String → RollupHash)
    (b : String) : BucketHashes :=
  ⟨b, fun t => parseHgetall (hgetall (readoutKey schema rc (legSens leg) b t))⟩

/-- What a readout that answers has answered with. -/
theorem served_results {hgetall : String → RollupHash}
    (served : (tryRollupReadout digest schema riskClass leg buckets (some hgetall) cache).1 =
      some results) :
    (leg = .curvature → isPerTenor schema (upperCase riskClass) = true) ∧
      results = ((buckets.map (storedHashes schema (upperCase riskClass) leg hgetall)).filter
        (hasHash schema (upperCase riskClass))).map
          (servedReport digest schema (upperCase riskClass) leg cache) ∧
      (isPerTenor schema (upperCase riskClass) = false → ∀ b ∈ buckets,
        ((storedHashes schema (upperCase riskClass) leg hgetall b).tm "").isSome) := by
  unfold tryRollupReadout at served
  dsimp only at served
  by_cases unsupported : leg = .curvature ∧ ¬isPerTenor schema (upperCase riskClass) = true
  · rw [if_pos unsupported] at served
    cases served
  rw [if_neg unsupported] at served
  have perTenorLeg : leg = .curvature → isPerTenor schema (upperCase riskClass) = true := by
    intro curvature
    by_contra scalar
    exact unsupported ⟨curvature, scalar⟩
  by_cases noBuckets : buckets = []
  · rw [if_pos noBuckets] at served
    subst noBuckets
    refine ⟨perTenorLeg, (Option.some.inj served).symm, ?_⟩
    intro _ b mem
    cases mem
  rw [if_neg noBuckets] at served
  have hashes_eq : (buckets.map fun b => BucketHashes.mk b fun t =>
      parseHgetall (hgetall (readoutKey schema (upperCase riskClass) (legSens leg) b t))) =
      buckets.map (storedHashes schema (upperCase riskClass) leg hgetall) := rfl
  have loop : ((buckets.map (storedHashes schema (upperCase riskClass) leg hgetall)).foldl
      (readBucket digest schema (upperCase riskClass) leg) ([], cache)).1 =
      [] ++ ((buckets.map (storedHashes schema (upperCase riskClass) leg hgetall)).filter
        (hasHash schema (upperCase riskClass))).map
          (servedReport digest schema (upperCase riskClass) leg cache) :=
    readBuckets_spec _ buckets ([], cache)
  rw [hashes_eq] at served
  by_cases missing : (!isPerTenor schema (upperCase riskClass) &&
      (buckets.map (storedHashes schema (upperCase riskClass) leg hgetall)).any
        fun h => (h.tm "").isNone) = true
  · rw [if_pos missing] at served
    cases served
  rw [if_neg missing] at served
  split at served
  · cases served
  · refine ⟨perTenorLeg, ?_, ?_⟩
    · rw [← Option.some.inj served]
      exact loop
    · intro scalar b mem
      by_contra absent
      apply missing
      rw [scalar, Bool.not_false, Bool.true_and, List.any_eq_true]
      refine ⟨storedHashes schema (upperCase riskClass) leg hgetall b, List.mem_map_of_mem mem, ?_⟩
      exact Option.isNone_iff_eq_none.mpr (Option.not_isSome_iff_eq_none.mp absent)

theorem readout_results
    (served : readout digest schema riskClass leg buckets docs cache = some results) :
    (leg = .curvature → isPerTenor schema (upperCase riskClass) = true) ∧
      results = ((buckets.map (bucketHashes schema (upperCase riskClass) leg docs)).filter
        (hasHash schema (upperCase riskClass))).map
          (servedReport digest schema (upperCase riskClass) leg cache) ∧
      (isPerTenor schema (upperCase riskClass) = false → ∀ b ∈ buckets,
        (ingestedHashes schema (upperCase riskClass) leg docs b "").isSome) :=
  served_results served

theorem readoutReport_bucket (schema : CalcSchema) (rc : String) (leg : FastLeg) (b : String)
    (tm : String → Option RollupHash) : (readoutReport schema rc leg b tm).bucket = b := by
  unfold readoutReport
  dsimp only
  split
  · split <;> rfl
  · rfl

/-- The reports of a bucket. -/
theorem mem_results_iff
    (served : readout digest schema riskClass leg buckets docs cache = some results) {b : String}
    (requested : b ∈ buckets) (r : BucketReport) :
    (r ∈ results ∧ r.bucket = b) ↔
      hasHash schema (upperCase riskClass)
          (bucketHashes schema (upperCase riskClass) leg docs b) = true ∧
        r = servedReport digest schema (upperCase riskClass) leg cache
          (bucketHashes schema (upperCase riskClass) leg docs b) := by
  obtain ⟨_, rfl, _⟩ := readout_results served
  constructor
  · rintro ⟨mem, inBucket⟩
    obtain ⟨h, hmem, rfl⟩ := List.mem_map.mp mem
    obtain ⟨listed, present⟩ := List.mem_filter.mp hmem
    obtain ⟨b', _, rfl⟩ := List.mem_map.mp listed
    have own : b' = b := by
      rw [← inBucket]
      exact (readoutReport_bucket _ _ _ _ _).symm
    subst own
    exact ⟨present, rfl⟩
  · rintro ⟨present, rfl⟩
    refine ⟨List.mem_map_of_mem (List.mem_filter.mpr ⟨List.mem_map_of_mem requested, present⟩), ?_⟩
    exact readoutReport_bucket _ _ _ _ _

end Results

section Agreement
variable {fold : String → String} {digest : RollupHash → String} {schema : CalcSchema}
  {riskClass : String} {leg : FastLeg} {buckets : List String} {docs : List Props}
  {cache : KbCache} {results : List BucketReport} {b : String}

/-- A bucket with rows has a name. -/
theorem bucket_named {rc : String} (some_ : bucketDocs rc leg docs b ≠ []) : b ≠ "" := by
  obtain ⟨d, mem⟩ := List.exists_mem_of_ne_nil _ some_
  obtain ⟨_, _, _, _, named, _⟩ := HashLayout.rowTags_eq_some (mem_bucketDocs.mp mem).2
  exact named

/-- What the index answers for a bucket with rows. -/
theorem lookup_indexed (layout : InLayout fold schema (upperCase riskClass) leg buckets docs)
    (requested : b ∈ buckets) (some_ : bucketDocs (upperCase riskClass) leg docs b ≠ [])
    (topN : Option ℕ) (searchVer : ℕ) (nan : NanChoice String)
    (nanPerRf : NanChoice (String × String))
    (answerable : RowsAnswerable schema (upperCase riskClass)
      [indexedNode fold (upperCase riskClass) leg docs nan nanPerRf]) :
    ∃ report perRf, (aggregateBucketsViaIndex schema riskClass leg false topN searchVer
        [indexedNode fold (upperCase riskClass) leg docs nan nanPerRf]).lookup b = some report ∧
      report = bucketResultFromRow b (rowAt (unweighedRows schema (upperCase riskClass) leg false
        searchVer [indexedNode fold (upperCase riskClass) leg docs nan nanPerRf]) b)
        (resolveLegFields schema (upperCase riskClass) leg) leg
        (resolveRho schema (upperCase riskClass) leg) (isPerTenor schema (upperCase riskClass))
        perRf topN ∧
      report.count = (bucketDocs (upperCase riskClass) leg docs b).length := by
  have rows := mapOf_unweighedRows schema (upperCase riskClass) leg false searchVer
    [indexedNode fold (upperCase riskClass) leg docs nan nanPerRf]
  have named := bucket_named some_
  rw [List.flatMap_singleton] at rows
  have here := rows b
  rw [docsOf_indexedNode layout requested, if_pos ⟨decide_eq_true named, by
    simpa using some_⟩] at here
  obtain ⟨row, found, _⟩ := here
  have count := rowCount_rowAt rows (decide_eq_true named)
  rw [docsOf_indexedNode layout requested, List.length_map] at count
  have merged : (mergedRows (requestOf schema (upperCase riskClass) leg false).1 leg
      (requestOf schema (upperCase riskClass) leg false).2 searchVer
      [indexedNode fold (upperCase riskClass) leg docs nan nanPerRf]).lookup b = some row := by
    rw [lookup_mergedRows, found, Option.map_some, weighRow_of_plain (Or.inl rfl)]
  have rowEq : rowAt (unweighedRows schema (upperCase riskClass) leg false searchVer
      [indexedNode fold (upperCase riskClass) leg docs nan nanPerRf]) b = row := by
    rw [rowAt, found, Option.getD_some]
  have answer := lookup_aggregateBucketsViaIndex schema riskClass leg false topN searchVer
    answerable.bucket b
  rw [merged, Option.map_some] at answer
  refine ⟨_, _, answer, by rw [rowEq]; rfl, ?_⟩
  rw [rowEq] at count
  rw [← count]
  cases leg <;> rfl

/-- The cached `K_b` of a scalar bucket, where it is under the digest of the
bucket's hash, is that of the bucket's rows. -/
def KbFresh (digest : RollupHash → String) (schema : CalcSchema) (rc : String) (leg : FastLeg)
    (docs : List Props) (cache : KbCache) (b : String) : Prop :=
  isPerTenor schema rc = false → ∀ kb,
    lookupKbCacheEntry cache (kbKey rc leg b)
      (digest ((ingestedHashes schema rc leg docs b "").getD ∅)) = some kb →
    let values := valuesAt rc (countedRoot leg) (bucketDocs rc leg docs b) ""
    kb = (kbFromConstantRho values.sum (values.map fun x => x * x).sum
      (resolveRho schema rc leg)).1

/-- `K_b` of a scalar bucket before the cache. -/
theorem readoutReport_kb_scalar {rc : String} (layout : InLayout fold schema rc leg buckets docs)
    (requested : b ∈ buckets) (scalarKind : leg ≠ .curvature)
    (scalar : isPerTenor schema rc = false) :
    let values := valuesAt rc (countedRoot leg) (bucketDocs rc leg docs b) ""
    (readoutReport schema rc leg b (ingestedHashes schema rc leg docs b)).kb =
      (kbFromConstantRho values.sum (values.map fun x => x * x).sum
        (resolveRho schema rc leg)).1 := by
  have tenors : fieldTenors schema rc = [""] := if_neg (by simp [scalar])
  obtain ⟨ws, sq, _⟩ := hashNumber_valueRows layout requested scalarKind
    (t := "") (by rw [tenors]; exact List.mem_singleton.mpr rfl)
  have root : scalarLeg (legSens leg) = countedRoot leg := by
    cases leg with
    | delta => rfl
    | vega => rfl
    | curvature => exact absurd rfl scalarKind
  rw [root] at ws sq
  have notDelta : ¬(isPerTenor schema rc = true ∧ leg = .delta) := by simp [scalar]
  simp only [readoutReport, if_neg scalarKind, if_neg notDelta, tenors, List.map_cons, List.map_nil,
    List.sum_cons, List.sum_nil, add_zero, ingestedHashes, ws, sq]

/-- The answer of a bucket with rows is its `K_b` exactly when the cache is fresh. -/
theorem servedKb_eq_iff (digest : RollupHash → String) (cache : KbCache) {rc : String}
    (layout : InLayout fold schema rc leg buckets docs)
    (requested : b ∈ buckets) (perTenorLeg : leg = .curvature → isPerTenor schema rc = true) :
    servedKb digest schema rc leg cache (bucketHashes schema rc leg docs b) =
        (readoutReport schema rc leg b (ingestedHashes schema rc leg docs b)).kb ↔
      KbFresh digest schema rc leg docs cache b := by
  unfold servedKb KbFresh
  cases scalar : isPerTenor schema rc with
  | true => simp [bucketHashes]
  | false =>
    have scalarKind : leg ≠ .curvature := by
      intro curvature
      rw [perTenorLeg curvature] at scalar
      cases scalar
    have own := readoutReport_kb_scalar layout requested scalarKind scalar
    dsimp only at own ⊢
    rw [if_neg Bool.false_ne_true, ← own]
    simp only [bucketHashes, forall_const]
    cases lookupKbCacheEntry cache (kbKey rc leg b)
        (digest ((ingestedHashes schema rc leg docs b "").getD ∅)) with
    | none => simp
    | some kb => simp

/-- A bucket whose rows count has a hash. -/
theorem hasHash_of_tally {rc : String} (layout : InLayout fold schema rc leg buckets docs)
    (requested : b ∈ buckets) (perTenorLeg : leg = .curvature → isPerTenor schema rc = true)
    (counted : tally schema rc leg (bucketDocs rc leg docs b) ≠ 0) :
    hasHash schema rc (bucketHashes schema rc leg docs b) = true := by
  by_contra absent
  apply counted
  apply List.sum_eq_zero
  intro n mem
  obtain ⟨t, ht, rfl⟩ := List.mem_map.mp mem
  have count := hashNumber_count layout requested perTenorLeg ht
  have none_ : ingestedHashes schema rc leg docs b t = none := by
    rw [hasHash, List.any_eq_true] at absent
    by_contra here
    exact absent ⟨t, ht, Option.isSome_iff_ne_none.mpr here⟩
  rw [none_] at count
  exact Nat.cast_eq_zero.mp (Eq.symm count)

/-- Every bucket with rows has a report that is the index's. -/
def ReadoutAgrees (schema : CalcSchema) (riskClass : String) (leg : FastLeg)
    (buckets : List String) (docs : List Props) (results : List BucketReport) (topN : Option ℕ)
    (searchVer : ℕ) (node : Node) : Prop :=
  ∀ b ∈ buckets, bucketDocs (upperCase riskClass) leg docs b ≠ [] →
    (∃ r ∈ results, r.bucket = b) ∧ ∃ indexed,
      (aggregateBucketsViaIndex schema riskClass leg false topN searchVer [node]).lookup b =
        some indexed ∧
      ∀ r ∈ results, r.bucket = b →
        r.kb = indexed.kb ∧ r.sb = indexed.sb ∧ r.count = indexed.count

/-- The readout agrees with the index exactly where the rows have one value
each, counted over the tenors of the class, and no cached `K_b` is another's. -/
theorem readoutAgrees_iff (digest : RollupHash → String) (cache : KbCache) (topN : Option ℕ)
    (searchVer : ℕ) (nan : NanChoice String) (nanPerRf : NanChoice (String × String))
    (layout : InLayout fold schema (upperCase riskClass) leg buckets docs)
    (answerable : RowsAnswerable schema (upperCase riskClass)
      [indexedNode fold (upperCase riskClass) leg docs nan nanPerRf])
    (served : readout digest schema riskClass leg buckets docs cache = some results) :
    ReadoutAgrees schema riskClass leg buckets docs results topN searchVer
        (indexedNode fold (upperCase riskClass) leg docs nan nanPerRf) ↔
      ∀ b ∈ buckets, bucketDocs (upperCase riskClass) leg docs b ≠ [] →
        tally schema (upperCase riskClass) leg (bucketDocs (upperCase riskClass) leg docs b) =
            (bucketDocs (upperCase riskClass) leg docs b).length ∧
          KbFresh digest schema (upperCase riskClass) leg docs cache b := by
  obtain ⟨perTenorLeg, _, _⟩ := readout_results served
  have answer_iff : ∀ b ∈ buckets, bucketDocs (upperCase riskClass) leg docs b ≠ [] →
      ∀ indexed, (aggregateBucketsViaIndex schema riskClass leg false topN searchVer
        [indexedNode fold (upperCase riskClass) leg docs nan nanPerRf]).lookup b = some indexed →
      let r := servedReport digest schema (upperCase riskClass) leg cache
        (bucketHashes schema (upperCase riskClass) leg docs b)
      (r.kb = indexed.kb ∧ r.sb = indexed.sb ∧ r.count = indexed.count) ↔
        tally schema (upperCase riskClass) leg (bucketDocs (upperCase riskClass) leg docs b) =
            (bucketDocs (upperCase riskClass) leg docs b).length ∧
          KbFresh digest schema (upperCase riskClass) leg docs cache b := by
    intro b requested some_ indexed found r
    obtain ⟨report, perRf, here, made, count⟩ := lookup_indexed layout requested some_ topN
      searchVer nan nanPerRf answerable
    obtain rfl : report = indexed := Option.some.inj (here.symm.trans found)
    obtain ⟨kb, sb⟩ := readoutReport_agrees layout requested (bucket_named some_) perTenorLeg
      searchVer nan nanPerRf perRf topN
    rw [← made] at kb sb
    have counted : r.count = tally schema (upperCase riskClass) leg
        (bucketDocs (upperCase riskClass) leg docs b) :=
      readoutReport_count layout requested perTenorLeg
    have fresh := servedKb_eq_iff digest cache layout requested perTenorLeg
    rw [← kb, counted, count, Nat.cast_inj, ← fresh]
    constructor
    · rintro ⟨sameKb, _, sameCount⟩
      exact ⟨sameCount, sameKb⟩
    · rintro ⟨sameCount, sameKb⟩
      exact ⟨sameKb, sb, sameCount⟩
  constructor
  · intro agrees b requested some_
    obtain ⟨⟨r, mem, inBucket⟩, indexed, found, equal⟩ := agrees b requested some_
    obtain ⟨_, rfl⟩ := (mem_results_iff served requested r).mp ⟨mem, inBucket⟩
    exact (answer_iff b requested some_ indexed found).mp (equal _ mem inBucket)
  · intro holds b requested some_
    obtain ⟨indexed, _, found, _⟩ := lookup_indexed layout requested some_ topN searchVer nan
      nanPerRf answerable
    have counted := (holds b requested some_).1
    have present : hasHash schema (upperCase riskClass)
        (bucketHashes schema (upperCase riskClass) leg docs b) = true := by
      apply hasHash_of_tally layout requested perTenorLeg
      rw [counted]
      exact fun empty => some_ (List.eq_nil_of_length_eq_zero empty)
    obtain ⟨mem, inBucket⟩ := (mem_results_iff served requested _).mpr ⟨present, rfl⟩
    refine ⟨⟨_, mem, inBucket⟩, indexed, found, ?_⟩
    intro r hr hb
    obtain ⟨_, rfl⟩ := (mem_results_iff served requested r).mp ⟨hr, hb⟩
    exact (answer_iff b requested some_ indexed found).mpr (holds b requested some_)

end Agreement

section Demo

/-- A per-tenor readout answers once one bucket has a hash. -/
theorem readout_of_hash (digest : RollupHash → String) (schema : CalcSchema) (riskClass : String)
    (leg : FastLeg) {buckets : List String} (docs : List Props) (cache : KbCache)
    (perTenor : isPerTenor schema (upperCase riskClass) = true) {b : String}
    (requested : b ∈ buckets)
    (present : hasHash schema (upperCase riskClass)
      (bucketHashes schema (upperCase riskClass) leg docs b) = true) :
    ∃ results, readout digest schema riskClass leg buckets docs cache = some results := by
  have loop : ((buckets.map (bucketHashes schema (upperCase riskClass) leg docs)).foldl
      (readBucket digest schema (upperCase riskClass) leg) ([], cache)).1 =
      [] ++ ((buckets.map (bucketHashes schema (upperCase riskClass) leg docs)).filter
        (hasHash schema (upperCase riskClass))).map
          (servedReport digest schema (upperCase riskClass) leg cache) :=
    readBuckets_spec _ buckets ([], cache)
  have nonempty : ((buckets.map (bucketHashes schema (upperCase riskClass) leg docs)).foldl
      (readBucket digest schema (upperCase riskClass) leg) ([], cache)).1.isEmpty = false := by
    rw [loop, List.nil_append, List.isEmpty_eq_false_iff]
    apply List.ne_nil_of_mem
    exact List.mem_map_of_mem (List.mem_filter.mpr ⟨List.mem_map_of_mem requested, present⟩)
  have hashes_eq : (buckets.map fun b => BucketHashes.mk b fun t =>
      parseHgetall (ingestedHash docs
        (readoutKey schema (upperCase riskClass) (legSens leg) b t))) =
      buckets.map (bucketHashes schema (upperCase riskClass) leg docs) := rfl
  refine ⟨((buckets.map (bucketHashes schema (upperCase riskClass) leg docs)).foldl
    (readBucket digest schema (upperCase riskClass) leg) ([], cache)).1, ?_⟩
  unfold readout tryRollupReadout
  dsimp only
  rw [hashes_eq, if_neg (fun h => h.2 perTenor), if_neg (List.ne_nil_of_mem requested), perTenor,
    Bool.not_true, Bool.false_and, if_neg Bool.false_ne_true, nonempty, Bool.and_false,
    if_neg Bool.false_ne_true]

/-- GIRR with two tenors and no correlation. -/
def girrSchema : CalcSchema where
  riskClasses := ofPairs [("GIRR", ⟨some ["3M", "6M"], "girr_delta_weights"⟩)]
  riskWeights := ofPairs [("girr_delta_weights", .byTenor (ofPairs [("3M", 1 / 2), ("6M", 1 / 4)]))]
  intraBucketCorrelationRef := fun _ => none
  correlations := fun _ => none

/-- A GIRR Delta row of the bucket EUR after enrichment. -/
def girrDeltaDoc (riskValue : List (String × Json)) : Props :=
  enrichDoc (ofPairs [("risk_class", .str "GIRR"), ("bucket", .str "EUR"),
    ("sensitivity_type", .str "Delta"), ("risk_value", .obj riskValue)]) (some girrSchema.toSchema)

theorem girrDeltaDoc_layout (riskValue : List (String × Json))
    (tagged : rowTags (girrDeltaDoc riskValue) = some ⟨"GIRR", "EUR", "Delta"⟩) :
    InLayout lowerCase girrSchema (upperCase "GIRR") .delta ["EUR"] [girrDeltaDoc riskValue] := by
  refine ⟨fun _ => by decide +kernel, ?_, ?_, ?_⟩
  · intro d mem _ _
    obtain rfl := List.mem_singleton.mp mem
    obtain ⟨cls, _, type⟩ := textOf_of_rowTags tagged
    exact ⟨cls, type⟩
  · intro d mem _ _
    obtain rfl := List.mem_singleton.mp mem
    refine ⟨by rw [tagged]; rfl, ?_, by intro h; cases h⟩
    intro scalar
    exact absurd scalar (by decide +kernel)
  · intro d mem tags own b requested _ _ _ _
    obtain rfl := List.mem_singleton.mp mem
    obtain rfl := List.mem_singleton.mp requested
    rw [tagged, Option.some.injEq] at own
    rw [← own]
    decide +kernel

theorem girrDeltaDoc_answerable (riskValue : List (String × Json)) (nan : NanChoice String)
    (nanPerRf : NanChoice (String × String)) :
    RowsAnswerable girrSchema (upperCase "GIRR")
      [indexedNode lowerCase (upperCase "GIRR") .delta [girrDeltaDoc riskValue] nan nanPerRf] := by
  refine ⟨fun _ => by decide +kernel, fun node mem => ?_⟩
  obtain rfl := List.mem_singleton.mp mem
  have one : (indexedNode lowerCase (upperCase "GIRR") .delta [girrDeltaDoc riskValue] nan
      nanPerRf).docs.length ≤ 1 := by
    rw [indexedNode, List.length_map]
    exact List.length_filter_le _ _
  calc _ ≤ ((indexedNode lowerCase (upperCase "GIRR") .delta [girrDeltaDoc riskValue] nan
          nanPerRf).docs.map IndexDoc.bucket).length := (List.dedup_sublist _).length_le
    _ ≤ 1 := by rw [List.length_map]; exact one
    _ ≤ bucketLimit := by decide

/-- A row with one tenor counts once on both sides. -/
theorem readoutAgrees_oneTenor :
    ∃ results, readout (fun _ => "") girrSchema "GIRR" .delta ["EUR"]
      [girrDeltaDoc [("3M", .num 10)]]
        (fun _ => none) = some results ∧
      ReadoutAgrees girrSchema "GIRR" .delta ["EUR"] [girrDeltaDoc [("3M", .num 10)]] results none
        0 (indexedNode lowerCase (upperCase "GIRR") .delta [girrDeltaDoc [("3M", .num 10)]]
          (fun _ _ => false) fun _ _ => false) := by
  obtain ⟨results, served⟩ := readout_of_hash (fun _ => "") girrSchema "GIRR" .delta
    [girrDeltaDoc [("3M", .num 10)]] (fun _ => none) (by decide +kernel)
    (List.mem_singleton.mpr (rfl : "EUR" = "EUR")) (by decide +kernel)
  refine ⟨results, served, ?_⟩
  refine (readoutAgrees_iff (fun _ => "") (fun _ => none) none 0 _ _
    (girrDeltaDoc_layout [("3M", .num 10)] (by decide +kernel))
    (girrDeltaDoc_answerable _ _ _) served).mpr ?_
  intro b requested _
  obtain rfl := List.mem_singleton.mp requested
  refine ⟨by decide +kernel, ?_⟩
  intro scalar
  exact absurd scalar (by decide +kernel)

/-- A row with two tenors is counted twice by the readout and once by the index. -/
theorem row_counted_per_tenor : ∃ results,
    readout (fun _ => "") girrSchema "GIRR" .delta ["EUR"]
        [girrDeltaDoc [("3M", .num 10), ("6M", .num 20)]] (fun _ => none) = some results ∧
      ¬ReadoutAgrees girrSchema "GIRR" .delta ["EUR"]
        [girrDeltaDoc [("3M", .num 10), ("6M", .num 20)]] results none 0
        (indexedNode lowerCase (upperCase "GIRR") .delta
          [girrDeltaDoc [("3M", .num 10), ("6M", .num 20)]]
          (fun _ _ => false) fun _ _ => false) := by
  have layout := girrDeltaDoc_layout [("3M", .num 10), ("6M", .num 20)]
    (by decide +kernel)
  have requested : "EUR" ∈ ["EUR"] := List.mem_singleton.mpr rfl
  have some_ : bucketDocs (upperCase "GIRR") .delta
      [girrDeltaDoc [("3M", .num 10), ("6M", .num 20)]] "EUR" ≠ [] :=
    List.ne_nil_of_length_pos (by decide +kernel)
  obtain ⟨results, served⟩ := readout_of_hash (fun _ => "") girrSchema "GIRR" .delta
    [girrDeltaDoc [("3M", .num 10), ("6M", .num 20)]] (fun _ => none) (by decide +kernel)
    requested (by decide +kernel)
  refine ⟨results, served, ?_⟩
  intro agrees
  obtain ⟨⟨r, mem, inBucket⟩, indexed, found, equal⟩ := agrees "EUR" requested some_
  obtain ⟨_, rfl⟩ := (mem_results_iff served requested r).mp ⟨mem, inBucket⟩
  obtain ⟨report, _, here, _, rows⟩ := lookup_indexed layout requested some_ none 0
    (fun _ _ => false) (fun _ _ => false) (girrDeltaDoc_answerable _ _ _)
  obtain rfl : report = indexed := Option.some.inj (here.symm.trans found)
  have counted := readoutReport_count layout requested (by intro h; cases h)
  have same := (equal _ mem inBucket).2.2
  rw [rows] at same
  have twice : ((2 : ℕ) : ℚ) = (1 : ℕ) := by
    calc ((2 : ℕ) : ℚ) = tally girrSchema (upperCase "GIRR") .delta (bucketDocs (upperCase "GIRR")
          .delta [girrDeltaDoc [("3M", .num 10), ("6M", .num 20)]] "EUR") := by decide +kernel
      _ = _ := counted.symm
      _ = _ := same
      _ = (1 : ℕ) := by decide +kernel
  norm_num at twice

end Demo

end ReadoutAgreement
