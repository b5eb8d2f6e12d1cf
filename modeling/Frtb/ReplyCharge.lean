import Frtb.CalcService
import Frtb.ReplyReduce

/-!
# The charge route on the replies themselves

`runSbmFanoutPhase` and `finalizeSbmCharge` where each command answers with any
reply at all. The components of the drilldown, timings and command echoes are left
out. `contribution` states what the replies spell for a bucket.
-/

namespace ReplyCharge

open JsNumbers JsNumber AssocMaps JsonText FastPath FastPathRows IndexedRows
    ChargeReduce CalcService
open BackendReplies ReplyReduce
open RollupReadout (kbCacheKey readoutKey readoutReport)
open StorageWriter (upperCase)

section Commands

/-- What a master replies to the aggregates of a query: by bucket, and by bucket and
risk factor. -/
structure Master where
  aggregate : AggregateQuery → Except String Json
  components : AggregateQuery → Except String Json

/-- What the commands of one fan-out reply, or the message they fail with. -/
structure Replies where
  targetLabel : String
  pending : String
  smembers : String → Except String Json
  /-- `num_docs` of the index, zero when it cannot be read. -/
  numDocs : ℕ
  desks : List String
  hgetall : String → Except String Json
  kbEntry : String → Except String Json
  masters : List Master
  fcall : String → Leg → String → ExcludeCsv → Except String Json

structure RouteConfig extends CalcConfig where
  schema : CalcSchema
  aggregateAllowed : Bool
  /-- The SHA-1 of a hash's sorted fields. -/
  digest : ReplyHash → String

def fastLeg : Leg → FastLeg
  | .delta => .delta
  | .vega => .vega
  | .curvature => .curvature

end Commands

section Engines
variable (cfg : RouteConfig) (q : ComputeSbmInput) (v : Replies)

/-- The hash of a bucket's tenor, none where the reply has none. -/
def storedHash (b t : String) : Option ReplyHash :=
  let rc := upperCase q.riskClass
  match v.hgetall (readoutKey cfg.schema rc (legSens (fastLeg q.leg)) b t) with
  | .ok reply => parseHgetall reply
  | .error _ => none

/-- The cached `K_b` of a bucket that is read from one hash. The loop writes only
entries of other buckets before this one is read. -/
def cachedKb (b : String) : Option ℚ :=
  let rc := upperCase q.riskClass
  if isPerTenor cfg.schema rc then none
  else lookupKbCacheEntry (v.kbEntry (kbCacheKey rc b (legSens (fastLeg q.leg)) "default" "n_a"))
    (cfg.digest ((storedHash cfg q v b "").getD ∅))

noncomputable def readBucket (b : String) : ReadResult :=
  let result := readoutResult cfg.schema (upperCase q.riskClass) (fastLeg q.leg) b
    (storedHash cfg q v b)
  match cachedKb cfg q v b with
  | some kb => { result with kb := .fin (kb : ℝ) }
  | none => result

noncomputable def tryRollupReadout (buckets : List String) : Option (List ReadResult) :=
  let rc := upperCase q.riskClass
  let perTenor := isPerTenor cfg.schema rc
  let tenors := fieldTenors cfg.schema rc
  if q.leg = .curvature ∧ ¬perTenor then none
  else if buckets = [] then some []
  else if !buckets.all fun b => tenors.all fun t =>
      (v.hgetall (readoutKey cfg.schema rc (legSens (fastLeg q.leg)) b t)).isOk then none
  else if !perTenor && buckets.any fun b => (storedHash cfg q v b "").isNone then none
  else
    let present := buckets.filter fun b => tenors.any fun t => (storedHash cfg q v b t).isSome
    if perTenor && present.isEmpty then none else some (present.map (readBucket cfg q v))

/-- The aggregates of a master, one after the other. -/
def askMaster (components : Bool) (query : AggregateQuery) (m : Master) : Except String Json :=
  match m.aggregate query with
  | .error message => .error message
  | .ok reply =>
    if components then
      match m.components query with
      | .error message => .error message
      | .ok _ => .ok reply
    else .ok reply

/-- The replies of all masters to the query; the first failing one is reported. -/
def masterReplies : Except String (List Json) :=
  v.masters.mapM (askMaster (!isPerTenor cfg.schema (upperCase q.riskClass))
    (aggregateQuery q v.desks))

/-- The result of a bucket from its merged row. -/
noncomputable def rowResult (b : String) (row : Record) : ReadResult :=
  let rc := upperCase q.riskClass
  let leg := fastLeg q.leg
  let request := requestOf cfg.schema rc leg cfg.lazyMath
  let report := bucketResultFromRow b row request.1 leg (resolveRho cfg.schema rc leg)
    (isPerTenor cfg.schema rc) [] none
  ⟨b, .fin report.kb, .fin report.sb, .fin report.count⟩

/-- The merged rows of the masters, weighed. -/
def mergedReplies (replies : List Json) : Assoc String Record :=
  let leg := fastLeg q.leg
  let request := requestOf cfg.schema (upperCase q.riskClass) leg cfg.lazyMath
  weighRows id leg request.1 request.2 (mergeReplies (replies.map parseReply))

noncomputable def indexResults (replies : List Json) : List ReadResult :=
  (pairs (mergedReplies cfg q replies)).map fun p => rowResult cfg q p.1 p.2

/-- One result for each bucket, zero where there is none. -/
def fillBuckets (buckets : List String) (rows : List ReadResult) : List ReadResult :=
  let byBucket := ofPairs (rows.map fun r => (r.bucket, r))
  buckets.map fun b => (byBucket.lookup b).getD ⟨b, 0, 0, 0⟩

structure Bundle where
  results : List ReadResult
  engineUsed : EngineTag
  buckets : List String

def failWith (message : String) : Failure :=
  (translateRedisError v.targetLabel v.pending message).getD (.thrown message)

noncomputable def fastPath (buckets : List String) : Except Failure Bundle :=
  let rollup := if cfg.rollupPath && !hasFilter q then tryRollupReadout cfg q v buckets else none
  match rollup with
  | some rows => .ok ⟨fillBuckets buckets rows, .rollup, buckets⟩
  | none =>
    if !cfg.aggregateAllowed then .error (.answered 412 "fallback-disabled")
    else
      match masterReplies cfg q v with
      | .ok replies => .ok ⟨fillBuckets buckets (indexResults cfg q replies), .ftAggregate, buckets⟩
      | .error message => .error (failWith v message)

/-- The result of a kernel's reply; zero when the reply cannot be parsed. -/
noncomputable def kernelResult (b : String) (reply : Json) : ReadResult :=
  match parseBucketReply reply with
  | some r => ⟨b, ofRat r.kb, r.sb, r.count⟩
  | none => ⟨b, 0, 0, 0⟩

noncomputable def luaPath (buckets : List String) : Except Failure Bundle :=
  match buckets.mapM fun b => v.fcall q.riskClass q.leg b q.excludeCsv with
  | .ok replies => .ok ⟨(buckets.zip replies).map fun p => kernelResult p.1 p.2, .fcallLua, buckets⟩
  | .error message => .error (failWith v message)

noncomputable def dispatch (buckets : List String) : Except Failure Bundle :=
  let wanted := wantsFastPath cfg.toCalcConfig q
  if !wanted && !cfg.fcallFallback && !cfg.hasSchema then
    .error (.answered 503 "fcall-fallback-disabled")
  else
    let useFastPath := wanted || !cfg.fcallFallback
    if !useFastPath && cfg.lazyMath then
      .error (.answered 503 "fcall-incompatible-with-lazy-math")
    else if useFastPath then fastPath cfg q v buckets
    else luaPath q v buckets

/-- The texts of a reply with the members of a set. -/
def seenBuckets : Json → List String
  | .arr items => (items.filterMap fun
      | .str b => some b
      | _ => none).eraseDups
  | _ => []

noncomputable def runSbmFanoutPhase : Except Failure Bundle :=
  match v.smembers q.riskClass with
  | .error message =>
    match translateRedisError v.targetLabel v.pending message with
    | some failure => .error failure
    | none => if v.numDocs = 0 then .error noData else .error (.answered 502 "discovery-failed")
  | .ok reply =>
    let buckets := narrowBuckets q (seenBuckets reply)
    if buckets = [] ∧ v.numDocs = 0 then .error noData else dispatch cfg q v buckets

end Engines

section Answers

structure Body where
  charge : JsNumber ℝ
  perBucket : List ReadResult
  regime : CorrelationRegime
  engine : EngineTag
  dataStatus : DataStatus
  curvatureBranch : Option CurvatureBranch

noncomputable def reduceCharge (cfg : RouteConfig) (q : ComputeSbmInput) (per : List ReadResult) :
    JsNumber ℝ × Option CurvatureBranch :=
  match q.leg with
  | .curvature =>
    let out := reduceCurvatureCharge per (scaledCorrelations cfg.toCalcConfig q)
    (out.1, some (if out.2 then .fallbackClippedS else .positiveInterior))
  | _ => (reduceRiskClassCharge per (scaledCorrelations cfg.toCalcConfig q), none)

noncomputable def finalizeSbmCharge (cfg : RouteConfig) (q : ComputeSbmInput) (bundle : Bundle) :
    Body where
  charge := (reduceCharge cfg q bundle.results).1
  perBucket := bundle.results
  regime := q.regime
  engine := bundle.engineUsed
  dataStatus := if bundle.results.any (fun r => 0 < r.count) then .populated else .empty
  curvatureBranch := (reduceCharge cfg q bundle.results).2

noncomputable def answer (cfg : RouteConfig) (q : ComputeSbmInput) (v : Replies) :
    Except Failure Body :=
  (runSbmFanoutPhase cfg q v).map (finalizeSbmCharge cfg q)

end Answers

section Contributions
variable (cfg : RouteConfig) (q : ComputeSbmInput) (v : Replies)

/-- The hash of a bucket's tenor with the numbers that its reply spells. -/
def spelledTenor (b t : String) : Option (Option RollupReadout.RollupHash) :=
  let rc := upperCase q.riskClass
  let leg := fastLeg q.leg
  match v.hgetall (readoutKey cfg.schema rc (legSens leg) b t) with
  | .error _ => none
  | .ok reply =>
    (spelledHash reply).bind fun h =>
      if (h.map (isNumeric (readFields cfg.schema rc leg))).getD true then some (h.map numberHash)
      else none

/-- The rows that all masters reply. -/
def indexRows : Option (List (String × Record)) :=
  match masterReplies cfg q v with
  | .error _ => none
  | .ok replies => (replies.mapM spelledRows).map List.flatten

/-- The rows that name a bucket. -/
def bucketRows (b : String) (rows : List (String × Record)) : List Record :=
  if b = "" then [] else rowsAt b rows

/-- The `K_b` and `S_b` that an engine's replies spell for a bucket; none when one of
them cannot be read. A sum that is not finite counts as zero, and the `K_b` of a
single hash may be cached. -/
noncomputable def contribution (engine : EngineTag) (b : String) : Option (ℝ × ℚ) :=
  let rc := upperCase q.riskClass
  let leg := fastLeg q.leg
  let rho := resolveRho cfg.schema rc leg
  match engine with
  | .fcallLua =>
    match v.fcall q.riskClass q.leg b q.excludeCsv with
    | .error _ => none
    | .ok reply => (spelledReply reply).map fun p => ((p.1 : ℝ), p.2)
  | .ftAggregate =>
    (indexRows cfg q v).map fun rows =>
      let request := requestOf cfg.schema rc leg cfg.lazyMath
      let row := weighRow leg request.1 request.2 b (totalRecord (bucketRows b rows))
      let report := bucketResultFromRow b row request.1 leg rho (isPerTenor cfg.schema rc) [] none
      (report.kb, report.sb)
  | .rollup =>
    if (fieldTenors cfg.schema rc).all fun t => (spelledTenor cfg q v b t).isSome then
      let report := readoutReport cfg.schema rc leg b fun t => (spelledTenor cfg q v b t).getD none
      some (((cachedKb cfg q v b).map fun kb => (kb : ℝ)).getD report.kb, report.sb)
    else none

/-- The buckets that the request is about. -/
def discovered : List String :=
  match v.smembers q.riskClass with
  | .error _ => []
  | .ok reply => narrowBuckets q (seenBuckets reply)

/-- No command behind an answer of the engine failed. -/
def Replied (engine : EngineTag) : Prop :=
  (∃ reply, v.smembers q.riskClass = .ok reply) ∧
  match engine with
  | .fcallLua => ∀ b ∈ discovered q v, ∃ reply, v.fcall q.riskClass q.leg b q.excludeCsv = .ok reply
  | .ftAggregate => ∃ replies, masterReplies cfg q v = .ok replies
  | .rollup => ∀ b ∈ discovered q v, ∀ t ∈ fieldTenors cfg.schema (upperCase q.riskClass),
      ∃ reply, v.hgetall (readoutKey cfg.schema (upperCase q.riskClass)
        (legSens (fastLeg q.leg)) b t) = .ok reply

end Contributions

section Results
variable {cfg : RouteConfig} {q : ComputeSbmInput} {v : Replies} {buckets : List String}
  {bundle : Bundle}

/-- The result is what the replies spell for its bucket, if they spell anything. -/
def Reads (cfg : RouteConfig) (q : ComputeSbmInput) (v : Replies) (engine : EngineTag)
    (r : ReadResult) : Prop :=
  ∀ k s, contribution cfg q v engine r.bucket = some (k, s) → r.kb = .fin k ∧ r.sb = .fin s

theorem lookup_ofPairs_map_self {α β : Type*} [DecidableEq α] (g : α → β) (l : List α) (a : α) :
    (ofPairs (l.map fun a => (a, g a))).lookup a = if a ∈ l then some (g a) else none := by
  have fsts : (l.map fun a => (a, g a)).map Prod.fst = l := by
    rw [List.map_map]
    exact List.map_id' l
  by_cases mem : a ∈ l
  · rw [if_pos mem]
    obtain ⟨b, found⟩ := Option.isSome_iff_exists.mp
      ((lookup_ofPairs_isSome (l.map fun a => (a, g a)) a).mpr (fsts.symm ▸ mem))
    obtain ⟨a', _, same⟩ := List.mem_map.mp (mem_of_lookup_ofPairs found)
    rw [Prod.mk.injEq] at same
    obtain ⟨rfl, rfl⟩ := same
    exact found
  · rw [if_neg mem]
    exact lookup_ofPairs_eq_none (fsts.symm ▸ mem)

/-- A kernel's reply that spells its numbers. -/
theorem reads_kernelResult {b : String} {reply : Json}
    (replied : v.fcall q.riskClass q.leg b q.excludeCsv = .ok reply) :
    (kernelResult b reply).bucket = b ∧ Reads cfg q v .fcallLua (kernelResult b reply) := by
  have named : (kernelResult b reply).bucket = b := by
    unfold kernelResult
    split <;> rfl
  refine ⟨named, ?_⟩
  intro k s spelled
  rw [named] at spelled
  simp only [contribution, replied, Option.map_eq_some_iff, Prod.mk.injEq] at spelled
  obtain ⟨⟨k', s'⟩, spells, rfl, rfl⟩ := spelled
  obtain ⟨count, parsed⟩ := parseBucketReply_spelled spells
  rw [kernelResult, parsed]
  exact ⟨rfl, rfl⟩

theorem zeros_kbSquared (n : ℕ) (rho : ℚ) :
    FastPath.kbSquaredForDirection (List.replicate n 0) rho = 0 := by
  have zeros : List.replicate n (0 : ℚ) = (List.replicate n ()).map fun _ => 0 := by simp
  rw [zeros, FastPath.kbSquaredForDirection, PairSums.pairSum_map]
  simp [PairSums.pairSum]

/-- Without hashes a bucket has nothing. -/
theorem readoutReport_none (schema : CalcSchema) (rc : String) (leg : FastLeg) (b : String) :
    (readoutReport schema rc leg b fun _ => none).kb = 0 ∧
      (readoutReport schema rc leg b fun _ => none).sb = 0 := by
  have zero : ∀ field, RollupReadout.hashNumber none field = 0 := fun _ => rfl
  unfold readoutReport
  simp only [zero]
  by_cases curvature : leg = .curvature
  · simp [curvature, zeros_kbSquared]
  · rw [if_neg curvature]
    by_cases squares : isPerTenor schema rc = true ∧ leg = .delta
    · simp [squares, FastPath.kbFromConstantRho]
    · simp [squares, FastPath.kbFromConstantRho]

/-- A row without sums has nothing. -/
theorem bucketResultFromRow_noRow (b : String) (fields : LegFields) (leg : FastLeg) (rho : ℚ)
    (perTenor : Bool) :
    (bucketResultFromRow b noRow fields leg rho perTenor [] none).kb = 0 ∧
      (bucketResultFromRow b noRow fields leg rho perTenor [] none).sb = 0 := by
  have zero : ∀ name, safeNum (noRow.sums name) = 0 := fun _ => rfl
  have sums : ∀ list pre, legSums noRow list pre perTenor = (0, 0) := by
    intro list pre
    unfold legSums
    split <;> simp [zero]
  cases leg with
  | delta => simp [bucketResultFromRow, sums, FastPath.kbFromConstantRho]
  | vega => simp [bucketResultFromRow, sums, FastPath.kbFromConstantRho]
  | curvature =>
    cases perTenor with
    | true => simp [bucketResultFromRow, kbCurvatureForDirection, zero, zeros_kbSquared]
    | false => simp [bucketResultFromRow, kbCurvatureForDirection, zero]

theorem mapM_some_map {α β : Type*} {read : α → Option β} {whole : α → β} {l : List α} {l' : List β}
    (reads : ∀ a b, read a = some b → whole a = b) (all : l.mapM read = some l') :
    l.map whole = l' := by
  induction l generalizing l' with
  | nil => exact Option.some.inj all
  | cons a l ih =>
    simp only [List.mapM_cons, Option.bind_eq_bind, Option.bind_eq_some_iff, Option.pure_def,
      Option.some.injEq] at all
    obtain ⟨b, own, rest, tail, rfl⟩ := all
    rw [List.map_cons, reads a b own, ih tail]

/-- The merged row of a bucket holds the totals of the rows that name it. -/
theorem lookup_mergedReplies {replies : List Json} {rows : List (List (String × Record))}
    (spelled : replies.mapM spelledRows = some rows) (b : String) :
    (mergedReplies cfg q replies).lookup b =
      if bucketRows b rows.flatten = [] then none
      else some (weighRow (fastLeg q.leg)
        (requestOf cfg.schema (upperCase q.riskClass) (fastLeg q.leg) cfg.lazyMath).1
        (requestOf cfg.schema (upperCase q.riskClass) (fastLeg q.leg) cfg.lazyMath).2 b
        (totalRecord (bucketRows b rows.flatten))) := by
  have parsed : replies.map parseReply = rows.map parseAggregateRows := by
    rw [← mapM_some_map (fun _ _ => replyRows_of_spelled) spelled, List.map_map]
    rfl
  rw [mergedReplies, lookup_weighRows, parsed, totals_mergeReplies rows b, bucketRows]
  by_cases unnamed : b = ""
  · rw [if_pos (Or.inl unnamed), if_pos unnamed, if_pos rfl, Option.map_none]
  · rw [if_neg unnamed]
    by_cases none_ : rowsAt b rows.flatten = []
    · rw [if_pos (Or.inr none_), if_pos none_, Option.map_none]
    · rw [if_neg (by tauto), if_neg none_, Option.map_some]
      rfl

/-- The results of the index, filled up to the buckets. -/
theorem reads_indexResults {replies : List Json} (replied : masterReplies cfg q v = .ok replies)
    (b : String) :
    let byBucket := ofPairs ((indexResults cfg q replies).map fun r => (r.bucket, r))
    let result := (byBucket.lookup b).getD ⟨b, 0, 0, 0⟩
    result.bucket = b ∧ Reads cfg q v .ftAggregate result := by
  have looked : (ofPairs ((indexResults cfg q replies).map fun r => (r.bucket, r))).lookup b =
      ((mergedReplies cfg q replies).lookup b).map (rowResult cfg q b) := by
    rw [indexResults, List.map_map]
    exact lookup_ofPairs_pairs_map (mergedReplies cfg q replies) (rowResult cfg q) b
  intro byBucket result
  have named : result.bucket = b := by
    simp only [result, byBucket, looked]
    cases (mergedReplies cfg q replies).lookup b <;> rfl
  refine ⟨named, ?_⟩
  intro k s spelled
  rw [named] at spelled
  simp only [contribution, indexRows, replied, Option.map_eq_some_iff, Prod.mk.injEq] at spelled
  obtain ⟨_, ⟨rows, spells, rfl⟩, rfl, rfl⟩ := spelled
  simp only [result, byBucket, looked, lookup_mergedReplies spells]
  by_cases none_ : bucketRows b rows.flatten = []
  · have empty : totalRecord [] = noRow := rfl
    rw [if_pos none_, none_, empty, weighRow_noRow]
    obtain ⟨kb, sb⟩ := bucketResultFromRow_noRow b
      (requestOf cfg.schema (upperCase q.riskClass) (fastLeg q.leg) cfg.lazyMath).1
      (fastLeg q.leg) (resolveRho cfg.schema (upperCase q.riskClass) (fastLeg q.leg))
      (isPerTenor cfg.schema (upperCase q.riskClass))
    rw [kb, sb]
    exact ⟨rfl, rfl⟩
  · rw [if_neg none_]
    exact ⟨rfl, rfl⟩

theorem storedHash_of_spelled {b t : String} {h : Option RollupReadout.RollupHash}
    (spells : spelledTenor cfg q v b t = some h) :
    (storedHash cfg q v b t).map numberHash = h ∧
      ∀ own, storedHash cfg q v b t = some own →
        isNumeric (readFields cfg.schema (upperCase q.riskClass) (fastLeg q.leg)) own = true := by
  unfold spelledTenor at spells
  unfold storedHash
  cases replied : v.hgetall (readoutKey cfg.schema (upperCase q.riskClass)
      (legSens (fastLeg q.leg)) b t) with
  | error message =>
    simp only [replied] at spells
    cases spells
  | ok reply =>
    simp only [replied] at spells
    obtain ⟨own, spelled, numeric⟩ := Option.bind_eq_some_iff.mp spells
    rw [Option.ite_none_right_eq_some] at numeric
    simp only [replied, parseHgetall_of_spelled spelled]
    refine ⟨Option.some.inj numeric.2, ?_⟩
    rintro own' rfl
    exact numeric.1

theorem readBucket_bucket (b : String) : (readBucket cfg q v b).bucket = b := by
  have named : (readoutResult cfg.schema (upperCase q.riskClass) (fastLeg q.leg) b
      (storedHash cfg q v b)).bucket = b := by
    unfold readoutResult
    split
    · dsimp only
      split <;> rfl
    · rfl
  unfold readBucket
  cases cachedKb cfg q v b <;> exact named

/-- A report is made of the hashes of the tenors only. -/
theorem readoutReport_congr {schema : CalcSchema} {rc : String} {leg : FastLeg} {b : String}
    {tm tm' : String → Option RollupReadout.RollupHash}
    (same : ∀ t ∈ fieldTenors schema rc, tm t = tm' t) :
    readoutReport schema rc leg b tm = readoutReport schema rc leg b tm' := by
  have hashes : ∀ field, ((fieldTenors schema rc).map fun t =>
      RollupReadout.hashNumber (tm t) field) =
      (fieldTenors schema rc).map fun t => RollupReadout.hashNumber (tm' t) field :=
    fun field => List.map_congr_left fun t mem => by rw [same t mem]
  have components : ((fieldTenors schema rc).map fun t =>
      (⟨t, RollupReadout.hashNumber (tm t) "sum_ws_up",
        RollupReadout.hashNumber (tm t) "sum_ws_down"⟩ : CvrComponent)) =
      (fieldTenors schema rc).map fun t => ⟨t, RollupReadout.hashNumber (tm' t) "sum_ws_up",
        RollupReadout.hashNumber (tm' t) "sum_ws_down"⟩ :=
    List.map_congr_left fun t mem => by rw [same t mem]
  simp only [readoutReport, hashes, components]

theorem spelledTenors_of_all {b : String}
    (all : ((fieldTenors cfg.schema (upperCase q.riskClass)).all fun t =>
      (spelledTenor cfg q v b t).isSome) = true) {t : String}
    (mem : t ∈ fieldTenors cfg.schema (upperCase q.riskClass)) :
    spelledTenor cfg q v b t = some ((spelledTenor cfg q v b t).getD none) := by
  obtain ⟨h, own⟩ := Option.isSome_iff_exists.mp (List.all_eq_true.mp all t mem)
  rw [own, Option.getD_some]

/-- The result of a bucket whose hashes spell numbers. -/
theorem reads_readBucket (b : String) : Reads cfg q v .rollup (readBucket cfg q v b) := by
  intro k s spelled
  rw [readBucket_bucket] at spelled
  simp only [contribution] at spelled
  rw [Option.ite_none_right_eq_some, Option.some.injEq, Prod.mk.injEq] at spelled
  obtain ⟨all, rfl, rfl⟩ := spelled
  have tenors : ∀ t ∈ fieldTenors cfg.schema (upperCase q.riskClass),
      spelledTenor cfg q v b t = some ((spelledTenor cfg q v b t).getD none) :=
    fun t mem => spelledTenors_of_all all mem
  have numeric : ∀ t ∈ fieldTenors cfg.schema (upperCase q.riskClass), ∀ h,
      storedHash cfg q v b t = some h →
        isNumeric (readFields cfg.schema (upperCase q.riskClass) (fastLeg q.leg)) h = true :=
    fun t mem => (storedHash_of_spelled (tenors t mem)).2
  have same := @readoutReport_congr cfg.schema (upperCase q.riskClass) (fastLeg q.leg) b
    (fun t => (storedHash cfg q v b t).map numberHash)
    (fun t => (spelledTenor cfg q v b t).getD none)
    fun t mem => (storedHash_of_spelled (tenors t mem)).1
  obtain ⟨kb, sb⟩ := readoutResult_numeric b numeric
  rw [same] at kb sb
  unfold readBucket
  cases cached : cachedKb cfg q v b with
  | none => exact ⟨kb, sb⟩
  | some k => exact ⟨rfl, sb⟩

/-- A bucket without any hash counts as zero. -/
theorem reads_absent {b : String} (perTenor : isPerTenor cfg.schema (upperCase q.riskClass) = true)
    (absent : ∀ t ∈ fieldTenors cfg.schema (upperCase q.riskClass), storedHash cfg q v b t = none) :
    Reads cfg q v .rollup ⟨b, 0, 0, 0⟩ := by
  intro k s spelled
  simp only [contribution] at spelled
  rw [Option.ite_none_right_eq_some, Option.some.injEq, Prod.mk.injEq] at spelled
  obtain ⟨all, rfl, rfl⟩ := spelled
  have empty := @readoutReport_congr cfg.schema (upperCase q.riskClass) (fastLeg q.leg) b
    (fun t => (spelledTenor cfg q v b t).getD none) (fun _ => none) (by
      intro t mem
      rw [← (storedHash_of_spelled (spelledTenors_of_all all mem)).1, absent t mem]
      rfl)
  have uncached : cachedKb cfg q v b = none := if_pos perTenor
  obtain ⟨kb, sb⟩ := readoutReport_none cfg.schema (upperCase q.riskClass) (fastLeg q.leg) b
  rw [empty, uncached, kb, sb]
  exact ⟨rfl, rfl⟩

/-- A readout that answers has replies for all its hashes, and one for each bucket of
a class without tenors. -/
theorem tryRollupReadout_some {rows : List ReadResult}
    (read : tryRollupReadout cfg q v buckets = some rows) :
    (∀ b ∈ buckets, ∀ t ∈ fieldTenors cfg.schema (upperCase q.riskClass),
      ∃ reply, v.hgetall (readoutKey cfg.schema (upperCase q.riskClass)
        (legSens (fastLeg q.leg)) b t) = .ok reply) ∧
    (isPerTenor cfg.schema (upperCase q.riskClass) = false → ∀ b ∈ buckets,
      (storedHash cfg q v b "").isSome = true) ∧
    rows = (buckets.filter fun b => (fieldTenors cfg.schema (upperCase q.riskClass)).any fun t =>
      (storedHash cfg q v b t).isSome).map (readBucket cfg q v) := by
  unfold tryRollupReadout at read
  dsimp only at read
  rw [Option.ite_none_left_eq_some] at read
  obtain ⟨_, read⟩ := read
  by_cases empty : buckets = []
  · rw [if_pos empty, Option.some.injEq] at read
    subst empty
    exact ⟨by simp, by simp, read.symm⟩
  · rw [if_neg empty, Option.ite_none_left_eq_some, Option.ite_none_left_eq_some,
      Option.ite_none_left_eq_some, Option.some.injEq] at read
    obtain ⟨replied, stored, _, rfl⟩ := read
    rw [Bool.not_eq_true, Bool.not_eq_false', List.all_eq_true] at replied
    refine ⟨?_, ?_, rfl⟩
    · intro b mem t ht
      have ok := List.all_eq_true.mp (replied b mem) t ht
      cases reply : v.hgetall (readoutKey cfg.schema (upperCase q.riskClass)
          (legSens (fastLeg q.leg)) b t) with
      | error message =>
        rw [reply] at ok
        cases ok
      | ok json => exact ⟨json, rfl⟩
    · intro scalar b mem
      rw [scalar, Bool.not_false, Bool.true_and, Bool.not_eq_true, List.any_eq_false] at stored
      have some_ := stored b mem
      rwa [Bool.not_eq_true, Option.isNone_eq_false_iff] at some_

/-- The results of the readout, filled up to the buckets. -/
theorem reads_rollup {rows : List ReadResult} (read : tryRollupReadout cfg q v buckets = some rows)
    {b : String} (mem : b ∈ buckets) :
    let byBucket := ofPairs (rows.map fun r => (r.bucket, r))
    let result := (byBucket.lookup b).getD ⟨b, 0, 0, 0⟩
    result.bucket = b ∧ Reads cfg q v .rollup result := by
  obtain ⟨_, stored, rfl⟩ := tryRollupReadout_some read
  intro byBucket result
  set present := buckets.filter fun b =>
    (fieldTenors cfg.schema (upperCase q.riskClass)).any fun t => (storedHash cfg q v b t).isSome
    with hpresent
  have looked : byBucket.lookup b = if b ∈ present then some (readBucket cfg q v b) else none := by
    have pairs_ : (present.map (readBucket cfg q v)).map (fun r => (r.bucket, r)) =
        present.map fun b => (b, readBucket cfg q v b) := by
      rw [List.map_map]
      exact List.map_congr_left fun b _ => by rw [Function.comp_apply, readBucket_bucket]
    change (ofPairs ((present.map (readBucket cfg q v)).map fun r => (r.bucket, r))).lookup b = _
    rw [pairs_, lookup_ofPairs_map_self]
  simp only [result, looked]
  by_cases here : b ∈ present
  · rw [if_pos here, Option.getD_some]
    exact ⟨readBucket_bucket b, reads_readBucket b⟩
  · rw [if_neg here, Option.getD_none]
    refine ⟨rfl, ?_⟩
    have absent : ∀ t ∈ fieldTenors cfg.schema (upperCase q.riskClass),
        storedHash cfg q v b t = none := by
      intro t ht
      rw [hpresent, List.mem_filter, not_and] at here
      have none_ := here mem
      rw [Bool.not_eq_true, List.any_eq_false] at none_
      exact Option.not_isSome_iff_eq_none.mp (none_ t ht)
    cases perTenor : isPerTenor cfg.schema (upperCase q.riskClass) with
    | true => exact reads_absent perTenor absent
    | false =>
      have only : fieldTenors cfg.schema (upperCase q.riskClass) = [""] :=
        if_neg (by simp [perTenor])
      have some_ := stored perTenor b mem
      rw [absent "" (by simp [only])] at some_
      cases some_

theorem zip_of_mapM_ok {α β ε : Type*} {f : α → Except ε β} {l : List α} {l' : List β}
    (all : l.mapM f = .ok l') :
    (l.zip l').map Prod.fst = l ∧ ∀ p ∈ l.zip l', f p.1 = .ok p.2 := by
  induction l generalizing l' with
  | nil => exact ⟨rfl, fun _ mem => nomatch mem⟩
  | cons a l ih =>
    rw [List.mapM_cons] at all
    cases own : f a with
    | error message =>
      rw [own] at all
      cases all
    | ok b =>
      rw [own] at all
      cases rest : l.mapM f with
      | error message =>
        rw [rest] at all
        cases all
      | ok bs =>
        rw [rest] at all
        obtain rfl : b :: bs = l' := Except.ok.inj all
        obtain ⟨fsts, each⟩ := ih rest
        refine ⟨by rw [List.zip_cons_cons, List.map_cons, fsts], ?_⟩
        intro p mem
        rw [List.zip_cons_cons, List.mem_cons] at mem
        rcases mem with rfl | mem
        · exact own
        · exact each p mem

/-- A bundle that has one result for each bucket, each read from replies. -/
structure Faithful (cfg : RouteConfig) (q : ComputeSbmInput) (v : Replies) (bundle : Bundle) :
    Prop where
  replied : (∃ reply, v.smembers q.riskClass = .ok reply) → Replied cfg q v bundle.engineUsed
  named : bundle.results.map ReadResult.bucket = discovered q v
  reads : ∀ r ∈ bundle.results, Reads cfg q v bundle.engineUsed r

theorem fillBuckets_reads {engine : EngineTag} {rows : List ReadResult}
    (each : ∀ b ∈ buckets,
      let result := ((ofPairs (rows.map fun r => (r.bucket, r))).lookup b).getD ⟨b, 0, 0, 0⟩
      result.bucket = b ∧ Reads cfg q v engine result) :
    (fillBuckets buckets rows).map ReadResult.bucket = buckets ∧
      ∀ r ∈ fillBuckets buckets rows, Reads cfg q v engine r := by
  constructor
  · rw [fillBuckets, List.map_map]
    conv_rhs => rw [← List.map_id buckets]
    exact List.map_congr_left fun b mem => (each b mem).1
  · intro r mem
    obtain ⟨b, hb, rfl⟩ := List.mem_map.mp mem
    exact (each b hb).2

theorem faithful_luaPath (ran : luaPath q v (discovered q v) = .ok bundle) :
    Faithful cfg q v bundle := by
  unfold luaPath at ran
  cases asked : (discovered q v).mapM fun b => v.fcall q.riskClass q.leg b q.excludeCsv with
  | error message =>
    rw [asked] at ran
    cases ran
  | ok replies =>
    rw [asked] at ran
    obtain rfl := Except.ok.inj ran
    obtain ⟨fsts, each⟩ := zip_of_mapM_ok asked
    have results : ∀ p ∈ (discovered q v).zip replies,
        (kernelResult p.1 p.2).bucket = p.1 ∧ Reads cfg q v .fcallLua (kernelResult p.1 p.2) :=
      fun p mem => reads_kernelResult (each p mem)
    refine ⟨fun seen => ⟨seen, ?_⟩, ?_, ?_⟩
    · intro b mem
      rw [← fsts] at mem
      obtain ⟨p, hp, rfl⟩ := List.mem_map.mp mem
      exact ⟨p.2, each p hp⟩
    · rw [List.map_map]
      conv_rhs => rw [← fsts]
      exact List.map_congr_left fun p mem => (results p mem).1
    · intro r mem
      obtain ⟨p, hp, rfl⟩ := List.mem_map.mp mem
      exact (results p hp).2

theorem faithful_fastPath (ran : fastPath cfg q v (discovered q v) = .ok bundle) :
    Faithful cfg q v bundle := by
  unfold fastPath at ran
  dsimp only at ran
  split at ran
  · rename_i rows rollup
    obtain rfl := Except.ok.inj ran
    rw [Option.ite_none_right_eq_some] at rollup
    obtain ⟨named, reads⟩ := fillBuckets_reads fun b mem => reads_rollup rollup.2 mem
    exact ⟨fun seen => ⟨seen, (tryRollupReadout_some rollup.2).1⟩, named, reads⟩
  · split at ran
    · cases ran
    · cases asked : masterReplies cfg q v with
      | error message =>
        rw [asked] at ran
        cases ran
      | ok replies =>
        rw [asked] at ran
        obtain rfl := Except.ok.inj ran
        obtain ⟨named, reads⟩ := @fillBuckets_reads cfg q v (discovered q v) .ftAggregate
          (indexResults cfg q replies) fun b _ => reads_indexResults asked b
        exact ⟨fun seen => ⟨seen, replies, asked⟩, named, reads⟩

/-- The bundle of a fan-out that answers. -/
theorem faithful_fanout (ran : runSbmFanoutPhase cfg q v = .ok bundle) :
    (∃ reply, v.smembers q.riskClass = .ok reply) ∧ Faithful cfg q v bundle := by
  unfold runSbmFanoutPhase at ran
  cases seen : v.smembers q.riskClass with
  | error message =>
    rw [seen] at ran
    dsimp only at ran
    split at ran
    · cases ran
    · split at ran <;> cases ran
  | ok reply =>
    have buckets : narrowBuckets q (seenBuckets reply) = discovered q v := by
      rw [discovered, seen]
    rw [seen] at ran
    dsimp only at ran
    rw [buckets] at ran
    refine ⟨⟨reply, rfl⟩, ?_⟩
    split at ran
    · cases ran
    · unfold dispatch at ran
      dsimp only at ran
      split at ran
      · cases ran
      · split at ran
        · cases ran
        · split at ran
          · exact faithful_fastPath ran
          · exact faithful_luaPath ran

/-- Where all results are finite the charge is the exact one of the results. -/
theorem reduceCharge_finite {per : List ReadResult} (finite : ∀ p ∈ per, IsFinite p) :
    (reduceCharge cfg q per).1 =
      .fin (CalcService.reduceCharge cfg.toCalcConfig q (per.map exactResult)).1 := by
  unfold reduceCharge CalcService.reduceCharge
  cases q.leg with
  | delta => exact reduceRiskClassCharge_finite finite _
  | vega => exact reduceRiskClassCharge_finite finite _
  | curvature =>
    dsimp only
    rw [reduceCurvatureCharge_finite finite]

/-- An answer has a result for each discovered bucket, and no command behind it failed.
If the replies behind it can be read, each result is what they spell and the charge is
the finite one of these results. -/
theorem answer_reads_replies {body : Body} (answered : answer cfg q v = .ok body) :
    Replied cfg q v body.engine ∧
    body.perBucket.map ReadResult.bucket = discovered q v ∧
    ((∀ b ∈ discovered q v, (contribution cfg q v body.engine b).isSome = true) →
      (∀ r ∈ body.perBucket, ∃ k s,
        contribution cfg q v body.engine r.bucket = some (k, s) ∧ r.kb = .fin k ∧ r.sb = .fin s) ∧
      body.charge = .fin
        (CalcService.reduceCharge cfg.toCalcConfig q (body.perBucket.map exactResult)).1) := by
  unfold answer at answered
  cases ran : runSbmFanoutPhase cfg q v with
  | error failure =>
    rw [ran] at answered
    cases answered
  | ok bundle =>
    rw [ran] at answered
    obtain rfl := Except.ok.inj answered
    obtain ⟨seen, faithful⟩ := faithful_fanout ran
    refine ⟨faithful.replied seen, faithful.named, ?_⟩
    intro readable
    have spelled : ∀ r ∈ bundle.results, ∃ k s,
        contribution cfg q v bundle.engineUsed r.bucket = some (k, s) ∧ r.kb = .fin k ∧
          r.sb = .fin s := by
      intro r mem
      have listed : r.bucket ∈ discovered q v := by
        rw [← faithful.named]
        exact List.mem_map_of_mem mem
      obtain ⟨⟨k, s⟩, spells⟩ := Option.isSome_iff_exists.mp (readable _ listed)
      exact ⟨k, s, spells, faithful.reads r mem k s spells⟩
    refine ⟨spelled, reduceCharge_finite ?_⟩
    intro r mem
    obtain ⟨k, s, _, kb, sb⟩ := spelled r mem
    exact ⟨by rw [kb]; rfl, by rw [sb]; rfl⟩

end Results

section Examples

/-- A service with the schema of one class without tenors. -/
def equityRoute (fastPathEnabled : Bool) : RouteConfig where
  hasSchema := true
  fastPathEnabled := fastPathEnabled
  fcallFallback := true
  lazyMath := false
  rollupPath := true
  correlations := fun _ => some (.constant (3 / 20))
  schema := ⟨⟨∅, ∅⟩, fun _ => none, fun _ => none⟩
  aggregateAllowed := true
  digest := fun _ => "6f1ed002ab5595859014ebf0951522d9"

def equityRequest : ComputeSbmInput where
  bucketSubset := []
  bucketCells := []
  excludeCsv := emptyExcludeCsv
  includeCsv := emptyIncludeCsv
  forcePath := none
  noCache := true
  riskClass := "EQUITY"
  leg := .delta
  regime := .medium

/-- A row whose sums are not numbers. -/
def nanRow : Json :=
  .arr [.str "bucket", .str "1", .str "sum_d_ws_equity_delta", .str "nan",
    .str "sum_d_ws_equity_delta_sq", .str "nan", .str "row_count", .str "3"]

/-- Two buckets without rollups. The kernels answer with an object and with a flat
array, the only master with that row. -/
def equityReplies : Replies where
  targetLabel := "primary"
  pending := "ready"
  smembers := fun _ => .ok (.arr [.str "1", .str "2"])
  numDocs := 3
  desks := []
  hgetall := fun _ => .ok (.arr [])
  kbEntry := fun _ => .ok (.arr [.null, .null])
  masters := [⟨fun _ => .ok (.arr [.num 1, nanRow]), fun _ => .ok (.arr [.num 0])⟩]
  fcall := fun _ _ b _ => .ok <|
    if b = "1" then .obj [("K_b", .num 10), ("S_b", .num (-4)), ("count", .num 2)]
    else .arr [.str "K_b", .str "7.5", .str "S_b", .str "3", .str "count", .str "1"]

theorem kernel_replies_read :
    ∃ body, answer (equityRoute false) equityRequest equityReplies = .ok body ∧
      ∀ r ∈ body.perBucket, ∃ k s,
        contribution (equityRoute false) equityRequest equityReplies .fcallLua r.bucket =
          some (k, s) ∧ r.kb = .fin k ∧ r.sb = .fin s := by
  have buckets : discovered equityRequest equityReplies = ["1", "2"] := rfl
  have first : (spelledReply (.obj [("K_b", .num 10), ("S_b", .num (-4)),
      ("count", .num 2)])).isSome = true := by decide +kernel
  have second : (spelledReply (.arr [.str "K_b", .str "7.5", .str "S_b", .str "3", .str "count",
      .str "1"])).isSome = true := by decide +kernel
  refine ⟨_, rfl, ((answer_reads_replies rfl).2.2 ?_).1⟩
  intro b mem
  rw [buckets] at mem
  change (Option.map _ _).isSome = true
  rw [Option.isSome_map]
  rcases List.mem_cons.mp mem with rfl | mem
  · exact first
  · obtain rfl := List.mem_singleton.mp mem
    exact second

/-- Three rows of a bucket whose sum is not a number: the request is answered, and the
bucket has nothing. -/
theorem nan_sum_answered :
    ∃ body r, answer (equityRoute true) equityRequest equityReplies = .ok body ∧
      r ∈ body.perBucket ∧ r.bucket = "1" ∧ r.count = .fin 3 ∧ r.kb = .fin 0 ∧ r.sb = .fin 0 := by
  have sums : legSums (rowRecord nanRow).2 ["ws_equity_delta"] .d false = (0, 0) := by
    decide +kernel
  have count : safeNum (some (rowRecord nanRow).2.rowCount) = 3 := by decide +kernel
  refine ⟨_, rowResult (equityRoute true) equityRequest "1" (rowRecord nanRow).2, rfl,
    List.mem_cons_self, rfl, congrArg JsNumber.fin count, ?_, ?_⟩
  · change (.fin (FastPath.kbFromConstantRho
      (legSums (rowRecord nanRow).2 ["ws_equity_delta"] .d false).1
      (legSums (rowRecord nanRow).2 ["ws_equity_delta"] .d false).2 _).1 : JsNumber ℝ) = .fin 0
    rw [sums]
    simp [FastPath.kbFromConstantRho]
  · exact congrArg (fun p : ℚ × ℚ => (.fin p.1 : JsNumber ℚ)) sums

end Examples

end ReplyCharge
