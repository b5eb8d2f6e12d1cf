import Frtb.IndexedRows
import Frtb.StoredContribution

/-!
# Reading the rollups instead of the index

`tryRollupReadout` answers a request from the rollup hashes that ingest keeps,
and keeps the `K_b` of a scalar bucket in a cache under a digest of the hash.
A null answer sends the caller on to the index.
-/

namespace RollupReadout

open AssocMaps JsonText EnrichDoc RollupKeys RedisStore StorageWriter RollupDelta RollupContribution
open HashLayout ChargeReduce FastPath FastPathSums FastPathRows IndexedRows StoredContribution

section Hashes

abbrev RollupHash := Assoc String ℚ

/-- The fields of a rollup hash that the commands increment. -/
def incrementedFields (cmds : List Cmd) (key : String) : List String :=
  cmds.filterMap fun c =>
    match c with
    | .hincrbyfloat k f _ => if k = key then some f else none
    | _ => none

/-- The rollup hash that the commands leave under a key; it exists once a field
of it was incremented. -/
def rollupHash (cmds : List Cmd) (key : String) : RollupHash :=
  ofPairs ((incrementedFields cmds key).map fun f => (f, increments cmds key f))

def parseHgetall (reply : RollupHash) : Option RollupHash :=
  if reply.keys = [] then none else some reply

/-- `Number(h?.field ?? 0)`. -/
def hashNumber (h : Option RollupHash) (field : String) : ℚ := (h.bind (·.lookup field)).getD 0

end Hashes

section Cache

structure KbEntry where
  kb : ℝ
  contentHash : String

abbrev KbCache := String → Option KbEntry

def kbCacheKey (rc bkt sens scenario regime : String) : String :=
  "kb:\x7b" ++ rc ++ ":" ++ bkt ++ "\x7d:" ++ sens ++ ":" ++ scenario ++ ":" ++ regime

def lookupKbCacheEntry (cache : KbCache) (key expectedHash : String) : Option ℝ :=
  match cache key with
  | none => none
  | some entry => if entry.contentHash = expectedHash then some entry.kb else none

def storeKbCacheEntry (cache : KbCache) (key : String) (entry : KbEntry) : KbCache :=
  Function.update cache key (some entry)

end Cache

section Readout

/-- The key of a bucket's hash, per tenor for a per-tenor class. -/
def readoutKey (schema : CalcSchema) (rc sens bucket tenor : String) : String :=
  if isPerTenor schema rc then rollupKey rc bucket sens (some tenor)
  else rollupKey rc bucket sens none

/-- The result of one bucket from its hashes; an absent tenor reads as zero. -/
noncomputable def readoutReport (schema : CalcSchema) (rc : String) (leg : FastLeg)
    (bucket : String) (tm : String → Option RollupHash) : BucketReport :=
  let tenors := fieldTenors schema rc
  let perTenor := isPerTenor schema rc
  let rho := resolveRho schema rc leg
  let list := fun field => tenors.map fun t => hashNumber (tm t) field
  let count := (list "count").sum
  if leg = .curvature then
    let cvrUp := list "sum_ws_up"
    let cvrDown := list "sum_ws_down"
    let kbUpSq := max 0 (kbSquaredForDirection cvrUp rho)
    let kbDownSq := max 0 (kbSquaredForDirection cvrDown rho)
    let components := tenors.map fun t =>
      ⟨t, hashNumber (tm t) "sum_ws_up", hashNumber (tm t) "sum_ws_down"⟩
    let direction := fun (cvr : List ℚ) (kbSq : ℚ) =>
      let wsSq := (cvr.map fun x => x * x).sum
      ⟨⟨bucket, √(kbSq : ℝ), cvr.sum, count⟩, ⟨wsSq, kbSq - wsSq, [], [], 0, components⟩⟩
    if √(kbUpSq : ℝ) < √(kbDownSq : ℝ) then direction cvrDown kbDownSq
    else direction cvrUp kbUpSq
  else
    let ws := list "sum_ws"
    let wsSq :=
      if perTenor ∧ leg = .delta then ws.map fun x => x * x else list "sum_ws_sq"
    let r := kbFromConstantRho ws.sum wsSq.sum rho
    let components := if perTenor then
        List.zipWith (fun t p => ⟨t, p.1, p.2⟩) tenors (ws.zip wsSq)
      else []
    ⟨⟨bucket, r.1, ws.sum, count⟩, ⟨r.2.1, r.2.2, components, [], 0, []⟩⟩

/-- The parsed hashes of a requested bucket by tenor. -/
structure BucketHashes where
  bucket : String
  tm : String → Option RollupHash

/-- Take the `K_b` of a scalar bucket from the cache, or put it there. -/
noncomputable def cacheKb (digest : RollupHash → String) (rc sens : String) (h : BucketHashes)
    (report : BucketReport) (cache : KbCache) : BucketReport × KbCache :=
  let key := kbCacheKey rc h.bucket sens "default" "n_a"
  let contentHash := digest ((h.tm "").getD ∅)
  match lookupKbCacheEntry cache key contentHash with
  | some kb => ({ report with kb := kb }, cache)
  | none => (report, storeKbCacheEntry cache key ⟨report.kb, contentHash⟩)

noncomputable def readBucket (digest : RollupHash → String) (schema : CalcSchema) (rc : String)
    (leg : FastLeg) (acc : List BucketReport × KbCache) (h : BucketHashes) :
    List BucketReport × KbCache :=
  if (fieldTenors schema rc).all fun t => (h.tm t).isNone then acc
  else
    let report := readoutReport schema rc leg h.bucket h.tm
    if isPerTenor schema rc then (acc.1 ++ [report], acc.2)
    else
      let cached := cacheKb digest rc (legSens leg) h report acc.2
      (acc.1 ++ [cached.1], cached.2)

/-- The readout, and the cache after it. The replies are none when a call failed;
`digest` is the SHA-1 of a hash's sorted fields. -/
noncomputable def tryRollupReadout (digest : RollupHash → String) (schema : CalcSchema)
    (riskClass : String) (leg : FastLeg) (buckets : List String)
    (replies : Option (String → RollupHash)) (cache : KbCache) :
    Option (List BucketReport) × KbCache :=
  let rc := upperCase riskClass
  let perTenor := isPerTenor schema rc
  if leg = .curvature ∧ ¬perTenor then (none, cache)
  else if buckets = [] then (some [], cache)
  else
    match replies with
    | none => (none, cache)
    | some hgetall =>
      let hashes := buckets.map fun b => BucketHashes.mk b fun t =>
        parseHgetall (hgetall (readoutKey schema rc (legSens leg) b t))
      if !perTenor && hashes.any fun h => (h.tm "").isNone then (none, cache)
      else
        let out := hashes.foldl (readBucket digest schema rc leg) ([], cache)
        if perTenor && out.1.isEmpty then (none, out.2) else (some out.1, out.2)

end Readout

section Cells
variable {cmds : List Cmd} {key : String}

theorem mem_incrementedFields {field : String} :
    field ∈ incrementedFields cmds key ↔ ∃ q, .hincrbyfloat key field q ∈ cmds := by
  simp only [incrementedFields, List.mem_filterMap]
  constructor
  · rintro ⟨c, mem, here⟩
    cases c with
    | hincrbyfloat k f q =>
      simp only [Option.ite_none_right_eq_some, Option.some.injEq] at here
      obtain ⟨rfl, rfl⟩ := here
      exact ⟨q, mem⟩
    | _ => cases here
  · rintro ⟨q, mem⟩
    exact ⟨_, mem, by simp⟩

theorem increments_of_notMem {field : String} (absent : field ∉ incrementedFields cmds key) :
    increments cmds key field = 0 := by
  apply List.sum_eq_zero
  intro x hx
  obtain ⟨c, hc, rfl⟩ := List.mem_map.mp hx
  cases c with
  | hincrbyfloat k f q =>
    by_cases here : key = k ∧ field = f
    · obtain ⟨rfl, rfl⟩ := here
      exact absurd (mem_incrementedFields.mpr ⟨q, hc⟩) absent
    · exact if_neg here
  | _ => rfl

theorem lookup_rollupHash {field : String} (mem : field ∈ incrementedFields cmds key) :
    (rollupHash cmds key).lookup field = some (increments cmds key field) := by
  have written : field ∈ ((incrementedFields cmds key).map fun f =>
      (f, increments cmds key f)).map Prod.fst := by
    rw [List.map_map]
    exact List.mem_map.mpr ⟨field, mem, rfl⟩
  obtain ⟨q, found⟩ := Option.isSome_iff_exists.mp ((lookup_ofPairs_isSome _ _).mpr written)
  obtain ⟨f, _, same⟩ := List.mem_map.mp (mem_of_lookup_ofPairs found)
  rw [Prod.mk.injEq] at same
  obtain ⟨rfl, rfl⟩ := same
  exact found

theorem parseHgetall_eq_none : parseHgetall (rollupHash cmds key) = none ↔
    ∀ field, field ∉ incrementedFields cmds key := by
  have keys : ∀ field, field ∈ (rollupHash cmds key).keys ↔ field ∈ incrementedFields cmds key := by
    intro field
    rw [← AList.mem_keys, ← AList.lookup_isSome, rollupHash, lookup_ofPairs_isSome, List.map_map]
    simp [Function.comp_def]
  unfold parseHgetall
  by_cases empty : (rollupHash cmds key).keys = []
  · rw [if_pos empty]
    simp [← keys, empty]
  · rw [if_neg empty]
    simp only [reduceCtorEq, false_iff, not_forall, not_not]
    obtain ⟨field, mem⟩ := List.exists_mem_of_ne_nil _ empty
    exact ⟨field, (keys field).mp mem⟩

theorem parseHgetall_eq_some {h h' : RollupHash} (parsed : parseHgetall h = some h') : h' = h := by
  unfold parseHgetall at parsed
  split at parsed
  · cases parsed
  · exact (Option.some.inj parsed).symm

/-- A number read from a hash, which may not exist. -/
theorem hashNumber_rollupHash (cmds : List Cmd) (key field : String) :
    hashNumber (parseHgetall (rollupHash cmds key)) field = increments cmds key field := by
  by_cases mem : field ∈ incrementedFields cmds key
  · cases parsed : parseHgetall (rollupHash cmds key) with
    | none => exact absurd mem (parseHgetall_eq_none.mp parsed field)
    | some h =>
      rw [parseHgetall_eq_some parsed, hashNumber, Option.bind_some, lookup_rollupHash mem,
        Option.getD_some]
  · rw [increments_of_notMem mem, hashNumber]
    cases parsed : parseHgetall (rollupHash cmds key) with
    | none => rfl
    | some h =>
      have absent : (rollupHash cmds key).lookup field = none := by
        apply lookup_ofPairs_eq_none
        rw [List.map_map]
        simpa [Function.comp_def] using mem
      rw [Option.bind_some, parseHgetall_eq_some parsed, absent, Option.getD_none]

end Cells

section Rows
variable {doc : Props} {tags : RowTags} {field t : String}

/-- A sum over the entries of a map in which one key counts. -/
theorem sum_pairs_ite (m : Assoc String ℚ) (t : String) (g : ℚ → ℚ) :
    ((pairs m).map fun p => if p.1 = t then g p.2 else 0).sum = ((m.lookup t).map g).getD 0 := by
  have keyed := total_eq_sum_of_subset (fun a b => if a = t then g b else 0) m
    (Finset.subset_insert t m.keys.toFinset)
  rw [total] at keyed
  rw [keyed, Finset.sum_eq_single_of_mem t (Finset.mem_insert_self _ _)]
  · cases m.lookup t <;> simp
  · intro a _ other
    cases m.lookup a <;> simp [other]

theorem rowKey_eq_iff (tags : RowTags) (t t' : Option String) :
    tags.key t = tags.key t' ↔ t = t' := by
  constructor
  · intro same
    cases t with
    | none =>
      cases t' with
      | none => rfl
      | some t' => exact absurd same.symm (rollupKey_tenor_ne_base _ _ _ _)
    | some t =>
      cases t' with
      | none => exact absurd same (rollupKey_tenor_ne_base _ _ _ _)
      | some t' => rw [rollupKey_tenor_inj same]
  · rintro rfl
    rfl

theorem scalarIncrement (v : ℚ) :
    scalarPart field v - scalarPart field 0 + countPart field 1 = scalarTerm field v := by
  rw [scalarPart_zero, sub_zero, scalarTerm]

theorem curvatureIncrement (v : ℚ × ℚ) :
    curvaturePart field v - curvaturePart field (0, 0) + countPart field 1 =
      curvatureTerm field v := by
  rw [curvaturePart_zero, sub_zero, curvatureTerm]

/-- What a scalar row adds to a field of the hash under `key`. -/
theorem increments_scalarRow (ht : rowTags doc = some tags) (scalar : tags.sensType ≠ "Curvature")
    (key : String) :
    increments (emitRollupHincrs doc) key field =
      baseTerm tags key ((numAt doc "weighted_value").map (scalarTerm field)) +
        match tenorMapAt doc "weighted_value_per_tenor" with
        | none => 0
        | some m => ((pairs m).map fun p =>
            if key = tags.key (some p.1) then scalarTerm field p.2 else 0).sum := by
  rw [emitRollupHincrs, ht]
  simp only [if_neg scalar, increments_append, increments_emitScalarBase, scalarIncrement]
  congr 1
  cases tenorMapAt doc "weighted_value_per_tenor" with
  | none => rfl
  | some m =>
    simp only [increments_flatMap, increments_emitScalarDelta, scalarIncrement]

/-- What a curvature row adds to a field of the hash under `key`. -/
theorem increments_curvatureRow (ht : rowTags doc = some tags)
    (curvature : tags.sensType = "Curvature") (key : String) :
    increments (emitRollupHincrs doc) key field =
      baseTerm tags key ((bothOf (numAt doc "weighted_cvr_up")
          (numAt doc "weighted_cvr_down")).map (curvatureTerm field)) +
        match tenorMapAt doc "weighted_cvr_up_per_tenor",
            tenorMapAt doc "weighted_cvr_down_per_tenor" with
        | some ups, some downs => ((pairedTenors ups downs).map fun p =>
            if key = tags.key (some p.1) then curvatureTerm field p.2 else 0).sum
        | _, _ => 0 := by
  rw [emitRollupHincrs, ht]
  simp only [if_pos curvature, increments_append, increments_emitCurvatureBase, curvatureIncrement]
  congr 1
  cases tenorMapAt doc "weighted_cvr_up_per_tenor" with
  | none => rfl
  | some ups =>
    cases tenorMapAt doc "weighted_cvr_down_per_tenor" with
    | none => rfl
    | some downs =>
      simp only [increments_flatMap, increments_emitCurvatureDelta, curvatureIncrement]

/-- A row adds to the keys of its own tuple only. -/
theorem increments_of_other_key (key : String)
    (other : ∀ tags, rowTags doc = some tags → ∀ t, tags.key t ≠ key) :
    increments (emitRollupHincrs doc) key field = 0 := by
  cases ht : rowTags doc with
  | none =>
    rw [emitRollupHincrs, ht]
    rfl
  | some tags =>
    have none_ : ∀ t, key ≠ tags.key t := fun t same => other tags ht t same.symm
    by_cases curvature : tags.sensType = "Curvature"
    · rw [increments_curvatureRow ht curvature, baseTerm, if_neg (none_ none)]
      split
      · simp [none_]
      · exact zero_add 0
    · rw [increments_scalarRow ht curvature, baseTerm, if_neg (none_ none)]
      split
      · exact zero_add 0
      · simp [none_]

/-- At a tenor key a scalar row adds its value of that tenor. -/
theorem increments_scalarRow_tenor (ht : rowTags doc = some tags)
    (scalar : tags.sensType ≠ "Curvature") (t : String) :
    increments (emitRollupHincrs doc) (tags.key (some t)) field =
      (((tenorMapAt doc "weighted_value_per_tenor").bind (·.lookup t)).map
        (scalarTerm field)).getD 0 := by
  have base : tags.key (some t) ≠ tags.key none := rollupKey_tenor_ne_base _ _ _ _
  rw [increments_scalarRow ht scalar, baseTerm, if_neg base, zero_add]
  cases tenorMapAt doc "weighted_value_per_tenor" with
  | none => rfl
  | some m =>
    simp only [rowKey_eq_iff, Option.some.injEq, Option.bind_some, ← sum_pairs_ite, eq_comm]

/-- At the base key a scalar row adds its scalar. -/
theorem increments_scalarRow_base (ht : rowTags doc = some tags)
    (scalar : tags.sensType ≠ "Curvature") :
    increments (emitRollupHincrs doc) (tags.key none) field =
      ((numAt doc "weighted_value").map (scalarTerm field)).getD 0 := by
  rw [increments_scalarRow ht scalar, baseTerm, if_pos rfl]
  cases tenorMapAt doc "weighted_value_per_tenor" with
  | none => rw [add_zero]
  | some m => simp [rowKey_eq_iff]

theorem sum_pairedTenors (ups downs : Assoc String ℚ) (t : String) (g : ℚ × ℚ → ℚ) :
    ((pairedTenors ups downs).map fun p => if p.1 = t then g p.2 else 0).sum =
      ((bothOf (ups.lookup t) (downs.lookup t)).map g).getD 0 := by
  have flat : ∀ l : List (String × ℚ),
      ((l.filterMap fun p => (downs.lookup p.1).map fun d => (p.1, p.2, d)).map
        fun p => if p.1 = t then g p.2 else 0).sum =
      (l.map fun p => if p.1 =
        t then ((downs.lookup t).map fun d => g (p.2, d)).getD 0 else 0).sum := by
    intro l
    induction l with
    | nil => rfl
    | cons p l ih =>
      rw [List.map_cons, List.sum_cons, ← ih]
      by_cases here : p.1 = t
      · subst here
        cases h : downs.lookup p.1 <;> simp [h]
      · cases h : downs.lookup p.1 <;> simp [h, here]
  have keyed := sum_pairs_ite ups t fun u => ((downs.lookup t).map fun d => g (u, d)).getD 0
  rw [pairedTenors, flat, keyed]
  cases ups.lookup t <;> cases downs.lookup t <;> rfl

/-- At a tenor key a curvature row adds its pair of that tenor. -/
theorem increments_curvatureRow_tenor (ht : rowTags doc = some tags)
    (curvature : tags.sensType = "Curvature") (t : String) :
    increments (emitRollupHincrs doc) (tags.key (some t)) field =
      ((bothOf ((tenorMapAt doc "weighted_cvr_up_per_tenor").bind (·.lookup t))
        ((tenorMapAt doc "weighted_cvr_down_per_tenor").bind (·.lookup t))).map
          (curvatureTerm field)).getD 0 := by
  have base : tags.key (some t) ≠ tags.key none := rollupKey_tenor_ne_base _ _ _ _
  rw [increments_curvatureRow ht curvature, baseTerm, if_neg base, zero_add]
  cases tenorMapAt doc "weighted_cvr_up_per_tenor" with
  | none => rfl
  | some ups =>
    cases tenorMapAt doc "weighted_cvr_down_per_tenor" with
    | none =>
      cases h : ups.lookup t <;> simp [bothOf, h]
    | some downs =>
      have paired := sum_pairedTenors ups downs t (curvatureTerm field)
      simp only [rowKey_eq_iff, Option.some.injEq, Option.bind_some, ← paired, eq_comm]

/-- At the base key a curvature row adds its pair of scalars. -/
theorem increments_curvatureRow_base (ht : rowTags doc = some tags)
    (curvature : tags.sensType = "Curvature") :
    increments (emitRollupHincrs doc) (tags.key none) field =
      ((bothOf (numAt doc "weighted_cvr_up") (numAt doc "weighted_cvr_down")).map
        (curvatureTerm field)).getD 0 := by
  rw [increments_curvatureRow ht curvature, baseTerm, if_pos rfl]
  split
  · simp [rowKey_eq_iff]
  · rw [add_zero]

end Rows

section Buckets
variable {fold : String → String} {schema : CalcSchema} {rc : String} {leg : FastLeg}
  {docs : List Props}

/-- The documents that a request without filters asks the index for. TAG values are compared in
the form that `fold` gives them, which for most indexes has no case. -/
def matchesQuery (fold : String → String) (rc : String) (leg : FastLeg) (doc : Props) : Bool :=
  fold (textOf doc "risk_class") = fold rc &&
    fold (textOf doc "sensitivity_type") = fold (legSens leg)

/-- A node that holds the matching documents. -/
def indexedNode (fold : String → String) (rc : String) (leg : FastLeg) (docs : List Props)
    (nan : NanChoice String) (nanPerRf : NanChoice (String × String)) : Node :=
  ⟨(docs.filter (matchesQuery fold rc leg)).map indexDocOf, nan, nanPerRf⟩

/-- The rows of a bucket. -/
def bucketDocs (rc : String) (leg : FastLeg) (docs : List Props) (b : String) : List Props :=
  docs.filter fun d => rowTags d = some ⟨rc, b, legSens leg⟩

/-- A row in the layout of its class: it has the tags of a rollup, a row of a
scalar class has no tenors, and a curvature row has both values at each tenor. -/
structure RowLayout (schema : CalcSchema) (rc : String) (leg : FastLeg) (d : Props) : Prop where
  routed : (rowTags d).isSome
  scalar : isPerTenor schema rc = false → tenorMapAt d "weighted_value_per_tenor" = none
  paired : leg = .curvature → OneTenorSet d

/-- The matching rows of the buckets name class and leg as the request does and are in the layout
of the class, and no row of another tuple has a rollup under a key of theirs. -/
structure InLayout (fold : String → String) (schema : CalcSchema) (rc : String) (leg : FastLeg)
    (buckets : List String) (docs : List Props) : Prop where
  labelled : isPerTenor schema rc = true → "" ∉ tenorNodesOf schema rc
  spelled : ∀ d ∈ docs, matchesQuery fold rc leg d = true → textOf d "bucket" ∈ buckets →
    textOf d "risk_class" = rc ∧ textOf d "sensitivity_type" = legSens leg
  rows : ∀ d ∈ docs, matchesQuery fold rc leg d = true → textOf d "bucket" ∈ buckets →
    RowLayout schema rc leg d
  apart : ∀ d ∈ docs, ∀ tags, rowTags d = some tags → ∀ b ∈ buckets,
    ∀ t ∈ fieldTenors schema rc, ∀ t', tags.key t' = readoutKey schema rc (legSens leg) b t →
      tags = ⟨rc, b, legSens leg⟩

theorem textOf_of_rowTags {d : Props} {tags : RowTags} (ht : rowTags d = some tags) :
    textOf d "risk_class" = tags.riskClass ∧ textOf d "bucket" = tags.bucket ∧
      textOf d "sensitivity_type" = tags.sensType := by
  obtain ⟨hrc, hbkt, hsens, _⟩ := rowTags_eq_some ht
  exact ⟨textOf_of_strAt hrc, textOf_of_strAt hbkt, textOf_of_strAt hsens⟩

variable {buckets : List String}

/-- The index finds the rows of a bucket. -/
theorem docsOf_indexedNode (layout : InLayout fold schema rc leg buckets docs) {b : String}
    (requested : b ∈ buckets) (nan : NanChoice String) (nanPerRf : NanChoice (String × String)) :
    docsOf IndexDoc.bucket (indexedNode fold rc leg docs nan nanPerRf).docs b =
      (bucketDocs rc leg docs b).map indexDocOf := by
  have same : ∀ d ∈ docs, (decide (textOf d "bucket" = b) && matchesQuery fold rc leg d) =
      decide (rowTags d = some ⟨rc, b, legSens leg⟩) := by
    intro d mem
    rw [Bool.eq_iff_iff, Bool.and_eq_true, decide_eq_true_eq, decide_eq_true_eq]
    constructor
    · rintro ⟨inBucket, matching⟩
      have row := layout.rows d mem matching (inBucket ▸ requested)
      obtain ⟨tags, ht⟩ := Option.isSome_iff_exists.mp row.routed
      obtain ⟨hrc, hbkt, hsens⟩ := textOf_of_rowTags ht
      obtain ⟨cls, type⟩ := layout.spelled d mem matching (inBucket ▸ requested)
      rw [ht, ← cls, ← type, ← inBucket, hrc, hbkt, hsens]
    · intro ht
      obtain ⟨hrc, hbkt, hsens⟩ := textOf_of_rowTags ht
      simp [matchesQuery, hrc, hbkt, hsens]
  rw [docsOf, indexedNode, bucketDocs, List.filter_map, List.filter_filter]
  exact congrArg (List.map indexDocOf) (List.filter_congr same)

/-- Only the elements that count make up a sum. -/
theorem sum_map_filter {α : Type*} (g : α → ℚ) (p : α → Bool) {l : List α}
    (rest : ∀ x ∈ l, p x = false → g x = 0) : ((l.filter p).map g).sum = (l.map g).sum := by
  induction l with
  | nil => rfl
  | cons x l ih =>
    have tail := ih (fun y mem => rest y (List.mem_cons_of_mem _ mem))
    cases here : p x with
    | true =>
      rw [List.filter_cons_of_pos here, List.map_cons, List.map_cons, List.sum_cons,
        List.sum_cons, tail]
    | false =>
      rw [List.filter_cons_of_neg (by simp [here]), List.map_cons, List.sum_cons,
        rest x List.mem_cons_self here, zero_add, tail]

/-- The hash of a bucket, after each document was ingested once. -/
def ingestedHash (docs : List Props) (key : String) : RollupHash :=
  rollupHash (docs.flatMap emitRollupHincrs) key

theorem hashNumber_ingestedHash (layout : InLayout fold schema rc leg buckets docs) {b : String}
    (requested : b ∈ buckets) {t : String} (ht : t ∈ fieldTenors schema rc) (field : String) :
    hashNumber (parseHgetall (ingestedHash docs (readoutKey schema rc (legSens leg) b t))) field =
      ((bucketDocs rc leg docs b).map fun d =>
        increments (emitRollupHincrs d) (readoutKey schema rc (legSens leg) b t) field).sum := by
  rw [ingestedHash, hashNumber_rollupHash, increments_flatMap, bucketDocs, sum_map_filter]
  intro d mem other
  apply increments_of_other_key
  intro tags tagged t' same
  have own := layout.apart d mem tags tagged b requested t ht t' same
  rw [own] at tagged
  exact absurd tagged (of_decide_eq_false other)

end Buckets

section Values
variable {fold : String → String} {schema : CalcSchema} {rc : String} {leg : FastLeg}
  {docs : List Props} {buckets : List String} {b t : String} {d : Props}

/-- The index field of a row at a tenor. -/
def fieldOf (rc root : String) (d : Props) (t : String) : Option ℚ :=
  (indexDocOf d).field (fieldFor "ws" (lowerCase rc) root t)

theorem mem_fieldTenors (perTenor : isPerTenor schema rc = true) :
    t ∈ fieldTenors schema rc ↔ t ∈ tenorNodesOf schema rc := by
  rw [fieldTenors, if_pos perTenor]

theorem eq_empty_of_scalar (scalar : isPerTenor schema rc = false)
    (ht : t ∈ fieldTenors schema rc) : t = "" := by
  rw [fieldTenors, if_neg (by simp [scalar])] at ht
  exact List.mem_singleton.mp ht

theorem mem_bucketDocs : d ∈ bucketDocs rc leg docs b ↔
    d ∈ docs ∧ rowTags d = some ⟨rc, b, legSens leg⟩ := by
  rw [bucketDocs, List.mem_filter, decide_eq_true_eq]

theorem InLayout.row (layout : InLayout fold schema rc leg buckets docs) (requested : b ∈ buckets)
    (mem : d ∈ bucketDocs rc leg docs b) : RowLayout schema rc leg d := by
  obtain ⟨here, ht⟩ := mem_bucketDocs.mp mem
  obtain ⟨hrc, hbkt, hsens⟩ := textOf_of_rowTags ht
  refine layout.rows d here ?_ (by rw [hbkt]; exact requested)
  simp [matchesQuery, hrc, hsens]

theorem legSens_ne_curvature (scalarKind : leg ≠ .curvature) : legSens leg ≠ "Curvature" := by
  cases leg with
  | delta => decide
  | vega => decide
  | curvature => exact absurd rfl scalarKind

/-- What a Delta or Vega row adds to the hash of a tenor is the value of its
field there. -/
theorem increments_valueRow (layout : InLayout fold schema rc leg buckets docs)
    (requested : b ∈ buckets) (scalarKind : leg ≠ .curvature) (ht : t ∈ fieldTenors schema rc)
    (mem : d ∈ bucketDocs rc leg docs b) (field : String) :
    increments (emitRollupHincrs d) (readoutKey schema rc (legSens leg) b t) field =
      ((fieldOf rc (scalarLeg (legSens leg)) d t).map (scalarTerm field)).getD 0 := by
  have tagged := (mem_bucketDocs.mp mem).2
  have notCurvature := legSens_ne_curvature scalarKind
  have hleg : scalarLeg (legSens leg) ≠ "" := by
    cases leg with
    | delta => decide
    | vega => decide
    | curvature => exact absurd rfl scalarKind
  have value := field_scalarLeg tagged hleg t
  rw [fieldOf, value]
  cases perTenor : isPerTenor schema rc with
  | true =>
    have nonempty : t ≠ "" := by
      rintro rfl
      exact layout.labelled perTenor ((mem_fieldTenors perTenor).mp ht)
    have key : readoutKey schema rc (legSens leg) b t =
        RowTags.key ⟨rc, b, legSens leg⟩ (some t) := if_pos perTenor
    rw [key, increments_scalarRow_tenor tagged notCurvature t]
    cases tenorMapAt d "weighted_value_per_tenor" with
    | none => rw [fieldValue, if_neg nonempty, Option.bind_none]
    | some m => rw [fieldValue, if_neg nonempty, Option.bind_some]
  | false =>
    have key : readoutKey schema rc (legSens leg) b t = RowTags.key ⟨rc, b, legSens leg⟩ none :=
      if_neg (by simp [perTenor])
    rw [key, increments_scalarRow_base tagged notCurvature,
      (layout.row requested mem).scalar perTenor, eq_empty_of_scalar perTenor ht, fieldValue,
      if_pos rfl]

/-- A row in the layout has its up and its down value at the same tenors. -/
theorem cvr_fields (layout : InLayout fold schema rc .curvature buckets docs)
    (requested : b ∈ buckets) (perTenor : isPerTenor schema rc = true)
    (ht : t ∈ fieldTenors schema rc) (mem : d ∈ bucketDocs rc .curvature docs b) :
    fieldOf rc "cvr_up" d t =
        (tenorMapAt d "weighted_cvr_up_per_tenor").bind (·.lookup t) ∧
      fieldOf rc "cvr_down" d t =
        (tenorMapAt d "weighted_cvr_down_per_tenor").bind (·.lookup t) ∧
      (fieldOf rc "cvr_up" d t).isSome = (fieldOf rc "cvr_down" d t).isSome := by
  have tagged := (mem_bucketDocs.mp mem).2
  have nonempty : t ≠ "" := by
    rintro rfl
    exact layout.labelled perTenor ((mem_fieldTenors perTenor).mp ht)
  obtain ⟨sameKind, sameTenors⟩ := (layout.row requested mem).paired rfl
  have both : ((tenorMapAt d "weighted_cvr_up_per_tenor").bind (·.lookup t)).isSome =
      ((tenorMapAt d "weighted_cvr_down_per_tenor").bind (·.lookup t)).isSome := by
    rw [Bool.eq_iff_iff, ← mem_tenorSet, ← mem_tenorSet, sameTenors]
  have up : fieldOf rc "cvr_up" d t =
      (tenorMapAt d "weighted_cvr_up_per_tenor").bind (·.lookup t) := by
    rw [fieldOf, field_cvrUp tagged rfl]
    cases tenorMapAt d "weighted_cvr_up_per_tenor" with
    | none => exact if_neg nonempty
    | some m => exact if_neg nonempty
  have down : fieldOf rc "cvr_down" d t =
      (tenorMapAt d "weighted_cvr_down_per_tenor").bind (·.lookup t) := by
    rw [fieldOf, field_cvrDown tagged rfl]
    cases hup : tenorMapAt d "weighted_cvr_up_per_tenor" with
    | none =>
      rw [hup, Option.isSome_none] at sameKind
      rw [Option.isSome_eq_false_iff.mp sameKind.symm |> Option.isNone_iff_eq_none.mp]
      exact if_neg nonempty
    | some m =>
      cases tenorMapAt d "weighted_cvr_down_per_tenor" with
      | none => rfl
      | some m' => exact if_neg nonempty
  exact ⟨up, down, by rw [up, down, both]⟩

theorem increments_cvrRow (layout : InLayout fold schema rc .curvature buckets docs)
    (requested : b ∈ buckets) (perTenor : isPerTenor schema rc = true)
    (ht : t ∈ fieldTenors schema rc) (mem : d ∈ bucketDocs rc .curvature docs b)
    (field : String) :
    increments (emitRollupHincrs d) (readoutKey schema rc (legSens .curvature) b t) field =
      ((bothOf (fieldOf rc "cvr_up" d t) (fieldOf rc "cvr_down" d t)).map
        (curvatureTerm field)).getD 0 := by
  obtain ⟨up, down, _⟩ := cvr_fields layout requested perTenor ht mem
  have key : readoutKey schema rc (legSens .curvature) b t =
      RowTags.key ⟨rc, b, legSens .curvature⟩ (some t) := if_pos perTenor
  rw [key, increments_curvatureRow_tenor (mem_bucketDocs.mp mem).2 rfl, up, down]

end Values

section Numbers
variable {schema : CalcSchema} {rc : String} {leg : FastLeg} {docs : List Props}
  {buckets : List String} {b t : String}

/-- The values of the rows at a tenor. -/
def valuesAt (rc root : String) (ds : List Props) (t : String) : List ℚ :=
  ds.map fun d => (fieldOf rc root d t).getD 0

/-- The rows that have a value at a tenor. -/
def filledAt (rc root : String) (ds : List Props) (t : String) : ℕ :=
  (ds.filter fun d => (fieldOf rc root d t).isSome).length

theorem sum_filled (rc root : String) (ds : List Props) (t : String) :
    (ds.map fun d => ((fieldOf rc root d t).map fun _ => (1 : ℚ)).getD 0).sum =
      filledAt rc root ds t := by
  unfold filledAt
  induction ds with
  | nil => rfl
  | cons d ds ih =>
    rw [List.map_cons, List.sum_cons, ih]
    cases h : fieldOf rc root d t with
    | none => rw [List.filter_cons_of_neg (by simp [h])]; simp
    | some v => rw [List.filter_cons_of_pos (by simp [h])]; simp [add_comm]

/-- The hash of a Delta or Vega bucket at a tenor. -/
theorem hashNumber_valueRows (layout : InLayout fold schema rc leg buckets docs)
    (requested : b ∈ buckets) (scalarKind : leg ≠ .curvature) (ht : t ∈ fieldTenors schema rc) :
    let hash := parseHgetall (ingestedHash docs (readoutKey schema rc (legSens leg) b t))
    let ds := bucketDocs rc leg docs b
    let root := scalarLeg (legSens leg)
    hashNumber hash "sum_ws" = (valuesAt rc root ds t).sum ∧
      hashNumber hash "sum_ws_sq" = ((valuesAt rc root ds t).map fun x => x * x).sum ∧
      hashNumber hash "count" = filledAt rc root ds t := by
  intro hash ds root
  have cells : ∀ field, hashNumber hash field =
      (ds.map fun d => ((fieldOf rc root d t).map (scalarTerm field)).getD 0).sum := by
    intro field
    rw [hashNumber_ingestedHash layout requested ht]
    exact congrArg List.sum (List.map_congr_left fun d mem =>
      increments_valueRow layout requested scalarKind ht mem field)
  refine ⟨?_, ?_, ?_⟩
  · rw [cells, valuesAt]
    refine congrArg List.sum (List.map_congr_left fun d _ => ?_)
    cases fieldOf rc root d t <;> simp [scalarTerm, scalarPart, countPart]
  · rw [cells, valuesAt, List.map_map]
    refine congrArg List.sum (List.map_congr_left fun d _ => ?_)
    cases h : fieldOf rc root d t <;> simp [h, scalarTerm, scalarPart, countPart]
  · rw [cells, ← sum_filled]
    refine congrArg List.sum (List.map_congr_left fun d _ => ?_)
    cases fieldOf rc root d t <;> simp [scalarTerm, scalarPart, countPart]

/-- The hash of a curvature bucket at a tenor. -/
theorem hashNumber_cvrRows (layout : InLayout fold schema rc .curvature buckets docs)
    (requested : b ∈ buckets) (perTenor : isPerTenor schema rc = true)
    (ht : t ∈ fieldTenors schema rc) :
    let hash := parseHgetall (ingestedHash docs (readoutKey schema rc (legSens .curvature) b t))
    let ds := bucketDocs rc .curvature docs b
    hashNumber hash "sum_ws_up" = (valuesAt rc "cvr_up" ds t).sum ∧
      hashNumber hash "sum_ws_down" = (valuesAt rc "cvr_down" ds t).sum ∧
      hashNumber hash "count" = filledAt rc "cvr_up" ds t := by
  intro hash ds
  have cells : ∀ field, hashNumber hash field = (ds.map fun d =>
      ((bothOf (fieldOf rc "cvr_up" d t) (fieldOf rc "cvr_down" d t)).map
        (curvatureTerm field)).getD 0).sum := by
    intro field
    rw [hashNumber_ingestedHash layout requested ht]
    exact congrArg List.sum (List.map_congr_left fun d mem =>
      increments_cvrRow layout requested perTenor ht mem field)
  have paired : ∀ d ∈ ds, (fieldOf rc "cvr_up" d t).isSome = (fieldOf rc "cvr_down" d t).isSome :=
    fun d mem => (cvr_fields layout requested perTenor ht mem).2.2
  refine ⟨?_, ?_, ?_⟩
  · rw [cells, valuesAt]
    refine congrArg List.sum (List.map_congr_left fun d mem => ?_)
    have both := paired d mem
    cases hup : fieldOf rc "cvr_up" d t <;> cases hdown : fieldOf rc "cvr_down" d t <;>
      simp_all [bothOf, curvatureTerm, curvaturePart, countPart]
  · rw [cells, valuesAt]
    refine congrArg List.sum (List.map_congr_left fun d mem => ?_)
    have both := paired d mem
    cases hup : fieldOf rc "cvr_up" d t <;> cases hdown : fieldOf rc "cvr_down" d t <;>
      simp_all [bothOf, curvatureTerm, curvaturePart, countPart]
  · rw [cells, ← sum_filled]
    refine congrArg List.sum (List.map_congr_left fun d mem => ?_)
    have both := paired d mem
    cases hup : fieldOf rc "cvr_up" d t <;> cases hdown : fieldOf rc "cvr_down" d t <;>
      simp_all [bothOf, curvatureTerm, curvaturePart, countPart]

/-- What the index sums of a field. -/
theorem safeNum_indexed (layout : InLayout fold schema rc leg buckets docs)
    (requested : b ∈ buckets)
    (named : b ≠ "") (searchVer : ℕ) (nan : NanChoice String)
    (nanPerRf : NanChoice (String × String)) {side : LegPrefix × String}
    (hside : side ∈ legSides leg) (ht : t ∈ fieldTenors schema rc) {part : Part}
    (hpart : part ∈ legParts leg) :
    safeNum ((rowAt (unweighedRows schema rc leg false searchVer
        [indexedNode fold rc leg docs nan nanPerRf]) b).sums (sideName rc "ws" side t part)) =
      ((valuesAt rc side.2 (bucketDocs rc leg docs b) t).map (partValue part)).sum := by
  have one : requestMult schema rc leg false = fun _ => 1 :=
    funext (requestMult_eq_one (Or.inl rfl))
  have mem := sideName_mem false hside ht hpart
  rw [if_neg Bool.false_ne_true] at mem
  rw [safeNum_single _ named mem, docsOf_indexedNode layout requested, one]
  simp only [exactSum, valuesAt, List.map_map, Function.comp_def, safeValue, true_or, if_true]
  rfl

end Numbers

section Reports
variable {schema : CalcSchema} {rc : String} {leg : FastLeg} {docs : List Props}
  {buckets : List String} {b : String}

/-- The root of the fields that a row counts by. -/
def countedRoot : FastLeg → String
  | .delta => "delta"
  | .vega => "vega"
  | .curvature => "cvr_up"

/-- The rows with a value, counted once for each tenor. -/
def tally (schema : CalcSchema) (rc : String) (leg : FastLeg) (ds : List Props) : ℕ :=
  ((fieldTenors schema rc).map (filledAt rc (countedRoot leg) ds)).sum

/-- The hashes of a bucket by tenor, after each document was ingested once. -/
def ingestedHashes (schema : CalcSchema) (rc : String) (leg : FastLeg) (docs : List Props)
    (b t : String) : Option RollupHash :=
  parseHgetall (ingestedHash docs (readoutKey schema rc (legSens leg) b t))

theorem count_cast (l : List String) (n : String → ℕ) :
    (l.map fun t => (n t : ℚ)).sum = ((l.map n).sum : ℕ) := by
  induction l with
  | nil => simp
  | cons t l ih =>
    rw [List.map_cons, List.sum_cons, ih, List.map_cons, List.sum_cons, Nat.cast_add]

theorem hashNumber_count (layout : InLayout fold schema rc leg buckets docs)
    (requested : b ∈ buckets)
    (served : leg = .curvature → isPerTenor schema rc = true) {t : String}
    (ht : t ∈ fieldTenors schema rc) :
    hashNumber (ingestedHashes schema rc leg docs b t) "count" =
      filledAt rc (countedRoot leg) (bucketDocs rc leg docs b) t := by
  cases leg with
  | delta => exact (hashNumber_valueRows layout requested (by decide) ht).2.2
  | vega => exact (hashNumber_valueRows layout requested (by decide) ht).2.2
  | curvature => exact (hashNumber_cvrRows layout requested (served rfl) ht).2.2

theorem readoutReport_count (layout : InLayout fold schema rc leg buckets docs)
    (requested : b ∈ buckets)
    (served : leg = .curvature → isPerTenor schema rc = true) :
    (readoutReport schema rc leg b (ingestedHashes schema rc leg docs b)).count =
      tally schema rc leg (bucketDocs rc leg docs b) := by
  have counts : ∀ t ∈ fieldTenors schema rc,
      hashNumber (ingestedHashes schema rc leg docs b t) "count" =
        filledAt rc (countedRoot leg) (bucketDocs rc leg docs b) t :=
    fun t ht => hashNumber_count layout requested served ht
  have total : ((fieldTenors schema rc).map fun t =>
      hashNumber (ingestedHashes schema rc leg docs b t) "count").sum =
      tally schema rc leg (bucketDocs rc leg docs b) := by
    rw [List.map_congr_left counts, count_cast, tally]
  unfold readoutReport
  cases leg with
  | delta => exact total
  | vega => exact total
  | curvature =>
    dsimp only
    rw [if_pos rfl]
    split
    · exact total
    · exact total

/-- Both readings of a bucket reduce the same sums. -/
theorem readoutReport_agrees (layout : InLayout fold schema rc leg buckets docs)
    (requested : b ∈ buckets) (named : b ≠ "")
    (served : leg = .curvature → isPerTenor schema rc = true) (searchVer : ℕ)
    (nan : NanChoice String) (nanPerRf : NanChoice (String × String))
    (perRf : List (String × Record)) (topN : Option ℕ) :
    let report := readoutReport schema rc leg b (ingestedHashes schema rc leg docs b)
    let indexed := bucketResultFromRow b (rowAt (unweighedRows schema rc leg false searchVer
      [indexedNode fold rc leg docs nan nanPerRf]) b) (resolveLegFields schema rc leg) leg
      (resolveRho schema rc leg) (isPerTenor schema rc) perRf topN
    report.kb = indexed.kb ∧ report.sb = indexed.sb := by
  have sums : ∀ side ∈ legSides leg, ∀ part ∈ legParts leg,
      ((fieldTenors schema rc).map (fieldFor "ws" (lowerCase rc) side.2)).map
        (fun f => safeNum ((rowAt (unweighedRows schema rc leg false searchVer
          [indexedNode fold rc leg docs nan nanPerRf]) b).sums ⟨side.1, f, part⟩)) =
      (fieldTenors schema rc).map fun t =>
        ((valuesAt rc side.2 (bucketDocs rc leg docs b) t).map (partValue part)).sum := by
    intro side hside part hpart
    rw [List.map_map]
    exact List.map_congr_left fun t ht =>
      safeNum_indexed layout requested named searchVer nan nanPerRf hside ht hpart
  have value : partValue .value = fun x => x := rfl
  have square : partValue .sq = fun x => x * x := rfl
  intro report indexed
  cases leg with
  | delta =>
    have values := sums (.d, "delta") (by simp [legSides]) .value (by simp [legParts])
    have squares := sums (.d, "delta") (by simp [legSides]) .sq (by simp [legParts])
    have ws : ∀ t ∈ fieldTenors schema rc,
        hashNumber (ingestedHashes schema rc .delta docs b t) "sum_ws" = _ :=
      fun t ht => (hashNumber_valueRows layout requested (by decide) ht).1
    have sq : ∀ t ∈ fieldTenors schema rc,
        hashNumber (ingestedHashes schema rc .delta docs b t) "sum_ws_sq" = _ :=
      fun t ht => (hashNumber_valueRows layout requested (by decide) ht).2.1
    simp only [value, List.map_id'] at values
    rw [square] at squares
    simp only [report, indexed, readoutReport, bucketResultFromRow, resolveLegFields,
      resolveLegFieldsForPrefix, legSums, values, squares, List.map_congr_left ws,
      List.map_congr_left sq, reduceCtorEq, if_false]
    cases isPerTenor schema rc with
    | true => exact ⟨rfl, rfl⟩
    | false => exact ⟨rfl, rfl⟩
  | vega =>
    have values := sums (.v, "vega") (by simp [legSides]) .value (by simp [legParts])
    have squares := sums (.v, "vega") (by simp [legSides]) .sq (by simp [legParts])
    have ws : ∀ t ∈ fieldTenors schema rc,
        hashNumber (ingestedHashes schema rc .vega docs b t) "sum_ws" = _ :=
      fun t ht => (hashNumber_valueRows layout requested (by decide) ht).1
    have sq : ∀ t ∈ fieldTenors schema rc,
        hashNumber (ingestedHashes schema rc .vega docs b t) "sum_ws_sq" = _ :=
      fun t ht => (hashNumber_valueRows layout requested (by decide) ht).2.1
    simp only [value, List.map_id'] at values
    rw [square] at squares
    simp only [report, indexed, readoutReport, bucketResultFromRow, resolveLegFields,
      resolveLegFieldsForPrefix, legSums, values, squares, List.map_congr_left ws,
      List.map_congr_left sq, reduceCtorEq, if_false]
    cases isPerTenor schema rc with
    | true => exact ⟨rfl, rfl⟩
    | false => exact ⟨rfl, rfl⟩
  | curvature =>
    have perTenor := served rfl
    have ups := sums (.u, "cvr_up") (by simp [legSides]) .value (by simp [legParts])
    have downs := sums (.n, "cvr_down") (by simp [legSides]) .value (by simp [legParts])
    have up : ∀ t ∈ fieldTenors schema rc,
        hashNumber (ingestedHashes schema rc .curvature docs b t) "sum_ws_up" = _ :=
      fun t ht => (hashNumber_cvrRows layout requested perTenor ht).1
    have down : ∀ t ∈ fieldTenors schema rc,
        hashNumber (ingestedHashes schema rc .curvature docs b t) "sum_ws_down" = _ :=
      fun t ht => (hashNumber_cvrRows layout requested perTenor ht).2.1
    simp only [value, List.map_id'] at ups downs
    simp only [report, indexed, readoutReport, bucketResultFromRow, resolveLegFields,
      resolveLegFieldsForPrefix, kbCurvatureForDirection, perTenor, if_true, ups, downs,
      List.map_congr_left up, List.map_congr_left down]
    split
    · exact ⟨rfl, rfl⟩
    · exact ⟨rfl, rfl⟩

end Reports

end RollupReadout
