import Mathlib.Data.Rat.Encodable
import Frtb.Library.EventRuns
import Frtb.ReadoutAgreement

/-!
# The K_b cache over a history

A readout of a scalar class takes the `K_b` of a bucket from the cache where the digest of
its rollup hash is the one the entry was stored with. The digest covers the sums; the
correlation of the schema is in neither the digest nor the key.
-/

namespace KbHistory

open AssocMaps EnrichDoc EventRuns FastPath IndexedRows RollupReadout ReadoutAgreement
open StorageWriter (upperCase)

/-- The SHA-1 of the sorted fields of a hash, taken to be free of collisions: two hashes have one
digest exactly when they have the same fields. -/
structure Digest where
  text : RollupHash → String
  collisionFree : ∀ {h h' : RollupHash},
    text h = text h' ↔ ∀ field, h.lookup field = h'.lookup field

structure State where
  hashes : String → RollupHash
  cache : KbCache

/-- The rollups change, a cache entry runs out of its time, or a readout is made; each
readout comes with its schema, and with whether the rollups could be read. -/
inductive Event
  | update (hashes : String → RollupHash)
  | expire (key : String)
  | readout (schema : CalcSchema) (riskClass : String) (leg : FastLeg) (buckets : List String)
      (reached : Bool)

noncomputable def answer (digest : Digest) (s : State) (schema : CalcSchema) (riskClass : String)
    (leg : FastLeg) (buckets : List String) (reached : Bool) :
      Option (List BucketReport) × KbCache :=
  tryRollupReadout digest.text schema riskClass leg buckets
      (if reached then some s.hashes else none)
    s.cache

noncomputable def step (digest : Digest) (s : State) : Event → State
  | .update hashes => { s with hashes }
  | .expire key => { s with cache := Function.update s.cache key none }
  | .readout schema riskClass leg buckets reached =>
    { s with cache := (answer digest s schema riskClass leg buckets reached).2 }

/-- The closed form of `K_b` for the sums of a scalar bucket's hash. -/
noncomputable def closedKb (h : RollupHash) (rho : ℚ) : ℝ :=
  (kbFromConstantRho (hashNumber (some h) "sum_ws") (hashNumber (some h) "sum_ws_sq") rho).1

/-- The closed form is the same whatever the order of the fields. -/
theorem closedKb_congr {h h' : RollupHash} (same : ∀ field, h.lookup field = h'.lookup field)
    (rho : ℚ) :
    closedKb h rho = closedKb h' rho := by
  have number : ∀ field, hashNumber (some h) field = hashNumber (some h') field := by
    intro field
    simp only [hashNumber, Option.bind_some, same]
  rw [closedKb, closedKb, number, number]

abbrev Correlations := String → ℚ

/-- The correlation of the readout an event is. -/
def rhoOf : Event → ℚ
  | .readout schema riskClass leg _ _ => resolveRho schema (upperCase riskClass) leg
  | _ => 0

open Classical in
/-- The store, with the correlation under which each entry of the cache was put there. -/
noncomputable def traced (digest : Digest) (x : State × Correlations) (e : Event) :
    Option (State × Correlations) :=
  some (step digest x.1 e,
    fun key => if (step digest x.1 e).cache key = x.1.cache key then x.2 key else rhoOf e)

/-- The hash of a scalar class's bucket. -/
def bucketHash (s : State) (schema : CalcSchema) (rc : String) (leg : FastLeg) (b : String) :
    RollupHash :=
  s.hashes (readoutKey schema rc (legSens leg) b "")

/-- The `K_b` of each scalar Delta or Vega result is that of its own sums under the schema
of the call, and the terms beside it are those it is made of. -/
def ReturnsClosedForm (digest : Digest) (x : State × Correlations) : Event → Prop
  | .readout schema riskClass leg buckets reached =>
    ∀ results, (answer digest x.1 schema riskClass leg buckets reached).1 = some results →
      isPerTenor schema (upperCase riskClass) = false → ∀ r ∈ results,
        let sumWsSq := hashNumber (some (bucketHash x.1 schema (upperCase riskClass) leg r.bucket))
          "sum_ws_sq"
        (r.kb, r.intermediate.wsSquaredSum, r.intermediate.crossTerm) =
          kbFromConstantRho r.sb sumWsSq (resolveRho schema (upperCase riskClass) leg)
  | _ => True

/-- A cached `K_b` that a readout takes was stored under a correlation with the same
closed form for the bucket's sums. -/
def SameClosedForm (digest : Digest) (x : State × Correlations) : Event → Prop
  | .readout schema riskClass leg buckets reached =>
    ∀ results, (answer digest x.1 schema riskClass leg buckets reached).1 = some results →
      isPerTenor schema (upperCase riskClass) = false → ∀ b ∈ buckets,
        let h := bucketHash x.1 schema (upperCase riskClass) leg b
        let key := kbKey (upperCase riskClass) leg b
        (lookupKbCacheEntry x.1.cache key (digest.text h)).isSome = true →
          closedKb h (x.2 key) = closedKb h (resolveRho schema (upperCase riskClass) leg)
  | _ => True

/-- Every entry is the closed form of some hash under the correlation it was stored with. -/
def Stored (digest : Digest) (x : State × Correlations) : Prop :=
  ∀ key entry, x.1.cache key = some entry →
    ∃ h, entry.contentHash = digest.text h ∧ entry.kb = closedKb h (x.2 key)

variable {digest : Digest} {x y : State × Correlations} {schema : CalcSchema}
    {rc riskClass : String}
  {leg : FastLeg} {b : String}

theorem fieldTenors_scalar (scalar : isPerTenor schema rc = false) :
    fieldTenors schema rc = [""] := by
  unfold fieldTenors
  rw [if_neg (by simp [scalar])]

/-- The report of a scalar bucket: its sums, and the terms of the closed form. -/
theorem readoutReport_scalar (scalar : isPerTenor schema rc = false) (other : leg ≠ .curvature)
    (b : String) (tm : String → Option RollupHash) :
    ((readoutReport schema rc leg b tm).kb,
        (readoutReport schema rc leg b tm).intermediate.wsSquaredSum,
        (readoutReport schema rc leg b tm).intermediate.crossTerm) =
      kbFromConstantRho (hashNumber (tm "") "sum_ws") (hashNumber (tm "") "sum_ws_sq")
        (resolveRho schema rc leg) ∧
      (readoutReport schema rc leg b tm).sb = hashNumber (tm "") "sum_ws" := by
  unfold readoutReport
  simp only [fieldTenors_scalar scalar, scalar, if_neg other, List.map_cons, List.map_nil,
    List.sum_cons, List.sum_nil, add_zero, Bool.false_eq_true, false_and, if_false, and_self]

theorem hashNumber_getD (h : Option RollupHash) (field : String) :
    hashNumber (some (h.getD ∅)) field = hashNumber h field := by
  cases h with
  | none => rfl
  | some h => rfl

theorem readoutReport_closedKb (scalar : isPerTenor schema rc = false) (other : leg ≠ .curvature)
    (b : String) (tm : String → Option RollupHash) :
    (readoutReport schema rc leg b tm).kb = closedKb ((tm "").getD ∅)
    (resolveRho schema rc leg) := by
  rw [closedKb, hashNumber_getD, hashNumber_getD]
  exact congrArg Prod.fst (readoutReport_scalar scalar other b tm).1

/-- A change of the cache is an entry for the readout's own correlation. -/
def Fills (digest : Digest) (rho : ℚ) (before after : KbCache) : Prop :=
  ∀ key, after key = before key ∨ ∃ h, after key = some ⟨closedKb h rho, digest.text h⟩

theorem fills_readBuckets (other : isPerTenor schema rc = false → leg ≠ .curvature)
    (hs : List BucketHashes)
    (acc : List BucketReport × KbCache) :
    Fills digest (resolveRho schema rc leg) acc.2
      (hs.foldl (readBucket digest.text schema rc leg) acc).2 := by
  have one : ∀ (acc : List BucketReport × KbCache) (h : BucketHashes),
      Fills digest (resolveRho schema rc leg) acc.2
        (readBucket digest.text schema rc leg acc h).2 := by
    intro acc h key
    unfold readBucket
    split
    · exact .inl rfl
    · cases perTenor : isPerTenor schema rc with
      | true => exact .inl rfl
      | false =>
        rw [if_neg Bool.false_ne_true]
        unfold cacheKb
        dsimp only
        split
        · exact .inl rfl
        · rw [readoutReport_closedKb perTenor (other perTenor)]
          by_cases same : key = kbCacheKey rc h.bucket (legSens leg) "default" "n_a"
          · subst same
            exact .inr ⟨_, Function.update_self ..⟩
          · exact .inl (Function.update_of_ne same ..)
  induction hs generalizing acc with
  | nil => exact fun key => .inl rfl
  | cons h hs ih =>
    intro key
    rcases ih (readBucket digest.text schema rc leg acc h) key with same | filled
    · rcases one acc h key with same' | filled
      · exact .inl (same.trans same')
      · exact .inr (filled.imp fun _ entry => same.trans entry)
    · exact .inr filled

theorem fills_answer (s : State) (schema : CalcSchema) (riskClass : String) (leg : FastLeg)
    (buckets : List String) (reached : Bool) :
    Fills digest (resolveRho schema (upperCase riskClass) leg) s.cache
      (answer digest s schema riskClass leg buckets reached).2 := by
  unfold answer tryRollupReadout
  dsimp only
  split
  · exact fun key => .inl rfl
  · rename_i supported
    have other : isPerTenor schema (upperCase riskClass) = false → leg ≠ .curvature :=
      fun scalar curvature => supported ⟨curvature, by simp [scalar]⟩
    split
    · exact fun key => .inl rfl
    · split
      · exact fun key => .inl rfl
      · split
        · exact fun key => .inl rfl
        · split
          · exact fills_readBuckets other _ ([], s.cache)
          · exact fills_readBuckets other _ ([], s.cache)

theorem Stored.traced {e : Event} (ok : Stored digest x)
    (went : KbHistory.traced digest x e = some y) :
    Stored digest y := by
  obtain rfl := Option.some.inj went
  intro key entry found
  dsimp only at found ⊢
  by_cases same : (step digest x.1 e).cache key = x.1.cache key
  · rw [if_pos same]
    exact ok key entry (same ▸ found)
  · rw [if_neg same]
    cases e with
    | update hashes => exact absurd rfl same
    | expire expired =>
      by_cases here : key = expired
      · subst here
        have gone : (step digest x.1 (.expire key)).cache key = none := Function.update_self ..
        rw [gone] at found
        cases found
      · exact absurd (Function.update_of_ne here ..) same
    | readout schema riskClass leg buckets reached =>
      rcases @fills_answer digest x.1 schema riskClass leg buckets reached
        key with kept | ⟨h, filled⟩
      · exact absurd kept same
      · obtain rfl := Option.some.inj (filled.symm.trans found)
        exact ⟨h, rfl, rfl⟩

theorem stored_initial (hashes : String → RollupHash) :
    Stored digest (⟨hashes, fun _ => none⟩, fun _ => 0) :=
  fun _ _ found => by cases found

/-- A `K_b` that is found under the digest of a hash is the hash's own, under the
correlation it was stored with. -/
theorem Stored.lookup (ok : Stored digest x) {key : String} {h : RollupHash} {kb : ℝ}
    (found : lookupKbCacheEntry x.1.cache key (digest.text h) = some kb) :
    kb = closedKb h (x.2 key) := by
  unfold lookupKbCacheEntry at found
  split at found
  · cases found
  · rename_i entry here
    split at found
    · rename_i same
      obtain rfl := Option.some.inj found
      obtain ⟨h', digested, kb⟩ := ok key entry here
      rw [kb]
      exact closedKb_congr (digest.collisionFree.mp (digested.symm.trans same)) _
    · cases found

theorem bucketHash_eq (s : State)
    (present : ((storedHashes schema rc leg s.hashes b).tm "").isSome) :
    (storedHashes schema rc leg s.hashes b).tm "" = some (bucketHash s schema rc leg b) := by
  obtain ⟨h, parsed⟩ := Option.isSome_iff_exists.mp present
  have same : h = bucketHash s schema rc leg b := parseHgetall_eq_some parsed
  rw [parsed, same]

theorem hasHash_scalar (scalar : isPerTenor schema rc = false) {h : BucketHashes}
    (present : (h.tm "").isSome) : hasHash schema rc h = true := by
  rw [hasHash, fieldTenors_scalar scalar, List.any_cons, present, Bool.true_or]

theorem unreached {s : State} {buckets : List String} {results : List BucketReport}
    (served : (answer digest s schema riskClass leg buckets false).1 = some results) :
    buckets = [] ∧ results = [] := by
  unfold answer tryRollupReadout at served
  dsimp only at served
  split at served
  · cases served
  · split at served
    · rename_i empty
      exact ⟨empty, (Option.some.inj served).symm⟩
    · cases served

theorem servedReport_closed_iff (ok : Stored digest x) (scalar : isPerTenor schema rc = false)
    (other : leg ≠ .curvature) {tm : String → Option RollupHash} {h : RollupHash}
    (here : tm "" = some h) :
    ((servedReport digest.text schema rc leg x.1.cache ⟨b, tm⟩).kb,
        (servedReport digest.text schema rc leg x.1.cache ⟨b, tm⟩).intermediate.wsSquaredSum,
        (servedReport digest.text schema rc leg x.1.cache ⟨b, tm⟩).intermediate.crossTerm) =
      kbFromConstantRho (servedReport digest.text schema rc leg x.1.cache ⟨b, tm⟩).sb
        (hashNumber (some h) "sum_ws_sq") (resolveRho schema rc leg) ↔
    ((lookupKbCacheEntry x.1.cache (kbKey rc leg b) (digest.text h)).isSome = true →
      closedKb h (x.2 (kbKey rc leg b)) = closedKb h (resolveRho schema rc leg)) := by
  obtain ⟨terms, sb⟩ := readoutReport_scalar scalar other b tm
  have own := readoutReport_closedKb scalar other b tm
  rw [here] at terms sb own
  have kept : (servedReport digest.text schema rc leg x.1.cache ⟨b, tm⟩).sb =
      hashNumber (some h) "sum_ws" := sb
  rw [kept, ← terms]
  have kb : (servedReport digest.text schema rc leg x.1.cache ⟨b, tm⟩).kb =
      (lookupKbCacheEntry x.1.cache (kbKey rc leg b) (digest.text h)).getD
        (closedKb h (resolveRho schema rc leg)) := by
    have served : (servedReport digest.text schema rc leg x.1.cache ⟨b, tm⟩).kb =
        servedKb digest.text schema rc leg x.1.cache ⟨b, tm⟩ := rfl
    rw [served, servedKb, if_neg (by simp [scalar])]
    dsimp only
    rw [here, own]
    rfl
  have terms_iff : ∀ {p : ℝ} {q : ℚ × ℚ}, (p, q) = ((readoutReport schema rc leg b tm).kb, q) ↔
      p = closedKb h (resolveRho schema rc leg) := by
    intro p q
    rw [own, Prod.mk.injEq, and_iff_left rfl]
    rfl
  refine terms_iff.trans ?_
  rw [kb]
  cases found : lookupKbCacheEntry x.1.cache (kbKey rc leg b) (digest.text h) with
  | none => simp
  | some kb =>
    rw [Option.getD_some, ok.lookup found]
    simp

/-- A readout is right about its `K_b` exactly when the entries it takes were stored under
a correlation with the same closed form. -/
theorem Stored.returnsClosedForm_iff (ok : Stored digest x) (e : Event) :
    ReturnsClosedForm digest x e ↔ SameClosedForm digest x e := by
  cases e with
  | update hashes => exact Iff.rfl
  | expire key => exact Iff.rfl
  | readout schema riskClass leg buckets reached =>
    refine forall_congr' fun results => imp_congr_right fun served =>
      imp_congr_right fun scalar => ?_
    cases reached with
    | false =>
      obtain ⟨rfl, rfl⟩ := unreached served
      exact ⟨fun _ b mem => (by cases mem), fun _ r mem => (by cases mem)⟩
    | true =>
      obtain ⟨perTenorLeg, rfl, present⟩ := served_results served
      have other : leg ≠ .curvature := by
        intro curvature
        rw [perTenorLeg curvature] at scalar
        cases scalar
      have bucket : ∀ b tm, (servedReport digest.text schema (upperCase riskClass) leg x.1.cache
          ⟨b, tm⟩).bucket = b := fun b tm => readoutReport_bucket schema _ leg b tm
      constructor
      · intro all b mem
        have listed := List.mem_map_of_mem
            (f := storedHashes schema (upperCase riskClass) leg x.1.hashes) mem
        have right := all _ (List.mem_map_of_mem (List.mem_filter.mpr
          ⟨listed, hasHash_scalar scalar (present scalar b mem)⟩))
        dsimp only [storedHashes] at right
        rw [bucket] at right
        exact (servedReport_closed_iff ok scalar other
          (bucketHash_eq x.1 (present scalar b mem))).mp
          right
      · intro all r mem
        obtain ⟨h, listed, rfl⟩ := List.mem_map.mp mem
        obtain ⟨b, named, rfl⟩ := List.mem_map.mp (List.mem_filter.mp listed).1
        dsimp only [storedHashes]
        rw [bucket]
        exact (servedReport_closed_iff ok scalar other
          (bucketHash_eq x.1 (present scalar b named))).mpr
          (all b named)

/-- In every history, each readout returns the closed form of its own sums and schema
exactly when no `K_b` it takes from the cache was stored under a correlation with another
closed form for them. -/
theorem closedForm_iff (digest : Digest) (hashes : String → RollupHash) (events : List Event) :
    ∀ p ∈ taken (KbHistory.traced digest) (⟨hashes, fun _ => none⟩, fun _ => 0) events,
      ReturnsClosedForm digest p.1 p.2 ↔ SameClosedForm digest p.1 p.2 := by
  intro p mem
  have stored : Stored digest p.1 :=
    @taken_of_inv _ _ (KbHistory.traced digest) (Stored digest) (fun _ _ => True)
      (fun _ _ _ ok _ went => ok.traced went) _ (stored_initial hashes) events
      (fun _ _ => trivial) p mem
  exact stored.returnsClosedForm_iff p.2

section Demo

theorem exists_digest : ∃ text : RollupHash → String, ∀ {h h' : RollupHash},
    text h = text h' ↔ ∀ field, h.lookup field = h'.lookup field := by
  have chars : Countable Char :=
    Function.Injective.countable fun a b same => Char.ext (UInt32.toNat_inj.mp same)
  have strings : Countable String := Function.Injective.countable @String.toList_injective
  have hashes : Countable RollupHash :=
    Function.Injective.countable
      (fun h h' same => AList.ext same : Function.Injective AList.entries)
  have fields : Countable (Set.range fun (h : RollupHash) field => h.lookup field) :=
    (Set.countable_range _).to_subtype
  obtain ⟨number, injective⟩ := fields.exists_injective_nat
  refine ⟨fun h =>
    String.ofList (List.replicate (number ⟨fun field => h.lookup field, h, rfl⟩) 'a'), ?_⟩
  intro h h'
  constructor
  · intro same
    have lists := congrArg String.toList same
    rw [String.toList_ofList, String.toList_ofList] at lists
    have numbers : number ⟨fun field => h.lookup field, h, rfl⟩ =
        number ⟨fun field => h'.lookup field, h', rfl⟩ := by
      simpa using congrArg List.length lists
    exact congrFun (congrArg Subtype.val (injective numbers))
  · intro same
    simp only [same]

noncomputable def someDigest : Digest := ⟨exists_digest.choose, exists_digest.choose_spec⟩

/-- A schema with one scalar class of the given correlation. -/
def fxSchema (rho : ℚ) : CalcSchema where
  riskClasses := ofPairs [("FX", ⟨none, "fx_delta_weights"⟩)]
  riskWeights := ofPairs [("fx_delta_weights", .constant 1)]
  intraBucketCorrelationRef := fun _ => some "fx_rho"
  correlations := fun _ => some (.constant rho)

/-- Two rows of weighted values 1 and 2. -/
def fxHash : RollupHash := ofPairs [("sum_ws", 3), ("sum_ws_sq", 5), ("count", 2)]

def fxReadout (rho : ℚ) : Event := .readout (fxSchema rho) "FX" .delta ["EURUSD"] true

theorem answer_single {s : State} (scalar : isPerTenor schema (upperCase riskClass) = false)
    (other : leg ≠ .curvature) {h : RollupHash}
    (present : (storedHashes schema (upperCase riskClass) leg s.hashes b).tm "" = some h) :
    (answer digest s schema riskClass leg [b] true).1 =
        some [servedReport digest.text schema (upperCase riskClass) leg s.cache
          (storedHashes schema (upperCase riskClass) leg s.hashes b)] ∧
      (lookupKbCacheEntry s.cache (kbKey (upperCase riskClass) leg b) (digest.text h) = none →
        (answer digest s schema riskClass leg [b] true).2 (kbKey (upperCase riskClass) leg b) =
          some ⟨closedKb h (resolveRho schema (upperCase riskClass) leg), digest.text h⟩) := by
  have went : answer digest s schema riskClass leg [b] true =
      (some (readBucket digest.text schema (upperCase riskClass) leg ([], s.cache)
        (storedHashes schema (upperCase riskClass) leg s.hashes b)).1,
        (readBucket digest.text schema (upperCase riskClass) leg ([], s.cache)
          (storedHashes schema (upperCase riskClass) leg s.hashes b)).2) := by
    have all_present : ¬ (!isPerTenor schema (upperCase riskClass) &&
        ([b].map (storedHashes schema (upperCase riskClass) leg s.hashes)).any
          fun h => (h.tm "").isNone) = true := by
      rw [List.map_singleton, List.any_cons, List.any_nil, present, scalar]
      exact Bool.false_ne_true
    have not_dropped : ∀ xs : List BucketReport,
        ¬ (isPerTenor schema (upperCase riskClass) && xs.isEmpty) = true := by
      intro xs
      rw [scalar, Bool.false_and]
      exact Bool.false_ne_true
    unfold answer
    rw [if_pos rfl]
    unfold tryRollupReadout
    dsimp only
    rw [if_neg fun h => other h.1, if_neg (List.cons_ne_nil b [])]
    refine (if_neg all_present).trans ?_
    exact if_neg (not_dropped _)
  have tagged : hasHash schema (upperCase riskClass)
      (storedHashes schema (upperCase riskClass) leg s.hashes b) = true :=
    hasHash_scalar scalar (Option.isSome_iff_exists.mpr ⟨h, present⟩)
  obtain ⟨reported, _⟩ :=
    @readBucket_spec digest.text schema (upperCase riskClass) leg ([], s.cache)
    (storedHashes schema (upperCase riskClass) leg s.hashes b)
  rw [if_pos tagged] at reported
  rw [went]
  refine ⟨congrArg some reported, fun missing => ?_⟩
  unfold readBucket
  simp only [fieldTenors_scalar scalar, List.all_cons, present, Option.isNone_some, Bool.false_and,
    Bool.false_eq_true, if_false, scalar]
  unfold cacheKb
  rw [present]
  dsimp only [Option.getD_some]
  have missed : lookupKbCacheEntry s.cache (kbCacheKey (upperCase riskClass)
      (storedHashes schema (upperCase riskClass) leg s.hashes b).bucket
      (legSens leg) "default" "n_a")
      (digest.text h) = none := missing
  rw [missed, readoutReport_closedKb scalar other, present]
  dsimp only [Option.getD_some]
  exact Function.update_self (kbKey (upperCase riskClass) leg b) _ s.cache

theorem fx_scalar (rho : ℚ) : isPerTenor (fxSchema rho) (upperCase "FX") = false := by
  have other : upperCase "FX" ∉ perTenorClasses := by decide +kernel
  rw [isPerTenor, decide_eq_false other, Bool.false_and]

/-- What the readouts of the demo read. -/
theorem fx_present (rho : ℚ) : (storedHashes (fxSchema rho) (upperCase "FX") .delta
    (fun _ => fxHash) "EURUSD").tm "" = some fxHash :=
  (if_neg (by decide +kernel) : parseHgetall fxHash = some fxHash)

/-- The first readout finds no cached `K_b` and stores its own. -/
theorem fx_stored (rho : ℚ) :
    (step someDigest ⟨fun _ => fxHash, fun _ => none⟩ (fxReadout rho)).cache
        (kbKey (upperCase "FX") .delta "EURUSD") =
      some ⟨closedKb fxHash (resolveRho (fxSchema rho) (upperCase "FX") .delta),
        someDigest.text fxHash⟩ :=
  (@answer_single someDigest (fxSchema rho) "FX" .delta "EURUSD"
    ⟨fun _ => fxHash, fun _ => none⟩ (fx_scalar rho) (fun h => by cases h) fxHash
    (fx_present rho)).2 rfl

/-- A second readout under the same correlation is answered with the `K_b` of the first. -/
theorem closedForm_second :
    ∃ x, KbHistory.traced someDigest (⟨fun _ => fxHash, fun _ => none⟩, fun _ => 0)
        (fxReadout (1 / 2)) = some x ∧
      (lookupKbCacheEntry x.1.cache (kbKey (upperCase "FX") .delta "EURUSD")
        (someDigest.text fxHash)).isSome = true ∧
      ReturnsClosedForm someDigest x (fxReadout (1 / 2)) := by
  have stored := fx_stored (1 / 2)
  refine ⟨_, rfl, ?_, (closedForm_iff someDigest (fun _ => fxHash)
    [fxReadout (1 / 2), fxReadout (1 / 2)] _ (List.mem_cons_of_mem _ List.mem_cons_self)).mpr ?_⟩
  · unfold lookupKbCacheEntry
    dsimp only
    rw [stored]
    simp
  · intro _ _ _ b mem _ _ _
    obtain rfl := List.mem_singleton.mp mem
    dsimp only
    rw [if_neg]
    · rfl
    · rw [stored]
      exact Option.some_ne_none _

/-- A second readout under another correlation is answered with the `K_b` of the first. -/
theorem stale_after_schema_change :
    ¬ ∀ p ∈ taken (KbHistory.traced someDigest) (⟨fun _ => fxHash, fun _ => none⟩, fun _ => 0)
        [fxReadout 0, fxReadout (1 / 2)],
      ReturnsClosedForm someDigest p.1 p.2 := by
  intro all
  have stored := fx_stored 0
  have ok := (@stored_initial someDigest fun _ => fxHash).traced (e := fxReadout 0) rfl
  have second := all _ (List.mem_cons_of_mem _ List.mem_cons_self)
  obtain ⟨served, _⟩ := @answer_single someDigest (fxSchema (1 / 2)) "FX" .delta "EURUSD"
    (step someDigest ⟨fun _ => fxHash, fun _ => none⟩ (fxReadout 0)) (fx_scalar _)
    (fun h => by cases h) fxHash (fx_present _)
  have same := (ok.returnsClosedForm_iff _).mp second _ served (fx_scalar _) "EURUSD"
    List.mem_cons_self
  have hit : (lookupKbCacheEntry
      (step someDigest ⟨fun _ => fxHash, fun _ => none⟩ (fxReadout 0)).cache
      (kbKey (upperCase "FX") .delta "EURUSD") (someDigest.text fxHash)).isSome = true := by
    unfold lookupKbCacheEntry
    rw [show (step someDigest ⟨fun _ => fxHash, fun _ => none⟩ (fxReadout 0)).cache
      (kbKey (upperCase "FX") .delta "EURUSD") = _ from stored]
    simp
  have rhos : ∀ rho, resolveRho (fxSchema rho) (upperCase "FX") .delta = rho := fun rho => by
    rw [resolveRho, if_neg (fun h => by cases h.2)]
    rfl
  have equal : closedKb fxHash 0 = closedKb fxHash (1 / 2) := by
    have equal := same hit
    simp only [fxReadout, rhoOf, rhos, ite_self] at equal
    exact equal
  have closed : ∀ rho, closedKb fxHash rho = √((max (5 + rho * 4) 0 : ℚ) : ℝ) := by
    intro rho
    have sumWs : hashNumber (some fxHash) "sum_ws" = 3 := by decide +kernel
    have sumWsSq : hashNumber (some fxHash) "sum_ws_sq" = 5 := by decide +kernel
    have interior : max ((3 : ℚ) * 3 - 5) 0 = 4 := by norm_num
    rw [closedKb, sumWs, sumWsSq, kbFromConstantRho, interior]
  rw [closed, closed, show max ((5 : ℚ) + 0 * 4) 0 = 5 by norm_num,
    show max ((5 : ℚ) + 1 / 2 * 4) 0 = 7 by
      norm_num, Real.sqrt_inj (by norm_num) (by norm_num)] at equal
  norm_num at equal

end Demo

end KbHistory
