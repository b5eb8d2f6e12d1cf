import Frtb.FinaliserAgreement
import Frtb.Library.NumberText

/-!
# The drift detector

A check takes one bucket of one class and compares the `sum_ws` of its rollup hash with a
recomputed sum. Delta and Vega hashes have that field; a Curvature hash has a sum for each
direction instead, and a hash that is missing reads as zero.
-/

namespace DriftDetector

open AssocMaps EnrichDoc RollupKeys RedisStore RollupDelta RollupReadout
open SlimWriter (SensitivityType)

section Check

/-- What HGETALL answers: a flat list, a map or neither. -/
inductive Reply where
  | nothing
  | array (items : List String)
  | map (entries : List (String × String))

abbrev Fields := Assoc String String

def pairUp : List String → List (String × String)
  | [] => []
  | [k] => [(k, "undefined")]
  | k :: v :: rest => (k, v) :: pairUp rest

/-- Null for an empty or missing hash. -/
def parseHgetall : Reply → Option Fields
  | .nothing => none
  | .array items => if items = [] then none else some (ofPairs (pairUp items))
  | .map entries => if entries = [] then none else some (ofPairs entries)

structure Redis where
  srandmember : String → Option String
  hgetall : String → Reply

inductive DriftStatus where
  | ok
  | drift
deriving DecidableEq

structure DriftResult where
  bucket : String
  riskClass : String
  sensitivityType : SensitivityType
  /-- None stands for NaN. -/
  rollupSum : Option ℚ
  recomputedSum : ℚ
  driftPct : WithTop ℚ
  status : DriftStatus

/-- `Number(hgetall?.sum_ws ?? 0)`. -/
def rollupSum (hgetall : Option Fields) : Option ℚ :=
  match hgetall.bind (·.lookup "sum_ws") with
  | none => some 0
  | some text => NumberText.toNumber text

def driftPct (rollupSum : Option ℚ) (recomputedSum : ℚ) : WithTop ℚ :=
  let unmeasured : WithTop ℚ := if recomputedSum = 0 then 0 else ⊤
  match rollupSum with
  | none => unmeasured
  | some sum =>
    if 0 < |sum| then ((|sum - recomputedSum| / |sum| * 100 : ℚ) : WithTop ℚ) else unmeasured

def maxResults : ℕ := 100

/-- The ring buffer of the last results. -/
def pushResult (results : List DriftResult) (r : DriftResult) : List DriftResult :=
  (results ++ [r]).drop ((results ++ [r]).length - maxResults)

/-- The result of one check, with the results kept; the check is null without a class or a
bucket. -/
def runDriftCheck (redis : Redis) (sens : SensitivityType)
    (recomputeSum : String → String → SensitivityType → ℚ) (thresholdPct : Option ℚ)
    (results : List DriftResult) : Option DriftResult × List DriftResult :=
  match redis.srandmember seenRiskClassKey with
  | none | some "" => (none, results)
  | some rc =>
    match redis.srandmember (seenBucketKey rc) with
    | none | some "" => (none, results)
    | some bucket =>
      let hgetall := parseHgetall (redis.hgetall (rollupKey rc bucket sens.text none))
      let recomputed := recomputeSum rc bucket sens
      let pct := driftPct (rollupSum hgetall) recomputed
      let result : DriftResult :=
        { bucket := rc ++ ":" ++ bucket
          riskClass := rc
          sensitivityType := sens
          rollupSum := rollupSum hgetall
          recomputedSum := recomputed
          driftPct := pct
          status := if ((thresholdPct.getD (1 / 100) : ℚ) : WithTop ℚ) < pct then .drift else .ok }
      (some result, pushResult results result)

end Check

section Property

/-- The direction that wins the recomputation of a Curvature bucket. -/
inductive Direction where
  | up
  | down

/-- The field that holds the signed sum of a type. -/
def sumField : SensitivityType → Direction → String
  | .delta, _ | .vega, _ => "sum_ws"
  | .curvature, .up => "sum_ws_up"
  | .curvature, .down => "sum_ws_down"

/-- The persisted signed sum. -/
def persisted (fields : Fields) (sens : SensitivityType) (winner : Direction) : Option ℚ :=
  (fields.lookup (sumField sens winner)).bind NumberText.toNumber

/-- The sum deviates from the recomputed one by more than this percentage of it. -/
def Deviates (thresholdPct sum recomputed : ℚ) : Prop :=
  thresholdPct / 100 * |sum| < |sum - recomputed|

/-- Drift is reported of a hash that is there and deviates, and of no other one. -/
def Right (hgetall : Option Fields) (sens : SensitivityType) (winner : Direction)
    (thresholdPct recomputed : ℚ) (status : DriftStatus) : Prop :=
  status = .drift ↔ ∃ fields sum, hgetall = some fields ∧
    persisted fields sens winner = some sum ∧ Deviates thresholdPct sum recomputed

/-- A hash as ingest and the finaliser leave it: Delta and Vega have one sum, Curvature has one
for each direction and no other. -/
def Written (fields : Fields) (sens : SensitivityType) : Prop :=
  (∀ winner, (persisted fields sens winner).isSome = true) ∧
    (sens = .curvature → fields.lookup "sum_ws" = none)

/-- A missing hash is right when nothing is recomputed; one of Delta or Vega always, but for a
negative threshold between zeros; one of Curvature when it has really drifted, or nothing is
recomputed and its own sum is zero (or the threshold at least a hundred percent). -/
def Fits (hgetall : Option Fields) (sens : SensitivityType) (winner : Direction)
    (thresholdPct recomputed : ℚ) : Prop :=
  match hgetall with
  | none => recomputed = 0 ∧ 0 ≤ thresholdPct
  | some fields => ∀ sum, persisted fields sens winner = some sum →
    if sens = .curvature then
      if recomputed = 0 ∧ 0 ≤ thresholdPct then sum = 0 ∨ 100 ≤ thresholdPct
      else Deviates thresholdPct sum recomputed
    else sum ≠ 0 ∨ recomputed ≠ 0 ∨ 0 ≤ thresholdPct

end Property

section Status
variable {redis : Redis} {sens : SensitivityType} {winner : Direction} {fields : Fields}
  {rc bucket : String} {t sum r : ℚ}

theorem driftPct_zero : (t : WithTop ℚ) < driftPct (some 0) r ↔ r ≠ 0 ∨ t < 0 := by
  unfold driftPct
  simp only [abs_zero, lt_self_iff_false, if_false]
  split
  · rename_i zero
    rw [← WithTop.coe_zero, WithTop.coe_lt_coe]
    simp [zero]
  · rename_i other
    simp [other]

theorem driftPct_iff (nonzero : sum ≠ 0) : (t : WithTop ℚ) < driftPct (some sum) r ↔
    Deviates t sum r := by
  have positive : 0 < |sum| := abs_pos.mpr nonzero
  unfold driftPct Deviates
  simp only [if_pos positive, WithTop.coe_lt_coe]
  rw [div_mul_eq_mul_div, lt_div_iff₀ positive, div_mul_eq_mul_div, div_lt_iff₀ (by norm_num)]

theorem deviates_zero : Deviates t 0 r ↔ r ≠ 0 := by
  unfold Deviates
  rw [abs_zero, mul_zero, zero_sub, abs_neg, abs_pos]

/-- Nothing recomputed: the persisted sum alone decides. -/
theorem deviates_from_zero : ¬ Deviates t sum 0 ↔ sum = 0 ∨ 100 ≤ t := by
  unfold Deviates
  rw [sub_zero, not_lt]
  constructor
  · intro small
    by_cases zero : sum = 0
    · exact .inl zero
    · have positive : 0 < |sum| := abs_pos.mpr zero
      have one := (le_mul_iff_one_le_left positive).mp small
      exact .inr ((one_le_div (by norm_num)).mp one)
  · rintro (rfl | large)
    · simp
    · have one : 1 ≤ t / 100 := (one_le_div (by norm_num)).mpr large
      exact le_mul_of_one_le_left (abs_nonneg sum) one

theorem status_iff (threshold pct : WithTop ℚ) :
    (if threshold < pct then DriftStatus.drift else .ok) = .drift ↔ threshold < pct := by
  split
  · rename_i drift; exact iff_of_true rfl drift
  · rename_i calm; exact iff_of_false nofun calm

/-- The status of a check. -/
theorem right_iff {hgetall : Option Fields} {status : DriftStatus}
    (state : ∀ fields, hgetall = some fields → Written fields sens)
    (reported : status = .drift ↔ (t : WithTop ℚ) < driftPct (rollupSum hgetall) r) :
    Right hgetall sens winner t r status ↔ Fits hgetall sens winner t r := by
  unfold Right Fits
  rw [reported]
  cases hgetall with
  | none =>
    rw [show rollupSum none = some 0 from rfl, driftPct_zero]
    simp only [reduceCtorEq, false_and, exists_false, iff_false, not_or, not_not, not_lt]
  | some fields =>
    obtain ⟨numbers, none_⟩ := state fields rfl
    obtain ⟨sum, read⟩ := Option.isSome_iff_exists.mp (numbers winner)
    simp only [Option.some.injEq, exists_and_left, exists_eq_left', read, forall_eq']
    split
    · rename_i curvature
      have unread : rollupSum (some fields) = some 0 := by
        rw [rollupSum, Option.bind_some, none_ curvature]
      rw [unread, driftPct_zero]
      split
      · rename_i quiet
        rw [← deviates_from_zero, quiet.1]
        simp [not_lt.mpr quiet.2]
      · rename_i loud
        exact iff_true_left ((not_and_or.mp loud).imp_right not_le.mp)
    · rename_i scalar
      have own : rollupSum (some fields) = some sum := by
        have field : sumField sens winner = "sum_ws" := by
          cases sens with
          | delta => rfl
          | vega => rfl
          | curvature => exact absurd rfl scalar
        rw [persisted, field] at read
        obtain ⟨text, found, number⟩ := Option.bind_eq_some_iff.mp read
        rw [rollupSum, Option.bind_some, found]
        exact number
      rw [own]
      by_cases zero : sum = 0
      · rw [zero, driftPct_zero, deviates_zero]
        by_cases nothing : r = 0
        · simp [nothing]
        · simp [nothing]
      · simp [driftPct_iff zero, zero]

/-- What a check reports of the bucket that it picked is right exactly when it fits. -/
theorem drift_status_iff (redis : Redis) (sens : SensitivityType) (winner : Direction)
    (recomputeSum : String → String → SensitivityType → ℚ) (thresholdPct : Option ℚ)
    (results : List DriftResult) (rc bucket : String) (class_ : rc ≠ "") (bucket_ : bucket ≠ "")
    (picked : redis.srandmember seenRiskClassKey = some rc)
    (drawn : redis.srandmember (seenBucketKey rc) = some bucket)
    (state : ∀ fields, parseHgetall (redis.hgetall (rollupKey rc bucket sens.text none)) =
      some fields → Written fields sens) :
    ∃ result, runDriftCheck redis sens recomputeSum thresholdPct results =
        (some result, pushResult results result) ∧ result.bucket = rc ++ ":" ++ bucket ∧
      (Right (parseHgetall (redis.hgetall (rollupKey rc bucket sens.text none))) sens winner
          (thresholdPct.getD (1 / 100)) (recomputeSum rc bucket sens) result.status ↔
        Fits (parseHgetall (redis.hgetall (rollupKey rc bucket sens.text none))) sens winner
          (thresholdPct.getD (1 / 100)) (recomputeSum rc bucket sens)) := by
  unfold runDriftCheck
  rw [picked]
  split
  · rename_i none_; cases none_
  · rename_i empty; exact absurd (Option.some.inj empty) class_
  · rename_i rc_ _ same
    obtain rfl := Option.some.inj same
    rw [drawn]
    split
    · rename_i none_; cases none_
    · rename_i empty; exact absurd (Option.some.inj empty) bucket_
    · rename_i bucket_ _ same
      obtain rfl := Option.some.inj same
      exact ⟨_, rfl, rfl, right_iff state (status_iff _ _)⟩

/-- A server with one bucket and one answer to HGETALL. -/
def answering (reply : Reply) : Redis where
  srandmember key := if key = seenRiskClassKey then some "FX" else some "EURUSD"
  hgetall _ := reply

/-- A Delta hash that agrees with the recomputed sum. -/
theorem drift_status_agreeing : ∃ result,
    runDriftCheck (answering (.array ["sum_ws", "1234.5", "sum_ws_sq", "999", "count", "10"]))
      .delta (fun _ _ _ => 1234.5) none [] = (some result, pushResult [] result) ∧
    Right (parseHgetall (.array ["sum_ws", "1234.5", "sum_ws_sq", "999", "count", "10"])) .delta .up
      (1 / 100) 1234.5 result.status := by
  obtain ⟨result, ran, _, right⟩ := drift_status_iff
    (answering (.array ["sum_ws", "1234.5", "sum_ws_sq", "999", "count", "10"])) .delta .up
    (fun _ _ _ => 1234.5) none [] "FX" "EURUSD" (by decide) (by decide) rfl rfl
    (fun fields parsed => by
      obtain rfl := Option.some.inj parsed
      exact ⟨fun winner => by cases winner <;> decide +kernel, nofun⟩)
  refine ⟨result, ran, right.mpr ?_⟩
  exact fun _ _ => .inr (.inr (by norm_num))

/-- A Curvature hash that agrees with the recomputed sum, and a hash that is missing, are both
reported as drift. -/
theorem false_alarms :
    (∃ result, (runDriftCheck (answering (.array ["sum_ws_up", "10", "sum_ws_down", "-4", "count",
        "1"])) .curvature (fun _ _ _ => 10) none []).1 = some result ∧ result.status = .drift ∧
      ¬ Right (parseHgetall (.array ["sum_ws_up", "10", "sum_ws_down", "-4", "count", "1"]))
        .curvature .up (1 / 100) 10 result.status) ∧
    ∃ result, (runDriftCheck (answering .nothing) .delta (fun _ _ _ => 5) none []).1 = some result ∧
      result.status = .drift ∧ ¬ Right none .delta .up (1 / 100) 5 result.status := by
  have alarm : ∀ r : ℚ, r ≠ 0 → (((1 / 100 : ℚ)) : WithTop ℚ) < driftPct (some 0) r :=
    fun r other => driftPct_zero.mpr (.inl other)
  constructor
  · have drift := (status_iff _ _).mpr (alarm 10 (by norm_num))
    refine ⟨_, rfl, drift, fun right => ?_⟩
    obtain ⟨fields, sum, parsed, read, deviates⟩ := right.mp drift
    obtain rfl := Option.some.inj parsed
    have own : persisted (ofPairs (pairUp ["sum_ws_up", "10", "sum_ws_down", "-4", "count", "1"]))
        .curvature .up = some 10 := by decide +kernel
    obtain rfl := Option.some.inj (own.symm.trans read)
    norm_num [Deviates] at deviates
  · have drift := (status_iff _ _).mpr (alarm 5 (by norm_num))
    refine ⟨_, rfl, drift, fun right => ?_⟩
    obtain ⟨fields, sum, parsed, _⟩ := right.mp drift
    cases parsed

end Status

section Writers
variable {tags : RowTags} {doc : JsonText.Props} {f : String} {q : ℚ}

def baseTags (rc bucket : String) (sens : SensitivityType) : RowTags := ⟨rc, bucket, sens.text⟩

/-- What is written under the base key of a tuple: by ingest of a row of the tuple, or by the
finaliser from its row of the reply. -/
inductive KeyWrite (rc bucket : String) (sens : SensitivityType) where
  | ingest (doc : JsonText.Props) (own : rowTags doc = some (baseTags rc bucket sens))
  | finalise (schema : EnrichDoc.Schema) (cfg : EnrichDoc.RiskClassConfig)
      (row : RollupFinaliser.ReplyRow)

def increment (key : String) (h : RollupHash) : Cmd → RollupHash
  | .hincrbyfloat k f delta => if k = key then h.insert f ((h.lookup f).getD 0 + delta) else h
  | _ => h

/-- Ingest increments, the finaliser overwrites. -/
def KeyWrite.run {rc bucket : String} {sens : SensitivityType} (h : RollupHash) :
    KeyWrite rc bucket sens → RollupHash
  | .ingest doc _ =>
    (emitRollupHincrs doc).foldl (increment ((baseTags rc bucket sens).key none)) h
  | .finalise schema cfg row => assign h (RollupFinaliser.scalarWrite schema rc cfg sens row).2

/-- A hash that holds anything holds the sums of its type. -/
structure Laid (sens : SensitivityType) (h : RollupHash) : Prop where
  sums : ∀ winner field, field ∈ h → sumField sens winner ∈ h
  other : sens = .curvature → "sum_ws" ∉ h

theorem mem_foldl_increment (key : String) (cmds : List Cmd) (h : RollupHash) :
    f ∈ cmds.foldl (increment key) h ↔ f ∈ h ∨ f ∈ incrementedFields cmds key := by
  induction cmds generalizing h with
  | nil => simp [incrementedFields]
  | cons c cmds ih =>
    rw [List.foldl_cons, ih]
    cases c with
    | hincrbyfloat k g delta =>
      by_cases same : k = key
      · simp only [increment, incrementedFields, if_pos same, AList.mem_insert,
          List.filterMap_cons, List.mem_cons]
        tauto
      · simp only [increment, incrementedFields, if_neg same, List.filterMap_cons]
    | _ => rfl

theorem base_ne_tenor (tags : RowTags) (t : String) : tags.key none ≠ tags.key (some t) :=
  fun same => nomatch (rowKey_eq_iff tags none (some t)).mp same

theorem scalar_touches (own : rowTags doc = some tags) (scalar : tags.sensType ≠ "Curvature")
    (touched : .hincrbyfloat (tags.key none) f q ∈ emitRollupHincrs doc) :
    ∃ delta, .hincrbyfloat (tags.key none) "sum_ws" delta ∈ emitRollupHincrs doc := by
  rw [emitRollupHincrs, own] at touched ⊢
  simp only [if_neg scalar] at touched ⊢
  rcases List.mem_append.mp touched with base | tenors
  · cases value : numAt doc "weighted_value" with
    | none => rw [value] at base; cases base
    | some ws => exact ⟨_, List.mem_append_left _ List.mem_cons_self⟩
  · split at tenors
    · obtain ⟨p, _, mem⟩ := List.mem_flatMap.mp tenors
      simp [emitScalarDelta, base_ne_tenor] at mem
    · cases tenors

theorem curvature_touches (own : rowTags doc = some tags) (curvature : tags.sensType = "Curvature")
    (touched : .hincrbyfloat (tags.key none) f q ∈ emitRollupHincrs doc) : f ≠ "sum_ws" ∧
      (∃ delta, .hincrbyfloat (tags.key none) "sum_ws_up" delta ∈ emitRollupHincrs doc) ∧
      ∃ delta, .hincrbyfloat (tags.key none) "sum_ws_down" delta ∈ emitRollupHincrs doc := by
  rw [emitRollupHincrs, own] at touched ⊢
  simp only [if_pos curvature] at touched ⊢
  rcases List.mem_append.mp touched with base | tenors
  · unfold emitCurvatureBase at base ⊢
    split at base
    · rename_i up down _ _
      refine ⟨?_, ⟨up - 0, ?_⟩, ⟨down - 0, ?_⟩⟩
      · rintro rfl
        simp [emitCurvatureDelta] at base
      · simp [emitCurvatureDelta]
      · simp [emitCurvatureDelta]
    · cases base
  · split at tenors
    · obtain ⟨p, _, mem⟩ := List.mem_flatMap.mp tenors
      simp [emitCurvatureDelta, base_ne_tenor] at mem
    · cases tenors

/-- Every write keeps the layout. -/
theorem Laid.run {rc bucket : String} {sens : SensitivityType} {h : RollupHash}
    (laid : Laid sens h) (w : KeyWrite rc bucket sens) : Laid sens (w.run h) := by
  cases w with
  | ingest doc own =>
    have mem : ∀ f, f ∈ (KeyWrite.ingest doc own).run h ↔ f ∈ h ∨
        ∃ q, .hincrbyfloat ((baseTags rc bucket sens).key none) f q ∈ emitRollupHincrs doc := by
      intro f
      rw [← mem_incrementedFields]
      exact mem_foldl_increment _ _ _
    refine ⟨fun winner field held => ?_, fun curvature held => ?_⟩
    · rw [mem] at held ⊢
      refine held.imp (laid.sums winner field) fun ⟨q, touched⟩ => ?_
      cases sens with
      | delta =>
        exact scalar_touches own (by decide : SensitivityType.delta.text ≠ "Curvature") touched
      | vega =>
        exact scalar_touches own (by decide : SensitivityType.vega.text ≠ "Curvature") touched
      | curvature =>
        obtain ⟨_, up, down⟩ := curvature_touches own rfl touched
        cases winner with
        | up => exact up
        | down => exact down
    · subst curvature
      rcases (mem _).mp held with old | ⟨q, touched⟩
      · exact laid.other rfl old
      · exact (curvature_touches own rfl touched).1 rfl
  | finalise schema cfg row =>
    refine ⟨fun winner field _ => ?_, fun curvature held => ?_⟩
    · refine (mem_assign _ _ _).mpr (.inr ?_)
      unfold RollupFinaliser.scalarWrite
      cases sens <;> cases winner <;>
        simp [RollupFinaliser.curvatureFields, RollupFinaliser.scalarFields, sumField]
    · subst curvature
      rcases (mem_assign _ _ _).mp held with old | new
      · exact laid.other rfl old
      · simp [RollupFinaliser.scalarWrite, RollupFinaliser.curvatureFields] at new

/-- The hash that the two writers leave under the base key of a tuple, in any order. -/
theorem laid_runs {rc bucket : String} {sens : SensitivityType}
    (writes : List (KeyWrite rc bucket sens)) : Laid sens (writes.foldl KeyWrite.run ∅) := by
  have all : ∀ h, Laid sens h → Laid sens (writes.foldl KeyWrite.run h) := by
    induction writes with
    | nil => exact fun _ laid => laid
    | cons w writes ih => exact fun h laid => ih _ (laid.run w)
  exact all ∅ ⟨fun _ _ held => absurd held (AList.notMem_empty _),
    fun _ held => absurd held (AList.notMem_empty _)⟩

/-- HGETALL of a hash, as the flat list or as the map that a client may give. -/
def shown (format : ℚ → String) (flat : Bool) (h : RollupHash) : Reply :=
  let entries := (pairs h).map fun p => (p.1, format p.2)
  if flat then .array (entries.flatMap fun p => [p.1, p.2]) else .map entries

theorem pairUp_flatten (entries : List (String × String)) :
    pairUp (entries.flatMap fun p => [p.1, p.2]) = entries := by
  induction entries with
  | nil => rfl
  | cons p entries ih =>
    rw [List.flatMap_cons, List.cons_append, List.cons_append, List.nil_append, pairUp, ih]

/-- A reply of either form gives the entries of a hash that holds any. -/
theorem parseHgetall_shown {format : ℚ → String} {flat : Bool} {h : RollupHash} {fields : Fields}
    (parsed : parseHgetall (shown format flat h) = some fields) :
    h.keys ≠ [] ∧ fields = ofPairs ((pairs h).map fun p => (p.1, format p.2)) := by
  have entries : h.keys = [] ↔ (pairs h).map (fun p => (p.1, format p.2)) = [] := by
    rw [← map_fst_pairs, List.map_eq_nil_iff, List.map_eq_nil_iff]
  unfold shown at parsed
  dsimp only at parsed
  split at parsed
  · unfold parseHgetall at parsed
    dsimp only at parsed
    split at parsed
    · cases parsed
    · rename_i some_
      rw [pairUp_flatten] at parsed
      refine ⟨fun none_ => some_ ?_, (Option.some.inj parsed).symm⟩
      rw [entries.mp none_, List.flatMap_nil]
  · unfold parseHgetall at parsed
    dsimp only at parsed
    split at parsed
    · cases parsed
    · rename_i some_
      exact ⟨fun none_ => some_ (entries.mp none_), (Option.some.inj parsed).symm⟩

/-- What the writers leave is missing or laid out as the check finds it. -/
theorem written_shown {rc bucket : String} {sens : SensitivityType} {format : ℚ → String}
    (reads : ∀ q, NumberText.toNumber (format q) = some q) (flat : Bool)
    (writes : List (KeyWrite rc bucket sens)) {fields : Fields}
    (parsed : parseHgetall (shown format flat (writes.foldl KeyWrite.run ∅)) = some fields) :
    Written fields sens := by
  have laid := laid_runs writes
  obtain ⟨some_, rfl⟩ := parseHgetall_shown parsed
  generalize writes.foldl KeyWrite.run ∅ = h at laid some_ ⊢
  have read : ∀ f, (ofPairs ((pairs h).map fun p => (p.1, format p.2))).lookup f =
      (h.lookup f).map format := fun f => lookup_ofPairs_pairs_map h (fun _ q => format q) f
  obtain ⟨field, mem⟩ := List.exists_mem_of_ne_nil _ some_
  refine ⟨fun winner => ?_, fun curvature => ?_⟩
  · obtain ⟨q, found⟩ := Option.isSome_iff_exists.mp
      (AList.lookup_isSome.mpr (laid.sums winner field mem))
    rw [persisted, read, found, Option.map_some, Option.bind_some, reads]
    rfl
  · rw [read, AList.lookup_eq_none.mpr (laid.other curvature)]
    rfl

end Writers

end DriftDetector
