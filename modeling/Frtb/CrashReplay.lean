import Frtb.AtomicDelivery

/-!
# Stopped deliveries of a scalar row

An entry is delivered again and again until a delivery acknowledges it, and
every delivery may stop between its phases. The row's contribution is read off
the HASH that Phase 1 overwrites, so a stop right after Phase 1 hides it from
the next delivery.
-/

namespace CrashReplay

open AssocMaps JsonText EnrichDoc RollupKeys RedisStore StorageWriter RollupDelta BatchWriters
open RollupContribution HashLayout RowVersions AtomicDelivery

def Pending (s : Redis) (r : Row) : Prop := ∃ e ∈ s.pel, e.entryId = r.entryId

instance (s : Redis) (r : Row) : Decidable (Pending s r) :=
  inferInstanceAs (Decidable (∃ e ∈ s.pel, e.entryId = r.entryId))

/-- One more delivery, of an entry that is still pending. -/
def redeliver (opts : ConsumerOptions) (r : Row) (s : Redis) (stop : Stop) : Redis :=
  if Pending s r then deliver opts noFaults stop s r else s

def replay (opts : ConsumerOptions) (r : Row) (s : Redis) (stops : List Stop) : Redis :=
  stops.foldl (redeliver opts r) s

/-- The first stop at which a delivery has written anything. -/
def firstWrite (stops : List Stop) : Option Stop := stops.find? (· ≠ .beforePhase1)

/-- The scalars of a row that writes no per-tenor field: one for a delta or
vega row, an up and a down value for a curvature row. -/
inductive Scalar (doc : Props) (tags : RowTags) : Prop where
  | single (ws : ℚ) (leg : scalarLeg tags.sensType ≠ "")
      (noTenors : tenorMapAt doc "weighted_value_per_tenor" = none)
      (value : numAt doc "weighted_value" = some ws)
  | curvature (up down : ℚ) (leg : tags.sensType = "Curvature")
      (noTenors : tenorMapAt doc "weighted_cvr_up_per_tenor" = none)
      (values : numAt doc "weighted_cvr_up" = some up ∧ numAt doc "weighted_cvr_down" = some down)

/-- The HASH holds a row already, and its scalars, a missing one read as zero,
are those of the document. -/
def HoldsScalars (h : Hash) (doc : Props) (tags : RowTags) : Prop :=
  h.keys ≠ [] ∧
    if tags.sensType = "Curvature" then
      some ((numberField h (weightField (lowerCase tags.riskClass) "cvr_up")).getD 0) =
          numAt doc "weighted_cvr_up" ∧
        some ((numberField h (weightField (lowerCase tags.riskClass) "cvr_down")).getD 0) =
          numAt doc "weighted_cvr_down"
    else
      some ((numberField h (weightField (lowerCase tags.riskClass)
          (scalarLeg tags.sensType))).getD 0) = numAt doc "weighted_value"

section Increments
variable {doc : Props} {tags : RowTags} {h : Hash} {field : String}

theorem numberField_of_empty (present : h.keys = []) (name : String) :
    numberField h name = none := by
  have absent : h.lookup name = none := by
    rw [AList.lookup_eq_none, AList.mem_keys, present]
    exact List.not_mem_nil
  rw [numberField, absent]
  rfl

theorem increments_single (ht : rowTags doc = some tags) (hleg : scalarLeg tags.sensType ≠ "")
    {ws : ℚ} (value : numAt doc "weighted_value" = some ws)
    (noTenors : tenorMapAt doc "weighted_value_per_tenor" = none) :
    rollupIncrements h doc (tags.key none) field =
      scalarPart field ws -
        scalarPart field ((numberField h (weightField (lowerCase tags.riskClass)
          (scalarLeg tags.sensType))).getD 0) +
        countPart field (if h.keys = [] then 1 else 0) := by
  have hcurv := (legsForSensType_scalar hleg).2
  simp only [rollupIncrements, ht, emitRollupDelta, hcurv, if_false, value, noTenors]
  rw [increments_append, increments_emitScalarBase]
  simp only [emitScalarTenors, increments_nil, add_zero, Option.map_some, baseTerm, if_true,
    Option.getD_some]
  by_cases present : h.keys = []
  · simp [parseOldContribution, present, OldContribution.absent, OldContribution.countDelta,
      numberField_of_empty present]
  · simp [parse_scalarLeg present ht hleg, present, OldContribution.countDelta]

theorem increments_curvature (ht : rowTags doc = some tags) (hs : tags.sensType = "Curvature")
    {up down : ℚ} (values : numAt doc "weighted_cvr_up" = some up ∧
      numAt doc "weighted_cvr_down" = some down)
    (noTenors : tenorMapAt doc "weighted_cvr_up_per_tenor" = none) :
    rollupIncrements h doc (tags.key none) field =
      curvaturePart field (up, down) -
        curvaturePart field
          ((numberField h (weightField (lowerCase tags.riskClass) "cvr_up")).getD 0,
            (numberField h (weightField (lowerCase tags.riskClass) "cvr_down")).getD 0) +
        countPart field (if h.keys = [] then 1 else 0) := by
  simp only [rollupIncrements, ht, emitRollupDelta, hs, if_true, values.1, values.2, noTenors]
  rw [increments_append, increments_emitCurvatureBase]
  simp only [emitCurvatureTenors, increments_nil, add_zero, bothOf, Option.bind_some,
    Option.map_some, baseTerm, if_true, Option.getD_some]
  by_cases present : h.keys = []
  · simp [parseOldContribution, present, OldContribution.absent, OldContribution.countDelta,
      numberField_of_empty present]
  · have hread := parse_curvature (h := h) present ht hs
    rw [hs] at hread
    simp [hread, present, OldContribution.countDelta]

/-- The delta of a scalar row vanishes exactly when the HASH holds the row. -/
theorem increments_eq_zero_iff (ht : rowTags doc = some tags) (scalar : Scalar doc tags) :
    (∀ field, rollupIncrements h doc (tags.key none) field = 0) ↔ HoldsScalars h doc tags := by
  cases scalar with
  | single ws leg noTenors value =>
    have hcurv := (legsForSensType_scalar leg).2
    simp only [increments_single ht leg value noTenors, HoldsScalars, hcurv, if_false, value,
      Option.some.injEq]
    constructor
    · intro zero
      have hcount := zero "count"
      have hsum := zero "sum_ws"
      simp only [scalarPart, countPart, String.reduceEq, if_false, if_true, sub_zero,
        zero_add, add_zero] at hcount hsum
      refine ⟨fun hnil => ?_, by linarith⟩
      rw [if_pos hnil] at hcount
      exact one_ne_zero hcount
    · rintro ⟨present, hsame⟩ field
      rw [hsame, if_neg present, countPart_zero, sub_self, add_zero]
  | curvature up down leg noTenors values =>
    simp only [increments_curvature ht leg values noTenors, HoldsScalars, leg, if_true, values.1,
      values.2, Option.some.injEq]
    constructor
    · intro zero
      have hcount := zero "count"
      have hup := zero "sum_ws_up"
      have hdown := zero "sum_ws_down"
      simp only [curvaturePart, countPart, String.reduceEq, if_false, if_true, sub_zero,
        zero_add, add_zero] at hcount hup hdown
      refine ⟨fun hnil => ?_, by linarith, by linarith⟩
      rw [if_pos hnil] at hcount
      exact one_ne_zero hcount
    · rintro ⟨present, hup, hdown⟩ field
      rw [hup, hdown, if_neg present, countPart_zero, sub_self, add_zero]

theorem holdsScalars_assign (ht : rowTags doc = some tags) (scalar : Scalar doc tags)
    (format : StorageFormat) : HoldsScalars (assign h (storedFields format doc)) doc tags := by
  cases scalar with
  | single ws leg noTenors value =>
    have hcurv := (legsForSensType_scalar leg).2
    have hargs := weightArgs_scalarLeg ht leg
    simp only [noTenors, value] at hargs
    have written : weightField (lowerCase tags.riskClass) (scalarLeg tags.sensType) ∈
        (weightArgs doc).map Prod.fst := by
      rw [hargs, scalarArgs_names]
      exact List.mem_singleton_self _
    refine ⟨keys_assign_storedFields written, ?_⟩
    rw [if_neg hcurv, value]
    congr 1
    rw [numberField_eq (v := some ws)]
    · rfl
    · rw [lookup_assign_storedFields (isWeightField_weightField _ _) written, hargs]
      exact lookup_scalarArgs _ _ _
  | curvature up down leg noTenors values =>
    have hargs := weightArgs_curvature ht leg
    simp only [noTenors, values.1, values.2] at hargs
    have names : (weightArgs doc).map Prod.fst =
        [weightField (lowerCase tags.riskClass) "cvr_up",
          weightField (lowerCase tags.riskClass) "cvr_down"] := by
      rw [hargs]
      rfl
    have apart : weightField (lowerCase tags.riskClass) "cvr_up" ≠
        weightField (lowerCase tags.riskClass) "cvr_down" := by
      simpa using cvr_up_ne_cvr_down (lowerCase tags.riskClass) "" ""
    refine ⟨keys_assign_storedFields (by rw [names]; exact List.mem_cons_self), ?_⟩
    rw [if_pos leg, values.1, values.2]
    constructor
    · congr 1
      rw [numberField_eq (v := some up)]
      · rfl
      · rw [lookup_assign_storedFields (isWeightField_weightField _ _) (by rw [names]; simp), hargs,
          lookup_ofPairs_append_of_notMem (by simpa [scalarArgs_names] using apart)]
        exact lookup_scalarArgs _ _ _
    · congr 1
      rw [numberField_eq (v := some down)]
      · rfl
      · rw [lookup_assign_storedFields (isWeightField_weightField _ _) (by rw [names]; simp), hargs,
          lookup_ofPairs_append_of_notMem_left (by simpa [scalarArgs_names] using apart.symm)]
        exact lookup_scalarArgs _ _ _

end Increments

section Replay
variable {opts : ConsumerOptions} {s : Redis} {r : Row} {tags : RowTags} {id : String}

section Quiet
variable (atomic : useAtomic opts.format = true) (off : opts.liveTailMode = false)
  (hkey : r.key = buildKey id) (ht : rowTags r.doc = some tags) (scalar : Scalar r.doc tags)
include atomic off hkey ht scalar

/-- Once the HASH holds the row, a delivery leaves the base key as it is. -/
theorem deliver_quiet (held : HoldsScalars (s.hashes r.key) r.doc tags) (stop : Stop) :
    HoldsScalars ((deliver opts noFaults stop s r).hashes r.key) r.doc tags ∧
      ∀ field, (deliver opts noFaults stop s r).rollups (tags.key none) field =
        s.rollups (tags.key none) field := by
  constructor
  · by_cases wrote : stop = .beforePhase1
    · subst wrote
      exact held
    · rw [hashes_deliver atomic hkey wrote]
      exact holdsScalars_assign ht scalar opts.format
  · intro field
    have phase2 : (runPhase2 opts noFaults (s.hashes r.key) (runPhase1 opts noFaults s r)
        r).rollups (tags.key none) field = s.rollups (tags.key none) field := by
      by_cases marked : markerKeyOf tags r ∈ s.markers
      · rw [rollups_runPhase2_of_marked _ ht (by rwa [markers_runPhase1]), rollups_runPhase1]
      · have fresh : ∀ tags', rowTags r.doc = some tags' →
            markerKeyOf tags' r ∉ (runPhase1 opts noFaults s r).markers := by
          intro tags' ht'
          rw [ht, Option.some.injEq] at ht'
          rwa [← ht', markers_runPhase1]
        rw [rollups_runPhase2 off _ fresh, rollups_runPhase1,
          (increments_eq_zero_iff ht scalar).mpr held field, add_zero]
    cases stop with
    | beforePhase1 => rfl
    | afterPhase1 =>
      simp only [deliver]
      rw [rollups_runPhase1]
    | afterPhase2 => exact phase2
    | afterTail =>
      simp only [deliver]
      rw [rollups_runTail]
      exact phase2

theorem replay_quiet (held : HoldsScalars (s.hashes r.key) r.doc tags) (stops : List Stop)
    (field : String) :
    (replay opts r s stops).rollups (tags.key none) field = s.rollups (tags.key none) field := by
  induction stops generalizing s with
  | nil => rfl
  | cons stop stops ih =>
    have step : replay opts r s (stop :: stops) = replay opts r (redeliver opts r s stop) stops :=
      rfl
    rw [step, redeliver]
    split
    · obtain ⟨held', quiet⟩ := deliver_quiet atomic off hkey ht scalar held stop
      rw [ih held', quiet field]
    · exact ih held

end Quiet

/-- Deliveries that all stop before Phase 1 change nothing. -/
theorem replay_of_no_write {stops : List Stop} (none : firstWrite stops = none) :
    replay opts r s stops = s := by
  induction stops with
  | nil => rfl
  | cons stop stops ih =>
    simp only [firstWrite, List.find?_cons] at none ih
    split at none
    · cases none
    · rename_i before
      have hstop : stop = .beforePhase1 := by simpa using before
      subst hstop
      have still : redeliver opts r s .beforePhase1 = s := by
        rw [redeliver, deliver, ite_self]
      have step : replay opts r s (.beforePhase1 :: stops) =
          replay opts r (redeliver opts r s .beforePhase1) stops := rfl
      rw [step, still, ih none]

/-- The deliveries up to the first write change nothing, and the rest follow it. -/
theorem replay_firstWrite (pending : Pending s r) {stops : List Stop} {stop : Stop}
    (first : firstWrite stops = some stop) :
    ∃ rest, replay opts r s stops = replay opts r (deliver opts noFaults stop s r) rest := by
  induction stops with
  | nil => cases first
  | cons head stops ih =>
    have step : replay opts r s (head :: stops) =
        replay opts r (redeliver opts r s head) stops := rfl
    rw [step, redeliver, if_pos pending]
    simp only [firstWrite, List.find?_cons] at first ih
    split at first
    · cases first
      exact ⟨stops, rfl⟩
    · rename_i before
      have hhead : head = .beforePhase1 := by simpa using before
      subst hhead
      exact ih first

/-- Once an entry has been acknowledged, its rollup hash stands as after one
uninterrupted delivery exactly when the first delivery to write anything also
got past Phase 2, or the HASH already held the row's scalars. -/
theorem replay_eq_uninterrupted_iff (atomic : useAtomic opts.format = true)
    (off : opts.liveTailMode = false) (hkey : r.key = buildKey id)
    (ht : rowTags r.doc = some tags) (scalar : Scalar r.doc tags) (pending : Pending s r)
    (fresh : markerKeyOf tags r ∉ s.markers) (stops : List Stop)
    (acked : ¬ Pending (replay opts r s stops) r) :
    (∀ field, (replay opts r s stops).rollups (tags.key none) field =
        (deliver opts noFaults .afterTail s r).rollups (tags.key none) field) ↔
      firstWrite stops ≠ some .afterPhase1 ∨ HoldsScalars (s.hashes r.key) r.doc tags := by
  have freshAll : ∀ tags', rowTags r.doc = some tags' → markerKeyOf tags' r ∉ s.markers := by
    intro tags' ht'
    rw [ht, Option.some.injEq] at ht'
    rwa [← ht']
  have whole : ∀ field, (deliver opts noFaults .afterTail s r).rollups (tags.key none) field =
      s.rollups (tags.key none) field +
        rollupIncrements (s.hashes r.key) r.doc (tags.key none) field :=
    rollups_deliver off freshAll (Or.inr rfl) (tags.key none)
  cases first : firstWrite stops with
  | none =>
    rw [replay_of_no_write first] at acked
    exact absurd pending acked
  | some stop =>
    have wrote : stop ≠ .beforePhase1 := by
      have hfound := List.find?_some first
      simpa using hfound
    obtain ⟨rest, hrest⟩ : ∃ rest, replay opts r s stops =
        replay opts r (deliver opts noFaults stop s r) rest := replay_firstWrite pending first
    have held : HoldsScalars ((deliver opts noFaults stop s r).hashes r.key) r.doc tags := by
      rw [hashes_deliver atomic hkey wrote]
      exact holdsScalars_assign ht scalar opts.format
    have settled := fun field => replay_quiet atomic off hkey ht scalar held rest field
    by_cases lost : stop = .afterPhase1
    · -- the delta was never applied: the outcome is right only if it is zero
      subst lost
      simp only [hrest, settled, whole, ne_eq, not_true_eq_false, false_or]
      rw [← increments_eq_zero_iff ht scalar]
      have before : (deliver opts noFaults .afterPhase1 s r).rollups = s.rollups :=
        rollups_runPhase1
      simp only [before, left_eq_add]
    · have applied : stop = .afterPhase2 ∨ stop = .afterTail := by
        cases stop with
        | beforePhase1 => exact absurd rfl wrote
        | afterPhase1 => exact absurd rfl lost
        | afterPhase2 => exact Or.inl rfl
        | afterTail => exact Or.inr rfl
      refine iff_of_true (fun field => ?_) (Or.inl (by simpa using lost))
      rw [hrest, settled, whole, rollups_deliver off freshAll applied]

end Replay

section FreshEquityRow

def equitySchema : Schema where
  riskClasses := ofPairs [("EQUITY", ⟨none, "equity_weights"⟩)]
  riskWeights := ofPairs [("equity_weights", .byBucket (ofPairs [("1", 55 / 100)]))]

def sidetableOptions : ConsumerOptions where
  batchSize := none
  processedMarkerTtlSec := none
  schema := some equitySchema
  storageFormat := none
  liveTailMode := false

def equityEntry : Entry where
  entryId := ⟨"1-0", by decide⟩
  fields := some (streamFields "EQUITY" "1" "T1"
    "\x7b\"sensitivity_type\":\"Delta\",\"risk_value\":\x7b\"spot\":10\x7d\x7d")

def equityRow : Row := rowOf sidetableOptions equityEntry

def beforeEquity : Redis := { Redis.empty with pel := [equityEntry] }

example : (prepare sidetableOptions equityEntry).map isRow = some true ∧
    equityRow.key = "sens:T1" ∧ numAt equityRow.doc "weighted_value" = some (11 / 2) := by
  decide +kernel

/-- A fresh row whose first delivery stops after Phase 1 never reaches its rollup. -/
theorem stop_after_phase1_loses_row :
    ¬ ∀ stops, ¬ Pending (replay sidetableOptions equityRow beforeEquity stops) equityRow →
      ∀ field, (replay sidetableOptions equityRow beforeEquity stops).rollups
          (rollupKey "EQUITY" "1" "Delta" none) field =
        (deliver sidetableOptions noFaults .afterTail beforeEquity equityRow).rollups
          (rollupKey "EQUITY" "1" "Delta" none) field := by
  intro exactlyOnce
  have same := exactlyOnce [.afterPhase1, .afterTail] (by decide +kernel) "sum_ws"
  revert same
  decide +kernel

theorem replay_eq_uninterrupted_fresh :
    (∀ field, (replay sidetableOptions equityRow beforeEquity
        [.beforePhase1, .afterPhase2, .afterTail]).rollups
          (rollupKey "EQUITY" "1" "Delta" none) field =
        (deliver sidetableOptions noFaults .afterTail beforeEquity equityRow).rollups
          (rollupKey "EQUITY" "1" "Delta" none) field) ↔
      firstWrite [.beforePhase1, .afterPhase2, .afterTail] ≠ some .afterPhase1 ∨
        HoldsScalars (beforeEquity.hashes equityRow.key) equityRow.doc ⟨"EQUITY", "1", "Delta"⟩ :=
  @replay_eq_uninterrupted_iff sidetableOptions beforeEquity equityRow ⟨"EQUITY", "1", "Delta"⟩
    "T1" rfl rfl
    (by decide +kernel) (by decide +kernel)
    (.single (11 / 2) (by decide) (by decide +kernel) (by decide +kernel))
    (by decide +kernel) (by decide +kernel) [.beforePhase1, .afterPhase2, .afterTail]
    (by decide +kernel)

end FreshEquityRow

end CrashReplay
