import Frtb.AtomicDelivery

/-!
# Runs of batches

A call of the atomic writer applies its entries one after the other up to the
first one that throws. A run of calls is therefore one fold over the entries
reached, and each row it reaches carries a document key and a calibration tag.
-/

namespace BatchRuns

open AssocMaps JsonText EnrichDoc RollupKeys RedisStore StorageWriter RollupDelta BatchWriters
open HashLayout AtomicDelivery

/-- The entries of a reply up to the first one that throws. -/
def reached (opts : ConsumerOptions) : List Entry → List Prepared
  | [] => []
  | entry :: entries =>
    match prepare opts entry with
    | none => []
    | some p => p :: reached opts entries

def applyPrepared (opts : ConsumerOptions) (fails : Faults) (s : Redis) : Prepared → Redis
  | .malformed entryId => apply s (.xack entryId)
  | .row r => deliver opts fails .afterTail s r

def applyAll (opts : ConsumerOptions) (fails : Faults) (s : Redis) (ps : List Prepared) : Redis :=
  ps.foldl (applyPrepared opts fails) s

def rowsOf (ps : List Prepared) : List Row :=
  ps.filterMap fun p =>
    match p with
    | .malformed _ => none
    | .row r => some r

/-- Uninterrupted calls, one a batch. -/
def runBatches (opts : ConsumerOptions) (s : Redis) (batches : List (List Entry)) : Redis :=
  batches.foldl (fun s entries => (processBatchAtomic opts noFaults s 0 entries).1) s

/-- The rows that a run of calls reaches, in order. -/
def rowsReached (opts : ConsumerOptions) (batches : List (List Entry)) : List Row :=
  rowsOf (batches.flatMap (reached opts))

theorem processBatchAtomic_fst (opts : ConsumerOptions) (fails : Faults) (s : Redis)
    (processed : ℕ) (entries : List Entry) :
    (processBatchAtomic opts fails s processed entries).1 =
      applyAll opts fails s (reached opts entries) := by
  induction entries generalizing s processed with
  | nil => rfl
  | cons entry entries ih =>
    rw [processBatchAtomic, reached]
    cases prepare opts entry with
    | none => rfl
    | some p =>
      cases p with
      | malformed entryId => exact ih _ _
      | row r => exact ih _ _

theorem runBatches_eq (opts : ConsumerOptions) (s : Redis) (batches : List (List Entry)) :
    runBatches opts s batches = applyAll opts noFaults s (batches.flatMap (reached opts)) := by
  induction batches generalizing s with
  | nil => rfl
  | cons batch batches ih =>
    have step : runBatches opts s (batch :: batches) =
        runBatches opts (processBatchAtomic opts noFaults s 0 batch).1 batches := rfl
    rw [step, ih, processBatchAtomic_fst, List.flatMap_cons, applyAll, applyAll, applyAll,
      List.foldl_append]

theorem applyAll_append (opts : ConsumerOptions) (fails : Faults) (s : Redis)
    (ps qs : List Prepared) :
    applyAll opts fails s (ps ++ qs) = applyAll opts fails (applyAll opts fails s ps) qs := by
  simp only [applyAll, List.foldl_append]

theorem rowsOf_append (ps qs : List Prepared) : rowsOf (ps ++ qs) = rowsOf ps ++ rowsOf qs := by
  simp only [rowsOf, List.filterMap_append]

/-- A run sets the markers of the rows it reaches and no others. -/
theorem mem_markers_applyAll {opts : ConsumerOptions} (off : opts.liveTailMode = false)
    {s : Redis} {ps : List Prepared} {m : String}
    (h : m ∈ (applyAll opts noFaults s ps).markers) :
    m ∈ s.markers ∨ ∃ r ∈ rowsOf ps, ∃ tags, m = markerKeyOf tags r := by
  induction ps using List.reverseRecOn with
  | nil => exact Or.inl h
  | append_singleton ps p ih =>
    rw [applyAll_append] at h
    rw [rowsOf_append]
    have before : m ∈ (applyAll opts noFaults s ps).markers →
        m ∈ s.markers ∨ ∃ r ∈ rowsOf ps ++ rowsOf [p], ∃ tags, m = markerKeyOf tags r := by
      intro hm
      rcases ih hm with hm | ⟨r, hr, htags⟩
      · exact Or.inl hm
      · exact Or.inr ⟨r, List.mem_append_left _ hr, htags⟩
    cases p with
    | malformed entryId => exact before h
    | row r =>
      have last : m ∈ (deliver opts noFaults .afterTail (applyAll opts noFaults s ps) r).markers :=
        h
      rcases mem_markers_deliver off last with hm | ⟨tags, htags⟩
      · exact before hm
      · exact Or.inr ⟨r, List.mem_append_right _ List.mem_cons_self, tags, htags⟩

/-- The marker of a row that a run has yet to reach is unset. -/
theorem marker_unset {opts : ConsumerOptions} (off : opts.liveTailMode = false) {s : Redis}
    (clear : s.markers = ∅) {ps : List Prepared} {r : Row}
    (newEntry : r.entryId ∉ (rowsOf ps).map Row.entryId) (tags : RowTags) :
    markerKeyOf tags r ∉ (applyAll opts noFaults s ps).markers := by
  intro hm
  rcases mem_markers_applyAll off hm with hm | ⟨r', hr', tags', heq⟩
  · rw [clear] at hm
    cases hm
  · exact newEntry (List.mem_map.mpr ⟨r', hr', (processedMarkerKey_inj heq).symm⟩)

section Enriched

theorem lookup_insert_of_ne {doc : Props} {name name' : String} (h : name ≠ name') (v : Json) :
    (doc.insert name' v).lookup name = doc.lookup name := AList.lookup_insert_ne h

theorem calibrated_putTenors {doc : Props} {name : String} (h : Calibrated doc)
    (apart : "_calibration" ≠ name ∧ "_calibration" ≠ name ++ "_per_tenor")
    (out : List (String × ℚ)) : Calibrated (putTenors doc name out) := by
  rw [Calibrated, putTenors, lookup_insert_of_ne apart.1, lookup_insert_of_ne apart.2]
  exact h

theorem calibrated_enrichCurvature {doc : Props} (h : Calibrated doc) (rv : Props)
    (weight : Option String → ℚ) (nodes : Option (List String)) :
    Calibrated (enrichCurvature doc rv weight nodes) := by
  unfold enrichCurvature
  split
  · exact calibrated_putTenors (calibrated_putTenors h (by decide) _) (by decide) _
  · rw [Calibrated, lookup_insert_of_ne (by decide), lookup_insert_of_ne (by decide)]
    exact h
  · exact h

theorem calibrated_enrichDoc (doc : Props) (schema : Option Schema) :
    Calibrated (enrichDoc doc schema) := by
  have stamped : Calibrated (doc.insert "_calibration" (.str calibrationTag)) :=
    AList.lookup_insert doc
  have scalar : ∀ q, Calibrated ((doc.insert "_calibration" (.str calibrationTag)).insert
      "weighted_value" (.num q)) := by
    intro q
    rw [Calibrated, lookup_insert_of_ne (by decide)]
    exact stamped
  simp only [enrichDoc]
  split
  · exact stamped
  · split
    · split
      · exact calibrated_enrichCurvature stamped _ _ _
      · unfold enrichObject
        split
        · exact scalar _
        · exact calibrated_putTenors stamped (by decide) _
    · unfold enrichArray
      split
      · exact calibrated_putTenors stamped (by decide) _
      · exact stamped
    · exact scalar _
    · exact stamped

/-- A row as the writers see it: filed under a document key, stamped, and
under the entry it came from. -/
theorem prepare_row {opts : ConsumerOptions} {entry : Entry} {r : Row}
    (h : prepare opts entry = some (.row r)) :
    r.entryId = entry.entryId ∧ (∃ id, r.key = buildKey id) ∧ Calibrated r.doc := by
  simp only [prepare, Option.bind_eq_bind, Option.bind_eq_some_iff] at h
  obtain ⟨fields, _, h⟩ := h
  split at h
  · cases h
  · rename_i id _
    rw [Option.bind_eq_some_iff] at h
    obtain ⟨doc, _, h⟩ := h
    cases h
    exact ⟨rfl, ⟨id, rfl⟩, calibrated_enrichDoc doc opts.schema⟩

theorem mem_reached {opts : ConsumerOptions} {entries : List Entry} {p : Prepared}
    (h : p ∈ reached opts entries) : ∃ entry ∈ entries, prepare opts entry = some p := by
  induction entries with
  | nil => cases h
  | cons entry entries ih =>
    rw [reached] at h
    cases hp : prepare opts entry with
    | none => rw [hp] at h; cases h
    | some q =>
      rw [hp] at h
      rcases List.mem_cons.mp h with rfl | h
      · exact ⟨entry, List.mem_cons_self, hp⟩
      · obtain ⟨entry', hmem, hentry'⟩ := ih h
        exact ⟨entry', List.mem_cons_of_mem _ hmem, hentry'⟩

theorem mem_rowsReached {opts : ConsumerOptions} {batches : List (List Entry)} {r : Row}
    (h : r ∈ rowsReached opts batches) : (∃ id, r.key = buildKey id) ∧ Calibrated r.doc := by
  obtain ⟨p, hp, hr⟩ := List.mem_filterMap.mp h
  obtain ⟨batch, _, hp⟩ := List.mem_flatMap.mp hp
  obtain ⟨entry, _, hentry⟩ := mem_reached hp
  cases p with
  | malformed entryId => cases hr
  | row r' =>
    cases hr
    exact (prepare_row hentry).2

end Enriched

section SampleRows

def girrSchema : Schema where
  riskClasses := ofPairs [("GIRR", ⟨some ["3M", "6M"], "girr_delta_weights"⟩),
    ("FX", ⟨none, "fx_weights"⟩)]
  riskWeights := ofPairs [("girr_delta_weights", .byTenor (ofPairs [("3M", 1 / 2), ("6M", 1 / 4)])),
    ("fx_weights", .constant (1 / 5))]

def atomicOptions : ConsumerOptions where
  batchSize := some 100
  processedMarkerTtlSec := none
  schema := some girrSchema
  storageFormat := some .hashSidetable
  liveTailMode := false

def fxTen : Entry where
  entryId := ⟨"3-0", by decide⟩
  fields := some (streamFields "FX" "EURUSD" "F1"
    "\x7b\"sensitivity_type\":\"Delta\",\"risk_value\":\x7b\"spot\":10\x7d\x7d")

def fxTwenty : Entry where
  entryId := ⟨"4-0", by decide⟩
  fields := some (streamFields "FX" "EURUSD" "F1"
    "\x7b\"sensitivity_type\":\"Delta\",\"risk_value\":\x7b\"spot\":20\x7d\x7d")

example : numAt (rowOf atomicOptions fxTen).doc "weighted_value" = some 2 := by decide +kernel

end SampleRows

end BatchRuns
