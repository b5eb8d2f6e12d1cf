import Frtb.BatchRuns
import Frtb.Library.DeltaLedger

/-!
# Re-ingested rows

Uninterrupted calls keep the rollups equal to the contributions of the last
document of every row, as long as a row keeps its shape. The run is an
instance of a ledger with one party that settles at once: the HASHes are the
current versions, the rollups what has been settled.
-/

namespace Reingest

open AssocMaps JsonText EnrichDoc RollupKeys RedisStore StorageWriter RollupDelta BatchWriters
open RollupContribution HashLayout RowVersions AtomicDelivery BatchRuns DeltaLedger

/-- A store that holds no row yet. -/
structure Fresh (s : Redis) : Prop where
  hashes : ∀ key, s.hashes key = ∅
  rollups : ∀ key field, s.rollups key field = 0
  markers : s.markers = ∅

/-- The last document ingested under each document key. -/
def lastDocs (rows : List Row) : Assoc String Props := ofPairs (rows.map fun r => (r.key, r.doc))

/-- A row that has nothing to add to any rollup. -/
def Barren (doc : Props) : Prop :=
  match rowTags doc with
  | none => True
  | some tags =>
    if tags.sensType = "Curvature" then
      ((numAt doc "weighted_cvr_up").isSome && (numAt doc "weighted_cvr_down").isSome) = false ∧
        ((tenorMapAt doc "weighted_cvr_up_per_tenor").isSome &&
          (tenorMapAt doc "weighted_cvr_down_per_tenor").isSome) = false
    else
      (numAt doc "weighted_value").isSome = false ∧
        (tenorMapAt doc "weighted_value_per_tenor").isSome = false

/-- Every re-ingest of a row keeps the row's shape, unless the row contributes
nothing before and after. -/
def KeepsShape (rows : List Row) : Prop :=
  ∀ r ∈ rows, ∀ r' ∈ rows, r.key = r'.key →
    SameShape r.doc r'.doc ∨ (Barren r.doc ∧ Barren r'.doc)

section Barren
variable {doc doc' : Props}

theorem Barren.emitRollupDelta_eq_nil (h : Barren doc) (oldC : OldContribution) :
    emitRollupDelta oldC doc = [] := by
  unfold Barren at h
  unfold emitRollupDelta
  cases ht : rowTags doc with
  | none => rfl
  | some tags =>
    rw [ht] at h
    simp only at h ⊢
    by_cases hs : tags.sensType = "Curvature"
    · rw [if_pos hs] at h ⊢
      obtain ⟨scalars, tenors⟩ := h
      have base : emitCurvatureBase (tags.key none) oldC.countDelta (numAt doc "weighted_cvr_up")
          (numAt doc "weighted_cvr_down") (oldC.scalarCvrUp.getD 0, oldC.scalarCvrDown.getD 0) =
          [] := by
        unfold emitCurvatureBase
        split
        · rename_i hu hd
          rw [hu, hd] at scalars
          cases scalars
        · rfl
      have perTenor : emitCurvatureTenors tags oldC.countDelta
          (tenorMapAt doc "weighted_cvr_up_per_tenor")
          (tenorMapAt doc "weighted_cvr_down_per_tenor") oldC.perTenorCvrUp
          oldC.perTenorCvrDown = [] := by
        unfold emitCurvatureTenors
        split
        · rename_i hu hd
          rw [hu, hd] at tenors
          cases tenors
        · rfl
      rw [base, perTenor, List.append_nil]
    · rw [if_neg hs] at h ⊢
      obtain ⟨scalar, tenors⟩ := h
      rw [Option.isSome_eq_false_iff, Option.isNone_iff_eq_none] at scalar tenors
      rw [scalar, tenors]
      rfl

theorem Barren.rollupIncrements_eq_zero (h : Barren doc) (oldHash : Hash) (key field : String) :
    rollupIncrements oldHash doc key field = 0 := by
  unfold rollupIncrements
  split
  · rfl
  · rw [h.emitRollupDelta_eq_nil, increments_nil]

theorem Barren.contribution_eq_zero (h : Barren doc) (key field : String) :
    contribution doc key field = 0 := by
  rw [← increments_fresh, h.emitRollupDelta_eq_nil, increments_nil]

theorem SameShape.barren (same : SameShape doc doc') (h : Barren doc) : Barren doc' := by
  have ht := same.rowTags_eq
  unfold Barren at h ⊢
  rw [← ht]
  rw [← same.scalars "weighted_cvr_up" (by simp), ← same.scalars "weighted_cvr_down" (by simp),
    ← same.scalars "weighted_value" (by simp),
    ← (same.tenors "weighted_cvr_up_per_tenor" (by simp)).1,
    ← (same.tenors "weighted_cvr_down_per_tenor" (by simp)).1,
    ← (same.tenors "weighted_value_per_tenor" (by simp)).1]
  exact h

end Barren

section Versions
variable {opts : ConsumerOptions} {s : Redis} {r : Row} {key field : String}

/-- What a row's Phase 2 adds when its HASH agrees with the row's current version. -/
theorem rollupIncrements_version {h : Hash} {old : Props} (current : Barren old ∨ Holds h old)
    (kept : SameShape old r.doc ∨ (Barren old ∧ Barren r.doc))
    (tracked : key ∉ unstoredKeys r.doc) :
    rollupIncrements h r.doc key field =
      contribution r.doc key field - contribution old key field := by
  have barren : Barren old → Barren r.doc → rollupIncrements h r.doc key field =
      contribution r.doc key field - contribution old key field := by
    intro hold hnew
    rw [hnew.rollupIncrements_eq_zero, hnew.contribution_eq_zero, hold.contribution_eq_zero,
      sub_zero]
  rcases kept with same | ⟨hold, hnew⟩
  · rcases current with hold | holds
    · exact barren hold (SameShape.barren same hold)
    · exact rollupIncrements_reingest holds same tracked
  · exact barren hold hnew

end Versions

section Run
variable {opts : ConsumerOptions}

/-- The abstract run: each row is written and settled at once. -/
def ledgerOf (key field : String) (rows : List Row) : Ledger Unit String Props ℚ :=
  rows.foldl (fun L r =>
    (L.write (fun doc => contribution doc key field) () r.key r.doc).settle ()) .empty

theorem ledgerOf_append (key field : String) (rows : List Row) (r : Row) :
    ledgerOf key field (rows ++ [r]) =
      ((ledgerOf key field rows).write (fun doc => contribution doc key field) () r.key
        r.doc).settle () := by
  simp only [ledgerOf, List.foldl_append, List.foldl_cons, List.foldl_nil]

theorem ledgerOf_reach (key field : String) (rows : List Row) :
    Ledger.Reach (fun doc => contribution doc key field) (ledgerOf key field rows) := by
  induction rows using List.reverseRecOn with
  | nil => exact .empty
  | append_singleton rows r ih =>
    rw [ledgerOf_append]
    exact .settle (.write ih () r.key r.doc) ()

theorem ledgerOf_quiet (key field : String) (rows : List Row) (i : Unit) :
    (ledgerOf key field rows).owed i = 0 := by
  induction rows using List.reverseRecOn with
  | nil => rfl
  | append_singleton rows r ih =>
    rw [ledgerOf_append]
    simp only [Ledger.settle, Function.update_self]

theorem lastDocs_append (rows : List Row) (r : Row) :
    lastDocs (rows ++ [r]) = (lastDocs rows).insert r.key r.doc := by
  rw [lastDocs, List.map_append, ofPairs, assign_append]
  rfl

theorem ledgerOf_current (key field : String) (rows : List Row) :
    (ledgerOf key field rows).current = lastDocs rows := by
  induction rows using List.reverseRecOn with
  | nil => rfl
  | append_singleton rows r ih =>
    rw [ledgerOf_append, lastDocs_append, ← ih]
    rfl

/-- The store agrees with the abstract run over the rows so far. -/
structure Reconciled (s : Redis) (rows : List Row) (key : String) : Prop where
  rollups : ∀ field, s.rollups key field = (ledgerOf key field rows).settled
  hashes : ∀ id, match (lastDocs rows).lookup (buildKey id) with
    | none => s.hashes (buildKey id) = ∅
    | some doc => Barren doc ∨ Holds (s.hashes (buildKey id)) doc

theorem Fresh.reconciled {s : Redis} (fresh : Fresh s) (key : String) : Reconciled s [] key where
  rollups := fun field => fresh.rollups key field
  hashes := fun id => fresh.hashes (buildKey id)

theorem mem_of_lookup_lastDocs {rows : List Row} {k : String} {doc : Props}
    (h : (lastDocs rows).lookup k = some doc) : ∃ r ∈ rows, r.key = k ∧ r.doc = doc := by
  obtain ⟨r, hr, heq⟩ := List.mem_map.mp (mem_of_lookup_ofPairs h)
  cases heq
  exact ⟨r, hr, rfl, rfl⟩

section Step
variable {s : Redis} {rows : List Row} {key : String} {r : Row}
variable (atomic : useAtomic opts.format = true) (off : opts.liveTailMode = false)
  (inv : Reconciled s rows key) (filed : ∃ id, r.key = buildKey id) (calibrated : Calibrated r.doc)
  (unset : ∀ tags, markerKeyOf tags r ∉ s.markers) (kept : KeepsShape (rows ++ [r]))

theorem KeepsShape.last (kept : KeepsShape (rows ++ [r])) {old : Props}
    (current : (lastDocs rows).lookup r.key = some old) :
    SameShape old r.doc ∨ (Barren old ∧ Barren r.doc) := by
  obtain ⟨r', hr', hkey, rfl⟩ := mem_of_lookup_lastDocs current
  exact kept r' (List.mem_append_left _ hr') r (List.mem_append_right _ List.mem_cons_self) hkey

include atomic off inv filed calibrated unset kept in
/-- One delivery of a new entry keeps the store reconciled. -/
theorem Reconciled.deliver (tracked : key ∉ unstoredKeys r.doc) :
    Reconciled (deliver opts noFaults .afterTail s r) (rows ++ [r]) key := by
  obtain ⟨id, hkey⟩ := filed
  have before := inv.hashes id
  constructor
  · intro field
    have gain : rollupIncrements (s.hashes r.key) r.doc key field =
        (ledgerOf key field rows).gain (fun doc => contribution doc key field) r.key r.doc := by
      rw [Ledger.gain, ledgerOf_current, hkey]
      cases hl : (lastDocs rows).lookup (buildKey id) with
      | none =>
        rw [hl] at before
        rw [before, rollupIncrements_empty, Option.elim_none, sub_zero]
      | some old =>
        rw [hl] at before
        rw [← hkey] at hl before
        rw [← hkey]
        exact rollupIncrements_version before (kept.last hl) tracked
    rw [rollups_deliver off (fun tags _ => unset tags) (Or.inr rfl), inv.rollups field, gain,
      ledgerOf_append, Ledger.settled_write_settle _ _ (ledgerOf_quiet key field rows ())]
  · intro id'
    rw [lastDocs_append, hashes_deliver_of_write atomic hkey (by decide)]
    by_cases hid : id' = id
    · subst hid
      rw [hkey, AList.lookup_insert, if_pos rfl]
      cases hl : (lastDocs rows).lookup (buildKey id') with
      | none =>
        rw [hl] at before
        exact Or.inr (Holds.write calibrated storedExtra_apart (Or.inl before))
      | some old =>
        rw [hl] at before
        rw [← hkey] at hl
        rcases kept.last hl with same | ⟨_, hnew⟩
        · rcases before with hold | holds
          · exact Or.inl (SameShape.barren same hold)
          · exact Or.inr (Holds.write calibrated storedExtra_apart (Or.inr ⟨old, holds, same⟩))
        · exact Or.inl hnew
    · have hne : buildKey id' ≠ r.key := by
        rw [hkey]
        exact fun heq => hid ((append_left_cancel_iff _ id' id).mp heq)
      rw [AList.lookup_insert_ne hne, if_neg hid]
      exact inv.hashes id'

end Step

/-- The rows a list of prepared entries adds keep the store reconciled. -/
theorem reconciled_applyAll (atomic : useAtomic opts.format = true)
    (off : opts.liveTailMode = false) {s : Redis} (fresh : Fresh s) {key : String}
    (ps : List Prepared)
    (filed : ∀ r ∈ rowsOf ps, (∃ id, r.key = buildKey id) ∧ Calibrated r.doc)
    (distinct : ((rowsOf ps).map Row.entryId).Nodup) (kept : KeepsShape (rowsOf ps))
    (tracked : ∀ r ∈ rowsOf ps, key ∉ unstoredKeys r.doc) :
    Reconciled (applyAll opts noFaults s ps) (rowsOf ps) key := by
  induction ps using List.reverseRecOn with
  | nil => exact fresh.reconciled key
  | append_singleton ps p ih =>
    rw [applyAll_append]
    rw [rowsOf_append] at filed distinct kept tracked ⊢
    cases p with
    | malformed entryId =>
      have rows : rowsOf ps ++ rowsOf [.malformed entryId] = rowsOf ps := List.append_nil _
      rw [rows] at filed distinct kept tracked ⊢
      obtain ⟨rollups, hashes⟩ := ih filed distinct kept tracked
      exact ⟨rollups, hashes⟩
    | row r =>
      have rows : rowsOf [.row r] = [r] := rfl
      rw [rows] at filed distinct kept tracked ⊢
      have left : ∀ r' ∈ rowsOf ps, r' ∈ rowsOf ps ++ [r] := fun _ h => List.mem_append_left _ h
      have here : r ∈ rowsOf ps ++ [r] := List.mem_append_right _ List.mem_cons_self
      rw [List.map_append, List.nodup_append] at distinct
      have newEntry : r.entryId ∉ (rowsOf ps).map Row.entryId :=
        fun hmem => distinct.2.2 _ hmem _ List.mem_cons_self rfl
      have inv := ih (fun r' h => filed r' (left r' h)) distinct.1
        (fun r' h r'' h' => kept r' (left r' h) r'' (left r'' h'))
        (fun r' h => tracked r' (left r' h))
      exact inv.deliver atomic off (filed r here).1 (filed r here).2
        (marker_unset off fresh.markers newEntry) kept (tracked r here)

end Run

section Samples

theorem oneTenor_noColon : DelimitedNames.Free ':' "1-0" := by decide

theorem twoTenors_noColon : DelimitedNames.Free ':' "2-0" := by decide

def oneTenor : Entry where
  entryId := ⟨"1-0", oneTenor_noColon⟩
  fields := some (streamFields "GIRR" "1" "R1"
    "\x7b\"sensitivity_type\":\"Delta\",\"risk_value\":\x7b\"3M\":8\x7d\x7d")

def twoTenors : Entry where
  entryId := ⟨"2-0", twoTenors_noColon⟩
  fields := some (streamFields "GIRR" "1" "R1"
    "\x7b\"sensitivity_type\":\"Delta\",\"risk_value\":\x7b\"3M\":8,\"6M\":4\x7d\x7d")

end Samples

end Reingest
