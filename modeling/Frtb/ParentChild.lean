import Frtb.Reingest

/-!
# Base rollups and their tenor rollups

A per-tenor row increments its base key by its scalar and each tenor key by
that tenor's value. The delta of the base key subtracts the scalar that the
HASH stores, the deltas of the tenor keys the values it stores; the layout
stores no scalar for a per-tenor row. So a delivery keeps the base key in step
with its tenors exactly when what the HASH stores is in step itself.
-/

namespace ParentChild

open AssocMaps JsonText EnrichDoc RollupKeys RedisStore StorageWriter RollupDelta BatchWriters
open RollupContribution HashLayout RowVersions AtomicDelivery BatchRuns Reingest

def sumFields : List String := ["sum_ws", "sum_ws_up", "sum_ws_down"]

/-- The base key holds the sum over its tenor keys, in each of the sum fields. -/
def ParentAgrees (s : Redis) (tags : RowTags) : Prop :=
  ∀ field ∈ sumFields,
    s.rollups (tags.key none) field = ∑ᶠ t, s.rollups (tags.key (some t)) field

/-- The signed sum of an optional per-tenor map. -/
def sumOf (m : Option (Assoc String ℚ)) : ℚ := ∑ t ∈ tenorSet m, valueAt m t

/-- A row with a value for each tenor and their signed sum as its scalar. -/
def PerTenor (doc : Props) : Prop :=
  if textOrEmpty doc "sensitivity_type" = "Curvature" then
    (tenorMapAt doc "weighted_cvr_up_per_tenor").isSome ∧
      (tenorMapAt doc "weighted_cvr_down_per_tenor").isSome ∧
      numAt doc "weighted_cvr_up" = some (sumOf (tenorMapAt doc "weighted_cvr_up_per_tenor")) ∧
      numAt doc "weighted_cvr_down" = some (sumOf (tenorMapAt doc "weighted_cvr_down_per_tenor"))
  else
    (tenorMapAt doc "weighted_value_per_tenor").isSome ∧
      numAt doc "weighted_value" = some (sumOf (tenorMapAt doc "weighted_value_per_tenor"))

/-- What the HASH stores under the row's class and leg is in step: its tenor
values sum to its scalar, which counts as zero when it is missing. -/
def StoredAgrees (h : Hash) (tags : RowTags) : Prop :=
  let stored := parseOldContribution h tags.riskClass tags.sensType
  if tags.sensType = "Curvature" then
    sumOf stored.perTenorCvrUp = stored.scalarCvrUp.getD 0 ∧
      sumOf stored.perTenorCvrDown = stored.scalarCvrDown.getD 0
  else sumOf stored.perTenorWs = stored.scalarWs.getD 0

/-- The keys of two triples coincide only base with base and tenor with tenor. -/
structure Apart (tags tags' : RowTags) : Prop where
  base : ∀ t, tags.key none ≠ tags'.key (some t)
  tenor : ∀ t, tags.key (some t) ≠ tags'.key none
  tenors : ∀ t t', tags.key (some t) = tags'.key (some t') → tags.key none = tags'.key none ∧ t = t'

section Keys

theorem key_some (tags : RowTags) (t : String) :
    tags.key (some t) = tags.key none ++ (":tenor:" ++ t) := by
  simp [RowTags.key, rollupKey, String.append_assoc]

/-- No part of the triple contains a colon. -/
structure ColonFree (tags : RowTags) : Prop where
  riskClass : DelimitedNames.Free ':' tags.riskClass
  bucket : DelimitedNames.Free ':' tags.bucket
  sensType : DelimitedNames.Free ':' tags.sensType

theorem ColonFree.split {tags tags' : RowTags} (free : ColonFree tags) (free' : ColonFree tags')
    {x y : List Char} (hx : ∀ c ∈ x.head?, c = ':') (hy : ∀ c ∈ y.head?, c = ':')
    (heq : (tags.key none).toList ++ x = (tags'.key none).toList ++ y) :
    tags.key none = tags'.key none ∧ x = y := by
  simp only [RowTags.key, rollupKey, String.toList_append, List.append_assoc] at heq ⊢
  have h₁ := List.append_cancel_left heq
  obtain ⟨hrc, h₂⟩ := DelimitedNames.split_first free.riskClass free'.riskClass h₁
  obtain ⟨hbkt, h₃⟩ := DelimitedNames.split_first free.bucket free'.bucket h₂
  obtain ⟨hsens, hend⟩ := DelimitedNames.split_rest free.sensType free'.sensType hx hy h₃
  rw [String.toList_injective hrc, String.toList_injective hbkt, String.toList_injective hsens]
  exact ⟨rfl, hend⟩

theorem tenorSuffix_head (t : String) : ∀ c ∈ (":tenor:" ++ t).toList.head?, c = ':' := by
  intro c hc
  simpa using hc.symm

/-- Triples without colons are apart. -/
theorem apart_of_free {tags tags' : RowTags} (free : ColonFree tags) (free' : ColonFree tags') :
    Apart tags tags' := by
  constructor
  · intro t heq
    rw [key_some] at heq
    have hlist : (tags.key none).toList ++ [] =
        (tags'.key none).toList ++ (":tenor:" ++ t).toList := by
      rw [heq, String.toList_append, List.append_nil]
    have hend := (free.split free' (by simp) (tenorSuffix_head t) hlist).2
    simp at hend
  · intro t heq
    rw [key_some] at heq
    have hlist : (tags.key none).toList ++ (":tenor:" ++ t).toList =
        (tags'.key none).toList ++ [] := by
      rw [List.append_nil, ← heq]
      simp
    have hend := (free.split free' (tenorSuffix_head t) (by simp) hlist).2
    simp at hend
  · intro t t' heq
    rw [key_some, key_some] at heq
    have hlist : (tags.key none).toList ++ (":tenor:" ++ t).toList =
        (tags'.key none).toList ++ (":tenor:" ++ t').toList := by
      rw [← String.toList_append, heq, String.toList_append]
    obtain ⟨hbase, hend⟩ :=
      free.split free' (tenorSuffix_head t) (tenorSuffix_head t') hlist
    exact ⟨hbase, (append_left_cancel_iff ":tenor:" t t').mp (String.toList_injective hend)⟩

end Keys

section Drift
variable {tags T : RowTags} {field : String}

/-- The tenor key of a triple that shares the base key meets one tenor's value. -/
theorem tenorTerm_at (apart : Apart T tags) (sameBase : T.key none = tags.key none)
    (tenors : Finset String) (v : String → ℚ) (t : String) :
    tenorTerm tags (T.key (some t)) tenors v = if t ∈ tenors then v t else 0 := by
  have meets : ∀ t', T.key (some t) = tags.key (some t') ↔ t' = t := by
    intro t'
    constructor
    · intro h
      exact (apart.tenors t t' h).2.symm
    · rintro rfl
      rw [key_some, key_some, sameBase]
  simp only [tenorTerm, meets, Finset.sum_ite_eq']

theorem finsum_tenors (tenors : Finset String) (v : String → ℚ) :
    ∑ᶠ t, (if t ∈ tenors then v t else 0) = ∑ t ∈ tenors, v t := by
  rw [finsum_eq_sum_of_support_subset (s := tenors)]
  · exact Finset.sum_congr rfl (fun t ht => if_pos ht)
  · intro t ht
    by_contra absent
    exact ht (if_neg absent)

theorem sum_values_of_subset {m : Option (Assoc String ℚ)} {tenors : Finset String}
    (cover : tenorSet m ⊆ tenors) : ∑ t ∈ tenors, valueAt m t = sumOf m := by
  symm
  apply Finset.sum_subset cover
  intro t _ absent
  rw [mem_tenorSet, Option.not_isSome_iff_eq_none] at absent
  rw [valueAt, absent, Option.getD_none]

/-- What a command list does to the keys of a triple: an amount at the base
key, and at the tenors an amount each. -/
structure Spread (T : RowTags) (added : String → ℚ) (base children : ℚ) : Prop where
  base : added (T.key none) = base
  finite : (Function.support fun t => added (T.key (some t))).Finite
  children : ∑ᶠ t, added (T.key (some t)) = children

theorem spread_zero {added : String → ℚ} (base : added (T.key none) = 0)
    (tenors : ∀ t, added (T.key (some t)) = 0) : Spread T added 0 0 := by
  refine ⟨base, ?_, ?_⟩
  · simp [tenors]
  · simp [tenors]

theorem spread_tenors (apart : Apart T tags) (sameBase : T.key none = tags.key none)
    (v : Option ℚ) (tenors : Finset String) (w : String → ℚ) :
    Spread T (fun key => baseTerm tags key v + tenorTerm tags key tenors w) (v.getD 0)
      (∑ t ∈ tenors, w t) := by
  have atTenor : ∀ t, baseTerm tags (T.key (some t)) v + tenorTerm tags (T.key (some t)) tenors w =
      if t ∈ tenors then w t else 0 := by
    intro t
    rw [baseTerm_of_ne (apart.tenor t), zero_add, tenorTerm_at apart sameBase]
  refine ⟨?_, ?_, ?_⟩
  · rw [tenorTerm_eq_zero (fun t _ => apart.base t), add_zero, baseTerm, if_pos sameBase]
  · refine tenors.finite_toSet.subset ?_
    intro t ht
    by_contra absent
    exact ht ((atTenor t).trans (if_neg absent))
  · simp only [atTenor, finsum_tenors]

theorem spread_elsewhere (apart : Apart T tags) (otherBase : T.key none ≠ tags.key none)
    (v : Option ℚ) (tenors : Finset String) (w : String → ℚ) :
    Spread T (fun key => baseTerm tags key v + tenorTerm tags key tenors w) 0 0 := by
  apply spread_zero
  · rw [tenorTerm_eq_zero (fun t _ => apart.base t), add_zero, baseTerm_of_ne otherBase]
  · intro t
    rw [baseTerm_of_ne (apart.tenor t), zero_add]
    exact tenorTerm_eq_zero (fun t' _ heq => otherBase (apart.tenors t t' heq).1)

/-- How far what the HASH stores is out of step. -/
def storedGap (h : Hash) (tags : RowTags) (field : String) : ℚ :=
  let stored := parseOldContribution h tags.riskClass tags.sensType
  if tags.sensType = "Curvature" then
    if field = "sum_ws_up" then sumOf stored.perTenorCvrUp - stored.scalarCvrUp.getD 0
    else if field = "sum_ws_down" then sumOf stored.perTenorCvrDown - stored.scalarCvrDown.getD 0
    else 0
  else if field = "sum_ws" then sumOf stored.perTenorWs - stored.scalarWs.getD 0
  else 0

theorem storedAgrees_iff (h : Hash) (tags : RowTags) :
    StoredAgrees h tags ↔ ∀ field ∈ sumFields, storedGap h tags field = 0 := by
  by_cases hs : tags.sensType = "Curvature"
  · simp [StoredAgrees, storedGap, sumFields, hs, sub_eq_zero]
  · simp [StoredAgrees, storedGap, sumFields, hs, sub_eq_zero]

theorem countPart_of_summed (summed : field ∈ sumFields) (n : ℚ) : countPart field n = 0 := by
  simp only [sumFields, List.mem_cons, List.not_mem_nil, or_false] at summed
  rcases summed with rfl | rfl | rfl <;> rfl

theorem scalarPart_of_summed (summed : field ∈ sumFields) (v : ℚ) :
    scalarPart field v = (if field = "sum_ws" then 1 else 0) * v := by
  simp only [sumFields, List.mem_cons, List.not_mem_nil, or_false] at summed
  rcases summed with rfl | rfl | rfl <;> simp [scalarPart]

theorem curvaturePart_of_summed (summed : field ∈ sumFields) (v : ℚ × ℚ) :
    curvaturePart field v =
      (if field = "sum_ws_up" then 1 else 0) * v.1 +
        (if field = "sum_ws_down" then 1 else 0) * v.2 := by
  simp only [sumFields, List.mem_cons, List.not_mem_nil, or_false] at summed
  rcases summed with rfl | rfl | rfl <;> simp [curvaturePart]

theorem increments_scalarRow {h : Hash} {doc : Props} (ht : rowTags doc = some tags)
    (hcurv : tags.sensType ≠ "Curvature") {m : Assoc String ℚ}
    (hm : tenorMapAt doc "weighted_value_per_tenor" = some m) {ws : ℚ}
    (hws : numAt doc "weighted_value" = some ws) (summed : field ∈ sumFields) (key : String) :
    rollupIncrements h doc key field =
      baseTerm tags key (some (scalarPart field ws - scalarPart field
        ((parseOldContribution h tags.riskClass tags.sensType).scalarWs.getD 0))) +
      tenorTerm tags key (tenorSet (some m) ∪
          tenorSet (parseOldContribution h tags.riskClass tags.sensType).perTenorWs) fun t =>
        scalarPart field (valueAt (some m) t) - scalarPart field
          (valueAt (parseOldContribution h tags.riskClass tags.sensType).perTenorWs t) := by
  simp only [rollupIncrements, ht, emitRollupDelta, hcurv, if_false, hm, hws]
  rw [increments_append, increments_emitScalarBase, increments_emitScalarTenors]
  simp only [countPart_of_summed summed, add_zero, Option.map_some]

theorem increments_curvatureRow {h : Hash} {doc : Props} (ht : rowTags doc = some tags)
    (hs : tags.sensType = "Curvature") {ups downs : Assoc String ℚ}
    (hu : tenorMapAt doc "weighted_cvr_up_per_tenor" = some ups)
    (hd : tenorMapAt doc "weighted_cvr_down_per_tenor" = some downs) {up down : ℚ}
    (hup : numAt doc "weighted_cvr_up" = some up)
    (hdown : numAt doc "weighted_cvr_down" = some down) (summed : field ∈ sumFields)
    (key : String) :
    rollupIncrements h doc key field =
      baseTerm tags key (some (curvaturePart field (up, down) - curvaturePart field
        ((parseOldContribution h tags.riskClass tags.sensType).scalarCvrUp.getD 0,
          (parseOldContribution h tags.riskClass tags.sensType).scalarCvrDown.getD 0))) +
      tenorTerm tags key (tenorSet (some ups) ∪ tenorSet (some downs) ∪
          (tenorSet (parseOldContribution h tags.riskClass tags.sensType).perTenorCvrUp ∪
            tenorSet (parseOldContribution h tags.riskClass tags.sensType).perTenorCvrDown))
        fun t => curvaturePart field (valueAt (some ups) t, valueAt (some downs) t) -
          curvaturePart field
            (valueAt (parseOldContribution h tags.riskClass tags.sensType).perTenorCvrUp t,
              valueAt (parseOldContribution h tags.riskClass tags.sensType).perTenorCvrDown t) := by
  simp only [rollupIncrements, ht, emitRollupDelta, if_pos hs, hu, hd, hup, hdown]
  rw [increments_append, increments_emitCurvatureBase, increments_emitCurvatureTenors]
  simp only [countPart_of_summed summed, add_zero, bothOf, Option.bind_some, Option.map_some]

/-- A per-tenor row takes its own triple out of step by as much as its HASH is
out of step, and leaves every triple apart from it alone. -/
theorem spread_row {h : Hash} {doc : Props} (ht : rowTags doc = some tags)
    (perTenor : PerTenor doc) (apart : Apart T tags) (summed : field ∈ sumFields) :
    ∃ base children, Spread T (fun key => rollupIncrements h doc key field) base children ∧
      base - children = if T.key none = tags.key none then storedGap h tags field else 0 := by
  have hsens := (rowTags_eq_some ht).2.2.1
  have typed : textOrEmpty doc "sensitivity_type" = tags.sensType := by
    rw [textOrEmpty, hsens, Option.getD_some]
  rw [PerTenor, typed] at perTenor
  by_cases hs : tags.sensType = "Curvature"
  · rw [if_pos hs, Option.isSome_iff_exists, Option.isSome_iff_exists] at perTenor
    obtain ⟨⟨ups, hu⟩, ⟨downs, hd⟩, hup, hdown⟩ := perTenor
    rw [hu] at hup
    rw [hd] at hdown
    simp only [increments_curvatureRow (h := h) ht hs hu hd hup hdown summed]
    by_cases sameBase : T.key none = tags.key none
    · refine ⟨_, _, spread_tenors apart sameBase _ _ _, ?_⟩
      rw [if_pos sameBase]
      simp only [Option.getD_some, curvaturePart_of_summed summed, Finset.sum_sub_distrib,
        Finset.sum_add_distrib, ← Finset.mul_sum]
      rw [sum_values_of_subset (m := some ups), sum_values_of_subset (m := some downs),
        sum_values_of_subset, sum_values_of_subset]
      · simp only [storedGap, if_pos hs]
        simp only [sumFields, List.mem_cons, List.not_mem_nil, or_false] at summed
        rcases summed with rfl | rfl | rfl
        · simp
        · simp
        · simp
      · exact Finset.subset_union_right.trans Finset.subset_union_right
      · exact Finset.subset_union_left.trans Finset.subset_union_right
      · exact Finset.subset_union_right.trans Finset.subset_union_left
      · exact Finset.subset_union_left.trans Finset.subset_union_left
    · exact ⟨0, 0, spread_elsewhere apart sameBase _ _ _, by rw [if_neg sameBase, sub_zero]⟩
  · rw [if_neg hs, Option.isSome_iff_exists] at perTenor
    obtain ⟨⟨m, hm⟩, hws⟩ := perTenor
    rw [hm] at hws
    simp only [increments_scalarRow (h := h) ht hs hm hws summed]
    by_cases sameBase : T.key none = tags.key none
    · refine ⟨_, _, spread_tenors apart sameBase _ _ _, ?_⟩
      rw [if_pos sameBase]
      simp only [Option.getD_some, scalarPart_of_summed summed, Finset.sum_sub_distrib,
        ← Finset.mul_sum]
      rw [sum_values_of_subset (m := some m) Finset.subset_union_left,
        sum_values_of_subset Finset.subset_union_right]
      simp only [storedGap, if_neg hs]
      by_cases hf : field = "sum_ws"
      · simp [hf]
      · simp [hf]
    · exact ⟨0, 0, spread_elsewhere apart sameBase _ _ _, by rw [if_neg sameBase, sub_zero]⟩

end Drift

section Run
variable {opts : ConsumerOptions} {s : Redis} {r : Row} {T : RowTags}

/-- Finitely many tenor keys of the triple hold anything. -/
def FinitelyTouched (s : Redis) (T : RowTags) : Prop :=
  ∀ field ∈ sumFields, (Function.support fun t => s.rollups (T.key (some t)) field).Finite

/-- What one delivery of a per-tenor row does to a triple that is in step: it
stays in step exactly when what the row's HASH stores is in step. -/
theorem deliver_agrees_iff (off : opts.liveTailMode = false)
    (unset : ∀ tags, markerKeyOf tags r ∉ s.markers) {tags : RowTags}
    (ht : rowTags r.doc = some tags) (perTenor : PerTenor r.doc) (apart : Apart T tags)
    (touched : FinitelyTouched s T) (agrees : ParentAgrees s T) :
    FinitelyTouched (deliver opts noFaults .afterTail s r) T ∧
      (ParentAgrees (deliver opts noFaults .afterTail s r) T ↔
        (T.key none = tags.key none → StoredAgrees (s.hashes r.key) tags)) := by
  have after : ∀ key field, (deliver opts noFaults .afterTail s r).rollups key field =
      s.rollups key field + rollupIncrements (s.hashes r.key) r.doc key field :=
    rollups_deliver off (fun tags _ => unset tags) (Or.inr rfl)
  constructor
  · intro field summed
    obtain ⟨_, _, spread, _⟩ :=
      spread_row (h := s.hashes r.key) ht perTenor apart summed
    simp only [after]
    exact ((touched field summed).union spread.finite).subset (Function.support_add _ _)
  · have gap : ∀ field ∈ sumFields,
        ((deliver opts noFaults .afterTail s r).rollups (T.key none) field =
          ∑ᶠ t, (deliver opts noFaults .afterTail s r).rollups (T.key (some t)) field ↔
        (T.key none = tags.key none → storedGap (s.hashes r.key) tags field = 0)) := by
      intro field summed
      obtain ⟨base, children, spread, drift⟩ :=
        spread_row (h := s.hashes r.key) ht perTenor apart summed
      have hbase := spread.base
      simp only [after]
      rw [finsum_add_distrib (touched field summed) spread.finite, spread.children,
        ← agrees field summed, add_right_inj, hbase, ← sub_eq_zero, drift]
      by_cases same : T.key none = tags.key none
      · simp [same]
      · simp [same]
    rw [ParentAgrees, storedAgrees_iff]
    constructor
    · intro all same field summed
      exact (gap field summed).mp (all field summed) same
    · intro all field summed
      exact (gap field summed).mpr (fun same => all same field summed)

theorem barren_untagged {doc : Props} (ht : rowTags doc = none) : Barren doc := by
  rw [Barren, ht]
  trivial

/-- A row with nothing to contribute changes no rollup. -/
theorem rollups_deliver_barren (off : opts.liveTailMode = false)
    (unset : ∀ tags, markerKeyOf tags r ∉ s.markers) (barren : Barren r.doc) :
    (deliver opts noFaults .afterTail s r).rollups = s.rollups := by
  funext key field
  rw [rollups_deliver off (fun tags _ => unset tags) (Or.inr rfl),
    barren.rollupIncrements_eq_zero, add_zero]

/-- The condition before each delivery of a run. -/
def BeforeEach (opts : ConsumerOptions) (s : Redis) (ps : List Prepared)
    (P : Redis → Row → Prop) : Prop :=
  ∀ done r rest, ps = done ++ .row r :: rest → P (applyAll opts noFaults s done) r

/-- What the HASH stores is in step when a per-tenor row is about to replace it. -/
def FindsAgreement (s : Redis) (r : Row) : Prop :=
  ∀ tags, rowTags r.doc = some tags → PerTenor r.doc → StoredAgrees (s.hashes r.key) tags

theorem BeforeEach.left {ps qs : List Prepared} {P : Redis → Row → Prop}
    (h : BeforeEach opts s (ps ++ qs) P) : BeforeEach opts s ps P := by
  intro done r rest heq
  exact h done r (rest ++ qs) (by rw [heq, List.append_assoc, List.cons_append])

theorem agrees_applyAll (off : opts.liveTailMode = false) (fresh : Fresh s) (ps : List Prepared)
    (distinct : ((rowsOf ps).map Row.entryId).Nodup)
    (perTenor : ∀ r ∈ rowsOf ps, PerTenor r.doc ∨ Barren r.doc)
    (apart : ∀ r ∈ rowsOf ps, ∀ tags, rowTags r.doc = some tags → Apart T tags)
    (stored : BeforeEach opts s ps FindsAgreement) :
    FinitelyTouched (applyAll opts noFaults s ps) T ∧
      ParentAgrees (applyAll opts noFaults s ps) T := by
  induction ps using List.reverseRecOn with
  | nil =>
    have zero : ∀ key field, (applyAll opts noFaults s []).rollups key field = 0 := fresh.rollups
    constructor
    · intro field _
      simp [zero]
    · intro field _
      simp [zero]
  | append_singleton ps p ih =>
    have storedHere := stored
    rw [rowsOf_append] at distinct perTenor apart
    rw [List.map_append, List.nodup_append] at distinct
    have before := ih distinct.1 (fun r h => perTenor r (List.mem_append_left _ h))
      (fun r h => apart r (List.mem_append_left _ h)) stored.left
    rw [applyAll_append]
    cases p with
    | malformed entryId => exact before
    | row r =>
      have here : r ∈ rowsOf ps ++ rowsOf [.row r] := List.mem_append_right _ List.mem_cons_self
      have last : applyAll opts noFaults (applyAll opts noFaults s ps) [.row r] =
          deliver opts noFaults .afterTail (applyAll opts noFaults s ps) r := rfl
      rw [last]
      have newEntry : r.entryId ∉ (rowsOf ps).map Row.entryId :=
        fun hmem => distinct.2.2 _ hmem _ List.mem_cons_self rfl
      have unset := marker_unset off fresh.markers newEntry
      by_cases barren : Barren r.doc
      · have same := rollups_deliver_barren off unset barren
        simp only [FinitelyTouched, ParentAgrees, same]
        exact before
      · have weighed := (perTenor r here).resolve_right barren
        cases ht : rowTags r.doc with
        | none => exact (barren (barren_untagged ht)).elim
        | some tags =>
          have step := deliver_agrees_iff off unset ht weighed (apart r here tags ht)
            before.1 before.2
          exact ⟨step.1, step.2.mpr (fun _ => storedHere ps r [] rfl tags ht weighed)⟩

/-- A row that was never stored is in step. -/
theorem storedAgrees_empty (tags : RowTags) : StoredAgrees ∅ tags := by
  simp [storedAgrees_iff, storedGap, parseOldContribution, OldContribution.absent, sumOf, tenorSet,
    namesOf]

theorem hashes_applyAll_of_notMem (atomic : useAtomic opts.format = true) {id : String}
    (ps : List Prepared) (filed : ∀ r ∈ rowsOf ps, ∃ id, r.key = buildKey id)
    (absent : ∀ r ∈ rowsOf ps, r.key ≠ buildKey id) :
    (applyAll opts noFaults s ps).hashes (buildKey id) = s.hashes (buildKey id) := by
  induction ps using List.reverseRecOn with
  | nil => rfl
  | append_singleton ps p ih =>
    rw [rowsOf_append] at filed absent
    rw [applyAll_append]
    have before := ih (fun r h => filed r (List.mem_append_left _ h))
      (fun r h => absent r (List.mem_append_left _ h))
    cases p with
    | malformed entryId => exact before
    | row r =>
      have here : r ∈ rowsOf ps ++ rowsOf [.row r] := List.mem_append_right _ List.mem_cons_self
      obtain ⟨id', hkey⟩ := filed r here
      have other : id ≠ id' := by
        rintro rfl
        exact absent r here hkey
      have last : applyAll opts noFaults (applyAll opts noFaults s ps) [.row r] =
          deliver opts noFaults .afterTail (applyAll opts noFaults s ps) r := rfl
      rw [last, hashes_deliver_of_write atomic hkey (by decide), if_neg other]
      exact before

/-- Rows that are each ingested once find nothing stored. -/
theorem findsAgreement_of_new (atomic : useAtomic opts.format = true) (fresh : Fresh s)
    {ps : List Prepared} (filed : ∀ r ∈ rowsOf ps, ∃ id, r.key = buildKey id)
    (once : ((rowsOf ps).map Row.key).Nodup) : BeforeEach opts s ps FindsAgreement := by
  intro done r rest heq tags _ _
  rw [heq, rowsOf_append] at filed once
  have mid : rowsOf (.row r :: rest) = r :: rowsOf rest := rfl
  rw [mid, List.map_append, List.nodup_append] at once
  obtain ⟨id, hkey⟩ := filed r (List.mem_append_right _ (mid ▸ List.mem_cons_self))
  rw [hkey, hashes_applyAll_of_notMem atomic done (fun r' h => filed r' (List.mem_append_left _ h)),
    fresh.hashes]
  · exact storedAgrees_empty tags
  · intro r' h heq'
    exact once.2.2 _ (List.mem_map_of_mem h) _ List.mem_cons_self (heq'.trans hkey.symm)

end Run

section Enriched
variable {doc : Props}

def numberOf : Json → Option ℚ
  | .num q => some q
  | _ => none

theorem numericMembers_eq (members : List (String × Json)) :
    numericMembers members =
      members.filterMap fun p => (numberOf p.2).map fun q => (p.1, q) := by
  apply List.filterMap_congr
  intro p _
  cases hp : p.2 <;> simp [numberOf]

theorem numericNames_nodup (m : Props) : ((numericMembers (pairs m)).map Prod.fst).Nodup := by
  have sub : ∀ l : List (String × Json),
      ((numericMembers l).map Prod.fst).Sublist (l.map Prod.fst) := by
    intro l
    rw [numericMembers_eq, List.map_filterMap]
    induction l with
    | nil => exact List.Sublist.slnil
    | cons p l ih =>
      cases hp : numberOf p.2 with
      | none => simpa [hp] using ih.cons p.1
      | some q => simpa [hp] using ih.cons_cons p.1
  exact (sub _).nodup (by rw [map_fst_pairs]; exact m.keys_nodup)

theorem lookup_numericMembers (m : Props) (t : String) :
    (ofPairs (numericMembers (pairs m))).lookup t = (m.lookup t).bind numberOf := by
  have nodup := numericNames_nodup m
  cases hread : (m.lookup t).bind numberOf with
  | some q =>
    obtain ⟨v, hv, hq⟩ := Option.bind_eq_some_iff.mp hread
    refine lookup_assign_of_mem ∅ nodup ?_
    rw [numericMembers_eq]
    exact List.mem_filterMap.mpr ⟨(t, v), (mem_pairs m t v).mpr hv, by simp [hq]⟩
  | none =>
    apply lookup_ofPairs_eq_none
    intro hmem
    obtain ⟨⟨t', q⟩, hp, rfl⟩ := List.mem_map.mp hmem
    rw [numericMembers_eq] at hp
    obtain ⟨⟨k, v⟩, hkv, heq⟩ := List.mem_filterMap.mp hp
    obtain ⟨q', hq', heq'⟩ := Option.map_eq_some_iff.mp heq
    cases heq'
    rw [(mem_pairs m k v).mp hkv, Option.bind_some, hq'] at hread
    cases hread

/-- A per-tenor map that enrichment stores reads back with its signed sum. -/
theorem putTenors_reads (doc : Props) (name : String) {out : List (String × ℚ)}
    (nodup : (out.map Prod.fst).Nodup) :
    ∃ m, tenorMapAt (putTenors doc name out) (name ++ "_per_tenor") = some m ∧
      sumOf (some m) = (out.map Prod.snd).sum := by
  have apart : name ++ "_per_tenor" ≠ name := by
    intro heq
    have hlen := congrArg (fun s => s.toList.length) heq
    simp at hlen
  have stored : (putTenors doc name out).lookup (name ++ "_per_tenor") =
      some (tenorObject out) := by
    rw [putTenors, AList.lookup_insert_ne apart, AList.lookup_insert]
  have reads : ∀ t, (ofPairs (numericMembers (pairs
      (ofPairs (out.map fun p => (p.1, Json.num p.2)))))).lookup t = (ofPairs out).lookup t := by
    intro t
    rw [lookup_numericMembers, lookup_ofPairs_map]
    cases (ofPairs out).lookup t <;> rfl
  refine ⟨ofPairs (numericMembers (pairs (ofPairs (out.map fun p => (p.1, Json.num p.2))))),
    by simp only [tenorMapAt, objAt, stored, tenorObject, Option.map_some], ?_⟩
  have keys : tenorSet (some (ofPairs (numericMembers (pairs
      (ofPairs (out.map fun p => (p.1, Json.num p.2))))))) = (out.map Prod.fst).toFinset := by
    ext t
    rw [mem_tenorSet, Option.bind_some, reads, List.mem_toFinset]
    exact lookup_ofPairs_isSome out t
  rw [sumOf, keys, List.sum_toFinset _ nodup, List.map_map]
  congr 1
  apply List.map_congr_left
  intro p hp
  simp only [Function.comp_apply, valueAt, Option.bind_some, reads]
  rw [ofPairs, lookup_assign_of_mem ∅ nodup hp, Option.getD_some]

theorem numAt_putTenors (doc : Props) (name : String) (out : List (String × ℚ)) :
    numAt (putTenors doc name out) name = some (out.map Prod.snd).sum := by
  rw [numAt, putTenors, AList.lookup_insert]

theorem lookup_putTenors_of_ne {name name' : String} (out : List (String × ℚ))
    (apart : name' ≠ name ∧ name' ≠ name ++ "_per_tenor") :
    (putTenors doc name out).lookup name' = doc.lookup name' := by
  rw [putTenors, AList.lookup_insert_ne apart.1, AList.lookup_insert_ne apart.2]

/-- A row whose risk value is an object of tenors is enriched to a per-tenor row. -/
theorem perTenor_of_object {schema : Option Schema} {sch : Schema} {cls : RiskClassConfig}
    (hclass : classOf schema doc = some (sch, cls)) {members : List (String × Json)}
    (hrv : doc.lookup "risk_value" = some (.obj members))
    (hspot : spotOf (ofPairs members) = none)
    (hsens : textOrEmpty doc "sensitivity_type" ≠ "Curvature") :
    PerTenor (enrichDoc doc schema) := by
  simp only [enrichDoc, hclass, hrv, if_neg hsens, enrichObject, hspot]
  have labels : ∀ weight : String → ℚ,
      ((weighTenors weight (pairs (ofPairs members))).map Prod.fst).Nodup := by
    intro weight
    rw [weighTenors, List.map_map]
    exact numericNames_nodup (ofPairs members)
  generalize hw : weighTenors _ (pairs (ofPairs members)) = out
  have nodup : (out.map Prod.fst).Nodup := hw ▸ labels _
  obtain ⟨m, hm, hsum⟩ := putTenors_reads
    (doc.insert "_calibration" (.str calibrationTag)) "weighted_value" nodup
  have typed : textOrEmpty (putTenors (doc.insert "_calibration" (.str calibrationTag))
      "weighted_value" out) "sensitivity_type" ≠ "Curvature" := by
    rw [textOrEmpty, strAt, lookup_putTenors_of_ne out (by decide),
      lookup_insert_of_ne (by decide)]
    exact hsens
  have hm' : tenorMapAt (putTenors (doc.insert "_calibration" (.str calibrationTag))
      "weighted_value" out) "weighted_value_per_tenor" = some m := hm
  rw [PerTenor, if_neg typed, hm', numAt_putTenors, hsum]
  exact ⟨rfl, rfl⟩

theorem fst_zip_sublist {α β : Type*} (l : List α) (l' : List β) :
    ((l.zip l').map Prod.fst).Sublist l := by
  induction l generalizing l' with
  | nil => exact List.Sublist.slnil
  | cons a l ih =>
    cases l' with
    | nil => exact List.nil_sublist _
    | cons b l' => exact (ih l').cons_cons a

/-- A curvature row of arrays is enriched to a per-tenor row when the tenor
nodes of its class are distinct. -/
theorem perTenor_of_arrays {schema : Option Schema} {sch : Schema} {cls : RiskClassConfig}
    (hclass : classOf schema doc = some (sch, cls)) {members : List (String × Json)}
    (hrv : doc.lookup "risk_value" = some (.obj members)) {up down : List Json}
    (hup : (ofPairs members).lookup "cvr_up" = some (.arr up))
    (hdown : (ofPairs members).lookup "cvr_down" = some (.arr down)) {nodes : List String}
    (hnodes : cls.tenorNodes = some nodes) (distinct : nodes.Nodup)
    (hsens : textOrEmpty doc "sensitivity_type" = "Curvature") :
    PerTenor (enrichDoc doc schema) := by
  simp only [enrichDoc, hclass, hrv, if_pos hsens, enrichCurvature, hup, hdown, hnodes]
  have labels : ∀ value : String × Json × Json → ℚ,
      (((nodes.zip (up.zip down)).map fun r => (r.1, value r)).map Prod.fst).Nodup := by
    intro value
    rw [List.map_map]
    exact (fst_zip_sublist nodes (up.zip down)).nodup distinct
  generalize hu : (nodes.zip (up.zip down)).map (fun r => (r.1, _ * asNumber r.2.1)) = ups
  generalize hd : (nodes.zip (up.zip down)).map (fun r => (r.1, _ * asNumber r.2.2)) = downs
  have upNames : (ups.map Prod.fst).Nodup := hu ▸ labels _
  have downNames : (downs.map Prod.fst).Nodup := hd ▸ labels _
  generalize hbase : doc.insert "_calibration" (.str calibrationTag) = base
  obtain ⟨m, hm, hsum⟩ := putTenors_reads base "weighted_cvr_up" upNames
  obtain ⟨m', hm', hsum'⟩ := putTenors_reads (putTenors base "weighted_cvr_up" ups)
    "weighted_cvr_down" downNames
  have typed : textOrEmpty (putTenors (putTenors base "weighted_cvr_up" ups)
      "weighted_cvr_down" downs) "sensitivity_type" = "Curvature" := by
    rw [textOrEmpty, strAt, lookup_putTenors_of_ne downs (by decide),
      lookup_putTenors_of_ne ups (by decide), ← hbase, lookup_insert_of_ne (by decide)]
    exact hsens
  have upMap : tenorMapAt (putTenors (putTenors base "weighted_cvr_up" ups)
      "weighted_cvr_down" downs) "weighted_cvr_up_per_tenor" = some m := by
    rw [tenorMapAt, objAt, lookup_putTenors_of_ne downs (by decide)]
    exact hm
  have upSum : numAt (putTenors (putTenors base "weighted_cvr_up" ups) "weighted_cvr_down" downs)
      "weighted_cvr_up" = some (ups.map Prod.snd).sum := by
    rw [numAt, lookup_putTenors_of_ne downs (by decide)]
    exact numAt_putTenors base "weighted_cvr_up" ups
  have downMap : tenorMapAt (putTenors (putTenors base "weighted_cvr_up" ups)
      "weighted_cvr_down" downs) "weighted_cvr_down_per_tenor" = some m' := hm'
  rw [PerTenor, if_pos typed, upMap, downMap, upSum, numAt_putTenors, hsum, hsum']
  exact ⟨rfl, rfl, rfl, rfl⟩

end Enriched

section Samples

def sameTenor : Entry where
  entryId := ⟨"5-0", by decide⟩
  fields := oneTenor.fields

def girrDelta : RowTags := ⟨"GIRR", "1", "Delta"⟩

theorem girrDelta_apart : Apart girrDelta girrDelta :=
  have free : ColonFree girrDelta := ⟨by decide, by decide, by decide⟩
  apart_of_free free free

theorem perTenor_sameTenor :
    ∀ r ∈ rowsReached atomicOptions [[oneTenor], [sameTenor]], PerTenor r.doc := by
  unfold PerTenor
  decide +kernel

theorem rowTags_sameTenor :
    ∀ r ∈ rowsReached atomicOptions [[oneTenor], [sameTenor]], rowTags r.doc = some girrDelta := by
  decide +kernel

end Samples

end ParentChild
