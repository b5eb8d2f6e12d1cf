import Frtb.RowVersions

/-!
# The effect of one delivery

Each phase touches its own part of the store. Phase 1 assigns the row's fields
to its HASH, Phase 2 adds the increments of its transaction and sets the
marker, and the tail removes the entry from the pending list.
-/

namespace AtomicDelivery

open AssocMaps JsonText EnrichDoc RollupKeys RedisStore StorageWriter RollupDelta BatchWriters
open RollupContribution HashLayout RowVersions

/-- The fields that an atomic format stores in the parent HASH. -/
def storedFields (format : StorageFormat) (doc : Props) : List (String × Stored) :=
  flattenDocForHash doc ++ if format = .hashEncoded then encodedArgs doc else []

section Stored
variable {format : StorageFormat} {doc : Props} {h : Hash}

/-- The companion fields of `hash-encoded` have names of their own. -/
theorem encodedArgs_apart {name : String} (hname : name ∈ (encodedArgs doc).map Prod.fst) :
    ¬ (name ∈ routingFields ∨ IsWeightField name) := by
  have listed : name ∈ ["weighted_value_per_tenor_json", "weighted_cvr_up_per_tenor_json",
      "weighted_cvr_down_per_tenor_json"] := by
    obtain ⟨⟨name', v⟩, hp, rfl⟩ := List.mem_map.mp hname
    obtain ⟨k, hk, hv⟩ := List.mem_filterMap.mp hp
    have hnames : ∀ k ∈ ["weighted_value_per_tenor", "weighted_cvr_up_per_tenor",
        "weighted_cvr_down_per_tenor"], k ++ "_json" ∈ ["weighted_value_per_tenor_json",
        "weighted_cvr_up_per_tenor_json", "weighted_cvr_down_per_tenor_json"] := by decide
    split at hv
    · cases hv
      exact hnames k hk
    · cases hv
  have bare : ∀ name ∈ ["weighted_value_per_tenor_json", "weighted_cvr_up_per_tenor_json",
      "weighted_cvr_down_per_tenor_json"],
      name ∉ routingFields ∧ stripPrefix "ws_" name = none := by decide
  rintro (routing | ⟨rest, hweight⟩)
  · exact (bare name listed).1 routing
  · have hstrip := (stripPrefix_eq_some_iff "ws_" name rest).mpr hweight
    rw [(bare name listed).2] at hstrip
    cases hstrip

theorem storedExtra_apart (name : String)
    (hname : name ∈ (if format = .hashEncoded then encodedArgs doc else []).map Prod.fst) :
    ¬ (name ∈ routingFields ∨ IsWeightField name) := by
  split at hname
  · exact encodedArgs_apart hname
  · cases hname

/-- A weighted field that the row writes reads back as written. -/
theorem lookup_assign_storedFields {name : String} (weight : IsWeightField name)
    (written : name ∈ (weightArgs doc).map Prod.fst) :
    (assign h (storedFields format doc)).lookup name = (ofPairs (weightArgs doc)).lookup name := by
  have listed : name ∈ (flattenDocForHash doc).map Prod.fst := by
    rw [flattenDocForHash, List.map_append]
    exact List.mem_append_right _ written
  rw [storedFields, assign_append,
    lookup_assign_of_notMem _ _ (fun hmem => storedExtra_apart name hmem (Or.inr weight)),
    lookup_assign_congr h ∅ listed]
  exact lookup_flatten_weight weight

theorem keys_assign_storedFields {name : String} (written : name ∈ (weightArgs doc).map Prod.fst) :
    (assign h (storedFields format doc)).keys ≠ [] := by
  apply List.ne_nil_of_mem (a := name)
  rw [← AList.mem_keys, mem_assign]
  right
  simp only [storedFields, flattenDocForHash, List.map_append, List.mem_append]
  exact Or.inl (Or.inr written)

end Stored

section Spares

theorem writeDocForStorage_spares {key : String} {doc : Props} {format : StorageFormat} {c : Cmd}
    (h : c ∈ writeDocForStorage key doc format) :
    c.sparesPel ∧ c.sparesRollups ∧ c.sparesMarkers := by
  have hset : ∀ key fields, c ∈ hsetUnlessEmpty key fields →
      c.sparesPel ∧ c.sparesRollups ∧ c.sparesMarkers := by
    intro key fields hc
    cases fields with
    | nil => cases hc
    | cons p ps =>
      rw [List.mem_singleton.mp hc]
      exact ⟨trivial, trivial, trivial⟩
  cases format with
  | hashSidetable =>
    rcases List.mem_append.mp h with h | h
    · exact hset _ _ h
    · rw [Option.mem_toList, Option.map_eq_some_iff] at h
      obtain ⟨_, _, rfl⟩ := h
      exact ⟨trivial, trivial, trivial⟩
  | hashEncoded => exact hset _ _ h
  | json =>
    rw [List.mem_singleton.mp h]
    exact ⟨trivial, trivial, trivial⟩
  | jsonShadowHash =>
    rcases List.mem_cons.mp h with rfl | h
    · exact ⟨trivial, trivial, trivial⟩
    · exact hset _ _ h

/-- A command that touches the rollups only. -/
def IsIncrement : Cmd → Prop
  | .hincrbyfloat _ _ _ => True
  | _ => False

theorem IsIncrement.spares {c : Cmd} (h : IsIncrement c) :
    c.sparesHashes ∧ c.sparesPel ∧ c.sparesMarkers := by
  cases c with
  | hincrbyfloat _ _ _ => exact ⟨trivial, trivial, trivial⟩
  | _ => exact h.elim

theorem isIncrement_scalarDelta {key : String} {countDelta new old : ℚ} {c : Cmd}
    (h : c ∈ emitScalarDelta key countDelta new old) : IsIncrement c := by
  simp only [emitScalarDelta, List.cons_append, List.nil_append, List.mem_cons] at h
  rcases h with rfl | rfl | h
  · trivial
  · trivial
  · split at h
    · cases h
    · rw [List.mem_singleton.mp h]
      trivial

theorem isIncrement_curvatureDelta {key : String} {countDelta : ℚ} {new old : ℚ × ℚ} {c : Cmd}
    (h : c ∈ emitCurvatureDelta key countDelta new old) : IsIncrement c := by
  simp only [emitCurvatureDelta, List.cons_append, List.nil_append, List.mem_cons] at h
  rcases h with rfl | rfl | rfl | rfl | h
  · trivial
  · trivial
  · trivial
  · trivial
  · split at h
    · cases h
    · rw [List.mem_singleton.mp h]
      trivial

theorem isIncrement_rollupDelta {oldC : OldContribution} {doc : Props} {c : Cmd}
    (h : c ∈ emitRollupDelta oldC doc) : IsIncrement c := by
  unfold emitRollupDelta at h
  split at h
  · cases h
  split at h
  · rcases List.mem_append.mp h with h | h
    · unfold emitCurvatureBase at h
      split at h
      · exact isIncrement_curvatureDelta h
      · cases h
    · unfold emitCurvatureTenors at h
      split at h
      · obtain ⟨_, _, h⟩ := List.mem_flatMap.mp h
        exact isIncrement_curvatureDelta h
      · cases h
  · rcases List.mem_append.mp h with h | h
    · unfold emitScalarBase at h
      split at h
      · exact isIncrement_scalarDelta h
      · cases h
    · unfold emitScalarTenors at h
      split at h
      · cases h
      · obtain ⟨_, _, h⟩ := List.mem_flatMap.mp h
        exact isIncrement_scalarDelta h

theorem phase2Cmds_spares {opts : ConsumerOptions} {oldHash : Hash} {markers : Finset String}
    {r : Row} {c : Cmd} (h : c ∈ phase2Cmds opts oldHash markers r) :
    c.sparesHashes ∧ c.sparesPel := by
  unfold phase2Cmds at h
  split at h
  · cases h
  split at h
  · cases h
  split at h
  · rw [List.mem_singleton.mp h]
    exact ⟨trivial, trivial⟩
  · rcases List.mem_append.mp h with h | h
    · exact ⟨(isIncrement_rollupDelta h).spares.1, (isIncrement_rollupDelta h).spares.2.1⟩
    · simp only [List.mem_cons, List.not_mem_nil, or_false] at h
      rcases h with rfl | rfl
      · exact ⟨trivial, trivial⟩
      · exact ⟨trivial, trivial⟩

theorem tailSadds_spares {opts : ConsumerOptions} {r : Row} {c : Cmd} (h : c ∈ tailSadds opts r) :
    c.sparesHashes ∧ c.sparesRollups ∧ c.sparesMarkers ∧ c.sparesPel := by
  simp only [tailSadds, List.mem_append] at h
  rcases h with h | h
  all_goals
    split at h
    · rw [List.mem_singleton.mp h]
      exact ⟨trivial, trivial, trivial, trivial⟩
    · cases h

theorem tailCmds_spares {opts : ConsumerOptions} {r : Row} {c : Cmd} (h : c ∈ tailCmds opts r) :
    c.sparesHashes ∧ c.sparesRollups ∧ c.sparesMarkers := by
  rcases List.mem_append.mp h with h | h
  · exact ⟨(tailSadds_spares h).1, (tailSadds_spares h).2.1, (tailSadds_spares h).2.2.1⟩
  · rw [List.mem_singleton.mp h]
    exact ⟨trivial, trivial, trivial⟩

end Spares

section Phases
variable {opts : ConsumerOptions} {s : Redis} {r : Row}

theorem runPhase1_noFaults : runPhase1 opts noFaults s r = exec s (phase1Cmds opts r) :=
  execFrom_of_none_fail (fun _ => rfl) 0 s _

theorem runPhase2_noFaults (oldHash : Hash) :
    runPhase2 opts noFaults oldHash s r = exec s (phase2Cmds opts oldHash s.markers r) :=
  execFrom_of_none_fail (fun _ => rfl) 0 s _

theorem runTail_noFaults : runTail opts noFaults s r = exec s (tailCmds opts r) :=
  execFrom_of_none_fail (fun _ => rfl) 0 s _

theorem rollups_runPhase1 : (runPhase1 opts noFaults s r).rollups = s.rollups := by
  funext key field
  rw [runPhase1_noFaults, rollups_exec, phase1Cmds,
    increments_of_spares (fun c hc => (writeDocForStorage_spares hc).2.1), add_zero]

theorem markers_runPhase1 : (runPhase1 opts noFaults s r).markers = s.markers := by
  rw [runPhase1_noFaults, phase1Cmds,
    markers_exec (fun c hc => (writeDocForStorage_spares hc).2.2)]

theorem pel_runPhase1 (fails : Faults) : (runPhase1 opts fails s r).pel = s.pel :=
  pel_execFrom (fun _ hc => (writeDocForStorage_spares hc).1) 0 s

theorem hashes_runPhase2 (oldHash : Hash) :
    (runPhase2 opts noFaults oldHash s r).hashes = s.hashes := by
  rw [runPhase2_noFaults, hashes_exec (fun c hc => (phase2Cmds_spares hc).1)]

theorem pel_runPhase2 (fails : Faults) (oldHash : Hash) :
    (runPhase2 opts fails oldHash s r).pel = s.pel :=
  pel_execFrom (fun _ hc => (phase2Cmds_spares hc).2) 0 s

theorem hashes_runTail : (runTail opts noFaults s r).hashes = s.hashes := by
  rw [runTail_noFaults, hashes_exec (fun c hc => (tailCmds_spares hc).1)]

theorem rollups_runTail : (runTail opts noFaults s r).rollups = s.rollups := by
  funext key field
  rw [runTail_noFaults, rollups_exec,
    increments_of_spares (fun c hc => (tailCmds_spares hc).2.1), add_zero]

theorem markers_runTail : (runTail opts noFaults s r).markers = s.markers := by
  rw [runTail_noFaults, markers_exec (fun c hc => (tailCmds_spares hc).2.2)]

theorem pel_runTail :
    (runTail opts noFaults s r).pel = s.pel.filter (fun e => e.entryId ≠ r.entryId) := by
  have spare : (execFrom (fun _ => false) 0 s (tailSadds opts r)).pel = s.pel :=
    pel_execFrom (fun _ hc => (tailSadds_spares hc).2.2.2) 0 s
  rw [execFrom_of_none_fail (fun _ => rfl)] at spare
  rw [runTail_noFaults, tailCmds, exec_append, exec_cons, exec_nil, apply, spare]

theorem exec_hsetUnlessEmpty (s : Redis) (key : String) (fields : List (String × Stored)) :
    (exec s (hsetUnlessEmpty key fields)).hashes =
      fun k => if k = key then assign (s.hashes key) fields else s.hashes k := by
  cases fields with
  | nil =>
    funext k
    by_cases hk : k = key
    · subst hk; simp [hsetUnlessEmpty]
    · simp [hsetUnlessEmpty, hk]
  | cons p ps => rfl

/-- A document key never names a side table, whose key starts with a brace. -/
theorem buildKey_ne_sideTableKey (id parentKey : String) :
    buildKey id ≠ sideTableKeyFor parentKey := by
  intro h
  have hlist := congrArg String.toList h
  simp [buildKey, sideTableKeyFor] at hlist

/-- Phase 1 assigns the stored fields to the row's own HASH and leaves every
other document's HASH alone. -/
theorem hashes_runPhase1 (atomic : useAtomic opts.format = true) {id : String}
    (hkey : r.key = buildKey id) (id' : String) :
    (runPhase1 opts noFaults s r).hashes (buildKey id') =
      if id' = id then assign (s.hashes (buildKey id)) (storedFields opts.format r.doc)
      else s.hashes (buildKey id') := by
  have inj : (buildKey id' = buildKey id) = (id' = id) :=
    propext (append_left_cancel_iff _ id' id)
  rw [runPhase1_noFaults, phase1Cmds, hkey]
  cases hf : opts.format with
  | hashSidetable =>
    rw [writeDocForStorage, exec_append]
    cases sideTableArgsFor r.doc with
    | none => simp [exec_hsetUnlessEmpty, storedFields, inj]
    | some side =>
      simp [apply, exec_hsetUnlessEmpty, storedFields, inj, buildKey_ne_sideTableKey]
  | hashEncoded =>
    rw [writeDocForStorage, exec_hsetUnlessEmpty]
    simp [storedFields, inj]
  | json => rw [hf] at atomic; cases atomic
  | jsonShadowHash => rw [hf] at atomic; cases atomic

theorem increments_rollupCmds (oldHash : Hash) {tags : RowTags} (ht : rowTags r.doc = some tags)
    (key field : String) :
    increments (rollupCmds opts oldHash tags r) key field =
      rollupIncrements oldHash r.doc key field := by
  rw [rollupCmds, increments_append, rollupIncrements, ht]
  simp [increments]

theorem rollups_runPhase2 (off : opts.liveTailMode = false) (oldHash : Hash)
    (fresh : ∀ tags, rowTags r.doc = some tags → markerKeyOf tags r ∉ s.markers)
    (key field : String) :
    (runPhase2 opts noFaults oldHash s r).rollups key field =
      s.rollups key field + rollupIncrements oldHash r.doc key field := by
  rw [runPhase2_noFaults, rollups_exec]
  congr 1
  cases ht : rowTags r.doc with
  | none => simp [phase2Cmds, off, ht, rollupIncrements]
  | some tags =>
    simp only [phase2Cmds, off, ht, fresh tags ht, if_false, Bool.false_eq_true]
    exact increments_rollupCmds oldHash ht key field

theorem rollups_runPhase2_of_marked (oldHash : Hash) {tags : RowTags}
    (ht : rowTags r.doc = some tags) (marked : markerKeyOf tags r ∈ s.markers) :
    (runPhase2 opts noFaults oldHash s r).rollups = s.rollups := by
  funext key field
  rw [runPhase2_noFaults, rollups_exec]
  have none : increments (phase2Cmds opts oldHash s.markers r) key field = 0 := by
    simp only [phase2Cmds, ht, marked, if_true]
    split
    · rfl
    · simp [increments]
  rw [none, add_zero]

theorem markers_runPhase2 (off : opts.liveTailMode = false) (oldHash : Hash) {tags : RowTags}
    (ht : rowTags r.doc = some tags) :
    (runPhase2 opts noFaults oldHash s r).markers = insert (markerKeyOf tags r) s.markers := by
  rw [runPhase2_noFaults]
  simp only [phase2Cmds, off, ht, Bool.false_eq_true, if_false]
  split
  · rename_i marked
    rw [Finset.insert_eq_of_mem marked]
    rfl
  · rw [rollupCmds, exec_append, exec_cons, exec_cons, exec_nil]
    simp only [apply]
    rw [markers_exec (fun c hc => (isIncrement_rollupDelta hc).spares.2.2)]

end Phases

section Delivery
variable {opts : ConsumerOptions} {s : Redis} {r : Row} {id : String}

/-- A delivery that writes anything assigns the row's HASH and no other document's. -/
theorem hashes_deliver_of_write (atomic : useAtomic opts.format = true) (hkey : r.key = buildKey id)
    {stop : Stop} (wrote : stop ≠ .beforePhase1) (id' : String) :
    (deliver opts noFaults stop s r).hashes (buildKey id') =
      if id' = id then assign (s.hashes (buildKey id)) (storedFields opts.format r.doc)
      else s.hashes (buildKey id') := by
  have phase1 := hashes_runPhase1 (s := s) atomic hkey id'
  cases stop with
  | beforePhase1 => exact absurd rfl wrote
  | afterPhase1 => exact phase1
  | afterPhase2 =>
    simp only [deliver]
    rw [hashes_runPhase2, phase1]
  | afterTail =>
    simp only [deliver]
    rw [hashes_runTail, hashes_runPhase2, phase1]

theorem hashes_deliver (atomic : useAtomic opts.format = true) (hkey : r.key = buildKey id)
    {stop : Stop} (wrote : stop ≠ .beforePhase1) :
    (deliver opts noFaults stop s r).hashes r.key =
      assign (s.hashes r.key) (storedFields opts.format r.doc) := by
  rw [hkey, hashes_deliver_of_write atomic hkey wrote, if_pos rfl]

/-- A delivery that gets past Phase 2 with its marker unset adds the delta. -/
theorem rollups_deliver (off : opts.liveTailMode = false)
    (fresh : ∀ tags, rowTags r.doc = some tags → markerKeyOf tags r ∉ s.markers) {stop : Stop}
    (applied : stop = .afterPhase2 ∨ stop = .afterTail) (key field : String) :
    (deliver opts noFaults stop s r).rollups key field =
      s.rollups key field + rollupIncrements (s.hashes r.key) r.doc key field := by
  have phase2 : (runPhase2 opts noFaults (s.hashes r.key) (runPhase1 opts noFaults s r)
      r).rollups key field =
      s.rollups key field + rollupIncrements (s.hashes r.key) r.doc key field := by
    rw [rollups_runPhase2 off _ (by rw [markers_runPhase1]; exact fresh), rollups_runPhase1]
  rcases applied with rfl | rfl
  · exact phase2
  · simp only [deliver]
    rw [rollups_runTail]
    exact phase2

/-- A delivery sets no marker but the row's own. -/
theorem mem_markers_deliver (off : opts.liveTailMode = false) {stop : Stop} {m : String}
    (h : m ∈ (deliver opts noFaults stop s r).markers) :
    m ∈ s.markers ∨ ∃ tags, m = markerKeyOf tags r := by
  have phase2 : m ∈ (runPhase2 opts noFaults (s.hashes r.key) (runPhase1 opts noFaults s r)
      r).markers → m ∈ s.markers ∨ ∃ tags, m = markerKeyOf tags r := by
    intro hm
    cases ht : rowTags r.doc with
    | none =>
      rw [runPhase2_noFaults] at hm
      simp only [phase2Cmds, ht, ite_self, exec_nil, markers_runPhase1] at hm
      exact Or.inl hm
    | some tags =>
      rw [markers_runPhase2 off _ ht, Finset.mem_insert, markers_runPhase1] at hm
      rcases hm with rfl | hm
      · exact Or.inr ⟨tags, rfl⟩
      · exact Or.inl hm
  cases stop with
  | beforePhase1 => exact Or.inl h
  | afterPhase1 =>
    simp only [deliver, markers_runPhase1] at h
    exact Or.inl h
  | afterPhase2 => exact phase2 h
  | afterTail =>
    simp only [deliver, markers_runTail] at h
    exact phase2 h

end Delivery

end AtomicDelivery
