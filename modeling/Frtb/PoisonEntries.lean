import Frtb.AckSafety

/-!
# Batches with entries that throw

An entry without a field list, or with a payload that is not JSON, makes its
call throw. The atomic writer has by then delivered what stands before it; the
pipelined one has sent nothing. The drain loop takes the throw for an empty
batch and stops there.
-/

namespace PoisonEntries

open RollupKeys RedisStore StorageWriter BatchWriters AtomicDelivery BatchRuns CrashReplay AckSafety

section Conditions
variable (opts : ConsumerOptions)

/-- An entry that prepares as a row. -/
def WellFormed (entry : Entry) : Prop := ∃ r, prepare opts entry = some (.row r)

/-- No entry of the list throws. -/
def Clean (entries : List Entry) : Prop := ∀ entry ∈ entries, (prepare opts entry).isSome = true

def HasRow (entries : List Entry) : Prop := ∃ entry ∈ entries, WellFormed opts entry

def beforeBad (entries : List Entry) : List Entry :=
  entries.takeWhile fun entry => (prepare opts entry).isSome

/-- The entries from the first one that throws on. -/
def fromBad (entries : List Entry) : List Entry :=
  entries.dropWhile fun entry => (prepare opts entry).isSome

/-- The `k`-th window of the pending entries, cut by the batch size. -/
def window (k : ℕ) (pel : List Entry) : List Entry := (pel.drop (k * opts.count)).take opts.count

/-- The rows of the well-formed entries, in order. -/
def rowsIn (entries : List Entry) : List Row := rowsOf (entries.filterMap (prepare opts))

/-- Up to any window with a row, all windows are clean and have one. -/
def WindowsDrain (pel : List Entry) : Prop :=
  ∀ k, HasRow opts (window opts k pel) →
    ∀ j ≤ k, Clean opts (window opts j pel) ∧ HasRow opts (window opts j pel)

end Conditions

section Properties
variable (opts : ConsumerOptions) (s : Redis) (entries : List Entry)

/-- The two stores differ in their pending entries at most. -/
structure SameData (s s' : Redis) : Prop where
  hashes : s.hashes = s'.hashes
  documents : s.documents = s'.documents
  rollups : s.rollups = s'.rollups
  sets : s.sets = s'.sets
  markers : s.markers = s'.markers

/-- The store with a row applied: its document, its delta against the HASH as
it stood, and what it adds to the sets that list the data. -/
def applyRow (s : Redis) (r : Row) : Redis :=
  exec s (phase1Cmds opts r ++ (phase2Cmds opts (s.hashes r.key) s.markers r ++ tailSadds opts r))

def applyRowPiped (s : Redis) (r : Row) : Redis := exec s (rowCmds opts r)

/-- One call of the atomic writer applies every well-formed entry in turn and
acknowledges it. -/
def AtomicIsolates : Prop :=
  SameData (processBatchAtomic opts noFaults s 0 entries).1
      ((rowsIn opts entries).foldl (applyRow opts) s) ∧
    ∀ r ∈ rowsIn opts entries, ¬ Pending (processBatchAtomic opts noFaults s 0 entries).1 r

def PipedIsolates : Prop :=
  SameData (processBatch opts noFaults s entries).1
      ((rowsIn opts entries).foldl (applyRowPiped opts) s) ∧
    ∀ r ∈ rowsIn opts entries, ¬ Pending (processBatch opts noFaults s entries).1 r

end Properties

section Applied
variable {opts : ConsumerOptions}

theorem SameData.refl (s : Redis) : SameData s s := ⟨rfl, rfl, rfl, rfl, rfl⟩

theorem SameData.trans {s s' s'' : Redis} (first : SameData s s') (second : SameData s' s'') :
    SameData s s'' :=
  ⟨first.hashes.trans second.hashes, first.documents.trans second.documents,
    first.rollups.trans second.rollups, first.sets.trans second.sets,
    first.markers.trans second.markers⟩

theorem sameData_xack (s : Redis) (entryId : EntryId) : SameData (apply s (.xack entryId)) s :=
  ⟨rfl, rfl, rfl, rfl, rfl⟩

theorem SameData.apply {s s' : Redis} (same : SameData s s') (c : Cmd) :
    SameData (RedisStore.apply s c) (RedisStore.apply s' c) := by
  obtain ⟨hashes, documents, rollups, sets, markers⟩ := same
  cases c with
  | hset key fields =>
    exact ⟨by simp only [RedisStore.apply, hashes], documents, rollups, sets, markers⟩
  | jsonSet key doc =>
    exact ⟨hashes, by simp only [RedisStore.apply, documents], rollups, sets, markers⟩
  | hincrbyfloat key field increment =>
    exact ⟨hashes, documents, by simp only [RedisStore.apply, rollups], sets, markers⟩
  | sadd key member =>
    exact ⟨hashes, documents, rollups, by simp only [RedisStore.apply, sets], markers⟩
  | setEx key seconds =>
    exact ⟨hashes, documents, rollups, sets, by simp only [RedisStore.apply, markers]⟩
  | probe _ | sugadd _ _ | xack _ => exact ⟨hashes, documents, rollups, sets, markers⟩

theorem SameData.exec {s s' : Redis} (same : SameData s s') (cmds : List Cmd) :
    SameData (RedisStore.exec s cmds) (RedisStore.exec s' cmds) := by
  induction cmds generalizing s s' with
  | nil => exact same
  | cons c cmds ih => exact ih (same.apply c)

theorem SameData.applyRow {s s' : Redis} (same : SameData s s') (r : Row) :
    SameData (applyRow opts s r) (applyRow opts s' r) := by
  rw [PoisonEntries.applyRow, PoisonEntries.applyRow, same.hashes, same.markers]
  exact same.exec _

theorem SameData.applyRowPiped {s s' : Redis} (same : SameData s s') (r : Row) :
    SameData (applyRowPiped opts s r) (applyRowPiped opts s' r) := same.exec _

/-- A delivery without faults applies its row and acknowledges it. -/
theorem deliver_eq (s : Redis) (r : Row) :
    deliver opts noFaults .afterTail s r = apply (applyRow opts s r) (.xack r.entryId) := by
  simp only [deliver]
  rw [runTail_noFaults, runPhase2_noFaults, markers_runPhase1, runPhase1_noFaults, tailCmds,
    applyRow, exec_append, exec_append, exec_append]
  rfl

theorem pipeStep_row (s : Redis) (r : Row) :
    pipeStep opts noFaults s (.row r) = apply (applyRowPiped opts s r) (.xack r.entryId) := by
  simp only [pipeStep, pipelineCmds]
  have quiet := @execFrom_of_none_fail (noFaults r.entryId .pipeline) (fun _ => rfl) 0 s
    (rowCmds opts r ++ [Cmd.xack r.entryId])
  rw [quiet, exec_append]
  rfl

/-- The rows of a batch are applied in turn, whatever is acknowledged between
them. -/
theorem sameData_foldl {step : Redis → Prepared → Redis} {applied : Redis → Row → Redis}
    (row : ∀ s r, SameData (step s (.row r)) (applied s r))
    (malformed : ∀ s entryId, SameData (step s (.malformed entryId)) s)
    (keeps : ∀ {s s'} r, SameData s s' → SameData (applied s r) (applied s' r))
    (ps : List Prepared) {s s' : Redis} (same : SameData s s') :
    SameData (ps.foldl step s) ((rowsOf ps).foldl applied s') := by
  induction ps generalizing s s' with
  | nil => exact same
  | cons p ps ih =>
    cases p with
    | malformed entryId => exact ih ((malformed s entryId).trans same)
    | row r => exact ih ((row s r).trans (keeps r same))

theorem sameData_applyAll (s : Redis) (ps : List Prepared) :
    SameData (applyAll opts noFaults s ps) ((rowsOf ps).foldl (applyRow opts) s) := by
  apply sameData_foldl (fun s r => ?_) (fun s entryId => sameData_xack s entryId)
    (fun r same => same.applyRow r) ps (SameData.refl s)
  rw [applyPrepared, deliver_eq]
  exact sameData_xack _ _

theorem sameData_piped (s : Redis) (ps : List Prepared) :
    SameData (ps.foldl (pipeStep opts noFaults) s) ((rowsOf ps).foldl (applyRowPiped opts) s) := by
  apply sameData_foldl (fun s r => ?_) (fun s entryId => sameData_xack s entryId)
    (fun r same => same.applyRowPiped r) ps (SameData.refl s)
  rw [pipeStep_row]
  exact sameData_xack _ _

theorem mem_rowsIn {entries : List Entry} {r : Row} :
    r ∈ rowsIn opts entries ↔ ∃ entry ∈ entries, prepare opts entry = some (.row r) := by
  simp only [rowsIn, rowsOf, List.mem_filterMap]
  constructor
  · rintro ⟨p, ⟨entry, mem, hp⟩, hr⟩
    cases p with
    | malformed entryId => cases hr
    | row r' =>
      cases hr
      exact ⟨entry, mem, hp⟩
  · rintro ⟨entry, mem, hp⟩
    exact ⟨.row r, ⟨entry, mem, hp⟩, rfl⟩

theorem rowsIn_append (front back : List Entry) :
    rowsIn opts (front ++ back) = rowsIn opts front ++ rowsIn opts back := by
  rw [rowsIn, List.filterMap_append, rowsOf_append, rowsIn, rowsIn]

theorem rowsIn_eq_nil {entries : List Entry} (none : ¬ HasRow opts entries) :
    rowsIn opts entries = [] := by
  apply List.eq_nil_iff_forall_not_mem.mpr
  intro r hr
  obtain ⟨entry, mem, hp⟩ := mem_rowsIn.mp hr
  exact none ⟨entry, mem, r, hp⟩

/-- The atomic writer reaches the rows in front of the first entry that throws. -/
theorem rowsOf_reached (entries : List Entry) :
    rowsOf (reached opts entries) = rowsIn opts (beforeBad opts entries) := by
  have front : reached opts entries = (beforeBad opts entries).filterMap (prepare opts) := by
    induction entries with
    | nil => rfl
    | cons entry entries ih =>
      rw [reached, beforeBad, List.takeWhile_cons]
      cases hp : prepare opts entry with
      | none => rfl
      | some p =>
        simp only [Option.isSome_some, if_true, List.filterMap_cons, hp]
        rw [ih, beforeBad]
  rw [front, rowsIn]

theorem filterMap_of_mapM {entries : List Entry} {prepared : List Prepared}
    (all : entries.mapM (prepare opts) = some prepared) :
    entries.filterMap (prepare opts) = prepared := by
  induction entries generalizing prepared with
  | nil =>
    cases all
    rfl
  | cons entry entries ih =>
    rw [List.mapM_cons] at all
    simp only [Option.bind_eq_bind, Option.bind_eq_some_iff] at all
    obtain ⟨p, hp, rest, hrest, heq⟩ := all
    cases heq
    rw [List.filterMap_cons, hp, ih hrest]

end Applied

section Acked
variable {opts : ConsumerOptions} {s : Redis}

theorem pending_iff {r : Row} : Pending s r ↔ r.entryId ∈ s.pel.map Entry.entryId := by
  rw [List.mem_map]
  rfl

theorem pel_applyPrepared (p : Prepared) :
    (applyPrepared opts noFaults s p).pel = s.pel.filter (fun e => e.entryId ≠ sourceOf p) := by
  cases p with
  | malformed entryId => rfl
  | row r =>
    simp only [applyPrepared, deliver, sourceOf]
    rw [pel_runTail, pel_runPhase2, pel_runPhase1]
    rfl

theorem pel_pipeStep (p : Prepared) :
    (pipeStep opts noFaults s p).pel = s.pel.filter (fun e => e.entryId ≠ sourceOf p) := by
  cases p with
  | malformed entryId => rfl
  | row r =>
    have kept : (execFrom (noFaults r.entryId .pipeline) 0 s (rowCmds opts r)).pel = s.pel :=
      pel_execFrom (fun _ hc => rowCmds_sparesPel hc) 0 s
    simp only [pipeStep, pipelineCmds, sourceOf]
    rw [execFrom_append]
    simp only [execFrom, noFaults, apply, Bool.false_eq_true, if_false]
    rw [← kept]
    rfl

/-- Each prepared entry of a batch leaves the pending list. -/
theorem pel_foldl {step : Redis → Prepared → Redis}
    (acks : ∀ s p, (step s p).pel = s.pel.filter (fun e => e.entryId ≠ sourceOf p))
    (ps : List Prepared) (s : Redis) :
    (ps.foldl step s).pel = s.pel.filter (fun e => e.entryId ∉ ps.map sourceOf) := by
  induction ps generalizing s with
  | nil => simp
  | cons p ps ih =>
    rw [List.foldl_cons, ih, acks, List.filter_filter]
    apply List.filter_congr
    intro e _
    simp only [List.map_cons, List.mem_cons, not_or, Bool.decide_and, Bool.and_comm]

theorem filter_head {front back : List Entry}
    (distinct : ((front ++ back).map Entry.entryId).Nodup) :
    (front ++ back).filter (fun e => e.entryId ∉ front.map Entry.entryId) = back := by
  rw [List.map_append, List.nodup_append] at distinct
  rw [List.filter_append]
  have none : front.filter (fun e => e.entryId ∉ front.map Entry.entryId) = [] := by
    apply List.filter_eq_nil_iff.mpr
    intro e he
    simpa using ⟨e, he, rfl⟩
  have all : back.filter (fun e => e.entryId ∉ front.map Entry.entryId) = back := by
    apply List.filter_eq_self.mpr
    intro e he
    apply decide_eq_true
    intro h
    exact distinct.2.2 _ h _ (List.mem_map_of_mem he) rfl
  rw [none, all, List.nil_append]

theorem sources_reached (entries : List Entry) :
    (reached opts entries).map sourceOf = (beforeBad opts entries).map Entry.entryId := by
  induction entries with
  | nil => rfl
  | cons entry entries ih =>
    rw [reached, beforeBad, List.takeWhile_cons]
    cases hp : prepare opts entry with
    | none => rfl
    | some p =>
      simp only [Option.isSome_some, if_true, List.map_cons, sourceOf_prepare hp]
      rw [ih, beforeBad]

theorem pel_atomic (entries : List Entry) :
    (processBatchAtomic opts noFaults s 0 entries).1.pel =
      s.pel.filter (fun e => e.entryId ∉ (beforeBad opts entries).map Entry.entryId) := by
  rw [processBatchAtomic_fst, applyAll, pel_foldl (fun _ p => pel_applyPrepared p),
    sources_reached]

theorem mapM_isSome_iff (entries : List Entry) :
    (entries.mapM (prepare opts)).isSome = true ↔ Clean opts entries := by
  induction entries with
  | nil => simp [Clean]
  | cons entry entries ih =>
    rw [Clean, List.forall_mem_cons, ← Clean, ← ih, List.mapM_cons]
    cases prepare opts entry with
    | none => simp
    | some p =>
      cases entries.mapM (prepare opts) with
      | none => simp
      | some ps => simp

theorem source_of_mapM {entries : List Entry} {prepared : List Prepared}
    (h : entries.mapM (prepare opts) = some prepared) {p : Prepared} (mem : p ∈ prepared) :
    ∃ entry ∈ entries, prepare opts entry = some p := by
  induction entries generalizing prepared with
  | nil =>
    cases h
    cases mem
  | cons head entries ih =>
    rw [List.mapM_cons] at h
    simp only [Option.bind_eq_bind, Option.bind_eq_some_iff] at h
    obtain ⟨q, hq, rest, hrest, heq⟩ := h
    cases heq
    rcases List.mem_cons.mp mem with rfl | mem
    · exact ⟨head, List.mem_cons_self, hq⟩
    · obtain ⟨entry, hmem, hentry⟩ := ih hrest mem
      exact ⟨entry, List.mem_cons_of_mem _ hmem, hentry⟩

theorem pel_piped {entries : List Entry} (clean : Clean opts entries) :
    (processBatch opts noFaults s entries).1.pel =
      s.pel.filter (fun e => e.entryId ∉ entries.map Entry.entryId) := by
  obtain ⟨prepared, all⟩ := Option.isSome_iff_exists.mp ((mapM_isSome_iff entries).mpr clean)
  rw [processBatch_eq, all, Option.getD_some, pel_foldl (fun _ p => pel_pipeStep p),
    mapM_sources all]

theorem processBatch_of_thrown {entries : List Entry} (bad : ¬ Clean opts entries) :
    processBatch opts noFaults s entries = (s, none) := by
  rw [← mapM_isSome_iff, Option.not_isSome_iff_eq_none] at bad
  rw [processBatch, bad]

end Acked

section Call
variable {opts : ConsumerOptions} {s : Redis} {entries : List Entry}

theorem split_bad (entries : List Entry) :
    beforeBad opts entries ++ fromBad opts entries = entries :=
  List.takeWhile_append_dropWhile

section Batch
variable (distinct : (entries.map Entry.entryId).Nodup) (pending : ∀ entry ∈ entries, entry ∈ s.pel)

/-- The atomic writer leaves pending what it does not reach. -/
theorem pending_atomic_iff {r : Row} :
    Pending (processBatchAtomic opts noFaults s 0 entries).1 r ↔
      Pending s r ∧ r.entryId ∉ (beforeBad opts entries).map Entry.entryId := by
  rw [pending_iff, pending_iff, pel_atomic]
  constructor
  · intro still
    obtain ⟨e, he, hid⟩ := List.mem_map.mp still
    obtain ⟨kept, absent⟩ := List.mem_filter.mp he
    rw [← hid]
    exact ⟨List.mem_map_of_mem kept, of_decide_eq_true absent⟩
  · rintro ⟨still, absent⟩
    obtain ⟨e, he, hid⟩ := List.mem_map.mp still
    rw [← hid] at absent ⊢
    exact List.mem_map_of_mem (List.mem_filter.mpr ⟨he, decide_eq_true absent⟩)

include pending in
theorem pending_of_delivered {entry : Entry} (mem : entry ∈ entries) {r : Row}
    (row : prepare opts entry = some (.row r)) : Pending s r := by
  rw [pending_iff, (prepare_row row).1]
  exact List.mem_map_of_mem (pending entry mem)

include distinct pending in
/-- One call of the atomic writer isolates bad entries exactly when no
well-formed one stands behind the first of them. -/
theorem atomic_isolates_iff :
    AtomicIsolates opts s entries ↔ ¬ HasRow opts (fromBad opts entries) := by
  have parts := @split_bad opts entries
  constructor
  · rintro ⟨_, acked⟩ ⟨entry, mem, r, row⟩
    have inBatch : entry ∈ entries := parts ▸ List.mem_append_right _ mem
    apply acked r (mem_rowsIn.mpr ⟨entry, inBatch, row⟩)
    rw [pending_atomic_iff]
    refine ⟨pending_of_delivered pending inBatch row, fun front => ?_⟩
    rw [← parts, List.map_append, List.nodup_append] at distinct
    exact distinct.2.2 _ front _ (List.mem_map_of_mem mem) (prepare_row row).1
  · intro none
    have rows : rowsIn opts entries = rowsIn opts (beforeBad opts entries) := by
      have whole : rowsIn opts entries =
          rowsIn opts (beforeBad opts entries ++ fromBad opts entries) := by rw [parts]
      rw [whole, rowsIn_append, rowsIn_eq_nil none, List.append_nil]
    constructor
    · rw [processBatchAtomic_fst, rows, ← rowsOf_reached]
      exact sameData_applyAll s _
    · intro r hr
      rw [rows] at hr
      obtain ⟨entry, mem, row⟩ := mem_rowsIn.mp hr
      rw [pending_atomic_iff]
      rintro ⟨_, absent⟩
      rw [(prepare_row row).1] at absent
      exact absent (List.mem_map_of_mem mem)

include pending in
/-- The pipelined writer isolates bad entries only in a batch without any, or
without a well-formed one. -/
theorem piped_isolates_iff :
    PipedIsolates opts s entries ↔ Clean opts entries ∨ ¬ HasRow opts entries := by
  by_cases clean : Clean opts entries
  · refine iff_of_true ?_ (Or.inl clean)
    obtain ⟨prepared, all⟩ := Option.isSome_iff_exists.mp ((mapM_isSome_iff entries).mpr clean)
    constructor
    · rw [processBatch_eq, all, Option.getD_some, rowsIn, filterMap_of_mapM all]
      exact sameData_piped s prepared
    · intro r hr
      obtain ⟨entry, mem, row⟩ := mem_rowsIn.mp hr
      rw [pending_iff, pel_piped clean]
      intro still
      obtain ⟨e, he, hid⟩ := List.mem_map.mp still
      have absent := of_decide_eq_true (List.mem_filter.mp he).2
      apply absent
      rw [hid, (prepare_row row).1]
      exact List.mem_map_of_mem mem
  · rw [PipedIsolates, processBatch_of_thrown clean, or_iff_right clean]
    constructor
    · rintro ⟨_, acked⟩ ⟨entry, mem, r, row⟩
      exact acked r (mem_rowsIn.mpr ⟨entry, mem, row⟩) (pending_of_delivered pending mem row)
    · intro none
      rw [rowsIn_eq_nil none]
      exact ⟨SameData.refl s, fun r hr => absurd hr List.not_mem_nil⟩

end Batch

end Call

section Drain
variable {opts : ConsumerOptions} {s : Redis}

theorem count_pos : 0 < opts.count := lt_of_lt_of_le one_pos (le_max_left 1 _)

theorem drains_unique {fails : Faults} {s s' s'' : Redis} (h : Drains opts fails s s')
    (h' : Drains opts fails s s'') : s' = s'' := by
  induction h with
  | stop first =>
    cases h' with
    | stop second =>
      rw [first] at second
      exact congrArg Prod.fst second
    | again second _ =>
      rw [first] at second
      cases congrArg Prod.snd second
  | again first _ ih =>
    cases h' with
    | stop second =>
      rw [first] at second
      cases congrArg Prod.snd second
    | again second rest =>
      rw [first] at second
      cases second
      exact ih rest

theorem processed_atomic (s : Redis) (n : ℕ) (entries : List Entry) :
    (processBatchAtomic opts noFaults s n entries).2 =
      if (entries.mapM (prepare opts)).isSome then some (n + entries.length) else none := by
  induction entries generalizing s n with
  | nil => simp [processBatchAtomic]
  | cons entry entries ih =>
    rw [processBatchAtomic, List.mapM_cons]
    have more : n + 1 + entries.length = n + (entry :: entries).length := by
      rw [List.length_cons]
      omega
    cases prepare opts entry with
    | none => rfl
    | some p =>
      cases p with
      | malformed entryId =>
        simp only [ih, more]
        cases entries.mapM (prepare opts) <;> rfl
      | row r =>
        simp only [ih, more]
        cases entries.mapM (prepare opts) <;> rfl

theorem head_of_pel (distinct : (s.pel.map Entry.entryId).Nodup) :
    s.pel.filter (fun e => e.entryId ∉ (s.pel.take opts.count).map Entry.entryId) =
      s.pel.drop opts.count := by
  have parts := List.take_append_drop opts.count s.pel
  have kept := @filter_head (s.pel.take opts.count) (s.pel.drop opts.count)
    (by rw [parts]; exact distinct)
  rwa [parts] at kept

theorem distinct_drop (distinct : (s.pel.map Entry.entryId).Nodup) :
    ((s.pel.drop opts.count).map Entry.entryId).Nodup :=
  ((List.drop_sublist _ _).map _).nodup distinct

section Atomic
variable (atomic : useAtomic opts.format = true)
include atomic

theorem tick_atomic_clean (clean : Clean opts (s.pel.take opts.count))
    (distinct : (s.pel.map Entry.entryId).Nodup) :
    (tickPending opts noFaults s).1.pel = s.pel.drop opts.count ∧
      (tickPending opts noFaults s).2 = (s.pel.take opts.count).length := by
  have whole : beforeBad opts (s.pel.take opts.count) = s.pel.take opts.count :=
    List.takeWhile_eq_self_iff.mpr clean
  simp only [tickPending, processEntries, atomic, if_true]
  constructor
  · rw [pel_atomic, whole, head_of_pel distinct]
  · rw [processed_atomic, if_pos ((mapM_isSome_iff _).mpr clean), Option.getD_some, Nat.zero_add]

theorem tick_atomic_thrown (bad : ¬ Clean opts (s.pel.take opts.count))
    (distinct : (s.pel.map Entry.entryId).Nodup) :
    (tickPending opts noFaults s).1.pel = fromBad opts s.pel ∧
      (tickPending opts noFaults s).2 = 0 := by
  simp only [tickPending, processEntries, atomic, if_true]
  constructor
  · have front : beforeBad opts (s.pel.take opts.count) = beforeBad opts s.pel := by
      have shorter : (beforeBad opts (s.pel.take opts.count)).length ≠
          (s.pel.take opts.count).length := by
        intro same
        have kept : beforeBad opts (s.pel.take opts.count) <+: s.pel.take opts.count :=
          List.takeWhile_prefix _
        exact bad (List.takeWhile_eq_self_iff.mp (kept.eq_of_length same))
      have whole : beforeBad opts s.pel =
          beforeBad opts (s.pel.take opts.count ++ s.pel.drop opts.count) := by
        rw [List.take_append_drop]
      rw [whole, beforeBad, beforeBad, List.takeWhile_append]
      exact (if_neg shorter).symm
    have parts := @split_bad opts s.pel
    have kept := @filter_head (beforeBad opts s.pel) (fromBad opts s.pel)
      (by rw [parts]; exact distinct)
    rw [pel_atomic, front]
    rwa [parts] at kept
  · rw [processed_atomic, if_neg (mt (mapM_isSome_iff _).mp bad)]
    rfl

/-- The drain loop of the atomic writer stops at the first entry that throws. -/
theorem drains_atomic (distinct : (s.pel.map Entry.entryId).Nodup) :
    ∃ s', Drains opts noFaults s s' ∧ s'.pel = fromBad opts s.pel := by
  generalize hlen : s.pel.length = len
  induction len using Nat.strong_induction_on generalizing s with
  | _ len ih =>
    by_cases clean : Clean opts (s.pel.take opts.count)
    · obtain ⟨rest, number⟩ := tick_atomic_clean atomic clean distinct
      cases hn : (s.pel.take opts.count).length with
      | zero =>
        have empty : s.pel = [] := by
          rw [List.length_take] at hn
          apply List.length_eq_zero_iff.mp
          have positive := @count_pos opts
          omega
        refine ⟨_, .stop (Prod.ext rfl (number.trans hn)), ?_⟩
        rw [rest, empty, List.drop_nil]
        rfl
      | succ n =>
        have shorter : (tickPending opts noFaults s).1.pel.length < len := by
          rw [rest, List.length_drop]
          rw [List.length_take] at hn
          have positive := @count_pos opts
          omega
        obtain ⟨s', drains, left⟩ := ih _ shorter
          (by rw [rest]; exact distinct_drop distinct) rfl
        refine ⟨s', .again (Prod.ext rfl (number.trans hn)) drains, ?_⟩
        have parts : fromBad opts s.pel =
            fromBad opts (s.pel.take opts.count ++ s.pel.drop opts.count) := by
          rw [List.take_append_drop]
        rw [left, rest, parts, fromBad, fromBad, List.dropWhile_append_of_pos clean]
    · obtain ⟨rest, number⟩ := tick_atomic_thrown atomic clean distinct
      exact ⟨_, .stop (Prod.ext rfl number), rest⟩

end Atomic

section Piped
variable (piped : useAtomic opts.format = false)

theorem window_zero (pel : List Entry) : window opts 0 pel = pel.take opts.count := by
  rw [window, Nat.zero_mul, List.drop_zero]

theorem window_succ (k : ℕ) (pel : List Entry) :
    window opts (k + 1) pel = window opts k (pel.drop opts.count) := by
  rw [window, window, List.drop_drop, Nat.succ_mul, Nat.add_comm]

/-- Every pending entry is in a window. -/
theorem mem_window {pel : List Entry} {entry : Entry} (mem : entry ∈ pel) :
    ∃ k, entry ∈ window opts k pel := by
  obtain ⟨i, hi⟩ := List.mem_iff_getElem?.mp mem
  refine ⟨i / opts.count, List.mem_iff_getElem?.mpr ⟨i % opts.count, ?_⟩⟩
  have inside := Nat.mod_lt i (@count_pos opts)
  have place : i / opts.count * opts.count + i % opts.count = i := Nat.div_add_mod' i opts.count
  rw [window, List.getElem?_take, if_pos inside, List.getElem?_drop, place, hi]

theorem window_subset {k : ℕ} {pel : List Entry} {entry : Entry}
    (mem : entry ∈ window opts k pel) : entry ∈ pel :=
  List.mem_of_mem_drop (List.mem_of_mem_take mem)

/-- When the first window has a row and is clean, the rest decides. -/
theorem windowsDrain_step {pel : List Entry} (clean : Clean opts (pel.take opts.count))
    (row : HasRow opts (pel.take opts.count)) :
    WindowsDrain opts pel ↔ WindowsDrain opts (pel.drop opts.count) := by
  constructor
  · intro drains k hk j hj
    rw [← window_succ] at hk ⊢
    exact drains (k + 1) hk (j + 1) (by omega)
  · intro drains k hk j hj
    cases j with
    | zero =>
      rw [window_zero]
      exact ⟨clean, row⟩
    | succ j =>
      cases k with
      | zero => omega
      | succ k =>
        rw [window_succ] at hk ⊢
        exact drains k hk j (by omega)

/-- When the first window blocks the loop, no later one may have a row. -/
theorem windowsDrain_blocked {pel : List Entry}
    (blocked : ¬ (Clean opts (pel.take opts.count) ∧ HasRow opts (pel.take opts.count))) :
    WindowsDrain opts pel ↔ ¬ HasRow opts pel := by
  constructor
  · rintro drains ⟨entry, mem, row⟩
    obtain ⟨k, hk⟩ := @mem_window opts _ _ mem
    have first := drains k ⟨entry, hk, row⟩ 0 (Nat.zero_le k)
    rw [window_zero] at first
    exact blocked first
  · rintro none k ⟨entry, mem, row⟩
    exact absurd ⟨entry, window_subset mem, row⟩ none

include piped

theorem tick_piped_clean (clean : Clean opts (s.pel.take opts.count))
    (distinct : (s.pel.map Entry.entryId).Nodup) :
    (tickPending opts noFaults s).1.pel = s.pel.drop opts.count ∧
      ((tickPending opts noFaults s).2 = 0 ↔ ¬ HasRow opts (s.pel.take opts.count)) := by
  simp only [tickPending, processEntries, piped, Bool.false_eq_true, if_false]
  constructor
  · rw [pel_piped clean, head_of_pel distinct]
  · obtain ⟨prepared, all⟩ := Option.isSome_iff_exists.mp ((mapM_isSome_iff _).mpr clean)
    rw [processBatch, all]
    simp only [Option.getD_some, List.countP_eq_zero]
    constructor
    · rintro none ⟨entry, mem, r, row⟩
      exact none _ (mem_of_mapM all mem row) rfl
    · intro none p hp isRow
      obtain ⟨entry, mem, prepared⟩ := source_of_mapM all hp
      cases p with
      | malformed entryId => cases isRow
      | row r => exact none ⟨entry, mem, r, prepared⟩

theorem tick_piped_thrown (bad : ¬ Clean opts (s.pel.take opts.count)) :
    tickPending opts noFaults s = (s, 0) := by
  simp only [tickPending, processEntries, piped, Bool.false_eq_true, if_false]
  rw [processBatch_of_thrown bad]
  rfl

/-- The drain loop of the pipelined writer ends, and leaves no row pending
exactly when every window before one with a row is clean and has one too. -/
theorem drains_piped (distinct : (s.pel.map Entry.entryId).Nodup) :
    ∃ s', Drains opts noFaults s s' ∧ (¬ HasRow opts s'.pel ↔ WindowsDrain opts s.pel) := by
  generalize hlen : s.pel.length = len
  induction len using Nat.strong_induction_on generalizing s with
  | _ len ih =>
    by_cases clean : Clean opts (s.pel.take opts.count)
    · obtain ⟨rest, number⟩ := tick_piped_clean piped clean distinct
      by_cases row : HasRow opts (s.pel.take opts.count)
      · obtain ⟨n, hn⟩ := Nat.exists_eq_succ_of_ne_zero (mt number.mp (not_not.mpr row))
        have shorter : (tickPending opts noFaults s).1.pel.length < len := by
          obtain ⟨entry, mem, _⟩ := row
          have nonempty := List.length_pos_of_mem mem
          rw [List.length_take] at nonempty
          rw [rest, List.length_drop]
          omega
        obtain ⟨s', drains, left⟩ := ih _ shorter
          (by rw [rest]; exact distinct_drop distinct) rfl
        refine ⟨s', .again (Prod.ext rfl hn) drains, ?_⟩
        rw [left, rest, windowsDrain_step clean row]
      · refine ⟨_, .stop (Prod.ext rfl (number.mpr row)), ?_⟩
        rw [rest, windowsDrain_blocked (fun h => row h.2)]
        have parts := List.take_append_drop opts.count s.pel
        constructor
        · rintro none ⟨entry, mem, wellFormed⟩
          rw [← parts, List.mem_append] at mem
          exact mem.elim (fun h => row ⟨entry, h, wellFormed⟩)
            (fun h => none ⟨entry, h, wellFormed⟩)
        · rintro none ⟨entry, mem, wellFormed⟩
          exact none ⟨entry, List.mem_of_mem_drop mem, wellFormed⟩
    · refine ⟨s, .stop (tick_piped_thrown piped clean), ?_⟩
      rw [windowsDrain_blocked (fun h => clean h.1)]

end Piped

end Drain

section Samples

/-- A pending entry whose stream record has been trimmed. -/
def trimmed : Entry where
  entryId := ⟨"2-0", by decide⟩
  fields := none

def behindTrimmed : Redis := { Redis.empty with pel := [trimmed, fxTen] }

end Samples

end PoisonEntries
