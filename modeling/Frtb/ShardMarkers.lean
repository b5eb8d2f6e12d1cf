import Frtb.BatchRuns
import Frtb.StreamRouter

/-!
# Processed markers across the shard streams

The producer routes a row by its `_id`, a stream hands out the entry id, and a consumer of that
stream keys the marker of the entry by class, bucket and entry id. An entry id is unique in its
own stream only, so two rows of one bucket on two streams can share a marker, and the one that
comes second is taken for a replay.
-/

namespace ShardMarkers

open AssocMaps JsonText EnrichDoc RollupKeys RedisStore StorageWriter RollupDelta BatchWriters
open RollupContribution RowVersions AtomicDelivery BatchRuns StreamRouter

section Publishing

/-- A row of the generator; `payload` is the JSON text of its other members. -/
structure SensitivityRow where
  riskClass : String
  bucket : String
  hashTag : String
  id : String
  payload : String
deriving DecidableEq

def serializeRow (row : SensitivityRow) : List (String × String) :=
  [("risk_class", row.riskClass), ("bucket", row.bucket), ("_hash_tag", row.hashTag),
    ("_id", row.id), ("payload", row.payload)]

/-- A row on the stream that it was routed to, under the id that the stream gave it. -/
structure Published where
  row : SensitivityRow
  entryId : EntryId
deriving DecidableEq

def Published.entry (p : Published) : Entry := ⟨p.entryId, some (serializeRow p.row)⟩

/-- `routeRow` with a router. -/
def routeRow (route : String → String) (row : SensitivityRow) : String := route row.id

/-- No stream hands out an id twice. -/
def Assigned (route : String → String) (ps : List Published) : Prop :=
  (ps.map fun p => (routeRow route p.row, p.entryId)).Nodup

/-- The row that a consumer makes of an entry. -/
def preparedRow (opts : ConsumerOptions) (p : Published) : Option Row :=
  match prepare opts p.entry with
  | some (.row r) => some r
  | _ => none

/-- The marker that Phase 2 checks for an entry. -/
def markerOf (opts : ConsumerOptions) (p : Published) : Option String :=
  (preparedRow opts p).bind fun r => (rowTags r.doc).map fun tags => markerKeyOf tags r

/-- The tags of the document that a row becomes. -/
def tagsOf (opts : ConsumerOptions) (row : SensitivityRow) : Option RowTags :=
  (routedId (ofPairs (serializeRow row))).bind fun _ =>
    (buildDoc (ofPairs (serializeRow row))).bind fun doc => rowTags (enrichDoc doc opts.schema)

theorem markerOf_eq (opts : ConsumerOptions) (p : Published) :
    markerOf opts p = (tagsOf opts p.row).map fun tags =>
      processedMarkerKey tags.riskClass tags.bucket p.entryId := by
  simp only [markerOf, preparedRow, prepare, tagsOf, Published.entry, Option.bind_eq_bind,
    Option.bind_some]
  cases routedId (ofPairs (serializeRow p.row)) with
  | none => rfl
  | some id =>
    cases buildDoc (ofPairs (serializeRow p.row)) with
    | none => rfl
    | some doc => rfl

/-- Two published entries with one marker are one entry. -/
def MarkersUnique (opts : ConsumerOptions) (ps : List Published) : Prop :=
  ∀ p ∈ ps, ∀ p' ∈ ps, ∀ m, markerOf opts p = some m → markerOf opts p' = some m → p = p'

end Publishing

section Consumers

/-- Where a consumer stands with the entry it handles. -/
inductive Work where
  | idle
  | wrote (p : Published) (r : Row) (oldHash : Hash)
  | rolled (p : Published) (r : Row)

/-- The store that all consumers share, the pending entries of each stream, the work of each
consumer, and the entries whose Phase 2 has been committed. -/
structure Shards where
  store : Redis
  pels : String → List Entry
  work : ℕ → Work
  counted : List Published

/-- A consumer reads an entry and commits Phase 1, commits Phase 2, sends the tail, or dies and
leaves its entry to be delivered again. -/
inductive Event where
  | deliver (c : ℕ) (p : Published)
  | rollUp (c : ℕ)
  | tail (c : ℕ)
  | crash (c : ℕ)

def Event.delivers (ps : List Published) : Event → Prop
  | .deliver _ p => p ∈ ps
  | _ => True

def step (opts : ConsumerOptions) (route : String → String) (s : Shards) : Event → Shards
  | .deliver c p =>
    match s.work c, preparedRow opts p with
    | .idle, some r =>
      { s with
        store := runPhase1 opts noFaults s.store r
        work := Function.update s.work c (.wrote p r (s.store.hashes r.key)) }
    | _, _ => s
  | .rollUp c =>
    match s.work c with
    | .wrote p r oldHash =>
      { s with
        store := runPhase2 opts noFaults oldHash s.store r
        work := Function.update s.work c (.rolled p r)
        counted := p :: s.counted }
    | _ => s
  | .tail c =>
    match s.work c with
    | .rolled p r =>
      let stream := routeRow route p.row
      let done := runTail opts noFaults { s.store with pel := s.pels stream } r
      { s with
        store := done
        pels := Function.update s.pels stream done.pel
        work := Function.update s.work c .idle }
    | _ => s
  | .crash c => { s with work := Function.update s.work c .idle }

def run (opts : ConsumerOptions) (route : String → String) (s : Shards) (events : List Event) :
    Shards :=
  events.foldl (step opts route) s

/-- Nothing has been delivered. -/
structure Fresh (s : Shards) : Prop where
  unmarked : s.store.markers = ∅
  idle : ∀ c, s.work c = .idle
  uncounted : s.counted = []

/-- In every run Phase 2 takes an entry for a replay when it has counted it before, and adds its
increments when it has not. -/
def CountsOnce (opts : ConsumerOptions) (route : String → String) (ps : List Published) : Prop :=
  ∀ s₀, Fresh s₀ → ∀ events : List Event, (∀ e ∈ events, e.delivers ps) →
    ∀ c p r oldHash, (run opts route s₀ events).work c = .wrote p r oldHash →
      rowTags r.doc ≠ none → ∀ key field,
        (run opts route s₀ (events ++ [Event.rollUp c])).store.rollups key field =
          (run opts route s₀ events).store.rollups key field +
            if p ∈ (run opts route s₀ events).counted then 0
            else rollupIncrements oldHash r.doc key field

end Consumers

section Run
variable {opts : ConsumerOptions} {route : String → String} {ps : List Published} {s : Shards}

/-- The markers are those of the counted entries. -/
structure Inv (opts : ConsumerOptions) (ps : List Published) (s : Shards) : Prop where
  counted : ∀ p ∈ s.counted, p ∈ ps
  marked : ∀ m, m ∈ s.store.markers ↔ ∃ p ∈ s.counted, markerOf opts p = some m
  working : ∀ c p r oldHash, s.work c = .wrote p r oldHash → p ∈ ps ∧ preparedRow opts p = some r

theorem inv_fresh (fresh : Fresh s) : Inv opts ps s where
  counted := by
    rw [fresh.uncounted]
    nofun
  marked := by
    intro m
    rw [fresh.unmarked, fresh.uncounted]
    simp
  working := by
    intro c p r oldHash busy
    rw [fresh.idle] at busy
    cases busy

theorem working_update {c : ℕ} {w : Work} (inv : Inv opts ps s)
    (new : ∀ p r oldHash, w = .wrote p r oldHash → p ∈ ps ∧ preparedRow opts p = some r) :
    ∀ c' p r oldHash, Function.update s.work c w c' = .wrote p r oldHash →
      p ∈ ps ∧ preparedRow opts p = some r := by
  intro c' p r oldHash busy
  by_cases same : c' = c
  · rw [same, Function.update_self] at busy
    exact new p r oldHash busy
  · rw [Function.update_of_ne same] at busy
    exact inv.working c' p r oldHash busy

theorem markers_rollUp (off : opts.liveTailMode = false) (store : Redis) (oldHash : Hash)
    {p : Published} {r : Row} (prepared : preparedRow opts p = some r) (m : String) :
    m ∈ (runPhase2 opts noFaults oldHash store r).markers ↔
      m ∈ store.markers ∨ markerOf opts p = some m := by
  rw [markerOf, prepared, Option.bind_some]
  cases tagged : rowTags r.doc with
  | none =>
    have none_ : phase2Cmds opts oldHash store.markers r = [] := by
      simp only [phase2Cmds, tagged, ite_self]
    rw [runPhase2_noFaults, none_]
    simp
  | some tags =>
    rw [markers_runPhase2 off oldHash tagged, Finset.mem_insert, Option.map_some,
      Option.some.injEq]
    exact or_comm.trans (or_congr Iff.rfl eq_comm)

theorem inv_step (off : opts.liveTailMode = false) (inv : Inv opts ps s) {e : Event}
    (known : e.delivers ps) : Inv opts ps (step opts route s e) := by
  cases e with
  | deliver c p =>
    simp only [step]
    split
    · rename_i r free prepared
      refine ⟨inv.counted, ?_, working_update inv ?_⟩
      · intro m
        rw [markers_runPhase1]
        exact inv.marked m
      · rintro _ _ _ ⟨⟩
        exact ⟨known, prepared⟩
    · exact inv
  | rollUp c =>
    simp only [step]
    split
    · rename_i p r oldHash busy
      obtain ⟨mem, prepared⟩ := inv.working c p r oldHash busy
      refine ⟨List.forall_mem_cons.mpr ⟨mem, inv.counted⟩, ?_, working_update inv nofun⟩
      intro m
      rw [markers_rollUp off s.store oldHash prepared, inv.marked, List.exists_mem_cons_iff]
      exact or_comm
    · exact inv
  | tail c =>
    simp only [step]
    split
    · rename_i p r busy
      refine ⟨inv.counted, ?_, working_update inv nofun⟩
      intro m
      rw [markers_runTail]
      exact inv.marked m
    · exact inv
  | crash c => exact ⟨inv.counted, inv.marked, working_update inv nofun⟩

theorem inv_run (off : opts.liveTailMode = false) {events : List Event} (inv : Inv opts ps s)
    (known : ∀ e ∈ events, e.delivers ps) : Inv opts ps (run opts route s events) := by
  induction events generalizing s with
  | nil => exact inv
  | cons e events ih =>
    obtain ⟨first, rest⟩ := List.forall_mem_cons.mp known
    exact ih (inv_step off inv first) rest

/-- Phase 2 reads the marker of its entry. -/
theorem rollups_rollUp (off : opts.liveTailMode = false) {c : ℕ} {p : Published} {r : Row}
    {oldHash : Hash} (inv : Inv opts ps s) (busy : s.work c = .wrote p r oldHash) {tags : RowTags}
    (tagged : rowTags r.doc = some tags) (key field : String) :
    (step opts route s (.rollUp c)).store.rollups key field = s.store.rollups key field +
      if ∃ p' ∈ s.counted, markerOf opts p' = markerOf opts p then 0
      else rollupIncrements oldHash r.doc key field := by
  obtain ⟨-, prepared⟩ := inv.working c p r oldHash busy
  have own : markerOf opts p = some (markerKeyOf tags r) := by
    rw [markerOf, prepared, Option.bind_some, tagged, Option.map_some]
  have seen := inv.marked (markerKeyOf tags r)
  rw [← own] at seen
  simp only [step, busy]
  by_cases marked : markerKeyOf tags r ∈ s.store.markers
  · rw [if_pos (seen.mp marked), add_zero, rollups_runPhase2_of_marked oldHash tagged marked]
  · rw [if_neg fun again => marked (seen.mpr again)]
    refine rollups_runPhase2 off oldHash (fun tags' tagged' => ?_) key field
    rw [tagged, Option.some.injEq] at tagged'
    rwa [← tagged']

/-- With markers of their own, entries are counted once each. -/
theorem countsOnce_of_unique (off : opts.liveTailMode = false) (unique : MarkersUnique opts ps) :
    CountsOnce opts route ps := by
  intro s₀ fresh events known c p r oldHash busy tagged key field
  obtain ⟨tags, tagged⟩ := Option.ne_none_iff_exists'.mp tagged
  have start : Inv opts ps s₀ := inv_fresh fresh
  have inv : Inv opts ps (run opts route s₀ events) := inv_run off start known
  obtain ⟨mem, prepared⟩ := inv.working c p r oldHash busy
  have own : markerOf opts p = some (markerKeyOf tags r) := by
    rw [markerOf, prepared, Option.bind_some, tagged, Option.map_some]
  have same : (∃ p' ∈ (run opts route s₀ events).counted, markerOf opts p' = markerOf opts p) ↔
      p ∈ (run opts route s₀ events).counted := by
    constructor
    · rintro ⟨p', done, marker⟩
      rwa [unique p mem p' (inv.counted p' done) _ own (marker.trans own)]
    · exact fun done => ⟨p, done, rfl⟩
  have last : run opts route s₀ (events ++ [Event.rollUp c]) =
      step opts route (run opts route s₀ events) (.rollUp c) := by
    rw [run, List.foldl_append]
    rfl
  rw [last, rollups_rollUp off inv busy tagged]
  simp only [same]

end Run

section Shards
variable {opts : ConsumerOptions} {route : String → String} {rows : Set SensitivityRow}

/-- Rows whose class and bucket read alike in a key are routed to one stream. -/
def OneStreamPerTag (opts : ConsumerOptions) (route : String → String)
    (rows : Set SensitivityRow) : Prop :=
  ∀ row ∈ rows, ∀ row' ∈ rows, ∀ tags tags', tagsOf opts row = some tags →
    tagsOf opts row' = some tags' →
      buildHashTag tags.riskClass tags.bucket = buildHashTag tags'.riskClass tags'.bucket →
        routeRow route row = routeRow route row'

theorem processedMarkerKey_eq (rc bkt : String) (id : EntryId) :
    processedMarkerKey rc bkt id = "processed:" ++ buildHashTag rc bkt ++ ":" ++ id.text := by
  delta processedMarkerKey buildHashTag
  simp only [String.append_assoc]

theorem markersUnique_of_oneStream (oneStream : OneStreamPerTag opts route rows)
    {ps : List Published} (known : ∀ p ∈ ps, p.row ∈ rows) (assigned : Assigned route ps) :
    MarkersUnique opts ps := by
  intro p mem p' mem' m marker marker'
  rw [markerOf_eq, Option.map_eq_some_iff] at marker marker'
  obtain ⟨tags, tagged, rfl⟩ := marker
  obtain ⟨tags', tagged', same⟩ := marker'
  have id : p'.entryId = p.entryId := processedMarkerKey_inj same
  have tag : buildHashTag tags.riskClass tags.bucket =
      buildHashTag tags'.riskClass tags'.bucket := by
    rw [processedMarkerKey_eq, processedMarkerKey_eq, id] at same
    have texts := congrArg String.toList same
    simp only [String.toList_append, List.append_cancel_right_eq,
      List.append_cancel_left_eq] at texts
    exact (String.toList_injective texts).symm
  have stream := oneStream p.row (known p mem) p'.row (known p' mem') tags tags' tagged tagged' tag
  exact List.inj_on_of_nodup_map assigned mem mem' (Prod.ext stream id.symm)

theorem firstId_noColon : DelimitedNames.Free ':' "1-0" := by decide

/-- The first id of a stream in one millisecond. -/
def firstId : EntryId := ⟨"1-0", firstId_noColon⟩

def secondId : EntryId := ⟨"1-1", by decide⟩

/-- Two rows of one tag on two streams can be given one id. -/
theorem oneStream_of_markersUnique
    (unique : ∀ ps, (∀ p ∈ ps, p.row ∈ rows) → Assigned route ps → MarkersUnique opts ps) :
    OneStreamPerTag opts route rows := by
  intro row mem row' mem' tags tags' tagged tagged' tag
  by_contra apart
  have known : ∀ p ∈ [Published.mk row firstId, ⟨row', firstId⟩], p.row ∈ rows := by
    rintro p (⟨⟩ | ⟨-, ⟨⟩ | ⟨-, ⟨⟩⟩⟩)
    · exact mem
    · exact mem'
  have assigned : Assigned route [⟨row, firstId⟩, ⟨row', firstId⟩] := by
    simp only [Assigned, List.map_cons, List.map_nil, List.nodup_cons, List.mem_singleton,
      Prod.mk.injEq, and_true, List.not_mem_nil, not_false_eq_true, List.nodup_nil]
    exact apart
  have marker : markerOf opts ⟨row, firstId⟩ = markerOf opts ⟨row', firstId⟩ := by
    rw [markerOf_eq, markerOf_eq, tagged, tagged', Option.map_some, Option.map_some,
      processedMarkerKey_eq, processedMarkerKey_eq, tag]
  have own : markerOf opts ⟨row, firstId⟩ =
      some (processedMarkerKey tags.riskClass tags.bucket firstId) := by
    rw [markerOf_eq, tagged, Option.map_some]
  have same := unique _ known assigned ⟨row, firstId⟩ (by simp) ⟨row', firstId⟩ (by simp) _ own
    (marker.symm.trans own)
  exact apart (congrArg (fun p => routeRow route p.row) same)

/-- Markers tell all entries apart, and every run counts each of them once, exactly when the rows
of one tag share a stream; on a single stream they always do. -/
theorem markers_unique_iff (baseStream : String) (n : ℕ)
    (sharded : createStreamRouter baseStream (.shards n) = some route)
    (off : opts.liveTailMode = false) (rows : Set SensitivityRow) :
    ((∀ ps, (∀ p ∈ ps, p.row ∈ rows) → Assigned route ps →
        MarkersUnique opts ps ∧ CountsOnce opts route ps) ↔
      OneStreamPerTag opts route rows) ∧
    (n = 1 → OneStreamPerTag opts route rows) := by
  refine ⟨⟨fun law => ?_, fun oneStream ps known assigned => ?_⟩, fun single => ?_⟩
  · exact oneStream_of_markersUnique fun ps known assigned => (law ps known assigned).1
  · have unique := markersUnique_of_oneStream oneStream known assigned
    exact ⟨unique, countsOnce_of_unique off unique⟩
  · subst single
    cases sharded
    intro _ _ _ _ _ _ _ _ _
    rfl

/-- A Delta row of one FX bucket. -/
def fxRow (id : String) (spot : String) : SensitivityRow where
  riskClass := "FX"
  bucket := "EURUSD"
  hashTag := "FX:EURUSD"
  id := id
  payload := "\x7b\"sensitivity_type\":\"Delta\",\"risk_value\":\x7b\"spot\":" ++ spot ++
    "\x7d\x7d"

def twoShards (hashTag : String) : String :=
  "sensitivities:in" ++ ":\x7b" ++ toString ((hashFnv1a32 hashTag).toNat % 2) ++ "\x7d"

theorem markers_unique_shared :
    MarkersUnique atomicOptions [⟨fxRow "F1" "10", firstId⟩, ⟨fxRow "F3" "20", secondId⟩] ∧
    CountsOnce atomicOptions twoShards
      [⟨fxRow "F1" "10", firstId⟩, ⟨fxRow "F3" "20", secondId⟩] := by
  refine ((markers_unique_iff "sensitivities:in" 2 rfl rfl {fxRow "F1" "10", fxRow "F3" "20"}).1.mpr
    ?_) _ ?_ (by unfold Assigned; decide +kernel)
  · have stream : routeRow twoShards (fxRow "F1" "10") = routeRow twoShards (fxRow "F3" "20") := by
      decide +kernel
    rintro _ (rfl | rfl) _ (rfl | rfl) _ _ _ _ _
    · rfl
    · exact stream
    · exact stream.symm
    · rfl
  · rintro p (⟨⟩ | ⟨-, ⟨⟩ | ⟨-, ⟨⟩⟩⟩)
    · exact .inl rfl
    · exact .inr rfl

/-- Nothing stored and nothing delivered. -/
def emptyShards : Shards := ⟨Redis.empty, fun _ => [], fun _ => .idle, []⟩

def first : Published := ⟨fxRow "F1" "10", firstId⟩

def second : Published := ⟨fxRow "F2" "20", firstId⟩

/-- Two rows of one bucket on two shards under the id `1-0`: both are counted, the second one as
a replay, so that the bucket keeps the sum and the count of the first. -/
theorem markers_collide :
    Assigned twoShards [first, second] ∧ ¬ MarkersUnique atomicOptions [first, second] ∧
    (let final := run atomicOptions twoShards emptyShards
      [.deliver 0 first, .rollUp 0, .tail 0, .deliver 1 second, .rollUp 1, .tail 1]
    final.counted = [second, first] ∧ final.store.rollups "rollup:FX:EURUSD:Delta" "count" = 1 ∧
      final.store.rollups "rollup:FX:EURUSD:Delta" "sum_ws" = 2) := by
  refine ⟨by unfold Assigned; decide +kernel, fun unique => ?_, by decide +kernel, by
    decide +kernel,
    by decide +kernel⟩
  have same := unique first (by simp) second (by simp) "processed:FX:EURUSD:1-0"
    (by decide +kernel) (by decide +kernel)
  exact absurd same (by decide +kernel)

end Shards

end ShardMarkers
