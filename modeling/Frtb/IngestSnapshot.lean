import Frtb.BulkRunLifecycle
import Frtb.Library.AssocMaps
import Frtb.Library.HighWater

/-!
# The progress that snapshots report

`buildIngestSnapshot`: a poll sees some of the loader's replicas and all runs that are
listed. The rows a run has written are what the loader has flushed since the run started,
held up by two high-water marks, one of the loader and one of each run. Rates, memory and
the focused run are left out.
-/

namespace IngestSnapshot

open AssocMaps BulkRunLifecycle HighWater

section Source

/-- A listed run. Its total is a positive integer: the route that starts runs refuses any
other. -/
structure BulkRunSnapshotInput where
  runId : String
  status : Status
  rowsTotal : ℤ
  rowsSent : ℤ
  flushedAtStart : Option ℤ
  total_pos : 0 < rowsTotal

inductive RunPhase where
  | producing
  | writing
  | throttled
  | draining
  | complete
  | error
  | cancelled
deriving DecidableEq

structure SnapshotRun where
  runId : String
  status : Status
  rowsTotal : ℤ
  rowsSent : ℤ
  rowsWritten : ℤ
  phase : RunPhase
deriving DecidableEq

/-- What a poll sees: the flushed total and the state of the replicas that answered, and the
listed runs. -/
structure Poll where
  rawFlushed : ℤ
  throttled : Bool
  inFlight : ℤ
  records : List BulkRunSnapshotInput

/-- `loaderFlushedHighWater` and `runWrittenHighWater`. -/
structure Marks where
  loaderFlushed : ℤ
  runWritten : Assoc String ℤ

def computeRowsWritten (flushedTotal : ℤ) (flushedAtStart : Option ℤ) : ℤ :=
  match flushedAtStart with
  | none => 0
  | some start => max 0 (flushedTotal - start)

/-- The reported total, and the mark it leaves. -/
def trackLoaderFlushedTotal (mark raw : ℤ) (hasActiveRuns : Bool) : ℤ × ℤ :=
  if hasActiveRuns then
    let mark := if mark < raw then raw else mark
    (mark, mark)
  else (max 0 raw, 0)

def computeRunPhase (record : BulkRunSnapshotInput) (rowsWritten : ℤ) (poll : Poll) : RunPhase :=
  if record.status = .error then .error
  else if record.status = .cancelled then if 0 < poll.inFlight then .draining else .cancelled
  else if record.status = .done ∧ record.rowsTotal ≤ rowsWritten then .complete
  else if poll.throttled then .throttled
  else if record.rowsTotal ≤ record.rowsSent ∧ rowsWritten < record.rowsTotal then .writing
  else if rowsWritten < record.rowsTotal then .producing
  else .complete

def buildSnapshotRun (record : BulkRunSnapshotInput) (poll : Poll) (flushedTotal : ℤ) :
    SnapshotRun :=
  let rowsWritten :=
    min record.rowsTotal (computeRowsWritten flushedTotal record.flushedAtStart)
  ⟨record.runId, record.status, record.rowsTotal, record.rowsSent, rowsWritten,
    computeRunPhase record rowsWritten poll⟩

/-- The value of a run before its mark counts. -/
def stabilizeRaw (snap : SnapshotRun) : ℤ :=
  let total := if 0 < snap.rowsTotal then snap.rowsTotal else 0
  let sent := max 0 snap.rowsSent
  let written := if 0 ≤ snap.rowsWritten then snap.rowsWritten else 0
  let inWritingPhase := snap.phase = .writing ∨ snap.phase = .draining ∨ (0 < total ∧ total ≤ sent)
  let raw := if inWritingPhase then if 0 < written then written else sent else max sent written
  if 0 < total then min total raw else raw

def stabilizeRunRowsWritten (marks : Assoc String ℤ) (snap : SnapshotRun) : ℤ × Assoc String ℤ :=
  let prev := (marks.lookup snap.runId).getD 0
  let next := max prev (stabilizeRaw snap)
  (next, if snap.status ≠ .running then marks.erase snap.runId else marks.insert snap.runId next)

/-- The runs of a snapshot, one after the other. -/
def reportRuns (poll : Poll) (flushedTotal : ℤ) :
    List BulkRunSnapshotInput → Assoc String ℤ → List SnapshotRun × Assoc String ℤ
  | [], marks => ([], marks)
  | record :: rest, marks =>
    let snap := buildSnapshotRun record poll flushedTotal
    let written := stabilizeRunRowsWritten marks snap
    let others := reportRuns poll flushedTotal rest written.2
    ({ snap with rowsWritten := written.1 } :: others.1, others.2)

def buildIngestSnapshot (marks : Marks) (poll : Poll) : List SnapshotRun × Marks :=
  let flushed := trackLoaderFlushedTotal marks.loaderFlushed poll.rawFlushed (poll.records ≠ [])
  let runs := reportRuns poll flushed.1 poll.records marks.runWritten
  (runs.1, ⟨flushed.2, runs.2⟩)

/-- The snapshots of successive polls. -/
def snapshots : Marks → List Poll → List (List SnapshotRun)
  | _, [] => []
  | marks, poll :: rest =>
    let snapshot := buildIngestSnapshot marks poll
    snapshot.1 :: snapshots snapshot.2 rest

def noMarks : Marks := ⟨0, ∅⟩

end Source

section Spec

/-- What successive snapshots report of one run. -/
def series (id : String) (polls : List Poll) : List SnapshotRun :=
  (snapshots noMarks polls).filterMap fun runs => runs.find? fun run => run.runId = id

/-- What a poll finds of one run before any mark of the run counts. -/
def sightingsFrom (id : String) : ℤ → List Poll → List SnapshotRun
  | _, [] => []
  | mark, poll :: rest =>
    let flushed := trackLoaderFlushedTotal mark poll.rawFlushed (poll.records ≠ [])
    let own := poll.records.find? fun record => record.runId = id
    (own.map fun record => buildSnapshotRun record poll flushed.1).toList ++
      sightingsFrom id flushed.2 rest

def sightings (id : String) (polls : List Poll) : List SnapshotRun := sightingsFrom id 0 polls

def SnapshotRun.terminal (run : SnapshotRun) : Bool := run.status ≠ .running

/-- A history of polls: a poll lists a run once, a run keeps its total, and one that is no
longer running does not run again. -/
structure History where
  polls : List Poll
  once : ∀ poll ∈ polls, (poll.records.map BulkRunSnapshotInput.runId).Nodup
  totals : ∀ poll ∈ polls, ∀ poll' ∈ polls, ∀ record ∈ poll.records, ∀ record' ∈ poll'.records,
    record.runId = record'.runId → record.rowsTotal = record'.rowsTotal
  settled : polls.Pairwise fun poll poll' => ∀ record ∈ poll.records, ∀ record' ∈ poll'.records,
    record.runId = record'.runId → record.status ≠ .running → record'.status ≠ .running

/-- The progress reported of a run never falls, stays within the total, and is the total
where the run is reported complete. -/
structure Progress (reports : List SnapshotRun) : Prop where
  monotone : reports.Pairwise fun run run' => run.rowsWritten ≤ run'.rowsWritten
  bounded : ∀ run ∈ reports, run.rowsWritten ≤ run.rowsTotal
  complete : ∀ run ∈ reports, run.phase = .complete → run.rowsWritten = run.rowsTotal

end Spec

section Reports
variable {id : String} {poll : Poll} {flushedTotal : ℤ}

theorem lookup_stabilize_self (marks : Assoc String ℤ) (snap : SnapshotRun) :
    (stabilizeRunRowsWritten marks snap).2.lookup snap.runId =
      if snap.status ≠ .running then none
      else some (max ((marks.lookup snap.runId).getD 0) (stabilizeRaw snap)) := by
  rw [stabilizeRunRowsWritten]
  dsimp only
  by_cases stopped : snap.status ≠ .running
  · rw [if_pos stopped, if_pos stopped, AList.lookup_erase]
  · rw [if_neg stopped, if_neg stopped, AList.lookup_insert]

theorem lookup_stabilize_of_ne (marks : Assoc String ℤ) {snap : SnapshotRun}
    (other : id ≠ snap.runId) :
    (stabilizeRunRowsWritten marks snap).2.lookup id = marks.lookup id := by
  rw [stabilizeRunRowsWritten]
  dsimp only
  split
  · exact AList.lookup_erase_ne other
  · exact AList.lookup_insert_ne other

/-- A run's report, and the mark it leaves, depend on the mark of that run only. -/
theorem reportRuns_find {records : List BulkRunSnapshotInput}
    (once : (records.map BulkRunSnapshotInput.runId).Nodup) (marks : Assoc String ℤ) :
    let own := records.find? fun record => record.runId = id
    let next := fun record => max ((marks.lookup id).getD 0)
      (stabilizeRaw (buildSnapshotRun record poll flushedTotal))
    ((reportRuns poll flushedTotal records marks).1.find? fun run => run.runId = id) =
        own.map (fun record =>
          { buildSnapshotRun record poll flushedTotal with rowsWritten := next record }) ∧
      (reportRuns poll flushedTotal records marks).2.lookup id =
        match own with
        | none => marks.lookup id
        | some record => if record.status ≠ .running then none else some (next record) := by
  induction records generalizing marks with
  | nil => exact ⟨rfl, rfl⟩
  | cons record rest ih =>
    obtain ⟨fresh, once'⟩ := List.nodup_cons.mp once
    obtain ⟨found, left⟩ := ih once'
      (stabilizeRunRowsWritten marks (buildSnapshotRun record poll flushedTotal)).2
    by_cases own : record.runId = id
    · subst own
      have absent : rest.find? (fun other => other.runId = record.runId) = none := by
        rw [List.find?_eq_none]
        intro other mem same
        exact fresh (List.mem_map.mpr ⟨other, mem, of_decide_eq_true same⟩)
      dsimp only at left ⊢
      rw [absent] at left
      refine ⟨?_, ?_⟩
      · simp only [reportRuns, List.find?_cons, buildSnapshotRun, decide_true]
        rfl
      · simp only [reportRuns, List.find?_cons, decide_true]
        rw [left]
        exact lookup_stabilize_self marks (buildSnapshotRun record poll flushedTotal)
    · have kept := @lookup_stabilize_of_ne id marks (buildSnapshotRun record poll flushedTotal)
        (Ne.symm own)
      dsimp only at found left ⊢
      rw [kept] at found left
      have other : decide (record.runId = id) = false := decide_eq_false own
      refine ⟨?_, ?_⟩
      · simp only [reportRuns, List.find?_cons, buildSnapshotRun, other]
        exact found
      · simp only [reportRuns, List.find?_cons, other]
        exact left

/-- What is reported of a run is the high-water report of its sightings. -/
theorem series_eq_reported {polls : List Poll}
    (once : ∀ poll ∈ polls, (poll.records.map BulkRunSnapshotInput.runId).Nodup) (marks : Marks) :
    ((snapshots marks polls).filterMap fun runs => runs.find? fun run => run.runId = id) =
      (reported stabilizeRaw SnapshotRun.terminal 0 (marks.runWritten.lookup id)
        (sightingsFrom id marks.loaderFlushed polls)).map
          fun p => { p.1 with rowsWritten := p.2 } := by
  induction polls generalizing marks with
  | nil => rfl
  | cons poll rest ih =>
    obtain ⟨found, left⟩ := @reportRuns_find id poll (trackLoaderFlushedTotal marks.loaderFlushed
      poll.rawFlushed (poll.records ≠ [])).1 _ (once poll List.mem_cons_self) marks.runWritten
    have later := ih (fun poll' mem => once poll' (List.mem_cons_of_mem _ mem))
      (buildIngestSnapshot marks poll).2
    rw [snapshots, List.filterMap_cons]
    dsimp only [buildIngestSnapshot] at later found left ⊢
    rw [found, later, left, sightingsFrom]
    cases own : poll.records.find? fun record => record.runId = id with
    | none => rfl
    | some record =>
      simp only [Option.map_some, Option.toList_some, List.singleton_append, reported,
        List.map_cons]
      congr 3
      exact if_congr (decide_eq_true_iff (p := record.status ≠ .running)).symm rfl rfl

end Reports

section Bounds
variable {record : BulkRunSnapshotInput} {poll : Poll} {flushedTotal : ℤ}

theorem stabilizeRaw_nonneg (snap : SnapshotRun) : 0 ≤ stabilizeRaw snap := by
  unfold stabilizeRaw
  dsimp only
  split_ifs <;> omega

theorem stabilizeRaw_le {snap : SnapshotRun} (pos : 0 < snap.rowsTotal) :
    stabilizeRaw snap ≤ snap.rowsTotal := by
  simp only [stabilizeRaw, if_pos pos]
  exact min_le_left _ _

/-- A run that is reported complete has been written whole, before any mark counts. -/
theorem stabilizeRaw_complete
    (complete : (buildSnapshotRun record poll flushedTotal).phase = .complete) :
    stabilizeRaw (buildSnapshotRun record poll flushedTotal) = record.rowsTotal := by
  have pos := record.total_pos
  have whole : record.rowsTotal ≤
      min record.rowsTotal (computeRowsWritten flushedTotal record.flushedAtStart) := by
    simp only [buildSnapshotRun, computeRunPhase] at complete
    split_ifs at complete with _ _ _ done _ _ more
    · exact done.2
    · exact not_lt.mp more
  have written : (buildSnapshotRun record poll flushedTotal).rowsWritten = record.rowsTotal :=
    le_antisymm (min_le_left _ _) whole
  have total : (buildSnapshotRun record poll flushedTotal).rowsTotal = record.rowsTotal := rfl
  simp only [stabilizeRaw, written, total, if_pos pos, if_pos pos.le]
  split_ifs
  · exact min_self _
  · exact min_eq_left (le_max_right _ _)

end Bounds

section Histories
variable {id : String}

/-- Every sighting of a run is a record of it, in its turn. -/
theorem mem_sightingsFrom {polls : List Poll} {mark : ℤ} {snap : SnapshotRun}
    (mem : snap ∈ sightingsFrom id mark polls) :
    ∃ poll ∈ polls, ∃ record ∈ poll.records, ∃ flushedTotal, record.runId = id ∧
      snap = buildSnapshotRun record poll flushedTotal := by
  induction polls generalizing mark with
  | nil => cases mem
  | cons poll rest ih =>
    rw [sightingsFrom, List.mem_append, Option.mem_toList, Option.map_eq_some_iff] at mem
    rcases mem with ⟨record, found, rfl⟩ | mem
    · exact ⟨poll, List.mem_cons_self, record, List.mem_of_find?_eq_some found, _,
        by simpa using List.find?_some found, rfl⟩
    · obtain ⟨poll', mem', rest_⟩ := ih mem
      exact ⟨poll', List.mem_cons_of_mem _ mem', rest_⟩

theorem sightingsFrom_stays {polls : List Poll} (mark : ℤ)
    (settled : polls.Pairwise fun poll poll' => ∀ record ∈ poll.records, ∀ record' ∈ poll'.records,
      record.runId = record'.runId → record.status ≠ .running → record'.status ≠ .running) :
    (sightingsFrom id mark polls).Pairwise fun snap snap' =>
      snap.terminal = true → snap'.terminal = true := by
  induction polls generalizing mark with
  | nil => exact List.Pairwise.nil
  | cons poll rest ih =>
    obtain ⟨first, settled'⟩ := List.pairwise_cons.mp settled
    rw [sightingsFrom]
    cases found : poll.records.find? fun record => record.runId = id with
    | none => exact ih _ settled'
    | some record =>
      refine List.pairwise_cons.mpr ⟨fun snap mem closed => ?_, ih _ settled'⟩
      obtain ⟨poll', mem', record', listed, _, same, rfl⟩ := mem_sightingsFrom mem
      have own : record.runId = id := by simpa using List.find?_some found
      have stopped := first poll' mem' record (List.mem_of_find?_eq_some found) record' listed
        (own.trans same.symm) (of_decide_eq_true closed)
      exact decide_eq_true stopped

/-- A run's progress is reported soundly exactly when, after a poll has seen it no longer
running, no poll finds fewer rows for it than an earlier one. -/
theorem progress_iff (history : History) :
    (∀ id, Progress (series id history.polls)) ↔
      ∀ id, Settles stabilizeRaw SnapshotRun.terminal (sightings id history.polls) := by
  refine forall_congr' fun id => ?_
  have reports := @series_eq_reported id _ history.once noMarks
  have stays : (sightings id history.polls).Pairwise fun snap snap' =>
      snap.terminal = true → snap'.terminal = true := sightingsFrom_stays 0 history.settled
  have low : ∀ snap ∈ sightings id history.polls, 0 ≤ stabilizeRaw snap :=
    fun snap _ => stabilizeRaw_nonneg snap
  have order := reported_pairwise_iff stays low
  have total : ∀ p ∈ reported stabilizeRaw SnapshotRun.terminal 0 none
      (sightings id history.polls), p.2 ≤ p.1.rowsTotal ∧ 0 < p.1.rowsTotal := by
    intro p mem
    obtain ⟨poll, listed, record, own, _, same, snap⟩ :=
      mem_sightingsFrom (mem_of_mem_reported mem)
    have pos := record.total_pos
    rw [snap]
    have start : (none : Option ℤ).getD 0 ≤ record.rowsTotal := pos.le
    refine ⟨report_le start pos.le (fun other mem' => ?_) mem, pos⟩
    obtain ⟨poll', listed', record', own', _, same', rfl⟩ := mem_sightingsFrom mem'
    rw [history.totals poll listed poll' listed' record own record' own' (same.trans same'.symm)]
    exact stabilizeRaw_le record'.total_pos
  have sorted : (series id history.polls).Pairwise (fun run run' =>
      run.rowsWritten ≤ run'.rowsWritten) ↔
        Settles stabilizeRaw SnapshotRun.terminal (sightings id history.polls) := by
    rw [← order]
    change ((snapshots noMarks history.polls).filterMap _).Pairwise _ ↔ _
    rw [reports, List.pairwise_map]
    rfl
  have report : ∀ run ∈ series id history.polls, ∃ p ∈ reported stabilizeRaw
      SnapshotRun.terminal 0 none (sightings id history.polls),
        run = { p.1 with rowsWritten := p.2 } := by
    intro run mem
    change run ∈ (snapshots noMarks history.polls).filterMap _ at mem
    rw [reports] at mem
    obtain ⟨p, there, rfl⟩ := List.mem_map.mp mem
    exact ⟨p, there, rfl⟩
  constructor
  · intro progress
    exact sorted.mp progress.monotone
  · intro settles
    refine ⟨sorted.mpr settles, fun run mem => ?_, fun run mem complete => ?_⟩
    · obtain ⟨p, there, rfl⟩ := report run mem
      exact (total p there).1
    · obtain ⟨p, there, rfl⟩ := report run mem
      obtain ⟨poll, _, record, _, _, _, snap⟩ := mem_sightingsFrom (mem_of_mem_reported there)
      have whole : stabilizeRaw p.1 = p.1.rowsTotal := by
        rw [snap] at complete ⊢
        exact stabilizeRaw_complete complete
      exact le_antisymm (total p there).1 (whole ▸ value_le_report there)

/-- A run of a hundred rows, with ten of them flushed at each poll: 99 are sent when it is first
seen, and it is done at the next two polls. -/
def fallingHistory : History where
  polls :=
    [⟨10, false, 0, [⟨"01RUN", .running, 100, 99, some 0, by decide⟩]⟩,
      ⟨10, false, 0, [⟨"01RUN", .done, 100, 100, some 0, by decide⟩]⟩,
      ⟨10, false, 0, [⟨"01RUN", .done, 100, 100, some 0, by decide⟩]⟩]
  once := by decide
  totals := by decide
  settled := by decide

/-- The mark that held the report up at 99 is gone at the third poll. -/
theorem progress_falls : ¬∀ id, Progress (series id fallingHistory.polls) := by
  intro all
  have reports : (series "01RUN" fallingHistory.polls).map SnapshotRun.rowsWritten =
      [99, 99, 10] := by
    decide +kernel
  have sorted := List.pairwise_map.mpr (all "01RUN").monotone
  rw [reports] at sorted
  exact absurd sorted (by decide)

end Histories

end IngestSnapshot
