import Frtb.BatchRuns
import Frtb.CrashReplay

/-!
# Acknowledgements and failing commands

Replies carry an error per command. Neither writer reads them before it
acknowledges, and the acknowledgement is a command of its own: an entry stays
pending exactly when that command fails too.
-/

namespace AckSafety

open JsonText RollupKeys RedisStore StorageWriter RollupDelta BatchWriters AtomicDelivery BatchRuns
open CrashReplay

/-- A write of a document, a rollup increment, a seen-set member or a marker. -/
def IsDataWrite : Cmd → Bool
  | .probe _ => false
  | .sugadd _ _ => false
  | .xack _ => false
  | _ => true

/-- No data write of the command list replies with an error. -/
def Succeeds (fails : ℕ → Bool) (cmds : List Cmd) : Prop :=
  ∀ i c, cmds[i]? = some c → IsDataWrite c = true → fails i = false

/-- One call: the store it finds, the commands that fail, and the entries of its reply. -/
structure Call where
  store : Redis
  fails : Faults
  entries : List Entry

/-- The row's marker is set, so that the delivery increments nothing. -/
def Replays (opts : ConsumerOptions) (fails : Faults) (s : Redis) (r : Row) : Prop :=
  opts.liveTailMode = false ∧ ∃ tags, rowTags r.doc = some tags ∧
    markerKeyOf tags r ∈ (runPhase1 opts fails s r).markers

/-- The delivery carries the row's rollup writes and its marker, and none of them fails. -/
def PaysRollups (opts : ConsumerOptions) (fails : Faults) (s : Redis) (r : Row) : Prop :=
  ¬ Replays opts fails s r ∧
    Succeeds (fails r.entryId .phase2)
      (phase2Cmds opts (s.hashes r.key) (runPhase1 opts fails s r).markers r)

/-- Every data write of a row has succeeded when a delivery ends: those of the rollups in this
delivery or, when it finds the marker, in an earlier one. -/
structure Applied (opts : ConsumerOptions) (fails : Faults) (paid : EntryId → Prop) (s : Redis)
    (r : Row) : Prop where
  document : Succeeds (fails r.entryId .phase1) (phase1Cmds opts r)
  rollups : PaysRollups opts fails s r ∨ Replays opts fails s r ∧ paid r.entryId
  seen : Succeeds (fails r.entryId .tail) (tailSadds opts r)

def AckFails (opts : ConsumerOptions) (fails : Faults) (r : Row) : Prop :=
  fails r.entryId .tail (tailSadds opts r).length = true

/-- Every data write that the pipeline carries for a row succeeds. -/
def AppliedPiped (opts : ConsumerOptions) (fails : Faults) (r : Row) : Prop :=
  Succeeds (fails r.entryId .pipeline) (rowCmds opts r)

def PipedAckFails (opts : ConsumerOptions) (fails : Faults) (r : Row) : Prop :=
  fails r.entryId .pipeline (rowCmds opts r).length = true

/-- A well-formed entry is left pending unless the call ends with all its data
writes done. -/
def AtomicAcksApplied (opts : ConsumerOptions) (paid : EntryId → Prop) (call : Call) : Prop :=
  ∀ entry ∈ call.entries, ∀ r, prepare opts entry = some (.row r) →
    Pending (processBatchAtomic opts call.fails call.store 0 call.entries).1 r ∨
      ∃ before after, reached opts call.entries = before ++ .row r :: after ∧
        Applied opts call.fails paid (applyAll opts call.fails call.store before) r

/-- No data write of a delivered row is missing without its XACK failing too. -/
def AtomicFaultsCoverAck (opts : ConsumerOptions) (paid : EntryId → Prop) (call : Call) : Prop :=
  ∀ before r after, reached opts call.entries = before ++ .row r :: after →
    Applied opts call.fails paid (applyAll opts call.fails call.store before) r ∨
      AckFails opts call.fails r

/-- The entries whose rollup writes have succeeded once the call is over. -/
def paidAfter (opts : ConsumerOptions) (paid : EntryId → Prop) (call : Call) : EntryId → Prop :=
  fun entryId => paid entryId ∨ ∃ before r after,
    reached opts call.entries = before ++ .row r :: after ∧ r.entryId = entryId ∧
      PaysRollups opts call.fails (applyAll opts call.fails call.store before) r

/-- A property of every call of a run, given what the calls before it have paid. -/
def Throughout (opts : ConsumerOptions) (holds : (EntryId → Prop) → Call → Prop) :
    (EntryId → Prop) → List Call → Prop
  | _, [] => True
  | paid, call :: calls => holds paid call ∧ Throughout opts holds (paidAfter opts paid call) calls

def PipedAcksApplied (opts : ConsumerOptions) (call : Call) : Prop :=
  ∀ entry ∈ call.entries, ∀ r, prepare opts entry = some (.row r) →
    Pending (processBatch opts call.fails call.store call.entries).1 r ∨
      ((call.entries.mapM (prepare opts)).isSome ∧ AppliedPiped opts call.fails r)

def PipedFaultsCoverAck (opts : ConsumerOptions) (call : Call) : Prop :=
  (call.entries.mapM (prepare opts)).isSome →
    ∀ entry ∈ call.entries, ∀ r, prepare opts entry = some (.row r) →
      AppliedPiped opts call.fails r ∨ PipedAckFails opts call.fails r

/-- The reply lists pending entries, each once. -/
structure Deliverable (call : Call) : Prop where
  distinct : (call.entries.map Entry.entryId).Nodup
  pending : ∀ entry ∈ call.entries, entry ∈ call.store.pel

section Acknowledged
variable {fails : ℕ → Bool} {s : Redis} {r : Row}

theorem execFrom_append (i : ℕ) (s : Redis) (cs ds : List Cmd) :
    execFrom fails i s (cs ++ ds) = execFrom fails (i + cs.length) (execFrom fails i s cs) ds := by
  induction cs generalizing i s with
  | nil => rfl
  | cons c cs ih =>
    rw [List.cons_append, execFrom, execFrom, ih, List.length_cons]
    congr 1
    omega

theorem pending_of_pel_eq {s' : Redis} (h : s'.pel = s.pel) : Pending s' r ↔ Pending s r := by
  rw [Pending, h, Pending]

theorem pending_xack (entryId : EntryId) :
    Pending (apply s (.xack entryId)) r ↔ Pending s r ∧ r.entryId ≠ entryId := by
  constructor
  · rintro ⟨e, he, hid⟩
    obtain ⟨hmem, hne⟩ := List.mem_filter.mp he
    exact ⟨⟨e, hmem, hid⟩, hid ▸ of_decide_eq_true hne⟩
  · rintro ⟨⟨e, he, hid⟩, hne⟩
    exact ⟨e, List.mem_filter.mpr ⟨he, decide_eq_true (hid ▸ hne)⟩, hid⟩

/-- A command list that ends in an XACK leaves its entry pending exactly when
the XACK fails, and other entries as they were. -/
theorem pending_execFrom_xack {cmds : List Cmd} (spare : ∀ c ∈ cmds, c.sparesPel)
    (entryId : EntryId) :
    Pending (execFrom fails 0 s (cmds ++ [Cmd.xack entryId])) r ↔
      Pending s r ∧ (r.entryId = entryId → fails cmds.length = true) := by
  have kept : Pending (execFrom fails 0 s cmds) r ↔ Pending s r :=
    pending_of_pel_eq (pel_execFrom spare 0 s)
  rw [execFrom_append, Nat.zero_add, execFrom, execFrom]
  by_cases hfail : fails cmds.length = true
  · rw [if_pos hfail, kept]
    exact ⟨fun h => ⟨h, fun _ => hfail⟩, fun h => h.1⟩
  · rw [if_neg hfail, pending_xack, kept]
    exact ⟨fun h => ⟨h.1, fun heq => absurd heq h.2⟩, fun h => ⟨h.1, fun heq => hfail (h.2 heq)⟩⟩

end Acknowledged

section Deliveries
variable {opts : ConsumerOptions} {fails : Faults} {s : Redis} {r r' : Row}

theorem pending_deliver :
    Pending (deliver opts fails .afterTail s r') r ↔
      Pending s r ∧ (r.entryId = r'.entryId → AckFails opts fails r') := by
  have phases : Pending (runPhase2 opts fails (s.hashes r'.key) (runPhase1 opts fails s r') r') r ↔
      Pending s r := by
    apply pending_of_pel_eq
    rw [pel_runPhase2, pel_runPhase1]
  rw [← phases]
  exact pending_execFrom_xack (fun c hc => (tailSadds_spares hc).2.2.2) r'.entryId

theorem isIncrement_rollupHincrs {doc : Props} {c : Cmd} (h : c ∈ emitRollupHincrs doc) :
    IsIncrement c := by
  unfold emitRollupHincrs at h
  split at h
  · cases h
  split at h
  · rcases List.mem_append.mp h with h | h
    · unfold emitCurvatureBase at h
      split at h
      · exact isIncrement_curvatureDelta h
      · cases h
    · split at h
      · obtain ⟨_, _, h⟩ := List.mem_flatMap.mp h
        exact isIncrement_curvatureDelta h
      · cases h
  · rcases List.mem_append.mp h with h | h
    · unfold emitScalarBase at h
      split at h
      · exact isIncrement_scalarDelta h
      · cases h
    · split at h
      · obtain ⟨_, _, h⟩ := List.mem_flatMap.mp h
        exact isIncrement_scalarDelta h
      · cases h

theorem seenSadds_sparesPel {doc : Props} {c : Cmd} (h : c ∈ emitSeenSadds doc) :
    c.sparesPel := by
  unfold emitSeenSadds at h
  split at h
  · cases h
  · simp only [List.mem_cons, List.not_mem_nil, or_false] at h
    rcases h with rfl | rfl | rfl
    · trivial
    · trivial
    · trivial

theorem suggestCmds_sparesPel {doc : Props} {c : Cmd} (h : c ∈ suggestCmds doc) :
    c.sparesPel := by
  obtain ⟨p, _, hp⟩ := List.mem_filterMap.mp h
  split at hp
  · cases hp
  · split at hp
    · cases hp
      trivial
    · cases hp

theorem rowCmds_sparesPel {c : Cmd} (h : c ∈ rowCmds opts r) : c.sparesPel := by
  rcases List.mem_append.mp h with h | h
  · exact (writeDocForStorage_spares h).1
  · split at h
    · cases h
    · rcases List.mem_append.mp h with h | h
      · rcases List.mem_append.mp h with h | h
        · exact (isIncrement_rollupHincrs h).spares.2.1
        · exact seenSadds_sparesPel h
      · exact suggestCmds_sparesPel h

/-- The entry that a prepared one came from. -/
def sourceOf : Prepared → EntryId
  | .malformed entryId => entryId
  | .row r => r.entryId

theorem sourceOf_prepare {entry : Entry} {p : Prepared} (h : prepare opts entry = some p) :
    sourceOf p = entry.entryId := by
  cases p with
  | row r => exact (prepare_row h).1
  | malformed entryId =>
    simp only [prepare, Option.bind_eq_bind, Option.bind_eq_some_iff] at h
    obtain ⟨fields, _, h⟩ := h
    split at h
    · cases h
      rfl
    · rw [Option.bind_eq_some_iff] at h
      obtain ⟨doc, _, h⟩ := h
      cases h

theorem reached_sublist (entries : List Entry) :
    ((reached opts entries).map sourceOf).Sublist (entries.map Entry.entryId) := by
  induction entries with
  | nil => exact List.Sublist.slnil
  | cons entry entries ih =>
    rw [reached]
    cases hp : prepare opts entry with
    | none => exact List.nil_sublist _
    | some p =>
      simp only [List.map_cons, sourceOf_prepare hp]
      exact ih.cons_cons entry.entryId

theorem mapM_sources {entries : List Entry} {prepared : List Prepared}
    (h : entries.mapM (prepare opts) = some prepared) :
    prepared.map sourceOf = entries.map Entry.entryId := by
  induction entries generalizing prepared with
  | nil =>
    cases h
    rfl
  | cons entry entries ih =>
    rw [List.mapM_cons] at h
    simp only [Option.bind_eq_bind, Option.bind_eq_some_iff] at h
    obtain ⟨p, hp, rest, hrest, heq⟩ := h
    cases heq
    rw [List.map_cons, List.map_cons, sourceOf_prepare hp, ih hrest]

theorem mem_of_mapM {entries : List Entry} {prepared : List Prepared}
    (h : entries.mapM (prepare opts) = some prepared) {entry : Entry} (mem : entry ∈ entries)
    {p : Prepared} (hp : prepare opts entry = some p) : p ∈ prepared := by
  induction entries generalizing prepared with
  | nil => cases mem
  | cons head entries ih =>
    rw [List.mapM_cons] at h
    simp only [Option.bind_eq_bind, Option.bind_eq_some_iff] at h
    obtain ⟨q, hq, rest, hrest, heq⟩ := h
    cases heq
    rcases List.mem_cons.mp mem with rfl | mem
    · rw [hp] at hq
      cases hq
      exact List.mem_cons_self
    · exact List.mem_cons_of_mem _ (ih hrest mem)

/-- A step of a batch leaves the other entries pending or not, as they were. -/
def ActsOn (step : Redis → Prepared → Redis) : Prop :=
  ∀ s p r, r.entryId ≠ sourceOf p → (Pending (step s p) r ↔ Pending s r)

theorem pending_foldl {step : Redis → Prepared → Redis} (acts : ActsOn step)
    (ps : List Prepared) (s : Redis) (absent : r.entryId ∉ ps.map sourceOf) :
    Pending (ps.foldl step s) r ↔ Pending s r := by
  induction ps generalizing s with
  | nil => exact Iff.rfl
  | cons p ps ih =>
    rw [List.map_cons, List.mem_cons, not_or] at absent
    rw [List.foldl_cons, ih _ absent.2, acts s p r absent.1]

/-- Whether a row of a batch stays pending is decided at its own step. -/
theorem pending_foldl_split {step : Redis → Prepared → Redis} (acts : ActsOn step)
    {before after : List Prepared} (s : Redis)
    (distinct : ((before ++ .row r :: after).map sourceOf).Nodup) :
    Pending ((before ++ .row r :: after).foldl step s) r ↔
      Pending (step (before.foldl step s) (.row r)) r := by
  rw [List.map_append, List.map_cons, List.nodup_append, List.nodup_cons] at distinct
  rw [List.foldl_append, List.foldl_cons]
  exact pending_foldl acts after _ distinct.2.1.1

theorem actsOn_applyPrepared : ActsOn (applyPrepared opts fails) := by
  rintro s (entryId | r') r other
  · exact (pending_xack entryId).trans (and_iff_left other)
  · exact pending_deliver.trans (and_iff_left fun heq => absurd heq other)

/-- The block of one prepared entry on the pipeline. -/
def pipeStep (opts : ConsumerOptions) (fails : Faults) (s : Redis) (p : Prepared) : Redis :=
  execFrom (fails (pipelineCmds opts p).1 .pipeline) 0 s (pipelineCmds opts p).2

theorem pending_pipeStep_row :
    Pending (pipeStep opts fails s (.row r')) r ↔
      Pending s r ∧ (r.entryId = r'.entryId → PipedAckFails opts fails r') :=
  pending_execFrom_xack (fun _ hc => rowCmds_sparesPel hc) r'.entryId

theorem actsOn_pipeStep : ActsOn (pipeStep opts fails) := by
  rintro s (entryId | r') r other
  · have nothing : ∀ c ∈ ([] : List Cmd), c.sparesPel := by
      intro c hc
      cases hc
    exact (pending_execFrom_xack nothing entryId).trans (and_iff_left fun heq => absurd heq other)
  · exact pending_pipeStep_row.trans (and_iff_left fun heq => absurd heq other)

theorem processBatch_eq (entries : List Entry) :
    (processBatch opts fails s entries).1 =
      ((entries.mapM (prepare opts)).getD []).foldl (pipeStep opts fails) s := by
  unfold processBatch
  cases entries.mapM (prepare opts) with
  | none => rfl
  | some prepared => exact List.foldl_map

end Deliveries

section Batch
variable {opts : ConsumerOptions} {fails : Faults} {s : Redis} {entries : List Entry}
  (distinct : (entries.map Entry.entryId).Nodup) (pending : ∀ entry ∈ entries, entry ∈ s.pel)

include pending in
theorem pending_before {entry : Entry} (mem : entry ∈ entries) {r : Row}
    (row : prepare opts entry = some (.row r)) : Pending s r :=
  ⟨entry, pending entry mem, (prepare_row row).1.symm⟩

include distinct pending in
/-- A delivered row stays pending exactly when its XACK fails. -/
theorem pending_delivered {before after : List Prepared} {r : Row}
    (split : reached opts entries = before ++ .row r :: after) :
    Pending (processBatchAtomic opts fails s 0 entries).1 r ↔ AckFails opts fails r := by
  have sources := (@reached_sublist opts entries).nodup distinct
  have here : .row r ∈ reached opts entries := by
    rw [split]
    exact List.mem_append_right _ List.mem_cons_self
  obtain ⟨entry, mem, row⟩ := mem_reached here
  rw [split] at sources
  rw [processBatchAtomic_fst, split, applyAll, pending_foldl_split actsOn_applyPrepared s sources]
  have apartBefore : r.entryId ∉ before.map sourceOf := by
    rw [List.map_append, List.map_cons, List.nodup_append] at sources
    intro h
    exact sources.2.2 _ h _ List.mem_cons_self rfl
  have still : Pending (before.foldl (applyPrepared opts fails) s) r :=
    (pending_foldl actsOn_applyPrepared before s apartBefore).mpr
      (pending_before pending mem row)
  exact pending_deliver.trans ⟨fun h => h.2 rfl, fun h => ⟨still, fun _ => h⟩⟩

theorem atomic_acks_applied_iff {call : Call} (deliverable : Deliverable call)
    (paid : EntryId → Prop) :
    AtomicAcksApplied opts paid call ↔ AtomicFaultsCoverAck opts paid call := by
  have sources := (@reached_sublist opts call.entries).nodup deliverable.distinct
  constructor
  · intro acks before r after split
    have here : .row r ∈ reached opts call.entries := by
      rw [split]
      exact List.mem_append_right _ List.mem_cons_self
    obtain ⟨entry, mem, row⟩ := mem_reached here
    rcases acks entry mem r row with kept | ⟨before', after', split', applied⟩
    · exact Or.inr ((pending_delivered deliverable.distinct deliverable.pending split).mp kept)
    · -- the row occurs once, so both splits are the same
      rw [split', List.map_append, List.map_cons, List.nodup_append, List.nodup_cons] at sources
      have notBefore : .row r ∉ before' := fun h =>
        sources.2.2 _ (List.mem_map_of_mem h) _ List.mem_cons_self rfl
      have notAfter : .row r ∉ after' := fun h => sources.2.1.1 (List.mem_map_of_mem h)
      have same := (List.append_cons_inj_of_notMem notBefore notAfter).mp (split'.symm.trans split)
      rw [← same.1]
      exact Or.inl applied
  · intro covered entry mem r row
    by_cases here : .row r ∈ reached opts call.entries
    · obtain ⟨before, after, split⟩ := List.append_of_mem here
      rcases covered before r after split with applied | fault
      · exact Or.inr ⟨before, after, split, applied⟩
      · exact Or.inl ((pending_delivered deliverable.distinct deliverable.pending split).mpr fault)
    · left
      rw [processBatchAtomic_fst, applyAll]
      refine (pending_foldl actsOn_applyPrepared _ call.store ?_).mpr
        (pending_before deliverable.pending mem row)
      intro source
      obtain ⟨p, hp, hsource⟩ := List.mem_map.mp source
      obtain ⟨entry', mem', hp'⟩ := mem_reached hp
      have sameEntry : entry' = entry := by
        apply List.inj_on_of_nodup_map deliverable.distinct mem' mem
        rw [← sourceOf_prepare hp', hsource, (prepare_row row).1]
      rw [sameEntry, row] at hp'
      cases hp'
      exact here hp

theorem piped_acks_applied_iff {call : Call} (deliverable : Deliverable call) :
    PipedAcksApplied opts call ↔ PipedFaultsCoverAck opts call := by
  have fate : ∀ prepared, call.entries.mapM (prepare opts) = some prepared →
      ∀ entry ∈ call.entries, ∀ r, prepare opts entry = some (.row r) →
      (Pending (processBatch opts call.fails call.store call.entries).1 r ↔
        PipedAckFails opts call.fails r) := by
    intro prepared all entry mem r row
    have sources : (prepared.map sourceOf).Nodup := by
      rw [mapM_sources all]
      exact deliverable.distinct
    have here : .row r ∈ prepared := mem_of_mapM all mem row
    obtain ⟨before, after, split⟩ := List.append_of_mem here
    rw [processBatch_eq, all, Option.getD_some]
    rw [split] at sources ⊢
    rw [pending_foldl_split actsOn_pipeStep call.store sources]
    have apartBefore : r.entryId ∉ before.map sourceOf := by
      rw [List.map_append, List.map_cons, List.nodup_append] at sources
      intro h
      exact sources.2.2 _ h _ List.mem_cons_self rfl
    have still : Pending (before.foldl (pipeStep opts call.fails) call.store) r :=
      (pending_foldl actsOn_pipeStep before call.store apartBefore).mpr
        (pending_before deliverable.pending mem row)
    exact pending_pipeStep_row.trans ⟨fun h => h.2 rfl, fun h => ⟨still, fun _ => h⟩⟩
  unfold PipedAcksApplied PipedFaultsCoverAck
  cases all : call.entries.mapM (prepare opts) with
  | none =>
    refine ⟨fun _ thrown => (by cases thrown), fun _ entry mem r row => Or.inl ?_⟩
    rw [processBatch_eq, all]
    exact pending_before deliverable.pending mem row
  | some prepared =>
    constructor
    · intro acks _ entry mem r row
      exact (acks entry mem r row).elim
        (fun kept => Or.inr ((fate prepared all entry mem r row).mp kept))
        (fun applied => Or.inl applied.2)
    · intro covered entry mem r row
      exact (covered rfl entry mem r row).elim
        (fun applied => Or.inr ⟨rfl, applied⟩)
        (fun fault => Or.inl ((fate prepared all entry mem r row).mpr fault))

/-- Two properties that agree at every deliverable call agree over a run. -/
theorem throughout_congr {holds holds' : (EntryId → Prop) → Call → Prop} {calls : List Call}
    (same : ∀ call ∈ calls, ∀ paid, holds paid call ↔ holds' paid call) (paid : EntryId → Prop) :
    Throughout opts holds paid calls ↔ Throughout opts holds' paid calls := by
  induction calls generalizing paid with
  | nil => exact Iff.rfl
  | cons call calls ih =>
    have later := ih (fun c mem => same c (List.mem_cons_of_mem _ mem)) (paidAfter opts paid call)
    exact and_congr (same call List.mem_cons_self paid) later

/-- Over every run of calls, either writer acknowledges only applied rows exactly when no data
write of a row that it delivers is missing without the row's XACK failing too. -/
theorem acks_applied_iff (opts : ConsumerOptions) (paid : EntryId → Prop) {calls : List Call}
    (deliverable : ∀ call ∈ calls, Deliverable call) :
    (Throughout opts (AtomicAcksApplied opts) paid calls ↔
        Throughout opts (AtomicFaultsCoverAck opts) paid calls) ∧
      ((∀ call ∈ calls, PipedAcksApplied opts call) ↔
        ∀ call ∈ calls, PipedFaultsCoverAck opts call) :=
  ⟨throughout_congr (fun call mem => atomic_acks_applied_iff (deliverable call mem)) paid,
    forall₂_congr fun call mem => piped_acks_applied_iff (deliverable call mem)⟩

end Batch

section Samples

/-- The first increment of each rollup transaction replies with an error. -/
def incrementFails : Faults := fun _ phase i => phase = .phase2 ∧ i = 0

/-- The acknowledgement replies with an error, after the two seen sets. -/
def xackFails : Faults := fun _ phase i => phase = .tail ∧ i = 2

def beforeFx : Redis := { Redis.empty with pel := [fxTen] }

/-- A fresh row is acknowledged though its first increment failed. -/
theorem failed_increment_acked :
    ¬ ∀ calls : List Call, (∀ call ∈ calls, Deliverable call) →
      Throughout atomicOptions (AtomicAcksApplied atomicOptions) (fun _ => False) calls ∧
        ∀ call ∈ calls, PipedAcksApplied atomicOptions call := by
  intro acks
  have row : prepare atomicOptions fxTen = some (.row (rowOf atomicOptions fxTen)) :=
    prepare_rowOf (by decide +kernel)
  have deliverable : ∀ call ∈ [Call.mk beforeFx incrementFails [fxTen]], Deliverable call := by
    intro call mem
    rw [List.mem_singleton.mp mem]
    exact ⟨by decide +kernel, fun _ h => h⟩
  have atomic := (acks _ deliverable).1.1 fxTen List.mem_cons_self _ row
  rcases atomic with kept | ⟨before, after, split, applied⟩
  · revert kept
    decide +kernel
  · have first : before = [] := by
      simp only [reached, row] at split
      cases before with
      | nil => rfl
      | cons p ps => simp at split
    subst first
    have increment : ((phase2Cmds atomicOptions ∅ ∅ (rowOf atomicOptions fxTen))[0]?).map
        IsDataWrite = some true := by decide +kernel
    obtain ⟨c, hc, write⟩ := Option.map_eq_some_iff.mp increment
    rcases applied.rollups with paid | replayed
    · have succeeded := paid.2 0 c hc write
      cases succeeded
    · exact replayed.2

/-- An acknowledgement that fails, and the replay that finds the marker. -/
def replayedCalls (lost : Faults) : List Call :=
  [⟨beforeFx, lost, [fxTen]⟩,
    ⟨(processBatchAtomic atomicOptions lost beforeFx 0 [fxTen]).1, noFaults, [fxTen]⟩]

theorem replayedCalls_deliverable {call : Call} (mem : call ∈ replayedCalls xackFails) :
    Deliverable call := by
  simp only [replayedCalls, List.mem_cons, List.not_mem_nil, or_false] at mem
  rcases mem with rfl | rfl
  · exact ⟨by decide +kernel, fun _ h => h⟩
  · refine ⟨by decide +kernel, ?_⟩
    have kept : (processBatchAtomic atomicOptions xackFails beforeFx 0 [fxTen]).1.pel =
        [fxTen] := by
      decide +kernel
    rw [kept]
    exact fun _ h => h

theorem acks_applied_fx :
    (Throughout atomicOptions (AtomicAcksApplied atomicOptions) (fun _ => False)
          (replayedCalls xackFails) ↔
        Throughout atomicOptions (AtomicFaultsCoverAck atomicOptions) (fun _ => False)
          (replayedCalls xackFails)) ∧
      ((∀ call ∈ replayedCalls xackFails, PipedAcksApplied atomicOptions call) ↔
        ∀ call ∈ replayedCalls xackFails, PipedFaultsCoverAck atomicOptions call) :=
  acks_applied_iff atomicOptions _ fun _ mem => replayedCalls_deliverable mem

end Samples

end AckSafety
