import Frtb.BatchRuns
import Frtb.Interleaving

/-!
# Re-ingest by concurrent consumers

The interleaving refines a ledger: a Phase 1 commit makes a document the
current version of its row and leaves the consumer owing the difference, and
the Phase 2 commit pays it. Commits of one row are ordered by the version of
its HASH, so the differences telescope whatever order they are paid in.
-/

namespace ConcurrentReingest

open AssocMaps JsonText EnrichDoc RollupKeys RedisStore StorageWriter RollupDelta BatchWriters
open RollupContribution HashLayout RowVersions AtomicDelivery StoredContribution DeltaLedger
open BatchRuns Interleaving

variable {C : Type} [DecidableEq C]

/-- An entry has committed Phase 2: its consumer is about to acknowledge it or
has done so. -/
def Committed (W : World C) (c : C) (r : Row) : Prop :=
  (c, r) ∉ W.pending ∨ W.locals c = .tail r

/-- Distinct entries of prepared rows, rows of one document key in one shape. -/
structure Handed (opts : ConsumerOptions) (deliveries : List (C × Row)) : Prop where
  prepared : ∀ p ∈ deliveries, ∃ entry, prepare opts entry = some (.row p.2)
  distinct : (deliveries.map fun p => p.2.entryId).Nodup
  sameShape : ∀ p ∈ deliveries, ∀ q ∈ deliveries, p.2.key = q.2.key → SameShape p.2.doc q.2.doc
  oneTenorSet : ∀ p ∈ deliveries, OneTenorSet p.2.doc

/-- Nothing stored yet, nobody at work, every delivery pending. -/
structure Initial (deliveries : List (C × Row)) (W : World C) : Prop where
  hashes : ∀ key, W.store.hashes key = ∅
  rollups : ∀ key field, W.store.rollups key field = 0
  markers : W.store.markers = ∅
  locals : ∀ c, W.locals c = .idle
  pending : W.pending = deliveries

section Written

theorem hashes_exec_of_unwritten {s : Redis} {cmds : List Cmd} {k : String}
    (unwritten : ∀ c ∈ cmds, writtenKey c ≠ some k) : (exec s cmds).hashes k = s.hashes k := by
  induction cmds generalizing s with
  | nil => rfl
  | cons c cs ih =>
    rw [exec_cons, ih (fun d hd => unwritten d (List.mem_cons_of_mem _ hd))]
    have hc := unwritten c List.mem_cons_self
    cases c with
    | hset key fields =>
      have hne : k ≠ key := fun heq => hc (by rw [writtenKey, heq])
      simp only [apply, if_neg hne]
    | _ => rfl

theorem unwritten_of_bump_eq {versions : String → ℕ} {cmds : List Cmd} {k : String}
    (same : bump versions cmds k = versions k) : ∀ c ∈ cmds, writtenKey c ≠ some k := by
  have zero : cmds.countP (fun c => writtenKey c = some k) = 0 := by
    simp only [bump] at same
    omega
  rw [List.countP_eq_zero] at zero
  intro c hc
  simpa using zero c hc

theorem bump_of_unwritten {versions : String → ℕ} {cmds : List Cmd} {k : String}
    (unwritten : ∀ c ∈ cmds, writtenKey c ≠ some k) : bump versions cmds k = versions k := by
  have zero : cmds.countP (fun c => writtenKey c = some k) = 0 := by
    rw [List.countP_eq_zero]
    intro c hc
    simpa using unwritten c hc
  rw [bump, zero, add_zero]

theorem le_bump (versions : String → ℕ) (cmds : List Cmd) (k : String) :
    versions k ≤ bump versions cmds k := Nat.le_add_right _ _

/-- The key is not spelled like a marker. -/
def NotMarker (k : String) : Prop := k.toList.head? ≠ some 'p'

theorem markerKeyOf_head (tags : RowTags) (r : Row) :
    (markerKeyOf tags r).toList.head? = some 'p' := by
  delta markerKeyOf processedMarkerKey
  simp

theorem NotMarker.ne {k : String} (h : NotMarker k) (tags : RowTags) (r : Row) :
    k ≠ markerKeyOf tags r := by
  intro heq
  rw [NotMarker, heq, markerKeyOf_head] at h
  exact h rfl

theorem notMarker_phase1 {opts : ConsumerOptions} {r : Row} {id : String}
    (atomic : useAtomic opts.format = true) (hkey : r.key = buildKey id) {c : Cmd}
    (hc : c ∈ phase1Cmds opts r) {k : String} (hk : writtenKey c = some k) : NotMarker k := by
  have document : NotMarker r.key := by
    rw [hkey]
    simp [NotMarker, buildKey]
  have side : NotMarker (sideTableKeyFor r.key) := by simp [NotMarker, sideTableKeyFor]
  have hset : ∀ fields, c ∈ hsetUnlessEmpty r.key fields → NotMarker k := by
    intro fields hmem
    cases fields with
    | nil => cases hmem
    | cons p ps =>
      rw [List.mem_singleton.mp hmem] at hk
      cases hk
      exact document
  rw [phase1Cmds] at hc
  cases hf : opts.format with
  | hashSidetable =>
    rw [hf] at hc
    rcases List.mem_append.mp hc with hc | hc
    · exact hset _ hc
    · rw [Option.mem_toList, Option.map_eq_some_iff] at hc
      obtain ⟨fields, _, rfl⟩ := hc
      cases hk
      exact side
  | hashEncoded =>
    rw [hf] at hc
    exact hset _ hc
  | json => rw [hf] at atomic; cases atomic
  | jsonShadowHash => rw [hf] at atomic; cases atomic

theorem notMarker_rollupKey (tags : RowTags) (tenor : Option String) :
    NotMarker (tags.key tenor) := by
  cases tenor <;> simp [NotMarker, RowTags.key, rollupKey]

theorem writtenKey_scalarDelta {key' : String} {countDelta new old : ℚ} {c : Cmd}
    (h : c ∈ emitScalarDelta key' countDelta new old) : writtenKey c = some key' := by
  simp only [emitScalarDelta, List.cons_append, List.nil_append, List.mem_cons] at h
  rcases h with rfl | rfl | h
  · rfl
  · rfl
  · split at h
    · cases h
    · rw [List.mem_singleton.mp h]
      rfl

theorem writtenKey_curvatureDelta {key' : String} {countDelta : ℚ} {new old : ℚ × ℚ} {c : Cmd}
    (h : c ∈ emitCurvatureDelta key' countDelta new old) : writtenKey c = some key' := by
  simp only [emitCurvatureDelta, List.cons_append, List.nil_append, List.mem_cons] at h
  rcases h with rfl | rfl | rfl | rfl | h
  · rfl
  · rfl
  · rfl
  · rfl
  · split at h
    · cases h
    · rw [List.mem_singleton.mp h]
      rfl

theorem notMarker_rollupDelta {oldC : OldContribution} {doc : Props} {c : Cmd}
    (hc : c ∈ emitRollupDelta oldC doc) {k : String} (hk : writtenKey c = some k) :
    NotMarker k := by
  have onKey : ∀ {tags : RowTags} {tenor : Option String},
      writtenKey c = some (tags.key tenor) → NotMarker k := by
    intro tags tenor h
    rw [hk, Option.some.injEq] at h
    rw [h]
    exact notMarker_rollupKey tags tenor
  unfold emitRollupDelta at hc
  split at hc
  · cases hc
  split at hc
  · rcases List.mem_append.mp hc with hc | hc
    · unfold emitCurvatureBase at hc
      split at hc
      · exact onKey (writtenKey_curvatureDelta hc)
      · cases hc
    · unfold emitCurvatureTenors at hc
      split at hc
      · obtain ⟨_, _, hc⟩ := List.mem_flatMap.mp hc
        exact onKey (writtenKey_curvatureDelta hc)
      · cases hc
  · rcases List.mem_append.mp hc with hc | hc
    · unfold emitScalarBase at hc
      split at hc
      · exact onKey (writtenKey_scalarDelta hc)
      · cases hc
    · unfold emitScalarTenors at hc
      split at hc
      · cases hc
      · obtain ⟨_, _, hc⟩ := List.mem_flatMap.mp hc
        exact onKey (writtenKey_scalarDelta hc)

/-- Phase 2 writes no marker but the row's own. -/
theorem marker_of_rollupCmds {opts : ConsumerOptions} {oldHash : Hash} {tags : RowTags} {r : Row}
    {c : Cmd} (hc : c ∈ rollupCmds opts oldHash tags r) {k : String}
    (hk : writtenKey c = some k) : NotMarker k ∨ k = markerKeyOf tags r := by
  rcases List.mem_append.mp hc with hc | hc
  · exact Or.inl (notMarker_rollupDelta hc hk)
  · simp only [List.mem_cons, List.not_mem_nil, or_false] at hc
    rcases hc with rfl | rfl
    · cases hk
      left
      delta seenSensTypeKey
      simp [NotMarker]
    · cases hk
      exact Or.inr rfl

theorem notMarker_tail {opts : ConsumerOptions} {r : Row} {c : Cmd} (hc : c ∈ tailCmds opts r)
    {k : String} (hk : writtenKey c = some k) : NotMarker k := by
  simp only [tailCmds, tailSadds, List.mem_append] at hc
  rcases hc with (hc | hc) | hc
  · split at hc
    · rw [List.mem_singleton.mp hc] at hk
      cases hk
      simp [NotMarker, seenRiskClassKey]
    · cases hc
  · split at hc
    · rw [List.mem_singleton.mp hc] at hk
      cases hk
      simp [NotMarker, seenBucketKey]
    · cases hc
  · rw [List.mem_singleton.mp hc] at hk
    cases hk

end Written

/-- What a consumer relies on while it works on an entry, and what it owes. -/
def LocalOk (opts : ConsumerOptions) (W : World C) (owed : ℚ) (key field : String) (c : C) :
    Local → Prop
  | .idle => owed = 0
  | .start1 r _ => (c, r) ∈ W.pending ∧ owed = 0
  | .watched1 r _ version => (c, r) ∈ W.pending ∧ owed = 0 ∧ version ≤ W.versions r.key
  | .read1 r _ version oldHash =>
    (c, r) ∈ W.pending ∧ owed = 0 ∧ version ≤ W.versions r.key ∧
      (W.versions r.key = version → W.store.hashes r.key = oldHash)
  | .start2 r oldHash _ =>
    (c, r) ∈ W.pending ∧ owed = rollupIncrements oldHash r.doc key field
  | .watched2 r oldHash _ marker version =>
    (c, r) ∈ W.pending ∧ owed = rollupIncrements oldHash r.doc key field ∧
      ∃ tags, rowTags r.doc = some tags ∧ marker = markerKeyOf tags r ∧
        W.versions marker = version
  | .read2 r oldHash _ marker version queued =>
    (c, r) ∈ W.pending ∧ owed = rollupIncrements oldHash r.doc key field ∧
      ∃ tags, rowTags r.doc = some tags ∧ marker = markerKeyOf tags r ∧
        W.versions marker = version ∧ queued = rollupCmds opts oldHash tags r
  | .tail r => (c, r) ∈ W.pending ∧ owed = 0

section Frame

/-- What the step of another consumer leaves a consumer to rely on. -/
structure Frame (W W' : World C) (c : C) : Prop where
  pending : ∀ r, (c, r) ∈ W.pending → (c, r) ∈ W'.pending
  versions : ∀ k, W.versions k ≤ W'.versions k
  hashes : ∀ k, W'.versions k = W.versions k → W'.store.hashes k = W.store.hashes k
  markers : ∀ r tags, (c, r) ∈ W.pending →
    W'.versions (markerKeyOf tags r) = W.versions (markerKeyOf tags r)

omit [DecidableEq C] in
theorem LocalOk.frame {opts : ConsumerOptions} {W W' : World C} {owed : ℚ} {key field : String}
    {c : C} {l : Local} (ok : LocalOk opts W owed key field c l) (frame : Frame W W' c) :
    LocalOk opts W' owed key field c l := by
  cases l with
  | idle => exact ok
  | start1 r attempts => exact ⟨frame.pending r ok.1, ok.2⟩
  | watched1 r attempts version =>
    exact ⟨frame.pending r ok.1, ok.2.1, ok.2.2.trans (frame.versions _)⟩
  | read1 r attempts version oldHash =>
    obtain ⟨mine, clear, older, read⟩ := ok
    refine ⟨frame.pending r mine, clear, older.trans (frame.versions _), fun current => ?_⟩
    have still : W.versions r.key = version :=
      le_antisymm ((frame.versions _).trans current.le) older
    rw [frame.hashes _ (current.trans still.symm), read still]
  | start2 r oldHash attempts => exact ⟨frame.pending r ok.1, ok.2⟩
  | watched2 r oldHash attempts marker version =>
    obtain ⟨mine, owes, tags, ht, rfl, current⟩ := ok
    exact ⟨frame.pending r mine, owes, tags, ht, rfl, (frame.markers r tags mine).trans current⟩
  | read2 r oldHash attempts marker version queued =>
    obtain ⟨mine, owes, tags, ht, rfl, current, queue⟩ := ok
    exact ⟨frame.pending r mine, owes, tags, ht, rfl, (frame.markers r tags mine).trans current,
      queue⟩
  | tail r => exact ⟨frame.pending r ok.1, ok.2⟩

theorem frame_goto (W : World C) (c : C) (l : Local) (c' : C) : Frame W (W.goto c l) c' :=
  ⟨fun _ h => h, fun _ => le_rfl, fun _ _ => rfl, fun _ _ _ => rfl⟩

/-- A commit that touches none of a consumer's markers. -/
theorem frame_commit {W : World C} {c : C} {cmds : List Cmd} {l : Local} {c' : C}
    (apart : ∀ r tags, (c', r) ∈ W.pending →
      ∀ cmd ∈ cmds, writtenKey cmd ≠ some (markerKeyOf tags r)) :
    Frame W (W.commit c cmds l) c' :=
  ⟨fun _ h => h, fun k => le_bump W.versions cmds k,
    fun _ same => hashes_exec_of_unwritten (unwritten_of_bump_eq same),
    fun r tags mine => bump_of_unwritten (apart r tags mine)⟩

end Frame

/-- The world refines a ledger whose parties are the consumers. -/
structure Inv (opts : ConsumerOptions) (deliveries : List (C × Row)) (key field : String)
    [Fintype C] (W : World C) (L : Ledger C String Props ℚ) : Prop where
  reach : Ledger.Reach (fun doc => contribution doc key field) L
  rollups : W.store.rollups key field = L.settled
  hashes : ∀ id, match L.current.lookup (buildKey id) with
    | none => W.store.hashes (buildKey id) = ∅
    | some doc => Holds (W.store.hashes (buildKey id)) doc
  current : ∀ k doc, L.current.lookup k = some doc → ∃ p ∈ deliveries, p.2.key = k ∧ p.2.doc = doc
  locals : ∀ c, LocalOk opts W (L.owed c) key field c (W.locals c)
  pending : ∀ p ∈ W.pending, p ∈ deliveries
  markers : ∀ m ∈ W.store.markers,
    ∃ p ∈ deliveries, (∃ tags, m = markerKeyOf tags p.2) ∧ Committed W p.1 p.2

section Preserve
variable [Fintype C] {opts : ConsumerOptions} {deliveries : List (C × Row)} {key field : String}
variable {W W' : World C} {L : Ledger C String Props ℚ}

omit [DecidableEq C] [Fintype C] in
theorem Handed.same_entry (handed : Handed opts deliveries) {p q : C × Row} (hp : p ∈ deliveries)
    (hq : q ∈ deliveries) (same : p.2.entryId = q.2.entryId) : p = q :=
  List.inj_on_of_nodup_map handed.distinct hp hq same

omit [Fintype C] in
theorem Committed.goto {c : C} {l : Local} {p : C × Row} (committed : Committed W p.1 p.2)
    (before : W.locals c ≠ .tail p.2) : Committed (W.goto c l) p.1 p.2 := by
  rcases committed with acked | atTail
  · exact Or.inl acked
  · right
    have other : p.1 ≠ c := by
      intro heq
      rw [heq] at atTail
      exact before atTail
    simp only [World.goto, Function.update_of_ne other, atTail]

/-- Moving to another place of the loop without serving a command. -/
theorem Inv.goto (inv : Inv opts deliveries key field W L) {c : C} {l : Local}
    (before : ∀ r, W.locals c ≠ .tail r) (ok : LocalOk opts W (L.owed c) key field c l) :
    Inv opts deliveries key field (W.goto c l) L where
  reach := inv.reach
  rollups := inv.rollups
  hashes := inv.hashes
  current := inv.current
  locals := by
    intro c'
    by_cases same : c' = c
    · subst same
      simp only [World.goto, Function.update_self]
      exact ok.frame (frame_goto W c' l c')
    · simp only [World.goto, Function.update_of_ne same]
      exact (inv.locals c').frame (frame_goto W c l c')
  pending := inv.pending
  markers := by
    intro m hm
    obtain ⟨p, hp, htags, committed⟩ := inv.markers m hm
    exact ⟨p, hp, htags, committed.goto (before p.2)⟩

/-- The marker of an entry that has not committed is unset. -/
theorem Inv.marker_unset (inv : Inv opts deliveries key field W L) (handed : Handed opts deliveries)
    {c : C} {r : Row} (mine : (c, r) ∈ W.pending) (before : W.locals c ≠ .tail r)
    (tags : RowTags) : markerKeyOf tags r ∉ W.store.markers := by
  intro hm
  obtain ⟨p, hp, ⟨tags', heq⟩, committed⟩ := inv.markers _ hm
  have same : p = (c, r) :=
    handed.same_entry hp (inv.pending _ mine) (processedMarkerKey_inj heq).symm
  subst same
  rcases committed with acked | atTail
  · exact acked mine
  · exact before atTail

/-- A Phase 1 commit makes the row's document current. -/
theorem Inv.phase1 (inv : Inv opts deliveries key field W L) (handed : Handed opts deliveries)
    (atomic : useAtomic opts.format = true)
    (tracked : ∀ p ∈ deliveries, key ∉ unstoredKeys p.2.doc) {c : C} {r : Row} {oldHash : Hash}
    (mine : (c, r) ∈ W.pending) (before : ∀ r, W.locals c ≠ .tail r) (clear : L.owed c = 0)
    (read : W.store.hashes r.key = oldHash) :
    Inv opts deliveries key field (W.commit c (phase1Cmds opts r) (.start2 r oldHash 0))
      (L.write (fun doc => contribution doc key field) c r.key r.doc) := by
  have delivered := inv.pending _ mine
  obtain ⟨entry, hentry⟩ := handed.prepared _ delivered
  obtain ⟨_, ⟨id, hkey⟩, calibrated⟩ := prepare_row hentry
  simp only at hkey calibrated
  have currentHash := inv.hashes id
  rw [← hkey] at currentHash
  have former : ∀ old, L.current.lookup r.key = some old → SameShape old r.doc := by
    intro old hold
    obtain ⟨q, hq, hqkey, rfl⟩ := inv.current _ _ hold
    exact handed.sameShape q hq (c, r) delivered hqkey
  have gain : L.gain (fun doc => contribution doc key field) r.key r.doc =
      rollupIncrements oldHash r.doc key field := by
    rw [Ledger.gain, ← read]
    cases hl : L.current.lookup r.key with
    | none =>
      rw [hl] at currentHash
      rw [currentHash, rollupIncrements_empty, Option.elim_none, sub_zero]
    | some old =>
      rw [hl] at currentHash
      rw [rollupIncrements_reingest currentHash (former old hl) (tracked _ delivered),
        Option.elim_some]
  have store : exec W.store (phase1Cmds opts r) = runPhase1 opts noFaults W.store r :=
    runPhase1_noFaults.symm
  refine ⟨.write inv.reach c r.key r.doc, ?_, ?_, ?_, ?_, inv.pending, ?_⟩
  · simp only [World.commit, store, rollups_runPhase1]
    exact inv.rollups
  · intro id'
    simp only [World.commit, store, hashes_runPhase1 atomic hkey, Ledger.write]
    by_cases hid : id' = id
    · subst hid
      rw [hkey, AList.lookup_insert, if_pos rfl]
      refine Holds.write calibrated storedExtra_apart ?_
      rw [hkey] at currentHash former
      cases hl : L.current.lookup (buildKey id') with
      | none => rw [hl] at currentHash; exact Or.inl currentHash
      | some old => rw [hl] at currentHash; exact Or.inr ⟨old, currentHash, former old hl⟩
    · have hne : buildKey id' ≠ r.key := by
        rw [hkey]
        exact fun heq => hid ((append_left_cancel_iff _ id' id).mp heq)
      rw [AList.lookup_insert_ne hne, if_neg hid]
      exact inv.hashes id'
  · intro k doc hk
    simp only [Ledger.write] at hk
    by_cases heq : k = r.key
    · subst heq
      rw [AList.lookup_insert, Option.some.injEq] at hk
      exact ⟨(c, r), delivered, rfl, hk⟩
    · rw [AList.lookup_insert_ne heq] at hk
      exact inv.current k doc hk
  · intro c'
    have frame : Frame W (W.commit c (phase1Cmds opts r) (.start2 r oldHash 0)) c' := by
      apply frame_commit
      intro r' tags _ cmd hcmd hk
      exact (notMarker_phase1 atomic hkey hcmd hk).ne tags r' rfl
    by_cases same : c' = c
    · subst same
      simp only [World.commit, Function.update_self, Ledger.write]
      exact ⟨mine, by rw [clear, zero_add, gain]⟩
    · simp only [World.commit, Function.update_of_ne same, Ledger.write]
      exact (inv.locals c').frame frame
  · intro m hm
    simp only [World.commit, store, markers_runPhase1] at hm
    obtain ⟨p, hp, htags, committed⟩ := inv.markers m hm
    refine ⟨p, hp, htags, ?_⟩
    exact Committed.goto (l := .start2 r oldHash 0) committed (before p.2)

/-- A Phase 2 commit pays what the consumer owes. -/
theorem Inv.phase2 (inv : Inv opts deliveries key field W L) (handed : Handed opts deliveries)
    {c : C} {r : Row} {oldHash : Hash} {tags : RowTags} (ht : rowTags r.doc = some tags)
    (mine : (c, r) ∈ W.pending) (before : ∀ r, W.locals c ≠ .tail r)
    (owes : L.owed c = rollupIncrements oldHash r.doc key field) :
    Inv opts deliveries key field (W.commit c (rollupCmds opts oldHash tags r) (.tail r))
      (L.settle c) := by
  have spare : ∀ cmd ∈ rollupCmds opts oldHash tags r, cmd.sparesHashes := by
    intro cmd hcmd
    rcases List.mem_append.mp hcmd with hcmd | hcmd
    · exact (isIncrement_rollupDelta hcmd).spares.1
    · simp only [List.mem_cons, List.not_mem_nil, or_false] at hcmd
      rcases hcmd with rfl | rfl
      · trivial
      · trivial
  have sets : (exec W.store (rollupCmds opts oldHash tags r)).markers =
      insert (markerKeyOf tags r) W.store.markers := by
    rw [rollupCmds, exec_append, exec_cons, exec_cons, exec_nil]
    simp only [apply]
    rw [markers_exec (fun cmd hcmd => (isIncrement_rollupDelta hcmd).spares.2.2)]
  refine ⟨.settle inv.reach c, ?_, ?_, inv.current, ?_, inv.pending, ?_⟩
  · simp only [World.commit, Ledger.settle, rollups_exec, increments_rollupCmds oldHash ht]
    rw [inv.rollups, owes]
  · intro id
    simp only [World.commit, Ledger.settle, hashes_exec spare]
    exact inv.hashes id
  · intro c'
    by_cases same : c' = c
    · subst same
      simp only [World.commit, Function.update_self, Ledger.settle]
      exact ⟨mine, rfl⟩
    · simp only [World.commit, Function.update_of_ne same, Ledger.settle]
      refine (inv.locals c').frame (frame_commit ?_)
      intro r' tags' mine' cmd hcmd hk
      rcases marker_of_rollupCmds hcmd hk with notMarker | own
      · exact notMarker.ne tags' r' rfl
      · have heq := handed.same_entry (inv.pending _ mine') (inv.pending _ mine)
          (processedMarkerKey_inj own)
        cases heq
        exact same rfl
  · intro m hm
    simp only [World.commit, sets, Finset.mem_insert] at hm
    rcases hm with rfl | hm
    · refine ⟨(c, r), inv.pending _ mine, ⟨tags, rfl⟩, Or.inr ?_⟩
      simp only [World.commit, Function.update_self]
    · obtain ⟨p, hp, htags, committed⟩ := inv.markers m hm
      exact ⟨p, hp, htags, Committed.goto (l := .tail r) committed (before p.2)⟩

/-- The tail acknowledges the entry. -/
theorem Inv.tail (inv : Inv opts deliveries key field W L) (handed : Handed opts deliveries)
    {c : C} {r : Row} (atTail : W.locals c = .tail r) :
    Inv opts deliveries key field
      { W.commit c (tailCmds opts r) .idle with
        pending := W.pending.filter (fun p => p.2.entryId ≠ r.entryId) } L := by
  have here := inv.locals c
  rw [atTail] at here
  obtain ⟨mine, clear⟩ := here
  have store : exec W.store (tailCmds opts r) = runTail opts noFaults W.store r :=
    runTail_noFaults.symm
  refine ⟨inv.reach, ?_, ?_, inv.current, ?_, ?_, ?_⟩
  · simp only [World.commit, store, rollups_runTail]
    exact inv.rollups
  · intro id
    simp only [World.commit, store, hashes_runTail]
    exact inv.hashes id
  · intro c'
    by_cases same : c' = c
    · subst same
      simp only [World.commit, Function.update_self]
      exact clear
    · simp only [World.commit, Function.update_of_ne same]
      refine (inv.locals c').frame ⟨?_, fun k => le_bump W.versions _ k,
        fun k stands => hashes_exec_of_unwritten (unwritten_of_bump_eq stands), ?_⟩
      · intro r' mine'
        refine List.mem_filter.mpr ⟨mine', ?_⟩
        simp only [ne_eq, decide_not, Bool.not_eq_eq_eq_not, Bool.not_true,
          decide_eq_false_iff_not]
        intro heq
        have := handed.same_entry (inv.pending _ mine') (inv.pending _ mine) heq
        cases this
        exact same rfl
      · intro r' tags _
        exact bump_of_unwritten (fun cmd hcmd hk => (notMarker_tail hcmd hk).ne tags r' rfl)
  · intro p hp
    exact inv.pending p (List.mem_filter.mp hp).1
  · intro m hm
    simp only [World.commit, store, markers_runTail] at hm
    obtain ⟨p, hp, htags, committed⟩ := inv.markers m hm
    refine ⟨p, hp, htags, ?_⟩
    rcases committed with acked | atTail'
    · exact Or.inl (fun still => acked (List.mem_filter.mp still).1)
    · by_cases differ : p.1 = c
      · rw [differ, atTail, Local.tail.injEq] at atTail'
        left
        intro still
        simpa [atTail'] using (List.mem_filter.mp still).2
      · right
        simp only [World.commit, Function.update_of_ne differ, atTail']

/-- Every step of the interleaving refines the ledger. -/
theorem Inv.step (inv : Inv opts deliveries key field W L) (handed : Handed opts deliveries)
    (atomic : useAtomic opts.format = true) (off : opts.liveTailMode = false)
    (tracked : ∀ p ∈ deliveries, key ∉ unstoredKeys p.2.doc) (next : Step opts W W') :
    ∃ L', Inv opts deliveries key field W' L' := by
  cases next with
  | @take c r free mine =>
    have here := inv.locals c
    rw [free] at here
    exact ⟨L, inv.goto (by rw [free]; intro r h; cases h) ⟨mine, here⟩⟩
  | @run c _ h =>
    have here := inv.locals c
    cases hl : W.locals c with
    | idle =>
      simp only [runLocal, hl] at h
      cases h
    | start1 r attempts =>
      rw [hl] at here
      simp only [runLocal, hl, Option.some.injEq] at h
      subst h
      exact ⟨L, inv.goto (by rw [hl]; intro r h; cases h) ⟨here.1, here.2, le_rfl⟩⟩
    | watched1 r attempts version =>
      rw [hl] at here
      simp only [runLocal, hl, Option.some.injEq] at h
      subst h
      exact ⟨L, inv.goto (by rw [hl]; intro r h; cases h)
        ⟨here.1, here.2.1, here.2.2, fun _ => rfl⟩⟩
    | read1 r attempts version oldHash =>
      rw [hl] at here
      obtain ⟨mine, clear, _, read⟩ := here
      have before : ∀ r, W.locals c ≠ .tail r := by
        rw [hl]
        intro r h
        cases h
      simp only [runLocal, hl] at h
      split at h
      · rename_i current
        rw [Option.some.injEq] at h
        subst h
        exact ⟨_, inv.phase1 handed atomic tracked mine before clear (read current)⟩
      · split at h
        · rw [Option.some.injEq] at h
          subst h
          exact ⟨L, inv.goto before ⟨mine, clear⟩⟩
        · rw [Option.some.injEq] at h
          subst h
          exact ⟨L, inv.goto before clear⟩
    | start2 r oldHash attempts =>
      rw [hl] at here
      obtain ⟨mine, owes⟩ := here
      have before : ∀ r, W.locals c ≠ .tail r := by
        rw [hl]
        intro r h
        cases h
      simp only [runLocal, hl] at h
      split at h
      · rename_i ht
        rw [Option.some.injEq] at h
        subst h
        refine ⟨L, inv.goto before ⟨mine, ?_⟩⟩
        simpa only [rollupIncrements, ht] using owes
      · rename_i tags ht
        simp only [off, Bool.false_eq_true, if_false, Option.some.injEq] at h
        subst h
        exact ⟨L, inv.goto before ⟨mine, owes, tags, ht, rfl, rfl⟩⟩
    | watched2 r oldHash attempts marker version =>
      rw [hl] at here
      obtain ⟨mine, owes, tags, ht, rfl, current⟩ := here
      have before : ∀ r, W.locals c ≠ .tail r := by
        rw [hl]
        intro r h
        cases h
      simp only [runLocal, hl, Option.some.injEq] at h
      subst h
      refine ⟨L, inv.goto before ⟨mine, owes, tags, ht, rfl, current, ?_⟩⟩
      simp only [phase2Cmds, off, ht, inv.marker_unset handed mine (before r) tags,
        Bool.false_eq_true, if_false]
    | read2 r oldHash attempts marker version queued =>
      rw [hl] at here
      obtain ⟨mine, owes, tags, ht, rfl, current, rfl⟩ := here
      have before : ∀ r, W.locals c ≠ .tail r := by
        rw [hl]
        intro r h
        cases h
      simp only [runLocal, hl, current, if_true, Option.some.injEq] at h
      subst h
      exact ⟨_, inv.phase2 handed ht mine before owes⟩
    | tail r =>
      simp only [runLocal, hl, Option.some.injEq] at h
      subst h
      exact ⟨L, inv.tail handed hl⟩

theorem Initial.inv {W₀ : World C} (initial : Initial deliveries W₀) :
    Inv opts deliveries key field W₀ .empty where
  reach := .empty
  rollups := initial.rollups key field
  hashes := fun id => initial.hashes (buildKey id)
  current := by
    intro k doc h
    cases h
  locals := by
    intro c
    rw [initial.locals c]
    rfl
  pending := by
    intro p hp
    rwa [initial.pending] at hp
  markers := by
    intro m hm
    rw [initial.markers] at hm
    cases hm

theorem inv_of_reach (handed : Handed opts deliveries) (atomic : useAtomic opts.format = true)
    (off : opts.liveTailMode = false) (tracked : ∀ p ∈ deliveries, key ∉ unstoredKeys p.2.doc)
    {W₀ : World C} (initial : Initial deliveries W₀) (reach : Interleaving.Reach opts W₀ W) :
    ∃ L, Inv opts deliveries key field W L := by
  induction reach with
  | start => exact ⟨.empty, initial.inv⟩
  | step _ next ih =>
    obtain ⟨L, inv⟩ := ih
    exact inv.step handed atomic off tracked next

/-- When every delivered entry has committed Phase 2, nobody owes anything. -/
theorem Inv.quiet (inv : Inv opts deliveries key field W L)
    (committed : ∀ p ∈ deliveries, Committed W p.1 p.2) (c : C) : L.owed c = 0 := by
  have here := inv.locals c
  have done : ∀ r, (c, r) ∈ W.pending → W.locals c = .tail r := by
    intro r mine
    exact (committed (c, r) (inv.pending _ mine)).resolve_left (fun acked => acked mine)
  cases hl : W.locals c with
  | idle => rw [hl] at here; exact here
  | start1 r attempts => rw [hl] at here; exact here.2
  | watched1 r attempts version => rw [hl] at here; exact here.2.1
  | read1 r attempts version oldHash => rw [hl] at here; exact here.2.1
  | start2 r oldHash attempts =>
    rw [hl] at here
    have atTail := done r here.1
    rw [hl] at atTail
    cases atTail
  | watched2 r oldHash attempts marker version =>
    rw [hl] at here
    have atTail := done r here.1
    rw [hl] at atTail
    cases atTail
  | read2 r oldHash attempts marker version queued =>
    rw [hl] at here
    have atTail := done r here.1
    rw [hl] at atTail
    cases atTail
  | tail r => rw [hl] at here; exact here.2

/-- The document keys of the delivered rows. -/
def deliveredKeys (deliveries : List (C × Row)) : Finset String :=
  (deliveries.map fun p => p.2.key).toFinset

end Preserve

section TwoConsumers

def fxDeliveries : List (Bool × Row) :=
  [(false, rowOf atomicOptions fxTen), (true, rowOf atomicOptions fxTwenty)]

def fxStart : World Bool where
  store := .empty
  versions := fun _ => 0
  locals := fun _ => .idle
  pending := fxDeliveries

def fxTaken : World Bool :=
  (fxStart.goto false (.start1 (rowOf atomicOptions fxTen) 0)).goto true
    (.start1 (rowOf atomicOptions fxTwenty) 0)

/-- Both consumers read the empty HASH; the second commit is discarded and
retried, and the retry's delta is paid before the first consumer's. -/
def fxSchedule : List Bool :=
  [false, true, false, true, false, true, true, true, true, true, true, true, false, false, false,
    false, true]

theorem fxSchedule_reach :
    Interleaving.Reach atomicOptions fxStart
      (fxSchedule.foldl (advance atomicOptions) fxTaken) := by
  apply reach_schedule
  refine .step (.step .start (.take rfl ?_)) (.take rfl ?_)
  · exact List.mem_cons_self
  · exact List.mem_cons_of_mem _ List.mem_cons_self

theorem handed_of_alike {deliveries : List (Bool × Row)}
    (prepared : ∀ p ∈ deliveries, ∃ entry, prepare atomicOptions entry = some (.row p.2))
    (distinct : (deliveries.map fun p => p.2.entryId).Nodup)
    (alike : ∀ p ∈ deliveries, ∀ q ∈ deliveries,
      (∀ name ∈ routingFields,
        (strAt p.2.doc name).isSome ∧ strAt p.2.doc name = strAt q.2.doc name) ∧
      (∀ name ∈ ["weighted_value", "weighted_cvr_up", "weighted_cvr_down"],
        (numAt p.2.doc name).isSome = (numAt q.2.doc name).isSome) ∧
      ∀ name ∈ ["weighted_value_per_tenor", "weighted_cvr_up_per_tenor",
          "weighted_cvr_down_per_tenor"],
        (tenorMapAt p.2.doc name).isSome = (tenorMapAt q.2.doc name).isSome ∧
          tenorSet (tenorMapAt p.2.doc name) = tenorSet (tenorMapAt q.2.doc name))
    (oneTenorSet : ∀ p ∈ deliveries, OneTenorSet p.2.doc) :
    Handed atomicOptions deliveries := by
  refine ⟨prepared, distinct, ?_, oneTenorSet⟩
  intro p hp q hq _
  obtain ⟨tags, scalars, tenors⟩ := alike p hp q hq
  exact SameShape.of_strings tags scalars tenors

theorem fxDeliveries_handed : Handed atomicOptions fxDeliveries := by
  apply handed_of_alike
  · intro p hp
    simp only [fxDeliveries, List.mem_cons, List.not_mem_nil, or_false] at hp
    rcases hp with rfl | rfl
    · exact ⟨fxTen, prepare_rowOf (by decide +kernel)⟩
    · exact ⟨fxTwenty, prepare_rowOf (by decide +kernel)⟩
  · decide +kernel
  · decide +kernel
  · unfold OneTenorSet
    decide +kernel

theorem fxByTenor_noColon : DelimitedNames.Free ':' "3-0" := by decide

theorem fxByTenorAgain_noColon : DelimitedNames.Free ':' "4-0" := by decide

def fxByTenor : Entry where
  entryId := ⟨"3-0", fxByTenor_noColon⟩
  fields := some (streamFields "FX" "EURUSD" "F1"
    "\x7b\"sensitivity_type\":\"Delta\",\"risk_value\":\x7b\"1Y\":10\x7d\x7d")

/-- The same row delivered again under another entry id. -/
def fxByTenorAgain : Entry := { fxByTenor with entryId := ⟨"4-0", fxByTenorAgain_noColon⟩ }

def byTenorDeliveries : List (Bool × Row) :=
  [(false, rowOf atomicOptions fxByTenor), (true, rowOf atomicOptions fxByTenorAgain)]

def byTenorStart : World Bool := { fxStart with pending := byTenorDeliveries }

def byTenorTaken : World Bool :=
  (byTenorStart.goto false (.start1 (rowOf atomicOptions fxByTenor) 0)).goto true
    (.start1 (rowOf atomicOptions fxByTenorAgain) 0)

theorem byTenor_reach :
    Interleaving.Reach atomicOptions byTenorStart
      (fxSchedule.foldl (advance atomicOptions) byTenorTaken) := by
  apply reach_schedule
  refine .step (.step .start (.take rfl ?_)) (.take rfl ?_)
  · exact List.mem_cons_self
  · exact List.mem_cons_of_mem _ List.mem_cons_self

theorem byTenorDeliveries_handed : Handed atomicOptions byTenorDeliveries := by
  apply handed_of_alike
  · intro p hp
    simp only [byTenorDeliveries, List.mem_cons, List.not_mem_nil, or_false] at hp
    rcases hp with rfl | rfl
    · exact ⟨fxByTenor, prepare_rowOf (by decide +kernel)⟩
    · exact ⟨fxByTenorAgain, prepare_rowOf (by decide +kernel)⟩
  · decide +kernel
  · decide +kernel
  · unfold OneTenorSet
    decide +kernel

end TwoConsumers

end ConcurrentReingest
