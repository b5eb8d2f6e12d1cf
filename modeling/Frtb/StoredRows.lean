import Frtb.PoisonEntries

/-!
# The documents a batch leaves in the store

A row's document goes to keys of its own, so that a batch leaves each row
stored or written over by a later row of the same id. Increments, sets and
acknowledgements leave the documents alone.
-/

namespace StoredRows

open AssocMaps JsonText EnrichDoc RedisStore StorageWriter RollupDelta BatchWriters HashLayout
open AtomicDelivery BatchRuns AckSafety PoisonEntries

section Definitions
variable (opts : ConsumerOptions)

/-- The store holds what the command wrote to a document. -/
def Written (s : Redis) : Cmd → Prop
  | .hset key fields =>
    ∀ name ∈ fields.map Prod.fst, (s.hashes key).lookup name = (ofPairs fields).lookup name
  | .jsonSet key doc => s.documents key = some doc
  | _ => True

/-- The store holds the row's document, as the storage format lays it out. -/
def Stores (s : Redis) (r : Row) : Prop :=
  phase1Cmds opts r ≠ [] ∧ ∀ c ∈ phase1Cmds opts r, Written s c

/-- The store holds the row's document, or that of a later row of the batch
with its id. -/
def Kept (s : Redis) (rows : List Row) (r : Row) : Prop :=
  ∃ last, (last = r ∨ [r, last].Sublist rows) ∧ last.key = r.key ∧ Stores opts s last

/-- The row is stored under a document key. -/
def Filed (r : Row) : Prop := (∃ id, r.key = buildKey id) ∧ Calibrated r.doc

end Definitions

section Commands
variable {opts : ConsumerOptions} {s : Redis}

/-- The commands write to different documents. -/
def Apart : Cmd → Cmd → Prop
  | .hset key _, .hset key' _ => key ≠ key'
  | .jsonSet key _, .jsonSet key' _ => key ≠ key'
  | _, _ => True

/-- The command writes no document. -/
def Aside : Cmd → Prop
  | .hset _ _ => False
  | .jsonSet _ _ => False
  | _ => True

theorem Aside.apart {d : Cmd} (aside : Aside d) (c : Cmd) : Apart c d := by
  cases d with
  | hset _ _ => exact aside.elim
  | jsonSet _ _ => exact aside.elim
  | _ => cases c <;> trivial

theorem written_apply (c : Cmd) : Written (apply s c) c := by
  cases c with
  | hset key fields =>
    intro name listed
    simp only [apply, if_true]
    exact lookup_assign_congr _ _ listed
  | jsonSet key doc => simp only [Written, apply, if_true]
  | _ => trivial

theorem Written.apply {c d : Cmd} (h : Written s c) (apart : Apart c d) :
    Written (RedisStore.apply s d) c := by
  cases c with
  | hset key fields =>
    cases d with
    | hset key' fields' =>
      simp only [Written, RedisStore.apply, if_neg apart]
      exact h
    | _ => exact h
  | jsonSet key doc =>
    cases d with
    | jsonSet key' doc' =>
      simp only [Written, RedisStore.apply, if_neg apart]
      exact h
    | _ => exact h
  | _ => trivial

theorem Written.exec {c : Cmd} (h : Written s c) {cmds : List Cmd}
    (apart : ∀ d ∈ cmds, Apart c d) : Written (RedisStore.exec s cmds) c := by
  induction cmds generalizing s with
  | nil => exact h
  | cons d cmds ih =>
    rw [List.forall_mem_cons] at apart
    exact ih (h.apply apart.1) apart.2

/-- Commands on different documents all stay written. -/
theorem written_exec {cmds : List Cmd} (apart : cmds.Pairwise Apart) {c : Cmd} (mem : c ∈ cmds) :
    Written (exec s cmds) c := by
  induction cmds generalizing s with
  | nil => cases mem
  | cons d cmds ih =>
    rw [List.pairwise_cons] at apart
    rcases List.mem_cons.mp mem with rfl | mem
    · exact (written_apply c).exec apart.1
    · exact ih apart.2 mem

theorem written_congr {s' : Redis} (same : SameData s s') (c : Cmd) :
    Written s c ↔ Written s' c := by
  cases c with
  | hset key fields => rw [Written, Written, same.hashes]
  | jsonSet key doc => rw [Written, Written, same.documents]
  | _ => rfl

end Commands

section Slots

/-- The HASH keys of a document. -/
inductive Slot where
  | own
  | side
  | shadow

def slotKey (id : String) : Slot → String
  | .own => buildKey id
  | .side => sideTableKeyFor (buildKey id)
  | .shadow => shadowKeyFor (buildKey id)

theorem toList_slotKey (id : String) (slot : Slot) :
    (slotKey id slot).toList =
      match slot with
      | .own => "sens:".toList ++ id.toList
      | .side => "\x7bsens:".toList ++ id.toList ++ "\x7d:tenors".toList
      | .shadow => "sensh:".toList ++ id.toList := by
  cases slot with
  | own => simp [slotKey, buildKey]
  | side => simp [slotKey, buildKey, sideTableKeyFor]
  | shadow =>
    have own : stripPrefix "sens:" (buildKey id) = some id :=
      (stripPrefix_eq_some_iff _ _ _).mpr rfl
    rw [slotKey, shadowKeyFor, own, Option.getD_some, String.toList_append]

/-- No two documents share a HASH key, nor does one use a key twice. -/
theorem slotKey_inj {id id' : String} {slot slot' : Slot}
    (h : slotKey id slot = slotKey id' slot') :
    slot = slot' ∧ id = id' := by
  have letters := congrArg String.toList h
  rw [toList_slotKey, toList_slotKey] at letters
  cases slot <;> cases slot' <;> simp at letters
  · exact ⟨rfl, String.toList_inj.mp letters⟩
  · exact ⟨rfl, String.toList_inj.mp letters⟩
  · exact ⟨rfl, String.toList_inj.mp letters⟩

theorem mem_hsetUnlessEmpty {key : String} {fields : List (String × Stored)} {c : Cmd}
    (h : c ∈ hsetUnlessEmpty key fields) : c = .hset key fields := by
  cases fields with
  | nil => cases h
  | cons p ps => exact List.mem_singleton.mp h

/-- A document command sets one of the document's HASHes or its JSON value. -/
theorem mem_phase1Cmds {opts : ConsumerOptions} {r : Row} {id : String} (hkey : r.key = buildKey id)
    {c : Cmd} (h : c ∈ phase1Cmds opts r) :
    (∃ slot fields, c = .hset (slotKey id slot) fields) ∨ c = .jsonSet (buildKey id) r.doc := by
  rw [phase1Cmds, hkey] at h
  cases hf : opts.format with
  | hashSidetable =>
    rw [hf] at h
    rcases List.mem_append.mp h with h | h
    · exact Or.inl ⟨.own, _, mem_hsetUnlessEmpty h⟩
    · rw [Option.mem_toList, Option.map_eq_some_iff] at h
      obtain ⟨side, _, rfl⟩ := h
      exact Or.inl ⟨.side, side, rfl⟩
  | hashEncoded =>
    rw [hf] at h
    exact Or.inl ⟨.own, _, mem_hsetUnlessEmpty h⟩
  | json =>
    rw [hf] at h
    exact Or.inr (List.mem_singleton.mp h)
  | jsonShadowHash =>
    rw [hf] at h
    rcases List.mem_cons.mp h with h | h
    · exact Or.inr h
    · exact Or.inl ⟨.shadow, _, mem_hsetUnlessEmpty h⟩

theorem pairwise_hsetUnlessEmpty (key : String) (fields : List (String × Stored)) :
    (hsetUnlessEmpty key fields).Pairwise Apart := by
  cases fields with
  | nil => exact .nil
  | cons p ps => exact List.pairwise_singleton _ _

/-- The commands of one document write to different keys. -/
theorem pairwise_phase1Cmds {opts : ConsumerOptions} {r : Row} {id : String}
    (hkey : r.key = buildKey id) : (phase1Cmds opts r).Pairwise Apart := by
  rw [phase1Cmds, hkey]
  cases opts.format with
  | hashSidetable =>
    rw [writeDocForStorage, List.pairwise_append]
    refine ⟨pairwise_hsetUnlessEmpty _ _, ?_, fun c hc d hd => ?_⟩
    · cases sideTableArgsFor r.doc with
      | none => exact .nil
      | some side => exact List.pairwise_singleton _ _
    · rw [Option.mem_toList, Option.map_eq_some_iff] at hd
      obtain ⟨side, _, rfl⟩ := hd
      rw [mem_hsetUnlessEmpty hc]
      exact buildKey_ne_sideTableKey id _
  | hashEncoded => exact pairwise_hsetUnlessEmpty _ _
  | json => exact List.pairwise_singleton _ _
  | jsonShadowHash =>
    rw [writeDocForStorage, List.pairwise_cons]
    refine ⟨fun d hd => ?_, pairwise_hsetUnlessEmpty _ _⟩
    rw [mem_hsetUnlessEmpty hd]
    trivial

/-- Rows of different ids write to different documents. -/
theorem apart_of_key_ne {opts : ConsumerOptions} {r r' : Row} (filed : Filed r) (filed' : Filed r')
    (other : r'.key ≠ r.key) {c d : Cmd} (hc : c ∈ phase1Cmds opts r)
    (hd : d ∈ phase1Cmds opts r') : Apart c d := by
  obtain ⟨⟨id, hkey⟩, _⟩ := filed
  obtain ⟨⟨id', hkey'⟩, _⟩ := filed'
  have distinct : id ≠ id' := by
    rintro rfl
    exact other (hkey'.trans hkey.symm)
  rcases mem_phase1Cmds hkey hc with ⟨slot, fields, rfl⟩ | rfl
  · rcases mem_phase1Cmds hkey' hd with ⟨slot', fields', rfl⟩ | rfl
    · exact fun same => distinct (slotKey_inj same).2
    · trivial
  · rcases mem_phase1Cmds hkey' hd with ⟨slot', fields', rfl⟩ | rfl
    · trivial
    · exact fun same => distinct (@slotKey_inj _ _ .own .own same).2

theorem phase1Cmds_ne_nil {opts : ConsumerOptions} {r : Row} (filed : Filed r) :
    phase1Cmds opts r ≠ [] := by
  have some : ∀ key extra, hsetUnlessEmpty key (flattenDocForHash r.doc ++ extra) ≠ [] := by
    intro key extra
    obtain ⟨p, ps, hp⟩ := List.exists_cons_of_ne_nil filed.2.flatten_ne_nil
    rw [hp]
    exact List.cons_ne_nil _ _
  rw [phase1Cmds]
  cases opts.format with
  | hashSidetable =>
    intro none
    have own := some r.key []
    rw [List.append_nil] at own
    exact own (List.append_eq_nil_iff.mp none).1
  | hashEncoded => exact some r.key _
  | json => exact List.cons_ne_nil _ _
  | jsonShadowHash => exact List.cons_ne_nil _ _

end Slots

section Rest
variable {opts : ConsumerOptions} {r : Row}

theorem IsIncrement.aside {c : Cmd} (h : IsIncrement c) : Aside c := by
  cases c with
  | hincrbyfloat _ _ _ => trivial
  | _ => exact h.elim

theorem phase2Cmds_aside {oldHash : Hash} {markers : Finset String} {c : Cmd}
    (h : c ∈ phase2Cmds opts oldHash markers r) : Aside c := by
  unfold phase2Cmds at h
  split at h
  · cases h
  split at h
  · cases h
  split at h
  · rw [List.mem_singleton.mp h]
    trivial
  · rcases List.mem_append.mp h with h | h
    · exact IsIncrement.aside (isIncrement_rollupDelta h)
    · simp only [List.mem_cons, List.not_mem_nil, or_false] at h
      rcases h with rfl | rfl
      · trivial
      · trivial

theorem tailSadds_aside {c : Cmd} (h : c ∈ tailSadds opts r) : Aside c := by
  simp only [tailSadds, List.mem_append] at h
  rcases h with h | h
  all_goals
    split at h
    · rw [List.mem_singleton.mp h]
      trivial
    · cases h

theorem seenSadds_aside {doc : Props} {c : Cmd} (h : c ∈ emitSeenSadds doc) : Aside c := by
  unfold emitSeenSadds at h
  split at h
  · cases h
  · simp only [List.mem_cons, List.not_mem_nil, or_false] at h
    rcases h with rfl | rfl | rfl
    · trivial
    · trivial
    · trivial

theorem suggestCmds_aside {doc : Props} {c : Cmd} (h : c ∈ suggestCmds doc) : Aside c := by
  obtain ⟨p, _, hp⟩ := List.mem_filterMap.mp h
  split at hp
  · cases hp
  · split at hp
    · cases hp
      trivial
    · cases hp

/-- What either writer sends for a row: its document, and commands that write
no document. -/
def Sends (cmds : List Cmd) (r : Row) (opts : ConsumerOptions) : Prop :=
  ∃ rest, cmds = phase1Cmds opts r ++ rest ∧ ∀ c ∈ rest, Aside c

theorem sends_atomic (s : Redis) :
    Sends (phase1Cmds opts r ++
      (phase2Cmds opts (s.hashes r.key) s.markers r ++ tailSadds opts r)) r opts :=
  ⟨_, rfl, fun _ hc => (List.mem_append.mp hc).elim phase2Cmds_aside tailSadds_aside⟩

theorem sends_piped : Sends (rowCmds opts r) r opts := by
  refine ⟨_, rfl, fun c hc => ?_⟩
  split at hc
  · cases hc
  · rcases List.mem_append.mp hc with hc | hc
    · rcases List.mem_append.mp hc with hc | hc
      · exact IsIncrement.aside (isIncrement_rollupHincrs hc)
      · exact seenSadds_aside hc
    · exact suggestCmds_aside hc

theorem Sends.stores {cmds : List Cmd} (sends : Sends cmds r opts) (filed : Filed r) (s : Redis) :
    Stores opts (exec s cmds) r := by
  obtain ⟨rest, rfl, aside⟩ := sends
  obtain ⟨id, hkey⟩ := filed.1
  refine ⟨phase1Cmds_ne_nil filed, fun c hc => ?_⟩
  rw [exec_append]
  exact (written_exec (pairwise_phase1Cmds hkey) hc).exec fun d hd => (aside d hd).apart c

theorem Sends.spares {cmds : List Cmd} (sends : Sends cmds r opts) {r' : Row} (filed : Filed r)
    (filed' : Filed r') (other : r.key ≠ r'.key) {s : Redis} (stores : Stores opts s r') :
    Stores opts (exec s cmds) r' := by
  obtain ⟨rest, rfl, aside⟩ := sends
  refine ⟨stores.1, fun c hc => (stores.2 c hc).exec fun d hd => ?_⟩
  rcases List.mem_append.mp hd with hd | hd
  · exact apart_of_key_ne filed' filed other hc hd
  · exact (aside d hd).apart c

end Rest

section Batches
variable {opts : ConsumerOptions} {s : Redis}

/-- Each row of a batch is kept, whichever writer applies the rows. -/
theorem kept_foldl {applied : Redis → Row → Redis} {sent : Redis → Row → List Cmd}
    (runs : ∀ s r, applied s r = exec s (sent s r)) (sends : ∀ s r, Sends (sent s r) r opts)
    {rows : List Row} (filed : ∀ r ∈ rows, Filed r) (s : Redis) {r : Row} (mem : r ∈ rows) :
    Kept opts (rows.foldl applied s) rows r := by
  induction rows using List.reverseRecOn with
  | nil => cases mem
  | append_singleton rows newest ih =>
    rw [List.foldl_append, List.foldl_cons, List.foldl_nil, runs]
    have filedNewest : Filed newest := filed newest (by simp)
    rcases List.mem_append.mp mem with front | last
    · by_cases same : newest.key = r.key
      · have behind : [r, newest].Sublist (rows ++ [newest]) :=
          (List.singleton_sublist.mpr front).append (List.Sublist.refl [newest])
        exact ⟨newest, Or.inr behind, same, (sends _ newest).stores filedNewest _⟩
      · obtain ⟨last, place, hkey, stores⟩ :=
          ih (fun r hr => filed r (List.mem_append_left _ hr)) front
        have earlier : last ∈ rows :=
          place.elim (fun h => h ▸ front) fun h => h.subset (by simp)
        have filedLast : Filed last := filed last (List.mem_append_left _ earlier)
        refine ⟨last, place.imp_right fun h => h.trans (List.sublist_append_left _ _), hkey, ?_⟩
        exact (sends _ newest).spares filedNewest filedLast (hkey ▸ same) stores
    · rw [List.mem_singleton.mp last]
      exact ⟨newest, Or.inl rfl, rfl, (sends _ newest).stores filedNewest _⟩

theorem Kept.congr {s' : Redis} (same : SameData s s') {rows : List Row} {r : Row}
    (kept : Kept opts s' rows r) : Kept opts s rows r := by
  obtain ⟨last, place, hkey, present, written⟩ := kept
  exact ⟨last, place, hkey, present, fun c hc => (written_congr same c).mpr (written c hc)⟩

theorem Kept.mono {front rows : List Row} (sub : front.Sublist rows) {r : Row}
    (kept : Kept opts s front r) : Kept opts s rows r := by
  obtain ⟨last, place, hkey, stores⟩ := kept
  exact ⟨last, place.imp_right fun h => h.trans sub, hkey, stores⟩

theorem filed_of_mem {entries : List Entry} {r : Row} (h : r ∈ rowsIn opts entries) : Filed r := by
  obtain ⟨entry, _, row⟩ := mem_rowsIn.mp h
  exact ⟨(prepare_row row).2.1, (prepare_row row).2.2⟩

/-- The atomic writer keeps the rows in front of the first entry that throws. -/
theorem kept_atomic {entries : List Entry} {r : Row}
    (mem : r ∈ rowsIn opts (beforeBad opts entries)) :
    Kept opts (processBatchAtomic opts noFaults s 0 entries).1 (rowsIn opts entries) r := by
  have front : (rowsIn opts (beforeBad opts entries)).Sublist (rowsIn opts entries) := by
    have parts := @rowsIn_append opts (beforeBad opts entries) (fromBad opts entries)
    rw [split_bad] at parts
    rw [parts]
    exact List.sublist_append_left _ _
  have kept : Kept opts ((rowsIn opts (beforeBad opts entries)).foldl (applyRow opts) s)
      (rowsIn opts (beforeBad opts entries)) r :=
    kept_foldl (fun _ _ => rfl) (fun s _ => sends_atomic s) (fun _ hr => filed_of_mem hr) s mem
  rw [← rowsOf_reached] at kept
  rw [processBatchAtomic_fst]
  exact (kept.congr (sameData_applyAll s _)).mono (rowsOf_reached entries ▸ front)

/-- The pipelined writer keeps the rows of a batch without bad entries. -/
theorem kept_piped {entries : List Entry} (clean : Clean opts entries) {r : Row}
    (mem : r ∈ rowsIn opts entries) :
    Kept opts (processBatch opts noFaults s entries).1 (rowsIn opts entries) r := by
  have kept : Kept opts ((rowsIn opts entries).foldl (applyRowPiped opts) s)
      (rowsIn opts entries) r :=
    kept_foldl (fun _ _ => rfl) (fun _ _ => sends_piped) (fun _ hr => filed_of_mem hr) s mem
  obtain ⟨prepared, all⟩ := Option.isSome_iff_exists.mp ((mapM_isSome_iff entries).mpr clean)
  have same := @sameData_piped opts s prepared
  rw [processBatch_eq, all, Option.getD_some]
  rw [← filterMap_of_mapM all, ← rowsIn] at same
  rw [← filterMap_of_mapM all]
  exact kept.congr same

end Batches

end StoredRows
