import Frtb.BatchRuns
import Frtb.AckSafety

/-!
# Halt and flush

The flush trims every shard stream and walks each master with SCAN, unlinking
the document keys it is handed. A failed batch is tried again key by key. Only
a failing SCAN makes it reject: an error of XTRIM or of a single UNLINK is
swallowed, and a reply of another form ends the walk of that master.
-/

namespace HaltAndFlush

open AssocMaps JsonText EnrichDoc RollupKeys RedisStore StorageWriter BatchWriters

section Store

structure Store where
  redis : Redis
  /-- The length of each stream. -/
  streams : String → ℕ

/-- The key exists, as a HASH or as a JSON document. -/
def has (s : Redis) (k : String) : Prop := (s.hashes k).keys ≠ [] ∨ (s.documents k).isSome

instance (s : Redis) (k : String) : Decidable (has s k) :=
  inferInstanceAs (Decidable (_ ∨ _))

def unlink (keys : List String) (s : Store) : Store :=
  { s with
    redis :=
      { s.redis with
        hashes := fun k => if k ∈ keys then ∅ else s.redis.hashes k
        documents := fun k => if k ∈ keys then none else s.redis.documents k } }

def xtrim (key : String) (s : Store) : Store :=
  { s with streams := fun k => if k = key then 0 else s.streams k }

/-- How a command fares: done, refused, or done with its reply lost. -/
inductive Outcome where
  | done
  | refused
  | lost
deriving DecidableEq

def Outcome.took (o : Outcome) : Prop := o ≠ .refused

instance (o : Outcome) : Decidable o.took := inferInstanceAs (Decidable (_ ≠ _))

def Outcome.run (o : Outcome) (command : Store → Store) (s : Store) : Store :=
  if o.took then command s else s

end Store

section Keys

def shardStreamKey (base : String) (shard totalShards : ℕ) : String :=
  if totalShards ≤ 1 then base else base ++ ":\x7b" ++ Nat.repr shard ++ "\x7d"

/-- `MATCH sens:*`. -/
def isDocKey (k : String) : Bool := (stripPrefix "sens:" k).isSome

/-- The mirror and the side table of a document. -/
def IsCompanion (k : String) : Prop :=
  ∃ id, k = shadowKeyFor (buildKey id) ∨ k = sideTableKeyFor (buildKey id)

/-- A key that is written for a row. -/
def IsRowKey (k : String) : Prop := isDocKey k ∨ IsCompanion k

/-- The index covers the HASHes of documents and mirrors that have a class. -/
def indexed (s : Redis) (k : String) : Prop :=
  (isDocKey k ∨ (stripPrefix "sensh:" k).isSome) ∧ ((s.hashes k).lookup "risk_class").isSome

end Keys

section Flush

inductive ScanReply where
  | rejected
  | malformed
  | page (cursor : String) (keys : List String)

/-- What the servers answer: the XTRIM of each shard, the SCAN replies of each
master in turn, and the UNLINK calls of each batch of each page, first the
batch itself and then its keys one by one. -/
structure Script (n : ℕ) where
  xtrim : ℕ → Outcome
  scan : Fin n → List ScanReply
  unlink : Fin n → ℕ → ℕ → Option ℕ → Outcome

/-- The counters of a flush with the store they leave. -/
abbrev Progress := Store × ℕ

inductive Ending where
  | finished (acc : Progress)
  | rejected (acc : Progress)
  /-- A SCAN without a reply, or a loop that does not advance. -/
  | waiting (acc : Progress)

def trimShardStreams (xtrims : ℕ → Outcome) (baseStream : String) (totalShards : ℕ) (s : Store) :
    Progress :=
  (List.range totalShards).foldl (fun acc shard =>
    ((xtrims shard).run (xtrim (shardStreamKey baseStream shard totalShards)) acc.1, acc.2 + 1))
    (s, 0)

/-- The slices of `size` keys, as many as the fuel allows. -/
def slices (size : ℕ) : ℕ → List String → List (List String)
  | 0, _ => []
  | fuel + 1, keys =>
    if keys = [] then [] else keys.take size :: slices size fuel (keys.drop size)

/-- The UNLINK calls for one batch. -/
def batchCalls (out : Option ℕ → Outcome) (batch : List String) : List (List String × Outcome) :=
  (batch, out none) ::
    if out none = .done then [] else batch.zipIdx.map fun p => ([p.1], out (some p.2))

def pageCalls (size : ℕ) (out : ℕ → Option ℕ → Outcome) (keys : List String) :
    List (List String × Outcome) :=
  (slices size keys.length keys).zipIdx.flatMap fun p => batchCalls (out p.2) p.1

def applyCall (acc : Progress) (call : List String × Outcome) : Progress :=
  (call.2.run (unlink call.1) acc.1, if call.2 = .done then acc.2 + call.1.length else acc.2)

/-- The SCAN loop of one master from page `i` on. -/
def scanLoop (size : ℕ) (out : ℕ → ℕ → Option ℕ → Outcome) : ℕ → List ScanReply → Progress → Ending
  | _, [], acc => .waiting acc
  | _, .rejected :: _, acc => .rejected acc
  | _, .malformed :: _, acc => .finished acc
  | i, .page cursor keys :: rest, acc =>
    if size = 0 ∧ keys ≠ [] then .waiting acc
    else
      let acc := (pageCalls size (out i) keys).foldl applyCall acc
      if cursor = "0" then .finished acc else scanLoop size out (i + 1) rest acc

def clearSensDocs {n : ℕ} (script : Script n) (size : ℕ) : List (Fin n) → Progress → Ending
  | [], acc => .finished acc
  | node :: nodes, acc =>
    match scanLoop size (script.unlink node) 0 (script.scan node) acc with
    | .finished acc => clearSensDocs script size nodes acc
    | ending => ending

structure HaltAndFlushReport where
  streamsTrimmed : ℕ
  docsCleared : ℕ
deriving DecidableEq

inductive Flushed where
  | resolved (s : Store) (report : HaltAndFlushReport)
  | rejected (s : Store)
  | waiting (s : Store)

def defaultUnlinkBatch : ℕ := 500

/-- `performHaltAndFlush` with `clearDocs`. -/
def performHaltAndFlush {n : ℕ} (script : Script n) (unlinkBatchSize : Option ℕ)
    (baseStream : String) (totalShards : ℕ) (s : Store) : Flushed :=
  let trimmed := trimShardStreams script.xtrim baseStream totalShards s
  match clearSensDocs script (unlinkBatchSize.getD defaultUnlinkBatch) (List.finRange n)
      (trimmed.1, 0) with
  | .finished acc => .resolved acc.1 ⟨trimmed.2, acc.2⟩
  | .rejected acc => .rejected acc.1
  | .waiting acc => .waiting acc.1

end Flush

section Trim
variable {s : Store}

theorem streams_run_xtrim (o : Outcome) (key k : String) (s : Store) :
    (o.run (xtrim key) s).streams k = if o.took ∧ k = key then 0 else s.streams k := by
  unfold Outcome.run
  by_cases took : o.took
  · simp [took, xtrim]
  · simp [took]

theorem redis_run_xtrim (o : Outcome) (key : String) (s : Store) :
    (o.run (xtrim key) s).redis = s.redis := by
  unfold Outcome.run
  split <;> rfl

theorem shardStreamKey_inj {base : String} {total shard shard' : ℕ} (bound : shard < total)
    (bound' : shard' < total)
    (same : shardStreamKey base shard total = shardStreamKey base shard' total) :
    shard = shard' := by
  unfold shardStreamKey at same
  split at same
  · omega
  · have digits : Nat.repr shard = Nat.repr shard' := by
      have lists := congrArg String.toList same
      simp only [String.toList_append, List.append_cancel_right_eq, List.append_cancel_left_eq]
        at lists
      exact String.toList_injective lists
    exact Nat.repr_inj.mp digits

/-- A stream is empty after the trims exactly when a trim of it took effect, or
it was empty before. -/
theorem trim_streams (xtrims : ℕ → Outcome) (base : String) (total : ℕ) (s : Store) (k : String) :
    (trimShardStreams xtrims base total s).1.streams k = 0 ↔
      s.streams k = 0 ∨
        ∃ shard < total, (xtrims shard).took ∧ k = shardStreamKey base shard total := by
  have step : ∀ (shards : List ℕ) (acc : Progress),
      (shards.foldl (fun (acc : Progress) shard =>
        ((xtrims shard).run (xtrim (shardStreamKey base shard total)) acc.1, acc.2 + 1))
        acc).1.streams k = 0 ↔
      acc.1.streams k = 0 ∨
        ∃ shard ∈ shards, (xtrims shard).took ∧ k = shardStreamKey base shard total := by
    intro shards
    induction shards with
    | nil => simp
    | cons shard shards ih =>
      intro acc
      rw [List.foldl_cons, ih, streams_run_xtrim]
      by_cases trimmed : (xtrims shard).took ∧ k = shardStreamKey base shard total
      · simp [trimmed]
      · rw [if_neg trimmed]
        constructor
        · rintro (empty | ⟨other, mem, took⟩)
          · exact Or.inl empty
          · exact Or.inr ⟨other, List.mem_cons_of_mem _ mem, took⟩
        · rintro (empty | ⟨other, mem, took⟩)
          · exact Or.inl empty
          · rcases List.mem_cons.mp mem with rfl | mem
            · exact absurd took trimmed
            · exact Or.inr ⟨other, mem, took⟩
  have all := step (List.range total) (s, 0)
  simp only [List.mem_range] at all
  exact all

theorem trim_redis (xtrims : ℕ → Outcome) (base : String) (total : ℕ) (s : Store) :
    (trimShardStreams xtrims base total s).1.redis = s.redis := by
  refine List.foldlRecOn (List.range total) _
    (motive := fun acc : Progress => acc.1.redis = s.redis)
    rfl fun acc kept shard _ => ?_
  exact (redis_run_xtrim _ _ _).trans kept

end Trim

section Calls

theorem has_unlink (keys : List String) (s : Store) (k : String) :
    has (unlink keys s).redis k ↔ has s.redis k ∧ k ∉ keys := by
  by_cases named : k ∈ keys
  · simp [has, unlink, named]
  · simp [has, unlink, named]

theorem streams_applyCall (acc : Progress) (call : List String × Outcome) :
    (applyCall acc call).1.streams = acc.1.streams := by
  unfold applyCall Outcome.run
  split <;> rfl

theorem has_applyCall (acc : Progress) (call : List String × Outcome) (k : String) :
    has (applyCall acc call).1.redis k ↔
      has acc.1.redis k ∧ ¬ (call.2.took ∧ k ∈ call.1) := by
  by_cases took : call.2.took
  · simp [applyCall, Outcome.run, took, has_unlink]
  · simp [applyCall, Outcome.run, took]

/-- After a list of calls a key is there when it was and no call that took
effect names it. -/
theorem has_foldl (calls : List (List String × Outcome)) (acc : Progress) (k : String) :
    has (calls.foldl applyCall acc).1.redis k ↔
      has acc.1.redis k ∧ ∀ call ∈ calls, ¬ (call.2.took ∧ k ∈ call.1) := by
  induction calls generalizing acc with
  | nil => simp
  | cons call calls ih =>
    rw [List.foldl_cons, ih, has_applyCall, List.forall_mem_cons, and_assoc]

theorem streams_foldl (calls : List (List String × Outcome)) (acc : Progress) :
    (calls.foldl applyCall acc).1.streams = acc.1.streams := by
  induction calls generalizing acc with
  | nil => rfl
  | cons call calls ih => rw [List.foldl_cons, ih, streams_applyCall]

end Calls

section Walk
variable {n : ℕ}

/-- The walk of a master comes to an end without an error. -/
def finishes (size : ℕ) : List ScanReply → Bool
  | [] => false
  | .rejected :: _ => false
  | .malformed :: _ => true
  | .page cursor keys :: rest =>
    if size = 0 ∧ keys ≠ [] then false else if cursor = "0" then true else finishes size rest

/-- The walk of a master comes back to cursor `0`. -/
def completed (size : ℕ) : List ScanReply → Bool
  | .page cursor keys :: rest =>
    if size = 0 ∧ keys ≠ [] then false else if cursor = "0" then true else completed size rest
  | _ => false

/-- The pages that the walk of a master reads. -/
def pagesRead (size : ℕ) : List ScanReply → List (List String)
  | .page cursor keys :: rest =>
    if size = 0 ∧ keys ≠ [] then []
    else if cursor = "0" then [keys] else keys :: pagesRead size rest
  | _ => []

/-- The UNLINK calls of a walk, from page `i` on. -/
def walkCalls (size : ℕ) (out : ℕ → ℕ → Option ℕ → Outcome) :
    ℕ → List (List String) → List (List String × Outcome)
  | _, [] => []
  | i, keys :: pages => pageCalls size (out i) keys ++ walkCalls size out (i + 1) pages

def nodeCalls (script : Script n) (size : ℕ) (node : Fin n) : List (List String × Outcome) :=
  walkCalls size (script.unlink node) 0 (pagesRead size (script.scan node))

/-- A walk that finishes has made its calls, and only such a walk finishes. -/
theorem scanLoop_eq (size : ℕ) (out : ℕ → ℕ → Option ℕ → Outcome) (i : ℕ)
    (replies : List ScanReply) (acc : Progress) :
    (finishes size replies = true ∧ scanLoop size out i replies acc =
        .finished ((walkCalls size out i (pagesRead size replies)).foldl applyCall acc)) ∨
      finishes size replies = false ∧ ∀ acc', scanLoop size out i replies acc ≠ .finished acc' := by
  induction replies generalizing i acc with
  | nil => exact Or.inr ⟨rfl, fun _ => by simp [scanLoop]⟩
  | cons reply rest ih =>
    cases reply with
    | rejected => exact Or.inr ⟨rfl, fun _ => by simp [scanLoop]⟩
    | malformed => exact Or.inl ⟨rfl, rfl⟩
    | page cursor keys =>
      by_cases stuck : size = 0 ∧ keys ≠ []
      · exact Or.inr ⟨by simp [finishes, stuck], fun _ => by simp [scanLoop, stuck]⟩
      · by_cases last : cursor = "0"
        · refine Or.inl ⟨by simp [finishes, stuck, last], ?_⟩
          simp only [scanLoop, pagesRead, if_neg stuck, if_pos last, walkCalls, List.append_nil]
        · simp only [finishes, scanLoop, pagesRead, if_neg stuck, if_neg last, walkCalls,
            List.foldl_append]
          exact ih (i + 1) _

theorem clearSensDocs_eq (script : Script n) (size : ℕ) (nodes : List (Fin n)) (acc : Progress) :
    ((∀ node ∈ nodes, finishes size (script.scan node) = true) ∧
        clearSensDocs script size nodes acc =
          .finished ((nodes.flatMap (nodeCalls script size)).foldl applyCall acc)) ∨
      (∃ node ∈ nodes, finishes size (script.scan node) = false) ∧
        ∀ acc', clearSensDocs script size nodes acc ≠ .finished acc' := by
  induction nodes generalizing acc with
  | nil => exact Or.inl ⟨by simp, rfl⟩
  | cons node nodes ih =>
    rcases scanLoop_eq size (script.unlink node) 0 (script.scan node) acc with
      ⟨ends, walked⟩ | ⟨stops, walked⟩
    · rw [clearSensDocs, walked]
      dsimp only
      rw [List.flatMap_cons, List.foldl_append]
      rcases ih ((nodeCalls script size node).foldl applyCall acc) with
        ⟨all, cleared⟩ | ⟨⟨other, mem, stops⟩, cleared⟩
      · exact Or.inl ⟨List.forall_mem_cons.mpr ⟨ends, all⟩, cleared⟩
      · exact Or.inr ⟨⟨other, List.mem_cons_of_mem _ mem, stops⟩, cleared⟩
    · refine Or.inr ⟨⟨node, List.mem_cons_self, stops⟩, fun acc' => ?_⟩
      rw [clearSensDocs]
      split
      · rename_i acc'' walked'
        exact absurd walked' (walked acc'')
      · exact walked acc'

end Walk

section Complete
variable {n : ℕ} {owner : String → Fin n} {script : Script n} {size : ℕ} {s : Store}

/-- What a flush that resolves promises: no key of a row, an empty index and
empty shard streams. -/
def Complete (baseStream : String) (totalShards : ℕ) : Flushed → Prop
  | .resolved s _ =>
    (∀ k, IsRowKey k → ¬ has s.redis k) ∧ (∀ k, ¬ indexed s.redis k) ∧
      ∀ shard < totalShards, s.streams (shardStreamKey baseStream shard totalShards) = 0
  | _ => True

/-- A SCAN hands out document keys of its own master, and by the time it comes
back to cursor `0` every one that has been there throughout. -/
structure Scans (owner : String → Fin n) (script : Script n) (size : ℕ) (s : Store) : Prop where
  matched : ∀ node, ∀ keys ∈ pagesRead size (script.scan node), ∀ k ∈ keys,
    isDocKey k ∧ owner k = node
  covers : ∀ node, completed size (script.scan node) → ∀ k, isDocKey k → owner k = node →
    has s.redis k → ∃ keys ∈ pagesRead size (script.scan node), k ∈ keys

/-- An UNLINK that names the key took effect. -/
def Unlinked (script : Script n) (size : ℕ) (node : Fin n) (k : String) : Prop :=
  ∃ call ∈ nodeCalls script size node, call.2.took ∧ k ∈ call.1

/-- Nothing is out of the flush's reach and no error is swallowed. -/
structure Reaches (owner : String → Fin n) (script : Script n) (size : ℕ) (baseStream : String)
    (totalShards : ℕ) (s : Store) : Prop where
  bare : ∀ k, IsCompanion k → ¬ has s.redis k
  trims : ∀ shard < totalShards,
    (script.xtrim shard).took ∨ s.streams (shardStreamKey baseStream shard totalShards) = 0
  walks : ∀ node, completed size (script.scan node) ∨
    ∀ k, isDocKey k → owner k = node → has s.redis k →
      ∃ keys ∈ pagesRead size (script.scan node), k ∈ keys
  unlinks : ∀ node, ∀ keys ∈ pagesRead size (script.scan node), ∀ k ∈ keys,
    has s.redis k → Unlinked script size node k

theorem mem_slices {size fuel : ℕ} {keys batch : List String}
    (listed : batch ∈ slices size fuel keys) : batch ⊆ keys := by
  induction fuel generalizing keys with
  | zero => cases listed
  | succ fuel ih =>
    rw [slices] at listed
    split at listed
    · cases listed
    · rcases List.mem_cons.mp listed with rfl | later
      · exact List.take_subset size keys
      · exact fun k mem => List.drop_subset size keys (ih later mem)

/-- A call names keys of its page only. -/
theorem mem_pageCalls {size : ℕ} {out : ℕ → Option ℕ → Outcome} {keys : List String}
    {call : List String × Outcome} (made : call ∈ pageCalls size out keys) : call.1 ⊆ keys := by
  obtain ⟨⟨batch, b⟩, listed, made⟩ := List.mem_flatMap.mp made
  have inPage : batch ⊆ keys := mem_slices (List.fst_mem_of_mem_zipIdx listed)
  rcases List.mem_cons.mp made with rfl | made
  · exact inPage
  · split at made
    · cases made
    · obtain ⟨⟨k, j⟩, position, rfl⟩ := List.mem_map.mp made
      intro k' mem
      rw [List.mem_singleton.mp mem]
      exact inPage (List.fst_mem_of_mem_zipIdx position)

theorem mem_walkCalls {out : ℕ → ℕ → Option ℕ → Outcome} {i : ℕ} {pages : List (List String)}
    {call : List String × Outcome} (made : call ∈ walkCalls size out i pages) :
    ∃ keys ∈ pages, call.1 ⊆ keys := by
  induction pages generalizing i with
  | nil => cases made
  | cons keys pages ih =>
    rcases List.mem_append.mp made with here | later
    · exact ⟨keys, List.mem_cons_self, mem_pageCalls here⟩
    · obtain ⟨keys', mem, named⟩ := ih later
      exact ⟨keys', List.mem_cons_of_mem _ mem, named⟩

/-- A key that was unlinked had been handed out. -/
theorem Unlinked.returned {node : Fin n} {k : String} (unlinked : Unlinked script size node k) :
    ∃ keys ∈ pagesRead size (script.scan node), k ∈ keys := by
  obtain ⟨call, made, _, named⟩ := unlinked
  obtain ⟨keys, mem, within⟩ := mem_walkCalls made
  exact ⟨keys, mem, within named⟩

theorem isDocKey_iff (k : String) : isDocKey k = true ↔ ∃ id, k = buildKey id := by
  rw [isDocKey, Option.isSome_iff_exists]
  exact exists_congr fun id => stripPrefix_eq_some_iff "sens:" k id

theorem stripPrefix_buildKey (id : String) : stripPrefix "sens:" (buildKey id) = some id :=
  (stripPrefix_eq_some_iff "sens:" (buildKey id) id).mpr rfl

theorem not_isDocKey_of_companion {k : String} (companion : IsCompanion k) : ¬ isDocKey k := by
  rw [isDocKey_iff]
  rintro ⟨id', rfl⟩
  obtain ⟨id, mirror | side⟩ := companion
  · rw [shadowKeyFor, stripPrefix_buildKey, Option.getD_some] at mirror
    have lists := congrArg String.toList mirror
    simp [buildKey] at lists
  · exact AtomicDelivery.buildKey_ne_sideTableKey id' (buildKey id) side

/-- The indexed keys are keys of rows. -/
theorem isRowKey_of_indexed {s : Redis} {k : String} (listed : indexed s k) :
    IsRowKey k ∧ has s k := by
  obtain ⟨covered, classed⟩ := listed
  constructor
  · rcases covered with doc | mirror
    · exact Or.inl doc
    · obtain ⟨id, rest⟩ := Option.isSome_iff_exists.mp mirror
      refine Or.inr ⟨id, Or.inl ?_⟩
      rw [shadowKeyFor, stripPrefix_buildKey, Option.getD_some]
      exact (stripPrefix_eq_some_iff "sensh:" k id).mp rest
  · left
    rw [AList.lookup_isSome, AList.mem_keys] at classed
    exact List.ne_nil_of_mem classed

/-- Which keys a walk over all masters leaves. -/
theorem has_after (valid : Scans owner script size s) (acc : Progress)
    (start : acc.1.redis = s.redis) (k : String) :
    has (((List.finRange n).flatMap (nodeCalls script size)).foldl applyCall acc).1.redis k ↔
      has s.redis k ∧ ¬ Unlinked script size (owner k) k := by
  rw [has_foldl, start]
  refine and_congr_right fun _ => ⟨fun spared unlinked => ?_, fun spared call made named => ?_⟩
  · obtain ⟨call, made, took, named⟩ := unlinked
    exact spared call (List.mem_flatMap.mpr ⟨owner k, List.mem_finRange _, made⟩) ⟨took, named⟩
  · obtain ⟨node, _, made⟩ := List.mem_flatMap.mp made
    have unlinked : Unlinked script size node k := ⟨call, made, named⟩
    obtain ⟨keys, page, mem⟩ := unlinked.returned
    rw [← (valid.matched node keys page k mem).2] at unlinked
    exact spared unlinked

/-- The keys of rows are all gone exactly when there was no companion and every
document key was unlinked. -/
theorem rows_gone_iff (valid : Scans owner script size s) (acc : Progress)
    (start : acc.1.redis = s.redis) :
    (∀ k, IsRowKey k →
      ¬ has (((List.finRange n).flatMap (nodeCalls script size)).foldl applyCall acc).1.redis k) ↔
    (∀ k, IsCompanion k → ¬ has s.redis k) ∧
      (∀ node, completed size (script.scan node) ∨
        ∀ k, isDocKey k → owner k = node → has s.redis k →
          ∃ keys ∈ pagesRead size (script.scan node), k ∈ keys) ∧
      ∀ node, ∀ keys ∈ pagesRead size (script.scan node), ∀ k ∈ keys,
        has s.redis k → Unlinked script size node k := by
  simp only [has_after valid acc start, not_and, not_not]
  constructor
  · intro gone
    refine ⟨fun k companion present => ?_, fun node => Or.inr fun k doc own present => ?_,
      fun node keys page k mem present => ?_⟩
    · have unlinked := gone k (Or.inr companion) present
      obtain ⟨keys, page, mem⟩ := unlinked.returned
      exact not_isDocKey_of_companion companion (valid.matched _ keys page k mem).1
    · have unlinked := gone k (Or.inl doc) present
      rw [own] at unlinked
      exact unlinked.returned
    · obtain ⟨doc, own⟩ := valid.matched node keys page k mem
      exact own ▸ gone k (Or.inl doc) present
  · rintro ⟨bare, walks, unlinks⟩ k (doc | companion) present
    · obtain ⟨keys, page, mem⟩ : ∃ keys ∈ pagesRead size (script.scan (owner k)), k ∈ keys := by
        rcases walks (owner k) with full | listed
        · exact valid.covers _ full k doc rfl present
        · exact listed k doc rfl present
      exact unlinks _ keys page k mem present
    · exact absurd present (bare k companion)

theorem streams_gone_iff (base : String) (total : ℕ) (calls : List (List String × Outcome)) :
    (∀ shard < total,
      (calls.foldl applyCall ((trimShardStreams script.xtrim base total s).1, 0)).1.streams
        (shardStreamKey base shard total) = 0) ↔
    ∀ shard < total, (script.xtrim shard).took ∨
      s.streams (shardStreamKey base shard total) = 0 := by
  refine forall₂_congr fun shard bound => ?_
  rw [streams_foldl]
  refine (trim_streams script.xtrim base total s _).trans ?_
  constructor
  · rintro (empty | ⟨other, bound', took, same⟩)
    · exact Or.inr empty
    · rw [shardStreamKey_inj bound bound' same]
      exact Or.inl took
  · rintro (took | empty)
    · exact Or.inr ⟨shard, bound, took, rfl⟩
    · exact Or.inl empty

/-- A flush keeps its promise exactly when it does not resolve, or everything
was in its reach and no swallowed error left a stream or a key. -/
theorem flush_complete_iff (unlinkBatchSize : Option ℕ) (baseStream : String) (totalShards : ℕ)
    (valid : Scans owner script (unlinkBatchSize.getD defaultUnlinkBatch) s) :
    Complete baseStream totalShards
        (performHaltAndFlush script unlinkBatchSize baseStream totalShards s) ↔
      (∃ node, finishes (unlinkBatchSize.getD defaultUnlinkBatch) (script.scan node) = false) ∨
        Reaches owner script
          (unlinkBatchSize.getD defaultUnlinkBatch) baseStream totalShards s := by
  set size := unlinkBatchSize.getD defaultUnlinkBatch with hsize
  set trimmed := trimShardStreams script.xtrim baseStream totalShards s with htrimmed
  rw [performHaltAndFlush]
  rcases clearSensDocs_eq script size (List.finRange n) (trimmed.1, 0) with
    ⟨ends, cleared⟩ | ⟨⟨node, _, stops⟩, cleared⟩
  · rw [← htrimmed, ← hsize, cleared]
    have start : trimmed.1.redis = s.redis := trim_redis _ _ _ _
    have rows := rows_gone_iff valid (trimmed.1, 0) start
    have streams := @streams_gone_iff _ script s baseStream totalShards
      ((List.finRange n).flatMap (nodeCalls script size))
    constructor
    · rintro ⟨gone, _, emptied⟩
      obtain ⟨bare, walks, unlinks⟩ := rows.mp gone
      exact Or.inr ⟨bare, streams.mp emptied, walks, unlinks⟩
    · rintro (⟨node, stops⟩ | reach)
      · rw [ends node (List.mem_finRange node)] at stops
        cases stops
      · have gone := rows.mpr ⟨reach.bare, reach.walks, reach.unlinks⟩
        refine ⟨gone, fun k listed => ?_, streams.mpr reach.trims⟩
        obtain ⟨row, present⟩ := isRowKey_of_indexed listed
        exact gone k row present
  · refine iff_of_true ?_ (Or.inl ⟨node, stops⟩)
    rw [← htrimmed, ← hsize]
    split
    · rename_i acc resolved
      exact absurd resolved (cleared acc)
    · trivial
    · trivial

end Complete

section Written
variable {opts : ConsumerOptions} {fails : Faults} {s : Redis} {k : String}

/-- The key that a command creates. -/
def created : Cmd → Option String
  | .hset key _ => some key
  | .jsonSet key _ => some key
  | _ => none

theorem has_apply {c : Cmd} (present : has (apply s c) k) : has s k ∨ created c = some k := by
  by_cases own : created c = some k
  · exact Or.inr own
  · left
    cases c with
    | hset key fields =>
      have other : k ≠ key := fun same => own (by rw [created, same])
      simpa [has, apply, other] using present
    | jsonSet key doc =>
      have other : k ≠ key := fun same => own (by rw [created, same])
      simpa [has, apply, other] using present
    | _ => exact present

theorem has_execFrom {lost : ℕ → Bool} {i : ℕ} {cmds : List Cmd}
    (present : has (execFrom lost i s cmds) k) : has s k ∨ ∃ c ∈ cmds, created c = some k := by
  induction cmds generalizing i s with
  | nil => exact Or.inl present
  | cons c cs ih =>
    rw [execFrom] at present
    rcases ih present with before | ⟨d, mem, own⟩
    · split at before
      · exact Or.inl before
      · rcases has_apply before with before | own
        · exact Or.inl before
        · exact Or.inr ⟨c, List.mem_cons_self, own⟩
    · exact Or.inr ⟨d, List.mem_cons_of_mem _ mem, own⟩

/-- The keys that a format writes for a row. -/
def writtenKeys (format : StorageFormat) (key : String) : List String :=
  match format with
  | .hashSidetable => [key, sideTableKeyFor key]
  | .jsonShadowHash => [key, shadowKeyFor key]
  | _ => [key]

theorem created_writeDoc {key : String} {doc : Props} {format : StorageFormat} {c : Cmd}
    (queued : c ∈ writeDocForStorage key doc format) (own : created c = some k) :
    k ∈ writtenKeys format key := by
  have hset : ∀ key fields, c ∈ hsetUnlessEmpty key fields → k = key := by
    intro key fields mem
    cases fields with
    | nil => cases mem
    | cons p ps =>
      rw [List.mem_singleton.mp mem] at own
      exact (Option.some.inj own).symm
  cases format with
  | hashSidetable =>
    rcases List.mem_append.mp queued with flat | side
    · rw [hset _ _ flat]
      exact List.mem_cons_self
    · rw [Option.mem_toList, Option.map_eq_some_iff] at side
      obtain ⟨_, _, rfl⟩ := side
      rw [← Option.some.inj own]
      exact List.mem_cons_of_mem _ List.mem_cons_self
  | hashEncoded => exact List.mem_singleton.mpr (hset _ _ queued)
  | json =>
    rw [List.mem_singleton.mp queued] at own
    exact List.mem_singleton.mpr (Option.some.inj own).symm
  | jsonShadowHash =>
    rcases List.mem_cons.mp queued with rfl | flat
    · rw [← Option.some.inj own]
      exact List.mem_cons_self
    · rw [hset _ _ flat]
      exact List.mem_cons_of_mem _ List.mem_cons_self

theorem created_increment {c : Cmd} (increment : AtomicDelivery.IsIncrement c) :
    created c = none := by
  cases c with
  | hincrbyfloat _ _ _ => rfl
  | _ => exact increment.elim

theorem created_sadds {doc : Props} {c : Cmd} (queued : c ∈ RollupDelta.emitSeenSadds doc) :
    created c = none := by
  unfold RollupDelta.emitSeenSadds at queued
  split at queued
  · cases queued
  · simp only [List.mem_cons, List.not_mem_nil, or_false] at queued
    rcases queued with rfl | rfl | rfl
    · rfl
    · rfl
    · rfl

theorem created_phase2 {oldHash : Hash} {markers : Finset String} {r : Row} {c : Cmd}
    (queued : c ∈ phase2Cmds opts oldHash markers r) : created c = none := by
  unfold phase2Cmds at queued
  split at queued
  · cases queued
  split at queued
  · cases queued
  split at queued
  · rw [List.mem_singleton.mp queued]
    rfl
  · rcases List.mem_append.mp queued with delta | rest
    · exact created_increment (AtomicDelivery.isIncrement_rollupDelta delta)
    · simp only [List.mem_cons, List.not_mem_nil, or_false] at rest
      rcases rest with rfl | rfl
      · rfl
      · rfl

theorem created_tail {r : Row} {c : Cmd} (queued : c ∈ tailCmds opts r) : created c = none := by
  simp only [tailCmds, tailSadds, List.mem_append, List.mem_singleton] at queued
  rcases queued with (first | second) | rfl
  · split at first
    · rw [List.mem_singleton.mp first]
      rfl
    · cases first
  · split at second
    · rw [List.mem_singleton.mp second]
      rfl
    · cases second
  · rfl

theorem created_row {r : Row} {c : Cmd} (queued : c ∈ rowCmds opts r) (own : created c = some k) :
    k ∈ writtenKeys opts.format r.key := by
  rcases List.mem_append.mp queued with document | rest
  · exact created_writeDoc document own
  · split at rest
    · cases rest
    · simp only [List.mem_append] at rest
      rcases rest with (increment | seen) | suggested
      · rw [created_increment (AckSafety.isIncrement_rollupHincrs increment)] at own
        cases own
      · rw [created_sadds seen] at own
        cases own
      · obtain ⟨_, _, named⟩ := List.mem_filterMap.mp suggested
        split at named
        · cases named
        · split at named
          · cases named
            cases own
          · cases named

/-- A delivery creates the keys of its row. -/
theorem has_deliver {r : Row} (present : has (deliver opts fails .afterTail s r) k) :
    has s k ∨ k ∈ writtenKeys opts.format r.key := by
  rcases has_execFrom present with present | ⟨c, queued, own⟩
  · rcases has_execFrom present with present | ⟨c, queued, own⟩
    · rcases has_execFrom present with present | ⟨c, queued, own⟩
      · exact Or.inl present
      · exact Or.inr (created_writeDoc queued own)
    · rw [created_phase2 queued] at own
      cases own
  · rw [created_tail queued] at own
    cases own

/-- The key belongs to a row of one of the entries. -/
def OfEntries (opts : ConsumerOptions) (entries : List Entry) (k : String) : Prop :=
  ∃ entry ∈ entries, ∃ r, prepare opts entry = some (.row r) ∧ k ∈ writtenKeys opts.format r.key

theorem has_processBatchAtomic {entries : List Entry} {processed : ℕ}
    (present : has (processBatchAtomic opts fails s processed entries).1 k) :
    has s k ∨ OfEntries opts entries k := by
  induction entries generalizing s processed with
  | nil => exact Or.inl present
  | cons entry entries ih =>
    have later : OfEntries opts entries k → OfEntries opts (entry :: entries) k :=
      fun ⟨e, mem, rest⟩ => ⟨e, List.mem_cons_of_mem _ mem, rest⟩
    rw [processBatchAtomic] at present
    cases hp : prepare opts entry with
    | none =>
      rw [hp] at present
      exact Or.inl present
    | some p =>
      rw [hp] at present
      cases p with
      | malformed entryId => exact (ih present).imp id later
      | row r =>
        rcases ih present with before | named
        · rcases has_deliver before with before | own
          · exact Or.inl before
          · exact Or.inr ⟨entry, List.mem_cons_self, r, hp, own⟩
        · exact Or.inr (later named)

theorem source_of_mapM {entries : List Entry} {prepared : List Prepared}
    (read : entries.mapM (prepare opts) = some prepared) {p : Prepared} (mem : p ∈ prepared) :
    ∃ entry ∈ entries, prepare opts entry = some p := by
  induction entries generalizing prepared with
  | nil =>
    cases read
    cases mem
  | cons entry entries ih =>
    rw [List.mapM_cons] at read
    simp only [Option.bind_eq_bind, Option.bind_eq_some_iff] at read
    obtain ⟨q, hq, rest, hrest, heq⟩ := read
    cases heq
    rcases List.mem_cons.mp mem with rfl | mem
    · exact ⟨entry, List.mem_cons_self, hq⟩
    · obtain ⟨other, listed, hp⟩ := ih hrest mem
      exact ⟨other, List.mem_cons_of_mem _ listed, hp⟩

theorem has_processBatch {entries : List Entry}
    (present : has (processBatch opts fails s entries).1 k) :
    has s k ∨ OfEntries opts entries k := by
  unfold processBatch at present
  split at present
  · exact Or.inl present
  · rename_i prepared read
    have blocks : ∀ (ps : List Prepared) (s : Redis),
        has ((ps.map (pipelineCmds opts)).foldl
          (fun s block => execFrom (fails block.1 .pipeline) 0 s block.2) s) k →
        has s k ∨ ∃ r, Prepared.row r ∈ ps ∧ k ∈ writtenKeys opts.format r.key := by
      intro ps
      induction ps with
      | nil => exact fun s => Or.inl
      | cons p ps ih =>
        intro s present
        rcases ih _ present with before | ⟨r, mem, own⟩
        · rcases has_execFrom before with before | ⟨c, queued, own⟩
          · exact Or.inl before
          · cases p with
            | malformed entryId =>
              rw [List.mem_singleton.mp queued] at own
              cases own
            | row r =>
              refine Or.inr ⟨r, List.mem_cons_self, ?_⟩
              rcases List.mem_append.mp queued with row | ack
              · exact created_row row own
              · rw [List.mem_singleton.mp ack] at own
                cases own
        · exact Or.inr ⟨r, List.mem_cons_of_mem _ mem, own⟩
    rcases blocks prepared s present with before | ⟨r, mem, own⟩
    · exact Or.inl before
    · obtain ⟨entry, listed, hp⟩ := source_of_mapM read mem
      exact Or.inr ⟨entry, listed, r, hp, own⟩

theorem has_processEntries {entries : List Entry}
    (present : has (processEntries opts fails s entries).1 k) :
    has s k ∨ OfEntries opts entries k := by
  unfold processEntries at present
  split at present
  · exact has_processBatchAtomic present
  · exact has_processBatch present

end Written

section Reachable

/-- The stores that the consumer reaches in some formats, entries arriving at
any time and commands failing in any pattern. -/
inductive Reachable (formats : StorageFormat → Prop) : Redis → Prop where
  | empty : Reachable formats Redis.empty
  | arrived {s : Redis} (pel : List Entry) (from_ : Reachable formats s) :
      Reachable formats { s with pel := pel }
  | processed {s : Redis} (opts : ConsumerOptions) (fails : Faults) (entries : List Entry)
      (chosen : formats opts.format) (from_ : Reachable formats s) :
      Reachable formats (processEntries opts fails s entries).1

/-- Every key of a reachable store was written for a row in one of the formats. -/
theorem Reachable.written {formats : StorageFormat → Prop} {s : Redis}
    (reachable : Reachable formats s) {k : String} (present : has s k) :
    ∃ format id, formats format ∧ k ∈ writtenKeys format (buildKey id) := by
  induction reachable with
  | empty => exact absurd present (by simp [has, Redis.empty])
  | arrived pel _ ih => exact ih present
  | processed opts fails entries chosen _ ih =>
    rcases has_processEntries present with before | ⟨entry, _, r, hp, own⟩
    · exact ih before
    · obtain ⟨_, ⟨id, named⟩, _⟩ := BatchRuns.prepare_row hp
      exact ⟨opts.format, id, chosen, named ▸ own⟩

/-- Formats without mirror and side table leave nothing out of reach. -/
theorem Reachable.bare {formats : StorageFormat → Prop} {s : Redis}
    (reachable : Reachable formats s)
    (single : ∀ format, formats format → format = .hashEncoded ∨ format = .json) (k : String)
    (companion : IsCompanion k) : ¬ has s k := by
  intro present
  obtain ⟨format, id, chosen, own⟩ := reachable.written present
  have doc : k = buildKey id := by
    rcases single format chosen with rfl | rfl
    · exact List.mem_singleton.mp own
    · exact List.mem_singleton.mp own
  exact not_isDocKey_of_companion companion ((isDocKey_iff k).mpr ⟨id, doc⟩)

theorem spotEntry_noColon : DelimitedNames.Free ':' "1-0" := by decide

/-- A spot row in the default format. -/
def spotEntry : Entry where
  entryId := ⟨"1-0", spotEntry_noColon⟩
  fields := some [("risk_class", "FX"), ("bucket", "EURUSD"), ("_hash_tag", "FX:EURUSD"),
    ("_id", "A"), ("payload", "\x7b\"risk_value\":\x7b\"spot\":1\x7d\x7d")]

def optionsOf (format : StorageFormat) : ConsumerOptions where
  batchSize := none
  processedMarkerTtlSec := none
  schema := none
  storageFormat := some format
  liveTailMode := false

def afterSpot (format : StorageFormat) : Store :=
  ⟨(processEntries (optionsOf format) noFaults Redis.empty [spotEntry]).1, fun _ => 0⟩

/-- One master whose every command succeeds and whose SCAN hands out the one document. -/
def healthy : Script 1 where
  xtrim _ := .done
  scan _ := [.page "0" ["sens:A"]]
  unlink _ _ _ _ := .done

/-- The row of the entry and its companions are all that there is. -/
theorem has_afterSpot {format : StorageFormat} {k : String}
    (present : has (afterSpot format).redis k) : k ∈ writtenKeys format (buildKey "A") := by
  rcases has_processEntries present with before | ⟨entry, listed, r, hp, own⟩
  · exact absurd before (by simp [has, Redis.empty])
  · have read : prepare (optionsOf format) spotEntry =
        some (.row (rowOf (optionsOf format) spotEntry)) := by
      refine prepare_rowOf ?_
      cases format <;> decide +kernel
    rw [List.mem_singleton.mp listed, read] at hp
    cases hp
    have key : (rowOf (optionsOf format) spotEntry).key = buildKey "A" := by
      cases format <;> decide +kernel
    rw [key] at own
    exact own

theorem healthy_scans (format : StorageFormat) :
    Scans (fun _ => 0) healthy defaultUnlinkBatch (afterSpot format) where
  matched := by decide
  covers := by
    intro node _ k doc _ present
    have own := has_afterSpot present
    refine ⟨["sens:A"], by decide +revert, ?_⟩
    have mirror := @not_isDocKey_of_companion (shadowKeyFor (buildKey "A")) ⟨"A", Or.inl rfl⟩
    have side := @not_isDocKey_of_companion (sideTableKeyFor (buildKey "A")) ⟨"A", Or.inr rfl⟩
    cases format with
    | hashSidetable =>
      rcases List.mem_pair.mp own with rfl | rfl
      · exact List.mem_cons_self
      · exact absurd doc side
    | jsonShadowHash =>
      rcases List.mem_pair.mp own with rfl | rfl
      · exact List.mem_cons_self
      · exact absurd doc mirror
    | hashEncoded => exact own
    | json => exact own

theorem flush_complete_encoded :
    Complete "sensitivities:in" 1
      (performHaltAndFlush healthy none "sensitivities:in" 1 (afterSpot .hashEncoded)) := by
  have bare : ∀ k, IsCompanion k → ¬ has (afterSpot .hashEncoded).redis k := fun k companion =>
    Reachable.bare (.processed (optionsOf .hashEncoded) noFaults [spotEntry] rfl .empty)
      (fun _ chosen => Or.inl chosen.symm) k companion
  refine (flush_complete_iff none "sensitivities:in" 1 (healthy_scans .hashEncoded)).mpr
    (Or.inr ⟨bare, fun shard _ => Or.inr rfl, fun node => Or.inl rfl, ?_⟩)
  intro node keys page k mem _
  rw [List.mem_singleton.mp page] at mem
  rw [List.mem_singleton.mp mem]
  exact ⟨(["sens:A"], .done), List.mem_singleton.mpr rfl, by decide, List.mem_cons_self⟩

/-- The side table of the default format outlives a flush without any error. -/
theorem side_table_left :
    Reachable (fun _ => True) (afterSpot .hashSidetable).redis ∧
    Scans (fun _ => 0) healthy defaultUnlinkBatch (afterSpot .hashSidetable) ∧
    ¬ Complete "sensitivities:in" 1
      (performHaltAndFlush healthy none "sensitivities:in" 1 (afterSpot .hashSidetable)) := by
  refine ⟨.processed (optionsOf .hashSidetable) noFaults [spotEntry] trivial .empty,
    healthy_scans .hashSidetable, ?_⟩
  have resolved : performHaltAndFlush healthy none "sensitivities:in" 1 (afterSpot .hashSidetable) =
      .resolved (unlink ["sens:A"] (xtrim "sensitivities:in" (afterSpot .hashSidetable))) ⟨1, 1⟩ :=
    rfl
  rw [resolved]
  intro complete
  refine complete.1 (sideTableKeyFor (buildKey "A")) (Or.inr ⟨"A", Or.inr rfl⟩) ?_
  rw [has_unlink]
  exact ⟨by decide +kernel, by decide⟩

end Reachable

end HaltAndFlush
