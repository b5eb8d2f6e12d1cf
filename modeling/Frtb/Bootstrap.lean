import Frtb.RqeIndex

/-!
# The bootstrap of a target

`bootstrapFrtb` called with a target label. One value per label, the schema hash,
says which index the requests use; the bootstrap reads it, decides whether to keep
an index or to rebuild it on every master, writes the value back and loads the
function library. Every command to Redis can fail, before or after it took effect.
What the boot client's own FT.INFO and FT._LIST answer depends on the node or
coordinator it is routed to, so that these replies are inputs of a call. The
autocomplete dictionaries, the rollup check and the adoption record are left out:
nothing here reads them, and their failures are swallowed.
-/

namespace Bootstrap

open AssocMaps EnrichDoc FastPath RqeIndex

section Names

def baseIndexName : String := "idx:sens"
def baseSlimIndexName : String := "idx:sens:slim"
def legacyHashPrefix : String := "legacy:"
def hashPrefixLen : ℕ := 7

def versionedPrefix : String := "idx:sens:v"
def versionedSlimPrefix : String := "idx:sens:slim:v"

def hashPrefix (hash : String) : String := String.ofList (hash.toList.take hashPrefixLen)

def versionedIndexName (hash : String) : String := versionedPrefix ++ hashPrefix hash

def versionedSlimIndexName (hash : String) : String := versionedSlimPrefix ++ hashPrefix hash

/-- What follows the `legacy:` sentinel. -/
def legacySuffix (value : String) : Option String := stripPrefix legacyHashPrefix value

/-- The name that the value under the hash key stands for. -/
def resolveName (base : String) (versioned : String → String) : Option String → String
  | none => base
  | some value =>
    if (legacySuffix value).isSome then base
    else if hashPrefixLen ≤ value.length then versioned value
    else base

def getSensIndexName : Option String → String := resolveName baseIndexName versionedIndexName

def getSlimSensIndexName : Option String → String :=
  resolveName baseSlimIndexName versionedSlimIndexName

end Names

section Cluster

/-- An index of a master; its attributes are the descriptors that FT.INFO shows. -/
structure FtIndex where
  on : String
  prefixes : List String
  attributes : List (List String)

/-- `libraries` and `slimMade` are history: the schemas whose library was loaded here, and
the slim indexes that bootstraps created here, each with its schema. -/
structure Master where
  indexes : Assoc String FtIndex
  libraries : List CalcSchema
  slimMade : List (String × CalcSchema)

/-- The masters, and the value under `bootstrap:schema-hash:<label>`. -/
structure Cluster where
  masters : List Master
  hashKey : Option String

/-- The descriptor of a field in FT.INFO. -/
def descriptor (f : IndexField) : List String :=
  ["identifier", f.path, "attribute", f.as, "type", f.type] ++
    (if f.type = "TAG" then ["SEPARATOR", ","] else []) ++ if f.sortable then ["SORTABLE"] else []

/-- What FT.CREATE makes of the arguments with these fields. -/
def ftCreate (fields : List IndexField) : FtIndex :=
  ⟨"HASH", [idxPrefix, idxShadowPrefix], fields.map descriptor⟩

def sensIndex (schema : CalcSchema) : FtIndex := ftCreate (buildSchemaFields schema.toSchema)

def slimIndex (schema : CalcSchema) : FtIndex := ftCreate (buildSlimSchemaFields schema.toSchema)

end Cluster

section Call

/-- A command succeeds, or reports an error before or after it took effect. An error is one
that the code does not expect: a missing index at FT.DROPINDEX and an existing one at
FT.CREATE count as success. -/
inductive CallReply where
  | ok
  | refused (error : String)
  | lost (error : String)

def CallReply.applied : CallReply → Bool
  | .refused _ => false
  | _ => true

def CallReply.error : CallReply → Option String
  | .ok => none
  | .refused error => some error
  | .lost error => some error

/-- The boot client's FT.INFO: no such index, another error, or a reply with its num_docs. -/
inductive InfoReply where
  | unknown
  | failed (error : String)
  | docs (count : Option ℚ)

inductive AdoptionMode where
  | on
  | off
  | warnOnly
deriving DecidableEq

/-- The arguments of one call, its environment variables, and how its commands fare. -/
structure Call where
  schema : CalcSchema
  force : Bool
  adoption : AdoptionMode
  lazyMath : Bool
  slim : Bool
  getFails : Bool
  versionedInfo : InfoReply
  legacyStrictInfo : InfoReply
  legacyInfo : InfoReply
  del : CallReply
  set : CallReply
  ftList : Option (List String)
  infoFails : ℕ → Bool
  foreignInfoFails : ℕ → Bool
  attributesFail : Bool
  dropIndex : ℕ → CallReply
  create : ℕ → CallReply
  slimCreate : ℕ → CallReply
  templateError : Option String
  functionLoad : ℕ → CallReply

structure BootstrapFailure where
  step : String
  nodeId : String
  error : String

def failuresOf (step : String) (i : ℕ) (reply : CallReply) : List BootstrapFailure :=
  reply.error.toList.map fun error => ⟨step, "node-" ++ toString i, error⟩

structure BootstrapStepResult where
  nodes : ℕ
  ok : ℕ
  failed : List BootstrapFailure

inductive Outcome where
  | resolved (index functions : BootstrapStepResult) (names : List String)
  | lazyMathRequiresSlimIndex
  | probeFailed (error : String)
  | snippetsFailed (error : String)
  | partially (failures : List BootstrapFailure)

/-- The call resolves normally. -/
def Outcome.ready : Outcome → Bool
  | .resolved _ _ _ => true
  | _ => false

end Call

section Decision

variable (c : Cluster) (call : Call)

def readOldHash : Option String := if call.getFails then none else c.hashKey.filter (· ≠ "")

def populated (count : Option ℚ) : Bool := count.any (0 < ·)

def probeDocCountStrict : InfoReply → Except String (Option ℚ)
  | .unknown => .ok none
  | .failed error => .error error
  | .docs count => .ok count

def probeLegacyDocCount : InfoReply → Option ℚ
  | .docs count => count
  | _ => none

/-- The value names an empty versioned index while the legacy one holds rows. -/
def stranded (oldHash : Option String) : Except String Bool :=
  match oldHash with
  | none => .ok false
  | some value =>
    if (legacySuffix value).isSome then .ok false
    else
      match probeDocCountStrict call.versionedInfo with
      | .error error => .error error
      | .ok versionedDocs =>
        if versionedDocs = some 0 then (probeDocCountStrict call.legacyStrictInfo).map populated
        else .ok false

def indexPresentOnAll (fails : ℕ → Bool) (name : String) : Bool :=
  c.masters.zipIdx.all fun p => !fails p.2 && (p.1.indexes.lookup name).isSome

/-- The attributes that the first master shows for the index. -/
def existingAttrs (name : String) : Option (List NormalizedFtField) :=
  parseFtInfoAttributes
    (if call.attributesFail then none
      else c.masters.head?.bind fun m => (m.indexes.lookup name).map FtIndex.attributes)

/-- The hash of another schema that the target may run on. -/
def foreignHash (newHash : String) (oldHash : Option String) : Option String :=
  match oldHash with
  | some value => if value ≠ newHash then some value else none
  | none =>
    if !call.force ∧ call.adoption ≠ .off then
      call.ftList.bind fun names => names.findSome? fun name =>
        if name ≠ versionedIndexName newHash then stripPrefix versionedPrefix name else none
    else none

def adoptable (newHash foreign : String) : Bool :=
  !call.force && decide (foreign ≠ newHash) && decide (call.adoption ≠ .off) &&
    indexPresentOnAll c call.foreignInfoFails (versionedIndexName foreign) &&
    isAdoptionCompatible (existingAttrs c call (versionedIndexName foreign))
      (buildCreateArgs call.schema.toSchema)

/-- Either an index is kept, with a value to write under the key when it is adopted, or the
index of the schema is built and an old one dropped. -/
inductive Plan where
  | keep (write : Option String) (index : String)
  | rebuild (old : Option String)
deriving DecidableEq

/-- The branch taken, by the old hash as it stands after the recovery. -/
def plan (newHash : String) (oldHash : Option String) : Plan :=
  if oldHash = none ∧ populated (probeLegacyDocCount call.legacyInfo) then
    .keep (some (legacyHashPrefix ++ newHash)) baseIndexName
  else
    match oldHash.bind legacySuffix with
    | some suffix =>
      if !call.force ∧ suffix = newHash ∧ indexPresentOnAll c call.infoFails baseIndexName then
        .keep none baseIndexName
      else .rebuild (some baseIndexName)
    | none =>
      if !call.force ∧ oldHash = some newHash ∧
          indexPresentOnAll c call.infoFails (versionedIndexName newHash) then
        .keep none (versionedIndexName newHash)
      else
        match foreignHash call newHash oldHash with
        | some foreign =>
          if adoptable c call newHash foreign ∧ call.adoption = .on then
            .keep (some foreign) (versionedIndexName foreign)
          else .rebuild (oldHash.map versionedIndexName)
        | none => .rebuild (oldHash.map versionedIndexName)

end Decision

section Masters

/-- FT.DROPINDEX of the old index, where there is one under another name. -/
def dropOld (newName : String) (old : Option String) (reply : CallReply) (m : Master) :
    Master × Option String :=
  match old with
  | none => (m, none)
  | some name =>
    if name = newName then (m, none)
    else (if reply.applied then { m with indexes := m.indexes.erase name } else m, reply.error)

/-- FT.CREATE; an index that exists stays as it is. -/
def createIndex (name : String) (idx : FtIndex) (reply : CallReply) (m : Master) : Master :=
  if reply.applied ∧ m.indexes.lookup name = none then
    { m with indexes := m.indexes.insert name idx }
  else m

def rebuildNode (newName : String) (idx : FtIndex) (old : Option String) (call : Call) (i : ℕ)
    (m : Master) : Master × List BootstrapFailure :=
  let dropped := dropOld newName old (call.dropIndex i) m
  match dropped.2 with
  | some _ => (dropped.1, failuresOf "idx:sens" i (call.dropIndex i))
  | none =>
    (createIndex newName idx (call.create i) dropped.1, failuresOf "idx:sens" i (call.create i))

/-- Every master in turn; a failure on one does not stop the others. -/
def onEach (f : ℕ → Master → Master × List BootstrapFailure) (masters : List Master) :
    List Master × List BootstrapFailure :=
  let done := masters.mapIdx f
  (done.map Prod.fst, done.flatMap Prod.snd)

def runIndexRebuild (call : Call) (newName : String) (old : Option String) :
    List Master → List Master × List BootstrapFailure :=
  onEach (rebuildNode newName (sensIndex call.schema) old call)

/-- The slim index of the schema on one master; its failure is only logged. -/
def ensureSlimNode (name : String) (call : Call) (i : ℕ) (m : Master) : Master :=
  if (call.slimCreate i).applied ∧ m.indexes.lookup name = none then
    { m with
      indexes := m.indexes.insert name (slimIndex call.schema)
      slimMade := (name, call.schema) :: m.slimMade }
  else m

def runSlimIndexEnsure (call : Call) (name : String) (masters : List Master) : List Master :=
  if call.slim then masters.mapIdx (ensureSlimNode name call) else masters

/-- FUNCTION LOAD on one master. -/
def loadNode (call : Call) (i : ℕ) (m : Master) : Master × List BootstrapFailure :=
  (if (call.functionLoad i).applied then { m with libraries := call.schema :: m.libraries } else m,
    failuresOf "frtb" i (call.functionLoad i))

end Masters

section Run

def frtbFunctions : List String :=
  ["sbm_delta_bucket", "sbm_vega_bucket", "equity_delta", "equity_vega", "fx_delta", "fx_vega",
    "girr_curvature", "equity_curvature", "fx_curvature"]

/-- Why the snippets of the schema cannot be built: a correlation that is not constant, or what
the Lua templates report. -/
def snippetsError (call : Call) : Option String :=
  (["girr_rho_kl", "girr_vega_rho_kl", "equity_rho", "fx_rho"].findSome? fun name =>
    match call.schema.correlations name with
    | some (.constant _) => none
    | _ => some ("bootstrap: correlations." ++ name ++ " must be constant")).or call.templateError

def stepResult (nodes : ℕ) (failed : List BootstrapFailure) : BootstrapStepResult :=
  ⟨nodes, nodes - failed.length, failed⟩

/-- SET of the key, whose failure is only logged. -/
def writeKey (call : Call) (value : String) (key : Option String) : Option String :=
  if call.set.applied then some value else key

/-- The key once the recovery has run. -/
def recoveredKey (c : Cluster) (call : Call) (lost : Bool) : Option String :=
  if lost && call.del.applied then none else c.hashKey

def bootstrapFrtb (computeSchemaHash : CalcSchema → String) (c : Cluster) (call : Call) :
    Cluster × Outcome :=
  let nodes := c.masters.length
  let newHash := computeSchemaHash call.schema
  let slimName := versionedSlimIndexName newHash
  if call.lazyMath && !call.slim then (c, .lazyMathRequiresSlimIndex)
  else
    match stranded call (readOldHash c call) with
    | .error error => (c, .probeFailed error)
    | .ok lost =>
      let key := recoveredKey c call lost
      match plan c call newHash (if lost then none else readOldHash c call) with
      | .keep write _ =>
        (⟨runSlimIndexEnsure call slimName c.masters, write.elim key (writeKey call · key)⟩,
          .resolved (stepResult nodes []) (stepResult nodes []) [])
      | .rebuild old =>
        let rebuilt := runIndexRebuild call (versionedIndexName newHash) old c.masters
        let key := if rebuilt.2.isEmpty then writeKey call newHash key else key
        let masters := runSlimIndexEnsure call slimName rebuilt.1
        match snippetsError call with
        | some error => (⟨masters, key⟩, .snippetsFailed error)
        | none =>
          let loaded := onEach (loadNode call) masters
          (⟨loaded.1, key⟩,
            if (rebuilt.2 ++ loaded.2).isEmpty then
              .resolved (stepResult nodes []) (stepResult nodes []) frtbFunctions
            else .partially (rebuilt.2 ++ loaded.2))

/-- The cluster after a series of calls. -/
def runAll (computeSchemaHash : CalcSchema → String) (c : Cluster) (calls : List Call) : Cluster :=
  calls.foldl (fun c call => (bootstrapFrtb computeSchemaHash c call).1) c

/-- The branch a call takes, with the key it finds after the recovery; none where it rejects
before it has decided. -/
def decided (computeSchemaHash : CalcSchema → String) (c : Cluster) (call : Call) :
    Option (Option String × Plan) :=
  if call.lazyMath && !call.slim then none
  else
    match stranded call (readOldHash c call) with
    | .error _ => none
    | .ok lost =>
      some (recoveredKey c call lost, plan c call (computeSchemaHash call.schema)
        (if lost then none else readOldHash c call))

/-- What a call that resolves leaves under the key. -/
def keyLeft (computeSchemaHash : CalcSchema → String) (c : Cluster) (call : Call) : Option String :=
  match decided computeSchemaHash c call with
  | none => c.hashKey
  | some (key, .keep write _) => write.elim key (writeKey call · key)
  | some (key, .rebuild _) => writeKey call (computeSchemaHash call.schema) key

end Run

section Names

/-- Both resolvers give either the bare name or a versioned one. -/
theorem resolveName_cases (base : String) (versioned : String → String) (key : Option String) :
    resolveName base versioned key = base ∨
      ∃ value, key = some value ∧ resolveName base versioned key = versioned value := by
  cases key with
  | none => exact .inl rfl
  | some value =>
    simp only [resolveName]
    split
    · exact .inl rfl
    · split
      · exact .inr ⟨value, rfl, rfl⟩
      · exact .inl rfl

theorem sens_ne_slim (key : Option String) (hash : String) :
    getSensIndexName key ≠ versionedSlimIndexName hash := by
  intro same
  have tenth := congrArg (fun s => s.toList[9]?) same
  rcases resolveName_cases baseIndexName versionedIndexName key with bare | ⟨value, _, versioned⟩
  · rw [getSensIndexName, bare] at tenth
    simp [baseIndexName, versionedSlimIndexName, versionedSlimPrefix] at tenth
  · rw [getSensIndexName, versioned] at tenth
    simp [versionedIndexName, versionedPrefix, versionedSlimIndexName, versionedSlimPrefix] at tenth

end Names

section Effects

theorem applied_of_succeeded {reply : CallReply} (succeeded : reply.error = none) :
    reply.applied = true := by
  cases reply with
  | ok => rfl
  | refused error => cases succeeded
  | lost error => cases succeeded

theorem failuresOf_eq_nil_iff (step : String) (i : ℕ) (reply : CallReply) :
    failuresOf step i reply = [] ↔ reply.error = none := by
  rw [failuresOf, List.map_eq_nil_iff]
  cases reply.error with
  | none => exact iff_of_true rfl rfl
  | some error => exact iff_of_false (by simp) (by simp)

theorem getElem?_onEach (f : ℕ → Master → Master × List BootstrapFailure) (masters : List Master)
    (i : ℕ) : (onEach f masters).1[i]? = masters[i]?.map fun m => (f i m).1 := by
  simp only [onEach, List.getElem?_map, List.getElem?_mapIdx, Option.map_map]
  rfl

theorem onEach_isEmpty_iff (f : ℕ → Master → Master × List BootstrapFailure)
    (masters : List Master) :
    (onEach f masters).2.isEmpty = true ↔ ∀ i m, masters[i]? = some m → (f i m).2 = [] := by
  rw [List.isEmpty_iff, onEach, List.flatMap_eq_nil_iff]
  constructor
  · intro all i m at_i
    exact all (f i m) (List.mem_of_getElem? (by rw [List.getElem?_mapIdx, at_i]; rfl))
  · intro all p mem
    obtain ⟨i, at_i⟩ := List.getElem?_of_mem mem
    rw [List.getElem?_mapIdx] at at_i
    obtain ⟨m, own, rfl⟩ := Option.map_eq_some_iff.mp at_i
    exact all i m own

theorem forall_mem_iff_getElem? {P : Master → Prop} (masters : List Master) :
    (∀ m ∈ masters, P m) ↔ ∀ (i : ℕ) (m : Master), masters[i]? = some m → P m := by
  constructor
  · intro all i m at_i
    exact all m (List.mem_of_getElem? at_i)
  · intro all m mem
    obtain ⟨i, at_i⟩ := List.getElem?_of_mem mem
    exact all i m at_i

theorem dropOld_lookup (newName : String) (old : Option String) (reply : CallReply) (m : Master)
    (name : String) :
    (dropOld newName old reply m).1.indexes.lookup name =
      if old = some name ∧ name ≠ newName ∧ reply.applied then none
      else m.indexes.lookup name := by
  cases old with
  | none => simp [dropOld]
  | some o =>
    by_cases same : o = newName
    · subst same
      simp only [dropOld, if_true, Option.some.injEq]
      rw [if_neg fun h => h.2.1 h.1.symm]
    · simp only [dropOld, same, if_false, Option.some.injEq]
      by_cases applied : reply.applied = true
      · rw [if_pos applied]
        by_cases named : o = name
        · subst named
          rw [if_pos ⟨rfl, same, applied⟩]
          simp only [AList.lookup_erase]
        · rw [if_neg fun h => named h.1]
          exact AList.lookup_erase_ne fun h => named h.symm
      · rw [if_neg applied, if_neg fun h => applied h.2.2]

theorem createIndex_lookup (newName : String) (idx : FtIndex) (reply : CallReply) (m : Master)
    (name : String) :
    (createIndex newName idx reply m).indexes.lookup name =
      if name = newName ∧ reply.applied then some ((m.indexes.lookup newName).getD idx)
      else m.indexes.lookup name := by
  unfold createIndex
  by_cases applied : reply.applied = true
  · cases found : m.indexes.lookup newName with
    | none =>
      simp only [applied, and_self, if_true, and_true, Option.getD_none]
      by_cases named : name = newName
      · subst named
        rw [if_pos rfl]
        exact AList.lookup_insert m.indexes
      · rw [if_neg named]
        exact AList.lookup_insert_ne named
    | some old =>
      simp only [applied, reduceCtorEq, and_false, if_false, and_true, Option.getD_some]
      by_cases named : name = newName
      · subst named
        rw [if_pos rfl, found]
      · rw [if_neg named]
  · simp only [applied, Bool.false_eq_true, false_and, and_false, if_false]

/-- The drop of a master went through, or there was none. -/
def DropSucceeds (newName : String) (old : Option String) (reply : CallReply) : Prop :=
  ∀ name, old = some name → name ≠ newName → reply.error = none

theorem dropOld_error_eq_none_iff (newName : String) (old : Option String) (reply : CallReply)
    (m : Master) : (dropOld newName old reply m).2 = none ↔ DropSucceeds newName old reply := by
  cases old with
  | none => exact iff_of_true rfl fun _ h => nomatch h
  | some o =>
    by_cases same : o = newName
    · subst same
      refine iff_of_true (by simp only [dropOld, if_true]) ?_
      rintro name ⟨⟩ other
      exact absurd rfl other
    · simp only [dropOld, same, if_false, DropSucceeds, Option.some.injEq, forall_eq']
      exact ⟨fun h _ => h, fun h => h same⟩

theorem rebuildNode_ok_iff (newName : String) (idx : FtIndex) (old : Option String) (call : Call)
    (i : ℕ) (m : Master) :
    (rebuildNode newName idx old call i m).2 = [] ↔
      DropSucceeds newName old (call.dropIndex i) ∧ (call.create i).error = none := by
  rw [← dropOld_error_eq_none_iff newName old (call.dropIndex i) m]
  unfold rebuildNode
  cases dropped : (dropOld newName old (call.dropIndex i) m).2 with
  | none => simp only [dropped, true_and, failuresOf_eq_nil_iff]
  | some error =>
    simp only [dropped, failuresOf_eq_nil_iff, reduceCtorEq, false_and, iff_false]
    intro none
    have := (dropOld_error_eq_none_iff newName old (call.dropIndex i) m).mpr fun _ _ _ => none
    rw [dropped] at this
    cases this

/-- Any index but the new one: it goes when it is the old one and its drop took effect. -/
theorem rebuildNode_lookup_other {newName name : String} (other : name ≠ newName) (idx : FtIndex)
    (old : Option String) (call : Call) (i : ℕ) (m : Master) :
    (rebuildNode newName idx old call i m).1.indexes.lookup name =
      if old = some name ∧ (call.dropIndex i).applied then none else m.indexes.lookup name := by
  have dropped := dropOld_lookup newName old (call.dropIndex i) m name
  simp only [other, ne_eq, not_false_eq_true, true_and] at dropped
  unfold rebuildNode
  dsimp only
  cases (dropOld newName old (call.dropIndex i) m).2 with
  | none =>
    dsimp only
    rw [createIndex_lookup, if_neg fun h => other h.1, dropped]
  | some error => exact dropped

/-- The new index is there when it was before, or when it was created. -/
theorem rebuildNode_lookup_new (newName : String) (idx : FtIndex) (old : Option String)
    (call : Call) (i : ℕ) (m : Master) [Decidable (DropSucceeds newName old (call.dropIndex i))] :
    (rebuildNode newName idx old call i m).1.indexes.lookup newName =
      if DropSucceeds newName old (call.dropIndex i) ∧ (call.create i).applied then
        some ((m.indexes.lookup newName).getD idx)
      else m.indexes.lookup newName := by
  have dropped := dropOld_lookup newName old (call.dropIndex i) m newName
  rw [if_neg fun h => h.2.1 rfl] at dropped
  have went := dropOld_error_eq_none_iff newName old (call.dropIndex i) m
  unfold rebuildNode
  dsimp only
  cases error : (dropOld newName old (call.dropIndex i) m).2 with
  | none =>
    simp only [went.mp error, true_and]
    rw [createIndex_lookup, dropped]
    simp only [true_and]
  | some error' =>
    rw [if_neg fun h => by rw [went.mpr h.1] at error; cases error]
    exact dropped

theorem rebuildNode_slimMade (newName : String) (idx : FtIndex) (old : Option String)
    (call : Call) (i : ℕ) (m : Master) :
    (rebuildNode newName idx old call i m).1.slimMade = m.slimMade := by
  have dropped : (dropOld newName old (call.dropIndex i) m).1.slimMade = m.slimMade := by
    unfold dropOld
    split
    · rfl
    · split
      · rfl
      · dsimp only
        split <;> rfl
  unfold rebuildNode
  dsimp only
  split
  · exact dropped
  · rw [← dropped]
    dsimp only [createIndex]
    split <;> rfl

theorem ensureSlimNode_lookup_other {slimName name : String} (other : name ≠ slimName)
    (call : Call) (i : ℕ) (m : Master) :
    (ensureSlimNode slimName call i m).indexes.lookup name = m.indexes.lookup name := by
  unfold ensureSlimNode
  split
  · exact AList.lookup_insert_ne other
  · rfl

theorem ensureSlimNode_libraries (slimName : String) (call : Call) (i : ℕ) (m : Master) :
    (ensureSlimNode slimName call i m).libraries = m.libraries := by
  unfold ensureSlimNode
  split <;> rfl

/-- What the slim step does to one master. -/
def slimNode (name : String) (call : Call) (i : ℕ) (m : Master) : Master :=
  if call.slim then ensureSlimNode name call i m else m

theorem getElem?_runSlimIndexEnsure (call : Call) (name : String) (masters : List Master) (i : ℕ) :
    (runSlimIndexEnsure call name masters)[i]? = masters[i]?.map (slimNode name call i) := by
  unfold runSlimIndexEnsure
  cases slim : call.slim with
  | false =>
    have same : slimNode name call i = id := by
      funext m
      simp only [slimNode, slim, Bool.false_eq_true, if_false, id]
    rw [same, Option.map_id, if_neg Bool.false_ne_true]
    rfl
  | true =>
    have same : slimNode name call i = ensureSlimNode name call i := by
      funext m
      simp only [slimNode, slim, if_true]
    rw [same, if_pos rfl, List.getElem?_mapIdx]

theorem slimNode_lookup_other {slimName name : String} (other : name ≠ slimName) (call : Call)
    (i : ℕ) (m : Master) :
    (slimNode slimName call i m).indexes.lookup name = m.indexes.lookup name := by
  unfold slimNode
  split
  · exact ensureSlimNode_lookup_other other call i m
  · rfl

theorem slimNode_libraries (slimName : String) (call : Call) (i : ℕ) (m : Master) :
    (slimNode slimName call i m).libraries = m.libraries := by
  unfold slimNode
  split
  · exact ensureSlimNode_libraries slimName call i m
  · rfl

/-- A master after the three steps of a rebuild. -/
def rebuiltNode (newHash : String) (old : Option String) (call : Call) (i : ℕ)
    (m : Master) : Master :=
  (loadNode call i (slimNode (versionedSlimIndexName newHash) call i
    (rebuildNode (versionedIndexName newHash) (sensIndex call.schema) old call i m).1)).1

theorem getElem?_rebuilt (newHash : String) (old : Option String) (call : Call)
    (masters : List Master) (i : ℕ) :
    (onEach (loadNode call) (runSlimIndexEnsure call (versionedSlimIndexName newHash)
        (runIndexRebuild call (versionedIndexName newHash) old masters).1)).1[i]? =
      masters[i]?.map (rebuiltNode newHash old call i) := by
  rw [getElem?_onEach, getElem?_runSlimIndexEnsure, runIndexRebuild, getElem?_onEach]
  cases masters[i]? <;> rfl

theorem loadNode_indexes (call : Call) (i : ℕ) (m : Master) :
    (loadNode call i m).1.indexes = m.indexes := by
  unfold loadNode
  dsimp only
  split <;> rfl

theorem loadNode_slimMade (call : Call) (i : ℕ) (m : Master) :
    (loadNode call i m).1.slimMade = m.slimMade := by
  unfold loadNode
  dsimp only
  split <;> rfl

theorem rebuiltNode_lookup {newHash name : String} (other : name ≠ versionedSlimIndexName newHash)
    (old : Option String) (call : Call) (i : ℕ) (m : Master) :
    (rebuiltNode newHash old call i m).indexes.lookup name =
      (rebuildNode (versionedIndexName newHash)
        (sensIndex call.schema) old call i m).1.indexes.lookup
        name := by
  rw [rebuiltNode, loadNode_indexes, slimNode_lookup_other other]

end Effects

section Branches

variable {computeSchemaHash : CalcSchema → String} {c : Cluster} {call : Call}

theorem bootstrapFrtb_undecided (h : decided computeSchemaHash c call = none) :
    (bootstrapFrtb computeSchemaHash c call).1 = c ∧
      (bootstrapFrtb computeSchemaHash c call).2.ready = false := by
  unfold decided at h
  unfold bootstrapFrtb
  by_cases lazy : (call.lazyMath && !call.slim) = true
  · rw [if_pos lazy]
    exact ⟨rfl, rfl⟩
  · rw [if_neg lazy] at h ⊢
    cases strand : stranded call (readOldHash c call) with
    | error e => exact ⟨rfl, rfl⟩
    | ok lost => rw [strand] at h; cases h

theorem bootstrapFrtb_keep {key write : Option String} {index : String}
    (h : decided computeSchemaHash c call = some (key, .keep write index)) :
    bootstrapFrtb computeSchemaHash c call =
      (⟨runSlimIndexEnsure call (versionedSlimIndexName (computeSchemaHash call.schema)) c.masters,
          write.elim key (writeKey call · key)⟩,
        .resolved (stepResult c.masters.length []) (stepResult c.masters.length []) []) := by
  unfold decided at h
  unfold bootstrapFrtb
  by_cases lazy : (call.lazyMath && !call.slim) = true
  · rw [if_pos lazy] at h; cases h
  · rw [if_neg lazy] at h ⊢
    cases strand : stranded call (readOldHash c call) with
    | error e => rw [strand] at h; cases h
    | ok lost =>
      rw [strand] at h
      obtain ⟨rfl, taken⟩ := Prod.mk.inj (Option.some.inj h)
      simp only [taken]

theorem bootstrapFrtb_rebuild {key old : Option String}
    (h : decided computeSchemaHash c call = some (key, .rebuild old)) :
    let newHash := computeSchemaHash call.schema
    let rebuilt := runIndexRebuild call (versionedIndexName newHash) old c.masters
    let masters := runSlimIndexEnsure call (versionedSlimIndexName newHash) rebuilt.1
    let left := if rebuilt.2.isEmpty then writeKey call newHash key else key
    bootstrapFrtb computeSchemaHash c call =
      match snippetsError call with
      | some error => (⟨masters, left⟩, .snippetsFailed error)
      | none =>
        let loaded := onEach (loadNode call) masters
        (⟨loaded.1, left⟩,
          if (rebuilt.2 ++ loaded.2).isEmpty then
            .resolved (stepResult c.masters.length []) (stepResult c.masters.length [])
              frtbFunctions
          else .partially (rebuilt.2 ++ loaded.2)) := by
  unfold decided at h
  unfold bootstrapFrtb
  by_cases lazy : (call.lazyMath && !call.slim) = true
  · rw [if_pos lazy] at h; cases h
  · rw [if_neg lazy] at h ⊢
    cases strand : stranded call (readOldHash c call) with
    | error e => rw [strand] at h; cases h
    | ok lost =>
      rw [strand] at h
      obtain ⟨rfl, taken⟩ := Prod.mk.inj (Option.some.inj h)
      simp only [taken]

/-- Whatever a rebuild ends in, what becomes of the masters and of the key. -/
theorem bootstrapFrtb_rebuild_state {key old : Option String}
    (h : decided computeSchemaHash c call = some (key, .rebuild old)) :
    let newHash := computeSchemaHash call.schema
    let newName := versionedIndexName newHash
    let after := (bootstrapFrtb computeSchemaHash c call).1
    (∃ last : ℕ → Master → Master,
      (∀ i m, (last i m).indexes = m.indexes ∧ (last i m).slimMade = m.slimMade) ∧
        ∀ i, after.masters[i]? = c.masters[i]?.map fun m =>
          last i (slimNode (versionedSlimIndexName newHash) call i
            (rebuildNode newName (sensIndex call.schema) old call i m).1)) ∧
      after.hashKey =
        if (runIndexRebuild call newName old c.masters).2.isEmpty then writeKey call newHash key
        else key := by
  intro newHash newName after
  have run := bootstrapFrtb_rebuild h
  dsimp only at run
  cases built : snippetsError call with
  | some error =>
    rw [built] at run
    simp only [after, run]
    refine ⟨⟨fun _ m => m, fun _ _ => ⟨rfl, rfl⟩, fun i => ?_⟩, rfl⟩
    rw [getElem?_runSlimIndexEnsure, runIndexRebuild, getElem?_onEach]
    cases c.masters[i]? <;> rfl
  | none =>
    rw [built] at run
    simp only [after, run]
    refine ⟨⟨fun i m => (loadNode call i m).1, fun i m => ⟨loadNode_indexes call i m,
      loadNode_slimMade call i m⟩, fun i => ?_⟩, rfl⟩
    rw [getElem?_rebuilt]
    rfl

/-- A call that resolves leaves the key of its branch. -/
theorem hashKey_of_ready (ready : (bootstrapFrtb computeSchemaHash c call).2.ready = true) :
    (bootstrapFrtb computeSchemaHash c call).1.hashKey = keyLeft computeSchemaHash c call := by
  unfold keyLeft
  cases taken : decided computeSchemaHash c call with
  | none =>
    rw [(bootstrapFrtb_undecided taken).2] at ready
    cases ready
  | some branch =>
    obtain ⟨key, plan⟩ := branch
    cases plan with
    | keep write index => rw [bootstrapFrtb_keep taken]
    | rebuild old =>
      have run := bootstrapFrtb_rebuild taken
      rw [(bootstrapFrtb_rebuild_state taken).2]
      refine if_pos ?_
      by_contra failed
      dsimp only at run
      rw [run] at ready
      cases built : snippetsError call with
      | some error => rw [built] at ready; cases ready
      | none =>
        rw [built] at ready
        dsimp only at ready
        rw [if_neg] at ready
        · cases ready
        · rw [List.isEmpty_iff, List.append_eq_nil_iff]
          exact fun both => failed (List.isEmpty_iff.mpr both.1)

end Branches

end Bootstrap
