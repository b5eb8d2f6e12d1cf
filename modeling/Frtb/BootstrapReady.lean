import Frtb.Bootstrap

/-!
# What a ready bootstrap leaves behind

A call that resolves normally is taken to mean that the target can be used: every
master has the index that the key names, laid out as the schema asks, and the
function library of the schema. A rebuild makes this so where no index of the new
name was there before and the key was written; the branches that keep an index
neither look at it on every master nor load the library.
-/

namespace Bootstrap

open AssocMaps EnrichDoc FastPath RqeIndex
open StorageWriter (upperCase)

section Usable

/-- The fields that FT.INFO shows for the index. -/
def FtIndex.fields (idx : FtIndex) : List NormalizedFtField :=
  (parseFtInfoAttributes (some idx.attributes)).getD []

/-- The index is of the kind, under the prefixes and with the fields that the schema asks for. -/
def Wanted (idx : FtIndex) (schema : CalcSchema) : Prop :=
  idx.on = "HASH" ∧ idx.prefixes = [idxPrefix, idxShadowPrefix] ∧
    ∀ f ∈ parseExpectedSchemaFields (buildCreateArgs schema.toSchema), ∃ g ∈ idx.fields, Meets g f

def HasWanted (m : Master) (name : String) (schema : CalcSchema) : Prop :=
  ∃ idx, m.indexes.lookup name = some idx ∧ Wanted idx schema

/-- Requests of the label can be answered under the schema. -/
def Usable (c : Cluster) (schema : CalcSchema) : Prop :=
  ∀ m ∈ c.masters, HasWanted m (getSensIndexName c.hashKey) schema ∧ schema ∈ m.libraries

/-- A kept index must be as wanted on every master, with the library loaded before. A rebuilt one
must not have been there in another layout; and where the key does not come to name it, the key's
index must not be the one that is dropped. -/
def UsableAfter (computeSchemaHash : CalcSchema → String) (c : Cluster) (call : Call) : Prop :=
  match decided computeSchemaHash c call with
  | none => True
  | some (key, .keep write _) =>
    ∀ m ∈ c.masters, HasWanted m (getSensIndexName (write.elim key (writeKey call · key)))
      call.schema ∧ call.schema ∈ m.libraries
  | some (key, .rebuild old) =>
    let newHash := computeSchemaHash call.schema
    let named := getSensIndexName (writeKey call newHash key)
    if named = versionedIndexName newHash then
      ∀ m ∈ c.masters, ∀ idx, m.indexes.lookup named = some idx → Wanted idx call.schema
    else ∀ m ∈ c.masters, old ≠ some named ∧ HasWanted m named call.schema

end Usable

section Created

theorem parse_tagField {name : String} (named : name ≠ "") :
    parseAttrDescriptor (descriptor (tagField name)) = some (tagField name).expected := by
  have identifier : upperCase "identifier" = "IDENTIFIER" := by decide
  have attr : upperCase "attribute" = "ATTRIBUTE" := by decide
  have type : upperCase "type" = "TYPE" := by decide
  have separator : upperCase "SEPARATOR" = "SEPARATOR" := by decide
  have tag : upperCase "TAG" = "TAG" := by decide
  simp [parseAttrDescriptor, descriptor, tagField, readDescriptor, identifier, attr, type,
    separator, tag, present, named, normalized, IndexField.expected, Option.filter]

theorem parse_numericField {name : String} (named : name ≠ "") :
    parseAttrDescriptor (descriptor (numericField name)) = some (numericField name).expected := by
  have identifier : upperCase "identifier" = "IDENTIFIER" := by decide
  have attr : upperCase "attribute" = "ATTRIBUTE" := by decide
  have type : upperCase "type" = "TYPE" := by decide
  have sortable : upperCase "SORTABLE" = "SORTABLE" := by decide
  have numeric : upperCase "NUMERIC" = "NUMERIC" := by decide
  simp [parseAttrDescriptor, descriptor, numericField, readDescriptor, identifier, attr, type,
    sortable, numeric, present, named, normalized, IndexField.expected, Option.filter]

theorem parse_buildSchemaFields (schema : Schema) :
    ∀ f ∈ buildSchemaFields schema, parseAttrDescriptor (descriptor f) = some f.expected := by
  intro f mem
  rcases List.mem_append.mp mem with tag | leg
  · obtain ⟨name, among, rfl⟩ := List.mem_map.mp tag
    have named : ∀ name ∈ ["risk_class", "bucket", "sensitivity_type", "book", "trade_id",
        "risk_factor", "trader", "_calibration", "desk"], name ≠ "" := by decide
    exact parse_tagField (named name among)
  · obtain ⟨p, _, own⟩ := List.mem_flatMap.mp leg
    obtain ⟨g, _, rfl⟩ := List.mem_map.mp own
    refine parse_numericField fun empty => ?_
    have chars := congrArg String.toList empty
    rw [String.toList_append] at chars
    exact absurd chars (by simp)

/-- An index that FT.CREATE has just made is as wanted. -/
theorem sensIndex_wanted (schema : CalcSchema) : Wanted (sensIndex schema) schema := by
  refine ⟨rfl, rfl, fun f mem => ⟨f, ?_, rfl, rfl, rfl, fun _ => rfl⟩⟩
  rw [parseExpectedSchemaFields_buildCreateArgs] at mem
  obtain ⟨g, own, rfl⟩ := List.mem_map.mp mem
  exact List.mem_filterMap.mpr ⟨descriptor g, List.mem_map_of_mem own,
    parse_buildSchemaFields schema.toSchema g own⟩

end Created

section Adopted

variable {c : Cluster} {call : Call}

/-- What the adoption check is worth: the first master shows every field of the schema. It says
nothing about the other masters, the kind of the index or its prefixes. -/
theorem adoptable_first {newHash foreign : String}
    (adopted : adoptable c call newHash foreign = true) :
    ∀ m ∈ c.masters.head?, ∃ idx, m.indexes.lookup (versionedIndexName foreign) = some idx ∧
      ∀ f ∈ parseExpectedSchemaFields (buildCreateArgs call.schema.toSchema),
        ∃ g ∈ idx.fields, Meets g f := by
  intro m first
  simp only [adoptable, Bool.and_eq_true] at adopted
  obtain ⟨fields, shown, meets⟩ := meets_of_compatible adopted.2
  unfold existingAttrs at shown
  split at shown
  · cases shown
  · rw [Option.mem_def.mp first] at shown
    obtain ⟨attributes, own, rfl⟩ := Option.map_eq_some_iff.mp shown
    obtain ⟨idx, found, rfl⟩ := Option.map_eq_some_iff.mp own
    exact ⟨idx, found, meets⟩

end Adopted

section Ready

variable {computeSchemaHash : CalcSchema → String} {c : Cluster} {call : Call}

/-- A rebuild that resolves has had no failure on any master. -/
theorem ready_rebuild {key old : Option String}
    (taken : decided computeSchemaHash c call = some (key, .rebuild old))
    (ready : (bootstrapFrtb computeSchemaHash c call).2.ready = true) :
    let newHash := computeSchemaHash call.schema
    let after := (bootstrapFrtb computeSchemaHash c call).1
    (∀ i m, c.masters[i]? = some m →
        DropSucceeds (versionedIndexName newHash) old (call.dropIndex i) ∧
          (call.create i).error = none ∧ (call.functionLoad i).error = none) ∧
      after.hashKey = writeKey call newHash key ∧
      ∀ i, after.masters[i]? = c.masters[i]?.map (rebuiltNode newHash old call i) := by
  intro newHash after
  have run := bootstrapFrtb_rebuild taken
  dsimp only at run
  cases built : snippetsError call with
  | some error =>
    rw [built] at run
    rw [run] at ready
    cases ready
  | none =>
    rw [built] at run
    dsimp only at run
    have fine : ((runIndexRebuild call (versionedIndexName newHash) old c.masters).2 ++
        (onEach (loadNode call) (runSlimIndexEnsure call (versionedSlimIndexName newHash)
          (runIndexRebuild call (versionedIndexName newHash) old c.masters).1)).2).isEmpty =
            true := by
      by_contra bad
      rw [run, if_neg bad] at ready
      cases ready
    rw [List.isEmpty_iff, List.append_eq_nil_iff, ← List.isEmpty_iff, ← List.isEmpty_iff] at fine
    obtain ⟨indexes, libraries⟩ := fine
    have nodes := (onEach_isEmpty_iff _ _).mp indexes
    have loads := (onEach_isEmpty_iff _ _).mp libraries
    refine ⟨fun i m at_i => ?_, ?_, fun i => ?_⟩
    · have node := (rebuildNode_ok_iff _ _ _ _ _ _).mp (nodes i m at_i)
      refine ⟨node.1, node.2, ?_⟩
      have there : (runSlimIndexEnsure call (versionedSlimIndexName newHash)
          (runIndexRebuild call (versionedIndexName newHash) old c.masters).1)[i]? =
          some (slimNode (versionedSlimIndexName newHash) call i
            (rebuildNode (versionedIndexName newHash) (sensIndex call.schema) old call i m).1) := by
        rw [getElem?_runSlimIndexEnsure, runIndexRebuild, getElem?_onEach, at_i]
        rfl
      exact (failuresOf_eq_nil_iff "frtb" i (call.functionLoad i)).mp (loads i _ there)
    · simp only [after, run]
      exact if_pos indexes
    · simp only [after, run]
      exact getElem?_rebuilt newHash old call c.masters i

/-- What a rebuild that resolves leaves of a master's indexes for the fat index. -/
theorem rebuiltNode_named {newHash name : String} {old : Option String} {i : ℕ} (m : Master)
    (fat : name ≠ versionedSlimIndexName newHash)
    (dropped : DropSucceeds (versionedIndexName newHash) old (call.dropIndex i))
    (created : (call.create i).error = none) :
    (rebuiltNode newHash old call i m).indexes.lookup name =
      if name = versionedIndexName newHash then
        some ((m.indexes.lookup name).getD (sensIndex call.schema))
      else if old = some name then none
      else m.indexes.lookup name := by
  classical
  rw [rebuiltNode_lookup fat]
  by_cases new : name = versionedIndexName newHash
  · subst new
    rw [rebuildNode_lookup_new, if_pos ⟨dropped, applied_of_succeeded created⟩, if_pos rfl]
  · rw [rebuildNode_lookup_other new, if_neg new]
    by_cases old' : old = some name
    · have applied := applied_of_succeeded (dropped name old' new)
      rw [if_pos ⟨old', applied⟩, if_pos old']
    · rw [if_neg fun h => old' h.1, if_neg old']

theorem rebuiltNode_libraries {newHash : String} {old : Option String} {i : ℕ} (m : Master)
    (loaded : (call.functionLoad i).error = none) :
    call.schema ∈ (rebuiltNode newHash old call i m).libraries := by
  simp only [rebuiltNode, loadNode, applied_of_succeeded loaded, if_true, List.mem_cons, true_or]

/-- The index that is found is the one there was before, or else the created one. -/
theorem wanted_getD_iff (before : Option FtIndex) (schema : CalcSchema) :
    (∃ idx, some (before.getD (sensIndex schema)) = some idx ∧ Wanted idx schema) ↔
      ∀ idx, before = some idx → Wanted idx schema := by
  cases before with
  | none =>
    simp only [Option.getD_none, Option.some.injEq, exists_eq_left', reduceCtorEq, false_implies,
      implies_true, iff_true]
    exact sensIndex_wanted schema
  | some idx => simp only [Option.getD_some, Option.some.injEq, exists_eq_left', forall_eq']

/-- A call that resolves leaves the target usable exactly under the condition on its branch. -/
theorem usable_iff (ready : (bootstrapFrtb computeSchemaHash c call).2.ready = true) :
    Usable (bootstrapFrtb computeSchemaHash c call).1 call.schema ↔
      UsableAfter computeSchemaHash c call := by
  cases taken : decided computeSchemaHash c call with
  | none =>
    rw [(bootstrapFrtb_undecided taken).2] at ready
    cases ready
  | some branch =>
    obtain ⟨key, plan⟩ := branch
    cases plan with
    | keep write index =>
      simp only [UsableAfter, taken, bootstrapFrtb_keep taken, Usable]
      rw [forall_mem_iff_getElem?, forall_mem_iff_getElem?]
      simp only [getElem?_runSlimIndexEnsure, Option.map_eq_some_iff, forall_exists_index, and_imp,
        forall_apply_eq_imp_iff₂, HasWanted, slimNode_libraries,
        slimNode_lookup_other (sens_ne_slim _ _)]
    | rebuild old =>
      obtain ⟨nodes, key', masters⟩ := ready_rebuild taken ready
      simp only [UsableAfter, taken, Usable, key']
      rw [forall_mem_iff_getElem?]
      simp only [masters, Option.map_eq_some_iff, forall_exists_index, and_imp,
        forall_apply_eq_imp_iff₂]
      by_cases named : getSensIndexName (writeKey call (computeSchemaHash call.schema) key) =
          versionedIndexName (computeSchemaHash call.schema)
      · rw [if_pos named, forall_mem_iff_getElem?]
        refine forall_congr' fun i => forall_congr' fun m => forall_congr' fun at_i => ?_
        obtain ⟨dropped, created, loaded⟩ := nodes i m at_i
        rw [and_iff_left (rebuiltNode_libraries m loaded), HasWanted,
          rebuiltNode_named m (sens_ne_slim _ _) dropped created, if_pos named]
        exact wanted_getD_iff _ call.schema
      · rw [if_neg named, forall_mem_iff_getElem?]
        refine forall_congr' fun i => forall_congr' fun m => forall_congr' fun at_i => ?_
        obtain ⟨dropped, created, loaded⟩ := nodes i m at_i
        rw [and_iff_left (rebuiltNode_libraries m loaded), HasWanted,
          rebuiltNode_named m (sens_ne_slim _ _) dropped created, if_neg named]
        by_cases gone : old = some (getSensIndexName
            (writeKey call (computeSchemaHash call.schema) key))
        · rw [if_pos gone]
          exact iff_of_false (fun ⟨_, found, _⟩ => nomatch found) fun kept => kept.1 gone
        · rw [if_neg gone]
          exact (and_iff_right gone).symm

end Ready

section Histories

/-- After any series of calls on any cluster, a call that resolves leaves the target usable exactly
when its branch finds what it takes for granted. -/
theorem ready_usable_iff (computeSchemaHash : CalcSchema → String) (c : Cluster)
    (history : List Call) (call : Call)
    (ready : (bootstrapFrtb computeSchemaHash (runAll computeSchemaHash c history) call).2.ready =
      true) :
    Usable (bootstrapFrtb computeSchemaHash (runAll computeSchemaHash c history) call).1
        call.schema ↔
      UsableAfter computeSchemaHash (runAll computeSchemaHash c history) call :=
  usable_iff ready

/-- A schema with one scalar class and constant correlations. -/
def fxSchema : CalcSchema where
  riskClasses := ofPairs [("FX", ⟨none, "fx_weights"⟩)]
  riskWeights := ofPairs [("fx_weights", .constant (3 / 20))]
  intraBucketCorrelationRef := fun _ => some "fx_rho"
  correlations := fun _ => some (.constant (3 / 5))

def fxHash : CalcSchema → String := fun _ => "3f8a1c0b9d2e4f67"

/-- A call in which every command succeeds. -/
def cleanCall : Call where
  schema := fxSchema
  force := false
  adoption := .on
  lazyMath := false
  slim := false
  getFails := false
  versionedInfo := .docs (some 0)
  legacyStrictInfo := .unknown
  legacyInfo := .unknown
  del := .ok
  set := .ok
  ftList := some []
  infoFails := fun _ => false
  foreignInfoFails := fun _ => false
  attributesFail := false
  dropIndex := fun _ => .ok
  create := fun _ => .ok
  slimCreate := fun _ => .ok
  templateError := none
  functionLoad := fun _ => .ok

/-- One master without anything on it. -/
def emptyCluster : Cluster := ⟨[⟨∅, [], []⟩], none⟩

/-- From nothing, the call makes the target usable. -/
theorem ready_usable_empty :
    Usable (bootstrapFrtb fxHash (runAll fxHash emptyCluster []) cleanCall).1 fxSchema := by
  refine (ready_usable_iff fxHash emptyCluster [] cleanCall (by decide +kernel)).mpr ?_
  have taken : decided fxHash emptyCluster cleanCall = some (none, .rebuild none) := by
    decide +kernel
  simp only [runAll, List.foldl_nil, UsableAfter, taken]
  rw [if_pos (by decide +kernel)]
  intro m mem idx found
  rw [List.mem_singleton.mp mem] at found
  cases found

/-- The call whose FUNCTION LOAD fails has written the key; the next one skips to ready, and no
library has ever been loaded. -/
theorem ready_without_library :
    let failing := { cleanCall with functionLoad := fun _ => .refused "Connection is closed." }
    let before := runAll fxHash emptyCluster [failing]
    (bootstrapFrtb fxHash emptyCluster failing).2.ready = false ∧
      (bootstrapFrtb fxHash before cleanCall).2.ready = true ∧
      ¬ Usable (bootstrapFrtb fxHash before cleanCall).1 fxSchema := by
  intro failing before
  have none_loaded : ∀ m ∈ (bootstrapFrtb fxHash before cleanCall).1.masters,
      m.libraries.length = 0 := by
    decide +kernel
  have one : (bootstrapFrtb fxHash before cleanCall).1.masters.length = 1 := by decide +kernel
  refine ⟨by decide +kernel, by decide +kernel, fun usable => ?_⟩
  have mem := List.getElem_mem (by rw [one]; exact Nat.one_pos :
    0 < (bootstrapFrtb fxHash before cleanCall).1.masters.length)
  have loaded := (usable _ mem).2
  rw [List.length_eq_zero_iff.mp (none_loaded _ mem)] at loaded
  cases loaded

end Histories

end Bootstrap
