import Frtb.BootstrapReady

/-!
# The name of the slim index

The bootstrap creates the slim index under the hash of the schema in hand; the
requests look for it under the value of the key. The two agree when the key names
the schema of this call or of an earlier one that created its slim index.
-/

namespace Bootstrap

open AssocMaps FastPath RqeIndex

section Held

/-- The index of this name is one that a bootstrap created, with the slim fields of its schema. -/
def SlimHeld (m : Master) (name : String) : Prop :=
  ∃ schema, m.indexes.lookup name = some (slimIndex schema) ∧ (name, schema) ∈ m.slimMade

/-- The name that the requests use is held by every master. -/
def SlimAgrees (c : Cluster) : Prop :=
  ∀ m ∈ c.masters, SlimHeld m (getSlimSensIndexName c.hashKey)

/-- The names under which the calls of a series create their slim index; a call that rejects before
it has decided creates none. -/
def slimNames (computeSchemaHash : CalcSchema → String) : Cluster → List Call → List String
  | _, [] => []
  | c, call :: rest =>
    (if (decided computeSchemaHash c call).isSome then
      [versionedSlimIndexName (computeSchemaHash call.schema)] else []) ++
      slimNames computeSchemaHash (bootstrapFrtb computeSchemaHash c call).1 rest

/-- The name is neither that of the legacy index nor of a versioned one. -/
def NotFat (name : String) : Prop := name ≠ baseIndexName ∧ ∀ hash, name ≠ versionedIndexName hash

theorem slim_notFat (key : Option String) : NotFat (getSlimSensIndexName key) := by
  have eighth : (getSlimSensIndexName key).toList[9]? = some 's' := by
    rcases resolveName_cases baseSlimIndexName versionedSlimIndexName key with
      bare | ⟨value, _, versioned⟩
    · rw [getSlimSensIndexName, bare]
      rfl
    · rw [getSlimSensIndexName, versioned]
      simp [versionedSlimIndexName, versionedSlimPrefix]
  refine ⟨fun same => ?_, fun hash same => ?_⟩
  · rw [same] at eighth
    revert eighth
    decide
  · rw [same] at eighth
    simp [versionedIndexName, versionedPrefix] at eighth

/-- A rebuild drops no index but the legacy one or a versioned one. -/
theorem plan_old {c : Cluster} {call : Call} {newHash name : String} {oldHash old : Option String}
    (notFat : NotFat name) (taken : plan c call newHash oldHash = .rebuild old) :
      old ≠ some name := by
  have versioned : oldHash.map versionedIndexName ≠ some name := by
    intro same
    obtain ⟨hash, _, rfl⟩ := Option.map_eq_some_iff.mp same
    exact notFat.2 hash rfl
  unfold plan at taken
  split at taken
  · cases taken
  · split at taken
    · split at taken
      · cases taken
      · cases taken
        exact fun same => notFat.1 (Option.some.inj same).symm
    · split at taken
      · cases taken
      · split at taken
        · split at taken
          · cases taken
          · cases taken
            exact versioned
        · cases taken
          exact versioned

theorem SlimHeld.congr {m m' : Master} {name : String}
    (found : m'.indexes.lookup name = m.indexes.lookup name) (made : m'.slimMade = m.slimMade) :
    SlimHeld m' name ↔ SlimHeld m name := by
  rw [SlimHeld, SlimHeld, found, made]

end Held

section Growth

/-- Each master keeps what it has under the name, and has the slim index of a bootstrap there if it
had nothing and the name is among those created. -/
def Grows (name : String) (names : List String) (before after : List Master) : Prop :=
  ∃ g : ℕ → Master → Master, (∀ i, after[i]? = before[i]?.map (g i)) ∧
    ∀ i m, (SlimHeld (g i m) name ↔
        SlimHeld m name ∨ m.indexes.lookup name = none ∧ name ∈ names) ∧
      ((g i m).indexes.lookup name = none ↔ m.indexes.lookup name = none ∧ name ∉ names)

theorem Grows.refl (name : String) (masters : List Master) : Grows name [] masters masters :=
  ⟨fun _ m => m, fun i => by cases masters[i]? <;> rfl, fun _ _ => by simp⟩

theorem Grows.trans {name : String} {names names' : List String} {a b c : List Master}
    (first : Grows name names a b) (second : Grows name names' b c) :
    Grows name (names ++ names') a c := by
  obtain ⟨g, ab, held⟩ := first
  obtain ⟨g', bc, held'⟩ := second
  refine ⟨fun i m => g' i (g i m), fun i => ?_, fun i m => ?_⟩
  · rw [bc, ab]
    cases a[i]? <;> rfl
  · rw [(held' i (g i m)).1, (held' i (g i m)).2, (held i m).1, (held i m).2, List.mem_append]
    constructor
    · tauto
    · tauto

variable {computeSchemaHash : CalcSchema → String} {c : Cluster} {call : Call} {name : String}

/-- The slim step on one master. -/
theorem slimNode_grows (slim : call.slim = true) {i : ℕ} (went : (call.slimCreate i).error = none)
    (slimName : String) (m : Master) :
    (SlimHeld (slimNode slimName call i m) name ↔
        SlimHeld m name ∨ m.indexes.lookup name = none ∧ name ∈ [slimName]) ∧
      ((slimNode slimName call i m).indexes.lookup name = none ↔
        m.indexes.lookup name = none ∧ name ∉ [slimName]) := by
  rw [List.mem_singleton]
  by_cases absent : m.indexes.lookup slimName = none
  · have node : slimNode slimName call i m =
        { m with
          indexes := m.indexes.insert slimName (slimIndex call.schema)
          slimMade := (slimName, call.schema) :: m.slimMade } := by
      rw [slimNode, if_pos slim, ensureSlimNode, if_pos ⟨applied_of_succeeded went, absent⟩]
    rw [node]
    by_cases own : name = slimName
    · subst own
      simp only [SlimHeld, AList.lookup_insert, absent, not_true_eq_false, and_false, and_true,
        or_true, iff_true, reduceCtorEq, and_self]
      exact ⟨call.schema, rfl, List.mem_cons_self⟩
    · have others : ∀ schema, (name, schema) ∈ (slimName, call.schema) :: m.slimMade ↔
          (name, schema) ∈ m.slimMade := by
        intro schema
        rw [List.mem_cons, or_iff_right fun same => own (congrArg Prod.fst same)]
      simp only [SlimHeld, AList.lookup_insert_ne own, others, own, and_false, or_false,
        not_false_eq_true, and_true, and_self]
  · have node : slimNode slimName call i m = m := by
      rw [slimNode, if_pos slim, ensureSlimNode, if_neg fun h => absent h.2]
    rw [node]
    by_cases own : name = slimName
    · subst own
      simp only [absent, false_and, or_false, and_self]
    · simp only [own, and_false, or_false, not_false_eq_true, and_true, and_self]

/-- One call adds the name of its own slim index, unless it rejects before. -/
theorem bootstrapFrtb_grows (notFat : NotFat name) (slim : call.slim = true)
    (went : ∀ i, (call.slimCreate i).error = none) :
    Grows name (slimNames computeSchemaHash c [call]) c.masters
      (bootstrapFrtb computeSchemaHash c call).1.masters := by
  cases taken : decided computeSchemaHash c call with
  | none =>
    rw [(bootstrapFrtb_undecided taken).1]
    simp only [slimNames, taken, Option.isSome_none, Bool.false_eq_true, if_false, List.append_nil]
    exact Grows.refl name c.masters
  | some branch =>
    simp only [slimNames, taken, Option.isSome_some, if_true, List.append_nil]
    obtain ⟨key, branchPlan⟩ := branch
    cases branchPlan with
    | keep write index =>
      rw [bootstrapFrtb_keep taken]
      exact ⟨slimNode _ call, getElem?_runSlimIndexEnsure call _ c.masters,
        fun i m => slimNode_grows slim (went i) _ m⟩
    | rebuild old =>
      obtain ⟨⟨last, same, masters⟩, _⟩ := bootstrapFrtb_rebuild_state taken
      have kept : old ≠ some name := by
        unfold decided at taken
        split at taken
        · cases taken
        · split at taken
          · cases taken
          · exact plan_old notFat (Prod.mk.inj (Option.some.inj taken)).2
      refine ⟨_, masters, fun i m => ?_⟩
      have found := rebuildNode_lookup_other (notFat.2 (computeSchemaHash call.schema))
        (sensIndex call.schema) old call i m
      rw [if_neg fun h => kept h.1] at found
      have made := rebuildNode_slimMade (versionedIndexName (computeSchemaHash call.schema))
        (sensIndex call.schema) old call i m
      have grown := @slimNode_grows call name slim i (went i)
        (versionedSlimIndexName (computeSchemaHash call.schema))
        (rebuildNode (versionedIndexName (computeSchemaHash call.schema)) (sensIndex call.schema)
          old call i m).1
      rw [SlimHeld.congr found made, found] at grown
      rw [SlimHeld.congr (by rw [(same i _).1]) (same i _).2, (same i _).1]
      exact grown

theorem runAll_grows (notFat : NotFat name) {calls : List Call}
    (slim : ∀ call ∈ calls, call.slim = true ∧ ∀ i, (call.slimCreate i).error = none) :
    Grows name (slimNames computeSchemaHash c calls) c.masters
      (runAll computeSchemaHash c calls).masters := by
  induction calls generalizing c with
  | nil => exact Grows.refl name c.masters
  | cons call rest ih =>
    have own := slim call List.mem_cons_self
    have first := @bootstrapFrtb_grows computeSchemaHash c call name notFat own.1 own.2
    have later := ih (c := (bootstrapFrtb computeSchemaHash c call).1)
      fun call mem => slim call (List.mem_cons_of_mem _ mem)
    have both := first.trans later
    simp only [slimNames, List.append_nil] at both
    exact both

/-- After a call that resolves, the requests find a slim index of a bootstrap on every master
exactly when the key it leaves stands for a name that this or an earlier call has created, or for
one that bootstraps had created before. -/
theorem slim_agrees_iff (computeSchemaHash : CalcSchema → String) (c : Cluster)
    (history : List Call) (call : Call)
    (slim : ∀ call' ∈ history ++ [call], call'.slim = true ∧ ∀ i, (call'.slimCreate i).error = none)
    (ready : (bootstrapFrtb computeSchemaHash (runAll computeSchemaHash c history) call).2.ready =
      true) :
    SlimAgrees (bootstrapFrtb computeSchemaHash (runAll computeSchemaHash c history) call).1 ↔
      let name := getSlimSensIndexName
        (keyLeft computeSchemaHash (runAll computeSchemaHash c history) call)
      ∀ m ∈ c.masters, SlimHeld m name ∨
        m.indexes.lookup name = none ∧
          name ∈ slimNames computeSchemaHash c (history ++ [call]) := by
  have whole : (bootstrapFrtb computeSchemaHash (runAll computeSchemaHash c history) call).1 =
      runAll computeSchemaHash c (history ++ [call]) := by
    simp only [runAll, List.foldl_append, List.foldl_cons, List.foldl_nil]
  obtain ⟨g, masters, grown⟩ := @runAll_grows computeSchemaHash c _
    (slim_notFat (keyLeft computeSchemaHash (runAll computeSchemaHash c history) call)) _ slim
  rw [SlimAgrees, hashKey_of_ready ready, whole, forall_mem_iff_getElem?, forall_mem_iff_getElem?]
  simp only [masters, Option.map_eq_some_iff, forall_exists_index, and_imp,
    forall_apply_eq_imp_iff₂, (grown _ _).1]

/-- A call with the slim index switched on. -/
def slimCall : Call := { cleanCall with slim := true }

/-- From nothing, the key names the slim index of the call. -/
theorem slim_agrees_empty :
    SlimAgrees (bootstrapFrtb fxHash (runAll fxHash emptyCluster []) slimCall).1 := by
  refine (slim_agrees_iff fxHash emptyCluster [] slimCall ?_ (by decide +kernel)).mpr ?_
  · intro call mem
    rw [List.nil_append, List.mem_singleton] at mem
    subst mem
    exact ⟨rfl, fun _ => rfl⟩
  · intro name m mem
    rw [List.mem_singleton.mp mem]
    exact .inr ⟨rfl, by decide +kernel⟩

/-- A master with the legacy index on it. -/
def legacyCluster : Cluster :=
  ⟨[⟨ofPairs [("idx:sens", ⟨"HASH", [idxPrefix], []⟩)], [], []⟩], none⟩

/-- The call that adopts the legacy index leaves the key naming the bare slim index, which nobody
creates. -/
theorem bare_slim_missing :
    let call := { slimCall with legacyInfo := .docs (some 100) }
    (bootstrapFrtb fxHash legacyCluster call).2.ready = true ∧
      ¬ SlimAgrees (bootstrapFrtb fxHash legacyCluster call).1 := by
  intro call
  refine ⟨by decide +kernel, fun agrees => ?_⟩
  have key : getSlimSensIndexName (bootstrapFrtb fxHash legacyCluster call).1.hashKey =
      "idx:sens:slim" := by
    decide +kernel
  have absent : ∀ m ∈ (bootstrapFrtb fxHash legacyCluster call).1.masters,
      (m.indexes.lookup "idx:sens:slim").isSome = false := by
    decide +kernel
  have one : 0 < (bootstrapFrtb fxHash legacyCluster call).1.masters.length := by decide +kernel
  obtain ⟨schema, found, _⟩ := agrees _ (List.getElem_mem one)
  have missing := absent _ (List.getElem_mem one)
  rw [← key, found] at missing
  cases missing

end Growth

end Bootstrap
