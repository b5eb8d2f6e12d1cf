import Frtb.BootstrapReady

/-!
# What a failed bootstrap leaves behind

A call that rejects should leave the requests where they were. A rebuild drops the
old index master by master and moves the key only when every master has gone
through, so that the key can be left naming an index that some masters no longer
hold.
-/

namespace Bootstrap

open AssocMaps FastPath RqeIndex

section Intact

def Holds (m : Master) (name : String) : Prop := m.indexes.lookup name ≠ none

/-- Every master that held the index of the key holds the index of the key afterwards. -/
def Intact (before after : Cluster) : Prop :=
  ∀ (i : ℕ) (m m' : Master), before.masters[i]? = some m → after.masters[i]? = some m' →
    Holds m (getSensIndexName before.hashKey) → Holds m' (getSensIndexName after.hashKey)

/-- No FT.DROPINDEX or FT.CREATE of the rebuild fails. -/
def AllSucceed (c : Cluster) (call : Call) (newName : String) (old : Option String) : Prop :=
  ∀ (i : ℕ) (m : Master), c.masters[i]? = some m →
    DropSucceeds newName old (call.dropIndex i) ∧ (call.create i).error = none

open Classical in
/-- On a master that held the index of the key: when the key comes to name the new index, it is
there or is created there; else the named index is there and is not the one that is dropped. -/
def IntactAfter (computeSchemaHash : CalcSchema → String) (c : Cluster) (call : Call) : Prop :=
  match decided computeSchemaHash c call with
  | some (key, .rebuild old) =>
    let newHash := computeSchemaHash call.schema
    let newName := versionedIndexName newHash
    let name := getSensIndexName
      (if AllSucceed c call newName old then writeKey call newHash key else key)
    ∀ (i : ℕ) (m : Master), c.masters[i]? = some m → Holds m (getSensIndexName c.hashKey) →
      if name = newName then
        Holds m name ∨ DropSucceeds newName old (call.dropIndex i) ∧ (call.create i).applied = true
      else Holds m name ∧ (old = some name → (call.dropIndex i).applied = false)
  | _ => True

variable {computeSchemaHash : CalcSchema → String} {c : Cluster} {call : Call}

theorem rebuild_isEmpty_iff (newName : String) (old : Option String) :
    (runIndexRebuild call newName old c.masters).2.isEmpty = true ↔
      AllSucceed c call newName old := by
  rw [runIndexRebuild, onEach_isEmpty_iff]
  simp only [rebuildNode_ok_iff, AllSucceed]

/-- Whether a master holds the named index after a rebuild. -/
theorem rebuilt_holds_iff (newName name : String) (old : Option String) (i : ℕ) (m : Master) :
    (rebuildNode newName (sensIndex call.schema) old call i m).1.indexes.lookup name ≠ none ↔
      if name = newName then
        Holds m name ∨ DropSucceeds newName old (call.dropIndex i) ∧ (call.create i).applied = true
      else Holds m name ∧ (old = some name → (call.dropIndex i).applied = false) := by
  classical
  by_cases new : name = newName
  · subst new
    rw [rebuildNode_lookup_new, if_pos rfl, Holds]
    by_cases went : DropSucceeds name old (call.dropIndex i) ∧ (call.create i).applied = true
    · rw [if_pos went]
      exact iff_of_true (by simp) (.inr went)
    · rw [if_neg went, or_iff_left went]
  · rw [rebuildNode_lookup_other new, if_neg new, Holds]
    by_cases gone : old = some name ∧ (call.dropIndex i).applied = true
    · rw [if_pos gone]
      refine iff_of_false (by simp) fun kept => ?_
      rw [kept.2 gone.1] at gone
      cases gone.2
    · rw [if_neg gone]
      refine (and_iff_left fun dropped => ?_).symm
      exact Bool.eq_false_iff.mpr fun applied => gone ⟨dropped, applied⟩

/-- A call that rejects leaves the index of the key intact exactly under the condition. -/
theorem failed_intact_iff (computeSchemaHash : CalcSchema → String) (c : Cluster) (call : Call)
    (rejects : (bootstrapFrtb computeSchemaHash c call).2.ready = false) :
    Intact c (bootstrapFrtb computeSchemaHash c call).1 ↔ IntactAfter computeSchemaHash c call := by
  classical
  cases taken : decided computeSchemaHash c call with
  | none =>
    rw [(bootstrapFrtb_undecided taken).1]
    simp only [IntactAfter, taken, iff_true]
    intro i m m' at_i at_i' held
    rw [at_i] at at_i'
    cases at_i'
    exact held
  | some branch =>
    obtain ⟨key, plan⟩ := branch
    cases plan with
    | keep write index =>
      rw [bootstrapFrtb_keep taken] at rejects
      cases rejects
    | rebuild old =>
      obtain ⟨⟨last, same, masters⟩, left⟩ := bootstrapFrtb_rebuild_state taken
      have key' : (bootstrapFrtb computeSchemaHash c call).1.hashKey =
          if AllSucceed c call (versionedIndexName (computeSchemaHash call.schema)) old then
            writeKey call (computeSchemaHash call.schema) key
          else key := by
        rw [left]
        exact if_congr (rebuild_isEmpty_iff _ _) rfl rfl
      simp only [Intact, IntactAfter, taken, key', masters]
      refine forall_congr' fun i => forall_congr' fun m => ?_
      have indexes := fun name
          (fat : name ≠ versionedSlimIndexName (computeSchemaHash call.schema)) =>
        slimNode_lookup_other fat call i (rebuildNode
          (versionedIndexName (computeSchemaHash call.schema))
          (sensIndex call.schema) old call i m).1
      constructor
      · intro intact at_i before
        have kept := intact _ at_i (by rw [at_i]; rfl) before
        rw [Holds, (same i _).1, indexes _ (sens_ne_slim _ _)] at kept
        exact (rebuilt_holds_iff _ _ old i m).mp kept
      · intro cond m' at_i at_i' before
        rw [at_i] at at_i'
        cases at_i'
        rw [Holds, (same i _).1, indexes _ (sens_ne_slim _ _)]
        exact (rebuilt_holds_iff _ _ old i m).mpr (cond at_i before)

/-- Two masters on an index of another layout. -/
def twoMasters : Cluster :=
  ⟨List.replicate 2 ⟨ofPairs [("idx:sens:vdeadbee", ⟨"HASH", [idxPrefix], []⟩)], [], []⟩,
    some "deadbeefdeadbeef"⟩

/-- The index is populated, so that nothing is recovered. -/
def migratingCall : Call := { cleanCall with versionedInfo := .docs (some 100) }

/-- FT.DROPINDEX times out on every master. -/
def stuckCall : Call :=
  { migratingCall with dropIndex := fun _ => .refused "Command timed out" }

/-- Both masters keep the index of the key. -/
theorem failed_intact_stuck : Intact twoMasters (bootstrapFrtb fxHash twoMasters stuckCall).1 := by
  refine (failed_intact_iff fxHash twoMasters stuckCall (by decide +kernel)).mpr ?_
  have taken : decided fxHash twoMasters stuckCall =
      some (some "deadbeefdeadbeef", .rebuild (some "idx:sens:vdeadbee")) := by
    decide +kernel
  have failed : ¬ AllSucceed twoMasters stuckCall (versionedIndexName (fxHash stuckCall.schema))
      (some "idx:sens:vdeadbee") := by
    intro all
    have first := (all 0 _ rfl).1 _ rfl (by decide)
    cases first
  simp only [IntactAfter, taken]
  intro i m at_i held
  rw [if_neg failed, if_neg (by decide)]
  exact ⟨held, fun _ => rfl⟩

/-- The first master has dropped the old index before its FT.CREATE fails, and the key still names
it. -/
theorem first_master_lost :
    let call := { migratingCall with
      create := fun i => if i = 0 then .refused "Command timed out" else .ok }
    (bootstrapFrtb fxHash twoMasters call).2.ready = false ∧
      ¬ Intact twoMasters (bootstrapFrtb fxHash twoMasters call).1 := by
  intro call
  have key : (bootstrapFrtb fxHash twoMasters call).1.hashKey = some "deadbeefdeadbeef" := by
    decide +kernel
  have left : (bootstrapFrtb fxHash twoMasters call).1.masters.map
      (fun m => (m.indexes.lookup "idx:sens:vdeadbee").isSome) = [false, false] := by
    decide +kernel
  refine ⟨by decide +kernel, fun intact => ?_⟩
  obtain ⟨m', at_0, gone⟩ : ∃ m', (bootstrapFrtb fxHash twoMasters call).1.masters[0]? = some m' ∧
      (m'.indexes.lookup "idx:sens:vdeadbee").isSome = false := by
    have first := congrArg (·[0]?) left
    rw [List.getElem?_map] at first
    exact Option.map_eq_some_iff.mp first
  have held := intact 0 _ m' rfl at_0 (Option.isSome_iff_ne_none.mp (by decide +kernel))
  rw [key, Holds, ← Option.isSome_iff_ne_none] at held
  have name : getSensIndexName (some "deadbeefdeadbeef") = "idx:sens:vdeadbee" := by decide
  rw [name, gone] at held
  cases held

end Intact

end Bootstrap
