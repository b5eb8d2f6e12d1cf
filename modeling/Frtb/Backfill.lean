import Frtb.HashFlattening
import Frtb.Library.AtLeastOnce

/-!
# The backfill of the rollups

The backfill scans the documents of every node, accumulates what each returned key contributes,
and writes one HSET for each rollup it met. It neither remembers the keys that it has seen nor
touches a rollup that it did not meet.
-/

namespace Backfill

open AssocMaps JsonText EnrichDoc RollupKeys RedisStore StorageWriter RollupDelta RollupContribution
open HashLayout RollupReadout HashFlattening AtLeastOnce

section Program

/-- What a document key holds, by its TYPE. -/
inductive Value where
  | hash (fields : Hash)
  | json (raw : String)
  | other

/-- The documents by key, and the fields of each rollup hash. -/
structure Store where
  sens : Assoc String Value
  rollups : String → Assoc String ℚ

structure Report where
  scanned : ℕ
  rollupsWritten : ℕ
  errors : ℕ

/-- The document that a key is read as. A key that cannot be read counts as an error. -/
def docOf : Option Value → Option Props
  | some (.hash fields) => some (reconstructDocFromHash fields)
  | some (.json raw) =>
    match parse raw with
    | none => none
    | some .null => none
    | some (.obj members) => some (ofPairs members)
    | some _ => some ∅
  | _ => none

def scanKey (s : Store) (st : Accs × Report) (k : String) : Accs × Report :=
  match docOf (s.sens.lookup k) with
  | some doc => (accumulateRollup doc st.1, { st.2 with scanned := st.2.scanned + 1 })
  | none => (st.1, { st.2 with scanned := st.2.scanned + 1, errors := st.2.errors + 1 })

/-- The pages that the nodes return, node after node. -/
def scanNodes (s : Store) (nodes : List (List (List String))) : Accs × Report :=
  nodes.foldl (fun st pages => pages.foldl (fun st keys => keys.foldl (scanKey s) st) st)
    (Accs.empty, ⟨0, 0, 0⟩)

def scalarFields (a : ScalarAcc) : List (String × ℚ) :=
  [("sum_ws", a.sumWs), ("sum_ws_sq", a.sumWsSq), ("count", a.count)]

def curvatureFields (a : CurvatureAcc) : List (String × ℚ) :=
  [("sum_ws_up", a.sumWsUp), ("sum_ws_up_sq", a.sumWsUpSq), ("sum_ws_down", a.sumWsDown),
    ("sum_ws_down_sq", a.sumWsDownSq), ("count", a.count)]

/-- One HSET; a failing one counts as an error. -/
def hset (fails : String → Bool) (st : (String → Assoc String ℚ) × Report)
    (p : String × List (String × ℚ)) : (String → Assoc String ℚ) × Report :=
  if fails p.1 then (st.1, { st.2 with errors := st.2.errors + 1 })
  else (Function.update st.1 p.1 (assign (st.1 p.1) p.2),
    { st.2 with rollupsWritten := st.2.rollupsWritten + 1 })

/-- The rollups that are written, the scalar ones first. -/
def writes (accs : Accs) : List (String × List (String × ℚ)) :=
  ((pairs accs.scalar).map fun p => (p.1, scalarFields p.2)) ++
    (pairs accs.curvature).map fun p => (p.1, curvatureFields p.2)

def backfillRollups (fails : String → Bool) (s : Store) (nodes : List (List (List String))) :
    (String → Assoc String ℚ) × Report :=
  let scanned := scanNodes s nodes
  (writes scanned.1).foldl (hset fails) (s.rollups, scanned.2)

end Program

section Bumps

/-- A rollup by its tuple. -/
structure Place where
  tags : RowTags
  tenor : Option String
deriving DecidableEq

def Place.key (p : Place) : String := p.tags.key p.tenor

def Place.curvature (p : Place) : Bool := p.tags.sensType = "Curvature"

/-- What one document adds to one rollup: the value, or the values of both directions. -/
structure Bump where
  place : Place
  worth : ℚ × ℚ

def bumpsOf (doc : Props) : List Bump :=
  match rowTags doc with
  | none => []
  | some tags =>
    if tags.sensType = "Curvature" then
      (match numAt doc "weighted_cvr_up", numAt doc "weighted_cvr_down" with
        | some up, some down => [⟨⟨tags, none⟩, (up, down)⟩]
        | _, _ => []) ++
      match tenorMapAt doc "weighted_cvr_up_per_tenor",
          tenorMapAt doc "weighted_cvr_down_per_tenor" with
      | some ups, some downs => (pairedTenors ups downs).map fun p => ⟨⟨tags, some p.1⟩, p.2⟩
      | _, _ => []
    else
      (match numAt doc "weighted_value" with
        | some ws => [⟨⟨tags, none⟩, (ws, 0)⟩]
        | none => []) ++
      match tenorMapAt doc "weighted_value_per_tenor" with
      | some m => (pairs m).map fun p => ⟨⟨tags, some p.1⟩, (p.2, 0)⟩
      | none => []

def Bump.apply (accs : Accs) (b : Bump) : Accs :=
  if b.place.curvature then bumpCurv accs b.place.key b.worth.1 b.worth.2
  else bumpScalar accs b.place.key b.worth.1

theorem apply_curvature {tags : RowTags} (curvature : tags.sensType = "Curvature") (accs : Accs)
    (tenor : Option String) (worth : ℚ × ℚ) :
    Bump.apply accs ⟨⟨tags, tenor⟩, worth⟩ = bumpCurv accs (tags.key tenor) worth.1 worth.2 := by
  rw [Bump.apply, if_pos]
  · rfl
  · exact decide_eq_true curvature

theorem apply_scalar {tags : RowTags} (scalar : tags.sensType ≠ "Curvature") (accs : Accs)
    (tenor : Option String) (worth : ℚ × ℚ) :
    Bump.apply accs ⟨⟨tags, tenor⟩, worth⟩ = bumpScalar accs (tags.key tenor) worth.1 := by
  rw [Bump.apply, if_neg]
  · rfl
  · simpa [Place.curvature] using scalar

/-- The accumulators are bumped by what the document adds. -/
theorem accumulateRollup_eq (doc : Props) (accs : Accs) :
    accumulateRollup doc accs = (bumpsOf doc).foldl Bump.apply accs := by
  unfold accumulateRollup bumpsOf
  cases rowTags doc with
  | none => rfl
  | some tags =>
    dsimp only
    by_cases curvature : tags.sensType = "Curvature"
    · rw [if_pos curvature, if_pos curvature, List.foldl_append]
      have base : (match numAt doc "weighted_cvr_up", numAt doc "weighted_cvr_down" with
          | some up, some down => [(⟨⟨tags, none⟩, (up, down)⟩ : Bump)]
          | _, _ => []).foldl Bump.apply accs =
          match numAt doc "weighted_cvr_up", numAt doc "weighted_cvr_down" with
          | some up, some down => bumpCurv accs (tags.key none) up down
          | _, _ => accs := by
        cases numAt doc "weighted_cvr_up" with
        | none => rfl
        | some up =>
          cases numAt doc "weighted_cvr_down" with
          | none => rfl
          | some down => exact apply_curvature curvature accs none (up, down)
      rw [base]
      cases tenorMapAt doc "weighted_cvr_up_per_tenor" with
      | none => rfl
      | some ups =>
        cases tenorMapAt doc "weighted_cvr_down_per_tenor" with
        | none => rfl
        | some downs =>
          cases numAt doc "weighted_cvr_up" <;> cases numAt doc "weighted_cvr_down" <;>
            simp only [List.foldl_map, apply_curvature curvature]
    · rw [if_neg curvature, if_neg curvature, List.foldl_append]
      have base : (match numAt doc "weighted_value" with
          | some ws => [(⟨⟨tags, none⟩, (ws, 0)⟩ : Bump)]
          | none => []).foldl Bump.apply accs =
          match numAt doc "weighted_value" with
          | some ws => bumpScalar accs (tags.key none) ws
          | none => accs := by
        cases numAt doc "weighted_value" with
        | none => rfl
        | some ws => exact apply_scalar curvature accs none (ws, 0)
      rw [base]
      cases tenorMapAt doc "weighted_value_per_tenor" with
      | none => rfl
      | some m =>
        cases numAt doc "weighted_value" <;> simp only [List.foldl_map, apply_scalar curvature]

/-- What the key of a document adds. -/
def bumpsAt (s : Store) (k : String) : List Bump :=
  ((docOf (s.sens.lookup k)).map bumpsOf).getD []

end Bumps

section Accumulated

/-- The values of one kind that go to one key. -/
def worthsAt (bumps : List Bump) (curvature : Bool) (key : String) : List (ℚ × ℚ) :=
  (bumps.filter fun b => b.place.curvature = curvature ∧ b.place.key = key).map Bump.worth

def scalarOf (ws : List (ℚ × ℚ)) : ScalarAcc :=
  ⟨(ws.map fun w => w.1).sum, (ws.map fun w => w.1 * w.1).sum, ws.length⟩

def curvatureOf (ws : List (ℚ × ℚ)) : CurvatureAcc :=
  ⟨(ws.map fun w => w.1).sum, (ws.map fun w => w.1 * w.1).sum, (ws.map fun w => w.2).sum,
    (ws.map fun w => w.2 * w.2).sum, ws.length⟩

/-- An accumulator is there once a value has come. -/
def filled {A : Type} (of : List (ℚ × ℚ) → A) (ws : List (ℚ × ℚ)) : Option A :=
  if ws = [] then none else some (of ws)

theorem filled_getD {A : Type} (of : List (ℚ × ℚ) → A) (ws : List (ℚ × ℚ)) :
    (filled of ws).getD (of []) = of ws := by
  unfold filled
  split
  · rename_i empty
    rw [empty, Option.getD_none]
  · rfl

theorem worthsAt_append (bumps : List Bump) (b : Bump) (curvature : Bool) (key : String) :
    worthsAt (bumps ++ [b]) curvature key = worthsAt bumps curvature key ++
      if b.place.curvature = curvature ∧ b.place.key = key then [b.worth] else [] := by
  rw [worthsAt, List.filter_append, List.map_append, worthsAt]
  congr 1
  by_cases own : b.place.curvature = curvature ∧ b.place.key = key
  · simp [own]
  · simp [own]

theorem scalar_bumped (bumps : List Bump) (key : String) :
    (bumps.foldl Bump.apply Accs.empty).scalar.lookup key =
      filled scalarOf (worthsAt bumps false key) := by
  induction bumps using List.reverseRecOn with
  | nil => rfl
  | append_singleton bumps b ih =>
    rw [List.foldl_append, List.foldl_cons, List.foldl_nil, Bump.apply, worthsAt_append]
    by_cases curvature : b.place.curvature = true
    · rw [if_pos curvature, if_neg fun own => by simp [curvature] at own, List.append_nil]
      exact ih
    · rw [if_neg curvature]
      rw [Bool.not_eq_true] at curvature
      by_cases here : key = b.place.key
      · subst here
        rw [if_pos ⟨curvature, rfl⟩, bumpScalar, AList.lookup_insert, ih]
        rw [show (⟨0, 0, 0⟩ : ScalarAcc) = scalarOf [] by simp [scalarOf], filled_getD, filled,
          if_neg (by simp)]
        simp [scalarOf]
      · rw [if_neg fun own => here own.2.symm, List.append_nil, bumpScalar,
          AList.lookup_insert_ne here]
        exact ih

theorem curvature_bumped (bumps : List Bump) (key : String) :
    (bumps.foldl Bump.apply Accs.empty).curvature.lookup key =
      filled curvatureOf (worthsAt bumps true key) := by
  induction bumps using List.reverseRecOn with
  | nil => rfl
  | append_singleton bumps b ih =>
    rw [List.foldl_append, List.foldl_cons, List.foldl_nil, Bump.apply, worthsAt_append]
    by_cases curvature : b.place.curvature = true
    · rw [if_pos curvature]
      by_cases here : key = b.place.key
      · subst here
        rw [if_pos ⟨curvature, rfl⟩, bumpCurv, AList.lookup_insert, ih]
        rw [show (⟨0, 0, 0, 0, 0⟩ : CurvatureAcc) = curvatureOf [] by simp [curvatureOf],
          filled_getD, filled, if_neg (by simp)]
        simp [curvatureOf]
      · rw [if_neg fun own => here own.2.symm, List.append_nil, bumpCurv,
          AList.lookup_insert_ne here]
        exact ih
    · rw [if_neg curvature, if_neg fun own => curvature own.1, List.append_nil]
      exact ih

/-- The fields that the values of one rollup are written as. -/
def fieldsOf (curvature : Bool) (ws : List (ℚ × ℚ)) : List (String × ℚ) :=
  if ws = [] then []
  else if curvature then curvatureFields (curvatureOf ws) else scalarFields (scalarOf ws)

def fieldNames (curvature : Bool) : List String :=
  if curvature then ["sum_ws_up", "sum_ws_up_sq", "sum_ws_down", "sum_ws_down_sq", "count"]
  else ["sum_ws", "sum_ws_sq", "count"]

theorem fieldsOf_nil (curvature : Bool) : fieldsOf curvature [] = [] := rfl

theorem names_fieldsOf (curvature : Bool) {ws : List (ℚ × ℚ)} (some_ : ws ≠ []) :
    (fieldsOf curvature ws).map Prod.fst = fieldNames curvature := by
  rw [fieldsOf, if_neg some_]
  cases curvature <;> rfl

theorem nodup_fieldNames (curvature : Bool) : (fieldNames curvature).Nodup := by
  cases curvature <;> decide

theorem count_mem_fieldsOf (curvature : Bool) {ws : List (ℚ × ℚ)} (some_ : ws ≠ []) :
    ("count", (ws.length : ℚ)) ∈ fieldsOf curvature ws := by
  rw [fieldsOf, if_neg some_]
  cases curvature <;> simp [curvatureFields, scalarFields, curvatureOf, scalarOf]

theorem lookup_count (h : Assoc String ℚ) (curvature : Bool) {ws : List (ℚ × ℚ)}
    (some_ : ws ≠ []) :
    (assign h (fieldsOf curvature ws)).lookup "count" = some (ws.length : ℚ) := by
  refine lookup_assign_of_mem h ?_ (count_mem_fieldsOf curvature some_)
  rw [names_fieldsOf curvature some_]
  exact nodup_fieldNames curvature

/-- The order of the values does not matter. -/
theorem fieldsOf_perm (curvature : Bool) {ws ws' : List (ℚ × ℚ)} (perm : ws.Perm ws') :
    fieldsOf curvature ws = fieldsOf curvature ws' := by
  have empty : ws = [] ↔ ws' = [] := ⟨fun h => by rw [h] at perm; exact perm.nil_eq.symm,
    fun h => by rw [h] at perm; exact perm.eq_nil⟩
  have sum : ∀ f : ℚ × ℚ → ℚ, (ws.map f).sum = (ws'.map f).sum := fun f => (perm.map f).sum_eq
  simp only [fieldsOf, empty, curvatureOf, scalarOf, sum, perm.length_eq]

end Accumulated

section Written
variable {fails : String → Bool} {s : Store} {nodes : List (List (List String))}

/-- The keys that a scan returns. -/
def returned (nodes : List (List (List String))) : List String := nodes.flatten.flatten

theorem foldl_scanKey (s : Store) (keys : List String) (st : Accs × Report) :
    (keys.foldl (scanKey s) st).1 = (keys.flatMap (bumpsAt s)).foldl Bump.apply st.1 ∧
      (keys.foldl (scanKey s) st).2.errors =
        st.2.errors + keys.countP fun k => (docOf (s.sens.lookup k)).isNone := by
  induction keys generalizing st with
  | nil => exact ⟨rfl, rfl⟩
  | cons k keys ih =>
    obtain ⟨accs, errors⟩ := ih (scanKey s st k)
    have one : (scanKey s st k).1 = (bumpsAt s k).foldl Bump.apply st.1 ∧
        (scanKey s st k).2.errors =
          st.2.errors + if (docOf (s.sens.lookup k)).isNone then 1 else 0 := by
      unfold scanKey bumpsAt
      cases docOf (s.sens.lookup k) with
      | none => exact ⟨rfl, rfl⟩
      | some doc => exact ⟨accumulateRollup_eq doc st.1, rfl⟩
    rw [List.foldl_cons, accs, errors, List.flatMap_cons, List.foldl_append,
      List.countP_cons, one.1,
      one.2]
    exact ⟨rfl, by omega⟩

theorem scanNodes_eq (s : Store) (nodes : List (List (List String))) :
    scanNodes s nodes = (returned nodes).foldl (scanKey s) (Accs.empty, ⟨0, 0, 0⟩) := by
  rw [returned, List.foldl_flatten, List.foldl_flatten]
  rfl

theorem foldl_hset_errors (l : List (String × List (String × ℚ)))
    (st : (String → Assoc String ℚ) × Report) :
    (l.foldl (hset fails) st).2.errors = st.2.errors + l.countP fun p => fails p.1 := by
  induction l generalizing st with
  | nil => rfl
  | cons p l ih =>
    rw [List.foldl_cons, ih, List.countP_cons, hset]
    cases fails p.1 with
    | true =>
      simp only [if_true]
      omega
    | false => simp

theorem foldl_hset_at {l : List (String × List (String × ℚ))} (ok : ∀ p ∈ l, fails p.1 = false)
    (st : (String → Assoc String ℚ) × Report) (key : String) :
    (l.foldl (hset fails) st).1 key =
      (l.filter fun p => p.1 = key).foldl (fun h p => assign h p.2) (st.1 key) := by
  induction l generalizing st with
  | nil => rfl
  | cons p l ih =>
    obtain ⟨first, rest⟩ := List.forall_mem_cons.mp ok
    rw [List.foldl_cons, ih rest, hset, first, List.filter_cons]
    by_cases here : p.1 = key
    · simp [here]
    · simp [here, Function.update_of_ne (Ne.symm here)]

theorem filter_fst_of_nodup {β : Type*} {l : List (String × β)} (nodup : (l.map Prod.fst).Nodup)
    {a : String} {b : β} (mem : (a, b) ∈ l) : l.filter (fun p => p.1 = a) = [(a, b)] := by
  induction l with
  | nil => cases mem
  | cons p l ih =>
    rw [List.map_cons, List.nodup_cons] at nodup
    rcases List.mem_cons.mp mem with rfl | mem
    · have rest : l.filter (fun p => p.1 = a) = [] := by
        rw [List.filter_eq_nil_iff]
        intro q hq same
        exact nodup.1 (List.mem_map.mpr ⟨q, hq, of_decide_eq_true same⟩)
      simp [rest]
    · have other : p.1 ≠ a := fun same => nodup.1 (same ▸ List.mem_map_of_mem mem)
      rw [List.filter_cons_of_neg (by simpa using other), ih nodup.2 mem]

theorem foldl_at_pairs {A : Type} (m : Assoc String A) (fields : A → List (String × ℚ))
    (key : String) (h : Assoc String ℚ) :
    (((pairs m).map fun p => (p.1, fields p.2)).filter fun p => p.1 = key).foldl
        (fun h p => assign h p.2) h =
      assign h (((m.lookup key).map fields).getD []) := by
  have nodup : ((pairs m).map Prod.fst).Nodup := by
    rw [map_fst_pairs]
    exact m.keys_nodup
  rw [List.filter_map]
  cases found : m.lookup key with
  | some a =>
    have own := filter_fst_of_nodup nodup ((mem_pairs m key a).mpr found)
    rw [show ((fun p : String × List (String × ℚ) => decide (p.1 = key)) ∘
      fun p : String × A => (p.1, fields p.2)) = fun p => decide (p.1 = key) from rfl, own]
    rfl
  | none =>
    have none_ : (pairs m).filter (fun p => p.1 = key) = [] := by
      rw [List.filter_eq_nil_iff]
      rintro ⟨k, a⟩ mem same
      obtain rfl : k = key := of_decide_eq_true same
      rw [mem_pairs, found] at mem
      cases mem
    rw [show ((fun p : String × List (String × ℚ) => decide (p.1 = key)) ∘
      fun p : String × A => (p.1, fields p.2)) = fun p => decide (p.1 = key) from rfl, none_]
    rfl

/-- What a run without errors leaves at a key. -/
theorem backfill_at (ok : (backfillRollups fails s nodes).2.errors = 0) (key : String) :
    (backfillRollups fails s nodes).1 key =
      assign (assign (s.rollups key)
        (fieldsOf false (worthsAt ((returned nodes).flatMap (bumpsAt s)) false key)))
        (fieldsOf true (worthsAt ((returned nodes).flatMap (bumpsAt s)) true key)) := by
  have accs := (foldl_scanKey s (returned nodes) (Accs.empty, ⟨0, 0, 0⟩)).1
  rw [← scanNodes_eq] at accs
  rw [backfillRollups, foldl_hset_errors, Nat.add_eq_zero_iff] at ok
  have succeed : ∀ p ∈ writes (scanNodes s nodes).1, fails p.1 = false := by
    intro p mem
    have none_ := List.countP_eq_zero.mp ok.2 p mem
    rwa [Bool.not_eq_true] at none_
  rw [backfillRollups, foldl_hset_at succeed, writes, List.filter_append, List.foldl_append,
    foldl_at_pairs, foldl_at_pairs, accs, scalar_bumped, curvature_bumped]
  congr 1
  · congr 1
    unfold filled fieldsOf
    split <;> rfl
  · unfold filled fieldsOf
    split <;> rfl

/-- A run without errors reads every key that it is returned. -/
theorem read_of_ok (ok : (backfillRollups fails s nodes).2.errors = 0) :
    ∀ k ∈ returned nodes, k ∈ s.sens := by
  intro k mem
  rw [backfillRollups, foldl_hset_errors, Nat.add_eq_zero_iff, scanNodes_eq,
    (foldl_scanKey s (returned nodes) (Accs.empty, ⟨0, 0, 0⟩)).2, Nat.add_eq_zero_iff] at ok
  have here := List.countP_eq_zero.mp ok.1.2 k mem
  rw [← AList.lookup_isSome]
  cases found : s.sens.lookup k with
  | some v => rfl
  | none =>
    rw [found] at here
    exact absurd rfl here

end Written

section Authority
variable {s : Store} {scan : List String} {after : String → Assoc String ℚ}

/-- What the documents add, each counted once. -/
def allBumps (s : Store) : List Bump := s.sens.keys.flatMap (bumpsAt s)

def Present (s : Store) (p : Place) : Prop := ∃ b ∈ allBumps s, b.place = p

def worthsOf (bumps : List Bump) (p : Place) : List (ℚ × ℚ) :=
  (bumps.filter fun b => b.place = p).map Bump.worth

/-- The rollup of a tuple as its documents have it. -/
def recomputed (s : Store) (p : Place) : Assoc String ℚ :=
  ofPairs (fieldsOf p.curvature (worthsOf (allBumps s) p))

/-- Every tuple with documents has its recomputed rollup, and no other hash holds a value. -/
structure Authoritative (s : Store) (after : String → Assoc String ℚ) : Prop where
  tuples : ∀ p, Present s p → ∀ field, (after p.key).lookup field = (recomputed s p).lookup field
  others : ∀ key, (∀ p, Present s p → p.key ≠ key) → ∀ field, (after key).lookup field = none

/-- Tuples with documents have keys of their own, no key that contributes is returned twice, and
the hashes that are there before are of such tuples, with no field but theirs. -/
structure Clean (s : Store) (scan : List String) : Prop where
  keyed : ∀ p p', Present s p → Present s p' → p.key = p'.key → p = p'
  once : Once (bumpsAt s) scan
  stale : ∀ key field, (s.rollups key).lookup field ≠ none →
    ∃ p, Present s p ∧ p.key = key ∧ field ∈ fieldNames p.curvature

theorem mem_bumps_iff (returns : Returns scan s.sens.keys) (b : Bump) :
    b ∈ scan.flatMap (bumpsAt s) ↔ b ∈ allBumps s := by
  simp only [allBumps, List.mem_flatMap]
  exact exists_congr fun k => and_congr_left fun _ => ⟨returns.only k, returns.covers k⟩

/-- The kinds of values at one key, given that tuples have keys of their own. -/
theorem worthsAt_own {bumps : List Bump} {p : Place}
    (keyed : ∀ b ∈ bumps, b.place.key = p.key → b.place = p) :
    worthsAt bumps p.curvature p.key = worthsOf bumps p ∧
      worthsAt bumps (!p.curvature) p.key = [] := by
  constructor
  · rw [worthsAt, worthsOf]
    congr 1
    refine List.filter_congr fun b mem => decide_eq_decide.mpr ?_
    exact ⟨fun own => keyed b mem own.2, fun own => by rw [own]; exact ⟨rfl, rfl⟩⟩
  · rw [worthsAt, List.map_eq_nil_iff, List.filter_eq_nil_iff]
    intro b mem own
    obtain ⟨kind, same⟩ := of_decide_eq_true own
    rw [keyed b mem same] at kind
    cases h : p.curvature <;> simp [h] at kind

/-- Two lists of fields, one of them empty. -/
theorem assign_kinds (h : Assoc String ℚ) {bumps : List Bump} {p : Place}
    (keyed : ∀ b ∈ bumps, b.place.key = p.key → b.place = p) :
    assign (assign h (fieldsOf false (worthsAt bumps false p.key)))
        (fieldsOf true (worthsAt bumps true p.key)) =
      assign h (fieldsOf p.curvature (worthsOf bumps p)) := by
  obtain ⟨own, other⟩ := worthsAt_own keyed
  cases kind : p.curvature with
  | false =>
    rw [kind, Bool.not_false] at other
    rw [kind] at own
    rw [own, other]
    rfl
  | true =>
    rw [kind, Bool.not_true] at other
    rw [kind] at own
    rw [own, other]
    rfl

theorem worthsOf_ne_nil {p : Place} (present : Present s p) : worthsOf (allBumps s) p ≠ [] := by
  obtain ⟨b, mem, own⟩ := present
  rw [worthsOf, ne_eq, List.map_eq_nil_iff, List.filter_eq_nil_iff]
  exact fun none_ => none_ b mem (decide_eq_true own)

/-- What a run leaves at each key. -/
def Made (s : Store) (scan : List String) (after : String → Assoc String ℚ) : Prop :=
  ∀ key, after key = assign (assign (s.rollups key)
    (fieldsOf false (worthsAt (scan.flatMap (bumpsAt s)) false key)))
    (fieldsOf true (worthsAt (scan.flatMap (bumpsAt s)) true key))

theorem Made.untouched (made : Made s scan after) (returns : Returns scan s.sens.keys)
    {key : String} (absent : ∀ p, Present s p → p.key ≠ key) : after key = s.rollups key := by
  have none_ : ∀ kind, worthsAt (scan.flatMap (bumpsAt s)) kind key = [] := by
    intro kind
    rw [worthsAt, List.map_eq_nil_iff, List.filter_eq_nil_iff]
    intro b mem own
    exact absent b.place ⟨b, (mem_bumps_iff returns b).mp mem, rfl⟩ (of_decide_eq_true own).2
  rw [made, none_, none_, fieldsOf_nil, fieldsOf_nil, assign_nil, assign_nil]

theorem authoritative_of_clean (made : Made s scan after) (returns : Returns scan s.sens.keys)
    (clean : Clean s scan) : Authoritative s after where
  tuples := by
    intro p present field
    have keyed : ∀ b ∈ scan.flatMap (bumpsAt s), b.place.key = p.key → b.place = p :=
      fun b mem => clean.keyed b.place p ⟨b, (mem_bumps_iff returns b).mp mem, rfl⟩ present
    have once : (scan.flatMap (bumpsAt s)).Perm (allBumps s) := returns.perm_of_once clean.once
    have worths : fieldsOf p.curvature (worthsOf (scan.flatMap (bumpsAt s)) p) =
        fieldsOf p.curvature (worthsOf (allBumps s) p) :=
      fieldsOf_perm p.curvature ((once.filter _).map _)
    have names := names_fieldsOf p.curvature (worthsOf_ne_nil present)
    rw [made, assign_kinds _ keyed, worths, recomputed, ofPairs]
    by_cases named : field ∈ (fieldsOf p.curvature (worthsOf (allBumps s) p)).map Prod.fst
    · exact lookup_assign_congr _ _ named
    · rw [lookup_assign_of_notMem _ _ named, lookup_assign_of_notMem _ _ named,
        AList.lookup_empty]
      by_contra old
      obtain ⟨p', present', same, mem⟩ := clean.stale p.key field old
      rw [clean.keyed p' p present' present same, ← names] at mem
      exact named mem
  others := by
    intro key absent field
    rw [made.untouched returns absent]
    by_contra old
    obtain ⟨p, present, same, -⟩ := clean.stale key field old
    exact absent p present same

theorem recomputed_isSome {p : Place} (present : Present s p) (field : String) :
    ((recomputed s p).lookup field).isSome ↔ field ∈ fieldNames p.curvature := by
  rw [recomputed, lookup_ofPairs_isSome, names_fieldsOf p.curvature (worthsOf_ne_nil present)]

/-- The kind of a rollup hash shows in its fields. -/
theorem Authoritative.kinds (right : Authoritative s after) {p p' : Place} (present : Present s p)
    (present' : Present s p') (same : p.key = p'.key) : p.curvature = p'.curvature := by
  have fields : ∀ field, field ∈ fieldNames p.curvature ↔ field ∈ fieldNames p'.curvature := by
    intro field
    rw [← recomputed_isSome present, ← recomputed_isSome present', ← right.tuples p present,
      ← right.tuples p' present', same]
  have shown := fields "sum_ws"
  cases h : p.curvature <;> cases h' : p'.curvature <;> rw [h, h'] at shown <;>
    simp [fieldNames] at shown ⊢

/-- A value of the kind and under the key of a tuple. -/
def goesTo (p : Place) (b : Bump) : Bool := b.place.curvature = p.curvature ∧ b.place.key = p.key

/-- The count of a hash says how many values were collected for it. -/
theorem Authoritative.count (right : Authoritative s after) (made : Made s scan after)
    (returns : Returns scan s.sens.keys) {p : Place} (present : Present s p) :
    (scan.flatMap (bumpsAt s)).countP (goesTo p) =
      (allBumps s).countP fun b => b.place = p := by
  have collected : worthsAt (scan.flatMap (bumpsAt s)) p.curvature p.key ≠ [] := by
    obtain ⟨b, mem, own⟩ := present
    rw [worthsAt, ne_eq, List.map_eq_nil_iff, List.filter_eq_nil_iff]
    intro none_
    refine none_ b ((mem_bumps_iff returns b).mpr mem) (decide_eq_true ?_)
    rw [own]
    exact ⟨rfl, rfl⟩
  have shown : (after p.key).lookup "count" =
      some ((worthsAt (scan.flatMap (bumpsAt s)) p.curvature p.key).length : ℚ) := by
    rw [made]
    cases kind : p.curvature with
    | true =>
      rw [kind] at collected
      exact lookup_count _ true collected
    | false =>
      rw [kind] at collected
      have other : worthsAt (scan.flatMap (bumpsAt s)) true p.key = [] := by
        rw [worthsAt, List.map_eq_nil_iff, List.filter_eq_nil_iff]
        intro b mem own
        obtain ⟨curvature, same⟩ := of_decide_eq_true own
        have known : Present s b.place := ⟨b, (mem_bumps_iff returns b).mp mem, rfl⟩
        rw [right.kinds known present same, kind] at curvature
        cases curvature
      rw [other, fieldsOf_nil, assign_nil]
      exact lookup_count _ false collected
  rw [right.tuples p present, recomputed, ofPairs,
    lookup_count _ _ (worthsOf_ne_nil present), Option.some.injEq, Nat.cast_inj, worthsOf, worthsAt,
    List.length_map, List.length_map, ← List.countP_eq_length_filter,
    ← List.countP_eq_length_filter] at shown
  exact shown.symm

theorem clean_of_authoritative (made : Made s scan after) (returns : Returns scan s.sens.keys)
    (right : Authoritative s after) : Clean s scan := by
  have own : ∀ (p : Place) (b : Bump), b.place = p → goesTo p b = true := by
    rintro p b rfl
    exact decide_eq_true ⟨rfl, rfl⟩
  have more : ∀ p : Place, (allBumps s).countP (fun b => b.place = p) ≤
      (allBumps s).countP (goesTo p) := fun p =>
    List.countP_mono_left fun b _ same => own p b (of_decide_eq_true same)
  have keyed : ∀ p p', Present s p → Present s p' → p.key = p'.key → p = p' := by
    intro p p' present present' same
    have count := right.count made returns present
    have least : (allBumps s).countP (goesTo p) ≤ (scan.flatMap (bumpsAt s)).countP (goesTo p) :=
      returns.countP_le (goesTo p) (bumpsAt s)
    have both : ((allBumps s).filter (goesTo p)).countP (fun b => b.place = p) =
        ((allBumps s).filter (goesTo p)).length := by
      rw [← List.countP_eq_length_filter, List.countP_filter]
      refine (List.countP_congr fun b _ => ?_).trans
        (le_antisymm (more p) (least.trans count.le))
      rw [Bool.and_eq_true]
      exact and_iff_left_of_imp fun place => own p b (of_decide_eq_true place)
    obtain ⟨b, mem, rfl⟩ := present'
    have goes : goesTo p b = true :=
      decide_eq_true ⟨right.kinds ⟨b, mem, rfl⟩ present same.symm, same.symm⟩
    exact (of_decide_eq_true
      (List.countP_eq_length.mp both b (List.mem_filter.mpr ⟨mem, goes⟩))).symm
  refine ⟨keyed, fun k holds => ?_, fun key field old => ?_⟩
  · obtain ⟨b, mem⟩ := List.exists_mem_of_ne_nil _ holds
    have listed : k ∈ s.sens.keys := by
      rw [← AList.mem_keys, ← AList.lookup_isSome]
      cases found : s.sens.lookup k with
      | some v => rfl
      | none =>
        rw [bumpsAt, found] at mem
        cases mem
    have present : Present s b.place := ⟨b, List.mem_flatMap.mpr ⟨k, listed, mem⟩, rfl⟩
    refine returns.count_le_one ?_ ⟨b, mem, own b.place b rfl⟩
    exact (right.count made returns present).le.trans (more b.place)
  · by_cases known : ∃ p, Present s p ∧ p.key = key
    · obtain ⟨p, present, rfl⟩ := known
      refine ⟨p, present, rfl, ?_⟩
      rw [← recomputed_isSome present, ← right.tuples p present, made, assign_kinds _ fun b mem =>
        keyed b.place p ⟨b, (mem_bumps_iff returns b).mp mem, rfl⟩ present]
      rw [AList.lookup_isSome, mem_assign, ← AList.lookup_isSome]
      exact .inl (Option.isSome_iff_ne_none.mpr old)
    · have absent : ∀ p, Present s p → p.key ≠ key := fun p present same =>
        known ⟨p, present, same⟩
      have none_ := right.others key absent field
      rw [made.untouched returns absent] at none_
      exact absurd none_ old

/-- A backfill without errors is authoritative exactly on a clean store and scan. -/
theorem backfill_authoritative_iff (fails : String → Bool) (s : Store)
    (nodes : List (List (List String))) (covers : ∀ k ∈ s.sens, k ∈ returned nodes)
    (ok : (backfillRollups fails s nodes).2.errors = 0) :
    Authoritative s (backfillRollups fails s nodes).1 ↔ Clean s (returned nodes) := by
  have made : Made s (returned nodes) (backfillRollups fails s nodes).1 := backfill_at ok
  have returns : Returns (returned nodes) s.sens.keys :=
    ⟨s.sens.keys_nodup, fun k mem => covers k (AList.mem_keys.mpr mem),
      fun k mem => AList.mem_keys.mp (read_of_ok ok k mem)⟩
  exact ⟨clean_of_authoritative made returns, authoritative_of_clean made returns⟩

/-- One indexed FX Delta row, over a rollup of its bucket that is out of date. -/
def oneRow : Store where
  sens := ofPairs [("sens:F1", .hash (ofPairs [("risk_class", .shown (.str "FX")),
    ("bucket", .shown (.str "EURUSD")), ("sensitivity_type", .shown (.str "Delta")),
    ("ws_fx_delta", .shown (.num 2))]))]
  rollups := Function.update (fun _ => ∅) "rollup:FX:EURUSD:Delta" (ofPairs [("count", 7)])

def fxDeltaPlace : Place := ⟨⟨"FX", "EURUSD", "Delta"⟩, none⟩

theorem oneRow_places {p : Place} (present : Present oneRow p) : p = fxDeltaPlace := by
  obtain ⟨b, mem, rfl⟩ := present
  have places : (allBumps oneRow).map (fun b => b.place) = [fxDeltaPlace] := by decide +kernel
  have listed := List.mem_map_of_mem (f := fun b : Bump => b.place) mem
  rw [places] at listed
  exact List.mem_singleton.mp listed

theorem oneRow_present : Present oneRow fxDeltaPlace := by
  have places : (allBumps oneRow).map (fun b => b.place) = [fxDeltaPlace] := by decide +kernel
  obtain ⟨b, mem, own⟩ := List.mem_map.mp (places ▸ List.mem_singleton_self fxDeltaPlace)
  exact ⟨b, mem, own⟩

theorem backfill_authoritative_once :
    Authoritative oneRow (backfillRollups (fun _ => false) oneRow [[["sens:F1"]], [[]]]).1 := by
  refine (backfill_authoritative_iff (fun _ => false) oneRow [[["sens:F1"]], [[]]] ?_
    (by decide +kernel)).mpr ⟨?_, ?_, ?_⟩
  · intro k mem
    rw [AList.mem_keys, show oneRow.sens.keys = ["sens:F1"] from rfl] at mem
    exact mem
  · intro p p' present present' _
    rw [oneRow_places present, oneRow_places present']
  · intro k _
    rw [show returned [[["sens:F1"]], [[]]] = ["sens:F1"] from rfl, List.count_singleton]
    split <;> simp
  · intro key field old
    by_cases own : key = "rollup:FX:EURUSD:Delta"
    · subst own
      refine ⟨fxDeltaPlace, oneRow_present, by decide +kernel, ?_⟩
      have listed := (lookup_ofPairs_isSome [("count", (7 : ℚ))] field).mp
        (Option.isSome_iff_ne_none.mpr old)
      rw [List.mem_singleton.mp listed]
      decide
    · have none_ : oneRow.rollups key = ∅ := by simp [oneRow, own]
      rw [none_] at old
      exact absurd rfl old

/-- The rollup of a bucket without documents stays as it was, and a key that the scan returns
twice is counted twice. -/
theorem backfill_not_authoritative :
    ¬ Authoritative { oneRow with sens := ∅ }
        (backfillRollups (fun _ => false) { oneRow with sens := ∅ } [[[]]]).1 ∧
    ¬ Authoritative oneRow
        (backfillRollups (fun _ => false) oneRow [[["sens:F1"], ["sens:F1"]]]).1 := by
  refine ⟨fun right => ?_, fun right => ?_⟩
  · have none_ := right.others "rollup:FX:EURUSD:Delta" (fun p present => by
      obtain ⟨b, mem, -⟩ := present
      cases mem) "count"
    exact absurd none_ (by decide +kernel)
  · have count := right.tuples fxDeltaPlace oneRow_present "count"
    exact absurd count (by decide +kernel)

end Authority

end Backfill
