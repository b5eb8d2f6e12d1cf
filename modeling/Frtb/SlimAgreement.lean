import Frtb.SlimWriter
import Frtb.ParentChild

/-!
# Weighing the slim fields

Each writer's number at a leg and label is stated on its own: the slim writer's
from the row's tenor list, ingest's from its own labels and then weighted. The
two HASHes agree at the index's fields exactly where these numbers do.
-/

namespace SlimWriter

open AssocMaps JsonText EnrichDoc RedisStore StorageWriter FastPath HashLayout RollupContribution
open IndexedRows

section Names

/-- The legs of two names differ in one of their first five letters or are the same. -/
theorem legName_inj {lower root root' : String} {l l' : Option String} (known : root ∈ wsLegs)
    (known' : root' ∈ wsLegs) (same : legName lower root l = legName lower root' l') :
    root = root' ∧ l = l' := by
  have tails : root ++ l.elim "" ("_" ++ ·) = root' ++ l'.elim "" ("_" ++ ·) := by
    simpa only [legName, String.append_assoc, append_left_cancel_iff] using same
  have chars := congrArg String.toList tails
  simp only [wsLegs, List.mem_cons, List.not_mem_nil, or_false] at known known'
  rcases known with rfl | rfl | rfl | rfl <;> rcases known' with rfl | rfl | rfl | rfl <;>
    cases l <;> cases l' <;> clear same tails <;> simp at chars ⊢ <;>
    exact String.toList_injective chars

theorem ws_legName_none (lower leg : String) :
    "ws_" ++ legName lower leg none = weightField lower leg := by
  simp [legName, weightField, String.append_assoc]

theorem ws_legName_some (lower leg t : String) :
    "ws_" ++ legName lower leg (some t) = tenorPrefix lower leg ++ t := by
  simp [legName, tenorPrefix, weightField, String.append_assoc]

theorem isWeightField_ws (x : String) : IsWeightField ("ws_" ++ x) := ⟨x, rfl⟩

theorem scalarRoot_mem (sens : SensitivityType) : scalarRoot sens ∈ wsLegs := by
  cases sens <;> decide

end Names

section Lookup
variable {pre lower leg root : String} {label : Option String}

def shownNum (q : ℚ) : Stored := .shown (.num q)

/-- Fields named by a leg and the labels of a list. -/
def labelled (pre lower leg : String) (ps : List (String × ℚ)) : List (String × Stored) :=
  ps.map fun p => (pre ++ legName lower leg (some p.1), shownNum p.2)

/-- A scalar field of a leg. -/
def scalarNamed (pre lower leg : String) (v : ℚ) : List (String × Stored) :=
  [(pre ++ legName lower leg none, shownNum v)]

theorem name_inj {l : Option String} (known : leg ∈ wsLegs) (known' : root ∈ wsLegs)
    (same : pre ++ legName lower leg l = pre ++ legName lower root label) :
      leg = root ∧ l = label :=
  legName_inj known known' ((append_left_cancel_iff _ _ _).mp same)

theorem lookup_labelled (known : leg ∈ wsLegs) (known' : root ∈ wsLegs) (ps : List (String × ℚ)) :
    (ofPairs (labelled pre lower leg ps)).lookup (pre ++ legName lower root label) =
      if root = leg then (label.bind (ofPairs ps).lookup).map shownNum else none := by
  by_cases other : root = leg ∧ label.isSome
  · obtain ⟨rfl, listed⟩ := other
    obtain ⟨t, rfl⟩ := Option.isSome_iff_exists.mp listed
    rw [if_pos rfl, labelled]
    refine lookup_ofPairs_named ps (fun t => pre ++ legName lower root (some t)) shownNum t ?_
    intro t' same
    exact Option.some.inj (name_inj known known same).2
  · have absent : pre ++ legName lower root label ∉ (labelled pre lower leg ps).map Prod.fst := by
      intro mem
      obtain ⟨q, hq, same⟩ := List.mem_map.mp mem
      obtain ⟨p, _, rfl⟩ := List.mem_map.mp hq
      obtain ⟨legs, labels⟩ := name_inj known known' same
      exact other ⟨legs.symm, by rw [← labels]; rfl⟩
    rw [lookup_ofPairs_eq_none absent]
    split
    · rename_i same
      have none : label = none := by
        rw [← Option.not_isSome_iff_eq_none]
        exact fun listed => other ⟨same, listed⟩
      rw [none]
      rfl
    · rfl

theorem lookup_scalarNamed (known : leg ∈ wsLegs) (known' : root ∈ wsLegs) (v : ℚ) :
    (ofPairs (scalarNamed pre lower leg v)).lookup (pre ++ legName lower root label) =
      if root = leg ∧ label = none then some (shownNum v) else none := by
  split
  · rename_i own
    rw [own.1, own.2]
    exact lookup_assign_of_mem ∅ (by simp [scalarNamed]) (List.mem_singleton.mpr rfl)
  · rename_i other
    apply lookup_ofPairs_eq_none
    intro mem
    obtain ⟨legs, labels⟩ := name_inj known known' (List.mem_singleton.mp mem).symm
    exact other ⟨legs.symm, labels.symm⟩

/-- The two scalar fields of a curvature pair. -/
theorem lookup_pairNamed (known : root ∈ wsLegs) (v : ℚ × ℚ) :
    (ofPairs (scalarNamed pre lower "cvr_up" v.1 ++ scalarNamed pre lower "cvr_down" v.2)).lookup
        (pre ++ legName lower root label) =
      (if label = none then sideOf root v else none).map shownNum := by
  by_cases down : root = "cvr_down" ∧ label = none
  · have absent : pre ++ legName lower root label ∉
        (scalarNamed pre lower "cvr_up" v.1).map Prod.fst := by
      intro mem
      have legs := (name_inj (by decide) known (List.mem_singleton.mp mem).symm).1
      rw [down.1] at legs
      exact absurd legs (by decide)
    rw [lookup_ofPairs_append_of_notMem_left absent, lookup_scalarNamed (by decide) known,
      if_pos down, if_pos down.2, down.1]
    rfl
  · have absent : pre ++ legName lower root label ∉
        (scalarNamed pre lower "cvr_down" v.2).map Prod.fst := by
      intro mem
      obtain ⟨legs, labels⟩ := name_inj (by decide) known (List.mem_singleton.mp mem).symm
      exact down ⟨legs.symm, labels.symm⟩
    rw [lookup_ofPairs_append_of_notMem absent, lookup_scalarNamed (by decide) known]
    by_cases scalar : label = none
    · have notDown : root ≠ "cvr_down" := fun same => down ⟨same, scalar⟩
      rw [if_pos scalar, sideOf, if_neg notDown]
      by_cases up : root = "cvr_up"
      · rw [if_pos ⟨up, scalar⟩, if_pos up, Option.map_some]
      · rw [if_neg fun both => up both.1, if_neg up, Option.map_none]
    · rw [if_neg scalar, if_neg fun both => scalar both.2, Option.map_none]

/-- The up and the down field of each row. -/
def bothSides (pre lower : String) (rows : List (String × ℚ × ℚ)) : List (String × Stored) :=
  rows.flatMap fun r =>
    [(pre ++ legName lower "cvr_up" (some r.1), shownNum r.2.1),
      (pre ++ legName lower "cvr_down" (some r.1), shownNum r.2.2)]

theorem lookup_bothSides (known : root ∈ wsLegs) (rows : List (String × ℚ × ℚ)) :
    (ofPairs (bothSides pre lower rows)).lookup (pre ++ legName lower root label) =
      ((label.bind (ofPairs rows).lookup).bind (sideOf root)).map shownNum := by
  induction rows using List.reverseRecOn with
  | nil => cases label <;> rfl
  | append_singleton rows r ih =>
    have up : pre ++ legName lower root label = pre ++ legName lower "cvr_up" (some r.1) ↔
        root = "cvr_up" ∧ label = some r.1 :=
      ⟨name_inj known (by decide), fun h => by rw [h.1, h.2]⟩
    have down : pre ++ legName lower root label = pre ++ legName lower "cvr_down" (some r.1) ↔
        root = "cvr_down" ∧ label = some r.1 :=
      ⟨name_inj known (by decide), fun h => by rw [h.1, h.2]⟩
    rw [bothSides, List.flatMap_append, ofPairs, assign_append, List.flatMap_singleton,
      assign_cons, assign_cons, assign_nil]
    rw [bothSides] at ih
    by_cases isDown : root = "cvr_down" ∧ label = some r.1
    · rw [down.mpr isDown, AList.lookup_insert, isDown.1, isDown.2, Option.bind_some, ofPairs,
        assign_append, assign_cons, assign_nil, AList.lookup_insert]
      rfl
    rw [AList.lookup_insert_ne fun same => isDown (down.mp same)]
    by_cases isUp : root = "cvr_up" ∧ label = some r.1
    · rw [up.mpr isUp, AList.lookup_insert, isUp.1, isUp.2, Option.bind_some, ofPairs,
        assign_append, assign_cons, assign_nil, AList.lookup_insert]
      rfl
    rw [AList.lookup_insert_ne fun same => isUp (up.mp same), ← ofPairs, ih]
    by_cases own : label = some r.1
    · have noSide : ∀ v, sideOf root v = none := by
        intro v
        rw [sideOf, if_neg fun h => isUp ⟨h, own⟩, if_neg fun h => isDown ⟨h, own⟩]
      have dropped : ∀ o : Option (ℚ × ℚ), o.bind (sideOf root) = none := by
        rintro (_ | v)
        · rfl
        · exact noSide v
      rw [dropped, dropped]
    · congr 2
      cases label with
      | none => rfl
      | some t =>
        rw [Option.bind_some, Option.bind_some, ofPairs, ofPairs, assign_append, assign_cons,
          assign_nil, AList.lookup_insert_ne fun same => own (congrArg some same)]

end Lookup

section Slim
variable {row : Row} {lower leg root : String} {label : Option String}

theorem pairs_ofPairs {l : List (String × Json)} (nodup : (l.map Prod.fst).Nodup) :
    pairs (ofPairs l) = l.reverse := by
  induction l using List.reverseRecOn with
  | nil => rfl
  | append_singleton l p ih =>
    rw [List.map_append, List.map_singleton, List.nodup_append_comm, List.singleton_append,
      List.nodup_cons] at nodup
    have fresh : p.1 ∉ ofPairs l := by
      rw [ofPairs, mem_assign]
      rintro (mem | mem)
      · exact absurd mem (AList.notMem_empty _)
      · exact nodup.1 mem
    rw [ofPairs, assign_append, assign_cons, assign_nil, pairs, ← ofPairs,
      AList.entries_insert_of_notMem fresh, List.map_cons, List.reverse_append,
      List.reverse_singleton, List.singleton_append]
    exact congrArg _ (ih nodup.2)

/-- The JSON members of an object of numbers. -/
theorem lookup_jsonMembers (m : Assoc String ℚ) (t : String) :
    (ofPairs ((pairs m).map fun p => (p.1, Json.num p.2))).lookup t = (m.lookup t).map .num := by
  rw [lookup_ofPairs_map, lookup_ofPairs_pairs]

theorem spotOf_jsonMembers (m : Assoc String ℚ) :
    spotOf (ofPairs ((pairs m).map fun p => (p.1, Json.num p.2))) = spotMember m := by
  have nodup : (((pairs m).map fun p => (p.1, Json.num p.2)).map Prod.fst).Nodup := by
    rw [List.map_map]
    exact (map_fst_pairs m).symm ▸ m.keys_nodup
  rw [spotOf, spotMember, pairs_ofPairs nodup]
  rcases pairs m with _ | ⟨⟨t, v⟩, _ | ⟨q, rest⟩⟩
  · rfl
  · by_cases spot : t = "spot"
    · rw [spot]
      rfl
    · rw [List.map_singleton, List.reverse_singleton]
      split
      · rename_i same
        exact absurd (congrArg Prod.fst (List.singleton_inj.mp same)) spot
      · split
        · rename_i same
          exact absurd (congrArg Prod.fst (List.singleton_inj.mp same)) spot
        · rfl
  · split
    · rename_i same
      have long := congrArg List.length same
      simp at long
    · split
      · rename_i same
        cases same
      · rfl

theorem lookup_numericMembers_json (m : Assoc String ℚ) (t : String) :
    (ofPairs (numericMembers (pairs (ofPairs ((pairs m).map fun p => (p.1, Json.num p.2)))))).lookup
      t = m.lookup t := by
  rw [ParentChild.lookup_numericMembers, lookup_jsonMembers]
  cases m.lookup t <;> rfl

theorem numericMembers_zip (labels : List String) (items : List ℚ) :
    numericMembers (labels.zip (items.map Json.num)) = labels.zip items := by
  rw [List.zip_map_right, numericMembers, List.filterMap_map]
  exact List.filterMap_some

theorem flatMap_numberArg (pre lower leg : String) (ps : List (String × Json)) :
    (ps.flatMap fun p => numberArg (pre ++ legName lower leg (some p.1)) p.2) =
      labelled pre lower leg (numericMembers ps) := by
  induction ps with
  | nil => rfl
  | cons p ps ih =>
    rw [List.flatMap_cons, ih]
    obtain ⟨t, v⟩ := p
    cases v <;> rfl

theorem scalarLegArgs_eq (row : Row) (lower leg : String) :
    scalarLegArgs row lower leg =
      match row.riskValue with
      | .number v => scalarNamed "s_" lower leg v
      | .array items => labelled "s_" lower leg ((row.listed.getD []).zip items)
      | .members m =>
        match spotMember m with
        | some v => scalarNamed "s_" lower leg v
        | none => labelled "s_" lower leg
            (numericMembers (pairs (ofPairs ((pairs m).map fun p => (p.1, Json.num p.2)))))
      | .curvatureArrays _ _ => [] := by
  unfold scalarLegArgs
  cases row.riskValue with
  | number v => rfl
  | array items =>
    dsimp only [SensitivityRiskValue.toJson]
    cases row.listed with
    | some labels =>
      exact (flatMap_numberArg "s_" lower leg _).trans (by rw [numericMembers_zip]; rfl)
    | none => rfl
  | members m =>
    simp only [SensitivityRiskValue.toJson, spotOf_jsonMembers]
    cases spotMember m with
    | some v => rfl
    | none => exact flatMap_numberArg "s_" lower leg _
  | curvatureArrays up down =>
    simp [SensitivityRiskValue.toJson, spotOf, pairs, ofPairs, numberArg]

theorem zip_numbers (labels : List String) (up down : List ℚ) :
    labels.zip ((up.map Json.num).zip (down.map Json.num)) =
      (labels.zip (up.zip down)).map fun r => (r.1, Json.num r.2.1, Json.num r.2.2) := by
  rw [List.zip_map, List.zip_map_right]
  rfl

theorem lookup_cvrArrays (up down : List Json) :
    (ofPairs [("cvr_up", Json.arr up), ("cvr_down", .arr down)]).lookup "cvr_up" =
        some (.arr up) ∧
      (ofPairs [("cvr_up", Json.arr up), ("cvr_down", .arr down)]).lookup "cvr_down" =
        some (.arr down) := by
  constructor
  · exact lookup_assign_of_mem ∅ (by simp) (by simp)
  · exact lookup_assign_of_mem ∅ (by simp) (by simp)

theorem curvatureArgs_eq (row : Row) (lower : String) :
    curvatureArgs row lower =
      match row.riskValue with
      | .members m =>
        match bothOf (m.lookup "cvr_up") (m.lookup "cvr_down") with
        | some v => scalarNamed "s_" lower "cvr_up" v.1 ++ scalarNamed "s_" lower "cvr_down" v.2
        | none => []
      | .curvatureArrays up down =>
        bothSides "s_" lower ((row.listed.getD []).zip (up.zip down))
      | _ => [] := by
  unfold curvatureArgs
  cases row.riskValue with
  | number v => rfl
  | array items => rfl
  | members m =>
    simp only [SensitivityRiskValue.toJson, lookup_jsonMembers]
    cases m.lookup "cvr_up" with
    | none => rfl
    | some u => cases m.lookup "cvr_down" <;> rfl
  | curvatureArrays up down =>
    simp only [SensitivityRiskValue.toJson, (lookup_cvrArrays _ _).1, (lookup_cvrArrays _ _).2]
    cases row.listed with
    | some labels =>
      dsimp only
      rw [zip_numbers, List.flatMap_map]
      rfl
    | none => rfl

theorem lookup_scalarLegArgs (other : row.sensitivityType ≠ .curvature) (known : root ∈ wsLegs) :
    (ofPairs (scalarLegArgs row lower (scalarRoot row.sensitivityType))).lookup
        (slimField lower root label) = (row.slimCell root label).map shownNum := by
  have own := scalarRoot_mem row.sensitivityType
  have scalar : ∀ v, (ofPairs (scalarNamed "s_" lower (scalarRoot row.sensitivityType) v)).lookup
        (slimField lower root label) =
      (if root = scalarRoot row.sensitivityType then (if label = none then some v else none)
        else none).map shownNum := by
    intro v
    have read := @lookup_scalarNamed "s_" lower (scalarRoot row.sensitivityType) root label own
      known v
    rw [slimField, read]
    split_ifs <;> simp_all
  have tenors : ∀ ps, (ofPairs (labelled "s_" lower (scalarRoot row.sensitivityType) ps)).lookup
        (slimField lower root label) =
      (if root = scalarRoot row.sensitivityType then label.bind (ofPairs ps).lookup
        else none).map shownNum := by
    intro ps
    rw [slimField, lookup_labelled own known]
    split <;> rfl
  rw [Row.slimCell, Row.cell, if_neg other, scalarLegArgs_eq]
  cases row.riskValue with
  | number v => exact scalar v
  | array items => exact tenors _
  | members m =>
    dsimp only
    cases spotMember m with
    | some v => exact scalar v
    | none =>
      rw [tenors]
      congr 2
      cases label with
      | none => rfl
      | some t => exact lookup_numericMembers_json m t
  | curvatureArrays up down =>
    dsimp only
    rw [ite_self]
    rfl

theorem lookup_curvatureArgs (own : row.sensitivityType = .curvature) (known : root ∈ wsLegs) :
    (ofPairs (curvatureArgs row lower)).lookup (slimField lower root label) =
      (row.slimCell root label).map shownNum := by
  rw [Row.slimCell, Row.cell, if_pos own, curvatureArgs_eq]
  cases row.riskValue with
  | number v => rfl
  | array items => rfl
  | members m =>
    dsimp only
    cases bothOf (m.lookup "cvr_up") (m.lookup "cvr_down") with
    | none => cases label <;> rfl
    | some v => exact lookup_pairNamed known v
  | curvatureArrays up down => exact lookup_bothSides known _

theorem lookup_rawArgs [Casing] (row : Row) (known : root ∈ wsLegs) :
    (ofPairs (rawArgs row)).lookup (slimField (lowerCase row.riskClass) root label) =
      (row.slimCell root label).map shownNum := by
  by_cases own : row.sensitivityType = .curvature
  · rw [rawArgs, if_pos own]
    exact lookup_curvatureArgs own known
  · rw [rawArgs, if_neg own]
    exact lookup_scalarLegArgs own known

/-- The raw fields are all fields of the row's class. -/
theorem named_of_mem_rawArgs [Casing] {name : String} (mem : name ∈ (rawArgs row).map Prod.fst) :
    ∃ root ∈ wsLegs, ∃ label, name = slimField (lowerCase row.riskClass) root label := by
  have scalar : ∀ leg ∈ wsLegs, ∀ v,
      name ∈ (scalarNamed "s_" (lowerCase row.riskClass) leg v).map Prod.fst →
      ∃ root ∈ wsLegs, ∃ label, name = slimField (lowerCase row.riskClass) root label :=
    fun leg known _ mem => ⟨leg, known, none, List.mem_singleton.mp mem⟩
  have tenors : ∀ leg ∈ wsLegs, ∀ ps,
      name ∈ (labelled "s_" (lowerCase row.riskClass) leg ps).map Prod.fst →
      ∃ root ∈ wsLegs, ∃ label, name = slimField (lowerCase row.riskClass) root label := by
    intro leg known ps mem
    obtain ⟨q, hq, rfl⟩ := List.mem_map.mp mem
    obtain ⟨p, _, rfl⟩ := List.mem_map.mp hq
    exact ⟨leg, known, some p.1, rfl⟩
  have own := scalarRoot_mem row.sensitivityType
  unfold rawArgs at mem
  split at mem
  · rw [curvatureArgs_eq] at mem
    cases shape : row.riskValue with
    | number v => rw [shape] at mem; cases mem
    | array items => rw [shape] at mem; cases mem
    | members m =>
      rw [shape] at mem
      dsimp only at mem
      cases both : bothOf (m.lookup "cvr_up") (m.lookup "cvr_down") with
      | none => rw [both] at mem; cases mem
      | some v =>
        rw [both, List.map_append, List.mem_append] at mem
        exact mem.elim (scalar _ (by decide) _) (scalar _ (by decide) _)
    | curvatureArrays up down =>
      rw [shape] at mem
      obtain ⟨q, hq, rfl⟩ := List.mem_map.mp mem
      obtain ⟨r, _, side⟩ := List.mem_flatMap.mp hq
      simp only [List.mem_cons, List.not_mem_nil, or_false] at side
      rcases side with rfl | rfl
      · exact ⟨"cvr_up", by decide, some r.1, rfl⟩
      · exact ⟨"cvr_down", by decide, some r.1, rfl⟩
  · rw [scalarLegArgs_eq] at mem
    cases shape : row.riskValue with
    | number v => rw [shape] at mem; exact scalar _ own _ mem
    | array items => rw [shape] at mem; exact tenors _ own _ mem
    | members m =>
      rw [shape] at mem
      dsimp only at mem
      cases spot : spotMember m with
      | some v => rw [spot] at mem; exact scalar _ own _ mem
      | none => rw [spot] at mem; exact tenors _ own _ mem
    | curvatureArrays up down => rw [shape] at mem; cases mem

theorem tagFields_bare : ∀ k ∈ tagFields, stripPrefix "s_" k = none := by decide

theorem slimTag_ne {k x : String} (tag : k ∈ (slimTagArgs row).map Prod.fst) : k ≠ "s_" ++ x := by
  obtain ⟨p, mem, rfl⟩ := List.mem_map.mp tag
  obtain ⟨k', listed, made⟩ := List.mem_filterMap.mp mem
  obtain ⟨v, _, rfl⟩ := Option.map_eq_some_iff.mp made
  intro same
  have stripped := (stripPrefix_eq_some_iff "s_" k' x).mpr same
  rw [tagFields_bare k' listed] at stripped
  cases stripped

theorem lookup_slim [Casing] (x : String) :
    (ofPairs (slimTagArgs row ++ rawArgs row)).lookup ("s_" ++ x) =
      (ofPairs (rawArgs row)).lookup ("s_" ++ x) :=
  lookup_ofPairs_append_of_notMem_left fun mem => slimTag_ne mem rfl

theorem numberUnder_padZeros (args : List (String × Stored)) (names : List String) (name : String) :
    numberUnder (padZeros args names) name = numberUnder args name := by
  unfold padZeros
  induction names generalizing args with
  | nil => rfl
  | cons n names ih =>
    rw [List.foldl_cons, ih]
    split
    · rfl
    · rename_i absent
      by_cases same : name = n
      · rw [same, numberUnder, numberUnder, lookup_ofPairs_eq_none absent,
          lookup_ofPairs_append_of_notMem_left absent]
        have padded : (ofPairs [(n, Stored.shown (.num 0))]).lookup n = some (.shown (.num 0)) :=
          lookup_assign_of_mem ∅ (by simp) (by simp)
        rw [padded]
        rfl
      · rw [numberUnder, numberUnder, lookup_ofPairs_append_of_notMem (by simpa using same)]

theorem nodup_padZeros (args : List (String × Stored)) (names : List String) :
    ((padZeros args names).map Prod.fst).Nodup ↔ (args.map Prod.fst).Nodup := by
  unfold padZeros
  induction names generalizing args with
  | nil => rfl
  | cons n names ih =>
    rw [List.foldl_cons, ih]
    split
    · rfl
    · rename_i absent
      rw [List.map_append, List.map_singleton, List.nodup_append_comm, List.singleton_append,
        List.nodup_cons]
      exact and_iff_right absent

/-- Padding is all that a row is changed by. -/
theorem rowToHashFields_padded [Casing] (row : Row)
    (byClass : Option (Assoc String (List String))) :
    ∃ names, rowToHashFields row byClass = padZeros (slimTagArgs row ++ rawArgs row) names := by
  unfold rowToHashFields
  split
  · dsimp only
    split
    · exact ⟨_, rfl⟩
    · exact ⟨[], rfl⟩
  · exact ⟨[], rfl⟩

theorem numberUnder_rowToHashFields [Casing] (row : Row)
    (byClass : Option (Assoc String (List String)))
    (x : String) :
    numberUnder (rowToHashFields row byClass) ("s_" ++ x) = numberUnder (rawArgs row)
      ("s_" ++ x) := by
  obtain ⟨names, padded⟩ := rowToHashFields_padded row byClass
  rw [padded, numberUnder_padZeros, numberUnder, lookup_slim, numberUnder]

theorem numberUnder_raw [Casing] (row : Row) (known : root ∈ wsLegs) :
    numberUnder (rawArgs row) ("s_" ++ legName (lowerCase row.riskClass) root label) =
      (row.slimCell root label).getD 0 := by
  have read := @lookup_rawArgs root label _ row known
  rw [slimField] at read
  rw [numberUnder, read]
  cases row.slimCell root label <;> rfl

theorem numberUnder_raw_other [Casing] {x : String}
    (other : ∀ root ∈ wsLegs, ∀ label, x ≠ legName (lowerCase row.riskClass) root label) :
    numberUnder (rawArgs row) ("s_" ++ x) = 0 := by
  have absent : "s_" ++ x ∉ (rawArgs row).map Prod.fst := by
    intro mem
    obtain ⟨root, known, label, same⟩ := named_of_mem_rawArgs mem
    exact other root known label ((append_left_cancel_iff _ _ _).mp same)
  rw [numberUnder, lookup_ofPairs_eq_none absent]
  rfl

end Slim

section Distinct
variable {row : Row}

theorem map_fst_zip_take {α β : Type*} (l : List α) (l' : List β) :
    (l.zip l').map Prod.fst = l.take l'.length := by
  induction l generalizing l' with
  | nil => simp
  | cons a l ih =>
    cases l' with
    | nil => rfl
    | cons b l' => simpa using ih l'

theorem nodup_rowToHashFields [Casing] (row : Row) (byClass : Option (Assoc String (List String))) :
    ((rowToHashFields row byClass).map Prod.fst).Nodup ↔ ((rawArgs row).map Prod.fst).Nodup := by
  have tags : ((slimTagArgs row).map Prod.fst).Nodup := by
    rw [slimTagArgs, List.map_filterMap]
    refine List.Nodup.filterMap ?_ (by decide : tagFields.Nodup)
    intro k k' name made made'
    simp only [Option.map_map, Option.mem_def, Option.map_eq_some_iff, Function.comp_apply]
      at made made'
    obtain ⟨_, _, rfl⟩ := made
    obtain ⟨_, _, same⟩ := made'
    exact same.symm
  obtain ⟨names, padded⟩ := rowToHashFields_padded row byClass
  rw [padded, nodup_padZeros, List.map_append, List.nodup_append']
  refine ⟨fun h => h.2.1, fun h => ⟨tags, h, ?_⟩⟩
  intro name tag raw
  obtain ⟨root, _, label, same⟩ := named_of_mem_rawArgs raw
  exact slimTag_ne tag same

theorem nodup_scalarNamed (pre lower leg : String) (v : ℚ) :
    ((scalarNamed pre lower leg v).map Prod.fst).Nodup := List.nodup_singleton _

theorem nodup_labelled {pre lower leg : String} (known : leg ∈ wsLegs) (ps : List (String × ℚ)) :
    ((labelled pre lower leg ps).map Prod.fst).Nodup ↔ (ps.map Prod.fst).Nodup := by
  have names : (labelled pre lower leg ps).map Prod.fst =
      (ps.map Prod.fst).map fun t => pre ++ legName lower leg (some t) := by
    rw [labelled, List.map_map, List.map_map]
    rfl
  rw [names]
  refine List.nodup_map_iff ?_
  intro t t' same
  exact Option.some.inj (name_inj known known same).2

theorem nodup_bothSides (pre lower : String) (rows : List (String × ℚ × ℚ)) :
    ((bothSides pre lower rows).map Prod.fst).Nodup ↔ (rows.map Prod.fst).Nodup := by
  let sides (t : String) : List String :=
    [pre ++ legName lower "cvr_up" (some t), pre ++ legName lower "cvr_down" (some t)]
  have names : (bothSides pre lower rows).map Prod.fst = (rows.map Prod.fst).flatMap sides := by
    rw [bothSides, List.map_flatMap, List.flatMap_map]
    rfl
  have apart : ∀ t t', pre ++ legName lower "cvr_up" (some t) ≠
      pre ++ legName lower "cvr_down" (some t') := by
    intro t t' same
    exact absurd (name_inj (by decide) (by decide) same).1 (by decide)
  have within : ∀ t, (sides t).Nodup := by
    intro t
    refine List.nodup_cons.mpr ⟨?_, List.nodup_singleton _⟩
    exact fun mem => apart t t (List.mem_singleton.mp mem)
  have meet : ∀ {t t'}, List.Disjoint (sides t) (sides t') ↔ t ≠ t' := by
    intro t t'
    constructor
    · rintro disjoint rfl
      exact disjoint List.mem_cons_self List.mem_cons_self
    · intro differ name mem mem'
      simp only [sides, List.mem_cons, List.not_mem_nil, or_false] at mem mem'
      rcases mem with rfl | rfl <;> rcases mem' with same | same
      · exact differ (Option.some.inj (name_inj (by decide) (by decide) same).2)
      · exact apart t t' same
      · exact apart t' t same.symm
      · exact differ (Option.some.inj (name_inj (by decide) (by decide) same).2)
  rw [names, List.nodup_flatMap]
  refine (and_iff_right fun t _ => within t).trans ?_
  exact List.Pairwise.iff fun _ _ => meet

theorem nodup_rawArgs [Casing] (row : Row) :
    ((rawArgs row).map Prod.fst).Nodup ↔ LabelsDistinct row := by
  have own := scalarRoot_mem row.sensitivityType
  by_cases curved : row.sensitivityType = .curvature
  · rw [rawArgs, if_pos curved, curvatureArgs_eq, LabelsDistinct]
    cases row.riskValue with
    | number v => exact iff_of_true List.nodup_nil trivial
    | array items => exact iff_of_true List.nodup_nil fun other => absurd curved other
    | members m =>
      refine iff_of_true ?_ trivial
      dsimp only
      cases bothOf (m.lookup "cvr_up") (m.lookup "cvr_down") with
      | none => exact List.nodup_nil
      | some v =>
        refine List.nodup_cons.mpr ⟨?_, List.nodup_singleton _⟩
        intro mem
        have legs := (name_inj (by decide) (by decide) (List.mem_singleton.mp mem)).1
        exact absurd legs (by decide)
    | curvatureArrays up down =>
      dsimp only
      rw [nodup_bothSides, map_fst_zip_take, List.length_zip]
      exact ⟨fun distinct _ => distinct, fun distinct => distinct curved⟩
  · rw [rawArgs, if_neg curved, scalarLegArgs_eq, LabelsDistinct]
    cases row.riskValue with
    | number v => exact iff_of_true (nodup_scalarNamed _ _ _ v) trivial
    | array items =>
      dsimp only
      rw [nodup_labelled own, map_fst_zip_take]
      exact ⟨fun distinct _ => distinct, fun distinct => distinct curved⟩
    | members m =>
      refine iff_of_true ?_ trivial
      dsimp only
      cases spotMember m with
      | some v => exact nodup_scalarNamed _ _ _ v
      | none => exact (nodup_labelled own _).mpr (ParentChild.numericNames_nodup _)
    | curvatureArrays up down => exact iff_of_true List.nodup_nil fun own' => absurd own' curved

end Distinct

section Doc
variable {row : Row} {schema : Schema}

theorem lookup_doc_tag {k : String} (tag : k ∈ tagFields) :
    row.doc.lookup k = (row.tag k).map .str := by
  have base : ∀ v, ((ofPairs (tagFields.filterMap fun k => (row.tag k).map fun v =>
      (k, Json.str v))).insert "risk_value" v).lookup k = (row.tag k).map .str := by
    intro v
    rw [AList.lookup_insert_ne fun same => absurd (same ▸ tag) (by decide)]
    have listed := lookup_ofPairs_filterMap (by decide : tagFields.Nodup)
      (fun k => (row.tag k).map Json.str) tag
    simpa only [Option.map_map, Function.comp_def] using listed
  unfold Row.doc
  cases row.tenor with
  | none => exact base _
  | some tenor =>
    dsimp only
    rw [AList.lookup_insert_ne fun same => absurd (same ▸ tag) (by decide)]
    exact base _

theorem lookup_doc_risk : row.doc.lookup "risk_value" = some row.riskValue.toJson := by
  unfold Row.doc
  cases row.tenor with
  | none => exact AList.lookup_insert _
  | some tenor =>
    dsimp only
    rw [AList.lookup_insert_ne (by decide), AList.lookup_insert]

theorem lookup_doc_other {name : String}
    (other : name ∉ "risk_value" :: "tenor" :: tagFields) : row.doc.lookup name = none := by
  obtain ⟨risk, tenor, tag⟩ : name ≠ "risk_value" ∧ name ≠ "tenor" ∧ name ∉ tagFields := by
    simpa only [List.mem_cons, not_or] using other
  have absent : (ofPairs (tagFields.filterMap fun k => (row.tag k).map fun v =>
      (k, Json.str v))).lookup name = none := by
    apply lookup_ofPairs_eq_none
    intro mem
    obtain ⟨p, hp, rfl⟩ := List.mem_map.mp mem
    obtain ⟨k, listed, made⟩ := List.mem_filterMap.mp hp
    obtain ⟨v, _, rfl⟩ := Option.map_eq_some_iff.mp made
    exact tag listed
  unfold Row.doc
  cases row.tenor with
  | none => exact (AList.lookup_insert_ne risk).trans absent
  | some _ =>
    dsimp only
    rw [AList.lookup_insert_ne tenor, AList.lookup_insert_ne risk, absent]

theorem tenorLabels_doc (nodes : Option (List String)) :
    tenorLabels row.doc nodes = row.listed.elim nodes some := by
  unfold tenorLabels Row.listed
  cases shape : row.tenor with
  | none =>
    have absent : row.doc.lookup "tenor" = none := by
      rw [Row.doc, shape]
      dsimp only
      rw [AList.lookup_insert_ne (by decide)]
      apply lookup_ofPairs_eq_none
      intro mem
      obtain ⟨p, hp, same⟩ := List.mem_map.mp mem
      obtain ⟨k, listed, made⟩ := List.mem_filterMap.mp hp
      obtain ⟨v, _, rfl⟩ := Option.map_eq_some_iff.mp made
      have tenor : k = "tenor" := same
      exact absurd (tenor ▸ listed) (by decide)
    rw [absent]
    rfl
  | some tenor =>
    have present : row.doc.lookup "tenor" = some tenor.toJson := by
      rw [Row.doc, shape]
      exact AList.lookup_insert _
    rw [present]
    cases tenor with
    | label s => rfl
    | labels ls =>
      simp [Tenor.toJson, List.filterMap_map]

theorem classOf_doc : classOf (some schema) row.doc = (row.classIn schema).map (schema, ·) := by
  have tag : strAt row.doc "risk_class" = some row.riskClass := by
    rw [strAt, lookup_doc_tag (by decide)]
    rfl
  simp only [classOf, tag, Row.classIn, Option.bind_eq_bind, Option.bind_some]
  split
  · rfl
  · cases schema.riskClasses.lookup row.riskClass <;> rfl

theorem textOrEmpty_sens : textOrEmpty row.doc "sensitivity_type" = row.sensitivityType.text := by
  rw [textOrEmpty, strAt, lookup_doc_tag (by decide)]
  rfl

theorem textOrEmpty_bucket : textOrEmpty row.doc "bucket" = row.bucket := by
  rw [textOrEmpty, strAt, lookup_doc_tag (by decide)]
  rfl

theorem text_eq_curvature : row.sensitivityType.text = "Curvature" ↔
    row.sensitivityType = .curvature := by
  cases row.sensitivityType <;> decide

/-- The weight of the row's bucket in its class. -/
def Row.weight (row : Row) (schema : Schema) (cfg : RiskClassConfig) (label : Option String) : ℚ :=
  legWeight row.sensitivityType.text (tableOf schema cfg) row.bucket label

def Row.stamped (row : Row) : Props := row.doc.insert "_calibration" (.str calibrationTag)

/-- Enrichment of the row, by the shape of its risk value. -/
theorem enrichDoc_doc {cfg : RiskClassConfig} (found : row.classIn schema = some cfg) :
    enrichDoc row.doc (some schema) =
      match row.riskValue.toJson with
      | .obj members =>
        if row.sensitivityType = .curvature then
          enrichCurvature row.stamped (ofPairs members) (row.weight schema cfg) cfg.tenorNodes
        else enrichObject row.stamped (ofPairs members) (row.weight schema cfg)
      | .arr items => enrichArray row.stamped (row.listed.elim cfg.tenorNodes some) items
          (row.weight schema cfg)
      | .num v => row.stamped.insert "weighted_value" (.num (row.weight schema cfg none * v))
      | _ => row.stamped := by
  simp only [enrichDoc, classOf_doc, found, Option.map_some, lookup_doc_risk, textOrEmpty_sens,
    textOrEmpty_bucket, tenorLabels_doc, text_eq_curvature]
  cases row.riskValue.toJson <;> rfl

end Doc

section Ingest
variable {row : Row} {schema : Schema} {cfg : RiskClassConfig} {root lower leg : String}
  {label : Option String} {doc : Props}

/-- Each value replaced by one made of it and its key, in a list of pairs. -/
theorem lookup_ofPairs_weighed {α β γ : Type*} [DecidableEq α] (ps : List (α × β)) (g : α → β → γ)
    (a : α) :
    (ofPairs (ps.map fun p => (p.1, g p.1 p.2))).lookup a = ((ofPairs ps).lookup a).map (g a) := by
  induction ps using List.reverseRecOn with
  | nil => rfl
  | append_singleton ps p ih =>
    simp only [List.map_append, List.map_cons, List.map_nil, ofPairs, assign_append, assign_cons,
      assign_nil]
    by_cases own : a = p.1
    · rw [own, AList.lookup_insert, AList.lookup_insert, Option.map_some]
    · rw [AList.lookup_insert_ne own, AList.lookup_insert_ne own]
      exact ih

theorem lookup_weighTenors (weight : String → ℚ) (items : List (String × Json)) (t : String) :
    (ofPairs (weighTenors weight items)).lookup t =
      ((ofPairs (numericMembers items)).lookup t).map (weight t * ·) :=
  lookup_ofPairs_weighed (numericMembers items) (fun t v => weight t * v) t

theorem per_tenor_ne (name : String) : name ++ "_per_tenor" ≠ name := by
  intro same
  have long := congrArg (fun s => s.toList.length) same
  simp at long

/-- A map that enrichment puts reads back as it was put. -/
theorem tenorMapAt_putTenors (doc : Props) (name : String) (out : List (String × ℚ)) :
    ∃ m, tenorMapAt (putTenors doc name out) (name ++ "_per_tenor") = some m ∧
      ∀ t, m.lookup t = (ofPairs out).lookup t := by
  have stored : (putTenors doc name out).lookup (name ++ "_per_tenor") =
      some (tenorObject out) := by
    rw [putTenors, AList.lookup_insert_ne (per_tenor_ne name), AList.lookup_insert]
  refine ⟨ofPairs (numericMembers (pairs (ofPairs (out.map fun p => (p.1, Json.num p.2))))),
    by simp only [tenorMapAt, objAt, stored, tenorObject, Option.map_some], ?_⟩
  intro t
  rw [ParentChild.lookup_numericMembers, lookup_ofPairs_map]
  cases (ofPairs out).lookup t <;> rfl

theorem tenorMapAt_congr {doc' : Props} {name : String}
    (same : doc.lookup name = doc'.lookup name) :
    tenorMapAt doc name = tenorMapAt doc' name := by
  rw [tenorMapAt, tenorMapAt, objAt, objAt, same]

theorem numAt_congr {doc' : Props} {name : String} (same : doc.lookup name = doc'.lookup name) :
    numAt doc name = numAt doc' name := by
  rw [numAt, numAt, same]

theorem tenorArgs_labelled (lower leg : String) (m : Assoc String ℚ) :
    tenorArgs lower leg m = labelled "ws_" lower leg (pairs m) := by
  simp only [tenorArgs, labelled, ws_legName_some]
  rfl

theorem scalarArgs_named (lower leg : String) (v : ℚ) :
    scalarArgs lower leg (some v) = scalarNamed "ws_" lower leg v := by
  simp only [scalarNamed, ws_legName_none]
  rfl

/-- The tags that the layout of a document goes by. -/
structure Tagged (doc : Props) (row : Row) : Prop where
  riskClass : textOf doc "risk_class" = row.riskClass
  sens : textOf doc "sensitivity_type" = row.sensitivityType.text

theorem Tagged.stamped (row : Row) : Tagged row.stamped row := by
  constructor
  · rw [textOf, Row.stamped, AList.lookup_insert_ne (by decide), lookup_doc_tag (by decide)]
    rfl
  · rw [textOf, Row.stamped, AList.lookup_insert_ne (by decide), lookup_doc_tag (by decide)]
    rfl

theorem Tagged.insert {name : String} {v : Json} (tagged : Tagged doc row)
    (other : name ≠ "risk_class" ∧ name ≠ "sensitivity_type") : Tagged (doc.insert name v) row := by
  constructor
  · rw [textOf, AList.lookup_insert_ne other.1.symm]
    exact tagged.riskClass
  · rw [textOf, AList.lookup_insert_ne other.2.symm]
    exact tagged.sens

theorem Tagged.putTenors {name : String} {out : List (String × ℚ)} (tagged : Tagged doc row)
    (other : name ∈ ["weighted_value", "weighted_cvr_up", "weighted_cvr_down"]) :
    Tagged (putTenors doc name out) row := by
  have apart : ∀ name ∈ ["weighted_value", "weighted_cvr_up", "weighted_cvr_down"],
      (name ≠ "risk_class" ∧ name ≠ "sensitivity_type") ∧
        (name ++ "_per_tenor" ≠ "risk_class" ∧ name ++ "_per_tenor" ≠ "sensitivity_type") := by
    decide
  exact (tagged.insert (apart name other).2).insert (apart name other).1

theorem weightArgs_scalar [Casing] (tagged : Tagged doc row) (present : row.riskClass ≠ "")
    (other : row.sensitivityType ≠ .curvature) :
    weightArgs doc =
      match tenorMapAt doc "weighted_value_per_tenor" with
      | some m => tenorArgs (lowerCase row.riskClass) (scalarRoot row.sensitivityType) m
      | none => scalarArgs (lowerCase row.riskClass) (scalarRoot row.sensitivityType)
          (numAt doc "weighted_value") := by
  have typed : row.sensitivityType.text ≠ "" ∧ row.sensitivityType.text ≠ "Curvature" ∧
      legsForSensType row.sensitivityType.text = [scalarRoot row.sensitivityType] := by
    cases sens : row.sensitivityType with
    | delta => decide
    | vega => decide
    | curvature => exact absurd sens other
  obtain ⟨named, notCurvature, legs⟩ := typed
  cases map : tenorMapAt doc "weighted_value_per_tenor" <;>
    simp only [weightArgs, tagged.riskClass, tagged.sens, lowerCase_ne_empty present, named,
      notCurvature, or_self, if_false, legs, map]

theorem weightArgs_curvature [Casing] (tagged : Tagged doc row) (present : row.riskClass ≠ "")
    (own : row.sensitivityType = .curvature) :
    weightArgs doc =
      match tenorMapAt doc "weighted_cvr_up_per_tenor" with
      | some ups =>
        tenorArgs (lowerCase row.riskClass) "cvr_up" ups ++
          ((tenorMapAt doc "weighted_cvr_down_per_tenor").map
            (tenorArgs (lowerCase row.riskClass) "cvr_down")).getD []
      | none =>
        scalarArgs (lowerCase row.riskClass) "cvr_up" (numAt doc "weighted_cvr_up") ++
          scalarArgs (lowerCase row.riskClass) "cvr_down" (numAt doc "weighted_cvr_down") := by
  have sens : textOf doc "sensitivity_type" = "Curvature" := by
    rw [tagged.sens, own]
    rfl
  cases ups : tenorMapAt doc "weighted_cvr_up_per_tenor" <;>
    simp only [weightArgs, tagged.riskClass, sens, lowerCase_ne_empty present, String.reduceEq,
      or_self, if_false, if_true, ups]

/-- Two maps laid out under the two curvature legs. -/
theorem lookup_twoLabelled {pre : String} (known : root ∈ wsLegs) (ups downs : Assoc String ℚ) :
    (ofPairs (labelled pre lower "cvr_up" (pairs ups) ++
        labelled pre lower "cvr_down" (pairs downs))).lookup (pre ++ legName lower root label) =
      (if root = "cvr_up" then label.bind ups.lookup
        else if root = "cvr_down" then label.bind downs.lookup else none).map shownNum := by
  have read : ∀ m : Assoc String ℚ, label.bind (ofPairs (pairs m)).lookup =
      label.bind m.lookup := by
    intro m
    cases label with
    | none => rfl
    | some t => exact lookup_ofPairs_pairs m t
  have absent : ∀ leg ∈ wsLegs, root ≠ leg → ∀ ps, pre ++ legName lower root label ∉
      (labelled pre lower leg ps).map Prod.fst := by
    intro leg known' other ps mem
    obtain ⟨q, hq, same⟩ := List.mem_map.mp mem
    obtain ⟨p, _, rfl⟩ := List.mem_map.mp hq
    exact other (name_inj known' known same).1.symm
  by_cases up : root = "cvr_up"
  · rw [lookup_ofPairs_append_of_notMem (absent _ (by decide) (by rw [up]; decide) _),
      lookup_labelled (by decide) known, if_pos up, if_pos up, read]
  · rw [lookup_ofPairs_append_of_notMem_left (absent _ (by decide) up _),
      lookup_labelled (by decide) known, if_neg up, read]
    split <;> rfl

/-- A weighted name is not in a document that was only stamped. -/
theorem lookup_stamped {name : String}
    (other : name ∉ "_calibration" :: "risk_value" :: "tenor" :: tagFields) :
    row.stamped.lookup name = none := by
  obtain ⟨calibration, rest⟩ :
      name ≠ "_calibration" ∧ name ∉ "risk_value" :: "tenor" :: tagFields := by
    simpa only [List.mem_cons, not_or] using other
  rw [Row.stamped, AList.lookup_insert_ne calibration, lookup_doc_other rest]

theorem tenorMapAt_eq_none {name : String} (absent : doc.lookup name = none) :
    tenorMapAt doc name = none := by
  rw [tenorMapAt, objAt, absent]
  rfl

theorem numAt_eq_none {name : String} (absent : doc.lookup name = none) :
    numAt doc name = none := by
  rw [numAt, absent]

/-- The fields of a document with a scalar weighted value, or none. -/
theorem lookup_scalarValue [Casing] (tagged : Tagged doc row) (present : row.riskClass ≠ "")
    (other : row.sensitivityType ≠ .curvature) (known : root ∈ wsLegs)
    (noMap : doc.lookup "weighted_value_per_tenor" = none) :
    (ofPairs (weightArgs doc)).lookup ("ws_" ++ legName (lowerCase row.riskClass) root label) =
      (if root = scalarRoot row.sensitivityType then
        (if label = none then numAt doc "weighted_value" else none) else none).map shownNum := by
  rw [weightArgs_scalar tagged present other, tenorMapAt_eq_none noMap]
  cases numAt doc "weighted_value" with
  | none =>
    rw [ite_self, ite_self]
    rfl
  | some v =>
    dsimp only
    rw [scalarArgs_named, lookup_scalarNamed (scalarRoot_mem _) known]
    split_ifs <;> simp_all

/-- The fields of a document with a per-tenor weighted value. -/
theorem lookup_tenorValue [Casing] (tagged : Tagged doc row) (present : row.riskClass ≠ "")
    (other : row.sensitivityType ≠ .curvature) (known : root ∈ wsLegs) {m : Assoc String ℚ}
    (map : tenorMapAt doc "weighted_value_per_tenor" = some m) :
    (ofPairs (weightArgs doc)).lookup ("ws_" ++ legName (lowerCase row.riskClass) root label) =
      (if root = scalarRoot row.sensitivityType then label.bind m.lookup else none).map
        shownNum := by
  rw [weightArgs_scalar tagged present other, map]
  dsimp only
  rw [tenorArgs_labelled, lookup_labelled (scalarRoot_mem _) known]
  have read : label.bind (ofPairs (pairs m)).lookup = label.bind m.lookup := by
    cases label with
    | none => rfl
    | some t => exact lookup_ofPairs_pairs m t
  rw [read]
  split <;> rfl

def curvatureNames : List String :=
  ["weighted_cvr_up_per_tenor", "weighted_cvr_up", "weighted_cvr_down"]

/-- A document without curvature values has no curvature field. -/
theorem weightArgs_noCurvature [Casing] (tagged : Tagged doc row) (present : row.riskClass ≠ "")
    (own : row.sensitivityType = .curvature)
    (absent : ∀ name ∈ curvatureNames, doc.lookup name = none) : weightArgs doc = [] := by
  rw [weightArgs_curvature tagged present own,
    tenorMapAt_eq_none (absent _ (by simp [curvatureNames])),
    numAt_eq_none (absent _ (by simp [curvatureNames])),
    numAt_eq_none (absent _ (by simp [curvatureNames]))]
  rfl

/-- The fields of a document with a curvature pair. -/
theorem lookup_curvaturePair [Casing] (tagged : Tagged doc row) (present : row.riskClass ≠ "")
    (own : row.sensitivityType = .curvature) (known : root ∈ wsLegs) {v : ℚ × ℚ}
    (noMap : doc.lookup "weighted_cvr_up_per_tenor" = none)
    (up : numAt doc "weighted_cvr_up" = some v.1)
    (down : numAt doc "weighted_cvr_down" = some v.2) :
    (ofPairs (weightArgs doc)).lookup ("ws_" ++ legName (lowerCase row.riskClass) root label) =
      (if label = none then sideOf root v else none).map shownNum := by
  rw [weightArgs_curvature tagged present own, tenorMapAt_eq_none noMap, up, down]
  dsimp only
  rw [scalarArgs_named, scalarArgs_named]
  exact lookup_pairNamed known v

/-- The fields of a document with the two curvature maps. -/
theorem lookup_curvatureMaps [Casing] (tagged : Tagged doc row) (present : row.riskClass ≠ "")
    (own : row.sensitivityType = .curvature) (known : root ∈ wsLegs) {ups downs : Assoc String ℚ}
    (up : tenorMapAt doc "weighted_cvr_up_per_tenor" = some ups)
    (down : tenorMapAt doc "weighted_cvr_down_per_tenor" = some downs) :
    (ofPairs (weightArgs doc)).lookup ("ws_" ++ legName (lowerCase row.riskClass) root label) =
      (if root = "cvr_up" then label.bind ups.lookup
        else if root = "cvr_down" then label.bind downs.lookup else none).map shownNum := by
  rw [weightArgs_curvature tagged present own, up, down]
  dsimp only
  rw [Option.map_some, Option.getD_some, tenorArgs_labelled, tenorArgs_labelled]
  exact lookup_twoLabelled known ups downs

/-- The weighted fields that ingest stores for a Delta or Vega row. -/
theorem lookup_ingest_scalar [Casing] (found : row.classIn schema = some cfg)
    (present : row.riskClass ≠ "")
    (other : row.sensitivityType ≠ .curvature) (known : root ∈ wsLegs) :
    (ofPairs (weightArgs (enrichDoc row.doc (some schema)))).lookup
        ("ws_" ++ legName (lowerCase row.riskClass) root label) =
      ((row.ingestCell cfg root label).map (row.weight schema cfg label * ·)).map shownNum := by
  have value : ∀ v, (ofPairs (weightArgs (row.stamped.insert "weighted_value"
        (.num (row.weight schema cfg none * v))))).lookup
          ("ws_" ++ legName (lowerCase row.riskClass) root label) =
      ((if root = scalarRoot row.sensitivityType then (if label = none then some v else none)
        else none).map (row.weight schema cfg label * ·)).map shownNum := by
    intro v
    have tagged : Tagged (row.stamped.insert "weighted_value"
        (.num (row.weight schema cfg none * v))) row :=
      (Tagged.stamped row).insert (by decide)
    rw [lookup_scalarValue tagged present other known (by
      rw [AList.lookup_insert_ne (by decide), lookup_stamped (by decide)])]
    have read : numAt (row.stamped.insert "weighted_value"
        (.num (row.weight schema cfg none * v))) "weighted_value" =
        some (row.weight schema cfg none * v) := by
      rw [numAt, AList.lookup_insert]
    rw [read]
    split_ifs with leg scalar
    · rw [scalar]
      rfl
    · rfl
    · rfl
  have tenors : ∀ items, (ofPairs (weightArgs (putTenors row.stamped "weighted_value"
        (weighTenors (fun t => row.weight schema cfg (some t)) items)))).lookup
          ("ws_" ++ legName (lowerCase row.riskClass) root label) =
      ((if root = scalarRoot row.sensitivityType then
        label.bind (ofPairs (numericMembers items)).lookup else none).map
          (row.weight schema cfg label * ·)).map shownNum := by
    intro items
    obtain ⟨m, map, reads⟩ := tenorMapAt_putTenors row.stamped "weighted_value"
      (weighTenors (fun t => row.weight schema cfg (some t)) items)
    rw [lookup_tenorValue ((Tagged.stamped row).putTenors (by decide)) present other known map]
    split
    · cases label with
      | none => rfl
      | some t =>
        rw [Option.bind_some, reads, lookup_weighTenors]
        rfl
    · rfl
  rw [enrichDoc_doc found, Row.ingestCell, Row.cell, if_neg other]
  cases row.riskValue with
  | number v => exact value v
  | array items =>
    dsimp only [SensitivityRiskValue.toJson]
    cases row.listed with
    | some labels =>
      refine (tenors _).trans ?_
      rw [numericMembers_zip]
      rfl
    | none =>
      cases cfg.tenorNodes with
      | some nodes =>
        refine (tenors _).trans ?_
        rw [numericMembers_zip]
        rfl
      | none =>
        refine (lookup_scalarValue (Tagged.stamped row) present other known
          (lookup_stamped (by decide))).trans ?_
        rw [numAt_eq_none (lookup_stamped (by decide)), ite_self, ite_self]
        cases label <;> simp [ofPairs]
  | members m =>
    simp only [SensitivityRiskValue.toJson, if_neg other, enrichObject, spotOf_jsonMembers]
    cases spotMember m with
    | some v => exact value v
    | none =>
      refine (tenors _).trans ?_
      congr 3
      cases label with
      | none => rfl
      | some t => exact lookup_numericMembers_json m t
  | curvatureArrays up down =>
    simp only [SensitivityRiskValue.toJson, if_neg other, enrichObject]
    have noSpot : spotOf (ofPairs [("cvr_up", Json.arr (up.map .num)),
        ("cvr_down", .arr (down.map .num))]) = none := by
      simp [spotOf, pairs, ofPairs]
    have noNumber : numericMembers (pairs (ofPairs [("cvr_up", Json.arr (up.map .num)),
        ("cvr_down", .arr (down.map .num))])) = [] := by
      simp [numericMembers, pairs, ofPairs]
    rw [noSpot]
    refine (tenors _).trans ?_
    rw [noNumber]
    cases label <;> simp [ofPairs]

/-- Curvature rows are not weighted. -/
theorem weight_curvature (own : row.sensitivityType = .curvature) (label : Option String) :
    row.weight schema cfg label = 1 := by
  rw [Row.weight, own]
  rfl

/-- The weighted fields that ingest stores for a curvature row. -/
theorem lookup_ingest_curvature [Casing] (found : row.classIn schema = some cfg)
    (present : row.riskClass ≠ "") (own : row.sensitivityType = .curvature)
    (known : root ∈ wsLegs) :
    (ofPairs (weightArgs (enrichDoc row.doc (some schema)))).lookup
        ("ws_" ++ legName (lowerCase row.riskClass) root label) =
      ((row.ingestCell cfg root label).map (row.weight schema cfg label * ·)).map shownNum := by
  have weightless : ∀ o : Option ℚ, o.map (row.weight schema cfg label * ·) = o := by
    intro o
    rw [weight_curvature own]
    cases o <;> simp
  have nothing : ∀ d, Tagged d row → (∀ name ∈ curvatureNames, d.lookup name = none) →
      (ofPairs (weightArgs d)).lookup ("ws_" ++ legName (lowerCase row.riskClass) root label) =
        none := by
    intro d tagged absent
    rw [weightArgs_noCurvature tagged present own absent]
    rfl
  have bare : ∀ name ∈ curvatureNames, row.stamped.lookup name = none :=
    fun name listed => lookup_stamped (by revert name; decide)
  have apart : ∀ name ∈ curvatureNames,
      name ≠ "weighted_value" ∧ name ≠ "weighted_value" ++ "_per_tenor" := by decide
  rw [enrichDoc_doc found, Row.ingestCell, Row.cell, if_pos own, weightless]
  cases row.riskValue with
  | number v =>
    dsimp only [SensitivityRiskValue.toJson]
    refine nothing _ ((Tagged.stamped row).insert (by decide)) fun name listed => ?_
    rw [AList.lookup_insert_ne (apart name listed).1, bare name listed]
  | array items =>
    dsimp only [SensitivityRiskValue.toJson, enrichArray]
    cases row.listed.elim cfg.tenorNodes some with
    | none => exact nothing _ (Tagged.stamped row) bare
    | some labels =>
      refine nothing _ ((Tagged.stamped row).putTenors (by decide)) fun name listed => ?_
      rw [ParentChild.lookup_putTenors_of_ne _ (apart name listed), bare name listed]
  | members m =>
    simp only [SensitivityRiskValue.toJson, if_pos own, enrichCurvature, lookup_jsonMembers]
    cases up : m.lookup "cvr_up" with
    | none =>
      refine (nothing _ (Tagged.stamped row) bare).trans ?_
      cases label <;> rfl
    | some u =>
      cases down : m.lookup "cvr_down" with
      | none =>
        refine (nothing _ (Tagged.stamped row) bare).trans ?_
        cases label <;> rfl
      | some d =>
        refine lookup_curvaturePair (v := (u, d)) (((Tagged.stamped row).insert (by decide)).insert
          (by decide)) present own known ?_ ?_ ?_
        · rw [AList.lookup_insert_ne (by decide), AList.lookup_insert_ne (by decide),
            bare _ (by simp [curvatureNames])]
        · rw [numAt, AList.lookup_insert_ne (by decide), AList.lookup_insert,
            weight_curvature own, one_mul]
        · rw [numAt, AList.lookup_insert, weight_curvature own, one_mul]
  | curvatureArrays up down =>
    simp only [SensitivityRiskValue.toJson, if_pos own, enrichCurvature,
      (lookup_cvrArrays _ _).1, (lookup_cvrArrays _ _).2]
    cases cfg.tenorNodes with
    | none =>
      refine (nothing _ (Tagged.stamped row) bare).trans ?_
      cases label <;> rfl
    | some nodes =>
      dsimp only
      rw [zip_numbers, List.map_map, List.map_map]
      obtain ⟨ups, upStored, upReads⟩ := tenorMapAt_putTenors row.stamped "weighted_cvr_up"
        ((nodes.zip (up.zip down)).map fun r => (r.1, row.weight schema cfg (some r.1) * r.2.1))
      obtain ⟨downs, downStored, downReads⟩ := tenorMapAt_putTenors
        (putTenors row.stamped "weighted_cvr_up" ((nodes.zip (up.zip down)).map fun r =>
          (r.1, row.weight schema cfg (some r.1) * r.2.1))) "weighted_cvr_down"
        ((nodes.zip (up.zip down)).map fun r => (r.1, row.weight schema cfg (some r.1) * r.2.2))
      refine (lookup_curvatureMaps (((Tagged.stamped row).putTenors (by decide)).putTenors
        (by decide)) present own known
        ((tenorMapAt_congr (ParentChild.lookup_putTenors_of_ne _ (by decide))).trans upStored)
        downStored).trans ?_
      congr 1
      cases label with
      | none =>
        rw [Option.bind_none, Option.bind_none, ite_self, ite_self]
        rfl
      | some t =>
        rw [Option.bind_some, Option.bind_some, upReads, downReads,
          lookup_ofPairs_weighed (nodes.zip (up.zip down))
            (fun t v => row.weight schema cfg (some t) * v.1),
          lookup_ofPairs_weighed (nodes.zip (up.zip down))
            (fun t v => row.weight schema cfg (some t) * v.2), weight_curvature own,
          Option.getD_some]
        rw [Option.bind_some]
        cases (ofPairs (nodes.zip (up.zip down))).lookup t with
        | none => rw [Option.map_none, Option.map_none, ite_self, ite_self, Option.bind_none]
        | some v => simp only [Option.map_some, one_mul, Option.bind_some, sideOf]

def weightedNames : List String :=
  ["weighted_value", "weighted_value_per_tenor", "weighted_cvr_up", "weighted_cvr_up_per_tenor",
    "weighted_cvr_down", "weighted_cvr_down_per_tenor"]

/-- Enrichment stamps a document and then inserts weighted names only. -/
theorem enrichDoc_keeps {P : Props → Prop} {doc : Props} {schema : Option Schema}
    (stamped : P (doc.insert "_calibration" (.str calibrationTag)))
    (put : ∀ d name v, P d → name ∈ weightedNames → P (d.insert name v)) :
    P (enrichDoc doc schema) := by
  have tenors : ∀ d out, P d → ∀ name ∈ ["weighted_value", "weighted_cvr_up", "weighted_cvr_down"],
      P (putTenors d name out) := by
    intro d out kept name listed
    have both : ∀ name ∈ ["weighted_value", "weighted_cvr_up", "weighted_cvr_down"],
        name ∈ weightedNames ∧ name ++ "_per_tenor" ∈ weightedNames := by decide
    exact put _ _ _ (put _ _ _ kept (both name listed).2) (both name listed).1
  simp only [enrichDoc]
  split
  · exact stamped
  · split
    · split
      · unfold enrichCurvature
        split
        · exact tenors _ _ (tenors _ _ stamped _ (by decide)) _ (by decide)
        · exact put _ _ _ (put _ _ _ stamped (by decide)) (by decide)
        · exact stamped
      · unfold enrichObject
        split
        · exact put _ _ _ stamped (by decide)
        · exact tenors _ _ stamped _ (by decide)
    · unfold enrichArray
      split
      · exact tenors _ _ stamped _ (by decide)
      · exact stamped
    · exact put _ _ _ stamped (by decide)
    · exact stamped

theorem Tagged.enriched (row : Row) (schema : Option Schema) :
    Tagged (enrichDoc row.doc schema) row := by
  have apart : ∀ name ∈ weightedNames, name ≠ "risk_class" ∧ name ≠ "sensitivity_type" := by
    decide
  exact enrichDoc_keeps (P := fun d => Tagged d row) (Tagged.stamped row)
    fun _ _ _ tagged listed => tagged.insert (apart _ listed)

/-- The weighted fields are all fields of the row's class. -/
theorem named_of_mem_weightArgs [Casing] (tagged : Tagged doc row) {name : String}
    (mem : name ∈ (weightArgs doc).map Prod.fst) :
    ∃ root ∈ wsLegs, ∃ label, name = "ws_" ++ legName (lowerCase row.riskClass) root label := by
  have present : row.riskClass ≠ "" := by
    intro empty
    rw [weightArgs, tagged.riskClass, empty] at mem
    simp at mem
  have scalar : ∀ leg ∈ wsLegs, ∀ v,
      name ∈ (scalarArgs (lowerCase row.riskClass) leg v).map Prod.fst →
      ∃ root ∈ wsLegs, ∃ label, name = "ws_" ++ legName (lowerCase row.riskClass) root label := by
    intro leg known v mem
    rw [scalarArgs_names] at mem
    split at mem
    · exact ⟨leg, known, none, (List.mem_singleton.mp mem).trans (ws_legName_none _ _).symm⟩
    · cases mem
  have tenors : ∀ leg ∈ wsLegs, ∀ m,
      name ∈ (tenorArgs (lowerCase row.riskClass) leg m).map Prod.fst →
      ∃ root ∈ wsLegs, ∃ label, name = "ws_" ++ legName (lowerCase row.riskClass) root label := by
    intro leg known m mem
    rw [tenorArgs_names] at mem
    obtain ⟨t, _, rfl⟩ := List.mem_map.mp mem
    exact ⟨leg, known, some t, (ws_legName_some _ _ t).symm⟩
  by_cases own : row.sensitivityType = .curvature
  · rw [weightArgs_curvature tagged present own] at mem
    cases ups : tenorMapAt doc "weighted_cvr_up_per_tenor" with
    | none =>
      rw [ups, List.map_append, List.mem_append] at mem
      exact mem.elim (scalar _ (by decide) _) (scalar _ (by decide) _)
    | some m =>
      rw [ups, List.map_append, List.mem_append] at mem
      refine mem.elim (tenors _ (by decide) _) fun mem => ?_
      cases downs : tenorMapAt doc "weighted_cvr_down_per_tenor" with
      | none => rw [downs] at mem; cases mem
      | some m' => rw [downs] at mem; exact tenors _ (by decide) _ mem
  · rw [weightArgs_scalar tagged present own] at mem
    cases map : tenorMapAt doc "weighted_value_per_tenor" with
    | none => rw [map] at mem; exact scalar _ (scalarRoot_mem _) _ mem
    | some m => rw [map] at mem; exact tenors _ (scalarRoot_mem _) _ mem

/-- A row whose class is missing from the schema is stored without a weight. -/
theorem lookup_ingest_missing [Casing] (missing : row.classIn schema = none)
    (known : root ∈ wsLegs) :
    (ofPairs (weightArgs (enrichDoc row.doc (some schema)))).lookup
      ("ws_" ++ legName (lowerCase row.riskClass) root label) = none := by
  have bare : enrichDoc row.doc (some schema) = row.stamped := by
    simp only [enrichDoc, classOf_doc, missing, Option.map_none]
    rfl
  rw [bare]
  by_cases present : row.riskClass = ""
  · have empty : weightArgs row.stamped = [] := by
      rw [weightArgs, (Tagged.stamped row).riskClass, present]
      simp
    rw [empty]
    rfl
  by_cases own : row.sensitivityType = .curvature
  · rw [weightArgs_noCurvature (Tagged.stamped row) present own fun name listed =>
      lookup_stamped (by revert name; decide)]
    rfl
  · rw [lookup_scalarValue (Tagged.stamped row) present own known (lookup_stamped (by decide)),
      numAt_eq_none (lookup_stamped (by decide)), ite_self, ite_self]
    rfl

theorem classIn_present (found : row.classIn schema = some cfg) : row.riskClass ≠ "" := by
  intro empty
  rw [Row.classIn, if_pos empty] at found
  cases found

theorem numberUnder_flatten [Casing] (doc : Props) (x : String) :
    numberUnder (flattenDocForHash doc) ("ws_" ++ x) = numberUnder (weightArgs doc)
      ("ws_" ++ x) := by
  rw [numberUnder, numberUnder, lookup_flatten_weight (isWeightField_ws x)]

/-- What ingest stores at a field of the row's class. -/
theorem numberUnder_ingest [Casing] (row : Row) (schema : Schema) (known : root ∈ wsLegs) :
    numberUnder (flattenDocForHash (enrichDoc row.doc (some schema)))
        ("ws_" ++ legName (lowerCase row.riskClass) root label) =
      row.weighted schema root label := by
  rw [numberUnder_flatten, numberUnder, Row.weighted]
  cases found : row.classIn schema with
  | none =>
    rw [lookup_ingest_missing found known]
    rfl
  | some cfg =>
    have read : (ofPairs (weightArgs (enrichDoc row.doc (some schema)))).lookup
        ("ws_" ++ legName (lowerCase row.riskClass) root label) =
        ((row.ingestCell cfg root label).map (row.weight schema cfg label * ·)).map shownNum := by
      by_cases own : row.sensitivityType = .curvature
      · exact lookup_ingest_curvature found (classIn_present found) own known
      · exact lookup_ingest_scalar found (classIn_present found) own known
    rw [read]
    dsimp only
    cases row.ingestCell cfg root label with
    | none => exact (mul_zero (legWeight _ _ _ _)).symm
    | some v => rfl

theorem numberUnder_ingest_other [Casing] {x : String}
    (other : ∀ root ∈ wsLegs, ∀ label, x ≠ legName (lowerCase row.riskClass) root label) :
    numberUnder (flattenDocForHash (enrichDoc row.doc (some schema))) ("ws_" ++ x) = 0 := by
  have absent : "ws_" ++ x ∉ (weightArgs (enrichDoc row.doc (some schema))).map Prod.fst := by
    intro mem
    obtain ⟨root, known, label, same⟩ := named_of_mem_weightArgs (Tagged.enriched row _) mem
    exact other root known label ((append_left_cancel_iff _ _ _).mp same)
  rw [numberUnder_flatten, numberUnder, lookup_ofPairs_eq_none absent]
  rfl

end Ingest

section Agreement
variable {row : Row} {schema : Schema}

theorem mem_wsLegs_of_field {className : String} {cfg : RiskClassConfig}
    {f : String × Option String} (declared : f ∈ schemaFields className cfg) : f.1 ∈ wsLegs := by
  obtain ⟨leg, known, mem⟩ := List.mem_flatMap.mp declared
  split at mem
  · obtain ⟨t, _, rfl⟩ := List.mem_map.mp mem
    exact known
  · rw [List.mem_singleton.mp mem]
    exact known

/-- A per-tenor class declares each of its nodes for every leg. -/
theorem declared_anyLeg {className root root' t : String} {cfg : RiskClassConfig}
    (declared : (root, some t) ∈ schemaFields className cfg) (known : root' ∈ wsLegs) :
    (root', some t) ∈ schemaFields className cfg := by
  obtain ⟨leg, _, mem⟩ := List.mem_flatMap.mp declared
  refine List.mem_flatMap.mpr ⟨root', known, ?_⟩
  split at mem
  · rename_i perTenor
    rw [if_pos perTenor]
    obtain ⟨t', listed, same⟩ := List.mem_map.mp mem
    rw [← Option.some.inj (Prod.mk.inj same).2]
    exact List.mem_map_of_mem listed
  · cases List.mem_singleton.mp mem

/-- A scalar field is read alike by both writers. -/
theorem cell_none (row : Row) (cfg : RiskClassConfig) (root : String) :
    row.slimCell root none = row.ingestCell cfg root none := by
  rw [Row.slimCell, Row.ingestCell, Row.cell, Row.cell]
  cases row.riskValue <;> rfl

theorem getD_sideOf (root : String) (o : Option (ℚ × ℚ)) :
    (o.bind (sideOf root)).getD 0 = (sideOf root (o.getD (0, 0))).getD 0 := by
  cases o with
  | some v => rfl
  | none =>
    rw [sideOf]
    split_ifs <;> rfl

/-- Reading alike is reading the same number for every leg. -/
theorem readAlike_iff (row : Row) (cfg : RiskClassConfig) (t : String) :
    ReadAlike row (cfg.tenorNodes.getD []) t ↔
      ∀ root ∈ wsLegs, (row.slimCell root (some t)).getD 0 =
        (row.ingestCell cfg root (some t)).getD 0 := by
  unfold ReadAlike Row.slimCell Row.ingestCell Row.cell
  by_cases own : row.sensitivityType = .curvature
  · simp only [if_pos own]
    cases row.riskValue with
    | number v => exact iff_of_true trivial fun _ _ => rfl
    | array items => exact iff_of_true (fun other => absurd own other) fun _ _ => rfl
    | members m => exact iff_of_true trivial fun _ _ => rfl
    | curvatureArrays up down =>
      simp only [Option.bind_some, getD_sideOf]
      constructor
      · intro same root _
        rw [same own]
      · intro same _
        exact Prod.ext (same "cvr_up" (by decide)) (same "cvr_down" (by decide))
  · simp only [if_neg own]
    cases row.riskValue with
    | number v => exact iff_of_true trivial fun _ _ => rfl
    | members m => exact iff_of_true trivial fun _ _ => rfl
    | curvatureArrays up down => exact iff_of_true (fun own' => absurd own' own) fun _ _ => rfl
    | array items =>
      dsimp only
      cases row.listed with
      | some labels => exact iff_of_true (fun _ none => by cases none) fun _ _ => rfl
      | none =>
        simp only [Option.getD_none, List.zip_nil_left, Option.bind_some]
        have zero : ∀ o : Option ℚ, (o = none ∨ o = some 0) ↔ 0 = o.getD 0 := by
          rintro (_ | q)
          · simp
          · simp [eq_comm]
        rw [zero]
        constructor
        · intro same root _
          split
          · exact same own trivial
          · rfl
        · intro same _ _
          have read := same _ (scalarRoot_mem row.sensitivityType)
          rw [if_pos rfl, if_pos rfl] at read
          exact read

/-- The two writers' numbers at a field with a name of the row. -/
theorem agree_named [Casing] {className : String} {cfg : RiskClassConfig}
    {f : String × Option String}
    {root : String} {label : Option String} (known : root ∈ wsLegs)
    (same : legName (lowerCase className) f.1 f.2 = legName (lowerCase row.riskClass) root label)
    (byClass : Option (Assoc String (List String))) :
    (legWeight row.sensitivityType.text (tableOf schema cfg) row.bucket f.2 *
        numberUnder (rowToHashFields row byClass) ("s_" ++ legName (lowerCase className) f.1 f.2) =
      numberUnder (flattenDocForHash (enrichDoc row.doc (some schema)))
        ("ws_" ++ legName (lowerCase className) f.1 f.2)) ↔
      legWeight row.sensitivityType.text (tableOf schema cfg) row.bucket f.2 *
        (row.slimCell root label).getD 0 = row.weighted schema root label := by
  rw [same, numberUnder_rowToHashFields, numberUnder_raw row known,
    numberUnder_ingest row schema known]

end Agreement

section Demo

def girrSchema : Schema where
  riskClasses := ofPairs [("GIRR", ⟨some ["3M", "6M"], ""⟩)]
  riskWeights := ∅

/-- A legacy array without a tenor list. -/
def unlabelled : Row where
  id := "1"
  riskClass := "GIRR"
  bucket := "EUR"
  sensitivityType := .vega
  book := none
  tradeId := none
  riskFactor := none
  desk := none
  riskValue := .array [10, 20]
  tenor := none

end Demo

end SlimWriter
