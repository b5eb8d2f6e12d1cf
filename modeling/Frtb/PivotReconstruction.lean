import Frtb.FinaliserRows
import Frtb.SideTable

/-!
# The pivot reads back what the bulk loader wrote

The writer decides from the shape of a row whether it has tenors; the pivot decides from
the schema. A row comes back when both decide alike and each of its labels is a tenor node.
-/

namespace PivotReconstruction

open AssocMaps JsonText EnrichDoc RedisStore StorageWriter SlimWriter RollupFinaliser
open FieldNames (padNodes)
open SideTable (legs storedNumber)

section Reader

/-- `schema.risk_classes[rc].tenor.nodes`. -/
def classNodes (schema : Schema) (rc : String) : List String :=
  ((schema.riskClasses.lookup rc).bind RiskClassConfig.tenorNodes).getD []

/-- An object with a member for each name that has a number, none without members. -/
def membersOf (names : List String) (value : String → Option ℚ) : Option SensitivityRiskValue :=
  let members := names.filterMap fun k => (value k).map fun v => (k, v)
  if members = [] then none else some (.members (ofPairs members))

/-- The risk value as the pivot shows it; a member named `__proto__` cannot be assigned. -/
def reconstructRiskValueFromParent [Casing] (doc : Hash) (schema : Option Schema) :
    Option SensitivityRiskValue :=
  match schema, doc.lookup "risk_class", doc.lookup "sensitivity_type" with
  | some schema, some (.shown (.str rc)), some (.shown (.str sens)) =>
    let nodes := classNodes schema rc
    let raw := fun leg tenor => doc.lookup (slimField (lowerCase rc) leg tenor)
    let number := fun leg tenor => (raw leg tenor).bind storedNumber
    if sens = "Curvature" then
      if nodes.length > 0 then
        let side := fun leg => nodes.map fun t => (number leg (some t)).getD 0
        if nodes.any fun t => legs.any fun leg => (raw leg (some t)).isSome then
          some (.curvatureArrays (side "cvr_up") (side "cvr_down"))
        else none
      else membersOf legs fun leg => number leg none
    else
      let leg := if sens = "Vega" then "vega" else "delta"
      if nodes.length > 0 then
        membersOf nodes fun t => if t = "__proto__" then none else number leg (some t)
      else (number leg none).map fun n => .members (ofPairs [("spot", n)])
  | _, _, _ => none

end Reader

section Property

/-- Where a number of a risk value stands: a member of an object, a tenor of a curvature leg, or
an item for which there is no label. -/
inductive Place where
  | member (name : String)
  | tenor (leg label : String)
  | unlabelled (i : ℕ)
deriving DecidableEq

/-- The items of an array, at their labels. -/
def placed (place : String → Place) (labels : List String) (items : List ℚ) : List (Place × ℚ) :=
  items.zipIdx.map fun r => (labels[r.2]?.elim (.unlabelled r.2) place, r.1)

/-- The numbers of a risk value. A bare number is the same as `{ spot }`, an array the same as the
object of its labels. -/
def entries (labels : List String) : SensitivityRiskValue → List (Place × ℚ)
  | .number v => [(.member "spot", v)]
  | .members m => (pairs m).map fun p => (.member p.1, p.2)
  | .array items => placed .member labels items
  | .curvatureArrays up down =>
    placed (.tenor "cvr_up") labels up ++ placed (.tenor "cvr_down") labels down

/-- What a row carries; an array without a tenor list goes by the nodes of the class. -/
def carried (schema : Schema) (row : Row) : List (Place × ℚ) :=
  entries (row.listed.getD (classNodes schema row.riskClass)) row.riskValue

/-- What the pivot shows of a row as the bulk loader has written it. -/
def shown [Casing] (schema : Schema) (row : Row) : Option SensitivityRiskValue :=
  reconstructRiskValueFromParent (slimHash schema row) (some schema)

def back [Casing] (schema : Schema) (row : Row) : List (Place × ℚ) :=
  (shown schema row).elim [] (entries (classNodes schema row.riskClass))

/-- The place of a tenor node of the class. -/
def AtNode (schema : Schema) (row : Row) (p : Place) : Prop :=
  ∃ t ∈ classNodes schema row.riskClass, p = .member t ∨ ∃ leg ∈ legs, p = .tenor leg t

/-- The row's value comes back, up to zeros at the tenor nodes that the row has no number for. -/
structure Inverts [Casing] (schema : Schema) (row : Row) : Prop where
  kept : ∀ e ∈ carried schema row, e ∈ back schema row
  own : ∀ e ∈ back schema row, e ∈ carried schema row ∨
    e.2 = 0 ∧ AtNode schema row e.1 ∧ ∀ v, (e.1, v) ∉ carried schema row
  defined : ∀ root ∈ wsLegs, ∀ label,
    ((slimHash schema row).lookup (slimField (lowerCase row.riskClass) root label)).isSome →
      shown schema row ≠ none

end Property

section Condition

/-- A number without a label: the class has no nodes; or a padded zero stands for it. -/
def ScalarFits [Casing] (schema : Schema) (row : Row) (v : ℚ) : Prop :=
  classNodes schema row.riskClass = [] ∨
    v = 0 ∧ "spot" ∈ classNodes schema row.riskClass ∧ "spot" ∈ padNodes schema row

/-- Each item has a label that is read, and is the last number laid under it; or a zero is supplied
where none is laid. -/
def ItemsFit (read supplied : String → Prop) (laid : List (String × ℚ)) (labels : List String)
    (items : List ℚ) : Prop :=
  ∀ (i : ℕ) v, items[i]? = some v → ∃ t, labels[i]? = some t ∧ read t ∧
    ((ofPairs laid).lookup t = some v ∨ (ofPairs laid).lookup t = none ∧ v = 0 ∧ supplied t)

/-- The shape, the labels and the class of a row that agree. -/
def ShapeFits [Casing] (schema : Schema) (row : Row) : Prop :=
  let nodes := classNodes schema row.riskClass
  let labels := row.listed.getD nodes
  if row.sensitivityType = .curvature then
    match row.riskValue with
    | .number _ => False
    | .array items => items = []
    | .members m => m.keys = [] ∨ nodes = [] ∧ ∀ k, k ∈ m ↔ k ∈ legs
    | .curvatureArrays up down =>
      let laid := (row.listed.getD []).zip (up.zip down)
      let supplied := fun _ => ∃ t ∈ nodes, t ∈ padNodes schema row ∨ t ∈ laid.map Prod.fst
      ItemsFit (· ∈ nodes) supplied (laid.map fun r => (r.1, r.2.1)) labels up ∧
        ItemsFit (· ∈ nodes) supplied (laid.map fun r => (r.1, r.2.2)) labels down
  else
    match row.riskValue with
    | .number v => ScalarFits schema row v
    | .members m =>
      match spotMember m with
      | some v => ScalarFits schema row v
      | none => ∀ k ∈ m, k ∈ nodes ∧ k ≠ "__proto__"
    | .array items =>
      ItemsFit (fun t => t ∈ nodes ∧ t ≠ "__proto__") (· ∈ padNodes schema row)
        ((row.listed.getD []).zip items) labels items
    | .curvatureArrays up down => up = [] ∧ down = []

/-- Of a row without any number, a padded zero is read where there is one. -/
def PadsRead [Casing] (schema : Schema) (row : Row) : Prop :=
  carried schema row = [] → padNodes schema row ≠ [] →
    ∃ t ∈ padNodes schema row, t ∈ classNodes schema row.riskClass ∧
      (row.sensitivityType ≠ .curvature → t ≠ "__proto__")

end Condition

section Back
variable {schema : Schema} {row : Row} {p : Place} {v : ℚ}

theorem mem_placed {place : String → Place} {labels : List String} {items : List ℚ} :
    (p, v) ∈ placed place labels items ↔
      ∃ i : ℕ, items[i]? = some v ∧ labels[i]?.elim (.unlabelled i) place = p := by
  simp only [placed, List.mem_map, Prod.exists, List.mem_zipIdx_iff_getElem?, Prod.mk.injEq]
  constructor
  · rintro ⟨w, i, item, at_p, rfl⟩
    exact ⟨i, item, at_p⟩
  · rintro ⟨i, item, at_p⟩
    exact ⟨v, i, item, at_p, rfl⟩

/-- One number for each node. -/
theorem mem_placed_map {place : String → Place} {nodes : List String} {value : String → ℚ} :
    (p, v) ∈ placed place nodes (nodes.map value) ↔ ∃ t ∈ nodes, p = place t ∧ v = value t := by
  rw [mem_placed]
  constructor
  · rintro ⟨i, item, at_p⟩
    rw [List.getElem?_map, Option.map_eq_some_iff] at item
    obtain ⟨t, node, rfl⟩ := item
    rw [node] at at_p
    exact ⟨t, List.mem_of_getElem? node, at_p.symm, rfl⟩
  · rintro ⟨t, node, rfl, rfl⟩
    obtain ⟨i, at_i⟩ := List.getElem?_of_mem node
    exact ⟨i, by rw [List.getElem?_map, at_i]; rfl, by rw [at_i]; rfl⟩

theorem membersOf_congr {names : List String} {f g : String → Option ℚ}
    (same : ∀ k ∈ names, f k = g k) : membersOf names f = membersOf names g := by
  unfold membersOf
  rw [List.filterMap_congr fun k mem => by rw [same k mem]]

/-- The members of an object that is made of the numbers there are. -/
theorem mem_membersOf {names nodes : List String} {value : String → Option ℚ} :
    (p, v) ∈ (membersOf names value).elim [] (entries nodes) ↔
      ∃ k ∈ names, p = .member k ∧ value k = some v := by
  have listed : ∀ k w, (k, w) ∈ (names.filterMap fun k => (value k).map fun v => (k, v)) ↔
      k ∈ names ∧ value k = some w := by
    intro k w
    simp only [List.mem_filterMap, Option.map_eq_some_iff, Prod.mk.injEq]
    constructor
    · rintro ⟨k, named, w, own, rfl, rfl⟩
      exact ⟨named, own⟩
    · rintro ⟨named, own⟩
      exact ⟨k, named, w, own, rfl, rfl⟩
  have flat : (membersOf names value).elim [] (entries nodes) =
      (pairs (ofPairs (names.filterMap fun k => (value k).map fun v => (k, v)))).map
        fun p => (Place.member p.1, p.2) := by
    unfold membersOf
    dsimp only
    split
    · rename_i none_
      rw [none_]
      rfl
    · rfl
  rw [flat, List.mem_map]
  constructor
  · rintro ⟨⟨k, w⟩, mem, same⟩
    cases same
    have own := (listed k w).mp (mem_of_lookup_ofPairs ((mem_pairs _ _ _).mp mem))
    exact ⟨k, own.1, rfl, own.2⟩
  · rintro ⟨k, named, rfl, own⟩
    refine ⟨(k, v), (mem_pairs _ _ _).mpr ?_, rfl⟩
    obtain ⟨w, here⟩ := Option.isSome_iff_exists.mp ((lookup_ofPairs_isSome _ k).mpr
      (List.mem_map.mpr ⟨(k, v), (listed k v).mpr ⟨named, own⟩, rfl⟩))
    rw [here, ← own]
    exact ((listed k w).mp (mem_of_lookup_ofPairs here)).2.symm

theorem exists_mem_membersOf {names nodes : List String} {value : String → Option ℚ}
    (some_ : membersOf names value ≠ none) :
    ∃ e, e ∈ (membersOf names value).elim [] (entries nodes) := by
  have filled : (names.filterMap fun k => (value k).map fun v => (k, v)) ≠ [] := by
    intro none_
    exact some_ (by rw [membersOf]; exact if_pos none_)
  obtain ⟨⟨k, v⟩, mem⟩ := List.exists_mem_of_ne_nil _ filled
  obtain ⟨k, named, own⟩ := List.mem_filterMap.mp mem
  obtain ⟨v, value, same⟩ := Option.map_eq_some_iff.mp own
  exact ⟨(.member k, v), mem_membersOf.mpr ⟨k, named, rfl, value⟩⟩

theorem laidCell_none [Casing] (leg : String) :
    laidCell schema row leg none = row.slimCell leg none := by
  rw [laidCell, if_neg fun padded => by simp at padded, Option.or_none]

theorem legs_known {leg : String} (mem : leg ∈ legs) : leg ∈ wsLegs := by
  have all : ∀ leg ∈ legs, leg ∈ wsLegs := by decide
  exact all leg mem

/-- Some curvature number is there at a node. -/
abbrev AnyLaid [Casing] (schema : Schema) (row : Row) : Prop :=
  ∃ t ∈ classNodes schema row.riskClass, ∃ leg ∈ legs,
    (laidCell schema row leg (some t)).isSome = true

/-- What is shown, in terms of the numbers under the fields. -/
theorem shown_eq [Casing] : shown schema row =
    let nodes := classNodes schema row.riskClass
    if row.sensitivityType = .curvature then
      if nodes.length > 0 then
        let side := fun leg => nodes.map fun t => (laidCell schema row leg (some t)).getD 0
        if AnyLaid schema row then some (.curvatureArrays (side "cvr_up") (side "cvr_down"))
        else none
      else membersOf legs fun leg => row.slimCell leg none
    else
      let leg := scalarRoot row.sensitivityType
      if nodes.length > 0 then
        membersOf nodes fun t =>
          if t = "__proto__" then none else laidCell schema row leg (some t)
      else (row.slimCell leg none).map fun n => .members (ofPairs [("spot", n)]) := by
  have cls : (slimHash schema row).lookup "risk_class" = some (.shown (.str row.riskClass)) :=
    lookup_slimHash_tag (by decide) rfl
  have sens : (slimHash schema row).lookup "sensitivity_type" =
      some (.shown (.str row.sensitivityType.text)) := lookup_slimHash_tag (by decide) rfl
  have number : ∀ leg ∈ wsLegs, ∀ label, ((slimHash schema row).lookup
      (slimField (lowerCase row.riskClass) leg label)).bind storedNumber =
        laidCell schema row leg label := by
    intro leg known label
    rw [lookup_slimHash known]
    cases laidCell schema row leg label <;> rfl
  have there : ∀ leg ∈ wsLegs, ∀ label, ((slimHash schema row).lookup
      (slimField (lowerCase row.riskClass) leg label)).isSome =
        (laidCell schema row leg label).isSome := by
    intro leg known label
    rw [lookup_slimHash known, Option.isSome_map]
  have leg : (if row.sensitivityType.text = "Vega" then "vega" else "delta") =
      scalarRoot row.sensitivityType := by
    cases row.sensitivityType <;> rfl
  unfold shown reconstructRiskValueFromParent
  rw [cls, sens]
  dsimp only
  rw [leg]
  simp only [text_eq_curvature, number _ (scalarRoot_mem row.sensitivityType), laidCell_none,
    number "cvr_up" (by decide), number "cvr_down" (by decide)]
  have any : ((classNodes schema row.riskClass).any fun t => legs.any fun leg =>
      ((slimHash schema row).lookup
        (slimField (lowerCase row.riskClass) leg (some t))).isSome) =
          decide (AnyLaid schema row) := by
    refine Bool.eq_iff_iff.mpr ?_
    rw [List.any_eq_true, decide_eq_true_eq]
    refine exists_congr fun t => and_congr_right fun _ => ?_
    rw [List.any_eq_true]
    exact exists_congr fun leg => and_congr_right fun mem => by rw [there leg (legs_known mem)]
  have scalars : (membersOf legs fun leg => ((slimHash schema row).lookup
      (slimField (lowerCase row.riskClass) leg none)).bind storedNumber) =
        membersOf legs fun leg => row.slimCell leg none :=
    membersOf_congr fun leg mem => by rw [number leg (legs_known mem), laidCell_none]
  simp only [any, scalars, decide_eq_true_eq]

/-- What the pivot finds at a place. -/
def readAt [Casing] (schema : Schema) (row : Row) : Place → Option ℚ
  | .member k =>
    if row.sensitivityType = .curvature then
      if classNodes schema row.riskClass = [] ∧ k ∈ legs then row.slimCell k none else none
    else if classNodes schema row.riskClass = [] then
      if k = "spot" then row.slimCell (scalarRoot row.sensitivityType) none else none
    else if k ∈ classNodes schema row.riskClass ∧ k ≠ "__proto__" then
      laidCell schema row (scalarRoot row.sensitivityType) (some k)
    else none
  | .tenor leg t =>
    if row.sensitivityType = .curvature ∧ leg ∈ legs ∧ t ∈ classNodes schema row.riskClass ∧
        AnyLaid schema row then
      some ((laidCell schema row leg (some t)).getD 0)
    else none
  | .unlabelled _ => none

/-- The pivot shows what it finds, and nothing else. -/
theorem mem_back_iff [Casing] : (p, v) ∈ back schema row ↔ readAt schema row p = some v := by
  rw [back, shown_eq]
  dsimp only
  by_cases bare : classNodes schema row.riskClass = []
  · have short : ¬ (classNodes schema row.riskClass).length > 0 := by simp [bare]
    by_cases own : row.sensitivityType = .curvature
    · rw [if_pos own, if_neg short, mem_membersOf]
      cases p with
      | member k => simp [readAt, own, bare]
      | tenor leg t => simp [readAt, bare]
      | unlabelled i => simp [readAt]
    · rw [if_neg own, if_neg short]
      have spot : ∀ q, (p, v) ∈ entries (classNodes schema row.riskClass)
          (.members (ofPairs [("spot", q)])) ↔ p = .member "spot" ∧ v = q := by
        intro q
        have one : pairs (ofPairs [("spot", q)]) = [("spot", q)] := rfl
        simp [entries, one]
      cases scalar : row.slimCell (scalarRoot row.sensitivityType) none with
      | none => cases p <;> simp [readAt, own, bare, scalar]
      | some q =>
        rw [Option.map_some, Option.elim_some, spot]
        cases p <;> simp [readAt, own, bare, scalar, eq_comm]
  · have long : (classNodes schema row.riskClass).length > 0 := List.length_pos_iff.mpr bare
    by_cases own : row.sensitivityType = .curvature
    · rw [if_pos own, if_pos long]
      by_cases any : AnyLaid schema row
      · rw [if_pos any, Option.elim_some, entries, List.mem_append, mem_placed_map, mem_placed_map]
        cases p with
        | member k => simp [readAt, own, bare]
        | tenor leg t =>
          simp only [readAt, own, any, true_and, and_true, Option.ite_none_right_eq_some,
            Option.some.injEq, Place.tenor.injEq, legs, List.mem_cons, List.not_mem_nil, or_false]
          constructor
          · rintro (⟨t, node, ⟨rfl, rfl⟩, rfl⟩ | ⟨t, node, ⟨rfl, rfl⟩, rfl⟩)
            · exact ⟨⟨.inl rfl, node⟩, rfl⟩
            · exact ⟨⟨.inr rfl, node⟩, rfl⟩
          · rintro ⟨⟨rfl | rfl, node⟩, rfl⟩
            · exact .inl ⟨t, node, ⟨rfl, rfl⟩, rfl⟩
            · exact .inr ⟨t, node, ⟨rfl, rfl⟩, rfl⟩
        | unlabelled i => simp [readAt]
      · rw [if_neg any]
        cases p <;> simp [readAt, own, bare, any]
    · rw [if_neg own, if_pos long, mem_membersOf]
      cases p with
      | member k =>
        simp only [readAt, if_neg own, if_neg bare, Place.member.injEq,
          Option.ite_none_left_eq_some, Option.ite_none_right_eq_some]
        constructor
        · rintro ⟨k, node, rfl, proper, laid⟩
          exact ⟨⟨node, proper⟩, laid⟩
        · rintro ⟨⟨node, proper⟩, laid⟩
          exact ⟨k, node, rfl, proper, laid⟩
      | tenor leg t => simp [readAt, own]
      | unlabelled i => simp [readAt]

end Back

section Kept
variable {schema : Schema} {row : Row} {m : Assoc String ℚ} {leg : String} {v : ℚ}

theorem placed_read_iff [Casing] {place : String → Place} {labels : List String} {items : List ℚ} :
    (∀ e ∈ placed place labels items, readAt schema row e.1 = some e.2) ↔
      ∀ (i : ℕ) v, items[i]? = some v →
        ∃ t, labels[i]? = some t ∧ readAt schema row (place t) = some v := by
  constructor
  · intro kept i v item
    have here := kept (_, v) (mem_placed.mpr ⟨i, item, rfl⟩)
    cases label : labels[i]? with
    | none => rw [label] at here; cases here
    | some t => rw [label] at here; exact ⟨t, rfl, here⟩
  · rintro kept ⟨p, v⟩ mem
    obtain ⟨i, item, rfl⟩ := mem_placed.mp mem
    obtain ⟨t, label, here⟩ := kept i v item
    rw [label]
    exact here

theorem ne_nil_of_getElem? {items : List ℚ} :
    (∀ (i : ℕ) v, items[i]? = some v → False) ↔ items = [] := by
  constructor
  · intro none_
    cases items with
    | nil => rfl
    | cons v items => exact (none_ 0 v rfl).elim
  · rintro rfl i v item
    simp at item

/-- The padded zero at a tenor of a leg of the row's type. -/
theorem laidCell_some [Casing] (own : leg ∈ padLegs row.sensitivityType) (t : String) :
    laidCell schema row leg (some t) =
      (row.slimCell leg (some t)).or (if t ∈ padNodes schema row then some 0 else none) := by
  have pads : (leg ∈ padLegs row.sensitivityType ∧ ∃ t' ∈ padNodes schema row, some t = some t') ↔
      t ∈ padNodes schema row := by simp [own]
  rw [laidCell]
  simp only [pads]

theorem padLegs_scalar (other : row.sensitivityType ≠ .curvature) :
    scalarRoot row.sensitivityType ∈ padLegs row.sensitivityType := by
  rw [padLegs, if_neg other]
  exact List.mem_singleton_self _

theorem padLegs_curvature (own : row.sensitivityType = .curvature) (mem : leg ∈ legs) :
    leg ∈ padLegs row.sensitivityType := by
  rw [padLegs, if_pos own]
  exact mem

/-- A number without a label, where none is laid at a tenor `spot`. -/
theorem spot_read_iff [Casing] (other : row.sensitivityType ≠ .curvature)
    (scalar : row.slimCell (scalarRoot row.sensitivityType) none = some v)
    (label : row.slimCell (scalarRoot row.sensitivityType) (some "spot") = none) :
    readAt schema row (.member "spot") = some v ↔ ScalarFits schema row v := by
  rw [readAt, if_neg other, ScalarFits]
  by_cases bare : classNodes schema row.riskClass = []
  · simp [bare, scalar]
  · rw [if_neg bare, laidCell_some (padLegs_scalar other), label, Option.none_or,
      Option.ite_none_right_eq_some, Option.ite_none_right_eq_some, Option.some.injEq]
    constructor
    · rintro ⟨⟨node, _⟩, padded, rfl⟩
      exact .inr ⟨rfl, node, padded⟩
    · rintro (none_ | ⟨rfl, node, padded⟩)
      · exact absurd none_ bare
      · exact ⟨⟨node, by decide⟩, padded, rfl⟩

/-- A number with a label. -/
theorem member_read_iff [Casing] (other : row.sensitivityType ≠ .curvature)
    (scalar : row.slimCell (scalarRoot row.sensitivityType) none = none) (k : String) :
    readAt schema row (.member k) = some v ↔
      (k ∈ classNodes schema row.riskClass ∧ k ≠ "__proto__") ∧
        (row.slimCell (scalarRoot row.sensitivityType) (some k) = some v ∨
          row.slimCell (scalarRoot row.sensitivityType) (some k) = none ∧ v = 0 ∧
            k ∈ padNodes schema row) := by
  rw [readAt, if_neg other]
  by_cases bare : classNodes schema row.riskClass = []
  · simp [bare, scalar]
  · rw [if_neg bare, laidCell_some (padLegs_scalar other), Option.ite_none_right_eq_some]
    refine and_congr_right fun _ => ?_
    cases row.slimCell (scalarRoot row.sensitivityType) (some k) with
    | some w => simp
    | none => simp [eq_comm, and_comm]

/-- A number of a curvature leg at a tenor. -/
theorem tenor_read_iff [Casing] (own : row.sensitivityType = .curvature) (mem : leg ∈ legs)
    (t : String) :
    readAt schema row (.tenor leg t) = some v ↔
      t ∈ classNodes schema row.riskClass ∧
        (row.slimCell leg (some t) = some v ∨
          row.slimCell leg (some t) = none ∧ v = 0 ∧ AnyLaid schema row) := by
  rw [readAt, Option.ite_none_right_eq_some, Option.some.injEq]
  simp only [own, mem, true_and]
  rw [and_assoc]
  refine and_congr_right fun node => ?_
  rw [laidCell_some (padLegs_curvature own mem)]
  cases cell : row.slimCell leg (some t) with
  | some w =>
    have any : AnyLaid schema row := by
      refine ⟨t, node, leg, mem, ?_⟩
      rw [laidCell_some (padLegs_curvature own mem), cell]
      rfl
    simp [any]
  | none =>
    have zero : ((none : Option ℚ).or (if t ∈ padNodes schema row then some 0 else none)).getD 0 =
        0 := by
      split <;> rfl
    rw [zero]
    simp [eq_comm, and_comm]

end Kept

section Shapes
variable {schema : Schema} {row : Row}

/-- Of each item of an array that is read under its labels. -/
theorem items_read_iff [Casing] {place : String → Place} {read supplied : String → Prop}
    {laid : List (String × ℚ)} {labels : List String} {items : List ℚ}
    (at_label : ∀ t v, readAt schema row (place t) = some v ↔ read t ∧
      ((ofPairs laid).lookup t = some v ∨ (ofPairs laid).lookup t = none ∧ v = 0 ∧ supplied t)) :
    (∀ e ∈ placed place labels items, readAt schema row e.1 = some e.2) ↔
      ItemsFit read supplied laid labels items := by
  rw [placed_read_iff, ItemsFit]
  simp only [at_label]

theorem unread_items_iff [Casing] {place : String → Place} {labels : List String} {items : List ℚ}
    (unread : ∀ t, readAt schema row (place t) = none) :
    (∀ e ∈ placed place labels items, readAt schema row e.1 = some e.2) ↔ items = [] := by
  rw [placed_read_iff, ← ne_nil_of_getElem?]
  simp [unread]

/-- The members of an object. -/
theorem members_read_iff [Casing] {m : Assoc String ℚ} :
    (∀ e ∈ (pairs m).map fun p => (Place.member p.1, p.2), readAt schema row e.1 = some e.2) ↔
      ∀ k v, m.lookup k = some v → readAt schema row (.member k) = some v := by
  rw [List.forall_mem_map]
  constructor
  · intro kept k v here
    exact kept (k, v) ((mem_pairs m k v).mpr here)
  · rintro kept ⟨k, v⟩ mem
    exact kept k v ((mem_pairs m k v).mp mem)

theorem pairs_of_spotMember {m : Assoc String ℚ} {v : ℚ} (spot : spotMember m = some v) :
    pairs m = [("spot", v)] := by
  unfold spotMember at spot
  split at spot
  · rename_i w one
    rw [one, Option.some.inj spot]
  · cases spot

/-- A row of Delta or Vega. -/
theorem kept_scalar_iff [Casing] (other : row.sensitivityType ≠ .curvature) :
    (∀ e ∈ carried schema row, readAt schema row e.1 = some e.2) ↔ ShapeFits schema row := by
  have cell : ∀ label, row.slimCell (scalarRoot row.sensitivityType) label =
      row.slimCell (scalarRoot row.sensitivityType) label := fun _ => rfl
  conv at cell => intro label; rhs; rw [Row.slimCell, Row.cell, if_neg other, if_pos rfl]
  unfold carried ShapeFits
  dsimp only
  rw [if_neg other]
  cases shape : row.riskValue with
  | number v =>
    simp only [shape] at cell
    dsimp only
    rw [← spot_read_iff other (cell none) (cell (some "spot"))]
    simp [entries]
  | members m =>
    simp only [shape] at cell
    dsimp only [entries]
    cases spot : spotMember m with
    | some v =>
      simp only [spot] at cell
      dsimp only
      rw [← spot_read_iff other (cell none) (cell (some "spot")), pairs_of_spotMember spot]
      simp
    | none =>
      simp only [spot] at cell
      dsimp only
      rw [members_read_iff]
      simp only [member_read_iff other (cell none), cell]
      constructor
      · intro kept k mem
        obtain ⟨v, here⟩ := Option.isSome_iff_exists.mp (AList.lookup_isSome.mpr mem)
        exact (kept k v here).1
      · intro fits k v here
        exact ⟨fits k (AList.lookup_isSome.mp (by rw [here]; rfl)), .inl here⟩
  | array items =>
    simp only [shape] at cell
    refine items_read_iff fun t v => ?_
    rw [member_read_iff other (cell none), cell (some t)]
    rfl
  | curvatureArrays up down =>
    have unread : ∀ leg t, readAt schema row (.tenor leg t) = none :=
      fun leg t => if_neg fun h => other h.1
    simp only [entries, List.forall_mem_append, unread_items_iff (unread _)]

/-- A row of curvature. -/
theorem kept_curvature_iff [Casing] (own : row.sensitivityType = .curvature) :
    (∀ e ∈ carried schema row, readAt schema row e.1 = some e.2) ↔ ShapeFits schema row := by
  have cell : ∀ leg label, row.slimCell leg label = row.slimCell leg label := fun _ _ => rfl
  conv at cell => intro leg label; rhs; rw [Row.slimCell, Row.cell, if_pos own]
  unfold carried ShapeFits
  dsimp only
  rw [if_pos own]
  cases shape : row.riskValue with
  | number v =>
    have spot : ¬ (classNodes schema row.riskClass = [] ∧ "spot" ∈ legs) :=
      fun h => absurd h.2 (by decide)
    simp [entries, readAt, own, spot]
  | members m =>
    simp only [shape] at cell
    dsimp only [entries]
    rw [members_read_iff]
    have read : ∀ k v, readAt schema row (.member k) = some v ↔
        (classNodes schema row.riskClass = [] ∧ k ∈ legs) ∧
          (RollupContribution.bothOf (m.lookup "cvr_up") (m.lookup "cvr_down")).bind (sideOf k) =
            some v := by
      intro k v
      rw [readAt, if_pos own, Option.ite_none_right_eq_some, cell, if_pos rfl]
    simp only [read]
    constructor
    · intro kept
      refine or_iff_not_imp_left.mpr fun some_ => ?_
      obtain ⟨k, mem⟩ := List.exists_mem_of_ne_nil _ some_
      obtain ⟨v, here⟩ := Option.isSome_iff_exists.mp
        (AList.lookup_isSome.mpr (AList.mem_keys.mpr mem))
      obtain ⟨⟨bare, _⟩, both⟩ := kept k v here
      refine ⟨bare, fun k' => ⟨fun there => ?_, fun leg => ?_⟩⟩
      · obtain ⟨v', here'⟩ := Option.isSome_iff_exists.mp (AList.lookup_isSome.mpr there)
        exact (kept k' v' here').1.2
      · rw [← AList.lookup_isSome]
        cases up : m.lookup "cvr_up" with
        | none => rw [up] at both; cases both
        | some u =>
          cases down : m.lookup "cvr_down" with
          | none => rw [up, down] at both; cases both
          | some d =>
            rcases List.mem_pair.mp leg with rfl | rfl
            · rw [up]; rfl
            · rw [down]; rfl
    · rintro (none_ | ⟨bare, keys⟩) k v here
      · have there : (m.lookup k).isSome := by rw [here]; rfl
        have mem := AList.mem_keys.mp (AList.lookup_isSome.mp there)
        rw [none_] at mem
        cases mem
      · have leg := (keys k).mp (AList.lookup_isSome.mp (by rw [here]; rfl))
        obtain ⟨u, up⟩ := Option.isSome_iff_exists.mp
          (AList.lookup_isSome.mpr ((keys "cvr_up").mpr (by decide)))
        obtain ⟨d, down⟩ := Option.isSome_iff_exists.mp
          (AList.lookup_isSome.mpr ((keys "cvr_down").mpr (by decide)))
        refine ⟨⟨bare, leg⟩, ?_⟩
        rw [up, down]
        rcases List.mem_pair.mp leg with rfl | rfl
        · rw [← here, up]; rfl
        · rw [← here, down]; rfl
  | array items =>
    simp only [shape] at cell
    refine unread_items_iff fun t => ?_
    simp [readAt, own, cell]
  | curvatureArrays up down =>
    simp only [shape] at cell
    dsimp only [entries]
    have sides : ∀ t, row.slimCell "cvr_up" (some t) = (ofPairs (((row.listed.getD []).zip
          (up.zip down)).map fun r => (r.1, r.2.1))).lookup t ∧
        row.slimCell "cvr_down" (some t) = (ofPairs (((row.listed.getD []).zip
          (up.zip down)).map fun r => (r.1, r.2.2))).lookup t := by
      intro t
      rw [cell, cell, Option.bind_some, lookup_ofPairs_map _ Prod.fst,
        lookup_ofPairs_map _ Prod.snd]
      cases (ofPairs ((row.listed.getD []).zip (up.zip down))).lookup t <;> exact ⟨rfl, rfl⟩
    have there : ∀ t, ∀ leg ∈ legs, (laidCell schema row leg (some t)).isSome = true ↔
        t ∈ padNodes schema row ∨ t ∈ ((row.listed.getD []).zip (up.zip down)).map Prod.fst := by
      intro t leg mem
      rw [laidCell_some (padLegs_curvature own mem), ← lookup_ofPairs_isSome, cell,
        Option.bind_some]
      cases (ofPairs ((row.listed.getD []).zip (up.zip down))).lookup t with
      | none => simp
      | some v => rcases List.mem_pair.mp mem with rfl | rfl <;> simp [sideOf]
    have any : AnyLaid schema row ↔ ∃ t ∈ classNodes schema row.riskClass,
        t ∈ padNodes schema row ∨ t ∈ ((row.listed.getD []).zip (up.zip down)).map Prod.fst := by
      refine exists_congr fun t => and_congr_right fun _ => ⟨?_, fun laid => ?_⟩
      · rintro ⟨leg, mem, laid⟩
        exact (there t leg mem).mp laid
      · exact ⟨"cvr_up", by decide, (there t _ (by decide)).mpr laid⟩
    rw [List.forall_mem_append]
    refine and_congr (items_read_iff fun t v => ?_) (items_read_iff fun t v => ?_)
    · rw [tenor_read_iff own (by decide), (sides t).1, any]
    · rw [tenor_read_iff own (by decide), (sides t).2, any]

end Shapes

section Own
variable {schema : Schema} {row : Row} {p : Place} {leg : String} {label : Option String} {v : ℚ}

/-- Where the row itself has the number of a leg and label. -/
def placeOf (row : Row) (leg : String) : Option String → Place
  | none => .member (if row.sensitivityType = .curvature then leg else "spot")
  | some t => if row.sensitivityType = .curvature then .tenor leg t else .member t

theorem mem_placed_of_zip {place : String → Place} {labels : List String} {items : List ℚ}
    {t : String} (mem : (t, v) ∈ labels.zip items) : (place t, v) ∈ placed place labels items := by
  obtain ⟨i, at_i⟩ := List.getElem?_of_mem mem
  obtain ⟨label, item⟩ := List.getElem?_zip_eq_some.mp at_i
  exact mem_placed.mpr ⟨i, item, by rw [label]; rfl⟩

theorem leg_of_sideOf {w : ℚ × ℚ} (side : sideOf leg w = some v) : leg ∈ legs := by
  unfold sideOf at side
  split at side
  · rename_i up
    exact up ▸ by decide
  · split at side
    · rename_i down
      exact down ▸ by decide
    · cases side

/-- What the writer reads of a row is a number of the row. -/
theorem carried_of_cell (cell : row.slimCell leg label = some v) :
    (placeOf row leg label, v) ∈ carried schema row := by
  have listed : ∀ {β : Type} {items : List β} {r : String × β},
      r ∈ (row.listed.getD []).zip items →
        r ∈ (row.listed.getD (classNodes schema row.riskClass)).zip items := by
    intro β items r mem
    cases own : row.listed with
    | none => rw [own] at mem; cases mem
    | some ls => rw [own] at mem; exact mem
  unfold carried
  rw [Row.slimCell, Row.cell] at cell
  by_cases own : row.sensitivityType = .curvature
  · rw [if_pos own] at cell
    cases shape : row.riskValue with
    | number v => rw [shape] at cell; cases cell
    | array items => rw [shape] at cell; cases cell
    | members m =>
      rw [shape] at cell
      obtain ⟨rfl, both⟩ := Option.ite_none_right_eq_some.mp cell
      obtain ⟨w, _, side⟩ := Option.bind_eq_some_iff.mp both
      have known := leg_of_sideOf side
      rw [placeOf, if_pos own]
      refine List.mem_map.mpr ⟨(leg, v), (mem_pairs m leg v).mpr ?_, rfl⟩
      cases up : m.lookup "cvr_up" with
      | none => rw [up] at both; cases both
      | some u =>
        cases down : m.lookup "cvr_down" with
        | none => rw [up, down] at both; cases both
        | some d =>
          rw [up, down] at both
          rcases List.mem_pair.mp known with rfl | rfl <;> cases both
          · exact up
          · exact down
    | curvatureArrays up down =>
      rw [shape] at cell
      obtain ⟨w, found, side⟩ := Option.bind_eq_some_iff.mp cell
      obtain ⟨t, rfl, here⟩ := Option.bind_eq_some_iff.mp found
      obtain ⟨i, at_i⟩ := List.getElem?_of_mem (listed (mem_of_lookup_ofPairs here))
      obtain ⟨at_label, at_both⟩ := List.getElem?_zip_eq_some.mp at_i
      obtain ⟨at_up, at_down⟩ := List.getElem?_zip_eq_some.mp at_both
      rw [placeOf, if_pos own]
      rcases List.mem_pair.mp (leg_of_sideOf side) with rfl | rfl <;> cases side
      · exact List.mem_append_left _ (mem_placed.mpr ⟨i, at_up, by rw [at_label]; rfl⟩)
      · exact List.mem_append_right _ (mem_placed.mpr ⟨i, at_down, by rw [at_label]; rfl⟩)
  · rw [if_neg own, Option.ite_none_right_eq_some] at cell
    obtain ⟨rfl, cell⟩ := cell
    cases shape : row.riskValue with
    | number w =>
      rw [shape] at cell
      obtain ⟨rfl, value⟩ := Option.ite_none_right_eq_some.mp cell
      cases value
      simp [placeOf, own, entries]
    | members m =>
      rw [shape] at cell
      dsimp only at cell
      cases spot : spotMember m with
      | some w =>
        rw [spot] at cell
        obtain ⟨rfl, value⟩ := Option.ite_none_right_eq_some.mp cell
        cases value
        simp [placeOf, own, entries, pairs_of_spotMember spot]
      | none =>
        rw [spot] at cell
        obtain ⟨t, rfl, here⟩ := Option.bind_eq_some_iff.mp cell
        simpa [placeOf, own, entries, mem_pairs] using here
    | array items =>
      rw [shape] at cell
      obtain ⟨t, rfl, here⟩ := Option.bind_eq_some_iff.mp cell
      rw [placeOf, if_neg own]
      exact mem_placed_of_zip (listed (mem_of_lookup_ofPairs here))
    | curvatureArrays up down => rw [shape] at cell; cases cell

/-- What is found is a number of the row, or a zero at a node. -/
theorem read_carried [Casing] (read : readAt schema row p = some v) :
    (p, v) ∈ carried schema row ∨ v = 0 ∧ AtNode schema row p := by
  have laid : ∀ leg t, laidCell schema row leg (some t) = some v →
      (placeOf row leg (some t), v) ∈ carried schema row ∨ v = 0 := by
    intro leg t cell
    rw [laidCell] at cell
    cases own : row.slimCell leg (some t) with
    | some w =>
      rw [own] at cell
      cases cell
      exact .inl (carried_of_cell own)
    | none =>
      rw [own, Option.none_or] at cell
      exact .inr (Option.some.inj (Option.ite_none_right_eq_some.mp cell).2).symm
  cases p with
  | member k =>
    by_cases own : row.sensitivityType = .curvature
    · rw [readAt, if_pos own] at read
      obtain ⟨_, cell⟩ := Option.ite_none_right_eq_some.mp read
      have mem : _ ∈ carried schema row := carried_of_cell cell
      rw [placeOf, if_pos own] at mem
      exact .inl mem
    · rw [readAt, if_neg own] at read
      split at read
      · obtain ⟨rfl, cell⟩ := Option.ite_none_right_eq_some.mp read
        have mem : _ ∈ carried schema row := carried_of_cell cell
        rw [placeOf, if_neg own] at mem
        exact .inl mem
      · obtain ⟨⟨node, _⟩, cell⟩ := Option.ite_none_right_eq_some.mp read
        refine (laid _ k cell).imp (fun mem => ?_)
          fun zero => ⟨zero, k, node, .inl rfl⟩
        rwa [placeOf, if_neg own] at mem
  | tenor leg t =>
    obtain ⟨⟨own, mem, node, _⟩, value⟩ := Option.ite_none_right_eq_some.mp read
    cases cell : laidCell schema row leg (some t) with
    | none =>
      rw [cell] at value
      exact .inr ⟨(Option.some.inj value).symm, t, node, .inr ⟨leg, mem, rfl⟩⟩
    | some w =>
      rw [cell] at value
      cases value
      refine (laid _ t cell).imp (fun there => ?_)
        fun zero => ⟨zero, t, node, .inr ⟨leg, mem, rfl⟩⟩
      rwa [placeOf, if_pos own] at there
  | unlabelled i => cases read

/-- A value that comes back whole comes back with nothing but zeros added. -/
theorem own_of_kept [Casing] (kept : ∀ e ∈ carried schema row, readAt schema row e.1 = some e.2) :
    ∀ e ∈ back schema row, e ∈ carried schema row ∨
      e.2 = 0 ∧ AtNode schema row e.1 ∧ ∀ v, (e.1, v) ∉ carried schema row := by
  rintro ⟨p, v⟩ mem
  have read := mem_back_iff.mp mem
  rcases read_carried read with own | ⟨zero, node⟩
  · exact .inl own
  · refine or_iff_not_imp_left.mpr fun absent => ⟨zero, node, fun w there => absent ?_⟩
    have same := kept (p, w) there
    rw [read] at same
    cases same
    exact there

theorem shown_ne_none_iff [Casing] :
    shown schema row ≠ none ↔ ∃ p v, readAt schema row p = some v := by
  constructor
  · intro some_
    suffices filled : ∃ e, e ∈ back schema row by
      obtain ⟨⟨p, v⟩, mem⟩ := filled
      exact ⟨p, v, mem_back_iff.mp mem⟩
    rw [shown_eq] at some_
    rw [back, shown_eq]
    dsimp only at some_ ⊢
    by_cases own : row.sensitivityType = .curvature
    · rw [if_pos own] at some_ ⊢
      by_cases long : (classNodes schema row.riskClass).length > 0
      · rw [if_pos long] at some_ ⊢
        by_cases any : AnyLaid schema row
        · rw [if_pos any]
          obtain ⟨t, node, _⟩ := any
          exact ⟨_, List.mem_append_left _ (mem_placed_map.mpr ⟨t, node, rfl, rfl⟩)⟩
        · rw [if_neg any] at some_
          exact absurd rfl some_
      · rw [if_neg long] at some_ ⊢
        exact exists_mem_membersOf some_
    · rw [if_neg own] at some_ ⊢
      by_cases long : (classNodes schema row.riskClass).length > 0
      · rw [if_pos long] at some_ ⊢
        exact exists_mem_membersOf some_
      · rw [if_neg long] at some_ ⊢
        cases cell : row.slimCell (scalarRoot row.sensitivityType) none with
        | none => rw [cell] at some_; exact absurd rfl some_
        | some q => exact ⟨(.member "spot", q), List.mem_singleton_self _⟩
  · rintro ⟨p, v, read⟩ none_
    have mem := mem_back_iff.mpr read
    rw [back, none_] at mem
    cases mem

/-- What is stored of a row whose value comes back is shown, when the pads are read. -/
theorem defined_iff [Casing] (kept : ∀ e ∈ carried schema row, readAt schema row e.1 = some e.2) :
    (∀ root ∈ wsLegs, ∀ label, ((slimHash schema row).lookup
      (slimField (lowerCase row.riskClass) root label)).isSome → shown schema row ≠ none) ↔
      PadsRead schema row := by
  have stored : ∀ root ∈ wsLegs, ∀ label, ((slimHash schema row).lookup
      (slimField (lowerCase row.riskClass) root label)).isSome =
        (laidCell schema row root label).isSome := by
    intro root known label
    rw [lookup_slimHash known, Option.isSome_map]
  have padded : carried schema row = [] → ∀ root label,
      (laidCell schema row root label).isSome ↔ root ∈ padLegs row.sensitivityType ∧
        ∃ t ∈ padNodes schema row, label = some t := by
    intro empty root label
    rw [laidCell]
    cases cell : row.slimCell root label with
    | none =>
      rw [Option.none_or]
      split <;> simp_all
    | some v =>
      have mem : _ ∈ carried schema row := carried_of_cell cell
      rw [empty] at mem
      cases mem
  have noCell : carried schema row = [] → ∀ root, row.slimCell root none = none := by
    intro empty root
    have cell : laidCell schema row root none = row.slimCell root none := laidCell_none root
    rw [← cell, ← Option.not_isSome_iff_eq_none, padded empty]
    simp
  constructor
  · intro defined empty pads
    obtain ⟨t, pad⟩ := List.exists_mem_of_ne_nil _ pads
    obtain ⟨root, own⟩ : ∃ root, root ∈ padLegs row.sensitivityType := by
      cases row.sensitivityType <;> exact ⟨_, List.mem_cons_self⟩
    have known := FieldNames.known_of_padLegs own
    obtain ⟨p, v, read⟩ := shown_ne_none_iff.mp (defined root known (some t)
      (by rw [stored root known, padded empty]; exact ⟨own, t, pad, rfl⟩))
    cases p with
    | member k =>
      rw [readAt, noCell empty, noCell empty, ite_self, ite_self] at read
      split at read
      · cases read
      · rename_i other
        obtain ⟨node, cell⟩ := Option.ite_none_right_eq_some.mp
          ((Option.ite_none_left_eq_some.mp read).2)
        obtain ⟨_, t, pad, same⟩ := (padded empty _ _).mp (by rw [cell]; rfl)
        cases same
        exact ⟨k, pad, node.1, fun _ => node.2⟩
    | tenor leg t =>
      obtain ⟨⟨own, _, _, t, node, leg, _, laid⟩, _⟩ := Option.ite_none_right_eq_some.mp read
      obtain ⟨_, t, pad, same⟩ := (padded empty _ _).mp laid
      cases same
      exact ⟨_, pad, node, fun other => absurd own other⟩
    | unlabelled i => cases read
  · intro padsRead root known label there
    rw [shown_ne_none_iff]
    by_cases empty : carried schema row = []
    · rw [stored root known, padded empty] at there
      obtain ⟨_, pad, among, _⟩ := there
      obtain ⟨t, pad, node, proper⟩ := padsRead empty (List.ne_nil_of_mem among)
      have laid : ∀ leg ∈ padLegs row.sensitivityType,
          (laidCell schema row leg (some t)).isSome = true :=
        fun leg own => (padded empty _ _).mpr ⟨own, t, pad, rfl⟩
      by_cases own : row.sensitivityType = .curvature
      · exact ⟨.tenor "cvr_up" t, _, if_pos ⟨own, by decide, node, t, node, "cvr_up", by decide,
          laid _ (padLegs_curvature own (by decide))⟩⟩
      · obtain ⟨v, cell⟩ := Option.isSome_iff_exists.mp (laid _ (padLegs_scalar own))
        refine ⟨.member t, v, ?_⟩
        rw [readAt, if_neg own, if_neg (List.ne_nil_of_mem node), if_pos ⟨node, proper own⟩, cell]
    · obtain ⟨⟨p, v⟩, mem⟩ := List.exists_mem_of_ne_nil _ empty
      exact ⟨p, v, kept _ mem⟩

end Own

section Reconstruction

theorem kept_iff [Casing] {schema : Schema} {row : Row} :
    (∀ e ∈ carried schema row, e ∈ back schema row) ↔ ShapeFits schema row := by
  have read : (∀ e ∈ carried schema row, e ∈ back schema row) ↔
      ∀ e ∈ carried schema row, readAt schema row e.1 = some e.2 :=
    forall_congr' fun _ => imp_congr_right fun _ => mem_back_iff
  rw [read]
  by_cases own : row.sensitivityType = .curvature
  · exact kept_curvature_iff own
  · exact kept_scalar_iff own

/-- A row comes back from its HASH exactly when its shape is the one that the pivot expects of the
class, and its labels are tenor nodes. -/
theorem reconstruction_inverts_iff [Casing] (schema : Schema) (row : Row) :
    Inverts schema row ↔ ShapeFits schema row ∧ PadsRead schema row := by
  constructor
  · intro inverts
    have fits := kept_iff.mp inverts.kept
    exact ⟨fits, (defined_iff fun e mem => mem_back_iff.mp (inverts.kept e mem)).mp inverts.defined⟩
  · rintro ⟨fits, padsRead⟩
    have kept := kept_iff.mpr fits
    have read : ∀ e ∈ carried schema row, readAt schema row e.1 = some e.2 :=
      fun e mem => mem_back_iff.mp (kept e mem)
    exact ⟨kept, own_of_kept read, (defined_iff read).mpr padsRead⟩

/-- A class with tenor nodes that the loader takes for a scalar one, and a per-tenor class. -/
def creditAndRates : Schema where
  riskClasses := ofPairs [("CSR_NON_SEC", ⟨some ["0.5Y", "1Y", "3Y", "5Y", "10Y"], "csr"⟩),
    ("GIRR", ⟨some ["1Y"], "girr"⟩)]
  riskWeights := ∅

def spotRow (riskClass : String) : Row :=
  FieldNames.plainRow riskClass (.members (ofPairs [("spot", 5)]))

/-- A spot of a class with nodes is stored under the scalar field, which the pivot does not read. It
shows nothing; and a zero at the node of a padded class. -/
theorem spots_lost :
    (slimHash creditAndRates (spotRow "CSR_NON_SEC")).lookup "s_csr_non_sec_delta" =
        some (.shown (.num 5)) ∧
      shown creditAndRates (spotRow "CSR_NON_SEC") = none ∧
      ¬ Inverts creditAndRates (spotRow "CSR_NON_SEC") ∧
      back creditAndRates (spotRow "GIRR") = [(.member "1Y", 0)] ∧
      ¬ Inverts creditAndRates (spotRow "GIRR") := by
  have gone : shown creditAndRates (spotRow "CSR_NON_SEC") = none :=
    Option.isNone_iff_eq_none.mp (by decide +kernel)
  have zero : back creditAndRates (spotRow "GIRR") = [(.member "1Y", 0)] := by decide +kernel
  have spot : ∀ rc, (Place.member "spot", 5) ∈ carried creditAndRates (spotRow rc) :=
    fun _ => List.mem_singleton_self _
  refine ⟨rfl, gone, fun inverts => ?_, zero, fun inverts => ?_⟩
  · have mem := inverts.kept _ (spot _)
    rw [back, gone] at mem
    cases mem
  · have mem := inverts.kept _ (spot _)
    rw [zero] at mem
    exact absurd mem (by decide)

end Reconstruction

end PivotReconstruction
