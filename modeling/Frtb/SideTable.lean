import Frtb.StorageWriter

/-!
# The side table of a row

The raw value of a row is kept in a HASH of its own, which every ingest of the row only
adds to or overwrites. A field names the shape for every shape but the per-tenor object;
the reader goes by the fields that are there, the ones of earlier versions included.
-/

namespace SideTable

open AssocMaps JsonText EnrichDoc RedisStore StorageWriter

section Texts

/-- `Number(v)`, when it is finite. -/
def numberOf : Json → Option ℚ
  | .null => some 0
  | .bool b => some (if b then 1 else 0)
  | .num q => some q
  | v => NumberText.toNumber (jsText v)

/-- `Number(text)`, when it is finite. The text of an array starts with a bracket. -/
def storedNumber : Stored → Option ℚ
  | .shown (.num q) | .stringified (.num q) => some q
  | .shown (.str s) => NumberText.toNumber s
  | _ => none

/-- `JSON.parse(text)`. -/
def storedJson : Stored → Option Json
  | .stringified v => some v
  | .shown (.str s) => JsonText.parse s
  | .shown (.arr _) | .shown (.obj _) => none
  | .shown v => some v

end Texts

section Reader

/-- An object with a member for each name that has a value, none without members. -/
def objectOf (names : List String) (value : String → Option Json) : Option Json :=
  let members := names.filterMap fun k => (value k).map fun v => (k, v)
  if members = [] then none else some (.obj members)

def legs : List String := ["cvr_up", "cvr_down"]

/-- The numbers of an array, those that are none left out. -/
def numbersOf (st : Stored) : Option Json :=
  match storedJson st with
  | some (.arr items) => some (.arr ((items.filterMap numberOf).map .num))
  | _ => none

/-- A field that is no tenor label. -/
def isReserved (k : String) : Bool := k = "__shape__" || k = "__tenor_order__"

def tenorOrder (entries : Assoc String Stored) : Option (List String) :=
  match (entries.lookup "__tenor_order__").bind storedJson with
  | some (.arr items) => some (items.map jsText)
  | _ => none

/-- The value of a shape from the fields that are not reserved; a member named `__proto__` cannot be
assigned. -/
def readShape (shape : Option String) (field : String → Option Stored) (orderedKeys : List String) :
    Option Json :=
  if shape = some "curvature_per_tenor" then objectOf legs fun k => (field k).bind numbersOf
  else if shape = some "curvature_scalar" then
    objectOf legs fun k => ((field k).bind storedNumber).map .num
  else if shape = some "scalar" then
    ((field "spot").bind storedNumber).map fun n => .obj [("spot", .num n)]
  else if shape = some "bare_scalar" then ((field "value").bind storedNumber).map .num
  else
    objectOf orderedKeys fun k =>
      if k = "__proto__" then none else ((field k).bind storedNumber).map .num

/-- What the entries of the HASH read as. -/
def parseSideTableRiskValue (reply : List (String × Stored)) : Option Json :=
  let shape := ((ofPairs reply).lookup "__shape__").map Stored.toText
  let map := ofPairs (reply.filter fun p => !isReserved p.1)
  if map.keys = [] then none
  else readShape shape map.lookup
    (match tenorOrder (ofPairs reply) with
      | some order => order.filter fun k => (map.lookup k).isSome
      | none => map.keys)

end Reader

section Ingests

/-- The Redis after rows of one key have been ingested one after another. -/
def ingests (key : String) (docs : List Props) (s : Redis) : Redis :=
  exec s (docs.flatMap fun doc => writeDocForStorage key doc .hashSidetable)

/-- The fields that a row puts into the side table. -/
def written (h : Hash) (doc : Props) : Hash := assign h ((sideTableArgsFor doc).getD [])

theorem sideTableKeyFor_ne (key : String) : key ≠ sideTableKeyFor key := by
  intro same
  have lengths := congrArg String.length same
  simp only [sideTableKeyFor, String.length_append] at lengths
  have brace : "\x7b".length = 1 := by decide
  omega

theorem hashes_ingests (key : String) (docs : List Props) (s : Redis) :
    (ingests key docs s).hashes (sideTableKeyFor key) =
      docs.foldl written (s.hashes (sideTableKeyFor key)) := by
  induction docs generalizing s with
  | nil => rfl
  | cons doc docs ih =>
    have split : ingests key (doc :: docs) s =
        ingests key docs (exec s (writeDocForStorage key doc .hashSidetable)) := by
      rw [ingests, List.flatMap_cons, exec_append]
      rfl
    rw [split, ih, List.foldl_cons]
    congr 1
    have parent : ∀ fields, (exec s (hsetUnlessEmpty key fields)).hashes (sideTableKeyFor key) =
        s.hashes (sideTableKeyFor key) := by
      intro fields
      cases fields with
      | nil => rfl
      | cons p fields => exact if_neg (Ne.symm (sideTableKeyFor_ne key))
    rw [writeDocForStorage, exec_append, written]
    cases sideTableArgsFor doc with
    | none => exact parent _
    | some side =>
      simp only [Option.map_some, Option.toList_some, exec_cons, exec_nil, apply, if_true,
        Option.getD_some, parent]

end Ingests

section Property

/-- The same value: an object's members may stand in any order. -/
def Same (out v : Json) : Prop :=
  match out, v with
  | .obj ms, .obj ns => ∀ k, (ofPairs ms).lookup k = (ofPairs ns).lookup k
  | out, v => out = v

/-- A leg of a value with arrays: an array of numbers, or absent where no earlier array is left. -/
def ArrayLegFits (h : Hash) (rv : Props) (leg : String) : Prop :=
  match rv.lookup leg with
  | some (.arr items) => ∀ item ∈ items, ∃ q, item = .num q
  | some _ => False
  | none => ∀ st items, h.lookup leg = some st → storedJson st ≠ some (.arr items)

/-- A leg of a value with numbers: a number, or absent where no earlier number is left. -/
def NumberLegFits (h : Hash) (rv : Props) (leg : String) : Prop :=
  match rv.lookup leg with
  | some (.num _) => True
  | some _ => False
  | none => ∀ st, h.lookup leg = some st → storedNumber st = none

def knownShapes : List String :=
  ["curvature_per_tenor", "curvature_scalar", "scalar", "bare_scalar"]

/-- A per-tenor value: numbers under names that are none of the reader's own, with no shape left
of an earlier version and no number under another label. -/
structure TenorsFit (h : Hash) (rv : Props) : Prop where
  numbers : ∀ k v, rv.lookup k = some v → ∃ q, v = .num q
  labels : ∀ k, k ∈ rv → isReserved k = false ∧ k ≠ "__proto__"
  shapeless : ∀ st, h.lookup "__shape__" = some st → st.toText ∉ knownShapes
  fresh : ∀ k st, h.lookup k = some st → k ∉ rv → isReserved k = false → k ≠ "__proto__" →
    storedNumber st = none

def hasArray (rv : Props) : Bool :=
  legs.any fun leg =>
    match rv.lookup leg with
    | some (.arr _) => true
    | _ => false

/-- What reads back from the HASH it finds. -/
def Fits (h : Hash) : Json → Prop
  | .obj members =>
    let rv := ofPairs members
    if (spotOf rv).isSome then True
    else if ∀ k ∈ rv.keys, k = "cvr_up" ∨ k = "cvr_down" then
      if hasArray rv then ∀ leg ∈ legs, ArrayLegFits h rv leg
      else ∀ leg ∈ legs, NumberLegFits h rv leg
    else TenorsFit h rv
  | _ => True

end Property

section Lookups
variable {reply : List (String × Stored)} {h : Hash}

theorem lookup_ofPairs_iff {α β : Type*} [DecidableEq α] {ps : List (α × β)}
    (nodup : (ps.map Prod.fst).Nodup) (a : α) (b : β) :
    (ofPairs ps).lookup a = some b ↔ (a, b) ∈ ps :=
  ⟨mem_of_lookup_ofPairs, lookup_assign_of_mem ∅ nodup⟩

theorem nodup_reply (perm : reply.Perm (pairs h)) : (reply.map Prod.fst).Nodup := by
  rw [(perm.map Prod.fst).nodup_iff, map_fst_pairs]
  exact h.keys_nodup

/-- The order of a reply is no matter. -/
theorem lookup_reply (perm : reply.Perm (pairs h)) (k : String) :
    (ofPairs reply).lookup k = h.lookup k := by
  refine Option.ext fun st => ?_
  rw [lookup_ofPairs_iff (nodup_reply perm), perm.mem_iff, mem_pairs]

theorem lookup_unreserved (perm : reply.Perm (pairs h)) (k : String) :
    (ofPairs (reply.filter fun p => !isReserved p.1)).lookup k =
      if isReserved k then none else h.lookup k := by
  refine Option.ext fun st => ?_
  have nodup : ((reply.filter fun p => !isReserved p.1).map Prod.fst).Nodup :=
    (nodup_reply perm).sublist (List.filter_sublist.map Prod.fst)
  rw [lookup_ofPairs_iff nodup, List.mem_filter, perm.mem_iff, mem_pairs]
  cases isReserved k <;> simp

/-- What is written under distinct names, over what was there. -/
theorem lookup_assign_filterMap {α β : Type*} [DecidableEq α] (m : Assoc α β) {names : List α}
    (nodup : names.Nodup) (value : α → Option β) (a : α) :
    (assign m (names.filterMap fun k => (value k).map fun v => (k, v))).lookup a =
      (if a ∈ names then value a else none).or (m.lookup a) := by
  have fst : (names.filterMap fun k => (value k).map fun v => (k, v)).map Prod.fst =
      names.filter fun k => (value k).isSome := by
    induction names with
    | nil => rfl
    | cons k names ih =>
      rw [List.filterMap_cons, List.filter_cons]
      cases value k with
      | none => exact ih (List.nodup_cons.mp nodup).2
      | some v =>
        simp only [Option.map_some, List.map_cons, Option.isSome_some, if_true]
        rw [ih (List.nodup_cons.mp nodup).2]
  by_cases listed : a ∈ names
  · cases given : value a with
    | some b =>
      rw [if_pos listed, Option.some_or]
      refine lookup_assign_of_mem m ?_ (List.mem_filterMap.mpr ⟨a, listed, by rw [given]; rfl⟩)
      rw [fst]
      exact nodup.filter _
    | none =>
      rw [if_pos listed, Option.none_or]
      refine lookup_assign_of_notMem m _ ?_
      rw [fst]
      simp [given]
  · rw [if_neg listed, Option.none_or]
    refine lookup_assign_of_notMem m _ ?_
    rw [fst]
    exact fun mem => listed (List.mem_filter.mp mem).1

/-- An object reads back exactly when each name has its value and no other one has any. -/
theorem object_same_iff {names : List String} (nodup : names.Nodup) (value : String → Option Json)
    (members : List (String × Json)) :
    (∃ out, objectOf names value = some out ∧ Same out (.obj members)) ↔
      (ofPairs members).keys ≠ [] ∧
        ∀ k, (if k ∈ names then value k else none) = (ofPairs members).lookup k := by
  have lookups : ∀ k, (ofPairs (names.filterMap fun k => (value k).map fun v => (k, v))).lookup k =
      if k ∈ names then value k else none := by
    intro k
    rw [ofPairs, lookup_assign_filterMap ∅ nodup, AList.lookup_empty, Option.or_none]
  unfold objectOf
  dsimp only
  by_cases empty : (names.filterMap fun k => (value k).map fun v => (k, v)) = []
  · rw [if_pos empty]
    simp only [reduceCtorEq, false_and, exists_false, false_iff, not_and, not_forall]
    intro some_
    obtain ⟨k, mem⟩ := List.exists_mem_of_ne_nil _ some_
    refine ⟨k, fun same => ?_⟩
    have there := AList.lookup_isSome.mpr (AList.mem_keys.mpr mem)
    rw [← same, ← lookups, empty] at there
    cases there
  · rw [if_neg empty]
    simp only [Option.some.injEq, exists_eq_left', Same, lookups]
    refine (and_iff_right_of_imp fun same none_ => ?_).symm
    obtain ⟨⟨k, v⟩, mem⟩ := List.exists_mem_of_ne_nil _ empty
    have there := (lookup_ofPairs_isSome _ k).mpr (List.mem_map.mpr ⟨(k, v), mem, rfl⟩)
    rw [lookups, same, AList.lookup_isSome, AList.mem_keys, none_] at there
    cases there

/-- There is a field that is no reserved one. -/
theorem keys_unreserved (perm : reply.Perm (pairs h)) :
    (ofPairs (reply.filter fun p => !isReserved p.1)).keys ≠ [] ↔
      ∃ k, isReserved k = false ∧ (h.lookup k).isSome = true := by
  constructor
  · intro some_
    obtain ⟨k, mem⟩ := List.exists_mem_of_ne_nil _ some_
    have there := AList.lookup_isSome.mpr (AList.mem_keys.mpr mem)
    rw [lookup_unreserved perm] at there
    cases reserved : isReserved k with
    | true => rw [reserved] at there; cases there
    | false => exact ⟨k, reserved, by rw [reserved] at there; exact there⟩
  · rintro ⟨k, free, there⟩ none_
    rw [← show (if isReserved k then none else h.lookup k) = h.lookup k by rw [free]; rfl,
      ← lookup_unreserved perm, AList.lookup_isSome, AList.mem_keys, none_] at there
    cases there

end Lookups

section Shapes
variable {reply : List (String × Stored)} {h : Hash} {members : List (String × Json)} {q : ℚ}

/-- The fields that are not reserved. -/
def fieldOf (h : Hash) (k : String) : Option Stored := if isReserved k then none else h.lookup k

theorem parse_shaped (perm : reply.Perm (pairs h)) (name : String)
    (shaped : h.lookup "__shape__" = some (.shown (.str name))) {k : String}
    (free : isReserved k = false) (there : (h.lookup k).isSome = true) :
    ∃ keys, parseSideTableRiskValue reply = readShape (some name) (fieldOf h) keys := by
  have some_ := (keys_unreserved perm).mpr ⟨k, free, there⟩
  have fields : (ofPairs (reply.filter fun p => !isReserved p.1)).lookup = fieldOf h :=
    funext fun k => lookup_unreserved perm k
  unfold parseSideTableRiskValue
  rw [if_neg some_, fields, lookup_reply perm, shaped]
  exact ⟨_, rfl⟩

/-- The fields after a write of a shape and the values of some names. -/
theorem lookup_shaped (h : Hash) (name : String) {names : List String} (nodup : names.Nodup)
    (free : "__shape__" ∉ names) (value : String → Option Stored) (k : String) :
    (assign h (shape name :: names.filterMap fun k => (value k).map fun v => (k, v))).lookup k =
      if k = "__shape__" then some (.shown (.str name))
      else (if k ∈ names then value k else none).or (h.lookup k) := by
  rw [assign_cons, lookup_assign_filterMap _ nodup]
  by_cases own : k = "__shape__"
  · rw [if_pos own, own, if_neg free, Option.none_or]
    exact AList.lookup_insert _
  · rw [if_neg own]
    exact congrArg _ (AList.lookup_insert_ne own)

/-- A bare number and a spot always read back. -/
theorem reads_bare (perm : reply.Perm (pairs (assign h [shape "bare_scalar",
    ("value", .shown (.num q))]))) : ∃ out, parseSideTableRiskValue reply = some out ∧
      Same out (.num q) := by
  have fields := lookup_shaped h "bare_scalar" (List.nodup_singleton "value") (by decide)
    fun _ => some (.shown (.num q))
  have value := fields "value"
  rw [if_neg (by decide), if_pos (by decide), Option.some_or] at value
  obtain ⟨keys, read⟩ := parse_shaped perm "bare_scalar" (fields "__shape__") (by decide)
    (Option.isSome_iff_exists.mpr ⟨_, value⟩)
  refine ⟨.num q, ?_, rfl⟩
  have own : fieldOf (assign h [shape "bare_scalar", ("value", .shown (.num q))]) "value" =
      some (.shown (.num q)) := value
  rw [read, readShape, if_neg (by decide), if_neg (by decide), if_neg (by decide), if_pos rfl, own]
  rfl

theorem pairs_of_spotOf {rv : Props} (spot : spotOf rv = some q) :
    pairs rv = [("spot", .num q)] := by
  unfold spotOf at spot
  split at spot
  · rename_i own
    rw [own, Option.some.inj spot]
  · cases spot

theorem reads_spot (spot : spotOf (ofPairs members) = some q)
    (perm : reply.Perm (pairs (assign h [shape "scalar", ("spot", .shown (.num q))]))) :
    ∃ out, parseSideTableRiskValue reply = some out ∧ Same out (.obj members) := by
  have fields := lookup_shaped h "scalar" (List.nodup_singleton "spot") (by decide)
    fun _ => some (.shown (.num q))
  have value := fields "spot"
  rw [if_neg (by decide), if_pos (by decide), Option.some_or] at value
  obtain ⟨keys, read⟩ := parse_shaped perm "scalar" (fields "__shape__") (by decide)
    (Option.isSome_iff_exists.mpr ⟨_, value⟩)
  refine ⟨.obj [("spot", .num q)], ?_, fun k => ?_⟩
  · have own : fieldOf (assign h [shape "scalar", ("spot", .shown (.num q))]) "spot" =
        some (.shown (.num q)) := value
    rw [read, readShape, if_neg (by decide), if_neg (by decide), if_pos rfl, own]
    rfl
  · rw [← pairs_of_spotOf spot, lookup_ofPairs_pairs]

/-- A value of the curvature shape has no other members. -/
theorem lookup_legs {rv : Props} (only : ∀ k ∈ rv.keys, k = "cvr_up" ∨ k = "cvr_down") {k : String}
    (other : k ∉ legs) : rv.lookup k = none := by
  refine AList.lookup_eq_none.mpr fun mem => other ?_
  rcases only k (AList.mem_keys.mp mem) with rfl | rfl <;> decide

/-- What is written of one leg. -/
def arrayText : Option Json → Option Stored
  | some (.arr items) => some (.stringified (.arr items))
  | _ => none

def numberText : Option Json → Option Stored
  | some (.num q) => some (.shown (.num q))
  | _ => none

theorem numbersOf_eq_some {st : Stored} {v : Json} (read : numbersOf st = some v) :
    ∃ items, v = .arr items := by
  unfold numbersOf at read
  split at read
  · exact ⟨_, (Option.some.inj read).symm⟩
  · cases read

theorem numbers_self_iff (items : List Json) :
    (items.filterMap numberOf).map .num = items ↔ ∀ item ∈ items, ∃ q, item = .num q := by
  constructor
  · intro same item mem
    rw [← same] at mem
    obtain ⟨q, _, rfl⟩ := List.mem_map.mp mem
    exact ⟨q, rfl⟩
  · intro all
    induction items with
    | nil => rfl
    | cons item items ih =>
      obtain ⟨q, rfl⟩ := all item List.mem_cons_self
      rw [List.filterMap_cons, numberOf, List.map_cons,
        ih fun item mem => all item (List.mem_cons_of_mem _ mem)]

theorem arrayLeg_iff (rv : Props) (leg : String) :
    ((arrayText (rv.lookup leg)).or (h.lookup leg)).bind numbersOf = rv.lookup leg ↔
      ArrayLegFits h rv leg := by
  unfold ArrayLegFits
  split
  · rename_i items found
    rw [found, ← numbers_self_iff]
    simp [arrayText, numbersOf, storedJson]
  · rename_i v other found
    rw [found]
    have unwritten : arrayText (some v) = none := by
      cases v with
      | arr items => exact absurd rfl (other items)
      | _ => rfl
    rw [unwritten, Option.none_or]
    refine iff_of_false (fun same => ?_) id
    obtain ⟨st, _, read⟩ := Option.bind_eq_some_iff.mp same
    obtain ⟨items, rfl⟩ := numbersOf_eq_some read
    exact other items rfl
  · rename_i missing
    rw [missing]
    simp only [arrayText, Option.none_or, Option.bind_eq_none_iff]
    refine forall_congr' fun st => ?_
    unfold numbersOf
    constructor
    · intro unread items held parsed
      have none_ := unread held
      rw [parsed] at none_
      cases none_
    · intro apart held
      split
      · rename_i items parsed
        exact absurd parsed (apart items held)
      · rfl

theorem numberLeg_iff (rv : Props) (leg : String) :
    (((numberText (rv.lookup leg)).or (h.lookup leg)).bind storedNumber).map Json.num =
      rv.lookup leg ↔ NumberLegFits h rv leg := by
  unfold NumberLegFits
  split
  · rename_i n found
    rw [found]
    exact iff_of_true rfl trivial
  · rename_i v other found
    rw [found]
    have unwritten : numberText (some v) = none := by
      cases v with
      | num n => exact absurd rfl (other n)
      | _ => rfl
    rw [unwritten, Option.none_or]
    refine iff_of_false (fun same => ?_) id
    obtain ⟨n, _, rfl⟩ := Option.map_eq_some_iff.mp same
    exact other n rfl
  · rename_i missing
    rw [missing]
    simp only [numberText, Option.none_or, Option.map_eq_none_iff, Option.bind_eq_none_iff]

/-- A value of the curvature shape reads back leg by leg. -/
theorem reads_legs {rv : Props} (name : String) (text : Option Json → Option Stored)
    (read : Stored → Option Json) (legFits : String → Prop)
    (known : ∀ field keys, readShape (some name) field keys =
      objectOf legs fun k => (field k).bind read)
    (leg_iff : ∀ leg, ((text (rv.lookup leg)).or (h.lookup leg)).bind read = rv.lookup leg ↔
      legFits leg)
    (same : rv = ofPairs members) (only : ∀ k ∈ rv.keys, k = "cvr_up" ∨ k = "cvr_down")
    (wrote : ∃ leg ∈ legs, (text (rv.lookup leg)).isSome = true) (some_ : rv.keys ≠ [])
    (perm : reply.Perm (pairs (assign h (shape name :: legs.filterMap fun k =>
      (text (rv.lookup k)).map fun v => (k, v))))) :
    (∃ out, parseSideTableRiskValue reply = some out ∧ Same out (.obj members)) ↔
      ∀ leg ∈ legs, legFits leg := by
  have nodup : legs.Nodup := by decide
  have free : ∀ leg ∈ legs, isReserved leg = false ∧ leg ≠ "__shape__" := by decide
  have fields := lookup_shaped h name nodup (by decide) fun k => text (rv.lookup k)
  obtain ⟨leg, listed, there⟩ := wrote
  obtain ⟨keys, parsed⟩ := parse_shaped perm name (fields "__shape__") (free leg listed).1 (by
    rw [fields, if_neg (free leg listed).2, if_pos listed]
    rw [Option.isSome_or, there, Bool.true_or])
  rw [parsed, known, object_same_iff nodup, ← same, and_iff_right some_]
  have own : ∀ k ∈ legs, fieldOf (assign h (shape name :: legs.filterMap fun k =>
      (text (rv.lookup k)).map fun v => (k, v))) k = (text (rv.lookup k)).or (h.lookup k) := by
    intro k listed
    rw [fieldOf, (free k listed).1, fields, if_neg (free k listed).2, if_pos listed]
    rfl
  constructor
  · intro all k listed
    have value := all k
    rw [if_pos listed, own k listed] at value
    exact (leg_iff k).mp value
  · intro fits k
    by_cases listed : k ∈ legs
    · rw [if_pos listed, own k listed]
      exact (leg_iff k).mpr (fits k listed)
    · rw [if_neg listed, lookup_legs only listed]

/-- The fields of a side table for a curvature value. -/
theorem curvatureSideArgs_eq (rv : Props) :
    curvatureSideArgs (rv.lookup "cvr_up") (rv.lookup "cvr_down") =
      if hasArray rv then some (shape "curvature_per_tenor" :: legs.filterMap fun k =>
        (arrayText (rv.lookup k)).map fun v => (k, v))
      else if legs.any fun k => (numberText (rv.lookup k)).isSome then
        some (shape "curvature_scalar" :: legs.filterMap fun k =>
          (numberText (rv.lookup k)).map fun v => (k, v))
      else none := by
  unfold curvatureSideArgs hasArray legs
  simp only [List.any_cons, List.any_nil, Bool.or_false, List.filterMap_cons, List.filterMap_nil]
  generalize rv.lookup "cvr_up" = up, rv.lookup "cvr_down" = down
  rcases up with _ | up
  · rcases down with _ | down
    · rfl
    · cases down <;> rfl
  · rcases down with _ | down
    · cases up <;> rfl
    · cases up <;> cases down <;> rfl

/-- The fields of a side table for a per-tenor value. -/
theorem tenorSideArgs_eq (rv : Props) :
    (numericMembers (pairs rv)).map (fun p => (p.1, Stored.shown (.num p.2))) =
      rv.keys.filterMap fun k => (numberText (rv.lookup k)).map fun v => (k, v) := by
  unfold numericMembers
  rw [← map_fst_pairs, List.filterMap_map, List.map_filterMap]
  refine List.filterMap_congr fun p mem => ?_
  obtain ⟨k, v⟩ := p
  have found := (mem_pairs rv k v).mp mem
  simp only [Function.comp_apply, found]
  cases v <;> rfl

theorem numberText_none : numberText none = none := rfl

theorem numberText_eq_some {v : Option Json} {st : Stored} (text : numberText v = some st) :
    ∃ q, v = some (.num q) ∧ st = .shown (.num q) := by
  unfold numberText at text
  split at text
  · exact ⟨_, rfl, (Option.some.inj text).symm⟩
  · cases text

/-- An object of one number named spot is the spot shape. -/
theorem spotOf_of_lookup {rv : Props} {n : ℚ}
    (same : ∀ k, (ofPairs [("spot", Json.num n)]).lookup k = rv.lookup k) : spotOf rv = some n := by
  have single : ([("spot", Json.num n)].map Prod.fst).Nodup := List.nodup_singleton "spot"
  have mem : ∀ p, p ∈ pairs rv ↔ p ∈ [("spot", Json.num n)] := by
    rintro ⟨k, v⟩
    rw [mem_pairs, ← same, lookup_ofPairs_iff single]
  have nodup : (pairs rv).Nodup := by
    refine List.Nodup.of_map Prod.fst ?_
    rw [map_fst_pairs]
    exact rv.keys_nodup
  have perm := (List.perm_ext_iff_of_nodup nodup (List.nodup_singleton _)).mpr mem
  rw [spotOf, List.perm_singleton.mp perm]
  rfl

/-- Under a shape left by an earlier version a per-tenor value never reads back. -/
theorem not_reads_known {rv : Props} {name : String} (known : name ∈ knownShapes)
    (same : rv = ofPairs members) (noSpot : spotOf rv = none)
    (other : ¬ ∀ k ∈ rv.keys, k = "cvr_up" ∨ k = "cvr_down") {field : String → Option Stored}
    {keys : List String} :
    ¬ ∃ out, readShape (some name) field keys = some out ∧ Same out (.obj members) := by
  have noLegs : ∀ value : String → Option Json,
      ¬ ∃ out, objectOf legs value = some out ∧ Same out (.obj members) := by
    intro value reads
    rw [object_same_iff (by decide), ← same] at reads
    refine other fun k mem => ?_
    by_contra apart
    rw [not_or] at apart
    have unlisted : k ∉ legs := by simp [legs, apart]
    have missing := reads.2 k
    rw [if_neg unlisted] at missing
    exact absurd (AList.mem_keys.mpr mem) (AList.lookup_eq_none.mp missing.symm)
  simp only [knownShapes, List.mem_cons, List.not_mem_nil, or_false] at known
  rcases known with rfl | rfl | rfl | rfl
  · exact noLegs _
  · exact noLegs _
  · rintro ⟨out, read, equal⟩
    rw [readShape, if_neg (by decide), if_neg (by decide), if_pos rfl] at read
    obtain ⟨n, _, rfl⟩ := Option.map_eq_some_iff.mp read
    have spot := spotOf_of_lookup equal
    rw [← same, noSpot] at spot
    cases spot
  · rintro ⟨out, read, equal⟩
    rw [readShape, if_neg (by decide), if_neg (by decide), if_neg (by decide), if_pos rfl] at read
    obtain ⟨n, _, rfl⟩ := Option.map_eq_some_iff.mp read
    cases equal

/-- What the reader makes of a label. -/
def tenorValue (t : Hash) (k : String) : Option Json :=
  if k = "__proto__" then none else ((fieldOf t k).bind storedNumber).map .num

theorem tenors_iff {rv : Props} {t : Hash}
    (fields : ∀ k, t.lookup k = (numberText (rv.lookup k)).or (h.lookup k))
    (unknown : ∀ name, name ∈ knownShapes →
      (t.lookup "__shape__").map Stored.toText ≠ some name) :
    (∀ k, tenorValue t k = rv.lookup k) ↔ TenorsFit h rv := by
  constructor
  · intro all
    have label : ∀ k, k ∈ rv → isReserved k = false ∧ k ≠ "__proto__" := by
      intro k mem
      have there := AList.lookup_isSome.mpr mem
      rw [← all, tenorValue] at there
      split at there
      · cases there
      · rename_i own
        refine ⟨?_, own⟩
        by_contra reserved
        rw [fieldOf, if_pos (Bool.eq_true_of_not_eq_false reserved)] at there
        cases there
    refine ⟨fun k v found => ?_, label, fun st held known => ?_,
      fun k st held absent free own => ?_⟩
    · rw [← all, tenorValue] at found
      split at found
      · cases found
      · obtain ⟨n, _, rfl⟩ := Option.map_eq_some_iff.mp found
        exact ⟨n, rfl⟩
    · have unlabelled : rv.lookup "__shape__" = none :=
        AList.lookup_eq_none.mpr fun mem => absurd (label _ mem).1 (by decide)
      refine unknown _ known ?_
      rw [fields, unlabelled, numberText_none, Option.none_or, held, Option.map_some]
    · have value := all k
      rw [AList.lookup_eq_none.mpr absent, tenorValue, if_neg own, Option.map_eq_none_iff, fieldOf,
        free, fields, AList.lookup_eq_none.mpr absent, numberText_none, Option.none_or,
        held] at value
      exact value
  · intro fits k
    cases found : rv.lookup k with
    | some v =>
      obtain ⟨n, rfl⟩ := fits.numbers k v found
      obtain ⟨free, own⟩ := fits.labels k (AList.lookup_isSome.mp (by rw [found]; rfl))
      rw [tenorValue, if_neg own, fieldOf, free, fields, found]
      rfl
    | none =>
      have absent := AList.lookup_eq_none.mp found
      rw [tenorValue]
      split
      · rfl
      · rename_i own
        rw [Option.map_eq_none_iff, fieldOf]
        split
        · rfl
        · rename_i free
          rw [fields, found, numberText_none, Option.none_or, Option.bind_eq_none_iff]
          exact fun st held => fits.fresh k st held absent (Bool.eq_false_of_not_eq_true free) own

/-- A per-tenor value reads back exactly when it fits. -/
theorem reads_tenors {rv : Props} (same : rv = ofPairs members) (noSpot : spotOf rv = none)
    (some_ : rv.keys ≠ []) (other : ¬ ∀ k ∈ rv.keys, k = "cvr_up" ∨ k = "cvr_down")
    (unordered : tenorOrder h = none) (perm : reply.Perm (pairs (assign h
      (rv.keys.filterMap fun k => (numberText (rv.lookup k)).map fun v => (k, v))))) :
    (∃ out, parseSideTableRiskValue reply = some out ∧ Same out (.obj members)) ↔
      TenorsFit h rv := by
  have fields : ∀ k, (assign h (rv.keys.filterMap fun k =>
      (numberText (rv.lookup k)).map fun v => (k, v))).lookup k =
        (numberText (rv.lookup k)).or (h.lookup k) := by
    intro k
    rw [lookup_assign_filterMap h rv.keys_nodup]
    split
    · rfl
    · rename_i unlisted
      rw [AList.lookup_eq_none.mpr fun mem => unlisted (AList.mem_keys.mp mem)]
      rfl
  revert perm fields
  generalize assign h (rv.keys.filterMap fun k =>
    (numberText (rv.lookup k)).map fun v => (k, v)) = t
  intro perm fields
  have order : tenorOrder (ofPairs reply) = none := by
    unfold tenorOrder at unordered ⊢
    rw [lookup_reply perm, fields]
    cases text : numberText (rv.lookup "__tenor_order__") with
    | none => exact unordered
    | some st =>
      obtain ⟨n, _, rfl⟩ := numberText_eq_some text
      rfl
  have map : (ofPairs (reply.filter fun p => !isReserved p.1)).lookup = fieldOf t :=
    funext fun k => lookup_unreserved perm k
  have shapeless : (∃ name ∈ knownShapes, (t.lookup "__shape__").map Stored.toText = some name) →
      ¬ TenorsFit h rv := by
    rintro ⟨name, known, shaped⟩ fits
    have unlabelled : rv.lookup "__shape__" = none := by
      refine AList.lookup_eq_none.mpr fun mem => ?_
      exact absurd (fits.labels _ mem).1 (by decide)
    rw [fields, unlabelled] at shaped
    obtain ⟨st, held, rfl⟩ := Option.map_eq_some_iff.mp shaped
    exact fits.shapeless st held known
  unfold parseSideTableRiskValue
  by_cases empty : (ofPairs (reply.filter fun p => !isReserved p.1)).keys = []
  · rw [if_pos empty]
    refine iff_of_false nofun fun fits => ?_
    obtain ⟨k, mem⟩ := List.exists_mem_of_ne_nil _ some_
    obtain ⟨v, found⟩ := Option.isSome_iff_exists.mp
      (AList.lookup_isSome.mpr (AList.mem_keys.mpr mem))
    obtain ⟨n, rfl⟩ := fits.numbers k v found
    refine (keys_unreserved perm).mpr ⟨k, (fits.labels k (AList.mem_keys.mpr mem)).1, ?_⟩ empty
    rw [fields, found]
    rfl
  · rw [if_neg empty, map, lookup_reply perm, order]
    dsimp only
    by_cases known : ∃ name ∈ knownShapes, (t.lookup "__shape__").map Stored.toText = some name
    · refine iff_of_false ?_ (shapeless known)
      obtain ⟨name, listed, shaped⟩ := known
      rw [shaped]
      exact not_reads_known listed same noSpot other
    · have unknown : ∀ name, name ∈ knownShapes →
          (t.lookup "__shape__").map Stored.toText ≠ some name :=
        fun name listed shaped => known ⟨name, listed, shaped⟩
      rw [readShape, if_neg (unknown _ (by decide)), if_neg (unknown _ (by decide)),
        if_neg (unknown _ (by decide)), if_neg (unknown _ (by decide)),
        object_same_iff (AList.keys_nodup _), ← same, and_iff_right some_]
      rw [← tenors_iff fields unknown]
      refine forall_congr' fun k => ?_
      suffices drop : k ∉ (ofPairs (reply.filter fun p => !isReserved p.1)).keys →
          tenorValue t k = none by
        by_cases listed : k ∈ (ofPairs (reply.filter fun p => !isReserved p.1)).keys
        · rw [if_pos listed]
          rfl
        · rw [if_neg listed, drop listed]
      intro unlisted
      have missing : fieldOf t k = none := by
        rw [← map]
        exact AList.lookup_eq_none.mpr fun mem => unlisted (AList.mem_keys.mp mem)
      rw [tenorValue, missing]
      split <;> rfl

/-- What a row writes reads back exactly when it fits the HASH it finds. -/
theorem reads_iff {doc : Props} {v : Json} {args : List (String × Stored)}
    (found : doc.lookup "risk_value" = some v) (wrote : sideTableArgsFor doc = some args)
    (unordered : tenorOrder h = none) (perm : reply.Perm (pairs (assign h args))) :
    (∃ out, parseSideTableRiskValue reply = some out ∧ Same out v) ↔ Fits h v := by
  unfold sideTableArgsFor at wrote
  rw [found] at wrote
  split at wrote
  · rename_i q same
    obtain rfl := Option.some.inj same
    obtain rfl := Option.some.inj wrote
    exact iff_of_true (reads_bare perm) trivial
  · rename_i members same
    obtain rfl := Option.some.inj same
    dsimp only at wrote
    unfold Fits
    dsimp only
    split at wrote
    · rename_i q spot
      obtain rfl := Option.some.inj wrote
      rw [spot]
      exact iff_of_true (reads_spot spot perm) trivial
    · rename_i noSpot
      rw [noSpot, if_neg (by decide)]
      split at wrote
      · cases wrote
      · rename_i some_
        split at wrote
        · rename_i curvature
          rw [if_pos curvature.2]
          rw [curvatureSideArgs_eq] at wrote
          split at wrote
          · rename_i arrays
            obtain rfl := Option.some.inj wrote
            rw [if_pos arrays]
            refine reads_legs "curvature_per_tenor" arrayText numbersOf _ (fun _ _ => rfl)
              (arrayLeg_iff _) rfl curvature.2 ?_ some_ perm
            obtain ⟨leg, listed, array⟩ := List.any_eq_true.mp arrays
            refine ⟨leg, listed, ?_⟩
            split at array
            · rename_i items there
              rw [there]
              rfl
            · cases array
          · rename_i noArrays
            rw [if_neg noArrays]
            split at wrote
            · rename_i numbers
              obtain rfl := Option.some.inj wrote
              refine reads_legs "curvature_scalar" numberText
                (fun st => (storedNumber st).map .num) _ (fun _ _ => ?_) (fun leg => ?_) rfl
                curvature.2 (List.any_eq_true.mp numbers) some_ perm
              · rw [readShape, if_neg (by decide), if_pos rfl]
                refine congrArg _ (funext fun k => ?_)
                exact Option.map_bind
              · rw [← numberLeg_iff, Option.map_bind]
                rfl
            · cases wrote
        · rename_i other
          have mixed : ¬ ∀ k ∈ (ofPairs members).keys, k = "cvr_up" ∨ k = "cvr_down" := by
            intro only
            refine other ⟨?_, only⟩
            have sub : (ofPairs members).keys.Subperm legs :=
              (ofPairs members).keys_nodup.subperm fun k mem => by
                rcases only k mem with rfl | rfl <;> decide
            exact sub.length_le
          rw [if_neg mixed]
          split at wrote
          · cases wrote
          · obtain rfl := Option.some.inj wrote
            rw [tenorSideArgs_eq] at perm
            exact reads_tenors rfl noSpot some_ mixed unordered perm
  · cases wrote

end Shapes

section Runs
variable {h : Hash} {doc : Props}

theorem mem_of_lookup_assign {α β : Type*} [DecidableEq α] {m : Assoc α β} {ps : List (α × β)}
    {a : α} {b : β} (found : (assign m ps).lookup a = some b) :
    (a, b) ∈ ps ∨ m.lookup a = some b := by
  by_cases listed : a ∈ ps.map Prod.fst
  · rw [lookup_assign_congr m ∅ listed] at found
    exact .inl (mem_of_lookup_ofPairs found)
  · rw [lookup_assign_of_notMem m ps listed] at found
    exact .inr found

/-- A row puts nothing but numbers under the name of the order field. -/
theorem order_written {args : List (String × Stored)} (wrote : sideTableArgsFor doc = some args)
    {st : Stored} (mem : ("__tenor_order__", st) ∈ args) : ∃ q, st = .shown (.num q) := by
  have noLeg : ∀ (name : String) (text : Option Json → Option Stored) (rv : Props),
      ("__tenor_order__", st) ∉
        shape name :: legs.filterMap fun k => (text (rv.lookup k)).map fun v => (k, v) := by
    intro name text rv mem
    rcases List.mem_cons.mp mem with own | leg
    · exact absurd (congrArg Prod.fst own) (by decide : "__tenor_order__" ≠ "__shape__")
    · obtain ⟨k, listed, here⟩ := List.mem_filterMap.mp leg
      obtain ⟨v, _, same⟩ := Option.map_eq_some_iff.mp here
      rw [(Prod.mk.inj same).1] at listed
      exact absurd listed (by decide)
  unfold sideTableArgsFor at wrote
  split at wrote
  · obtain rfl := Option.some.inj wrote
    simp [shape] at mem
  · dsimp only at wrote
    split at wrote
    · obtain rfl := Option.some.inj wrote
      simp [shape] at mem
    · split at wrote
      · cases wrote
      · split at wrote
        · rw [curvatureSideArgs_eq] at wrote
          split at wrote
          · obtain rfl := Option.some.inj wrote
            exact absurd mem (noLeg _ _ _)
          · split at wrote
            · obtain rfl := Option.some.inj wrote
              exact absurd mem (noLeg _ _ _)
            · cases wrote
        · split at wrote
          · cases wrote
          · obtain rfl := Option.some.inj wrote
            obtain ⟨p, _, same⟩ := List.mem_map.mp mem
            exact ⟨p.2, (Prod.mk.inj same).2.symm⟩
  · cases wrote

theorem tenorOrder_written (unordered : tenorOrder h = none) (doc : Props) :
    tenorOrder (written h doc) = none := by
  unfold written
  cases wrote : sideTableArgsFor doc with
  | none => exact unordered
  | some args =>
    unfold tenorOrder at unordered ⊢
    rw [Option.getD_some]
    cases found : (assign h args).lookup "__tenor_order__" with
    | none => rfl
    | some st =>
      rcases mem_of_lookup_assign found with mem | old
      · obtain ⟨q, rfl⟩ := order_written wrote mem
        rfl
      · rw [old] at unordered
        exact unordered

theorem tenorOrder_ingested (docs : List Props) : tenorOrder (docs.foldl written ∅) = none := by
  induction docs using List.reverseRecOn with
  | nil => rfl
  | append_singleton docs doc ih =>
    rw [List.foldl_append, List.foldl_cons, List.foldl_nil]
    exact tenorOrder_written ih doc

theorem foldl_quiet {docs : List Props} (quiet : ∀ d ∈ docs, sideTableArgsFor d = none) (h : Hash) :
    docs.foldl written h = h := by
  induction docs with
  | nil => rfl
  | cons d docs ih =>
    rw [List.foldl_cons, written, quiet d List.mem_cons_self]
    exact ih fun e mem => quiet e (List.mem_cons_of_mem _ mem)

/-- After any ingests of one key the side table reads back as the last value that was written
exactly when that value fits what the earlier ones have left. -/
theorem side_table_reads_iff (key : String) (s : Redis)
    (missing : s.hashes (sideTableKeyFor key) = ∅) (before after : List Props) {doc : Props}
    {v : Json} (found : doc.lookup "risk_value" = some v)
    (wrote : (sideTableArgsFor doc).isSome = true)
    (quiet : ∀ d ∈ after, sideTableArgsFor d = none) {reply : List (String × Stored)}
    (perm : reply.Perm
      (pairs ((ingests key (before ++ doc :: after) s).hashes (sideTableKeyFor key)))) :
    (∃ out, parseSideTableRiskValue reply = some out ∧ Same out v) ↔
      Fits ((ingests key before s).hashes (sideTableKeyFor key)) v := by
  obtain ⟨args, put⟩ := Option.isSome_iff_exists.mp wrote
  rw [hashes_ingests, missing, List.foldl_append, List.foldl_cons, foldl_quiet quiet, written, put,
    Option.getD_some] at perm
  rw [hashes_ingests, missing]
  exact reads_iff found put (tenorOrder_ingested before) perm

/-- A row with this value. -/
def rowOf (v : Json) : Props := ofPairs [("risk_value", v)]

/-- A bare number after a spot. -/
theorem side_table_reads_bare : ∃ out, parseSideTableRiskValue (pairs ((ingests "sens:A"
      [rowOf (.obj [("spot", .num 1)]), rowOf (.num 2)] Redis.empty).hashes
        (sideTableKeyFor "sens:A"))) = some out ∧ Same out (.num 2) :=
  (@side_table_reads_iff "sens:A" Redis.empty rfl [rowOf (.obj [("spot", .num 1)])] []
    (rowOf (.num 2)) (.num 2) rfl rfl nofun _ (List.Perm.refl _)).mpr trivial

/-- A per-tenor value after a spot still reads as the spot, and a tenor of an earlier version is
still there. -/
theorem earlier_versions_read :
    (¬ ∃ out, parseSideTableRiskValue (pairs ((ingests "sens:A"
      [rowOf (.obj [("spot", .num 1)]), rowOf (.obj [("1Y", .num 2)])] Redis.empty).hashes
        (sideTableKeyFor "sens:A"))) = some out ∧ Same out (.obj [("1Y", .num 2)])) ∧
    ¬ ∃ out, parseSideTableRiskValue (pairs ((ingests "sens:A"
      [rowOf (.obj [("1Y", .num 1), ("5Y", .num 1)]), rowOf (.obj [("1Y", .num 2)])]
        Redis.empty).hashes (sideTableKeyFor "sens:A"))) = some out ∧
          Same out (.obj [("1Y", .num 2)]) := by
  have reads : ∀ h : Hash, tenorOrder h = none →
      (∃ out, parseSideTableRiskValue (pairs (assign h [("1Y", .shown (.num 2))])) = some out ∧
        Same out (.obj [("1Y", .num 2)])) → TenorsFit h (ofPairs [("1Y", .num 2)]) := by
    intro h unordered read
    have value : (rowOf (.obj [("1Y", .num 2)])).lookup "risk_value" =
        some (.obj [("1Y", .num 2)]) := rfl
    exact (reads_iff value rfl unordered (List.Perm.refl _)).mp read
  constructor
  · rw [hashes_ingests]
    intro read
    exact (reads _ (tenorOrder_ingested [rowOf (.obj [("spot", .num 1)])]) read).shapeless _ rfl
      (by decide)
  · rw [hashes_ingests]
    intro read
    have fits := reads _ (tenorOrder_ingested [rowOf (.obj [("1Y", .num 1), ("5Y", .num 1)])]) read
    have stale := fits.fresh "5Y" (.shown (.num 1)) rfl (by decide) (by decide) (by decide)
    cases stale

end Runs

end SideTable
