import Frtb.Library.NumberText
import Frtb.SlimWriter

/-!
# The rows that the bulk loader accepts

A body of `/load/rows` is read as a list of JSON values. Of a line of NDJSON the
reader asks that it is an object or an array; of an element of a JSON array it
asks nothing. The writer then takes members off each value and spells them out:
a null has no members to take, and an object with a member `toString` of its own
cannot be spelled out. Every other value has a layout, an empty one at worst.
-/

namespace LoaderRows

open AssocMaps JsonText NumberText EnrichDoc RedisStore StorageWriter FastPath SlimWriter

section Text

mutual
/-- `String(v)`, or none where the conversion throws: the inherited conversion is
hidden by a member `toString`, which is never a function in JSON. -/
def stringOf : Json → Option String
  | .null => some "null"
  | .bool b => some (toString b)
  | .num q => some (showNumber q)
  | .str s => some s
  | .arr items => (itemStrings items).map (",".intercalate ·)
  | .obj members => if "toString" ∈ members.map Prod.fst then none else some "[object Object]"

/-- The texts that an array joins: null gives the empty one. -/
def itemStrings : List Json → Option (List String)
  | [] => some []
  | .null :: rest => (itemStrings rest).map ("" :: ·)
  | v :: rest => (stringOf v).bind fun s => (itemStrings rest).map (s :: ·)
end

/-- A value whose conversion to a text throws. -/
inductive Unshowable : Json → Prop where
  | own {members : List (String × Json)} (named : "toString" ∈ members.map Prod.fst) :
    Unshowable (.obj members)
  | item {items : List Json} {v : Json} (mem : v ∈ items) (bad : Unshowable v) :
    Unshowable (.arr items)

end Text

section Body

inductive BodyError where
  | message (text : String)
  /-- What `JSON.parse` throws for a line. -/
  | syntaxError (line : String)

def ndjsonRow (line : String) : Except BodyError Json :=
  match parse line with
  | none => .error (.syntaxError line)
  | some (.obj members) => .ok (.obj members)
  | some (.arr items) => .ok (.arr items)
  | some _ => .error (.message "ndjson line is not a JSON object")

/-- The lines of a body, trimmed, without the blank ones. -/
def bodyLines (body : String) : List String :=
  (((body.toList.splitOn '\n').map trim).filter (· ≠ [])).map String.ofList

def parseRowsBody (contentType : Option String) (body : Option Json) :
    Except BodyError (List Json) :=
  let ct := lowerCase (contentType.getD "")
  if "application/x-ndjson".toList.isPrefixOf ct.toList then
    match body with
    | some (.str text) => (bodyLines text).mapM ndjsonRow
    | _ => .error (.message "ndjson body must be a string")
  else if "application/json".toList.isPrefixOf ct.toList then
    match body with
    | some (.arr items) => .ok items
    | _ => .error (.message "application/json body must be an array of rows")
  else
    .error (.message ("unsupported content-type: " ++ (if ct = "" then "(missing)" else ct) ++
      " — expected application/x-ndjson or application/json"))

end Body

section Fields

/-- `row[k]` of a row other than null. None of the names that the writer reads is a
member of an array or of a primitive. -/
def member : Json → String → Option Json
  | .obj members, k => (ofPairs members).lookup k
  | _, _ => none

/-- `v === text`. -/
def isText (v : Option Json) (text : String) : Bool :=
  match v with
  | some (.str s) => s = text
  | _ => false

/-- The TAG members that are neither undefined nor null. -/
def tagMembers (row : Json) : List (String × Json) :=
  tagFields.filterMap fun k =>
    match member row k with
    | none => none
    | some .null => none
    | some v => some (k, v)

def tagArgs (row : Json) : Option (List (String × Stored)) :=
  (tagMembers row).mapM fun p => (stringOf p.2).map fun s => (p.1, Stored.shown (.str s))

/-- `String(row.risk_class)`. -/
def classText (row : Json) : Option String :=
  match member row "risk_class" with
  | none => some "undefined"
  | some v => stringOf v

def listed (row : Json) : Option (List Json) :=
  match member row "tenor" with
  | some (.arr items) => some items
  | _ => none

/-- A numbered field of a label; a label that is no text has none. -/
def labelArg (lower leg : String) (label v : Json) : List (String × Stored) :=
  match label with
  | .str t => numberArg (slimField lower leg (some t)) v
  | _ => []

def curvatureFields (row : Json) (lower : String) : List (String × Stored) :=
  match member row "risk_value" with
  | some (.obj members) =>
    match (ofPairs members).lookup "cvr_up", (ofPairs members).lookup "cvr_down" with
    | some (.arr up), some (.arr dn) =>
      match listed row with
      | some tenors => (tenors.zip (up.zip dn)).flatMap fun r =>
          labelArg lower "cvr_up" r.1 r.2.1 ++ labelArg lower "cvr_down" r.1 r.2.2
      | none => []
    | some (.num up), some (.num dn) =>
      numberArg (slimField lower "cvr_up" none) (.num up) ++
        numberArg (slimField lower "cvr_down" none) (.num dn)
    | _, _ => []
  | _ => []

def legFields (row : Json) (lower leg : String) : List (String × Stored) :=
  match member row "risk_value" with
  | some (.obj members) =>
    match spotOf (ofPairs members) with
    | some spot => numberArg (slimField lower leg none) (.num spot)
    | none => (pairs (ofPairs members)).flatMap fun p =>
        numberArg (slimField lower leg (some p.1)) p.2
  | some (.arr items) =>
    match listed row with
    | some labels => (labels.zip items).flatMap fun p => labelArg lower leg p.1 p.2
    | none => []
  | some (.num v) => numberArg (slimField lower leg none) (.num v)
  | _ => []

def legOf (row : Json) : String :=
  if isText (member row "sensitivity_type") "Vega" then "vega" else "delta"

def riskFields (row : Json) (lower : String) : List (String × Stored) :=
  if isText (member row "sensitivity_type") "Curvature" then curvatureFields row lower
  else legFields row lower (legOf row)

def padLegsOf (row : Json) : List String :=
  if isText (member row "sensitivity_type") "Curvature" then ["cvr_up", "cvr_down"]
  else [legOf row]

def padded (row : Json) (name : String) (args : List (String × Stored))
    (tenorsByClass : Option (Assoc String (List String))) : List (String × Stored) :=
  match tenorsByClass.bind fun byClass => byClass.lookup (upperCase name) with
  | some tenors =>
    if args.length > 0 ∧ tenors.length > 0 then
      padZeros args ((padLegsOf row).flatMap fun leg =>
        tenors.map fun t => slimField (lowerCase name) leg (some t))
    else args
  | none => args

/-- `rowToHashFields` of any JSON value, or none where it throws. -/
def rowToHashFields (row : Json) (tenorsByClass : Option (Assoc String (List String))) :
    Option (List (String × Stored)) :=
  match row with
  | .null => none
  | row => do
    let tags ← tagArgs row
    let name ← classText row
    some (padded row name (tags ++ riskFields row (lowerCase name)) tenorsByClass)

/-- The text of a member that the guard of the SADDs takes. -/
def seenText (row : Json) (k : String) : String :=
  match member row k with
  | some (.str s) => s
  | _ => ""

/-- The SADDs that follow the HSET of a row. -/
def saddCount (row : Json) : ℕ :=
  if seenText row "risk_class" ≠ "" ∧ seenText row "bucket" ≠ "" ∧
    seenText row "sensitivity_type" ≠ "" then 3 else 0

/-- What `flushBatch` makes of a row. -/
inductive Laid where
  | malformed
  | piped (key : String) (fields : List (String × Stored)) (saddCount : ℕ)

def layRow (tenorsByClass : Option (Assoc String (List String))) (row : Json) : Option Laid := do
  let fields ← rowToHashFields row tenorsByClass
  if fields.isEmpty then some .malformed
  else
    let id ← (member row "id").elim (some "undefined") stringOf
    some (.piped ("sens:" ++ id) fields (saddCount row))

/-- No TAG member and no number to write. -/
def Blank (row : Json) : Prop :=
  tagMembers row = [] ∧ ∀ name, classText row = some name → riskFields row (lowerCase name) = []

/-- The rows that the writer cannot lay out. -/
def Harmful (row : Json) : Prop :=
  row = .null ∨ (∃ k ∈ tagFields, ∃ v, member row k = some v ∧ Unshowable v) ∨
    ((∃ v, member row "id" = some v ∧ Unshowable v) ∧ ¬ Blank row)

end Fields

section Showing

theorem itemStrings_cons {v : Json} (rest : List Json) (other : v ≠ .null) :
    itemStrings (v :: rest) = (stringOf v).bind fun s => (itemStrings rest).map (s :: ·) := by
  cases v with
  | null => exact absurd rfl other
  | _ => rw [itemStrings]; nofun

theorem itemStrings_eq_none_iff (items : List Json) :
    itemStrings items = none ↔ ∃ v ∈ items, stringOf v = none := by
  induction items with
  | nil => simp [itemStrings]
  | cons v rest ih =>
    by_cases blank : v = .null
    · subst blank
      rw [itemStrings, Option.map_eq_none_iff, ih]
      simp [stringOf]
    · rw [itemStrings_cons rest blank, List.exists_mem_cons_iff, ← ih]
      cases own : stringOf v with
      | none => simp
      | some s => simp

theorem stringOf_eq_none_iff : ∀ v : Json, stringOf v = none ↔ Unshowable v
  | .null => ⟨fun shown => by simp [stringOf] at shown, nofun⟩
  | .bool b => ⟨fun shown => by simp [stringOf] at shown, nofun⟩
  | .num q => ⟨fun shown => by simp [stringOf] at shown, nofun⟩
  | .str s => ⟨fun shown => by simp [stringOf] at shown, nofun⟩
  | .obj members => by
    rw [stringOf]
    split
    · rename_i named
      exact ⟨fun _ => .own named, fun _ => rfl⟩
    · rename_i unnamed
      refine ⟨nofun, fun bad => ?_⟩
      cases bad with
      | own named => exact absurd named unnamed
  | .arr items => by
    rw [stringOf, Option.map_eq_none_iff, itemStrings_eq_none_iff]
    constructor
    · rintro ⟨v, mem, fails⟩
      exact .item mem ((stringOf_eq_none_iff v).mp fails)
    · intro bad
      cases bad with
      | @item items v mem bad => exact ⟨v, mem, (stringOf_eq_none_iff v).mpr bad⟩

end Showing

section Laying
variable {row : Json} {tenorsByClass : Option (Assoc String (List String))}

theorem mapM_eq_none_iff {α β : Type*} (f : α → Option β) (l : List α) :
    l.mapM f = none ↔ ∃ a ∈ l, f a = none := by
  induction l with
  | nil => simp
  | cons a l ih =>
    rw [List.mapM_cons, List.exists_mem_cons_iff, ← ih]
    cases f a with
    | none => simp
    | some b => cases l.mapM f <;> simp

theorem mem_tagMembers {k : String} {v : Json} :
    (k, v) ∈ tagMembers row ↔ k ∈ tagFields ∧ member row k = some v ∧ v ≠ .null := by
  rw [tagMembers, List.mem_filterMap]
  constructor
  · rintro ⟨k', listed, read⟩
    split at read
    · cases read
    · cases read
    · rename_i v' other own
      obtain ⟨rfl, rfl⟩ := Prod.mk.inj (Option.some.inj read)
      exact ⟨listed, own, other⟩
  · rintro ⟨listed, own, other⟩
    refine ⟨k, listed, ?_⟩
    rw [own]
    cases v with
    | null => exact absurd rfl other
    | _ => rfl

theorem showable_null : ¬ Unshowable .null := nofun

theorem tagArgs_eq_none_iff :
    tagArgs row = none ↔ ∃ k ∈ tagFields, ∃ v, member row k = some v ∧ Unshowable v := by
  rw [tagArgs, mapM_eq_none_iff]
  constructor
  · rintro ⟨⟨k, v⟩, mem, fails⟩
    rw [Option.map_eq_none_iff, stringOf_eq_none_iff] at fails
    obtain ⟨listed, own, -⟩ := mem_tagMembers.mp mem
    exact ⟨k, listed, v, own, fails⟩
  · rintro ⟨k, listed, v, own, bad⟩
    refine ⟨(k, v), mem_tagMembers.mpr ⟨listed, own, ?_⟩, ?_⟩
    · rintro rfl
      exact showable_null bad
    · rw [Option.map_eq_none_iff, stringOf_eq_none_iff]
      exact bad

theorem rowToHashFields_eq (other : row ≠ .null) : rowToHashFields row tenorsByClass =
    (tagArgs row).bind fun tags => (classText row).bind fun name =>
      some (padded row name (tags ++ riskFields row (lowerCase name)) tenorsByClass) := by
  cases row with
  | null => exact absurd rfl other
  | _ => rfl

/-- Where the TAG members can be spelled out, so can the class. -/
theorem classText_isSome {tags : List (String × Stored)} (shown : tagArgs row = some tags) :
    ∃ name, classText row = some name := by
  rw [← Option.isSome_iff_exists, Option.isSome_iff_ne_none]
  intro fails
  unfold classText at fails
  split at fails
  · cases fails
  · rename_i v own
    have bad := tagArgs_eq_none_iff.mpr
      ⟨"risk_class", by decide, v, own, (stringOf_eq_none_iff v).mp fails⟩
    rw [shown] at bad
    cases bad

theorem rowToHashFields_eq_none_iff : rowToHashFields row tenorsByClass = none ↔
    row = .null ∨ ∃ k ∈ tagFields, ∃ v, member row k = some v ∧ Unshowable v := by
  by_cases blank : row = .null
  · subst blank
    exact ⟨fun _ => .inl rfl, fun _ => rfl⟩
  rw [← tagArgs_eq_none_iff, rowToHashFields_eq blank]
  cases shown : tagArgs row with
  | none => simp
  | some tags =>
    obtain ⟨name, named⟩ := classText_isSome shown
    simp [named, blank]

theorem padZeros_ne_nil {args : List (String × Stored)} (some : args ≠ []) (names : List String) :
    padZeros args names ≠ [] := by
  unfold padZeros
  refine List.foldlRecOn (motive := (· ≠ [])) names _ some fun args some name _ => ?_
  split
  · exact some
  · exact List.append_ne_nil_of_left_ne_nil some _

/-- Zeros are added to a row that has fields, and to no other. -/
theorem padded_eq_nil_iff {name : String} {args : List (String × Stored)} :
    padded row name args tenorsByClass = [] ↔ args = [] := by
  unfold padded
  split
  · split
    · rename_i filled
      have some : args ≠ [] := List.ne_nil_of_length_pos filled.1
      exact iff_of_false (padZeros_ne_nil some _) some
    · exact Iff.rfl
  · exact Iff.rfl

theorem tagArgs_eq_nil_iff {tags : List (String × Stored)} (shown : tagArgs row = some tags) :
    tags = [] ↔ tagMembers row = [] := by
  unfold tagArgs at shown
  cases members : tagMembers row with
  | nil =>
    rw [members] at shown
    exact iff_of_true (Option.some.inj shown).symm rfl
  | cons p rest =>
    rw [members, List.mapM_cons] at shown
    simp only [Option.bind_eq_bind, Option.bind_eq_some_iff] at shown
    obtain ⟨arg, -, args, -, made⟩ := shown
    rw [← Option.some.inj made]
    exact iff_of_false (List.cons_ne_nil _ _) (List.cons_ne_nil _ _)

/-- A row is laid out as no fields exactly when it is blank. -/
theorem fields_eq_nil_iff {fields : List (String × Stored)}
    (laid : rowToHashFields row tenorsByClass = some fields) : fields = [] ↔ Blank row := by
  have other : row ≠ .null := by
    rintro rfl
    cases laid
  rw [rowToHashFields_eq other] at laid
  cases shown : tagArgs row with
  | none =>
    rw [shown] at laid
    cases laid
  | some tags =>
    obtain ⟨name, named⟩ := classText_isSome shown
    rw [shown, Option.bind_some, named, Option.bind_some, Option.some.injEq] at laid
    rw [← laid, padded_eq_nil_iff, List.append_eq_nil_iff, tagArgs_eq_nil_iff shown, Blank, named]
    simp

/-- The writer throws on the harmful rows and on no other. -/
theorem layRow_eq_none_iff : layRow tenorsByClass row = none ↔ Harmful row := by
  unfold layRow Harmful
  rw [← or_assoc, ← @rowToHashFields_eq_none_iff _ tenorsByClass]
  cases laid : rowToHashFields row tenorsByClass with
  | none => simp
  | some fields =>
    have empty := fields_eq_nil_iff laid
    rw [← empty]
    rw [Option.bind_eq_bind, Option.bind_some]
    by_cases blank : fields = []
    · subst blank
      simp
    · rw [if_neg (by simpa using blank), Option.bind_eq_bind, Option.bind_eq_none_iff]
      cases own : member row "id" with
      | none => simp
      | some v =>
        have shows := stringOf_eq_none_iff v
        cases text : stringOf v with
        | none => simpa [text, blank] using shows.mp text
        | some id =>
          rw [text] at shows
          simpa [text, blank] using fun bad => Option.some_ne_none _ (shows.mpr bad)

end Laying

end LoaderRows
