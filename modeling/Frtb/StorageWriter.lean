import Frtb.Library.NumberText
import Frtb.RedisStore

/-!
# Storage writers

`flattenDocForHash` lays a document out as the fields of its `sens:` HASH: the
TAG attributes, then the weighted fields of the row's leg. A per-tenor row
writes one field a tenor and no scalar field. The four storage formats share
this layout and differ in the companion records.
-/

namespace StorageWriter

open AssocMaps JsonText EnrichDoc RedisStore

inductive StorageFormat where
  | hashSidetable
  | hashEncoded
  | json
  | jsonShadowHash
deriving DecidableEq

def defaultStorageFormat : StorageFormat := .hashSidetable

section Text

mutual

/-- `String(v)`. -/
def jsText : Json → String
  | .null => "null"
  | .bool b => if b then "true" else "false"
  | .num q => NumberText.showNumber q
  | .str s => s
  | .arr items => ",".intercalate (itemTexts items)
  | .obj _ => "[object Object]"

/-- The texts that joining an array puts between the commas. -/
def itemTexts : List Json → List String
  | [] => []
  | .null :: items => "" :: itemTexts items
  | item :: items => jsText item :: itemTexts items

end

/-- `String(doc[name] ?? "")`. -/
def textOf (doc : Props) (name : String) : String :=
  match doc.lookup name with
  | none => ""
  | some .null => ""
  | some v => jsText v

/-- `toLowerCase` and `toUpperCase`. Of a string in ASCII they change the letters; of any
other, as far as is known here, they leave something. -/
class Casing where
  lower : String → String
  upper : String → String
  lower_ascii : ∀ s, (∀ c ∈ s.toList, c.toNat < 128) →
    lower s = String.ofList (s.toList.map Char.toLower)
  upper_ascii : ∀ s, (∀ c ∈ s.toList, c.toNat < 128) →
    upper s = String.ofList (s.toList.map Char.toUpper)
  lower_ne_empty : ∀ s, s ≠ "" → lower s ≠ ""

theorem ofList_map_ne_empty (f : Char → Char) {s : String} (h : s ≠ "") :
    String.ofList (s.toList.map f) ≠ "" := by
  intro heq
  apply h
  apply String.toList_injective
  have hlist := congrArg String.toList heq
  simpa using hlist

/-- Casing where every name is spelled in ASCII. -/
instance asciiCasing : Casing where
  lower s := String.ofList (s.toList.map Char.toLower)
  upper s := String.ofList (s.toList.map Char.toUpper)
  lower_ascii := fun _ _ => rfl
  upper_ascii := fun _ _ => rfl
  lower_ne_empty := fun _ h => ofList_map_ne_empty Char.toLower h

def lowerCase [Casing] (s : String) : String := Casing.lower s

def upperCase [Casing] (s : String) : String := Casing.upper s

theorem lowerCase_ascii [Casing] {s : String} (ascii : ∀ c ∈ s.toList, c.toNat < 128) :
    lowerCase s = String.ofList (s.toList.map Char.toLower) := Casing.lower_ascii s ascii

theorem upperCase_ascii [Casing] {s : String} (ascii : ∀ c ∈ s.toList, c.toNat < 128) :
    upperCase s = String.ofList (s.toList.map Char.toUpper) := Casing.upper_ascii s ascii

@[simp] theorem lowerCase_empty [Casing] : lowerCase "" = "" :=
  lowerCase_ascii fun _ h => absurd h List.not_mem_nil

theorem lowerCase_ne_empty [Casing] {s : String} (h : s ≠ "") : lowerCase s ≠ "" :=
  Casing.lower_ne_empty s h

theorem textOf_of_strAt {doc : Props} {name s : String} (h : strAt doc name = some s) :
    textOf doc name = s := by
  unfold strAt at h
  unfold textOf
  split at h
  · rename_i s' hs
    rw [hs]
    exact Option.some.inj h
  · cases h

end Text

def hashTagFields : List String :=
  ["risk_class", "bucket", "sensitivity_type", "book", "trade_id", "risk_factor", "trader",
    "_calibration", "desk"]

def legsForSensType (sens : String) : List String :=
  if sens = "Curvature" then ["cvr_up", "cvr_down"]
  else if sens = "Delta" then ["delta"]
  else if sens = "Vega" then ["vega"]
  else []

/-- The scalar field name `ws_<class>_<leg>`. -/
def weightField (lower leg : String) : String := "ws_" ++ lower ++ "_" ++ leg

/-- What the per-tenor field names `ws_<class>_<leg>_<tenor>` start with. -/
def tenorPrefix (lower leg : String) : String := weightField lower leg ++ "_"

/-- The text of a TAG attribute that is neither undefined nor null. -/
def tagValue (doc : Props) (k : String) : Option Stored :=
  match doc.lookup k with
  | none => none
  | some .null => none
  | some v => some (.shown v)

def tagArgs (doc : Props) : List (String × Stored) :=
  hashTagFields.filterMap fun k => (tagValue doc k).map fun v => (k, v)

def scalarArgs (lower leg : String) (v : Option ℚ) : List (String × Stored) :=
  (v.map fun q => (weightField lower leg, Stored.shown (.num q))).toList

def tenorArgs (lower leg : String) (m : Assoc String ℚ) : List (String × Stored) :=
  (pairs m).map fun p => (tenorPrefix lower leg ++ p.1, Stored.shown (.num p.2))

/-- The weighted fields of the row's leg. -/
def weightArgs [Casing] (doc : Props) : List (String × Stored) :=
  let lower := lowerCase (textOf doc "risk_class")
  let sens := textOf doc "sensitivity_type"
  if lower = "" ∨ sens = "" then []
  else if sens = "Curvature" then
    match tenorMapAt doc "weighted_cvr_up_per_tenor" with
    | some ups =>
      tenorArgs lower "cvr_up" ups ++
        ((tenorMapAt doc "weighted_cvr_down_per_tenor").map (tenorArgs lower "cvr_down")).getD []
    | none =>
      scalarArgs lower "cvr_up" (numAt doc "weighted_cvr_up") ++
        scalarArgs lower "cvr_down" (numAt doc "weighted_cvr_down")
  else
    match legsForSensType sens with
    | [] => []
    | leg :: _ =>
      match tenorMapAt doc "weighted_value_per_tenor" with
      | some perTenor => tenorArgs lower leg perTenor
      | none => scalarArgs lower leg (numAt doc "weighted_value")

def flattenDocForHash [Casing] (doc : Props) : List (String × Stored) :=
  tagArgs doc ++ weightArgs doc

def sideTableKeyFor (parentKey : String) : String := "\x7b" ++ parentKey ++ "\x7d:tenors"

def shape (name : String) : String × Stored := ("__shape__", .shown (.str name))

/-- The side-table fields of a curvature value: arrays first, then scalars. -/
def curvatureSideArgs (up down : Option Json) : Option (List (String × Stored)) :=
  let arrays := [("cvr_up", up), ("cvr_down", down)].filterMap fun p =>
    match p.2 with
    | some (.arr items) => some (p.1, Stored.stringified (.arr items))
    | _ => none
  let numbers := [("cvr_up", up), ("cvr_down", down)].filterMap fun p =>
    match p.2 with
    | some (.num q) => some (p.1, Stored.shown (.num q))
    | _ => none
  if arrays ≠ [] then some (shape "curvature_per_tenor" :: arrays)
  else if numbers ≠ [] then some (shape "curvature_scalar" :: numbers)
  else none

def sideTableArgsFor (doc : Props) : Option (List (String × Stored)) :=
  match doc.lookup "risk_value" with
  | some (.num q) => some [shape "bare_scalar", ("value", .shown (.num q))]
  | some (.obj members) =>
    let rv := ofPairs members
    match spotOf rv with
    | some q => some [shape "scalar", ("spot", .shown (.num q))]
    | none =>
      if rv.keys = [] then none
      else if rv.keys.length ≤ 2 ∧ ∀ k ∈ rv.keys, k = "cvr_up" ∨ k = "cvr_down" then
        curvatureSideArgs (rv.lookup "cvr_up") (rv.lookup "cvr_down")
      else
        let args := (numericMembers (pairs rv)).map fun p => (p.1, Stored.shown (.num p.2))
        if args = [] then none else some args
  | _ => none

/-- The per-tenor maps that `hash-encoded` carries as JSON text. -/
def encodedArgs (doc : Props) : List (String × Stored) :=
  ["weighted_value_per_tenor", "weighted_cvr_up_per_tenor",
    "weighted_cvr_down_per_tenor"].filterMap fun name =>
    match doc.lookup name with
    | some (.obj members) => some (name ++ "_json", .stringified (.obj members))
    | _ => none

def hsetUnlessEmpty (key : String) (fields : List (String × Stored)) : List Cmd :=
  match fields with
  | [] => []
  | fields => [.hset key fields]

def shadowKeyFor (key : String) : String := "sensh:" ++ (stripPrefix "sens:" key).getD key

def writeDocForStorage [Casing] (key : String) (doc : Props) (format : StorageFormat) : List Cmd :=
  match format with
  | .hashSidetable =>
    hsetUnlessEmpty key (flattenDocForHash doc) ++
      ((sideTableArgsFor doc).map (fun side => Cmd.hset (sideTableKeyFor key) side)).toList
  | .hashEncoded => hsetUnlessEmpty key (flattenDocForHash doc ++ encodedArgs doc)
  | .json => [.jsonSet key doc]
  | .jsonShadowHash =>
    .jsonSet key doc :: hsetUnlessEmpty (shadowKeyFor key) (flattenDocForHash doc)

/-- The formats whose rows ride the atomic writer. -/
def useAtomic : StorageFormat → Bool
  | .hashSidetable => true
  | .hashEncoded => true
  | _ => false

end StorageWriter
