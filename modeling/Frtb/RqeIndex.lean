import Frtb.SlimWriter

/-!
# Index definitions

The arguments of FT.CREATE for the sensitivity index and its slim variant, the
fields read back from such arguments and from an FT.INFO reply, and the check that
an existing index has every field of a schema.
-/

namespace RqeIndex

open AssocMaps EnrichDoc StorageWriter FastPath SlimWriter

section CreateArgs

def idxName : String := "idx:sens"
def idxNameSlim : String := "idx:sens:slim"
def idxPrefix : String := "sens:"
def idxShadowPrefix : String := "sensh:"

/-- One entry of the SCHEMA clause. -/
structure IndexField where
  path : String
  as : String
  type : String
  sortable : Bool
deriving DecidableEq

def tagField (name : String) : IndexField := ⟨name, name, "TAG", false⟩

def numericField (name : String) : IndexField := ⟨name, name, "NUMERIC", true⟩

def idxSchemaFields : List IndexField :=
  ["risk_class", "bucket", "sensitivity_type", "book", "trade_id", "risk_factor", "trader",
    "_calibration", "desk"].map tagField

def idxSlimSchemaFields : List IndexField :=
  ["risk_class", "bucket", "sensitivity_type", "book", "trade_id", "risk_factor",
      "desk"].map tagField

/-- The numeric fields of all classes, under the prefix of the index. -/
def legFields [Casing] (pre : String) (schema : Schema) : List IndexField :=
  (pairs schema.riskClasses).flatMap fun p =>
    (schemaFields p.1 p.2).map fun f => numericField (pre ++ legName (lowerCase p.1) f.1 f.2)

def buildSchemaFields [Casing] (schema : Schema) : List IndexField :=
  idxSchemaFields ++ legFields "ws_" schema

def buildSlimSchemaFields [Casing] (schema : Schema) : List IndexField :=
  idxSlimSchemaFields ++ legFields "s_" schema

def IndexField.args (f : IndexField) : List String :=
  [f.path, "AS", f.as, f.type] ++ if f.sortable then ["SORTABLE"] else []

/-- The clauses between the index name and its fields. -/
def createHead : List String :=
  ["ON", "HASH", "PREFIX", "2", idxPrefix, idxShadowPrefix, "FILTER", "exists(@risk_class)",
    "SCHEMA"]

def buildCreateArgs [Casing] (schema : Schema) : List String :=
  idxName :: createHead ++ (buildSchemaFields schema).flatMap IndexField.args

def buildSlimCreateArgs [Casing] (schema : Schema) : List String :=
  idxNameSlim :: createHead ++ (buildSlimSchemaFields schema).flatMap IndexField.args

end CreateArgs

section Parsing

structure NormalizedFtField where
  as : String
  type : String
  sortable : Bool
  separator : Option String
deriving DecidableEq

/-- A TAG field without a separator of its own has the comma. -/
def normalized (name type : String) (sortable : Bool) (separator : Option String) :
    NormalizedFtField :=
  ⟨name, type, sortable, if type = "TAG" then some (separator.getD ",") else none⟩

/-- What `parseAttrDescriptor` has read so far. -/
structure Descriptor where
  identifier : Option String
  named : Option String
  type : Option String
  separator : Option String
  sortable : Bool

def readDescriptor : List String → Descriptor → Descriptor
  | [], d => d
  | [k], d => if upperCase k = "SORTABLE" then { d with sortable := true } else d
  | k :: v :: rest, d =>
    if upperCase k = "IDENTIFIER" then readDescriptor rest { d with identifier := some v }
    else if upperCase k = "ATTRIBUTE" then readDescriptor rest { d with named := some v }
    else if upperCase k = "TYPE" then readDescriptor rest { d with type := some (upperCase v) }
    else if upperCase k = "SEPARATOR" then readDescriptor rest { d with separator := some v }
    else if upperCase k = "SORTABLE" then readDescriptor (v :: rest) { d with sortable := true }
    else readDescriptor (v :: rest) d

/-- A text that is present and not empty. -/
def present (s : Option String) : Option String := s.filter (· ≠ "")

def parseAttrDescriptor (words : List String) : Option NormalizedFtField :=
  let d := readDescriptor words ⟨none, none, none, none, false⟩
  match present (d.named.or d.identifier), present d.type with
  | some name, some type => some (normalized name type d.sortable d.separator)
  | _, _ => none

/-- The reply is given by the descriptors under its `attributes`. -/
def parseFtInfoAttributes (attributes : Option (List (List String))) :
    Option (List NormalizedFtField) :=
  attributes.map (List.filterMap parseAttrDescriptor)

def fromSchema : List String → List String
  | [] => []
  | word :: rest => if upperCase word = "SCHEMA" then rest else fromSchema rest

def bareFlags : List String := ["NOINDEX", "UNF", "NOSTEM", "CASESENSITIVE", "WITHSUFFIXTRIE"]

def valuedFlags : List String := ["WEIGHT", "PHONETIC"]

/-- The flags of a field and the words after them. -/
def readFlags : List String → Bool → Option String → Bool × Option String × List String
  | [], sortable, separator => (sortable, separator, [])
  | [word], sortable, separator =>
    if upperCase word = "SORTABLE" then (true, separator, [])
    else if upperCase word ∈ bareFlags ∨ upperCase word ∈ valuedFlags then (sortable, separator, [])
    else (sortable, separator, [word])
  | word :: v :: rest, sortable, separator =>
    if upperCase word = "SORTABLE" then readFlags (v :: rest) true separator
    else if upperCase word = "SEPARATOR" then readFlags rest sortable (some v)
    else if upperCase word ∈ bareFlags then readFlags (v :: rest) sortable separator
    else if upperCase word ∈ valuedFlags then readFlags rest sortable separator
    else (sortable, separator, word :: v :: rest)

/-- The alias of a path, and the words after it; none where the arguments end. -/
def readAs (path : String) : List String → Option (String × List String)
  | [] => some (path, [])
  | word :: rest =>
    if upperCase word = "AS" then
      match rest with
      | [] => none
      | name :: more => some (name, more)
    else some (path, word :: rest)

/-- At most `fuel` fields; each takes at least one word. -/
def readFields : ℕ → List String → List NormalizedFtField
  | 0, _ => []
  | _ + 1, [] => []
  | fuel + 1, path :: rest =>
    match readAs path rest with
    | some (name, type :: more) =>
      let flags := readFlags more false none
      normalized name (upperCase type) flags.1 flags.2.1 :: readFields fuel flags.2.2
    | _ => []

def parseExpectedSchemaFields (createArgs : List String) : List NormalizedFtField :=
  readFields createArgs.length (fromSchema createArgs)

end Parsing

section Expected

/-- A word that ends the flags of the field before it. -/
def EndsFlags (word : String) : Prop :=
  upperCase word ∉ ["SORTABLE", "SEPARATOR"] ++ bareFlags ++ valuedFlags

instance (word : String) : Decidable (EndsFlags word) := inferInstanceAs (Decidable (¬ _))

/-- The field as the two parsers give it. -/
def IndexField.expected (f : IndexField) : NormalizedFtField :=
  normalized f.as (upperCase f.type) f.sortable none

theorem readFlags_end {word : String} (ends : EndsFlags word) (rest : List String)
    (sortable : Bool) (separator : Option String) :
    readFlags (word :: rest) sortable separator = (sortable, separator, word :: rest) := by
  simp only [EndsFlags, List.mem_append, List.mem_cons, List.not_mem_nil, or_false, not_or] at ends
  obtain ⟨⟨⟨sort, sep⟩, bare⟩, valued⟩ := ends
  cases rest with
  | nil => simp only [readFlags, sort, bare, valued, or_self, if_false]
  | cons v rest => simp only [readFlags, sort, sep, bare, valued, if_false]

theorem readFlags_sortable (words : List String) (sortable : Bool) (separator : Option String) :
    readFlags ("SORTABLE" :: words) sortable separator = readFlags words true separator := by
  have upper : upperCase "SORTABLE" = "SORTABLE" := by decide
  cases words with
  | nil => simp only [readFlags, upper, if_true]
  | cons word words => simp only [readFlags, upper, if_true]

/-- The flags of a field among the arguments of others. -/
theorem readFlags_args (sortable : Bool) (fs : List IndexField)
    (ends : ∀ f ∈ fs, EndsFlags f.path) :
    readFlags ((if sortable then ["SORTABLE"] else []) ++ fs.flatMap IndexField.args) false none =
      (sortable, none, fs.flatMap IndexField.args) := by
  have after : ∀ flag, readFlags (fs.flatMap IndexField.args) flag none =
      (flag, none, fs.flatMap IndexField.args) := by
    intro flag
    cases fs with
    | nil => rfl
    | cons f fs =>
      simp only [List.flatMap_cons, IndexField.args, List.cons_append]
      exact readFlags_end (ends f List.mem_cons_self) _ _ _
  cases sortable with
  | false => exact after false
  | true =>
    rw [if_pos rfl, List.cons_append, List.nil_append, readFlags_sortable]
    exact after true

theorem readFields_args (fs : List IndexField) (ends : ∀ f ∈ fs, EndsFlags f.path) {fuel : ℕ}
    (enough : fs.length ≤ fuel) :
    readFields fuel (fs.flatMap IndexField.args) = fs.map IndexField.expected := by
  have upper : upperCase "AS" = "AS" := by decide
  induction fs generalizing fuel with
  | nil => cases fuel <;> rfl
  | cons f fs ih =>
    obtain ⟨fuel, rfl⟩ : ∃ n, fuel = n + 1 :=
      ⟨fuel - 1, by simp only [List.length_cons] at enough; omega⟩
    have rest := readFlags_args f.sortable fs fun g mem => ends g (List.mem_cons_of_mem f mem)
    have later := ih (fun g mem => ends g (List.mem_cons_of_mem f mem))
        (Nat.le_of_succ_le_succ enough)
    simp only [List.flatMap_cons, IndexField.args, List.cons_append, List.nil_append, readFields,
      readAs, upper, if_true, List.map_cons]
    rw [rest, later]
    rfl

theorem length_le_length_args (fs : List IndexField) :
    fs.length ≤ (fs.flatMap IndexField.args).length := by
  induction fs with
  | nil => exact Nat.le_refl 0
  | cons f fs ih =>
    simp only [List.flatMap_cons, List.length_append, List.length_cons, IndexField.args]
    omega

theorem fromSchema_head (name : String) (words : List String)
    (other : upperCase name ≠ "SCHEMA") : fromSchema (name :: createHead ++ words) = words := by
  have head : ∀ word ∈ createHead.dropLast, upperCase word ≠ "SCHEMA" := by decide
  have last : upperCase "SCHEMA" = "SCHEMA" := by decide
  simp only [createHead, List.dropLast, List.mem_cons, List.not_mem_nil, or_false, forall_eq_or_imp,
    forall_eq] at head
  simp only [createHead, List.cons_append, List.nil_append, fromSchema, other, head, last, if_true,
    if_false]

theorem upperCase_append (a b : String) : upperCase (a ++ b) = upperCase a ++ upperCase b := by
  apply String.toList_injective
  simp only [upperCase, Casing.upper, String.toList_append, List.map_append, String.toList_ofList]

/-- A word is no flag when no flag starts like it. -/
theorem endsFlags_of_prefix {pre : String}
    (differ : ∀ flag ∈ ["SORTABLE", "SEPARATOR"] ++ bareFlags ++ valuedFlags,
      ¬ (upperCase pre).toList <+: flag.toList) (rest : String) : EndsFlags (pre ++ rest) := by
  intro flag
  apply differ _ flag
  rw [upperCase_append, String.toList_append]
  exact List.prefix_append _ _

theorem endsFlags_legFields {pre : String}
    (differ : ∀ flag ∈ ["SORTABLE", "SEPARATOR"] ++ bareFlags ++ valuedFlags,
      ¬ (upperCase pre).toList <+: flag.toList) (schema : Schema) :
    ∀ f ∈ legFields pre schema, EndsFlags f.path := by
  intro f mem
  obtain ⟨p, _, own⟩ := List.mem_flatMap.mp mem
  obtain ⟨g, _, rfl⟩ := List.mem_map.mp own
  exact endsFlags_of_prefix differ _

theorem endsFlags_buildSchemaFields (schema : Schema) :
    ∀ f ∈ buildSchemaFields schema, EndsFlags f.path := by
  have tags : ∀ f ∈ idxSchemaFields, EndsFlags f.path := by decide
  intro f mem
  rcases List.mem_append.mp mem with tag | leg
  · exact tags f tag
  · exact endsFlags_legFields (by decide) schema f leg

/-- The arguments give back the fields they were built from. -/
theorem parseExpectedSchemaFields_buildCreateArgs (schema : Schema) :
    parseExpectedSchemaFields (buildCreateArgs schema) =
      (buildSchemaFields schema).map IndexField.expected := by
  rw [parseExpectedSchemaFields, buildCreateArgs, fromSchema_head _ _ (by decide)]
  refine readFields_args _ (endsFlags_buildSchemaFields schema) ?_
  have := length_le_length_args (buildSchemaFields schema)
  simp only [List.length_append, List.length_cons]
  omega

end Expected

section Compatibility

/-- Why `f` is not met by the field `g` of its name, if it is not. -/
def fieldMismatch (f : NormalizedFtField) : Option NormalizedFtField → Option String
  | none => some ("missing-field:" ++ f.as)
  | some g =>
    if g.type ≠ f.type then some ("type-mismatch:" ++ f.as ++ ":" ++ g.type ++ "!=" ++ f.type)
    else if g.sortable ≠ f.sortable then some ("sortable-mismatch:" ++ f.as)
    else if f.type = "TAG" ∧ g.separator.getD "," ≠ f.separator.getD "," then
      some ("separator-mismatch:" ++ f.as)
    else none

/-- The reason not to adopt the index, if there is one. -/
def adoptionObstacle (existing : Option (List NormalizedFtField))
    (expectedCreateArgs : List String) :
    Option String :=
  match existing with
  | none | some [] => some "no-attributes-on-existing-index"
  | some fields =>
    match parseExpectedSchemaFields expectedCreateArgs with
    | [] => some "no-expected-fields-parsed"
    | expected =>
      let existingByName := ofPairs (fields.map fun g => (g.as, g))
      expected.findSome? fun f => fieldMismatch f (existingByName.lookup f.as)

def isAdoptionCompatible (existing : Option (List NormalizedFtField))
    (expectedCreateArgs : List String) : Bool :=
  (adoptionObstacle existing expectedCreateArgs).isNone

/-- The field `g` serves where `f` is asked for. -/
def Meets (g f : NormalizedFtField) : Prop :=
  g.as = f.as ∧ g.type = f.type ∧ g.sortable = f.sortable ∧
    (f.type = "TAG" → g.separator.getD "," = f.separator.getD ",")

instance (g f : NormalizedFtField) : Decidable (Meets g f) := inferInstanceAs (Decidable (_ ∧ _))

theorem fieldMismatch_eq_none_iff (f : NormalizedFtField) (found : Option NormalizedFtField) :
    fieldMismatch f found = none ↔
      ∃ g, found = some g ∧ g.type = f.type ∧ g.sortable = f.sortable ∧
        (f.type = "TAG" → g.separator.getD "," = f.separator.getD ",") := by
  cases found with
  | none => simp [fieldMismatch]
  | some g =>
    simp only [fieldMismatch, Option.some.injEq, exists_eq_left']
    by_cases type : g.type = f.type
    · by_cases sortable : g.sortable = f.sortable
      · by_cases separator : f.type = "TAG" ∧ g.separator.getD "," ≠ f.separator.getD ","
        · simp [type, sortable, separator]
        · rw [if_neg (not_not.mpr type), if_neg (not_not.mpr sortable), if_neg separator]
          simp only [type, sortable, true_and, true_iff]
          intro tag
          by_contra differ
          exact separator ⟨tag, differ⟩
      · simp [type, sortable]
    · simp [type]

/-- An index that is adopted has every field that is asked for. -/
theorem meets_of_compatible {existing : Option (List NormalizedFtField)} {args : List String}
    (compatible : isAdoptionCompatible existing args = true) :
    ∃ fields, existing = some fields ∧
      ∀ f ∈ parseExpectedSchemaFields args, ∃ g ∈ fields, Meets g f := by
  unfold isAdoptionCompatible adoptionObstacle at compatible
  rw [Option.isNone_iff_eq_none] at compatible
  split at compatible
  · cases compatible
  · cases compatible
  · rename_i fields _
    refine ⟨fields, rfl, fun f mem => ?_⟩
    split at compatible
    · cases compatible
    · rw [List.findSome?_eq_none_iff] at compatible
      obtain ⟨g, found, type, sortable, separator⟩ :=
        (fieldMismatch_eq_none_iff f _).mp (compatible f mem)
      have named := mem_of_lookup_ofPairs found
      obtain ⟨g', mem', same⟩ := List.mem_map.mp named
      obtain ⟨name, rfl⟩ := Prod.mk.inj same
      exact ⟨_, mem', name, type, sortable, separator⟩

end Compatibility

end RqeIndex
