import Frtb.FastPathRows

/-!
# The aliases of the index aggregate

The aggregate spells its names with underscores. As long as no tenor label is
empty or has an underscore, all fields of a request have the same number of
them, and two names of one request are never spelled alike.
-/

namespace AliasNames

open StorageWriter FastPath FastPathSums FastPathRows

def LegPrefix.spell : LegPrefix → String
  | .d => "d"
  | .v => "v"
  | .u => "u"
  | .n => "n"

def Part.suffix : Part → String
  | .value => ""
  | .sq => "_sq"
  | .neg => "_neg"
  | .negSq => "_negsq"

/-- A name as the clauses spell it. -/
def spellName : Name → String
  | .field f => f
  | .safe f => f ++ "_safe"
  | .derived pre f part => LegPrefix.spell pre ++ "_" ++ f ++ Part.suffix part

/-- A name as the reply spells it. -/
def spellSum (name : SumName) : String :=
  "sum_" ++ LegPrefix.spell name.pre ++ "_" ++ name.f ++ Part.suffix name.part

def underscores (s : String) : ℕ := s.toList.count '_'

@[simp] theorem underscores_append (s t : String) :
    underscores (s ++ t) = underscores s + underscores t := by
  rw [underscores, String.toList_append, List.count_append]
  rfl

/-- The field behind a name. -/
def fieldBehind : Name → String
  | .field f => f
  | .safe f => f
  | .derived _ f _ => f

/-- The underscores that the spelling adds to those of the field. -/
def addedUnderscores : Name → ℕ
  | .field _ => 0
  | .safe _ => 1
  | .derived _ _ _ => 2

theorem underscores_spell (pre : LegPrefix) : underscores (LegPrefix.spell pre) = 0 := by
  cases pre <;> decide

theorem underscores_suffix (part : Part) :
    underscores (Part.suffix part) = if part = .value then 0 else 1 := by
  cases part <;> decide

theorem suffix_injective {x y : String} {part part' : Part}
    (same : x ++ Part.suffix part = y ++ Part.suffix part')
    (even : underscores x = underscores y) : part = part' := by
  have counts := congrArg underscores same
  simp only [underscores_append, underscores_suffix] at counts
  have ends := congrArg (fun s => s.toList.reverse) same
  by_cases plain : part = .value
  · by_cases plain' : part' = .value
    · rw [plain, plain']
    · rw [if_pos plain, if_neg plain'] at counts
      omega
  · by_cases plain' : part' = .value
    · rw [if_neg plain, if_pos plain'] at counts
      omega
    · cases part <;> cases part' <;> first | rfl | simp [Part.suffix] at ends plain plain'

theorem tagged_injective {pre pre' : LegPrefix} {f f' : String} {part part' : Part}
    (same : LegPrefix.spell pre ++ "_" ++ f ++ Part.suffix part =
      LegPrefix.spell pre' ++ "_" ++ f' ++ Part.suffix part')
    (even : underscores f = underscores f') : pre = pre' ∧ f = f' ∧ part = part' := by
  have parts : part = part' := by
    apply suffix_injective same
    simp only [underscores_append, underscores_spell, even]
  subst parts
  have chars := congrArg String.toList same
  simp only [String.toList_append] at chars
  have front := List.append_cancel_right chars
  have alike : pre = pre' := by
    cases pre <;> cases pre' <;> first | rfl | simp [LegPrefix.spell] at front
  subst alike
  exact ⟨rfl, String.toList_injective (List.append_cancel_left front), rfl⟩

/-- No clause has the value itself for an alias of its own. -/
def Given (a : Name) : Prop := ∀ pre f, a ≠ .derived pre f .value

theorem underscores_spellName {a : Name} (given : Given a) :
    underscores (spellName a) = underscores (fieldBehind a) + addedUnderscores a := by
  cases a with
  | field f => rfl
  | safe f => simp [spellName, fieldBehind, underscores, addedUnderscores]
  | derived pre f part =>
    have valued : part ≠ .value := fun value => given pre f (by rw [value])
    have bar : underscores "_" = 1 := by decide
    simp only [spellName, underscores_append, underscores_spell, underscores_suffix, fieldBehind,
      if_neg valued, bar, addedUnderscores]
    omega

theorem spellName_injective {a b : Name} (same : spellName a = spellName b)
    (even : underscores (fieldBehind a) = underscores (fieldBehind b))
    (givenA : Given a) (givenB : Given b) : a = b := by
  have counts := congrArg underscores same
  rw [underscores_spellName givenA, underscores_spellName givenB, even] at counts
  have kinds := Nat.add_left_cancel counts
  cases a with
  | field f =>
    cases b with
    | field f' => exact congrArg Name.field same
    | safe f' => cases kinds
    | derived pre' f' part' => cases kinds
  | safe f =>
    cases b with
    | field f' => cases kinds
    | safe f' =>
      have chars := congrArg String.toList same
      simp only [spellName, String.toList_append] at chars
      rw [String.toList_injective (List.append_cancel_right chars)]
    | derived pre' f' part' => cases kinds
  | derived pre f part =>
    cases b with
    | field f' => cases kinds
    | safe f' => cases kinds
    | derived pre' f' part' =>
      obtain ⟨rfl, rfl, rfl⟩ := tagged_injective same even
      rfl

theorem spellSum_injective {a b : SumName} (same : spellSum a = spellSum b)
    (even : underscores a.f = underscores b.f) : a = b := by
  have tagged : LegPrefix.spell a.pre ++ "_" ++ a.f ++ Part.suffix a.part =
      LegPrefix.spell b.pre ++ "_" ++ b.f ++ Part.suffix b.part := by
    have chars := congrArg String.toList same
    simp only [spellSum, String.toList_append, List.append_assoc,
      List.append_cancel_left_eq] at chars
    apply String.toList_injective
    simpa only [String.toList_append, List.append_assoc] using chars
  obtain ⟨pre, f, part⟩ := tagged_injective tagged even
  cases a
  cases b
  simp_all

section Request
variable {schema : CalcSchema} {rc : String} {leg : FastLeg} {lazyMath : Bool}

/-- The tenor labels of a per-tenor class are not empty and have no underscore. -/
def PlainLabels (schema : CalcSchema) (rc : String) : Prop :=
  isPerTenor schema rc = true → ∀ t ∈ tenorNodesOf schema rc, t ≠ "" ∧ underscores t = 0

theorem underscores_fieldFor (plain : PlainLabels schema rc) (pre lower : String)
    {root root' : String} (roots : underscores root = underscores root') {t t' : String}
    (ht : t ∈ fieldTenors schema rc) (ht' : t' ∈ fieldTenors schema rc) :
    underscores (fieldFor pre lower root t) = underscores (fieldFor pre lower root' t') := by
  have tails : underscores (if t = "" then "" else "_" ++ t) =
      underscores (if t' = "" then "" else "_" ++ t') := by
    unfold fieldTenors at ht ht'
    by_cases perTenor : isPerTenor schema rc = true
    · rw [if_pos perTenor] at ht ht'
      obtain ⟨named, bare⟩ := plain perTenor t ht
      obtain ⟨named', bare'⟩ := plain perTenor t' ht'
      rw [if_neg named, if_neg named', underscores_append, underscores_append, bare, bare']
    · rw [if_neg perTenor, List.mem_singleton] at ht ht'
      rw [ht, ht']
  simp only [fieldFor, underscores_append, roots, tails]

/-- All fields of a request have the same number of underscores. -/
theorem underscores_item (plain : PlainLabels schema rc) {split : Bool} {a b : Item}
    (ha : a ∈ requestItems split (requestOf schema rc leg lazyMath).1)
    (hb : b ∈ requestItems split (requestOf schema rc leg lazyMath).1) :
    underscores a.f = underscores b.f := by
  rw [requestOf_fields] at ha hb
  have roots : underscores "cvr_up" = underscores "cvr_down" := by decide
  cases leg with
  | delta =>
    simp only [requestItems, resolveLegFieldsForPrefix, List.map_map, List.map_nil,
      List.append_nil, List.mem_map, Function.comp_apply] at ha hb
    obtain ⟨t, ht, rfl⟩ := ha
    obtain ⟨t', ht', rfl⟩ := hb
    exact underscores_fieldFor plain _ _ rfl ht ht'
  | vega =>
    simp only [requestItems, resolveLegFieldsForPrefix, List.map_map, List.map_nil,
      List.append_nil, List.nil_append, List.mem_map, Function.comp_apply] at ha hb
    obtain ⟨t, ht, rfl⟩ := ha
    obtain ⟨t', ht', rfl⟩ := hb
    exact underscores_fieldFor plain _ _ rfl ht ht'
  | curvature =>
    simp only [requestItems, resolveLegFieldsForPrefix, List.map_map, List.map_nil,
      List.nil_append, List.mem_append, List.mem_map, Function.comp_apply] at ha hb
    rcases ha with ⟨t, ht, rfl⟩ | ⟨t, ht, rfl⟩
    · rcases hb with ⟨t', ht', rfl⟩ | ⟨t', ht', rfl⟩
      · exact underscores_fieldFor plain _ _ rfl ht ht'
      · exact underscores_fieldFor plain _ _ roots ht ht'
    · rcases hb with ⟨t', ht', rfl⟩ | ⟨t', ht', rfl⟩
      · exact underscores_fieldFor plain _ _ roots.symm ht ht'
      · exact underscores_fieldFor plain _ _ rfl ht ht'

/-- No two sums of a request are spelled alike. -/
theorem spellSum_apart (plain : PlainLabels schema rc) {split : Bool} {a b : SumName}
    (ha : a ∈ sumNames (requestItems split (requestOf schema rc leg lazyMath).1))
    (hb : b ∈ sumNames (requestItems split (requestOf schema rc leg lazyMath).1))
    (same : spellSum a = spellSum b) : a = b := by
  obtain ⟨it, mem, _, shape⟩ := mem_sumNames.mp ha
  obtain ⟨it', mem', _, shape'⟩ := mem_sumNames.mp hb
  refine spellSum_injective same ?_
  rw [shape, shape']
  exact underscores_item plain mem mem'

/-- A label with an underscore can make two sums one. -/
example : spellSum ⟨.d, "ws_girr_delta_1Y", .sq⟩ =
    spellSum ⟨.d, "ws_girr_delta_1Y_sq", .value⟩ := by
  decide

/-- A name that the clauses of an item load or give. -/
def Item.names (it : Item) (a : Name) : Prop := a = .field it.f ∨ it.gives a

theorem Item.names_fieldBehind {it : Item} {a : Name} (names : Item.names it a) :
    fieldBehind a = it.f ∧ Given a := by
  rcases names with rfl | ⟨part, _, rfl⟩
  · exact ⟨rfl, fun _ _ => Name.noConfusion⟩
  · unfold srcOf
    split
    · exact ⟨rfl, fun _ _ => Name.noConfusion⟩
    · rename_i derived
      refine ⟨rfl, fun pre f same => derived ?_⟩
      cases same
      rfl

/-- No two names in the pipeline of a request are spelled alike. -/
theorem spellName_apart (plain : PlainLabels schema rc) {split : Bool} {a b : Name} {it it' : Item}
    (mem : it ∈ requestItems split (requestOf schema rc leg lazyMath).1)
    (mem' : it' ∈ requestItems split (requestOf schema rc leg lazyMath).1)
    (ha : Item.names it a) (hb : Item.names it' b) (same : spellName a = spellName b) : a = b := by
  obtain ⟨behind, given⟩ := Item.names_fieldBehind ha
  obtain ⟨behind', given'⟩ := Item.names_fieldBehind hb
  refine spellName_injective same ?_ given given'
  rw [behind, behind']
  exact underscores_item plain mem mem'

/-- The rows by bucket are answered in full: the labels are plain, and no node has more buckets
than the LIMIT lets through. -/
structure RowsAnswerable (schema : CalcSchema) (rc : String) (nodes : List Node) : Prop where
  labels : PlainLabels schema rc
  bucket : Within IndexDoc.bucket bucketLimit nodes

end Request

end AliasNames
