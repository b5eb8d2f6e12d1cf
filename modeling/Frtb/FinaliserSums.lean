import Frtb.RollupFinaliser

/-!
# What the finaliser's aggregate computes

Each name of the pipeline has one value for a document. A reply row holds the
sums of those values over the documents of its bucket.
-/

namespace RollupFinaliser

open AssocMaps JsonText EnrichDoc RollupKeys RedisStore RollupDelta SlimWriter ApplyExpr
open FastPath (WeightSpec perTenorClasses)

section Expressions
variable {row : Name → Option ℚ} {f : Field} {searchVer : ℕ} {mult : ℚ}

/-- What `safeExpr` makes of a field. Without `case` the multiplier binds to the
zero that is added. -/
def safeValue (searchVer : ℕ) (mult : ℚ) (v : Option ℚ) : ℚ :=
  if searchVer < 80000 then v.getD 0 else v.getD 0 * mult

/-- What `existsAs1` makes of a field. -/
def presenceOf (searchVer : ℕ) (v : Option ℚ) : ℚ :=
  if searchVer < 80000 then (if v.getD 0 = 0 then 0 else 1) else (if v.isSome then 1 else 0)

theorem evalText_safeExpr :
    evalText row (safeExpr f mult searchVer) =
      some (safeValue searchVer mult (row (.field f))) := by
  unfold safeExpr nullSafe safeValue
  by_cases new : 80000 ≤ searchVer
  · rw [if_pos new, if_neg (not_lt.mpr new)]
    by_cases unit : mult = 1
    · have parsed : parse [Tok.caseOf, .lpar, .existsOf, .lpar, .ref (Name.field f), .rpar, .comma,
          .ref (.field f), .comma, .lit 0, .rpar] =
          some (.ifExists (.field f) (.ref (.field f)) (.lit 0)) := rfl
      rw [if_pos unit, evalText, parsed, unit, mul_one]
      cases here : row (.field f) <;> simp [eval, here]
    · have parsed : parse (paren ([Tok.caseOf, .lpar, .existsOf, .lpar, .ref (Name.field f), .rpar,
          .comma, .ref (.field f), .comma, .lit 0, .rpar] ++ [Tok.times, .lit mult])) =
          some (.mul (.ifExists (.field f) (.ref (.field f)) (.lit 0)) (.lit mult)) := rfl
      rw [if_neg unit, evalText, parsed]
      cases here : row (.field f) <;> simp [eval, here]
  · rw [if_neg new, if_pos (not_le.mp new)]
    by_cases unit : mult = 1
    · have parsed : parse [Tok.ref (Name.field f), .plus, .lit 0] =
          some (.add (.ref (.field f)) (.lit 0)) := rfl
      rw [if_pos unit, evalText, parsed]
      simp [eval]
    · have parsed : parse (paren ([Tok.ref (Name.field f), .plus, .lit 0] ++
          [Tok.times, .lit mult])) =
          some (.add (.ref (.field f)) (.mul (.lit 0) (.lit mult))) := rfl
      rw [if_neg unit, evalText, parsed]
      simp [eval]

theorem evalText_existsAs1 :
    evalText row (existsAs1 f searchVer) = some (presenceOf searchVer (row (.field f))) := by
  unfold existsAs1 presenceOf
  by_cases new : 80000 ≤ searchVer
  · have parsed : parse [Tok.caseOf, .lpar, .existsOf, .lpar, .ref (Name.field f), .rpar, .comma,
        .lit 1, .comma, .lit 0, .rpar] = some (.ifExists (.field f) (.lit 1) (.lit 0)) := rfl
    rw [if_pos new, if_neg (not_lt.mpr new), evalText, parsed]
    rfl
  · have parsed : parse (paren [Tok.ref (Name.field f), .plus, .lit 0, .unequal, .lit 0]) =
        some (.ne (.add (.ref (.field f)) (.lit 0)) (.lit 0)) := rfl
    rw [if_neg new, if_pos (not_le.mp new), evalText, parsed]
    simp [eval]

theorem evalText_squareExpr {name : Name} {x : ℚ} (here : row name = some x) :
    evalText row (squareExpr name) = some (x * x) := by
  have parsed : parse (squareExpr name) = some (.mul (.ref name) (.ref name)) := rfl
  rw [evalText, parsed]
  simp [eval, here]

theorem evalText_rowExpr {names : List Name} (nonempty : names ≠ []) :
    evalText row (rowExpr names) = some (names.map fun name => (row name).getD 0).sum := by
  obtain ⟨name, rest, rfl⟩ := List.exists_cons_of_ne_nil nonempty
  unfold rowExpr
  cases rest with
  | nil =>
    have parsed : parse (refSum [name]) = some (.ref name) := rfl
    rw [if_pos (show [name].length = 1 from rfl), evalText, parsed]
    simp [eval]
  | cons next rest => rw [if_neg (by simp), evalText_refSum]

theorem evalText_presence {names : List Name} (nonempty : names ≠ []) :
    evalText row (paren (rowExpr names ++ [Tok.greater, .lit 0])) =
      some (if 0 < (names.map fun name => (row name).getD 0).sum then 1 else 0) := by
  obtain ⟨name, rest, rfl⟩ := List.exists_cons_of_ne_nil nonempty
  unfold rowExpr
  cases rest with
  | nil =>
    have parsed : parse (paren (refSum [name] ++ [Tok.greater, .lit 0])) =
        some (.lt (.lit 0) (.ref name)) := rfl
    rw [if_pos (show [name].length = 1 from rfl), evalText, parsed]
    simp only [Option.map_some, eval, List.map_cons, List.map_nil, List.sum_cons, List.sum_nil,
      add_zero]
    rfl
  | cons next rest => rw [if_neg (by simp), evalText_refSum_positive]

end Expressions

section Multipliers
variable {schema : Schema} {rc : String} {cfg : RiskClassConfig}

/-- The literal in the clause of a field. -/
def clauseWeight (schema : Schema) (rc : String) (cfg : RiskClassConfig) (leg : String)
    (label : Option String) : ℚ :=
  match resolveWeights schema cfg leg (isPerTenor rc cfg) with
  | .constant value => value
  | .byTenor _ => legWeight "Delta" (tableOf schema cfg) "" label
  | .byBucket _ => 1

/-- The values per tenor are listed along the fields. -/
theorem multiplier_eq {leg : String} {f : Field} {i : ℕ}
    (mem : (f, i) ∈ (sFields rc cfg leg).zipIdx) :
    f.1 = leg ∧ multiplier (resolveWeights schema cfg leg (isPerTenor rc cfg)) i =
      clauseWeight schema rc cfg leg f.2 := by
  have at_i : (sFields rc cfg leg)[i]? = some f := (List.mk_mem_zipIdx_iff_getElem?.mp mem)
  unfold sFields at at_i
  rw [List.getElem?_map] at at_i
  obtain ⟨label, here, rfl⟩ := Option.map_eq_some_iff.mp at_i
  refine ⟨rfl, ?_⟩
  unfold clauseWeight
  cases spec : resolveWeights schema cfg leg (isPerTenor rc cfg) with
  | constant value => rfl
  | byBucket map => rfl
  | byTenor values =>
    unfold resolveWeights at spec
    split at spec
    · cases spec
    · cases table : tableOf schema cfg with
      | none => rw [table] at spec; cases spec
      | some table' =>
        rw [table] at spec
        cases table' with
        | constant weight => cases spec
        | byBucket map => cases spec
        | byTenor weights =>
          dsimp only at spec
          split at spec
          · rename_i perTenor
            cases spec
            rw [indexLabels, if_pos perTenor.1, List.getElem?_map] at here
            obtain ⟨t, node, rfl⟩ := Option.map_eq_some_iff.mp here
            simp [multiplier, node, legWeight, weightFor]
          · cases spec

end Multipliers

section Pipeline
variable {schema : Schema} {rc : String} {cfg : RiskClassConfig} {sens : SensitivityType}
  {searchVer : ℕ} {fields : Field → Option ℚ}

def indexFields (rc : String) (cfg : RiskClassConfig) (sens : SensitivityType) : List Field :=
  (legsBySens sens).flatMap (sFields rc cfg)

theorem mem_indexFields {f : Field} : f ∈ indexFields rc cfg sens ↔
    f.1 ∈ legsBySens sens ∧ f.2 ∈ indexLabels rc cfg := by
  simp only [indexFields, sFields, List.mem_flatMap, List.mem_map]
  constructor
  · rintro ⟨leg, listed, label, here, rfl⟩
    exact ⟨listed, here⟩
  · rintro ⟨listed, here⟩
    exact ⟨f.1, listed, f.2, here, rfl⟩

theorem indexLabels_ne_nil (rc : String) (cfg : RiskClassConfig) : indexLabels rc cfg ≠ [] := by
  unfold indexLabels
  split
  · rename_i perTenor
    rw [isPerTenor, Bool.and_eq_true, decide_eq_true_eq, decide_eq_true_eq] at perTenor
    exact fun empty => perTenor.2 (List.map_eq_nil_iff.mp empty)
  · exact List.cons_ne_nil _ _

theorem indexFields_ne_nil : indexFields rc cfg sens ≠ [] := by
  obtain ⟨label, rest, labels⟩ := List.exists_cons_of_ne_nil (indexLabels_ne_nil rc cfg)
  have first : ∃ leg, leg ∈ legsBySens sens := by
    cases sens <;> exact ⟨_, List.mem_cons_self⟩
  obtain ⟨leg, listed⟩ := first
  have mem : (leg, label) ∈ indexFields rc cfg sens :=
    mem_indexFields.mpr ⟨listed, by rw [labels]; exact List.mem_cons_self⟩
  exact List.ne_nil_of_mem mem

def safeAt (schema : Schema) (rc : String) (cfg : RiskClassConfig) (searchVer : ℕ)
    (fields : Field → Option ℚ) (f : Field) : ℚ :=
  safeValue searchVer (clauseWeight schema rc cfg f.1 f.2) (fields f)

/-- The values of a leg over the fields of the class. -/
def rowSum (schema : Schema) (rc : String) (cfg : RiskClassConfig) (searchVer : ℕ)
    (fields : Field → Option ℚ) (leg : String) : ℚ :=
  ((sFields rc cfg leg).map (safeAt schema rc cfg searchVer fields)).sum

/-- Whether the row is counted under the scalar key. -/
def presentRow (rc : String) (cfg : RiskClassConfig) (sens : SensitivityType) (searchVer : ℕ)
    (fields : Field → Option ℚ) : ℚ :=
  if 0 < ((indexFields rc cfg sens).map fun f => presenceOf searchVer (fields f)).sum then 1 else 0

local instance lawfulBEq_field : LawfulBEq Field := inferInstance

/-- The value of a name for a document whose fields are `fields`. -/
def valueOf (schema : Schema) (rc : String) (cfg : RiskClassConfig) (sens : SensitivityType)
    (searchVer : ℕ) (fields : Field → Option ℚ) : Name → Option ℚ
  | .field f => if f ∈ indexFields rc cfg sens then fields f else none
  | .safe f => some (safeAt schema rc cfg searchVer fields f)
  | .sq f => some (safeAt schema rc cfg searchVer fields f * safeAt schema rc cfg
      searchVer fields f)
  | .n f => some (presenceOf searchVer (fields f))
  | .row leg => some (rowSum schema rc cfg searchVer fields leg)
  | .rowSq leg => some (rowSum schema rc cfg searchVer fields leg *
      rowSum schema rc cfg searchVer fields leg)
  | .rowPresent => some (presentRow rc cfg sens searchVer fields)

/-- The names that are there before the clauses. -/
def IsField (name : Name) : Prop := ∃ f, name = .field f

theorem settles_fieldApply {leg : String} {f : Field} {i : ℕ} (listed : leg ∈ legsBySens sens)
    (mem : (f, i) ∈ (sFields rc cfg leg).zipIdx) :
    Settles (valueOf schema rc cfg sens searchVer fields) IsField
      (fieldApply searchVer f
        (multiplier (resolveWeights schema cfg leg (isPerTenor rc cfg)) i)) := by
  obtain ⟨own, literal⟩ := @multiplier_eq schema _ _ _ _ _ mem
  have field : f ∈ indexFields rc cfg sens := by
    refine List.mem_flatMap.mpr ⟨leg, listed, ?_⟩
    exact List.mem_of_getElem? (List.mk_mem_zipIdx_iff_getElem?.mp mem)
  have loaded : ∀ row : Name → Option ℚ,
      row (.field f) = valueOf schema rc cfg sens searchVer fields (.field f) →
      row (.field f) = fields f := by
    intro row here
    rw [here, valueOf, if_pos field]
  refine ⟨?_, ?_, ?_, trivial⟩
  · intro row settled
    rw [evalText_safeExpr, loaded row (settled _ ⟨f, rfl⟩), literal, ← own]
    rfl
  · intro row settled
    rw [evalText_squareExpr (settled (.safe f) (.inr rfl))]
    rfl
  · intro row settled
    rw [evalText_existsAs1, loaded row (settled _ (.inl (.inl ⟨f, rfl⟩)))]
    rfl

/-- The names that the clauses of the fields give. -/
theorem given_by_fields {f : Field} (field : f ∈ indexFields rc cfg sens) (name : Name)
    (own : name = .safe f ∨ name = .sq f ∨ name = .n f) :
    name ∈ ((legsBySens sens).flatMap fun leg => (sFields rc cfg leg).zipIdx.flatMap fun p =>
      fieldApply searchVer p.1
        (multiplier (resolveWeights schema cfg leg (isPerTenor rc cfg)) p.2)).map Prod.snd := by
  obtain ⟨leg, listed, mem⟩ := List.mem_flatMap.mp field
  obtain ⟨i, here⟩ := List.mem_iff_getElem?.mp mem
  simp only [List.map_flatMap, List.mem_flatMap]
  refine ⟨leg, listed, (f, i), List.mk_mem_zipIdx_iff_getElem?.mpr here, ?_⟩
  simpa [fieldApply] using own

theorem settles_rowApply {known : Name → Prop} {leg : String} (listed : leg ∈ legsBySens sens)
    (safe : ∀ f ∈ indexFields rc cfg sens, known (.safe f)) :
    Settles (valueOf schema rc cfg sens searchVer fields) known
      (rowApply sens leg (sFields rc cfg leg)) := by
  have nonempty : (sFields rc cfg leg).map Name.safe ≠ [] := by
    simp [sFields, indexLabels_ne_nil]
  refine ⟨?_, ?_⟩
  · intro row settled
    rw [evalText_rowExpr nonempty]
    refine congrArg some ?_
    rw [List.map_map, rowSum]
    refine congrArg List.sum (List.map_congr_left ?_)
    intro f mem
    have known_f := settled (.safe f) (safe f (List.mem_flatMap.mpr ⟨leg, listed, mem⟩))
    rw [Function.comp_apply, known_f]
    rfl
  · split
    · refine ⟨?_, trivial⟩
      intro row settled
      rw [evalText_squareExpr (settled (.row leg) (.inr rfl))]
      rfl
    · exact trivial

theorem settles_aggregate : Settles (valueOf schema rc cfg sens searchVer fields) IsField
    (aggregateArgs schema rc cfg sens searchVer).apply := by
  refine Settles.append (Settles.append ?_ ?_) ?_
  · refine Settles.flatMap fun leg listed => Settles.flatMap fun p mem => ?_
    exact settles_fieldApply listed mem
  · refine Settles.flatMap fun leg listed => settles_rowApply listed fun f field => ?_
    exact .inr (given_by_fields field _ (.inl rfl))
  · refine ⟨?_, trivial⟩
    intro row settled
    have nonempty : (indexFields rc cfg sens).map Name.n ≠ [] := by
      simp [indexFields_ne_nil]
    rw [show presenceExpr ((legsBySens sens).flatMap (sFields rc cfg)) =
      paren (rowExpr ((indexFields rc cfg sens).map Name.n) ++ [Tok.greater, .lit 0]) from rfl,
      evalText_presence nonempty, List.map_map]
    have each : (indexFields rc cfg sens).map ((fun name => (row name).getD 0) ∘ Name.n) =
        (indexFields rc cfg sens).map fun f => presenceOf searchVer (fields f) := by
      refine List.map_congr_left fun f field => ?_
      have given := settled (.n f) (.inr (by
        rw [List.map_append, List.mem_append]
        exact .inl (given_by_fields field _ (.inr (.inr rfl)))))
      rw [Function.comp_apply, given]
      rfl
    rw [each]
    rfl

/-- A name that the clauses give has its value. -/
theorem pipelineRow_eq {name : Name}
    (given : name ∈ (aggregateArgs schema rc cfg sens searchVer).apply.map Prod.snd) :
    pipelineRow (aggregateArgs schema rc cfg sens searchVer) fields name =
      valueOf schema rc cfg sens searchVer fields name := by
  refine applyAll_settled settles_aggregate ?_ (.inr given)
  rintro _ ⟨f, rfl⟩
  have loads : f ∈ (aggregateArgs schema rc cfg sens searchVer).load ↔
      f ∈ indexFields rc cfg sens := List.mem_eraseDups
  simp only [loadedRow, valueOf, loads]

end Pipeline

section Replies
variable {schema : Schema} {rc : String} {cfg : RiskClassConfig} {sens : SensitivityType}
  {searchVer : ℕ}

/-- The pipeline name that a sum is over. -/
def srcOf : SumName → Name
  | .tenorSum t leg => .safe (leg, some t)
  | .tenorSumsq t leg => .sq (leg, some t)
  | .tenorCount t leg => .n (leg, some t)
  | .scalarSum leg => .row leg
  | .scalarSumsq leg => .rowSq leg
  | .scalarCount => .rowPresent

/-- The sums that are asked for. The squares are left out for curvature. -/
def Asked (rc : String) (cfg : RiskClassConfig) (sens : SensitivityType) : SumName → Prop
  | .tenorSum t leg => (leg, some t) ∈ indexFields rc cfg sens
  | .tenorSumsq t leg => (leg, some t) ∈ indexFields rc cfg sens ∧ sens ≠ .curvature
  | .tenorCount t leg => (leg, some t) ∈ indexFields rc cfg sens
  | .scalarSum leg => leg ∈ legsBySens sens
  | .scalarSumsq leg => leg ∈ legsBySens sens ∧ sens ≠ .curvature
  | .scalarCount => True

theorem reduce_src {p : Name × SumName}
    (mem : p ∈ (aggregateArgs schema rc cfg sens searchVer).reduce) : p.1 = srcOf p.2 := by
  rcases List.mem_append.mp mem with front | last
  · rcases List.mem_append.mp front with field | row
    · obtain ⟨f, _, own⟩ := List.mem_flatMap.mp field
      obtain ⟨leg, _ | t⟩ := f
      · cases own
      · by_cases curved : sens = .curvature
        · rcases (by simpa [fieldReduce, curved] using own) with rfl | rfl <;> rfl
        · rcases (by simpa [fieldReduce, curved] using own) with rfl | rfl | rfl <;> rfl
    · obtain ⟨leg, _, own⟩ := List.mem_flatMap.mp row
      by_cases curved : sens = .curvature
      · rcases (by simpa [rowReduce, curved] using own) with rfl
        rfl
      · rcases (by simpa [rowReduce, curved] using own) with rfl | rfl <;> rfl
  · rw [List.mem_singleton.mp last]
    rfl

theorem mem_reduce {name : SumName} (asked : Asked rc cfg sens name) :
    (srcOf name, name) ∈ (aggregateArgs schema rc cfg sens searchVer).reduce := by
  have field : ∀ {f : Field}, f ∈ indexFields rc cfg sens → ∀ p ∈ fieldReduce sens f,
      p ∈ (aggregateArgs schema rc cfg sens searchVer).reduce := fun listed p own =>
    List.mem_append_left _ (List.mem_append_left _ (List.mem_flatMap.mpr ⟨_, listed, own⟩))
  have row : ∀ {leg : String}, leg ∈ legsBySens sens → ∀ p ∈ rowReduce sens leg,
      p ∈ (aggregateArgs schema rc cfg sens searchVer).reduce := fun listed p own =>
    List.mem_append_left _ (List.mem_append_right _ (List.mem_flatMap.mpr ⟨_, listed, own⟩))
  cases name with
  | tenorSum t leg => exact field asked _ (by simp [fieldReduce, srcOf])
  | tenorSumsq t leg => exact field asked.1 _ (by simp [fieldReduce, srcOf, asked.2])
  | tenorCount t leg => exact field asked _ (by simp [fieldReduce, srcOf])
  | scalarSum leg => exact row asked _ (by simp [rowReduce, srcOf])
  | scalarSumsq leg => exact row asked.1 _ (by simp [rowReduce, srcOf, asked.2])
  | scalarCount => exact List.mem_append_right _ (List.mem_singleton.mpr rfl)

theorem reducerOf_eq {name : SumName} (asked : Asked rc cfg sens name) :
    reducerOf (aggregateArgs schema rc cfg sens searchVer) name = some (srcOf name) := by
  unfold reducerOf
  cases found : (aggregateArgs schema rc cfg sens searchVer).reduce.reverse.find?
      fun p => p.2 = name with
  | none =>
    have none_named := List.find?_eq_none.mp found _ (List.mem_reverse.mpr (mem_reduce asked))
    simp at none_named
  | some p =>
    have named := List.find?_some found
    rw [decide_eq_true_eq] at named
    rw [Option.map_some, reduce_src (List.mem_reverse.mp (List.mem_of_find?_eq_some found)), named]

theorem given_of_asked {name : SumName} (asked : Asked rc cfg sens name) :
    srcOf name ∈ (aggregateArgs schema rc cfg sens searchVer).apply.map Prod.snd := by
  have field : ∀ {f : Field}, f ∈ indexFields rc cfg sens → ∀ n, n = .safe f ∨
      n = .sq f ∨ n = .n f →
      n ∈ (aggregateArgs schema rc cfg sens searchVer).apply.map Prod.snd := by
    intro f listed n own
    rw [aggregateArgs, List.map_append, List.map_append]
    exact List.mem_append_left _ (List.mem_append_left _ (given_by_fields listed n own))
  have row : ∀ {leg : String}, leg ∈ legsBySens sens →
      ∀ c ∈ rowApply sens leg (sFields rc cfg leg),
      c.2 ∈ (aggregateArgs schema rc cfg sens searchVer).apply.map Prod.snd := by
    intro leg listed c own
    refine List.mem_map_of_mem (List.mem_append_left _ (List.mem_append_right _ ?_))
    exact List.mem_flatMap.mpr ⟨leg, listed, own⟩
  cases name with
  | tenorSum t leg => exact field asked _ (.inl rfl)
  | tenorSumsq t leg => exact field asked.1 _ (.inr (.inl rfl))
  | tenorCount t leg => exact field asked _ (.inr (.inr rfl))
  | scalarSum leg => exact row asked _ List.mem_cons_self
  | scalarSumsq leg =>
    refine row asked.1 (squareExpr (.row leg), .rowSq leg) ?_
    rw [rowApply, if_pos asked.2]
    exact List.mem_cons_of_mem _ List.mem_cons_self
  | scalarCount =>
    exact List.mem_map_of_mem (List.mem_append_right _ List.mem_cons_self)

/-- A number of the reply adds the values of the bucket's documents up. -/
theorem groupRow_number {name : SumName} (asked : Asked rc cfg sens name) (b : String)
    (docs : List Hash) :
    (groupRow (aggregateArgs schema rc cfg sens searchVer) rc b docs).number name =
      (docs.map fun d =>
        (valueOf schema rc cfg sens searchVer (fieldOf rc d) (srcOf name)).getD 0).sum := by
  simp only [ReplyRow.number, groupRow, reducerOf_eq asked, Option.map_some, Option.getD_some,
    pipelineRow_eq (given_of_asked asked)]

end Replies

end RollupFinaliser
