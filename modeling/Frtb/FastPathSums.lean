import Frtb.FastPath

/-!
# What the index aggregate computes

Each name of the pipeline has one value for a document, whatever the order of
the clauses. A reply row is the exact sums over the documents of its group,
except where the node reports `nan`, and so is a merged row over the documents
of all nodes.
-/

namespace FastPathSums

open AssocMaps ApplyExpr FastPath

section Expressions
variable {row : Name → Option ℚ} {f : String} {searchVer : ℕ} {multiplier : ℚ}

/-- What `safeExpr` makes of a field. Without `case` the multiplier binds to the
zero that is added. -/
def safeValue (searchVer : ℕ) (multiplier : ℚ) (v : Option ℚ) : ℚ :=
  if multiplier = 1 ∨ searchVer < 80000 then v.getD 0 else v.getD 0 * multiplier

def negativeOf (x : ℚ) : ℚ := if x < 0 then x else 0

/-- What a part sums of a null-safe value. -/
def partValue : Part → ℚ → ℚ
  | .value, x => x
  | .sq, x => x * x
  | .neg, x => negativeOf x
  | .negSq, x => negativeOf x * negativeOf x

theorem evalText_safeExpr :
    evalText row (safeExpr f multiplier searchVer) =
      some (safeValue searchVer multiplier (row (.field f))) := by
  unfold safeExpr nullCoerceApplyExpr safeValue
  by_cases unit : multiplier = 1
  · by_cases new : 80000 ≤ searchVer
    · have parsed : parse [Tok.caseOf, .lpar, .existsOf, .lpar, .ref (Name.field f), .rpar, .comma,
          .ref (.field f), .comma, .lit 0, .rpar] =
          some (.ifExists (.field f) (.ref (.field f)) (.lit 0)) := rfl
      simp only [unit, new, if_true, true_or, evalText, parsed, Option.map_some, eval]
      cases row (.field f) <;> rfl
    · have parsed : parse [Tok.ref (Name.field f), .plus, .lit 0] =
          some (.add (.ref (.field f)) (.lit 0)) := rfl
      simp only [unit, new, if_true, if_false, true_or, evalText, parsed, Option.map_some, eval,
        add_zero]
  · by_cases new : 80000 ≤ searchVer
    · have parsed : parse (paren ([Tok.caseOf, .lpar, .existsOf, .lpar, .ref (Name.field f), .rpar,
          .comma, .ref (.field f), .comma, .lit 0, .rpar] ++ [Tok.times, .lit multiplier])) =
          some (.mul (.ifExists (.field f) (.ref (.field f)) (.lit 0)) (.lit multiplier)) := rfl
      simp only [unit, new, not_lt.mpr new, if_true, if_false, or_self, evalText, parsed,
        Option.map_some, eval]
      cases row (.field f) <;> rfl
    · have parsed : parse (paren ([Tok.ref (Name.field f), .plus, .lit 0] ++
          [Tok.times, .lit multiplier])) =
          some (.add (.ref (.field f)) (.mul (.lit 0) (.lit multiplier))) := rfl
      simp only [unit, new, not_le.mp new, if_true, if_false, or_true, evalText, parsed,
        Option.map_some, eval, zero_mul, add_zero]

theorem evalText_squareExpr {x : ℚ} (safe : row (.safe f) = some x) :
    evalText row (squareExpr f) = some (partValue .sq x) := by
  have parsed : parse (squareExpr f) = some (.mul (.ref (.safe f)) (.ref (.safe f))) := rfl
  simp only [evalText, parsed, Option.map_some, eval, safe, Option.getD_some, partValue]

/-- The sign as a factor. -/
theorem indicator_mul (x : ℚ) : (if x < 0 then 1 else 0) * x = negativeOf x := by
  unfold negativeOf
  split
  · exact one_mul x
  · exact zero_mul x

theorem evalText_negativeExpr {x : ℚ} (safe : row (.safe f) = some x) :
    evalText row (negativeExpr f) = some (partValue .neg x) := by
  have parsed : parse (negativeExpr f) =
      some (.mul (.lt (.ref (.safe f)) (.lit 0)) (.ref (.safe f))) := rfl
  simp only [evalText, parsed, Option.map_some, eval, safe, Option.getD_some, partValue,
    indicator_mul]

theorem evalText_negativeSquareExpr {x : ℚ} (safe : row (.safe f) = some x) :
    evalText row (negativeSquareExpr f) = some (partValue .negSq x) := by
  have parsed : parse (negativeSquareExpr f) =
      some (.mul (.mul (.lt (.ref (.safe f)) (.lit 0)) (.ref (.safe f)))
        (.mul (.lt (.ref (.safe f)) (.lit 0)) (.ref (.safe f)))) := rfl
  simp only [evalText, parsed, Option.map_some, eval, safe, Option.getD_some, partValue,
    indicator_mul]

end Expressions

section Items

/-- The clauses of one field of one leg: with or without the split by sign. -/
structure Item where
  pre : LegPrefix
  f : String
  split : Bool

def Item.clauses (searchVer : ℕ) (mult : String → ℚ) (it : Item) : AggregateArgs :=
  if it.split then curvatureClauses it.pre searchVer it.f (mult it.f)
  else numericClauses it.pre searchVer it.f (mult it.f)

/-- The parts that the clauses of an item sum. -/
def Item.parts (it : Item) : List Part :=
  if it.split then [.value, .sq, .neg, .negSq] else [.value, .sq]

def sumNames (items : List Item) : List SumName :=
  items.flatMap fun it => it.parts.map fun part => ⟨it.pre, it.f, part⟩

/-- The pipeline name that a sum is over. -/
def srcOf (name : SumName) : Name :=
  if name.part = .value then .safe name.f else .derived name.pre name.f name.part

def itemArgs (searchVer : ℕ) (mult : String → ℚ) (items : List Item) : AggregateArgs :=
  joinClauses (items.map (Item.clauses searchVer mult))

/-- The value of a name for a document whose fields are `fields`. -/
def valueOf (searchVer : ℕ) (mult : String → ℚ) (fields : String → Option ℚ) : Name → ℚ
  | .field f => (fields f).getD 0
  | .safe f => safeValue searchVer (mult f) (fields f)
  | .derived _ f part => partValue part (safeValue searchVer (mult f) (fields f))

variable {searchVer : ℕ} {mult : String → ℚ} {fields : String → Option ℚ}

/-- The names that the clauses of an item give. -/
def Item.gives (it : Item) (name : Name) : Prop :=
  ∃ part ∈ it.parts, name = srcOf ⟨it.pre, it.f, part⟩

/-- What the pipeline has named so far has its value. -/
structure Settled (searchVer : ℕ) (mult : String → ℚ) (fields : String → Option ℚ)
    (row : Name → Option ℚ) : Prop where
  loaded : ∀ f, row (.field f) = fields f
  named : ∀ name x, row name = some x → x = valueOf searchVer mult fields name

/-- One clause that gives a name its value. -/
theorem Settled.give {row : Name → Option ℚ} (settled : Settled searchVer mult fields row)
    {text : List (Tok Name)} {name : Name} (derived : ∀ f, name ≠ .field f)
    (value : evalText row text = some (valueOf searchVer mult fields name)) :
    Settled searchVer mult fields (applyAll [(text, name)] row) ∧
      applyAll [(text, name)] row name = some (valueOf searchVer mult fields name) ∧
      ∀ other, row other ≠ none → applyAll [(text, name)] row other ≠ none := by
  have after : applyAll [(text, name)] row =
      Function.update row name (some (valueOf searchVer mult fields name)) := by
    rw [applyAll_cons, applyAll_nil, value]
  rw [after]
  refine ⟨⟨?_, ?_⟩, Function.update_self _ _ _, ?_⟩
  · intro f
    rw [Function.update_of_ne (fun h => derived f h.symm)]
    exact settled.loaded f
  · intro other y here
    by_cases same : other = name
    · subst same
      rw [Function.update_self, Option.some.injEq] at here
      exact here.symm
    · rw [Function.update_of_ne same] at here
      exact settled.named other y here
  · intro other here
    by_cases same : other = name
    · subst same
      rw [Function.update_self]
      exact Option.some_ne_none _
    · rwa [Function.update_of_ne same]

/-- The null-safe value and then any parts derived from it. -/
theorem Settled.derive {row : Name → Option ℚ} (settled : Settled searchVer mult fields row)
    {pre : LegPrefix} {f : String} (safe : row (.safe f) ≠ none)
    (parts : List (List (Tok Name) × Part))
    (values : ∀ p ∈ parts, ∀ row : Name → Option ℚ, ∀ x, row (.safe f) = some x →
      evalText row p.1 = some (partValue p.2 x)) :
    let after := applyAll (parts.map fun p => (p.1, .derived pre f p.2)) row
    Settled searchVer mult fields after ∧
      (∀ name, (∃ p ∈ parts, name = .derived pre f p.2) ∨ row name ≠ none → after name ≠ none) := by
  induction parts generalizing row with
  | nil =>
    refine ⟨settled, ?_⟩
    rintro name (⟨p, mem, _⟩ | here)
    · cases mem
    · exact here
  | cons p parts ih =>
    obtain ⟨x, here⟩ := Option.ne_none_iff_exists'.mp safe
    have value : evalText row p.1 = some (valueOf searchVer mult fields (.derived pre f p.2)) := by
      rw [values p (by simp) row x here, settled.named _ _ here]
      rfl
    obtain ⟨settled', own, kept⟩ := settled.give (fun g h => by cases h) value
    obtain ⟨final, given⟩ := ih settled' (kept _ safe)
      (fun p' mem => values p' (List.mem_cons_of_mem _ mem))
    refine ⟨final, ?_⟩
    rintro name (⟨p', mem, rfl⟩ | here)
    · rcases List.mem_cons.mp mem with rfl | mem
      · refine given _ (Or.inr ?_)
        rw [own]
        exact Option.some_ne_none _
      · exact given _ (Or.inl ⟨p', mem, rfl⟩)
    · exact given _ (Or.inr (kept _ here))

/-- The texts of the parts that an item derives. -/
def Item.derivedTexts (it : Item) : List (List (Tok Name) × Part) :=
  if it.split then
    [(negativeExpr it.f, .neg), (squareExpr it.f, .sq), (negativeSquareExpr it.f, .negSq)]
  else [(squareExpr it.f, .sq)]

theorem Item.apply_eq (it : Item) :
    (it.clauses searchVer mult).apply =
      (safeExpr it.f (mult it.f) searchVer, .safe it.f) ::
        it.derivedTexts.map fun p => (p.1, .derived it.pre it.f p.2) := by
  unfold Item.clauses Item.derivedTexts
  cases it.split <;> rfl

theorem Item.derivedTexts_values (it : Item) : ∀ p ∈ it.derivedTexts,
    ∀ row : Name → Option ℚ, ∀ x, row (.safe it.f) = some x →
      evalText row p.1 = some (partValue p.2 x) := by
  intro p mem
  have cases_ : p = (negativeExpr it.f, .neg) ∨ p = (squareExpr it.f, .sq) ∨
      p = (negativeSquareExpr it.f, .negSq) := by
    unfold Item.derivedTexts at mem
    split at mem
    · simpa using mem
    · exact Or.inr (Or.inl (List.mem_singleton.mp mem))
  rcases cases_ with rfl | rfl | rfl
  · exact fun _ _ safe => evalText_negativeExpr safe
  · exact fun _ _ safe => evalText_squareExpr safe
  · exact fun _ _ safe => evalText_negativeSquareExpr safe

theorem Item.gives_iff (it : Item) (name : Name) : it.gives name ↔
    name = .safe it.f ∨ ∃ p ∈ it.derivedTexts, name = .derived it.pre it.f p.2 := by
  unfold Item.gives Item.parts Item.derivedTexts srcOf
  cases it.split
  · simp
  · simp
    tauto

theorem Settled.item {row : Name → Option ℚ} (settled : Settled searchVer mult fields row)
    (it : Item) :
    Settled searchVer mult fields (applyAll (it.clauses searchVer mult).apply row) ∧
      ∀ name, it.gives name ∨ row name ≠ none →
        applyAll (it.clauses searchVer mult).apply row name ≠ none := by
  have value : evalText row (safeExpr it.f (mult it.f) searchVer) =
      some (valueOf searchVer mult fields (.safe it.f)) := by
    rw [evalText_safeExpr, settled.loaded]
    rfl
  obtain ⟨settled', own, kept⟩ := settled.give (fun g h => by cases h) value
  have defined : applyAll [(safeExpr it.f (mult it.f) searchVer, Name.safe it.f)] row
      (.safe it.f) ≠ none := by
    rw [own]
    exact Option.some_ne_none _
  obtain ⟨final, given⟩ := settled'.derive defined it.derivedTexts it.derivedTexts_values
  rw [it.apply_eq]
  refine ⟨final, ?_⟩
  intro name named
  rw [it.gives_iff] at named
  rcases named with (rfl | derived) | here
  · exact given _ (Or.inr defined)
  · exact given _ (Or.inl derived)
  · exact given _ (Or.inr (kept _ here))

/-- After the clauses of all items every name they give has its value. -/
theorem Settled.items {row : Name → Option ℚ} (settled : Settled searchVer mult fields row)
    (items : List Item) :
    let after := applyAll
        ((items.map (Item.clauses searchVer mult)).flatMap AggregateArgs.apply) row
    Settled searchVer mult fields after ∧
      ∀ name, (∃ it ∈ items, it.gives name) ∨ row name ≠ none → after name ≠ none := by
  induction items generalizing row with
  | nil =>
    refine ⟨settled, ?_⟩
    rintro name (⟨it, mem, _⟩ | here)
    · cases mem
    · exact here
  | cons it items ih =>
    obtain ⟨settled', kept⟩ := settled.item it
    obtain ⟨final, given⟩ := ih settled'
    simp only [List.map_cons, List.flatMap_cons, applyAll_append]
    refine ⟨final, ?_⟩
    rintro name (⟨it', mem, gives⟩ | here)
    · rcases List.mem_cons.mp mem with rfl | mem
      · exact given name (Or.inr (kept name (Or.inl gives)))
      · exact given name (Or.inl ⟨it', mem, gives⟩)
    · exact given name (Or.inr (kept name (Or.inr here)))

theorem mem_load (items : List Item) {it : Item} (mem : it ∈ items) :
    it.f ∈ (itemArgs searchVer mult items).load := by
  simp only [itemArgs, joinClauses, List.mem_eraseDups, List.mem_flatMap, List.mem_map,
    exists_exists_and_eq_and]
  refine ⟨it, mem, ?_⟩
  unfold Item.clauses
  split
  · exact List.mem_singleton.mpr rfl
  · exact List.mem_singleton.mpr rfl

theorem mem_sumNames {items : List Item} {name : SumName} : name ∈ sumNames items ↔
    ∃ it ∈ items, name.part ∈ it.parts ∧ name = ⟨it.pre, it.f, name.part⟩ := by
  simp only [sumNames, List.mem_flatMap, List.mem_map]
  constructor
  · rintro ⟨it, mem, part, hpart, rfl⟩
    exact ⟨it, mem, hpart, rfl⟩
  · rintro ⟨it, mem, hpart, same⟩
    exact ⟨it, mem, name.part, hpart, same.symm⟩

/-- The row of a document before any clause. -/
def loadedFields (args : AggregateArgs) (doc : IndexDoc) : Name → Option ℚ
  | .field f => if f ∈ args.load then doc.field f else none
  | _ => none

/-- The value of a sum's source in the row of a document. -/
theorem pipelineRow_src {items : List Item} {name : SumName} (mem : name ∈ sumNames items)
    (doc : IndexDoc) : (pipelineRow (itemArgs searchVer mult items) doc (srcOf name)).getD 0 =
      partValue name.part (safeValue searchVer (mult name.f) (doc.field name.f)) := by
  obtain ⟨it, hit, hpart, same⟩ := mem_sumNames.mp mem
  have field : it.f = name.f := by rw [same]
  have start : Settled searchVer mult
      (fun f => if f ∈ (itemArgs searchVer mult items).load then doc.field f else none)
      (loadedFields (itemArgs searchVer mult items) doc) := by
    constructor
    · intro f
      rfl
    · intro n x here
      cases n with
      | field f =>
        have loaded : (if f ∈ (itemArgs searchVer mult items).load then doc.field f else none) =
            some x := here
        rw [valueOf, loaded, Option.getD_some]
      | safe f => cases here
      | derived pre f part => cases here
  obtain ⟨final, given⟩ := start.items items
  have gives : it.gives (srcOf name) := ⟨name.part, hpart, by rw [← same]⟩
  obtain ⟨x, here⟩ := Option.ne_none_iff_exists'.mp (given _ (Or.inl ⟨it, hit, gives⟩))
  have value := final.named _ _ here
  have row : pipelineRow (itemArgs searchVer mult items) doc (srcOf name) = some x := here
  rw [row, Option.getD_some, value]
  have loaded : name.f ∈ (itemArgs searchVer mult items).load := field ▸ mem_load items hit
  unfold srcOf
  split
  · rename_i part
    simp only [valueOf, if_pos loaded, part, partValue]
  · simp only [valueOf, if_pos loaded]

theorem reducerOf_items (items : List Item) (name : SumName) :
    reducerOf (itemArgs searchVer mult items) name =
      if name ∈ sumNames items then some (srcOf name) else none := by
  have reduces : ∀ p ∈ (itemArgs searchVer mult items).reduce, p.1 = srcOf p.2 := by
    intro p mem
    simp only [itemArgs, joinClauses, List.mem_flatMap, List.mem_map,
      exists_exists_and_eq_and] at mem
    obtain ⟨it, _, mem⟩ := mem
    unfold Item.clauses at mem
    split at mem
    · simp only [curvatureClauses, List.mem_cons, List.not_mem_nil, or_false] at mem
      rcases mem with rfl | rfl | rfl | rfl <;> rfl
    · simp only [numericClauses, List.mem_cons, List.not_mem_nil, or_false] at mem
      rcases mem with rfl | rfl <;> rfl
  have names : ∀ name, name ∈ sumNames items ↔
      ∃ p ∈ (itemArgs searchVer mult items).reduce, p.2 = name := by
    intro name
    simp only [sumNames, itemArgs, joinClauses, List.mem_flatMap, List.mem_map,
      exists_exists_and_eq_and]
    constructor
    · rintro ⟨it, mem, part, hpart, rfl⟩
      refine ⟨(srcOf ⟨it.pre, it.f, part⟩, ⟨it.pre, it.f, part⟩), ⟨it, mem, ?_⟩, rfl⟩
      unfold Item.clauses
      unfold Item.parts at hpart
      split at hpart <;> rename_i split
      · rw [if_pos split]
        revert hpart
        cases part <;> simp [curvatureClauses, srcOf]
      · rw [if_neg split]
        revert hpart
        cases part <;> simp [numericClauses, srcOf]
    · rintro ⟨p, ⟨it, mem, hp⟩, rfl⟩
      refine ⟨it, mem, p.2.part, ?_⟩
      unfold Item.clauses at hp
      unfold Item.parts
      split at hp <;> rename_i split
      · simp only [curvatureClauses, List.mem_cons, List.not_mem_nil, or_false] at hp
        rw [if_pos split]
        rcases hp with rfl | rfl | rfl | rfl <;> simp
      · simp only [numericClauses, List.mem_cons, List.not_mem_nil, or_false] at hp
        rw [if_neg split]
        rcases hp with rfl | rfl <;> simp
  unfold reducerOf
  cases found : (itemArgs searchVer mult items).reduce.reverse.find? (fun p => p.2 = name) with
  | none =>
    rw [if_neg, Option.map_none]
    rw [names]
    rintro ⟨p, mem, same⟩
    have := List.find?_eq_none.mp found p (List.mem_reverse.mpr mem)
    simp [same] at this
  | some p =>
    have same : p.2 = name := by simpa using List.find?_some found
    have mem := List.mem_reverse.mp (List.mem_of_find?_eq_some found)
    rw [if_pos ((names name).mpr ⟨p, mem, same⟩), Option.map_some, reduces p mem, same]

end Items

section Maps
variable {K : Type} [DecidableEq K]

/-- A row added to what a key has already. -/
def joined : Option Record → Record → Record
  | none, row => row
  | some prev, row => mergeRecord prev row

theorem lookup_mergeInto (m : Assoc K Record) (p : K × Record) (k : K) :
    (mergeInto m p).lookup k = if k = p.1 then some (joined (m.lookup k) p.2) else m.lookup k := by
  unfold mergeInto
  by_cases same : k = p.1
  · subst same
    rw [AList.lookup_insert, if_pos rfl]
    cases m.lookup p.1 <;> rfl
  · rw [AList.lookup_insert_ne same, if_neg same]

theorem lookup_foldl_mergeInto_of_notMem {l : List (K × Record)} {k : K} (m : Assoc K Record)
    (absent : k ∉ l.map Prod.fst) : (l.foldl mergeInto m).lookup k = m.lookup k := by
  induction l generalizing m with
  | nil => rfl
  | cons p l ih =>
    rw [List.map_cons, List.mem_cons, not_or] at absent
    rw [List.foldl_cons, ih _ absent.2, lookup_mergeInto, if_neg absent.1]

theorem lookup_foldl_mergeInto_of_mem {l : List (K × Record)} {k : K} {row : Record}
    (m : Assoc K Record) (nodup : (l.map Prod.fst).Nodup) (mem : (k, row) ∈ l) :
    (l.foldl mergeInto m).lookup k = some (joined (m.lookup k) row) := by
  induction l generalizing m with
  | nil => cases mem
  | cons p l ih =>
    rw [List.map_cons, List.nodup_cons] at nodup
    rw [List.foldl_cons]
    rcases List.mem_cons.mp mem with rfl | mem
    · rw [lookup_foldl_mergeInto_of_notMem _ nodup.1, lookup_mergeInto, if_pos rfl]
    · have other : k ≠ p.1 := by
        rintro rfl
        exact nodup.1 (List.mem_map.mpr ⟨_, mem, rfl⟩)
      rw [ih _ nodup.2 mem, lookup_mergeInto, if_neg other]

variable {searchVer : ℕ} {mult : String → ℚ} {items : List Item}

/-- The exact sum behind a name. -/
def exactSum (searchVer : ℕ) (mult : String → ℚ) (name : SumName) (docs : List IndexDoc) : ℚ :=
  (docs.map fun d =>
    partValue name.part (safeValue searchVer (mult name.f) (d.field name.f))).sum

theorem exactSum_append (name : SumName) (docs docs' : List IndexDoc) :
    exactSum searchVer mult name (docs ++ docs') =
      exactSum searchVer mult name docs + exactSum searchVer mult name docs' := by
  simp only [exactSum, List.map_append, List.sum_append]

theorem sumOver_src {name : SumName} (mem : name ∈ sumNames items) (docs : List IndexDoc) :
    sumOver (itemArgs searchVer mult items) docs (srcOf name) =
      exactSum searchVer mult name docs := by
  unfold sumOver exactSum
  congr 1
  exact List.map_congr_left (fun d _ => pipelineRow_src mem d)

/-- The row holds the exact sums over `docs`, except those that are `nan`. -/
structure RowOf (searchVer : ℕ) (mult : String → ℚ) (items : List Item) (docs : List IndexDoc)
    (nan : SumName → Bool) (row : Record) : Prop where
  sums : ∀ name, row.sums name =
    if name ∈ sumNames items then
      some (if nan name then none else some (exactSum searchVer mult name docs))
    else none
  rowCount : row.rowCount = some (docs.length : ℚ)

omit [DecidableEq K] in
theorem rowOf_recordOf (nan : NanChoice K) (key : K) (docs : List IndexDoc) :
    RowOf searchVer mult items docs (fun name => nan key name && allMiss docs name)
      (recordOf (itemArgs searchVer mult items) nan key docs) := by
  refine ⟨?_, rfl⟩
  intro name
  simp only [recordOf, reducerOf_items]
  by_cases mem : name ∈ sumNames items
  · rw [if_pos mem, if_pos mem, Option.map_some, sumOver_src mem]
  · rw [if_neg mem, if_neg mem, Option.map_none]

theorem RowOf.merge {docs docs' : List IndexDoc} {nan nan' : SumName → Bool} {row row' : Record}
    (h : RowOf searchVer mult items docs nan row)
    (h' : RowOf searchVer mult items docs' nan' row') :
    RowOf searchVer mult items (docs ++ docs') (fun name => nan name || nan' name)
      (mergeRecord row row') := by
  constructor
  · intro name
    simp only [mergeRecord, h.sums, h'.sums]
    by_cases mem : name ∈ sumNames items
    · simp only [if_pos mem, Option.getD_some, addNum, exactSum_append]
      cases nan name <;> cases nan' name <;> rfl
    · simp only [if_neg mem]
  · simp [mergeRecord, h.rowCount, h'.rowCount, addNum]

end Maps

section Merging
variable {K : Type} [DecidableEq K] {searchVer : ℕ} {mult : String → ℚ} {items : List Item}
  {key : IndexDoc → K} {keep : K → Bool}

/-- The documents of one group. -/
def docsOf (key : IndexDoc → K) (docs : List IndexDoc) (k : K) : List IndexDoc :=
  docs.filter fun d => key d = k

theorem docsOf_append (docs docs' : List IndexDoc) (k : K) :
    docsOf key (docs ++ docs') k = docsOf key docs k ++ docsOf key docs' k :=
  List.filter_append ..

/-- A node reports `nan` for a group that it has documents of. -/
def nodeNan (nan : NanChoice K) (docs : List IndexDoc) (k : K) (name : SumName) : Bool :=
  docs ≠ [] && (nan k name && allMiss docs name)

/-- The map holds the kept groups of `docs`, each with its exact sums. -/
def MapOf (searchVer : ℕ) (mult : String → ℚ) (items : List Item) (key : IndexDoc → K)
    (keep : K → Bool) (docs : List IndexDoc) (nan : K → SumName → Bool) (m : Assoc K Record) :
    Prop :=
  ∀ k, if keep k ∧ docsOf key docs k ≠ [] then
    ∃ row, m.lookup k = some row ∧ RowOf searchVer mult items (docsOf key docs k) (nan k) row
  else m.lookup k = none

theorem MapOf.congr {docs : List IndexDoc} {nan nan' : K → SumName → Bool} {m : Assoc K Record}
    (h : MapOf searchVer mult items key keep docs nan m)
    (same : ∀ k name, nan k name = nan' k name) :
    MapOf searchVer mult items key keep docs nan' m := by
  have eq : nan = nan' := funext fun k => funext fun name => same k name
  rwa [← eq]

/-- The parsed reply of a node. -/
theorem mapOf_reply (nan : NanChoice K) (docs : List IndexDoc) :
    MapOf searchVer mult items key keep docs (fun k => nodeNan nan (docsOf key docs k) k)
      (parseRows keep (groupRows (itemArgs searchVer mult items) key nan docs)) := by
  intro k
  have keys : ((groupRows (itemArgs searchVer mult items) key nan docs).filter
      fun p => keep p.1).map Prod.fst = ((docs.map key).dedup).filter keep := by
    rw [groupRows, List.filter_map, List.map_map]
    simp [Function.comp_def]
  have nodup : (((docs.map key).dedup).filter keep).Nodup := (List.nodup_dedup _).filter _
  have listed : k ∈ docs.map key ↔ docsOf key docs k ≠ [] := by
    simp only [docsOf, ne_eq, List.filter_eq_nil_iff, decide_eq_true_eq, not_forall, not_not,
      List.mem_map, exists_prop]
  split
  · rename_i here
    have mem : (k, recordOf (itemArgs searchVer mult items) nan k (docsOf key docs k)) ∈
        (groupRows (itemArgs searchVer mult items) key nan docs).filter fun p => keep p.1 := by
      refine List.mem_filter.mpr ⟨List.mem_map.mpr ⟨k, ?_, rfl⟩, here.1⟩
      exact List.mem_dedup.mpr (listed.mpr here.2)
    refine ⟨_, lookup_foldl_mergeInto_of_mem ∅ (by rw [keys]; exact nodup) mem, ?_⟩
    rw [AList.lookup_empty, joined]
    have row : RowOf searchVer mult items (docsOf key docs k)
        (fun name => nan k name && allMiss (docsOf key docs k) name)
        (recordOf (itemArgs searchVer mult items) nan k (docsOf key docs k)) :=
      rowOf_recordOf nan k (docsOf key docs k)
    refine ⟨?_, row.rowCount⟩
    intro name
    rw [row.sums]
    simp [nodeNan, here.2]
  · rename_i absent
    rw [parseRows, lookup_foldl_mergeInto_of_notMem, AList.lookup_empty]
    rw [keys, List.mem_filter, List.mem_dedup, listed]
    tauto

/-- Adding a parsed reply to what has been merged before. -/
theorem MapOf.merge {docs docs' : List IndexDoc} {nan nan' : K → SumName → Bool}
    {m m' : Assoc K Record} (h : MapOf searchVer mult items key keep docs nan m)
    (h' : MapOf searchVer mult items key keep docs' nan' m')
    (quiet : ∀ k, docsOf key docs k = [] → ∀ name, nan k name = false)
    (quiet' : ∀ k, docsOf key docs' k = [] → ∀ name, nan' k name = false) :
    MapOf searchVer mult items key keep (docs ++ docs') (fun k name => nan k name || nan' k name)
      ((pairs m').foldl mergeInto m) := by
  intro k
  have nodup : ((pairs m').map Prod.fst).Nodup := by
    rw [map_fst_pairs]
    exact m'.keys_nodup
  have before := h k
  have added := h' k
  rw [docsOf_append]
  by_cases new : keep k ∧ docsOf key docs' k ≠ []
  · rw [if_pos new] at added
    obtain ⟨row', found, rowOf'⟩ := added
    have merged := lookup_foldl_mergeInto_of_mem m nodup ((mem_pairs m' k row').mpr found)
    rw [if_pos ⟨new.1, by simp [new.2]⟩]
    by_cases old : keep k ∧ docsOf key docs k ≠ []
    · rw [if_pos old] at before
      obtain ⟨row, here, rowOf⟩ := before
      rw [here] at merged
      exact ⟨_, merged, rowOf.merge rowOf'⟩
    · rw [if_neg old] at before
      have empty : docsOf key docs k = [] := by tauto
      rw [before] at merged
      refine ⟨_, merged, ?_⟩
      rw [empty, List.nil_append]
      refine ⟨?_, rowOf'.rowCount⟩
      intro name
      rw [joined, rowOf'.sums]
      simp only [quiet k empty name, Bool.false_or]
  · rw [if_neg new] at added
    have absent : k ∉ (pairs m').map Prod.fst := by
      rw [map_fst_pairs, ← AList.mem_keys]
      exact AList.lookup_eq_none.mp added
    rw [lookup_foldl_mergeInto_of_notMem m absent]
    by_cases kept : keep k
    · have empty : docsOf key docs' k = [] := by tauto
      rw [empty, List.append_nil]
      by_cases old : keep k ∧ docsOf key docs k ≠ []
      · rw [if_pos old] at before ⊢
        obtain ⟨row, here, rowOf⟩ := before
        refine ⟨row, here, ?_, rowOf.rowCount⟩
        intro name
        rw [rowOf.sums]
        simp only [quiet' k empty name, Bool.or_false]
      · rw [if_neg old] at before ⊢
        exact before
    · rw [if_neg (by tauto)] at before
      rw [if_neg (by tauto)]
      exact before

/-- Some node reports `nan` for the group. -/
def someNan {ν : Type} (docs : ν → List IndexDoc) (nan : ν → NanChoice K) (key : IndexDoc → K)
    (nodes : List ν) (k : K) (name : SumName) : Bool :=
  nodes.any fun node => nodeNan (nan node) (docsOf key (docs node) k) k name

/-- The merged rows hold the exact sums over the documents of all nodes. -/
theorem mapOf_mergeReplies {ν : Type} (docs : ν → List IndexDoc) (nan : ν → NanChoice K)
    (nodes : List ν) :
    MapOf searchVer mult items key keep (nodes.flatMap docs) (someNan docs nan key nodes)
      (mergeReplies (nodes.map fun node =>
        parseRows keep (groupRows (itemArgs searchVer mult items) key (nan node)
          (docs node)))) := by
  have quiet : ∀ (nodes : List ν) (k : K), docsOf key (nodes.flatMap docs) k = [] → ∀ name,
      someNan docs nan key nodes k name = false := by
    intro nodes k empty name
    rw [someNan, List.any_eq_false]
    intro node mem
    have own : docsOf key (docs node) k = [] := by
      rw [docsOf, List.filter_eq_nil_iff] at empty ⊢
      intro d hd
      exact empty d (List.mem_flatMap.mpr ⟨node, mem, hd⟩)
    simp [nodeNan, own]
  induction nodes using List.reverseRecOn with
  | nil =>
    intro k
    rw [if_neg (by simp [docsOf])]
    rfl
  | append_singleton nodes node ih =>
    have reply : MapOf searchVer mult items key keep (docs node)
        (fun k => nodeNan (nan node) (docsOf key (docs node) k) k)
        (parseRows keep (groupRows (itemArgs searchVer mult items) key (nan node) (docs node))) :=
      mapOf_reply (nan node) (docs node)
    have merged := MapOf.merge ih reply (quiet nodes) (by
      intro k empty name
      simp [nodeNan, empty])
    rw [List.flatMap_append, List.flatMap_singleton, mergeReplies, List.map_append,
      List.foldl_append]
    refine MapOf.congr merged ?_
    intro k name
    simp [someNan]

end Merging

end FastPathSums
