import Frtb.RequestFilters

/-!
# Regions resolved over the discovered desks

A region is derived from the desk, so the index has no field for it. The region filters of a
request are resolved to desks before the query is built: the desks of the index are listed
once, those of the included regions become a positive clause, with a desk that matches
nothing where there are none, and those of the excluded regions join a negative clause. When
the listing fails, no desk is known. A document is judged here by the clauses of the query on
one side, and by its desk and region on the other. The index compares the values of a TAG field
in a form of its own, which as a rule ignores case.
-/

namespace RegionFilters

open AssocMaps FieldNames StorageWriter CalcService RequestFilters

section Documents

/-- The TAG fields of an indexed document; none where the document has no such field. -/
structure Doc where
  tag : String → Option String

def Doc.desk (d : Doc) : Option String := d.tag "desk"

def unknownRegion : String := "UNKNOWN"

/-- The region of a document, with or without a desk. -/
def Doc.region (d : Doc) : String :=
  match d.desk with
  | some v => regionFromDesk v
  | none => unknownRegion

/-- A TAG clause on a document; `fold` is the form in which the index compares two values. -/
def hits (fold : String → String) (clause : TagClause) (d : Doc) : Bool :=
  match d.tag clause.field with
  | some v => clause.values.any fun u => fold u = fold v
  | none => false

def passes (fold : String → String) (clause : TagClause) (d : Doc) : Bool :=
  hits fold clause d != clause.negated

/-- The clauses of a query all have to hold. -/
def selected (fold : String → String) (clauses : List TagClause) (d : Doc) : Bool :=
  clauses.all (passes fold · d)

end Documents

section Resolution

/-- The reply of `FT.AGGREGATE … GROUPBY 1 @desk`: rows of names and values, where the group of
the documents without a desk has no value. -/
inductive Reply where
  | rows (rows : List (List (String × Option String)))
  | failed

def stripAt (name : String) : String :=
  match name.toList with
  | '@' :: rest => String.ofList rest
  | _ => name

/-- The values under the name `desk`; `String(null)` is a text as well. -/
def rowDesks (row : List (String × Option String)) : List String :=
  row.filterMap fun p => if stripAt p.1 = "desk" then some (p.2.getD "null") else none

def allDesks : Reply → List String
  | .rows rows => rows.flatMap rowDesks
  | .failed => []

/-- The filters that `buildFastPathQuery` is called with. -/
def filtersOf (a : AggregateQuery) : Filters where
  bucketSubset := a.bucketSubset
  included := ofPairs [("book", a.included.book), ("trade_id", a.included.tradeId),
    ("desk", a.included.desk), ("bucket", a.included.bucket)]
  excluded := ofPairs [("book", a.excluded.book), ("trade_id", a.excluded.tradeId),
    ("risk_factor", a.excluded.riskFactor), ("desk", a.excluded.desk),
    ("bucket", a.excluded.bucket)]

/-- The clauses of the aggregation that a request leads to. -/
def requestClauses (q : ComputeSbmInput) (sensitivityType : String) (reply : Reply) :
    List TagClause :=
  queryClauses q.riskClass sensitivityType (filtersOf (aggregateQuery q (allDesks reply)))

/-- The clauses on the other fields, which no region has a part in. -/
def otherClauses (q : ComputeSbmInput) (sensitivityType : String) : List TagClause :=
  (queryClauses q.riskClass sensitivityType (filtersOf (aggregateQuery q []))).filter
    (·.field ≠ "desk")

end Resolution

section Meaning

/-- What the desk and region filters ask of a document. -/
structure Wanted (q : ComputeSbmInput) (d : Doc) : Prop where
  includeRegion : q.includeCsv.region ≠ "" → d.region ∈ splitCsv q.includeCsv.region
  includeDesk : q.includeCsv.desk ≠ "" → ∃ v ∈ splitCsv q.includeCsv.desk, d.desk = some v
  excludeRegion : d.region ∉ splitCsv q.excludeCsv.region
  excludeDesk : ∀ v ∈ splitCsv q.excludeCsv.desk, d.desk ≠ some v

/-- The desks of the included regions, before the desk that matches nothing. -/
def keptDesks (c : IncludeCsv) (desks : List String) : List String :=
  let own := splitCsv c.desk
  let matched := desksOfRegions c.region desks
  if own = [] then matched else own.filter (· ∈ matched)

def noMatch : String := "__no_match__"

/-- The desk stands for the empty list of included desks. -/
def Posing (q : ComputeSbmInput) (known : List String) (v : String) : Prop :=
  q.includeCsv.region ≠ "" ∧ keptDesks q.includeCsv known = [] ∧ v = noMatch

end Meaning

section Clauses

/-- The clause of one list, if it has a value. -/
def listClause (negated : Bool) (key : String) : List String → List TagClause
  | [] => []
  | v :: vs => [⟨negated, key, v :: vs⟩]

theorem filterClauses_eq (negated : Bool) (keys : List String)
    (lists : Assoc String (List String)) :
    filterClauses negated keys lists =
      keys.flatMap fun key => listClause negated key ((lists.lookup key).getD []) := by
  induction keys with
  | nil => rfl
  | cons key keys ih =>
    rw [List.flatMap_cons, ← ih, filterClauses, List.filterMap_cons]
    split
    · rename_i none_
      split at none_
      · cases none_
      · rename_i other
        have empty : listClause negated key ((lists.lookup key).getD []) = [] := by
          cases found : lists.lookup key with
          | none => rfl
          | some vs =>
            cases vs with
            | nil => rfl
            | cons v vs => exact absurd found (other v vs)
        rw [empty]
        rfl
    · rename_i clause made
      split at made
      · rename_i v vs found
        cases made
        rw [found]
        rfl
      · cases made

theorem filter_listClause (negated : Bool) {key : String} (vs : List String) :
    (listClause negated key vs).filter (·.field ≠ "desk") =
      if key = "desk" then [] else listClause negated key vs := by
  cases vs with
  | nil => split <;> rfl
  | cons v vs =>
    by_cases desk : key = "desk" <;> simp [listClause, desk]

variable {q : ComputeSbmInput} {sensitivityType : String} {d : Doc} {fold : String → String}

theorem selected_append (cs cs' : List TagClause) :
    selected fold (cs ++ cs') d = true ↔
      selected fold cs d = true ∧ selected fold cs' d = true := by
  rw [selected, List.all_append, Bool.and_eq_true]
  rfl

theorem included_clauses (a : AggregateQuery) :
    filterClauses false includeKeys (filtersOf a).included =
      listClause false "book" a.included.book ++ (listClause false "trade_id" a.included.tradeId ++
        (listClause false "desk" a.included.desk ++
          (listClause false "bucket" a.included.bucket ++ []))) := by
  rw [filterClauses_eq]
  rfl

theorem excluded_clauses (a : AggregateQuery) :
    filterClauses true excludeKeys (filtersOf a).excluded =
      listClause true "book" a.excluded.book ++ (listClause true "trade_id" a.excluded.tradeId ++
        (listClause true "risk_factor" a.excluded.riskFactor ++
          (listClause true "desk" a.excluded.desk ++
            (listClause true "bucket" a.excluded.bucket ++ [])))) := by
  rw [filterClauses_eq]
  rfl

/-- The clauses that no filter list has a part in. -/
def baseClauses (q : ComputeSbmInput) (sensitivityType : String) : List TagClause :=
  [⟨false, "risk_class", [q.riskClass]⟩, ⟨false, "sensitivity_type", [sensitivityType]⟩] ++
    (if q.bucketSubset = [] then [] else [⟨false, "bucket", q.bucketSubset⟩])

theorem filter_baseClauses (q : ComputeSbmInput) (sensitivityType : String) :
    (baseClauses q sensitivityType).filter (·.field ≠ "desk") = baseClauses q sensitivityType := by
  unfold baseClauses
  split <;> rfl

/-- A query asks what the other clauses ask, and what the two desk clauses ask. -/
theorem selected_requestClauses (reply : Reply) :
    selected fold (requestClauses q sensitivityType reply) d = true ↔
      selected fold (otherClauses q sensitivityType) d = true ∧
        selected fold (listClause false "desk" (includedDesks q.includeCsv (allDesks reply))) d =
          true ∧
        selected fold (listClause true "desk" (excludedDesks q.excludeCsv (allDesks reply))) d =
          true := by
  have whole (desks : List String) :
      queryClauses q.riskClass sensitivityType (filtersOf (aggregateQuery q desks)) =
        baseClauses q sensitivityType ++
          filterClauses false includeKeys (filtersOf (aggregateQuery q desks)).included ++
          filterClauses true excludeKeys (filtersOf (aggregateQuery q desks)).excluded := rfl
  have others : otherClauses q sensitivityType = baseClauses q sensitivityType ++
      (listClause false "book" (splitCsv q.includeCsv.book) ++
        (listClause false "trade_id" (splitCsv q.includeCsv.tradeId) ++
          (listClause false "bucket" (splitCsv q.includeCsv.bucket) ++ []))) ++
      (listClause true "book" (splitCsv q.excludeCsv.book) ++
        (listClause true "trade_id" (splitCsv q.excludeCsv.tradeId) ++
          (listClause true "risk_factor" (splitCsv q.excludeCsv.riskFactor) ++
            (listClause true "bucket" (splitCsv q.excludeCsv.bucket) ++ [])))) := by
    rw [otherClauses, whole, included_clauses, excluded_clauses]
    simp only [List.filter_append, filter_listClause, filter_baseClauses]
    rfl
  rw [requestClauses, whole, included_clauses, excluded_clauses, others]
  simp only [selected_append, aggregateQuery]
  tauto

/-- The desk of a document is compared equal to one of the values. -/
def Sees (fold : String → String) (vs : List String) (d : Doc) : Prop :=
  ∃ u ∈ vs, ∃ v, d.desk = some v ∧ fold u = fold v

theorem hits_desk (negated : Bool) (vs : List String) :
    hits fold ⟨negated, "desk", vs⟩ d = true ↔ Sees fold vs d := by
  unfold hits Sees Doc.desk
  cases d.tag "desk" with
  | none => simp
  | some v => simp

theorem selected_included (vs : List String) :
    selected fold (listClause false "desk" vs) d = true ↔ vs = [] ∨ Sees fold vs d := by
  cases vs with
  | nil => simp [listClause, selected]
  | cons v vs =>
    have alone : selected fold (listClause false "desk" (v :: vs)) d =
        hits fold ⟨false, "desk", v :: vs⟩ d := by
      simp [listClause, selected, passes]
    rw [alone, hits_desk]
    exact ⟨.inr, fun either => either.resolve_left (List.cons_ne_nil v vs)⟩

theorem selected_excluded (vs : List String) :
    selected fold (listClause true "desk" vs) d = true ↔ ¬Sees fold vs d := by
  cases vs with
  | nil => simp [listClause, selected, Sees]
  | cons v vs =>
    have alone : selected fold (listClause true "desk" (v :: vs)) d =
        !hits fold ⟨true, "desk", v :: vs⟩ d := by
      simp [listClause, selected, passes]
    rw [alone, Bool.not_eq_true', ← Bool.not_eq_true, hits_desk]

theorem sees_desk {v : String} (desk : d.desk = some v) (vs : List String) :
    Sees fold vs d ↔ ∃ u ∈ vs, fold u = fold v := by
  unfold Sees
  simp [desk]

theorem not_sees_undesked (desk : d.desk = none) (vs : List String) : ¬Sees fold vs d := by
  rintro ⟨u, -, v, some_, -⟩
  rw [desk] at some_
  cases some_

end Clauses

section Judging
variable {q : ComputeSbmInput} {known : List String} {d : Doc} {v : String}

/-- The documents that the clauses do not judge by their region. -/
@[mk_iff]
inductive Misjudged (q : ComputeSbmInput) (known : List String) (d : Doc) : Prop where
  /-- The desk belongs to an excluded region, but was not listed. -/
  | spared (v : String) (desk : d.desk = some v) (unlisted : v ∉ known)
      (unrestricted : q.includeCsv.region = "")
      (included : q.includeCsv.desk = "" ∨ v ∈ splitCsv q.includeCsv.desk)
      (region : regionFromDesk v ∈ splitCsv q.excludeCsv.region)
      (kept : v ∉ splitCsv q.excludeCsv.desk)
  /-- The desk belongs to an included region, but was not listed. -/
  | lost (v : String) (desk : d.desk = some v) (unlisted : v ∉ known)
      (restricted : q.includeCsv.region ≠ "") (wanted : Wanted q d) (other : ¬Posing q known v)
  /-- The desk is the one that stands for no desk. -/
  | posing (v : String) (desk : d.desk = some v) (posing : Posing q known v)
      (kept : v ∉ splitCsv q.excludeCsv.desk)
      (unexcluded : v ∈ known → regionFromDesk v ∉ splitCsv q.excludeCsv.region)
      (unwanted : ¬Wanted q d)
  /-- There is no desk, and its region is excluded. -/
  | undeskedSpared (desk : d.desk = none) (unrestricted : q.includeCsv.region = "")
      (included : q.includeCsv.desk = "")
      (region : unknownRegion ∈ splitCsv q.excludeCsv.region)
  /-- There is no desk, and its region is included. -/
  | undeskedLost (desk : d.desk = none) (restricted : q.includeCsv.region ≠ "")
      (wanted : Wanted q d)

/-- What the two desk clauses ask of a document. -/
def Kept (fold : String → String) (q : ComputeSbmInput) (known : List String) (d : Doc) : Prop :=
  selected fold (listClause false "desk" (includedDesks q.includeCsv known)) d = true ∧
    selected fold (listClause true "desk" (excludedDesks q.excludeCsv known)) d = true

theorem mem_keptDesks {c : IncludeCsv} :
    v ∈ keptDesks c known ↔
      v ∈ known ∧ regionFromDesk v ∈ splitCsv c.region ∧ (c.desk = "" ∨ v ∈ splitCsv c.desk) := by
  unfold keptDesks
  dsimp only
  rw [← @splitCsv_eq_nil c.desk]
  split
  · rename_i none_
    simp [desksOfRegions, none_]
  · rename_i some_
    simp only [desksOfRegions, List.mem_filter, decide_eq_true_eq, some_, false_or]
    tauto

theorem includedDesks_eq (c : IncludeCsv) (known : List String) :
    includedDesks c known =
      if c.region = "" then splitCsv c.desk
      else if keptDesks c known = [] then [noMatch] else keptDesks c known := rfl

theorem mem_excludedDesks {c : ExcludeCsv} :
    v ∈ excludedDesks c known ↔
      v ∈ splitCsv c.desk ∨ v ∈ known ∧ regionFromDesk v ∈ splitCsv c.region := by
  unfold excludedDesks
  dsimp only
  split
  · rename_i none_
    have empty : splitCsv c.region = [] := splitCsv_eq_nil.mpr none_
    simp [empty]
  · simp [desksOfRegions]

theorem wanted_desk (desk : d.desk = some v) :
    Wanted q d ↔
      (q.includeCsv.region ≠ "" → regionFromDesk v ∈ splitCsv q.includeCsv.region) ∧
        (q.includeCsv.desk = "" ∨ v ∈ splitCsv q.includeCsv.desk) ∧
        regionFromDesk v ∉ splitCsv q.excludeCsv.region ∧ v ∉ splitCsv q.excludeCsv.desk := by
  have region : d.region = regionFromDesk v := by
    rw [Doc.region, desk]
  constructor
  · rintro ⟨ir, id, er, ed⟩
    rw [region] at ir er
    refine ⟨ir, ?_, er, fun mem => ed v mem desk⟩
    by_cases none_ : q.includeCsv.desk = ""
    · exact .inl none_
    · obtain ⟨u, mem, same⟩ := id none_
      rw [desk] at same
      cases same
      exact .inr mem
  · rintro ⟨ir, id, er, ed⟩
    refine ⟨?_, fun some_ => ⟨v, id.resolve_left some_, desk⟩, ?_, ?_⟩
    · rwa [region]
    · rwa [region]
    · rintro u mem same
      rw [desk] at same
      cases same
      exact ed mem

theorem wanted_undesked (desk : d.desk = none) :
    Wanted q d ↔
      (q.includeCsv.region ≠ "" → unknownRegion ∈ splitCsv q.includeCsv.region) ∧
        q.includeCsv.desk = "" ∧ unknownRegion ∉ splitCsv q.excludeCsv.region := by
  have region : d.region = unknownRegion := by
    rw [Doc.region, desk]
  constructor
  · rintro ⟨ir, id, er, -⟩
    rw [region] at ir er
    refine ⟨ir, ?_, er⟩
    by_contra some_
    obtain ⟨u, -, same⟩ := id some_
    rw [desk] at same
    cases same
  · rintro ⟨ir, none_, er⟩
    refine ⟨?_, fun some_ => absurd none_ some_, ?_, fun u _ same => ?_⟩
    · rwa [region]
    · rwa [region]
    · rw [desk] at same
      cases same

/-- What the two desk clauses ask of a document with a desk, where values are compared as they
are spelled. -/
theorem desk_clauses (desk : d.desk = some v) :
    Kept id q known d ↔
      (if q.includeCsv.region = "" then q.includeCsv.desk = "" ∨ v ∈ splitCsv q.includeCsv.desk
        else Posing q known v ∨ v ∈ keptDesks q.includeCsv known) ∧
        v ∉ splitCsv q.excludeCsv.desk ∧
        ¬(v ∈ known ∧ regionFromDesk v ∈ splitCsv q.excludeCsv.region) := by
  have listed (vs : List String) : Sees id vs d ↔ v ∈ vs := by
    simp [sees_desk desk]
  have included : (includedDesks q.includeCsv known = [] ∨
      Sees id (includedDesks q.includeCsv known) d) ↔
        if q.includeCsv.region = "" then q.includeCsv.desk = "" ∨ v ∈ splitCsv q.includeCsv.desk
        else Posing q known v ∨ v ∈ keptDesks q.includeCsv known := by
    rw [listed, includedDesks_eq]
    split
    · rw [splitCsv_eq_nil]
    · rename_i restricted
      split
      · rename_i none_
        simp [Posing, restricted, none_]
      · rename_i some_
        simp [Posing, some_]
  rw [Kept, selected_included, selected_excluded, included, listed, mem_excludedDesks, not_or]

/-- A document with a desk is judged as its region and desk ask, or it is one of the
misjudged ones. -/
theorem judged_desk (desk : d.desk = some v) :
    (Kept id q known d ↔ Wanted q d) ↔ ¬Misjudged q known d := by
  have kinds : Misjudged q known d ↔
      (v ∉ known ∧ q.includeCsv.region = "" ∧
        (q.includeCsv.desk = "" ∨ v ∈ splitCsv q.includeCsv.desk) ∧
        regionFromDesk v ∈ splitCsv q.excludeCsv.region ∧ v ∉ splitCsv q.excludeCsv.desk) ∨
      (v ∉ known ∧ q.includeCsv.region ≠ "" ∧ Wanted q d ∧ ¬Posing q known v) ∨
      (Posing q known v ∧ v ∉ splitCsv q.excludeCsv.desk ∧
        (v ∈ known → regionFromDesk v ∉ splitCsv q.excludeCsv.region) ∧ ¬Wanted q d) := by
    rw [misjudged_iff]
    simp [desk]
  have kept := @mem_keptDesks known v q.includeCsv
  have posing : Posing q known v → q.includeCsv.region ≠ "" ∧ v ∉ keptDesks q.includeCsv known := by
    rintro ⟨restricted, none_, -⟩
    rw [none_]
    exact ⟨restricted, List.not_mem_nil⟩
  rw [desk_clauses desk, kinds, wanted_desk desk]
  by_cases unrestricted : q.includeCsv.region = ""
  · have never : ¬Posing q known v := fun pose => (posing pose).1 unrestricted
    simp only [unrestricted, if_true, never, ne_eq, not_true_eq_false, false_imp_iff, true_and,
      false_and, and_false, or_false]
    clear kinds kept posing never
    by_cases listed : v ∈ known <;> by_cases region : regionFromDesk v ∈
      splitCsv q.excludeCsv.region <;> simp only [listed, region] <;> tauto
  · simp only [unrestricted, if_false, ne_eq, not_false_eq_true, true_imp_iff, true_and,
      false_and, and_false, false_or, kept]
    by_cases listed : v ∈ known
    · by_cases pose : Posing q known v
      · have absent := (posing pose).2
        rw [kept] at absent
        simp only [listed, pose, true_and, true_or, not_true_eq_false, false_and, false_or,
          true_imp_iff] at absent ⊢
        clear kinds kept posing
        tauto
      · simp only [listed, pose, true_and, false_or, not_true_eq_false, false_and, or_self,
          not_false_eq_true, iff_true]
        clear kinds kept posing
        tauto
    · by_cases pose : Posing q known v
      · simp only [listed, pose, false_and, or_false, true_and, not_false_eq_true, and_true,
          not_true_eq_false, and_false, false_or, false_imp_iff]
        clear kinds kept posing
        tauto
      · simp only [listed, pose, false_and, or_false, not_false_eq_true, and_true, true_and,
          false_iff]

theorem judged_undesked (desk : d.desk = none) :
    (Kept id q known d ↔ Wanted q d) ↔ ¬Misjudged q known d := by
  have kinds : Misjudged q known d ↔
      (q.includeCsv.region = "" ∧ q.includeCsv.desk = "" ∧
        unknownRegion ∈ splitCsv q.excludeCsv.region) ∨
      (q.includeCsv.region ≠ "" ∧ Wanted q d) := by
    rw [misjudged_iff]
    simp [desk]
  have clauses : Kept id q known d ↔ q.includeCsv.region = "" ∧ q.includeCsv.desk = "" := by
    rw [Kept, selected_included, selected_excluded, includedDesks_eq]
    simp only [not_sees_undesked desk, or_false, not_false_eq_true, and_true]
    split
    · rename_i unrestricted
      rw [splitCsv_eq_nil]
      exact ⟨fun none_ => ⟨unrestricted, none_⟩, And.right⟩
    · rename_i restricted
      split
      · exact ⟨nofun, fun both => absurd both.1 restricted⟩
      · rename_i some_
        exact ⟨fun none_ => absurd none_ some_, fun both => absurd both.1 restricted⟩
  rw [clauses, kinds]
  by_cases unrestricted : q.includeCsv.region = ""
  · rw [wanted_undesked desk]
    simp only [unrestricted, ne_eq, not_true_eq_false, false_imp_iff, true_and, false_and, or_false]
    clear kinds clauses
    tauto
  · simp only [unrestricted, false_and, ne_eq, not_false_eq_true, true_and, false_or, false_iff]

theorem judged (q : ComputeSbmInput) (known : List String) (d : Doc) :
    (Kept id q known d ↔ Wanted q d) ↔ ¬Misjudged q known d := by
  cases desk : d.desk with
  | none => exact judged_undesked desk
  | some v => exact judged_desk desk

/-- A value of the positive desk clause. -/
def IncludedValue (q : ComputeSbmInput) (known : List String) (u : String) : Prop :=
  if q.includeCsv.region = "" then u ∈ splitCsv q.includeCsv.desk
  else if keptDesks q.includeCsv known = [] then u = noMatch else u ∈ keptDesks q.includeCsv known

/-- A value of the negative desk clause. -/
def ExcludedValue (q : ComputeSbmInput) (known : List String) (u : String) : Prop :=
  u ∈ splitCsv q.excludeCsv.desk ∨ u ∈ known ∧ regionFromDesk u ∈ splitCsv q.excludeCsv.region

/-- The documents whose desk is spelled unlike a value that the index compares equal to it, where
that decides. -/
@[mk_iff]
inductive Confused (fold : String → String) (q : ComputeSbmInput) (known : List String) (d : Doc) :
    Prop where
  /-- Only by such a value does it pass the positive clause. -/
  | taken (v : String) (desk : d.desk = some v)
      (restricted : q.includeCsv.region ≠ "" ∨ q.includeCsv.desk ≠ "")
      (alike : ∃ u, IncludedValue q known u ∧ fold u = fold v) (other : ¬IncludedValue q known v)
      (kept : ∀ u, ExcludedValue q known u → fold u ≠ fold v)
  /-- Only by such a value does it fail the negative clause. -/
  | dropped (v : String) (desk : d.desk = some v)
      (included : q.includeCsv.region = "" ∧ q.includeCsv.desk = "" ∨ IncludedValue q known v)
      (alike : ∃ u, ExcludedValue q known u ∧ fold u = fold v) (other : ¬ExcludedValue q known v)

theorem mem_includedDesks : v ∈ includedDesks q.includeCsv known ↔ IncludedValue q known v := by
  rw [includedDesks_eq, IncludedValue]
  split
  · rfl
  · split
    · exact List.mem_singleton
    · rfl

theorem includedDesks_eq_nil :
    includedDesks q.includeCsv known = [] ↔ q.includeCsv.region = "" ∧ q.includeCsv.desk = "" := by
  rw [includedDesks_eq]
  split
  · rename_i unrestricted
    rw [splitCsv_eq_nil]
    exact ⟨fun none_ => ⟨unrestricted, none_⟩, And.right⟩
  · rename_i restricted
    split
    · exact ⟨fun some_ => absurd some_ (List.cons_ne_nil _ _), fun both => absurd both.1 restricted⟩
    · rename_i some_
      exact ⟨fun none_ => absurd none_ some_, fun both => absurd both.1 restricted⟩

/-- A positive and a negative clause, each widened, select alike unless the positive one is passed
or the negative one failed only by the widening. -/
theorem clauses_agree_iff {free named alike dropped droppedAlike : Prop} (takes : named → alike)
    (drops : dropped → droppedAlike) :
    ((free ∨ alike) ∧ ¬droppedAlike ↔ (free ∨ named) ∧ ¬dropped) ↔
      ¬(¬free ∧ alike ∧ ¬named ∧ ¬droppedAlike ∨ (free ∨ named) ∧ droppedAlike ∧ ¬dropped) := by
  by_cases out : dropped
  · simp only [out, drops out, not_true_eq_false, and_false, or_self, not_false_eq_true]
  · by_cases inside : named
    · simp only [out, inside, takes inside, or_true, true_and, not_true_eq_false, false_and,
        and_false, false_or, not_false_eq_true, and_true, iff_true]
    · by_cases open_ : free <;> by_cases like : alike <;>
        simp only [out, inside, open_, like, or_true, or_false, true_and, false_and, and_false,
          not_true_eq_false, not_false_eq_true, and_true, iff_true, iff_false, false_or, not_not]

/-- The form of comparison changes what the desk clauses select for the confused documents
only. -/
theorem kept_iff_exact (fold : String → String) (q : ComputeSbmInput) (known : List String)
    (d : Doc) : (Kept fold q known d ↔ Kept id q known d) ↔ ¬Confused fold q known d := by
  have clauses (fold : String → String) : Kept fold q known d ↔
      (q.includeCsv.region = "" ∧ q.includeCsv.desk = "" ∨
        Sees fold (includedDesks q.includeCsv known) d) ∧
      ¬Sees fold (excludedDesks q.excludeCsv known) d := by
    rw [Kept, selected_included, selected_excluded, includedDesks_eq_nil]
  rw [clauses, clauses]
  cases desk : d.desk with
  | none =>
    rw [confused_iff]
    simp [not_sees_undesked desk, desk]
  | some v =>
    have included : Sees id (includedDesks q.includeCsv known) d ↔ IncludedValue q known v := by
      rw [sees_desk desk, ← mem_includedDesks]
      simp
    have excluded : Sees id (excludedDesks q.excludeCsv known) d ↔ ExcludedValue q known v := by
      rw [sees_desk desk, ExcludedValue, ← mem_excludedDesks]
      simp
    have includedAlike : Sees fold (includedDesks q.includeCsv known) d ↔
        ∃ u, IncludedValue q known u ∧ fold u = fold v := by
      simp only [sees_desk desk, mem_includedDesks]
    have excludedAlike : Sees fold (excludedDesks q.excludeCsv known) d ↔
        ∃ u, ExcludedValue q known u ∧ fold u = fold v := by
      simp only [sees_desk desk, mem_excludedDesks, ExcludedValue]
    have takes : IncludedValue q known v → ∃ u, IncludedValue q known u ∧ fold u = fold v :=
      fun here => ⟨v, here, rfl⟩
    have drops : ExcludedValue q known v → ∃ u, ExcludedValue q known u ∧ fold u = fold v :=
      fun here => ⟨v, here, rfl⟩
    have kinds : Confused fold q known d ↔
        (q.includeCsv.region ≠ "" ∨ q.includeCsv.desk ≠ "") ∧
            (∃ u, IncludedValue q known u ∧ fold u = fold v) ∧ ¬IncludedValue q known v ∧
            ¬(∃ u, ExcludedValue q known u ∧ fold u = fold v) ∨
          (q.includeCsv.region = "" ∧ q.includeCsv.desk = "" ∨ IncludedValue q known v) ∧
            (∃ u, ExcludedValue q known u ∧ fold u = fold v) ∧ ¬ExcludedValue q known v := by
      rw [confused_iff]
      simp [desk]
    rw [included, excluded, includedAlike, excludedAlike, kinds, ← not_and_or]
    exact clauses_agree_iff takes drops

/-- Where no value of the clauses is another spelling of the document's desk, nothing is
confused. -/
theorem not_confused_of_apart (desk : d.desk = some v) {fold : String → String}
    (apart : ∀ u, IncludedValue q known u ∨ ExcludedValue q known u → fold u = fold v → u = v) :
    ¬Confused fold q known d := by
  rw [confused_iff]
  rintro (⟨w, same, -, ⟨u, here, alike⟩, other, -⟩ | ⟨w, same, -, ⟨u, here, alike⟩, other⟩)
  · rw [desk] at same
    cases same
    exact other (apart u (.inl here) alike ▸ here)
  · rw [desk] at same
    cases same
    exact other (apart u (.inr here) alike ▸ here)

/-- A listing of all desks is enough for documents that have one, unless it is the desk that
stands for none. -/
theorem not_misjudged_of_listed (desk : d.desk = some v) (listed : v ∈ known)
    (other : v ≠ noMatch) :
    ¬Misjudged q known d := by
  rw [misjudged_iff]
  rintro (⟨u, same, unlisted, -⟩ | ⟨u, same, unlisted, -⟩ | ⟨u, same, posing, -⟩ | ⟨same, -⟩ |
    ⟨same, -⟩)
  · rw [desk] at same
    cases same
    exact unlisted listed
  · rw [desk] at same
    cases same
    exact unlisted listed
  · rw [desk] at same
    cases same
    exact other posing.2.2
  · rw [desk] at same
    cases same
  · rw [desk] at same
    cases same

end Judging

section Failing

def londonExcluded : ComputeSbmInput where
  bucketSubset := []
  bucketCells := []
  excludeCsv := { emptyExcludeCsv with region := "LDN" }
  includeCsv := emptyIncludeCsv
  forcePath := none
  noCache := false
  riskClass := "FX"
  leg := .delta
  regime := .medium

def londonDoc : Doc where
  tag := fun name =>
    if name = "risk_class" then some "FX"
    else if name = "sensitivity_type" then some "Delta"
    else if name = "desk" then some "FX_LDN"
    else none

theorem london_region : londonDoc.region = "LDN" := by
  have pieces : "FX_LDN".splitOn "_" = ["FX", "LDN"] :=
    (SplitText.splitOn_singleton "FX_LDN" '_').trans (by decide)
  have derived : londonDoc.region = regionFromDesk "FX_LDN" := rfl
  rw [derived, regionFromDesk, pieces]
  rfl

end Failing

end RegionFilters
