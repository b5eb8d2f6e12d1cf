import Frtb.CalcService
import Frtb.FieldNames
import Frtb.Library.JsonText
import Frtb.Library.SplitText

/-!
# The filters of a request

The `include` and `exclude` lists of a request are checked, freed of repetitions and joined
with commas. Later they are split again, the regions are resolved over the discovered desks,
and the lists are pushed into the query. What the checks admit is what the split gives back:
distinct values, none empty and none with a comma.
-/

namespace RequestFilters

open AssocMaps FieldNames CalcService JsonText

section Request
variable (shown : ℚ → Option String)

def maxExcludeList : ℕ := 1000

/-- A string, or the text of a number unless it overflows to an infinity. -/
def asText : Json → Option String
  | .num q => shown q
  | .str s => some s
  | _ => none

/-- One turn of the loop over a list; `seen` is the set of its values in insertion order. -/
def addItem (label key : String) (seen : List String) (v : Json) :
    Except (ℕ × String) (List String) :=
  match asText shown v with
  | some sv =>
    if sv = "" then .error (400, label ++ "." ++ key ++ " must be an array of non-empty strings")
    else if ',' ∈ sv.toList then
      .error (400, label ++ "." ++ key ++ " values may not contain commas")
    else if sv ∈ seen then .ok seen
    else .ok (seen ++ [sv])
  | none => .error (400, label ++ "." ++ key ++ " must be an array of non-empty strings")

/-- The check of one list of the request, joined with commas; none where it is absent. -/
def marshalKey (label key : String) : Option Json → Except (ℕ × String) String
  | none | some .null => .ok ""
  | some (.arr items) =>
    if maxExcludeList < items.length then
      .error (413, label ++ "." ++ key ++ " exceeds maximum of " ++ Nat.repr maxExcludeList ++
        " entries")
    else (items.foldlM (addItem shown label key) []).map (",".intercalate ·)
  | some _ => .error (400, label ++ "." ++ key ++ " must be an array of non-empty strings")

def validateAndMarshalCsv (raw : Option Json) (keys : List String) (label : String) :
    Except (ℕ × String) (List (String × String)) :=
  match raw with
  | none | some .null => .ok (keys.map fun key => (key, ""))
  | some (.obj members) =>
    keys.mapM fun key =>
      (marshalKey shown label key ((ofPairs members).lookup key)).map fun csv => (key, csv)
  | some _ =>
    .error (400, label ++ " must be an object with optional " ++ "/".intercalate keys ++ " arrays")

def csvOf (out : List (String × String)) (key : String) : String :=
  ((out.find? fun p => p.1 = key).map Prod.snd).getD ""

def excludeCsv (out : List (String × String)) : ExcludeCsv where
  book := csvOf out "book"
  tradeId := csvOf out "trade_id"
  riskFactor := csvOf out "risk_factor"
  desk := csvOf out "desk"
  region := csvOf out "region"
  bucket := csvOf out "bucket"

def includeCsv (out : List (String × String)) : IncludeCsv where
  book := csvOf out "book"
  tradeId := csvOf out "trade_id"
  desk := csvOf out "desk"
  region := csvOf out "region"
  bucket := csvOf out "bucket"

def requestExcludeKeys : List String :=
  ["book", "trade_id", "risk_factor", "desk", "region", "bucket"]

def requestIncludeKeys : List String := ["book", "trade_id", "desk", "region", "bucket"]

/-- The filters that the request pushes into the query, the regions resolved over the desks. -/
def queryFilters (subset desks : List String) (inc : IncludeCsv) (exc : ExcludeCsv) : Filters where
  bucketSubset := subset
  included := ofPairs [("book", splitCsv inc.book), ("trade_id", splitCsv inc.tradeId),
    ("desk", includedDesks inc desks), ("bucket", splitCsv inc.bucket)]
  excluded := ofPairs [("book", splitCsv exc.book), ("trade_id", splitCsv exc.tradeId),
    ("risk_factor", splitCsv exc.riskFactor), ("desk", excludedDesks exc desks),
    ("bucket", splitCsv exc.bucket)]

end Request

section Admitted
variable {shown : ℚ → Option String}

/-- A list that passed its checks, joined with commas. -/
def Admitted (csv : String) : Prop :=
  ∃ vs : List String, csv = ",".intercalate vs ∧ vs.Nodup ∧ ∀ v ∈ vs, v ≠ "" ∧ ',' ∉ v.toList

/-- Checked values come back from their join. -/
theorem splitCsv_intercalate {vs : List String} (each : ∀ v ∈ vs, v ≠ "" ∧ ',' ∉ v.toList) :
    splitCsv (",".intercalate vs) = vs := by
  have pieces (some_ : vs ≠ []) : (",".intercalate vs).splitOn "," = vs :=
    SplitText.splitOn_intercalate (c := ',') (fun v mem => (each v mem).2) some_
  unfold splitCsv
  split
  · rename_i empty
    by_contra some_
    rw [empty] at pieces
    have alone := pieces (Ne.symm some_)
    have blank : "".splitOn "," = [""] := SplitText.splitOn_singleton "" ','
    rw [blank] at alone
    exact (each "" (alone ▸ List.mem_cons_self)).1 rfl
  · rename_i some_
    refine pieces ?_
    rintro rfl
    exact some_ rfl

theorem splitCsv_eq_nil {csv : String} : splitCsv csv = [] ↔ csv = "" := by
  unfold splitCsv
  split
  · rename_i empty
    exact ⟨fun _ => empty, fun _ => rfl⟩
  · rename_i some_
    refine ⟨fun none_ => ?_, fun empty => absurd empty some_⟩
    have pieces : csv.splitOn "," = (csv.toList.splitOn ',').map String.ofList :=
      SplitText.splitOn_singleton csv ','
    rw [pieces, List.map_eq_nil_iff] at none_
    exact absurd none_ (List.splitOn_ne_nil _ _)

theorem Admitted.splitCsv {csv : String} (admitted : Admitted csv) :
    (splitCsv csv).Nodup ∧ ∀ v ∈ splitCsv csv, v ≠ "" ∧ ',' ∉ v.toList := by
  obtain ⟨vs, rfl, nodup, each⟩ := admitted
  rw [splitCsv_intercalate each]
  exact ⟨nodup, each⟩

theorem addItem_keeps {label key : String} {seen seen' : List String} {v : Json}
    (added : addItem shown label key seen v = .ok seen') (nodup : seen.Nodup)
    (each : ∀ v ∈ seen, v ≠ "" ∧ ',' ∉ v.toList) :
    seen'.Nodup ∧ ∀ v ∈ seen', v ≠ "" ∧ ',' ∉ v.toList := by
  unfold addItem at added
  split at added
  · rename_i sv _
    split at added
    · cases added
    · rename_i some_
      split at added
      · cases added
      · rename_i free
        split at added
        · cases added
          exact ⟨nodup, each⟩
        · rename_i fresh
          cases added
          refine ⟨by simpa using nodup.concat fresh, fun v mem => ?_⟩
          rcases List.mem_append.mp mem with old | new
          · exact each v old
          · rw [List.mem_singleton.mp new]
            exact ⟨some_, free⟩
  · cases added

theorem foldlM_addItem_keeps {label key : String} {items : List Json} {seen seen' : List String}
    (added : items.foldlM (addItem shown label key) seen = .ok seen') (nodup : seen.Nodup)
    (each : ∀ v ∈ seen, v ≠ "" ∧ ',' ∉ v.toList) :
    seen'.Nodup ∧ ∀ v ∈ seen', v ≠ "" ∧ ',' ∉ v.toList := by
  induction items generalizing seen with
  | nil =>
    cases added
    exact ⟨nodup, each⟩
  | cons v items ih =>
    rw [List.foldlM_cons] at added
    cases first : addItem shown label key seen v with
    | error e =>
      rw [first] at added
      cases added
    | ok seen₁ =>
      rw [first] at added
      obtain ⟨nodup₁, each₁⟩ := addItem_keeps first nodup each
      exact ih added nodup₁ each₁

theorem admitted_empty : Admitted "" := ⟨[], rfl, List.nodup_nil, nofun⟩

theorem admitted_marshalKey {label key csv : String} {raw : Option Json}
    (made : marshalKey shown label key raw = .ok csv) : Admitted csv := by
  unfold marshalKey at made
  split at made
  · cases made
    exact admitted_empty
  · cases made
    exact admitted_empty
  · split at made
    · cases made
    · rename_i items _
      cases gathered : items.foldlM (addItem shown label key) [] with
      | error e =>
        rw [gathered] at made
        cases made
      | ok vs =>
        rw [gathered] at made
        cases made
        obtain ⟨nodup, each⟩ := foldlM_addItem_keeps gathered List.nodup_nil nofun
        exact ⟨vs, rfl, nodup, each⟩
  · cases made

theorem mem_of_mapM_ok {α β ε : Type*} {f : α → Except ε β} {l : List α} {l' : List β}
    (all : l.mapM f = .ok l') {b : β} (mem : b ∈ l') : ∃ a ∈ l, f a = .ok b := by
  induction l generalizing l' with
  | nil =>
    cases all
    cases mem
  | cons a l ih =>
    rw [List.mapM_cons] at all
    cases own : f a with
    | error e =>
      rw [own] at all
      cases all
    | ok b' =>
      rw [own] at all
      cases rest : l.mapM f with
      | error e =>
        rw [rest] at all
        cases all
      | ok bs =>
        rw [rest] at all
        cases all
        rcases List.mem_cons.mp mem with rfl | later
        · exact ⟨a, List.mem_cons_self, own⟩
        · obtain ⟨a', listed, made⟩ := ih rest later
          exact ⟨a', List.mem_cons_of_mem _ listed, made⟩

theorem admitted_csvOf {raw : Option Json} {keys : List String} {label : String}
    {out : List (String × String)}
    (valid : validateAndMarshalCsv shown raw keys label = .ok out) (key : String) :
    Admitted (csvOf out key) := by
  have each : ∀ p ∈ out, Admitted p.2 := by
    intro p mem
    unfold validateAndMarshalCsv at valid
    split at valid
    · cases valid
      obtain ⟨_, -, rfl⟩ := List.mem_map.mp mem
      exact admitted_empty
    · cases valid
      obtain ⟨_, -, rfl⟩ := List.mem_map.mp mem
      exact admitted_empty
    · rename_i members
      obtain ⟨key, -, made⟩ := mem_of_mapM_ok valid mem
      cases marshalled : marshalKey shown label key ((ofPairs members).lookup key) with
      | error e =>
        rw [marshalled] at made
        cases made
      | ok csv =>
        rw [marshalled] at made
        cases made
        exact admitted_marshalKey marshalled
    · cases valid
  unfold csvOf
  cases at_key : out.find? fun p => p.1 = key with
  | none => exact admitted_empty
  | some p => exact each p (List.mem_of_find?_eq_some at_key)

theorem nodup_eraseDups (l : List String) : l.eraseDups.Nodup := by
  match l with
  | [] => exact List.nodup_nil
  | a :: l =>
    rw [List.eraseDups_cons, List.nodup_cons, List.mem_eraseDups]
    exact ⟨by simp, nodup_eraseDups _⟩
termination_by l.length
decreasing_by exact Nat.lt_succ_of_le (List.length_filter_le _ _)

theorem nodup_includedDesks {inc : IncludeCsv} {desks : List String} (admitted : Admitted inc.desk)
    (nodup : desks.Nodup) : (includedDesks inc desks).Nodup := by
  unfold includedDesks
  have own := admitted.splitCsv.1
  have matched : (desksOfRegions inc.region desks).Nodup := nodup.filter _
  dsimp only
  split
  · exact own
  · split
    · split
      · exact List.nodup_singleton _
      · exact matched
    · split
      · exact List.nodup_singleton _
      · exact own.filter _

theorem nodup_excludedDesks {exc : ExcludeCsv} (admitted : Admitted exc.desk)
    (desks : List String) : (excludedDesks exc desks).Nodup := by
  unfold excludedDesks
  dsimp only
  split
  · exact admitted.splitCsv.1
  · exact nodup_eraseDups _

theorem nodup_filterClauses {negated : Bool} {keys : List String}
    {ps : List (String × List String)} (nodup : ∀ p ∈ ps, p.2.Nodup) :
    ∀ clause ∈ filterClauses negated keys (ofPairs ps), clause.values.Nodup := by
  intro clause mem
  rw [filterClauses, List.mem_filterMap] at mem
  obtain ⟨key, -, made⟩ := mem
  split at made
  · rename_i v vs found
    cases made
    exact nodup _ (mem_of_lookup_ofPairs found)
  · cases made

/-- Every clause of a request lists distinct values. -/
theorem nodup_queryClauses (riskClass sensitivityType : String) {subset desks : List String}
    {outInclude outExclude : List (String × String)} (subset_nodup : subset.Nodup)
    (desks_nodup : desks.Nodup) (included : ∀ key, Admitted (csvOf outInclude key))
    (excluded : ∀ key, Admitted (csvOf outExclude key)) :
    ∀ clause ∈ queryClauses riskClass sensitivityType
      (queryFilters subset desks (includeCsv outInclude) (excludeCsv outExclude)),
        clause.values.Nodup := by
  intro clause mem
  simp only [queryClauses, List.mem_append] at mem
  rcases mem with ((mem | mem) | mem) | mem
  · rcases mem with ⟨⟩ | ⟨-, ⟨⟩ | ⟨-, ⟨⟩⟩⟩
    · exact List.nodup_singleton _
    · exact List.nodup_singleton _
  · split at mem
    · cases mem
    · rcases mem with ⟨⟩ | ⟨-, ⟨⟩⟩
      exact subset_nodup
  · refine nodup_filterClauses ?_ clause mem
    simp only [List.forall_mem_cons]
    exact ⟨(included "book").splitCsv.1, (included "trade_id").splitCsv.1,
      nodup_includedDesks (included "desk") desks_nodup, (included "bucket").splitCsv.1,
      List.forall_mem_nil _⟩
  · refine nodup_filterClauses ?_ clause mem
    simp only [List.forall_mem_cons]
    exact ⟨(excluded "book").splitCsv.1, (excluded "trade_id").splitCsv.1,
      (excluded "risk_factor").splitCsv.1, nodup_excludedDesks (excluded "desk") desks,
      (excluded "bucket").splitCsv.1, List.forall_mem_nil _⟩

end Admitted

end RequestFilters
