import Frtb.RollupReadout
import Frtb.ParentChild
import Frtb.Library.NumberText

/-!
# What a HASH keeps of a row's rollup values

The backfill rebuilds a document from the HASH of a row and accumulates the
rollup values of that document, where ingest incremented by those of the
enriched row. The layout drops the scalar of a row with tenors, which comes
back as the sum of the tenors; it writes nothing for a map without a number;
and it turns the routing fields into texts.
-/

namespace HashFlattening

open AssocMaps JsonText EnrichDoc RollupKeys RedisStore StorageWriter RollupDelta RollupContribution
open HashLayout RollupReadout

section Accumulate

structure ScalarAcc where
  sumWs : ℚ
  sumWsSq : ℚ
  count : ℚ

structure CurvatureAcc where
  sumWsUp : ℚ
  sumWsUpSq : ℚ
  sumWsDown : ℚ
  sumWsDownSq : ℚ
  count : ℚ

/-- The rollup maps that the backfill fills before it writes anything. -/
structure Accs where
  scalar : Assoc String ScalarAcc
  curvature : Assoc String CurvatureAcc

def Accs.empty : Accs := ⟨∅, ∅⟩

def bumpScalar (accs : Accs) (key : String) (ws : ℚ) : Accs :=
  let a := (accs.scalar.lookup key).getD ⟨0, 0, 0⟩
  { accs with scalar := accs.scalar.insert key ⟨a.sumWs + ws, a.sumWsSq + ws * ws, a.count + 1⟩ }

def bumpCurv (accs : Accs) (key : String) (up down : ℚ) : Accs :=
  let a := (accs.curvature.lookup key).getD ⟨0, 0, 0, 0, 0⟩
  { accs with
    curvature := accs.curvature.insert key
      ⟨a.sumWsUp + up, a.sumWsUpSq + up * up, a.sumWsDown + down, a.sumWsDownSq + down * down,
        a.count + 1⟩ }

def accumulateRollup (doc : Props) (accs : Accs) : Accs :=
  match rowTags doc with
  | none => accs
  | some tags =>
    if tags.sensType = "Curvature" then
      let accs :=
        match numAt doc "weighted_cvr_up", numAt doc "weighted_cvr_down" with
        | some up, some down => bumpCurv accs (tags.key none) up down
        | _, _ => accs
      match tenorMapAt doc "weighted_cvr_up_per_tenor",
          tenorMapAt doc "weighted_cvr_down_per_tenor" with
      | some ups, some downs =>
        (pairedTenors ups downs).foldl
          (fun accs p => bumpCurv accs (tags.key (some p.1)) p.2.1 p.2.2) accs
      | _, _ => accs
    else
      let accs :=
        match numAt doc "weighted_value" with
        | some ws => bumpScalar accs (tags.key none) ws
        | none => accs
      match tenorMapAt doc "weighted_value_per_tenor" with
      | some m => (pairs m).foldl (fun accs p => bumpScalar accs (tags.key (some p.1)) p.2) accs
      | none => accs

def ScalarAcc.field (a : ScalarAcc) (name : String) : ℚ :=
  if name = "sum_ws" then a.sumWs
  else if name = "sum_ws_sq" then a.sumWsSq
  else if name = "count" then a.count
  else 0

def CurvatureAcc.field (a : CurvatureAcc) (name : String) : ℚ :=
  if name = "sum_ws_up" then a.sumWsUp
  else if name = "sum_ws_up_sq" then a.sumWsUpSq
  else if name = "sum_ws_down" then a.sumWsDown
  else if name = "sum_ws_down_sq" then a.sumWsDownSq
  else if name = "count" then a.count
  else 0

/-- The value accumulated for one field of one rollup hash. -/
def Accs.value (accs : Accs) (key name : String) : ℚ :=
  ((accs.scalar.lookup key).map (·.field name)).getD 0 +
    ((accs.curvature.lookup key).map (·.field name)).getD 0

variable (accs : Accs) (key name : String)

theorem value_bumpScalar (k : String) (ws : ℚ) :
    (bumpScalar accs k ws).value key name =
      accs.value key name + if key = k then scalarTerm name ws else 0 := by
  by_cases here : key = k
  · subst here
    simp only [Accs.value, bumpScalar, AList.lookup_insert, Option.map_some, Option.getD_some,
      if_true]
    cases accs.scalar.lookup key <;>
      simp only [ScalarAcc.field, scalarTerm, scalarPart, countPart, Option.getD_none,
        Option.getD_some, Option.map_none, Option.map_some] <;>
      split_ifs <;> simp_all <;> ring
  · simp [Accs.value, bumpScalar, AList.lookup_insert_ne here, here]

theorem value_bumpCurv (k : String) (v : ℚ × ℚ) :
    (bumpCurv accs k v.1 v.2).value key name =
      accs.value key name + if key = k then curvatureTerm name v else 0 := by
  by_cases here : key = k
  · subst here
    simp only [Accs.value, bumpCurv, AList.lookup_insert, Option.map_some, Option.getD_some,
      if_true]
    cases accs.curvature.lookup key <;>
      simp only [CurvatureAcc.field, curvatureTerm, curvaturePart, countPart, Option.getD_none,
        Option.getD_some, Option.map_none, Option.map_some] <;>
      split_ifs <;> simp_all <;> ring
  · simp [Accs.value, bumpCurv, AList.lookup_insert_ne here, here]

theorem value_foldl {α : Type*} (bump : Accs → α → Accs) (k : α → String) (worth : α → ℚ)
    (one : ∀ accs a, (bump accs a).value key name =
      accs.value key name + if key = k a then worth a else 0) (l : List α) :
    (l.foldl bump accs).value key name =
      accs.value key name + (l.map fun a => if key = k a then worth a else 0).sum := by
  induction l generalizing accs with
  | nil => simp
  | cons a l ih => rw [List.foldl_cons, ih, one, List.map_cons, List.sum_cons, add_assoc]

theorem value_baseCurv (tags : RowTags) (up down : Option ℚ) :
    Accs.value
        (match up, down with
        | some up, some down => bumpCurv accs (tags.key none) up down
        | _, _ => accs) key name =
      accs.value key name + baseTerm tags key ((bothOf up down).map (curvatureTerm name)) := by
  cases up with
  | none => simp [bothOf, baseTerm]
  | some u =>
    cases down with
    | none => simp [bothOf, baseTerm]
    | some d => exact value_bumpCurv accs key name (tags.key none) (u, d)

theorem value_baseScalar (tags : RowTags) (ws : Option ℚ) :
    Accs.value
        (match ws with
        | some ws => bumpScalar accs (tags.key none) ws
        | none => accs) key name =
      accs.value key name + baseTerm tags key (ws.map (scalarTerm name)) := by
  cases ws with
  | none => simp [baseTerm]
  | some ws => exact value_bumpScalar accs key name (tags.key none) ws

/-- The backfill accumulates what ingest increments by. -/
theorem value_accumulateRollup (doc : Props) :
    (accumulateRollup doc accs).value key name =
      accs.value key name + increments (emitRollupHincrs doc) key name := by
  unfold accumulateRollup
  cases ht : rowTags doc with
  | none => simp [emitRollupHincrs, ht]
  | some tags =>
    dsimp only
    by_cases curvature : tags.sensType = "Curvature"
    · rw [if_pos curvature, increments_curvatureRow ht curvature, ← add_assoc, ← value_baseCurv]
      cases tenorMapAt doc "weighted_cvr_up_per_tenor" with
      | none => rw [add_zero]
      | some ups =>
        cases tenorMapAt doc "weighted_cvr_down_per_tenor" with
        | none => rw [add_zero]
        | some downs =>
          exact value_foldl _ key name
            (fun accs (p : String × ℚ × ℚ) => bumpCurv accs (tags.key (some p.1)) p.2.1 p.2.2)
            (fun p => tags.key (some p.1)) (fun p => curvatureTerm name p.2)
            (fun accs p => value_bumpCurv accs key name _ p.2) _
    · rw [if_neg curvature, increments_scalarRow ht curvature, ← add_assoc, ← value_baseScalar]
      cases tenorMapAt doc "weighted_value_per_tenor" with
      | none => rw [add_zero]
      | some m =>
        exact value_foldl _ key name
          (fun accs (p : String × ℚ) => bumpScalar accs (tags.key (some p.1)) p.2)
          (fun p => tags.key (some p.1)) (fun p => scalarTerm name p.2)
          (fun accs p => value_bumpScalar accs key name _ p.2) _

end Accumulate

section Reconstruct

/-- `Number(text)` of a field when it is finite. -/
def finiteNumber : Stored → Option ℚ
  | .shown (.num q) => some q
  | .shown (.str s) => NumberText.toNumber s
  | _ => none

/-- A HASH field as a string; the text of a whole JSON value, which nothing
reads again, is left out. -/
def fieldText : Stored → Option Json
  | .shown v => some (.str (jsText v))
  | .stringified _ => none

def fieldTexts (fields : Hash) : Props :=
  ofPairs ((pairs fields).filterMap fun p => (fieldText p.2).map fun v => (p.1, v))

/-- The finite numbers under a prefix, by what follows it. -/
def perTenorFields (fields : Hash) (fieldPrefix : String) : Assoc String ℚ :=
  ofPairs ((pairs (collectPrefix fieldPrefix fields)).filterMap fun p =>
    (finiteNumber p.2).map fun q => (p.1, q))

def sumOf (m : Assoc String ℚ) : ℚ := total (fun _ v => v) m

def insertNumber (doc : Props) (name : String) (v : Option ℚ) : Props :=
  match v with
  | some q => doc.insert name (.num q)
  | none => doc

def reconstructDocFromHash (fields : Hash) : Props :=
  let doc := fieldTexts fields
  let rc := (strAt doc "risk_class").getD ""
  let sens := (strAt doc "sensitivity_type").getD ""
  if rc = "" ∨ sens = "" then doc
  else
    let lower := lowerCase rc
    if sens = "Curvature" then
      let ups := perTenorFields fields (tenorPrefix lower "cvr_up")
      let downs := perTenorFields fields (tenorPrefix lower "cvr_down")
      if ups.keys ≠ [] ∧ downs.keys ≠ [] then
        (((doc.insert "weighted_cvr_up_per_tenor" (tenorObject (pairs ups))).insert
          "weighted_cvr_down_per_tenor" (tenorObject (pairs downs))).insert
          "weighted_cvr_up" (.num (sumOf ups))).insert "weighted_cvr_down" (.num (sumOf downs))
      else
        insertNumber (insertNumber doc "weighted_cvr_up"
            (numberField fields (weightField lower "cvr_up")))
          "weighted_cvr_down" (numberField fields (weightField lower "cvr_down"))
    else
      let leg := scalarLeg sens
      if leg = "" then doc
      else
        let perTenor := perTenorFields fields (tenorPrefix lower leg)
        if perTenor.keys ≠ [] then
          (doc.insert "weighted_value_per_tenor" (tenorObject (pairs perTenor))).insert
            "weighted_value" (.num (sumOf perTenor))
        else insertNumber doc "weighted_value" (numberField fields (weightField lower leg))

/-- What the backfill accumulates for the HASH that a document was laid out as. -/
def backfilled (doc : Props) (key name : String) : ℚ :=
  (accumulateRollup (reconstructDocFromHash (ofPairs (flattenDocForHash doc))) Accs.empty).value
    key name

theorem backfilled_eq (doc : Props) (key name : String) :
    backfilled doc key name =
      increments (emitRollupHincrs (reconstructDocFromHash (ofPairs (flattenDocForHash doc))))
        key name := by
  have start : Accs.empty.value key name = 0 := by simp [Accs.value, Accs.empty]
  rw [backfilled, value_accumulateRollup, start, zero_add]

end Reconstruct

section Kept

/-- The routing fields as texts, when none of them is empty. -/
def textTags (doc : Props) : Option RowTags :=
  if textOf doc "risk_class" = "" ∨ textOf doc "bucket" = "" ∨
      textOf doc "sensitivity_type" = "" then none
  else some ⟨textOf doc "risk_class", textOf doc "bucket", textOf doc "sensitivity_type"⟩

/-- The scalar that stands for a map of tenors: their sum, if there is one. -/
def tenorSum (m : Assoc String ℚ) : Option ℚ := if m.keys = [] then none else some (sumOf m)

/-- The scalar that comes back of a Delta or Vega row. -/
def scalarKept (doc : Props) : Option ℚ :=
  match tenorMapAt doc "weighted_value_per_tenor" with
  | none => numAt doc "weighted_value"
  | some m => tenorSum m

/-- The pair of scalars that comes back of a curvature row. -/
def curvatureKept (doc : Props) : Option (ℚ × ℚ) :=
  match tenorMapAt doc "weighted_cvr_up_per_tenor" with
  | none => bothOf (numAt doc "weighted_cvr_up") (numAt doc "weighted_cvr_down")
  | some ups =>
    bothOf (tenorSum ups) ((tenorMapAt doc "weighted_cvr_down_per_tenor").bind tenorSum)

variable {doc : Props} {tags : RowTags}

theorem textTags_eq_some (ht : textTags doc = some tags) :
    textOf doc "risk_class" = tags.riskClass ∧ textOf doc "bucket" = tags.bucket ∧
      textOf doc "sensitivity_type" = tags.sensType ∧
      tags.riskClass ≠ "" ∧ tags.bucket ≠ "" ∧ tags.sensType ≠ "" := by
  unfold textTags at ht
  split at ht
  · cases ht
  · rename_i present
    cases ht
    simp only [not_or] at present
    exact ⟨rfl, rfl, rfl, present⟩

/-- String tags are their own texts. -/
theorem textTags_of_rowTags (ht : rowTags doc = some tags) : textTags doc = some tags := by
  obtain ⟨hrc, hbkt, hsens, rc, bkt, sens⟩ := rowTags_eq_some ht
  rw [textTags, textOf_of_strAt hrc, textOf_of_strAt hbkt, textOf_of_strAt hsens,
    if_neg (by simp [rc, bkt, sens])]

theorem rowTags_of_textTags (ht : textTags doc = none) : rowTags doc = none := by
  cases hr : rowTags doc with
  | none => rfl
  | some tags =>
    rw [textTags_of_rowTags hr] at ht
    cases ht

theorem rowTags_eq_textTags (ht : textTags doc = some tags) :
    rowTags doc = none ∨ rowTags doc = some tags := by
  cases hr : rowTags doc with
  | none => exact Or.inl rfl
  | some tags' =>
    rw [textTags_of_rowTags hr] at ht
    exact Or.inr ht

end Kept

section Fields
variable {doc : Props} {tags : RowTags}

theorem lookup_fieldTexts (fields : Hash) (name : String) :
    (fieldTexts fields).lookup name = (fields.lookup name).bind fieldText :=
  lookup_ofPairs_filterMap_pairs fields fieldText name

theorem lookup_perTenorFields (fields : Hash) (fieldPrefix t : String) :
    (perTenorFields fields fieldPrefix).lookup t =
      (fields.lookup (fieldPrefix ++ t)).bind finiteNumber := by
  rw [perTenorFields, lookup_ofPairs_filterMap_pairs, lookup_collectPrefix]

theorem fieldTexts_strings (fields : Hash) (name : String) :
    numAt (fieldTexts fields) name = none ∧ tenorMapAt (fieldTexts fields) name = none := by
  simp only [numAt, tenorMapAt, objAt, lookup_fieldTexts]
  cases fields.lookup name with
  | none => exact ⟨rfl, rfl⟩
  | some v => cases v <;> exact ⟨rfl, rfl⟩

/-- The texts of a laid out document are those of its TAG attributes. -/
theorem strAt_fieldTexts {name : String} (tag : name ∈ hashTagFields) :
    (strAt (fieldTexts (ofPairs (flattenDocForHash doc))) name).getD "" = textOf doc name := by
  rw [strAt, lookup_fieldTexts, lookup_flatten_tag tag, tagValue, textOf]
  cases doc.lookup name with
  | none => rfl
  | some v => cases v <;> rfl

theorem weightArgs_textCurvature (ht : textTags doc = some tags)
    (hs : tags.sensType = "Curvature") :
    weightArgs doc =
      match tenorMapAt doc "weighted_cvr_up_per_tenor" with
      | some ups =>
        tenorArgs (lowerCase tags.riskClass) "cvr_up" ups ++
          ((tenorMapAt doc "weighted_cvr_down_per_tenor").map
            (tenorArgs (lowerCase tags.riskClass) "cvr_down")).getD []
      | none =>
        scalarArgs (lowerCase tags.riskClass) "cvr_up" (numAt doc "weighted_cvr_up") ++
          scalarArgs (lowerCase tags.riskClass) "cvr_down" (numAt doc "weighted_cvr_down") := by
  obtain ⟨hrc, _, hsens, hne, _, _⟩ := textTags_eq_some ht
  cases ups : tenorMapAt doc "weighted_cvr_up_per_tenor" <;>
    simp only [weightArgs, hrc, hsens, hs, lowerCase_ne_empty hne, String.reduceEq, or_self,
      if_false, if_true, ups]

theorem weightArgs_textScalar (ht : textTags doc = some tags)
    (hleg : scalarLeg tags.sensType ≠ "") :
    weightArgs doc =
      match tenorMapAt doc "weighted_value_per_tenor" with
      | some m => tenorArgs (lowerCase tags.riskClass) (scalarLeg tags.sensType) m
      | none =>
        scalarArgs (lowerCase tags.riskClass) (scalarLeg tags.sensType)
          (numAt doc "weighted_value") := by
  obtain ⟨hrc, _, hsens, hne, _, hne'⟩ := textTags_eq_some ht
  obtain ⟨hlegs, hcurv⟩ := legsForSensType_scalar hleg
  cases map : tenorMapAt doc "weighted_value_per_tenor" <;>
    simp only [weightArgs, hrc, hsens, lowerCase_ne_empty hne, hne', hcurv, or_self, if_false,
      hlegs, map]

/-- A map of tenors that was laid out under its prefix comes back. -/
theorem perTenorFields_of_lookup {fields : Hash} {fieldPrefix : String}
    {m : Option (Assoc String ℚ)}
    (laid : ∀ t, fields.lookup (fieldPrefix ++ t) =
      (m.bind (·.lookup t)).map fun q => Stored.shown (.num q)) (t : String) :
    (perTenorFields fields fieldPrefix).lookup t = m.bind (·.lookup t) := by
  rw [lookup_perTenorFields, laid]
  cases m.bind (·.lookup t) <;> rfl

theorem keys_eq_nil_of_lookup {m m' : Assoc String ℚ} (same : ∀ t, m.lookup t = m'.lookup t) :
    m.keys = [] ↔ m'.keys = [] := by
  have half : ∀ {m m' : Assoc String ℚ}, (∀ t, m.lookup t = m'.lookup t) → m.keys = [] →
      m'.keys = [] := by
    intro m m' same empty
    apply List.eq_nil_iff_forall_not_mem.mpr
    intro t mem
    rw [← AList.mem_keys, ← AList.lookup_isSome, ← same, AList.lookup_isSome, AList.mem_keys,
      empty] at mem
    cases mem
  exact ⟨half same, half fun t => (same t).symm⟩

theorem tenorSum_congr {m m' : Assoc String ℚ} (same : ∀ t, m.lookup t = m'.lookup t) :
    tenorSum m = tenorSum m' := by
  rw [tenorSum, tenorSum, if_congr (keys_eq_nil_of_lookup same) rfl rfl, sumOf, sumOf,
    total_congr same]

theorem tenorMapAt_tenorObject {doc : Props} {name : String} {m : Assoc String ℚ}
    (stored : doc.lookup name = some (tenorObject (pairs m))) (t : String) :
    (tenorMapAt doc name).bind (·.lookup t) = m.lookup t := by
  simp only [tenorMapAt, objAt, stored, tenorObject, Option.map_some, Option.bind_some]
  rw [ParentChild.lookup_numericMembers, lookup_ofPairs_pairs_map m (fun _ q => Json.num q)]
  cases m.lookup t <;> rfl

end Fields

section Rebuilt
variable {doc : Props} {tags : RowTags}

def weightedFields : List String :=
  ["weighted_value", "weighted_value_per_tenor", "weighted_cvr_up", "weighted_cvr_down",
    "weighted_cvr_up_per_tenor", "weighted_cvr_down_per_tenor"]

theorem lookup_insertNumber_ne {d : Props} {name other : String} (ne : other ≠ name)
    (v : Option ℚ) : (insertNumber d name v).lookup other = d.lookup other := by
  cases v with
  | none => rfl
  | some q => exact AList.lookup_insert_ne ne

theorem numAt_insertNumber {d : Props} {name : String} (bare : numAt d name = none)
    (v : Option ℚ) : numAt (insertNumber d name v) name = v := by
  cases v with
  | none => exact bare
  | some q => rw [insertNumber, numAt, AList.lookup_insert]

/-- Rebuilding adds weighted fields only. -/
theorem lookup_reconstruct (fields : Hash) {name : String} (other : name ∉ weightedFields) :
    (reconstructDocFromHash fields).lookup name = (fieldTexts fields).lookup name := by
  simp only [weightedFields, List.mem_cons, List.not_mem_nil, or_false, not_or] at other
  obtain ⟨value, perTenor, up, down, ups, downs⟩ := other
  unfold reconstructDocFromHash
  dsimp only
  split_ifs
  · rfl
  · rw [AList.lookup_insert_ne down, AList.lookup_insert_ne up, AList.lookup_insert_ne downs,
      AList.lookup_insert_ne ups]
  · rw [lookup_insertNumber_ne down, lookup_insertNumber_ne up]
  · rfl
  · rw [AList.lookup_insert_ne value, AList.lookup_insert_ne perTenor]
  · rw [lookup_insertNumber_ne value]

/-- The document laid out and rebuilt. -/
def rebuilt (doc : Props) : Props := reconstructDocFromHash (ofPairs (flattenDocForHash doc))

theorem rowTags_rebuilt (doc : Props) : rowTags (rebuilt doc) = textTags doc := by
  have text : ∀ name ∈ routingFields, textOrEmpty (rebuilt doc) name = textOf doc name := by
    intro name routing
    have tag : name ∈ hashTagFields := (by decide : routingFields ⊆ hashTagFields) routing
    have other : name ∉ weightedFields :=
      (by decide : ∀ name ∈ routingFields, name ∉ weightedFields) name routing
    rw [textOrEmpty, ← strAt_fieldTexts tag]
    exact congrArg (fun o => Option.getD o "") (strAt_congr (lookup_reconstruct _ other))
  rw [StoredContribution.rowTags_eq_textOrEmpty, text _ (by simp [routingFields]),
    text _ (by simp [routingFields]), text _ (by simp [routingFields])]
  rfl

theorem rebuilt_scalarLeg (ht : textTags doc = some tags) (hleg : scalarLeg tags.sensType ≠ "") :
    let fields := ofPairs (flattenDocForHash doc)
    let field := weightField (lowerCase tags.riskClass) (scalarLeg tags.sensType)
    let perTenor := perTenorFields fields
      (tenorPrefix (lowerCase tags.riskClass) (scalarLeg tags.sensType))
    rebuilt doc =
      if perTenor.keys ≠ [] then
        ((fieldTexts fields).insert "weighted_value_per_tenor"
          (tenorObject (pairs perTenor))).insert
          "weighted_value" (.num (sumOf perTenor))
      else insertNumber (fieldTexts fields) "weighted_value" (numberField fields field) := by
  obtain ⟨hrc, _, hsens, rc, _, sens⟩ := textTags_eq_some ht
  have hcurv := (legsForSensType_scalar hleg).2
  dsimp only
  rw [rebuilt, reconstructDocFromHash]
  simp only [strAt_fieldTexts (by decide : "risk_class" ∈ hashTagFields),
    strAt_fieldTexts (by decide : "sensitivity_type" ∈ hashTagFields), hrc, hsens, rc,
      sens, or_self,
    if_false, hcurv, hleg]

theorem rebuilt_curvature (ht : textTags doc = some tags) (hs : tags.sensType = "Curvature") :
    let fields := ofPairs (flattenDocForHash doc)
    let lower := lowerCase tags.riskClass
    let ups := perTenorFields fields (tenorPrefix lower "cvr_up")
    let downs := perTenorFields fields (tenorPrefix lower "cvr_down")
    rebuilt doc =
      if ups.keys ≠ [] ∧ downs.keys ≠ [] then
        ((((fieldTexts fields).insert "weighted_cvr_up_per_tenor" (tenorObject (pairs ups))).insert
          "weighted_cvr_down_per_tenor" (tenorObject (pairs downs))).insert
          "weighted_cvr_up" (.num (sumOf ups))).insert "weighted_cvr_down" (.num (sumOf downs))
      else
        insertNumber (insertNumber (fieldTexts fields) "weighted_cvr_up"
            (numberField fields (weightField lower "cvr_up")))
          "weighted_cvr_down" (numberField fields (weightField lower "cvr_down")) := by
  obtain ⟨hrc, _, hsens, rc, _, sens⟩ := textTags_eq_some ht
  dsimp only
  rw [rebuilt, reconstructDocFromHash]
  simp only [strAt_fieldTexts (by decide : "risk_class" ∈ hashTagFields),
    strAt_fieldTexts (by decide : "sensitivity_type" ∈ hashTagFields), hrc, hsens, rc, hs,
    String.reduceEq, or_self, if_false, if_true]

theorem rebuilt_noLeg (ht : textTags doc = some tags) (hcurv : tags.sensType ≠ "Curvature")
    (hleg : scalarLeg tags.sensType = "") :
    rebuilt doc = fieldTexts (ofPairs (flattenDocForHash doc)) := by
  obtain ⟨hrc, _, hsens, rc, _, sens⟩ := textTags_eq_some ht
  rw [rebuilt, reconstructDocFromHash]
  simp only [strAt_fieldTexts (by decide : "risk_class" ∈ hashTagFields),
    strAt_fieldTexts (by decide : "sensitivity_type" ∈ hashTagFields), hrc, hsens, rc,
      sens, or_self,
    if_false, hcurv, hleg, if_true]

/-- The scalar and the tenors that come back of a Delta or Vega row. -/
theorem rebuilt_scalar_reads (ht : textTags doc = some tags)
    (hleg : scalarLeg tags.sensType ≠ "") :
    numAt (rebuilt doc) "weighted_value" = scalarKept doc ∧
      ∀ t, (tenorMapAt (rebuilt doc) "weighted_value_per_tenor").bind (·.lookup t) =
        (tenorMapAt doc "weighted_value_per_tenor").bind (·.lookup t) := by
  set fields : Hash := ofPairs (flattenDocForHash doc) with hfields
  set lower := lowerCase tags.riskClass
  set leg := scalarLeg tags.sensType
  have laid : ∀ name, IsWeightField name →
      fields.lookup name = (ofPairs (weightArgs doc)).lookup name :=
    fun name weight => lookup_flatten_weight weight
  have args := weightArgs_textScalar ht hleg
  have shape := rebuilt_scalarLeg ht hleg
  dsimp only at shape
  have tenors : ∀ t, fields.lookup (tenorPrefix lower leg ++ t) =
      ((tenorMapAt doc "weighted_value_per_tenor").bind (·.lookup t)).map
        fun q => Stored.shown (.num q) := by
    intro t
    rw [laid _ (isWeightField_tenorPrefix _ _ _), args]
    cases tenorMapAt doc "weighted_value_per_tenor" with
    | none =>
      apply lookup_ofPairs_eq_none
      rw [scalarArgs_names]
      split
      · simpa using tenorPrefix_append_ne lower leg t
      · exact List.not_mem_nil
    | some m => exact lookup_tenorArgs lower leg m t
  have perTenor := perTenorFields_of_lookup tenors
  have bare := fieldTexts_strings fields
  rw [shape]
  cases hm : tenorMapAt doc "weighted_value_per_tenor" with
  | none =>
    rw [hm] at args perTenor
    have empty : (perTenorFields fields (tenorPrefix lower leg)).keys = [] :=
      (@keys_eq_nil_of_lookup _ ∅ perTenor).mpr rfl
    have scalar : fields.lookup (weightField lower leg) =
        (numAt doc "weighted_value").map fun q => Stored.shown (.num q) := by
      rw [laid _ (isWeightField_weightField _ _), args]
      exact lookup_scalarArgs lower leg _
    rw [if_neg (by simpa using empty), numAt_insertNumber (bare _).1, numberField_eq scalar,
      scalarKept, hm]
    refine ⟨rfl, fun t => ?_⟩
    have same : tenorMapAt (insertNumber (fieldTexts fields) "weighted_value"
        (numAt doc "weighted_value")) "weighted_value_per_tenor" = none := by
      rw [tenorMapAt, objAt, lookup_insertNumber_ne (by decide)]
      exact (bare _).2
    rw [same]
  | some m =>
    rw [hm] at args perTenor
    have sameTenors : ∀ t, (perTenorFields fields (tenorPrefix lower leg)).lookup t = m.lookup t :=
      perTenor
    have kept : scalarKept doc = tenorSum (perTenorFields fields (tenorPrefix lower leg)) := by
      rw [scalarKept, hm]
      exact (tenorSum_congr sameTenors).symm
    rw [kept, tenorSum]
    by_cases empty : (perTenorFields fields (tenorPrefix lower leg)).keys = []
    · have none_ : fields.lookup (weightField lower leg) = none := by
        rw [laid _ (isWeightField_weightField _ _), args]
        apply lookup_ofPairs_eq_none
        rw [tenorArgs_names]
        intro mem
        obtain ⟨t, _, same⟩ := List.mem_map.mp mem
        exact tenorPrefix_append_ne lower leg t same
      rw [if_neg (by simpa using empty), if_pos empty, numberField, none_]
      refine ⟨(bare _).1, fun t => ?_⟩
      have missing : m.lookup t = none := by
        rw [← sameTenors t, AList.lookup_eq_none, AList.mem_keys, empty]
        exact List.not_mem_nil
      rw [Option.map_none, insertNumber, (bare _).2, Option.bind_some, missing]
      rfl
    · rw [if_pos empty, if_neg empty]
      constructor
      · rw [numAt, AList.lookup_insert]
      · intro t
        rw [tenorMapAt_tenorObject (m := perTenorFields fields (tenorPrefix lower leg))
          (by rw [AList.lookup_insert_ne (by decide), AList.lookup_insert]), sameTenors]
        rfl

theorem upName_ne_downName (lower x y : String) :
    tenorPrefix lower "cvr_up" ++ x ≠ tenorPrefix lower "cvr_down" ++ y := by
  intro same
  simp only [tenorPrefix, String.append_assoc] at same
  exact cvr_up_ne_cvr_down lower _ _ same

/-- The fields of a curvature row without tenors. -/
theorem laid_scalars (ht : textTags doc = some tags) (hs : tags.sensType = "Curvature")
    (bare : tenorMapAt doc "weighted_cvr_up_per_tenor" = none) :
    let fields : Hash := ofPairs (flattenDocForHash doc)
    let lower := lowerCase tags.riskClass
    (∀ t, fields.lookup (tenorPrefix lower "cvr_up" ++ t) = none) ∧
    fields.lookup (weightField lower "cvr_up") =
      (numAt doc "weighted_cvr_up").map (fun q => Stored.shown (.num q)) ∧
    fields.lookup (weightField lower "cvr_down") =
      (numAt doc "weighted_cvr_down").map fun q => Stored.shown (.num q) := by
  intro fields lower
  have args := weightArgs_textCurvature ht hs
  rw [bare] at args
  have apart : weightField lower "cvr_up" ≠ weightField lower "cvr_down" := by
    simpa using cvr_up_ne_cvr_down lower "" ""
  have names : ∀ leg v, ∀ name ∈ (scalarArgs lower leg v).map Prod.fst,
      name = weightField lower leg := by
    intro leg v name mem
    rw [scalarArgs_names] at mem
    split at mem
    · exact List.mem_singleton.mp mem
    · cases mem
  refine ⟨fun t => ?_, ?_, ?_⟩
  · rw [lookup_flatten_weight (isWeightField_tenorPrefix _ _ _), args]
    apply lookup_ofPairs_eq_none
    rw [List.map_append, List.mem_append]
    rintro (mem | mem)
    · exact tenorPrefix_append_ne _ _ _ (names _ _ _ mem)
    · have same := names _ _ _ mem
      simp only [tenorPrefix, String.append_assoc] at same
      exact cvr_up_ne_cvr_down lower ("_" ++ t) "" (by simpa using same)
  · rw [lookup_flatten_weight (isWeightField_weightField _ _), args,
      lookup_ofPairs_append_of_notMem fun mem => apart (names _ _ _ mem)]
    exact lookup_scalarArgs lower "cvr_up" _
  · rw [lookup_flatten_weight (isWeightField_weightField _ _), args,
      lookup_ofPairs_append_of_notMem_left fun mem => apart (names _ _ _ mem).symm]
    exact lookup_scalarArgs lower "cvr_down" _

/-- The fields of a curvature row with tenors. -/
theorem laid_tenors (ht : textTags doc = some tags) (hs : tags.sensType = "Curvature")
    {ups : Assoc String ℚ} (stored : tenorMapAt doc "weighted_cvr_up_per_tenor" = some ups) :
    let fields : Hash := ofPairs (flattenDocForHash doc)
    let lower := lowerCase tags.riskClass
    let downs := (tenorMapAt doc "weighted_cvr_down_per_tenor").getD ∅
    (∀ t, fields.lookup (tenorPrefix lower "cvr_up" ++ t) =
      (ups.lookup t).map fun q => Stored.shown (.num q)) ∧
    (∀ t, fields.lookup (tenorPrefix lower "cvr_down" ++ t) =
      (downs.lookup t).map fun q => Stored.shown (.num q)) ∧
    fields.lookup (weightField lower "cvr_up") = none ∧
    fields.lookup (weightField lower "cvr_down") = none := by
  intro fields lower downs
  have args : weightArgs doc =
      tenorArgs lower "cvr_up" ups ++ tenorArgs lower "cvr_down" downs := by
    rw [weightArgs_textCurvature ht hs, stored]
    simp only [downs]
    cases tenorMapAt doc "weighted_cvr_down_per_tenor" <;> rfl
  have names : ∀ leg m, ∀ name ∈ (tenorArgs lower leg m).map Prod.fst,
      ∃ t, name = tenorPrefix lower leg ++ t := by
    intro leg m name mem
    rw [tenorArgs_names] at mem
    obtain ⟨t, _, rfl⟩ := List.mem_map.mp mem
    exact ⟨t, rfl⟩
  have noScalar : ∀ name, (∀ t, name ≠ tenorPrefix lower "cvr_up" ++ t) →
      (∀ t, name ≠ tenorPrefix lower "cvr_down" ++ t) →
      (ofPairs (weightArgs doc)).lookup name = none := by
    intro name up down
    rw [args]
    apply lookup_ofPairs_eq_none
    rw [List.map_append, List.mem_append]
    rintro (mem | mem)
    · obtain ⟨t, same⟩ := names _ _ _ mem
      exact up t same
    · obtain ⟨t, same⟩ := names _ _ _ mem
      exact down t same
  refine ⟨fun t => ?_, fun t => ?_, ?_, ?_⟩
  · rw [lookup_flatten_weight (isWeightField_tenorPrefix _ _ _), args,
      lookup_ofPairs_append_of_notMem, lookup_tenorArgs]
    intro mem
    obtain ⟨t', same⟩ := names _ _ _ mem
    exact upName_ne_downName lower t t' same
  · rw [lookup_flatten_weight (isWeightField_tenorPrefix _ _ _), args,
      lookup_ofPairs_append_of_notMem_left, lookup_tenorArgs]
    intro mem
    obtain ⟨t', same⟩ := names _ _ _ mem
    exact upName_ne_downName lower t' t same.symm
  · rw [lookup_flatten_weight (isWeightField_weightField _ _)]
    refine noScalar _ (fun t => (tenorPrefix_append_ne _ _ t).symm) fun t same => ?_
    simp only [tenorPrefix, String.append_assoc] at same
    exact cvr_up_ne_cvr_down lower "" ("_" ++ t) (by simpa using same)
  · rw [lookup_flatten_weight (isWeightField_weightField _ _)]
    refine noScalar _ (fun t same => ?_) fun t => (tenorPrefix_append_ne _ _ t).symm
    simp only [tenorPrefix, String.append_assoc] at same
    exact cvr_up_ne_cvr_down lower ("_" ++ t) "" (by simpa using same.symm)

theorem tenorSum_getD (m : Option (Assoc String ℚ)) : m.bind tenorSum = tenorSum (m.getD ∅) := by
  cases m <;> rfl

theorem bothOf_none_left {α β : Type} (o : Option β) : bothOf (none : Option α) o = none := rfl

theorem bothOf_none_right {α β : Type} (o : Option α) : bothOf o (none : Option β) = none := by
  cases o <;> rfl

/-- The pairs that come back of a curvature row. -/
theorem rebuilt_curvature_reads (ht : textTags doc = some tags)
    (hs : tags.sensType = "Curvature") :
    bothOf (numAt (rebuilt doc) "weighted_cvr_up") (numAt (rebuilt doc) "weighted_cvr_down") =
        curvatureKept doc ∧
      ∀ t, bothOf ((tenorMapAt (rebuilt doc) "weighted_cvr_up_per_tenor").bind (·.lookup t))
          ((tenorMapAt (rebuilt doc) "weighted_cvr_down_per_tenor").bind (·.lookup t)) =
        bothOf ((tenorMapAt doc "weighted_cvr_up_per_tenor").bind (·.lookup t))
          ((tenorMapAt doc "weighted_cvr_down_per_tenor").bind (·.lookup t)) := by
  set fields : Hash := ofPairs (flattenDocForHash doc)
  set lower := lowerCase tags.riskClass
  have shape := rebuilt_curvature ht hs
  dsimp only at shape
  have bare := fieldTexts_strings fields
  have scalars : ∀ up down : Option ℚ,
      let d := insertNumber (insertNumber (fieldTexts fields) "weighted_cvr_up" up)
        "weighted_cvr_down" down
      numAt d "weighted_cvr_up" = up ∧ numAt d "weighted_cvr_down" = down ∧
        tenorMapAt d "weighted_cvr_up_per_tenor" = none := by
    intro up down d
    have upRead : numAt d "weighted_cvr_up" =
        numAt (insertNumber (fieldTexts fields) "weighted_cvr_up" up) "weighted_cvr_up" := by
      rw [numAt, numAt, lookup_insertNumber_ne (by decide)]
    refine ⟨upRead.trans (numAt_insertNumber (bare _).1 up), numAt_insertNumber ?_ down, ?_⟩
    · rw [numAt, lookup_insertNumber_ne (by decide)]
      exact (bare _).1
    · rw [tenorMapAt, objAt, lookup_insertNumber_ne (by decide), lookup_insertNumber_ne (by decide)]
      exact (bare _).2
  rw [shape]
  cases hu : tenorMapAt doc "weighted_cvr_up_per_tenor" with
  | none =>
    obtain ⟨upNames, up, down⟩ := laid_scalars ht hs hu
    have empty : (perTenorFields fields (tenorPrefix lower "cvr_up")).keys = [] := by
      refine (@keys_eq_nil_of_lookup _ ∅ fun t => ?_).mpr rfl
      rw [lookup_perTenorFields, upNames, AList.lookup_empty]
      rfl
    rw [if_neg (fun both => both.1 empty), numberField_eq up, numberField_eq down, curvatureKept,
      hu]
    obtain ⟨readUp, readDown, noUps⟩ :=
      scalars (numAt doc "weighted_cvr_up") (numAt doc "weighted_cvr_down")
    exact ⟨by rw [readUp, readDown], fun t => by rw [noUps]; rfl⟩
  | some ups =>
    obtain ⟨upNames, downNames, noUp, noDown⟩ := laid_tenors ht hs hu
    set downs := (tenorMapAt doc "weighted_cvr_down_per_tenor").getD ∅ with hdowns
    have upsRead := perTenorFields_of_lookup (m := some ups) upNames
    have downsRead := perTenorFields_of_lookup (m := some downs) downNames
    simp only [Option.bind_some] at upsRead downsRead
    have kept : curvatureKept doc =
        bothOf (tenorSum (perTenorFields fields (tenorPrefix lower "cvr_up")))
          (tenorSum (perTenorFields fields (tenorPrefix lower "cvr_down"))) := by
      rw [curvatureKept, hu, tenorSum_getD, tenorSum_congr upsRead, tenorSum_congr downsRead]
    have lookupDowns : ∀ t, (tenorMapAt doc "weighted_cvr_down_per_tenor").bind (·.lookup t) =
        downs.lookup t := by
      intro t
      rw [hdowns]
      cases tenorMapAt doc "weighted_cvr_down_per_tenor" <;> rfl
    rw [kept, tenorSum, tenorSum]
    by_cases upEmpty : (perTenorFields fields (tenorPrefix lower "cvr_up")).keys = []
    · obtain ⟨readUp, _, noUps⟩ := scalars none none
      rw [if_neg (fun both => both.1 upEmpty), if_pos upEmpty, numberField, numberField, noUp,
        noDown, Option.map_none, readUp, noUps]
      refine ⟨rfl, fun t => ?_⟩
      have missing : ups.lookup t = none := by
        rw [← upsRead t, AList.lookup_eq_none, AList.mem_keys, upEmpty]
        exact List.not_mem_nil
      rw [Option.bind_some, missing]
      rfl
    · by_cases downEmpty : (perTenorFields fields (tenorPrefix lower "cvr_down")).keys = []
      · obtain ⟨readUp, _, noUps⟩ := scalars none none
        rw [if_neg (fun both => both.2 downEmpty), if_pos downEmpty, numberField, numberField,
          noUp, noDown, Option.map_none, readUp, noUps, bothOf_none_right]
        refine ⟨rfl, fun t => ?_⟩
        have missing : downs.lookup t = none := by
          rw [← downsRead t, AList.lookup_eq_none, AList.mem_keys, downEmpty]
          exact List.not_mem_nil
        rw [lookupDowns, missing, bothOf_none_right]
        rfl
      · rw [if_pos ⟨upEmpty, downEmpty⟩, if_neg upEmpty, if_neg downEmpty]
        constructor
        · rw [numAt, AList.lookup_insert_ne (by decide), AList.lookup_insert, numAt,
            AList.lookup_insert]
        · intro t
          rw [tenorMapAt_tenorObject (m := perTenorFields fields (tenorPrefix lower "cvr_up"))
              (by rw [AList.lookup_insert_ne (by decide), AList.lookup_insert_ne (by decide),
                AList.lookup_insert_ne (by decide), AList.lookup_insert]),
            tenorMapAt_tenorObject (m := perTenorFields fields (tenorPrefix lower "cvr_down"))
              (by rw [AList.lookup_insert_ne (by decide), AList.lookup_insert_ne (by decide),
                AList.lookup_insert]),
            upsRead, downsRead, lookupDowns]
          rfl

end Rebuilt

section Agreement
variable {V : Type} {doc doc' : Props} {tags : RowTags} {worth : String → V → ℚ}
variable {base base' : Option V} {tenors tenors' : String → Option V}

/-- A row adds one value at its base key and one at each of its tenor keys. -/
structure Emits (doc : Props) (tags : RowTags) (worth : String → V → ℚ) (base : Option V)
    (tenors : String → Option V) : Prop where
  base : ∀ name, increments (emitRollupHincrs doc) (tags.key none) name =
    (base.map (worth name)).getD 0
  tenor : ∀ t name, increments (emitRollupHincrs doc) (tags.key (some t)) name =
    ((tenors t).map (worth name)).getD 0
  other : ∀ key, (∀ t, tags.key t ≠ key) → ∀ name, increments (emitRollupHincrs doc) key name = 0

/-- The fields of a rollup tell its values apart, and each from no value. -/
def Separates (worth : String → V → ℚ) : Prop :=
  ∀ o o' : Option V, (∀ name, (o.map (worth name)).getD 0 = (o'.map (worth name)).getD 0) → o = o'

theorem Emits.agree_iff (separates : Separates worth) (h : Emits doc tags worth base tenors)
    (h' : Emits doc' tags worth base' tenors') :
    (∀ key name, increments (emitRollupHincrs doc) key name =
        increments (emitRollupHincrs doc') key name) ↔
      base = base' ∧ ∀ t, tenors t = tenors' t := by
  constructor
  · intro agree
    constructor
    · refine separates _ _ fun name => ?_
      rw [← h.base, ← h'.base, agree]
    · intro t
      refine separates _ _ fun name => ?_
      rw [← h.tenor, ← h'.tenor, agree]
  · rintro ⟨same, sameTenors⟩ key name
    by_cases own : ∃ t, tags.key t = key
    · obtain ⟨t, rfl⟩ := own
      cases t with
      | none => rw [h.base, h'.base, same]
      | some t => rw [h.tenor, h'.tenor, sameTenors]
    · have none_ : ∀ t, tags.key t ≠ key := fun t same => own ⟨t, same⟩
      rw [h.other key none_, h'.other key none_]

theorem scalarTerm_separates : Separates scalarTerm := by
  have counted : ∀ v : ℚ, scalarTerm "count" v = 1 := by
    intro v
    simp [scalarTerm, scalarPart, countPart]
  have summed : ∀ v : ℚ, scalarTerm "sum_ws" v = v := by
    intro v
    simp [scalarTerm, scalarPart, countPart]
  intro o o' agree
  have count := agree "count"
  have sum := agree "sum_ws"
  cases o with
  | none =>
    cases o' with
    | none => rfl
    | some v' => simp [counted] at count
  | some v =>
    cases o' with
    | none => simp [counted] at count
    | some v' => simpa [summed] using sum

theorem curvatureTerm_separates : Separates curvatureTerm := by
  have counted : ∀ v : ℚ × ℚ, curvatureTerm "count" v = 1 := by
    intro v
    simp [curvatureTerm, curvaturePart, countPart]
  have up : ∀ v : ℚ × ℚ, curvatureTerm "sum_ws_up" v = v.1 := by
    intro v
    simp [curvatureTerm, curvaturePart, countPart]
  have down : ∀ v : ℚ × ℚ, curvatureTerm "sum_ws_down" v = v.2 := by
    intro v
    simp [curvatureTerm, curvaturePart, countPart]
  intro o o' agree
  have count := agree "count"
  have sumUp := agree "sum_ws_up"
  have sumDown := agree "sum_ws_down"
  cases o with
  | none =>
    cases o' with
    | none => rfl
    | some v' => simp [counted] at count
  | some v =>
    cases o' with
    | none => simp [counted] at count
    | some v' =>
      simp only [Option.map_some, Option.getD_some, up, down] at sumUp sumDown
      exact congrArg some (Prod.ext sumUp sumDown)

theorem other_key (ht : rowTags doc = some tags) (key : String) (other : ∀ t, tags.key t ≠ key)
    (name : String) : increments (emitRollupHincrs doc) key name = 0 := by
  refine increments_of_other_key key fun tags' ht' t => ?_
  rw [ht] at ht'
  cases ht'
  exact other t

theorem emits_scalar (ht : rowTags doc = some tags) (scalar : tags.sensType ≠ "Curvature") :
    Emits doc tags scalarTerm (numAt doc "weighted_value")
      fun t => (tenorMapAt doc "weighted_value_per_tenor").bind (·.lookup t) where
  base _ := increments_scalarRow_base ht scalar
  tenor t _ := increments_scalarRow_tenor ht scalar t
  other := other_key ht

theorem emits_curvature (ht : rowTags doc = some tags) (curvature : tags.sensType = "Curvature") :
    Emits doc tags curvatureTerm
      (bothOf (numAt doc "weighted_cvr_up") (numAt doc "weighted_cvr_down"))
      fun t => bothOf ((tenorMapAt doc "weighted_cvr_up_per_tenor").bind (·.lookup t))
        ((tenorMapAt doc "weighted_cvr_down_per_tenor").bind (·.lookup t)) where
  base _ := increments_curvatureRow_base ht curvature
  tenor t _ := increments_curvatureRow_tenor ht curvature t
  other := other_key ht

theorem emits_untagged (ht : rowTags doc = none) (tags : RowTags) (worth : String → V → ℚ) :
    Emits doc tags worth none fun _ => none := by
  have zero : ∀ key name, increments (emitRollupHincrs doc) key name = 0 := by
    intro key name
    rw [emitRollupHincrs, ht]
    rfl
  exact ⟨fun _ => zero _ _, fun _ _ => zero _ _, fun key _ name => zero key name⟩

theorem lookup_of_tenorSum {m : Assoc String ℚ} (empty : tenorSum m = none) (t : String) :
    m.lookup t = none := by
  rw [tenorSum] at empty
  split at empty
  · rename_i none_
    rw [AList.lookup_eq_none, AList.mem_keys, none_]
    exact List.not_mem_nil
  · cases empty

/-- A Delta or Vega row that keeps no scalar keeps no tenor. -/
theorem tenors_of_scalarKept (empty : scalarKept doc = none) (t : String) :
    (tenorMapAt doc "weighted_value_per_tenor").bind (·.lookup t) = none := by
  rw [scalarKept] at empty
  cases hm : tenorMapAt doc "weighted_value_per_tenor" with
  | none => rfl
  | some m =>
    rw [hm] at empty
    exact lookup_of_tenorSum empty t

theorem tenors_of_curvatureKept (empty : curvatureKept doc = none) (t : String) :
    bothOf ((tenorMapAt doc "weighted_cvr_up_per_tenor").bind (·.lookup t))
      ((tenorMapAt doc "weighted_cvr_down_per_tenor").bind (·.lookup t)) = none := by
  rw [curvatureKept] at empty
  cases hu : tenorMapAt doc "weighted_cvr_up_per_tenor" with
  | none => rfl
  | some ups =>
    rw [hu] at empty
    dsimp only at empty
    rw [Option.bind_some]
    cases up : tenorSum ups with
    | none => rw [lookup_of_tenorSum up, bothOf_none_left]
    | some u =>
      cases hd : tenorMapAt doc "weighted_cvr_down_per_tenor" with
      | none => exact bothOf_none_right _
      | some downs =>
        rw [hd, up, Option.bind_some] at empty
        cases down : tenorSum downs with
        | none => rw [Option.bind_some, lookup_of_tenorSum down, bothOf_none_right]
        | some d =>
          rw [down] at empty
          cases empty

end Agreement

section Lossless
variable {doc : Props}

/-- What the HASH stands for is what ingest incremented by: the tags are
strings (or nothing weighted is laid out), the type has a leg (or the row
carries no value), and a scalar beside a map of tenors is their sum, with none
beside a map without a number. -/
def Lossless (doc : Props) : Prop :=
  match textTags doc with
  | none => True
  | some tags =>
    if tags.sensType = "Curvature" then
      curvatureKept doc =
        if rowTags doc = none then none
        else bothOf (numAt doc "weighted_cvr_up") (numAt doc "weighted_cvr_down")
    else if scalarLeg tags.sensType = "" then
      rowTags doc = none ∨ numAt doc "weighted_value" = none ∧
        ∀ t, (tenorMapAt doc "weighted_value_per_tenor").bind (·.lookup t) = none
    else
      scalarKept doc = if rowTags doc = none then none else numAt doc "weighted_value"

theorem lossless_iff (doc : Props) :
    (∀ key name, backfilled doc key name = increments (emitRollupHincrs doc) key name) ↔
      Lossless doc := by
  simp only [backfilled_eq]
  change (∀ key name, increments (emitRollupHincrs (rebuilt doc)) key name = _) ↔ _
  have back := rowTags_rebuilt doc
  rw [Lossless]
  cases ht : textTags doc with
  | none =>
    rw [ht] at back
    have none_ := rowTags_of_textTags ht
    simp only [emitRollupHincrs, back, none_, implies_true]
  | some tags =>
    rw [ht] at back
    dsimp only
    by_cases curvature : tags.sensType = "Curvature"
    · rw [if_pos curvature]
      obtain ⟨base, tenors⟩ := rebuilt_curvature_reads ht curvature
      have after := emits_curvature back curvature
      rcases rowTags_eq_textTags ht with untagged | tagged
      · rw [after.agree_iff curvatureTerm_separates (emits_untagged untagged tags curvatureTerm),
          if_pos untagged, base]
        refine ⟨And.left, fun empty => ⟨empty, fun t => ?_⟩⟩
        rw [tenors, tenors_of_curvatureKept empty]
      · rw [after.agree_iff curvatureTerm_separates (emits_curvature tagged curvature),
          if_neg (by rw [tagged]; exact Option.some_ne_none tags), base]
        exact ⟨And.left, fun same => ⟨same, tenors⟩⟩
    · rw [if_neg curvature]
      have after := emits_scalar back curvature
      by_cases leg : scalarLeg tags.sensType = ""
      · rw [if_pos leg]
        have strings := fieldTexts_strings (ofPairs (flattenDocForHash doc))
        have value : numAt (rebuilt doc) "weighted_value" = none := by
          rw [rebuilt_noLeg ht curvature leg]
          exact (strings _).1
        have tenors : ∀ t, (tenorMapAt (rebuilt doc) "weighted_value_per_tenor").bind
            (·.lookup t) = none := by
          intro t
          rw [rebuilt_noLeg ht curvature leg, (strings _).2]
          rfl
        rcases rowTags_eq_textTags ht with untagged | tagged
        · rw [after.agree_iff scalarTerm_separates (emits_untagged untagged tags scalarTerm), value]
          exact ⟨fun _ => Or.inl untagged, fun _ => ⟨rfl, tenors⟩⟩
        · rw [after.agree_iff scalarTerm_separates (emits_scalar tagged curvature), value]
          simp only [tenors, tagged, reduceCtorEq, false_or, eq_comm]
      · rw [if_neg leg]
        obtain ⟨base, tenors⟩ := rebuilt_scalar_reads ht leg
        rcases rowTags_eq_textTags ht with untagged | tagged
        · rw [after.agree_iff scalarTerm_separates (emits_untagged untagged tags scalarTerm),
            if_pos untagged, base]
          refine ⟨And.left, fun empty => ⟨empty, fun t => ?_⟩⟩
          rw [tenors, tenors_of_scalarKept empty]
        · rw [after.agree_iff scalarTerm_separates (emits_scalar tagged curvature),
            if_neg (by rw [tagged]; exact Option.some_ne_none tags), base]
          exact ⟨And.left, fun same => ⟨same, tenors⟩⟩

/-- A row of a class with tenors that has no value at any of them. -/
def tenorlessRow : Message :=
  ofPairs [("risk_class", "GIRR"), ("bucket", "USD"), ("sensitivity_type", "Delta"),
    ("payload", "\x7b\"risk_value\":\x7b\x7d\x7d")]

def girrSchema : Schema where
  riskClasses := ofPairs [("GIRR", ⟨some ["1Y"], "girr_delta_weights"⟩)]
  riskWeights := ofPairs [("girr_delta_weights", .byTenor (ofPairs [("1Y", 1)]))]

end Lossless

end HashFlattening
