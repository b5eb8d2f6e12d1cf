import Frtb.StorageWriter

/-!
# Rollup increments

The additive writer increments the rollup hashes by a row's whole
contribution. The delta writer reads the row's former contribution back from
its HASH and increments by the difference; it counts a row only when the HASH
was empty. Both skip a row without a class, a bucket and a sensitivity type.
-/

namespace RollupDelta

open AssocMaps JsonText EnrichDoc RollupKeys RedisStore StorageWriter

/-- The class, bucket and sensitivity type of a row that has all three. -/
structure RowTags where
  riskClass : String
  bucket : String
  sensType : String
deriving DecidableEq

def RowTags.key (tags : RowTags) (tenor : Option String) : String :=
  rollupKey tags.riskClass tags.bucket tags.sensType tenor

def rowTags (doc : Props) : Option RowTags := do
  let rc ← strAt doc "risk_class"
  let bkt ← strAt doc "bucket"
  let sens ← strAt doc "sensitivity_type"
  if rc = "" ∨ bkt = "" ∨ sens = "" then none else some ⟨rc, bkt, sens⟩

def emitSeenSadds (doc : Props) : List Cmd :=
  match rowTags doc with
  | none => []
  | some tags =>
    [.sadd seenRiskClassKey tags.riskClass, .sadd (seenBucketKey tags.riskClass) tags.bucket,
      .sadd (seenSensTypeKey tags.riskClass tags.bucket) tags.sensType]

section Cells

/-- Increment the fields of one scalar rollup from `old` to `new`. -/
def emitScalarDelta (key : String) (countDelta : ℚ) (new old : ℚ) : List Cmd :=
  [Cmd.hincrbyfloat key "sum_ws" (new - old),
    .hincrbyfloat key "sum_ws_sq" (new * new - old * old)] ++
    (if countDelta = 0 then [] else [Cmd.hincrbyfloat key "count" countDelta])

/-- Increment the fields of one curvature rollup from `old` to `new`, each an
up and a down value. -/
def emitCurvatureDelta (key : String) (countDelta : ℚ) (new old : ℚ × ℚ) : List Cmd :=
  [Cmd.hincrbyfloat key "sum_ws_up" (new.1 - old.1),
    .hincrbyfloat key "sum_ws_up_sq" (new.1 * new.1 - old.1 * old.1),
    .hincrbyfloat key "sum_ws_down" (new.2 - old.2),
    .hincrbyfloat key "sum_ws_down_sq" (new.2 * new.2 - old.2 * old.2)] ++
    (if countDelta = 0 then [] else [Cmd.hincrbyfloat key "count" countDelta])

/-- The base key of a scalar row, when the row has its scalar. -/
def emitScalarBase (key : String) (countDelta : ℚ) (new : Option ℚ) (old : ℚ) : List Cmd :=
  match new with
  | some ws => emitScalarDelta key countDelta ws old
  | none => []

/-- The base key of a curvature row, when the row has both scalars. -/
def emitCurvatureBase (key : String) (countDelta : ℚ) (newUp newDown : Option ℚ)
    (old : ℚ × ℚ) : List Cmd :=
  match newUp, newDown with
  | some up, some down => emitCurvatureDelta key countDelta (up, down) old
  | _, _ => []

end Cells

section Additive

/-- The tenors at which both maps have a value. -/
def pairedTenors (ups downs : Assoc String ℚ) : List (String × ℚ × ℚ) :=
  (pairs ups).filterMap fun p => (downs.lookup p.1).map fun d => (p.1, p.2, d)

def emitRollupHincrs (doc : Props) : List Cmd :=
  match rowTags doc with
  | none => []
  | some tags =>
    if tags.sensType = "Curvature" then
      emitCurvatureBase (tags.key none) 1 (numAt doc "weighted_cvr_up")
        (numAt doc "weighted_cvr_down") (0, 0) ++
      match tenorMapAt doc "weighted_cvr_up_per_tenor",
          tenorMapAt doc "weighted_cvr_down_per_tenor" with
      | some ups, some downs =>
        (pairedTenors ups downs).flatMap fun p =>
          emitCurvatureDelta (tags.key (some p.1)) 1 p.2 (0, 0)
      | _, _ => []
    else
      emitScalarBase (tags.key none) 1 (numAt doc "weighted_value") 0 ++
      match tenorMapAt doc "weighted_value_per_tenor" with
      | some perTenor =>
        (pairs perTenor).flatMap fun p => emitScalarDelta (tags.key (some p.1)) 1 p.2 0
      | none => []

end Additive

section Delta

/-- What the HASH of a row still says about the row's former contribution. -/
structure OldContribution where
  present : Bool
  scalarWs : Option ℚ
  perTenorWs : Option (Assoc String ℚ)
  scalarCvrUp : Option ℚ
  scalarCvrDown : Option ℚ
  perTenorCvrUp : Option (Assoc String ℚ)
  perTenorCvrDown : Option (Assoc String ℚ)

/-- The contribution read from an empty HASH. -/
def OldContribution.absent : OldContribution where
  present := false
  scalarWs := none
  perTenorWs := none
  scalarCvrUp := none
  scalarCvrDown := none
  perTenorCvrUp := none
  perTenorCvrDown := none

def numberField (oldHash : Hash) (name : String) : Option ℚ :=
  (oldHash.lookup name).map Stored.toNumber

/-- The fields under a prefix as numbers, none when there is no such field. -/
def tenorFields (oldHash : Hash) (fieldPrefix : String) : Option (Assoc String ℚ) :=
  let fields := collectPrefix fieldPrefix oldHash
  if fields.keys = [] then none
  else some (ofPairs ((pairs fields).map fun p => (p.1, p.2.toNumber)))

/-- `legsForSensType` of the scalar legs, empty for any other type. -/
def scalarLeg (sensType : String) : String :=
  if sensType = "Delta" then "delta" else if sensType = "Vega" then "vega" else ""

def parseOldContribution (oldHash : Hash) (riskClass sensType : String) : OldContribution :=
  if oldHash.keys = [] then .absent
  else
    let r := { OldContribution.absent with present := true }
    let lower := lowerCase riskClass
    if lower = "" ∨ sensType = "" then r
    else if sensType = "Curvature" then
      { r with
        scalarCvrUp := numberField oldHash (weightField lower "cvr_up")
        scalarCvrDown := numberField oldHash (weightField lower "cvr_down")
        perTenorCvrUp := tenorFields oldHash (tenorPrefix lower "cvr_up")
        perTenorCvrDown := tenorFields oldHash (tenorPrefix lower "cvr_down") }
    else
      let leg := scalarLeg sensType
      if leg = "" then r
      else
        { r with
          scalarWs := numberField oldHash (weightField lower leg)
          perTenorWs := tenorFields oldHash (tenorPrefix lower leg) }

/-- `rec[t] ?? 0` of an optional map. -/
def valueAt (m : Option (Assoc String ℚ)) (t : String) : ℚ := (m.bind (·.lookup t)).getD 0

def namesOf (m : Option (Assoc String ℚ)) : List String := (m.map (·.keys)).getD []

/-- A row counts as new only when its HASH was empty. -/
def OldContribution.countDelta (oldC : OldContribution) : ℚ := if oldC.present then 0 else 1

/-- Every tenor of the new map or the old one, from its old to its new value. -/
def emitScalarTenors (tags : RowTags) (countDelta : ℚ) (new old : Option (Assoc String ℚ)) :
    List Cmd :=
  match new with
  | none => []
  | some newPT =>
    (newPT.keys ++ namesOf old).dedup.flatMap fun t =>
      emitScalarDelta (tags.key (some t)) countDelta (valueAt (some newPT) t) (valueAt old t)

def emitCurvatureTenors (tags : RowTags) (countDelta : ℚ)
    (newUp newDown oldUp oldDown : Option (Assoc String ℚ)) : List Cmd :=
  match newUp, newDown with
  | some ups, some downs =>
    (ups.keys ++ namesOf oldUp ++ downs.keys ++ namesOf oldDown).dedup.flatMap fun t =>
      emitCurvatureDelta (tags.key (some t)) countDelta
        (valueAt (some ups) t, valueAt (some downs) t) (valueAt oldUp t, valueAt oldDown t)
  | _, _ => []

def emitRollupDelta (oldC : OldContribution) (newDoc : Props) : List Cmd :=
  match rowTags newDoc with
  | none => []
  | some tags =>
    if tags.sensType = "Curvature" then
      emitCurvatureBase (tags.key none) oldC.countDelta (numAt newDoc "weighted_cvr_up")
        (numAt newDoc "weighted_cvr_down")
        (oldC.scalarCvrUp.getD 0, oldC.scalarCvrDown.getD 0) ++
      emitCurvatureTenors tags oldC.countDelta (tenorMapAt newDoc "weighted_cvr_up_per_tenor")
        (tenorMapAt newDoc "weighted_cvr_down_per_tenor") oldC.perTenorCvrUp oldC.perTenorCvrDown
    else
      emitScalarBase (tags.key none) oldC.countDelta (numAt newDoc "weighted_value")
        (oldC.scalarWs.getD 0) ++
      emitScalarTenors tags oldC.countDelta (tenorMapAt newDoc "weighted_value_per_tenor")
        oldC.perTenorWs

end Delta

end RollupDelta
