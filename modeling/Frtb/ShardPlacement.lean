import Frtb.LazyMath
import Frtb.AliasNames

/-!
# Where the documents sit

The rows of all nodes are merged sum by sum before any of them is read as a number, so a sum that
one node reports as `nan` is lost with what the other nodes add to it. Apart from that the place
of a document does not matter.
-/

namespace ShardPlacement

open AssocMaps EnrichDoc FastPath FastPathSums FastPathRows LazyMath AliasNames
open StorageWriter (upperCase)

section Groups
variable {K : Type} [DecidableEq K] {key : IndexDoc → K} {searchVer : ℕ} {mult : String → ℚ}
  {items : List Item} {keep : K → Bool}

theorem docsOf_perm {docs docs' : List IndexDoc} (perm : docs.Perm docs') (k : K) :
    (docsOf key docs k).Perm (docsOf key docs' k) :=
  perm.filter _

theorem exactSum_perm {docs docs' : List IndexDoc} (perm : docs.Perm docs') (name : SumName) :
    exactSum searchVer mult name docs = exactSum searchVer mult name docs' :=
  (perm.map _).sum_eq

/-- No sum of a group is lost on the nodes but one that is zero. -/
def Whole (searchVer : ℕ) (mult : String → ℚ) (items : List Item) (key : IndexDoc → K)
    (docs : List IndexDoc) (nan : K → SumName → Bool) (k : K) : Prop :=
  ∀ name ∈ sumNames items, nan k name = true →
    exactSum searchVer mult name (docsOf key docs k) = 0

/-- What is read of a merged row where no sum is lost. -/
theorem safeNum_rowAt_whole {docs : List IndexDoc} {nan : K → SumName → Bool} {m : Assoc K Record}
    (h : MapOf searchVer mult items key keep docs nan m) {k : K} (kept : keep k = true)
    (whole : Whole searchVer mult items key docs nan k) {name : SumName}
    (mem : name ∈ sumNames items) :
    safeNum ((rowAt m k).sums name) = exactSum searchVer mult name (docsOf key docs k) := by
  rw [safeNum_rowAt h kept mem]
  split
  · rename_i lost
    exact (whole name mem lost).symm
  · rfl

/-- Two merged rows read alike. -/
def ReadsAlike (items : List Item) (row row' : Record) : Prop :=
  (∀ name ∈ sumNames items, safeNum (row.sums name) = safeNum (row'.sums name)) ∧
    safeNum (some row.rowCount) = safeNum (some row'.rowCount)

/-- Merged rows of the same documents, the second ones without a lost sum, read alike exactly
where no sum is lost. -/
theorem readsAlike_iff {docs docs' : List IndexDoc} {nan nan' : K → SumName → Bool}
    {m m' : Assoc K Record} (h : MapOf searchVer mult items key keep docs nan m)
    (h' : MapOf searchVer mult items key keep docs' nan' m') (perm : docs'.Perm docs)
    (quiet : ∀ k name, nan' k name = true →
      exactSum searchVer mult name (docsOf key docs' k) = 0) {k : K} (kept : keep k = true) :
    ReadsAlike items (rowAt m k) (rowAt m' k) ↔ Whole searchVer mult items key docs nan k := by
  have single : ∀ name ∈ sumNames items, safeNum ((rowAt m' k).sums name) =
      exactSum searchVer mult name (docsOf key docs k) := by
    intro name mem
    rw [safeNum_rowAt_whole h' kept (fun name _ lost => quiet k name lost) mem,
      exactSum_perm (docsOf_perm perm k)]
  have counts : safeNum (some (rowAt m k).rowCount) = safeNum (some (rowAt m' k).rowCount) := by
    rw [rowCount_rowAt h kept, rowCount_rowAt h' kept, (docsOf_perm perm k).length_eq]
  constructor
  · intro alike name mem lost
    have same := alike.1 name mem
    rw [single name mem, safeNum_rowAt h kept mem, if_pos lost] at same
    exact same.symm
  · intro whole
    refine ⟨fun name mem => ?_, counts⟩
    rw [single name mem, safeNum_rowAt_whole h kept whole mem]

/-- The same groups are there. -/
theorem lookup_isSome_iff {docs docs' : List IndexDoc} {nan nan' : K → SumName → Bool}
    {m m' : Assoc K Record} (h : MapOf searchVer mult items key keep docs nan m)
    (h' : MapOf searchVer mult items key keep docs' nan' m') (perm : docs'.Perm docs) (k : K) :
    (m.lookup k).isSome ↔ (m'.lookup k).isSome := by
  have nonempty : docsOf key docs k ≠ [] ↔ docsOf key docs' k ≠ [] := by
    rw [← List.length_pos_iff, ← List.length_pos_iff, (docsOf_perm perm k).length_eq]
  have some_ : ∀ {docs : List IndexDoc} {nan : K → SumName → Bool} {m : Assoc K Record},
      MapOf searchVer mult items key keep docs nan m →
        ((m.lookup k).isSome ↔ keep k = true ∧ docsOf key docs k ≠ []) := by
    intro docs nan m h
    have here := h k
    split at here
    · rename_i present
      obtain ⟨row, found, -⟩ := here
      rw [found]
      exact ⟨fun _ => present, fun _ => rfl⟩
    · rename_i absent
      rw [here]
      exact ⟨fun some_ => absurd some_ Bool.false_ne_true, fun present => absurd present absent⟩
  rw [some_ h, some_ h', nonempty]

/-- One node loses only sums that are zero. -/
theorem someNan_single {ν : Type} {docs : ν → List IndexDoc} {nan : ν → NanChoice K} (node : ν)
    (k : K) (name : SumName) (lost : someNan docs nan key [node] k name = true) :
    exactSum searchVer mult name (docsOf key (docs node) k) = 0 := by
  simp only [someNan, nodeNan, List.any_cons, List.any_nil, Bool.or_false, Bool.and_eq_true] at lost
  exact exactSum_of_allMiss lost.2.2

end Groups

section Weighed

theorem readsAlike_scaleOne (f : String) (w : ℚ) {row row' : Record} {name : SumName}
    (same : safeNum (row.sums name) = safeNum (row'.sums name)) :
    safeNum ((scaleOne f w row).sums name) = safeNum ((scaleOne f w row').sums name) := by
  unfold scaleOne scaleRow
  simp only [List.foldl_cons, List.foldl_nil]
  split
  · rw [safeNum_scaled, safeNum_scaled, same]
  · split
    · rw [safeNum_scaled, safeNum_scaled, same]
    · exact same

theorem rowCount_scaleRow (fields : List String) (w : ℚ) (row : Record) :
    (scaleRow fields w row).rowCount = row.rowCount := by
  induction fields generalizing row with
  | nil => rfl
  | cons f fields ih =>
    rw [scaleRow_cons, ih]
    rfl

theorem readsAlike_scaleRow (fields : List String) (w : ℚ) {row row' : Record} {name : SumName}
    (same : safeNum (row.sums name) = safeNum (row'.sums name)) :
    safeNum ((scaleRow fields w row).sums name) = safeNum ((scaleRow fields w row').sums name) := by
  induction fields generalizing row row' with
  | nil => exact same
  | cons f fields ih =>
    rw [scaleRow_cons, scaleRow_cons]
    exact ih (readsAlike_scaleOne f w same)

/-- Weighing keeps rows alike. -/
theorem readsAlike_weighRow {items : List Item} (leg : FastLeg) (fields : LegFields)
    (spec : Option WeightSpec) (bucket : String) {row row' : Record}
    (alike : ReadsAlike items row row') :
    ReadsAlike items (weighRow leg fields spec bucket row)
      (weighRow leg fields spec bucket row') := by
  unfold weighRow
  split
  · dsimp only
    split
    · exact alike
    · refine ⟨fun name mem => readsAlike_scaleRow _ _ (alike.1 name mem), ?_⟩
      rw [rowCount_scaleRow, rowCount_scaleRow]
      exact alike.2
  · exact alike

end Weighed

section Components

theorem mem_perRfOf {m : Assoc (String × String) Record} {b rf : String} {row : Record} :
    (rf, row) ∈ perRfOf m b ↔ m.lookup (b, rf) = some row := by
  rw [perRfOf, List.mem_filterMap, ← mem_pairs]
  constructor
  · rintro ⟨⟨⟨b', rf'⟩, row'⟩, mem, own⟩
    dsimp only at own
    split at own
    · rename_i same
      cases own
      rwa [← same]
    · cases own
  · intro mem
    exact ⟨((b, rf), row), mem, if_pos rfl⟩

theorem nodup_perRfOf (m : Assoc (String × String) Record) (b : String) :
    ((perRfOf m b).map Prod.fst).Nodup := by
  have keys : ((pairs m).map Prod.fst).Nodup := by
    rw [map_fst_pairs]
    exact m.keys_nodup
  rw [List.Nodup, List.pairwise_map] at keys ⊢
  rw [perRfOf, List.pairwise_filterMap]
  refine keys.imp ?_
  intro p q apart r own r' own' same
  split at own
  · rename_i mine
    split at own'
    · rename_i mine'
      cases own
      cases own'
      exact apart (Prod.ext (mine.trans mine'.symm) same)
    · cases own'
  · cases own

/-- The components depend on what is made of the row of each risk factor. -/
theorem perRfComponents_congr {α : Type} {name : α → String} {make : String → Record → α}
    (named : ∀ rf row, name (make rf row) = rf) {m m' : Assoc (String × String) Record} {b : String}
    (same : ∀ rf, (m.lookup (b, rf)).map (make rf) = (m'.lookup (b, rf)).map (make rf)) :
    perRfComponents name make (perRfOf m b) = perRfComponents name make (perRfOf m' b) := by
  have mem : ∀ (m : Assoc (String × String) Record) (a : α),
      a ∈ (perRfOf m b).map (fun p => make p.1 p.2) ↔
        ∃ rf, (m.lookup (b, rf)).map (make rf) = some a := by
    intro m a
    simp only [List.mem_map, Prod.exists, mem_perRfOf, Option.map_eq_some_iff]
  have nodup : ∀ m : Assoc (String × String) Record,
      ((perRfOf m b).map fun p => make p.1 p.2).Nodup := by
    intro m
    refine List.Nodup.of_map name ?_
    rw [List.map_map, show (name ∘ fun p : String × Record => make p.1 p.2) = Prod.fst from
      funext fun p => named p.1 p.2]
    exact nodup_perRfOf m b
  have perm : ((perRfOf m b).map fun p => make p.1 p.2).Perm
      ((perRfOf m' b).map fun p => make p.1 p.2) := by
    rw [List.perm_ext_iff_of_nodup (nodup m) (nodup m')]
    intro a
    rw [mem, mem]
    exact exists_congr fun rf => by rw [same]
  have distinct : ∀ a c, a ∈ (perRfOf m b).map (fun p => make p.1 p.2) →
      c ∈ (perRfOf m' b).map (fun p => make p.1 p.2) → name a = name c → a = c := by
    intro a c ha hc eq
    obtain ⟨rf, own⟩ := (mem m a).mp ha
    obtain ⟨rf', own'⟩ := (mem m' c).mp hc
    obtain ⟨row, -, rfl⟩ := Option.map_eq_some_iff.mp own
    obtain ⟨row', -, rfl⟩ := Option.map_eq_some_iff.mp own'
    rw [named, named] at eq
    subst eq
    rw [same, own', Option.some.injEq] at own
    exact own.symm
  have total : ∀ a c, a ∈ ((perRfOf m b).map fun p => make p.1 p.2).insertionSort
      (fun a c => name a ≤ name c) → c ∈ ((perRfOf m' b).map fun p => make p.1 p.2).insertionSort
        (fun a c => name a ≤ name c) → name a ≤ name c → name c ≤ name a → a = c := by
    intro a c ha hc le ge
    rw [List.mem_insertionSort] at ha hc
    exact distinct a c ha hc (le_antisymm le ge)
  unfold perRfComponents
  exact List.Perm.eq_of_pairwise total (List.pairwise_insertionSort _ _)
    (List.pairwise_insertionSort _ _)
    ((List.perm_insertionSort _ _).trans (perm.trans (List.perm_insertionSort _ _).symm))

end Components

section Reports
variable {schema : CalcSchema} {rc : String} {leg : FastLeg} {lazyMath : Bool} {searchVer : ℕ}
  {row row' : Record} {perRf perRf' : List (String × Record)}

/-- The numbers that a leg reads of the fields of one prefix. -/
def SameNumbers (pre : LegPrefix) (fields : List String) (parts : List Part) (row row' : Record) :
    Prop :=
  ∀ f ∈ fields, ∀ part ∈ parts,
    safeNum (row.sums ⟨pre, f, part⟩) = safeNum (row'.sums ⟨pre, f, part⟩)

/-- The components that the risk factors of a bucket give. -/
def SameComponents (leg : FastLeg) (fields : LegFields) (perRf perRf' : List (String × Record)) :
    Prop :=
  match leg with
  | .delta => ∀ row row', buildWsComponents row fields.delta .d false perRf =
      buildWsComponents row' fields.delta .d false perRf'
  | .vega => ∀ row row', buildWsComponents row fields.vega .v false perRf =
      buildWsComponents row' fields.vega .v false perRf'
  | .curvature => ∀ row row', buildCurvatureComponents fields row false perRf =
      buildCurvatureComponents fields row' false perRf'

theorem legSums_same {pre : LegPrefix} {fields : List String}
    (same : SameNumbers pre fields [.value, .sq] row row') (perTenor : Bool) :
    legSums row fields pre perTenor = legSums row' fields pre perTenor := by
  have values : (fields.map fun f => safeNum (row.sums ⟨pre, f, .value⟩)) =
      fields.map fun f => safeNum (row'.sums ⟨pre, f, .value⟩) :=
    List.map_congr_left fun f mem => same f mem .value (by simp)
  have squares : (fields.map fun f => safeNum (row.sums ⟨pre, f, .sq⟩)) =
      fields.map fun f => safeNum (row'.sums ⟨pre, f, .sq⟩) :=
    List.map_congr_left fun f mem => same f mem .sq (by simp)
  unfold legSums
  rw [values, squares]

theorem wsComponents_same {pre : LegPrefix} {fields : List String}
    (same : SameNumbers pre fields [.value, .sq] row row') :
    buildWsComponents row fields pre true perRf =
      buildWsComponents row' fields pre true perRf' := by
  unfold buildWsComponents
  rw [if_pos rfl, if_pos rfl]
  refine List.map_congr_left fun f mem => ?_
  rw [same f mem .value (by simp), same f mem .sq (by simp)]

theorem direction_same {pre : LegPrefix} {fields : List String} (nonempty : fields ≠ [])
    (same : SameNumbers pre fields [.value, .sq, .neg, .negSq] row row') (rho : ℚ)
    (perTenor : Bool) :
    kbCurvatureForDirection row fields pre rho perTenor =
      kbCurvatureForDirection row' fields pre rho perTenor := by
  have values : (fields.map fun f => safeNum (row.sums ⟨pre, f, .value⟩)) =
      fields.map fun f => safeNum (row'.sums ⟨pre, f, .value⟩) :=
    List.map_congr_left fun f mem => same f mem .value (by simp)
  have head : fields.headD "" ∈ fields := by
    obtain ⟨f, fs, rfl⟩ := List.exists_cons_of_ne_nil nonempty
    exact List.mem_cons_self
  unfold kbCurvatureForDirection
  simp only [values, same _ head .value (by simp), same _ head .sq (by simp),
    same _ head .neg (by simp), same _ head .negSq (by simp)]

theorem sameNumbers_of_alike {pre : LegPrefix} {fields : List String} {parts : List Part}
    {items : List Item} (alike : ReadsAlike items row row')
    (own : ∀ f ∈ fields, ∃ it ∈ items, it.pre = pre ∧ it.f = f ∧ it.parts = parts) :
    SameNumbers pre fields parts row row' := by
  intro f mem part listed
  obtain ⟨it, here, rfl, rfl, rfl⟩ := own f mem
  exact alike.1 _ (mem_sumNames.mpr ⟨it, here, listed, rfl⟩)

/-- Rows that read alike have the same report, with the same components. -/
theorem bucketResultFromRow_alike {bucket : String} {rho : ℚ} {perTenor : Bool} {topN : Option ℕ}
    (alike : ReadsAlike (requestItems true (requestOf schema rc leg lazyMath).1) row row')
    (components : perTenor = false →
      SameComponents leg (requestOf schema rc leg lazyMath).1 perRf perRf') :
    bucketResultFromRow bucket row (requestOf schema rc leg lazyMath).1 leg rho perTenor perRf
        topN =
      bucketResultFromRow bucket row' (requestOf schema rc leg lazyMath).1 leg rho perTenor perRf'
        topN := by
  have counts := alike.2
  rw [requestOf_fields] at alike components ⊢
  set fields := resolveLegFieldsForPrefix schema rc leg (if lazyMath then "s" else "ws")
    with own
  cases leg with
  | delta =>
    have numbers : SameNumbers .d fields.delta [.value, .sq] row row' :=
      sameNumbers_of_alike alike fun f mem => ⟨⟨.d, f, false⟩, by
        simp only [requestItems, List.mem_append, List.mem_map]
        exact .inl (.inl (.inl ⟨f, mem, rfl⟩)), rfl, rfl, rfl⟩
    have ws : buildWsComponents row fields.delta .d perTenor perRf =
        buildWsComponents row' fields.delta .d perTenor perRf' := by
      cases perTenor with
      | true => exact wsComponents_same numbers
      | false => exact components rfl row row'
    simp only [bucketResultFromRow, legSums_same numbers, ws, counts]
  | vega =>
    have numbers : SameNumbers .v fields.vega [.value, .sq] row row' :=
      sameNumbers_of_alike alike fun f mem => ⟨⟨.v, f, false⟩, by
        simp only [requestItems, List.mem_append, List.mem_map]
        exact .inl (.inl (.inr ⟨f, mem, rfl⟩)), rfl, rfl, rfl⟩
    have ws : buildWsComponents row fields.vega .v perTenor perRf =
        buildWsComponents row' fields.vega .v perTenor perRf' := by
      cases perTenor with
      | true => exact wsComponents_same numbers
      | false => exact components rfl row row'
    simp only [bucketResultFromRow, legSums_same numbers, ws, counts]
  | curvature =>
    have ups : SameNumbers .u fields.cvrUp [.value, .sq, .neg, .negSq] row row' :=
      sameNumbers_of_alike alike fun f mem => ⟨⟨.u, f, true⟩, by
        simp only [requestItems, List.mem_append, List.mem_map]
        exact .inl (.inr ⟨f, mem, rfl⟩), rfl, rfl, rfl⟩
    have downs : SameNumbers .n fields.cvrDown [.value, .sq, .neg, .negSq] row row' :=
      sameNumbers_of_alike alike fun f mem => ⟨⟨.n, f, true⟩, by
        simp only [requestItems, List.mem_append, List.mem_map]
        exact .inr ⟨f, mem, rfl⟩, rfl, rfl, rfl⟩
    have nonempty : ∀ root, (fieldTenors schema rc).map
        (fieldFor (if lazyMath then "s" else "ws") (StorageWriter.lowerCase rc) root) ≠ [] := by
      intro root empty
      exact fieldTenors_ne_nil schema rc (List.map_eq_nil_iff.mp empty)
    have cvr : buildCurvatureComponents fields row perTenor perRf =
        buildCurvatureComponents fields row' perTenor perRf' := by
      cases perTenor with
      | false => exact components rfl row row'
      | true =>
        unfold buildCurvatureComponents
        rw [if_pos rfl, if_pos rfl]
        refine List.map_congr_left fun p mem => ?_
        rw [ups p.1 (List.of_mem_zip mem).1 .value (by simp),
          downs p.2 (List.of_mem_zip mem).2 .value (by simp)]
    have up : kbCurvatureForDirection row fields.cvrUp .u rho perTenor =
        kbCurvatureForDirection row' fields.cvrUp .u rho perTenor :=
      direction_same (nonempty "cvr_up") ups rho perTenor
    have down : kbCurvatureForDirection row fields.cvrDown .n rho perTenor =
        kbCurvatureForDirection row' fields.cvrDown .n rho perTenor :=
      direction_same (nonempty "cvr_down") downs rho perTenor
    simp only [bucketResultFromRow, up, down, cvr, counts]

end Reports

section Placement
variable {schema : CalcSchema} {rc : String} {leg : FastLeg} {lazyMath : Bool} {searchVer : ℕ}

/-- What is made of the row of a group is the same where the rows read alike. -/
theorem lookup_map_alike {K R : Type} [DecidableEq K] {key : IndexDoc → K} {mult : String → ℚ}
    {items : List Item} {keep : K → Bool} {docs docs' : List IndexDoc}
    {nan nan' : K → SumName → Bool} {m m' : Assoc K Record}
    (h : MapOf searchVer mult items key keep docs nan m)
    (h' : MapOf searchVer mult items key keep docs' nan' m') (perm : docs'.Perm docs)
    (quiet : ∀ k name, nan' k name = true →
      exactSum searchVer mult name (docsOf key docs' k) = 0)
    {k : K} (whole : keep k = true → Whole searchVer mult items key docs nan k)
    {g g' : Record → R} (same : ∀ row row', ReadsAlike items row row' → g row = g' row') :
    (m.lookup k).map g = (m'.lookup k).map g' := by
  have present := lookup_isSome_iff h h' perm k
  have kept : (m.lookup k).isSome → keep k = true := by
    intro here
    by_contra dropped
    have absent := h k
    rw [if_neg fun both => dropped both.1] at absent
    rw [absent] at here
    cases here
  cases found : m.lookup k with
  | none =>
    rw [found] at present
    have absent : m'.lookup k = none := by
      simpa using present
    rw [absent]
    rfl
  | some row =>
    rw [found] at present kept
    obtain ⟨row', found'⟩ := Option.isSome_iff_exists.mp (present.mp rfl)
    have alike := (readsAlike_iff h h' perm quiet (kept rfl)).mpr (whole (kept rfl))
    rw [rowAt, rowAt, found, found'] at alike
    rw [found', Option.map_some, Option.map_some, same row row' alike]

/-- No sum by bucket, and for a scalar class none by risk factor, is lost. -/
structure AllWhole (schema : CalcSchema) (rc : String) (leg : FastLeg) (lazyMath : Bool)
    (searchVer : ℕ) (nodes : List Node) : Prop where
  bucket : ∀ b, b ≠ "" → Whole searchVer (requestMult schema rc leg lazyMath)
    (requestItems true (requestOf schema rc leg lazyMath).1) IndexDoc.bucket
    (nodes.flatMap Node.docs) (someNan Node.docs Node.nan IndexDoc.bucket nodes) b
  riskFactor : isPerTenor schema rc = false → ∀ b rf, b ≠ "" → rf ≠ "" →
    Whole searchVer (requestMult schema rc leg lazyMath)
      (requestItems false (requestOf schema rc leg lazyMath).1) groupKey
      (nodes.flatMap Node.docs) (someNan Node.docs Node.nanPerRf groupKey nodes) (b, rf)

/-- The rows by risk factor of a scalar class are answered in full too. -/
structure Answerable (schema : CalcSchema) (rc : String) (nodes : List Node) : Prop
    extends RowsAnswerable schema rc nodes where
  riskFactor : isPerTenor schema rc = false → Within groupKey perRfLimit nodes

theorem within_spread {K : Type} [DecidableEq K] {key : IndexDoc → K} {limit : ℕ}
    {nodes : List Node} {single : Node} (alone : Within key limit [single])
    (perm : single.docs.Perm (nodes.flatMap Node.docs)) : Within key limit nodes := by
  intro node mem
  have listed : (node.docs.map key).dedup ⊆ (single.docs.map key).dedup := by
    intro k hk
    obtain ⟨d, hd, rfl⟩ := List.mem_map.mp (List.mem_dedup.mp hk)
    have here := perm.mem_iff.mpr (List.mem_flatMap.mpr ⟨node, mem, hd⟩)
    exact List.mem_dedup.mpr (List.mem_map_of_mem here)
  exact ((List.nodup_dedup _).subperm listed).length_le.trans
    (alone single List.mem_cons_self)

/-- Where one node can answer for all documents, so can the nodes that share them. -/
theorem Answerable.spread {nodes : List Node} {single : Node}
    (alone : Answerable schema rc [single])
    (perm : single.docs.Perm (nodes.flatMap Node.docs)) : Answerable schema rc nodes :=
  ⟨⟨alone.labels, within_spread alone.bucket perm⟩,
    fun scalar => within_spread (alone.riskFactor scalar) perm⟩

/-- The merged replies of the nodes read like those of a single node. -/
structure AllAlike (schema : CalcSchema) (rc : String) (leg : FastLeg) (lazyMath : Bool)
    (searchVer : ℕ) (nodes : List Node) (single : Node) : Prop where
  bucket : ∀ b, b ≠ "" → ReadsAlike (requestItems true (requestOf schema rc leg lazyMath).1)
    (rowAt (unweighedReplies schema rc leg lazyMath searchVer nodes) b)
    (rowAt (unweighedReplies schema rc leg lazyMath searchVer [single]) b)
  riskFactor : isPerTenor schema rc = false → ∀ b rf, b ≠ "" → rf ≠ "" →
    ReadsAlike (requestItems false (requestOf schema rc leg lazyMath).1)
      (rowAt (unweighedPerRf schema rc leg lazyMath searchVer nodes) (b, rf))
      (rowAt (unweighedPerRf schema rc leg lazyMath searchVer [single]) (b, rf))

theorem allAlike_iff {nodes : List Node} {single : Node}
    (perm : single.docs.Perm (nodes.flatMap Node.docs))
    (alone : Answerable schema rc [single]) :
    AllAlike schema rc leg lazyMath searchVer nodes single ↔
      AllWhole schema rc leg lazyMath searchVer nodes := by
  have answerable := alone.spread perm
  have rows := mapOf_unweighedRows schema rc leg lazyMath searchVer nodes
  have own := mapOf_unweighedRows schema rc leg lazyMath searchVer [single]
  rw [← unweighedReplies_eq answerable.bucket] at rows
  rw [← unweighedReplies_eq alone.bucket, List.flatMap_singleton] at own
  have bucket : ∀ b, b ≠ "" → _ := fun b named =>
    readsAlike_iff rows own perm (fun k name lost => someNan_single single k name lost)
      (decide_eq_true named : decide (b ≠ "") = true)
  have riskFactor : isPerTenor schema rc = false → ∀ b rf, b ≠ "" → rf ≠ "" →
      (ReadsAlike (requestItems false (requestOf schema rc leg lazyMath).1)
        (rowAt (unweighedPerRf schema rc leg lazyMath searchVer nodes) (b, rf))
        (rowAt (unweighedPerRf schema rc leg lazyMath searchVer [single]) (b, rf)) ↔
      Whole searchVer (requestMult schema rc leg lazyMath)
        (requestItems false (requestOf schema rc leg lazyMath).1) groupKey
        (nodes.flatMap Node.docs) (someNan Node.docs Node.nanPerRf groupKey nodes) (b, rf)) := by
    intro scalar b rf named known
    have perRf := mapOf_unweighedPerRf schema rc leg lazyMath searchVer
      (answerable.riskFactor scalar)
    have ownPerRf := mapOf_unweighedPerRf schema rc leg lazyMath searchVer
      (alone.riskFactor scalar)
    rw [List.flatMap_singleton] at ownPerRf
    exact readsAlike_iff perRf ownPerRf perm
      (fun k name lost => someNan_single single k name lost)
      (by simp [named, known] : (decide ((b, rf).1 ≠ "") && decide ((b, rf).2 ≠ "")) = true)
  constructor
  · rintro ⟨alike, alikeRf⟩
    exact ⟨fun b named => (bucket b named).mp (alike b named), fun scalar b rf named known =>
      (riskFactor scalar b rf named known).mp (alikeRf scalar b rf named known)⟩
  · rintro ⟨whole, wholeRf⟩
    exact ⟨fun b named => (bucket b named).mpr (whole b named), fun scalar b rf named known =>
      (riskFactor scalar b rf named known).mpr (wholeRf scalar b rf named known)⟩

/-- The field that the components of a scalar class are made of. -/
def headField (schema : CalcSchema) (rc : String) (lazyMath : Bool) (root : String) : String :=
  ((fieldTenors schema rc).map
    (fieldFor (if lazyMath then "s" else "ws") (StorageWriter.lowerCase rc) root)).headD ""

theorem headField_mem (schema : CalcSchema) (rc : String) (lazyMath : Bool) (root : String) :
    headField schema rc lazyMath root ∈ (fieldTenors schema rc).map
      (fieldFor (if lazyMath then "s" else "ws") (StorageWriter.lowerCase rc) root) := by
  unfold headField
  obtain ⟨t, ts, tenors⟩ := List.exists_cons_of_ne_nil (fieldTenors_ne_nil schema rc)
  rw [tenors]
  exact List.mem_cons_self

/-- The components of a bucket do not depend on where its documents sit. -/
theorem sameComponents_of_whole {nodes : List Node} {single : Node}
    (perm : single.docs.Perm (nodes.flatMap Node.docs))
    (alone : Answerable schema rc [single]) (scalar : isPerTenor schema rc = false)
    (whole : AllWhole schema rc leg lazyMath searchVer nodes) (b : String) :
    SameComponents leg (requestOf schema rc leg lazyMath).1
      (perRfOf (componentRows schema rc leg lazyMath searchVer nodes) b)
      (perRfOf (componentRows schema rc leg lazyMath searchVer [single]) b) := by
  have perRf := mapOf_unweighedPerRf schema rc leg lazyMath searchVer
    ((alone.spread perm).riskFactor scalar)
  have ownPerRf := mapOf_unweighedPerRf schema rc leg lazyMath searchVer (alone.riskFactor scalar)
  rw [List.flatMap_singleton] at ownPerRf
  have rows : ∀ {α : Type} {make : String → Record → α},
      (∀ rf row row', ReadsAlike (requestItems false (requestOf schema rc leg lazyMath).1) row
        row' → make rf row = make rf row') → ∀ rf,
      ((componentRows schema rc leg lazyMath searchVer nodes).lookup (b, rf)).map (make rf) =
        ((componentRows schema rc leg lazyMath searchVer [single]).lookup (b, rf)).map
          (make rf) := by
    intro α make respects rf
    unfold componentRows
    rw [if_neg (by rw [scalar]; exact Bool.false_ne_true), if_neg (by
      rw [scalar]; exact Bool.false_ne_true), lookup_repliedPerRf, lookup_repliedPerRf,
      Option.map_map, Option.map_map]
    refine lookup_map_alike perRf ownPerRf perm
      (fun k name lost => someNan_single single k name lost) (fun kept => ?_)
      fun row row' alike => respects rf _ _ (readsAlike_weighRow _ _ _ _ alike)
    rw [Bool.and_eq_true, decide_eq_true_eq, decide_eq_true_eq] at kept
    exact whole.riskFactor scalar b rf kept.1 kept.2
  have number : ∀ {row row' : Record} {it : Item} {part : Part},
      ReadsAlike (requestItems false (requestOf schema rc leg lazyMath).1) row row' →
      it ∈ requestItems false (requestOf schema rc leg lazyMath).1 → part ∈ it.parts →
      safeNum (row.sums ⟨it.pre, it.f, part⟩) = safeNum (row'.sums ⟨it.pre, it.f, part⟩) :=
    fun alike mem listed => alike.1 _ (mem_sumNames.mpr ⟨_, mem, listed, rfl⟩)
  have head := headField_mem schema rc lazyMath
  rw [requestOf_fields] at rows number ⊢
  cases leg with
  | delta =>
    intro row row'
    unfold buildWsComponents
    rw [if_neg Bool.false_ne_true, if_neg Bool.false_ne_true]
    refine perRfComponents_congr (fun _ _ => rfl) (rows fun rf row row' alike => ?_)
    have mem : (⟨.d, headField schema rc lazyMath "delta", false⟩ : Item) ∈ requestItems false
        (resolveLegFieldsForPrefix schema rc .delta (if lazyMath then "s" else "ws")) := by
      simp only [requestItems, List.mem_append, List.mem_map]
      exact .inl (.inl (.inl ⟨_, head "delta", rfl⟩))
    exact congrArg₂ (WsComponent.mk rf) (number alike mem (by simp [Item.parts]))
      (number alike mem (by simp [Item.parts]))
  | vega =>
    intro row row'
    unfold buildWsComponents
    rw [if_neg Bool.false_ne_true, if_neg Bool.false_ne_true]
    refine perRfComponents_congr (fun _ _ => rfl) (rows fun rf row row' alike => ?_)
    have mem : (⟨.v, headField schema rc lazyMath "vega", false⟩ : Item) ∈ requestItems false
        (resolveLegFieldsForPrefix schema rc .vega (if lazyMath then "s" else "ws")) := by
      simp only [requestItems, List.mem_append, List.mem_map]
      exact .inl (.inl (.inr ⟨_, head "vega", rfl⟩))
    exact congrArg₂ (WsComponent.mk rf) (number alike mem (by simp [Item.parts]))
      (number alike mem (by simp [Item.parts]))
  | curvature =>
    intro row row'
    unfold buildCurvatureComponents
    rw [if_neg Bool.false_ne_true, if_neg Bool.false_ne_true]
    refine perRfComponents_congr (fun _ _ => rfl) (rows fun rf row row' alike => ?_)
    have up : (⟨.u, headField schema rc lazyMath "cvr_up", false⟩ : Item) ∈ requestItems false
        (resolveLegFieldsForPrefix schema rc .curvature (if lazyMath then "s" else "ws")) := by
      simp only [requestItems, List.mem_append, List.mem_map]
      exact .inl (.inr ⟨_, head "cvr_up", rfl⟩)
    have down : (⟨.n, headField schema rc lazyMath "cvr_down", false⟩ : Item) ∈ requestItems false
        (resolveLegFieldsForPrefix schema rc .curvature (if lazyMath then "s" else "ws")) := by
      simp only [requestItems, List.mem_append, List.mem_map]
      exact .inr ⟨_, head "cvr_down", rfl⟩
    exact congrArg₂ (CvrComponent.mk rf) (number alike up (by simp [Item.parts]))
      (number alike down (by simp [Item.parts]))

/-- However the documents are placed on the nodes, the merged replies read as if one node held
them all exactly where no `nan` hides a sum that is not zero, and then every report is the same. -/
theorem placement_iff (schema : CalcSchema) (riskClass : String) (leg : FastLeg) (lazyMath : Bool)
    (topN : Option ℕ) (searchVer : ℕ) (nodes : List Node) (single : Node)
    (perm : single.docs.Perm (nodes.flatMap Node.docs))
    (alone : Answerable schema (upperCase riskClass) [single]) :
    (AllAlike schema (upperCase riskClass) leg lazyMath searchVer nodes single ↔
      AllWhole schema (upperCase riskClass) leg lazyMath searchVer nodes) ∧
    (AllWhole schema (upperCase riskClass) leg lazyMath searchVer nodes → ∀ b,
      (aggregateBucketsViaIndex schema riskClass leg lazyMath topN searchVer nodes).lookup b =
        (aggregateBucketsViaIndex schema riskClass leg lazyMath topN searchVer
          [single]).lookup b) := by
  refine ⟨allAlike_iff perm alone, fun whole b => ?_⟩
  have rows := mapOf_unweighedRows schema (upperCase riskClass) leg lazyMath searchVer nodes
  have own := mapOf_unweighedRows schema (upperCase riskClass) leg lazyMath searchVer [single]
  rw [List.flatMap_singleton] at own
  rw [lookup_aggregateBucketsViaIndex _ _ _ _ _ _ (alone.spread perm).bucket,
    lookup_aggregateBucketsViaIndex _ _ _ _ _ _ alone.bucket, lookup_mergedRows,
    lookup_mergedRows, Option.map_map, Option.map_map]
  refine lookup_map_alike rows own perm (fun k name lost => someNan_single single k name lost)
    (fun kept => whole.bucket b (of_decide_eq_true kept)) fun row row' alike => ?_
  exact bucketResultFromRow_alike (readsAlike_weighRow _ _ _ _ alike)
    fun scalar => sameComponents_of_whole perm alone scalar whole b

end Placement

section Demo

/-- The document of another currency pair in the bucket. -/
def otherDoc : IndexDoc where
  bucket := "EUR"
  riskFactor := "EURGBP"
  field := fun f => if f = "ws_fx_delta" then some (-4) else none

def otherNode : Node := ⟨[otherDoc], fun _ _ => false, fun _ _ => false⟩

theorem someNan_demo {K : Type} [DecidableEq K] (key : IndexDoc → K) (nan : Node → NanChoice K)
    (quiet : ∀ node ∈ [fxDeltaNode, otherNode], ∀ k name, nan node k name = false) (k : K)
    (name : SumName) :
    someNan Node.docs nan key [fxDeltaNode, otherNode] k name = false := by
  rw [someNan, List.any_eq_false]
  intro node mem
  simp [nodeNan, quiet node mem]

theorem demo_answerable {nodes : List Node} (few : ∀ node ∈ nodes, node.docs.length ≤ 2) :
    Answerable CurvatureKernel.fxSchema (upperCase "FX") nodes := by
  have fits : ∀ {K : Type} [DecidableEq K] (key : IndexDoc → K), ∀ node ∈ nodes,
      ((node.docs.map key).dedup).length ≤ 2 := by
    intro K _ key node mem
    calc ((node.docs.map key).dedup).length ≤ (node.docs.map key).length :=
          (List.dedup_sublist _).length_le
      _ = node.docs.length := List.length_map _
      _ ≤ 2 := few node mem
  refine ⟨⟨fun perTenor => ?_, fun node mem => ?_⟩, fun _ node mem => ?_⟩
  · exact absurd perTenor (by decide +kernel)
  · exact (fits IndexDoc.bucket node mem).trans (by decide)
  · exact (fits groupKey node mem).trans (by decide)

/-- One document on each of two nodes. -/
theorem placement_two_nodes :
    (aggregateBucketsViaIndex CurvatureKernel.fxSchema "FX" .delta false none 80000
        [fxDeltaNode, otherNode]).lookup "EUR" =
      (aggregateBucketsViaIndex CurvatureKernel.fxSchema "FX" .delta false none 80000
        [⟨[otherDoc, fxDeltaDoc], fun _ _ => true, fun _ _ => true⟩]).lookup "EUR" := by
  have quiet : ∀ node ∈ [fxDeltaNode, otherNode], ∀ k name, node.nan k name = false := by
    intro node mem k name
    simp only [List.mem_cons, List.not_mem_nil, or_false] at mem
    rcases mem with rfl | rfl <;> rfl
  have quietPerRf : ∀ node ∈ [fxDeltaNode, otherNode], ∀ k name, node.nanPerRf k name = false := by
    intro node mem k name
    simp only [List.mem_cons, List.not_mem_nil, or_false] at mem
    rcases mem with rfl | rfl <;> rfl
  refine (placement_iff CurvatureKernel.fxSchema "FX" .delta false none 80000
    [fxDeltaNode, otherNode] ⟨[otherDoc, fxDeltaDoc], fun _ _ => true, fun _ _ => true⟩
    (List.Perm.swap _ _ _) (demo_answerable (by decide))).2
      ⟨fun b _ name _ lost => ?_, fun _ b rf _ _ name _ lost => ?_⟩ "EUR"
  · rw [someNan_demo IndexDoc.bucket Node.nan quiet] at lost
    cases lost
  · rw [someNan_demo groupKey Node.nanPerRf quietPerRf] at lost
    cases lost

/-- One node of a bucket reports `nan` for the sum of its rows without the field, and the sum of
the other node is lost with it. -/
theorem nan_hides_sum :
    let bare : IndexDoc := ⟨"EUR", "EURCHF", fun _ => none⟩
    ¬ AllAlike CurvatureKernel.fxSchema (upperCase "FX") .delta false 80000
      [otherNode, ⟨[bare], fun _ _ => true, fun _ _ => true⟩]
      ⟨[otherDoc, bare], fun _ _ => false, fun _ _ => false⟩ := by
  intro bare alike
  have whole := ((allAlike_iff (List.Perm.refl _) (demo_answerable (by decide))).mp alike).bucket
      "EUR" (by decide)
    ⟨.d, "ws_fx_delta", .value⟩ (by decide +kernel) (by decide +kernel)
  revert whole
  decide +kernel

end Demo

end ShardPlacement
