import Frtb.Library.StrideLoop
import Frtb.RowGenerator

/-!
# The rows of a bulk run

A bulk run deals its rows out to workers with a stride; each worker plans its rows
by class and generates them from its own quotas. This is a run that is not
cancelled: which rows are generated, and how often each sensitivity type of a class.
-/

namespace BulkCoverage

open AssocMaps StrideLoop RowGenerator

section Plan

/-- `max(1, floor(rowsTotal / 100))`. -/
def globalFloor (rowsTotal : ℕ) : ℕ := max 1 (rowsTotal / 100)

def computeCoverageFloor (rowsTotal workers : ℕ) : ℕ :=
  if rowsTotal < 100 then 0
  else
    let stride := max 1 workers
    max 1 ((globalFloor rowsTotal + stride - 1) / stride)

def classAt (classes : List String) (i : ℕ) : String := classes.getD (i % classes.length) ""

def countUp (counts : Assoc String ℕ) (c : String) : Assoc String ℕ :=
  counts.insert c ((counts.lookup c).getD 0 + 1)

/-- The rows of each class among those of one worker. -/
def planRowsByClass (rowsTotal : ℕ) (classes : List String) (offset stride : ℕ) :
    Assoc String ℕ :=
  let counts := ofPairs (classes.map fun c => (c, 0))
  if classes.length = 0 ∨ stride = 0 ∨ rowsTotal = 0 then counts
  else (indices rowsTotal stride offset).foldl
    (fun counts i => countUp counts (classAt classes i)) counts

end Plan

section Runs

structure BulkRun where
  /-- The classes of the schema. -/
  riskClasses : List String
  rowsTotal : ℕ
  classes : List String
  sensitivityTypes : List String

/-- A generated row, with its index. -/
structure Row extends SensitivityRow where
  index : ℕ

/-- The generator options of a worker. -/
def BulkRun.options (run : BulkRun) (offset stride : ℕ) : Options :=
  let floor := computeCoverageFloor run.rowsTotal stride
  ⟨run.sensitivityTypes, floor,
    if 0 < floor then some (planRowsByClass run.rowsTotal run.classes offset stride) else none⟩

/-- The loop over the row indices of one worker; `rng` draws the number that a type is
picked with, for each row in turn. -/
def generateRows (run : BulkRun) (opts : Options) (rng : ℕ → ℚ) :
    ℕ → List ℕ → State → Except String (List Row)
  | _, [], _ => .ok []
  | drawn, i :: rest, st =>
    match generate run.riskClasses opts (rng drawn) (classAt run.classes i) st with
    | .error message => .error message
    | .ok (row, st) =>
      match generateRows run opts rng (drawn + 1) rest st with
      | .error message => .error message
      | .ok rows => .ok (⟨row, i⟩ :: rows)

/-- One worker: `runGenerationInline` with its offset and the stride. -/
def runGenerationInline (run : BulkRun) (offset stride : ℕ) (rng : ℕ → ℚ) :
    Except String (List Row) :=
  if run.classes = [] then .error "classes must be non-empty"
  else
    let opts := run.options offset stride
    generateRows run opts rng 0 (indices run.rowsTotal stride offset) (createRowGenerator opts)

def runInline (run : BulkRun) (rng : ℕ → ℚ) : Except String (List Row) :=
  let opts := run.options 0 1
  generateRows run opts rng 0 (indices run.rowsTotal 1 0) (createRowGenerator opts)

/-- The rows of each worker. -/
def runWithWorkers (run : BulkRun) (workers : ℕ) (rng : ℕ → ℕ → ℚ) :
    Except String (List (List Row)) :=
  (List.range workers).mapM fun w => runGenerationInline run w workers (rng w)

def startBulkIngestRun (run : BulkRun) (workers : ℕ) (rng : ℕ → ℕ → ℚ) :
    Except String (List (List Row)) :=
  if workers = 1 then (runInline run (rng 0)).map fun rows => [rows]
  else runWithWorkers run workers rng

end Runs

section Spec

def rowsOfClass (c : String) (rows : List Row) : ℕ := (rows.filter fun r => r.riskClass = c).length

def rowsOf (c t : String) (rows : List Row) : ℕ :=
  (rows.filter fun r => r.riskClass = c ∧ r.sensitivityType = t).length

/-- The quota table of a class; a class without planned rows has none. -/
def quotaTable (opts : Options) (c : String) : List ℕ :=
  (opts.quotasByClass.bind (·.lookup c)).getD []

/-- The rows of the workers are those of the whole run. -/
structure Complete (run : BulkRun) (workers : ℕ) (single : List Row) (rows : List (List Row)) :
    Prop where
  once : (rows.flatten.map Row.index).Perm (List.range run.rowsTotal)
  byClass : ∀ c, rowsOfClass c rows.flatten = rowsOfClass c single
  quotas : ∀ w, ∀ own ∈ rows[w]?, ∀ c ∈ run.classes,
    (quotaTable (run.options w workers) c).sum = rowsOfClass c own

/-- They are, and no class and type is below the floor. -/
structure Covers (run : BulkRun) (workers : ℕ) (single : List Row) (rows : List (List Row)) :
    Prop extends Complete run workers single rows where
  floor : ∀ c ∈ run.classes, ∀ t ∈ run.sensitivityTypes,
    globalFloor run.rowsTotal ≤ rowsOf c t rows.flatten

/-- What every class and type is sure of: the classes meet one loop out of `gcd` of the
worker count and the class count, and each such worker rounds its share down. -/
def guaranteed (rowsTotal workers classes types : ℕ) : ℕ :=
  let apart := workers / workers.gcd classes
  let rows := rowsTotal / classes
  rows % apart * ((rows / apart + 1) / types) + (apart - rows % apart) * (rows / apart / types)

end Spec

section Planned
variable {rowsTotal offset stride : ℕ} {classes : List String}

theorem lookup_countUp (l : List String) (m : Assoc String ℕ) (c : String)
    (listed : ∀ c' ∈ l, (m.lookup c').isSome = true) :
    (l.foldl countUp m).lookup c = (m.lookup c).map fun n => n + l.count c := by
  induction l generalizing m with
  | nil =>
    rw [List.foldl_nil]
    cases m.lookup c <;> rfl
  | cons a l ih =>
    have kept : ∀ c' ∈ l, ((countUp m a).lookup c').isSome = true := by
      intro c' mem
      by_cases same : c' = a
      · rw [same, countUp, AList.lookup_insert]
        rfl
      · rw [countUp, AList.lookup_insert_ne same]
        exact listed c' (by simp [mem])
    rw [List.foldl_cons, ih _ kept, countUp]
    by_cases same : c = a
    · subst same
      obtain ⟨n, found⟩ := Option.isSome_iff_exists.mp (listed c (by simp))
      rw [AList.lookup_insert, found, List.count_cons_self]
      simp only [Option.getD_some, Option.map_some]
      congr 1
      omega
    · rw [AList.lookup_insert_ne same, List.count_cons_of_ne (Ne.symm same)]

theorem classAt_mem (some_ : classes ≠ []) (i : ℕ) : classAt classes i ∈ classes := by
  have inside : i % classes.length < classes.length :=
    Nat.mod_lt i (List.length_pos_of_ne_nil some_)
  rw [classAt, List.getD_eq_getElem _ _ inside]
  exact List.getElem_mem inside

/-- The plan of a class is how often the worker's loop meets it. -/
theorem lookup_planRowsByClass (some_ : classes ≠ []) (pos : 0 < stride) (c : String) :
    (planRowsByClass rowsTotal classes offset stride).lookup c =
      if c ∈ classes then some (((indices rowsTotal stride offset).map (classAt classes)).count c)
      else none := by
  have zero : ∀ c, (ofPairs (classes.map fun c => (c, 0))).lookup c =
      if c ∈ classes then some 0 else none := by
    intro c
    have listed := lookup_ofPairs_isSome (classes.map fun c => (c, 0)) c
    cases found : (ofPairs (classes.map fun c => (c, 0))).lookup c with
    | none =>
      have not_mem : c ∉ classes := by simpa [found] using listed
      rw [if_neg not_mem]
    | some n =>
      have mem : c ∈ classes := by simpa [found] using listed
      obtain ⟨_, _, same⟩ := List.mem_map.mp (mem_of_lookup_ofPairs found)
      rw [if_pos mem, ← (Prod.mk.inj same).2]
  unfold planRowsByClass
  dsimp only
  by_cases empty : rowsTotal = 0
  · have none_ : indices rowsTotal stride offset = [] := indices_of_le pos (by omega)
    rw [if_pos (Or.inr (Or.inr empty)), zero c, none_]
    rfl
  · have counted : classes.length ≠ 0 := by simpa using some_
    rw [if_neg (by omega), ← @List.foldl_map _ _ _ (classAt classes) countUp, lookup_countUp]
    · rw [zero c]
      split
      · rw [Option.map_some, Nat.zero_add]
      · rfl
    · intro c' mem
      obtain ⟨i, _, rfl⟩ := List.mem_map.mp mem
      rw [zero, if_pos (classAt_mem some_ i)]
      rfl

end Planned

section Picks
variable {run : BulkRun} {opts : Options}

/-- What the tables of a state leave for a class. -/
def left (st : State) (c : String) : List ℕ := (st.quotasByClass.bind (·.lookup c)).getD []

/-- The tables leave for each class as much as the rows still to come take. -/
structure Ready (classes : List String) (types : ℕ) (rest : List ℕ) (st : State) : Prop where
  tables : st.quotasByClass.isSome = true
  sums : ∀ c, (left st c).sum = (rest.map (classAt classes)).count c
  lengths : ∀ c, (left st c).length ≤ types

theorem left_insert {tables : Assoc String (List ℕ)} {counts : Assoc String (List ℕ)}
    (c c' : String) (quotas : List ℕ) :
    left ⟨some (tables.insert c quotas), counts⟩ c' =
      if c' = c then quotas else left ⟨some tables, counts⟩ c' := by
  by_cases same : c' = c
  · rw [if_pos same, same]
    simp only [left, Option.bind_some, AList.lookup_insert, Option.getD_some]
  · rw [if_neg same]
    simp only [left, Option.bind_some, AList.lookup_insert_ne same]

theorem sum_set_pred {quotas : List ℕ} {idx best : ℕ} (here : quotas[idx]? = some best)
    (pos : 0 < best) : (quotas.set idx (best - 1)).sum + 1 = quotas.sum := by
  induction quotas generalizing idx with
  | nil => cases here
  | cons q quotas ih =>
    cases idx with
    | zero =>
      obtain rfl := Option.some.inj here
      simp only [List.set_cons_zero, List.sum_cons]
      omega
    | succ idx =>
      have rest := ih here
      simp only [List.set_cons_succ, List.sum_cons]
      omega

/-- A pick takes one from the tables of the class. -/
theorem pickSensType_ready {rest : List ℕ} {st : State} {i : ℕ} {sensR : ℚ}
    (active : 0 < opts.coverageFloor ∧ 1 < opts.sensTypes.length)
    (ready : Ready run.classes opts.sensTypes.length (i :: rest) st) :
    let c := classAt run.classes i
    let picked := pickSensType opts sensR c st
    picked.1 < opts.sensTypes.length ∧ Ready run.classes opts.sensTypes.length rest picked.2 ∧
      ∀ c' s, (left st c').getD s 0 =
        (left picked.2 c').getD s 0 + if c' = c ∧ s = picked.1 then 1 else 0 := by
  intro c picked
  obtain ⟨tables, here⟩ := Option.isSome_iff_exists.mp ready.tables
  have taken : 0 < (left st c).sum := by
    rw [ready.sums, List.map_cons, List.count_cons_self]
    omega
  have listed : st.quotasByClass.bind (·.lookup c) = some (left st c) := by
    cases own : st.quotasByClass.bind (·.lookup c) with
    | none =>
      rw [left, own] at taken
      exact absurd taken (by simp)
    | some quotas => rw [left, own, Option.getD_some]
  obtain ⟨there, pos⟩ := largest_spec taken
  have chosen : picked = ((largest (left st c)).1, { st with
      quotasByClass := some (tables.insert c
        ((left st c).set (largest (left st c)).1 ((largest (left st c)).2 - 1))) }) := by
    change pickSensType opts sensR c st = _
    simp only [pickSensType, if_pos active, listed]
    rw [if_neg pos.ne', here, Option.map_some]
  have same : st = ⟨some tables, st.sensCountsByClass⟩ := by
    cases st
    simp only [State.mk.injEq, and_true]
    exact here
  have after : ∀ c', left picked.2 c' = if c' = c then
      (left st c).set (largest (left st c)).1 ((largest (left st c)).2 - 1) else left st c' := by
    intro c'
    rw [chosen, left_insert]
    conv_rhs => rw [same]
    rw [← same]
  have inside : (largest (left st c)).1 < (left st c).length :=
    (List.getElem?_eq_some_iff.mp there).1
  refine ⟨?_, ⟨?_, ?_, ?_⟩, ?_⟩
  · rw [chosen]
    exact inside.trans_le (ready.lengths c)
  · rw [chosen]
    rfl
  · intro c'
    have before := ready.sums c'
    rw [List.map_cons] at before
    rw [after]
    by_cases own : c' = c
    · rw [if_pos own]
      rw [own, List.count_cons_self] at before
      have less := sum_set_pred there pos
      rw [own]
      omega
    · rw [if_neg own, before, List.count_cons_of_ne (Ne.symm own)]
  · intro c'
    rw [after]
    by_cases own : c' = c
    · rw [if_pos own, List.length_set]
      exact ready.lengths c
    · rw [if_neg own]
      exact ready.lengths c'
  · intro c' s
    rw [after, chosen]
    by_cases own : c' = c
    · subst own
      rw [if_pos rfl, List.getD_eq_getElem?_getD, List.getD_eq_getElem?_getD, List.getElem?_set]
      by_cases index : s = (largest (left st c)).1
      · rw [index, if_pos rfl, if_pos inside, there, if_pos ⟨rfl, rfl⟩]
        simp only [Option.getD_some]
        omega
      · rw [if_neg (Ne.symm index), if_neg (fun both => index both.2), Nat.add_zero]
    · rw [if_neg own, if_neg (fun both => own both.1), Nat.add_zero]

/-- The rows of a worker: one for each index, and for each class and type as many as its
table leaves. -/
theorem generateRows_ready (active : 0 < opts.coverageFloor ∧ 1 < opts.sensTypes.length)
    (types : opts.sensTypes.Nodup) (some_ : run.classes ≠ [])
    (known : ∀ c ∈ run.classes, c ∈ run.riskClasses) (rng : ℕ → ℚ) {rest : List ℕ} {st : State}
    (ready : Ready run.classes opts.sensTypes.length rest st) (drawn : ℕ) :
    ∃ rows, generateRows run opts rng drawn rest st = .ok rows ∧ rows.map Row.index = rest ∧
      rows.map (fun r => r.riskClass) = rest.map (classAt run.classes) ∧
      ∀ c s (listed : s < opts.sensTypes.length),
        rowsOf c opts.sensTypes[s] rows = (left st c).getD s 0 := by
  induction rest generalizing st drawn with
  | nil =>
    refine ⟨[], rfl, rfl, rfl, ?_⟩
    intro c s _
    have empty : (left st c).sum = 0 := ready.sums c
    have zeros := List.sum_eq_zero_iff.mp empty
    rw [List.getD_eq_getElem?_getD]
    cases there : (left st c)[s]? with
    | none => rfl
    | some q => exact (zeros q (List.mem_of_getElem? there)).symm
  | cons i rest ih =>
    obtain ⟨inside, next, counts⟩ := @pickSensType_ready run opts rest st i (rng drawn) active ready
    obtain ⟨rows, ran, indexed, classed, typed⟩ := ih next (drawn + 1)
    have listed := known _ (classAt_mem some_ i)
    refine ⟨⟨⟨classAt run.classes i, opts.sensTypes.getD (pickSensType opts (rng drawn)
      (classAt run.classes i) st).1 ""⟩, i⟩ :: rows, ?_, ?_, ?_, ?_⟩
    · simp only [generateRows, generate, not_true_eq_false, if_false, listed, ran]
    · rw [List.map_cons, indexed]
    · rw [List.map_cons, List.map_cons, classed]
    · intro c s hs
      rw [counts c s, ← typed c s hs, rowsOf, List.filter_cons, rowsOf,
        List.getD_eq_getElem _ _ inside]
      have picked : (opts.sensTypes[(pickSensType opts (rng drawn) (classAt run.classes i) st).1] =
          opts.sensTypes[s]) ↔
            s = (pickSensType opts (rng drawn) (classAt run.classes i) st).1 := by
        rw [types.getElem_inj_iff, eq_comm]
      have counted : (classAt run.classes i = c ∧ (opts.sensTypes[(pickSensType opts (rng drawn)
          (classAt run.classes i) st).1] = opts.sensTypes[s])) ↔ (c = classAt run.classes i ∧
            s = (pickSensType opts (rng drawn) (classAt run.classes i) st).1) :=
        and_congr eq_comm picked
      by_cases own : c = classAt run.classes i ∧
          s = (pickSensType opts (rng drawn) (classAt run.classes i) st).1
      · rw [if_pos own, if_pos (decide_eq_true (counted.mpr own)), List.length_cons]
      · rw [if_neg own, if_neg (fun here => own (counted.mp (of_decide_eq_true here))),
          Nat.add_zero]

end Picks

section Workers
variable {run : BulkRun} {workers w : ℕ}

/-- How many rows of a class a worker generates. -/
def classRows (run : BulkRun) (workers w : ℕ) (c : String) : ℕ :=
  ((indices run.rowsTotal workers w).map (classAt run.classes)).count c

/-- The share of one of `n` types in the rows of a class: an even split, the first types
taking one more. -/
def share (n s plannedRows : ℕ) : ℕ := plannedRows / n + if s < plannedRows % n then 1 else 0

theorem computeCoverageFloor_pos (many : 100 ≤ run.rowsTotal) :
    0 < computeCoverageFloor run.rowsTotal workers := by
  rw [computeCoverageFloor, if_neg (by omega)]
  exact Nat.lt_of_lt_of_le Nat.one_pos (le_max_left _ _)

theorem sensTypes_options (two : 2 ≤ run.sensitivityTypes.length) :
    (run.options w workers).sensTypes = run.sensitivityTypes := by
  rw [Options.sensTypes, BulkRun.options, if_neg]
  intro empty
  have none_ : run.sensitivityTypes = [] := empty
  rw [none_] at two
  exact absurd two (by decide)

theorem quotaTable_options (many : 100 ≤ run.rowsTotal) (some_ : run.classes ≠ [])
    (two : 2 ≤ run.sensitivityTypes.length) (pos : 0 < workers) (c : String) :
    quotaTable (run.options w workers) c =
      if classRows run workers w c = 0 then []
      else computeCoverageQuotas (classRows run workers w c) run.sensitivityTypes.length
        (computeCoverageFloor run.rowsTotal workers) := by
  have active := @computeCoverageFloor_pos run workers many
  let read : ℕ → Option (List ℕ) := fun rows =>
    if 0 < rows then some (computeCoverageQuotas rows run.sensitivityTypes.length
      (computeCoverageFloor run.rowsTotal workers)) else none
  have tables : (run.options w workers).quotasByClass =
      some (ofPairs ((pairs (planRowsByClass run.rowsTotal run.classes w workers)).filterMap
        fun p => (read p.2).map fun quotas => (p.1, quotas))) := by
    have each : ∀ p : String × ℕ, (if 0 < p.2 then some (p.1, computeCoverageQuotas p.2
        run.sensitivityTypes.length (computeCoverageFloor run.rowsTotal workers)) else none) =
          (read p.2).map fun quotas => (p.1, quotas) := by
      intro p
      dsimp only [read]
      split <;> rfl
    rw [Options.quotasByClass, sensTypes_options two, if_pos ⟨active, by omega⟩]
    simp only [BulkRun.options, if_pos active, Option.map_some, each]
  rw [quotaTable, tables, Option.bind_some, lookup_ofPairs_filterMap_pairs,
    lookup_planRowsByClass some_ pos]
  by_cases none_ : classRows run workers w c = 0
  · rw [if_pos none_]
    split
    · change (read (classRows run workers w c)).getD [] = []
      rw [none_]
      rfl
    · rfl
  · have listed : c ∈ run.classes := by
      obtain ⟨i, _, rfl⟩ := List.mem_map.mp (List.count_pos_iff.mp (Nat.pos_of_ne_zero none_))
      exact classAt_mem some_ i
    rw [if_neg none_, if_pos listed]
    change (read (classRows run workers w c)).getD [] = _
    rw [show read (classRows run workers w c) = some _ from if_pos (Nat.pos_of_ne_zero none_)]
    rfl

theorem sum_quotaTable (many : 100 ≤ run.rowsTotal) (some_ : run.classes ≠ [])
    (two : 2 ≤ run.sensitivityTypes.length) (pos : 0 < workers) (c : String) :
    (quotaTable (run.options w workers) c).sum = classRows run workers w c := by
  rw [quotaTable_options many some_ two pos]
  split
  · next none_ => rw [none_, List.sum_nil]
  · exact sum_computeCoverageQuotas (by omega) _ _

theorem getD_quotaTable (many : 100 ≤ run.rowsTotal) (some_ : run.classes ≠ [])
    (two : 2 ≤ run.sensitivityTypes.length) (pos : 0 < workers) (c : String) {s : ℕ}
    (listed : s < run.sensitivityTypes.length) :
    (quotaTable (run.options w workers) c).getD s 0 =
      share run.sensitivityTypes.length s (classRows run workers w c) := by
  rw [quotaTable_options many some_ two pos]
  split
  · next none_ => simp [none_, share]
  · exact getD_computeCoverageQuotas listed _ _

/-- The tables a worker starts with. -/
theorem ready_createRowGenerator (many : 100 ≤ run.rowsTotal) (some_ : run.classes ≠ [])
    (two : 2 ≤ run.sensitivityTypes.length) (pos : 0 < workers) :
    Ready run.classes (run.options w workers).sensTypes.length
      (indices run.rowsTotal workers w) (createRowGenerator (run.options w workers)) where
  tables := by
    have active := @computeCoverageFloor_pos run workers many
    rw [createRowGenerator, Options.quotasByClass, sensTypes_options two,
      if_pos ⟨active, by omega⟩]
    simp only [BulkRun.options, if_pos active, Option.map_some, Option.isSome_some]
  sums := sum_quotaTable many some_ two pos
  lengths := by
    intro c
    change (quotaTable (run.options w workers) c).length ≤ _
    rw [quotaTable_options many some_ two pos, sensTypes_options two]
    split
    · exact Nat.zero_le _
    · exact (length_computeCoverageQuotas _ _ _).le

/-- What one worker generates. -/
structure WorkerRows (run : BulkRun) (workers w : ℕ) (rows : List Row) : Prop where
  indexed : rows.map Row.index = indices run.rowsTotal workers w
  classed : rows.map (fun r => r.riskClass) =
    (indices run.rowsTotal workers w).map (classAt run.classes)
  typed : ∀ c s t, run.sensitivityTypes[s]? = some t →
    rowsOf c t rows = share run.sensitivityTypes.length s (classRows run workers w c)

theorem runGenerationInline_ok (many : 100 ≤ run.rowsTotal) (some_ : run.classes ≠ [])
    (known : ∀ c ∈ run.classes, c ∈ run.riskClasses) (types : run.sensitivityTypes.Nodup)
    (two : 2 ≤ run.sensitivityTypes.length) (pos : 0 < workers) (rng : ℕ → ℚ) :
    ∃ rows, runGenerationInline run w workers rng = .ok rows ∧
      WorkerRows run workers w rows := by
  have same := @sensTypes_options run workers w two
  have active : 0 < (run.options w workers).coverageFloor ∧
      1 < (run.options w workers).sensTypes.length := by
    rw [same]
    exact ⟨computeCoverageFloor_pos many, by omega⟩
  obtain ⟨rows, ran, indexed, classed, typed⟩ := generateRows_ready active (same.symm ▸ types)
    some_ known rng (ready_createRowGenerator many some_ two pos) 0
  refine ⟨rows, ?_, indexed, classed, ?_⟩
  · rw [runGenerationInline, if_neg some_]
    exact ran
  · intro c s t here
    have inside : s < run.sensitivityTypes.length := (List.getElem?_eq_some_iff.mp here).1
    rw [← same] at here
    obtain ⟨listed, rfl⟩ := List.getElem?_eq_some_iff.mp here
    rw [typed c s listed]
    exact getD_quotaTable many some_ two pos c inside

theorem runInline_eq (some_ : run.classes ≠ []) (rng : ℕ → ℚ) :
    runInline run rng = runGenerationInline run 0 1 rng := by
  rw [runGenerationInline, if_neg some_]
  rfl

theorem startBulkIngestRun_ok (many : 100 ≤ run.rowsTotal) (some_ : run.classes ≠ [])
    (known : ∀ c ∈ run.classes, c ∈ run.riskClasses) (types : run.sensitivityTypes.Nodup)
    (two : 2 ≤ run.sensitivityTypes.length) (pos : 0 < workers) (rng : ℕ → ℕ → ℚ) :
    ∃ rows : ℕ → List Row,
      startBulkIngestRun run workers rng = .ok ((List.range workers).map rows) ∧
        ∀ w, WorkerRows run workers w (rows w) := by
  choose rows ran generated using fun w =>
    @runGenerationInline_ok run workers w many some_ known types two pos (rng w)
  refine ⟨rows, ?_, generated⟩
  rw [startBulkIngestRun]
  split
  · next one =>
    subst one
    rw [runInline_eq some_, ran 0]
    rfl
  · have all : ∀ l : List ℕ, (l.mapM fun w => runGenerationInline run w workers (rng w)) =
        .ok (l.map rows) := by
      intro l
      induction l with
      | nil => rfl
      | cons w l ih =>
        rw [List.mapM_cons, ran w, ih]
        rfl
    exact all _

end Workers

section Totals
variable {run : BulkRun} {workers : ℕ} {rows : ℕ → List Row}

theorem rowsOfClass_eq (c : String) (rows : List Row) :
    rowsOfClass c rows = (rows.map fun r => r.riskClass).count c := by
  rw [rowsOfClass, List.count, List.countP_map, List.countP_eq_length_filter]
  congr 1

theorem rowsOf_flatten (c t : String) (l : List (List Row)) :
    rowsOf c t l.flatten = (l.map (rowsOf c t)).sum := by
  rw [rowsOf, List.filter_flatten, List.length_flatten, List.map_map]
  rfl

/-- Every row index is generated by one worker, and every class as often as by a single
one. -/
theorem complete_of_workerRows {single : List Row} (many : 100 ≤ run.rowsTotal)
    (some_ : run.classes ≠ []) (two : 2 ≤ run.sensitivityTypes.length) (pos : 0 < workers)
    (alone : WorkerRows run 1 0 single) (generated : ∀ w, WorkerRows run workers w (rows w)) :
    Complete run workers single ((List.range workers).map rows) where
  once := by
    have indexed : (((List.range workers).map rows).flatten.map Row.index) =
        (List.range workers).flatMap (indices run.rowsTotal workers) := by
      rw [List.map_flatten, List.map_map, ← List.flatMap_def]
      exact List.flatMap_congr fun w _ => (generated w).indexed
    rw [indexed]
    exact indices_perm pos
  byClass := by
    intro c
    have classed : (((List.range workers).map rows).flatten.map fun r => r.riskClass) =
        ((List.range workers).flatMap (indices run.rowsTotal workers)).map
          (classAt run.classes) := by
      rw [List.map_flatten, List.map_map, ← List.flatMap_def, List.map_flatMap]
      exact List.flatMap_congr fun w _ => (generated w).classed
    have whole : (indices run.rowsTotal 1 0).Perm (List.range run.rowsTotal) := by
      simpa using @indices_perm run.rowsTotal 1 Nat.one_pos
    rw [rowsOfClass_eq, rowsOfClass_eq, classed, alone.classed]
    exact (((indices_perm pos).trans whole.symm).map _).count_eq c
  quotas := by
    intro w own here c _
    rw [List.getElem?_map, Option.mem_def, Option.map_eq_some_iff] at here
    obtain ⟨w', at_, rfl⟩ := here
    obtain ⟨inside, rfl⟩ := List.getElem?_eq_some_iff.mp at_
    rw [List.getElem_range, rowsOfClass_eq, (generated w).classed]
    exact sum_quotaTable many some_ two pos c

/-- The rows of a class and a type, over the workers that meet the class. -/
theorem rowsOf_workers (distinct : run.classes.Nodup) (pos : 0 < workers)
    (generated : ∀ w, WorkerRows run workers w (rows w)) {p s : ℕ} {c t : String}
    (class_ : run.classes[p]? = some c) (type_ : run.sensitivityTypes[s]? = some t) :
    rowsOf c t ((List.range workers).map rows).flatten =
      ∑ j ∈ Finset.range (workers / workers.gcd run.classes.length),
        share run.sensitivityTypes.length s
          (rounds (rounds run.rowsTotal run.classes.length p)
            (workers / workers.gcd run.classes.length) j) := by
  obtain ⟨inside, rfl⟩ := List.getElem?_eq_some_iff.mp class_
  have met : ∀ w, classRows run workers w run.classes[p] =
      (shared run.rowsTotal workers w run.classes.length p).length := by
    intro w
    rw [classRows, List.count, List.countP_map, shared, List.countP_eq_length_filter]
    congr 1
    refine List.filter_congr fun i _ => ?_
    have below : i % run.classes.length < run.classes.length := Nat.mod_lt i (by omega)
    have here : (classAt run.classes i = run.classes[p]) ↔ i % run.classes.length = p := by
      rw [classAt, List.getD_eq_getElem _ _ below, distinct.getElem_inj_iff]
    rw [Function.comp_apply, ← decide_eq_decide.mpr here]
    rfl
  have none_ : share run.sensitivityTypes.length s 0 = 0 := by
    rw [share, Nat.zero_div, Nat.zero_mod]
    rfl
  calc rowsOf run.classes[p] t ((List.range workers).map rows).flatten
      = ∑ w ∈ Finset.range workers, rowsOf run.classes[p] t (rows w) := by
        rw [rowsOf_flatten, List.map_map]
        rfl
    _ = ∑ w ∈ Finset.range workers, share run.sensitivityTypes.length s
          (shared run.rowsTotal workers w run.classes.length p).length :=
        Finset.sum_congr rfl fun w _ => by rw [(generated w).typed _ s t type_, met]
    _ = _ := sum_shared pos inside _ none_

end Totals

section Floor
variable {run : BulkRun} {workers : ℕ} {rows : ℕ → List Row}

theorem div_le_share (n s plannedRows : ℕ) : plannedRows / n ≤ share n s plannedRows :=
  Nat.le_add_right _ _

/-- The last type never takes one more. -/
theorem share_last {n : ℕ} (pos : 0 < n) (plannedRows : ℕ) :
    share n (n - 1) plannedRows = plannedRows / n := by
  have below := Nat.mod_lt plannedRows pos
  rw [share, if_neg (by omega), Nat.add_zero]

/-- `guaranteed` is what the last type gets of `rowsTotal / classes` rows. -/
theorem guaranteed_eq (rowsTotal classes types : ℕ) (pos : 0 < workers) :
    guaranteed rowsTotal workers classes types =
      ∑ j ∈ Finset.range (workers / workers.gcd classes),
        rounds (rowsTotal / classes) (workers / workers.gcd classes) j / types := by
  have posm : 0 < workers / workers.gcd classes :=
    Nat.div_pos (Nat.gcd_le_left classes pos) (Nat.gcd_pos_of_pos_left classes pos)
  exact (sum_map_rounds posm fun rows => rows / types).symm

/-- Every class and type gets its guaranteed rows, and the last type of the last class no
more. -/
theorem floor_iff (some_ : run.classes ≠ []) (distinct : run.classes.Nodup)
    (two : 2 ≤ run.sensitivityTypes.length) (pos : 0 < workers)
    (generated : ∀ w, WorkerRows run workers w (rows w)) (floor : ℕ) :
    (∀ c ∈ run.classes, ∀ t ∈ run.sensitivityTypes,
      floor ≤ rowsOf c t ((List.range workers).map rows).flatten) ↔
      floor ≤ guaranteed run.rowsTotal workers run.classes.length run.sensitivityTypes.length := by
  have posC : 0 < run.classes.length := List.length_pos_of_ne_nil some_
  constructor
  · intro all
    have class_ := List.getElem?_eq_getElem
      (show run.classes.length - 1 < run.classes.length by omega)
    have type_ := List.getElem?_eq_getElem
      (show run.sensitivityTypes.length - 1 < run.sensitivityTypes.length by omega)
    have last := all _ (List.mem_of_getElem? class_) _ (List.mem_of_getElem? type_)
    have worst : rounds run.rowsTotal run.classes.length (run.classes.length - 1) =
        run.rowsTotal / run.classes.length := by
      have below := Nat.mod_lt run.rowsTotal posC
      rw [rounds_eq (by omega), if_neg (by omega), Nat.add_zero]
    rw [rowsOf_workers distinct pos generated class_ type_, worst] at last
    rw [guaranteed_eq _ _ _ pos]
    simpa only [share_last (show 0 < run.sensitivityTypes.length by omega)] using last
  · intro enough c listed t of_
    obtain ⟨p, inside, rfl⟩ := List.getElem_of_mem listed
    obtain ⟨s, _, rfl⟩ := List.getElem_of_mem of_
    have most : run.rowsTotal / run.classes.length ≤
        rounds run.rowsTotal run.classes.length p := by
      rw [rounds_eq inside]
      exact Nat.le_add_right _ _
    rw [guaranteed_eq _ _ _ pos] at enough
    rw [rowsOf_workers distinct pos generated (List.getElem?_eq_getElem _)
      (List.getElem?_eq_getElem _)]
    refine enough.trans (Finset.sum_le_sum fun j _ => ?_)
    exact (Nat.div_le_div_right (rounds_mono most)).trans (div_le_share _ _ _)

/-- Where the worker count divides the class count each worker keeps to whole classes, and
the floor is met. -/
theorem globalFloor_le_guaranteed {rowsTotal classes types : ℕ} (pos : 0 < workers)
    (some_ : 0 < classes) (two : 0 < types) (divides : workers ∣ classes)
    (enough : classes * types * globalFloor rowsTotal ≤ rowsTotal) :
    globalFloor rowsTotal ≤ guaranteed rowsTotal workers classes types := by
  have one : workers / workers.gcd classes = 1 := by
    rw [Nat.gcd_eq_left divides, Nat.div_self pos]
  rw [guaranteed, one]
  simp only [Nat.mod_one, Nat.zero_mul, Nat.div_one, Nat.sub_zero, Nat.one_mul, Nat.zero_add]
  rw [Nat.div_div_eq_div_mul, Nat.le_div_iff_mul_le (Nat.mul_pos some_ two), Nat.mul_comm]
  exact enough

/-- A worker that ends has met only classes of the schema. -/
theorem known_of_generateRows {opts : Options} {rng : ℕ → ℚ} {l : List ℕ} {drawn : ℕ}
    {st : State} {out : List Row} (ran : generateRows run opts rng drawn l st = .ok out) :
    ∀ i ∈ l, classAt run.classes i ∈ run.riskClasses := by
  induction l generalizing drawn st out with
  | nil => exact fun _ mem => nomatch mem
  | cons i l ih =>
    by_cases known : classAt run.classes i ∈ run.riskClasses
    · intro i' mem
      rcases List.mem_cons.mp mem with rfl | mem
      · exact known
      · simp only [generateRows, generate, known, not_true_eq_false, if_false] at ran
        split at ran
        · cases ran
        · next rest => exact ih rest i' mem
    · simp only [generateRows, generate, known, not_false_eq_true, if_true] at ran
      cases ran

/-- A run covers its rows and combinations exactly when its classes are in the schema and
the shares of the workers, each rounded down, add up to the floor. -/
theorem run_covers_iff (many : 100 ≤ run.rowsTotal) (some_ : run.classes ≠ [])
    (distinct : run.classes.Nodup) (types : run.sensitivityTypes.Nodup)
    (two : 2 ≤ run.sensitivityTypes.length) (pos : 0 < workers)
    (enough : run.classes.length * run.sensitivityTypes.length * globalFloor run.rowsTotal ≤
      run.rowsTotal) (rng : ℕ → ℕ → ℚ) (rng' : ℕ → ℚ) :
    (∃ single rows, runInline run rng' = .ok single ∧
      startBulkIngestRun run workers rng = .ok rows ∧ Covers run workers single rows) ↔
      (∀ c ∈ run.classes, c ∈ run.riskClasses) ∧ globalFloor run.rowsTotal ≤
        guaranteed run.rowsTotal workers run.classes.length run.sensitivityTypes.length := by
  constructor
  · rintro ⟨single, out, alone, ran, covers⟩
    have known : ∀ c ∈ run.classes, c ∈ run.riskClasses := by
      intro c listed
      obtain ⟨p, inside, rfl⟩ := List.getElem_of_mem listed
      have floor : 1 ≤ globalFloor run.rowsTotal := le_max_left _ _
      have below : run.classes.length ≤ run.rowsTotal := by
        refine le_trans ?_ enough
        rw [Nat.mul_assoc]
        exact Nat.le_mul_of_pos_right _ (Nat.mul_pos (by omega) floor)
      have drawn : p ∈ indices run.rowsTotal 1 0 :=
        (mem_indices Nat.one_pos).mpr ⟨by omega, Nat.mod_one p⟩
      have here := known_of_generateRows alone p drawn
      rwa [classAt, Nat.mod_eq_of_lt inside, List.getD_eq_getElem _ _ inside] at here
    obtain ⟨rows, ran', generated⟩ := startBulkIngestRun_ok many some_ known types two pos rng
    obtain rfl := Except.ok.inj (ran.symm.trans ran')
    exact ⟨known, (floor_iff some_ distinct two pos generated _).mp covers.floor⟩
  · rintro ⟨known, least⟩
    obtain ⟨rows, ran, generated⟩ := startBulkIngestRun_ok many some_ known types two pos rng
    obtain ⟨single, alone, own⟩ :=
      @runGenerationInline_ok run 1 0 many some_ known types two Nat.one_pos rng'
    refine ⟨single, _, (runInline_eq some_ rng').trans alone, ran,
      complete_of_workerRows many some_ two pos own generated, ?_⟩
    exact (floor_iff some_ distinct two pos generated _).mpr least

end Floor

section Thin

/-- A hundred rows with the default classes and types. -/
def thinRun : BulkRun :=
  ⟨["GIRR", "EQUITY", "FX"], 100, ["GIRR", "EQUITY", "FX"], ["Delta", "Vega", "Curvature"]⟩

/-- Four workers cover them. -/
theorem thinRun_covers : ∃ single rows,
    runInline thinRun (fun _ => 0) = .ok single ∧
      startBulkIngestRun thinRun 4 (fun _ _ => 0) = .ok rows ∧ Covers thinRun 4 single rows :=
  (@run_covers_iff thinRun 4 (by decide) (by decide) (by decide) (by decide) (by decide)
    (by decide) (by decide) _ _).mpr ⟨by decide, by decide⟩

/-- With 32 workers, each draws one row or two of a class, and none of them is a
Curvature row. -/
theorem thinRun_curvature_missed : ¬∃ single rows,
    runInline thinRun (fun _ => 0) = .ok single ∧
      startBulkIngestRun thinRun 32 (fun _ _ => 0) = .ok rows ∧
        Covers thinRun 32 single rows := by
  rintro ⟨single, out, _, ran, covers⟩
  obtain ⟨rows, ran', generated⟩ := @startBulkIngestRun_ok thinRun 32 (by decide) (by decide)
    (by decide) (by decide) (by decide) (by decide) fun _ _ => 0
  obtain rfl := Except.ok.inj (ran.symm.trans ran')
  have least := (floor_iff (by decide) (by decide) (by decide) (by decide) generated _).mp
    covers.floor
  exact absurd least (by decide)

end Thin

end BulkCoverage
