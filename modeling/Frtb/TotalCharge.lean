import Frtb.CalcCache
import Mathlib.Algebra.Order.Floor.Ring
import Mathlib.Order.MinMax

/-!
# The total charge

`/calc/sbm/total` computes one cell for each class, leg and regime, in any
order and overlap, and collapses the cells: a sum for each regime, the largest
of the sums. The cells that it computes itself share one fan-out for each class
and leg; the others come from the result cache.
-/

namespace TotalCharge

open SharedCache ChargeReduce CalcService CalcCache

section Collapse

def totalSbmClasses : List String := ["GIRR", "EQUITY", "FX"]

def legs : List Leg := [.delta, .vega, .curvature]

def scenarios : List CorrelationRegime := [.low, .medium, .high]

structure CellPlan where
  riskClass : String
  leg : Leg
  regime : CorrelationRegime
deriving DecidableEq

def plan : List CellPlan :=
  totalSbmClasses.flatMap fun rc => legs.flatMap fun leg => scenarios.map fun s => ⟨rc, leg, s⟩

def cellInput (shared : SharedInput) (p : CellPlan) : ComputeSbmInput :=
  { shared with riskClass := p.riskClass, leg := p.leg, regime := p.regime }

abbrev Outcome := Except Failure Body

/-- The class has no data: the cell counts as zero. -/
def isPerCellSkip (failure : Failure) : Bool := failure = noData

/-- What fails the whole request: a thrown error, else the first failure in the
plan that is not a skip. -/
def fatalFailure (outcome : CellPlan → Outcome) : Option Failure :=
  let failures := plan.filterMap fun p =>
    match outcome p with
    | .ok _ => none
    | .error failure => if isPerCellSkip failure then none else some failure
  match failures.find? (fun f => match f with
    | .thrown _ => true
    | .answered _ _ => false) with
  | some thrown => some thrown
  | none => failures.head?

noncomputable section

def cellCharge : Outcome → ℝ
  | .ok body => body.charge
  | .error _ => 0

/-- `Σ` over the classes and legs of one scenario. -/
def scenarioSum (outcome : CellPlan → Outcome) (s : CorrelationRegime) : ℝ :=
  (totalSbmClasses.flatMap fun rc => legs.map fun leg => cellCharge (outcome ⟨rc, leg, s⟩)).sum

local instance atLeastTwo_ten : Nat.AtLeastTwo 10 := inferInstance

/-- `Math.round(x * 1e6) / 1e6`. -/
def roundMicro (x : ℝ) : ℝ := ⌊x * 10 ^ 6 + 1 / 2⌋ / 10 ^ 6

/-- The largest sum, from the medium scenario on; a later one wins only when it
is larger. -/
def winner (sums : CorrelationRegime → ℝ) : ℝ × CorrelationRegime :=
  scenarios.foldl (fun best s => if best.1 < sums s then (sums s, s) else best)
    (sums .medium, .medium)

structure CellInfo where
  charge : ℝ
  dataStatus : Option DataStatus

/-- A cell of the breakdown, without data status where it was skipped. -/
def cellInfo : Outcome → CellInfo
  | .ok body => ⟨body.charge, some body.dataStatus⟩
  | .error _ => ⟨0, none⟩

structure BreakdownRow where
  riskClass : String
  leg : Leg
  skipped : Bool
  cells : CorrelationRegime → CellInfo

structure TotalBody where
  totalSbm : ℝ
  winningScenario : CorrelationRegime
  scenarioTotals : CorrelationRegime → ℝ
  breakdown : List BreakdownRow

def breakdown (outcome : CellPlan → Outcome) : List BreakdownRow :=
  totalSbmClasses.flatMap fun rc => legs.map fun leg =>
    let cells := fun s => cellInfo (outcome ⟨rc, leg, s⟩)
    ⟨rc, leg, scenarios.all fun s => (cells s).dataStatus.isNone, cells⟩

def totalSbm (outcome : CellPlan → Outcome) : Except Failure TotalBody :=
  match fatalFailure outcome with
  | some failure => .error failure
  | none =>
    let best := winner (scenarioSum outcome)
    .ok {
      totalSbm := best.1
      winningScenario := best.2
      scenarioTotals := fun s => roundMicro (scenarioSum outcome s)
      breakdown := breakdown outcome }

end

end Collapse

section Lemmas
variable {outcome : CellPlan → Outcome}

theorem mem_plan {p : CellPlan} : p ∈ plan ↔ p.riskClass ∈ totalSbmClasses := by
  have allLegs : ∀ leg : Leg, leg ∈ legs := by
    intro leg
    cases leg <;> decide
  have allScenarios : ∀ s : CorrelationRegime, s ∈ scenarios := by
    intro s
    cases s <;> decide
  constructor
  · intro mem
    simp only [plan, List.mem_flatMap, List.mem_map] at mem
    obtain ⟨rc, hrc, leg, _, s, _, rfl⟩ := mem
    exact hrc
  · intro mem
    simp only [plan, List.mem_flatMap, List.mem_map]
    exact ⟨p.riskClass, mem, p.leg, allLegs _, p.regime, allScenarios _, rfl⟩

/-- Without a fatal failure every failed cell is a skip. -/
theorem skip_of_answered (answered : fatalFailure outcome = none) {p : CellPlan}
    (mem : p ∈ plan) {failure : Failure} (failed : outcome p = .error failure) :
    failure = noData := by
  by_contra other
  have listed : failure ∈ plan.filterMap fun p =>
      match outcome p with
      | .ok _ => none
      | .error failure => if isPerCellSkip failure then none else some failure := by
    refine List.mem_filterMap.mpr ⟨p, mem, ?_⟩
    simp [failed, isPerCellSkip, other]
  unfold fatalFailure at answered
  dsimp only at answered
  split at answered
  · cases answered
  · rw [List.head?_eq_none_iff.mp answered] at listed
    cases listed

theorem fatalFailure_eq_none (ok : ∀ p ∈ plan, ∃ body, outcome p = .ok body) :
    fatalFailure outcome = none := by
  have none_failed : (plan.filterMap fun p =>
      match outcome p with
      | .ok _ => none
      | .error failure => if isPerCellSkip failure then none else some failure) = [] := by
    refine List.filterMap_eq_nil_iff.mpr ?_
    intro p mem
    obtain ⟨body, own⟩ := ok p mem
    rw [own]
  unfold fatalFailure
  rw [none_failed]
  rfl

theorem winner_isMax (sums : CorrelationRegime → ℝ) :
    (winner sums).1 = sums (winner sums).2 ∧ ∀ s, sums s ≤ (winner sums).1 := by
  have step : ∀ (l : List CorrelationRegime) (best : ℝ × CorrelationRegime),
      best.1 = sums best.2 →
      let last := l.foldl (fun best s => if best.1 < sums s then (sums s, s) else best) best
      last.1 = sums last.2 ∧ best.1 ≤ last.1 ∧ ∀ s ∈ l, sums s ≤ last.1 := by
    intro l
    induction l with
    | nil =>
      intro best own
      exact ⟨own, le_rfl, fun s mem => (by cases mem)⟩
    | cons s l ih =>
      intro best own
      rw [List.foldl_cons]
      by_cases larger : best.1 < sums s
      · rw [if_pos larger]
        obtain ⟨own', le, all⟩ := ih (sums s, s) rfl
        refine ⟨own', larger.le.trans le, ?_⟩
        rintro s' mem
        rcases List.mem_cons.mp mem with rfl | mem
        · exact le
        · exact all s' mem
      · rw [if_neg larger]
        obtain ⟨own', le, all⟩ := ih best own
        refine ⟨own', le, ?_⟩
        rintro s' mem
        rcases List.mem_cons.mp mem with rfl | mem
        · exact (not_lt.mp larger).trans le
        · exact all s' mem
  obtain ⟨own, _, all⟩ := step scenarios (sums .medium, .medium) rfl
  refine ⟨own, ?_⟩
  intro s
  apply all
  cases s <;> decide

end Lemmas

section Cells
variable {T : Type} {cfg : CalcConfig} {t : T} {s : CalcState T} {b : ℕ} {shared : SharedInput}
  {ids : CellPlan → ℕ} {outcome : CellPlan → Outcome}

/-- The requests of total request `b` have their answers. -/
def Answers (s : CalcState T) (b : ℕ) (shared : SharedInput) (ids : CellPlan → ℕ)
    (outcome : CellPlan → Outcome) : Prop :=
  ∀ p ∈ plan, ∃ req, s.requests (ids p) = some req ∧ req.query = cellInput shared p ∧
    req.batch = some b ∧ req.phase.answer = some (outcome p)

/-- The cell was served from the cache. -/
def CacheHit (s : CalcState T) (n : ℕ) : Prop :=
  ∃ req x, s.requests n = some req ∧ req.phase = .hit x

/-- The charge of a cell is a reduction of `per` under the cell's own scaling. -/
def Reduces (cfg : CalcConfig) (shared : SharedInput) (p : CellPlan) (outcome : Outcome)
    (per : List BucketResult) : Prop :=
  ∃ body, outcome = .ok body ∧ body.charge = (reduceCharge cfg (cellInput shared p) per).1

theorem cellInput_cells (p : CellPlan) (q : ComputeSbmInput) {v v' : ℕ}
    (same : lookupKey (cellInput shared p) v = storeKey q v') (per : List BucketResult) :
    (reduceCharge cfg q per).1 = (reduceCharge cfg (cellInput shared p) per).1 := by
  obtain ⟨_, regime, reads⟩ := lookupKey_eq same
  have scaled : scaledCorrelations cfg q = scaledCorrelations cfg (cellInput shared p) := by
    rw [scaledCorrelations, scaledCorrelations, reads.riskClass, regime]
  rw [reduceCharge, reduceCharge, scaled, reads.leg]

/-- Every fan-out is answered with a view that is `seen`, and the cells of one total request share
its input. -/
def Observed (seen : ℕ → Backend → Prop) (inputs : ℕ → SharedInput) (e : CalcEvent T) : Prop :=
  (∀ f view, e = .answer f view → seen f view) ∧ Joins (CellOf inputs) e

/-- A cell served from the cache reduces what a fan-out had read for an earlier request that was
stored under the key it looked up. -/
def FromCache (cfg : CalcConfig) (seen : ℕ → Backend → Prop) (s : CalcState T) (n : ℕ)
    (shared : SharedInput) (p : CellPlan) (outcome : Outcome) : Prop :=
  CacheHit s n ∧ ∃ earlier v v' f view leader bundle,
    lookupKey (cellInput shared p) v = storeKey earlier v' ∧ seen f view ∧
      runSbmFanoutPhase cfg leader view = .ok bundle ∧ Reduces cfg shared p outcome bundle.results

/-- A cell that was skipped: its fan-out found the class absent. -/
def Skipped (cfg : CalcConfig) (seen : ℕ → Backend → Prop) (s : CalcState T) (n : ℕ)
    (q : ComputeSbmInput) (outcome : Outcome) : Prop :=
  outcome = .error noData ∧ ∃ f view,
    (s.requests n).map Request.phase = some (.failed f noData) ∧ seen f view ∧
      runSbmFanoutPhase cfg q view = .error noData ∧ Absent q view

variable {seen : ℕ → Backend → Prop} {inputs : ℕ → SharedInput}

theorem failWith_ne_noData (v : Backend) (message : String) : failWith v message ≠ noData := by
  unfold failWith translateRedisError noData
  dsimp only
  split_ifs <;> simp

theorem dispatch_ne_noData (cfg : CalcConfig) (q : ComputeSbmInput) (v : Backend)
    (buckets : List String) : dispatch cfg q v buckets ≠ .error noData := by
  have fast : fastPath cfg q v buckets ≠ .error noData := by
    unfold fastPath
    dsimp only
    split
    · simp
    · split
      · simp
      · simp [noData]
      · simpa using failWith_ne_noData v _
  have lua : luaPath q v buckets ≠ .error noData := by
    unfold luaPath
    split
    · simp
    · simpa using failWith_ne_noData v _
  unfold dispatch
  dsimp only
  split_ifs
  · simp [noData]
  · simp [noData]
  · exact fast
  · exact lua

/-- A fan-out reports no data only where the class is absent. -/
theorem absent_of_noData {q : ComputeSbmInput} {v : Backend}
    (reported : runSbmFanoutPhase cfg q v = .error noData) : Absent q v := by
  have empty : v.numDocs = 0 → ∀ n, v.info = some n → n = 0 := by
    intro none_ n read
    rw [Backend.numDocs, read] at none_
    exact none_
  unfold runSbmFanoutPhase at reported
  cases read : v.seenBuckets q.riskClass with
  | error message =>
    refine ⟨fun seen ok => (by rw [read] at ok; cases ok), ?_⟩
    rw [read] at reported
    dsimp only at reported
    have untranslated : translateRedisError v.targetLabel v.pending message = none := by
      cases known : translateRedisError v.targetLabel v.pending message with
      | none => rfl
      | some failure =>
        rw [known] at reported
        have same := failWith_ne_noData v message
        rw [failWith, known, Option.getD_some, Except.error.inj reported] at same
        exact absurd rfl same
    rw [untranslated] at reported
    dsimp only at reported
    split at reported
    · rename_i none_
      exact empty none_
    · simp [noData] at reported
  | ok listed =>
    rw [read] at reported
    dsimp only at reported
    split at reported
    · rename_i none_
      refine ⟨fun seen ok => ?_, empty none_.2⟩
      rw [read, Except.ok.injEq] at ok
      rw [← ok]
      exact none_.1
    · exact absurd reported (dispatch_ne_noData _ _ _ _)

/-- What a failed cell failed with is what its own fan-out gives on a view that
was seen. -/
theorem failed_cell (run : Run (calcService cfg) (fun _ e => Observed seen inputs e) t s)
    {n : ℕ} {req : Request ComputeSbmInput T Body Failure} (here : s.requests n = some req)
    {f : ℕ} {failure : Failure} (phase : req.phase = .failed f failure) :
    ∃ view, seen f view ∧ runSbmFanoutPhase cfg req.query view = .error failure := by
  have linked : Linked (calcService cfg) (CellOf inputs) s := run.linked (fun _ _ ok => ok.2)
  have ok := linked.requests n req here
  have done := ok.answered
  unfold Answered at done
  rw [phase] at done
  obtain ⟨ft, found, failed⟩ := done
  obtain ⟨ft', found', leads⟩ := ok.fetched f (by rw [phase]; rfl)
  rw [found, Option.some.injEq] at found'
  subst found'
  obtain ⟨view, sees, given⟩ := run.result_seen seen (fun _ _ ok => ok.1) found failed
  refine ⟨view, sees, ?_⟩
  rw [given]
  unfold Leads at leads
  cases batch : req.batch with
  | none =>
    rw [batch] at leads
    rw [leads]
    rfl
  | some b =>
    rw [batch] at leads
    exact fanout_of_shared ((ok.batched b batch).trans leads.2.1.symm) leads.1.symm

/-- Every answered cell that did not fail is a reduction of some bucket list;
those that the request computed itself reduce one list for each class and leg,
read by one fan-out through one client. -/
theorem cells_reduce (run : Run (calcService cfg) (fun _ e => Observed seen inputs e) t s)
    (answers : Answers s b shared ids outcome) (rc : String) (leg : Leg)
    (listed : rc ∈ totalSbmClasses) :
    ∃ (per : List BucketResult) (fetch : Option (Fetch ComputeSbmInput T Bundle Failure)),
      ∀ regime, let p : CellPlan := ⟨rc, leg, regime⟩
        FromCache cfg seen s (ids p) shared p (outcome p) ∨
        (∃ ft bundle, fetch = some ft ∧ ft.result = some (.ok bundle) ∧ bundle.results = per ∧
          Reduces cfg shared p (outcome p) per) ∨
        ∃ failure, outcome p = .error failure := by
  have linked : Linked (calcService cfg) (fun _ _ => True) s :=
    run.linked (fun _ _ _ _ _ _ _ => trivial)
  obtain ⟨fetch, shares⟩ := linked.one_bundle (b := b) (g := (rc, leg))
  refine ⟨((fetch.bind fun ft => ft.result).bind fun r =>
    r.toOption.map fun bundle => bundle.results).getD [], fetch, ?_⟩
  intro regime p
  obtain ⟨req, here, query, batch, answered⟩ := answers p (mem_plan.mpr listed)
  have group : (calcService cfg).group req.query = (rc, leg) := by
    rw [query]
    rfl
  obtain ⟨computed, failed⟩ := shares (ids p) req here batch group
  cases phase : req.phase with
  | hit x =>
    rw [phase] at answered
    have own : outcome p = .ok x.value := (Option.some.inj answered).symm
    have shows : ∀ (s : CalcState T) (e : CalcEvent T), Observed seen inputs e →
        Shows (calcService cfg) (fun bundle => ∃ f view leader, seen f view ∧
          runSbmFanoutPhase cfg leader view = .ok bundle) e :=
      fun _ _ ok f view he leader bundle fetched => ⟨f, view, leader, ok.1 f view he, fetched⟩
    obtain ⟨v, q, v', bundle, ⟨f, view, leader, sees, fetched⟩, key, value⟩ :=
      run.hit_computed shows here phase
    have key' : lookupKey (cellInput shared p) v = storeKey q v' := by
      rw [← query]
      exact key
    refine Or.inl ⟨⟨req, x, here, phase⟩, q, v, v', f, view, leader, bundle, key', sees, fetched,
      x.value, own, ?_⟩
    rw [value]
    exact cellInput_cells p q key' _
  | computed f r =>
    rw [phase] at answered
    have own : outcome p = .ok r := (Option.some.inj answered).symm
    obtain ⟨ft, bundle, found, ok, rfl⟩ := computed f r phase
    right
    left
    refine ⟨ft, bundle, found, ok, by simp [found, ok, Except.toOption], _, own, ?_⟩
    simp only [found, ok, Option.bind_some, query]
    rfl
  | failed f e =>
    rw [phase] at answered
    exact Or.inr (Or.inr ⟨e, (Option.some.inj answered).symm⟩)
  | needs stage => rw [phase] at answered; cases answered
  | asked stage v => rw [phase] at answered; cases answered
  | has stage v => rw [phase] at answered; cases answered
  | waiting f => rw [phase] at answered; cases answered

/-- A cell that failed for want of data was skipped. -/
theorem skipped_of_noData (run : Run (calcService cfg) (fun _ e => Observed seen inputs e) t s)
    (answers : Answers s b shared ids outcome) {p : CellPlan} (mem : p ∈ plan)
    (failed : outcome p = .error noData) :
    Skipped cfg seen s (ids p) (cellInput shared p) (outcome p) := by
  obtain ⟨req, here, query, _, answered⟩ := answers p mem
  rw [failed] at answered
  cases phase : req.phase with
  | failed f e =>
    rw [phase] at answered
    have own : e = noData := Except.error.inj (Option.some.inj answered)
    rw [own] at phase
    obtain ⟨view, sees, given⟩ := failed_cell run here phase
    rw [query] at given
    exact ⟨failed, f, view, by rw [here, Option.map_some, phase], sees, given,
      absent_of_noData given⟩
  | hit x => rw [phase] at answered; cases answered
  | computed f r => rw [phase] at answered; cases answered
  | needs stage => rw [phase] at answered; cases answered
  | asked stage v => rw [phase] at answered; cases answered
  | has stage v => rw [phase] at answered; cases answered
  | waiting f => rw [phase] at answered; cases answered

end Cells

section Demo

/-- An index with one FX bucket whose `K_b` is `k`. -/
noncomputable def onePair (k : ℕ) : Backend := fxIndex [⟨"EURUSD", k, 0, k⟩]

def demoShared : SharedInput := (fxRequest []).toSharedInput

def cachedCell : CellPlan := ⟨"FX", .delta, .high⟩

/-- One cell of a total request: a hit, a fan-out, or a share in one. -/
noncomputable def cellEvents (view : Backend) (p : CellPlan) : List (CalcEvent String) :=
  let n := plan.idxOf p
  [.begin n (cellInput demoShared p) (some 0), .readVersion n, .lookup n] ++
    if p = cachedCell then []
    else (if p.regime = .low then [.answer n view] else []) ++
      [.receive n, .readVersion n, .store n]

/-- One cell is stored, rows are ingested, the total is asked for. -/
noncomputable def ingestBeforeTotal : List (CalcEvent String) :=
  missEvents 100 (cellInput demoShared cachedCell) (onePair 3) ++
    plan.flatMap (cellEvents (onePair 5))

def answerOf (s : CalcState String) (p : CellPlan) : Outcome :=
  ((s.requests (plan.idxOf p)).bind fun req => req.phase.answer).getD (.error noData)

/-- The row counts of the answer to a cell of the total request. -/
def cellCounts (s : CalcState String) (p : CellPlan) : Option (List ℚ) :=
  (s.requests (plan.idxOf p)).bind fun req =>
    if req.query = cellInput demoShared p ∧ req.batch = some 0 then
      match req.phase.answer with
      | some (.ok body) => some (body.perBucket.map BucketResult.count)
      | _ => none
    else none

theorem counts_ingestBeforeTotal :
    ((execute (calcService demoConfig) (fun _ _ => true) (State.init "demo")
      ingestBeforeTotal).map fun s =>
        (plan.all fun p => (cellCounts s p).isSome, cellCounts s ⟨"FX", .delta, .low⟩,
          cellCounts s cachedCell)) = some (true, some [5], some [3]) := by
  decide +kernel

theorem answer_of_cellCounts {s : CalcState String} {p : CellPlan} {counts : List ℚ}
    (counted : cellCounts s p = some counts) : ∃ req body,
      s.requests (plan.idxOf p) = some req ∧ req.query = cellInput demoShared p ∧
        req.batch = some 0 ∧ req.phase.answer = some (.ok body) ∧ answerOf s p = .ok body ∧
        body.perBucket.map BucketResult.count = counts := by
  obtain ⟨req, here, counted⟩ := Option.bind_eq_some_iff.mp counted
  split at counted
  · rename_i own
    split at counted
    · rename_i body answered
      cases counted
      exact ⟨req, body, here, own.1, own.2, answered, by simp [answerOf, here, answered], rfl⟩
    · cases counted
  · cases counted

/-- Each bucket's `K_b` is its row count and its `S_b` zero. -/
def Plain (bundle : Bundle) : Prop := ∀ r ∈ bundle.results, r.kb = r.count ∧ r.sb = 0

theorem plain_fillBuckets {rows : List BucketResult} (plain : ∀ r ∈ rows, r.kb = r.count ∧ r.sb = 0)
    (buckets : List String) : ∀ r ∈ fillBuckets buckets rows, r.kb = r.count ∧ r.sb = 0 := by
  intro r mem
  obtain ⟨bucket, _, rfl⟩ := List.mem_map.mp mem
  cases found : rows.reverse.find? (fun r => r.bucket = bucket) with
  | none => simp
  | some row =>
    rw [Option.getD_some]
    exact plain row (List.mem_reverse.mp (List.mem_of_find?_eq_some found))

theorem plain_onePair {k : ℕ} {q : ComputeSbmInput} {bundle : Bundle}
    (fetched : runSbmFanoutPhase demoConfig q (onePair k) = .ok bundle) : Plain bundle := by
  have fast : ∀ buckets, dispatch demoConfig q (onePair k) buckets =
      fastPath demoConfig q (onePair k) buckets := by
    intro buckets
    simp [dispatch, demoConfig]
  have fanout : ∃ buckets, fastPath demoConfig q (onePair k) buckets = .ok bundle := by
    unfold runSbmFanoutPhase at fetched
    rw [show (onePair k).seenBuckets q.riskClass = .ok _ from rfl] at fetched
    dsimp only at fetched
    rw [if_neg (fun none => by cases none.2), fast] at fetched
    exact ⟨_, fetched⟩
  obtain ⟨buckets, fetched⟩ := fanout
  unfold fastPath at fetched
  rw [show (onePair k).aggregate (aggregateQuery q (onePair k).desks) = .ok _ from rfl] at fetched
  simp only [demoConfig, Bool.false_and, Bool.false_eq_true, if_false] at fetched
  cases fetched
  apply plain_fillBuckets
  intro r mem
  split at mem
  · rw [List.mem_singleton.mp (List.mem_filter.mp mem).1]
    simp
  · cases mem

theorem shows_plain : ∀ e ∈ ingestBeforeTotal, Shows (calcService demoConfig) Plain e := by
  rintro e mem f view rfl q bundle fetched
  have views : view = onePair 3 ∨ view = onePair 5 := by
    simp only [ingestBeforeTotal, missEvents, cellEvents, List.mem_append, List.mem_cons,
      List.mem_flatMap] at mem
    rcases mem with mem | ⟨p, _, mem⟩
    · simp at mem
      exact Or.inl mem.2
    · right
      split at mem
      · simp at mem
      · split at mem
        · simp at mem
          exact mem.2
        · simp at mem
  rcases views with rfl | rfl
  · exact plain_onePair fetched
  · exact plain_onePair fetched

theorem joins_demo : ∀ e ∈ ingestBeforeTotal, Joins (CellOf fun _ => demoShared) e := by
  rintro e mem n q b rfl
  simp only [ingestBeforeTotal, missEvents, cellEvents, List.mem_append, List.mem_cons,
    List.mem_flatMap] at mem
  rcases mem with mem | ⟨p, _, mem⟩
  · simp at mem
  · have own : q = cellInput demoShared p := by
      split at mem
      · simp at mem
        exact mem.2.1
      · split at mem
        · simp at mem
          exact mem.2.1
        · simp at mem
          exact mem.2.1
    rw [own]
    rfl

/-- One bucket with `S_b = 0` is charged its `K_b`. -/
theorem charge_of_plain {cfg : CalcConfig} {q : ComputeSbmInput} {per : List BucketResult}
    (delta : q.leg = .delta) (plain : ∀ r ∈ per, r.kb = r.count ∧ r.sb = 0) {k : ℕ}
    (counts : per.map BucketResult.count = [(k : ℚ)]) : (reduceCharge cfg q per).1 = k := by
  obtain ⟨row, rfl, count⟩ := List.map_eq_singleton_iff.mp counts
  obtain ⟨kb, _⟩ := plain row (by simp)
  have single : ∀ s, crossTerm (scaledCorrelations cfg q) s [row] = 0 := by
    intro s
    simp [crossTerm, PairSums.pairSum]
  have square : sumKbSquared [row] = (k : ℝ) * k := by
    simp [sumKbSquared, kb, count]
  simp [reduceCharge, delta, reduceRiskClassCharge, single, square,
    mul_self_nonneg]

/-- In a run over plain indexes a delta cell with one bucket is charged its
row count. -/
theorem charge_of_run {s : CalcState String} {n k : ℕ}
    {req : Request ComputeSbmInput String Body Failure} {body : Body}
    (run : Run (calcService demoConfig)
      (fun _ e => Shows (calcService demoConfig) Plain e) "demo" s)
    (here : s.requests n = some req) (delta : req.query.leg = .delta)
    (answered : req.phase.answer = some (.ok body))
    (counts : body.perBucket.map BucketResult.count = [(k : ℚ)]) : body.charge = k := by
  cases phase : req.phase with
  | hit x =>
    rw [phase] at answered
    cases answered
    obtain ⟨v, q, v', bundle, plain, key, value⟩ := run.hit_computed (fun _ _ ok => ok) here phase
    have leg : q.leg = .delta := (lookupKey_eq key).2.2.leg.symm.trans delta
    rw [value] at counts ⊢
    exact charge_of_plain leg plain counts
  | computed f r =>
    rw [phase] at answered
    cases answered
    have linked : Linked (calcService demoConfig) (fun _ _ => True) s :=
      run.linked (fun _ _ _ _ _ _ _ => trivial)
    have done := (linked.requests n req here).answered
    rw [Answered, phase] at done
    obtain ⟨ft, bundle, fetched, ok, rfl⟩ := done
    have plain : Plain bundle := run.bundle_has (fun _ _ ok => ok) fetched ok
    exact charge_of_plain delta plain counts
  | failed f e => rw [phase] at answered; cases answered
  | needs stage => rw [phase] at answered; cases answered
  | asked stage v => rw [phase] at answered; cases answered
  | has stage v => rw [phase] at answered; cases answered
  | waiting f => rw [phase] at answered; cases answered

/-- The total request is answered after the ingest. -/
theorem answered_ingestBeforeTotal : ∃ s : CalcState String,
    Run (calcService demoConfig) (fun _ e => Shows (calcService demoConfig) Plain e) "demo" s ∧
      Run (calcService demoConfig)
        (fun _ e => Observed (fun _ _ => True) (fun _ => demoShared) e) "demo" s ∧
      Answers s 0 demoShared (plan.idxOf ·) (answerOf s) ∧
      fatalFailure (answerOf s) = none ∧
      cellCounts s ⟨"FX", .delta, .low⟩ = some [5] ∧ cellCounts s cachedCell = some [3] := by
  obtain ⟨s, reached, counts⟩ := Option.map_eq_some_iff.mp counts_ingestBeforeTotal
  rw [Prod.mk.injEq, Prod.mk.injEq] at counts
  obtain ⟨all, low, high⟩ := counts
  have run : Run (calcService demoConfig)
      (fun _ e => Observed (fun _ _ => True) (fun _ => demoShared) e) "demo" s :=
    Run.init.execute (fun _ e mem _ => ⟨fun _ _ _ => trivial, joins_demo e mem⟩) reached
  have plain : Run (calcService demoConfig) (fun _ e => Shows (calcService demoConfig) Plain e)
      "demo" s := Run.init.execute (fun _ e mem _ => shows_plain e mem) reached
  have counted : ∀ p ∈ plan, ∃ counts, cellCounts s p = some counts :=
    fun p mem => Option.isSome_iff_exists.mp (List.all_eq_true.mp all p mem)
  refine ⟨s, plain, run, ?_, ?_, low, high⟩
  · intro p mem
    obtain ⟨counts, counted⟩ := counted p mem
    obtain ⟨req, body, here, query, batch, answered, own, _⟩ := answer_of_cellCounts counted
    exact ⟨req, here, query, batch, by rw [answered, own]⟩
  · apply fatalFailure_eq_none
    intro p mem
    obtain ⟨counts, counted⟩ := counted p mem
    obtain ⟨req, body, _, _, _, _, own, _⟩ := answer_of_cellCounts counted
    exact ⟨body, own⟩

end Demo

section Samples

end Samples

end TotalCharge
