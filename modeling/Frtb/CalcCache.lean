import Frtb.CalcService
import Mathlib.Tactic.NormNum

/-!
# What the result cache serves

Over unchanging data a request is answered as if nothing were cached, provided
no answer is stored whose bucket cells narrowed the discovered buckets: the key
of a store does not name the cells. After an invalidation no older answer is
served, provided only fresh answers are stored.
-/

namespace CalcCache

open SharedCache ChargeReduce CalcService

section Narrowing
variable {cfg : CalcConfig} {view : Backend} {q q' : ComputeSbmInput}

/-- The requests read the same data: they differ at most in the regime, the use
of the cache, the bucket cells and the order of the bucket subset. -/
structure SameReads (q q' : ComputeSbmInput) : Prop where
  riskClass : q.riskClass = q'.riskClass
  leg : q.leg = q'.leg
  excludeCsv : q.excludeCsv = q'.excludeCsv
  includeCsv : q.includeCsv = q'.includeCsv
  forcePath : q.forcePath = q'.forcePath
  bucketSubset : List.Perm q.bucketSubset q'.bucketSubset

theorem aggregate_eq (same : SameReads q q') :
    view.aggregate (aggregateQuery q view.desks) =
      view.aggregate (aggregateQuery q' view.desks) := by
  rw [view.tagUnion (aggregateQuery q view.desks) q'.bucketSubset same.bucketSubset]
  simp only [aggregateQuery, same.riskClass, same.leg, same.excludeCsv, same.includeCsv]

theorem dispatch_eq (same : SameReads q q') (buckets : List String) :
    dispatch cfg q view buckets = dispatch cfg q' view buckets := by
  have wanted : wantsFastPath cfg q = wantsFastPath cfg q' := by
    simp only [wantsFastPath, same.forcePath]
  have filter : hasFilter q = hasFilter q' := by
    simp only [hasFilter, same.excludeCsv, same.includeCsv]
  simp only [dispatch, wanted, fastPath, luaPath, filter, aggregate_eq same, same.riskClass,
    same.leg, same.excludeCsv]

/-- Requests that read the same data and leave the same buckets fan out alike. -/
theorem fanout_eq (same : SameReads q q')
    (buckets : ∀ seen, view.seenBuckets q'.riskClass = .ok seen →
      narrowBuckets q seen.eraseDups = narrowBuckets q' seen.eraseDups) :
    runSbmFanoutPhase cfg q view = runSbmFanoutPhase cfg q' view := by
  unfold runSbmFanoutPhase
  rw [same.riskClass]
  cases seen : view.seenBuckets q'.riskClass with
  | error message => rfl
  | ok members =>
    dsimp only
    rw [buckets members seen, dispatch_eq same]

/-- Without cells the order of the subset does not matter. -/
theorem narrowBuckets_perm (noCells : q.bucketCells = []) (noCells' : q'.bucketCells = [])
    (perm : List.Perm q.bucketSubset q'.bucketSubset) (seen : List String) :
    narrowBuckets q seen = narrowBuckets q' seen := by
  have none_iff : q.bucketSubset = [] ↔ q'.bucketSubset = [] := by
    constructor
    · intro none
      rw [none] at perm
      exact List.nil_perm.mp perm
    · intro none
      rw [none] at perm
      exact List.perm_nil.mp perm
  simp only [narrowBuckets, noCells, noCells', ne_eq, not_true_eq_false, if_false, none_iff,
    perm.mem_iff]

def withoutCells (q : ComputeSbmInput) : ComputeSbmInput := { q with bucketCells := [] }

/-- The bucket cells of a request narrow the discovered buckets no further than
its bucket subset does. -/
def CellsNeutral (view : Backend) (q : ComputeSbmInput) : Prop :=
  ∀ seen, view.seenBuckets q.riskClass = .ok seen →
    narrowBuckets q seen.eraseDups = narrowBuckets (withoutCells q) seen.eraseDups

theorem lookupKey_eq {v v' : ℕ} (same : lookupKey q' v' = storeKey q v) :
    q'.bucketCells = [] ∧ q'.regime = q.regime ∧ SameReads q' q := by
  have noCells : q'.bucketCells = [] := by
    have cells := congrArg CacheKey.bucketCells same
    by_contra some_
    simp [lookupKey, storeKey, some_] at cells
  have subset : sorted q'.bucketSubset = sorted q.bucketSubset :=
    congrArg CacheKey.bucketSubset same
  refine ⟨noCells, congrArg CacheKey.regime same, ?_⟩
  constructor
  · exact congrArg CacheKey.riskClass same
  · exact congrArg CacheKey.leg same
  · exact congrArg CacheKey.excludeCsv same
  · exact congrArg CacheKey.includeCsv same
  · exact congrArg CacheKey.forcePath same
  · calc
      List.Perm q'.bucketSubset (sorted q'.bucketSubset) := (List.perm_insertionSort _ _).symm
      List.Perm _ (sorted q.bucketSubset) := by rw [subset]
      List.Perm _ q.bucketSubset := List.perm_insertionSort _ _

theorem finalize_eq (same : SameReads q q') (regime : q.regime = q'.regime) (bundle : Bundle) :
    finalizeSbmCharge cfg q bundle = finalizeSbmCharge cfg q' bundle := by
  have scaled : scaledCorrelations cfg q = scaledCorrelations cfg q' := by
    rw [scaledCorrelations, scaledCorrelations, same.riskClass, regime]
  have reduced : reduceCharge cfg q bundle.results = reduceCharge cfg q' bundle.results := by
    rw [reduceCharge, reduceCharge, scaled, same.leg]
  rw [finalizeSbmCharge, finalizeSbmCharge, reduced, regime]

/-- An answer whose cells narrowed nothing is the answer to whoever finds it. -/
theorem neutral_of_cells (neutral : CellsNeutral view q) : Neutral (calcService cfg) view q := by
  intro v q' v' same
  obtain ⟨noCells, regime, reads⟩ := lookupKey_eq same
  have buckets : ∀ seen, view.seenBuckets q.riskClass = .ok seen →
      narrowBuckets q' seen.eraseDups = narrowBuckets q seen.eraseDups := by
    intro seen found
    have perm : List.Perm q'.bucketSubset (withoutCells q).bucketSubset := reads.bucketSubset
    rw [neutral seen found]
    exact narrowBuckets_perm noCells rfl perm _
  have fetched : runSbmFanoutPhase cfg q' view = runSbmFanoutPhase cfg q view :=
    fanout_eq reads buckets
  have finished : finalizeSbmCharge cfg q' = finalizeSbmCharge cfg q :=
    funext (finalize_eq reads regime)
  simp only [Service.fresh, calcService, fetched, finished]

/-- The cells of one total request fan out alike within a class and leg. -/
theorem fanout_of_shared (shared : q.toSharedInput = q'.toSharedInput)
    (group : (calcService cfg).group q = (calcService cfg).group q') :
    runSbmFanoutPhase cfg q view = runSbmFanoutPhase cfg q' view := by
  have classes : q.riskClass = q'.riskClass := congrArg Prod.fst group
  have reads : SameReads q q' := by
    constructor
    · exact classes
    · exact congrArg Prod.snd group
    · exact congrArg SharedInput.excludeCsv shared
    · exact congrArg SharedInput.includeCsv shared
    · exact congrArg SharedInput.forcePath shared
    · rw [congrArg SharedInput.bucketSubset shared]
  have cells : q.bucketCells = q'.bucketCells := congrArg SharedInput.bucketCells shared
  have subset : q.bucketSubset = q'.bucketSubset := congrArg SharedInput.bucketSubset shared
  refine fanout_eq reads ?_
  intro seen _
  simp only [narrowBuckets, cells, subset, classes]

end Narrowing

section Unchanging

abbrev CalcState (T : Type) := State ComputeSbmInput CacheKey (String × Leg) T Bundle Body Failure

abbrev CalcEvent (T : Type) := Event ComputeSbmInput CacheKey T Backend

variable {T : Type} {cfg : CalcConfig} {view : Backend} {shared : ℕ → SharedInput} {t : T}
  {s : CalcState T}

/-- The request belongs to the total request of that number. -/
def CellOf (shared : ℕ → SharedInput) (b : ℕ) (q : ComputeSbmInput) : Prop :=
  q.toSharedInput = shared b

/-- Steps over unchanging data: every fan-out sees the one view, and the cells
of one total request share its input. -/
def Unchanging (view : Backend) (shared : ℕ → SharedInput) (e : CalcEvent T) : Prop :=
  (∀ f seen, e = .answer f seen → seen = view) ∧ Joins (CellOf shared) e

/-- An answer is stored only where the request's cells narrowed nothing. -/
def StoresNeutral (view : Backend) (s : CalcState T) (e : CalcEvent T) : Prop :=
  ∀ n req, e = .store n → s.requests n = some req → req.query.noCache = false →
    CellsNeutral view req.query

/-- Over unchanging data, whatever was cached, a request is answered as a fresh
computation of it would answer. -/
theorem answer_eq_fresh_of_neutral
    (run : Run (calcService cfg) (fun s e => Unchanging view shared e ∧ StoresNeutral view s e) t s)
    {n : ℕ} {req : Request ComputeSbmInput T Body Failure} {r : Except Failure Body}
    (here : s.requests n = some req) (answered : req.phase.answer = some r) :
    r = (calcService cfg).fresh view req.query := by
  have coherent : ∀ b q q', CellOf shared b q → CellOf shared b q' →
      (calcService cfg).group q = (calcService cfg).group q' →
        (calcService cfg).fetch q view = (calcService cfg).fetch q' view := by
    intro b q q' hq hq' group
    exact fanout_of_shared (hq.trans hq'.symm) group
  have steady : Run (calcService cfg) (Steady (calcService cfg) (CellOf shared) view) t s := by
    clear here
    induction run with
    | init => exact Run.init
    | step run ok step ih =>
      refine Run.step ih ⟨ok.1.1, ok.1.2, ?_⟩ step
      intro n req he here uses
      apply neutral_of_cells
      exact ok.2 n req he here (by simpa [calcService] using uses)
  exact answer_eq_fresh coherent steady here answered

end Unchanging

section Invalidated
variable {T : Type} {cfg : CalcConfig} {t : T} {s s' : CalcState T} {n : ℕ}
  {req : Request ComputeSbmInput T Body Failure} {x : Entry T Body}

/-- While only fresh answers are stored, a lookup returns nothing that was
fetched before the last bump or change of target, or through another target. -/
theorem lookup_not_stale (run : Run (calcService cfg) (CleanStore (calcService cfg)) t s)
    (step : Step (calcService cfg) s (.lookup n) s') (here : s'.requests n = some req)
    (hit : req.phase = .hit x) : ¬ Stale s x := by
  have requests_new : ∀ s₁ : CalcState T, ∀ new, (s₁.put n new).requests n = some req →
      req = new := by
    intro s₁ new h
    rw [State.requests_put, Option.some.injEq] at h
    exact h.symm
  cases step with
  | hit before phase uses found =>
    rw [requests_new _ _ here] at hit
    cases hit
    exact fresh_of_cleanStores run found
  | join before phase miss batch shared =>
    rw [requests_new _ _ here] at hit
    cases hit
  | fetch before phase miss first =>
    rw [requests_new _ _ here] at hit
    cases hit

/-- A request without cells that begins right after its like has stored under
the version in memory is served what was stored, stale or not. -/
theorem served_after_store {m f v : ℕ} {ft : Fetch ComputeSbmInput T Bundle Failure}
    {b : Bundle} (here : s.requests n = some req) (phase : req.phase = .has (.storing f) v)
    (fetched : s.fetches f = some ft) (ok : ft.result = some (.ok b))
    (uses : req.query.noCache = false) (noCells : req.query.bucketCells = [])
    (known : s.version = some v) (free : s.requests m = none) (other : m ≠ n) :
    ∃ s', execute (calcService cfg) (fun _ _ => true) s
        [.store n, .begin m req.query none, .readVersion m, .lookup m] = some s' ∧
      (s'.requests m).map Request.phase =
        some (.hit ⟨finalizeSbmCharge cfg req.query b, ft.client, ft.epoch⟩) ∧
      s'.epoch = s.epoch ∧ s'.target = s.target := by
  obtain ⟨leader, client, epoch, result⟩ := ft
  dsimp only at ok
  subst ok
  have key : ∀ w, lookupKey req.query w = storeKey req.query w := by
    intro w
    simp [lookupKey, noCells, storeKey]
  simp [execute, next, advance, SharedCache.lookup, here, phase, fetched, known, free, other, uses,
    key, calcService, State.put, State.keep, Request.goto, Function.update_apply]

end Invalidated

section Demo

def demoConfig : CalcConfig where
  hasSchema := true
  fastPathEnabled := true
  fcallFallback := false
  lazyMath := false
  rollupPath := false
  correlations := fun _ => none

/-- An index that holds the FX buckets of `rows`. -/
def fxIndex (rows : List BucketResult) : Backend where
  targetLabel := "demo"
  pending := "ready"
  seenBuckets := fun rc => .ok (if rc = "FX" then rows.map BucketResult.bucket else [])
  info := some rows.length
  desks := []
  rollup := fun _ _ _ => none
  aggregate := fun q => .ok (if q.riskClass = "FX" then
    rows.filter fun r => q.bucketSubset = [] ∨ r.bucket ∈ q.bucketSubset else [])
  fcall := fun _ _ _ _ => .error "ERR unknown command 'FCALL'"
  tagUnion := by
    intro q subset perm
    have none_iff : q.bucketSubset = [] ↔ subset = [] := by
      constructor
      · rintro none
        rw [none] at perm
        exact List.nil_perm.mp perm
      · rintro rfl
        exact List.perm_nil.mp perm
    simp only [none_iff, perm.mem_iff]

def fxRequest (cells : List BucketCell) : ComputeSbmInput where
  bucketSubset := []
  bucketCells := cells
  excludeCsv := emptyExcludeCsv
  includeCsv := emptyIncludeCsv
  forcePath := none
  noCache := false
  riskClass := "FX"
  leg := .delta
  regime := .medium

def noCells : ℕ → SharedInput := fun _ => (fxRequest []).toSharedInput

noncomputable def twoPairs : Backend := fxIndex [⟨"EURUSD", 3, 3, 1⟩, ⟨"GBPUSD", 4, 4, 1⟩]

/-- A request that misses, with the first version read of the process. -/
def missEvents (n : ℕ) (q : ComputeSbmInput) (view : Backend) : List (CalcEvent String) :=
  [.begin n q none, .askVersion n 0, .takeVersion n, .lookup n, .answer n view, .receive n,
    .readVersion n, .store n]

def lookupEvents (n : ℕ) (q : ComputeSbmInput) : List (CalcEvent String) :=
  [.begin n q none, .readVersion n, .lookup n]

/-- The buckets of the answer that request `n` has. -/
def answeredBuckets (s : CalcState String) (n : ℕ) : Option (List String) :=
  (s.requests n).bind fun req =>
    match req.phase.answer with
    | some (.ok body) => some (body.perBucket.map BucketResult.bucket)
    | _ => none

/-- A request with some cells, then one without. -/
noncomputable def cellsThenAll (cells : List BucketCell) : List (CalcEvent String) :=
  missEvents 0 (fxRequest cells) twoPairs ++ lookupEvents 1 (fxRequest [])

theorem unchanging_cellsThenAll (cells : List BucketCell) :
    ∀ e ∈ cellsThenAll cells, Unchanging twoPairs noCells e := by
  intro e mem
  simp only [cellsThenAll, missEvents, lookupEvents, List.cons_append, List.nil_append,
    List.mem_cons, List.not_mem_nil, or_false] at mem
  constructor
  · rintro f seen rfl
    simp at mem
    exact mem.2
  · rintro n q b rfl
    simp at mem

/-- A request about to store names no cells. -/
def storesAll (s : CalcState String) (e : CalcEvent String) : Bool :=
  match e with
  | .store n => (s.requests n).all fun req => req.query.bucketCells = []
  | _ => true

theorem storesNeutral_of_check {s : CalcState String} {e : CalcEvent String}
    (checked : storesAll s e = true) : StoresNeutral twoPairs s e := by
  rintro n req rfl here _ seen _
  have noCells : req.query.bucketCells = [] := by simpa [storesAll, here] using checked
  rw [withoutCells, ← noCells]

/-- What a request about to store was fetched through the current target since
the last invalidation. -/
def storesClean (s : CalcState String) (e : CalcEvent String) : Bool :=
  match e with
  | .store n => (s.requests n).all fun req =>
    match req.phase with
    | .has (.storing f) _ =>
      (s.fetches f).all fun ft => ft.epoch = s.epoch ∧ ft.client = s.target
    | _ => true
  | _ => true

theorem cleanStore_of_check {s : CalcState String} {e : CalcEvent String}
    (checked : storesClean s e = true) : CleanStore (calcService demoConfig) s e := by
  rintro n req f v ft rfl here _ phase fetched
  simpa [storesClean, here, phase, fetched] using checked

/-- A request whose data is read, then a bump, then the store. -/
noncomputable def bumpBeforeStore : List (CalcEvent String) :=
  [.begin 0 (fxRequest []) none, .askVersion 0 0, .takeVersion 0, .lookup 0, .answer 0 twoPairs,
    .bump 1, .receive 0, .readVersion 0, .store 0, .begin 1 (fxRequest []) none, .readVersion 1]

/-- Whether the next lookup of request `n` hits, and if so, a stale answer. -/
noncomputable def lookupHits (s : CalcState String) (n : ℕ) : Option Bool :=
  (next (calcService demoConfig) s (.lookup n)).bind fun s' => (s'.requests n).bind fun req =>
    match req.phase with
    | .hit x => some (x.epoch ≠ s.epoch ∨ x.client ≠ s.target)
    | _ => none

theorem hit_of_lookupHits {s : CalcState String} {n : ℕ} {stale : Bool}
    (hits : lookupHits s n = some stale) :
    ∃ s' req x, Step (calcService demoConfig) s (.lookup n) s' ∧ s'.requests n = some req ∧
      req.phase = .hit x ∧ (stale = true ↔ Stale s x) := by
  obtain ⟨s', moved, hits⟩ := Option.bind_eq_some_iff.mp hits
  obtain ⟨req, here, hits⟩ := Option.bind_eq_some_iff.mp hits
  split at hits
  · rename_i x phase
    cases hits
    exact ⟨s', req, x, Step.of_next moved, here, phase, by simp [Stale]⟩
  · cases hits

end Demo

section Samples

/-- A second request for the whole class is served from the cache. -/
theorem answer_eq_fresh_twoPairs : ∃ s : CalcState String, ∃ req x,
    s.requests 1 = some req ∧ req.phase = .hit x ∧
      .ok x.value = (calcService demoConfig).fresh twoPairs req.query := by
  have hit : ((execute (calcService demoConfig) storesAll (State.init "demo")
      (cellsThenAll [])).bind fun s => (s.requests 1).map fun req => match req.phase with
        | .hit _ => true
        | _ => false) = some true := by decide +kernel
  obtain ⟨s, reached, hit⟩ := Option.bind_eq_some_iff.mp hit
  obtain ⟨req, here, hit⟩ := Option.map_eq_some_iff.mp hit
  split at hit
  · rename_i x phase
    have run : Run (calcService demoConfig)
        (fun s e => Unchanging twoPairs noCells e ∧ StoresNeutral twoPairs s e) "demo" s := by
      refine Run.init.execute ?_ reached
      intro s e mem checked
      exact ⟨unchanging_cellsThenAll [] e mem, storesNeutral_of_check checked⟩
    refine ⟨s, req, x, here, phase, answer_eq_fresh_of_neutral run here ?_⟩
    rw [phase]
    rfl
  · cases hit

/-- A body stored for one bucket answers the request for the whole class. -/
theorem hit_of_other_narrowing : ∃ s : CalcState String,
    Run (calcService demoConfig) (fun _ e => Unchanging twoPairs noCells e) "demo" s ∧
      answeredBuckets s 1 = some ["EURUSD"] ∧
      (s.requests 1).map Request.query = some (fxRequest []) ∧
      ∃ body, (calcService demoConfig).fresh twoPairs (fxRequest []) = .ok body ∧
        body.perBucket.map BucketResult.bucket = ["EURUSD", "GBPUSD"] := by
  have seen : ((execute (calcService demoConfig) (fun _ _ => true) (State.init "demo")
      (cellsThenAll [⟨"FX", "EURUSD"⟩])).bind fun s => (answeredBuckets s 1).bind fun buckets =>
        (s.requests 1).map fun req => (buckets, req.query)) =
      some (["EURUSD"], fxRequest []) := by decide +kernel
  obtain ⟨s, reached, seen⟩ := Option.bind_eq_some_iff.mp seen
  obtain ⟨buckets, answered, seen⟩ := Option.bind_eq_some_iff.mp seen
  obtain ⟨req, here, seen⟩ := Option.map_eq_some_iff.mp seen
  rw [Prod.mk.injEq] at seen
  refine ⟨s, Run.init.execute (fun _ e mem _ => unchanging_cellsThenAll _ e mem) reached,
    by rw [answered, seen.1], by rw [here, Option.map_some, seen.2], _, rfl, ?_⟩
  decide +kernel

/-- The second of two like requests hits, and not a stale answer. -/
theorem lookup_not_stale_demo : ∃ s s' : CalcState String, ∃ req x,
    Step (calcService demoConfig) s (.lookup 1) s' ∧ s'.requests 1 = some req ∧
      req.phase = .hit x ∧ ¬ Stale s x := by
  have hit : ((execute (calcService demoConfig) storesClean (State.init "demo")
      (missEvents 0 (fxRequest []) twoPairs ++
        [.begin 1 (fxRequest []) none, .readVersion 1])).bind fun s => lookupHits s 1) =
      some false := by decide +kernel
  obtain ⟨s, reached, hit⟩ := Option.bind_eq_some_iff.mp hit
  obtain ⟨s', req, x, step, here, phase, _⟩ := hit_of_lookupHits hit
  have run : Run (calcService demoConfig) (CleanStore (calcService demoConfig)) "demo" s :=
    Run.init.execute (fun _ _ _ checked => cleanStore_of_check checked) reached
  exact ⟨s, s', req, x, step, here, phase, lookup_not_stale run step here phase⟩

/-- A bump between the reads of a request and its store leaves the old answer
to the requests after the bump. -/
theorem stale_hit_after_bump : ∃ s s' : CalcState String, ∃ req x,
    Run (calcService demoConfig) (fun _ _ => True) "demo" s ∧
      Step (calcService demoConfig) s (.lookup 1) s' ∧ s'.requests 1 = some req ∧
      req.phase = .hit x ∧ Stale s x := by
  have hit : ((execute (calcService demoConfig) (fun _ _ => true) (State.init "demo")
      bumpBeforeStore).bind fun s => lookupHits s 1) = some true := by decide +kernel
  obtain ⟨s, reached, hit⟩ := Option.bind_eq_some_iff.mp hit
  obtain ⟨s', req, x, step, here, phase, stale⟩ := hit_of_lookupHits hit
  have run : Run (calcService demoConfig) (fun _ _ => True) "demo" s :=
    Run.init.execute (fun _ _ _ _ => trivial) reached
  exact ⟨s, s', req, x, run, step, here, phase, stale.mp rfl⟩

end Samples

end CalcCache
