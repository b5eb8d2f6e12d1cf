import Mathlib
import Frtb.Library.EventRuns
import Frtb.Library.JsNumbers
import Frtb.Library.PoolSums

/-!
# The bounded parallel map

`mapWithConcurrency`: workers that take indices from one cursor, each waiting for
its call of `fn` before it takes the next index. A call completes in one turn, and its
worker goes on in a later one.
-/

namespace MapWithConcurrency

open EventRuns JsNumbers PoolSums

universe u

section Program
variable {T R E : Type u}

/-- How many workers `Array.from({ length: concurrency })` starts, where `concurrency` is
`max(1, min(floor(limit), items.length))`. -/
def workerCount (limit : JsNumber ℚ) (items : ℕ) : ℕ :=
  match limit with
  | .nan => 0
  | .inf true => 1
  | .inf false => max 1 items
  | .fin q => (max 1 (min ⌊q⌋ (items : ℤ))).toNat

inductive Worker (E : Type u) where
  /-- At `await fn(items[i], i)`. -/
  | awaiting (i : ℕ)
  /-- The call has completed and the worker has not gone on yet. -/
  | completed (i : ℕ)
  | returned
  | failed (error : E)
deriving DecidableEq

structure Pool (R E : Type u) where
  nextIndex : ℕ
  /-- `results`, with its holes. -/
  results : List (Option R)
  workers : List (Worker E)
  /-- The promise that `mapWithConcurrency` returns, once it is settled. -/
  result : Option (Except E (List (Option R)))
  /-- The indices that `fn` was called with. -/
  calls : List ℕ

/-- `const i = nextIndex++`, and the call of `fn` if there is an item. -/
def take (items : ℕ) (pool : Pool R E) : Worker E × Pool R E :=
  let i := pool.nextIndex
  let pool := { pool with nextIndex := i + 1 }
  if items ≤ i then (.returned, pool) else (.awaiting i, { pool with calls := pool.calls ++ [i] })

/-- Start `count` workers, each up to its first `await`. -/
def launch (items : ℕ) : ℕ → Pool R E → Pool R E
  | 0, pool => pool
  | count + 1, pool =>
    let taken := take items pool
    launch items count { taken.2 with workers := taken.2.workers ++ [taken.1] }

def Worker.isReturned : Worker E → Bool
  | .returned => true
  | _ => false

/-- `Promise.all` resolves once every worker has returned. -/
def settleAll (pool : Pool R E) : Pool R E :=
  if pool.workers.all Worker.isReturned then
    { pool with result := pool.result.or (some (.ok pool.results)) }
  else pool

def start (limit : JsNumber ℚ) (items : List T) : Pool R E :=
  if items.length = 0 then ⟨0, [], [], some (.ok []), []⟩
  else settleAll (launch items.length (workerCount limit items.length)
    ⟨0, List.replicate items.length none, [], none, []⟩)

inductive Event
  | complete (worker : ℕ)
  | resume (worker : ℕ)

/-- What a worker does when the call it waited for has completed. -/
def goOn (items : ℕ) (pool : Pool R E) (w i : ℕ) : Except E R → Pool R E
  | .error error =>
    { pool with
      workers := pool.workers.set w (.failed error)
      result := pool.result.or (some (.error error)) }
  | .ok value =>
    let taken := take items { pool with results := pool.results.set i (some value) }
    settleAll { taken.2 with workers := taken.2.workers.set w taken.1 }

def step (fn : T → ℕ → Except E R) (items : List T) (pool : Pool R E) : Event → Option (Pool R E)
  | .complete w =>
    match pool.workers[w]? with
    | some (.awaiting i) => some { pool with workers := pool.workers.set w (.completed i) }
    | _ => none
  | .resume w =>
    match pool.workers[w]? with
    | some (.completed i) =>
      items[i]?.map fun item => goOn items.length pool w i (fn item i)
    | _ => none

end Program

section Invariant
variable {T R E : Type u} {fn : T → ℕ → Except E R} {items : List T} {pool : Pool R E}

/-- The index of the call that a worker waits for or has had completed. -/
def Worker.index : Worker E → Option ℕ
  | .awaiting i | .completed i => some i
  | _ => none

/-- The outcome of the call for `i` has been taken over. -/
def Done (fn : T → ℕ → Except E R) (items : List T) (pool : Pool R E) (i : ℕ) : Prop :=
  ∀ item, items[i]? = some item →
    (∀ value, fn item i = .ok value → pool.results[i]? = some (some value)) ∧
      ∀ error, fn item i = .error error → ∃ w : ℕ, pool.workers[w]? = some (.failed error)

structure Inv (fn : T → ℕ → Except E R) (items : List T) (pool : Pool R E) : Prop where
  calls : pool.calls = List.range (min pool.nextIndex items.length)
  length : pool.results.length = items.length
  called : ∀ (w : ℕ) (a : Worker E) (i : ℕ), pool.workers[w]? = some a → a.index = some i →
    i < min pool.nextIndex items.length
  unique : ∀ (w v : ℕ) (a b : Worker E) (i : ℕ), pool.workers[w]? = some a →
    pool.workers[v]? = some b → a.index = some i → b.index = some i → w = v
  done : ∀ i < pool.nextIndex,
    (∀ (w : ℕ) (a : Worker E), pool.workers[w]? = some a → a.index ≠ some i) →
      Done fn items pool i
  returned : ∀ w : ℕ, pool.workers[w]? = some .returned → items.length ≤ pool.nextIndex
  failed : ∀ (w : ℕ) (error : E), pool.workers[w]? = some (.failed error) →
    ∃ i ∈ pool.calls, ∃ item, items[i]? = some item ∧ fn item i = .error error

/-- What the promise says about the workers. -/
structure Settled (pool : Pool R E) : Prop where
  pending : pool.result = none → pool.workers.all Worker.isReturned = false ∧
    ∀ (w : ℕ) (error : E), pool.workers[w]? ≠ some (.failed error)
  resolved : ∀ out, pool.result = some (.ok out) →
    pool.workers.all Worker.isReturned = true ∧ out = pool.results
  rejected : ∀ error, pool.result = some (.error error) →
    ∃ w : ℕ, pool.workers[w]? = some (.failed error)

/-- `new` holds `b` at `w`, and elsewhere what `old` holds. -/
structure Placed (old new : List (Worker E)) (w : ℕ) (b : Worker E) : Prop where
  here : new[w]? = some b
  elsewhere : ∀ v ≠ w, new[v]? = old[v]?

theorem placed_set {old : List (Worker E)} {w : ℕ} {a : Worker E} (here : old[w]? = some a)
    (b : Worker E) : Placed old (old.set w b) w b where
  here := by
    rw [List.getElem?_set_self (List.getElem?_eq_some_iff.mp here).1]
  elsewhere v differ := List.getElem?_set_ne (Ne.symm differ)

theorem placed_append (old : List (Worker E)) (b : Worker E) :
    Placed old (old ++ [b]) old.length b where
  here := List.getElem?_concat_length
  elsewhere v differ := by
    rw [List.getElem?_append]
    split
    · rfl
    · rw [List.getElem?_eq_none (by simp; omega), List.getElem?_eq_none (by omega)]

/-- A worker that has nothing left to hand over takes the next index. -/
theorem Inv.place_taken (inv : Inv fn items pool) {w : ℕ} {results : List (Option R)}
    {new : List (Worker E)} (length : results.length = items.length)
    (kept : ∀ j, (∀ a, pool.workers[w]? = some a → a.index ≠ some j) →
      results[j]? = pool.results[j]?)
    (handed : ∀ a i, pool.workers[w]? = some a → a.index = some i →
      ∀ item, items[i]? = some item →
        ∃ value, fn item i = .ok value ∧ results[i]? = some (some value))
    (sound : ∀ error, pool.workers[w]? ≠ some (.failed error))
    (place : Placed pool.workers new w (take items.length { pool with results := results }).1) :
    Inv fn items { (take items.length { pool with results := results }).2 with workers := new
      } := by
  obtain ⟨here, elsewhere⟩ := place
  have old : ∀ (v : ℕ) (a : Worker E), v ≠ w → new[v]? = some a → pool.workers[v]? = some a :=
    fun v a differ at_ => (elsewhere v differ).symm.trans at_
  have kept_failed : ∀ (v : ℕ) (error : E), pool.workers[v]? = some (.failed error) →
      new[v]? = some (.failed error) := by
    intro v error at_
    have differ : v ≠ w := fun same => sound error (same ▸ at_)
    exact (elsewhere v differ).trans at_
  have done : ∀ i < pool.nextIndex, (∀ (v : ℕ) (a : Worker E), new[v]? = some a →
      a.index ≠ some i) → ∀ item, items[i]? = some item →
        (∀ value, fn item i = .ok value → results[i]? = some (some value)) ∧
          ∀ error, fn item i = .error error → ∃ v : ℕ, new[v]? = some (.failed error) := by
    intro i below none_ item at_
    by_cases own : ∃ a, pool.workers[w]? = some a ∧ a.index = some i
    · obtain ⟨a, held, index⟩ := own
      obtain ⟨value, went, stored⟩ := handed a i held index item at_
      refine ⟨fun value' went' => ?_, fun error went' => ?_⟩
      · cases went.symm.trans went'
        exact stored
      · cases went.symm.trans went'
    · have free : ∀ (v : ℕ) (a : Worker E), pool.workers[v]? = some a → a.index ≠ some i := by
        intro v a held index
        by_cases same : v = w
        · exact own ⟨a, same ▸ held, index⟩
        · exact none_ v a ((elsewhere v same).trans held) index
      obtain ⟨stored, failed⟩ := inv.done i below free item at_
      refine ⟨fun value went => ?_, fun error went => ?_⟩
      · rw [kept i fun a held => free w a held]
        exact stored value went
      · obtain ⟨v, held⟩ := failed error went
        exact ⟨v, kept_failed v error held⟩
  have returned : ∀ v : ℕ, v ≠ w → new[v]? = some .returned → items.length ≤ pool.nextIndex :=
    fun v differ at_ => inv.returned v (old v _ differ at_)
  unfold take at here ⊢
  dsimp only at here ⊢
  split at here
  · next none_ =>
    rw [if_pos none_]
    have same : min (pool.nextIndex + 1) items.length = min pool.nextIndex items.length := by omega
    refine ⟨?_, length, ?_, ?_, ?_, ?_, ?_⟩
    · rw [inv.calls]
      dsimp only
      rw [same]
    · intro v a i at_ index
      dsimp only
      rw [same]
      by_cases own : v = w
      · rw [own] at at_
        cases here.symm.trans at_
        cases index
      · exact inv.called v a i (old v a own at_) index
    · intro v u a b i at_ at' index index'
      by_cases own : v = w
      · rw [own] at at_
        cases here.symm.trans at_
        cases index
      · by_cases own' : u = w
        · rw [own'] at at'
          cases here.symm.trans at'
          cases index'
        · exact inv.unique v u a b i (old v a own at_) (old u b own' at') index index'
    · intro i below free item at_
      have inside := (List.getElem?_eq_some_iff.mp at_).1
      exact done i (by omega) free item at_
    · intro v _
      dsimp only
      omega
    · intro v error at_
      have differ : v ≠ w := by
        intro own
        rw [own] at at_
        cases here.symm.trans at_
      exact inv.failed v error (old v _ differ at_)
  · next some_ =>
    rw [if_neg some_]
    have more : min (pool.nextIndex + 1) items.length = min pool.nextIndex items.length + 1 := by
      omega
    have fresh : ∀ (v : ℕ) (a : Worker E), v ≠ w → new[v]? = some a →
        a.index ≠ some pool.nextIndex := by
      intro v a differ at_ index
      have below := inv.called v a _ (old v a differ at_) index
      omega
    refine ⟨?_, length, ?_, ?_, ?_, ?_, ?_⟩
    · dsimp only
      rw [inv.calls, more, List.range_succ]
      congr 2
      omega
    · intro v a i at_ index
      dsimp only
      by_cases own : v = w
      · rw [own] at at_
        cases here.symm.trans at_
        cases index
        omega
      · have below := inv.called v a i (old v a own at_) index
        omega
    · intro v u a b i at_ at' index index'
      by_cases own : v = w
      · rw [own] at at_
        cases here.symm.trans at_
        cases index
        by_contra differ
        exact fresh u b (by omega) at' index'
      · by_cases own' : u = w
        · rw [own'] at at'
          cases here.symm.trans at'
          cases index'
          exact absurd index (fresh v a own at_)
        · exact inv.unique v u a b i (old v a own at_) (old u b own' at') index index'
    · intro i below free item at_
      have differ : i ≠ pool.nextIndex := by
        rintro rfl
        exact free w _ here rfl
      exact done i (by simp only at below; omega) free item at_
    · intro v at_
      have differ : v ≠ w := by
        intro own
        rw [own] at at_
        cases here.symm.trans at_
      have := returned v differ at_
      omega
    · intro v error at_
      have differ : v ≠ w := by
        intro own
        rw [own] at at_
        cases here.symm.trans at_
      obtain ⟨i, mem, found⟩ := inv.failed v error (old v _ differ at_)
      exact ⟨i, List.mem_append_left _ mem, found⟩

@[simp] theorem take_workers (n : ℕ) (pool : Pool R E) :
    (take n pool).2.workers = pool.workers := by
  unfold take
  dsimp only
  split <;> rfl

@[simp] theorem take_result (n : ℕ) (pool : Pool R E) : (take n pool).2.result = pool.result := by
  unfold take
  dsimp only
  split <;> rfl

theorem take_not_failed (n : ℕ) (pool : Pool R E) (error : E) :
    (take n pool).1 ≠ .failed error := by
  unfold take
  dsimp only
  split <;> nofun

theorem inv_settleAll (inv : Inv fn items pool) : Inv fn items (settleAll pool) := by
  unfold settleAll
  split
  · exact ⟨inv.calls, inv.length, inv.called, inv.unique, inv.done, inv.returned, inv.failed⟩
  · exact inv

theorem workers_settleAll : (settleAll pool).workers = pool.workers := by
  unfold settleAll
  split <;> rfl

theorem settled_settleAll
    (pending : pool.result = none → ∀ (w : ℕ) (error : E), pool.workers[w]? ≠ some (.failed error))
    (unresolved : ∀ out, pool.result ≠ some (.ok out))
    (rejected : ∀ error, pool.result = some (.error error) →
      ∃ w : ℕ, pool.workers[w]? = some (.failed error)) : Settled (settleAll pool) := by
  unfold settleAll
  split
  · next all =>
    cases here : pool.result with
    | none => exact ⟨nofun, fun out same => by cases same; exact ⟨all, rfl⟩, nofun⟩
    | some result =>
      cases result with
      | ok out => exact absurd here (unresolved out)
      | error error =>
        exact ⟨nofun, nofun, fun error' same => by cases same; exact rejected error here⟩
  · next some_ =>
    exact ⟨fun none_ => ⟨by simpa using some_, pending none_⟩,
      fun out same => absurd same (unresolved out), rejected⟩

/-- What holds of the pool all along a run. -/
structure Sound (fn : T → ℕ → Except E R) (items : List T) (limit : JsNumber ℚ)
    (pool : Pool R E) : Prop where
  inv : Inv fn items pool
  settled : Settled pool
  count : pool.workers.length = if items.length = 0 then 0 else workerCount limit items.length

theorem Inv.launch (inv : Inv fn items pool)
    (sound : ∀ (w : ℕ) (error : E), pool.workers[w]? ≠ some (.failed error)) (count : ℕ) :
    Inv fn items (launch items.length count pool) ∧
      (MapWithConcurrency.launch items.length count pool).workers.length =
        pool.workers.length + count ∧
      (MapWithConcurrency.launch items.length count pool).result = pool.result ∧
      ∀ (w : ℕ) (error : E),
        (MapWithConcurrency.launch items.length count pool).workers[w]? ≠
          some (.failed error) := by
  induction count generalizing pool with
  | zero => exact ⟨inv, rfl, rfl, sound⟩
  | succ count ih =>
    have outside : pool.workers[pool.workers.length]? = none := List.getElem?_eq_none le_rfl
    have next : Inv fn items { (take items.length pool).2 with
        workers := pool.workers ++ [(take items.length pool).1] } := by
      refine @Inv.place_taken _ _ _ _ _ pool inv pool.workers.length pool.results _ inv.length
        (fun _ _ => rfl) ?_ ?_ (placed_append _ _)
      · intro a i held
        cases outside.symm.trans held
      · intro error held
        cases outside.symm.trans held
    have sound' : ∀ (w : ℕ) (error : E),
        (pool.workers ++ [(take items.length pool).1])[w]? ≠ some (.failed error) := by
      intro w error held
      by_cases own : w = pool.workers.length
      · rw [own, List.getElem?_concat_length] at held
        exact take_not_failed _ _ error (Option.some.inj held)
      · rw [(placed_append pool.workers _).elsewhere w own] at held
        exact sound w error held
    obtain ⟨inv', length, result, sound''⟩ := ih next sound'
    simp only [MapWithConcurrency.launch, take_workers]
    refine ⟨inv', ?_, ?_, sound''⟩
    · rw [length, List.length_append, List.length_singleton]
      omega
    · rw [result, take_result]

theorem sound_start (fn : T → ℕ → Except E R) (items : List T) (limit : JsNumber ℚ) :
    Sound fn items limit (start limit items) := by
  unfold start
  split
  · next none_ =>
    have empty := List.length_eq_zero_iff.mp none_
    subst empty
    refine ⟨⟨rfl, rfl, ?_, ?_, ?_, ?_, ?_⟩, ⟨nofun, ?_, nofun⟩, rfl⟩
    · intro w a i held
      cases held
    · intro w v a b i held
      cases held
    · intro i below
      cases below
    · intro w held
      cases held
    · intro w error held
      cases held
    · intro out same
      cases same
      exact ⟨rfl, rfl⟩
  · next some_ =>
    have first : Inv fn items ⟨0, List.replicate items.length none, [], none, []⟩ := by
      refine ⟨?_, List.length_replicate, ?_, ?_, ?_, ?_, ?_⟩
      · rw [Nat.zero_min]
        rfl
      · intro w a i held
        cases held
      · intro w v a b i held
        cases held
      · intro i below
        cases below
      · intro w held
        cases held
      · intro w error held
        cases held
    obtain ⟨inv, length, result, sound⟩ := first.launch (fun w error => by simp)
      (workerCount limit items.length)
    refine ⟨inv_settleAll inv, settled_settleAll (fun _ => sound) ?_ ?_, ?_⟩
    · intro out same
      cases result.symm.trans same
    · intro error same
      cases result.symm.trans same
    · rw [workers_settleAll, length, if_neg some_, List.length_nil, Nat.zero_add]

end Invariant

section Steps
variable {T R E : Type u} {fn : T → ℕ → Except E R} {items : List T} {limit : JsNumber ℚ}
  {pool : Pool R E}

theorem sound_complete (sound : Sound fn items limit pool) {w i : ℕ}
    (held : pool.workers[w]? = some (.awaiting i)) :
    Sound fn items limit { pool with workers := pool.workers.set w (.completed i) } := by
  obtain ⟨inv, settled, count⟩ := sound
  obtain ⟨here, elsewhere⟩ := placed_set held (.completed i)
  have old : ∀ (v : ℕ) (a : Worker E), (pool.workers.set w (.completed i))[v]? = some a →
      ∃ b, pool.workers[v]? = some b ∧ b.index = a.index ∧ (a = b ∨ b = .awaiting i) := by
    intro v a at_
    by_cases own : v = w
    · subst own
      cases here.symm.trans at_
      exact ⟨_, held, rfl, .inr rfl⟩
    · exact ⟨a, (elsewhere v own).symm.trans at_, rfl, .inl rfl⟩
  have kept : ∀ (v : ℕ) (a : Worker E), pool.workers[v]? = some a →
      ∃ b, (pool.workers.set w (.completed i))[v]? = some b ∧ b.index = a.index ∧
        (a = b ∨ a = .awaiting i) := by
    intro v a at_
    by_cases own : v = w
    · subst own
      cases held.symm.trans at_
      exact ⟨_, here, rfl, .inr rfl⟩
    · exact ⟨a, (elsewhere v own).trans at_, rfl, .inl rfl⟩
  have failed : ∀ (v : ℕ) (error : E),
      (pool.workers.set w (.completed i))[v]? = some (.failed error) ↔
        pool.workers[v]? = some (.failed error) := by
    intro v error
    constructor
    · intro at_
      obtain ⟨b, before, _, same | same⟩ := old v _ at_
      · exact same ▸ before
      · rw [same] at before
        by_cases own : v = w
        · subst own
          cases here.symm.trans at_
        · cases before.symm.trans ((elsewhere v own).symm.trans at_)
    · intro at_
      obtain ⟨b, after, _, same | same⟩ := kept v _ at_
      · exact same ▸ after
      · cases same
  refine ⟨⟨inv.calls, inv.length, ?_, ?_, ?_, ?_, ?_⟩, ⟨?_, ?_, ?_⟩, ?_⟩
  · intro v a j at_ index
    obtain ⟨b, before, same, _⟩ := old v a at_
    exact inv.called v b j before (same.trans index)
  · intro v u a b j at_ at' index index'
    obtain ⟨a', before, same, _⟩ := old v a at_
    obtain ⟨b', before', same', _⟩ := old u b at'
    exact inv.unique v u a' b' j before before' (same.trans index) (same'.trans index')
  · intro j below free item at_
    have free' : ∀ (v : ℕ) (a : Worker E), pool.workers[v]? = some a → a.index ≠ some j := by
      intro v a before index
      obtain ⟨b, after, same, _⟩ := kept v a before
      exact free v b after (same.trans index)
    obtain ⟨stored, lost⟩ := inv.done j below free' item at_
    refine ⟨stored, fun error went => ?_⟩
    obtain ⟨v, before⟩ := lost error went
    exact ⟨v, (failed v error).mpr before⟩
  · intro v at_
    obtain ⟨b, before, _, same | same⟩ := old v _ at_
    · exact inv.returned v (same ▸ before)
    · rw [same] at before
      have own : v = w := inv.unique v w _ _ i before held rfl rfl
      subst own
      cases here.symm.trans at_
  · intro v error at_
    exact inv.failed v error ((failed v error).mp at_)
  · intro none_
    obtain ⟨_, sound⟩ := settled.pending none_
    refine ⟨List.all_eq_false.mpr ⟨_, List.mem_of_getElem? here, by simp [Worker.isReturned]⟩, ?_⟩
    intro v error at_
    exact sound v error ((failed v error).mp at_)
  · intro out same
    have all := (settled.resolved out same).1
    have own := List.all_eq_true.mp all _ (List.mem_of_getElem? held)
    cases own
  · intro error same
    obtain ⟨v, at_⟩ := settled.rejected error same
    exact ⟨v, (failed v error).mpr at_⟩
  · rw [List.length_set]
    exact count

/-- A worker whose call has succeeded stores the result and takes the next index. -/
theorem sound_goOn_ok (sound : Sound fn items limit pool) {w i : ℕ} {item : T} {value : R}
    (held : pool.workers[w]? = some (.completed i)) (at_ : items[i]? = some item)
    (went : fn item i = .ok value) :
    Sound fn items limit (goOn items.length pool w i (.ok value)) := by
  obtain ⟨inv, settled, count⟩ := sound
  have place := placed_set held
    (take items.length { pool with results := pool.results.set i (some value) }).1
  have inside : i < pool.results.length := by
    rw [inv.length]
    exact (List.getElem?_eq_some_iff.mp at_).1
  have own : pool.workers.all Worker.isReturned = false :=
    List.all_eq_false.mpr ⟨_, List.mem_of_getElem? held, by simp [Worker.isReturned]⟩
  have next := @Inv.place_taken _ _ _ _ _ pool inv w (pool.results.set i (some value)) _
    (by rw [List.length_set, inv.length])
    (by
      intro j free
      have differ : i ≠ j := fun same => free _ held (congrArg some same)
      exact List.getElem?_set_ne differ)
    (by
      intro a j here index item' at'
      cases held.symm.trans here
      cases index
      cases at_.symm.trans at'
      exact ⟨value, went, List.getElem?_set_self inside⟩)
    (by
      intro error here
      cases held.symm.trans here)
    place
  have failed : ∀ (v : ℕ) (error : E),
      (pool.workers.set w (take items.length
        { pool with results := pool.results.set i (some value) }).1)[v]? =
          some (.failed error) ↔ pool.workers[v]? = some (.failed error) := by
    intro v error
    by_cases same : v = w
    · subst same
      rw [place.here, held, Option.some.injEq]
      exact ⟨fun lost => absurd lost (take_not_failed _ _ error), nofun⟩
    · rw [place.elsewhere v same]
  simp only [goOn, take_workers]
  refine ⟨inv_settleAll next, settled_settleAll ?_ ?_ ?_, ?_⟩
  · intro none_ v error lost
    rw [take_result] at none_
    exact (settled.pending none_).2 v error ((failed v error).mp lost)
  · intro out same
    rw [take_result] at same
    rw [(settled.resolved out same).1] at own
    cases own
  · intro error same
    rw [take_result] at same
    obtain ⟨v, lost⟩ := settled.rejected error same
    exact ⟨v, (failed v error).mpr lost⟩
  · rw [workers_settleAll, List.length_set]
    exact count

/-- A worker whose call has failed fails, and the promise is rejected. -/
theorem sound_goOn_error (sound : Sound fn items limit pool) {w i : ℕ} {item : T} {error : E}
    (held : pool.workers[w]? = some (.completed i)) (at_ : items[i]? = some item)
    (went : fn item i = .error error) :
    Sound fn items limit (goOn items.length pool w i (.error error)) := by
  obtain ⟨inv, settled, count⟩ := sound
  obtain ⟨here, elsewhere⟩ := placed_set held (.failed error)
  have old : ∀ (v : ℕ) (a : Worker E), a ≠ .failed error →
      (pool.workers.set w (.failed error))[v]? = some a → pool.workers[v]? = some a := by
    intro v a differ at'
    by_cases own : v = w
    · subst own
      cases here.symm.trans at'
      exact absurd rfl differ
    · exact (elsewhere v own).symm.trans at'
  have kept : ∀ (v : ℕ) (a : Worker E), a.index ≠ some i → pool.workers[v]? = some a →
      (pool.workers.set w (.failed error))[v]? = some a := by
    intro v a differ at'
    by_cases own : v = w
    · subst own
      cases held.symm.trans at'
      exact absurd rfl differ
    · exact (elsewhere v own).trans at'
  have called := inv.called w _ i held rfl
  refine ⟨⟨inv.calls, by exact inv.length, ?_, ?_, ?_, ?_, ?_⟩, ⟨?_, ?_, ?_⟩, ?_⟩
  · intro v a j at' index
    exact inv.called v a j (old v a (by rintro rfl; cases index) at') index
  · intro v u a b j at' at'' index index'
    exact inv.unique v u a b j (old v a (by rintro rfl; cases index) at')
      (old u b (by rintro rfl; cases index') at'') index index'
  · intro j below free item' at'
    by_cases same : j = i
    · subst same
      cases at_.symm.trans at'
      refine ⟨fun value went' => ?_, fun error' went' => ?_⟩
      · cases went.symm.trans went'
      · cases went.symm.trans went'
        exact ⟨w, here⟩
    · have free' : ∀ (v : ℕ) (a : Worker E), pool.workers[v]? = some a → a.index ≠ some j := by
        intro v a before index
        have differ : a.index ≠ some i := by
          rw [index]
          exact fun both => same (Option.some.inj both)
        exact free v a (kept v a differ before) index
      obtain ⟨stored, lost⟩ := inv.done j below free' item' at'
      refine ⟨stored, fun error' went' => ?_⟩
      obtain ⟨v, before⟩ := lost error' went'
      exact ⟨v, kept v _ nofun before⟩
  · intro v at'
    exact inv.returned v (old v _ nofun at')
  · intro v error' at'
    by_cases same : error' = error
    · subst same
      refine ⟨i, ?_, item, at_, went⟩
      change i ∈ pool.calls
      rw [inv.calls]
      exact List.mem_range.mpr called
    · exact inv.failed v error' (old v _ (fun both => same (Worker.failed.inj both)) at')
  · intro none_
    cases before : pool.result with
    | none => simp [goOn, before] at none_
    | some result => simp [goOn, before] at none_
  · intro out same
    cases before : pool.result with
    | none => simp [goOn, before] at same
    | some result =>
      simp only [goOn, before, Option.some_or] at same
      have all := (settled.resolved out (before.trans same)).1
      cases List.all_eq_true.mp all _ (List.mem_of_getElem? held)
  · intro error' same
    cases before : pool.result with
    | none =>
      simp only [goOn, before, Option.none_or] at same
      cases same
      exact ⟨w, here⟩
    | some result =>
      simp only [goOn, before, Option.some_or] at same
      obtain ⟨v, lost⟩ := settled.rejected error' (before.trans same)
      exact ⟨v, kept v _ nofun lost⟩
  · simp only [goOn, List.length_set]
    exact count

theorem sound_step (sound : Sound fn items limit pool) {e : Event} {pool' : Pool R E}
    (went : step fn items pool e = some pool') : Sound fn items limit pool' := by
  cases e with
  | complete w =>
    simp only [step] at went
    split at went
    · next i held =>
      cases went
      exact sound_complete sound held
    · cases went
  | resume w =>
    simp only [step] at went
    split at went
    · next i held =>
      obtain ⟨item, at_, rfl⟩ := Option.map_eq_some_iff.mp went
      cases outcome : fn item i with
      | ok value => exact sound_goOn_ok sound held at_ outcome
      | error error => exact sound_goOn_error sound held at_ outcome
    · cases went

end Steps

section Spending
variable {T R E : Type u} {fn : T → ℕ → Except E R} {items : List T} {limit : JsNumber ℚ}
  {pool : Pool R E}

def Worker.weight : Worker E → ℕ
  | .awaiting _ => 2
  | .completed _ => 1
  | _ => 0

/-- The events that the pool can still take. -/
def cost (items : ℕ) (pool : Pool R E) : ℕ :=
  2 * (items - pool.nextIndex) + (pool.workers.map Worker.weight).sum

theorem weight_take (n : ℕ) (pool : Pool R E) :
    2 * (n - (take n pool).2.nextIndex) + (take n pool).1.weight ≤ 2 * (n - pool.nextIndex) := by
  unfold take
  dsimp only
  split
  · simp only [Worker.weight]
    omega
  · simp only [Worker.weight]
    omega

theorem cost_settleAll (n : ℕ) (pool : Pool R E) : cost n (settleAll pool) = cost n pool := by
  unfold settleAll
  split <;> rfl

theorem cost_launch (n count : ℕ) (pool : Pool R E) :
    cost n (launch n count pool) ≤ cost n pool := by
  induction count generalizing pool with
  | zero => exact le_rfl
  | succ count ih =>
    refine (ih _).trans ?_
    have own := weight_take n pool
    simp only [cost, take_workers, List.map_append, List.map_singleton, List.sum_append,
      List.sum_singleton]
    omega

theorem cost_start (limit : JsNumber ℚ) (items : List T) :
    cost items.length (start limit items : Pool R E) ≤ 2 * items.length := by
  unfold start
  split
  · next none_ =>
    simp only [cost, none_, List.map_nil, List.sum_nil]
    omega
  · rw [cost_settleAll]
    refine (cost_launch _ _ _).trans ?_
    simp only [cost, List.map_nil, List.sum_nil]
    omega

theorem cost_step {e : Event} {pool' : Pool R E} (went : step fn items pool e = some pool') :
    cost items.length pool' < cost items.length pool := by
  cases e with
  | complete w =>
    simp only [step] at went
    split at went
    · next i held =>
      cases went
      have total := sum_map_set Worker.weight held (.completed i)
      simp only [cost]
      simp only [Worker.weight] at total ⊢
      omega
    · cases went
  | resume w =>
    simp only [step] at went
    split at went
    · next i held =>
      obtain ⟨item, _, rfl⟩ := Option.map_eq_some_iff.mp went
      cases fn item i with
      | ok value =>
        have own := weight_take items.length
            { pool with results := pool.results.set i (some value) }
        have total := sum_map_set Worker.weight held
          (take items.length { pool with results := pool.results.set i (some value) }).1
        simp only [goOn, take_workers]
        rw [cost_settleAll]
        have before : Worker.weight (.completed i : Worker E) = 1 := rfl
        simp only [cost]
        dsimp only at own
        omega
      | error error =>
        have total := sum_map_set Worker.weight held (.failed error)
        have before : Worker.weight (.completed i : Worker E) = 1 := rfl
        have after : Worker.weight (.failed error : Worker E) = 0 := rfl
        simp only [cost, goOn]
        omega
    · cases went

end Spending

section Correctness
variable {T R E : Type u} {fn : T → ℕ → Except E R} {items : List T} {limit : JsNumber ℚ}
  {pool : Pool R E}

def Worker.isAwaiting : Worker E → Bool
  | .awaiting _ => true
  | _ => false

/-- The calls of `fn` that have not completed. -/
def outstanding (pool : Pool R E) : ℕ := pool.workers.countP Worker.isAwaiting

/-- `count` is at most `max(1, floor(limit))`. -/
def AtMost (limit : JsNumber ℚ) (count : ℕ) : Prop :=
  match limit with
  | .nan => False
  | .inf true => count ≤ 1
  | .inf false => True
  | .fin q => (count : ℤ) ≤ max 1 ⌊q⌋

/-- No call can complete and no worker can go on. -/
def Finished (fn : T → ℕ → Except E R) (items : List T) (pool : Pool R E) : Prop :=
  ∀ e, step fn items pool e = none

structure Correct (fn : T → ℕ → Except E R) (items : List T) (limit : JsNumber ℚ)
    (pool : Pool R E) : Prop where
  once : pool.calls.Nodup ∧ ∀ i ∈ pool.calls, i < items.length
  bounded : AtMost limit (outstanding pool)
  resolved : ∀ out, pool.result = some (.ok out) → pool.calls = List.range items.length ∧
    out.length = items.length ∧ ∀ i item, items[i]? = some item →
      ∃ value, fn item i = .ok value ∧ out[i]? = some (some value)
  rejected : ∀ error, pool.result = some (.error error) →
    ∃ i ∈ pool.calls, ∃ item, items[i]? = some item ∧ fn item i = .error error
  succeeds : Finished fn items pool →
    (∀ i item, items[i]? = some item → ∃ value, fn item i = .ok value) →
      ∃ out, pool.result = some (.ok out)
  fails : Finished fn items pool →
    (∃ i item error, items[i]? = some item ∧ fn item i = .error error) →
      ∃ error, pool.result = some (.error error)

theorem workerCount_pos (number : limit ≠ .nan) (n : ℕ) : 0 < workerCount limit n := by
  cases limit with
  | nan => exact absurd rfl number
  | inf negative =>
    cases negative
    · exact Nat.lt_of_lt_of_le Nat.one_pos (le_max_left _ _)
    · exact Nat.one_pos
  | fin q =>
    have one : (1 : ℤ) ≤ max 1 (min ⌊q⌋ (n : ℤ)) := le_max_left _ _
    simp only [workerCount]
    omega

theorem atMost_workerCount (number : limit ≠ .nan) {n count : ℕ}
    (le : count ≤ workerCount limit n) : AtMost limit count := by
  cases limit with
  | nan => exact absurd rfl number
  | inf negative =>
    cases negative
    · trivial
    · exact le
  | fin q =>
    have bound : max 1 (min ⌊q⌋ (n : ℤ)) ≤ max 1 ⌊q⌋ := max_le_max_left 1 (min_le_left _ _)
    simp only [workerCount] at le
    simp only [AtMost]
    omega

theorem Sound.resolved (sound : Sound fn items limit pool) (number : limit ≠ .nan)
    {out : List (Option R)} (same : pool.result = some (.ok out)) :
    pool.calls = List.range items.length ∧ out.length = items.length ∧
      ∀ i item, items[i]? = some item →
        ∃ value, fn item i = .ok value ∧ out[i]? = some (some value) := by
  obtain ⟨inv, settled, count⟩ := sound
  obtain ⟨all, rfl⟩ := settled.resolved out same
  have returned : ∀ (w : ℕ) (a : Worker E), pool.workers[w]? = some a → a = .returned := by
    intro w a held
    have own := List.all_eq_true.mp all a (List.mem_of_getElem? held)
    cases a with
    | returned => rfl
    | awaiting i => cases own
    | completed i => cases own
    | failed error => cases own
  have through : items.length ≤ pool.nextIndex := by
    by_cases none_ : items.length = 0
    · omega
    · rw [if_neg none_] at count
      have some_ := workerCount_pos number items.length
      have first := List.getElem?_eq_getElem (show 0 < pool.workers.length by omega)
      exact inv.returned 0 (first.trans (congrArg some (returned 0 _ first)))
  refine ⟨?_, inv.length, fun i item at_ => ?_⟩
  · rw [inv.calls, min_eq_right through]
  · have inside := (List.getElem?_eq_some_iff.mp at_).1
    have free : ∀ (w : ℕ) (a : Worker E), pool.workers[w]? = some a → a.index ≠ some i := by
      intro w a held
      rw [returned w a held]
      nofun
    obtain ⟨stored, failed⟩ := inv.done i (by omega) free item at_
    cases outcome : fn item i with
    | ok value => exact ⟨value, rfl, stored value outcome⟩
    | error error =>
      obtain ⟨w, held⟩ := failed error outcome
      cases returned w _ held

theorem Sound.rejected (sound : Sound fn items limit pool) {error : E}
    (same : pool.result = some (.error error)) :
    ∃ i ∈ pool.calls, ∃ item, items[i]? = some item ∧ fn item i = .error error := by
  obtain ⟨w, held⟩ := sound.settled.rejected error same
  exact sound.inv.failed w error held

/-- A pool in which nothing can happen has settled its promise. -/
theorem Sound.settles (sound : Sound fn items limit pool) (finished : Finished fn items pool) :
    pool.result ≠ none := by
  intro none_
  obtain ⟨inv, settled, _⟩ := sound
  obtain ⟨some_, unfailed⟩ := settled.pending none_
  obtain ⟨a, mem, working⟩ := List.all_eq_false.mp some_
  obtain ⟨w, held⟩ := List.mem_iff_getElem?.mp mem
  cases a with
  | returned => exact working rfl
  | failed error => exact unfailed w error held
  | awaiting i =>
    have stuck := finished (.complete w)
    simp only [step, held] at stuck
    cases stuck
  | completed i =>
    have stuck := finished (.resume w)
    have inside := inv.called w _ i held rfl
    have item := List.getElem?_eq_getElem (show i < items.length by omega)
    simp only [step, held, item, Option.map_some] at stuck
    cases stuck

theorem Sound.correct (sound : Sound fn items limit pool) (number : limit ≠ .nan) :
    Correct fn items limit pool where
  once := by
    rw [sound.inv.calls]
    refine ⟨List.nodup_range, fun i mem => ?_⟩
    have below := List.mem_range.mp mem
    omega
  bounded := by
    have most : outstanding pool ≤ pool.workers.length := List.countP_le_length
    have count := sound.count
    refine atMost_workerCount number (n := items.length) ?_
    split at count <;> omega
  resolved out same := sound.resolved number same
  rejected error same := sound.rejected same
  succeeds finished all := by
    cases here : pool.result with
    | none => exact absurd here (sound.settles finished)
    | some result =>
      cases result with
      | ok out => exact ⟨out, rfl⟩
      | error error =>
        obtain ⟨i, _, item, at_, went⟩ := sound.rejected here
        obtain ⟨value, went'⟩ := all i item at_
        cases went.symm.trans went'
  fails finished some_ := by
    obtain ⟨i, item, error, at_, went⟩ := some_
    cases here : pool.result with
    | none => exact absurd here (sound.settles finished)
    | some result =>
      cases result with
      | ok out =>
        obtain ⟨value, went', _⟩ := (sound.resolved number here).2.2 i item at_
        cases went.symm.trans went'
      | error error' => exact ⟨error', rfl⟩

/-- In every order of completions each item is passed to `fn` once, no more calls are
outstanding than the limit allows, and the promise settles to the results in the order of the
items, or to a failure if a call fails. -/
theorem mapWithConcurrency_correct (fn : T → ℕ → Except E R) (items : List T)
    (limit : JsNumber ℚ) (number : limit ≠ .nan) (es : List Event) :
    (∀ pool ∈ visited (step fn items) (start limit items) es, Correct fn items limit pool) ∧
      (taken (step fn items) (start limit items) es).length ≤ 2 * items.length := by
  have init : Sound fn items limit (start limit items) := sound_start fn items limit
  refine ⟨fun pool mem => ?_, ?_⟩
  · have sound := @visited_of_taken _ _ (step fn items) (Sound fn items limit) (fun _ _ => True)
      (fun pool e pool' sound _ went => sound_step sound went) _ init es (fun _ _ => trivial)
    exact (sound pool mem).correct number
  · refine le_trans ?_ (cost_start (R := R) (E := E) limit items)
    exact @length_taken_le _ _ (step fn items) (Sound fn items limit)
      (fun pool e pool' sound went => sound_step sound went) (cost items.length)
      (fun pool e pool' _ went => cost_step went) _ init es

/-- Three items, two at a time, where the second call fails. -/
theorem mapWithConcurrency_second_fails :
    let fn : ℕ → ℕ → Except String ℕ := fun item _ => if item = 2 then .error "two" else .ok item
    let es := [Event.complete 1, .complete 0, .resume 1, .resume 0, .complete 0, .resume 0]
    (∀ pool ∈ visited (step fn [1, 2, 3]) (start (.fin (5 / 2)) [1, 2, 3]) es,
      Correct fn [1, 2, 3] (.fin (5 / 2)) pool) ∧
      (taken (step fn [1, 2, 3]) (start (.fin (5 / 2)) [1, 2, 3]) es).length ≤ 2 * 3 := by
  intro fn es
  exact mapWithConcurrency_correct fn [1, 2, 3] (.fin (5 / 2)) nofun es

end Correctness

end MapWithConcurrency
