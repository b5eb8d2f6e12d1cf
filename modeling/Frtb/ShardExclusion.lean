import Frtb.Library.EventRuns
import Frtb.ShardRuntime

/-!
# Mutual exclusion of the consumers

At most one consumer runs, it is the one the runtime hands out, with the assignment it
reports, and the step of halt-and-flush finds none. The events that keep this are told
from the state they find.
-/

namespace ShardExclusion

open EventRuns ShardRuntime

variable {τ ω : Type}

/-- What happens to the runtime: a call starts, a suspended body goes on, or the closure
of the watcher points the next spawn to another target. -/
inductive Event (τ ω : Type)
  | rebuild (totalShards : Option ℤ) (assignmentSpec : Option String) (owner : ω)
  | haltAndFlush (owner : ω)
  | prepare (owner : ω)
  | reset
  | settle (i : ℕ) (outcome : Outcome)
  | retarget (target : τ)

def step (r : Runtime τ ω) : Event τ ω → Option (Runtime τ ω)
  | .rebuild totalShards assignmentSpec owner =>
    some ((r.rebuild totalShards assignmentSpec owner).toOption.getD r)
  | .haltAndFlush owner => some ((r.haltAndFlush owner).toOption.getD r)
  | .prepare owner => some (r.prepare owner)
  | .reset => some r.reset
  | .settle i outcome => (r.settle i outcome).map Prod.fst
  | .retarget target => some { r with activeTarget := some target }

/-- The consumer `m` has been started and not stopped. -/
def Runs (r : Runtime τ ω) (m : ℕ) : Prop :=
  ∃ c : MultiConsumer τ, r.consumers[m]? = some c ∧ c.running = true

def Idle (r : Runtime τ ω) : Prop := ∀ m, ¬ Runs r m

/-- The same streams are read. -/
def SameShards (a b : ShardConfig) : Prop :=
  a.totalShards = b.totalShards ∧ a.assignment = b.assignment

structure Exclusive (r : Runtime τ ω) : Prop where
  unique : ∀ a b, Runs r a → Runs r b → a = b
  handed : ∀ m, Runs r m → r.multi = some m
  sharded : ∀ (m : ℕ) (c : MultiConsumer τ), r.consumers[m]? = some c → c.running = true →
    c.totalShards = r.config.totalShards ∧ c.assignment = r.config.assignment
  halted : ∀ task ∈ r.tasks, task.body = .between → Idle r

/-- No caller of halt-and-flush is at work between the drain and the respawn. -/
def NoneBetween (r : Runtime τ ω) : Prop := ∀ task ∈ r.tasks, task.body ≠ .between

/-- When a body may go on: its drain stopped the only consumer that ran, and its spawn
finds none running and the assignment it was called with. -/
def KeepsOnSettle (r : Runtime τ ω) : Body τ → Outcome → Prop
  | .rebuildDrain m next, .ok => (∀ a, Runs r a → a = m) ∨ SameShards next r.config
  | .rebuildDrain _ next, .failed => Idle r ∨ SameShards next r.config
  | .haltDrain m, .ok | .prepareDrain m, .ok => ∀ a, Runs r a → a = m
  | .haltDrain _, .failed => Idle r
  | .rebuildSpawn config _, .ok | .haltSpawn config _, .ok =>
    Idle r ∧ SameShards config r.config ∧ NoneBetween r
  | .rebuildDrain _ _, .timedOut | .haltDrain _, .timedOut | .rebuildSpawn _ _, .timedOut
  | .haltSpawn _ _, .timedOut => Idle r
  | .abandonedSpawn _ _, .ok => False
  | _, _ => True

/-- The events that keep exclusion; a body that goes on is judged by the others. -/
def KeepsExclusion (r : Runtime τ ω) : Event τ ω → Prop
  | .reset => Idle r
  | .settle i outcome => ∀ task, r.tasks[i]? = some task →
    KeepsOnSettle { r with tasks := r.tasks.eraseIdx i } task.body outcome
  | _ => True

variable {r : Runtime τ ω}

theorem Runs.lt {m : ℕ} (runs : Runs r m) : m < r.consumers.length := by
  obtain ⟨c, here, _⟩ := runs
  exact (List.getElem?_eq_some_iff.mp here).1

theorem runs_stopped (m a : ℕ) : Runs (r.stopped m) a ↔ Runs r a ∧ a ≠ m := by
  have after : (r.stopped m).consumers[a]? =
      (fun c => if m = a then { c with running := false } else c) <$> r.consumers[a]? :=
    List.getElem?_modify ..
  constructor
  · rintro ⟨c, here, running⟩
    rw [after] at here
    obtain ⟨b, hb, rfl⟩ := Option.map_eq_some_iff.mp here
    split at running
    · cases running
    · rename_i other
      exact ⟨⟨b, hb, running⟩, Ne.symm other⟩
  · rintro ⟨⟨b, hb, running⟩, other⟩
    refine ⟨b, ?_, running⟩
    rw [after, hb]
    exact congrArg some (if_neg other.symm)

theorem length_started (config : ShardConfig) (target : τ) :
    (r.started config target).consumers.length = r.consumers.length + 1 := by
  simp only [Runtime.started, List.length_append, List.length_singleton]

theorem runs_started (config : ShardConfig) (target : τ) (a : ℕ) :
    Runs (r.started config target) a ↔ Runs r a ∨ a = r.consumers.length := by
  constructor
  · rintro ⟨c, here, running⟩
    change (r.consumers ++ [_])[a]? = some c at here
    rw [List.getElem?_append] at here
    split at here
    · exact .inl ⟨c, here, running⟩
    · have := (List.getElem?_eq_some_iff.mp here).1
      simp only [List.length_singleton] at this
      exact .inr (by omega)
  · rintro (⟨c, here, running⟩ | rfl)
    · refine ⟨c, ?_, running⟩
      change (r.consumers ++ [_])[a]? = some c
      rw [List.getElem?_append_left (List.getElem?_eq_some_iff.mp here).1, here]
    · exact ⟨_, List.getElem?_concat_length, rfl⟩

theorem Exclusive.of_idle (idle : Idle r) : Exclusive r where
  unique a _ ha _ := absurd ha (idle a)
  handed m hm := absurd hm (idle m)
  sharded m c here running := absurd ⟨c, here, running⟩ (idle m)
  halted _ _ _ := idle

theorem Exclusive.idle_of_none (ok : Exclusive r) (none : r.multi = none) : Idle r := by
  intro m runs
  have := ok.handed m runs
  rw [none] at this
  cases this

/-- Only the consumers, the one handed out, the assignment and the bodies at `between`
matter. -/
theorem Exclusive.congr {q : Runtime τ ω} (ok : Exclusive r) (consumers : q.consumers = r.consumers)
    (multi : q.multi = r.multi) (shards : SameShards q.config r.config)
    (tasks : ∀ task ∈ q.tasks, task.body = .between → task ∈ r.tasks) : Exclusive q := by
  obtain ⟨unique, handed, sharded, halted⟩ := ok
  have runs : ∀ m, Runs q m ↔ Runs r m := fun m => by rw [Runs, Runs, consumers]
  constructor
  · intro a b ha hb
    exact unique a b ((runs a).mp ha) ((runs b).mp hb)
  · intro m hm
    rw [multi]
    exact handed m ((runs m).mp hm)
  · intro m c here running
    rw [consumers] at here
    rw [shards.1, shards.2]
    exact sharded m c here running
  · intro task mem between m hm
    exact halted task (tasks task mem between) between m ((runs m).mp hm)

theorem Exclusive.await (ok : Exclusive r) {body : Body τ} (other : body ≠ .between) (owner : ω) :
    Exclusive (r.await body owner) := by
  refine ok.congr rfl rfl ⟨rfl, rfl⟩ ?_
  intro task mem between
  rcases List.mem_append.mp mem with old | new
  · exact old
  · rw [List.mem_singleton.mp new] at between
    exact absurd between other

theorem Exclusive.stopped (ok : Exclusive r) (m : ℕ) : Exclusive (r.stopped m) := by
  obtain ⟨unique, handed, sharded, halted⟩ := ok
  constructor
  · intro a b ha hb
    exact unique a b ((runs_stopped m a).mp ha).1 ((runs_stopped m b).mp hb).1
  · intro a ha
    exact handed a ((runs_stopped m a).mp ha).1
  · intro a c here running
    obtain ⟨⟨b, hb, running'⟩, other⟩ := (runs_stopped m a).mp ⟨c, here, running⟩
    have same : c = b := by
      have after : (r.stopped m).consumers[a]? =
          (fun c => if m = a then { c with running := false } else c) <$> r.consumers[a]? :=
        List.getElem?_modify ..
      rw [here, hb] at after
      exact (Option.some.inj after).trans (if_neg other.symm)
    rw [same]
    exact sharded a b hb running'
  · intro task mem between a ha
    exact halted task mem between a ((runs_stopped m a).mp ha).1

theorem idle_stopped {m : ℕ} (only : ∀ a, Runs r a → a = m) : Idle (r.stopped m) := by
  intro a runs
  obtain ⟨old, other⟩ := (runs_stopped m a).mp runs
  exact other (only a old)

theorem Exclusive.spawnNext (ok : Exclusive r) {next : ShardConfig}
    (same : SameShards next r.config)
    (owner : ω) : Exclusive (r.spawnNext next owner) := by
  have taken : Exclusive { r with config := next } := ok.congr rfl rfl same fun _ mem _ => mem
  exact taken.await (fun h => by cases h) owner

theorem Exclusive.release (ok : Exclusive r) : Exclusive (r.release false) :=
  ok.congr rfl rfl ⟨rfl, rfl⟩ fun _ mem _ => mem

/-- A spawn that resolves while nobody runs hands out the consumer that runs from now. -/
theorem Exclusive.spawned {config : ShardConfig} (idle : Idle r)
    (same : SameShards config r.config) (none : NoneBetween r) (target : τ) :
    Exclusive ({ r.started config target with multi := some r.consumers.length }.release
      false) := by
  have only : ∀ a, Runs (r.started config target) a → a = r.consumers.length := by
    intro a runs
    rcases (runs_started config target a).mp runs with old | new
    · exact absurd old (idle a)
    · exact new
  constructor
  · intro a b ha hb
    exact (only a ha).trans (only b hb).symm
  · intro a ha
    exact congrArg some (only a ha).symm
  · intro a c here running
    obtain rfl := only a ⟨c, here, running⟩
    have own : c = ⟨config.totalShards, config.assignment, target, true⟩ :=
      Option.some.inj (here.symm.trans List.getElem?_concat_length)
    rw [own]
    exact same
  · intro task mem between
    exact absurd between (none task mem)

theorem Exclusive.resume (ok : Exclusive r) {owner : ω} {body : Body τ} {outcome : Outcome}
    {t : Runtime τ ω} {answer : Option (ω × Except RebuildError Unit)}
    (keeps : KeepsOnSettle r body outcome) (went : r.resume owner body outcome = some (t, answer)) :
    Exclusive t := by
  cases body with
  | rebuildDrain m next =>
    cases outcome with
    | ok =>
      obtain ⟨rfl, _⟩ := Prod.mk.inj (Option.some.inj went)
      rcases keeps with only | same
      · exact .of_idle (idle_stopped only)
      · exact (ok.stopped m).spawnNext same owner
    | failed =>
      obtain ⟨rfl, _⟩ := Prod.mk.inj (Option.some.inj went)
      rcases keeps with idle | same
      · exact .of_idle idle
      · exact ok.spawnNext same owner
    | timedOut =>
      obtain ⟨rfl, _⟩ := Prod.mk.inj (Option.some.inj went)
      exact .of_idle keeps
  | haltDrain m =>
    cases outcome with
    | ok =>
      obtain ⟨rfl, _⟩ := Prod.mk.inj (Option.some.inj went)
      exact .of_idle (idle_stopped keeps)
    | failed =>
      obtain ⟨rfl, _⟩ := Prod.mk.inj (Option.some.inj went)
      exact .of_idle keeps
    | timedOut =>
      obtain ⟨rfl, _⟩ := Prod.mk.inj (Option.some.inj went)
      exact .of_idle keeps
  | rebuildSpawn config target =>
    cases outcome with
    | ok =>
      obtain ⟨x, rfl, went⟩ := Option.bind_eq_some_iff.mp went
      obtain ⟨rfl, _⟩ := Prod.mk.inj (Option.some.inj went)
      exact .spawned keeps.1 keeps.2.1 keeps.2.2 x
    | failed =>
      obtain ⟨rfl, _⟩ := Prod.mk.inj (Option.some.inj went)
      exact ok.release
    | timedOut =>
      obtain ⟨rfl, _⟩ := Prod.mk.inj (Option.some.inj went)
      exact .of_idle keeps
  | haltSpawn config target =>
    cases outcome with
    | ok =>
      obtain ⟨x, rfl, went⟩ := Option.bind_eq_some_iff.mp went
      obtain ⟨rfl, _⟩ := Prod.mk.inj (Option.some.inj went)
      exact .spawned keeps.1 keeps.2.1 keeps.2.2 x
    | failed =>
      obtain ⟨rfl, _⟩ := Prod.mk.inj (Option.some.inj went)
      exact ok.release
    | timedOut =>
      obtain ⟨rfl, _⟩ := Prod.mk.inj (Option.some.inj went)
      exact .of_idle keeps
  | between =>
    cases outcome with
    | ok =>
      obtain ⟨rfl, _⟩ := Prod.mk.inj (Option.some.inj went)
      exact ok.await (fun h => by cases h) owner
    | failed =>
      obtain ⟨rfl, _⟩ := Prod.mk.inj (Option.some.inj went)
      exact ok.release
    | timedOut => cases went
  | prepareDrain m =>
    cases outcome with
    | ok =>
      obtain ⟨rfl, _⟩ := Prod.mk.inj (Option.some.inj went)
      exact .of_idle (idle_stopped keeps)
    | failed =>
      obtain ⟨rfl, _⟩ := Prod.mk.inj (Option.some.inj went)
      exact ok
    | timedOut => cases went
  | abandonedStop m =>
    cases outcome with
    | ok =>
      obtain ⟨rfl, _⟩ := Prod.mk.inj (Option.some.inj went)
      exact ok.stopped m
    | failed =>
      obtain ⟨rfl, _⟩ := Prod.mk.inj (Option.some.inj went)
      exact ok
    | timedOut => cases went
  | abandonedSpawn config target =>
    cases outcome with
    | ok => exact keeps.elim
    | failed =>
      obtain ⟨rfl, _⟩ := Prod.mk.inj (Option.some.inj went)
      exact ok
    | timedOut => cases went

theorem Exclusive.erase (ok : Exclusive r) (i : ℕ) :
    Exclusive { r with tasks := r.tasks.eraseIdx i } :=
  ok.congr rfl rfl ⟨rfl, rfl⟩ fun _ mem _ => List.mem_of_mem_eraseIdx mem

theorem Exclusive.rebuild (ok : Exclusive r) {totalShards : Option ℤ} {spec : Option String}
    {owner : ω} {t : Runtime τ ω} (went : r.rebuild totalShards spec owner = .ok t) :
    Exclusive t := by
  unfold Runtime.rebuild at went
  split at went
  · cases went
  · split at went
    · cases went
    · rename_i next _
      have held : Exclusive { r with rebuilding := true } :=
        ok.congr rfl rfl ⟨rfl, rfl⟩ fun _ mem _ => mem
      dsimp only at went
      split at went
      · obtain rfl := Except.ok.inj went
        exact held.await (fun h => by cases h) owner
      · rename_i none
        obtain rfl := Except.ok.inj went
        exact .of_idle (ok.idle_of_none none)

theorem Exclusive.haltAndFlush (ok : Exclusive r) {owner : ω} {t : Runtime τ ω}
    (went : r.haltAndFlush owner = .ok t) : Exclusive t := by
  unfold Runtime.haltAndFlush at went
  split at went
  · cases went
  · have held : Exclusive { r with rebuilding := true } :=
    ok.congr rfl rfl ⟨rfl, rfl⟩ fun _ mem _ => mem
    dsimp only at went
    split at went
    · obtain rfl := Except.ok.inj went
      exact held.await (fun h => by cases h) owner
    · rename_i none
      obtain rfl := Except.ok.inj went
      exact .of_idle (ok.idle_of_none none)

theorem Exclusive.step (ok : Exclusive r) {e : Event τ ω} {t : Runtime τ ω}
    (keeps : KeepsExclusion r e) (admitted : step r e = some t) : Exclusive t := by
  cases e with
  | rebuild totalShards spec owner =>
    obtain rfl := Option.some.inj admitted
    cases went : r.rebuild totalShards spec owner with
    | error err => exact ok
    | ok t => exact ok.rebuild went
  | haltAndFlush owner =>
    obtain rfl := Option.some.inj admitted
    cases went : r.haltAndFlush owner with
    | error err => exact ok
    | ok t => exact ok.haltAndFlush went
  | prepare owner =>
    obtain rfl := Option.some.inj admitted
    unfold Runtime.prepare
    split
    · exact ok.await (fun h => by cases h) owner
    · exact ok
  | reset =>
    obtain rfl := Option.some.inj admitted
    exact .of_idle keeps
  | settle i outcome =>
    obtain ⟨⟨u, answer⟩, went, rfl⟩ := Option.map_eq_some_iff.mp admitted
    obtain ⟨task, here, went⟩ := Option.bind_eq_some_iff.mp went
    exact (ok.erase i).resume (keeps task here) went
  | retarget target =>
    obtain rfl := Option.some.inj admitted
    exact ok.congr rfl rfl ⟨rfl, rfl⟩ fun _ mem _ => mem

/-- The consumer handed out has been spawned. -/
def Spawned (r : Runtime τ ω) : Prop := ∀ m, r.multi = some m → m < r.consumers.length

theorem Spawned.resume (ok : Spawned r) {owner : ω} {body : Body τ} {outcome : Outcome}
    {t : Runtime τ ω} {answer : Option (ω × Except RebuildError Unit)}
    (went : r.resume owner body outcome = some (t, answer)) : Spawned t := by
  have gone : ∀ {q : Runtime τ ω}, q.multi = none → Spawned q := fun none m some => by
    rw [none] at some
    cases some
  have stays : ∀ {q : Runtime τ ω}, q.multi = r.multi → r.consumers.length ≤ q.consumers.length →
      Spawned q := fun same more m some => Nat.lt_of_lt_of_le (ok m (same ▸ some)) more
  have length_stopped : ∀ m, (r.stopped m).consumers.length = r.consumers.length :=
    fun m => List.length_modify ..
  cases body <;> cases outcome <;>
    simp only [Runtime.resume, Option.bind_eq_bind, Option.bind_eq_some_iff, Option.some.injEq,
      Prod.mk.injEq, reduceCtorEq] at went
  case rebuildDrain.ok m next => exact went.1 ▸ stays rfl (length_stopped m).ge
  case rebuildSpawn.ok =>
    obtain ⟨x, _, rfl, _⟩ := went
    rintro m some
    obtain rfl := Option.some.inj some
    exact Nat.lt_of_lt_of_eq (Nat.lt_succ_self _) (length_started _ x).symm
  case haltSpawn.ok =>
    obtain ⟨x, _, rfl, _⟩ := went
    rintro m some
    obtain rfl := Option.some.inj some
    exact Nat.lt_of_lt_of_eq (Nat.lt_succ_self _) (length_started _ x).symm
  case abandonedStop.ok m => exact went.1 ▸ stays rfl (length_stopped m).ge
  case abandonedSpawn.ok =>
    obtain ⟨x, _, rfl, _⟩ := went
    exact stays rfl (Nat.le_trans (Nat.le_add_right _ 1) (length_started _ x).ge)
  case rebuildDrain.failed => exact went.1 ▸ stays rfl le_rfl
  case rebuildSpawn.failed => exact went.1 ▸ stays rfl le_rfl
  case haltSpawn.failed => exact went.1 ▸ stays rfl le_rfl
  case between.ok => exact went.1 ▸ stays rfl le_rfl
  case between.failed => exact went.1 ▸ stays rfl le_rfl
  case prepareDrain.failed => exact went.1 ▸ ok
  case abandonedStop.failed => exact went.1 ▸ ok
  case abandonedSpawn.failed => exact went.1 ▸ ok
  all_goals exact went.1 ▸ gone rfl

theorem Spawned.step (ok : Spawned r) {e : Event τ ω} {t : Runtime τ ω}
    (admitted : step r e = some t) : Spawned t := by
  cases e with
  | rebuild totalShards spec owner =>
    obtain rfl := Option.some.inj admitted
    unfold Runtime.rebuild
    split
    · exact ok
    · split
      · exact ok
      · dsimp only
        split
        · exact ok
        · rename_i none
          exact fun m some => absurd (none.symm.trans some) (fun h => by cases h)
  | haltAndFlush owner =>
    obtain rfl := Option.some.inj admitted
    unfold Runtime.haltAndFlush
    split
    · exact ok
    · dsimp only
      split
      · exact ok
      · exact ok
  | prepare owner =>
    obtain rfl := Option.some.inj admitted
    unfold Runtime.prepare
    split
    · exact ok
    · exact ok
  | reset =>
    obtain rfl := Option.some.inj admitted
    exact fun m some => (by cases some)
  | settle i outcome =>
    obtain ⟨⟨u, answer⟩, went, rfl⟩ := Option.map_eq_some_iff.mp admitted
    obtain ⟨task, here, went⟩ := Option.bind_eq_some_iff.mp went
    have erased : Spawned { r with tasks := r.tasks.eraseIdx i } := ok
    exact erased.resume went
  | retarget target =>
    obtain rfl := Option.some.inj admitted
    exact ok

theorem exists_runs (busy : ¬ Idle r) : ∃ m, Runs r m := by
  by_contra none
  exact busy fun m runs => none ⟨m, runs⟩

/-- A consumer that runs while none is handed out breaks exclusion. -/
theorem not_exclusive_of_detached {q : Runtime τ ω} (busy : ¬ Idle r)
    (consumers : q.consumers = r.consumers) (none : q.multi = none) : ¬ Exclusive q := by
  rintro ⟨_, handed, _, _⟩
  obtain ⟨m, c, here, running⟩ := exists_runs busy
  have := handed m ⟨c, consumers ▸ here, running⟩
  rw [none] at this
  cases this

theorem not_exclusive_of_left {q : Runtime τ ω} {m a : ℕ} (runs : Runs r a) (other : a ≠ m)
    (consumers : q.consumers = (r.stopped m).consumers) (none : q.multi = none) :
    ¬ Exclusive q := by
  have busy : ¬ Idle (r.stopped m) := fun idle => idle a ((runs_stopped m a).mpr ⟨runs, other⟩)
  exact not_exclusive_of_detached busy consumers none

/-- A consumer that runs on under an assignment the runtime no longer reports. -/
theorem not_exclusive_of_renamed (ok : Exclusive r) {q : Runtime τ ω} {a : ℕ} (runs : Runs r a)
    (still : ∀ c : MultiConsumer τ, r.consumers[a]? = some c → c.running = true →
      q.consumers[a]? = some c)
    (differ : ¬ SameShards q.config r.config) : ¬ Exclusive q := by
  rintro ⟨_, _, sharded, _⟩
  obtain ⟨c, here, running⟩ := runs
  have before := ok.sharded a c here running
  have after := sharded a c (still c here running) running
  exact differ ⟨after.1.symm.trans before.1, after.2.symm.trans before.2⟩

theorem getElem?_stopped {m a : ℕ} (other : a ≠ m) :
    (r.stopped m).consumers[a]? = r.consumers[a]? :=
  (List.getElem?_modify ..).trans
  (by simp only [if_neg other.symm, Option.map_eq_map, Option.map_id'])

/-- A spawn that resolves at another time than `KeepsOnSettle` allows breaks exclusion. -/
theorem not_exclusive_of_spawned {config : ShardConfig} {target : τ}
    (early : ¬ (Idle r ∧ SameShards config r.config ∧ NoneBetween r)) :
    ¬ Exclusive ({ r.started config target with multi := some r.consumers.length }.release
      false) := by
  rintro ⟨unique, _, sharded, halted⟩
  have fresh : Runs (r.started config target) r.consumers.length :=
    (runs_started config target _).mpr (.inr rfl)
  refine early ⟨?_, ?_, ?_⟩
  · intro a runs
    have same := unique a _ ((runs_started config target a).mpr (.inl runs)) fresh
    have := runs.lt
    omega
  · exact sharded _ _ List.getElem?_concat_length rfl
  · intro task mem between
    exact halted task mem between _ fresh

theorem Exclusive.loss_resume (ok : Exclusive r) (spawned : Spawned r) {owner : ω} {body : Body τ}
    {outcome : Outcome} {t : Runtime τ ω} {answer : Option (ω × Except RebuildError Unit)}
    (breaks : ¬ KeepsOnSettle r body outcome)
    (went : r.resume owner body outcome = some (t, answer)) : ¬ Exclusive t := by
  cases body with
  | rebuildDrain m next =>
    cases outcome with
    | ok =>
      obtain ⟨rfl, _⟩ := Prod.mk.inj (Option.some.inj went)
      simp only [KeepsOnSettle, not_or, not_forall] at breaks
      obtain ⟨⟨a, runs, other⟩, differ⟩ := breaks
      exact not_exclusive_of_renamed ok runs
        (fun c here _ => (getElem?_stopped other).trans here) differ
    | failed =>
      obtain ⟨rfl, _⟩ := Prod.mk.inj (Option.some.inj went)
      obtain ⟨busy, differ⟩ := not_or.mp breaks
      obtain ⟨a, runs⟩ := exists_runs busy
      exact not_exclusive_of_renamed ok runs (fun c here _ => here) differ
    | timedOut =>
      obtain ⟨rfl, _⟩ := Prod.mk.inj (Option.some.inj went)
      exact not_exclusive_of_detached breaks rfl rfl
  | haltDrain m =>
    cases outcome with
    | ok =>
      obtain ⟨rfl, _⟩ := Prod.mk.inj (Option.some.inj went)
      simp only [KeepsOnSettle, not_forall] at breaks
      obtain ⟨a, runs, other⟩ := breaks
      exact not_exclusive_of_left runs other rfl rfl
    | failed =>
      obtain ⟨rfl, _⟩ := Prod.mk.inj (Option.some.inj went)
      exact not_exclusive_of_detached breaks rfl rfl
    | timedOut =>
      obtain ⟨rfl, _⟩ := Prod.mk.inj (Option.some.inj went)
      exact not_exclusive_of_detached breaks rfl rfl
  | rebuildSpawn config target =>
    cases outcome with
    | ok =>
      obtain ⟨x, rfl, went⟩ := Option.bind_eq_some_iff.mp went
      obtain ⟨rfl, _⟩ := Prod.mk.inj (Option.some.inj went)
      exact not_exclusive_of_spawned breaks
    | failed => exact absurd trivial breaks
    | timedOut =>
      obtain ⟨rfl, _⟩ := Prod.mk.inj (Option.some.inj went)
      exact not_exclusive_of_detached breaks rfl rfl
  | haltSpawn config target =>
    cases outcome with
    | ok =>
      obtain ⟨x, rfl, went⟩ := Option.bind_eq_some_iff.mp went
      obtain ⟨rfl, _⟩ := Prod.mk.inj (Option.some.inj went)
      exact not_exclusive_of_spawned breaks
    | failed => exact absurd trivial breaks
    | timedOut =>
      obtain ⟨rfl, _⟩ := Prod.mk.inj (Option.some.inj went)
      exact not_exclusive_of_detached breaks rfl rfl
  | between => cases outcome <;> exact absurd trivial breaks
  | prepareDrain m =>
    cases outcome with
    | ok =>
      obtain ⟨rfl, _⟩ := Prod.mk.inj (Option.some.inj went)
      simp only [KeepsOnSettle, not_forall] at breaks
      obtain ⟨a, runs, other⟩ := breaks
      exact not_exclusive_of_left runs other rfl rfl
    | failed => exact absurd trivial breaks
    | timedOut => exact absurd trivial breaks
  | abandonedStop m => cases outcome <;> exact absurd trivial breaks
  | abandonedSpawn config target =>
    cases outcome with
    | ok =>
      obtain ⟨x, rfl, went⟩ := Option.bind_eq_some_iff.mp went
      obtain ⟨rfl, _⟩ := Prod.mk.inj (Option.some.inj went)
      rintro ⟨_, handed, _, _⟩
      have held := handed _ ((runs_started config x _).mpr (.inr rfl))
      exact Nat.lt_irrefl _ (spawned _ held)
    | failed => exact absurd trivial breaks
    | timedOut => exact absurd trivial breaks

theorem Exclusive.loss (ok : Exclusive r) (spawned : Spawned r) {e : Event τ ω} {t : Runtime τ ω}
    (breaks : ¬ KeepsExclusion r e) (admitted : ShardExclusion.step r e = some t) :
    ¬ Exclusive t := by
  cases e with
  | reset =>
    obtain rfl := Option.some.inj admitted
    exact not_exclusive_of_detached breaks rfl rfl
  | settle i outcome =>
    obtain ⟨⟨u, answer⟩, went, rfl⟩ := Option.map_eq_some_iff.mp admitted
    obtain ⟨task, here, went⟩ := Option.bind_eq_some_iff.mp went
    have broken : ¬ KeepsOnSettle { r with tasks := r.tasks.eraseIdx i } task.body outcome := by
      intro keeps
      refine breaks fun task' here' => ?_
      obtain rfl := Option.some.inj (here.symm.trans here')
      exact keeps
    have erased : Spawned { r with tasks := r.tasks.eraseIdx i } := spawned
    exact (ok.erase i).loss_resume erased broken went
  | _ => exact absurd trivial breaks

theorem exclusive_start (totalShards : ℕ) (spec : String) :
    Exclusive (createShardRuntime totalShards spec : Runtime τ ω) :=
  .of_idle fun _ runs => absurd runs.lt (Nat.not_lt_zero _)

/-- The consumers exclude each other all along a run exactly when every event of the run
keeps it: no drain of a consumer that runs times out, no spawn resolves after it was
given up, a body that goes on finds no consumer it has not stopped, and a reset none. -/
theorem exclusive_iff (totalShards : ℕ) (spec : String) (events : List (Event τ ω)) :
    (∀ r ∈ visited step (createShardRuntime totalShards spec) events, Exclusive r) ↔
      ∀ p ∈ taken step (createShardRuntime totalShards spec) events, KeepsExclusion p.1 p.2 := by
  have init : Exclusive (createShardRuntime totalShards spec : Runtime τ ω) ∧
      Spawned (createShardRuntime totalShards spec : Runtime τ ω) :=
    ⟨exclusive_start totalShards spec, fun _ some => by cases some⟩
  exact @visited_safe_iff _ _ step (fun r => Exclusive r ∧ Spawned r) Exclusive KeepsExclusion
    (fun _ _ _ ok keeps admitted => ⟨ok.1.step keeps admitted, ok.2.step admitted⟩)
    (fun _ ok => ok.1) (fun _ _ _ ok breaks admitted =>
      ok.1.loss ok.2 breaks admitted) _ init events

/-- A spawn runs out of its budget, the next rebuild spawns again, and then the first
spawn resolves as well. -/
def lateSpawn : List (Event String Unit) :=
  [.retarget "redis", .rebuild none none (), .settle 0 .timedOut, .rebuild none none (),
   .settle 1 .ok, .settle 0 .ok]

/-- Two consumers read the same shard. -/
theorem late_spawn_runs_twice :
    Runs (final step (createShardRuntime 1 "all") lateSpawn) 0 ∧
      Runs (final step (createShardRuntime 1 "all") lateSpawn) 1 ∧
      ¬ ∀ r ∈ visited step (createShardRuntime 1 "all") lateSpawn, Exclusive r := by
  have first : Runs (final step (createShardRuntime 1 "all") lateSpawn) 0 :=
    ⟨⟨1, [0], "redis", true⟩, by decide +kernel, rfl⟩
  have second : Runs (final step (createShardRuntime 1 "all") lateSpawn) 1 :=
    ⟨⟨1, [0], "redis", true⟩, by decide +kernel, rfl⟩
  refine ⟨first, second, fun all => ?_⟩
  have same := (all _ (final_mem_visited _ _)).unique 0 1 first second
  cases same

end ShardExclusion
