import Frtb.Library.EventRuns
import Frtb.IngestTarget

/-!
# The consumer follows the active target

A commit that is answered leaves a consumer that runs on a target the api has had active
since it came in, and whenever nothing is in flight the consumer runs on the target of the
last poll or the next poll will rebuild it. The runs in which this holds are told from the
events they take.
-/

namespace IngestRebind

open EventRuns ShardRuntime IngestTarget

abbrev Target := ActiveTargetFull

/-- The api has had the target active since the commit came in. -/
def Since (reports : List Target) (c : Commit) (t : Target) : Prop := t ∈ reports.drop c.arrived

/-- The runtime hands out a consumer that runs with clients for the target. -/
def Serves (r : Runtime Target Owner) (t : Target) : Prop :=
  ∃ (m : ℕ) (x : MultiConsumer Target), r.multi = some m ∧ r.consumers[m]? = some x ∧
    x.running = true ∧ x.target = t

def CommitBinds (s : State) (e : Event) : Prop :=
  ∀ t c, stepWith s e = some (t, some (.committed c)) →
    ∃ x, Serves t.runtime x ∧ Since t.reports c x

/-- Nothing is in flight, nor does a prepared switch wait for the answer to its commit. -/
def Quiescent (s : State) : Prop :=
  s.runtime.tasks = [] ∧ s.polls = [] ∧ s.sleeping = [] ∧ s.awaitsCommit = false

/-- The consumer is on the version of the last poll, or the next poll with it will swap. -/
def Converges (s : State) : Prop :=
  Quiescent s → ∀ v, s.lastPolled = some v →
    (∃ x, Serves s.runtime x ∧ x.version = v.version) ∨
      s.swapping = false ∧ s.currentTarget.map (·.version) ≠ some v.version

/-- The body holds the `rebuilding` flag. -/
def holds : Body Target → Bool
  | .rebuildDrain _ _ | .rebuildSpawn _ _ | .haltDrain _ | .between | .haltSpawn _ _ => true
  | .prepareDrain _ | .abandonedStop _ | .abandonedSpawn _ _ => false

/-- The target of a spawn in progress. -/
def spawning : Body Target → Option (Option Target)
  | .rebuildSpawn _ x | .haltSpawn _ x => some x
  | _ => none

/-- The commit that waits for a body, or for the swap that does. -/
def waiting : Owner → Option Commit
  | .swap (.commit c) | .commit c => some c
  | _ => none

/-- A rebuild in progress may take over the target: it has not begun to spawn, and the
target suits the commit that waits for it. -/
def TakesOver (s : State) (t : Target) : Prop :=
  ∀ task ∈ s.runtime.tasks, holds task.body = true →
    spawning task.body = none ∧ ∀ c ∈ waiting task.owner, Since s.reports c t

/-- The watcher is on a target that the api has had active since the commit came in. -/
def Current (s : State) (c : Commit) : Prop := ∃ t ∈ s.currentTarget, Since s.reports c t

/-- The poll of a commit may end without a rebuild of its own: with one in progress only
if there is no consumer, so that the commit tries again. -/
def MayEnd (s : State) : Caller → Prop
  | .commit c => if s.runtime.rebuilding then s.runtime.multi = none else Current s c
  | _ => True

def KeepsOnArrival (s : State) (t : Target) (caller : Caller) : Prop :=
  if s.currentTarget.map (·.version) = some t.version ∨ s.swapping = true then MayEnd s caller
  else TakesOver s t ∧ (s.runtime.rebuilding = true → MayEnd s caller)

/-- When the owner of a body has been told of its failure, a prepared switch still waits for
the answer to its commit. -/
def CommitLeft (s : State) : Owner → Prop
  | .commit c => (s.refused c).awaitsCommit = true
  | _ => s.awaitsCommit = true

/-- A rebuild or halt-and-flush ends without a consumer only while a prepared switch waits
for its commit, and then the runtime has none; so does the drain of a prepare that has timed
out. -/
def KeepsOnSettle (s : State) (task : Task Target Owner) (outcome : Outcome) : Prop :=
  match task.body, outcome with
  | .rebuildDrain _ _, .timedOut | .haltDrain _, .timedOut | .rebuildSpawn _ _, .timedOut
  | .haltSpawn _ _, .timedOut => CommitLeft s task.owner
  | .rebuildSpawn _ _, .failed | .haltSpawn _ _, .failed | .between, .failed =>
    s.runtime.multi = none ∧ CommitLeft s task.owner
  | .prepareDrain _, .ok =>
    task.owner = .timedOutPrepare → s.runtime.rebuilding = true ∨ s.awaitsCommit = true
  | _, _ => True

/-- The events that keep the consumer on the active target. -/
def KeepsTarget (s : State) : Event → Prop
  | .fallback t => TakesOver s t
  | .arrive i => ∀ p ∈ s.polls[i]?, ∀ t ∈ p.answer, KeepsOnArrival s t p.caller
  | .fetchFails i => ∀ p ∈ s.polls[i]?, MayEnd s p.caller
  | .settle i outcome => ∀ task ∈ s.runtime.tasks[i]?, KeepsOnSettle s task outcome
  | _ => True

section Decidable

variable (s : State)

instance (reports : List Target) (c : Commit) (t : Target) : Decidable (Since reports c t) :=
  inferInstanceAs (Decidable (t ∈ reports.drop c.arrived))

instance (t : Target) : Decidable (TakesOver s t) :=
  inferInstanceAs (Decidable (∀ task ∈ s.runtime.tasks, holds task.body = true →
    spawning task.body = none ∧ ∀ c ∈ waiting task.owner, Since s.reports c t))

instance (c : Commit) : Decidable (Current s c) :=
  inferInstanceAs (Decidable (∃ t ∈ s.currentTarget, Since s.reports c t))

instance : ∀ caller, Decidable (MayEnd s caller)
  | .timer | .boot => isTrue trivial
  | .commit c => inferInstanceAs (Decidable
    (if s.runtime.rebuilding then s.runtime.multi = none else Current s c))

instance (t : Target) (caller : Caller) : Decidable (KeepsOnArrival s t caller) :=
  inferInstanceAs (Decidable
    (if s.currentTarget.map (·.version) = some t.version ∨ s.swapping = true then MayEnd s caller
    else TakesOver s t ∧ (s.runtime.rebuilding = true → MayEnd s caller)))

instance : ∀ owner, Decidable (CommitLeft s owner)
  | .commit c => inferInstanceAs (Decidable ((s.refused c).awaitsCommit = true))
  | .swap _ | .fallback | .post | .halt | .prepare _ | .timedOutPrepare =>
    inferInstanceAs (Decidable (s.awaitsCommit = true))

instance (task : Task Target Owner) (outcome : Outcome) :
    Decidable (KeepsOnSettle s task outcome) := by
  unfold KeepsOnSettle
  split <;> infer_instance

instance : ∀ e, Decidable (KeepsTarget s e)
  | .fallback t => inferInstanceAs (Decidable (TakesOver s t))
  | .arrive i => inferInstanceAs
    (Decidable (∀ p ∈ s.polls[i]?, ∀ t ∈ p.answer, KeepsOnArrival s t p.caller))
  | .fetchFails i => inferInstanceAs (Decidable (∀ p ∈ s.polls[i]?, MayEnd s p.caller))
  | .settle i outcome => inferInstanceAs
    (Decidable (∀ task ∈ s.runtime.tasks[i]?, KeepsOnSettle s task outcome))
  | .apiSwitch _ | .pollTimer | .start | .answer _ | .prepare _ | .prepareTimeout _ | .commit _
  | .wake _ | .post _ _ | .haltAndFlush => isTrue trivial

end Decidable

section Runtime

/-- The assignment of the configuration is what its text says, and not empty. -/
def Assigned (config : ShardConfig) : Prop :=
  1 ≤ config.totalShards ∧ parseShardAssignment config.assignmentSpec config.totalShards ≠ []

/-- What is known of a suspended body. -/
structure Fits (r : Runtime Target Owner) (current : Option Target) (reports : List Target)
    (task : Task Target Owner) : Prop where
  spawns : ∀ x, spawning task.body = some x → x = current
  recent : holds task.body = true → ∀ c, waiting task.owner = some c →
    ∃ t, current = some t ∧ Since reports c t
  prepares : ∀ m, task.body = .prepareDrain m →
    (∃ switchId, task.owner = .prepare switchId) ∨ task.owner = .timedOutPrepare
  stops : ∀ m, (∃ next, task.body = .rebuildDrain m next) ∨ task.body = .haltDrain m ∨
    task.body = .abandonedStop m → m < r.consumers.length
  abandoned : ∀ m, task.body = .abandonedStop m → r.multi ≠ some m
  next : ∀ m next, task.body = .rebuildDrain m next → Assigned next

/-- What is known of the runtime, while the watcher is on the target `current`. -/
structure Core (r : Runtime Target Owner) (current : Option Target) (reports : List Target) :
    Prop where
  mutex : r.tasks.countP (fun task => holds task.body) = r.rebuilding.toNat
  follows : r.activeTarget = current
  held : ∀ m, r.multi = some m → m < r.consumers.length
  config : Assigned r.config
  fits : ∀ task ∈ r.tasks, Fits r current reports task

variable {r q : Runtime Target Owner} {current : Option Target} {reports : List Target}
  {task : Task Target Owner}

theorem Fits.mono (ok : Fits r current reports task)
    (more : r.consumers.length ≤ q.consumers.length)
    (multi : q.multi = r.multi ∨ q.multi = none ∨ q.multi = some r.consumers.length) :
    Fits q current reports task := by
  refine ⟨ok.spawns, ok.recent, ok.prepares, fun m stops => ?_, fun m left => ?_, ok.next⟩
  · exact Nat.lt_of_lt_of_le (ok.stops m stops) more
  · have old : m < r.consumers.length := ok.stops m (.inr (.inr left))
    rcases multi with same | none | fresh
    · rw [same]
      exact ok.abandoned m left
    · rw [none]
      exact fun h => by cases h
    · rw [fresh]
      rintro h
      exact absurd (Option.some.inj h) (Nat.ne_of_gt old)

/-- What one event may do to the runtime while the watcher stays on its target. -/
theorem Core.change (ok : Core r current reports)
    (mutex : q.tasks.countP (fun task => holds task.body) = q.rebuilding.toNat)
    (active : q.activeTarget = r.activeTarget)
    (more : r.consumers.length ≤ q.consumers.length)
    (multi : q.multi = r.multi ∨ q.multi = none ∨
      q.multi = some r.consumers.length ∧ r.consumers.length < q.consumers.length)
    (config : Assigned q.config)
    (tasks : ∀ task ∈ q.tasks, task ∈ r.tasks ∨ Fits q current reports task) :
    Core q current reports := by
  refine ⟨mutex, active.trans ok.follows, fun m some => ?_, config, fun task mem => ?_⟩
  · rcases multi with same | none | ⟨fresh, room⟩
    · exact Nat.lt_of_lt_of_le (ok.held m (same ▸ some)) more
    · rw [none] at some
      cases some
    · obtain rfl := Option.some.inj (fresh.symm.trans some)
      exact room
  · rcases tasks task mem with old | new
    · exact (ok.fits task old).mono more (multi.imp id (Or.imp id And.left))
    · exact new

theorem Assigned.nextConfig {r : Runtime Target Owner} {totalShards : Option ℤ}
    {spec : Option String} {next : ShardConfig} (went : r.nextConfig totalShards spec = some next) :
    Assigned next := by
  unfold Runtime.nextConfig at went
  dsimp only at went
  obtain ⟨positive, went⟩ := Option.ite_none_left_eq_some.mp went
  obtain ⟨some, went⟩ := Option.ite_none_left_eq_some.mp went
  obtain rfl := Option.some.inj went
  refine ⟨by dsimp only; omega, fun none => some ?_⟩
  rw [List.isEmpty_iff]
  exact none

/-- Without arguments a rebuild is asked for the shards there are. -/
theorem exists_nextConfig (ok : Assigned r.config) :
    ∃ next, r.nextConfig none none = some next := by
  unfold Runtime.nextConfig
  simp only [Option.getD_none, Option.isSome_none, Bool.false_eq_true, if_false, Int.toNat_natCast]
  rw [if_neg (by have := ok.1; omega), if_neg (by rw [List.isEmpty_iff]; exact ok.2)]
  exact ⟨_, rfl⟩

theorem rebuild_of_free (ok : Assigned r.config) (free : r.rebuilding = false) (owner : Owner) :
    ∃ q, r.rebuild none none owner = .ok q := by
  obtain ⟨next, found⟩ := exists_nextConfig ok
  unfold Runtime.rebuild
  simp only [free, Bool.false_eq_true, if_false, found]
  split
  · exact ⟨_, rfl⟩
  · exact ⟨_, rfl⟩

theorem rebuild_of_busy (busy : r.rebuilding = true) (totalShards : Option ℤ) (spec : Option String)
    (owner : Owner) : r.rebuild totalShards spec owner = .error .busy := by
  unfold Runtime.rebuild
  rw [if_pos busy]

theorem free_of_rebuild {totalShards : Option ℤ} {spec : Option String} {owner : Owner}
    (went : r.rebuild totalShards spec owner = .ok q) : r.rebuilding = false := by
  cases busy : r.rebuilding with
  | false => rfl
  | true =>
    rw [rebuild_of_busy busy] at went
    cases went

theorem countP_append_one (tasks : List (Task Target Owner)) (body : Body Target) (owner : Owner) :
    (tasks ++ [(⟨body, owner⟩ : Task Target Owner)]).countP (fun task => holds task.body) =
      tasks.countP (fun task => holds task.body) + (holds body).toNat := by
  rw [List.countP_append, List.countP_singleton]
  cases holds body <;> rfl

/-- A rebuild that starts takes the flag, for the owner it was called by. -/
theorem Core.rebuild (ok : Core r current reports) {totalShards : Option ℤ} {spec : Option String}
    {owner : Owner} (went : r.rebuild totalShards spec owner = .ok q)
    (recent : ∀ c, waiting owner = some c → ∃ t, current = some t ∧ Since reports c t) :
    Core q current reports ∧ q.rebuilding = true ∧
      ∃ body, ⟨body, owner⟩ ∈ q.tasks ∧ holds body = true := by
  have free := free_of_rebuild went
  have none_holds := ok.mutex
  rw [free] at none_holds
  unfold Runtime.rebuild at went
  split at went
  · cases went
  · split at went
    · cases went
    · rename_i next found
      have assigned := Assigned.nextConfig found
      dsimp only at went
      split at went
      · rename_i m handed
        obtain rfl := Except.ok.inj went
        refine ⟨ok.change ?_ rfl le_rfl (.inl rfl) ok.config ?_, rfl, .rebuildDrain m next,
          List.mem_append_right _ List.mem_cons_self, rfl⟩
        · refine (countP_append_one r.tasks _ owner).trans ?_
          rw [none_holds]
          rfl
        · intro task mem
          rcases List.mem_append.mp mem with old | new
          · exact .inl old
          · obtain rfl := List.mem_singleton.mp new
            refine .inr ⟨fun x h => (by cases h), fun _ => recent, fun a h => (by cases h), ?_,
              fun a h => (by cases h), ?_⟩
            · rintro a (⟨next', h⟩ | h | h)
              · obtain ⟨rfl, rfl⟩ := Body.rebuildDrain.inj h
                exact ok.held m handed
              · cases h
              · cases h
            · intro a next' h
              obtain ⟨rfl, rfl⟩ := Body.rebuildDrain.inj h
              exact assigned
      · obtain rfl := Except.ok.inj went
        refine ⟨ok.change ?_ rfl le_rfl (.inl rfl) assigned ?_, rfl,
          .rebuildSpawn next r.activeTarget,
          List.mem_append_right _ List.mem_cons_self, rfl⟩
        · refine (countP_append_one r.tasks _ owner).trans ?_
          rw [none_holds]
          rfl
        · intro task mem
          rcases List.mem_append.mp mem with old | new
          · exact .inl old
          · obtain rfl := List.mem_singleton.mp new
            refine .inr ⟨fun x h => ?_, fun _ => recent, fun a h => (by cases h), ?_,
              fun a h => (by cases h), fun a next' h => (by cases h)⟩
            · exact (Option.some.inj h).symm.trans ok.follows
            · rintro a (⟨next', h⟩ | h | h) <;> cases h

theorem Core.haltAndFlush (ok : Core r current reports)
    (went : r.haltAndFlush .halt = .ok q) : Core q current reports ∧ q.rebuilding = true := by
  unfold Runtime.haltAndFlush at went
  split at went
  · cases went
  · rename_i idle
    have none_holds := ok.mutex
    rw [Bool.eq_false_iff.mpr idle] at none_holds
    dsimp only at went
    split at went
    · rename_i m handed
      obtain rfl := Except.ok.inj went
      refine ⟨ok.change ?_ rfl le_rfl (.inl rfl) ok.config ?_, rfl⟩
      · refine (countP_append_one r.tasks _ .halt).trans ?_
        rw [none_holds]
        rfl
      · intro task mem
        rcases List.mem_append.mp mem with old | new
        · exact .inl old
        · obtain rfl := List.mem_singleton.mp new
          refine .inr ⟨fun x h => (by cases h), fun _ c h => (by cases h), fun a h =>
            (by cases h), ?_,
            fun a h => (by cases h), fun a next' h => (by cases h)⟩
          rintro a (⟨next', h⟩ | h | h)
          · cases h
          · obtain rfl := Body.haltDrain.inj h
            exact ok.held m handed
          · cases h
    · obtain rfl := Except.ok.inj went
      refine ⟨ok.change ?_ rfl le_rfl (.inl rfl) ok.config ?_, rfl⟩
      · refine (countP_append_one r.tasks _ .halt).trans ?_
        rw [none_holds]
        rfl
      · intro task mem
        rcases List.mem_append.mp mem with old | new
        · exact .inl old
        · obtain rfl := List.mem_singleton.mp new
          refine .inr ⟨fun x h => (by cases h), fun _ c h => (by cases h), fun a h =>
            (by cases h), ?_,
            fun a h => (by cases h), fun a next' h => (by cases h)⟩
          rintro a (⟨next', h⟩ | h | h) <;> cases h

theorem Core.prepareDrain (ok : Core r current reports) (m : ℕ) (switchId : String) :
    Core (r.await (.prepareDrain m) (.prepare switchId)) current reports := by
  refine ok.change ?_ rfl le_rfl (.inl rfl) ok.config ?_
  · exact (countP_append_one r.tasks _ _).trans ok.mutex
  · intro task mem
    rcases List.mem_append.mp mem with old | new
    · exact .inl old
    · obtain rfl := List.mem_singleton.mp new
      refine .inr ⟨fun x h => (by cases h), fun h => (by cases h), fun a h =>
        .inl ⟨switchId, rfl⟩, ?_,
        fun a h => (by cases h), fun a next' h => (by cases h)⟩
      rintro a (⟨next', h⟩ | h | h) <;> cases h

variable {i : ℕ}

theorem countP_eraseIdx (here : r.tasks[i]? = some task) :
    (r.tasks.eraseIdx i).countP (fun task => holds task.body) + (holds task.body).toNat =
      r.tasks.countP (fun task => holds task.body) := by
  obtain ⟨lt, rfl⟩ := List.getElem?_eq_some_iff.mp here
  rw [← (List.getElem_cons_eraseIdx_perm lt).countP_eq, List.countP_cons]
  cases holds r.tasks[i].body <;> rfl

theorem Core.rebuilding_of_holds (ok : Core r current reports) (mem : task ∈ r.tasks)
    (held : holds task.body = true) : r.rebuilding = true := by
  have positive : 0 < r.tasks.countP fun task => holds task.body :=
    List.countP_pos_iff.mpr ⟨task, mem, held⟩
  rw [ok.mutex] at positive
  cases busy : r.rebuilding with
  | true => rfl
  | false =>
    rw [busy] at positive
    cases positive

/-- Only one body holds the flag. -/
theorem Core.not_holds (ok : Core r current reports) (here : r.tasks[i]? = some task)
    (held : holds task.body = true) : ∀ x ∈ r.tasks.eraseIdx i, holds x.body = false := by
  have count := countP_eraseIdx here
  have busy := ok.rebuilding_of_holds (List.mem_of_getElem? here) held
  rw [ok.mutex, busy, held] at count
  have zero : (r.tasks.eraseIdx i).countP (fun task => holds task.body) = 0 := Nat.succ.inj count
  intro x mem
  exact Bool.eq_false_iff.mpr (List.countP_eq_zero.mp zero x mem)

/-- A body has ended. -/
theorem Core.dropped (ok : Core r current reports) (here : r.tasks[i]? = some task)
    (tasks : q.tasks = r.tasks.eraseIdx i)
    (flag : q.rebuilding.toNat + (holds task.body).toNat = r.rebuilding.toNat)
    (active : q.activeTarget = r.activeTarget) (more : r.consumers.length ≤ q.consumers.length)
    (multi : q.multi = r.multi ∨ q.multi = none ∨
      q.multi = some r.consumers.length ∧ r.consumers.length < q.consumers.length)
    (config : q.config = r.config) : Core q current reports := by
  refine ok.change ?_ active more multi (config ▸ ok.config) fun task mem => ?_
  · have count := countP_eraseIdx here
    rw [tasks]
    have all := ok.mutex
    omega
  · rw [tasks] at mem
    exact .inl (List.mem_of_mem_eraseIdx mem)

/-- A body goes on to its next await. -/
theorem Core.replaced (ok : Core r current reports) (here : r.tasks[i]? = some task)
    {body : Body Target}
    (tasks : q.tasks = r.tasks.eraseIdx i ++ [⟨body, task.owner⟩])
    (flag : q.rebuilding.toNat + (holds task.body).toNat = r.rebuilding.toNat + (holds body).toNat)
    (active : q.activeTarget = r.activeTarget) (same : q.consumers.length = r.consumers.length)
    (multi : q.multi = r.multi ∨ q.multi = none) (config : Assigned q.config)
    (fits : Fits q current reports ⟨body, task.owner⟩) : Core q current reports := by
  refine ok.change ?_ active same.ge (multi.imp id .inl) config fun x mem => ?_
  · have count := countP_eraseIdx here
    rw [tasks]
    have append := countP_append_one (r.tasks.eraseIdx i) body task.owner
    have all := ok.mutex
    omega
  · rw [tasks] at mem
    rcases List.mem_append.mp mem with old | new
    · exact .inl (List.mem_of_mem_eraseIdx old)
    · obtain rfl := List.mem_singleton.mp new
      exact .inr fits

/-- A body that has begun to spawn. -/
theorem Fits.spawn {body : Body Target} {owner : Owner} (spawns : spawning body = some current)
    (recent : ∀ c, waiting owner = some c → ∃ t, current = some t ∧ Since reports c t) :
    Fits r current reports ⟨body, owner⟩ := by
  refine ⟨fun x h => Option.some.inj (h.symm.trans spawns), fun _ => recent, ?_, ?_, ?_, ?_⟩
  · rintro m rfl
    cases spawns
  · rintro m (⟨next, rfl⟩ | rfl | rfl) <;> cases spawns
  · rintro m rfl
    cases spawns
  · rintro m next rfl
    cases spawns

theorem Fits.between {owner : Owner}
    (recent : ∀ c, waiting owner = some c → ∃ t, current = some t ∧ Since reports c t) :
    Fits r current reports ⟨.between, owner⟩ := by
  refine ⟨fun x h => (by cases h), fun _ => recent, fun m h => (by cases h), ?_,
    fun m h => (by cases h), fun m next h => (by cases h)⟩
  rintro m (⟨next, h⟩ | h | h) <;> cases h

/-- A promise that has been given up holds a consumer the runtime no longer hands out. -/
theorem Fits.abandonedStop {m : ℕ} (lt : m < r.consumers.length) (none : r.multi = none)
    (owner : Owner) : Fits r current reports ⟨.abandonedStop m, owner⟩ := by
  refine ⟨fun x h => (by cases h), fun h => (by cases h), fun m h => (by cases h), ?_, ?_,
    fun m next h => (by cases h)⟩
  · rintro a (⟨next, h⟩ | h | h)
    · cases h
    · cases h
    · obtain rfl := Body.abandonedStop.inj h
      exact lt
  · intro a _ some
    rw [none] at some
    cases some

theorem Fits.abandonedSpawn (config : ShardConfig) (x : Option Target) (owner : Owner) :
    Fits r current reports ⟨.abandonedSpawn config x, owner⟩ := by
  refine ⟨fun x h => (by cases h), fun h => (by cases h), fun m h => (by cases h), ?_,
    fun m h => (by cases h), fun m next h => (by cases h)⟩
  rintro a (⟨next, h⟩ | h | h) <;> cases h

/-- A swap waits for the body that holds the flag. -/
def SwapHeld (r : Runtime Target Owner) : Prop :=
  ∃ task ∈ r.tasks, holds task.body = true ∧ ∃ caller, task.owner = .swap caller

theorem SwapHeld.dropped (held : SwapHeld r) (here : r.tasks[i]? = some task)
    (other : holds task.body = false) (tasks : q.tasks = r.tasks.eraseIdx i) : SwapHeld q := by
  obtain ⟨x, mem, hx, swap⟩ := held
  obtain ⟨lt, rfl⟩ := List.getElem?_eq_some_iff.mp here
  rcases List.mem_cons.mp ((List.getElem_cons_eraseIdx_perm lt).mem_iff.mpr mem) with rfl | rest
  · rw [hx] at other
    cases other
  · exact ⟨x, tasks ▸ rest, hx, swap⟩

theorem SwapHeld.replaced (held : SwapHeld r) (here : r.tasks[i]? = some task) {body : Body Target}
    (still : holds body = true) (tasks : q.tasks = r.tasks.eraseIdx i ++ [⟨body, task.owner⟩]) :
    SwapHeld q := by
  obtain ⟨x, mem, hx, swap⟩ := held
  obtain ⟨lt, rfl⟩ := List.getElem?_eq_some_iff.mp here
  rcases List.mem_cons.mp ((List.getElem_cons_eraseIdx_perm lt).mem_iff.mpr mem) with rfl | rest
  · refine ⟨⟨body, r.tasks[i].owner⟩, ?_, still, swap⟩
    rw [tasks]
    exact List.mem_append_right _ List.mem_cons_self
  · exact ⟨x, tasks ▸ List.mem_append_left _ rest, hx, swap⟩

/-- How a body of the runtime `r` goes on to `q`, and what its owner is told. -/
inductive Goes (s : State) (q : Runtime Target Owner) (task : Task Target Owner) :
    Option (Owner × Except RebuildError Unit) → Prop
  | on (flag : q.rebuilding = s.runtime.rebuilding) (swap : SwapHeld s.runtime → SwapHeld q)
      (serves : s.runtime.rebuilding = true ∨
        q.multi = s.runtime.multi ∧ ∀ t, Serves s.runtime t → Serves q t) : Goes s q task none
  | ended {result : Except RebuildError Unit} (held : holds task.body = true)
      (flag : q.rebuilding = false)
      (ok : ∀ u, result = .ok u → ∃ t, s.currentTarget = some t ∧ Serves q t)
      (error : ∀ err, result = .error err → q.multi = none ∧ CommitLeft s task.owner) :
      Goes s q task (some (task.owner, result))
  | drained {m : ℕ} (prepared : task.body = .prepareDrain m)
      (flag : q.rebuilding = s.runtime.rebuilding) (swap : SwapHeld s.runtime → SwapHeld q)
      (multi : q.multi = none) : Goes s q task (some (task.owner, .ok ()))
  | refused {m : ℕ} (prepared : task.body = .prepareDrain m)
      (flag : q.rebuilding = s.runtime.rebuilding) (swap : SwapHeld s.runtime → SwapHeld q)
      (multi : q.multi = s.runtime.multi) (serves : ∀ t, Serves s.runtime t → Serves q t) :
      Goes s q task (some (task.owner, .error .failed))

variable {s t : State}

theorem CommitLeft.awaits {owner : Owner} (left : CommitLeft s owner) : s.awaitsCommit = true := by
  cases owner with
  | commit c => exact (Bool.and_eq_true_iff.mp left).1
  | _ => exact left

theorem Goes.failed {owner : Owner} {body : Body Target} {err : RebuildError}
    (held : holds body = true) (flag : q.rebuilding = false)
    (left : q.multi = none ∧ CommitLeft s owner) :
    Goes s q ⟨body, owner⟩ (some (owner, .error err)) :=
  .ended held flag (fun _ h => by cases h) fun _ _ => left

theorem length_stopped (r : Runtime Target Owner) (m : ℕ) :
    (r.stopped m).consumers.length = r.consumers.length :=
  List.length_modify ..

theorem serves_stopped {m : ℕ} (other : r.multi ≠ some m) {x : Target} (serves : Serves r x) :
    Serves (r.stopped m) x := by
  obtain ⟨a, c, handed, here, rest⟩ := serves
  refine ⟨a, c, handed, ?_, rest⟩
  refine (List.getElem?_modify_ne _ _ ?_).trans here
  rintro rfl
  exact other handed

theorem serves_started (config : ShardConfig) (target : Target) {x : Target} (serves : Serves r x) :
    Serves (r.started config target) x := by
  obtain ⟨a, c, handed, here, rest⟩ := serves
  refine ⟨a, c, handed, ?_, rest⟩
  exact (List.getElem?_append_left (List.getElem?_eq_some_iff.mp here).1).trans here

theorem length_started (r : Runtime Target Owner) (config : ShardConfig) (target : Target) :
    (r.started config target).consumers.length = r.consumers.length + 1 := by
  simp only [Runtime.started, List.length_append, List.length_singleton]

theorem serves_spawned (config : ShardConfig) (x : Target) :
    Serves ({ r.started config x with multi := some r.consumers.length }.release false) x :=
  ⟨r.consumers.length, ⟨config.totalShards, config.assignment, x, true⟩, rfl,
    List.getElem?_concat_length, rfl, rfl⟩

theorem resume_goes (ok : Core s.runtime s.currentTarget s.reports)
    (here : s.runtime.tasks[i]? = some task) {outcome : Outcome}
    (keeps : KeepsOnSettle s task outcome)
    {told : Option (Owner × Except RebuildError Unit)}
    (went : { s.runtime with tasks := s.runtime.tasks.eraseIdx i }.resume task.owner
      task.body outcome =
      some (q, told)) :
    Core q s.currentTarget s.reports ∧ Goes s q task told := by
  have mem := List.mem_of_getElem? here
  have fits := ok.fits task mem
  have busy := ok.rebuilding_of_holds mem
  obtain ⟨body, owner⟩ := task
  cases body with
  | rebuildDrain m next =>
    have recent := fits.recent rfl
    have lt : m < s.runtime.consumers.length := fits.stops m (.inl ⟨next, rfl⟩)
    cases outcome with
    | ok =>
      obtain ⟨rfl, rfl⟩ := Prod.mk.inj (Option.some.inj went)
      refine ⟨ok.replaced here rfl rfl rfl (length_stopped _ m) (.inl rfl)
        (fits.next m next rfl) ?_,
        .on rfl (fun held => held.replaced here rfl rfl) (.inl (busy rfl))⟩
      exact .spawn (congrArg some ok.follows) recent
    | failed =>
      obtain ⟨rfl, rfl⟩ := Prod.mk.inj (Option.some.inj went)
      refine ⟨ok.replaced here rfl rfl rfl rfl (.inl rfl) (fits.next m next rfl) ?_,
        .on rfl (fun held => held.replaced here rfl rfl) (.inl (busy rfl))⟩
      exact .spawn (congrArg some ok.follows) recent
    | timedOut =>
      obtain ⟨rfl, rfl⟩ := Prod.mk.inj (Option.some.inj went)
      refine ⟨ok.replaced here rfl ?_ rfl rfl (.inr rfl) ok.config ?_, .failed rfl rfl ⟨rfl, keeps⟩⟩
      · rw [busy rfl]
        rfl
      · refine .abandonedStop ?_ rfl owner
        exact lt
  | haltDrain m =>
    have recent := fits.recent rfl
    have lt : m < s.runtime.consumers.length := fits.stops m (.inr (.inl rfl))
    cases outcome with
    | ok =>
      obtain ⟨rfl, rfl⟩ := Prod.mk.inj (Option.some.inj went)
      exact ⟨ok.replaced here rfl rfl rfl (length_stopped _ m) (.inr rfl) ok.config
        (.between recent),
        .on rfl (fun held => held.replaced here rfl rfl) (.inl (busy rfl))⟩
    | failed =>
      obtain ⟨rfl, rfl⟩ := Prod.mk.inj (Option.some.inj went)
      exact ⟨ok.replaced here rfl rfl rfl rfl (.inr rfl) ok.config (.between recent),
        .on rfl (fun held => held.replaced here rfl rfl) (.inl (busy rfl))⟩
    | timedOut =>
      obtain ⟨rfl, rfl⟩ := Prod.mk.inj (Option.some.inj went)
      refine ⟨ok.replaced here rfl ?_ rfl rfl (.inr rfl) ok.config ?_, .failed rfl rfl ⟨rfl, keeps⟩⟩
      · rw [busy rfl]
        rfl
      · refine .abandonedStop ?_ rfl owner
        exact lt
  | rebuildSpawn config target =>
    cases outcome with
    | ok =>
      obtain ⟨x, rfl, went⟩ := Option.bind_eq_some_iff.mp went
      obtain ⟨rfl, rfl⟩ := Prod.mk.inj (Option.some.inj went)
      have more := length_started { s.runtime with tasks := s.runtime.tasks.eraseIdx i } config x
      refine ⟨ok.dropped here rfl ?_ rfl ?_ (.inr (.inr ⟨rfl, ?_⟩)) rfl,
        .ended rfl rfl (fun _ _ => ?_)
        fun _ h => by cases h⟩
      · rw [busy rfl]
        rfl
      · exact (Nat.le_succ _).trans more.ge
      · exact Nat.lt_of_lt_of_eq (Nat.lt_succ_self _) more.symm
      · exact ⟨x, (fits.spawns _ rfl).symm, serves_spawned config x⟩
    | failed =>
      obtain ⟨rfl, rfl⟩ := Prod.mk.inj (Option.some.inj went)
      refine ⟨ok.dropped here rfl ?_ rfl le_rfl (.inl rfl) rfl, .failed rfl rfl keeps⟩
      rw [busy rfl]
      rfl
    | timedOut =>
      obtain ⟨rfl, rfl⟩ := Prod.mk.inj (Option.some.inj went)
      refine ⟨ok.replaced here rfl ?_ rfl rfl (.inr rfl) ok.config
        (.abandonedSpawn config target owner),
        .failed rfl rfl ⟨rfl, keeps⟩⟩
      rw [busy rfl]
      rfl
  | haltSpawn config target =>
    cases outcome with
    | ok =>
      obtain ⟨x, rfl, went⟩ := Option.bind_eq_some_iff.mp went
      obtain ⟨rfl, rfl⟩ := Prod.mk.inj (Option.some.inj went)
      have more := length_started { s.runtime with tasks := s.runtime.tasks.eraseIdx i } config x
      refine ⟨ok.dropped here rfl ?_ rfl ?_ (.inr (.inr ⟨rfl, ?_⟩)) rfl,
        .ended rfl rfl (fun _ _ => ?_)
        fun _ h => by cases h⟩
      · rw [busy rfl]
        rfl
      · exact (Nat.le_succ _).trans more.ge
      · exact Nat.lt_of_lt_of_eq (Nat.lt_succ_self _) more.symm
      · exact ⟨x, (fits.spawns _ rfl).symm, serves_spawned config x⟩
    | failed =>
      obtain ⟨rfl, rfl⟩ := Prod.mk.inj (Option.some.inj went)
      refine ⟨ok.dropped here rfl ?_ rfl le_rfl (.inl rfl) rfl, .failed rfl rfl keeps⟩
      rw [busy rfl]
      rfl
    | timedOut =>
      obtain ⟨rfl, rfl⟩ := Prod.mk.inj (Option.some.inj went)
      refine ⟨ok.replaced here rfl ?_ rfl rfl (.inr rfl) ok.config
        (.abandonedSpawn config target owner),
        .failed rfl rfl ⟨rfl, keeps⟩⟩
      rw [busy rfl]
      rfl
  | between =>
    cases outcome with
    | ok =>
      obtain ⟨rfl, rfl⟩ := Prod.mk.inj (Option.some.inj went)
      refine ⟨ok.replaced here rfl rfl rfl rfl (.inl rfl) ok.config ?_,
        .on rfl (fun held => held.replaced here rfl rfl) (.inl (busy rfl))⟩
      exact .spawn (congrArg some ok.follows) (fits.recent rfl)
    | failed =>
      obtain ⟨rfl, rfl⟩ := Prod.mk.inj (Option.some.inj went)
      refine ⟨ok.dropped here rfl ?_ rfl le_rfl (.inl rfl) rfl, .failed rfl rfl keeps⟩
      rw [busy rfl]
      rfl
    | timedOut => cases went
  | prepareDrain m =>
    cases outcome with
    | ok =>
      obtain ⟨rfl, rfl⟩ := Prod.mk.inj (Option.some.inj went)
      exact ⟨ok.dropped here rfl rfl rfl (length_stopped _ m).ge (.inr (.inl rfl)) rfl,
        .drained rfl rfl (fun held => held.dropped here rfl rfl) rfl⟩
    | failed =>
      obtain ⟨rfl, rfl⟩ := Prod.mk.inj (Option.some.inj went)
      exact ⟨ok.dropped here rfl rfl rfl le_rfl (.inl rfl) rfl,
        .refused rfl rfl (fun held => held.dropped here rfl rfl) rfl fun _ h => h⟩
    | timedOut => cases went
  | abandonedStop m =>
    cases outcome with
    | ok =>
      obtain ⟨rfl, rfl⟩ := Prod.mk.inj (Option.some.inj went)
      refine ⟨ok.dropped here rfl rfl rfl (length_stopped _ m).ge (.inl rfl) rfl,
        .on rfl (fun held => held.dropped here rfl rfl) (.inr ⟨rfl, fun x serves => ?_⟩)⟩
      exact serves_stopped (fits.abandoned m rfl) serves
    | failed =>
      obtain ⟨rfl, rfl⟩ := Prod.mk.inj (Option.some.inj went)
      exact ⟨ok.dropped here rfl rfl rfl le_rfl (.inl rfl) rfl,
        .on rfl (fun held => held.dropped here rfl rfl) (.inr ⟨rfl, fun _ h => h⟩)⟩
    | timedOut => cases went
  | abandonedSpawn config target =>
    cases outcome with
    | ok =>
      obtain ⟨x, rfl, went⟩ := Option.bind_eq_some_iff.mp went
      obtain ⟨rfl, rfl⟩ := Prod.mk.inj (Option.some.inj went)
      have more := length_started { s.runtime with tasks := s.runtime.tasks.eraseIdx i } config x
      refine ⟨ok.dropped here rfl rfl rfl ((Nat.le_succ _).trans more.ge) (.inl rfl) rfl,
        .on rfl (fun held => held.dropped here rfl rfl) (.inr ⟨rfl, fun y serves => ?_⟩)⟩
      exact serves_started config x serves
    | failed =>
      obtain ⟨rfl, rfl⟩ := Prod.mk.inj (Option.some.inj went)
      exact ⟨ok.dropped here rfl rfl rfl le_rfl (.inl rfl) rfl,
        .on rfl (fun held => held.dropped here rfl rfl) (.inr ⟨rfl, fun _ h => h⟩)⟩
    | timedOut => cases went

end Runtime

section State

variable {s t : State}

/-- What is known of the fetches in flight and the commits that sleep. -/
structure Requests (polls : List Poll) (sleeping : List Commit) (reports : List Target) : Prop where
  answers : ∀ p ∈ polls, ∀ c, p.caller = .commit c → c.arrived < reports.length ∧
    ∀ t, p.answer = some t → Since reports c t
  slept : ∀ c ∈ sleeping, c.arrived < reports.length

/-- A consumer runs on the watcher's target, or there is none, because a rebuild or the
commit of a prepared switch will see to it, or no target is known. -/
def Bound (s : State) : Prop :=
  s.runtime.rebuilding = true ∨ (∃ t, s.currentTarget = some t ∧ Serves s.runtime t) ∨
    s.runtime.multi = none ∧ (s.currentTarget = none ∨ s.awaitsCommit = true)

structure Inv (s : State) : Prop where
  core : Core s.runtime s.currentTarget s.reports
  requests : Requests s.polls s.sleeping s.reports
  bound : Bound s
  swap : s.swapping = true → s.currentTarget ≠ none ∧ SwapHeld s.runtime
  known : s.lastPolled ≠ none → s.currentTarget ≠ none
  reports : s.reports ≠ []

/-- A commit that is answered is bound. -/
def Binds (x : State × Option Reply) : Prop :=
  ∀ c, x.2 = some (.committed c) → ∃ t, Serves x.1.runtime t ∧ Since x.1.reports c t

def Good (x : State × Option Reply) : Prop := Inv x.1 ∧ Binds x

theorem Good.quiet (ok : Inv s) {reply : Option Reply} (other : ∀ c, reply ≠ some (.committed c)) :
    Good (s, reply) :=
  ⟨ok, fun c h => absurd h (other c)⟩

theorem Since.lt {reports : List Target} {c : Commit} {x : Target} (since : Since reports c x) :
    c.arrived < reports.length := by
  by_contra outside
  rw [Since, List.drop_eq_nil_of_le (Nat.le_of_not_lt outside)] at since
  cases since

/-- A commit is answered 500 while a rebuild or another commit is still to come. -/
theorem Inv.refused (ok : Inv s) {c : Commit} (still : Bound (s.refused c)) :
    Inv (s.refused c) :=
  ⟨ok.core, ok.requests, still, ok.swap, ok.known, ok.reports⟩

theorem Inv.retry (ok : Inv s) {c : Commit} (lt : c.arrived < s.reports.length)
    (still : Bound (s.refused c)) : Good (s.retry c) := by
  unfold State.retry
  split
  · exact .quiet (ok.refused still) fun _ h => by cases h
  · refine ⟨⟨ok.core, ⟨ok.requests.answers, ?_⟩, ok.bound, ok.swap, ok.known, ok.reports⟩,
      fun _ h => by cases h⟩
    intro d mem
    rcases List.mem_append.mp mem with old | new
    · exact ok.requests.slept d old
    · obtain rfl := List.mem_singleton.mp new
      exact lt

theorem Inv.attemptFailed (ok : Inv s) {c : Commit} (lt : c.arrived < s.reports.length)
    (still : Bound (s.refused c)) (err : RebuildError) : Good (s.attemptFailed c err) := by
  cases err with
  | busy => exact ok.retry lt still
  | invalidShardSpec => exact .quiet (ok.refused still) fun _ h => by cases h
  | timeout => exact .quiet (ok.refused still) fun _ h => by cases h
  | failed => exact .quiet (ok.refused still) fun _ h => by cases h

theorem Inv.committed (ok : Inv s) {c : Commit} {x : Target} (current : s.currentTarget = some x)
    (serves : Serves s.runtime x) (since : Since s.reports c x) : Good (s.committed c) := by
  refine ⟨⟨ok.core, ok.requests, .inr (.inl ⟨x, current, serves⟩), ok.swap, ok.known, ok.reports⟩,
    ?_⟩
  intro d h
  obtain rfl := Reply.committed.inj (Option.some.inj h)
  exact ⟨x, serves, since⟩

/-- A runtime whose rebuild has started. -/
theorem Inv.rebuilt (ok : Inv s) {q : Runtime Target Owner} {totalShards : Option ℤ}
    {spec : Option String} {owner : Owner} (went : s.runtime.rebuild totalShards spec owner = .ok q)
    (recent : ∀ c, waiting owner = some c → ∃ t, s.currentTarget = some t ∧ Since s.reports c t) :
    Inv { s with runtime := q } := by
  obtain ⟨core, busy, _⟩ := ok.core.rebuild went recent
  refine ⟨core, ok.requests, .inl busy, fun swapping => ?_, ok.known, ok.reports⟩
  obtain ⟨task, mem, held, _⟩ := (ok.swap swapping).2
  have taken := ok.core.rebuilding_of_holds mem held
  rw [free_of_rebuild went] at taken
  cases taken

theorem Inv.resumeConsumer (ok : Inv s) {c : Commit} (lt : c.arrived < s.reports.length)
    (may : MayEnd s (.commit c)) : Good (s.resumeConsumer c) := by
  unfold State.resumeConsumer
  simp only [MayEnd] at may
  split
  · rename_i m handed
    split at may
    · rw [handed] at may
      cases may
    · rename_i free
      obtain ⟨x, current, since⟩ := may
      rcases ok.bound with busy | ⟨y, same, serves⟩ | ⟨none, _⟩
      · exact absurd busy free
      · obtain rfl := Option.some.inj (current.symm.trans same)
        exact ok.committed current serves since
      · rw [none] at handed
        cases handed
  · cases busy : s.runtime.rebuilding with
    | true =>
      rw [rebuild_of_busy busy]
      exact ok.attemptFailed lt (.inl busy) .busy
    | false =>
      obtain ⟨q, went⟩ := rebuild_of_free ok.core.config busy (.commit c)
      rw [went]
      rw [busy] at may
      refine .quiet (ok.rebuilt went fun d h => ?_) fun _ h => by cases h
      obtain rfl := Option.some.inj h
      exact may

theorem Inv.polled (ok : Inv s) {caller : Caller}
    (lt : ∀ c, caller = .commit c → c.arrived < s.reports.length) (may : MayEnd s caller) :
    Good (s.polled caller) := by
  cases caller with
  | timer => exact .quiet ok fun _ h => by cases h
  | boot =>
    exact ⟨⟨ok.core, ok.requests, ok.bound, ok.swap, ok.known, ok.reports⟩, fun _ h => by cases h⟩
  | commit c => exact ok.resumeConsumer (lt c rfl) may

theorem Inv.fetchFailed (ok : Inv s) {caller : Caller}
    (lt : ∀ c, caller = .commit c → c.arrived < s.reports.length) (may : MayEnd s caller) :
    Good (s.fetchFailed caller) := by
  cases caller with
  | timer => exact ok.polled lt may
  | boot =>
    exact ⟨⟨ok.core, ok.requests, ok.bound, ok.swap, ok.known, ok.reports⟩, fun _ h => by cases h⟩
  | commit c => exact ok.polled lt may

theorem holds_of_spawning {body : Body Target} {x : Option Target}
    (spawns : spawning body = some x) :
    holds body = true := by
  cases body with
  | rebuildSpawn => rfl
  | haltSpawn => rfl
  | _ => cases spawns

/-- The watcher moves to a target that the rebuild in progress may take over. -/
theorem Core.retarget (ok : Inv s) {x : Target} (takes : TakesOver s x) :
    Core { s.runtime with activeTarget := some x } (some x) s.reports := by
  refine ⟨ok.core.mutex, rfl, ok.core.held, ok.core.config, fun task mem => ?_⟩
  have fits := ok.core.fits task mem
  refine ⟨fun y spawns => ?_, fun held c waits => ?_, fits.prepares, fits.stops, fits.abandoned,
    fits.next⟩
  · rw [(takes task mem (holds_of_spawning spawns)).1] at spawns
    cases spawns
  · exact ⟨x, rfl, (takes task mem held).2 c waits⟩

theorem Inv.retarget (ok : Inv s) {x : Target} (takes : TakesOver s x)
    (busy : s.runtime.rebuilding = true) : Inv (s.retarget x) := by
  refine ⟨Core.retarget ok takes, ok.requests, .inl busy, fun swapping =>
    ?_, fun _ h => (by cases h),
    ok.reports⟩
  exact ⟨fun h => (by cases h), (ok.swap swapping).2⟩

theorem Inv.setPolled (ok : Inv s) (current : s.currentTarget ≠ none) (x : Target) :
    Inv { s with lastPolled := some x } :=
  ⟨ok.core, ok.requests, ok.bound, ok.swap, fun _ => current, ok.reports⟩

/-- A rebuild that the watcher starts when it moves to another target. -/
theorem Inv.movedAndRebuilt (ok : Inv s) {x : Target} (takes : TakesOver s x)
    {q : Runtime Target Owner} {owner : Owner}
    (went : (s.retarget x).runtime.rebuild none none owner = .ok q)
    (recent : ∀ c, waiting owner = some c → Since s.reports c x) :
    Core q (some x) s.reports ∧ q.rebuilding = true ∧
      ((∃ caller, owner = .swap caller) → SwapHeld q) := by
  obtain ⟨core, busy, body, mem, held⟩ :=
    (Core.retarget ok takes).rebuild went fun c waits => ⟨x, rfl, recent c waits⟩
  exact ⟨core, busy, fun swap => ⟨_, mem, held, swap⟩⟩

theorem Inv.swapTo (ok : Inv s) {x : Target} {caller : Caller}
    (lt : ∀ c, caller = .commit c → c.arrived < s.reports.length)
    (brought : ∀ c, caller = .commit c → Since s.reports c x) (keeps : KeepsOnArrival s x caller) :
    Good ({ s with lastPolled := some x }.swapTo x caller) := by
  unfold State.swapTo
  unfold KeepsOnArrival at keeps
  split
  · rename_i same
    dsimp only at same
    rw [if_pos (.inl same)] at keeps
    have current : s.currentTarget ≠ none := by
      intro none
      rw [none] at same
      cases same
    exact (ok.setPolled current x).polled lt keeps
  · rename_i differs
    split
    · rename_i swapping
      dsimp only at swapping
      rw [if_pos (.inr swapping)] at keeps
      exact (ok.setPolled (ok.swap swapping).1 x).polled lt keeps
    · rename_i idle
      dsimp only at differs idle
      rw [if_neg (not_or.mpr ⟨differs, idle⟩)] at keeps
      obtain ⟨takes, may⟩ := keeps
      dsimp only
      split
      · rename_i q went
        have waits : ∀ c, waiting (.swap caller) = some c → Since s.reports c x := by
          intro c waits
          cases caller with
          | commit d =>
            obtain rfl := Option.some.inj waits
            exact brought _ rfl
          | timer => cases waits
          | boot => cases waits
        obtain ⟨core, busy, swap⟩ := ok.movedAndRebuilt takes went waits
        refine ⟨⟨core, ok.requests, .inl busy, fun _ => ⟨fun h => (by cases h), ?_⟩,
          fun _ h => (by cases h), ok.reports⟩, fun _ h => by cases h⟩
        exact swap ⟨caller, rfl⟩
      · rename_i err went
        have busy : s.runtime.rebuilding = true := by
          by_contra free
          obtain ⟨q, went'⟩ := rebuild_of_free (Core.retarget ok takes).config
            (Bool.eq_false_iff.mpr free) (.swap caller)
          cases went.symm.trans went'
        have moved := (ok.retarget takes busy).setPolled (fun h => (by cases h)) x
        refine moved.polled lt ?_
        cases caller with
        | timer => trivial
        | boot => trivial
        | commit c =>
          have none := may busy
          simp only [MayEnd, busy, if_true] at none
          simp only [MayEnd, State.retarget, busy, if_true]
          exact none

theorem Inv.useFallback (ok : Inv s) {x : Target} (takes : TakesOver s x) :
    Inv (s.useFallback x) := by
  unfold State.useFallback
  dsimp only
  split
  · rename_i q went
    obtain ⟨core, busy, _⟩ := ok.movedAndRebuilt takes went fun c waits => by cases waits
    refine ⟨core, ok.requests, .inl busy, fun swapping => ?_, fun _ h => (by cases h), ok.reports⟩
    obtain ⟨task, mem, held, _⟩ := (ok.swap swapping).2
    have taken := ok.core.rebuilding_of_holds mem held
    have free := free_of_rebuild went
    rw [show s.runtime.rebuilding = false from free] at taken
    cases taken
  · rename_i err went
    have busy : s.runtime.rebuilding = true := by
      by_contra free
      obtain ⟨q, went'⟩ := rebuild_of_free (Core.retarget ok takes).config
        (Bool.eq_false_iff.mpr free) .fallback
      cases went.symm.trans went'
    have moved := ok.retarget takes busy
    exact ⟨moved.core, moved.requests, moved.bound, moved.swap, moved.known, moved.reports⟩

/-- The body that holds the flag is the one a swap waits for. -/
theorem Inv.swap_waits (ok : Inv s) {i : ℕ} {task : Task Target Owner}
    (here : s.runtime.tasks[i]? = some task) (held : holds task.body = true)
    (swapping : s.swapping = true) : ∃ caller, task.owner = .swap caller := by
  obtain ⟨x, mem, hx, swap⟩ := (ok.swap swapping).2
  have others := ok.core.not_holds here held
  obtain ⟨lt, rfl⟩ := List.getElem?_eq_some_iff.mp here
  rcases List.mem_cons.mp ((List.getElem_cons_eraseIdx_perm lt).mem_iff.mpr mem) with rfl | rest
  · exact swap
  · rw [others x rest] at hx
    cases hx

/-- The runtime without its flag, after the body that held it. -/
theorem Inv.ended (ok : Inv s) {i : ℕ} {task : Task Target Owner} {q : Runtime Target Owner}
    (here : s.runtime.tasks[i]? = some task) (core : Core q s.currentTarget s.reports)
    (bound : Bound { s with runtime := q }) (held : holds task.body = true)
    (flag : q.rebuilding = false) (result : Except RebuildError Unit)
    (serves : ∀ u, result = .ok u → ∃ t, s.currentTarget = some t ∧ Serves q t)
    (left : ∀ err, result = .error err → q.multi = none ∧ CommitLeft s task.owner) :
    Good ({ s with runtime := q }.told (task.owner, result)) := by
  have swapped : Inv { s with runtime := q, swapping := false } :=
    ⟨core, ok.requests, bound, fun h => (by cases h), ok.known, ok.reports⟩
  have other : (∀ caller, task.owner ≠ .swap caller) → Inv { s with runtime := q } := by
    intro other
    have idle : s.swapping = false := by
      by_contra swapping
      obtain ⟨caller, same⟩ := ok.swap_waits here held (Bool.not_eq_false _ ▸ swapping)
      exact other caller same
    refine ⟨core, ok.requests, bound, fun h => ?_, ok.known, ok.reports⟩
    rw [show s.swapping = true from h] at idle
    cases idle
  have recent := (ok.core.fits task (List.mem_of_getElem? here)).recent held
  cases owner : task.owner with
  | swap caller =>
    rw [owner] at recent
    refine swapped.polled (fun c h => ?_) ?_
    · subst h
      obtain ⟨x, _, since⟩ := recent c rfl
      exact since.lt
    · cases caller with
      | timer => trivial
      | boot => trivial
      | commit c =>
        simp only [MayEnd, flag, Bool.false_eq_true, if_false]
        exact recent c rfl
  | fallback =>
    have kept := other fun _ h => by cases owner.symm.trans h
    exact ⟨⟨kept.core, kept.requests, kept.bound, kept.swap, kept.known, kept.reports⟩,
      fun _ h => by cases h⟩
  | commit c =>
    have kept := other fun _ h => by cases owner.symm.trans h
    rw [owner] at recent left
    obtain ⟨x, current, since⟩ := recent c rfl
    cases result with
    | ok u =>
      obtain ⟨y, same, on⟩ := serves u rfl
      obtain rfl := Option.some.inj (current.symm.trans same)
      exact kept.committed current on since
    | error err =>
      obtain ⟨none, awaits⟩ := left err rfl
      exact kept.attemptFailed since.lt (.inr (.inr ⟨none, .inr awaits⟩)) err
  | post => exact .quiet (other fun _ h => by cases owner.symm.trans h) fun _ h => by cases h
  | halt => exact .quiet (other fun _ h => by cases owner.symm.trans h) fun _ h => by cases h
  | timedOutPrepare =>
    exact .quiet (other fun _ h => by cases owner.symm.trans h) fun _ h => by cases h
  | prepare switchId =>
    have kept := other fun _ h => by cases owner.symm.trans h
    cases result with
    | ok u =>
      refine ⟨⟨kept.core, kept.requests, ?_, kept.swap, kept.known, kept.reports⟩,
        fun _ h => by cases h⟩
      exact kept.bound.imp id (Or.imp id fun left => ⟨left.1, .inr rfl⟩)
    | error err => exact .quiet kept fun _ h => by cases h

theorem Inv.settled (ok : Inv s) {i : ℕ} {task : Task Target Owner} {q : Runtime Target Owner}
    {outcome : Outcome} {told : Option (Owner × Except RebuildError Unit)}
    (here : s.runtime.tasks[i]? = some task) (keeps : KeepsOnSettle s task outcome)
    (went : { s.runtime with tasks := s.runtime.tasks.eraseIdx i }.resume task.owner
      task.body outcome =
      some (q, told)) :
    Good (s.bodyGone q told) := by
  obtain ⟨core, goes⟩ := resume_goes ok.core here keeps went
  have swapKept : (SwapHeld s.runtime → SwapHeld q) → s.swapping = true →
      s.currentTarget ≠ none ∧ SwapHeld q :=
    fun held swapping => ⟨(ok.swap swapping).1, held (ok.swap swapping).2⟩
  cases goes with
  | on flag swap serves =>
    refine ⟨⟨core, ok.requests, ?_, swapKept swap, ok.known, ok.reports⟩, fun _ h => by cases h⟩
    rcases serves with busy | ⟨multi, serves⟩
    · exact .inl (flag.trans busy)
    · rcases ok.bound with busy | ⟨x, current, on⟩ | ⟨none, left⟩
      · exact .inl (flag.trans busy)
      · exact .inr (.inl ⟨x, current, serves x on⟩)
      · exact .inr (.inr ⟨multi.trans none, left⟩)
  | ended held flag fine failed =>
    rename_i result
    refine ok.ended here core ?_ held flag result fine failed
    cases result with
    | ok u => exact .inr (.inl (fine u rfl))
    | error err => exact .inr (.inr ⟨(failed err rfl).1, .inr (failed err rfl).2.awaits⟩)
  | drained prepared flag swap multi =>
    rcases (ok.core.fits task (List.mem_of_getElem? here)).prepares _ prepared with
      ⟨switchId, owner⟩ | owner
    · rw [owner]
      refine ⟨⟨core, ok.requests, ?_, swapKept swap, ok.known, ok.reports⟩, fun _ h => by cases h⟩
      exact .inr (.inr ⟨multi, .inr rfl⟩)
    · rw [owner]
      refine ⟨⟨core, ok.requests, ?_, swapKept swap, ok.known, ok.reports⟩, fun _ h => by cases h⟩
      obtain ⟨body, own⟩ := task
      dsimp only at prepared owner
      subst prepared owner
      cases outcome with
      | ok =>
        rcases keeps rfl with busy | pending
        · exact .inl (flag.trans busy)
        · exact .inr (.inr ⟨multi, .inr pending⟩)
      | failed => cases (Prod.mk.inj (Option.some.inj went)).2
      | timedOut => cases went
  | refused prepared flag swap multi serves =>
    have kept : Inv { s with runtime := q } := by
      refine ⟨core, ok.requests, ?_, swapKept swap, ok.known, ok.reports⟩
      rcases ok.bound with busy | ⟨x, current, on⟩ | ⟨none, left⟩
      · exact .inl (flag.trans busy)
      · exact .inr (.inl ⟨x, current, serves x on⟩)
      · exact .inr (.inr ⟨multi.trans none, left⟩)
    rcases (ok.core.fits task (List.mem_of_getElem? here)).prepares _ prepared with
      ⟨switchId, owner⟩ | owner
    · rw [owner]
      exact .quiet kept fun _ h => by cases h
    · rw [owner]
      exact .quiet kept fun _ h => by cases h

theorem Since.append {reports : List Target} {c : Commit} {x : Target} (since : Since reports c x)
    (more : List Target) : Since (reports ++ more) c x := by
  rw [Since, List.drop_append_of_le_length since.lt.le]
  exact List.mem_append_left _ since

/-- What is active now has been so since any commit that has come in. -/
theorem since_last {reports : List Target} {c : Commit} {x : Target}
    (lt : c.arrived < reports.length) (last : reports.getLast? = some x) : Since reports c x := by
  obtain ⟨init, rfl⟩ := List.getLast?_eq_some_iff.mp last
  rw [List.length_append, List.length_singleton] at lt
  rw [Since, List.drop_append_of_le_length (Nat.le_of_lt_succ lt)]
  exact List.mem_append_right _ List.mem_cons_self

theorem Inv.apiSwitch (ok : Inv s) (x : Target) : Inv { s with reports := s.reports ++ [x] } := by
  have longer : ∀ {n}, n < s.reports.length → n < (s.reports ++ [x]).length := by
    intro n lt
    rw [List.length_append]
    exact Nat.lt_add_right _ lt
  refine ⟨⟨ok.core.mutex, ok.core.follows, ok.core.held, ok.core.config, fun task mem => ?_⟩,
    ⟨fun p mem c by_c => ?_, fun c mem => longer (ok.requests.slept c mem)⟩, ok.bound, ok.swap,
    ok.known, fun none => ?_⟩
  · have fits := ok.core.fits task mem
    refine ⟨fits.spawns, fun held c waits => ?_, fits.prepares, fits.stops, fits.abandoned,
      fits.next⟩
    obtain ⟨y, current, since⟩ := fits.recent held c waits
    exact ⟨y, current, since.append [x]⟩
  · obtain ⟨lt, brought⟩ := ok.requests.answers p mem c by_c
    exact ⟨longer lt, fun y answer => (brought y answer).append [x]⟩
  · exact ok.reports (List.append_eq_nil_iff.mp none).1

theorem Inv.fetchTarget (ok : Inv s) {caller : Caller}
    (lt : ∀ c, caller = .commit c → c.arrived < s.reports.length) : Inv (s.fetchTarget caller) := by
  refine ⟨ok.core, ⟨fun p mem c by_c => ?_, ok.requests.slept⟩, ok.bound, ok.swap, ok.known,
    ok.reports⟩
  rcases List.mem_append.mp mem with old | new
  · exact ok.requests.answers p old c by_c
  · obtain rfl := List.mem_singleton.mp new
    exact ⟨lt c by_c, fun y answer => by cases answer⟩

theorem Inv.answer (ok : Inv s) {active : Target}
    (last : s.reports.getLast? = some active) (i : ℕ) :
    Inv { s with polls := s.polls.modify i fun p => { p with answer := p.answer.or active } } := by
  refine ⟨ok.core, ⟨fun p mem c by_c => ?_, ok.requests.slept⟩, ok.bound, ok.swap, ok.known,
    ok.reports⟩
  obtain ⟨j, here⟩ := List.mem_iff_getElem?.mp mem
  obtain ⟨before, was, rfl⟩ := Option.map_eq_some_iff.mp ((List.getElem?_modify ..).symm.trans here)
  have old : before.caller = .commit c := by
    split at by_c
    · exact by_c
    · exact by_c
  obtain ⟨lt, brought⟩ := ok.requests.answers before (List.mem_of_getElem? was) c old
  refine ⟨lt, fun y answer => ?_⟩
  split at answer
  · rcases Option.or_eq_some_iff.mp answer with earlier | ⟨_, now⟩
    · exact brought y earlier
    · obtain rfl := Option.some.inj now
      exact since_last lt last
  · exact brought y answer

theorem Inv.erasePoll (ok : Inv s) (i : ℕ) : Inv { s with polls := s.polls.eraseIdx i } :=
  ⟨ok.core, ⟨fun p mem => ok.requests.answers p (List.mem_of_mem_eraseIdx mem), ok.requests.slept⟩,
    ok.bound, ok.swap, ok.known, ok.reports⟩

theorem Inv.prepare (ok : Inv s) (switchId : String) : Good (s.prepare switchId) := by
  unfold State.prepare
  split
  · rename_i none
    exact ⟨⟨ok.core, ok.requests, .inr (.inr ⟨none, .inr rfl⟩), ok.swap, ok.known, ok.reports⟩,
      fun _ h => by cases h⟩
  · rename_i m handed
    have started : s.runtime.prepare (.prepare switchId) =
        s.runtime.await (.prepareDrain m) (.prepare switchId) := by
      unfold Runtime.prepare
      rw [handed]
    rw [started]
    refine ⟨⟨ok.core.prepareDrain m switchId, ok.requests, ok.bound, fun swapping => ?_, ok.known,
      ok.reports⟩, fun _ h => by cases h⟩
    obtain ⟨current, task, mem, rest⟩ := ok.swap swapping
    exact ⟨current, task, List.mem_append_left _ mem, rest⟩

theorem Inv.prepareTimeout (ok : Inv s) {i : ℕ} {task : Task Target Owner} {switchId : String}
    (here : s.runtime.tasks[i]? = some task) (owner : task.owner = .prepare switchId) :
    Inv { s with runtime := { s.runtime with
      tasks := s.runtime.tasks.modify i fun task =>
        { task with owner := .timedOutPrepare } } } := by
  have at_j : ∀ {j x},
      (s.runtime.tasks.modify i fun task => { task with owner := .timedOutPrepare })[j]? =
      some x → ∃ before, s.runtime.tasks[j]? = some before ∧
        (if i = j then { before with owner := .timedOutPrepare } else before) = x :=
    fun there => Option.map_eq_some_iff.mp ((List.getElem?_modify ..).symm.trans there)
  refine ⟨ok.core.change ?_ rfl le_rfl (.inl rfl) ok.core.config fun x mem => ?_, ok.requests,
    ok.bound, fun swapping => ?_, ok.known, ok.reports⟩
  · refine Eq.trans ?_ ok.core.mutex
    have bodies : (s.runtime.tasks.modify i fun task => { task with owner := .timedOutPrepare }).map
        Task.body = s.runtime.tasks.map Task.body := by
      refine List.ext_getElem? fun j => ?_
      rw [List.getElem?_map, List.getElem?_map, List.getElem?_modify]
      cases s.runtime.tasks[j]? with
      | none => rfl
      | some x =>
        dsimp only [Option.map_eq_map, Option.map_some]
        split <;> rfl
    have counted := congrArg (List.countP holds) bodies
    rw [List.countP_map, List.countP_map] at counted
    exact counted
  · obtain ⟨j, there⟩ := List.mem_iff_getElem?.mp mem
    obtain ⟨before, was, rfl⟩ := at_j there
    have old := List.mem_of_getElem? was
    split
    · have fits := ok.core.fits before old
      exact .inr ⟨fits.spawns, fun _ c waits => (by cases waits), fun _ _ => .inr rfl, fits.stops,
        fits.abandoned, fits.next⟩
    · exact .inl old
  · obtain ⟨current, x, mem, held, caller, swap⟩ := ok.swap swapping
    obtain ⟨j, there⟩ := List.mem_iff_getElem?.mp mem
    refine ⟨current, x, List.mem_of_getElem? (i := j) ?_, held, caller, swap⟩
    have other : i ≠ j := by
      rintro rfl
      obtain rfl := Option.some.inj (here.symm.trans there)
      cases owner.symm.trans swap
    exact (List.getElem?_modify_ne _ _ other).trans there

theorem Inv.commit (ok : Inv s) (switchId : String) : Good (s.commit switchId) := by
  unfold State.commit
  split
  · exact .quiet ok fun _ h => by cases h
  · refine .quiet (ok.fetchTarget fun c h => ?_) fun _ h => by cases h
    obtain rfl := Caller.commit.inj h
    exact Nat.sub_lt (List.length_pos_of_ne_nil ok.reports) Nat.one_pos

theorem Inv.nextAttempt (ok : Inv s) {c : Commit} (lt : c.arrived < s.reports.length) :
    Good (s.nextAttempt c) := by
  unfold State.nextAttempt
  split
  · exact .quiet ok fun _ h => by cases h
  · refine .quiet (ok.fetchTarget fun d h => ?_) fun _ h => by cases h
    obtain rfl := Caller.commit.inj h
    exact lt

theorem Inv.haltAndFlush (ok : Inv s) {q : Runtime Target Owner}
    (went : s.runtime.haltAndFlush .halt = .ok q) : Inv { s with runtime := q } := by
  obtain ⟨core, busy⟩ := ok.core.haltAndFlush went
  refine ⟨core, ok.requests, .inl busy, fun swapping => ?_, ok.known, ok.reports⟩
  obtain ⟨task, mem, held, _⟩ := (ok.swap swapping).2
  have taken := ok.core.rebuilding_of_holds mem held
  unfold Runtime.haltAndFlush at went
  rw [if_pos taken] at went
  cases went

theorem Inv.stepWith (ok : Inv s) {e : Event} (keeps : KeepsTarget s e) {x : State × Option Reply}
    (went : stepWith s e = some x) : Good x := by
  cases e with
  | apiSwitch y =>
    obtain rfl := Option.some.inj went
    exact .quiet (ok.apiSwitch y) fun _ h => by cases h
  | pollTimer =>
    obtain ⟨_, went⟩ := Option.ite_none_right_eq_some.mp went
    obtain rfl := Option.some.inj went
    exact .quiet (ok.fetchTarget fun c h => by cases h) fun _ h => by cases h
  | start =>
    obtain ⟨_, went⟩ := Option.ite_none_left_eq_some.mp went
    obtain rfl := Option.some.inj went
    have started : Inv { s with starting := true } :=
      ⟨ok.core, ok.requests, ok.bound, ok.swap, ok.known, ok.reports⟩
    exact .quiet (started.fetchTarget fun c h => by cases h) fun _ h => by cases h
  | fallback y =>
    obtain ⟨_, went⟩ := Option.ite_none_left_eq_some.mp went
    obtain rfl := Option.some.inj went
    exact .quiet (ok.useFallback keeps) fun _ h => by cases h
  | answer i =>
    obtain ⟨active, last, went⟩ := Option.bind_eq_some_iff.mp went
    obtain rfl := Option.some.inj went
    exact .quiet (ok.answer last i) fun _ h => by cases h
  | arrive i =>
    obtain ⟨p, here, went⟩ := Option.bind_eq_some_iff.mp went
    obtain ⟨y, answer, went⟩ := Option.bind_eq_some_iff.mp went
    obtain rfl := Option.some.inj went
    have known := ok.requests.answers p (List.mem_of_getElem? here)
    exact (ok.erasePoll i).swapTo (fun c h => (known c h).1) (fun c h => (known c h).2 y answer)
      (keeps p here y answer)
  | fetchFails i =>
    obtain ⟨p, here, went⟩ := Option.bind_eq_some_iff.mp went
    obtain rfl := Option.some.inj went
    have known := ok.requests.answers p (List.mem_of_getElem? here)
    exact (ok.erasePoll i).fetchFailed (fun c h => (known c h).1) (keeps p here)
  | prepare switchId =>
    obtain rfl := Option.some.inj went
    exact ok.prepare switchId
  | prepareTimeout i =>
    obtain ⟨task, here, went⟩ := Option.bind_eq_some_iff.mp went
    split at went
    · rename_i switchId owner
      obtain rfl := Option.some.inj went
      exact .quiet (ok.prepareTimeout here owner) fun _ h => by cases h
    · cases went
  | commit switchId =>
    obtain rfl := Option.some.inj went
    exact ok.commit switchId
  | wake i =>
    obtain ⟨c, here, went⟩ := Option.bind_eq_some_iff.mp went
    obtain rfl := Option.some.inj went
    have erased : Inv { s with sleeping := s.sleeping.eraseIdx i } :=
      ⟨ok.core, ⟨ok.requests.answers, fun d mem =>
        ok.requests.slept d (List.mem_of_mem_eraseIdx mem)⟩, ok.bound, ok.swap,
          ok.known, ok.reports⟩
    exact erased.nextAttempt (ok.requests.slept c (List.mem_of_getElem? here))
  | post totalShards assignment =>
    obtain ⟨_, went⟩ := Option.ite_none_left_eq_some.mp went
    obtain rfl := Option.some.inj went
    refine .quiet ?_ fun _ h => by cases h
    cases rebuilt : s.runtime.rebuild (some totalShards) (some (assignment.getD "all")) .post with
    | error err => exact ok
    | ok q => exact ok.rebuilt rebuilt fun c waits => by cases waits
  | haltAndFlush =>
    obtain rfl := Option.some.inj went
    refine .quiet ?_ fun _ h => by cases h
    cases halted : s.runtime.haltAndFlush .halt with
    | error err => exact ok
    | ok q => exact ok.haltAndFlush halted
  | settle i outcome =>
    obtain ⟨⟨q, told⟩, settled, went⟩ := Option.bind_eq_some_iff.mp went
    obtain rfl := Option.some.inj went
    obtain ⟨task, here, resumed⟩ := Option.bind_eq_some_iff.mp settled
    exact ok.settled here (keeps task here) resumed

end State

theorem inv_initial (setup : Setup) (active : Target) : Inv (.initial setup active) := by
  refine ⟨⟨rfl, rfl, fun m h => (by cases h), ⟨Nat.le_max_left .., setup.assigned⟩, fun task mem =>
    by cases mem⟩, ⟨fun p mem => (by cases mem), fun c mem => (by cases mem)⟩,
    .inr (.inr ⟨rfl, .inl rfl⟩), fun h => (by cases h), fun h => absurd rfl h, fun h => by cases h⟩

theorem Inv.converges {s : State} (ok : Inv s) : Converges s := by
  intro ⟨idle, _, _, answered⟩ v polled
  have free : ¬ SwapHeld s.runtime := by
    rintro ⟨task, mem, _⟩
    rw [idle] at mem
    cases mem
  have resting : s.swapping = false := by
    by_contra swapping
    exact free (ok.swap (Bool.not_eq_false _ ▸ swapping)).2
  by_cases same : s.currentTarget.map (·.version) = some v.version
  · rcases ok.bound with busy | ⟨x, current, serves⟩ | ⟨_, none | pending⟩
    · have count := ok.core.mutex
      rw [idle, busy] at count
      cases count
    · rw [current] at same
      exact .inl ⟨x, serves, Option.some.inj same⟩
    · exact absurd none (ok.known fun h => by cases polled.symm.trans h)
    · rw [answered] at pending
      cases pending
  · exact .inr ⟨resting, same⟩

def demoSetup : Setup := ⟨1, "all", by decide +kernel⟩

def demoTarget (label : String) (version : ℤ) : Target :=
  ⟨"redis-" ++ label, 6379, false, 0, none, label, version⟩

/-- The service starts on one target and is switched to another by prepare and commit. -/
def switched : List Event :=
  [.start, .answer 0, .arrive 0, .settle 0 .ok, .prepare "s1", .settle 0 .ok,
   .apiSwitch (demoTarget "green" 2), .commit "s1", .answer 0, .arrive 0, .settle 0 .ok]

/-- A switch is prepared, and the poll of its commit fails. -/
def failedPoll : List Event :=
  [.start, .answer 0, .arrive 0, .settle 0 .ok, .prepare "s1", .settle 0 .ok,
   .apiSwitch (demoTarget "green" 2), .commit "s1", .fetchFails 0, .settle 0 .ok]

/-- The shards are rebuilt, and a poll finds the new target while the consumer is spawned. -/
def busyPoll : List Event :=
  [.start, .answer 0, .arrive 0, .settle 0 .ok, .post 2 none, .settle 0 .ok,
   .apiSwitch (demoTarget "green" 2), .pollTimer, .answer 0, .arrive 0, .settle 0 .ok]

end IngestRebind
