import Frtb.HaltAndFlush
import Frtb.ShardExclusion

/-!
# Failed rebuilds

What the runtime reports after a `rebuild` or a `haltAndFlush` that rejects. A rebuild
takes the new assignment over before it spawns; halt-and-flush never changes it. Calls
are told apart by the snapshot of the runtime they were made on.
-/

namespace RebuildFailure

open EventRuns ShardRuntime

variable {τ : Type}

section Calls

structure ShardSnapshot where
  totalShards : ℕ
  assignment : List ℕ
  streams : List String
  rebuilding : Bool
  deriving DecidableEq, Repr

def streamsFor (baseStream : String) (assignment : List ℕ) (totalShards : ℕ) : List String :=
  assignment.map fun s => HaltAndFlush.shardStreamKey baseStream s totalShards

def snapshot {ω : Type} (baseStream : String) (r : Runtime τ ω) : ShardSnapshot where
  totalShards := r.config.totalShards
  assignment := r.config.assignment
  streams := streamsFor baseStream r.config.assignment r.config.totalShards
  rebuilding := r.rebuilding

/-- What happens to the runtime. -/
inductive Event (τ : Type)
  | rebuild (totalShards : Option ℤ) (assignmentSpec : Option String)
  | haltAndFlush
  | prepare
  | reset
  | settle (i : ℕ) (outcome : Outcome)
  | retarget (target : τ)
  deriving DecidableEq

/-- The call takes note of what was reported before it. -/
def Event.stamped (before : ShardSnapshot) : Event τ → ShardExclusion.Event τ ShardSnapshot
  | .rebuild totalShards spec => .rebuild totalShards spec before
  | .haltAndFlush => .haltAndFlush before
  | .prepare => .prepare before
  | .reset => .reset
  | .settle i outcome => .settle i outcome
  | .retarget target => .retarget target

def step (baseStream : String) (r : Runtime τ ShardSnapshot) (e : Event τ) :
    Option (Runtime τ ShardSnapshot) :=
  ShardExclusion.step r (e.stamped (snapshot baseStream r))

/-- The shards reported are the ones reported before. -/
structure Reports (baseStream : String) (before : ShardSnapshot) (t : Runtime τ ShardSnapshot) :
    Prop where
  totalShards : (snapshot baseStream t).totalShards = before.totalShards
  assignment : (snapshot baseStream t).assignment = before.assignment
  streams : (snapshot baseStream t).streams = before.streams

/-- A consumer for these shards. -/
def For (x : ShardSnapshot) (c : MultiConsumer τ) : Prop :=
  c.totalShards = x.totalShards ∧ c.assignment = x.assignment

/-- The consumer handed out runs, and reads the shards reported before. -/
def Live (before : ShardSnapshot) (t : Runtime τ ShardSnapshot) : Prop :=
  ∃ m c, t.multi = some m ∧ t.consumers[m]? = some c ∧ c.running = true ∧ For before c

/-- The shards reported have had a consumer, or no older one runs. -/
def Described (baseStream : String) (t : Runtime τ ShardSnapshot) : Prop :=
  (∃ c ∈ t.consumers, For (snapshot baseStream t) c) ∨ ∀ c ∈ t.consumers, c.running = false

def ofRebuild : Body τ → Bool
  | .rebuildDrain _ _ | .rebuildSpawn _ _ => true
  | _ => false

def ofHalt : Body τ → Bool
  | .haltDrain _ | .between | .haltSpawn _ _ => true
  | _ => false

/-- What a call that rejects in this body must leave. -/
structure Recovered (baseStream : String) (body : Body τ) (before : ShardSnapshot)
    (t : Runtime τ ShardSnapshot) : Prop where
  rebuild : ofRebuild body →
    Reports baseStream before t ∧ (snapshot baseStream t).rebuilding = false
  halt : ofHalt body → Live before t ∨ t.multi = none ∧ Reports baseStream before t
  described : ofRebuild body ∨ ofHalt body → Described baseStream t

def Good (baseStream : String) (r : Runtime τ ShardSnapshot) (e : Event τ)
    (t : Runtime τ ShardSnapshot) : Prop :=
  match e with
  | .rebuild totalShards spec =>
    r.rebuild totalShards spec (snapshot baseStream r) = .error .invalidShardSpec →
      Reports baseStream (snapshot baseStream r) t ∧ (snapshot baseStream t).rebuilding = false ∧
        Described baseStream t
  | .settle i outcome => ∀ task, r.tasks[i]? = some task →
    ∀ error, r.settle i outcome = some (t, some (task.owner, .error error)) →
      Recovered baseStream task.body task.owner t
  | _ => True

/-- A reset finds no call in flight. -/
def Unforced (r : Runtime τ ShardSnapshot) (e : Event τ) : Prop :=
  match e with
  | .reset => r.rebuilding = false
  | _ => True

/-- The spawn of a rebuild succeeds, or was for the shards there were before. -/
def FitsOnSettle (before : ShardSnapshot) (outcome : Outcome) : Body τ → Prop
  | .rebuildSpawn config _ => outcome = .ok ∨
    config.totalShards = before.totalShards ∧ config.assignment = before.assignment
  | _ => True

def Fits (r : Runtime τ ShardSnapshot) (e : Event τ) : Prop :=
  match e with
  | .settle i outcome => ∀ task, r.tasks[i]? = some task →
    FitsOnSettle task.owner outcome task.body
  | _ => True

instance (before : ShardSnapshot) (outcome : Outcome) (body : Body τ) :
    Decidable (FitsOnSettle before outcome body) :=
  match body with
  | .rebuildSpawn _ _ => inferInstanceAs (Decidable (_ ∨ _ ∧ _))
  | .rebuildDrain _ _ | .haltDrain _ | .between | .haltSpawn _ _ | .prepareDrain _
  | .abandonedStop _ | .abandonedSpawn _ _ => inferInstanceAs (Decidable True)

instance (r : Runtime τ ShardSnapshot) (e : Event τ) : Decidable (Fits r e) :=
  match e with
  | .settle i outcome => inferInstanceAs (Decidable (∀ task ∈ r.tasks[i]?,
      FitsOnSettle task.owner outcome task.body))
  | .rebuild _ _ | .haltAndFlush | .prepare | .reset | .retarget _ =>
    inferInstanceAs (Decidable True)

instance (r : Runtime τ ShardSnapshot) (e : Event τ) : Decidable (Unforced r e) :=
  match e with
  | .reset => inferInstanceAs (Decidable (r.rebuilding = false))
  | .rebuild _ _ | .haltAndFlush | .prepare | .settle _ _ | .retarget _ =>
    inferInstanceAs (Decidable True)

end Calls

section Invariant
variable {base : String} {r q t : Runtime τ ShardSnapshot} {x before : ShardSnapshot}

def inFlight (task : Task τ ShardSnapshot) : Bool := ofRebuild task.body || ofHalt task.body

/-- The calls in flight: they hold the `rebuilding` flag. -/
def holders (r : Runtime τ ShardSnapshot) : List (Task τ ShardSnapshot) := r.tasks.filter inFlight

/-- These shards have had a consumer, or none runs and a spawn given up can only bring one for
them. -/
def Known (x : ShardSnapshot) (r : Runtime τ ShardSnapshot) : Prop :=
  (∃ c ∈ r.consumers, For x c) ∨
    (∀ c ∈ r.consumers, c.running = false) ∧ ∀ task ∈ r.tasks, ∀ config target,
      task.body = .abandonedSpawn config target →
        config.totalShards = x.totalShards ∧ config.assignment = x.assignment

/-- What a call in flight finds, by the place it is suspended at. -/
def At (base : String) (r : Runtime τ ShardSnapshot) (before : ShardSnapshot) : Body τ → Prop
  | .rebuildDrain _ _ | .haltDrain _ => Reports base before r
  | .rebuildSpawn config _ =>
    config = r.config ∧ before.streams = streamsFor base before.assignment before.totalShards
  | .between => r.multi = none ∧ Reports base before r
  | .haltSpawn config _ => config = r.config ∧ r.multi = none ∧ Reports base before r
  | _ => True

/-- At most one call is in flight, and the shards reported before it are known. -/
def Held (base : String) (r : Runtime τ ShardSnapshot) : Prop :=
  match holders r with
  | [] => r.rebuilding = false ∧ Known (snapshot base r) r
  | [task] => r.rebuilding = true ∧ Known task.owner r ∧ At base r task.owner task.body
  | _ => False

theorem reports_self (base : String) (r : Runtime τ ShardSnapshot) :
    Reports base (snapshot base r) r := ⟨rfl, rfl, rfl⟩

theorem Reports.congr (reports : Reports base before r) (config : q.config = r.config) :
    Reports base before q := by
  refine ⟨?_, ?_, ?_⟩
  · exact (congrArg ShardConfig.totalShards config).trans reports.totalShards
  · exact (congrArg ShardConfig.assignment config).trans reports.assignment
  · refine Eq.trans ?_ reports.streams
    rw [snapshot, snapshot, config]

/-- The streams follow from the rest. -/
theorem Reports.of_shards
    (streams : before.streams = streamsFor base before.assignment before.totalShards)
    (total : r.config.totalShards = before.totalShards)
    (assignment : r.config.assignment = before.assignment) : Reports base before r := by
  refine ⟨total, assignment, ?_⟩
  rw [snapshot, streams, total, assignment]

theorem Reports.streams_own (reports : Reports base before r) :
    before.streams = streamsFor base before.assignment before.totalShards := by
  rw [← reports.streams, ← reports.assignment, ← reports.totalShards]
  rfl

theorem Known.congr (known : Known x r) (consumers : q.consumers = r.consumers)
    (tasks : ∀ task ∈ q.tasks, task ∈ r.tasks ∨
      ∀ config target, task.body ≠ .abandonedSpawn config target) : Known x q := by
  rcases known with spawned | ⟨idle, given⟩
  · exact .inl (consumers ▸ spawned)
  · refine .inr ⟨consumers ▸ idle, fun task mem config target body => ?_⟩
    rcases tasks task mem with old | other
    · exact given task old config target body
    · exact absurd body (other config target)

/-- Being known is about the shards alone. -/
theorem Known.of_shards (known : Known x r) (total : before.totalShards = x.totalShards)
    (assignment : before.assignment = x.assignment) : Known before r := by
  rcases known with ⟨c, mem, for_⟩ | ⟨idle, given⟩
  · exact .inl ⟨c, mem, for_.1.trans total.symm, for_.2.trans assignment.symm⟩
  · refine .inr ⟨idle, fun task mem config target body => ?_⟩
    have own := given task mem config target body
    exact ⟨own.1.trans total.symm, own.2.trans assignment.symm⟩

theorem Known.described (known : Known before r) (reports : Reports base before r) :
    Described base r := by
  have current := known.of_shards reports.totalShards reports.assignment
  exact current.imp_right And.left

theorem getElem?_stop (m k : ℕ) : (r.stopped m).consumers[k]? =
    (fun c => if m = k then { c with running := false } else c) <$> r.consumers[k]? :=
  List.getElem?_modify ..

theorem Known.stopped (known : Known x r) (m : ℕ) : Known x (r.stopped m) := by
  rcases known with ⟨c, mem, for_⟩ | ⟨idle, given⟩
  · obtain ⟨k, here⟩ := List.mem_iff_getElem?.mp mem
    refine .inl ⟨if m = k then { c with running := false } else c, ?_, ?_⟩
    · refine List.mem_iff_getElem?.mpr ⟨k, ?_⟩
      rw [getElem?_stop, here]
      rfl
    · split
      · exact for_
      · exact for_
  · refine .inr ⟨fun c mem => ?_, given⟩
    obtain ⟨k, here⟩ := List.mem_iff_getElem?.mp mem
    rw [getElem?_stop] at here
    obtain ⟨b, old, rfl⟩ := Option.map_eq_some_iff.mp here
    split
    · rfl
    · exact idle b (List.mem_of_getElem? old)

/-- A task that goes on is the only call in flight, or is none. -/
theorem holders_erase {i : ℕ} {task : Task τ ShardSnapshot} (here : r.tasks[i]? = some task) :
    inFlight task = false ∧
        holders { r with tasks := r.tasks.eraseIdx i } = holders r ∨
      inFlight task = true ∧ ∃ before after,
        holders r = before ++ task :: after ∧
          holders { r with tasks := r.tasks.eraseIdx i } = before ++ after := by
  obtain ⟨bound, rfl⟩ := List.getElem?_eq_some_iff.mp here
  have split : r.tasks = r.tasks.take i ++ r.tasks[i] :: r.tasks.drop (i + 1) := by
    rw [List.getElem_cons_drop, List.take_append_drop]
  have whole : holders r = (r.tasks.take i).filter inFlight ++
      (r.tasks[i] :: r.tasks.drop (i + 1)).filter inFlight := by
    rw [← List.filter_append, ← split]
    rfl
  have rest : holders { r with tasks := r.tasks.eraseIdx i } =
      (r.tasks.take i).filter inFlight ++ (r.tasks.drop (i + 1)).filter inFlight := by
    rw [← List.filter_append, ← List.eraseIdx_eq_take_drop_succ]
    rfl
  cases holds : inFlight r.tasks[i] with
  | false =>
    refine .inl ⟨rfl, ?_⟩
    rw [whole, rest, List.filter_cons_of_neg (ne_of_eq_of_ne holds Bool.false_ne_true)]
  | true =>
    refine .inr ⟨rfl, _, _, ?_, rest⟩
    rw [whole, List.filter_cons_of_pos holds]

/-- The call that goes on was the only one in flight. -/
theorem Held.of_holder (held : Held base r) {i : ℕ} {task : Task τ ShardSnapshot}
    (here : r.tasks[i]? = some task) (holds : inFlight task = true) :
    holders { r with tasks := r.tasks.eraseIdx i } = [] ∧ r.rebuilding = true ∧
      Known task.owner r ∧ At base r task.owner task.body := by
  obtain ⟨other, _⟩ | ⟨_, before, after, whole, rest⟩ := holders_erase here
  · exact absurd (other.symm.trans holds) Bool.false_ne_true
  · unfold Held at held
    split at held
    · rename_i none_
      rw [none_] at whole
      simp at whole
    · rename_i only one
      rw [one] at whole
      rcases List.append_eq_cons_iff.mp whole.symm with ⟨rfl, same⟩ | ⟨tail, rfl, same⟩
      · obtain ⟨rfl, rfl⟩ := List.cons.inj same
        exact ⟨rest, held⟩
      · simp at same
    · exact held.elim

theorem At.frame {body : Body τ} (found : At base r before body) (config : q.config = r.config)
    (multi : q.multi = r.multi ∨ q.multi = none) : At base q before body := by
  have unset : r.multi = none → q.multi = none := fun none_ => multi.elim (·.trans none_) id
  cases body with
  | rebuildDrain m next => exact Reports.congr found config
  | haltDrain m => exact Reports.congr found config
  | rebuildSpawn next target => exact ⟨found.1.trans config.symm, found.2⟩
  | between => exact ⟨unset found.1, found.2.congr config⟩
  | haltSpawn next target =>
    exact ⟨found.1.trans config.symm, unset found.2.1, found.2.2.congr config⟩
  | prepareDrain m => trivial
  | abandonedStop m => trivial
  | abandonedSpawn next target => trivial

theorem Held.frame (held : Held base r) (same : holders q = holders r)
    (rebuilding : q.rebuilding = r.rebuilding) (config : q.config = r.config)
    (multi : q.multi = r.multi ∨ q.multi = none) (known : ∀ x, Known x r → Known x q) :
    Held base q := by
  unfold Held at held ⊢
  rw [same]
  split
  · rename_i none_
    rw [none_] at held
    refine ⟨rebuilding.trans held.1, (known _ held.2).of_shards ?_ ?_⟩
    · exact congrArg ShardConfig.totalShards config
    · exact congrArg ShardConfig.assignment config
  · rename_i task one
    rw [one] at held
    obtain ⟨flag, known_, found⟩ := held
    refine ⟨rebuilding.trans flag, known _ known_, ?_⟩
    exact found.frame config multi
  · rename_i other one
    split at held
    · rename_i none_; exact absurd none_ other
    · rename_i task one_; exact absurd one_ (one task)
    · exact held

/-- A call that starts or goes on is the only one in flight. -/
theorem held_await {body : Body τ} (free : holders r = []) (flag : r.rebuilding = true)
    (known : Known before r) (holds : inFlight ⟨body, before⟩ = true)
    (found : At base (r.await body before) before body) : Held base (r.await body before) := by
  have only : holders (r.await body before) = [⟨body, before⟩] := by
    unfold holders at free ⊢
    rw [Runtime.await, List.filter_append, free, List.filter_cons_of_pos holds]
    rfl
  unfold Held
  rw [only]
  refine ⟨flag, known.congr rfl fun task mem => ?_, found⟩
  rcases List.mem_append.mp mem with old | new
  · exact .inl old
  · refine .inr fun config target same => ?_
    rw [List.mem_singleton.mp new] at same
    dsimp only at same
    subst same
    cases holds

theorem holders_await {body : Body τ} (other : inFlight ⟨body, before⟩ = false) :
    holders (r.await body before) = holders r := by
  unfold holders
  rw [Runtime.await, List.filter_append,
    List.filter_cons_of_neg (ne_of_eq_of_ne other Bool.false_ne_true), List.filter_nil,
    List.append_nil]

/-- No call is in flight any more. -/
theorem held_free (free : holders r = []) (flag : r.rebuilding = false)
    (known : Known (snapshot base r) r) : Held base r := by
  unfold Held
  rw [free]
  exact ⟨flag, known⟩

/-- A call that rejects with the old shards reported leaves all that it must. -/
theorem recovered_of_reports {body : Body τ} (reports : Reports base before t)
    (flag : t.rebuilding = false) (known : Known before t)
    (detached : ofHalt body = true → t.multi = none) : Recovered base body before t where
  rebuild := fun _ => ⟨reports, flag⟩
  halt := fun of => .inr ⟨detached of, reports⟩
  described := fun _ => known.described reports

theorem held_of_reports (free : holders t = []) (flag : t.rebuilding = false)
    (known : Known before t) (reports : Reports base before t) : Held base t :=
  held_free free flag (known.of_shards reports.totalShards reports.assignment)

theorem recovered_release (body : Body τ) (free : holders q = []) (known : Known before q)
    (reports : Reports base before q) (detached : ofHalt body = true → q.multi = none) :
    Recovered base body before (q.release false) ∧ Held base (q.release false) := by
  have kept : Known before (q.release false) := known.congr rfl fun _ mem => .inl mem
  have same : Reports base before (q.release false) := reports.congr rfl
  exact ⟨recovered_of_reports same rfl kept detached, held_of_reports free rfl kept same⟩

/-- A budget that ran out leaves the promise that was waited for. -/
theorem recovered_timeout (body left : Body τ) (free : holders q = []) (known : Known before q)
    (reports : Reports base before q) (other : inFlight ⟨left, before⟩ = false)
    (given : ∀ config target, left = .abandonedSpawn config target →
      config.totalShards = before.totalShards ∧ config.assignment = before.assignment) :
    Recovered base body before ((q.release true).await left before) ∧
      Held base ((q.release true).await left before) := by
  have kept : Known before ((q.release true).await left before) := by
    rcases known with spawned | ⟨idle, old⟩
    · exact .inl spawned
    · refine .inr ⟨idle, fun task mem config target same => ?_⟩
      rcases List.mem_append.mp mem with mem | new
      · exact old task mem config target same
      · rw [List.mem_singleton.mp new] at same
        exact given config target same
  have same : Reports base before ((q.release true).await left before) := reports.congr rfl
  refine ⟨recovered_of_reports same rfl kept fun _ => rfl, ?_⟩
  exact held_of_reports ((holders_await other).trans free) rfl kept same

theorem held_spawned {config : ShardConfig} (target : τ) (free : holders q = [])
    (own : config = q.config) : Held base
      ({ q.started config target with multi := some q.consumers.length }.release false) := by
  refine held_free free rfl (.inl ⟨⟨config.totalShards, config.assignment, target, true⟩, ?_, ?_⟩)
  · exact List.mem_append_right _ List.mem_cons_self
  · rw [own]
    exact ⟨rfl, rfl⟩

end Invariant

section Steps
variable {base : String} {r q t : Runtime τ ShardSnapshot} {before : ShardSnapshot}
  {answer : Option (ShardSnapshot × Except RebuildError Unit)}

/-- The call in flight goes on: it goes well exactly when it fits, and then leaves at most one in
flight. -/
theorem resume_holder {body : Body τ} {outcome : Outcome} (holds : inFlight ⟨body, before⟩ = true)
    (free : holders q = []) (flag : q.rebuilding = true) (known : Known before q)
    (found : At base q before body) (went : q.resume before body outcome = some (t, answer)) :
    ((∀ error, answer = some (before, .error error) → Recovered base body before t) ↔
      FitsOnSettle before outcome body) ∧ (FitsOnSettle before outcome body → Held base t) := by
  cases body with
  | rebuildDrain m next =>
    cases outcome with
    | ok =>
      obtain ⟨rfl, rfl⟩ := Prod.mk.inj (Option.some.inj went)
      refine ⟨iff_of_true nofun trivial, fun _ => ?_⟩
      exact held_await free flag ((known.stopped m).congr rfl fun _ mem => .inl mem) rfl
        ⟨rfl, Reports.streams_own found⟩
    | failed =>
      obtain ⟨rfl, rfl⟩ := Prod.mk.inj (Option.some.inj went)
      refine ⟨iff_of_true nofun trivial, fun _ => ?_⟩
      exact held_await free flag (known.congr rfl fun _ mem => .inl mem) rfl
        ⟨rfl, Reports.streams_own found⟩
    | timedOut =>
      obtain ⟨rfl, rfl⟩ := Prod.mk.inj (Option.some.inj went)
      obtain ⟨recovered, held⟩ := recovered_timeout (.rebuildDrain m next) (.abandonedStop m) free
        known found rfl nofun
      exact ⟨iff_of_true (fun _ _ => recovered) trivial, fun _ => held⟩
  | rebuildSpawn config target =>
    obtain ⟨own, streams⟩ := found
    have reports : config.totalShards = before.totalShards ∧ config.assignment = before.assignment →
        Reports base before q := fun same => .of_shards streams (own ▸ same.1) (own ▸ same.2)
    cases outcome with
    | ok =>
      obtain ⟨x, rfl, went⟩ := Option.bind_eq_some_iff.mp went
      obtain ⟨rfl, rfl⟩ := Prod.mk.inj (Option.some.inj went)
      exact ⟨iff_of_true nofun (.inl rfl), fun _ => held_spawned x free own⟩
    | failed =>
      obtain ⟨rfl, rfl⟩ := Prod.mk.inj (Option.some.inj went)
      have both := fun same => recovered_release (.rebuildSpawn config target) free known
        (reports same) nofun
      refine ⟨⟨fun all => ?_, fun fits _ _ => (both (fits.resolve_left nofun)).1⟩,
        fun fits => (both (fits.resolve_left nofun)).2⟩
      have after := ((all _ rfl).rebuild rfl).1
      exact .inr ⟨own ▸ after.totalShards, own ▸ after.assignment⟩
    | timedOut =>
      obtain ⟨rfl, rfl⟩ := Prod.mk.inj (Option.some.inj went)
      have both := fun fits => recovered_timeout (.rebuildSpawn config target)
        (.abandonedSpawn config target) free known (reports fits) rfl fun _ _ same => by
          cases same
          exact fits
      refine ⟨⟨fun all => ?_, fun fits _ _ => (both (fits.resolve_left nofun)).1⟩,
        fun fits => (both (fits.resolve_left nofun)).2⟩
      have after := ((all _ rfl).rebuild rfl).1
      exact .inr ⟨own ▸ after.totalShards, own ▸ after.assignment⟩
  | haltDrain m =>
    cases outcome with
    | ok =>
      obtain ⟨rfl, rfl⟩ := Prod.mk.inj (Option.some.inj went)
      refine ⟨iff_of_true nofun trivial, fun _ => ?_⟩
      exact held_await free flag ((known.stopped m).congr rfl fun _ mem => .inl mem) rfl
        ⟨rfl, Reports.congr found rfl⟩
    | failed =>
      obtain ⟨rfl, rfl⟩ := Prod.mk.inj (Option.some.inj went)
      refine ⟨iff_of_true nofun trivial, fun _ => ?_⟩
      exact held_await free flag (known.congr rfl fun _ mem => .inl mem) rfl
        ⟨rfl, Reports.congr found rfl⟩
    | timedOut =>
      obtain ⟨rfl, rfl⟩ := Prod.mk.inj (Option.some.inj went)
      obtain ⟨recovered, held⟩ := recovered_timeout (.haltDrain m) (.abandonedStop m) free
        known found rfl nofun
      exact ⟨iff_of_true (fun _ _ => recovered) trivial, fun _ => held⟩
  | between =>
    cases outcome with
    | ok =>
      obtain ⟨rfl, rfl⟩ := Prod.mk.inj (Option.some.inj went)
      refine ⟨iff_of_true nofun trivial, fun _ => ?_⟩
      exact held_await free flag known rfl ⟨rfl, found.1, found.2.congr rfl⟩
    | failed =>
      obtain ⟨rfl, rfl⟩ := Prod.mk.inj (Option.some.inj went)
      obtain ⟨recovered, held⟩ := recovered_release .between free known found.2
        fun _ => found.1
      exact ⟨iff_of_true (fun _ _ => recovered) trivial, fun _ => held⟩
    | timedOut => cases went
  | haltSpawn config target =>
    obtain ⟨own, detached, reports⟩ := found
    cases outcome with
    | ok =>
      obtain ⟨x, rfl, went⟩ := Option.bind_eq_some_iff.mp went
      obtain ⟨rfl, rfl⟩ := Prod.mk.inj (Option.some.inj went)
      exact ⟨iff_of_true nofun trivial, fun _ => held_spawned x free own⟩
    | failed =>
      obtain ⟨rfl, rfl⟩ := Prod.mk.inj (Option.some.inj went)
      obtain ⟨recovered, held⟩ := recovered_release (.haltSpawn config target) free known
        reports fun _ => detached
      exact ⟨iff_of_true (fun _ _ => recovered) trivial, fun _ => held⟩
    | timedOut =>
      obtain ⟨rfl, rfl⟩ := Prod.mk.inj (Option.some.inj went)
      obtain ⟨recovered, held⟩ := recovered_timeout (.haltSpawn config target)
        (.abandonedSpawn config target) free known
        reports rfl fun _ _ same => by
          cases same
          exact ⟨own ▸ reports.totalShards, own ▸ reports.assignment⟩
      exact ⟨iff_of_true (fun _ _ => recovered) trivial, fun _ => held⟩
  | prepareDrain m => cases holds
  | abandonedStop m => cases holds
  | abandonedSpawn config target => cases holds

/-- A body without the mutex changes neither the shards nor the flag. -/
theorem Held.resume_other (held : Held base r) {i : ℕ} {task : Task τ ShardSnapshot}
    {outcome : Outcome} (here : r.tasks[i]? = some task) (other : inFlight task = false)
    (went : ({ r with tasks := r.tasks.eraseIdx i } : Runtime τ ShardSnapshot).resume task.owner
      task.body outcome = some (t, answer)) : Held base t := by
  obtain ⟨_, same⟩ | ⟨holds, _⟩ := holders_erase here
  case inr => exact absurd (other.symm.trans holds) Bool.false_ne_true
  have kept : ∀ x, Known x r → Known x { r with tasks := r.tasks.eraseIdx i } :=
    fun x known => known.congr rfl fun task mem => .inl (List.mem_of_mem_eraseIdx mem)
  obtain ⟨body, owner⟩ := task
  cases body with
  | rebuildDrain m next => cases other
  | rebuildSpawn config target => cases other
  | haltDrain m => cases other
  | between => cases other
  | haltSpawn config target => cases other
  | prepareDrain m =>
    cases outcome with
    | ok =>
      obtain ⟨rfl, rfl⟩ := Prod.mk.inj (Option.some.inj went)
      exact held.frame same rfl rfl (.inr rfl) fun x known =>
        ((kept x known).stopped m).congr rfl fun _ mem => .inl mem
    | failed =>
      obtain ⟨rfl, rfl⟩ := Prod.mk.inj (Option.some.inj went)
      exact held.frame same rfl rfl (.inl rfl) kept
    | timedOut => cases went
  | abandonedStop m =>
    cases outcome with
    | ok =>
      obtain ⟨rfl, rfl⟩ := Prod.mk.inj (Option.some.inj went)
      exact held.frame same rfl rfl (.inl rfl) fun x known => (kept x known).stopped m
    | failed =>
      obtain ⟨rfl, rfl⟩ := Prod.mk.inj (Option.some.inj went)
      exact held.frame same rfl rfl (.inl rfl) kept
    | timedOut => cases went
  | abandonedSpawn config target =>
    cases outcome with
    | ok =>
      obtain ⟨y, rfl, went⟩ := Option.bind_eq_some_iff.mp went
      obtain ⟨rfl, rfl⟩ := Prod.mk.inj (Option.some.inj went)
      refine held.frame same rfl rfl (.inl rfl) fun x known => .inl ?_
      rcases known with ⟨c, mem, for_⟩ | ⟨_, given⟩
      · exact ⟨c, List.mem_append_left _ mem, for_⟩
      · refine ⟨_, List.mem_append_right _ List.mem_cons_self, ?_⟩
        exact given _ (List.mem_of_getElem? here) config (some y) rfl
    | failed =>
      obtain ⟨rfl, rfl⟩ := Prod.mk.inj (Option.some.inj went)
      exact held.frame same rfl rfl (.inl rfl) kept
    | timedOut => cases went

theorem settle_iff (held : Held base r) {i : ℕ} {outcome : Outcome}
    (went : r.settle i outcome = some (t, answer)) :
    (Good base r (.settle i outcome) t ↔ Fits r (.settle i outcome)) ∧
      (Fits r (.settle i outcome) → Held base t) := by
  obtain ⟨task, here, resumed⟩ := Option.bind_eq_some_iff.mp went
  have good : Good base r (.settle i outcome) t ↔
      ∀ error, answer = some (task.owner, .error error) →
        Recovered base task.body task.owner t := by
    constructor
    · exact fun all error same => all task here error (same ▸ went)
    · intro all other found error settled
      obtain rfl := Option.some.inj (here.symm.trans found)
      rw [went] at settled
      exact all error (Prod.mk.inj (Option.some.inj settled)).2
  have fits : Fits r (.settle i outcome) ↔ FitsOnSettle task.owner outcome task.body := by
    constructor
    · exact fun all => all task here
    · intro own other found
      obtain rfl := Option.some.inj (here.symm.trans found)
      exact own
  rw [good, fits]
  cases holds : inFlight task with
  | true =>
    obtain ⟨free, flag, known, found⟩ := held.of_holder here holds
    refine resume_holder holds free flag ?_ (found.frame rfl (.inl rfl)) resumed
    exact known.congr rfl fun task mem => .inl (List.mem_of_mem_eraseIdx mem)
  | false =>
    obtain ⟨rebuild, halt⟩ := Bool.or_eq_false_iff.mp holds
    refine ⟨iff_of_true (fun _ _ => ⟨?_, ?_, ?_⟩) ?_, fun _ => held.resume_other here holds resumed⟩
    · simp [rebuild]
    · simp [halt]
    · simp [rebuild, halt]
    · cases body : task.body with
      | rebuildSpawn config target => rw [body] at rebuild; cases rebuild
      | _ => trivial

theorem Held.of_free (held : Held base r) (flag : r.rebuilding = false) :
    holders r = [] ∧ Known (snapshot base r) r := by
  unfold Held at held
  split at held
  · rename_i none_
    exact ⟨none_, held.2⟩
  · exact absurd (flag.symm.trans held.1) Bool.false_ne_true
  · exact held.elim

theorem Held.rebuild (held : Held base r) {totalShards : Option ℤ} {spec : Option String}
    (went : r.rebuild totalShards spec (snapshot base r) = .ok t) : Held base t := by
  unfold Runtime.rebuild at went
  split at went
  · cases went
  · rename_i idle
    obtain ⟨free, known⟩ := held.of_free (Bool.eq_false_of_not_eq_true idle)
    split at went
    · cases went
    · rename_i next _
      dsimp only at went
      split at went
      · rename_i m _
        obtain rfl := Except.ok.inj went
        exact @held_await _ base { r with rebuilding := true } (snapshot base r)
          (.rebuildDrain m next) free rfl (known.congr rfl fun _ mem => .inl mem) rfl
          ((reports_self base r).congr rfl)
      · obtain rfl := Except.ok.inj went
        exact @held_await _ base { r with rebuilding := true, config := next } (snapshot base r)
          (.rebuildSpawn next r.activeTarget) free rfl (known.congr rfl fun _ mem => .inl mem) rfl
          ⟨rfl, rfl⟩

theorem Held.haltAndFlush (held : Held base r) (went : r.haltAndFlush (snapshot base r) = .ok t) :
    Held base t := by
  unfold Runtime.haltAndFlush at went
  split at went
  · cases went
  · rename_i idle
    obtain ⟨free, known⟩ := held.of_free (Bool.eq_false_of_not_eq_true idle)
    dsimp only at went
    split at went
    · rename_i m _
      obtain rfl := Except.ok.inj went
      exact @held_await _ base { r with rebuilding := true } (snapshot base r) (.haltDrain m)
        free rfl (known.congr rfl fun _ mem => .inl mem) rfl ((reports_self base r).congr rfl)
    · rename_i detached
      obtain rfl := Except.ok.inj went
      exact @held_await _ base { r with rebuilding := true } (snapshot base r) .between free rfl
        (known.congr rfl fun _ mem => .inl mem) rfl ⟨detached, (reports_self base r).congr rfl⟩

/-- What an event does is good exactly when it fits, and then at most one call is in flight. -/
theorem step_iff (held : Held base r) {e : Event τ} (unforced : Unforced r e)
    (went : step base r e = some t) :
    (Good base r e t ↔ Fits r e) ∧ (Fits r e → Held base t) := by
  cases e with
  | rebuild totalShards spec =>
    have after : (r.rebuild totalShards spec (snapshot base r)).toOption.getD r = t :=
      Option.some.inj went
    cases called : r.rebuild totalShards spec (snapshot base r) with
    | error error =>
      rw [called] at after
      obtain rfl := after
      refine ⟨iff_of_true (fun invalid => ?_) trivial, fun _ => held⟩
      have flag : r.rebuilding = false := by
        unfold Runtime.rebuild at invalid
        split at invalid
        · cases invalid
        · rename_i idle
          exact Bool.eq_false_of_not_eq_true idle
      have known := (held.of_free flag).2
      exact ⟨reports_self base r, flag, known.described (reports_self base r)⟩
    | ok q =>
      rw [called] at after
      obtain rfl := after
      exact ⟨iff_of_true (fun invalid => nomatch called.symm.trans invalid) trivial,
        fun _ => held.rebuild called⟩
  | haltAndFlush =>
    have after : (r.haltAndFlush (snapshot base r)).toOption.getD r = t := Option.some.inj went
    refine ⟨Iff.rfl, fun _ => ?_⟩
    cases called : r.haltAndFlush (snapshot base r) with
    | error error =>
      rw [called] at after
      obtain rfl := after
      exact held
    | ok q =>
      rw [called] at after
      obtain rfl := after
      exact held.haltAndFlush called
  | prepare =>
    refine ⟨Iff.rfl, fun _ => ?_⟩
    obtain rfl : r.prepare (snapshot base r) = t := Option.some.inj went
    unfold Runtime.prepare
    split
    · refine held.frame (holders_await rfl) rfl rfl (.inl rfl) fun x known => ?_
      refine known.congr rfl fun task mem => ?_
      rcases List.mem_append.mp mem with old | new
      · exact .inl old
      · rw [List.mem_singleton.mp new]
        exact .inr nofun
    · exact held
  | reset =>
    refine ⟨Iff.rfl, fun _ => ?_⟩
    obtain rfl : r.reset = t := Option.some.inj went
    have flag : r.rebuilding = false := unforced
    exact held.frame rfl flag.symm rfl (.inr rfl) fun x known =>
      known.congr rfl fun _ mem => .inl mem
  | settle i outcome =>
    obtain ⟨⟨q, answer⟩, settled, rfl⟩ := Option.map_eq_some_iff.mp went
    exact settle_iff held settled
  | retarget target =>
    refine ⟨Iff.rfl, fun _ => ?_⟩
    obtain rfl : { r with activeTarget := some target } = t := Option.some.inj went
    exact held.frame rfl rfl rfl (.inl rfl) fun x known => known.congr rfl fun _ mem => .inl mem

theorem held_start (totalShards : ℕ) (spec : String) :
    Held base (createShardRuntime totalShards spec : Runtime τ ShardSnapshot) :=
  held_free rfl rfl (.inr ⟨nofun, nofun⟩)

/-- Where no reset comes in between, every call that rejects leaves what it found exactly when no
rebuild for other shards fails to spawn. -/
theorem rejected_calls_iff (base : String) (totalShards : ℕ) (spec : String)
    (events : List (Event τ))
    (unforced : ∀ p ∈ taken (step base) (createShardRuntime totalShards spec) events,
      Unforced p.1 p.2) :
    (∀ p ∈ taken (step base) (createShardRuntime totalShards spec) events, ∀ t,
      step base p.1 p.2 = some t → Good base p.1 p.2 t) ↔
    ∀ p ∈ taken (step base) (createShardRuntime totalShards spec) events, Fits p.1 p.2 :=
  @taken_good_iff_given _ _ (step base) (Held base) Fits Unforced (Good base)
    (fun _ _ _ held unforced went => (step_iff held unforced went).1)
    (fun _ _ _ held unforced went good =>
      (step_iff held unforced went).2 ((step_iff held unforced went).1.mp good))
    _ (held_start totalShards spec) events unforced

/-- A rebuild for the shards there are times out twice, once in its drain and once in its
spawn. -/
theorem rejected_calls_timedOut :
    (taken (step "in") (createShardRuntime 2 "all" : Runtime Unit ShardSnapshot)
        [.retarget (), .rebuild none none, .settle 0 .ok, .rebuild none none,
          .settle 0 .timedOut, .rebuild none none, .settle 1 .timedOut]).length = 7 ∧
      ∀ p ∈ taken (step "in") (createShardRuntime 2 "all" : Runtime Unit ShardSnapshot)
        [.retarget (), .rebuild none none, .settle 0 .ok, .rebuild none none, .settle 0 .timedOut,
          .rebuild none none, .settle 1 .timedOut],
        ∀ t, step "in" p.1 p.2 = some t → Good "in" p.1 p.2 t :=
  ⟨by decide +kernel,
    (rejected_calls_iff "in" 2 "all" _ (by decide +kernel)).mpr (by decide +kernel)⟩

/-- The consumer of one shard does not stop, and then no consumer for four shards can be spawned:
four shards are reported while the old consumer still reads the first one. -/
theorem failed_spawn_reported :
    ¬ ∀ p ∈ taken (step "in") (createShardRuntime 1 "all" : Runtime Unit ShardSnapshot)
      [.retarget (), .rebuild none none, .settle 0 .ok, .rebuild (some 4) none, .settle 0 .failed,
        .settle 0 .failed],
      ∀ t, step "in" p.1 p.2 = some t → Good "in" p.1 p.2 t := by
  intro all
  have good := all
    (⟨⟨4, "all", [0, 1, 2, 3]⟩, some 0, true, some (), [⟨1, [0], (), true⟩],
      [⟨.rebuildSpawn ⟨4, "all", [0, 1, 2, 3]⟩ (some ()), ⟨1, [0], ["in"], false⟩⟩]⟩,
      .settle 0 .failed) (by decide +kernel) _ rfl _ rfl _ rfl
  exact absurd (good.rebuild rfl).1.totalShards (by decide)

end Steps

end RebuildFailure
