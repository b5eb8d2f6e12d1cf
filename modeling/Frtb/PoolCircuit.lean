import Frtb.Library.EventRuns
import Frtb.RedisPool

/-!
# What a circuit reflects

The circuit of a member as a function of the outcomes its own clients have had since the
last success, and the runs in which the code's circuit is this one. A client is a
member's own while it is in the slot, or waits to be, under the active target.
-/

namespace PoolCircuit

open EventRuns RedisTarget RedisPool

/-- What the circuit of a member counts: a failure of a client of its own, and that the
circuit was half-opened to probe it. -/
inductive Item
  | failed (fatal : Bool)
  | probed
  deriving DecidableEq, Repr

abbrev Circuit := CircuitState × ℕ

def next (env : Env) (x : Circuit) : Item → Circuit
  | .failed fatal =>
    if x.1 = .halfOpen ∨ fatal = true ∨ env.failureThreshold ≤ x.2 + 1 then (.open, x.2 + 1)
    else (x.1, x.2 + 1)
  | .probed => (.halfOpen, x.2)

/-- The circuit after the items since the last success, the first one first. -/
def circuitOf (env : Env) (items : List Item) : Circuit := items.foldl (next env) (.closed, 0)

def circuit (m : PoolMember) : Circuit := (m.circuitState, m.consecutiveFailures)

/-- The circuit of a member, closed for one that is still to be made. -/
def circuitAt (s : State) (m : ℕ) : Circuit := (s.members[m]?.map circuit).getD (.closed, 0)

/-- The outcome that an event brings to a circuit: of which client, and the error unless
it is a success. -/
def delivered (s : State) : Event → Option (ℕ × Option CommandError)
  | .settle i .success => s.commands[i]?.map fun c => (c, none)
  | .settle i (.rejected err) =>
    if shouldRecycle err then s.commands[i]?.map fun c => (c, some err) else none
  | .failFast i timeoutMs method => do
    let c ← s.commands[i]?
    let client ← s.clients[c]?
    let member ← s.members[client.member]?
    some (c, some (failFastError member timeoutMs method))
  | .socketError c err => if shouldRecycle err then some (c, some err) else none
  | _ => none

/-- The client is the one in the slot or waits to be published there, and it was built
for the active target. -/
def own (s : State) (c : ℕ) (client : Client) : Bool :=
  (s.members[client.member]?).isSome &&
    client.key.credsGeneration = s.target.credsGeneration &&
    (s.clientOf client.member = some c || s.acquisitions.any fun a => a.client = c)

abbrev History := ℕ → List Item

/-- An outcome of a client of its own goes into a member's history; a success empties it. -/
def noteOutcome (s : State) (h : History) : Option (ℕ × Option CommandError) → History
  | none => h
  | some (c, err) =>
    match s.clients[c]? with
    | none => h
    | some client =>
      if own s c client then
        Function.update h client.member (match err with
          | none => []
          | some err => h client.member ++ [.failed (isFatalErrorPattern err)])
      else h

/-- The history after an event that leads from `s` to `t`. -/
def note (s t : State) (h : History) : Event → History
  | .commitActiveTargetSync _ _ => fun _ => []
  | .acquire _ _ | .probe _ => fun m =>
    if (circuitAt s m).1 ≠ .halfOpen ∧ (circuitAt t m).1 = .halfOpen then h m ++ [.probed] else h m
  | e => noteOutcome s h (delivered s e)

/-- The pools with the history of each member. -/
def traced (env : Env) (x : State × History) (e : ℕ × Event) : Option (State × History) :=
  (step env x.1 e).map fun t => (t, note x.1 t x.2 e.2)

def InPool (s : State) (m : ℕ) : Prop := ∃ category, m ∈ s.slots category

/-- The circuit of every member of a pool is what its own clients made of it. -/
def ReflectsOwn (env : Env) (x : State × History) : Prop :=
  ∀ m, InPool x.1 m → circuitAt x.1 m = circuitOf env (x.2 m)

/-- The outcomes a circuit can take: a failure of a client of its own, a success of one
while the circuit is not open, and a success of another client that has nothing to clear. -/
def KeepsCircuit (x : State × History) (e : ℕ × Event) : Prop :=
  ∀ c err client, delivered x.1 e.2 = some (c, err) → x.1.clients[c]? = some client →
    ∀ member, x.1.members[client.member]? = some member → InPool x.1 client.member →
      match err with
      | some _ => own x.1 c client = true
      | none => if own x.1 c client then member.circuitState ≠ .open
        else member.circuitState ≠ .halfOpen ∧ member.consecutiveFailures = 0

variable {env : Env} {s t u : State} {h : History}

theorem circuitOf_append (items : List Item) (x : Item) :
    circuitOf env (items ++ [x]) = next env (circuitOf env items) x :=
  List.foldl_concat ..

theorem circuit_transitionCircuit (now : ℕ) (state : CircuitState) (m : PoolMember) :
    circuit (transitionCircuit env now state m) = (state, m.consecutiveFailures) := by
  unfold transitionCircuit
  split
  · rename_i same
    exact Prod.ext same rfl
  · cases state <;> rfl

theorem circuit_countFailure (now : ℕ) (fatal : Bool) (m : PoolMember) :
    circuit (countFailure env now fatal m) = next env (circuit m) (.failed fatal) := by
  unfold countFailure next circuit
  dsimp only
  simp only [Bool.or_eq_true, decide_eq_true_eq, or_assoc]
  split
  · exact circuit_transitionCircuit now .open _
  · rfl

theorem circuit_countSuccess (now : ℕ) (m : PoolMember) :
    circuit (countSuccess env now m) =
      (if m.circuitState = .halfOpen then .closed else m.circuitState, 0) := by
  unfold countSuccess
  dsimp only
  split
  · have closed : (transitionCircuit env now .closed m).circuitState = .closed :=
      congrArg Prod.fst (circuit_transitionCircuit now .closed m)
    exact Prod.ext closed rfl
  · rfl

theorem circuitAt_edit (m a : ℕ) (f : PoolMember → PoolMember) :
    circuitAt (s.edit m f) a =
      if m = a then (s.members[a]?.map fun x => circuit (f x)).getD (.closed, 0)
      else circuitAt s a := by
  have here : (s.edit m f).members[a]? = (fun x => if m = a then f x else x) <$> s.members[a]? :=
    List.getElem?_modify ..
  rw [circuitAt, here]
  split
  · cases s.members[a]? <;> rfl
  · cases h : s.members[a]? <;> simp only [circuitAt, h] <;> rfl

theorem circuitAt_edit_same {f : PoolMember → PoolMember} (same : ∀ x, circuit (f x) = circuit x)
    (m a : ℕ) : circuitAt (s.edit m f) a = circuitAt s a := by
  rw [circuitAt_edit]
  split
  · exact congrArg (Option.getD · _) (congrArg (Option.map · _) (funext same))
  · rfl

theorem circuitAt_missing {a : ℕ} (missing : s.members.length ≤ a) :
    circuitAt s a = (.closed, 0) := by
  rw [circuitAt, List.getElem?_eq_none missing]
  rfl

theorem length_edit (m : ℕ) (f : PoolMember → PoolMember) :
    (s.edit m f).members.length = s.members.length :=
  List.length_modify ..

/-- No circuit changes, and no pool. -/
structure Still (s t : State) : Prop where
  circuits : ∀ a, circuitAt t a = circuitAt s a
  slots : t.slots = s.slots
  length : t.members.length = s.members.length

theorem Still.refl (s : State) : Still s s := ⟨fun _ => rfl, rfl, rfl⟩

theorem Still.trans (first : Still s t) (second : Still t u) : Still s u :=
  ⟨fun a => (second.circuits a).trans (first.circuits a), second.slots.trans first.slots,
    second.length.trans first.length⟩

theorem Still.edit {f : PoolMember → PoolMember} (same : ∀ x, circuit (f x) = circuit x)
    (s : State) (m : ℕ) : Still s (s.edit m f) :=
  ⟨circuitAt_edit_same same m, rfl, length_edit m f⟩

theorem Still.of_members (members : t.members = s.members) (slots : t.slots = s.slots) :
    Still s t :=
  ⟨fun a => congrArg (fun ms : List PoolMember => (ms[a]?.map circuit).getD (.closed, 0)) members,
    slots, congrArg List.length members⟩

theorem Still.disconnectSlot (s : State) (m : ℕ) : Still s (s.disconnectSlot m) := by
  unfold State.disconnectSlot
  split
  · exact .of_members rfl rfl
  · exact .refl s

theorem circuit_blank (m : PoolMember) : circuit (blank m) = circuit m := rfl

theorem circuit_countBuild (m : PoolMember) : circuit (countBuild m) = circuit m := rfl

theorem circuit_cancelScheduledProbe (m : PoolMember) :
    circuit (cancelScheduledProbe m) = circuit m := rfl

theorem Still.recyclePoolMember (s : State) (m c : ℕ) : Still s (s.recyclePoolMember m c) := by
  unfold State.recyclePoolMember
  split
  · exact (Still.edit circuit_blank s m).trans (.of_members rfl rfl)
  · exact .refl s

theorem Still.publish (s : State) (m c : ℕ) (key : TargetKey) : Still s (s.publish m c key) := by
  refine Still.edit ?_ s m
  intro x
  rfl

/-- What an outcome makes of a circuit, whichever client it is of. -/
def take (env : Env) (x : Circuit) : Option CommandError → Circuit
  | none => (if x.1 = .halfOpen then .closed else x.1, 0)
  | some err => next env x (.failed (isFatalErrorPattern err))

/-- The circuit of the member `m` takes an outcome. -/
structure Takes (env : Env) (s t : State) (m : ℕ) (err : Option CommandError) : Prop where
  here : m < s.members.length → circuitAt t m = take env (circuitAt s m) err
  other : ∀ a, a ≠ m ∨ s.members.length ≤ a → circuitAt t a = circuitAt s a
  slots : t.slots = s.slots
  length : t.members.length = s.members.length

theorem Takes.still {m : ℕ} {err : Option CommandError} (takes : Takes env s t m err)
    (still : Still t u) : Takes env s u m err :=
  ⟨fun inside => (still.circuits m).trans (takes.here inside),
    fun a other => (still.circuits a).trans (takes.other a other), still.slots.trans takes.slots,
    still.length.trans takes.length⟩

theorem Takes.edit {f : PoolMember → PoolMember} {err : Option CommandError}
    (each : ∀ x, circuit (f x) = take env (circuit x) err) (s : State) (m : ℕ) :
    Takes env s (s.edit m f) m err := by
  refine ⟨fun inside => ?_, fun a other => ?_, rfl, length_edit m f⟩
  · rw [circuitAt_edit, if_pos rfl, circuitAt, List.getElem?_eq_getElem inside]
    exact each _
  · by_cases same : m = a
    · have outside : s.members.length ≤ a := other.resolve_left (fun ne => ne same.symm)
      rw [circuitAt_missing outside, circuitAt_missing ((length_edit m f).le.trans outside)]
    · rw [circuitAt_edit, if_neg same]

theorem Takes.noteFailure (s : State) (now m c : ℕ) (err : CommandError) :
    Takes env s (s.noteFailure env now m c err) m (some err) :=
  (Takes.edit (circuit_countFailure now _) s m).still (.recyclePoolMember _ m c)

theorem Takes.noteSuccess (s : State) (now m : ℕ) :
    Takes env s (s.noteSuccess env now m) m none :=
  .edit (circuit_countSuccess now) s m

/-- An event that brings an outcome: the circuit of its client's member takes it. -/
theorem takes_of_delivered {e : ℕ × Event} {c : ℕ} {err : Option CommandError}
    (outcome : delivered s e.2 = some (c, err)) (went : step env s e = some t) :
    ∃ client : Client, s.clients[c]? = some client ∧ Takes env s t client.member err := by
  obtain ⟨returned, admitted⟩ := stepWith_of_step went
  obtain ⟨now, e⟩ := e
  cases e with
  | settle i result =>
    obtain ⟨d, command, admitted⟩ := Option.bind_eq_some_iff.mp admitted
    obtain ⟨client, hold, admitted⟩ := Option.bind_eq_some_iff.mp admitted
    obtain ⟨rfl, _⟩ := Prod.mk.inj (Option.some.inj admitted)
    cases result with
    | success =>
      simp only [delivered, command, Option.map_some, Option.some.injEq, Prod.mk.injEq] at outcome
      obtain ⟨rfl, rfl⟩ := outcome
      have took : Takes env { s with commands := s.commands.eraseIdx i } _ client.member none :=
        .noteSuccess _ now client.member
      exact ⟨client, hold, took.here, took.other, took.slots, took.length⟩
    | rejected err' =>
      simp only [delivered] at outcome
      split at outcome
      · rename_i recycles
        simp only [command, Option.map_some, Option.some.injEq, Prod.mk.injEq] at outcome
        obtain ⟨rfl, rfl⟩ := outcome
        have took : Takes env { s with commands := s.commands.eraseIdx i } _ client.member
            (some err') := .noteFailure _ now client.member d err'
        refine ⟨client, hold, ?_⟩
        unfold settleCommand
        dsimp only
        rw [if_pos recycles]
        exact ⟨took.here, took.other, took.slots, took.length⟩
      · cases outcome
  | failFast i timeoutMs method =>
    obtain ⟨d, command, admitted⟩ := Option.bind_eq_some_iff.mp admitted
    obtain ⟨client, hold, admitted⟩ := Option.bind_eq_some_iff.mp admitted
    obtain ⟨member, there, admitted⟩ := Option.bind_eq_some_iff.mp admitted
    obtain ⟨rfl, _⟩ := Prod.mk.inj (Option.some.inj admitted)
    have same : delivered s (.failFast i timeoutMs method) =
        some (d, some (failFastError member timeoutMs method)) := by
      simp only [delivered, command, hold, there, Option.bind_eq_bind, Option.bind_some]
    obtain ⟨rfl, rfl⟩ := Prod.mk.inj (Option.some.inj (same.symm.trans outcome))
    have took : Takes env { s with commands := s.commands.eraseIdx i } _ client.member
        (some (failFastError member timeoutMs method)) := .noteFailure _ now client.member d _
    exact ⟨client, hold, took.here, took.other, took.slots, took.length⟩
  | socketError d err' =>
    obtain ⟨client, hold, admitted⟩ := Option.bind_eq_some_iff.mp admitted
    obtain ⟨rfl, _⟩ := Prod.mk.inj (Option.some.inj admitted)
    simp only [delivered] at outcome
    split at outcome
    · rename_i recycles
      obtain ⟨rfl, rfl⟩ := Prod.mk.inj (Option.some.inj outcome)
      refine ⟨client, hold, ?_⟩
      rw [if_pos recycles]
      exact .noteFailure s now client.member d err'
    · cases outcome
  | acquire => cases outcome
  | memberReady => cases outcome
  | commitActiveTargetSync => cases outcome
  | drainGrace => cases outcome
  | command => cases outcome
  | probe => cases outcome

/-- Circuits are half-opened at most, with what they have counted; a member comes into a
pool as it is made. -/
structure Probes (s t : State) : Prop where
  circuits : ∀ a, circuitAt t a = circuitAt s a ∨ circuitAt t a = (.halfOpen, (circuitAt s a).2)
  pools : ∀ a, InPool t a → InPool s a ∨ s.members.length ≤ a
  length : s.members.length ≤ t.members.length

theorem Still.probes (still : Still s t) : Probes s t where
  circuits a := .inl (still.circuits a)
  pools a pool := by
    rw [InPool, still.slots] at pool
    exact .inl pool
  length := still.length.ge

theorem Probes.trans (first : Probes s t) (second : Probes t u) : Probes s u where
  circuits a := by
    rcases second.circuits a with same | half
    · rw [same]
      exact first.circuits a
    · refine .inr (half.trans ?_)
      rcases first.circuits a with same | half'
      · rw [same]
      · rw [half']
  pools a pool := by
    rcases second.pools a pool with pool' | outside
    · exact first.pools a pool'
    · exact .inr (first.length.trans outside)
  length := first.length.trans second.length

theorem Probes.transitionCircuit (s : State) (now m : ℕ) :
    Probes s (s.edit m (transitionCircuit env now .halfOpen)) := by
  refine ⟨fun a => ?_, fun a pool => .inl pool, (length_edit m _).ge⟩
  rw [circuitAt_edit]
  split
  · unfold circuitAt
    cases s.members[a]? with
    | none => exact .inl rfl
    | some member => exact .inr (circuit_transitionCircuit now .halfOpen member)
  · exact .inl rfl

theorem Probes.promoteToHalfOpen (s : State) (now m : ℕ) :
    Probes s (s.promoteToHalfOpen env now m) :=
  ((Probes.transitionCircuit s now m).trans (Still.disconnectSlot _ m).probes).trans
    (Still.edit circuit_blank _ m).probes

theorem still_foldl_disconnectSlot (ms : List ℕ) (s : State) :
    Still s (ms.foldl State.disconnectSlot s) := by
  induction ms generalizing s with
  | nil => exact .refl s
  | cons m ms ih => exact (Still.disconnectSlot s m).trans (ih _)

theorem Probes.ensurePoolSized (s : State) (category : Category) (size : ℕ) :
    Probes s (s.ensurePoolSized category size) := by
  unfold State.ensurePoolSized
  dsimp only
  split
  · refine ⟨fun a => .inl ?_, fun a pool => ?_, ?_⟩
    · unfold circuitAt
      dsimp only
      rw [List.getElem?_append]
      split
      · rfl
      · rename_i outside
        rw [List.getElem?_eq_none (Nat.le_of_not_lt outside), List.getElem?_map]
        cases (List.range (size - (s.slots category).length))[a - s.members.length]? <;> rfl
    · obtain ⟨category', mem⟩ := pool
      by_cases same : category' = category
      · subst same
        dsimp only at mem
        rw [Function.update_self] at mem
        rcases List.mem_append.mp mem with old | new
        · exact .inl ⟨category', old⟩
        · obtain ⟨i, _, rfl⟩ := List.mem_map.mp new
          exact .inr (Nat.le_add_right ..)
      · dsimp only at mem
        rw [Function.update_of_ne same] at mem
        exact .inl ⟨category', mem⟩
    · dsimp only
      rw [List.length_append]
      exact Nat.le_add_right ..
  · have spared := still_foldl_disconnectSlot ((s.slots category).drop size) s
    refine ⟨fun a => .inl (spared.circuits a), fun a pool => ?_, spared.length.ge⟩
    obtain ⟨category', mem⟩ := pool
    dsimp only at mem
    rw [spared.slots] at mem
    by_cases same : category' = category
    · subst same
      rw [Function.update_self] at mem
      exact .inl ⟨category', List.mem_of_mem_take mem⟩
    · rw [Function.update_of_ne same] at mem
      exact .inl ⟨category', mem⟩

theorem Still.startAcquisition (s : State) (m : ℕ) : Still s (s.startAcquisition env m) :=
  .of_members rfl rfl

theorem Still.useSlot (s : State) (m : ℕ) : Still s (s.useSlot env m).1 := by
  unfold State.useSlot
  split
  · exact .refl s
  · split
    · exact .refl s
    · exact ((Still.disconnectSlot s m).trans (.edit circuit_countBuild _ m)).trans
        (.startAcquisition _ m)

theorem Probes.acquireFromPool (s : State) (now : ℕ) (category : Category) (size : ℕ) :
    Probes s (s.acquireFromPool env now category size).1 := by
  unfold State.acquireFromPool
  split
  · exact (Still.refl s).probes
  · have sized := Probes.ensurePoolSized s category size
    have used : ∀ (t : State) (i m : ℕ), Probes t ((t.turn category i).useSlot env m).1 := by
      intro t i m
      have turned : Still t (t.turn category i) := .of_members rfl rfl
      exact (turned.trans (.useSlot _ m)).probes
    dsimp only
    split
    · exact sized
    · rename_i m _
      split
      · exact (sized.trans (.promoteToHalfOpen _ now m)).trans (used _ _ m)
      · exact sized.trans (used _ _ m)

theorem Probes.runHalfOpenProbe (s : State) (now m : ℕ) :
    Probes s (s.runHalfOpenProbe env now m) := by
  unfold State.runHalfOpenProbe
  split
  · exact (Still.refl s).probes
  · split
    · exact (Still.refl s).probes
    · have filled : ∀ (t : State) (x : ActiveTarget) (c : ℕ) (key : TargetKey) (cs : List ℕ),
          Still t { ((t.build m x true).publish m c key).edit m
            countBuild with commands := cs } := by
        intro t x c key cs
        have built : Still t (t.build m x true) := .of_members rfl rfl
        have published := (built.trans (.publish _ m c key)).trans (.edit circuit_countBuild _ m)
        exact published.trans (.of_members rfl rfl)
      exact (Probes.promoteToHalfOpen s now m).trans (filled _ _ _ _ _).probes

theorem Still.memberReady (s : State) (a : Acquisition) (ready : Bool) :
    Still s (s.memberReady a ready).1 := by
  unfold State.memberReady
  split
  · exact (Still.publish s a.member a.client a.key).trans (.of_members rfl rfl)
  · have off : Still s (s.disconnect a.client) := .of_members rfl rfl
    exact off.trans (.edit circuit_blank _ a.member)

theorem circuitAt_detach (m a : ℕ) :
    circuitAt (s.detach m) a = if m = a then (.closed, 0) else circuitAt s a := by
  have reset : circuitAt (s.edit m resetForSwap) a =
      if m = a then (.closed, 0) else circuitAt s a := by
    rw [circuitAt_edit]
    split
    · cases s.members[a]? <;> rfl
    · rfl
  unfold State.detach
  split
  · exact reset
  · exact reset

theorem slots_detach (m : ℕ) : (s.detach m).slots = s.slots := by
  unfold State.detach
  split
  · rfl
  · rfl

theorem length_detach (m : ℕ) : (s.detach m).members.length = s.members.length := by
  unfold State.detach
  split
  · exact length_edit m _
  · exact length_edit m _

/-- A switch closes the circuits of the pools. -/
theorem foldl_detach (ms : List ℕ) (s : State) :
    (∀ a ∈ ms, circuitAt (ms.foldl State.detach s) a = (.closed, 0)) ∧
      (∀ a, circuitAt s a = (.closed, 0) → circuitAt (ms.foldl State.detach s) a = (.closed, 0)) ∧
      (ms.foldl State.detach s).slots = s.slots ∧
      (ms.foldl State.detach s).members.length = s.members.length := by
  induction ms generalizing s with
  | nil => exact ⟨fun _ mem => (by cases mem), fun _ closed => closed, rfl, rfl⟩
  | cons m ms ih =>
    obtain ⟨reset, kept, slots, length⟩ := ih (s.detach m)
    refine ⟨fun a mem => ?_, fun a closed => kept a ?_, slots.trans (slots_detach m),
      length.trans (length_detach m)⟩
    · rcases List.mem_cons.mp mem with rfl | later
      · exact kept a ((circuitAt_detach a a).trans (if_pos rfl))
      · exact reset a later
    · rw [circuitAt_detach, closed, ite_self]

/-- The events that bring no outcome leave the circuits, half-open one, or reset them all. -/
theorem still_or_probes {e : ℕ × Event} (quiet : delivered s e.2 = none)
    (went : step env s e = some t) :
    match e.2 with
    | .acquire _ _ | .probe _ => Probes s t
    | .commitActiveTargetSync _ _ => ∀ a, InPool t a ∨ t.members.length ≤ a →
      circuitAt t a = (.closed, 0)
    | _ => Still s t := by
  obtain ⟨returned, admitted⟩ := stepWith_of_step went
  obtain ⟨now, e⟩ := e
  cases e with
  | acquire category size =>
    have went : s.acquireFromPool env now category size = (t, returned) := Option.some.inj admitted
    have probes : Probes s (s.acquireFromPool env now category size).1 :=
      .acquireFromPool s now category size
    rwa [went] at probes
  | memberReady i ready =>
    obtain ⟨a, here, admitted⟩ := Option.bind_eq_some_iff.mp admitted
    rw [← (Prod.mk.inj (Option.some.inj admitted)).1]
    have left : Still s { s with acquisitions := s.acquisitions.eraseIdx i } := .of_members rfl rfl
    exact left.trans (.memberReady _ a ready)
  | commitActiveTargetSync x creds =>
    obtain ⟨rfl, _⟩ := Prod.mk.inj (Option.some.inj admitted)
    dsimp only
    intro a inside
    obtain ⟨reset, _, slots, _⟩ := foldl_detach (allPools.flatMap s.slots)
      { s with target := s.target.commit x creds }
    rcases inside with ⟨category, mem⟩ | outside
    · refine reset a (List.mem_flatMap.mpr ⟨category, by cases category <;> decide, ?_⟩)
      have same : (s.commitActiveTargetSync x creds).slots = s.slots := slots
      rw [same] at mem
      exact mem
    · exact circuitAt_missing outside
  | drainGrace c =>
    simp only [stepWith] at admitted
    split at admitted
    · obtain ⟨rfl, _⟩ := Prod.mk.inj (Option.some.inj admitted)
      exact .of_members rfl rfl
    · cases admitted
  | command c =>
    obtain ⟨client, _, admitted⟩ := Option.bind_eq_some_iff.mp admitted
    split at admitted
    · obtain ⟨rfl, _⟩ := Prod.mk.inj (Option.some.inj admitted)
      exact .of_members rfl rfl
    · cases admitted
  | settle i outcome =>
    obtain ⟨c, command, admitted⟩ := Option.bind_eq_some_iff.mp admitted
    obtain ⟨client, _, admitted⟩ := Option.bind_eq_some_iff.mp admitted
    obtain ⟨rfl, _⟩ := Prod.mk.inj (Option.some.inj admitted)
    cases outcome with
    | success => simp only [delivered, command, Option.map_some, reduceCtorEq] at quiet
    | rejected err =>
      simp only [delivered, command, Option.map_some] at quiet
      split at quiet
      · cases quiet
      · rename_i spared
        dsimp only [settleCommand]
        rw [if_neg spared]
        exact .of_members rfl rfl
  | failFast i timeoutMs method =>
    obtain ⟨c, command, admitted⟩ := Option.bind_eq_some_iff.mp admitted
    obtain ⟨client, hold, admitted⟩ := Option.bind_eq_some_iff.mp admitted
    obtain ⟨member, there, admitted⟩ := Option.bind_eq_some_iff.mp admitted
    simp only [delivered, command, hold, there, Option.bind_eq_bind, Option.bind_some,
      reduceCtorEq] at quiet
  | socketError c err =>
    obtain ⟨client, _, admitted⟩ := Option.bind_eq_some_iff.mp admitted
    obtain ⟨rfl, _⟩ := Prod.mk.inj (Option.some.inj admitted)
    simp only [delivered] at quiet
    split at quiet
    · cases quiet
    · rename_i spared
      rw [if_neg spared]
      exact .refl s
  | probe m =>
    obtain ⟨member, _, admitted⟩ := Option.bind_eq_some_iff.mp admitted
    split at admitted
    · obtain ⟨rfl, _⟩ := Prod.mk.inj (Option.some.inj admitted)
      exact (Still.edit circuit_cancelScheduledProbe s m).probes.trans (.runHalfOpenProbe _ now m)
    · cases admitted

/-- What its own clients made of the circuit of each member of a pool, and of each that is
still to be made. -/
def Reflected (env : Env) (x : State × History) : Prop :=
  ∀ m, InPool x.1 m ∨ x.1.members.length ≤ m → circuitAt x.1 m = circuitOf env (x.2 m)

theorem exists_of_traced {x y : State × History} {e : ℕ × Event} (went : traced env x e = some y) :
    step env x.1 e = some y.1 ∧ y.2 = note x.1 y.1 x.2 e.2 := by
  obtain ⟨t, admitted, rfl⟩ := Option.map_eq_some_iff.mp went
  exact ⟨admitted, rfl⟩

theorem note_of_delivered {e : Event} {o : ℕ × Option CommandError}
    (outcome : delivered s e = some o) : note s t h e = noteOutcome s h (some o) := by
  cases e with
  | settle i result => exact congrArg (noteOutcome s h) outcome
  | failFast i timeoutMs method => exact congrArg (noteOutcome s h) outcome
  | socketError c err => exact congrArg (noteOutcome s h) outcome
  | acquire => cases outcome
  | memberReady => cases outcome
  | commitActiveTargetSync => cases outcome
  | drainGrace => cases outcome
  | command => cases outcome
  | probe => cases outcome

theorem noteOutcome_of_own {c : ℕ} {client : Client} (err : Option CommandError)
    (hold : s.clients[c]? = some client) (mine : own s c client = true) :
    noteOutcome s h (some (c, err)) = Function.update h client.member (match err with
      | none => []
      | some err => h client.member ++ [.failed (isFatalErrorPattern err)]) := by
  simp only [noteOutcome, hold, mine, if_true]

theorem noteOutcome_of_other {c : ℕ} {client : Client} (err : Option CommandError)
    (hold : s.clients[c]? = some client) (other : ¬ own s c client = true) :
    noteOutcome s h (some (c, err)) = h := by
  simp only [noteOutcome, hold, other, if_false, Bool.false_eq_true]

theorem noteOutcome_elsewhere {c : ℕ} {client : Client} {err : Option CommandError}
    (hold : s.clients[c]? = some client) {m : ℕ}
    (elsewhere : m ≠ client.member ∨ s.members.length ≤ m) :
    noteOutcome s h (some (c, err)) m = h m := by
  by_cases mine : own s c client = true
  · have different : m ≠ client.member := by
      rcases elsewhere with different | outside
      · exact different
      · rintro rfl
        simp only [own, List.getElem?_eq_none outside, Option.isSome_none, Bool.false_and,
          Bool.false_eq_true] at mine
    rw [noteOutcome_of_own err hold mine, Function.update_of_ne different]
  · rw [noteOutcome_of_other err hold mine]

theorem take_none_of_closed {x : Circuit} (closed : x.1 ≠ .open) :
    take env x none = (.closed, 0) := by
  obtain ⟨state, n⟩ := x
  cases state with
  | closed => rfl
  | «open» => exact absurd rfl closed
  | halfOpen => rfl

theorem Reflected.delivered {h : History} {e : ℕ × Event} {c : ℕ} {err : Option CommandError}
    (ok : Reflected env (s, h)) (keeps : KeepsCircuit (s, h) e)
    (outcome : delivered s e.2 = some (c, err)) (went : step env s e = some t) :
    Reflected env (t, note s t h e.2) := by
  obtain ⟨client, hold, takes⟩ := takes_of_delivered outcome went
  rw [note_of_delivered outcome]
  intro m inside
  have before : InPool s m ∨ s.members.length ≤ m := by
    simp only [InPool, takes.slots, takes.length] at inside
    exact inside
  dsimp only
  by_cases elsewhere : m ≠ client.member ∨ s.members.length ≤ m
  · rw [noteOutcome_elsewhere hold elsewhere]
    exact (takes.other m elsewhere).trans (ok m before)
  · obtain ⟨same, there⟩ := not_or.mp elsewhere
    obtain rfl : m = client.member := not_not.mp same
    have exists_ : client.member < s.members.length := Nat.lt_of_not_le there
    have pool : InPool s client.member := before.resolve_right there
    have at_m : circuitAt s client.member = circuit s.members[client.member] := by
      rw [circuitAt, List.getElem?_eq_getElem exists_]
      rfl
    have allowed := keeps c err client outcome hold _ (List.getElem?_eq_getElem exists_) pool
    rw [takes.here exists_]
    cases err with
    | some err =>
      rw [noteOutcome_of_own _ hold allowed, Function.update_self, circuitOf_append]
      exact congrArg (fun x => next env x (.failed (isFatalErrorPattern err))) (ok _ before)
    | none =>
      dsimp only at allowed
      split at allowed
      · rename_i mine
        rw [noteOutcome_of_own _ hold mine, Function.update_self]
        refine take_none_of_closed ?_
        rw [at_m]
        exact allowed
      · rename_i other
        rw [noteOutcome_of_other _ hold other, ← ok _ before, at_m]
        refine Prod.ext ?_ allowed.2.symm
        exact if_neg allowed.1

theorem Reflected.traced {x y : State × History} {e : ℕ × Event} (ok : Reflected env x)
    (keeps : KeepsCircuit x e) (went : traced env x e = some y) : Reflected env y := by
  obtain ⟨s, h⟩ := x
  obtain ⟨t, h'⟩ := y
  obtain ⟨admitted, noted⟩ := exists_of_traced went
  dsimp only at admitted noted
  subst noted
  cases outcome : PoolCircuit.delivered s e.2 with
  | some o => exact ok.delivered keeps outcome admitted
  | none =>
    have change := still_or_probes outcome admitted
    have probed : Probes s t → Reflected env (t, fun m =>
        if (circuitAt s m).1 ≠ .halfOpen ∧ (circuitAt t m).1 = .halfOpen then h m ++ [.probed]
        else h m) := by
      intro probes m inside
      have before : InPool s m ∨ s.members.length ≤ m :=
        inside.elim (probes.pools m) fun outside => .inr (probes.length.trans outside)
      dsimp only
      split
      · rename_i opened
        rw [circuitOf_append, ← ok m before]
        rcases probes.circuits m with same | half
        · exact absurd (same ▸ opened.2) opened.1
        · exact half
      · rename_i not_opened
        rw [← ok m before]
        rcases probes.circuits m with same | half
        · exact same
        · have already : (circuitAt s m).1 = .halfOpen := by
            by_contra fresh
            exact not_opened ⟨fresh, congrArg Prod.fst half⟩
          exact half.trans (Prod.ext already.symm rfl)
    have still : Still s t → Reflected env (t, h) := by
      intro same m inside
      rw [InPool, same.slots, same.length] at inside
      exact (same.circuits m).trans (ok m inside)
    obtain ⟨now, e⟩ := e
    cases e with
    | acquire => exact probed change
    | probe => exact probed change
    | commitActiveTargetSync => exact fun m inside => change m inside
    | memberReady => exact still change
    | drainGrace => exact still change
    | command => exact still change
    | settle i result =>
      have unchanged : note s t h (.settle i result) = h := congrArg (noteOutcome s h) outcome
      rw [unchanged]
      exact still change
    | failFast i timeoutMs method =>
      have unchanged : note s t h (.failFast i timeoutMs method) = h :=
        congrArg (noteOutcome s h) outcome
      rw [unchanged]
      exact still change
    | socketError c err =>
      have unchanged : note s t h (.socketError c err) = h := congrArg (noteOutcome s h) outcome
      rw [unchanged]
      exact still change

/-- A failure moves the count. -/
theorem next_ne (x : Circuit) (fatal : Bool) : next env x (.failed fatal) ≠ x := by
  intro same
  have counted : (next env x (.failed fatal)).2 = x.2 + 1 := by
    unfold next
    dsimp only
    split <;> rfl
  rw [same] at counted
  exact Nat.ne_of_lt (Nat.lt_succ_self _) counted

theorem not_reflectsOwn {x y : State × History} {e : ℕ × Event} (ok : Reflected env x)
    (loses : ¬ KeepsCircuit x e) (went : PoolCircuit.traced env x e = some y) :
    ¬ ReflectsOwn env y := by
  obtain ⟨s, h⟩ := x
  obtain ⟨t, h'⟩ := y
  obtain ⟨admitted, noted⟩ := exists_of_traced went
  dsimp only at admitted noted
  subst noted
  intro reflects
  refine loses fun c err client outcome hold member there pool => ?_
  obtain ⟨client', hold', takes⟩ := takes_of_delivered outcome admitted
  obtain rfl : client' = client := Option.some.inj (hold'.symm.trans hold)
  have exists_ : client'.member < s.members.length := (List.getElem?_eq_some_iff.mp there).1
  have pool' : InPool t client'.member := by
    rw [InPool, takes.slots]
    exact pool
  have at_m : circuitAt s client'.member = circuit member := by
    rw [circuitAt, show s.members[client'.member]? = some member from there]
    rfl
  have after := reflects client'.member pool'
  dsimp only at after
  rw [takes.here exists_, note_of_delivered outcome] at after
  cases err with
  | some err =>
    by_contra other
    rw [noteOutcome_of_other _ hold' other, ← ok _ (.inl pool)] at after
    exact next_ne _ _ after
  | none =>
    dsimp only
    split
    · rename_i mine
      rw [noteOutcome_of_own _ hold' mine, Function.update_self, at_m] at after
      intro opened
      have state := congrArg Prod.fst after
      simp only [take, circuit, opened, reduceCtorEq, if_false] at state
      cases state
    · rename_i other
      rw [noteOutcome_of_other _ hold' other, ← ok _ (.inl pool), at_m] at after
      refine ⟨fun half => ?_, (congrArg Prod.snd after).symm⟩
      have state := congrArg Prod.fst after
      simp only [take, circuit, half, if_true, reduceCtorEq] at state

theorem reflected_initial (env : Env) : Reflected env (.initial, fun _ => []) := fun _ _ => rfl

/-- The circuits are what the members' own clients made of them all along a run exactly
when every outcome that reaches the circuit of a member of a pool is one it can take. -/
theorem circuit_reflects_own_iff (env : Env) (events : List (ℕ × Event)) :
    (∀ x ∈ visited (traced env) (.initial, fun _ => []) events, ReflectsOwn env x) ↔
      ∀ p ∈ taken (traced env) (.initial, fun _ => []) events, KeepsCircuit p.1 p.2 :=
  @visited_safe_iff _ _ (traced env) (Reflected env) (ReflectsOwn env) KeepsCircuit
    (fun _ _ _ ok keeps went => ok.traced keeps went) (fun _ ok m pool => ok m (.inl pool))
    (fun _ _ _ ok loses went => not_reflectsOwn ok loses went) _ (reflected_initial env) events

def demoEnv : Env := ⟨none, 3, 10000, 300000⟩

def demoTarget (label : String) : ActiveTarget := ⟨"redis", 6379, false, 0, label, false⟩

/-- A command of a client for the target before a switch times out after it, when the slot
has a client for the new target. -/
def lateTimeout : List (ℕ × Event) :=
  [(0, .commitActiveTargetSync (demoTarget "blue") none), (1, .acquire .light 1),
   (2, .memberReady 0 true), (3, .command 0),
   (4, .commitActiveTargetSync (demoTarget "green") none), (5, .acquire .light 1),
   (6, .memberReady 0 true), (7, .settle 0 (.rejected ⟨none, "Command timed out"⟩))]

/-- The circuit of the new client opens. -/
theorem late_timeout_opens :
    ¬ ∀ x ∈ visited (traced demoEnv) (.initial, fun _ => []) lateTimeout,
      ReflectsOwn demoEnv x := by
  intro all
  have last := all _ (final_mem_visited _ lateTimeout)
  have inside : InPool (final (traced demoEnv) (.initial, fun _ => []) lateTimeout).1 0 :=
    ⟨.light, by decide +kernel⟩
  have opened := last 0 inside
  revert opened
  decide +kernel

end PoolCircuit
