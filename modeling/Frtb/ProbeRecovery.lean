import Frtb.PoolSteps

/-!
# The way back from an open circuit

Runs of the pools in which the pings of scheduled probes are followed. The probe sends
its ping on the client it has just built, which is not connected yet, and the client
library rejects a command sent that early: the circuit opens again. An acquisition
waits for the same client to be ready first.
-/

namespace ProbeTimers

open EventRuns RedisTarget RedisPool
open PoolCircuit (circuit circuitAt InPool Takes take delivered takes_of_delivered)
open PoolOwnership (Slotted)

section Traced

/-- The pools, with the probes that have been sent. -/
structure Traced where
  state : State
  /-- Of each command in flight, the member whose scheduled probe has sent it. -/
  pings : List (Option ℕ)
  /-- The circuit that the ping of each scheduled probe has left, once it has ended. -/
  ended : List CircuitState
  /-- The members that a client has been built for when no pool listed them any more. -/
  late : List ℕ

def start : Traced := ⟨.initial, [], [], []⟩

def listed (s : State) (m : ℕ) : Bool := allPools.any fun category => m ∈ s.slots category

def notePings (s t : State) (pings : List (Option ℕ)) : Event → List (Option ℕ)
  | .command _ => pings ++ [none]
  | .probe m => if s.commands.length < t.commands.length then pings ++ [some m] else pings
  | .settle i _ => pings.eraseIdx i
  | .failFast i _ _ => pings.eraseIdx i
  | _ => pings

/-- The place of the command that ends at an event. -/
def endsAt : Event → Option ℕ
  | .settle i _ => some i
  | .failFast i _ _ => some i
  | _ => none

/-- The member whose scheduled probe is over with an event. -/
def endedPing (x : Traced) (e : Event) : Option ℕ := ((endsAt e).bind fun i => x.pings[i]?).join

def traced (env : Env) (x : Traced) (e : ℕ × Event) : Option Traced :=
  (step env x.state e).map fun t =>
    { state := t
      pings := notePings x.state t x.pings e.2
      ended := x.ended ++ ((endedPing x e.2).map fun m => (circuitAt t m).1).toList
      late := x.late ++ ((t.clients.drop x.state.clients.length).map Client.member).filter
        fun m => !listed t m }

/-- The client library rejects a command that is sent before the socket is ready, when its
offline queue is off. -/
def refused : CommandOutcome → Bool
  | .success => false
  | .rejected err => includes err.message "Stream isn't writeable"

/-- The ping of a scheduled probe is sent too early. -/
def Refuses (x : Traced) (e : ℕ × Event) : Prop :=
  match e.2 with
  | .settle i outcome => ∀ m, x.pings[i]? = some (some m) → refused outcome = true
  | _ => True

/-- An open member of a pool waits for its timer or for a probe. -/
def Awaits (x : Traced) : Prop :=
  ∀ (a : ℕ) (member : PoolMember), InPool x.state a → x.state.members[a]? = some member →
    member.circuitState = .open → member.probeTimer = true ∨ some a ∈ x.pings

structure WayBack (x : Traced) : Prop where
  awaits : Awaits x
  /-- A member that no pool lists any more has neither a timer nor a probe. -/
  removed : ∀ (a : ℕ) (member : PoolMember), x.state.members[a]? = some member →
    ¬ InPool x.state a → member.probeTimer = false ∧ some a ∉ x.pings
  late : x.late = []
  recovered : ∀ left ∈ x.ended, left = .closed

structure Orderly (env : Env) (x : Traced) (e : ℕ × Event) : Prop where
  /-- A resize drops no member that has a timer or a probe. -/
  resized : ∀ category size, e.2 = .acquire category size →
    (getActiveTarget env x.state.target).label ≠ "" →
      ∀ a ∈ (x.state.slots category).drop size, ∀ member : PoolMember,
        x.state.members[a]? = some member → member.probeTimer = false ∧ some a ∉ x.pings
  /-- No scheduled probe comes to its end. -/
  unended : endedPing x e.2 = none
  /-- No failure opens the circuit of a member that has been dropped. -/
  quiet : ∀ (c : ℕ) (err : CommandError) (client : Client) (member : PoolMember),
    delivered x.state e.2 = some (c, some err) → x.state.clients[c]? = some client →
      x.state.members[client.member]? = some member → ¬ InPool x.state client.member →
        member.circuitState ≠ .halfOpen ∧ isFatalErrorPattern err = false ∧
          member.consecutiveFailures + 1 < env.failureThreshold

end Traced

section Invariant
variable {env : Env} {x y : Traced}

/-- The pings in flight are commands of clients of their members. -/
structure Tied (x : Traced) : Prop where
  length : x.pings.length = x.state.commands.length
  client : ∀ (i m : ℕ), x.pings[i]? = some (some m) → m < x.state.members.length ∧
    ∃ (c : ℕ) (client : Client), x.state.commands[i]? = some c ∧ x.state.clients[c]? = some client ∧
      client.member = m

structure Inv (x : Traced) : Prop where
  timed : AllTimed x.state
  slotted : Slotted x.state
  tied : Tied x
  removed : ∀ a, a < x.state.members.length → ¬ InPool x.state a →
    (circuitAt x.state a).1 ≠ .open ∧ some a ∉ x.pings
  late : x.late = []
  ended : x.ended = []

theorem listed_iff (s : State) (m : ℕ) : listed s m = true ↔ InPool s m := by
  simp only [listed, List.any_eq_true, decide_eq_true_eq, InPool]
  constructor
  · rintro ⟨category, -, mem⟩
    exact ⟨category, mem⟩
  · rintro ⟨category, mem⟩
    exact ⟨category, by cases category <;> decide, mem⟩

theorem circuitAt_of_member {s : State} {a : ℕ} {member : PoolMember}
    (here : s.members[a]? = some member) :
    circuitAt s a = (member.circuitState, member.consecutiveFailures) := by
  rw [circuitAt, here]
  rfl

theorem tied_start : Tied start := ⟨rfl, nofun⟩

/-- The clients that there were are still for the same members. -/
theorem member_of_earlier {s t : State} {ms : List ℕ}
    (grown : t.clients.map Client.member = s.clients.map Client.member ++ ms) {c : ℕ}
    {client : Client} (here : s.clients[c]? = some client) :
    ∃ after, t.clients[c]? = some after ∧ after.member = client.member := by
  have at_c := congrArg (·[c]?) grown
  have inside : c < (s.clients.map Client.member).length := by
    rw [List.length_map]
    exact (List.getElem?_eq_some_iff.mp here).1
  simp only [List.getElem?_append_left inside, List.getElem?_map, here, Option.map_some,
    Option.map_eq_some_iff] at at_c
  exact at_c

/-- The clients that a step has built. -/
theorem built_of_earlier {s t : State} {ms : List ℕ}
    (grown : t.clients.map Client.member = s.clients.map Client.member ++ ms) :
    (t.clients.drop s.clients.length).map Client.member = ms := by
  rw [List.map_drop, grown, List.drop_append_of_le_length (by rw [List.length_map]),
    List.drop_eq_nil_of_le (by rw [List.length_map]), List.nil_append]

/-- The same pings are in flight, whatever clients were built. -/
theorem Tied.same (tied : Tied x) {ms : List ℕ}
    (clients : y.state.clients.map Client.member = x.state.clients.map Client.member ++ ms)
    (commands : y.state.commands = x.state.commands)
    (length : x.state.members.length ≤ y.state.members.length) (pings : y.pings = x.pings) :
    Tied y := by
  refine ⟨by rw [pings, commands, tied.length], fun i m here => ?_⟩
  rw [pings] at here
  obtain ⟨inside, c, client, sent, own, member⟩ := tied.client i m here
  obtain ⟨after, own', member'⟩ := member_of_earlier clients own
  exact ⟨inside.trans_le length, c, after, by rw [commands]; exact sent, own', member'.trans member⟩

/-- A command is sent, perhaps the ping of a probe. -/
theorem Tied.sent (tied : Tied x) {ms : List ℕ} {c : ℕ} {ping : Option ℕ}
    (clients : y.state.clients.map Client.member = x.state.clients.map Client.member ++ ms)
    (commands : y.state.commands = x.state.commands ++ [c])
    (length : x.state.members.length ≤ y.state.members.length) (pings : y.pings = x.pings ++ [ping])
    (own : ∀ m, ping = some m → m < y.state.members.length ∧
      ∃ client, y.state.clients[c]? = some client ∧ client.member = m) : Tied y := by
  refine ⟨by rw [pings, commands, List.length_append, List.length_append, tied.length]; rfl,
    fun i m here => ?_⟩
  rw [pings, List.getElem?_append] at here
  split at here
  · rename_i old
    obtain ⟨inside, c', client, sent, mine, member⟩ := tied.client i m here
    obtain ⟨after, mine', member'⟩ := member_of_earlier clients mine
    refine ⟨inside.trans_le length, c', after, ?_, mine', member'.trans member⟩
    rw [commands, List.getElem?_append_left (tied.length ▸ old)]
    exact sent
  · rename_i new
    have last : i = x.pings.length := by
      have := (List.getElem?_eq_some_iff.mp here).1
      rw [List.length_singleton] at this
      omega
    subst last
    rw [Nat.sub_self, List.getElem?_cons_zero, Option.some.injEq] at here
    obtain ⟨inside, client, mine, member⟩ := own m here
    refine ⟨inside, c, client, ?_, mine, member⟩
    rw [commands, tied.length, List.getElem?_append_right le_rfl, Nat.sub_self]
    rfl

/-- A command ends. -/
theorem Tied.ended (tied : Tied x) {ms : List ℕ} {k : ℕ}
    (clients : y.state.clients.map Client.member = x.state.clients.map Client.member ++ ms)
    (commands : y.state.commands = x.state.commands.eraseIdx k)
    (length : x.state.members.length ≤ y.state.members.length)
    (pings : y.pings = x.pings.eraseIdx k) :
    Tied y := by
  refine ⟨by rw [pings, commands, List.length_eraseIdx, List.length_eraseIdx, tied.length],
    fun i m here => ?_⟩
  rw [pings, List.getElem?_eraseIdx] at here
  have there : ∃ j : ℕ, x.pings[j]? = some (some m) ∧
      (x.state.commands.eraseIdx k)[i]? = x.state.commands[j]? := by
    rw [List.getElem?_eraseIdx]
    split at here
    · rename_i before
      exact ⟨i, here, if_pos before⟩
    · rename_i behind
      exact ⟨i + 1, here, if_neg behind⟩
  obtain ⟨j, old, same⟩ := there
  obtain ⟨inside, c, client, sent, own, member⟩ := tied.client j m old
  obtain ⟨after, own', member'⟩ := member_of_earlier clients own
  refine ⟨inside.trans_le length, c, after, ?_, own', member'.trans member⟩
  rw [commands, same]
  exact sent

theorem exists_of_traced {e : ℕ × Event} (went : traced env x e = some y) :
    step env x.state e = some y.state ∧ y.pings = notePings x.state y.state x.pings e.2 ∧
      y.ended = x.ended ++ ((endedPing x e.2).map fun m => (circuitAt y.state m).1).toList ∧
      y.late = x.late ++ ((y.state.clients.drop x.state.clients.length).map Client.member).filter
        fun m => !listed y.state m := by
  obtain ⟨t, admitted, rfl⟩ := Option.map_eq_some_iff.mp went
  exact ⟨admitted, rfl, rfl, rfl⟩

theorem mem_dropped_or_inPool {e : ℕ × Event} (went : step env x.state e = some y.state) {a : ℕ}
    (inside : a < y.state.members.length) (outside : ¬ InPool y.state a) :
    a < x.state.members.length ∧ (¬ InPool x.state a ∨ ∃ category size,
      e.2 = .acquire category size ∧ (getActiveTarget env x.state.target).label ≠ "" ∧
        a ∈ (x.state.slots category).drop size) := by
  have frame := frame_of_step went
  obtain ⟨now, e⟩ := e
  have still : ∀ {s : State}, Frame s y.state [] → s.members = x.state.members →
      s.slots = x.state.slots → a < x.state.members.length ∧ ¬ InPool x.state a := by
    intro s frame members slots
    rw [frame.length, members] at inside
    rw [frame.inPool, InPool, slots] at outside
    exact ⟨inside, outside⟩
  cases e with
  | acquire category size =>
    rcases frame with ⟨_, same⟩ | ⟨configured, acquires⟩
    · rw [same] at inside outside
      exact ⟨inside, .inl outside⟩
    · have old : a < x.state.members.length := by
        by_contra new
        exact outside (acquires.made a (Nat.le_of_not_lt new) inside)
      refine ⟨old, ?_⟩
      by_cases pool : InPool x.state a
      · exact .inr ⟨category, size, rfl, configured, (acquires.kept a pool).resolve_left outside⟩
      · exact .inl pool
  | probe m =>
    obtain ⟨_, probes⟩ := frame
    have length := congrArg List.length probes.places
    rw [List.length_map, List.length_map] at length
    rw [InPool, probes.slots] at outside
    exact ⟨length ▸ inside, .inl outside⟩
  | memberReady => exact (still frame rfl rfl).imp_right .inl
  | commitActiveTargetSync => exact (still frame rfl rfl).imp_right .inl
  | drainGrace => exact (still frame rfl rfl).imp_right .inl
  | command => exact (still frame rfl rfl).imp_right .inl
  | settle => exact (still frame rfl rfl).imp_right .inl
  | failFast => exact (still frame rfl rfl).imp_right .inl
  | socketError => exact (still frame rfl rfl).imp_right .inl

theorem Tied.traced {e : ℕ × Event} (tied : Tied x) (went : traced env x e = some y) : Tied y := by
  obtain ⟨admitted, pings, _, _⟩ := exists_of_traced went
  have frame := frame_of_step admitted
  obtain ⟨now, e⟩ := e
  cases e with
  | acquire category size =>
    rcases frame with ⟨_, same⟩ | ⟨_, acquires⟩
    · have clients : y.state.clients.map Client.member =
          x.state.clients.map Client.member ++ [] := by rw [same, List.append_nil]
      exact tied.same clients (by rw [same]) (by rw [same]) pings
    · obtain ⟨ms, clients, _⟩ := acquires.clients
      exact tied.same clients acquires.commands acquires.length pings
  | probe m =>
    obtain ⟨_, probes⟩ := frame
    have length := congrArg List.length probes.places
    rw [List.length_map, List.length_map] at length
    rcases probes.sent with ⟨clients, commands⟩ | ⟨clients, commands, inside⟩
    · have still : y.pings = x.pings := by
        refine pings.trans (if_neg ?_)
        rw [commands]
        exact lt_irrefl _
      exact tied.same (clients.trans (List.append_nil _).symm) commands length.ge still
    · have sent : y.pings = x.pings ++ [some m] := by
        refine pings.trans (if_pos ?_)
        rw [commands, List.length_append]
        exact Nat.lt_succ_self _
      refine tied.sent clients commands length.ge sent fun m' own => ?_
      obtain rfl := Option.some.inj own
      refine ⟨length ▸ inside, ?_⟩
      have last := congrArg (·[x.state.clients.length]?) clients
      have end_ : (x.state.clients.map Client.member).length = x.state.clients.length :=
        List.length_map ..
      simp only [List.getElem?_map, List.getElem?_append_right end_.le, end_, Nat.sub_self,
        List.getElem?_cons_zero, Option.map_eq_some_iff] at last
      exact last
  | command c => exact tied.sent frame.clients frame.commands frame.length.ge pings nofun
  | settle i outcome => exact tied.ended frame.clients frame.commands frame.length.ge pings
  | failFast i timeoutMs method =>
    exact tied.ended frame.clients frame.commands frame.length.ge pings
  | memberReady => exact tied.same frame.clients frame.commands frame.length.ge pings
  | commitActiveTargetSync => exact tied.same frame.clients frame.commands frame.length.ge pings
  | drainGrace => exact tied.same frame.clients frame.commands frame.length.ge pings
  | socketError => exact tied.same frame.clients frame.commands frame.length.ge pings

/-- The client of a ping in flight is one of its member. -/
theorem Tied.takes {e : ℕ × Event} (tied : Tied x) (went : step env x.state e = some y.state)
    {i m : ℕ} (ends : endsAt e.2 = some i) (ping : x.pings[i]? = some (some m)) {c : ℕ}
    {err : Option CommandError} (outcome : delivered x.state e.2 = some (c, err)) :
    circuitAt y.state m = take env (circuitAt x.state m) err := by
  obtain ⟨inside, c', client, sent, own, rfl⟩ := tied.client i m ping
  obtain ⟨client', own', takes⟩ := takes_of_delivered outcome went
  have same : c' = c := by
    obtain ⟨now, e⟩ := e
    cases e with
    | settle j result =>
      obtain rfl : j = i := Option.some.inj ends
      cases result with
      | success =>
        simp only [delivered, sent, Option.map_some, Option.some.injEq, Prod.mk.injEq] at outcome
        exact outcome.1
      | rejected err' =>
        simp only [delivered] at outcome
        split at outcome
        · simp only [sent, Option.map_some, Option.some.injEq, Prod.mk.injEq] at outcome
          exact outcome.1
        · cases outcome
    | failFast j timeoutMs method =>
      obtain rfl : j = i := Option.some.inj ends
      simp only [delivered, sent, own, Option.bind_eq_bind, Option.bind_some,
        Option.bind_eq_some_iff] at outcome
      obtain ⟨member, _, same⟩ := outcome
      exact (Prod.mk.inj (Option.some.inj same)).1
    | _ => cases ends
  subst same
  obtain rfl : client' = client := Option.some.inj (own'.symm.trans own)
  exact takes.here inside

theorem take_fatal {err : CommandError} (fatal : isFatalErrorPattern err = true)
    (z : PoolCircuit.Circuit) : (take env z (some err)).1 = .open := by
  unfold take PoolCircuit.next
  dsimp only
  rw [if_pos (.inr (.inl fatal))]

theorem isFatalErrorPattern_failFastError (member : PoolMember) (timeoutMs : ℕ) (method : String) :
    isFatalErrorPattern (failFastError member timeoutMs method) = true := by
  have marked : includes (failFastError member timeoutMs method).message "pool-command-fail-fast" =
      true := by
    refine decide_eq_true ?_
    have start : "pool-command-fail-fast: Command timed out after ".toList =
        "pool-command-fail-fast".toList ++ ": Command timed out after ".toList := by decide +kernel
    simp only [failFastError, String.toList_append, start, List.append_assoc]
    exact (List.prefix_append _ _).isInfix
  unfold isFatalErrorPattern
  rw [marked, Bool.or_true]

/-- The end of a scheduled probe is a failure: the client rejects its ping, or the command
times out before. -/
theorem delivered_of_endedPing {e : ℕ × Event} (tied : Tied x) (refuses : Refuses x e)
    (went : step env x.state e = some y.state) {i m : ℕ} (ends : endsAt e.2 = some i)
    (ping : x.pings[i]? = some (some m)) :
    ∃ c err, delivered x.state e.2 = some (c, some err) ∧ isFatalErrorPattern err = true := by
  obtain ⟨inside, c, client, sent, own, rfl⟩ := tied.client i m ping
  obtain ⟨now, e⟩ := e
  cases e with
  | settle j result =>
    obtain rfl : j = i := Option.some.inj ends
    obtain ⟨err, rfl, refused⟩ : ∃ err, result = .rejected err ∧
        includes err.message "Stream isn't writeable" = true := by
      have early := refuses client.member ping
      cases result with
      | success => cases early
      | rejected err => exact ⟨err, rfl, early⟩
    have recycles : shouldRecycle err = true := by
      unfold shouldRecycle
      rw [refused, Bool.or_true]
    have fatal : isFatalErrorPattern err = true := by
      unfold isFatalErrorPattern
      rw [refused, Bool.or_true, Bool.true_or, Bool.true_or]
    refine ⟨c, err, ?_, fatal⟩
    simp only [delivered, if_pos recycles, sent, Option.map_some]
  | failFast j timeoutMs method =>
    obtain rfl : j = i := Option.some.inj ends
    have member := List.getElem?_eq_getElem inside
    refine ⟨c, failFastError x.state.members[client.member] timeoutMs method, ?_, ?_⟩
    · simp only [delivered, sent, own, member, Option.bind_eq_bind, Option.bind_some]
    · exact isFatalErrorPattern_failFastError _ timeoutMs method
  | _ => cases ends

/-- A scheduled probe ends with the circuit open. -/
theorem open_of_endedPing {e : ℕ × Event} (tied : Tied x) (refuses : Refuses x e)
    (went : step env x.state e = some y.state) {m : ℕ} (ended : endedPing x e.2 = some m) :
    (circuitAt y.state m).1 = .open := by
  have ended' : (endsAt e.2).bind (fun i => x.pings[i]?) = some (some m) :=
    Option.join_eq_some_iff.mp ended
  obtain ⟨i, ends, ping⟩ := Option.bind_eq_some_iff.mp ended'
  obtain ⟨c, err, outcome, fatal⟩ := delivered_of_endedPing tied refuses went ends ping
  rw [tied.takes went ends ping outcome]
  exact take_fatal fatal _

/-- A member without a timer and a probe that no pool lists. -/
def Rests (x : Traced) (a : ℕ) : Prop := (circuitAt x.state a).1 ≠ .open ∧ some a ∉ x.pings

theorem mem_notePings {s t : State} {pings : List (Option ℕ)} {e : Event} {a : ℕ}
    (mem : some a ∈ notePings s t pings e) : some a ∈ pings ∨ e = .probe a := by
  cases e with
  | command c =>
    refine .inl ((List.mem_append.mp mem).resolve_right fun last => ?_)
    cases List.mem_singleton.mp last
  | probe m =>
    have mem : some a ∈ if s.commands.length <
        t.commands.length then pings ++ [some m] else pings :=
      mem
    split at mem
    · refine (List.mem_append.mp mem).imp_right fun last => ?_
      rw [Option.some.inj (List.mem_singleton.mp last)]
    · exact .inl mem
  | settle i outcome => exact .inl (List.mem_of_mem_eraseIdx mem)
  | failFast i timeoutMs method => exact .inl (List.mem_of_mem_eraseIdx mem)
  | _ => exact .inl mem

theorem member_of_lt {s : State} {a : ℕ} (inside : a < s.members.length) :
    ∃ member, s.members[a]? = some member ∧
      circuitAt s a = (member.circuitState, member.consecutiveFailures) :=
  ⟨_, List.getElem?_eq_getElem inside, circuitAt_of_member (List.getElem?_eq_getElem inside)⟩

theorem take_quiet {z : PoolCircuit.Circuit} {err : CommandError} (half : z.1 ≠ .halfOpen)
    (harmless : isFatalErrorPattern err = false) (few : z.2 + 1 < env.failureThreshold) :
    take env z (some err) = (z.1, z.2 + 1) := by
  unfold take PoolCircuit.next
  dsimp only
  refine if_neg ?_
  rintro (probing | fatal | many)
  · exact half probing
  · exact Bool.false_ne_true (harmless.symm.trans fatal)
  · omega

/-- Without a failure that opens its circuit, a member that no pool lists stays at rest. -/
theorem Rests.traced {e : ℕ × Event} {a : ℕ} (rests : Rests x a) (timed : AllTimed x.state)
    (old : a < x.state.members.length) (outside : ¬ InPool y.state a)
    (orderly : Orderly env x e) (went : traced env x e = some y) : Rests y a := by
  obtain ⟨admitted, pings, _, _⟩ := exists_of_traced went
  obtain ⟨member, here, state⟩ := member_of_lt old
  have closed : member.circuitState ≠ .open := by
    intro opened
    exact rests.1 (by rw [state]; exact opened)
  constructor
  · cases outcome : delivered x.state e.2 with
    | none =>
      rcases quiet_of_step outcome admitted outside with same | shut
      · rw [same]
        exact rests.1
      · exact shut
    | some o =>
      obtain ⟨c, err⟩ := o
      obtain ⟨client, own, takes⟩ := takes_of_delivered outcome admitted
      by_cases mine : a = client.member
      · subst mine
        rw [takes.here old]
        cases err with
        | none =>
          unfold take
          dsimp only
          split
          · nofun
          · exact rests.1
        | some err =>
          have before : ¬ InPool x.state client.member := by
            rw [InPool, takes.slots] at outside
            exact outside
          obtain ⟨half, harmless, few⟩ := orderly.quiet c err client member outcome own here before
          rw [state, take_quiet half harmless few]
          exact closed
      · rw [takes.other a (.inl mine)]
        exact rests.1
  · intro mem
    rw [pings] at mem
    rcases mem_notePings mem with sent | probed
    · exact rests.2 sent
    · -- a probe needs the timer, and the member has none
      have frame := frame_of_step admitted
      rw [probed] at frame
      obtain ⟨⟨member', here', armed⟩, _⟩ := frame
      obtain rfl := Option.some.inj (here'.symm.trans here)
      exact closed ((timed a member' here).mpr armed)

theorem slotted_of_step {s t : State} {e : ℕ × Event} (ok : Slotted s)
    (went : step env s e = some t) : Slotted t := by
  have frame := frame_of_step went
  obtain ⟨now, e⟩ := e
  have still : ∀ {r : State}, Frame r t [] → r.members = s.members → r.slots = s.slots →
      Slotted t := by
    intro r frame members slots
    refine frame.slotted ?_
    unfold Slotted
    rw [members, slots]
    exact ok
  cases e with
  | acquire category size =>
    rcases frame with ⟨_, rfl⟩ | ⟨_, acquires⟩
    · exact ok
    · exact acquires.slotted ok
  | probe m =>
    obtain ⟨_, probes⟩ := frame
    have moved : Frame { s with clients := t.clients, commands := t.commands } t [] :=
      ⟨(List.append_nil _).symm, rfl, probes.slots, probes.places⟩
    exact still moved rfl rfl
  | memberReady => exact still frame rfl rfl
  | commitActiveTargetSync => exact still frame rfl rfl
  | drainGrace => exact still frame rfl rfl
  | command => exact still frame rfl rfl
  | settle => exact still frame rfl rfl
  | failFast => exact still frame rfl rfl
  | socketError => exact still frame rfl rfl

/-- A client is built for a member of a pool: an open one is listed. -/
theorem inPool_of_built {e : ℕ × Event} (inv : Inv x) (went : step env x.state e = some y.state)
    {m : ℕ} (mem : m ∈ (y.state.clients.drop x.state.clients.length).map Client.member) :
    InPool y.state m := by
  have frame := frame_of_step went
  obtain ⟨now, e⟩ := e
  have none_built : y.state.clients.map Client.member = x.state.clients.map Client.member ++ [] →
      InPool y.state m := by
    intro clients
    rw [built_of_earlier clients] at mem
    cases mem
  cases e with
  | acquire category size =>
    rcases frame with ⟨_, same⟩ | ⟨_, acquires⟩
    · exact none_built (by rw [same, List.append_nil])
    · obtain ⟨ms, clients, pools⟩ := acquires.clients
      rw [built_of_earlier clients] at mem
      exact pools m mem
  | probe a =>
    obtain ⟨⟨member, here, armed⟩, probes⟩ := frame
    rcases probes.sent with ⟨clients, _⟩ | ⟨clients, _, inside⟩
    · exact none_built (clients.trans (List.append_nil _).symm)
    · rw [built_of_earlier clients] at mem
      obtain rfl := List.mem_singleton.mp mem
      rw [InPool, probes.slots]
      by_contra unlisted
      refine (inv.removed m inside unlisted).1 ?_
      rw [circuitAt_of_member here]
      exact (inv.timed m member here).mpr armed
  | memberReady => exact none_built frame.clients
  | commitActiveTargetSync => exact none_built frame.clients
  | drainGrace => exact none_built frame.clients
  | command => exact none_built frame.clients
  | settle => exact none_built frame.clients
  | failFast => exact none_built frame.clients
  | socketError => exact none_built frame.clients

theorem Inv.traced {e : ℕ × Event} (backoffs : Backoffs env) (inv : Inv x)
    (orderly : Orderly env x e) (went : traced env x e = some y) : Inv y := by
  obtain ⟨admitted, pings, ended, late⟩ := exists_of_traced went
  have timed : AllTimed y.state := allTimed_step backoffs inv.timed admitted
  refine ⟨timed, slotted_of_step inv.slotted admitted, inv.tied.traced went,
    fun a inside outside => ?_, ?_, ?_⟩
  · obtain ⟨old, before⟩ := mem_dropped_or_inPool admitted inside outside
    have rests : Rests x a := by
      rcases before with unlisted | ⟨category, size, event, configured, dropped⟩
      · exact inv.removed a old unlisted
      · obtain ⟨member, here, state⟩ := member_of_lt old
        obtain ⟨unarmed, unsent⟩ :=
          orderly.resized category size event configured a dropped member here
        refine ⟨fun opened => ?_, unsent⟩
        rw [state] at opened
        exact Bool.false_ne_true (unarmed.symm.trans ((inv.timed a member here).mp opened))
    exact rests.traced inv.timed old outside orderly went
  · have listedBuilt : ∀ m ∈ (y.state.clients.drop x.state.clients.length).map Client.member,
        listed y.state m = true := by
      intro m mem
      exact (listed_iff _ _).mpr (inPool_of_built inv admitted mem)
    rw [late, inv.late, List.nil_append, List.filter_eq_nil_iff]
    intro m mem
    rw [listedBuilt m mem]
    exact Bool.false_ne_true
  · rw [ended, inv.ended, orderly.unended]
    rfl

theorem Inv.wayBack (inv : Inv x) : WayBack x where
  awaits a member _ here opened := .inl ((inv.timed a member here).mp opened)
  removed a member here outside := by
    obtain ⟨closed, unsent⟩ := inv.removed a (List.getElem?_eq_some_iff.mp here).1 outside
    refine ⟨eq_false_of_ne_true fun armed => closed ?_, unsent⟩
    rw [circuitAt_of_member here]
    exact (inv.timed a member here).mpr armed
  late := inv.late
  recovered := by
    rw [inv.ended]
    nofun

/-- A member that is open, or has a probe under way, is not left behind. -/
theorem inPool_of_wayBack (way : WayBack y) (timed : AllTimed y.state) {a : ℕ}
    (inside : a < y.state.members.length)
    (busy : (circuitAt y.state a).1 = .open ∨ some a ∈ y.pings) : InPool y.state a := by
  by_contra outside
  obtain ⟨member, here, state⟩ := member_of_lt inside
  obtain ⟨unarmed, unsent⟩ := way.removed a member here outside
  rcases busy with opened | sent
  · rw [state] at opened
    exact Bool.false_ne_true (unarmed.symm.trans ((timed a member here).mp opened))
  · exact unsent sent

theorem orderly_of_wayBack {e : ℕ × Event} (backoffs : Backoffs env) (inv : Inv x)
    (refuses : Refuses x e) (went : traced env x e = some y) (way : WayBack y) :
    Orderly env x e := by
  obtain ⟨admitted, pings, ended, _⟩ := exists_of_traced went
  have timed : AllTimed y.state := allTimed_step backoffs inv.timed admitted
  refine ⟨fun category size event configured a dropped member here => ?_, ?_,
    fun c err client member outcome own here outside => ?_⟩
  · have frame := frame_of_step admitted
    rw [event] at frame pings
    obtain ⟨_, acquires⟩ := frame.resolve_left fun unset => configured unset.1
    have outside : ¬ InPool y.state a := acquires.dropped inv.slotted a dropped
    have inside : a < y.state.members.length :=
      (List.getElem?_eq_some_iff.mp here).1.trans_le acquires.length
    have idle := fun busy => outside (inPool_of_wayBack way timed inside busy)
    constructor
    · refine eq_false_of_ne_true fun armed => idle (.inl ?_)
      rw [acquires.circuits a outside, circuitAt_of_member here]
      exact (inv.timed a member here).mpr armed
    · intro sent
      refine idle (.inr ?_)
      rw [pings]
      exact sent
  · cases last : endedPing x e.2 with
    | none => rfl
    | some m =>
      have opened := open_of_endedPing inv.tied refuses admitted last
      have left : (circuitAt y.state m).1 ∈ y.ended := by
        rw [ended, last]
        exact List.mem_append_right _ List.mem_cons_self
      rw [way.recovered _ left] at opened
      cases opened
  · -- were one of the three to hold, the failure would open the circuit
    obtain ⟨client', own', takes⟩ := takes_of_delivered outcome admitted
    obtain rfl : client' = client := Option.some.inj (own'.symm.trans own)
    have inside : client'.member < x.state.members.length := (List.getElem?_eq_some_iff.mp here).1
    have unlisted : ¬ InPool y.state client'.member := by
      rw [InPool, takes.slots]
      exact outside
    have shut : (take env (circuitAt x.state client'.member) (some err)).1 ≠ .open := by
      rw [← takes.here inside]
      exact fun opened =>
        unlisted (inPool_of_wayBack way timed (takes.length ▸ inside) (.inl opened))
    rw [circuitAt_of_member here] at shut
    unfold take PoolCircuit.next at shut
    dsimp only at shut
    split at shut
    · exact absurd rfl shut
    · rename_i harmless
      simp only [not_or, Bool.not_eq_true, Nat.not_le] at harmless
      exact harmless

end Invariant

section Runs
variable (x : Settings)

theorem inv_start : Inv start where
  timed := nofun
  slotted := nofun
  tied := tied_start
  removed _ inside := absurd inside (Nat.not_lt_zero _)
  late := rfl
  ended := rfl

/-- In a run in which the client library refuses what is sent too early, a scheduled probe
ends with the circuit open, whatever the backoffs are. -/
theorem scheduled_probe_ends_open (env : Env) (events : List (ℕ × Event))
    (refuses : ∀ p ∈ taken (traced env) start events, Refuses p.1 p.2) :
    ∀ p ∈ taken (traced env) start events, ∀ y, traced env p.1 p.2 = some y →
      ∀ m, endedPing p.1 p.2.2 = some m → (circuitAt y.state m).1 = .open := by
  intro p mem y went m ended
  have tied : Tied p.1 :=
    @taken_of_inv _ _ (traced env) Tied (fun _ _ => True)
      (fun _ _ _ tied _ went => tied.traced went) start tied_start events
      (fun _ _ => trivial) p mem
  exact open_of_endedPing tied (refuses p mem) (exists_of_traced went).1 ended

/-- With positive backoffs every open circuit has a way back, exactly in the runs whose steps
are orderly. -/
theorem open_circuits_recover_iff
    (initial : 0 < getHalfOpenInitialBackoffMs x.halfOpenInitialBackoffMs)
    (cap : 0 < getHalfOpenBackoffCapMs x.halfOpenBackoffCapMs) (events : List (ℕ × Event))
    (refuses : ∀ p ∈ taken (traced x.env) start events, Refuses p.1 p.2) :
    (∀ y ∈ visited (traced x.env) start events, WayBack y) ↔
      ∀ p ∈ taken (traced x.env) start events, Orderly x.env p.1 p.2 := by
  have backoffs : Backoffs x.env := ⟨initial, cap⟩
  refine @visited_safe_iff_given _ _ (traced x.env) Inv WayBack (Orderly x.env) Refuses ?_ ?_ ?_
    start inv_start events refuses
  · intro y e z inv _ orderly went
    exact inv.traced backoffs orderly went
  · intro y inv
    exact inv.wayBack
  · intro y e z inv refused disorderly went way
    exact disorderly (orderly_of_wayBack backoffs inv refused went way)

def demoSettings (initialBackoffMs : Option String) : Settings := ⟨none, 3, initialBackoffMs, none⟩

def timedOut : CommandOutcome := .rejected ⟨none, "Command timed out"⟩

def tooEarly : CommandOutcome :=
  .rejected ⟨none, "Stream isn't writeable and enableOfflineQueue options is false"⟩

/-- A command of the only member times out. -/
def openedRun : List (ℕ × Event) :=
  [(0, .commitActiveTargetSync (PoolCircuit.demoTarget "blue") none), (1, .acquire .light 1),
   (2, .memberReady 0 true), (3, .command 0), (4, .settle 0 timedOut)]

/-- Its scheduled probe runs to its end. -/
def probedRun : List (ℕ × Event) := openedRun ++ [(10004, .probe 0), (10005, .settle 0 tooEarly)]

/-- The pool shrinks, and the probe of the member that it drops starts after that. -/
def resizedRun : List (ℕ × Event) := openedRun ++ [(5, .acquire .light 0), (10004, .probe 0)]

def droppedBy (s : State) : Event → List ℕ
  | .acquire category size => (s.slots category).drop size
  | _ => []

/-- No probe is under way, no member is dropped and every client is of a member of a pool. -/
def Plain (x : Traced) (e : ℕ × Event) : Prop :=
  (∀ ping ∈ x.pings, ping = none) ∧ droppedBy x.state e.2 = [] ∧
    ∀ client ∈ x.state.clients, listed x.state client.member = true

theorem endedPing_of_plain {x : Traced} {e : ℕ × Event} (plain : Plain x e) (m : ℕ) :
    some m ∉ x.pings := fun mem => Option.some_ne_none m (plain.1 (some m) mem)

theorem refuses_of_plain {x : Traced} {e : ℕ × Event} (plain : Plain x e) : Refuses x e := by
  obtain ⟨now, e⟩ := e
  cases e with
  | settle i outcome =>
    exact fun m ping => absurd (List.mem_of_getElem? ping) (endedPing_of_plain plain m)
  | _ => exact trivial

theorem orderly_of_plain {env : Env} {x : Traced} {e : ℕ × Event} (plain : Plain x e) :
    Orderly env x e := by
  refine ⟨fun category size event configured a dropped => ?_, ?_,
    fun c err client member outcome own here outside => ?_⟩
  · have none_dropped : (x.state.slots category).drop size = [] := by
      have nothing := plain.2.1
      rw [event] at nothing
      exact nothing
    rw [none_dropped] at dropped
    cases dropped
  · cases last : endedPing x e.2 with
    | none => rfl
    | some m =>
      obtain ⟨i, _, ping⟩ := Option.bind_eq_some_iff.mp (Option.join_eq_some_iff.mp last)
      exact absurd (List.mem_of_getElem? ping) (endedPing_of_plain plain m)
  · exact absurd ((listed_iff _ _).mp (plain.2.2 client (List.mem_of_getElem? own))) outside

instance (x : Traced) (e : ℕ × Event) : Decidable (Plain x e) := inferInstanceAs (Decidable (_ ∧ _))

theorem open_circuits_recover_opened :
    (taken (traced (demoSettings none).env) start openedRun).length = openedRun.length ∧
      ∀ y ∈ visited (traced (demoSettings none).env) start openedRun, WayBack y := by
  refine ⟨by decide +kernel, ?_⟩
  have plain : ∀ p ∈ taken (traced (demoSettings none).env) start openedRun, Plain p.1 p.2 := by
    decide +kernel
  exact (open_circuits_recover_iff (demoSettings none) (by decide) (by decide) openedRun
    fun p mem => refuses_of_plain (plain p mem)).mpr fun p mem => orderly_of_plain (plain p mem)

instance (x : Traced) (e : ℕ × Event) : Decidable (Refuses x e) :=
  match e with
  | (_, .settle i outcome) => decidable_of_iff (∀ m ∈ (x.pings[i]?).join, refused outcome = true) <|
      forall_congr' fun _ => imp_congr_left Option.join_eq_some_iff
  | (_, .acquire _ _) | (_, .memberReady _ _) | (_, .commitActiveTargetSync _ _)
  | (_, .drainGrace _) | (_, .command _) | (_, .failFast _ _ _) | (_, .socketError _ _)
  | (_, .probe _) => isTrue trivial

/-- The scheduled probe leaves the circuit open with twice the backoff; with an initial
backoff of zero the open member has neither a timer nor a probe; and a member that a
resize has dropped builds a client. -/
theorem open_circuit_left_behind :
    ((∀ p ∈ taken (traced (demoSettings none).env) start probedRun, Refuses p.1 p.2) ∧
      (final (traced (demoSettings none).env) start probedRun).state.members.map
        (fun m => (m.circuitState, m.currentBackoffMs)) = [(.open, 20000)] ∧
      ¬ ∀ y ∈ visited (traced (demoSettings none).env) start probedRun, WayBack y) ∧
    ((∀ p ∈ taken (traced (demoSettings (some "0")).env) start openedRun, Refuses p.1 p.2) ∧
      ¬ ∀ y ∈ visited (traced (demoSettings (some "0")).env) start openedRun, Awaits y) ∧
    (∀ p ∈ taken (traced (demoSettings none).env) start resizedRun, Refuses p.1 p.2) ∧
      ¬ ∀ y ∈ visited (traced (demoSettings none).env) start resizedRun, y.late = [] := by
  refine ⟨⟨by decide +kernel, by decide +kernel, fun all => ?_⟩, ⟨by decide +kernel, fun all => ?_⟩,
    by decide +kernel, fun all => ?_⟩
  · have left := (all _ (final_mem_visited _ probedRun)).recovered
    revert left
    decide +kernel
  · have at_0 : ((final
      (traced (demoSettings (some "0")).env) start openedRun).state.members[0]?).map
        (fun m => (m.circuitState, m.probeTimer)) = some (.open, false) := by decide +kernel
    obtain ⟨member, here, same⟩ := Option.map_eq_some_iff.mp at_0
    obtain ⟨opened, unarmed⟩ := Prod.mk.inj same
    rcases all _ (final_mem_visited _ openedRun) 0 member ⟨.light, by
      decide +kernel⟩ here opened with
      armed | sent
    · exact Bool.false_ne_true (unarmed.symm.trans armed)
    · revert sent
      decide +kernel
  · have built := all _ (final_mem_visited _ resizedRun)
    revert built
    decide +kernel

end Runs

end ProbeTimers
