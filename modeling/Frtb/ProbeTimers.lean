import Mathlib
import Frtb.Library.NumberText
import Frtb.PoolCircuit
import Frtb.PoolOwnership

/-!
# Probe timers

An open circuit is left by a probe, and the probe is started by a timer that the
opening sets when its backoff is positive. With positive backoffs a member is open
exactly while its timer is pending, in every run and whether or not a pool still lists
it: a resize drops members without a look at their timers.
-/

namespace ProbeTimers

open NumberText RedisTarget RedisPool
open PoolCircuit (circuit circuitAt circuitAt_edit InPool Still Takes Probes delivered)
open PoolOwnership (Slotted KeepsPlace)

section Settings

def halfOpenInitialBackoffDefaultMs : ℕ := 10000

def halfOpenBackoffCapDefaultMs : ℕ := 300000

/-- A number of milliseconds that an environment variable gives, rounded down. -/
def backoffMs (default : ℕ) (admits : ℚ → Bool) : Option String → ℕ
  | none => default
  | some raw =>
    if raw = "" then default
    else
      match toNumber raw with
      | some n => if admits n then ⌊n⌋.toNat else default
      | none => default

def getHalfOpenInitialBackoffMs (raw : Option String) : ℕ :=
  backoffMs halfOpenInitialBackoffDefaultMs (fun n => 0 ≤ n) raw

def getHalfOpenBackoffCapMs (raw : Option String) : ℕ :=
  backoffMs halfOpenBackoffCapDefaultMs (fun n => 0 < n) raw

/-- The environment, with the two backoff variables as they are set. -/
structure Settings where
  redisUrl : Option ActiveTarget
  failureThreshold : ℕ
  halfOpenInitialBackoffMs : Option String
  halfOpenBackoffCapMs : Option String

def Settings.env (x : Settings) : Env where
  redisUrl := x.redisUrl
  failureThreshold := x.failureThreshold
  halfOpenInitialBackoffMs := getHalfOpenInitialBackoffMs x.halfOpenInitialBackoffMs
  halfOpenBackoffCapMs := getHalfOpenBackoffCapMs x.halfOpenBackoffCapMs

/-- A cap that is positive and below one millisecond is admitted, and rounds down to none. -/
example : getHalfOpenInitialBackoffMs (some "0") = 0 ∧ getHalfOpenBackoffCapMs (some "0.5") = 0 :=
  by decide +kernel

end Settings

section Timed
variable {env : Env} {s t : State}

/-- The timer is pending exactly while the circuit is open. -/
def Timed (m : PoolMember) : Prop := m.circuitState = .open ↔ m.probeTimer = true

def AllTimed (s : State) : Prop := ∀ (a : ℕ) (m : PoolMember), s.members[a]? = some m → Timed m

/-- Both backoffs are positive. -/
structure Backoffs (env : Env) : Prop where
  initial : 0 < env.halfOpenInitialBackoffMs
  cap : 0 < env.halfOpenBackoffCapMs

theorem timed_transitionCircuit (backoffs : Backoffs env) (now : ℕ) (next : CircuitState)
    {m : PoolMember} (ok : Timed m) : Timed (transitionCircuit env now next m) := by
  unfold transitionCircuit
  split
  · exact ok
  · cases next with
    | closed => exact ⟨nofun, nofun⟩
    | halfOpen => exact ⟨nofun, nofun⟩
    | «open» =>
      refine iff_of_true rfl (decide_eq_true ?_)
      split
      · rename_i again
        exact lt_min (by omega) backoffs.cap
      · exact backoffs.initial

theorem timed_countFailure (backoffs : Backoffs env) (now : ℕ) (fatal : Bool) {m : PoolMember}
    (ok : Timed m) : Timed (countFailure env now fatal m) := by
  have counted : Timed { m with consecutiveFailures := m.consecutiveFailures + 1 } := ok
  unfold countFailure
  dsimp only
  split
  · exact timed_transitionCircuit backoffs now .open counted
  · exact counted

theorem timed_countSuccess (backoffs : Backoffs env) (now : ℕ) {m : PoolMember} (ok : Timed m) :
    Timed (countSuccess env now m) := by
  unfold countSuccess
  dsimp only
  split
  · have closed : Timed (transitionCircuit env now .closed m) :=
      timed_transitionCircuit backoffs now .closed ok
    exact closed
  · exact ok

theorem AllTimed.edit (ok : AllTimed s) {m : ℕ} {f : PoolMember → PoolMember}
    (each : ∀ x, s.members[m]? = some x → Timed (f x)) : AllTimed (s.edit m f) := by
  intro a member here
  obtain ⟨before, was, rfl⟩ : ∃ before, s.members[a]? = some before ∧
      (if m = a then f before else before) = member :=
    Option.map_eq_some_iff.mp ((List.getElem?_modify ..).symm.trans here)
  split
  · rename_i same
    subst same
    exact each before was
  · exact ok a before was

theorem AllTimed.edit_each (ok : AllTimed s) {f : PoolMember → PoolMember}
    (each : ∀ x, Timed x → Timed (f x)) (m : ℕ) : AllTimed (s.edit m f) :=
  ok.edit fun x here => each x (ok m x here)

theorem AllTimed.of_members (ok : AllTimed s) (same : t.members = s.members) : AllTimed t := by
  unfold AllTimed
  rw [same]
  exact ok

theorem AllTimed.disconnectSlot (ok : AllTimed s) (m : ℕ) : AllTimed (s.disconnectSlot m) := by
  unfold State.disconnectSlot
  split
  · exact ok.of_members rfl
  · exact ok

theorem AllTimed.blank (ok : AllTimed s) (m : ℕ) : AllTimed (s.edit m blank) :=
  ok.edit_each (f := RedisPool.blank) (fun _ own => own) m

theorem AllTimed.publish (ok : AllTimed s) (m c : ℕ) (key : TargetKey) :
    AllTimed (s.publish m c key) :=
  ok.edit_each (f := fun member => { member with client := some c, key := some key })
    (fun _ own => own) m

theorem AllTimed.noteFailure (backoffs : Backoffs env) (ok : AllTimed s) (now m c : ℕ)
    (err : CommandError) : AllTimed (s.noteFailure env now m c err) := by
  have counted := ok.edit_each
      (fun _ => timed_countFailure backoffs now (isFatalErrorPattern err)) m
  unfold State.noteFailure State.recyclePoolMember
  split
  · exact (counted.blank m).of_members rfl
  · exact counted

theorem AllTimed.promoteToHalfOpen (backoffs : Backoffs env) (ok : AllTimed s) (now m : ℕ) :
    AllTimed (s.promoteToHalfOpen env now m) :=
  ((ok.edit_each (fun _ => timed_transitionCircuit backoffs now .halfOpen) m).disconnectSlot
      m).blank m

theorem members_foldl_disconnectSlot (ms : List ℕ) (s : State) :
    (ms.foldl State.disconnectSlot s).members = s.members := by
  induction ms generalizing s with
  | nil => rfl
  | cons m ms ih =>
    refine (ih _).trans ?_
    unfold State.disconnectSlot
    split <;> rfl

theorem AllTimed.ensurePoolSized (ok : AllTimed s) (category : Category) (size : ℕ) :
    AllTimed (s.ensurePoolSized category size) := by
  unfold State.ensurePoolSized
  dsimp only
  split
  · intro a member here
    rcases List.mem_append.mp (List.mem_of_getElem? here) with old | new
    · obtain ⟨i, there⟩ := List.mem_iff_getElem?.mp old
      exact ok i member there
    · obtain ⟨i, _, rfl⟩ := List.mem_map.mp new
      exact ⟨nofun, nofun⟩
  · exact ok.of_members (members_foldl_disconnectSlot _ s)

theorem AllTimed.useSlot (ok : AllTimed s) (m : ℕ) : AllTimed (s.useSlot env m).1 := by
  unfold State.useSlot
  split
  · exact ok
  · split
    · exact ok
    · have counted := (ok.disconnectSlot m).edit_each (f := countBuild) (fun _ own => own) m
      exact counted.of_members rfl

theorem AllTimed.acquireFromPool (backoffs : Backoffs env) (ok : AllTimed s) (now : ℕ)
    (category : Category) (size : ℕ) : AllTimed (s.acquireFromPool env now category size).1 := by
  unfold State.acquireFromPool
  split
  · exact ok
  · have sized := ok.ensurePoolSized category size
    dsimp only
    split
    · exact sized
    · rename_i m _
      split
      · have half := sized.promoteToHalfOpen backoffs now m
        exact (half.of_members (t := State.turn _ category _) rfl).useSlot m
      · exact (sized.of_members (t := State.turn _ category _) rfl).useSlot m

theorem AllTimed.memberReady (ok : AllTimed s) (a : Acquisition) (ready : Bool) :
    AllTimed (s.memberReady a ready).1 := by
  unfold State.memberReady
  split
  · exact (ok.publish a.member a.client a.key).of_members rfl
  · have off : AllTimed (s.disconnect a.client) := ok.of_members rfl
    exact off.blank a.member

theorem AllTimed.detach (ok : AllTimed s) (m : ℕ) : AllTimed (s.detach m) := by
  have reset : AllTimed (s.edit m resetForSwap) := ok.edit fun _ _ => ⟨nofun, nofun⟩
  unfold State.detach
  split
  · exact reset.of_members rfl
  · exact reset

/-- The timer of a member that is open fires. -/
theorem AllTimed.probe (ok : AllTimed s) (now : ℕ) {m : ℕ}
    {member : PoolMember} (here : s.members[m]? = some member) (armed : member.probeTimer = true) :
    AllTimed ((s.edit m cancelScheduledProbe).runHalfOpenProbe env now m) := by
  have opened : member.circuitState = .open := (ok m member here).mpr armed
  have there : (s.edit m cancelScheduledProbe).members[m]? =
      some (cancelScheduledProbe member) := by
    refine (List.getElem?_modify_eq ..).trans ?_
    rw [here]
    rfl
  have half : ∀ x, s.members[m]? = some x →
      Timed (transitionCircuit env now .halfOpen (cancelScheduledProbe x)) := by
    intro x same
    obtain rfl := Option.some.inj (here.symm.trans same)
    have still : (cancelScheduledProbe member).circuitState ≠ .halfOpen := by
      show member.circuitState ≠ .halfOpen
      rw [opened]
      nofun
    unfold transitionCircuit
    rw [if_neg still]
    exact ⟨nofun, nofun⟩
  have edits : (s.edit m cancelScheduledProbe).edit m (transitionCircuit env now .halfOpen) =
      s.edit m fun x => transitionCircuit env now .halfOpen (cancelScheduledProbe x) := by
    unfold State.edit
    rw [List.modify_modify_eq]
    rfl
  have promoted : AllTimed ((s.edit m cancelScheduledProbe).promoteToHalfOpen env now m) := by
    unfold State.promoteToHalfOpen
    rw [edits]
    exact ((ok.edit half).disconnectSlot m).blank m
  unfold State.runHalfOpenProbe
  rw [there]
  dsimp only
  rw [if_neg (fun shut => shut opened)]
  have filled : ∀ (u : State) (x : ActiveTarget) (c : ℕ) (key : TargetKey) (cs : List ℕ),
      AllTimed u → AllTimed { ((u.build m x true).publish m c key).edit m countBuild with
        commands := cs } := by
    intro u x c key cs ok
    have built : AllTimed (u.build m x true) := ok.of_members rfl
    have counted := (built.publish m c key).edit_each (f := countBuild) (fun _ own => own) m
    exact counted.of_members rfl
  exact filled _ _ _ _ _ promoted

theorem allTimed_step (backoffs : Backoffs env) (ok : AllTimed s) {e : ℕ × Event}
    (went : step env s e = some t) : AllTimed t := by
  obtain ⟨returned, admitted⟩ := stepWith_of_step went
  obtain ⟨now, e⟩ := e
  cases e with
  | acquire category size =>
    have acquired := ok.acquireFromPool backoffs now category size
    have same : s.acquireFromPool env now category size = (t, returned) := Option.some.inj admitted
    rwa [same] at acquired
  | memberReady i ready =>
    obtain ⟨a, here, admitted⟩ := Option.bind_eq_some_iff.mp admitted
    rw [← (Prod.mk.inj (Option.some.inj admitted)).1]
    have left : AllTimed { s with acquisitions := s.acquisitions.eraseIdx i } := ok.of_members rfl
    exact left.memberReady a ready
  | commitActiveTargetSync x creds =>
    obtain ⟨rfl, _⟩ := Prod.mk.inj (Option.some.inj admitted)
    refine List.foldlRecOn (motive := AllTimed) _ _ (ok.of_members rfl) fun s ok m _ => ok.detach m
  | drainGrace c =>
    simp only [stepWith] at admitted
    split at admitted
    · obtain ⟨rfl, _⟩ := Prod.mk.inj (Option.some.inj admitted)
      exact ok.of_members rfl
    · cases admitted
  | command c =>
    obtain ⟨client, _, admitted⟩ := Option.bind_eq_some_iff.mp admitted
    split at admitted
    · obtain ⟨rfl, _⟩ := Prod.mk.inj (Option.some.inj admitted)
      exact ok.of_members rfl
    · cases admitted
  | settle i outcome =>
    obtain ⟨c, _, admitted⟩ := Option.bind_eq_some_iff.mp admitted
    obtain ⟨client, _, admitted⟩ := Option.bind_eq_some_iff.mp admitted
    obtain ⟨rfl, _⟩ := Prod.mk.inj (Option.some.inj admitted)
    have left : AllTimed { s with commands := s.commands.eraseIdx i } := ok.of_members rfl
    cases outcome with
    | success => exact left.edit_each (fun _ => timed_countSuccess backoffs now) client.member
    | rejected err =>
      dsimp only [settleCommand]
      split
      · exact left.noteFailure backoffs now client.member c err
      · exact left
  | failFast i timeoutMs method =>
    obtain ⟨c, _, admitted⟩ := Option.bind_eq_some_iff.mp admitted
    obtain ⟨client, _, admitted⟩ := Option.bind_eq_some_iff.mp admitted
    obtain ⟨member, _, admitted⟩ := Option.bind_eq_some_iff.mp admitted
    obtain ⟨rfl, _⟩ := Prod.mk.inj (Option.some.inj admitted)
    have left : AllTimed { s with commands := s.commands.eraseIdx i } := ok.of_members rfl
    exact left.noteFailure backoffs now client.member c _
  | socketError c err =>
    obtain ⟨client, _, admitted⟩ := Option.bind_eq_some_iff.mp admitted
    obtain ⟨rfl, _⟩ := Prod.mk.inj (Option.some.inj admitted)
    split
    · exact ok.noteFailure backoffs now client.member c err
    · exact ok
  | probe m =>
    obtain ⟨member, here, admitted⟩ := Option.bind_eq_some_iff.mp admitted
    split at admitted
    · rename_i armed
      obtain ⟨rfl, _⟩ := Prod.mk.inj (Option.some.inj admitted)
      exact ok.probe now here armed
    · cases admitted

end Timed

end ProbeTimers
