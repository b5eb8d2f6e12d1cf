import Frtb.RedisTarget
import Frtb.Library.EventRuns

/-!
# Overlapping target switches

`setActiveTarget` registers a switch, announces the next version to the services, waits
for them to drain, and commits. The wait is an await: another call can register its own
switch, and commit it, before an older one resumes. A switch is named by its place in
the order of the calls.
-/

namespace TargetSwitch

open EventRuns RedisTarget

inductive ServiceSwitchPhase
  | pending
  | drained
  | committed
  | drainTimeout
  | pushFailed
  | error
  deriving DecidableEq, Repr

inductive SwitchPhase
  | prepare
  | draining
  | committed
  deriving DecidableEq, Repr

abbrev PerService := List (String × ServiceSwitchPhase)

/-- A switch record with what its suspended call still holds. -/
structure SwitchRecord where
  target : ActiveTarget
  creds : Option ActiveTargetCreds
  knownServices : List String
  nextLabel : String
  nextVersion : Nat
  phase : SwitchPhase
  perService : PerService
  /-- `waitForDrain` has resolved. -/
  drainDone : Bool
  /-- Services whose prepare push is outstanding. -/
  preparing : List String
  /-- Services whose commit push is outstanding. -/
  committing : List String
  deriving DecidableEq, Repr

structure Coordinator where
  active : TargetState
  switches : List SwitchRecord
  currentSwitch : Option Nat
  deriving DecidableEq, Repr

def Coordinator.initial : Coordinator := ⟨.initial, [], none⟩

/-- What `getSwitchStatus` reports. -/
structure SwitchStatus where
  currentSwitchId : Option Nat
  phase : Option SwitchPhase
  perService : PerService

def getSwitchStatus (s : Coordinator) : SwitchStatus :=
  match s.currentSwitch.bind fun id => s.switches[id]? with
  | none => ⟨none, none, []⟩
  | some record => ⟨s.currentSwitch, some record.phase, record.perService⟩

def phaseOf (services : PerService) (service : String) : ServiceSwitchPhase :=
  (services.lookup service).getD .pending

def setPhase (services : PerService) (service : String) (phase : ServiceSwitchPhase) : PerService :=
  if services.any fun entry => entry.1 = service then
    services.map fun entry => if entry.1 = service then (service, phase) else entry
  else services ++ [(service, phase)]

def allTerminallyDrained (record : SwitchRecord) : Bool :=
  record.perService.all fun entry => entry.2 ≠ .pending

/-- `drainNotify`, which is installed while the call waits. -/
def drainNotify (record : SwitchRecord) : SwitchRecord :=
  if record.phase = .draining && allTerminallyDrained record then { record with drainDone := true }
  else record

def notePhase (record : SwitchRecord) (service : String) (phase : ServiceSwitchPhase) :
    SwitchRecord :=
  drainNotify { record with perService := setPhase record.perService service phase }

/-- `applyPushAck` on the current record. -/
def applyPushAck (service : String) (committed : Bool) (record : SwitchRecord) : SwitchRecord :=
  match committed, phaseOf record.perService service with
  | false, .pending => notePhase record service .drained
  | true, .pending | true, .drained => notePhase record service .committed
  | _, _ => record

/-- `markPushFailed` on the current record. -/
def markPushFailed (service : String) (record : SwitchRecord) : SwitchRecord :=
  match phaseOf record.perService service with
  | .pending => notePhase record service .pushFailed
  | _ => record

/-- A well-formed body of `POST /internal/redis/active-target/ack`. -/
structure SwitchAckInput where
  switchId : Nat
  service : String
  committed : Bool
  ok : Bool
  deriving DecidableEq, Repr

def recordAck (ack : SwitchAckInput) (record : SwitchRecord) : SwitchRecord :=
  notePhase record ack.service
    (if ack.ok then (if ack.committed then .committed else .drained) else .error)

/-- Change the record of a switch, whether or not it is the current one. -/
def Coordinator.edit (s : Coordinator) (id : Nat) (f : SwitchRecord → SwitchRecord) : Coordinator :=
  { s with switches := s.switches.modify id f }

/-- Acknowledgements only reach the switch that is current. -/
def Coordinator.editCurrent (s : Coordinator) (id : Nat) (f : SwitchRecord → SwitchRecord) :
    Coordinator :=
  if s.currentSwitch = some id then s.edit id f else s

/-- What a settled push means for its service. -/
def settlePush (service : String) (committed ok : Bool) : SwitchRecord → SwitchRecord :=
  if ok then applyPushAck service committed else markPushFailed service

/-- A call of `setActiveTarget`, up to its first await. -/
def setActiveTarget (s : Coordinator) (t : ActiveTarget) (creds : Option ActiveTargetCreds)
    (knownServices : List String) : Coordinator :=
  let record : SwitchRecord :=
    { target := t, creds := creds, knownServices := knownServices, nextLabel := t.label
      nextVersion := s.active.activeTargetVersion + 1, phase := .prepare
      perService := knownServices.foldl (fun m service => setPhase m service .pending) []
      drainDone := false, preparing := [], committing := [] }
  let registered : Coordinator := { s with currentSwitch := some s.switches.length }
  if s.active.override.isNone || knownServices.isEmpty then
    { registered with
      active := s.active.commit t creds
      switches := s.switches ++ [{ record with phase := .committed }] }
  else
    { registered with
      switches := s.switches ++ [{ record with phase := .draining, preparing := knownServices }] }

/-- The call resumes after `waitForDrain`: what is still pending has timed out, and the
target is committed whatever the current switch is. -/
def commitDrained (s : Coordinator) (id : Nat) (record : SwitchRecord) : Coordinator :=
  { (s.edit id fun record =>
      { record with
        perService := record.perService.map fun entry =>
          if entry.2 = .pending then (entry.1, .drainTimeout) else entry
        phase := .committed
        committing := record.knownServices }) with
    active := s.active.commit record.target record.creds }

inductive Event
  | setActiveTarget (t : ActiveTarget) (creds : Option ActiveTargetCreds)
      (knownServices : List String)
  | preparePush (id : Nat) (service : String) (ok : Bool)
  | ack (input : SwitchAckInput)
  | drainTimeout (id : Nat)
  | drained (id : Nat)
  | commitPush (id : Nat) (service : String) (ok : Bool)

def step (s : Coordinator) : Event → Option Coordinator
  | .setActiveTarget t creds knownServices => some (setActiveTarget s t creds knownServices)
  | .preparePush id service ok => do
    let record ← s.switches[id]?
    if service ∈ record.preparing then
      some ((s.edit id fun r => { r with preparing := r.preparing.erase service }).editCurrent id
        (settlePush service false ok))
    else none
  | .ack input => some (s.editCurrent input.switchId (recordAck input))
  | .drainTimeout id => do
    let record ← s.switches[id]?
    if record.phase = .draining then some (s.edit id fun r => { r with drainDone := true })
    else none
  | .drained id => do
    let record ← s.switches[id]?
    if record.phase = .draining && record.drainDone then some (commitDrained s id record)
    else none
  | .commitPush id service ok => do
    let record ← s.switches[id]?
    if service ∈ record.committing then
      some ((s.edit id fun r => { r with committing := r.committing.erase service }).editCurrent id
        (settlePush service true ok))
    else none

/-- Every call of `setActiveTarget` has returned. -/
def AllReturned (s : Coordinator) : Prop :=
  ∀ record ∈ s.switches, record.phase = .committed ∧ record.committing = []

/-- The active target is the one of the call that started last, and the switch that is
reported as current is that call's. -/
def SwitchedToLast (s : Coordinator) : Prop :=
  ∀ last, s.switches.getLast? = some last →
    s.active.override = some last.target ∧
      (getSwitchStatus s).currentSwitchId = some (s.switches.length - 1) ∧
      last.nextLabel = last.target.label

/-- A switch that commits is the current one, under the version it announced. -/
def CommitsOwn (s : Coordinator) : Event → Prop
  | .drained id => s.currentSwitch = some id ∧
      ∀ record, s.switches[id]? = some record →
        (commitDrained s id record).active.activeTargetVersion = record.nextVersion
  | _ => True

structure LastRequestWins (s : Coordinator) (events : List Event) : Prop where
  last : ∀ t ∈ visited step s events, AllReturned t → SwitchedToLast t
  commits : ∀ p ∈ taken step s events, CommitsOwn p.1 p.2

/-- No call starts while an earlier one waits for its services to drain. -/
def StartsAlone (s : Coordinator) : Event → Prop
  | .setActiveTarget _ _ _ => ∀ record ∈ s.switches, record.phase ≠ .draining
  | _ => True

/-- What one call after another keeps: the last switch is the current one, and only it
can be waiting. -/
structure InOrder (s : Coordinator) : Prop where
  current : ∀ i, i + 1 = s.switches.length → s.currentSwitch = some i
  label : ∀ record ∈ s.switches, record.nextLabel = record.target.label
  settled : ∀ record ∈ s.switches, record.phase = .draining ∨ record.phase = .committed
  waiting : ∀ i record, s.switches[i]? = some record → record.phase = .draining →
    i + 1 = s.switches.length ∧ record.nextVersion = s.active.activeTargetVersion + 1
  active : ∀ last, s.switches.getLast? = some last → last.phase = .committed →
    s.active.override = some last.target

/-- An edit that leaves alone what the order of the switches is read off. -/
def KeepsCore (f : SwitchRecord → SwitchRecord) : Prop :=
  ∀ r, (f r).phase = r.phase ∧ (f r).nextVersion = r.nextVersion ∧
    (f r).nextLabel = r.nextLabel ∧ (f r).target = r.target

theorem KeepsCore.drainNotify : KeepsCore drainNotify := by
  intro r
  unfold TargetSwitch.drainNotify
  split <;> exact ⟨rfl, rfl, rfl, rfl⟩

theorem KeepsCore.notePhase (service : String) (phase : ServiceSwitchPhase) :
    KeepsCore fun r => notePhase r service phase :=
  fun r => KeepsCore.drainNotify { r with perService := setPhase r.perService service phase }

theorem KeepsCore.settlePush (service : String) (committed ok : Bool) :
    KeepsCore (settlePush service committed ok) := by
  intro r
  unfold TargetSwitch.settlePush
  split
  · unfold applyPushAck
    split
    · exact KeepsCore.notePhase service _ r
    · exact KeepsCore.notePhase service _ r
    · exact KeepsCore.notePhase service _ r
    · exact ⟨rfl, rfl, rfl, rfl⟩
  · unfold markPushFailed
    split
    · exact KeepsCore.notePhase service _ r
    · exact ⟨rfl, rfl, rfl, rfl⟩

theorem KeepsCore.recordAck (input : SwitchAckInput) : KeepsCore (recordAck input) :=
  KeepsCore.notePhase input.service _

variable {s t : Coordinator}

theorem edit_getElem? (id i : Nat) (f : SwitchRecord → SwitchRecord) :
    (s.edit id f).switches[i]? = if id = i then s.switches[i]?.map f else s.switches[i]? := by
  refine (List.getElem?_modify ..).trans ?_
  split
  · rfl
  · exact congrFun Option.map_id _

theorem length_edit (id : Nat) (f : SwitchRecord → SwitchRecord) :
    (s.edit id f).switches.length = s.switches.length :=
  List.length_modify ..

/-- A record after the edit stems from the one in its place. -/
theorem edit_source {id i : Nat} {f : SwitchRecord → SwitchRecord} (keeps : KeepsCore f)
    {r : SwitchRecord} (here : (s.edit id f).switches[i]? = some r) :
    ∃ q, s.switches[i]? = some q ∧ r.phase = q.phase ∧ r.nextVersion = q.nextVersion ∧
      r.nextLabel = q.nextLabel ∧ r.target = q.target := by
  rw [edit_getElem?] at here
  split at here
  · obtain ⟨q, hq, rfl⟩ := Option.map_eq_some_iff.mp here
    exact ⟨q, hq, keeps q⟩
  · exact ⟨r, here, rfl, rfl, rfl, rfl⟩

theorem InOrder.edit (ok : InOrder s) {f : SwitchRecord → SwitchRecord} (keeps : KeepsCore f)
    (id : Nat) : InOrder (s.edit id f) where
  current i last := ok.current i (by rwa [length_edit] at last)
  label r mem := by
    obtain ⟨i, here⟩ := List.mem_iff_getElem?.mp mem
    obtain ⟨q, hq, _, _, label, target⟩ := edit_source keeps here
    rw [label, target]
    exact ok.label q (List.mem_iff_getElem?.mpr ⟨i, hq⟩)
  settled r mem := by
    obtain ⟨i, here⟩ := List.mem_iff_getElem?.mp mem
    obtain ⟨q, hq, phase, _⟩ := edit_source keeps here
    rw [phase]
    exact ok.settled q (List.mem_iff_getElem?.mpr ⟨i, hq⟩)
  waiting i r here draining := by
    obtain ⟨q, hq, phase, version, _⟩ := edit_source keeps here
    rw [length_edit, version]
    exact ok.waiting i q hq (phase ▸ draining)
  active last here committed := by
    rw [List.getLast?_eq_getElem?, length_edit] at here
    obtain ⟨q, hq, phase, _, _, target⟩ := edit_source keeps here
    rw [← List.getLast?_eq_getElem?] at hq
    rw [target]
    exact ok.active q hq (phase ▸ committed)

theorem InOrder.editCurrent (ok : InOrder s) {f : SwitchRecord → SwitchRecord}
    (keeps : KeepsCore f) (id : Nat) : InOrder (s.editCurrent id f) := by
  unfold Coordinator.editCurrent
  split
  · exact ok.edit keeps id
  · exact ok

theorem getElem?_append_single {α : Type} {xs : List α} {x y : α} {i : Nat}
    (here : (xs ++ [x])[i]? = some y) : xs[i]? = some y ∨ (i = xs.length ∧ y = x) := by
  rw [List.getElem?_append] at here
  split at here
  · exact .inl here
  · obtain ⟨inside, rfl⟩ := List.getElem?_eq_some_iff.mp here
    simp only [List.length_singleton] at inside
    refine .inr ⟨by omega, List.getElem_singleton _⟩

/-- A call that starts while nobody waits keeps the switches in order. -/
theorem InOrder.start (ok : InOrder s) (alone : ∀ record ∈ s.switches, record.phase ≠ .draining)
    (target : ActiveTarget) (creds : Option ActiveTargetCreds) (knownServices : List String) :
    InOrder (setActiveTarget s target creds knownServices) := by
  have fresh : ∀ {switches : List SwitchRecord} {x : SwitchRecord},
      switches = s.switches ++ [x] → ∀ i r, switches[i]? = some r → r.phase = .draining →
      i = s.switches.length ∧ r = x := by
    rintro switches x rfl i r here draining
    obtain old | own := getElem?_append_single here
    · exact absurd draining (alone r (List.mem_iff_getElem?.mpr ⟨i, old⟩))
    · exact own
  unfold setActiveTarget
  dsimp only
  split
  · constructor
    · intro i last
      simp only [List.length_append, List.length_singleton] at last
      exact congrArg some (by omega)
    · intro r mem
      rcases List.mem_append.mp mem with old | own
      · exact ok.label r old
      · rw [List.mem_singleton.mp own]
    · intro r mem
      rcases List.mem_append.mp mem with old | own
      · exact ok.settled r old
      · rw [List.mem_singleton.mp own]
        exact .inr rfl
    · intro i r here draining
      obtain ⟨_, rfl⟩ := fresh rfl i r here draining
      cases draining
    · intro last here _
      rw [List.getLast?_concat, Option.some.injEq] at here
      rw [← here]
      rfl
  · constructor
    · intro i last
      simp only [List.length_append, List.length_singleton] at last
      exact congrArg some (by omega)
    · intro r mem
      rcases List.mem_append.mp mem with old | own
      · exact ok.label r old
      · rw [List.mem_singleton.mp own]
    · intro r mem
      rcases List.mem_append.mp mem with old | own
      · exact ok.settled r old
      · rw [List.mem_singleton.mp own]
        exact .inl rfl
    · intro i r here draining
      obtain ⟨rfl, rfl⟩ := fresh rfl i r here draining
      refine ⟨?_, rfl⟩
      simp only [List.length_append, List.length_singleton]
    · intro last here committed
      rw [List.getLast?_concat, Option.some.injEq] at here
      rw [← here] at committed
      cases committed

/-- A switch that resumes commits what it announced, because it is the current one. -/
theorem InOrder.commitsOwn (ok : InOrder s) {id : Nat} {record : SwitchRecord}
    (here : s.switches[id]? = some record) (draining : record.phase = .draining) :
    CommitsOwn s (.drained id) := by
  obtain ⟨last, version⟩ := ok.waiting id record here draining
  refine ⟨ok.current id last, ?_⟩
  intro r hr
  obtain rfl := Option.some.inj (here.symm.trans hr)
  exact version.symm

theorem InOrder.commit (ok : InOrder s) {id : Nat} {record : SwitchRecord}
    (here : s.switches[id]? = some record) (draining : record.phase = .draining) :
    InOrder (commitDrained s id record) := by
  obtain ⟨last, _⟩ := ok.waiting id record here draining
  have source : ∀ {i : Nat} {r : SwitchRecord}, (commitDrained s id record).switches[i]? = some r →
      ∃ q, s.switches[i]? = some q ∧ r.phase = .committed ∧ r.nextLabel = q.nextLabel ∧
        r.target = q.target := by
    intro i r now
    obtain ⟨q, hq⟩ : ∃ q, s.switches[i]? = some q := by
      have inside := (List.getElem?_eq_some_iff.mp now).1
      simp only [commitDrained, length_edit] at inside
      exact ⟨_, List.getElem?_eq_getElem inside⟩
    simp only [commitDrained, edit_getElem?, hq] at now
    split at now
    · obtain rfl := Option.some.inj now
      exact ⟨q, hq, rfl, rfl, rfl⟩
    · rename_i other
      obtain rfl := Option.some.inj now
      refine ⟨q, hq, ?_, rfl, rfl⟩
      rcases ok.settled q (List.mem_iff_getElem?.mpr ⟨i, hq⟩) with waits | done
      · exact absurd (by have := (ok.waiting i q hq waits).1; omega) other
      · exact done
  constructor
  · intro i place
    simp only [commitDrained, length_edit] at place
    exact ok.current i place
  · intro r mem
    obtain ⟨i, now⟩ := List.mem_iff_getElem?.mp mem
    obtain ⟨q, hq, _, label, target⟩ := source now
    rw [label, target]
    exact ok.label q (List.mem_iff_getElem?.mpr ⟨i, hq⟩)
  · intro r mem
    obtain ⟨i, now⟩ := List.mem_iff_getElem?.mp mem
    obtain ⟨q, _, done, _⟩ := source now
    exact .inr done
  · intro i r now draining'
    obtain ⟨q, hq, done, _⟩ := source now
    rw [done] at draining'
    cases draining'
  · intro r now _
    have place : s.switches.length - 1 = id := by omega
    rw [List.getLast?_eq_getElem?] at now
    simp only [commitDrained, length_edit, place] at now
    obtain ⟨q, hq, _, _, target⟩ := source now
    obtain rfl := Option.some.inj (here.symm.trans hq)
    rw [target]
    rfl

theorem keepsCore_preparing (service : String) :
    KeepsCore fun r => { r with preparing := r.preparing.erase service } :=
  fun _ => ⟨rfl, rfl, rfl, rfl⟩

theorem keepsCore_committing (service : String) :
    KeepsCore fun r => { r with committing := r.committing.erase service } :=
  fun _ => ⟨rfl, rfl, rfl, rfl⟩

theorem InOrder.step (ok : InOrder s) {e : Event} (alone : StartsAlone s e)
    (admitted : step s e = some t) : InOrder t := by
  cases e with
  | setActiveTarget target creds knownServices =>
    obtain rfl := Option.some.inj admitted
    exact ok.start alone target creds knownServices
  | preparePush id service pushOk =>
    simp only [TargetSwitch.step, Option.bind_eq_bind, Option.bind_eq_some_iff] at admitted
    obtain ⟨record, _, admitted⟩ := admitted
    split at admitted
    · obtain rfl := Option.some.inj admitted
      exact (ok.edit (keepsCore_preparing service) id).editCurrent (.settlePush service _ pushOk) id
    · cases admitted
  | ack input =>
    obtain rfl := Option.some.inj admitted
    exact ok.editCurrent (.recordAck input) input.switchId
  | drainTimeout id =>
    simp only [TargetSwitch.step, Option.bind_eq_bind, Option.bind_eq_some_iff] at admitted
    obtain ⟨record, _, admitted⟩ := admitted
    split at admitted
    · obtain rfl := Option.some.inj admitted
      have keeps : KeepsCore fun r => { r with drainDone := true } := fun _ => ⟨rfl, rfl, rfl, rfl⟩
      exact ok.edit keeps id
    · cases admitted
  | drained id =>
    simp only [TargetSwitch.step, Option.bind_eq_bind, Option.bind_eq_some_iff] at admitted
    obtain ⟨record, here, admitted⟩ := admitted
    split at admitted
    · rename_i ready
      obtain rfl := Option.some.inj admitted
      exact ok.commit here (of_decide_eq_true (Bool.and_eq_true_iff.mp ready).1)
    · cases admitted
  | commitPush id service pushOk =>
    simp only [TargetSwitch.step, Option.bind_eq_bind, Option.bind_eq_some_iff] at admitted
    obtain ⟨record, _, admitted⟩ := admitted
    split at admitted
    · obtain rfl := Option.some.inj admitted
      exact (ok.edit (keepsCore_committing service) id).editCurrent
        (.settlePush service _ pushOk) id
    · cases admitted

theorem InOrder.switchedToLast (ok : InOrder s) (returned : AllReturned s) : SwitchedToLast s := by
  intro last here
  have mem := List.mem_of_getLast? here
  have pos : 0 < s.switches.length := List.length_pos_of_mem mem
  have current := ok.current (s.switches.length - 1) (by omega)
  refine ⟨ok.active last here (returned last mem).1, ?_, ok.label last mem⟩
  have there : s.switches[s.switches.length - 1]? = some last := by
    rw [← List.getLast?_eq_getElem?]
    exact here
  simp only [getSwitchStatus, current, Option.bind_some, there]

theorem inOrder_initial : InOrder .initial where
  current i last := absurd last (Nat.succ_ne_zero i)
  label _ mem := (List.not_mem_nil mem).elim
  settled _ mem := (List.not_mem_nil mem).elim
  waiting _ _ here _ := (by cases here)
  active _ here _ := (by cases here)

/-- The switch at place `i` waits for its services although a newer one is registered. -/
def Superseded (s : Coordinator) (i : Nat) : Prop :=
  (∃ record, s.switches[i]? = some record ∧ record.phase = .draining) ∧ s.currentSwitch ≠ some i

theorem Superseded.edit {i : Nat} (old : Superseded s i) {f : SwitchRecord → SwitchRecord}
    (keeps : ∀ r, (f r).phase = r.phase) (id : Nat) : Superseded (s.edit id f) i := by
  obtain ⟨⟨record, here, draining⟩, behind⟩ := old
  refine ⟨?_, behind⟩
  rw [edit_getElem?, here]
  split
  · exact ⟨f record, rfl, (keeps record).trans draining⟩
  · exact ⟨record, rfl, draining⟩

theorem Superseded.editCurrent {i : Nat} (old : Superseded s i) {f : SwitchRecord → SwitchRecord}
    (keeps : ∀ r, (f r).phase = r.phase) (id : Nat) : Superseded (s.editCurrent id f) i := by
  unfold Coordinator.editCurrent
  split
  · exact old.edit keeps id
  · exact old

/-- A call that starts during the wait of an older one supersedes it. -/
theorem superseded_of_overlap {target : ActiveTarget} {creds : Option ActiveTargetCreds}
    {knownServices : List String} {i : Nat} {record : SwitchRecord}
    (here : s.switches[i]? = some record) (draining : record.phase = .draining) :
    Superseded (setActiveTarget s target creds knownServices) i := by
  have inside := (List.getElem?_eq_some_iff.mp here).1
  unfold setActiveTarget
  dsimp only
  split <;>
  · refine ⟨⟨record, ?_, draining⟩, fun same => ?_⟩
    · dsimp only
      rw [List.getElem?_append_left inside]
      exact here
    · have := Option.some.inj same
      omega

/-- Only its own commit takes a superseded switch out of the wait. -/
theorem Superseded.step {i : Nat} (old : Superseded s i) {e : Event} (other : e ≠ .drained i)
    (admitted : step s e = some t) : Superseded t i := by
  cases e with
  | setActiveTarget target creds knownServices =>
    obtain rfl := Option.some.inj admitted
    obtain ⟨⟨record, here, draining⟩, _⟩ := old
    exact superseded_of_overlap here draining
  | preparePush id service pushOk =>
    simp only [TargetSwitch.step, Option.bind_eq_bind, Option.bind_eq_some_iff] at admitted
    obtain ⟨record, _, admitted⟩ := admitted
    split at admitted
    · obtain rfl := Option.some.inj admitted
      exact (old.edit (fun r => (keepsCore_preparing service r).1) id).editCurrent
        (fun r => (KeepsCore.settlePush service _ pushOk r).1) id
    · cases admitted
  | ack input =>
    obtain rfl := Option.some.inj admitted
    exact old.editCurrent (fun r => (KeepsCore.recordAck input r).1) input.switchId
  | drainTimeout id =>
    simp only [TargetSwitch.step, Option.bind_eq_bind, Option.bind_eq_some_iff] at admitted
    obtain ⟨record, _, admitted⟩ := admitted
    split at admitted
    · obtain rfl := Option.some.inj admitted
      have keeps : KeepsCore fun r => { r with drainDone := true } := fun _ => ⟨rfl, rfl, rfl, rfl⟩
      exact old.edit (fun r => (keeps r).1) id
    · cases admitted
  | drained id =>
    simp only [TargetSwitch.step, Option.bind_eq_bind, Option.bind_eq_some_iff] at admitted
    obtain ⟨record, _, admitted⟩ := admitted
    split at admitted
    · obtain rfl := Option.some.inj admitted
      have apart : id ≠ i := fun same => other (same ▸ rfl)
      obtain ⟨⟨own, here, draining⟩, behind⟩ := old
      refine ⟨⟨own, ?_, draining⟩, behind⟩
      simp only [commitDrained, edit_getElem?, if_neg apart, here]
    · cases admitted
  | commitPush id service pushOk =>
    simp only [TargetSwitch.step, Option.bind_eq_bind, Option.bind_eq_some_iff] at admitted
    obtain ⟨record, _, admitted⟩ := admitted
    split at admitted
    · obtain rfl := Option.some.inj admitted
      exact (old.edit (fun r => (keepsCore_committing service r).1) id).editCurrent
        (fun r => (KeepsCore.settlePush service _ pushOk r).1) id
    · cases admitted

theorem Superseded.not_returned {i : Nat} (old : Superseded s i) : ¬ AllReturned s := by
  intro all
  obtain ⟨⟨record, here, draining⟩, _⟩ := old
  have done := (all record (List.mem_iff_getElem?.mpr ⟨i, here⟩)).1
  rw [draining] at done
  cases done

/-- A superseded switch whose call returns has committed over a newer one. -/
theorem Superseded.commits {i : Nat} (old : Superseded s i) {events : List Event}
    (returned : AllReturned (final TargetSwitch.step s events)) :
    ∃ p ∈ taken TargetSwitch.step s events, ¬ CommitsOwn p.1 p.2 := by
  induction events generalizing s with
  | nil => exact absurd returned old.not_returned
  | cons e events ih =>
    cases admitted : TargetSwitch.step s e with
    | none =>
      simp only [final, admitted] at returned
      exact absurd returned old.not_returned
    | some t =>
      simp only [final, taken, admitted] at returned ⊢
      by_cases own : e = .drained i
      · refine ⟨(s, e), List.mem_cons_self, ?_⟩
        subst own
        exact fun commits => old.2 commits.1
      · obtain ⟨p, mem, bad⟩ := ih (old.step own admitted) returned
        exact ⟨p, List.mem_cons_of_mem _ mem, bad⟩

theorem lastRequestWins_of_alone (init : InOrder s) {events : List Event}
    (alone : ∀ p ∈ taken step s events, StartsAlone p.1 p.2) : LastRequestWins s events := by
  constructor
  · intro t mem returned
    exact (visited_of_taken (fun _ _ _ ok here admitted => ok.step here admitted) init alone t
      mem).switchedToLast returned
  · rintro ⟨s', e⟩ mem
    have ok : InOrder s' :=
      taken_of_inv (fun _ _ _ ok here admitted => ok.step here admitted) init alone _ mem
    obtain ⟨t, _, admitted, _⟩ := taken_suffix mem
    cases e with
    | drained id =>
      simp only [step, Option.bind_eq_bind, Option.bind_eq_some_iff] at admitted
      obtain ⟨record, here, admitted⟩ := admitted
      split at admitted
      · rename_i ready
        exact ok.commitsOwn here (of_decide_eq_true (Bool.and_eq_true_iff.mp ready).1)
      · cases admitted
    | _ => trivial

/-- Where no call starts during the wait of another, the last request wins; and in a
run in which every call has returned, it wins only there. -/
theorem last_request_wins (events : List Event) :
    ((∀ p ∈ taken step .initial events, StartsAlone p.1 p.2) →
        LastRequestWins .initial events) ∧
      (AllReturned (final step .initial events) →
        (LastRequestWins .initial events ↔
          ∀ p ∈ taken step .initial events, StartsAlone p.1 p.2)) := by
  refine ⟨lastRequestWins_of_alone inOrder_initial, fun returned =>
    ⟨?_, lastRequestWins_of_alone inOrder_initial⟩⟩
  rintro wins ⟨s, e⟩ mem
  obtain ⟨t, rest, admitted, last, sub, _⟩ := taken_suffix mem
  cases e with
  | setActiveTarget target creds knownServices =>
    intro record mem' draining
    obtain ⟨i, here⟩ := List.mem_iff_getElem?.mp mem'
    obtain rfl := Option.some.inj admitted
    have old : Superseded (setActiveTarget s target creds knownServices) i :=
      superseded_of_overlap here draining
    obtain ⟨p, taken, bad⟩ := old.commits (last ▸ returned)
    exact bad (wins.commits p (sub taken))
  | _ => trivial

def targetAt (host : String) : ActiveTarget := ⟨host, 6379, false, 0, host, false⟩

/-- A second switch starts, drains and commits while the first still waits for its
services; then the first one's drain times out. -/
def slowFirstSwitch : List Event :=
  [.setActiveTarget (targetAt "boot") none ["ingest"],
   .setActiveTarget (targetAt "a") none ["ingest"],
   .setActiveTarget (targetAt "b") none ["ingest"],
   .preparePush 2 "ingest" true, .drained 2, .commitPush 2 "ingest" true,
   .drainTimeout 1, .drained 1, .commitPush 1 "ingest" true]

/-- The older request wins: both calls have returned, the target is the first one's, and
the switch reported as current is the second one's. -/
theorem older_switch_wins :
    AllReturned (final step .initial slowFirstSwitch) ∧
      (final step .initial slowFirstSwitch).active.override = some (targetAt "a") ∧
      (getSwitchStatus (final step .initial slowFirstSwitch)).currentSwitchId = some 2 ∧
      ¬ LastRequestWins .initial slowFirstSwitch := by
  have returned : AllReturned (final step .initial slowFirstSwitch) := by
    unfold AllReturned
    decide +kernel
  refine ⟨returned, by decide +kernel, by decide +kernel, fun wins => ?_⟩
  have last := wins.last _ (final_mem_visited _ _) returned _ (rfl : _ = some _)
  exact absurd last.1 (by decide +kernel)

end TargetSwitch
