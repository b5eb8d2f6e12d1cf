import Frtb.TargetSwitch

/-!
# Phases of the services of a switch

The responses of the two pushes and the timeout write a service's phase behind guards: a
service that has committed, failed or timed out keeps its phase. The acknowledgement
route writes the same field without a guard.
-/

namespace TargetSwitch

open EventRuns RedisTarget

/-- The moves of a service within one switch. -/
def advances : ServiceSwitchPhase → ServiceSwitchPhase → Bool
  | .pending, .drained | .pending, .pushFailed | .pending, .error | .pending, .drainTimeout => true
  | .pending, .committed | .drained, .committed => true
  | _, _ => false

def terminal : ServiceSwitchPhase → Bool
  | .pending | .drained => false
  | .committed | .drainTimeout | .pushFailed | .error => true

theorem terminal_stops {p q : ServiceSwitchPhase} (stopped : terminal p) :
    advances p q = false := by
  cases p <;> first | rfl | cases stopped

/-- The phase a service has in a switch; one that the switch does not know starts as pending. -/
def phaseIn (s : Coordinator) (id : Nat) (service : String) : ServiceSwitchPhase :=
  match s.switches[id]? with
  | none => .pending
  | some record => phaseOf record.perService service

/-- The switch whose services an event reports on. -/
def Event.reportsOn : Event → Option Nat
  | .preparePush id _ _ | .commitPush id _ _ => some id
  | .ack input => some input.switchId
  | .setActiveTarget _ _ _ | .drainTimeout _ | .drained _ => none

def SwitchRecord.forgetPushes (record : SwitchRecord) : SwitchRecord :=
  { record with preparing := [], committing := [] }

/-- The coordinator without its lists of outstanding pushes. -/
def Coordinator.forgetPushes (s : Coordinator) : Coordinator :=
  { s with switches := s.switches.map SwitchRecord.forgetPushes }

/-- No service makes any but the allowed moves. -/
def ServicesMove (s t : Coordinator) : Prop :=
  ∀ id service, phaseIn t id service = phaseIn s id service ∨
    advances (phaseIn s id service) (phaseIn t id service)

/-- What is reported on another switch than the current one changes nothing. -/
def OthersIgnored (s : Coordinator) (e : Event) (t : Coordinator) : Prop :=
  ∀ id, e.reportsOn = some id → s.currentSwitch ≠ some id → t.forgetPushes = s.forgetPushes

/-- The wait is over once no service is pending. -/
def WaitOver (record : SwitchRecord) : Prop :=
  record.phase = .draining → allTerminallyDrained record → record.drainDone

structure PhasesFollowed (s : Coordinator) (events : List Event) : Prop where
  moves : ∀ p ∈ taken step s events, ∀ t, step p.1 p.2 = some t → ServicesMove p.1 t
  stays : ∀ es fs, events = es ++ fs → ∀ id service,
    terminal (phaseIn (final step s es) id service) →
      phaseIn (final step s events) id service = phaseIn (final step s es) id service
  ignored : ∀ p ∈ taken step s events, ∀ t, step p.1 p.2 = some t → OthersIgnored p.1 p.2 t
  returns : ∀ t ∈ visited step s events, ∀ record ∈ t.switches, WaitOver record

/-- The phases in which an acknowledgement may find its service: the ones that the guards of
the push responses let it leave, and the one it reports. -/
def SwitchAckInput.admits (ack : SwitchAckInput) : ServiceSwitchPhase → Bool
  | .pending => true
  | .drained => ack.ok
  | .committed => ack.ok && ack.committed
  | .error => !ack.ok
  | .drainTimeout | .pushFailed => false

/-- An acknowledgement of the current switch finds its service in a phase it may leave. -/
def AckFits (s : Coordinator) : Event → Prop
  | .ack input => s.currentSwitch = some input.switchId →
      input.admits (phaseIn s input.switchId input.service)
  | _ => True

theorem lookup_map_snd {α β : Type} [DecidableEq α] (f : α × β → β) (m : List (α × β)) (x : α) :
    (m.map fun entry => (entry.1, f entry)).lookup x = (m.lookup x).map fun v => f (x, v) := by
  induction m with
  | nil => rfl
  | cons entry m ih =>
    rw [List.map_cons, List.lookup_cons, List.lookup_cons]
    by_cases own : x = entry.1
    · subst own
      simp only [beq_self_eq_true, Option.map_some]
    · rw [beq_false_of_ne own]
      exact ih

theorem phaseOf_setPhase (m : PerService) (service x : String) (phase : ServiceSwitchPhase) :
    phaseOf (setPhase m service phase) x = if x = service then phase else phaseOf m x := by
  unfold setPhase phaseOf
  split
  · rename_i known
    have same : (m.map fun entry => if entry.1 = service then (service, phase) else entry) =
        m.map fun entry => (entry.1, if entry.1 = service then phase else entry.2) := by
      refine List.map_congr_left fun entry _ => ?_
      split
      · rename_i own
        rw [own]
      · rfl
    rw [same, lookup_map_snd]
    split
    · rename_i own
      subst own
      obtain ⟨entry, mem, own⟩ := List.any_eq_true.mp known
      cases found : m.lookup x with
      | some _ => rfl
      | none =>
        rw [List.lookup_eq_none_iff] at found
        exact absurd (found entry mem) (by simpa using (of_decide_eq_true own).symm)
    · cases m.lookup x <;> rfl
  · rename_i unknown
    rw [List.lookup_append]
    split
    · rename_i own
      subst own
      have missing : m.lookup x = none := by
        rw [List.lookup_eq_none_iff]
        intro entry mem
        have := List.any_eq_false.mp (Bool.not_eq_true _ ▸ unknown) entry mem
        simpa using fun same : x = entry.1 => this (decide_eq_true same.symm)
      rw [missing]
      simp
    · rename_i other
      rw [List.lookup_cons, beq_false_of_ne other]
      cases m.lookup x <;> rfl

theorem drainNotify_perService (record : SwitchRecord) :
    (drainNotify record).perService = record.perService := by
  unfold drainNotify
  split <;> rfl

theorem phaseOf_notePhase (record : SwitchRecord) (service x : String)
    (phase : ServiceSwitchPhase) :
    phaseOf (notePhase record service phase).perService x =
      if x = service then phase else phaseOf record.perService x := by
  rw [notePhase, drainNotify_perService, phaseOf_setPhase]

/-- An edit of a record that moves its services as allowed. -/
def RecordMoves (f : SwitchRecord → SwitchRecord) (record : SwitchRecord) : Prop :=
  ∀ service, phaseOf (f record).perService service = phaseOf record.perService service ∨
    advances (phaseOf record.perService service) (phaseOf (f record).perService service)

/-- Writing one service's phase moves the services as allowed exactly when that service may
take the phase. -/
theorem notePhase_moves_iff {record : SwitchRecord} {service : String}
    {phase : ServiceSwitchPhase} :
    RecordMoves (fun r => notePhase r service phase) record ↔
      phase = phaseOf record.perService service ∨
        advances (phaseOf record.perService service) phase := by
  constructor
  · intro moves
    have own := moves service
    rwa [phaseOf_notePhase, if_pos rfl] at own
  · intro fits x
    rw [phaseOf_notePhase]
    split
    · rename_i own
      rw [own]
      exact fits
    · exact .inl rfl

theorem applyPushAck_moves (service : String) (committed : Bool) (record : SwitchRecord) :
    RecordMoves (applyPushAck service committed) record := by
  unfold RecordMoves applyPushAck
  split
  · rename_i found
    exact notePhase_moves_iff.mpr (.inr (by rw [found]; rfl))
  · rename_i found
    exact notePhase_moves_iff.mpr (.inr (by rw [found]; rfl))
  · rename_i found
    exact notePhase_moves_iff.mpr (.inr (by rw [found]; rfl))
  · exact fun _ => .inl rfl

theorem markPushFailed_moves (service : String) (record : SwitchRecord) :
    RecordMoves (markPushFailed service) record := by
  unfold RecordMoves markPushFailed
  split
  · rename_i found
    exact notePhase_moves_iff.mpr (.inr (by rw [found]; rfl))
  · exact fun _ => .inl rfl

theorem settlePush_moves (service : String) (committed ok : Bool) (record : SwitchRecord) :
    RecordMoves (settlePush service committed ok) record := by
  unfold settlePush
  split
  · exact applyPushAck_moves service committed record
  · exact markPushFailed_moves service record

/-- The acknowledgement route writes a phase the service may take exactly when it finds one
that the acknowledgement may leave. -/
theorem recordAck_moves_iff {ack : SwitchAckInput} {record : SwitchRecord} :
    RecordMoves (recordAck ack) record ↔ ack.admits (phaseOf record.perService ack.service) := by
  refine notePhase_moves_iff.trans ?_
  obtain ⟨id, service, committed, ok⟩ := ack
  cases phaseOf record.perService service <;> cases ok <;> cases committed <;>
    simp [SwitchAckInput.admits, advances]

/-- The timeout only reaches services that are still pending. -/
theorem sweep_moves (record : SwitchRecord) :
    RecordMoves (fun r =>
      { r with
        perService := r.perService.map fun entry =>
          if entry.2 = .pending then (entry.1, .drainTimeout) else entry
        phase := .committed
        committing := r.knownServices }) record := by
  intro service
  have same : (record.perService.map fun entry =>
      if entry.2 = .pending then (entry.1, .drainTimeout) else entry) =
      record.perService.map fun entry =>
        (entry.1, if entry.2 = .pending then .drainTimeout else entry.2) := by
    refine List.map_congr_left fun entry _ => ?_
    split <;> rfl
  dsimp only [phaseOf]
  rw [same, lookup_map_snd]
  cases record.perService.lookup service with
  | none => exact .inl rfl
  | some phase => cases phase <;> simp [advances]

variable {s t : Coordinator}

theorem servicesMove_refl (s : Coordinator) : ServicesMove s s :=
  fun _ _ => .inl rfl

theorem phaseIn_edit (id i : Nat) (f : SwitchRecord → SwitchRecord) (service : String) :
    phaseIn (s.edit id f) i service =
      match s.switches[i]? with
      | none => .pending
      | some record => phaseOf (if id = i then f record else record).perService service := by
  rw [phaseIn, edit_getElem?]
  by_cases own : id = i
  · simp only [if_pos own]
    cases s.switches[i]? <;> rfl
  · simp only [if_neg own]

theorem edit_moves {id : Nat} {f : SwitchRecord → SwitchRecord}
    (moves : ∀ record, s.switches[id]? = some record → RecordMoves f record) :
    ServicesMove s (s.edit id f) := by
  intro i service
  rw [phaseIn_edit, phaseIn]
  cases here : s.switches[i]? with
  | none => exact .inl rfl
  | some record =>
    dsimp only
    split
    · rename_i own
      subst own
      exact moves record here service
    · exact .inl rfl

theorem editCurrent_moves {id : Nat} {f : SwitchRecord → SwitchRecord}
    (moves : ∀ record, s.switches[id]? = some record → s.currentSwitch = some id →
      RecordMoves f record) :
    ServicesMove s (s.editCurrent id f) := by
  unfold Coordinator.editCurrent
  split
  · rename_i current
    exact edit_moves fun record here => moves record here current
  · exact servicesMove_refl s

theorem phaseIn_edit_of_same {id : Nat} {f : SwitchRecord → SwitchRecord}
    (same : ∀ record, (f record).perService = record.perService) (i : Nat) (service : String) :
    phaseIn (s.edit id f) i service = phaseIn s i service := by
  rw [phaseIn_edit, phaseIn]
  cases s.switches[i]? with
  | none => rfl
  | some record =>
    dsimp only
    split
    · rw [same]
    · rfl

/-- A push response reports to the switch it belongs to, after it has left the outstanding
pushes. -/
theorem settled_moves {id : Nat} {g : SwitchRecord → SwitchRecord}
    (same : ∀ record, (g record).perService = record.perService)
    (service : String) (committed ok : Bool) :
    ServicesMove s ((s.edit id g).editCurrent id (settlePush service committed ok)) := by
  intro i x
  have moved := @editCurrent_moves (s.edit id g) id _
    (fun record _ _ => settlePush_moves service committed ok record) i x
  rwa [phaseIn_edit_of_same same i x] at moved

theorem phaseOf_registered (knownServices : List String) (service : String) :
    ∀ m : PerService, phaseOf m service = .pending →
      phaseOf (knownServices.foldl (fun m service => setPhase m service .pending) m) service =
        .pending := by
  induction knownServices with
  | nil => exact fun _ fresh => fresh
  | cons known rest ih =>
    intro m fresh
    refine ih _ ?_
    rw [phaseOf_setPhase]
    split
    · rfl
    · exact fresh

/-- A new switch starts with every service pending and leaves the older ones as they are. -/
theorem setActiveTarget_moves (target : ActiveTarget) (creds : Option ActiveTargetCreds)
    (knownServices : List String) :
    ServicesMove s (setActiveTarget s target creds knownServices) := by
  have appended : ∀ {switches : List SwitchRecord} {x : SwitchRecord},
      switches = s.switches ++ [x] → (∀ service, phaseOf x.perService service = .pending) →
      ∀ {active current}, ServicesMove s ⟨active, switches, current⟩ := by
    rintro switches x rfl fresh active current id service
    left
    unfold phaseIn
    dsimp only
    rcases Nat.lt_trichotomy id s.switches.length with old | rfl | beyond
    · rw [List.getElem?_append_left old]
    · rw [List.getElem?_concat_length, List.getElem?_eq_none (Nat.le_refl _)]
      exact fresh service
    · rw [List.getElem?_eq_none (by simp only [List.length_append, List.length_singleton]; omega),
        List.getElem?_eq_none (by omega)]
  have fresh : ∀ service, phaseOf (knownServices.foldl
      (fun m service => setPhase m service .pending) []) service = .pending :=
    fun service => phaseOf_registered knownServices service [] rfl
  unfold setActiveTarget
  dsimp only
  split
  · exact appended rfl fresh
  · exact appended rfl fresh

/-- One event moves the services as allowed exactly when it is no acknowledgement that finds
its service in a phase it may not leave. -/
theorem step_moves_iff {e : Event} (admitted : step s e = some t) :
    ServicesMove s t ↔ AckFits s e := by
  cases e with
  | setActiveTarget target creds knownServices =>
    obtain rfl := Option.some.inj admitted
    exact iff_of_true (setActiveTarget_moves target creds knownServices) trivial
  | preparePush id service ok =>
    simp only [step, Option.bind_eq_bind, Option.bind_eq_some_iff] at admitted
    obtain ⟨record, _, admitted⟩ := admitted
    split at admitted
    · obtain rfl := Option.some.inj admitted
      have same : ∀ r : SwitchRecord,
          { r with preparing := r.preparing.erase service }.perService = r.perService :=
        fun _ => rfl
      exact iff_of_true (settled_moves same service false ok) trivial
    · cases admitted
  | ack input =>
    obtain rfl := Option.some.inj admitted
    constructor
    · intro moves current
      unfold phaseIn
      cases here : s.switches[input.switchId]? with
      | none => rfl
      | some record =>
        dsimp only
        rw [← recordAck_moves_iff]
        intro service
        have own := moves input.switchId service
        rw [Coordinator.editCurrent, if_pos current, phaseIn_edit, phaseIn, here] at own
        dsimp only at own
        rwa [if_pos rfl] at own
    · intro fits
      refine editCurrent_moves fun record here current => recordAck_moves_iff.mpr ?_
      have found := fits current
      rwa [phaseIn, here] at found
  | drainTimeout id =>
    simp only [step, Option.bind_eq_bind, Option.bind_eq_some_iff] at admitted
    obtain ⟨record, _, admitted⟩ := admitted
    split at admitted
    · obtain rfl := Option.some.inj admitted
      exact iff_of_true (edit_moves fun _ _ _ => .inl rfl) trivial
    · cases admitted
  | drained id =>
    simp only [step, Option.bind_eq_bind, Option.bind_eq_some_iff] at admitted
    obtain ⟨record, here, admitted⟩ := admitted
    split at admitted
    · obtain rfl := Option.some.inj admitted
      refine iff_of_true (edit_moves fun r at_id => ?_) trivial
      exact sweep_moves r
    · cases admitted
  | commitPush id service ok =>
    simp only [step, Option.bind_eq_bind, Option.bind_eq_some_iff] at admitted
    obtain ⟨record, _, admitted⟩ := admitted
    split at admitted
    · obtain rfl := Option.some.inj admitted
      have same : ∀ r : SwitchRecord,
          { r with committing := r.committing.erase service }.perService = r.perService :=
        fun _ => rfl
      exact iff_of_true (settled_moves same service true ok) trivial
    · cases admitted

/-- A service that has stopped keeps its phase to the end of the run. -/
theorem phase_kept {events : List Event} {id : Nat} {service : String}
    (moves : ∀ p ∈ taken step s events, ∀ t, step p.1 p.2 = some t → ServicesMove p.1 t)
    (stopped : terminal (phaseIn s id service)) :
    phaseIn (final step s events) id service = phaseIn s id service := by
  induction events generalizing s with
  | nil => rfl
  | cons e events ih =>
    cases h : step s e with
    | none => simp only [final, h]
    | some t =>
      simp only [taken, h, List.forall_mem_cons] at moves
      have own : phaseIn t id service = phaseIn s id service := by
        rcases moves.1 t rfl id service with same | advanced
        · exact same
        · rw [terminal_stops stopped] at advanced
          cases advanced
      simp only [final, h]
      rw [ih moves.2 (own ▸ stopped), own]

theorem phase_stays {es fs : List Event} {id : Nat} {service : String}
    (moves : ∀ p ∈ taken step s (es ++ fs), ∀ t, step p.1 p.2 = some t → ServicesMove p.1 t)
    (stopped : terminal (phaseIn (final step s es) id service)) :
    phaseIn (final step s (es ++ fs)) id service = phaseIn (final step s es) id service := by
  rcases final_append s es fs with ended | ⟨later, inside⟩
  · rw [ended]
  · rw [later]
    exact phase_kept (fun p mem => moves p (inside mem)) stopped

theorem forgetPushes_edit {id : Nat} {f : SwitchRecord → SwitchRecord}
    (same : ∀ record, (f record).forgetPushes = record.forgetPushes) :
    (s.edit id f).forgetPushes = s.forgetPushes := by
  have switches : (s.switches.modify id f).map SwitchRecord.forgetPushes =
      s.switches.map SwitchRecord.forgetPushes := by
    refine List.ext_getElem? fun i => ?_
    rw [List.getElem?_map, List.getElem?_map, List.getElem?_modify]
    cases s.switches[i]? with
    | none => rfl
    | some record =>
      split
      · exact congrArg some (same record)
      · rfl
  rw [Coordinator.forgetPushes, Coordinator.edit, switches, Coordinator.forgetPushes]

theorem step_ignores {e : Event} (admitted : step s e = some t) : OthersIgnored s e t := by
  intro id reports other
  cases e with
  | setActiveTarget target creds knownServices => cases reports
  | preparePush own service ok =>
    obtain rfl := Option.some.inj reports
    simp only [step, Option.bind_eq_bind, Option.bind_eq_some_iff] at admitted
    obtain ⟨record, _, admitted⟩ := admitted
    split at admitted
    · obtain rfl := Option.some.inj admitted
      rw [Coordinator.editCurrent, if_neg (by exact other)]
      exact forgetPushes_edit fun _ => rfl
    · cases admitted
  | ack input =>
    obtain rfl := Option.some.inj reports
    obtain rfl := Option.some.inj admitted
    rw [Coordinator.editCurrent, if_neg other]
  | drainTimeout own => cases reports
  | drained own => cases reports
  | commitPush own service ok =>
    obtain rfl := Option.some.inj reports
    simp only [step, Option.bind_eq_bind, Option.bind_eq_some_iff] at admitted
    obtain ⟨record, _, admitted⟩ := admitted
    split at admitted
    · obtain rfl := Option.some.inj admitted
      rw [Coordinator.editCurrent, if_neg (by exact other)]
      exact forgetPushes_edit fun _ => rfl
    · cases admitted

theorem drainNotify_over (record : SwitchRecord) : WaitOver (drainNotify record) := by
  unfold drainNotify
  split
  · exact fun _ _ => rfl
  · rename_i waits
    intro draining drained
    exact absurd (Bool.and_eq_true_iff.mpr ⟨decide_eq_true draining, drained⟩) waits

theorem settlePush_over {service : String} {committed ok : Bool} {record : SwitchRecord}
    (ended : WaitOver record) : WaitOver (settlePush service committed ok record) := by
  unfold settlePush
  split
  · unfold applyPushAck
    split
    · exact drainNotify_over _
    · exact drainNotify_over _
    · exact drainNotify_over _
    · exact ended
  · unfold markPushFailed
    split
    · exact drainNotify_over _
    · exact ended

theorem edit_over {id : Nat} {f : SwitchRecord → SwitchRecord}
    (keeps : ∀ record, WaitOver record → WaitOver (f record))
    (ended : ∀ record ∈ s.switches, WaitOver record) :
    ∀ record ∈ (s.edit id f).switches, WaitOver record := by
  intro record mem
  obtain ⟨i, here⟩ := List.mem_iff_getElem?.mp mem
  rw [edit_getElem?] at here
  split at here
  · obtain ⟨old, found, rfl⟩ := Option.map_eq_some_iff.mp here
    exact keeps old (ended old (List.mem_iff_getElem?.mpr ⟨i, found⟩))
  · exact ended record (List.mem_iff_getElem?.mpr ⟨i, here⟩)

theorem editCurrent_over {id : Nat} {f : SwitchRecord → SwitchRecord}
    (keeps : ∀ record, WaitOver record → WaitOver (f record))
    (ended : ∀ record ∈ s.switches, WaitOver record) :
    ∀ record ∈ (s.editCurrent id f).switches, WaitOver record := by
  unfold Coordinator.editCurrent
  split
  · exact edit_over keeps ended
  · exact ended

/-- A switch with services to wait for starts with one that is pending. -/
theorem registered_pending {knownServices : List String} (some : knownServices ≠ []) :
    ((knownServices.foldl (fun m service => setPhase m service .pending) []).all fun entry =>
      entry.2 ≠ .pending) = false := by
  have pending : ∀ (names : List String) (m : PerService), (∀ entry ∈ m, entry.2 = .pending) →
      (m ≠ [] ∨ names ≠ []) →
      (∀ entry ∈ names.foldl (fun m service => setPhase m service .pending) m,
        entry.2 = .pending) ∧
      names.foldl (fun m service => setPhase m service .pending) m ≠ [] := by
    intro names
    induction names with
    | nil => exact fun m all nonempty => ⟨all, nonempty.resolve_right fun none => none rfl⟩
    | cons name names ih =>
      intro m all _
      have next : ∀ entry ∈ setPhase m name .pending, entry.2 = .pending := by
        intro entry mem
        unfold setPhase at mem
        split at mem
        · obtain ⟨old, found, rfl⟩ := List.mem_map.mp mem
          split
          · rfl
          · exact all old found
        · rcases List.mem_append.mp mem with old | own
          · exact all entry old
          · rw [List.mem_singleton.mp own]
      refine ih _ next (.inl ?_)
      dsimp only [setPhase]
      split
      · rename_i known
        obtain ⟨entry, mem, _⟩ := List.any_eq_true.mp known
        exact List.ne_nil_of_mem (List.mem_map_of_mem mem)
      · exact List.append_ne_nil_of_right_ne_nil _ (List.cons_ne_nil _ _)
  obtain ⟨all, nonempty⟩ := pending knownServices [] (fun _ mem => by cases mem) (.inr some)
  obtain ⟨entry, mem⟩ := List.exists_mem_of_ne_nil _ nonempty
  refine List.all_eq_false.mpr ⟨entry, mem, ?_⟩
  simp [all entry mem]

theorem step_over {e : Event} (ended : ∀ record ∈ s.switches, WaitOver record)
    (admitted : step s e = some t) : ∀ record ∈ t.switches, WaitOver record := by
  cases e with
  | setActiveTarget target creds knownServices =>
    obtain rfl := Option.some.inj admitted
    unfold setActiveTarget
    dsimp only
    split
    · intro record mem
      rcases List.mem_append.mp mem with old | own
      · exact ended record old
      · rw [List.mem_singleton.mp own]
        exact fun draining => by cases draining
    · rename_i waits
      intro record mem
      rcases List.mem_append.mp mem with old | own
      · exact ended record old
      · rw [List.mem_singleton.mp own]
        intro _ drained
        have services : knownServices ≠ [] := by
          rintro rfl
          simp at waits
        rw [allTerminallyDrained, registered_pending services] at drained
        cases drained
  | preparePush id service ok =>
    simp only [step, Option.bind_eq_bind, Option.bind_eq_some_iff] at admitted
    obtain ⟨record, _, admitted⟩ := admitted
    split at admitted
    · obtain rfl := Option.some.inj admitted
      exact editCurrent_over (fun _ => settlePush_over) (edit_over (fun _ ended => ended) ended)
    · cases admitted
  | ack input =>
    obtain rfl := Option.some.inj admitted
    exact editCurrent_over (fun _ _ => drainNotify_over _) ended
  | drainTimeout id =>
    simp only [step, Option.bind_eq_bind, Option.bind_eq_some_iff] at admitted
    obtain ⟨record, _, admitted⟩ := admitted
    split at admitted
    · obtain rfl := Option.some.inj admitted
      exact edit_over (fun _ _ _ _ => rfl) ended
    · cases admitted
  | drained id =>
    simp only [step, Option.bind_eq_bind, Option.bind_eq_some_iff] at admitted
    obtain ⟨record, _, admitted⟩ := admitted
    split at admitted
    · obtain rfl := Option.some.inj admitted
      exact edit_over (fun _ _ draining => by cases draining) ended
    · cases admitted
  | commitPush id service ok =>
    simp only [step, Option.bind_eq_bind, Option.bind_eq_some_iff] at admitted
    obtain ⟨record, _, admitted⟩ := admitted
    split at admitted
    · obtain rfl := Option.some.inj admitted
      exact editCurrent_over (fun _ => settlePush_over) (edit_over (fun _ ended => ended) ended)
    · cases admitted

/-- In every run the services of each switch make only the allowed moves, those that have
stopped stay as they are, reports on other switches change nothing and each wait is over once
no service is pending, exactly when every acknowledgement of the current switch finds its
service in a phase it may leave. -/
theorem phases_followed_iff (events : List Event) :
    PhasesFollowed .initial events ↔ ∀ p ∈ taken step .initial events, AckFits p.1 p.2 := by
  constructor
  · intro followed p mem
    obtain ⟨t, _, admitted, _⟩ := taken_suffix mem
    exact (step_moves_iff admitted).mp (followed.moves p mem t admitted)
  · intro fits
    have moves : ∀ p ∈ taken step .initial events, ∀ t, step p.1 p.2 = some t →
        ServicesMove p.1 t :=
      fun p mem t admitted => (step_moves_iff admitted).mpr (fits p mem)
    refine ⟨moves, ?_, fun p _ t admitted => step_ignores admitted, ?_⟩
    · rintro es fs rfl id service stopped
      exact phase_stays moves stopped
    · exact @visited_of_taken _ _ step (fun s => ∀ record ∈ s.switches, WaitOver record)
        (fun _ _ => True) (fun _ _ _ ended _ admitted => step_over ended admitted) _
        (fun _ mem => by cases mem) _ (fun _ _ => trivial)

section Demo

/-- The drained acknowledgement of a service arrives a second time, after the service has
committed. -/
def lateDrained : List Event :=
  [.setActiveTarget (targetAt "a") none [], .setActiveTarget (targetAt "b") none ["ingest"],
    .ack ⟨1, "ingest", false, true⟩, .drained 1, .commitPush 1 "ingest" true,
    .ack ⟨1, "ingest", false, true⟩]

theorem committed_reopened : ¬ PhasesFollowed .initial lateDrained := by
  intro followed
  have stays := followed.stays (lateDrained.take 5) (lateDrained.drop 5) rfl 1 "ingest"
    (by decide +kernel)
  revert stays
  decide +kernel

end Demo

end TargetSwitch
