import Frtb.ProbeTimers

/-!
# What a step of the pools leaves alone

Apart from a resize, a step keeps the pools, the places of the members and the commands
in flight, or changes the commands in one place; a client is built for a member of a
pool or by a probe. A resize adds members of its own or drops those beyond the size, and
touches no circuit.
-/

namespace ProbeTimers

open EventRuns RedisTarget RedisPool
open PoolCircuit (circuit circuitAt circuitAt_edit InPool Still Takes Probes delivered)
open PoolOwnership (Slotted KeepsPlace)

section Frame
variable {env : Env} {s t u : State} {ms ns : List ℕ}

def place (m : PoolMember) : Category × ℕ := (m.category, m.index)

/-- Pools, places and commands stay; clients are built for `ms`. -/
structure Frame (s t : State) (ms : List ℕ) : Prop where
  clients : t.clients.map Client.member = s.clients.map Client.member ++ ms
  commands : t.commands = s.commands
  slots : t.slots = s.slots
  places : t.members.map place = s.members.map place

theorem Frame.refl (s : State) : Frame s s [] := ⟨(List.append_nil _).symm, rfl, rfl, rfl⟩

theorem Frame.trans (first : Frame s t ms) (second : Frame t u ns) : Frame s u (ms ++ ns) where
  clients := by rw [second.clients, first.clients, List.append_assoc]
  commands := second.commands.trans first.commands
  slots := second.slots.trans first.slots
  places := second.places.trans first.places

theorem Frame.length (frame : Frame s t ms) : t.members.length = s.members.length := by
  simpa only [List.length_map] using congrArg List.length frame.places

theorem Frame.inPool (frame : Frame s t ms) (a : ℕ) : InPool t a ↔ InPool s a := by
  rw [InPool, frame.slots, InPool]

theorem Frame.slotted (frame : Frame s t ms) (ok : Slotted s) : Slotted t := by
  intro category i m here
  rw [frame.slots] at here
  obtain ⟨member, there, own, index⟩ := ok category i m here
  have at_m := congrArg (·[m]?) frame.places
  simp only [List.getElem?_map, there, Option.map_some, Option.map_eq_some_iff] at at_m
  obtain ⟨after, here', same⟩ := at_m
  obtain ⟨category', index'⟩ := Prod.mk.inj same
  exact ⟨after, here', category'.trans own, index'.trans index⟩

/-- Nothing but the records of the members or of the clients is touched. -/
theorem Frame.of_fields (clients : t.clients.map Client.member = s.clients.map Client.member)
    (commands : t.commands = s.commands) (slots : t.slots = s.slots)
    (members : t.members = s.members) : Frame s t [] :=
  ⟨clients.trans (List.append_nil _).symm, commands, slots, congrArg _ members⟩

theorem map_modify_of_same {α β : Type*} {g : α → β} {f : α → α} (same : ∀ x, g (f x) = g x)
    (l : List α) (i : ℕ) : (l.modify i f).map g = l.map g := by
  refine List.ext_getElem? fun j => ?_
  rw [List.getElem?_map, List.getElem?_map, List.getElem?_modify]
  cases l[j]? with
  | none => rfl
  | some x =>
    refine congrArg some ?_
    dsimp only
    split
    · exact same x
    · rfl

theorem Frame.edit {f : PoolMember → PoolMember} (keeps : KeepsPlace f) (s : State) (m : ℕ) :
    Frame s (s.edit m f) [] :=
  ⟨(List.append_nil _).symm, rfl, rfl,
    map_modify_of_same (fun x => Prod.ext (keeps x).1 (keeps x).2) _ _⟩

theorem Frame.disconnect (s : State) (c : ℕ) : Frame s (s.disconnect c) [] :=
  .of_fields (map_modify_of_same (f := fun client : Client => { client with disconnected := true })
    (fun _ => rfl) _ _) rfl rfl rfl

theorem Frame.disconnectSlot (s : State) (m : ℕ) : Frame s (s.disconnectSlot m) [] := by
  unfold State.disconnectSlot
  split
  · exact .disconnect s _
  · exact .refl s

theorem Frame.foldl {f : State → ℕ → State} (each : ∀ s m, Frame s (f s m) []) (ms : List ℕ) :
    ∀ s, Frame s (ms.foldl f s) [] := by
  induction ms with
  | nil => exact Frame.refl
  | cons m ms ih => exact fun s => (each s m).trans (ih _)

theorem Frame.recyclePoolMember (s : State) (m c : ℕ) : Frame s (s.recyclePoolMember m c) [] := by
  unfold State.recyclePoolMember
  split
  · exact (Frame.edit PoolOwnership.keepsPlace_blank s m).trans (.disconnect _ c)
  · exact .refl s

theorem Frame.noteFailure (s : State) (now m c : ℕ) (err : CommandError) :
    Frame s (s.noteFailure env now m c err) [] :=
  (Frame.edit (PoolOwnership.keepsPlace_countFailure now _) s m).trans (.recyclePoolMember _ m c)

theorem Frame.settleCommand (s : State) (now m c : ℕ) (outcome : CommandOutcome) :
    Frame s (settleCommand env now s m c outcome) [] := by
  cases outcome with
  | success => exact .edit (PoolOwnership.keepsPlace_countSuccess now) s m
  | rejected err =>
    unfold RedisPool.settleCommand
    dsimp only
    split
    · exact .noteFailure s now m c err
    · exact .refl s

theorem Frame.build (s : State) (m : ℕ) (x : ActiveTarget) (wrapped : Bool) :
    Frame s (s.build m x wrapped) [m] :=
  ⟨List.map_append, rfl, rfl, rfl⟩

theorem Frame.publish (s : State) (m c : ℕ) (key : TargetKey) : Frame s (s.publish m c key) [] :=
  .edit (f := fun member : PoolMember => { member with client := some c, key := some key })
    (fun _ => ⟨rfl, rfl⟩) s m

theorem Frame.promoteToHalfOpen (s : State) (now m : ℕ) :
    Frame s (s.promoteToHalfOpen env now m) [] :=
  ((Frame.edit (PoolOwnership.keepsPlace_transitionCircuit now .halfOpen) s m).trans
    (.disconnectSlot _ m)).trans (.edit PoolOwnership.keepsPlace_blank _ m)

theorem Frame.useSlot (s : State) (m : ℕ) :
    ∃ ms, (∀ a ∈ ms, a = m) ∧ Frame s (s.useSlot env m).1 ms := by
  unfold State.useSlot
  split
  · exact ⟨[], nofun, .refl s⟩
  · split
    · exact ⟨[], nofun, .refl s⟩
    · have started : ∀ u : State, Frame u (u.startAcquisition env m) [m] :=
        fun u => ⟨List.map_append, rfl, rfl, rfl⟩
      refine ⟨[m], fun a => List.mem_singleton.mp, ?_⟩
      exact ((Frame.disconnectSlot s m).trans
        (.edit PoolOwnership.keepsPlace_countBuild _ m)).trans (started _)

theorem Frame.memberReady (s : State) (a : Acquisition) (ready : Bool) :
    Frame s (s.memberReady a ready).1 [] := by
  unfold State.memberReady
  split
  · have wrapped : ∀ u : State, Frame u
        { u with clients := u.clients.modify a.client fun c => { c with wrapped := true } } [] :=
      fun u => .of_fields (map_modify_of_same (f := fun c : Client => { c with wrapped := true })
        (fun _ => rfl) _ _) rfl rfl rfl
    exact (Frame.publish s a.member a.client a.key).trans (wrapped _)
  · exact (Frame.disconnect s a.client).trans (.edit PoolOwnership.keepsPlace_blank _ a.member)

theorem Frame.detach (s : State) (m : ℕ) : Frame s (s.detach m) [] := by
  have reset := Frame.edit PoolOwnership.keepsPlace_resetForSwap s m
  unfold State.detach
  split
  · exact ⟨reset.clients, reset.commands, reset.slots, reset.places⟩
  · exact reset

theorem Frame.commitActiveTargetSync (s : State) (x : ActiveTarget)
    (creds : Option ActiveTargetCreds) : Frame s (s.commitActiveTargetSync x creds) [] := by
  have committed : Frame s { s with target := s.target.commit x creds } [] :=
    .of_fields rfl rfl rfl rfl
  exact committed.trans (.foldl Frame.detach _ _)

end Frame

section Resize
variable {env : Env} {s t : State} {category : Category} {size : ℕ}

/-- What a resize of the pools does. -/
structure Resizes (s t : State) (category : Category) (size : ℕ) : Prop where
  circuits : ∀ a, circuitAt t a = circuitAt s a
  clients : t.clients.map Client.member = s.clients.map Client.member
  commands : t.commands = s.commands
  length : s.members.length ≤ t.members.length
  slotted : Slotted s → Slotted t
  kept : ∀ a, InPool s a → InPool t a ∨ a ∈ (s.slots category).drop size
  dropped : Slotted s → ∀ a ∈ (s.slots category).drop size, ¬ InPool t a
  made : ∀ a, s.members.length ≤ a → a < t.members.length → InPool t a

theorem resizes_ensurePoolSized (s : State) (category : Category) (size : ℕ) :
    Resizes s (s.ensurePoolSized category size) category size := by
  unfold State.ensurePoolSized
  dsimp only
  split
  · rename_i more
    have none_dropped : (s.slots category).drop size = [] := List.drop_eq_nil_of_le more
    refine ⟨fun a => ?_, rfl, rfl, ?_, fun ok => ?_, fun a pool => .inl ?_, fun _ a mem => ?_, ?_⟩
    · unfold circuitAt
      dsimp only
      rw [List.getElem?_append]
      split
      · rfl
      · rename_i outside
        rw [List.getElem?_eq_none (Nat.le_of_not_lt outside), List.getElem?_map]
        cases (List.range (size - (s.slots category).length))[a - s.members.length]? <;> rfl
    · dsimp only
      rw [List.length_append]
      exact Nat.le_add_right ..
    · exact PoolOwnership.slotted_grown ok category size
    · obtain ⟨category', mem⟩ := pool
      refine ⟨category', ?_⟩
      dsimp only
      by_cases same : category' = category
      · subst same
        rw [Function.update_self]
        exact List.mem_append_left _ mem
      · rw [Function.update_of_ne same]
        exact mem
    · rw [none_dropped] at mem
      cases mem
    · intro a old new
      dsimp only at new
      rw [List.length_append, List.length_map, List.length_range] at new
      refine ⟨category, ?_⟩
      dsimp only
      rw [Function.update_self]
      refine List.mem_append_right _ (List.mem_map.mpr ⟨a - s.members.length, ?_, ?_⟩)
      · exact List.mem_range.mpr (by omega)
      · omega
  · rename_i less
    have frame := Frame.foldl Frame.disconnectSlot ((s.slots category).drop size) s
    have still := PoolCircuit.still_foldl_disconnectSlot ((s.slots category).drop size) s
    have slots : ∀ category', Function.update
        (((s.slots category).drop size).foldl State.disconnectSlot s).slots category
          ((s.slots category).take size) category' =
        if category' = category then (s.slots category).take size else s.slots category' := by
      intro category'
      rw [frame.slots, Function.update_apply]
    refine ⟨still.circuits, ?_, frame.commands, frame.length.ge, fun ok => ?_, fun a pool => ?_,
      fun ok a mem pool => ?_, fun a old new =>
        absurd new (Nat.not_lt.mpr (frame.length.le.trans old))⟩
    · exact frame.clients.trans (List.append_nil _)
    · intro category' i m here
      refine frame.slotted ok category' i m ?_
      rw [frame.slots]
      dsimp only at here
      rw [slots] at here
      split at here
      · rename_i same
        subst same
        rw [List.getElem?_take] at here
        split at here
        · exact here
        · cases here
      · exact here
    · obtain ⟨category', mem⟩ := pool
      by_cases same : category' = category
      · subst same
        rcases List.mem_append.mp ((List.take_append_drop size (s.slots category')).symm ▸ mem) with
          kept | cut
        · refine .inl ⟨category', ?_⟩
          dsimp only
          rw [slots, if_pos rfl]
          exact kept
        · exact .inr cut
      · refine .inl ⟨category', ?_⟩
        dsimp only
        rw [slots, if_neg same]
        exact mem
    · -- a member has one place, and the places from `size` on are cut off
      obtain ⟨i, here⟩ := List.mem_iff_getElem?.mp mem
      rw [List.getElem?_drop] at here
      obtain ⟨member, there, own, index⟩ := ok category (size + i) a here
      obtain ⟨category', listed⟩ := pool
      dsimp only at listed
      rw [slots] at listed
      split at listed
      · obtain ⟨j, here'⟩ := List.mem_iff_getElem?.mp listed
        rw [List.getElem?_take] at here'
        split at here'
        · rename_i short
          obtain ⟨member', there', _, index'⟩ := ok category j a here'
          obtain rfl := Option.some.inj (there.symm.trans there')
          omega
        · cases here'
      · rename_i other
        obtain ⟨j, here'⟩ := List.mem_iff_getElem?.mp listed
        obtain ⟨member', there', own', _⟩ := ok category' j a here'
        obtain rfl := Option.some.inj (there.symm.trans there')
        exact other (own'.symm.trans own)

end Resize

section Steps
variable {env : Env} {s t : State}

/-- Away from the member that is half-opened the circuits stay. -/
theorem circuitAt_promoteToHalfOpen {m a : ℕ} (other : a ≠ m) (s : State) (now : ℕ) :
    circuitAt (s.promoteToHalfOpen env now m) a = circuitAt s a := by
  unfold State.promoteToHalfOpen
  rw [(Still.edit PoolCircuit.circuit_blank _ m).circuits, (Still.disconnectSlot _ m).circuits,
    circuitAt_edit, if_neg other.symm]

/-- What an acquisition does, once a target is set. -/
structure Acquires (s t : State) (category : Category) (size : ℕ) : Prop where
  circuits : ∀ a, ¬ InPool t a → circuitAt t a = circuitAt s a
  clients : ∃ ms, t.clients.map Client.member = s.clients.map Client.member ++ ms ∧
    ∀ m ∈ ms, InPool t m
  commands : t.commands = s.commands
  length : s.members.length ≤ t.members.length
  slotted : Slotted s → Slotted t
  kept : ∀ a, InPool s a → InPool t a ∨ a ∈ (s.slots category).drop size
  dropped : Slotted s → ∀ a ∈ (s.slots category).drop size, ¬ InPool t a
  made : ∀ a, s.members.length ≤ a → a < t.members.length → InPool t a

/-- After the resize, a member of a pool is half-opened perhaps, and used. -/
theorem Acquires.of_frame {r : State} {category : Category} {size : ℕ} {ms : List ℕ}
    (resizes : Resizes s r category size) (frame : Frame r t ms)
    (circuits : ∀ a, ¬ InPool r a → circuitAt t a = circuitAt r a)
    (listed : ∀ m ∈ ms, InPool r m) : Acquires s t category size := by
  have pools := frame.inPool
  refine ⟨fun a outside => ?_, ⟨ms, ?_, fun m mem => (pools m).mpr (listed m mem)⟩, ?_, ?_,
    fun ok => frame.slotted (resizes.slotted ok), fun a pool => ?_, fun ok a mem pool => ?_,
    fun a old new => ?_⟩
  · rw [circuits a (fun pool => outside ((pools a).mpr pool)), resizes.circuits]
  · rw [frame.clients, resizes.clients]
  · rw [frame.commands, resizes.commands]
  · rw [frame.length]
    exact resizes.length
  · exact (resizes.kept a pool).imp_left (pools a).mpr
  · exact resizes.dropped ok a mem ((pools a).mp pool)
  · rw [frame.length] at new
    exact (pools a).mpr (resizes.made a old new)

theorem acquires_acquireFromPool (s : State) (now : ℕ) (category : Category) (size : ℕ)
    (configured : (getActiveTarget env s.target).label ≠ "") :
    Acquires s (s.acquireFromPool env now category size).1 category size := by
  have resizes := resizes_ensurePoolSized s category size
  unfold State.acquireFromPool
  rw [if_neg configured]
  dsimp only
  split
  · exact .of_frame resizes (.refl _) (fun _ _ => rfl) nofun
  · rename_i m here
    have listed : InPool (s.ensurePoolSized category size) m :=
      ⟨category, List.mem_of_getElem? here⟩
    have used : ∀ (r : State) (i : ℕ), ∃ ms, (∀ a ∈ ms, a = m) ∧
        Frame r ((r.turn category i).useSlot env m).1 ms := by
      intro r i
      have turned : Frame r (r.turn category i) [] := .of_fields rfl rfl rfl rfl
      obtain ⟨ms, only, frame⟩ := @Frame.useSlot env (r.turn category i) m
      exact ⟨ms, only, turned.trans frame⟩
    have still : ∀ (r : State) (i a : ℕ),
        circuitAt ((r.turn category i).useSlot env m).1 a = circuitAt r a :=
      fun r i a => (Still.useSlot (r.turn category i) m).circuits a
    split
    · obtain ⟨ms, only, frame⟩ :=
      used ((s.ensurePoolSized category size).promoteToHalfOpen env now m)
        (((s.ensurePoolSized category size).chooseSlot category).getD
          ((s.ensurePoolSized category size).oldestSlot category))
      refine .of_frame resizes ((Frame.promoteToHalfOpen _ now m).trans frame) ?_ ?_
      · intro a outside
        rw [still, circuitAt_promoteToHalfOpen]
        rintro rfl
        exact outside listed
      · exact fun a mem => only a mem ▸ listed
    · obtain ⟨ms, only, frame⟩ := used (s.ensurePoolSized category size)
        (((s.ensurePoolSized category size).chooseSlot category).getD
          ((s.ensurePoolSized category size).oldestSlot category))
      exact .of_frame resizes frame (fun a _ => still _ _ a) fun a mem => only a mem ▸ listed

/-- What a probe does. It runs when the circuit of its member is open. -/
structure ProbesOf (s t : State) (m : ℕ) : Prop where
  slots : t.slots = s.slots
  places : t.members.map place = s.members.map place
  sent : (t.clients.map Client.member = s.clients.map Client.member ∧ t.commands = s.commands) ∨
    (t.clients.map Client.member = s.clients.map Client.member ++ [m] ∧
      t.commands = s.commands ++ [s.clients.length] ∧ m < s.members.length)
  other : ∀ a, a ≠ m → circuitAt t a = circuitAt s a
  here : circuitAt t m = circuitAt s m ∨ (circuitAt t m).1 ≠ .open

theorem probesOf_probe (s : State) (now m : ℕ) :
    ProbesOf s ((s.edit m cancelScheduledProbe).runHalfOpenProbe env now m) m := by
  have cancelled : Still s (s.edit m cancelScheduledProbe) :=
    .edit PoolCircuit.circuit_cancelScheduledProbe s m
  have framed : Frame s (s.edit m cancelScheduledProbe) [] :=
    .edit PoolOwnership.keepsPlace_cancelScheduledProbe s m
  have probes := @Probes.runHalfOpenProbe env (s.edit m cancelScheduledProbe) now m
  have here : circuitAt ((s.edit m cancelScheduledProbe).runHalfOpenProbe env now m) m =
      circuitAt s m ∨ (circuitAt ((s.edit m cancelScheduledProbe).runHalfOpenProbe env now m) m).1 ≠
        .open := by
    rcases probes.circuits m with same | half
    · exact .inl (same.trans (cancelled.circuits m))
    · right
      rw [half]
      nofun
  unfold State.runHalfOpenProbe at here ⊢
  split
  · exact ⟨rfl, framed.places, .inl ⟨rfl, rfl⟩, fun a _ => cancelled.circuits a,
      .inl (cancelled.circuits m)⟩
  · rename_i member there
    rw [there] at here
    dsimp only at here
    split
    · exact ⟨rfl, framed.places, .inl ⟨rfl, rfl⟩, fun a _ => cancelled.circuits a,
        .inl (cancelled.circuits m)⟩
    · rename_i opened
      rw [if_neg opened] at here
      have filled : ∀ (u : State) (x : ActiveTarget) (c : ℕ) (key : TargetKey),
          Frame u (((u.build m x true).publish m c key).edit m countBuild) [m] := fun u x c key =>
        ((Frame.build u m x true).trans (.publish _ m c key)).trans
          (.edit PoolOwnership.keepsPlace_countBuild _ m)
      have promoted := framed.trans (@Frame.promoteToHalfOpen env _ now m)
      have whole := promoted.trans (filled _ (getActiveTarget env
        ((s.edit m cancelScheduledProbe).promoteToHalfOpen env now m).target)
        ((s.edit m cancelScheduledProbe).promoteToHalfOpen env now m).clients.length
        (((s.edit m cancelScheduledProbe).promoteToHalfOpen env now m).target.targetKey
          (getActiveTarget env
            ((s.edit m cancelScheduledProbe).promoteToHalfOpen env now m).target)))
      have count : ((s.edit m cancelScheduledProbe).promoteToHalfOpen env now m).clients.length =
          s.clients.length := by
        simpa only [List.length_map, List.append_nil] using congrArg List.length promoted.clients
      refine ⟨whole.slots, whole.places, .inr ⟨whole.clients, ?_, ?_⟩, fun a other => ?_, here⟩
      · show ((s.edit m cancelScheduledProbe).promoteToHalfOpen env now m).commands ++
          [((s.edit m cancelScheduledProbe).promoteToHalfOpen env now m).clients.length] = _
        rw [count, promoted.commands]
      · have inside := (List.getElem?_eq_some_iff.mp there).1
        rwa [framed.length] at inside
      · have built : ∀ (u : State) (x : ActiveTarget) (c : ℕ) (key : TargetKey) (cs : List ℕ),
            circuitAt { ((u.build m x true).publish m c key).edit m countBuild with
              commands := cs } a = circuitAt u a := by
          intro u x c key cs
          have made : Still u (u.build m x true) := .of_members rfl rfl
          exact ((made.trans (.publish _ m c key)).trans
            (.edit PoolCircuit.circuit_countBuild _ m)).circuits a
        exact (built _ _ _ _ _).trans ((circuitAt_promoteToHalfOpen other _ now).trans
          (cancelled.circuits a))

/-- A switch closes a circuit or leaves it. -/
theorem circuitAt_commit (s : State) (x : ActiveTarget) (creds : Option ActiveTargetCreds) (a : ℕ) :
    circuitAt (s.commitActiveTargetSync x creds) a = circuitAt s a ∨
      circuitAt (s.commitActiveTargetSync x creds) a = (.closed, 0) := by
  have each : ∀ (ms : List ℕ) (u : State), circuitAt (ms.foldl State.detach u) a = circuitAt u a ∨
      circuitAt (ms.foldl State.detach u) a = (.closed, 0) := by
    intro ms
    induction ms with
    | nil => exact fun u => .inl rfl
    | cons m ms ih =>
      intro u
      rcases ih (u.detach m) with same | closed
      · rw [List.foldl_cons, same, PoolCircuit.circuitAt_detach]
        split
        · exact .inr rfl
        · exact .inl rfl
      · exact .inr closed
  exact each _ _

/-- The commands in flight after an event that is no acquisition and no probe. -/
def commandsAfter (s : State) : Event → List ℕ
  | .command c => s.commands ++ [c]
  | .settle i _ => s.commands.eraseIdx i
  | .failFast i _ _ => s.commands.eraseIdx i
  | _ => s.commands

theorem frame_of_step {e : ℕ × Event} (went : step env s e = some t) :
    match e.2 with
    | .acquire category size => ((getActiveTarget env s.target).label = "" ∧ t = s) ∨
        ((getActiveTarget env s.target).label ≠ "" ∧ Acquires s t category size)
    | .probe m => (∃ member, s.members[m]? = some member ∧ member.probeTimer = true) ∧
        ProbesOf s t m
    | e => Frame { s with commands := commandsAfter s e } t [] := by
  obtain ⟨returned, admitted⟩ := stepWith_of_step went
  obtain ⟨now, e⟩ := e
  cases e with
  | acquire category size =>
    have same : s.acquireFromPool env now category size = (t, returned) := Option.some.inj admitted
    by_cases configured : (getActiveTarget env s.target).label = ""
    · refine .inl ⟨configured, ?_⟩
      unfold State.acquireFromPool at same
      rw [if_pos configured] at same
      exact (Prod.mk.inj same).1.symm
    · have acquires := acquires_acquireFromPool s now category size configured
      rw [same] at acquires
      exact .inr ⟨configured, acquires⟩
  | memberReady i ready =>
    obtain ⟨a, here, admitted⟩ := Option.bind_eq_some_iff.mp admitted
    rw [← (Prod.mk.inj (Option.some.inj admitted)).1]
    have left : Frame s { s with acquisitions := s.acquisitions.eraseIdx i } [] :=
      .of_fields rfl rfl rfl rfl
    exact left.trans (.memberReady _ a ready)
  | commitActiveTargetSync x creds =>
    obtain ⟨rfl, _⟩ := Prod.mk.inj (Option.some.inj admitted)
    exact .commitActiveTargetSync s x creds
  | drainGrace c =>
    simp only [stepWith] at admitted
    split at admitted
    · obtain ⟨rfl, _⟩ := Prod.mk.inj (Option.some.inj admitted)
      have left : Frame s { s with drainingClients := s.drainingClients.erase c } [] :=
        .of_fields rfl rfl rfl rfl
      exact left.trans (.disconnect _ c)
    · cases admitted
  | command c =>
    obtain ⟨client, _, admitted⟩ := Option.bind_eq_some_iff.mp admitted
    split at admitted
    · obtain ⟨rfl, _⟩ := Prod.mk.inj (Option.some.inj admitted)
      exact .refl _
    · cases admitted
  | settle i outcome =>
    obtain ⟨c, _, admitted⟩ := Option.bind_eq_some_iff.mp admitted
    obtain ⟨client, _, admitted⟩ := Option.bind_eq_some_iff.mp admitted
    obtain ⟨rfl, _⟩ := Prod.mk.inj (Option.some.inj admitted)
    exact .settleCommand _ now client.member c outcome
  | failFast i timeoutMs method =>
    obtain ⟨c, _, admitted⟩ := Option.bind_eq_some_iff.mp admitted
    obtain ⟨client, _, admitted⟩ := Option.bind_eq_some_iff.mp admitted
    obtain ⟨member, _, admitted⟩ := Option.bind_eq_some_iff.mp admitted
    obtain ⟨rfl, _⟩ := Prod.mk.inj (Option.some.inj admitted)
    exact .noteFailure _ now client.member c _
  | socketError c err =>
    obtain ⟨client, _, admitted⟩ := Option.bind_eq_some_iff.mp admitted
    obtain ⟨rfl, _⟩ := Prod.mk.inj (Option.some.inj admitted)
    show Frame s (if shouldRecycle err then _ else s) []
    split
    · exact .noteFailure s now client.member c err
    · exact .refl s
  | probe m =>
    obtain ⟨member, here, admitted⟩ := Option.bind_eq_some_iff.mp admitted
    split at admitted
    · rename_i armed
      obtain ⟨rfl, _⟩ := Prod.mk.inj (Option.some.inj admitted)
      exact ⟨⟨member, here, armed⟩, probesOf_probe s now m⟩
    · cases admitted

/-- Without an outcome no circuit opens that a pool does not list. -/
theorem quiet_of_step {e : ℕ × Event} (quiet : delivered s e.2 = none)
    (went : step env s e = some t) {a : ℕ} (outside : ¬ InPool t a) :
    circuitAt t a = circuitAt s a ∨ (circuitAt t a).1 ≠ .open := by
  have frame := frame_of_step went
  have change := PoolCircuit.still_or_probes quiet went
  obtain ⟨now, e⟩ := e
  cases e with
  | acquire category size =>
    rcases frame with ⟨_, rfl⟩ | ⟨_, acquires⟩
    · exact .inl rfl
    · exact .inl (acquires.circuits a outside)
  | probe m =>
    by_cases own : a = m
    · subst own
      exact frame.2.here
    · exact .inl (frame.2.other a own)
  | commitActiveTargetSync x creds =>
    obtain ⟨returned, admitted⟩ := stepWith_of_step went
    obtain ⟨rfl, _⟩ := Prod.mk.inj (Option.some.inj admitted)
    refine (circuitAt_commit s x creds a).imp_right fun closed => ?_
    rw [closed]
    nofun
  | memberReady => exact .inl (Still.circuits change a)
  | drainGrace => exact .inl (Still.circuits change a)
  | command => exact .inl (Still.circuits change a)
  | settle => exact .inl (Still.circuits change a)
  | failFast => exact .inl (Still.circuits change a)
  | socketError => exact .inl (Still.circuits change a)

end Steps

end ProbeTimers
