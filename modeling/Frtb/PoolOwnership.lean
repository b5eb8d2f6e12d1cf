import Frtb.Library.EventRuns
import Frtb.RedisPool

/-!
# Who owns a client

A client that has been built is the one of a slot, or waits to be published in one, or
drains, or has been disconnected. A wrapper that an acquisition returns is one of a
client for the target the acquisition found active.
-/

namespace PoolOwnership

open EventRuns RedisTarget RedisPool

variable {env : Env} {s t u : State}

section Fitted

/-- What a client was built for. -/
def built (c : Client) : ℕ × TargetKey × ActiveTarget := (c.member, c.key, c.target)

/-- What is known of clients and slots in any run: a slot holds a client of its own under
the key it was built for, and the clients of the present generation are for the active
target. -/
structure Fitted (env : Env) (s : State) : Prop where
  held : ∀ (m : ℕ) (member : PoolMember) (c : ℕ), s.members[m]? = some member →
    member.client = some c → ∃ client : Client, s.clients[c]? = some client ∧ client.member = m ∧
      member.key = some client.key
  pending : ∀ a ∈ s.acquisitions, ∃ client : Client, s.clients[a.client]? = some client ∧
    built client = (a.member, a.key, a.target)
  current : ∀ (c : ℕ) (client : Client), s.clients[c]? = some client →
    client.key.credsGeneration ≤ s.target.credsGeneration ∧
      (client.key.credsGeneration = s.target.credsGeneration →
        client.target = getActiveTarget env s.target)

/-- A change that neither builds a client nor publishes one: a member keeps what it holds
or loses it. -/
structure Quiet (s t : State) : Prop where
  target : t.target = s.target
  members : ∀ (m : ℕ) (member : PoolMember), t.members[m]? = some member →
    member.client = none ∨ ∃ before : PoolMember, s.members[m]? = some before ∧
      before.client = member.client ∧ before.key = member.key
  clients : t.clients.map built = s.clients.map built
  acquisitions : t.acquisitions ⊆ s.acquisitions

theorem Quiet.refl (s : State) : Quiet s s :=
  ⟨rfl, fun _ member here => .inr ⟨member, here, rfl, rfl⟩, rfl, List.Subset.refl _⟩

theorem Quiet.trans (first : Quiet s t) (second : Quiet t u) : Quiet s u where
  target := second.target.trans first.target
  members m member here := by
    rcases second.members m member here with none | ⟨between, there, client, key⟩
    · exact .inl none
    · rcases first.members m between there with none | ⟨before, was, client', key'⟩
      · exact .inl (client.symm.trans none)
      · exact .inr ⟨before, was, client'.trans client, key'.trans key⟩
  clients := second.clients.trans first.clients
  acquisitions := List.Subset.trans second.acquisitions first.acquisitions

theorem getElem?_of_built {xs ys : List Client} (same : xs.map built = ys.map built) {c : ℕ}
    {y : Client} (here : ys[c]? = some y) : ∃ x, xs[c]? = some x ∧ built x = built y := by
  have at_c := congrArg (·[c]?) same
  simp only [List.getElem?_map, here, Option.map_some, Option.map_eq_some_iff] at at_c
  exact at_c

theorem Fitted.quiet (ok : Fitted env s) (quiet : Quiet s t) : Fitted env t := by
  constructor
  · intro m member c here holds
    rcases quiet.members m member here with none | ⟨before, was, client, key⟩
    · rw [none] at holds
      cases holds
    · obtain ⟨old, hold, own, named⟩ := ok.held m before c was (client.trans holds)
      obtain ⟨later, there, same⟩ := getElem?_of_built quiet.clients hold
      simp only [built, Prod.mk.injEq] at same
      refine ⟨later, there, same.1.trans own, ?_⟩
      rw [← key, named, same.2.1]
  · intro a mem
    obtain ⟨old, hold, own⟩ := ok.pending a (quiet.acquisitions mem)
    obtain ⟨later, there, same⟩ := getElem?_of_built quiet.clients hold
    exact ⟨later, there, same.trans own⟩
  · intro c client here
    obtain ⟨before, was, same⟩ := getElem?_of_built quiet.clients.symm here
    simp only [built, Prod.mk.injEq] at same
    rw [quiet.target, ← same.2.1, ← same.2.2]
    exact ok.current c before was

/-- An edit that leaves the client and its key, or takes them both away. -/
def Holds (f : PoolMember → PoolMember) : Prop :=
  ∀ m, ((f m).client = m.client ∧ (f m).key = m.key) ∨ (f m).client = none

theorem Quiet.edit {f : PoolMember → PoolMember} (holds : Holds f) (s : State) (m : ℕ) :
    Quiet s (s.edit m f) := by
  refine ⟨rfl, fun a member here => ?_, rfl, List.Subset.refl _⟩
  obtain ⟨before, was, rfl⟩ : ∃ before, s.members[a]? = some before ∧
      (if m = a then f before else before) = member :=
    Option.map_eq_some_iff.mp ((List.getElem?_modify ..).symm.trans here)
  split
  · rcases holds before with ⟨client, key⟩ | none
    · exact .inr ⟨before, was, client.symm, key.symm⟩
    · exact .inl none
  · exact .inr ⟨before, was, rfl, rfl⟩

theorem map_built_modify (xs : List Client) (c : ℕ) {f : Client → Client}
    (same : ∀ x, built (f x) = built x) : (xs.modify c f).map built = xs.map built := by
  refine List.ext_getElem? fun i => ?_
  rw [List.getElem?_map, List.getElem?_map, List.getElem?_modify]
  cases xs[i]? with
  | none => rfl
  | some x =>
    refine congrArg some ?_
    dsimp only
    split
    · exact same x
    · rfl

theorem Quiet.disconnect (s : State) (c : ℕ) : Quiet s (s.disconnect c) :=
  ⟨rfl, fun _ member here => .inr ⟨member, here, rfl, rfl⟩,
    map_built_modify _ _ fun _ => rfl, List.Subset.refl _⟩

theorem Quiet.disconnectSlot (s : State) (m : ℕ) : Quiet s (s.disconnectSlot m) := by
  unfold State.disconnectSlot
  split
  · exact .disconnect s _
  · exact .refl s

theorem Quiet.foldl {f : State → ℕ → State} (each : ∀ s m, Quiet s (f s m)) (ms : List ℕ)
    (s : State) : Quiet s (ms.foldl f s) := by
  induction ms generalizing s with
  | nil => exact .refl s
  | cons m ms ih => exact (each s m).trans (ih (f s m))

theorem holds_blank : Holds blank := fun _ => .inr rfl

theorem holds_countBuild : Holds countBuild := fun _ => .inl ⟨rfl, rfl⟩

theorem holds_cancelScheduledProbe : Holds cancelScheduledProbe := fun _ => .inl ⟨rfl, rfl⟩

theorem holds_resetForSwap : Holds resetForSwap := fun _ => .inr rfl

theorem transitionCircuit_holds (now : ℕ) (next : CircuitState) (m : PoolMember) :
    (transitionCircuit env now next m).client = m.client ∧
      (transitionCircuit env now next m).key = m.key := by
  unfold transitionCircuit
  split
  · exact ⟨rfl, rfl⟩
  · cases next <;> exact ⟨rfl, rfl⟩

theorem countFailure_holds (now : ℕ) (fatal : Bool) (m : PoolMember) :
    (countFailure env now fatal m).client = m.client ∧
      (countFailure env now fatal m).key = m.key := by
  unfold countFailure
  dsimp only
  split
  · exact transitionCircuit_holds now .open _
  · exact ⟨rfl, rfl⟩

theorem countSuccess_holds (now : ℕ) (m : PoolMember) :
    (countSuccess env now m).client = m.client ∧ (countSuccess env now m).key = m.key := by
  unfold countSuccess
  dsimp only
  split
  · exact transitionCircuit_holds now .closed _
  · exact ⟨rfl, rfl⟩

theorem Quiet.recyclePoolMember (s : State) (m c : ℕ) : Quiet s (s.recyclePoolMember m c) := by
  unfold State.recyclePoolMember
  split
  · exact (Quiet.edit holds_blank s m).trans (.disconnect _ c)
  · exact .refl s

theorem Quiet.noteFailure (s : State) (now m c : ℕ) (err : CommandError) :
    Quiet s (s.noteFailure env now m c err) :=
  (Quiet.edit (fun member => .inl (countFailure_holds now _ member)) s m).trans
    (.recyclePoolMember _ m c)

theorem Quiet.noteSuccess (s : State) (now m : ℕ) : Quiet s (s.noteSuccess env now m) :=
  .edit (fun member => .inl (countSuccess_holds now member)) s m

theorem Quiet.promoteToHalfOpen (s : State) (now m : ℕ) :
    Quiet s (s.promoteToHalfOpen env now m) :=
  ((Quiet.edit (fun member => .inl (transitionCircuit_holds now _ member)) s m).trans
    (.disconnectSlot _ m)).trans (.edit holds_blank _ m)

theorem Quiet.ensurePoolSized (s : State) (category : Category) (size : ℕ) :
    Quiet s (s.ensurePoolSized category size) := by
  unfold State.ensurePoolSized
  dsimp only
  split
  · refine ⟨rfl, fun m member here => ?_, rfl, List.Subset.refl _⟩
    dsimp only at here
    rw [List.getElem?_append] at here
    split at here
    · exact .inr ⟨member, here, rfl, rfl⟩
    · obtain ⟨i, _, rfl⟩ := List.mem_map.mp (List.mem_of_getElem? here)
      exact .inl rfl
  · have drop := Quiet.foldl (fun s m => Quiet.disconnectSlot s m) ((s.slots category).drop size) s
    exact ⟨drop.target, drop.members, drop.clients, drop.acquisitions⟩

theorem Quiet.turn (s : State) (category : Category) (i : ℕ) : Quiet s (s.turn category i) :=
  ⟨rfl, fun _ member here => .inr ⟨member, here, rfl, rfl⟩, rfl, List.Subset.refl _⟩

theorem Quiet.detach (s : State) (m : ℕ) : Quiet s (s.detach m) := by
  unfold State.detach
  have reset := Quiet.edit holds_resetForSwap s m
  split
  · exact ⟨reset.target, reset.members, reset.clients, reset.acquisitions⟩
  · exact reset

/-- A client that is built for the active target. -/
theorem Fitted.build (ok : Fitted env s) (m : ℕ) (wrapped : Bool) :
    Fitted env (s.build m (getActiveTarget env s.target) wrapped) := by
  have old : ∀ {c : ℕ} {client : Client}, s.clients[c]? = some client →
      (s.build m (getActiveTarget env s.target) wrapped).clients[c]? = some client := by
    intro c client here
    exact (List.getElem?_append_left (List.getElem?_eq_some_iff.mp here).1).trans here
  constructor
  · intro a member c here holds
    obtain ⟨client, hold, rest⟩ := ok.held a member c here holds
    exact ⟨client, old hold, rest⟩
  · intro a mem
    obtain ⟨client, hold, rest⟩ := ok.pending a mem
    exact ⟨client, old hold, rest⟩
  · intro c client here
    rw [State.build, List.getElem?_append] at here
    split at here
    · exact ok.current c client here
    · obtain rfl := List.mem_singleton.mp (List.mem_of_getElem? here)
      exact ⟨le_rfl, fun _ => rfl⟩

theorem getElem?_build (m : ℕ) (x : ActiveTarget) (wrapped : Bool) :
    (s.build m x wrapped).clients[s.clients.length]? =
      some ⟨m, x, s.target.overrideCreds, s.target.targetKey x, wrapped, false⟩ :=
  List.getElem?_concat_length

theorem Fitted.publish (ok : Fitted env s) {m c : ℕ} {key : TargetKey} {client : Client}
    (here : s.clients[c]? = some client) (own : client.member = m) (named : client.key = key) :
    Fitted env (s.publish m c key) := by
  refine ⟨?_, ok.pending, ok.current⟩
  intro a member d there holds
  obtain ⟨before, was, rfl⟩ : ∃ before, s.members[a]? = some before ∧
      (if m = a then { before with client := some c, key := some key } else before) = member :=
    Option.map_eq_some_iff.mp ((List.getElem?_modify ..).symm.trans there)
  split at holds
  · rename_i same
    obtain rfl := Option.some.inj holds
    rw [if_pos same]
    exact ⟨client, here, own.trans same, congrArg some named.symm⟩
  · rename_i other
    rw [if_neg other]
    exact ok.held a before d was holds

theorem Fitted.startAcquisition (ok : Fitted env s) (m : ℕ) :
    Fitted env (s.startAcquisition env m) := by
  have grown := ok.build m false
  refine ⟨grown.held, ?_, grown.current⟩
  intro a mem
  rcases List.mem_append.mp mem with before | new
  · exact grown.pending a before
  · rw [List.mem_singleton.mp new]
    exact ⟨_, getElem?_build m _ false, rfl⟩

theorem Quiet.disconnectForBuild (s : State) (m : ℕ) :
    Quiet s ((s.disconnectSlot m).edit m countBuild) :=
  (Quiet.disconnectSlot s m).trans (.edit holds_countBuild _ m)

theorem Fitted.useSlot (ok : Fitted env s) (m : ℕ) : Fitted env (s.useSlot env m).1 := by
  unfold State.useSlot
  split
  · exact ok
  · split
    · exact ok
    · exact (ok.quiet (.disconnectForBuild s m)).startAcquisition m

theorem Fitted.acquireFromPool (ok : Fitted env s) (now : ℕ) (category : Category) (size : ℕ) :
    Fitted env (s.acquireFromPool env now category size).1 := by
  unfold State.acquireFromPool
  split
  · exact ok
  · have sized := ok.quiet (.ensurePoolSized s category size)
    dsimp only
    split
    · exact sized
    · rename_i m _
      split
      · exact ((sized.quiet (Quiet.promoteToHalfOpen _ now m)).quiet (.turn _ category _)).useSlot m
      · exact (sized.quiet (.turn _ category _)).useSlot m

theorem Fitted.memberReady (ok : Fitted env s) {a : Acquisition} {client : Client}
    (here : s.clients[a.client]? = some client) (own : built client = (a.member, a.key, a.target))
    (ready : Bool) : Fitted env (s.memberReady a ready).1 := by
  simp only [built, Prod.mk.injEq] at own
  unfold State.memberReady
  split
  · have published := ok.publish here own.1 own.2.1
    refine published.quiet ⟨rfl, fun _ member there => .inr ⟨member, there, rfl, rfl⟩, ?_,
      List.Subset.refl _⟩
    exact map_built_modify _ _ fun _ => rfl
  · exact ok.quiet ((Quiet.disconnect s a.client).trans (.edit holds_blank _ a.member))

theorem Fitted.commitActiveTargetSync (ok : Fitted env s) (x : ActiveTarget)
    (creds : Option ActiveTargetCreds) : Fitted env (s.commitActiveTargetSync x creds) := by
  have committed : Fitted env { s with target := s.target.commit x creds } := by
    refine ⟨ok.held, ok.pending, ?_⟩
    intro c client here
    have older := (ok.current c client here).1
    refine ⟨Nat.le_succ_of_le older, fun same => absurd same ?_⟩
    exact Nat.ne_of_lt (Nat.lt_succ_of_le older)
  exact committed.quiet (.foldl (fun s m => Quiet.detach s m) _ _)

theorem Fitted.runHalfOpenProbe (ok : Fitted env s) (now m : ℕ) :
    Fitted env (s.runHalfOpenProbe env now m) := by
  unfold State.runHalfOpenProbe
  split
  · exact ok
  · split
    · exact ok
    · have promoted : Fitted env (s.promoteToHalfOpen env now m) :=
      ok.quiet (.promoteToHalfOpen s now m)
      have published := (promoted.build m true).publish (getElem?_build m _ true) rfl rfl
      have counted := published.quiet (.edit holds_countBuild _ m)
      exact ⟨counted.held, counted.pending, counted.current⟩

/-- Commands and the drain set are no part of it. -/
theorem Quiet.of_fields (target : t.target = s.target) (members : t.members = s.members)
    (clients : t.clients = s.clients) (acquisitions : t.acquisitions ⊆ s.acquisitions) :
    Quiet s t :=
  ⟨target, fun _ member here => .inr ⟨member, members ▸ here, rfl, rfl⟩,
    congrArg (List.map built) clients, acquisitions⟩

theorem Quiet.settleCommand (s : State) (now m c : ℕ) (outcome : CommandOutcome) :
    Quiet s (settleCommand env now s m c outcome) := by
  cases outcome with
  | success => exact .noteSuccess s now m
  | rejected err =>
    unfold RedisPool.settleCommand
    dsimp only
    split
    · exact .noteFailure s now m c err
    · exact .refl s

theorem Fitted.stepWith (ok : Fitted env s) {e : ℕ × Event} {returned : Option ℕ}
    (admitted : stepWith env s e = some (t, returned)) : Fitted env t := by
  obtain ⟨now, e⟩ := e
  have uncommanded : ∀ cs, Quiet s { s with commands := cs } :=
    fun _ => .of_fields rfl rfl rfl (List.Subset.refl _)
  cases e with
  | acquire category size =>
    obtain ⟨rfl, _⟩ := Prod.mk.inj (Option.some.inj admitted)
    exact ok.acquireFromPool now category size
  | memberReady i ready =>
    obtain ⟨a, here, admitted⟩ := Option.bind_eq_some_iff.mp admitted
    obtain ⟨client, hold, own⟩ := ok.pending a (List.mem_of_getElem? here)
    have left : Fitted env { s with acquisitions := s.acquisitions.eraseIdx i } :=
      ok.quiet (.of_fields rfl rfl rfl (List.eraseIdx_subset))
    rw [← (Prod.mk.inj (Option.some.inj admitted)).1]
    exact left.memberReady hold own ready
  | commitActiveTargetSync x creds =>
    obtain ⟨rfl, _⟩ := Prod.mk.inj (Option.some.inj admitted)
    exact ok.commitActiveTargetSync x creds
  | drainGrace c =>
    simp only [RedisPool.stepWith] at admitted
    split at admitted
    · obtain ⟨rfl, _⟩ := Prod.mk.inj (Option.some.inj admitted)
      have quiet : Quiet s { s with drainingClients := s.drainingClients.erase c } :=
        .of_fields rfl rfl rfl (List.Subset.refl _)
      exact ok.quiet (quiet.trans (.disconnect _ c))
    · cases admitted
  | command c =>
    obtain ⟨client, _, admitted⟩ := Option.bind_eq_some_iff.mp admitted
    split at admitted
    · obtain ⟨rfl, _⟩ := Prod.mk.inj (Option.some.inj admitted)
      exact ok.quiet (uncommanded _)
    · cases admitted
  | settle i outcome =>
    obtain ⟨c, _, admitted⟩ := Option.bind_eq_some_iff.mp admitted
    obtain ⟨client, _, admitted⟩ := Option.bind_eq_some_iff.mp admitted
    obtain ⟨rfl, _⟩ := Prod.mk.inj (Option.some.inj admitted)
    exact ok.quiet ((uncommanded _).trans (.settleCommand _ now client.member c outcome))
  | failFast i timeoutMs method =>
    obtain ⟨c, _, admitted⟩ := Option.bind_eq_some_iff.mp admitted
    obtain ⟨client, _, admitted⟩ := Option.bind_eq_some_iff.mp admitted
    obtain ⟨member, _, admitted⟩ := Option.bind_eq_some_iff.mp admitted
    obtain ⟨rfl, _⟩ := Prod.mk.inj (Option.some.inj admitted)
    exact ok.quiet ((uncommanded _).trans (.noteFailure _ now client.member c _))
  | socketError c err =>
    obtain ⟨client, _, admitted⟩ := Option.bind_eq_some_iff.mp admitted
    obtain ⟨rfl, _⟩ := Prod.mk.inj (Option.some.inj admitted)
    split
    · exact ok.quiet (.noteFailure s now client.member c err)
    · exact ok
  | probe m =>
    obtain ⟨member, _, admitted⟩ := Option.bind_eq_some_iff.mp admitted
    split at admitted
    · obtain ⟨rfl, _⟩ := Prod.mk.inj (Option.some.inj admitted)
      exact (ok.quiet (.edit holds_cancelScheduledProbe s m)).runHalfOpenProbe now m
    · cases admitted

theorem fitted_initial (env : Env) : Fitted env .initial where
  held _ _ _ here _ := by cases here
  pending _ mem := (List.not_mem_nil mem).elim
  current _ _ here := by cases here

/-- A wrapper that is returned fits the acquisition it is returned to: its client was
built for the target that was active when the acquisition started. -/
def WrapperFits (env : Env) (s : State) (e : ℕ × Event) : Prop :=
  ∀ t c, stepWith env s e = some (t, some c) → ∃ client : Client, t.clients[c]? = some client ∧
    match e.2 with
    | .memberReady i _ => ∃ a, s.acquisitions[i]? = some a ∧ client.target = a.target
    | _ => client.target = getActiveTarget env s.target

theorem Fitted.useSlot_returned (ok : Fitted env s) {m c : ℕ}
    (returned : (s.useSlot env m).2 = some c) :
    ∃ client : Client, (s.useSlot env m).1.clients[c]? = some client ∧
      client.target = getActiveTarget env s.target := by
  unfold State.useSlot at returned ⊢
  split at returned
  · cases returned
  · rename_i member here
    split at returned
    · rename_i fits
      simp only [fits, if_true]
      obtain ⟨client, hold, _, named⟩ := ok.held m member c here returned
      have same : client.key = s.target.targetKey (getActiveTarget env s.target) := by
        have key := (Bool.and_eq_true_iff.mp fits).2
        exact Option.some.inj (named.symm.trans (of_decide_eq_true key))
      refine ⟨client, hold, (ok.current c client hold).2 ?_⟩
      rw [same]
      rfl
    · cases returned

theorem Fitted.useSlot_after (ok : Fitted env s) (quiet : Quiet s t) {m c : ℕ}
    (returned : (t.useSlot env m).2 = some c) :
    ∃ client : Client, (t.useSlot env m).1.clients[c]? = some client ∧
      client.target = getActiveTarget env s.target := by
  have found := (ok.quiet quiet).useSlot_returned returned
  rwa [quiet.target] at found

theorem Fitted.acquire_returned (ok : Fitted env s) {now : ℕ} {category : Category} {size c : ℕ}
    (returned : (s.acquireFromPool env now category size).2 = some c) :
    ∃ client : Client, (s.acquireFromPool env now category size).1.clients[c]? = some client ∧
      client.target = getActiveTarget env s.target := by
  unfold State.acquireFromPool at returned ⊢
  dsimp only at returned ⊢
  split at returned
  · cases returned
  · rename_i labelled
    have sized := Quiet.ensurePoolSized s category size
    rw [if_neg labelled]
    split at returned
    · cases returned
    · split at returned
      · rename_i every
        rw [if_pos every]
        exact ok.useSlot_after
          ((sized.trans (.promoteToHalfOpen _ now _)).trans (.turn _ category _))
          returned
      · rename_i some
        rw [if_neg some]
        exact ok.useSlot_after (sized.trans (.turn _ category _)) returned

theorem memberReady_returned {a : Acquisition} {client : Client} {ready : Bool} {c : ℕ}
    (hold : s.clients[a.client]? = some client) (own : built client = (a.member, a.key, a.target))
    (returned : (s.memberReady a ready).2 = some c) :
    ∃ client : Client, (s.memberReady a ready).1.clients[c]? = some client ∧
      client.target = a.target := by
  simp only [built, Prod.mk.injEq] at own
  cases ready with
  | false => cases returned
  | true =>
    obtain rfl := Option.some.inj returned
    refine ⟨{ client with wrapped := true }, ?_, own.2.2⟩
    refine (List.getElem?_modify_eq ..).trans ?_
    exact congrArg (Option.map _) hold

theorem Fitted.wrapperFits (ok : Fitted env s) (e : ℕ × Event) : WrapperFits env s e := by
  obtain ⟨now, e⟩ := e
  intro t c admitted
  cases e with
  | acquire category size =>
    have went : s.acquireFromPool env now category size = (t, some c) := Option.some.inj admitted
    have found := ok.acquire_returned (congrArg Prod.snd went)
    rw [went] at found
    exact found
  | memberReady i ready =>
    obtain ⟨a, here, admitted⟩ := Option.bind_eq_some_iff.mp admitted
    obtain ⟨client, hold, own⟩ := ok.pending a (List.mem_of_getElem? here)
    have went : { s with acquisitions := s.acquisitions.eraseIdx i }.memberReady a ready =
        (t, some c) := Option.some.inj admitted
    have left : { s with acquisitions := s.acquisitions.eraseIdx i }.clients[a.client]? =
        some client := hold
    obtain ⟨client', hold', for_⟩ := memberReady_returned left own (congrArg Prod.snd went)
    rw [went] at hold'
    exact ⟨client', hold', a, here, for_⟩
  | commitActiveTargetSync x creds => cases (Prod.mk.inj (Option.some.inj admitted)).2
  | drainGrace d =>
    simp only [RedisPool.stepWith] at admitted
    split at admitted
    · cases (Prod.mk.inj (Option.some.inj admitted)).2
    · cases admitted
  | command d =>
    obtain ⟨client, _, admitted⟩ := Option.bind_eq_some_iff.mp admitted
    split at admitted
    · cases (Prod.mk.inj (Option.some.inj admitted)).2
    · cases admitted
  | settle i outcome =>
    obtain ⟨d, _, admitted⟩ := Option.bind_eq_some_iff.mp admitted
    obtain ⟨client, _, admitted⟩ := Option.bind_eq_some_iff.mp admitted
    cases (Prod.mk.inj (Option.some.inj admitted)).2
  | failFast i timeoutMs method =>
    obtain ⟨d, _, admitted⟩ := Option.bind_eq_some_iff.mp admitted
    obtain ⟨client, _, admitted⟩ := Option.bind_eq_some_iff.mp admitted
    obtain ⟨member, _, admitted⟩ := Option.bind_eq_some_iff.mp admitted
    cases (Prod.mk.inj (Option.some.inj admitted)).2
  | socketError d err =>
    obtain ⟨client, _, admitted⟩ := Option.bind_eq_some_iff.mp admitted
    cases (Prod.mk.inj (Option.some.inj admitted)).2
  | probe m =>
    obtain ⟨member, _, admitted⟩ := Option.bind_eq_some_iff.mp admitted
    split at admitted
    · cases (Prod.mk.inj (Option.some.inj admitted)).2
    · cases admitted

end Fitted

section Accounted

/-- The client `c` has been built and not disconnected. -/
def Connected (s : State) (c : ℕ) : Prop :=
  ∃ client : Client, s.clients[c]? = some client ∧ client.disconnected = false

def InPool (s : State) (m : ℕ) : Prop := ∃ category, m ∈ s.slots category

/-- The members a pool lists are its own, in the order of their slots. -/
def Slotted (s : State) : Prop :=
  ∀ (category : Category) (i m : ℕ), (s.slots category)[i]? = some m →
    ∃ member : PoolMember, s.members[m]? = some member ∧ member.category = category ∧
      member.index = i

/-- Somebody will disconnect the client, or publish it, or finds it in a slot. -/
def Owned (s : State) (c : ℕ) : Prop :=
  c ∈ s.drainingClients ∨ (∃ a ∈ s.acquisitions, a.client = c) ∨
    ∃ m, InPool s m ∧ s.clientOf m = some c

structure Accounted (s : State) : Prop where
  slotted : Slotted s
  accounted : ∀ c, Connected s c → Owned s c

/-- The slot holds no client that is still connected. -/
def Spent (s : State) (m : ℕ) : Prop := ∀ c, s.clientOf m = some c → ¬ Connected s c

theorem clientOf_edit_self (s : State) (m : ℕ) (f : PoolMember → PoolMember) :
    (s.edit m f).clientOf m = s.members[m]?.bind fun member => (f member).client := by
  have here : (s.edit m f).members[m]? = f <$> s.members[m]? := List.getElem?_modify_eq ..
  rw [State.clientOf, here]
  cases s.members[m]? <;> rfl

theorem clientOf_edit_of_ne {m a : ℕ} (other : m ≠ a) (f : PoolMember → PoolMember) :
    (s.edit m f).clientOf a = s.clientOf a :=
  congrArg (Option.bind · PoolMember.client) (List.getElem?_modify_ne _ _ other)

theorem clientOf_edit {f : PoolMember → PoolMember} (same : ∀ x, (f x).client = x.client)
    (m a : ℕ) : (s.edit m f).clientOf a = s.clientOf a := by
  by_cases here : m = a
  · subst here
    rw [clientOf_edit_self, State.clientOf]
    exact congrArg (Option.bind _) (funext same)
  · exact clientOf_edit_of_ne here f

theorem connected_disconnect (c a : ℕ) : Connected (s.disconnect c) a ↔ Connected s a ∧ a ≠ c := by
  have after : (s.disconnect c).clients[a]? =
      (fun x => if c = a then { x with disconnected := true } else x) <$> s.clients[a]? :=
    List.getElem?_modify ..
  constructor
  · rintro ⟨client, here, on⟩
    rw [after] at here
    obtain ⟨before, was, rfl⟩ := Option.map_eq_some_iff.mp here
    split at on
    · cases on
    · rename_i other
      exact ⟨⟨before, was, on⟩, Ne.symm other⟩
  · rintro ⟨⟨before, was, on⟩, other⟩
    refine ⟨before, ?_, on⟩
    rw [after, was]
    exact congrArg some (if_neg other.symm)

/-- The place of a member is fixed. -/
def KeepsPlace (f : PoolMember → PoolMember) : Prop :=
  ∀ x, (f x).category = x.category ∧ (f x).index = x.index

theorem Slotted.edit (ok : Slotted s) {f : PoolMember → PoolMember} (place : KeepsPlace f)
    (m : ℕ) : Slotted (s.edit m f) := by
  intro category i a here
  obtain ⟨member, there, own⟩ := ok category i a here
  refine ⟨if m = a then f member else member, ?_, ?_⟩
  · refine (List.getElem?_modify ..).trans ?_
    rw [there]
    rfl
  · split
    · rw [(place member).1, (place member).2]
      exact own
    · exact own

theorem Accounted.edit (ok : Accounted s) {m : ℕ} {f : PoolMember → PoolMember}
    (place : KeepsPlace f)
    (keeps : ∀ c, s.clientOf m = some c → Connected s c →
      c ∈ s.drainingClients ∨ (s.edit m f).clientOf m = some c) : Accounted (s.edit m f) := by
  refine ⟨ok.slotted.edit place m, fun c on => ?_⟩
  rcases ok.accounted c on with drains | waits | ⟨a, pool, holds⟩
  · exact .inl drains
  · exact .inr (.inl waits)
  · by_cases here : m = a
    · subst here
      exact (keeps c holds on).imp id fun still => .inr ⟨m, pool, still⟩
    · exact .inr (.inr ⟨a, pool, (clientOf_edit_of_ne here f).trans holds⟩)

theorem Accounted.edit_same (ok : Accounted s) {f : PoolMember → PoolMember}
    (place : KeepsPlace f) (same : ∀ x, (f x).client = x.client) (m : ℕ) : Accounted (s.edit m f) :=
  ok.edit place fun _ holds _ => .inr ((clientOf_edit same m m).trans holds)

/-- A slot may be overwritten when what it holds is spent. -/
theorem Accounted.edit_spent (ok : Accounted s) {f : PoolMember → PoolMember}
    (place : KeepsPlace f) {m : ℕ} (spent : Spent s m) : Accounted (s.edit m f) :=
  ok.edit place fun _ holds on => absurd on (spent _ holds)

theorem Accounted.disconnect (ok : Accounted s) (c : ℕ) : Accounted (s.disconnect c) :=
  ⟨ok.slotted, fun a on => ok.accounted a ((connected_disconnect c a).mp on).1⟩

theorem Accounted.disconnectSlot (ok : Accounted s) (m : ℕ) : Accounted (s.disconnectSlot m) := by
  unfold State.disconnectSlot
  split
  · exact ok.disconnect _
  · exact ok

theorem clientOf_disconnectSlot (m a : ℕ) : (s.disconnectSlot m).clientOf a = s.clientOf a := by
  unfold State.disconnectSlot
  split
  · rfl
  · rfl

theorem connected_of_disconnectSlot {m c : ℕ} (on : Connected (s.disconnectSlot m) c) :
    Connected s c := by
  unfold State.disconnectSlot at on
  split at on
  · exact ((connected_disconnect _ c).mp on).1
  · exact on

theorem spent_disconnectSlot (s : State) (m : ℕ) : Spent (s.disconnectSlot m) m := by
  intro c holds on
  rw [clientOf_disconnectSlot] at holds
  unfold State.disconnectSlot at on
  rw [holds] at on
  exact ((connected_disconnect c c).mp on).2 rfl

theorem Spent.disconnectSlot {m : ℕ} (spent : Spent s m) (a : ℕ) :
    Spent (s.disconnectSlot a) m := by
  intro c holds on
  rw [clientOf_disconnectSlot] at holds
  exact spent c holds (connected_of_disconnectSlot on)

theorem keepsPlace_blank : KeepsPlace blank := fun _ => ⟨rfl, rfl⟩

theorem keepsPlace_resetForSwap : KeepsPlace resetForSwap := fun _ => ⟨rfl, rfl⟩

theorem keepsPlace_countBuild : KeepsPlace countBuild := fun _ => ⟨rfl, rfl⟩

theorem keepsPlace_cancelScheduledProbe : KeepsPlace cancelScheduledProbe := fun _ => ⟨rfl, rfl⟩

theorem keepsPlace_transitionCircuit (now : ℕ) (next : CircuitState) :
    KeepsPlace (transitionCircuit env now next) := by
  intro m
  unfold transitionCircuit
  split
  · exact ⟨rfl, rfl⟩
  · cases next <;> exact ⟨rfl, rfl⟩

theorem keepsPlace_countFailure (now : ℕ) (fatal : Bool) :
    KeepsPlace (countFailure env now fatal) := by
  intro m
  unfold countFailure
  dsimp only
  split
  · exact keepsPlace_transitionCircuit now .open _
  · exact ⟨rfl, rfl⟩

theorem keepsPlace_countSuccess (now : ℕ) : KeepsPlace (countSuccess env now) := by
  intro m
  unfold countSuccess
  dsimp only
  split
  · exact keepsPlace_transitionCircuit now .closed _
  · exact ⟨rfl, rfl⟩

theorem Accounted.recyclePoolMember (ok : Accounted s) (m c : ℕ) :
    Accounted (s.recyclePoolMember m c) := by
  unfold State.recyclePoolMember
  split
  · rename_i holds
    have off := ok.disconnect c
    refine off.edit_spent keepsPlace_blank ?_
    intro d there on
    obtain rfl := Option.some.inj (holds.symm.trans there)
    exact ((connected_disconnect c c).mp on).2 rfl
  · exact ok

theorem Accounted.noteFailure (ok : Accounted s) (now m c : ℕ) (err : CommandError) :
    Accounted (s.noteFailure env now m c err) :=
  (ok.edit_same (keepsPlace_countFailure now _)
      (fun x => (countFailure_holds now _ x).1) m).recyclePoolMember
    m c

theorem Accounted.settleCommand (ok : Accounted s) (now m c : ℕ) (outcome : CommandOutcome) :
    Accounted (settleCommand env now s m c outcome) := by
  cases outcome with
  | success =>
    exact ok.edit_same (keepsPlace_countSuccess now) (fun x => (countSuccess_holds now x).1) m
  | rejected err =>
    unfold RedisPool.settleCommand
    dsimp only
    split
    · exact ok.noteFailure now m c err
    · exact ok

theorem Accounted.promoteToHalfOpen (ok : Accounted s) (now m : ℕ) :
    Accounted (s.promoteToHalfOpen env now m) := by
  have turned := ok.edit_same (@keepsPlace_transitionCircuit env now .halfOpen)
    (fun x => (transitionCircuit_holds now _ x).1) m
  exact (turned.disconnectSlot m).edit_spent keepsPlace_blank (spent_disconnectSlot _ m)

theorem connected_append {x : Client} {c : ℕ}
    (on : Connected { s with clients := s.clients ++ [x] } c) :
    Connected s c ∨ c = s.clients.length := by
  obtain ⟨client, here, off⟩ := on
  dsimp only at here
  rw [List.getElem?_append] at here
  split at here
  · exact .inl ⟨client, here, off⟩
  · have := (List.getElem?_eq_some_iff.mp here).1
    simp only [List.length_singleton] at this
    exact .inr (by omega)

theorem Accounted.startAcquisition (ok : Accounted s) (m : ℕ) :
    Accounted (s.startAcquisition env m) := by
  refine ⟨ok.slotted, fun c on => ?_⟩
  rcases connected_append on with old | rfl
  · rcases ok.accounted c old with drains | ⟨a, mem, own⟩ | slot
    · exact .inl drains
    · exact .inr (.inl ⟨a, List.mem_append_left _ mem, own⟩)
    · exact .inr (.inr slot)
  · exact .inr (.inl ⟨_, List.mem_append_right _ (List.mem_singleton_self _), rfl⟩)

theorem Accounted.turn (ok : Accounted s) (category : Category) (i : ℕ) :
    Accounted (s.turn category i) := ⟨ok.slotted, ok.accounted⟩

theorem Accounted.useSlot (ok : Accounted s) (m : ℕ) : Accounted (s.useSlot env m).1 := by
  unfold State.useSlot
  split
  · exact ok
  · split
    · exact ok
    · exact ((ok.disconnectSlot m).edit_same keepsPlace_countBuild
        (fun _ => rfl) m).startAcquisition m

/-- After the surplus slots of a pool have been disconnected they are spent. -/
theorem spent_foldl_disconnectSlot (ms : List ℕ) (s : State) :
    ∀ m ∈ ms, Spent (ms.foldl State.disconnectSlot s) m := by
  have stays : ∀ (ms : List ℕ) (s : State) (m : ℕ), Spent s m →
      Spent (ms.foldl State.disconnectSlot s) m := by
    intro ms
    induction ms with
    | nil => exact fun s m spent => spent
    | cons a ms ih => exact fun s m spent => ih _ m (spent.disconnectSlot a)
  induction ms generalizing s with
  | nil => exact fun m mem => (List.not_mem_nil mem).elim
  | cons a ms ih =>
    intro m mem
    rcases List.mem_cons.mp mem with rfl | later
    · exact stays ms _ m (spent_disconnectSlot s m)
    · exact ih _ m later

theorem Accounted.foldl_disconnectSlot (ok : Accounted s) (ms : List ℕ) :
    Accounted (ms.foldl State.disconnectSlot s) := by
  induction ms generalizing s with
  | nil => exact ok
  | cons m ms ih => exact ih (ok.disconnectSlot m)

theorem slots_foldl_disconnectSlot (ms : List ℕ) (s : State) :
    (ms.foldl State.disconnectSlot s).slots = s.slots := by
  induction ms generalizing s with
  | nil => rfl
  | cons m ms ih =>
    refine (ih _).trans ?_
    unfold State.disconnectSlot
    split
    · rfl
    · rfl

/-- The slots that a pool gets list members of its own. -/
theorem slotted_grown (ok : Slotted s) (category : Category) (size : ℕ) : Slotted { s with
    members := s.members ++ (List.range (size - (s.slots category).length)).map fun i =>
      newMember category ((s.slots category).length + i)
    slots := Function.update s.slots category (s.slots category ++
      (List.range (size - (s.slots category).length)).map (s.members.length + ·)) } := by
  intro category' i m here
  dsimp only at here ⊢
  by_cases same : category' = category
  · subst same
    rw [Function.update_self, List.getElem?_append] at here
    split at here
    · obtain ⟨member, there, own⟩ := ok category' i m here
      exact ⟨member, (List.getElem?_append_left (List.getElem?_eq_some_iff.mp there).1).trans there,
        own⟩
    · rename_i beyond
      obtain ⟨k, hk, rfl⟩ := Option.map_eq_some_iff.mp ((List.getElem?_map ..).symm.trans here)
      obtain ⟨inside, rfl⟩ := List.getElem?_eq_some_iff.mp hk
      rw [List.length_range] at inside
      refine ⟨newMember category' i, ?_, rfl, rfl⟩
      rw [List.getElem?_append_right (Nat.le_add_right ..), Nat.add_sub_cancel_left,
        List.getElem?_map, List.getElem_range, List.getElem?_range inside]
      refine congrArg (fun n => some (newMember category' n)) ?_
      omega
  · rw [Function.update_of_ne same] at here
    obtain ⟨member, there, own⟩ := ok category' i m here
    exact ⟨member, (List.getElem?_append_left (List.getElem?_eq_some_iff.mp there).1).trans there,
      own⟩

theorem Accounted.ensurePoolSized (ok : Accounted s) (category : Category) (size : ℕ) :
    Accounted (s.ensurePoolSized category size) := by
  unfold State.ensurePoolSized
  dsimp only
  split
  · constructor
    · exact slotted_grown ok.slotted category size
    · intro c on
      rcases ok.accounted c on with drains | waits | ⟨a, ⟨category', mem⟩, holds⟩
      · exact .inl drains
      · exact .inr (.inl waits)
      · refine .inr (.inr ⟨a, ⟨category', ?_⟩, ?_⟩)
        · dsimp only
          by_cases same : category' = category
          · subst same
            rw [Function.update_self]
            exact List.mem_append_left _ mem
          · rw [Function.update_of_ne same]
            exact mem
        · obtain ⟨member, there, client⟩ := Option.bind_eq_some_iff.mp holds
          refine Option.bind_eq_some_iff.mpr ⟨member, ?_, client⟩
          exact (List.getElem?_append_left (List.getElem?_eq_some_iff.mp there).1).trans there
  · have dropped := ok.foldl_disconnectSlot ((s.slots category).drop size)
    have spent := spent_foldl_disconnectSlot ((s.slots category).drop size) s
    have slots := slots_foldl_disconnectSlot ((s.slots category).drop size) s
    constructor
    · intro category' i m here
      refine dropped.slotted category' i m ?_
      rw [slots]
      dsimp only at here
      by_cases same : category' = category
      · subst same
        rw [Function.update_self, List.getElem?_take] at here
        split at here
        · exact here
        · cases here
      · rw [slots, Function.update_of_ne same] at here
        exact here
    · intro c on
      rcases dropped.accounted c on with drains | waits | ⟨a, ⟨category', mem⟩, holds⟩
      · exact .inl drains
      · exact .inr (.inl waits)
      · refine .inr (.inr ⟨a, ⟨category', ?_⟩, holds⟩)
        rw [slots] at mem ⊢
        dsimp only
        by_cases same : category' = category
        · subst same
          rw [Function.update_self]
          rcases List.mem_append.mp
            ((List.take_append_drop size (s.slots category')).symm ▸ mem) with kept | cut
          · exact kept
          · exact absurd on (spent a cut c holds)
        · rw [Function.update_of_ne same]
          exact mem

theorem Accounted.acquireFromPool (ok : Accounted s) (now : ℕ) (category : Category) (size : ℕ) :
    Accounted (s.acquireFromPool env now category size).1 := by
  unfold State.acquireFromPool
  split
  · exact ok
  · have sized := ok.ensurePoolSized category size
    dsimp only
    split
    · exact sized
    · split
      · exact ((sized.promoteToHalfOpen now _).turn category _).useSlot _
      · exact (sized.turn category _).useSlot _

theorem Accounted.detach (ok : Accounted s) (m : ℕ) : Accounted (s.detach m) := by
  unfold State.detach
  split
  · rename_i old holds
    have drained : Accounted { s with drainingClients := s.drainingClients.insert old } := by
      refine ⟨ok.slotted, fun c on => ?_⟩
      rcases ok.accounted c on with drains | rest
      · exact .inl (List.mem_insert_of_mem drains)
      · exact .inr rest
    refine drained.edit keepsPlace_resetForSwap fun c here _ => .inl ?_
    obtain rfl := Option.some.inj (holds.symm.trans here)
    exact List.mem_insert_self
  · rename_i none
    refine ok.edit_spent keepsPlace_resetForSwap ?_
    intro c holds
    rw [none] at holds
    cases holds

theorem Accounted.commitActiveTargetSync (ok : Accounted s) (x : ActiveTarget)
    (creds : Option ActiveTargetCreds) : Accounted (s.commitActiveTargetSync x creds) := by
  have detached : ∀ (ms : List ℕ) {s : State}, Accounted s →
      Accounted (ms.foldl State.detach s) := by
    intro ms
    induction ms with
    | nil => exact fun ok => ok
    | cons m ms ih => exact fun ok => ih (ok.detach m)
  exact detached _ ⟨ok.slotted, ok.accounted⟩

theorem InPool.exists_member {m : ℕ} (pool : InPool s m) (ok : Slotted s) :
    ∃ member, s.members[m]? = some member := by
  obtain ⟨category, mem⟩ := pool
  obtain ⟨i, here⟩ := List.mem_iff_getElem?.mp mem
  obtain ⟨member, there, _⟩ := ok category i m here
  exact ⟨member, there⟩

/-- A client that is published into a slot of a pool is accounted for by it. -/
theorem Accounted.publish {m c : ℕ} {key : TargetKey} (slotted : Slotted s)
    (others : ∀ d, d ≠ c → Connected s d → Owned s d) (pool : InPool s m) (spent : Spent s m) :
    Accounted (s.publish m c key) := by
  have place : KeepsPlace fun member => { member with client := some c, key := some key } :=
    fun _ => ⟨rfl, rfl⟩
  refine ⟨slotted.edit place m, fun d on => ?_⟩
  by_cases own : d = c
  · subst own
    obtain ⟨member, here⟩ := pool.exists_member slotted
    refine .inr (.inr ⟨m, pool, ?_⟩)
    refine (clientOf_edit_self ..).trans ?_
    rw [here]
    rfl
  · rcases others d own on with drains | waits | ⟨a, pool', holds⟩
    · exact .inl drains
    · exact .inr (.inl waits)
    · have other : m ≠ a := by
        rintro rfl
        exact spent d holds on
      exact .inr (.inr ⟨a, pool', (clientOf_edit_of_ne other _).trans holds⟩)

theorem Accounted.memberReady (ok : Accounted s) {i : ℕ} {a : Acquisition}
    (here : s.acquisitions[i]? = some a) (spent : Spent s a.member) {ready : Bool}
    (pool : ready = true → InPool s a.member) :
    Accounted ({ s with acquisitions := s.acquisitions.eraseIdx i }.memberReady a ready).1 := by
  have others : ∀ d, d ≠ a.client → Connected s d →
      Owned { s with acquisitions := s.acquisitions.eraseIdx i } d := by
    intro d other on
    rcases ok.accounted d on with drains | ⟨b, mem, own⟩ | slot
    · exact .inl drains
    · refine .inr (.inl ⟨b, ?_, own⟩)
      obtain ⟨j, there⟩ := List.mem_iff_getElem?.mp mem
      refine List.mem_eraseIdx_iff_getElem?.mpr ⟨j, ?_, there⟩
      rintro rfl
      obtain rfl := Option.some.inj (here.symm.trans there)
      exact other own.symm
    · exact .inr (.inr slot)
  unfold State.memberReady
  split
  · rename_i readied
    have published : Accounted ({ s with acquisitions := s.acquisitions.eraseIdx i }.publish
        a.member a.client a.key) := .publish ok.slotted others (pool readied) spent
    refine ⟨published.slotted, fun c on => published.accounted c ?_⟩
    obtain ⟨client, there, on⟩ := on
    obtain ⟨before, was, rfl⟩ :=
      Option.map_eq_some_iff.mp ((List.getElem?_modify ..).symm.trans there)
    refine ⟨before, was, ?_⟩
    split at on
    · exact on
    · exact on
  · have off : Accounted
      ({ s with acquisitions := s.acquisitions.eraseIdx i }.disconnect a.client) := by
      refine ⟨ok.slotted, fun c on => ?_⟩
      obtain ⟨on, other⟩ := (connected_disconnect a.client c).mp on
      exact others c other on
    refine off.edit_spent keepsPlace_blank ?_
    intro c holds on
    exact spent c holds ((connected_disconnect a.client c).mp on).1

theorem Accounted.runHalfOpenProbe (ok : Accounted s) (now m : ℕ)
    (pool : ∀ member, s.members[m]? = some member → member.circuitState = .open → InPool s m) :
    Accounted (s.runHalfOpenProbe env now m) := by
  unfold State.runHalfOpenProbe
  split
  · exact ok
  · rename_i member here
    split
    · exact ok
    · rename_i opened
      have inside : InPool s m := pool member here (not_not.mp opened)
      have promoted : Accounted (s.promoteToHalfOpen env now m) := ok.promoteToHalfOpen now m
      have slots : (s.promoteToHalfOpen env now m).slots = s.slots :=
        slots_foldl_disconnectSlot [m] _
      have pool' : InPool (s.promoteToHalfOpen env now m) m := by
        rw [InPool, slots]
        exact inside
      have blanked : (s.promoteToHalfOpen env now m).clientOf m = none := by
        refine (clientOf_edit_self ..).trans ?_
        cases ((s.edit m (transitionCircuit env now .halfOpen)).disconnectSlot m).members[m]? <;>
          rfl
      dsimp only
      have published : Accounted (((s.promoteToHalfOpen env now m).build m
          (getActiveTarget env (s.promoteToHalfOpen env now m).target) true).publish m
          (s.promoteToHalfOpen env now m).clients.length
          ((s.promoteToHalfOpen env now m).target.targetKey
            (getActiveTarget env (s.promoteToHalfOpen env now m).target))) := by
        refine .publish promoted.slotted (fun d other on => ?_) pool' fun c holds => ?_
        · rcases connected_append on with old | new
          · exact promoted.accounted d old
          · exact absurd new other
        · exact absurd (blanked.symm.trans holds) (fun h => by cases h)
      have counted := published.edit_same keepsPlace_countBuild (fun _ => rfl) m
      exact ⟨counted.slotted, counted.accounted⟩

/-- The events that lose no client: one that becomes ready finds no other client connected
in its slot, and is published, or built by a probe, in a slot that is still in its pool. -/
def PublishesFree (s : State) (e : ℕ × Event) : Prop :=
  match e.2 with
  | .memberReady i ready => ∀ a, s.acquisitions[i]? = some a →
    Spent s a.member ∧ (ready = true → InPool s a.member)
  | .probe m => ∀ member : PoolMember, s.members[m]? = some member → member.circuitState = .open →
    InPool s m
  | _ => True

theorem Accounted.step (ok : Accounted s) {e : ℕ × Event} (free : PublishesFree s e)
    (went : step env s e = some t) : Accounted t := by
  obtain ⟨returned, admitted⟩ := stepWith_of_step went
  clear went
  obtain ⟨now, e⟩ := e
  cases e with
  | acquire category size =>
    obtain ⟨rfl, _⟩ := Prod.mk.inj (Option.some.inj admitted)
    exact ok.acquireFromPool now category size
  | memberReady i ready =>
    obtain ⟨a, here, admitted⟩ := Option.bind_eq_some_iff.mp admitted
    rw [← (Prod.mk.inj (Option.some.inj admitted)).1]
    exact ok.memberReady here (free a here).1 (free a here).2
  | commitActiveTargetSync x creds =>
    obtain ⟨rfl, _⟩ := Prod.mk.inj (Option.some.inj admitted)
    exact ok.commitActiveTargetSync x creds
  | drainGrace c =>
    simp only [RedisPool.stepWith] at admitted
    split at admitted
    · obtain ⟨rfl, _⟩ := Prod.mk.inj (Option.some.inj admitted)
      refine ⟨ok.slotted, fun d on => ?_⟩
      obtain ⟨on, other⟩ := (connected_disconnect c d).mp on
      rcases ok.accounted d on with drains | rest
      · exact .inl ((List.mem_erase_of_ne other).mpr drains)
      · exact .inr rest
    · cases admitted
  | command c =>
    obtain ⟨client, _, admitted⟩ := Option.bind_eq_some_iff.mp admitted
    split at admitted
    · obtain ⟨rfl, _⟩ := Prod.mk.inj (Option.some.inj admitted)
      exact ⟨ok.slotted, ok.accounted⟩
    · cases admitted
  | settle i outcome =>
    obtain ⟨c, _, admitted⟩ := Option.bind_eq_some_iff.mp admitted
    obtain ⟨client, _, admitted⟩ := Option.bind_eq_some_iff.mp admitted
    obtain ⟨rfl, _⟩ := Prod.mk.inj (Option.some.inj admitted)
    have left : Accounted { s with commands := s.commands.eraseIdx i } := ⟨ok.slotted, ok.accounted⟩
    exact left.settleCommand now client.member c outcome
  | failFast i timeoutMs method =>
    obtain ⟨c, _, admitted⟩ := Option.bind_eq_some_iff.mp admitted
    obtain ⟨client, _, admitted⟩ := Option.bind_eq_some_iff.mp admitted
    obtain ⟨member, _, admitted⟩ := Option.bind_eq_some_iff.mp admitted
    obtain ⟨rfl, _⟩ := Prod.mk.inj (Option.some.inj admitted)
    have left : Accounted { s with commands := s.commands.eraseIdx i } := ⟨ok.slotted, ok.accounted⟩
    exact left.noteFailure now client.member c _
  | socketError c err =>
    obtain ⟨client, _, admitted⟩ := Option.bind_eq_some_iff.mp admitted
    obtain ⟨rfl, _⟩ := Prod.mk.inj (Option.some.inj admitted)
    split
    · exact ok.noteFailure now client.member c err
    · exact ok
  | probe m =>
    obtain ⟨member, here, admitted⟩ := Option.bind_eq_some_iff.mp admitted
    split at admitted
    · obtain ⟨rfl, _⟩ := Prod.mk.inj (Option.some.inj admitted)
      have idle := ok.edit_same keepsPlace_cancelScheduledProbe (fun _ => rfl) m
      refine idle.runHalfOpenProbe now m fun member' here' opened => ?_
      have same : (s.edit m cancelScheduledProbe).members[m]? =
          some (cancelScheduledProbe member) :=
        (List.getElem?_modify_eq ..).trans (congrArg (Option.map _) here)
      obtain rfl := Option.some.inj (same.symm.trans here')
      exact free member here opened
    · cases admitted

end Accounted

/-- Nobody waits for a client to be ready. -/
def Quiescent (s : State) : Prop := s.acquisitions = []

/-- The client is in exactly one slot of a pool. -/
def InOneSlot (s : State) (c : ℕ) : Prop :=
  ∃! place : Category × ℕ, ∃ m, (s.slots place.1)[place.2]? = some m ∧ s.clientOf m = some c

def ClientsAccounted (s : State) : Prop :=
  ∀ (c : ℕ) (client : Client), s.clients[c]? = some client →
    InOneSlot s c ∨ c ∈ s.drainingClients ∨ client.disconnected = true

theorem Accounted.inOneSlot (ok : Accounted s) (fitted : Fitted env s) {m c : ℕ}
    (pool : InPool s m) (holds : s.clientOf m = some c) : InOneSlot s c := by
  obtain ⟨category, mem⟩ := pool
  obtain ⟨i, here⟩ := List.mem_iff_getElem?.mp mem
  obtain ⟨member, there, own⟩ := ok.slotted category i m here
  refine ⟨(category, i), ⟨m, here, holds⟩, ?_⟩
  rintro ⟨category', i'⟩ ⟨m', here', holds'⟩
  have same : m' = m := by
    obtain ⟨x, hx, hc⟩ := Option.bind_eq_some_iff.mp holds
    obtain ⟨x', hx', hc'⟩ := Option.bind_eq_some_iff.mp holds'
    obtain ⟨client, hold, home, _⟩ := fitted.held m x c hx hc
    obtain ⟨client', hold', home', _⟩ := fitted.held m' x' c hx' hc'
    obtain rfl := Option.some.inj (hold.symm.trans hold')
    exact home'.symm.trans home
  subst same
  obtain ⟨member', there', own'⟩ := ok.slotted category' i' m' here'
  obtain rfl := Option.some.inj (there.symm.trans there')
  exact Prod.ext (own'.1.symm.trans own.1) (own'.2.symm.trans own.2)

theorem Accounted.clientsAccounted (ok : Accounted s) (fitted : Fitted env s)
    (quiet : Quiescent s) : ClientsAccounted s := by
  intro c client here
  cases off : client.disconnected with
  | true => exact .inr (.inr rfl)
  | false =>
    rcases ok.accounted c ⟨client, here, off⟩ with drains | ⟨a, mem, _⟩ | ⟨m, pool, holds⟩
    · exact .inr (.inl drains)
    · rw [quiet] at mem
      cases mem
    · exact .inl (ok.inOneSlot fitted pool holds)

theorem accounted_initial : Accounted .initial :=
  ⟨fun _ _ _ here => (by cases here), fun _ on => (by obtain ⟨_, here, _⟩ := on; cases here)⟩

/-- No client is lost in a run that publishes into free slots only, and a wrapper that is
returned belongs to a client for the target its acquisition found active, in any run. -/
theorem clients_accounted (env : Env) (events : List (ℕ × Event)) :
    ((∀ p ∈ taken (step env) .initial events, PublishesFree p.1 p.2) →
        ∀ s ∈ visited (step env) .initial events, Quiescent s → ClientsAccounted s) ∧
      ∀ p ∈ taken (step env) .initial events, WrapperFits env p.1 p.2 := by
  have fits : ∀ s e t, Fitted env s → True → step env s e = some t → Fitted env t := by
    intro s e t ok _ admitted
    obtain ⟨returned, went⟩ := stepWith_of_step admitted
    exact ok.stepWith went
  constructor
  · intro free s mem quiet
    have fitted : Fitted env s :=
      visited_of_taken fits (fitted_initial env) (fun _ _ => trivial) s mem
    have accounted : Accounted s :=
      visited_of_taken (fun _ _ _ ok here admitted =>
        ok.step here admitted) accounted_initial free s
        mem
    exact accounted.clientsAccounted fitted quiet
  · intro p mem
    have fitted : Fitted env p.1 :=
      taken_of_inv fits (fitted_initial env) (fun _ _ => trivial) p mem
    exact fitted.wrapperFits p.2

def demoEnv : Env := ⟨none, 3, 10000, 300000⟩

def demoTarget : ActiveTarget := ⟨"redis", 6379, false, 0, "demo", false⟩

/-- Two requests find the one slot of a pool empty, and both clients become ready. -/
def twoAcquisitions : List (ℕ × Event) :=
  [(0, .commitActiveTargetSync demoTarget none), (1, .acquire .light 1), (2, .acquire .light 1),
   (3, .memberReady 0 true), (4, .memberReady 0 true)]

/-- The first client is overwritten in the slot: it stays connected, and nobody will
disconnect it. -/
theorem second_publish_orphans :
    Quiescent (final (step demoEnv) .initial twoAcquisitions) ∧
      ¬ ClientsAccounted (final (step demoEnv) .initial twoAcquisitions) := by
  refine ⟨by unfold Quiescent; decide +kernel, fun all => ?_⟩
  obtain ⟨⟨category, i⟩, ⟨m, here, holds⟩, _⟩ | drains | off :=
    all 0 ⟨0, demoTarget, ⟨none, none⟩, ⟨"redis", 6379, false, 0, false, 1⟩, true, false⟩
      (by decide +kernel)
  · have slots : (final (step demoEnv) .initial twoAcquisitions).slots category ⊆ [0] := by
      cases category <;> decide +kernel
    obtain rfl := List.mem_singleton.mp (slots (List.mem_of_getElem? here))
    exact absurd holds (by decide +kernel)
  · exact absurd drains (by decide +kernel)
  · cases off

end PoolOwnership
