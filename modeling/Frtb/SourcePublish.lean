import Frtb.SourceWatcher

/-!
# Rows published by a source ingest

A run that resolves has had an answer for every row. It has published each row once, on
the target it started with, exactly when every `XADD` is applied once and while the
wrapper waits for it, at that target, and none is cut off after that.
-/

namespace SourcePublish

open EventRuns SourceWatcher

section Published
variable {job : Job} {s t : State}

def Phase.count : Phase → ℕ
  | .sending n | .first n _ | .repolling n | .retrying n | .second n _ | .resolved n => n
  | .idle | .reading | .failed => 0

/-- The attempt that the wrapper waits for. -/
def Phase.awaited : Phase → Option ℕ
  | .first _ a | .second _ a => some a
  | _ => none

/-- The run has not begun to send. -/
def Phase.fresh : Phase → Bool
  | .idle | .reading => true
  | _ => false

def Phase.ended : Phase → Option ℕ
  | .resolved n => some n
  | _ => none

/-- Whether the awaited command has taken effect. -/
def pending (s : State) : ℕ :=
  (((Phase.awaited s.phase).bind (s.attempts[·]?)).map fun a => a.applied.toNat).getD 0

/-- The rows that are settled, with the one whose command has taken effect. -/
def progress (s : State) : ℕ := Phase.count s.phase + pending s

/-- The entries are one a row, on the target that was current at the start. -/
def PublishedOnce (job : Job) (s : State) (n : ℕ) : Prop :=
  n = job.rows.length ∧ ∃ ms, job.messages = some ms ∧
    (s.streams.map fun e => (some e.1, e.2)).Perm
      (ms.map fun m => (s.start.map ActiveTargetFull.address, m))

/-- A command takes effect once, while the wrapper waits for it and at the target of the
start, and the wrapper does not send again what has taken effect. -/
def Settles (s : State) : Event → Prop
  | .apply a => Phase.awaited s.phase = some a ∧ ∀ attempt, s.attempts[a]? = some attempt →
      attempt.applied = false ∧
        some attempt.target.address = s.start.map ActiveTargetFull.address
  | .reject err => isTransientRedisError err = true → ∀ n a, s.phase = .first n a →
      ∀ attempt, s.attempts[a]? = some attempt → attempt.applied = false
  | _ => True

end Published

section Moves
variable {job : Job} {s t : State}

/-- What a step does to the run. -/
inductive Moves (job : Job) (s t : State) : Event → Prop
  /-- The watcher moves, and a forced poll may end. -/
  | rest {e : Event} (streams : t.streams = s.streams) (attempts : t.attempts = s.attempts)
      (start : t.start = s.start) (phase : t.phase = s.phase ∨ t.phase = resume s.phase) :
      Moves job s t e
  | failed {e : Event} (streams : t.streams = s.streams) (start : t.start = s.start)
      (phase : t.phase = .failed) : Moves job s t e
  | started (idle : s.phase = .idle) (streams : t.streams = s.streams)
      (attempts : t.attempts = s.attempts) (phase : t.phase = .reading) : Moves job s t .ingest
  | read {ms : List Message} (reading : s.phase = .reading) (messages : job.messages = some ms)
      (streams : t.streams = s.streams) (attempts : t.attempts = s.attempts)
      (start : t.start = s.start) (phase : t.phase = .sending 0) : Moves job s t .read
  | sent {n : ℕ} {m : Message} {x : ActiveTargetFull}
      (before : s.phase = .sending n ∨ s.phase = .retrying n)
      (row : (job.messages.getD [])[n]? = some m) (streams : t.streams = s.streams)
      (attempts : t.attempts = s.attempts ++ [⟨m, x, false⟩]) (start : t.start = s.start)
      (phase : t.phase = .first n s.attempts.length ∨ t.phase = .second n s.attempts.length) :
      Moves job s t .call
  | resolved {n : ℕ} (before : s.phase = .sending n) (last : (job.messages.getD [])[n]? = none)
      (streams : t.streams = s.streams) (attempts : t.attempts = s.attempts)
      (start : t.start = s.start) (phase : t.phase = .resolved n) : Moves job s t .call
  | applied {a : ℕ} {attempt : Attempt} (here : s.attempts[a]? = some attempt)
      (streams : t.streams = s.streams ++ [(attempt.target.address, attempt.message)])
      (attempts : t.attempts = s.attempts.set a { attempt with applied := true })
      (start : t.start = s.start) (phase : t.phase = s.phase) : Moves job s t (.apply a)
  | answered {n a : ℕ} {attempt : Attempt}
      (before : s.phase = .first n a ∨ s.phase = .second n a)
      (here : s.attempts[a]? = some attempt) (done : attempt.applied = true)
      (streams : t.streams = s.streams) (attempts : t.attempts = s.attempts)
      (start : t.start = s.start) (phase : t.phase = .sending (n + 1)) : Moves job s t .answer
  | cutOff {n a : ℕ} {err : RedisError} (before : s.phase = .first n a)
      (transient : isTransientRedisError err = true) (streams : t.streams = s.streams)
      (attempts : t.attempts = s.attempts) (start : t.start = s.start)
      (phase : t.phase = .repolling n) : Moves job s t (.reject err)

theorem moves_endPoll (i : ℕ) (p : Poll) (w : Watcher) (e : Event) :
    Moves job s ({ s with watcher := w }.endPoll i p) e := by
  refine .rest rfl rfl rfl ?_
  unfold State.endPoll
  dsimp only
  split
  · exact .inr rfl
  · exact .inl rfl

theorem moves_fetched (i : ℕ) (p : Poll) (x : Option ActiveTargetFull) (e : Event) :
    Moves job s (s.fetched i p x) e := by
  unfold State.fetched
  split
  · exact moves_endPoll i p s.watcher e
  · exact .rest rfl rfl rfl (.inl rfl)

theorem moves_of_call (went : s.call job = some t) : Moves job s t .call := by
  unfold State.call at went
  split at went
  · rename_i n here
    split at went
    · rename_i last
      cases went
      exact .resolved here last rfl rfl rfl rfl
    · rename_i m row
      split at went
      · have plain : isTransientRedisError notStartedError = false := by decide +kernel
        obtain rfl : s.caught n notStartedError = t := Option.some.inj went
        unfold State.caught
        rw [plain]
        exact .failed rfl rfl rfl
      · cases went
        exact .sent (.inl here) row rfl rfl rfl (.inl rfl)
  · rename_i n here
    obtain ⟨m, row, went⟩ := Option.bind_eq_some_iff.mp went
    split at went
    · cases went
      exact .failed rfl rfl rfl
    · cases went
      exact .sent (.inr here) row rfl rfl rfl (.inr rfl)
  · cases went

theorem moves_of_answer (went : s.answer = some t) : Moves job s t .answer := by
  unfold State.answer at went
  split at went
  · rename_i n a here
    obtain ⟨attempt, there, went⟩ := Option.bind_eq_some_iff.mp went
    split at went
    · rename_i done
      cases went
      exact .answered (.inl here) there done rfl rfl rfl rfl
    · cases went
  · rename_i n a here
    obtain ⟨attempt, there, went⟩ := Option.bind_eq_some_iff.mp went
    split at went
    · rename_i done
      cases went
      exact .answered (.inr here) there done rfl rfl rfl rfl
    · cases went
  · cases went

theorem moves_of_reject {err : RedisError} (went : s.reject err = some t) :
    Moves job s t (.reject err) := by
  unfold State.reject at went
  split at went
  · rename_i n a here
    cases went
    unfold State.caught
    split
    · rename_i transient
      exact .cutOff here transient rfl rfl rfl rfl
    · exact .failed rfl rfl rfl
  · cases went
    exact .failed rfl rfl rfl
  · cases went

theorem moves_of_step {e : Event} (went : step job s e = some t) : Moves job s t e := by
  cases e with
  | poll =>
    cases went
    exact .rest rfl rfl rfl (.inl rfl)
  | fetched i x =>
    obtain ⟨p, here, went⟩ := Option.bind_eq_some_iff.mp went
    split at went
    · cases went
      exact moves_fetched i p x _
    · cases went
  | pinged i reachable =>
    obtain ⟨p, here, went⟩ := Option.bind_eq_some_iff.mp went
    split at went
    · cases went
    · cases went
      exact moves_endPoll i p _ _
  | started =>
    simp only [step] at went
    split at went
    · cases went
      exact .rest rfl rfl rfl (.inl rfl)
    · cases went
  | fallback =>
    simp only [step] at went
    split at went
    · split at went
      · cases went
        exact .rest rfl rfl rfl (.inl rfl)
      · cases went
        exact .rest rfl rfl rfl (.inl rfl)
    · cases went
  | stop =>
    cases went
    exact .rest rfl rfl rfl (.inl rfl)
  | ingest =>
    simp only [step] at went
    split at went
    · rename_i idle
      cases went
      exact .started idle rfl rfl rfl
    · cases went
  | read =>
    simp only [step] at went
    split at went
    · rename_i reading
      cases went
      cases rows : job.messages with
      | none => exact .failed rfl rfl rfl
      | some ms => exact .read reading rows rfl rfl rfl rfl
    · cases went
  | call => exact moves_of_call went
  | apply a =>
    obtain ⟨attempt, here, went⟩ := Option.bind_eq_some_iff.mp went
    cases went
    exact .applied here rfl rfl rfl rfl
  | answer => exact moves_of_answer went
  | reject err => exact moves_of_reject went

end Moves

section Invariant
variable {job : Job} {s t : State} {e : Event}

structure Base (job : Job) (s : State) : Prop where
  fresh : Phase.fresh s.phase = true → s.streams = [] ∧ s.attempts = []
  routed : Phase.fresh s.phase = false → s.phase ≠ .failed → job.messages.isSome = true
  awaits : ∀ a, Phase.awaited s.phase = some a → ∃ attempt, s.attempts[a]? = some attempt ∧
    (job.messages.getD [])[Phase.count s.phase]? = some attempt.message
  bound : Phase.count s.phase ≤ (job.messages.getD []).length
  ended : ∀ n, Phase.ended s.phase = some n → n = (job.messages.getD []).length
  counted : progress s ≤ s.streams.length

/-- A phase that a forced poll has let go on is at the same place of the run. -/
structure Alike (p q : Phase) : Prop where
  fresh : Phase.fresh q = Phase.fresh p
  count : Phase.count q = Phase.count p
  awaited : Phase.awaited q = Phase.awaited p
  ended : Phase.ended q = Phase.ended p
  failed : q = .failed ↔ p = .failed

theorem alike_of_rest {p q : Phase} (phase : q = p ∨ q = resume p) : Alike p q := by
  rcases phase with rfl | rfl
  · exact ⟨rfl, rfl, rfl, rfl, Iff.rfl⟩
  · cases p <;> exact ⟨rfl, rfl, rfl, rfl, by simp only [resume, reduceCtorEq]⟩

theorem pending_of_none (none_awaited : Phase.awaited s.phase = none) : pending s = 0 := by
  unfold pending
  rw [none_awaited]
  rfl

theorem pending_of_awaited {a : ℕ} {attempt : Attempt} (awaited : Phase.awaited s.phase = some a)
    (here : s.attempts[a]? = some attempt) : pending s = attempt.applied.toNat := by
  unfold pending
  rw [awaited, Option.bind_some, here]
  rfl

theorem pending_congr (attempts : t.attempts = s.attempts)
    (awaited : Phase.awaited t.phase = Phase.awaited s.phase) : pending t = pending s := by
  unfold pending
  rw [attempts, awaited]

theorem pending_le_one (s : State) : pending s ≤ 1 := by
  unfold pending
  cases (Phase.awaited s.phase).bind (s.attempts[·]?) with
  | none => exact Nat.zero_le 1
  | some attempt => exact Bool.toNat_le attempt.applied

theorem Base.of_alike (base : Base job s) (streams : t.streams = s.streams)
    (attempts : t.attempts = s.attempts) (alike : Alike s.phase t.phase) : Base job t where
  fresh := by
    rw [alike.fresh, streams, attempts]
    exact base.fresh
  routed fresh alive :=
    base.routed (alike.fresh ▸ fresh) fun failed => alive (alike.failed.mpr failed)
  awaits := by
    rw [alike.awaited, alike.count, attempts]
    exact base.awaits
  bound := by
    rw [alike.count]
    exact base.bound
  ended := by
    rw [alike.ended]
    exact base.ended
  counted := by
    unfold progress
    rw [alike.count, pending_congr attempts alike.awaited, streams]
    exact base.counted

/-- The run goes on to a phase in which no command is awaited. -/
theorem Base.idle_at {p : Phase} (phase : t.phase = p) (none_awaited : Phase.awaited p = none)
    (fresh : Phase.fresh p = true → t.streams = [] ∧ t.attempts = [])
    (routed : Phase.fresh p = false → p ≠ .failed → job.messages.isSome = true)
    (bound : Phase.count p ≤ (job.messages.getD []).length)
    (ended : ∀ n, Phase.ended p = some n → n = (job.messages.getD []).length)
    (counted : Phase.count p ≤ t.streams.length) : Base job t := by
  subst phase
  refine ⟨fresh, routed, fun a awaited => ?_, bound, ended, ?_⟩
  · rw [none_awaited] at awaited
    cases awaited
  · unfold progress
    rw [pending_of_none none_awaited]
    exact counted

theorem Base.moves (base : Base job s) (moves : Moves job s t e) : Base job t := by
  cases moves with
  | rest streams attempts start phase => exact base.of_alike streams attempts (alike_of_rest phase)
  | failed streams start phase =>
    exact .idle_at phase rfl nofun (fun _ alive => absurd rfl alive) (Nat.zero_le _) nofun
      (Nat.zero_le _)
  | started idle streams attempts phase =>
    have empty := base.fresh (by rw [idle]; rfl)
    exact .idle_at phase rfl (fun _ => by rw [streams, attempts]; exact empty) nofun (Nat.zero_le _)
      nofun (Nat.zero_le _)
  | read reading messages streams attempts start phase =>
    exact .idle_at phase rfl nofun (fun _ _ => by rw [messages]; rfl) (Nat.zero_le _) nofun
      (Nat.zero_le _)
  | @sent n m x before row streams attempts start phase =>
    obtain ⟨count, fresh, alive⟩ : Phase.count s.phase = n ∧ Phase.fresh s.phase = false ∧
        s.phase ≠ .failed := by
      rcases before with here | here <;> rw [here] <;> exact ⟨rfl, rfl, nofun⟩
    obtain ⟨count', fresh', awaited, ended⟩ : Phase.count t.phase = n ∧
        Phase.fresh t.phase = false ∧ Phase.awaited t.phase = some s.attempts.length ∧
          Phase.ended t.phase = none := by
      rcases phase with here | here <;> rw [here] <;> exact ⟨rfl, rfl, rfl, rfl⟩
    have last : t.attempts[s.attempts.length]? = some ⟨m, x, false⟩ := by
      rw [attempts, List.getElem?_append_right le_rfl, Nat.sub_self]
      rfl
    refine ⟨fun new => ?_, fun _ _ => base.routed fresh alive, fun a own => ?_, ?_, fun k own => ?_,
      ?_⟩
    · rw [fresh'] at new
      cases new
    · obtain rfl := Option.some.inj (awaited.symm.trans own)
      exact ⟨_, last, by rw [count']; exact row⟩
    · rw [count', ← count]
      exact base.bound
    · rw [ended] at own
      cases own
    · have before := base.counted
      unfold progress at before ⊢
      rw [pending_of_awaited awaited last, count', streams, ← count]
      exact (Nat.le_add_right _ _).trans before
  | @resolved n before last streams attempts start phase =>
    have routed := base.routed (by rw [before]; rfl) (by rw [before]; nofun)
    have bound := base.bound
    have counted := (Nat.le_add_right _ _).trans base.counted
    rw [before] at bound counted
    refine .idle_at phase rfl nofun (fun _ _ => routed) bound ?_ (streams ▸ counted)
    intro k own
    obtain rfl : n = k := Option.some.inj own
    exact le_antisymm bound (List.getElem?_eq_none_iff.mp last)
  | @applied a attempt here streams attempts start phase =>
    have inside := (List.getElem?_eq_some_iff.mp here).1
    refine ⟨fun fresh => ?_, ?_, fun b own => ?_, ?_, ?_, ?_⟩
    · rw [phase] at fresh
      rw [(base.fresh fresh).2] at inside
      cases inside
    · rw [phase]
      exact base.routed
    · rw [phase] at own ⊢
      obtain ⟨attempt', there, row⟩ := base.awaits b own
      rw [attempts, List.getElem?_set]
      split
      · rename_i same
        subst same
        obtain rfl := Option.some.inj (here.symm.trans there)
        exact ⟨_, rfl, row⟩
      · exact ⟨attempt', there, row⟩
    · rw [phase]
      exact base.bound
    · rw [phase]
      exact base.ended
    · have before := base.counted
      unfold progress at before ⊢
      have one := pending_le_one t
      rw [streams, List.length_append, List.length_singleton, phase]
      omega
  | @answered n a attempt before here done streams attempts start phase =>
    obtain ⟨count, awaited, fresh, alive⟩ : Phase.count s.phase = n ∧
        Phase.awaited s.phase = some a ∧ Phase.fresh s.phase = false ∧ s.phase ≠ .failed := by
      rcases before with at_ | at_ <;> rw [at_] <;> exact ⟨rfl, rfl, rfl, nofun⟩
    obtain ⟨_, _, row⟩ := base.awaits a awaited
    have inside := (List.getElem?_eq_some_iff.mp row).1
    have counted := base.counted
    unfold progress at counted
    rw [pending_of_awaited awaited here, done, count] at counted
    rw [count] at inside
    exact .idle_at phase rfl nofun (fun _ _ => base.routed fresh alive) inside nofun
      (streams ▸ counted)
  | @cutOff n a err before transient streams attempts start phase =>
    have bound := base.bound
    have counted := (Nat.le_add_right _ _).trans base.counted
    have routed := base.routed (by rw [before]; rfl) (by rw [before]; nofun)
    rw [before] at bound counted
    exact .idle_at phase rfl nofun (fun _ _ => routed) bound nofun (streams ▸ counted)

end Invariant

section Runs
variable {job : Job} {s t : State} {e : Event}

def target (s : State) : Option Address := s.start.map ActiveTargetFull.address

theorem progress_of_phase {p : Phase} (phase : s.phase = p)
    (none_awaited : Phase.awaited p = none) :
    progress s = Phase.count p := by
  unfold progress
  rw [pending_of_none (by rw [phase]; exact none_awaited), phase, Nat.add_zero]

theorem progress_of_awaited {a : ℕ} {attempt : Attempt} (awaited : Phase.awaited s.phase = some a)
    (here : s.attempts[a]? = some attempt) :
    progress s = Phase.count s.phase + attempt.applied.toNat := by
  unfold progress
  rw [pending_of_awaited awaited here]

theorem progress_of_alike (attempts : t.attempts = s.attempts) (alike : Alike s.phase t.phase) :
    progress t = progress s := by
  unfold progress
  rw [alike.count, pending_congr attempts alike.awaited]

/-- The command that is sent has not taken effect yet. -/
theorem progress_of_sent {n : ℕ} {m : Message} {x : ActiveTargetFull}
    (before : s.phase = .sending n ∨ s.phase = .retrying n)
    (attempts : t.attempts = s.attempts ++ [⟨m, x, false⟩])
    (phase : t.phase = .first n s.attempts.length ∨ t.phase = .second n s.attempts.length) :
    progress t = progress s := by
  have last : t.attempts[s.attempts.length]? = some ⟨m, x, false⟩ := by
    rw [attempts, List.getElem?_append_right le_rfl, Nat.sub_self]
    rfl
  have found : progress s = n := by
    rcases before with here | here <;> exact progress_of_phase here rfl
  obtain ⟨count, awaited⟩ : Phase.count t.phase = n ∧
      Phase.awaited t.phase = some s.attempts.length := by
    rcases phase with here | here <;> rw [here] <;> exact ⟨rfl, rfl⟩
  rw [progress_of_awaited awaited last, count, found]
  rfl

theorem progress_of_answered {n a : ℕ} {attempt : Attempt}
    (before : s.phase = .first n a ∨ s.phase = .second n a)
    (here : s.attempts[a]? = some attempt) (done : attempt.applied = true)
    (phase : t.phase = .sending (n + 1)) : progress t = progress s := by
  obtain ⟨count, awaited⟩ : Phase.count s.phase = n ∧ Phase.awaited s.phase = some a := by
    rcases before with at_ | at_ <;> rw [at_] <;> exact ⟨rfl, rfl⟩
  rw [progress_of_phase phase rfl, progress_of_awaited awaited here, count, done]
  rfl

/-- So far the entries are one a settled row, in the order of the file. -/
structure Inv (job : Job) (s : State) : Prop where
  base : Base job s
  entries : s.phase ≠ .failed → s.streams.map (fun e => (some e.1, e.2)) =
    ((job.messages.getD []).take (progress s)).map fun m => (target s, m)

theorem base_initial (job : Job) : Base job .initial where
  fresh _ := ⟨rfl, rfl⟩
  routed := nofun
  awaits := nofun
  bound := Nat.zero_le _
  ended := nofun
  counted := le_rfl

theorem inv_initial (job : Job) : Inv job .initial := ⟨base_initial job, fun _ => rfl⟩

/-- The entries and the progress stay. -/
theorem Inv.same (inv : Inv job s) (base : Base job t) (alive : s.phase ≠ .failed)
    (streams : t.streams = s.streams) (start : t.start = s.start)
    (progresses : progress t = progress s) : Inv job t := by
  refine ⟨base, fun _ => ?_⟩
  rw [streams, progresses, inv.entries alive]
  unfold target
  rw [start]

/-- Nothing has been sent. -/
theorem Inv.empty (base : Base job t) (streams : t.streams = []) (none_sent : progress t = 0) :
    Inv job t := by
  refine ⟨base, fun _ => ?_⟩
  rw [streams, none_sent]
  rfl

theorem Inv.moves (inv : Inv job s) (settles : Settles s e) (moves : Moves job s t e) :
    Inv job t := by
  have base := inv.base.moves moves
  cases moves with
  | rest streams attempts start phase =>
    have alike := alike_of_rest phase
    by_cases failed : s.phase = .failed
    · exact ⟨base, fun alive => absurd (alike.failed.mpr failed) alive⟩
    · exact inv.same base failed streams start (progress_of_alike attempts alike)
  | failed streams start phase => exact ⟨base, fun alive => absurd phase alive⟩
  | started idle streams attempts phase =>
    have empty := inv.base.fresh (by rw [idle]; rfl)
    exact .empty base (streams.trans empty.1) (progress_of_phase phase rfl)
  | read reading messages streams attempts start phase =>
    have empty := inv.base.fresh (by rw [reading]; rfl)
    exact .empty base (streams.trans empty.1) (progress_of_phase phase rfl)
  | sent before row streams attempts start phase =>
    have alive : s.phase ≠ .failed := by
      rcases before with here | here <;> rw [here] <;> nofun
    exact inv.same base alive streams start (progress_of_sent before attempts phase)
  | resolved before last streams attempts start phase =>
    have found := progress_of_phase before rfl
    exact inv.same base (by rw [before]; nofun) streams start
      ((progress_of_phase phase rfl).trans found.symm)
  | @applied a attempt here streams attempts start phase =>
    obtain ⟨awaited, once⟩ := settles
    obtain ⟨fresh, own⟩ := once attempt here
    have there : t.attempts[a]? = some { attempt with applied := true } := by
      rw [attempts, List.getElem?_set_self (List.getElem?_eq_some_iff.mp here).1]
    obtain ⟨attempt', here', row⟩ := inv.base.awaits a awaited
    obtain rfl := Option.some.inj (here'.symm.trans here)
    have before : progress s = Phase.count s.phase := by
      rw [progress_of_awaited awaited here, fresh]
      rfl
    have after : progress t = Phase.count s.phase + 1 := by
      rw [progress_of_awaited (phase ▸ awaited) there, phase]
      rfl
    have alive : s.phase ≠ .failed := by
      intro failed
      rw [failed] at awaited
      cases awaited
    have same : target t = target s := by
      unfold target
      rw [start]
    refine ⟨base, fun _ => ?_⟩
    rw [streams, List.map_append, inv.entries alive, after, before, List.take_add_one, row, same,
      List.map_append]
    refine congrArg _ (congrArg (fun x => [(x, attempt'.message)]) ?_)
    exact own
  | answered before here done streams attempts start phase =>
    have alive : s.phase ≠ .failed := by
      rcases before with at_ | at_ <;> rw [at_] <;> nofun
    exact inv.same base alive streams start (progress_of_answered before here done phase)
  | @cutOff n a err before transient streams attempts start phase =>
    obtain ⟨attempt, here, _⟩ := inv.base.awaits a (by rw [before]; rfl)
    have unapplied : attempt.applied = false := settles transient n a before attempt here
    have found : progress s = n := by
      rw [progress_of_awaited (by rw [before]; rfl) here, unapplied, before]
      rfl
    exact inv.same base (by rw [before]; nofun) streams start
      ((progress_of_phase phase rfl).trans found.symm)

/-- More entries than rows that are settled, or an entry on another target. -/
def Spoiled (s : State) : Prop :=
  progress s < s.streams.length ∨ ∃ entry ∈ s.streams, some entry.1 ≠ target s

theorem Spoiled.later (spoiled : Spoiled s) (streams : t.streams = s.streams)
    (start : t.start = s.start) (progresses : progress t ≤ progress s) : Spoiled t := by
  unfold Spoiled target
  rw [streams, start]
  exact spoiled.imp_left progresses.trans_lt

theorem not_spoiled_of_fresh (base : Base job s) (fresh : Phase.fresh s.phase = true) :
    ¬ Spoiled s := by
  unfold Spoiled
  rw [(base.fresh fresh).1]
  rintro (more | ⟨_, mem, _⟩)
  · exact Nat.not_lt_zero _ more
  · cases mem

theorem Spoiled.moves (spoiled : Spoiled s) (base : Base job s) (moves : Moves job s t e) :
    Spoiled t := by
  cases moves with
  | rest streams attempts start phase =>
    exact spoiled.later streams start (progress_of_alike attempts (alike_of_rest phase)).le
  | failed streams start phase =>
    exact spoiled.later streams start ((progress_of_phase phase rfl).trans_le (Nat.zero_le _))
  | started idle streams attempts phase =>
    exact absurd spoiled (not_spoiled_of_fresh base (by rw [idle]; rfl))
  | read reading messages streams attempts start phase =>
    exact absurd spoiled (not_spoiled_of_fresh base (by rw [reading]; rfl))
  | sent before row streams attempts start phase =>
    exact spoiled.later streams start (progress_of_sent before attempts phase).le
  | resolved before last streams attempts start phase =>
    exact spoiled.later streams start
      ((progress_of_phase phase rfl).trans (progress_of_phase before rfl).symm).le
  | applied here streams attempts start phase =>
    have one := pending_le_one t
    unfold Spoiled target progress at spoiled ⊢
    rw [streams, List.length_append, List.length_singleton, start, phase]
    rcases spoiled with more | ⟨entry, mem, wrong⟩
    · left
      omega
    · exact .inr ⟨entry, List.mem_append_left _ mem, wrong⟩
  | answered before here done streams attempts start phase =>
    exact spoiled.later streams start (progress_of_answered before here done phase).le
  | cutOff before transient streams attempts start phase =>
    refine spoiled.later streams start ?_
    rw [progress_of_phase phase rfl]
    unfold progress
    rw [before]
    exact Nat.le_add_right _ _

theorem spoiled_of_apply {a : ℕ} (base : Base job s) (went : step job s (.apply a) = some t)
    (unsettled : ¬ Settles s (.apply a)) : Spoiled t := by
  obtain ⟨attempt, here, went⟩ := Option.bind_eq_some_iff.mp went
  obtain ⟨streams, attempts, start, phase⟩ :
      t.streams = s.streams ++ [(attempt.target.address, attempt.message)] ∧
        t.attempts = s.attempts.set a { attempt with applied := true } ∧
          t.start = s.start ∧ t.phase = s.phase := by
    rw [← Option.some.inj went]
    exact ⟨rfl, rfl, rfl, rfl⟩
  have inside := (List.getElem?_eq_some_iff.mp here).1
  by_cases own : some attempt.target.address = target s
  · -- a command that is not awaited any more, or one that has taken effect already
    have stays : progress t = progress s := by
      cases awaited : Phase.awaited s.phase with
      | none => rw [progress_of_phase phase awaited, progress_of_phase rfl awaited]
      | some b =>
        have awaited' : Phase.awaited t.phase = some b := by
          rw [phase]
          exact awaited
        obtain ⟨attempt', there, _⟩ := base.awaits b awaited
        by_cases same : b = a
        · subst same
          obtain rfl := Option.some.inj (here.symm.trans there)
          have again : attempt.applied = true := by
            by_contra once
            refine unsettled ⟨awaited, fun attempt' here' => ?_⟩
            obtain rfl := Option.some.inj (here.symm.trans here')
            exact ⟨eq_false_of_ne_true once, own⟩
          have there' : t.attempts[b]? = some { attempt with applied := true } := by
            rw [attempts, List.getElem?_set_self inside]
          rw [progress_of_awaited awaited' there', progress_of_awaited awaited here, again, phase]
        · have there' : t.attempts[b]? = some attempt' := by
            rw [attempts, List.getElem?_set_ne (Ne.symm same)]
            exact there
          rw [progress_of_awaited awaited' there', progress_of_awaited awaited there, phase]
    refine .inl ?_
    rw [stays, streams, List.length_append, List.length_singleton]
    exact Nat.lt_succ_of_le base.counted
  · refine .inr ⟨(attempt.target.address, attempt.message), ?_, ?_⟩
    · rw [streams]
      exact List.mem_append_right _ List.mem_cons_self
    · unfold target
      rw [start]
      exact own

theorem spoiled_of_reject {err : RedisError} (base : Base job s)
    (went : step job s (.reject err) = some t) (unsettled : ¬ Settles s (.reject err)) :
    Spoiled t := by
  simp only [Settles, not_forall] at unsettled
  obtain ⟨transient, n, a, before, attempt, here, applied⟩ := unsettled
  have counted := base.counted
  rw [progress_of_awaited (by rw [before]; rfl) here, eq_true_of_ne_false applied,
    before] at counted
  have caught : s.reject err = some (s.caught n err) := by
    unfold State.reject
    rw [before]
  obtain rfl := Option.some.inj (caught.symm.trans went)
  refine .inl ?_
  have phase : (s.caught n err).phase = .repolling n ∧ (s.caught n err).streams = s.streams := by
    unfold State.caught
    rw [if_pos transient]
    exact ⟨rfl, rfl⟩
  rw [progress_of_phase phase.1 rfl, phase.2]
  exact counted

theorem spoiled_of_unsettled (base : Base job s) (went : step job s e = some t)
    (unsettled : ¬ Settles s e) : Spoiled t := by
  cases e with
  | apply a => exact spoiled_of_apply base went unsettled
  | reject err => exact spoiled_of_reject base went unsettled
  | _ => exact absurd trivial unsettled

theorem length_messages {ms : List Message} (messages : job.messages = some ms) :
    ms.length = job.rows.length := by
  obtain ⟨route, _, rfl⟩ := Option.map_eq_some_iff.mp messages
  exact List.length_map _

theorem not_spoiled_of_published {n : ℕ} (phase : s.phase = .resolved n)
    (published : PublishedOnce job s n) : ¬ Spoiled s := by
  obtain ⟨count, ms, messages, perm⟩ := published
  rintro (more | ⟨entry, mem, wrong⟩)
  · have length := perm.length_eq
    rw [List.length_map, List.length_map, length_messages messages, ← count] at length
    rw [progress_of_phase phase rfl, length] at more
    exact lt_irrefl _ more
  · have listed := perm.mem_iff.mp (List.mem_map_of_mem (f := fun e => (some e.1, e.2)) mem)
    obtain ⟨m, _, same⟩ := List.mem_map.mp listed
    exact wrong (congrArg Prod.fst same).symm

theorem published_of_inv {n : ℕ} (inv : Inv job s) (phase : s.phase = .resolved n) :
    PublishedOnce job s n := by
  obtain ⟨ms, messages⟩ := Option.isSome_iff_exists.mp
    (inv.base.routed (by rw [phase]; rfl) (by rw [phase]; nofun))
  have last := inv.base.ended n (by rw [phase]; rfl)
  have entries := inv.entries (by rw [phase]; nofun)
  rw [messages] at last entries
  rw [progress_of_phase phase rfl] at entries
  refine ⟨last.trans (length_messages messages), ms, messages, ?_⟩
  rw [entries]
  have all : Phase.count (.resolved n) = ms.length := last
  rw [Option.getD_some, all, List.take_length]
  exact .refl _

/-- A run that resolves has published each row once, on the target it started with, exactly
when each step of it settles. -/
theorem published_once_iff (job : Job) (events : List Event) (n : ℕ)
    (resolved : (final (step job) State.initial events).phase = .resolved n) :
    PublishedOnce job (final (step job) State.initial events) n ↔
      ∀ p ∈ taken (step job) State.initial events, Settles p.1 p.2 := by
  have based : ∀ p ∈ taken (step job) State.initial events, Base job p.1 :=
    @taken_of_inv _ _ (step job) (Base job) (fun _ _ => True)
      (fun _ _ _ base _ went => base.moves (moves_of_step went)) .initial (base_initial job) events
      fun _ _ => trivial
  constructor
  · intro published p mem
    by_contra unsettled
    obtain ⟨t, rest, went, last, _, _⟩ := taken_suffix mem
    have spoiled : Base job t ∧ Spoiled t :=
      ⟨(based p mem).moves (moves_of_step went), spoiled_of_unsettled (based p mem) went unsettled⟩
    have stays := @visited_of_taken _ _ (step job) (fun s => Base job s ∧ Spoiled s)
      (fun _ _ => True) (fun _ _ _ both _ went =>
        ⟨both.1.moves (moves_of_step went), both.2.moves both.1 (moves_of_step went)⟩)
      t spoiled rest (fun _ _ => trivial) _ (final_mem_visited t rest)
    rw [last] at stays
    exact not_spoiled_of_published resolved published stays.2
  · intro settles
    have inv := @visited_of_taken _ _ (step job) (Inv job) Settles
      (fun _ _ _ inv settles went => inv.moves settles (moves_of_step went))
      .initial (inv_initial job) events settles _ (final_mem_visited State.initial events)
    exact published_of_inv inv resolved

def demoTarget (host : String) (version : ℤ) : ActiveTargetFull where
  host := host
  port := 6379
  tls := false
  db := 0
  label := host
  clusterMode := false
  password := none
  version := version

/-- A file of one column with a row for each book. -/
def demoJob (books : List String) : Job where
  shards := .shards 1
  mapping := AssocMaps.ofPairs [("book", ⟨.one "book", none⟩)]
  rows := books.map fun book => AssocMaps.ofPairs [("book", book)]
  fallbackUrl := none

/-- The watcher finds the target, a run starts, and its first command is applied. -/
def firstRow : List Event :=
  [.poll, .fetched 0 (some (demoTarget "blue" 1)), .pinged 0 true, .ingest, .read, .call, .apply 0]

/-- The answer is lost. The wrapper polls, finds the same target, and sends the row again. -/
def cutOffRow : List Event :=
  firstRow ++ [Event.reject (timeoutError "XADD"), .fetched 0 (some (demoTarget "blue" 1)), .call,
    .apply 1, .answer, .call]

/-- A poll finds another target between two rows. -/
def switchedRow : List Event :=
  firstRow ++ [Event.answer, .poll, .fetched 0 (some (demoTarget "green" 2)), .pinged 0 true, .call,
    .apply 1, .answer, .call]

/-- A poll finds the same target between two rows. -/
def polledRows : List Event :=
  firstRow ++ [Event.answer, .poll, .fetched 0 (some (demoTarget "blue" 1)), .call, .apply 1,
    .answer, .call]

theorem published_once_settles :
    (final (step (demoJob ["rates", "credit"])) State.initial polledRows).phase = .resolved 2 ∧
      ∀ p ∈ taken (step (demoJob ["rates", "credit"])) State.initial polledRows,
        Settles p.1 p.2 :=
  ⟨by decide +kernel,
    (published_once_iff (demoJob ["rates", "credit"]) polledRows 2
      (by decide +kernel)).mp ⟨rfl, _, rfl, by decide +kernel⟩⟩

/-- One row becomes two entries; two rows are split over two targets. -/
theorem rows_doubled_and_split :
    ((final (step (demoJob ["rates"])) State.initial cutOffRow).phase = .resolved 1 ∧
      (final (step (demoJob ["rates"])) State.initial cutOffRow).streams.length = 2 ∧
      ¬ PublishedOnce (demoJob ["rates"])
        (final (step (demoJob ["rates"])) State.initial cutOffRow) 1) ∧
    (final (step (demoJob ["rates", "credit"])) State.initial switchedRow).phase = .resolved 2 ∧
      (final (step (demoJob ["rates", "credit"])) State.initial switchedRow).streams.map
        (fun e => e.1.1) = ["blue", "green"] ∧
      ¬ PublishedOnce (demoJob ["rates", "credit"])
        (final (step (demoJob ["rates", "credit"])) State.initial switchedRow) 2 := by
  refine ⟨⟨by decide +kernel, by decide +kernel, ?_⟩, by decide +kernel, by decide +kernel, ?_⟩
  · rintro ⟨_, ms, messages, perm⟩
    have length := perm.length_eq
    rw [List.length_map, List.length_map, length_messages messages] at length
    revert length
    decide +kernel
  · rintro ⟨_, ms, messages, perm⟩
    have elsewhere : some ("green", 6379, 0) ∈ ((final (step (demoJob ["rates", "credit"]))
        State.initial switchedRow).streams.map fun e => (some e.1, e.2)).map Prod.fst := by
      decide +kernel
    rw [(perm.map Prod.fst).mem_iff, List.map_map] at elsewhere
    obtain ⟨m, _, same⟩ := List.mem_map.mp elsewhere
    have started : target (final (step (demoJob ["rates", "credit"])) State.initial switchedRow) =
        some ("green", 6379, 0) := same
    revert started
    decide +kernel

end Runs

end SourcePublish
