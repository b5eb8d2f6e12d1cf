import Frtb.Library.EventRuns

/-!
# The bootstrap status and its writers

Four paths run a bootstrap: the boot of the process, the debounced scheduler, the flush and
the rebuild of the admin routes. All publish their progress in one snapshot, and the boot and
the scheduler flip the flag behind `/readyz` with it. Only the scheduler looks at the
generation counter before it publishes. Times are left out of the snapshot. A schema is
loaded; without one no path starts an attempt.
-/

namespace BootstrapTracker

open EventRuns

inductive BootstrapPhase
  | idle
  | running
  | ready
  | partially
  | failed
  deriving DecidableEq, Repr

/-- A step that a node refused. -/
structure BootstrapFailure where
  step : String
  nodeId : String
  deriving DecidableEq, Repr

structure BootstrapStatusSnapshot where
  phase : BootstrapPhase
  targetLabel : Option String
  err : Option String
  failures : List BootstrapFailure
  deriving DecidableEq, Repr

/-- How a run of `bootstrapFrtb` ends for its caller; a timeout is a failure. -/
inductive Outcome
  | ready
  | partially (failures : List BootstrapFailure)
  | failed (err : String)
  deriving DecidableEq, Repr

def runningSnapshot (targetLabel : String) : BootstrapStatusSnapshot :=
  ⟨.running, some targetLabel, none, []⟩

def partialSummary (failures : List BootstrapFailure) : String :=
  "bootstrap partial: " ++ toString failures.length ++ " per-node step(s) failed: " ++
    ", ".intercalate (failures.map fun f => f.step ++ "@" ++ f.nodeId)

/-- `markBootstrapStatusReady`, `markBootstrapStatusPartial` and `markBootstrapStatusFailed`. -/
def markBootstrapStatus (targetLabel : String) : Outcome → BootstrapStatusSnapshot
  | .ready => ⟨.ready, some targetLabel, none, []⟩
  | .partially failures => ⟨.partially, some targetLabel, some (partialSummary failures), failures⟩
  | .failed err => ⟨.failed, some targetLabel, some err, []⟩

def isReady : Outcome → Bool
  | .ready => true
  | _ => false

theorem markBootstrapStatus_ready {targetLabel : String} {o : Outcome} :
    (markBootstrapStatus targetLabel o).phase = .ready ↔ isReady o = true := by
  cases o <;> simp [markBootstrapStatus, isReady]

inductive AttemptKind
  | boot
  | flush
  | rebuild
  | scheduled (generation : Nat)
  deriving DecidableEq, Repr

/-- A started run of `bootstrapFrtb`; one that is still running has no outcome. -/
structure Attempt where
  kind : AttemptKind
  targetLabel : String
  outcome : Option Outcome
  deriving DecidableEq, Repr

structure Tracker where
  status : BootstrapStatusSnapshot
  generation : Nat
  /-- The generation and the target that the debounce timer was armed with. -/
  debounce : Option (Nat × String)
  /-- The flag behind `/readyz`. -/
  readyz : Bool
  /-- Every attempt that has started, the newest last. -/
  attempts : List Attempt
  /-- Targets of the self-heal callbacks that still wait for their DEL. -/
  heals : List String
  deriving DecidableEq, Repr

def Tracker.initial : Tracker := ⟨⟨.idle, none, none, []⟩, 0, none, false, [], []⟩

section Steps

def markBootstrapStatusRunning (s : Tracker) (targetLabel : String) : Tracker :=
  { s with generation := s.generation + 1, status := runningSnapshot targetLabel }

def start (s : Tracker) (kind : AttemptKind) (targetLabel : String) : Tracker :=
  { s with attempts := s.attempts ++ [⟨kind, targetLabel, none⟩] }

def scheduleBootstrap (s : Tracker) (targetLabel : String) (client force : Bool) : Tracker :=
  if !client then s
  else if !force && s.status.phase = .ready && s.status.targetLabel = some targetLabel then s
  else
    { markBootstrapStatusRunning s targetLabel with
      debounce := some (s.generation + 1, targetLabel) }

/-- Whether the outcome of an attempt goes into the snapshot. The rebuild route publishes
nothing when there is no active target. -/
def publishes (s : Tracker) (a : Attempt) : Bool :=
  match a.kind with
  | .boot | .flush => true
  | .rebuild => a.targetLabel ≠ ""
  | .scheduled generation => generation = s.generation

/-- Whether what goes into the snapshot also flips the flag. -/
def flips (a : Attempt) : Bool :=
  match a.kind with
  | .boot | .scheduled _ => true
  | .flush | .rebuild => false

def settleAttempt (s : Tracker) (i : Nat) (a : Attempt) (o : Outcome) : Tracker :=
  { s with
    attempts := s.attempts.set i { a with outcome := some o }
    status := if publishes s a then markBootstrapStatus a.targetLabel o else s.status
    readyz := if publishes s a && flips a then isReady o else s.readyz }

/-- `triggerBootstrapSelfHeal`; the callback gives the target, if there is one with a client. -/
def triggerBootstrapSelfHeal (s : Tracker) (callback : Option String) : Tracker :=
  { s with
    status := if s.status.phase = .ready then ⟨.idle, none, none, []⟩ else s.status
    heals := s.heals ++ callback.toList }

inductive Event
  | schedule (targetLabel : String) (client force : Bool)
  | debounced
  | boot (targetLabel : String)
  | flush (targetLabel : String)
  | rebuild (targetLabel : String)
  | settle (i : Nat) (o : Outcome)
  /-- The runner of an attempt that has timed out settles. -/
  | abandoned (i : Nat)
  | selfHeal (callback : Option String)
  /-- The self-heals that are under way are answered in any order. -/
  | healed (i : Nat)

def step (s : Tracker) : Event → Option Tracker
  | .schedule targetLabel client force => some (scheduleBootstrap s targetLabel client force)
  | .debounced => do
    let armed ← s.debounce
    let s := { s with debounce := none }
    some (if armed.1 = s.generation then start s (.scheduled armed.1) armed.2 else s)
  | .boot targetLabel => some (start (markBootstrapStatusRunning s targetLabel) .boot targetLabel)
  | .flush targetLabel => some (start (markBootstrapStatusRunning s targetLabel) .flush targetLabel)
  | .rebuild targetLabel => some (start s .rebuild targetLabel)
  | .settle i o => do
    let a ← s.attempts[i]?
    if a.outcome = none then some (settleAttempt s i a o) else none
  | .abandoned i => do
    let a ← s.attempts[i]?
    if a.outcome.isSome then some s else none
  | .selfHeal callback => some (triggerBootstrapSelfHeal s callback)
  | .healed i => do
    let targetLabel ← s.heals[i]?
    some (scheduleBootstrap { s with heals := s.heals.eraseIdx i } targetLabel true true)

end Steps

section Property

/-- No scheduled attempt is still to start. -/
def Quiet (s : Tracker) : Prop :=
  (∀ armed, s.debounce = some armed → armed.1 ≠ s.generation) ∧ s.heals = []

def AllSettled (s : Tracker) : Prop :=
  Quiet s ∧ ∀ a ∈ s.attempts, a.outcome ≠ none

/-- The snapshot is the outcome of the attempt that was started last, and the flag goes with
it. -/
def Tracks (s : Tracker) : Prop :=
  AllSettled s →
    (∀ last o, s.attempts.getLast? = some last → last.outcome = some o →
      s.status = markBootstrapStatus last.targetLabel o) ∧
    (s.readyz = true ↔ s.status.phase = .ready)

def NewestRuns (s : Tracker) : Prop :=
  ∃ last, s.attempts.getLast? = some last ∧ last.outcome = none

/-- The completion of an older attempt after the newest has settled changes nothing. -/
def LateIgnored (s : Tracker) (e : Event) (t : Tracker) : Prop :=
  ∀ i o, e = .settle i o → Quiet s → ¬ NewestRuns s → t.status = s.status ∧ t.readyz = s.readyz

structure NewestTracked (s : Tracker) (es : List Event) : Prop where
  tracks : ∀ t ∈ visited step s es, Tracks t
  late : ∀ p ∈ taken step s es, ∀ t, step p.1 p.2 = some t → LateIgnored p.1 p.2 t

/-- The newest attempt of a flush or a rebuild ends as the flag says, and has a target. -/
def EndsAsFlagged (s : Tracker) (a : Attempt) (o : Outcome) : Prop :=
  match a.kind with
  | .flush => s.readyz = isReady o
  | .rebuild => s.readyz = isReady o ∧ a.targetLabel ≠ ""
  | .boot | .scheduled _ => True

/-- With nothing more to start: an attempt publishes only while the newest one runs, the newest
of a flush or a rebuild ends as the flag says, and a self-heal that takes back a ready phase
schedules a new attempt. -/
def InTurn (s : Tracker) : Event → Prop
  | .settle i o => Quiet s → ∀ a, s.attempts[i]? = some a →
      (publishes s a → NewestRuns s) ∧ (i + 1 = s.attempts.length → EndsAsFlagged s a o)
  | .selfHeal callback => Quiet s → s.status.phase = .ready → ¬ NewestRuns s → callback.isSome
  | _ => True

end Property

/-- What the admitted events keep: where nothing more is to start, the newest attempt has its
outcome in the snapshot, or runs and will publish. -/
structure Newest (s : Tracker) : Prop where
  publishes : Quiet s → ∀ last, s.attempts.getLast? = some last → last.outcome = none →
    ∀ generation, last.kind = .scheduled generation → generation = s.generation
  published : Quiet s → ∀ last o, s.attempts.getLast? = some last → last.outcome = some o →
    s.status = markBootstrapStatus last.targetLabel o
  flagged : Quiet s → ¬ NewestRuns s → (s.readyz = true ↔ s.status.phase = .ready)

variable {s t : Tracker}

theorem Newest.tracks (ok : Newest s) : Tracks s := by
  rintro ⟨quiet, settled⟩
  refine ⟨ok.published quiet, ok.flagged quiet ?_⟩
  rintro ⟨last, newest, runs⟩
  exact settled last (List.mem_of_getLast? newest) runs

theorem newest_initial : Newest .initial where
  publishes _ _ newest := (by cases newest)
  published _ _ _ newest := (by cases newest)
  flagged _ _ := (by decide)

/-- Nothing is asked of a state in which an attempt is still to start. -/
theorem Newest.of_not_quiet (busy : ¬ Quiet s) : Newest s where
  publishes quiet := absurd quiet busy
  published quiet := absurd quiet busy
  flagged quiet := absurd quiet busy

theorem schedule_newest (ok : Newest s) (targetLabel : String) (client force : Bool) :
    Newest (scheduleBootstrap s targetLabel client force) := by
  unfold scheduleBootstrap
  split
  · exact ok
  · split
    · exact ok
    · exact .of_not_quiet fun quiet => quiet.1 _ rfl rfl

/-- A forced schedule always arms the timer. -/
theorem forced_newest (targetLabel : String) :
    Newest (scheduleBootstrap s targetLabel true true) :=
  .of_not_quiet fun quiet => quiet.1 _ rfl rfl

/-- A new attempt is the newest and runs. -/
theorem start_newest {kind : AttemptKind} {targetLabel : String}
    (current : ∀ generation, kind = .scheduled generation → generation = s.generation) :
    Newest (start s kind targetLabel) := by
  have newest : (start s kind targetLabel).attempts.getLast? = some ⟨kind, targetLabel, none⟩ :=
    List.getLast?_concat
  refine ⟨fun _ last here _ => ?_, fun _ last o here settled => ?_, fun _ idle => ?_⟩
  · obtain rfl := Option.some.inj (newest.symm.trans here)
    exact current
  · obtain rfl := Option.some.inj (newest.symm.trans here)
    cases settled
  · exact absurd ⟨_, newest, rfl⟩ idle

theorem getLast?_set {α : Type} {xs : List α} {i : Nat} {x : α} (here : i < xs.length) :
    (xs.set i x).getLast? = if i + 1 = xs.length then some x else xs.getLast? := by
  rw [List.getLast?_eq_getElem?, List.length_set, List.getElem?_set, List.getLast?_eq_getElem?]
  by_cases last : i + 1 = xs.length
  · rw [if_pos last, if_pos (by omega), if_pos here]
  · rw [if_neg last, if_neg (by omega)]

theorem settle_newest (ok : Newest s) {i : Nat} {a : Attempt} {o : Outcome}
    (here : s.attempts[i]? = some a) (runs : a.outcome = none)
    (turn : InTurn s (.settle i o)) : Newest (settleAttempt s i a o) := by
  have inside := (List.getElem?_eq_some_iff.mp here).1
  have newest := getLast?_set (x := { a with outcome := some o }) inside
  by_cases last : i + 1 = s.attempts.length
  · rw [if_pos last] at newest
    have own : s.attempts.getLast? = some a := by
      rw [List.getLast?_eq_getElem?, ← last, Nat.add_sub_cancel]
      exact here
    have writes : Quiet s → publishes s a = true ∧
        ((publishes s a && flips a) = true ∨ s.readyz = isReady o) := by
      intro quiet
      have ends := (turn quiet a here).2 last
      have current := ok.publishes quiet a own runs
      unfold EndsAsFlagged at ends
      cases kind : a.kind with
      | boot => simp [publishes, flips, kind]
      | flush =>
        rw [kind] at ends
        simp [publishes, flips, kind, ends]
      | rebuild =>
        rw [kind] at ends
        simp [publishes, flips, kind, ends.1, ends.2]
      | scheduled generation => simp [publishes, flips, kind, current generation kind]
    refine ⟨fun _ l found still => ?_, fun quiet l o' found settled => ?_, fun quiet _ => ?_⟩
    · obtain rfl := Option.some.inj (newest.symm.trans found)
      cases still
    · obtain rfl := Option.some.inj (newest.symm.trans found)
      obtain rfl := Option.some.inj settled
      exact if_pos (writes quiet).1
    · obtain ⟨published, flag⟩ := writes quiet
      have status : (settleAttempt s i a o).status = markBootstrapStatus a.targetLabel o :=
        if_pos published
      have readyz : (settleAttempt s i a o).readyz = isReady o := by
        rcases flag with flips | same
        · exact if_pos flips
        · rw [settleAttempt, same]
          exact ite_self _
      rw [status, readyz, markBootstrapStatus_ready]
  · rw [if_neg last] at newest
    have runsToo : NewestRuns (settleAttempt s i a o) ↔ NewestRuns s := by
      unfold NewestRuns
      rw [show (settleAttempt s i a o).attempts.getLast? = s.attempts.getLast? from newest]
    have silent : Quiet s → ¬ NewestRuns s → publishes s a = false := by
      intro quiet settled
      refine Bool.not_eq_true _ ▸ fun writes => settled ((turn quiet a here).1 writes)
    refine ⟨fun quiet l found => ?_, fun quiet l o' found settled => ?_, fun quiet settled => ?_⟩
    · exact ok.publishes quiet l (newest ▸ found)
    · have old : s.attempts.getLast? = some l := newest ▸ found
      have idle : ¬ NewestRuns s := by
        rintro ⟨l', here', none⟩
        obtain rfl := Option.some.inj (old.symm.trans here')
        rw [none] at settled
        cases settled
      rw [settleAttempt, silent quiet idle]
      exact ok.published quiet l o' old settled
    · have idle := mt runsToo.mpr settled
      rw [settleAttempt, silent quiet idle]
      exact ok.flagged quiet idle

theorem selfHeal_newest (ok : Newest s) {callback : Option String}
    (turn : InTurn s (.selfHeal callback)) : Newest (triggerBootstrapSelfHeal s callback) := by
  cases callback with
  | some targetLabel =>
    exact .of_not_quiet fun quiet => by simp [triggerBootstrapSelfHeal, Quiet] at quiet
  | none =>
    have same : Quiet (triggerBootstrapSelfHeal s none) → Quiet s := by
      rintro ⟨timer, heals⟩
      exact ⟨timer, by simpa [triggerBootstrapSelfHeal] using heals⟩
    have kept : Quiet s → ¬ NewestRuns s → (triggerBootstrapSelfHeal s none).status = s.status := by
      intro quiet settled
      refine if_neg fun ready => ?_
      cases turn quiet ready settled
    refine ⟨fun quiet => ok.publishes (same quiet), fun quiet l o newest settled => ?_,
      fun quiet settled => ?_⟩
    · have idle : ¬ NewestRuns s := by
        rintro ⟨l', here', none⟩
        obtain rfl := Option.some.inj (newest.symm.trans here')
        rw [none] at settled
        cases settled
      rw [kept (same quiet) idle]
      exact ok.published (same quiet) l o newest settled
    · rw [kept (same quiet) settled]
      exact ok.flagged (same quiet) settled

theorem step_newest (ok : Newest s) {e : Event} (turn : InTurn s e) (went : step s e = some t) :
    Newest t := by
  cases e with
  | schedule targetLabel client force =>
    obtain rfl := Option.some.inj went
    exact schedule_newest ok targetLabel client force
  | debounced =>
    simp only [step, Option.bind_eq_bind, Option.bind_eq_some_iff] at went
    obtain ⟨armed, timer, went⟩ := went
    obtain rfl := Option.some.inj went
    split
    · rename_i current
      refine start_newest fun generation same => ?_
      rw [← AttemptKind.scheduled.inj same]
      exact current
    · rename_i superseded
      have same : Quiet { s with debounce := none } → Quiet s := by
        rintro ⟨_, heals⟩
        refine ⟨fun other found => ?_, heals⟩
        obtain rfl := Option.some.inj (timer.symm.trans found)
        exact superseded
      exact ⟨fun quiet => ok.publishes (same quiet), fun quiet => ok.published (same quiet),
        fun quiet => ok.flagged (same quiet)⟩
  | boot targetLabel =>
    obtain rfl := Option.some.inj went
    exact start_newest fun _ same => by cases same
  | flush targetLabel =>
    obtain rfl := Option.some.inj went
    exact start_newest fun _ same => by cases same
  | rebuild targetLabel =>
    obtain rfl := Option.some.inj went
    exact start_newest fun _ same => by cases same
  | settle i o =>
    simp only [step, Option.bind_eq_bind, Option.bind_eq_some_iff] at went
    obtain ⟨a, here, went⟩ := went
    split at went
    · rename_i runs
      obtain rfl := Option.some.inj went
      exact settle_newest ok here runs turn
    · cases went
  | abandoned i =>
    simp only [step, Option.bind_eq_bind, Option.bind_eq_some_iff] at went
    obtain ⟨a, _, went⟩ := went
    split at went
    · obtain rfl := Option.some.inj went
      exact ok
    · cases went
  | selfHeal callback =>
    obtain rfl := Option.some.inj went
    exact selfHeal_newest ok turn
  | healed i =>
    simp only [step, Option.bind_eq_bind, Option.bind_eq_some_iff] at went
    obtain ⟨targetLabel, _, went⟩ := went
    obtain rfl := Option.some.inj went
    exact forced_newest _

/-- An attempt that settles in turn leaves the outcome of a newer one alone. -/
theorem step_lateIgnored {e : Event} (turn : InTurn s e) (went : step s e = some t) :
    LateIgnored s e t := by
  rintro i o rfl quiet settled
  simp only [step, Option.bind_eq_bind, Option.bind_eq_some_iff] at went
  obtain ⟨a, here, went⟩ := went
  split at went
  · obtain rfl := Option.some.inj went
    have silent : publishes s a = false :=
      Bool.not_eq_true _ ▸ fun writes => settled ((turn quiet a here).1 writes)
    simp [settleAttempt, silent]
  · cases went

/-- In every run whose attempts settle in turn, the snapshot is the outcome of the newest attempt
whenever all have settled, the flag goes with it and no late completion overwrites it. -/
theorem newest_tracked (es : List Event) (turns : ∀ p ∈ taken step .initial es, InTurn p.1 p.2) :
    NewestTracked .initial es where
  tracks t mem :=
    (@visited_of_taken _ _ step Newest InTurn (fun _ _ _ ok turn went => step_newest ok turn went)
      _ newest_initial _ turns t mem).tracks
  late p mem _ went := step_lateIgnored (turns p mem) went

section Demo

instance (s : Tracker) : Decidable (Quiet s) :=
  inferInstanceAs (Decidable ((∀ armed ∈ s.debounce, armed.1 ≠ s.generation) ∧ s.heals = []))

instance (s : Tracker) : Decidable (NewestRuns s) :=
  decidable_of_iff (∃ last ∈ s.attempts.getLast?, last.outcome = none) Iff.rfl

instance (s : Tracker) (a : Attempt) (o : Outcome) : Decidable (EndsAsFlagged s a o) := by
  unfold EndsAsFlagged
  split <;> infer_instance

instance (s : Tracker) (e : Event) : Decidable (InTurn s e) := by
  cases e with
  | settle i o =>
    exact inferInstanceAs (Decidable (Quiet s → ∀ a ∈ s.attempts[i]?,
      (publishes s a → NewestRuns s) ∧ (i + 1 = s.attempts.length → EndsAsFlagged s a o)))
  | selfHeal callback =>
    exact inferInstanceAs (Decidable (Quiet s → s.status.phase = .ready → ¬ NewestRuns s →
      callback.isSome))
  | _ => exact .isTrue trivial

/-- The boot is partial and a profile switch repairs it; a flush overlaps a second switch and
ends before it; then a missing index is healed. -/
def healthyDay : List Event :=
  [.boot "a", .settle 0 (.partially [⟨"idx:sens", "n1"⟩]), .schedule "b" true true, .debounced,
    .settle 1 .ready, .flush "b", .schedule "c" true true, .settle 2 .ready, .debounced,
    .settle 3 .ready, .selfHeal (some "c"), .healed 0, .debounced, .settle 4 .ready]

theorem newest_tracked_healthy : NewestTracked .initial healthyDay :=
  newest_tracked healthyDay (by decide +kernel)

/-- A flush that a switch to another target overtakes ends after it. -/
def flushOvertaken : List Event :=
  [.flush "a", .schedule "b" true true, .debounced, .settle 1 (.failed "down"), .settle 0 .ready]

/-- The rebuild route repairs what the boot could not do. -/
def rebuiltAfterBoot : List Event :=
  [.boot "a", .settle 0 (.failed "down"), .rebuild "a", .settle 1 .ready]

/-- The older flush reports its target as ready over the newer failure; and the flag of a
repaired bootstrap stays down. -/
theorem older_flush_wins :
    ¬ NewestTracked .initial flushOvertaken ∧ ¬ NewestTracked .initial rebuiltAfterBoot := by
  constructor
  · intro tracked
    have last := (tracked.tracks _ (final_mem_visited _ _) (by unfold AllSettled; decide +kernel)).1
      ⟨.scheduled 2, "b", some (.failed "down")⟩ (.failed "down") (by decide +kernel) rfl
    revert last
    decide +kernel
  · intro tracked
    have flag := (tracked.tracks _ (final_mem_visited _ _)
      (by unfold AllSettled; decide +kernel)).2.mpr (by decide +kernel)
    revert flag
    decide +kernel

end Demo

end BootstrapTracker
