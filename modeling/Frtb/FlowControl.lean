import Mathlib
import Mathlib.Data.List.Chain
import Frtb.Library.AssocMaps
import Frtb.Library.EventRuns
import Frtb.Library.NumberText

/-!
# The backpressure gate of the stream producer

Every so many rows a call of `afterBatch` polls the length of each stream that is
known, and is held in a loop of further polls when one is too long. The calls share
the flag `paused`, which decides whether a pause is logged. A rejected XLEN drops out
of the maximum that a poll reports, and a call leaves its loop without regard to the
others that are still in theirs.
-/

namespace FlowControl

open AssocMaps EventRuns NumberText

section Gate

structure FlowControlOptions where
  flowCheckEveryRows : ℚ
  pauseAboveLen : ℚ
  resumeBelowLen : ℚ
  below : resumeBelowLen < pauseAboveLen

inductive LogEvent where
  | streamXlen (xlens : Assoc String ℕ)
  | pause (stream : Option String) (xlen : ℕ) (pauseAbove : ℚ)
  | resume (resumeBelow : ℚ) (xlens : Assoc String ℕ)

def LogEvent.message : LogEvent → String
  | .streamXlen _ => "stream xlen poll"
  | .pause stream xlen pauseAbove =>
    "stream backpressure: " ++ stream.getD "null" ++ " xlen=" ++ showNumber xlen ++ " > " ++
      showNumber pauseAbove ++ "; pausing XADD"
  | .resume resumeBelow _ =>
    "stream backpressure resumed (all streams < " ++ showNumber resumeBelow ++ ")"

/-- Where a call that has come to the gate is suspended. -/
inductive Call where
  /-- At its first poll, of the streams known when it began. -/
  | first (keys : List String)
  | sleeping
  /-- At a poll of the pause loop. -/
  | polling (keys : List String)

/-- The poll that a call has left its pause loop after. A rejected XLEN has no result. -/
structure Return where
  keys : List String
  results : List (Option ℕ)
deriving DecidableEq

structure StreamFlowControl where
  xlens : Assoc String ℕ
  knownStreams : List String
  rowsSinceCheck : ℕ
  paused : Bool
  log : List LogEvent
  calls : ℕ → Option Call
  /-- The calls that have come to the gate so far. -/
  started : ℕ
  returns : List Return

def createStreamFlowControl : StreamFlowControl where
  xlens := ∅
  knownStreams := []
  rowsSinceCheck := 0
  paused := false
  log := []
  calls := fun _ => none
  started := 0
  returns := []

/-- The longest stream of a poll so far, and the lengths that are known. -/
structure Seen where
  xlens : Assoc String ℕ
  maxLen : ℕ
  offending : Option String

def Seen.take (seen : Seen) (key : String) : Option ℕ → Seen
  | none => seen
  | some n =>
    let seen := { seen with xlens := seen.xlens.insert key n }
    if seen.maxLen < n then { seen with maxLen := n, offending := some key } else seen

def seenBy (xlens : Assoc String ℕ) (keys : List String) (results : List (Option ℕ)) : Seen :=
  (keys.zip results).foldl (fun seen r => seen.take r.1 r.2) ⟨xlens, 0, none⟩

variable (o : FlowControlOptions)

/-- `pollAll` when its last XLEN settles. -/
def pollAll (s : StreamFlowControl) (seen : Seen) : StreamFlowControl :=
  { s with xlens := seen.xlens, log := s.log ++ [LogEvent.streamXlen seen.xlens] }

def putCall (s : StreamFlowControl) (i : ℕ) (call : Option Call) : StreamFlowControl :=
  { s with calls := Function.update s.calls i call }

/-- The gate after its first poll. -/
def firstPolled (s : StreamFlowControl) (i : ℕ) (keys : List String)
    (results : List (Option ℕ)) : StreamFlowControl :=
  let first := seenBy s.xlens keys results
  let s := pollAll s first
  if first.maxLen ≤ o.pauseAboveLen then putCall s i none
  else if s.paused then putCall s i (some .sleeping)
  else
    putCall { s with
      paused := true
      log := s.log ++ [LogEvent.pause first.offending first.maxLen o.pauseAboveLen] } i
      (some .sleeping)

/-- The gate after a poll of the pause loop. -/
def nextPolled (s : StreamFlowControl) (i : ℕ) (keys : List String)
    (results : List (Option ℕ)) : StreamFlowControl :=
  let next := seenBy s.xlens keys results
  let s := pollAll s next
  if next.maxLen < o.resumeBelowLen then
    putCall { s with
      paused := false
      log := s.log ++ [LogEvent.resume o.resumeBelowLen s.xlens]
      returns := s.returns ++ [⟨keys, results⟩] } i none
  else putCall s i (some .sleeping)

/-- `afterBatch` up to its first await. -/
def afterBatch (s : StreamFlowControl) (streamKey : String) (batchSize : ℕ) : StreamFlowControl :=
  let knownStreams :=
    if streamKey ∈ s.knownStreams then s.knownStreams else s.knownStreams ++ [streamKey]
  let rowsSinceCheck := s.rowsSinceCheck + batchSize
  if o.flowCheckEveryRows ≤ rowsSinceCheck then
    { putCall s s.started (some (.first knownStreams)) with
      knownStreams := knownStreams
      rowsSinceCheck := 0
      started := s.started + 1 }
  else { s with knownStreams := knownStreams, rowsSinceCheck := rowsSinceCheck }

inductive Event where
  | afterBatch (streamKey : String) (batchSize : ℕ)
  /-- The sleep of a call is over. -/
  | slept (i : ℕ)
  /-- Every XLEN that a call is waiting for has settled. -/
  | polled (i : ℕ) (results : List (Option ℕ))

def step (s : StreamFlowControl) : Event → Option StreamFlowControl
  | .afterBatch streamKey batchSize => some (afterBatch o s streamKey batchSize)
  | .slept i =>
    match s.calls i with
    | some .sleeping => some (putCall s i (some (.polling s.knownStreams)))
    | _ => none
  | .polled i results =>
    match s.calls i with
    | some (.first keys) =>
      if results.length = keys.length then some (firstPolled o s i keys results) else none
    | some (.polling keys) =>
      if results.length = keys.length then some (nextPolled o s i keys results) else none
    | _ => none

end Gate

section Hysteresis
variable (o : FlowControlOptions)

def Call.inLoop : Call → Prop
  | .first _ => False
  | .sleeping => True
  | .polling _ => True

/-- The call is held in its pause loop. -/
def Held (s : StreamFlowControl) (i : ℕ) : Prop := ∃ call, s.calls i = some call ∧ call.inLoop

/-- The pauses and resumes of the log: a pause is `true`. -/
def transitions (log : List LogEvent) : List Bool :=
  log.filterMap fun
    | .streamXlen _ => none
    | .pause _ _ _ => some true
    | .resume _ _ => some false

/-- The last transition, a resume before the first one. -/
def lastTransition (log : List LogEvent) : Bool := (transitions log).getLast?.getD false

structure Hysteresis (s : StreamFlowControl) : Prop where
  /-- A held call has returned after a poll in which each stream known when it began was
  observed below the mark. -/
  observed : ∀ r ∈ s.returns,
    List.Forall₂ (fun _ x => ∃ n : ℕ, x = some n ∧ n < o.resumeBelowLen) r.keys r.results
  /-- The transition lines alternate, the first one being a pause. -/
  alternate : (false :: transitions s.log).IsChain (· ≠ ·)
  /-- The last line is a pause exactly while a call is held. -/
  paired : lastTransition s.log = true ↔ ∃ i, Held s i

/-- A poll that ends a pause loop: each length that it has is below the mark. -/
def EndsLoop (results : List (Option ℕ)) : Prop :=
  0 < o.resumeBelowLen ∧ ∀ n : ℕ, some n ∈ results → (n : ℚ) < o.resumeBelowLen

/-- Where a pause loop ends, no XLEN of the poll was rejected and no other call is held. -/
def Orderly (s : StreamFlowControl) : Event → Prop
  | .polled i results => ∀ keys, s.calls i = some (.polling keys) → EndsLoop o results →
      (none ∉ results) ∧ ∀ j, j ≠ i → ¬ Held s j
  | _ => True

end Hysteresis

section Steps
variable {o : FlowControlOptions} {s : StreamFlowControl} {i j : ℕ}

theorem held_putCall_self (call : Option Call) :
    Held (putCall s i call) i ↔ ∃ c, call = some c ∧ c.inLoop := by
  simp [Held, putCall]

theorem held_putCall_of_ne (call : Option Call) (other : j ≠ i) :
    Held (putCall s i call) j ↔ Held s j := by
  simp [Held, putCall, Function.update_of_ne other]

/-- Someone is held after a call has gone on to the pause loop. -/
theorem held_of_inLoop {c : Call} (inside : c.inLoop) : ∃ j, Held (putCall s i (some c)) j :=
  ⟨i, (held_putCall_self _).mpr ⟨c, rfl, inside⟩⟩

/-- Where a call that was not held is still not, the same calls are held. -/
theorem held_putCall_outside {call : Option Call} (before : ¬ Held s i)
    (after : ∀ c, call = some c → ¬ c.inLoop) (j : ℕ) : Held (putCall s i call) j ↔ Held s j := by
  by_cases own : j = i
  · subst own
    refine iff_of_false (fun held => ?_) before
    obtain ⟨c, same, inside⟩ := (held_putCall_self call).mp held
    exact after c same inside
  · exact held_putCall_of_ne call own

theorem transitions_streamXlen (log : List LogEvent) (xlens : Assoc String ℕ) :
    transitions (log ++ [LogEvent.streamXlen xlens]) = transitions log := by
  rw [transitions, List.filterMap_append]
  exact List.append_nil _

theorem transitions_pause (log : List LogEvent) (stream : Option String) (xlen : ℕ) (above : ℚ) :
    transitions (log ++ [LogEvent.pause stream xlen above]) = transitions log ++ [true] :=
  List.filterMap_append

theorem transitions_resume (log : List LogEvent) (below : ℚ) (xlens : Assoc String ℕ) :
    transitions (log ++ [LogEvent.resume below xlens]) = transitions log ++ [false] :=
  List.filterMap_append

/-- A line that differs from the last one keeps the alternation, and no other does. -/
theorem alternate_append (ts : List Bool) (t : Bool) :
    (false :: (ts ++ [t])).IsChain (· ≠ ·) ↔
      (false :: ts).IsChain (· ≠ ·) ∧ ts.getLast?.getD false ≠ t := by
  rw [← List.cons_append, List.isChain_append, List.getLast?_cons]
  simp [List.IsChain.singleton]

theorem take_foldl_lt {r : ℚ} (polled : List (String × Option ℕ)) : ∀ seen : Seen,
    ((polled.foldl (fun seen p => seen.take p.1 p.2) seen).maxLen : ℚ) < r ↔
      (seen.maxLen : ℚ) < r ∧ ∀ n : ℕ, some n ∈ polled.map Prod.snd → (n : ℚ) < r := by
  induction polled with
  | nil => intro seen; simp
  | cons p polled ih =>
    intro seen
    obtain ⟨key, x⟩ := p
    rw [List.foldl_cons, ih]
    cases x with
    | none => simp [Seen.take]
    | some n =>
      have longest : ((seen.take key (some n)).maxLen : ℚ) < r ↔
          (seen.maxLen : ℚ) < r ∧ (n : ℚ) < r := by
        simp only [Seen.take]
        split
        · rename_i longer
          exact ⟨fun small => ⟨lt_trans (by exact_mod_cast longer) small, small⟩, And.right⟩
        · rename_i shorter
          exact ⟨fun small => ⟨small, lt_of_le_of_lt (by exact_mod_cast not_lt.mp shorter) small⟩,
            And.left⟩
      rw [longest, List.map_cons, and_assoc]
      simp only [List.mem_cons, Option.some.injEq, forall_eq_or_imp]

/-- The maximum of a poll is below the mark exactly when each length it has is. -/
theorem maxLen_lt_iff {keys : List String} {results : List (Option ℕ)}
    (all : results.length = keys.length) (xlens : Assoc String ℕ) :
    ((seenBy xlens keys results).maxLen : ℚ) < o.resumeBelowLen ↔ EndsLoop o results := by
  rw [seenBy, take_foldl_lt, List.map_snd_zip all.le, Nat.cast_zero, EndsLoop]

/-- The lengths of a poll without rejections, all below the mark. -/
theorem observed_of_endsLoop {keys : List String} {results : List (Option ℕ)}
    (all : results.length = keys.length) (ends : EndsLoop o results) (none_lost : none ∉ results) :
    List.Forall₂ (fun _ x => ∃ n : ℕ, x = some n ∧ n < o.resumeBelowLen) keys results := by
  refine List.forall₂_iff_zip.mpr ⟨all.symm, fun {key x} mem => ?_⟩
  have own := (List.of_mem_zip mem).2
  cases x with
  | none => exact absurd own none_lost
  | some n => exact ⟨n, rfl, ends.2 n own⟩

/-- What every orderly step keeps. -/
structure Inv (o : FlowControlOptions) (s : StreamFlowControl) : Prop where
  hysteresis : Hysteresis o s
  flag : s.paused = lastTransition s.log
  fresh : ∀ i, s.started ≤ i → s.calls i = none

theorem Inv.initial (o : FlowControlOptions) : Inv o createStreamFlowControl := by
  refine ⟨⟨nofun, List.IsChain.singleton _, ?_⟩, rfl, fun _ _ => rfl⟩
  exact iff_of_false Bool.false_ne_true fun ⟨i, call, called, _⟩ => by cases called

/-- A step that logs no transition and leaves the same calls held. -/
theorem Inv.same {t : StreamFlowControl} (inv : Inv o s) (paused : t.paused = s.paused)
    (log : transitions t.log = transitions s.log) (returns : t.returns = s.returns)
    (held : (∃ i, Held t i) ↔ ∃ i, Held s i) (fresh : ∀ i, t.started ≤ i → t.calls i = none) :
    Inv o t := by
  refine ⟨⟨returns ▸ inv.hysteresis.observed, log ▸ inv.hysteresis.alternate, ?_⟩, ?_, fresh⟩
  · rw [lastTransition, log, held]
    exact inv.hysteresis.paired
  · rw [lastTransition, log, paused]
    exact inv.flag

/-- A call that has come to the gate goes on. -/
theorem Inv.fresh_putCall (inv : Inv o s) {call : Call} (own : s.calls i = some call)
    (next : Option Call) (j : ℕ) (late : s.started ≤ j) :
    Function.update s.calls i next j = none := by
  have other : j ≠ i := by
    rintro rfl
    rw [inv.fresh j late] at own
    cases own
  rw [Function.update_of_ne other]
  exact inv.fresh j late

theorem Inv.firstPolled (inv : Inv o s) {keys : List String} (results : List (Option ℕ))
    (own : s.calls i = some (.first keys)) : Inv o (firstPolled o s i keys results) := by
  have outside : ¬ Held s i := by
    rintro ⟨call, called, inside⟩
    rw [own] at called
    cases called
    exact inside
  unfold FlowControl.firstPolled
  dsimp only
  split
  · refine inv.same rfl (transitions_streamXlen _ _) rfl ?_ (inv.fresh_putCall own _)
    exact exists_congr fun j => @held_putCall_outside (pollAll s _) i none outside nofun j
  · split
    · rename_i paused
      have someone := inv.hysteresis.paired.mp (inv.flag ▸ paused)
      exact inv.same rfl (transitions_streamXlen _ _) rfl
        (iff_of_true (held_of_inLoop trivial) someone) (inv.fresh_putCall own _)
    · rename_i running
      have resumed : lastTransition s.log = false := by
        rw [← inv.flag]
        exact Bool.not_eq_true _ ▸ running
      refine ⟨⟨inv.hysteresis.observed, ?_, ?_⟩, ?_, inv.fresh_putCall own _⟩
      · show (false :: transitions ((s.log ++ [_]) ++ [_])).IsChain (· ≠ ·)
        rw [transitions_pause, transitions_streamXlen, alternate_append]
        exact ⟨inv.hysteresis.alternate, by
          rw [← lastTransition, resumed]; exact Bool.false_ne_true⟩
      · refine iff_of_true ?_ (held_of_inLoop trivial)
        show lastTransition ((s.log ++ [_]) ++ [_]) = true
        rw [lastTransition, transitions_pause, List.getLast?_concat]
        rfl
      · show true = lastTransition ((s.log ++ [_]) ++ [_])
        rw [lastTransition, transitions_pause, List.getLast?_concat]
        rfl

theorem Inv.nextPolled (inv : Inv o s) {keys : List String} {results : List (Option ℕ)}
    (own : s.calls i = some (.polling keys)) (all : results.length = keys.length)
    (orderly : Orderly o s (.polled i results)) : Inv o (nextPolled o s i keys results) := by
  have inside : Held s i := ⟨_, own, trivial⟩
  have ends := maxLen_lt_iff (o := o) all s.xlens
  unfold FlowControl.nextPolled
  dsimp only
  split
  · rename_i low
    obtain ⟨complete, alone⟩ := orderly keys own (ends.mp low)
    have paused : lastTransition s.log = true := inv.hysteresis.paired.mpr ⟨i, inside⟩
    refine ⟨⟨?_, ?_, ?_⟩, ?_, inv.fresh_putCall own _⟩
    · intro r mem
      rcases List.mem_append.mp mem with mem | mem
      · exact inv.hysteresis.observed r mem
      · rw [List.mem_singleton.mp mem]
        exact observed_of_endsLoop all (ends.mp low) complete
    · show (false :: transitions ((s.log ++ [_]) ++ [_])).IsChain (· ≠ ·)
      rw [transitions_resume, transitions_streamXlen, alternate_append]
      exact ⟨inv.hysteresis.alternate, by
        rw [← lastTransition, paused]; exact Bool.false_ne_true.symm⟩
    · refine iff_of_false ?_ ?_
      · show lastTransition ((s.log ++ [_]) ++ [_]) ≠ true
        rw [lastTransition, transitions_resume, List.getLast?_concat]
        exact Bool.false_ne_true
      · rintro ⟨j, held⟩
        by_cases same : j = i
        · subst same
          obtain ⟨c, gone, _⟩ := (held_putCall_self _).mp held
          cases gone
        · exact alone j same ((held_putCall_of_ne _ same).mp held)
    · show false = lastTransition ((s.log ++ [_]) ++ [_])
      rw [lastTransition, transitions_resume, List.getLast?_concat]
      rfl
  · exact inv.same rfl (transitions_streamXlen _ _) rfl
      (iff_of_true (held_of_inLoop trivial) ⟨i, inside⟩) (inv.fresh_putCall own _)

theorem Inv.afterBatch (inv : Inv o s) (streamKey : String) (batchSize : ℕ) :
    Inv o (afterBatch o s streamKey batchSize) := by
  unfold FlowControl.afterBatch
  dsimp only
  split
  · refine inv.same rfl rfl rfl ?_ fun j late => ?_
    · refine exists_congr fun j => @held_putCall_outside s s.started _ ?_ ?_ j
      · rintro ⟨call, called, _⟩
        rw [inv.fresh _ le_rfl] at called
        cases called
      · intro c same
        rw [← Option.some.inj same]
        exact id
    · show Function.update s.calls s.started _ j = none
      have later : s.started + 1 ≤ j := late
      rw [Function.update_of_ne (by omega)]
      exact inv.fresh j (by omega)
  · exact inv.same rfl rfl rfl Iff.rfl inv.fresh

theorem Inv.slept (inv : Inv o s) (own : s.calls i = some .sleeping) (keys : List String) :
    Inv o (putCall s i (some (.polling keys))) :=
  inv.same rfl rfl rfl (iff_of_true (held_of_inLoop trivial) ⟨i, _, own, trivial⟩)
    (inv.fresh_putCall own _)

theorem step_inv {s t : StreamFlowControl} {e : Event} (inv : Inv o s) (orderly : Orderly o s e)
    (went : step o s e = some t) : Inv o t := by
  cases e with
  | afterBatch streamKey batchSize =>
    cases went
    exact inv.afterBatch streamKey batchSize
  | slept i =>
    simp only [step] at went
    split at went
    · rename_i own
      cases went
      exact inv.slept own _
    · cases went
  | polled i results =>
    simp only [step] at went
    split at went
    · rename_i keys own
      split at went
      · cases went
        exact inv.firstPolled results own
      · cases went
    · rename_i keys own
      split at went
      · rename_i all
        cases went
        exact inv.nextPolled own all orderly
      · cases went
    · cases went

/-- A poll that ends a loop out of order leaves a return that was not observed, or a resume
beside a call that is still held. -/
theorem step_loss {s t : StreamFlowControl} {e : Event} (disorderly : ¬ Orderly o s e)
    (went : step o s e = some t) : ¬ Hysteresis o t := by
  cases e with
  | afterBatch streamKey batchSize => exact absurd trivial disorderly
  | slept i => exact absurd trivial disorderly
  | polled i results =>
    simp only [Orderly, not_forall] at disorderly
    obtain ⟨keys, own, ends, bad⟩ := disorderly
    simp only [step, own] at went
    split at went
    · rename_i all
      have low := (maxLen_lt_iff (o := o) all s.xlens).mpr ends
      simp only [nextPolled, if_pos low, Option.some.injEq] at went
      intro hysteresis
      rw [← went] at hysteresis
      refine bad ⟨fun lost => ?_, fun j other held => ?_⟩
      · have observed := hysteresis.observed ⟨keys, results⟩
          (List.mem_append_right _ List.mem_cons_self)
        obtain ⟨k, bound, rejected⟩ := List.getElem_of_mem lost
        obtain ⟨n, same, -⟩ := observed.get (observed.length_eq ▸ bound) bound
        exact Option.some_ne_none n (same.symm.trans rejected)
      · have paused := hysteresis.paired.mpr ⟨j, (held_putCall_of_ne none other).mpr held⟩
        have resumed : lastTransition ((s.log ++ [LogEvent.streamXlen
            (seenBy s.xlens keys results).xlens]) ++ [LogEvent.resume o.resumeBelowLen
              (seenBy s.xlens keys results).xlens]) = false := by
          rw [lastTransition, transitions_resume, List.getLast?_concat]
          rfl
        exact Bool.false_ne_true (resumed.symm.trans paused)
    · cases went

/-- In a run every held call returns after a poll that observed each known stream below the
mark, and the transition lines come in one pair a paused period, exactly when at every poll
that ends a loop no XLEN was rejected and no other call was held. -/
theorem gate_hysteresis_iff (o : FlowControlOptions) (es : List Event) :
    (∀ t ∈ visited (step o) createStreamFlowControl es, Hysteresis o t) ↔
      ∀ p ∈ taken (step o) createStreamFlowControl es, Orderly o p.1 p.2 :=
  visited_safe_iff (fun _ _ _ inv orderly went => step_inv inv orderly went)
    (fun _ inv => inv.hysteresis) (fun _ _ _ _ disorderly went => step_loss disorderly went)
    (Inv.initial o) es

end Steps

section Demo

def marks : FlowControlOptions where
  flowCheckEveryRows := 100
  pauseAboveLen := 1500
  resumeBelowLen := 1000
  below := by decide +kernel

/-- A call is held, and the next poll is rejected. -/
def rejectedPoll : List Event :=
  [.afterBatch "s" 100, .polled 0 [some 2000], .slept 0, .polled 0 [none]]

/-- Two calls are held at once. -/
def bothHeld : List Event :=
  [.afterBatch "a" 100, .afterBatch "b" 100, .polled 0 [some 2000], .polled 1 [some 2000, some 0],
    .slept 0, .slept 1, .polled 0 [some 10, some 10], .polled 1 [some 10, some 10]]

/-- After a rejected poll a call returns with no length known to be below the mark, and two
calls held at once log one pause and two resumes. -/
theorem gate_released_unobserved :
    (final (step marks) createStreamFlowControl rejectedPoll).returns = [⟨["s"], [none]⟩] ∧
    transitions (final (step marks) createStreamFlowControl bothHeld).log = [true, false, false] ∧
    ¬ Hysteresis marks (final (step marks) createStreamFlowControl rejectedPoll) ∧
    ¬ Hysteresis marks (final (step marks) createStreamFlowControl bothHeld) := by
  have returned : (final (step marks) createStreamFlowControl rejectedPoll).returns =
      [⟨["s"], [none]⟩] := by decide +kernel
  have logged : transitions (final (step marks) createStreamFlowControl bothHeld).log =
      [true, false, false] := by decide +kernel
  refine ⟨returned, logged, fun hysteresis => ?_, fun hysteresis => ?_⟩
  · have observed := hysteresis.observed ⟨["s"], [none]⟩ (returned ▸ List.mem_cons_self)
    obtain ⟨n, same, -⟩ := (List.forall₂_cons.mp observed).1
    cases same
  · have alternate := hysteresis.alternate
    rw [logged] at alternate
    revert alternate
    decide

end Demo

end FlowControl
