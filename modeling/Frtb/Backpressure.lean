import Mathlib
import Frtb.Library.EventRuns
import Frtb.Library.JsNumbers
import Frtb.Library.PoolSums

/-!
# Admission slots

`registerBackpressure`: a counter for each of two buckets, raised by the hook before a
handler and lowered by the hooks after a response and after an abort. A request carries
the bucket it holds a slot of. The handler runs on when its client is gone.
-/

namespace Backpressure

open EventRuns JsNumbers PoolSums

section Limits

inductive Bucket where
  | heavy
  | light
deriving DecidableEq

instance : Fintype Bucket := ⟨{.heavy, .light}, fun bucket => by cases bucket <;> decide⟩

/-- What a request is classified as; an exempt one is not counted. -/
inductive Category where
  | slot (bucket : Bucket)
  | exempt
deriving DecidableEq

/-- A positive number from the environment, rounded down, else the default. -/
def readLimit (raw : Option (JsNumber ℚ)) (default_ : ℕ) : ℕ :=
  match raw with
  | some (.fin n) => if 0 < n then ⌊n⌋.toNat else default_
  | _ => default_

structure BackpressureOpts where
  heavyLimit : Option ℕ
  lightLimit : Option ℕ
  retryAfterMs : ℕ

structure Limits where
  heavyLimit : ℕ
  lightLimit : ℕ
  retryAfterMs : ℕ

def inflightPerPoolMember : ℕ := 2

/-- The limits that the server is registered with: the options, else the environment, else
twice the size of the pools. -/
def limitsOf (opts : BackpressureOpts) (heavyEnv lightEnv : Option (JsNumber ℚ))
    (heavyPools lightPool : ℕ) : Limits where
  heavyLimit := opts.heavyLimit.getD (readLimit heavyEnv (inflightPerPoolMember * heavyPools))
  lightLimit := opts.lightLimit.getD (readLimit lightEnv (inflightPerPoolMember * lightPool))
  retryAfterMs := opts.retryAfterMs

def Limits.of (limits : Limits) : Bucket → ℕ
  | .heavy => limits.heavyLimit
  | .light => limits.lightLimit

end Limits

section Hooks

/-- The body of a 503, with its `Retry-After`. -/
structure TooManyInflight where
  category : Bucket
  inflight : ℤ
  limit : ℕ
  retryAfterMs : ℕ
  retryAfter : ℕ
deriving DecidableEq

/-- Where a request is: before `preHandler`, let past it, refused by it, or admitted and its
handler running or done. -/
inductive Stage where
  | arrived
  | exempt
  | refused (reply : TooManyInflight)
  | running (bucket : Bucket)
  | completed (bucket : Bucket)
deriving DecidableEq

structure Request where
  stage : Stage
  /-- The slot on the request, which the release clears. -/
  slot : Option Bucket
  aborted : Bool
  responded : Bool
deriving DecidableEq

structure Server (n : ℕ) where
  state : Bucket → ℤ
  requests : Fin n → Request

def register (n : ℕ) : Server n := ⟨fun _ => 0, fun _ => ⟨.arrived, none, false, false⟩⟩

variable {n : ℕ}

def Server.put (s : Server n) (i : Fin n) (r : Request) : Server n :=
  { s with requests := Function.update s.requests i r }

def Server.count (s : Server n) (bucket : Bucket) (count : ℤ) : Server n :=
  { s with state := Function.update s.state bucket count }

@[simp] theorem count_state (s : Server n) (bucket other : Bucket) (count : ℤ) :
    (s.count bucket count).state other = if other = bucket then count else s.state other :=
  Function.update_apply ..

def preHandler (limits : Limits) (category : Category) (s : Server n) (i : Fin n) : Server n :=
  let r := s.requests i
  match category with
  | .exempt => s.put i { r with stage := .exempt }
  | .slot bucket =>
    let inflight := s.state bucket
    let limit := limits.of bucket
    if (limit : ℤ) ≤ inflight then
      s.put i { r with stage := .refused ⟨bucket, inflight, limit, limits.retryAfterMs,
        max 1 ((limits.retryAfterMs + 999) / 1000)⟩ }
    else (s.count bucket (inflight + 1)).put i
      { r with stage := .running bucket, slot := some bucket }

def release (s : Server n) (i : Fin n) : Server n :=
  let r := s.requests i
  match r.slot with
  | some bucket =>
    (s.count bucket (max 0 (s.state bucket - 1))).put i { r with slot := none }
  | none => s

inductive Event (n : ℕ)
  | preHandler (i : Fin n)
  | complete (i : Fin n)
  | onRequestAbort (i : Fin n)
  | onResponse (i : Fin n)
deriving DecidableEq

/-- Each hook fires at most once for a request. -/
def step (limits : Limits) (classify : Fin n → Category) (s : Server n) :
    Event n → Option (Server n)
  | .preHandler i =>
    if (s.requests i).stage = .arrived then some (preHandler limits (classify i) s i) else none
  | .complete i =>
    match (s.requests i).stage with
    | .running bucket => some (s.put i { s.requests i with stage := .completed bucket })
    | _ => none
  | .onRequestAbort i =>
    if (s.requests i).aborted then none
    else some (release (s.put i { s.requests i with aborted := true }) i)
  | .onResponse i =>
    if (s.requests i).responded then none
    else some (release (s.put i { s.requests i with responded := true }) i)

end Hooks

section Spec
variable {n : ℕ}

def Stage.bucket : Stage → Option Bucket
  | .running bucket | .completed bucket => some bucket
  | _ => none

/-- How many requests of a bucket were admitted and have not given their slot back. -/
def unreleased (s : Server n) (bucket : Bucket) : ℕ :=
  (Finset.univ.filter fun i =>
    (s.requests i).stage.bucket = some bucket ∧ (s.requests i).slot ≠ none).card

def runningHandlers (s : Server n) (bucket : Bucket) : ℕ :=
  (Finset.univ.filter fun i => (s.requests i).stage = .running bucket).card

def Stage.ended (fired : Bool) : Stage → Bool
  | .running _ => false
  | .completed _ => fired
  | _ => true

/-- Nothing more comes of the request: an admitted one has had its handler done and a
hook fired. -/
def Ended (r : Request) : Prop := r.stage.ended (r.aborted || r.responded) = true

instance (r : Request) : Decidable (Ended r) := inferInstanceAs (Decidable (_ = true))

structure Safe (limits : Limits) (s : Server n) : Prop where
  counted : ∀ bucket, s.state bucket = unreleased s bucket
  nonnegative : ∀ bucket, 0 ≤ s.state bucket
  bounded : ∀ bucket, runningHandlers s bucket ≤ limits.of bucket
  drained : (∀ i, Ended (s.requests i)) → ∀ bucket, s.state bucket = 0

/-- No hook releases the slot of a handler that is still running, and a request that a hook
has already fired for is not admitted. -/
def Ok (limits : Limits) (classify : Fin n → Category) (s : Server n) : Event n → Prop
  | .preHandler i => ∀ bucket, classify i = .slot bucket → s.state bucket < limits.of bucket →
    (s.requests i).aborted = false ∧ (s.requests i).responded = false
  | .complete _ => True
  | .onRequestAbort i | .onResponse i => ∀ bucket, (s.requests i).stage ≠ .running bucket

instance (limits : Limits) (classify : Fin n → Category) (s : Server n) (e : Event n) :
    Decidable (Ok limits classify s e) :=
  match e with
  | .preHandler i => inferInstanceAs (Decidable (∀ bucket, classify i = .slot bucket →
      s.state bucket < limits.of bucket →
        (s.requests i).aborted = false ∧ (s.requests i).responded = false))
  | .complete _ => inferInstanceAs (Decidable True)
  | .onRequestAbort i | .onResponse i =>
    inferInstanceAs (Decidable (∀ bucket, (s.requests i).stage ≠ .running bucket))

end Spec

section Counting
variable {n : ℕ} {limits : Limits} {classify : Fin n → Category} {s : Server n}

/-- A request holds a slot only of the bucket it was admitted to. -/
def Sound (r : Request) : Prop := ∀ bucket, r.slot = some bucket → r.stage.bucket = some bucket

/-- What holds in every run. -/
structure Counted (limits : Limits) (s : Server n) : Prop where
  counted : ∀ bucket, s.state bucket =
    ∑ i, if (s.requests i).slot = some bucket then (1 : ℤ) else 0
  sound : ∀ i, Sound (s.requests i)
  bounded : ∀ bucket, s.state bucket ≤ limits.of bucket

theorem counted_register (limits : Limits) : Counted limits (register n) where
  counted bucket := by
    simp [register]
  sound i bucket held := by cases held
  bounded bucket := Int.natCast_nonneg _

theorem Counted.nonnegative (counted : Counted limits s) (bucket : Bucket) :
    0 ≤ s.state bucket := by
  rw [counted.counted]
  exact Finset.sum_nonneg fun i _ => by split <;> decide

theorem Counted.unreleased_eq (counted : Counted limits s) (bucket : Bucket) :
    s.state bucket = unreleased s bucket := by
  rw [counted.counted, unreleased, Finset.card_filter, Nat.cast_sum]
  refine Finset.sum_congr rfl fun i _ => ?_
  have same : (s.requests i).slot = some bucket ↔
      (s.requests i).stage.bucket = some bucket ∧ (s.requests i).slot ≠ none := by
    constructor
    · intro held
      exact ⟨counted.sound i bucket held, by rw [held]; nofun⟩
    · rintro ⟨admitted, held⟩
      obtain ⟨own, slot⟩ := Option.ne_none_iff_exists'.mp held
      rw [slot, ← counted.sound i own slot, admitted]
  rw [Nat.cast_ite, Nat.cast_one, Nat.cast_zero]
  exact if_congr same rfl rfl

/-- One request has changed, and the counters by what its slot has changed. -/
theorem Counted.put (counted : Counted limits s) {i : Fin n} {r : Request} {state : Bucket → ℤ}
    (sound : Sound r) (bounded : ∀ bucket, state bucket ≤ limits.of bucket)
    (slots : ∀ bucket, state bucket + (if (s.requests i).slot = some bucket then 1 else 0) =
      s.state bucket + if r.slot = some bucket then 1 else 0) :
    Counted limits ⟨state, Function.update s.requests i r⟩ where
  counted bucket := by
    have total := sum_update (fun r : Request => if r.slot = some bucket then (1 : ℤ) else 0)
      s.requests i r
    have own := slots bucket
    rw [counted.counted] at own
    dsimp only at total ⊢
    omega
  sound j := by
    by_cases same : j = i
    · subst same
      simpa only [Function.update_self] using sound
    · simpa only [Function.update_of_ne same] using counted.sound j
  bounded := bounded

theorem counted_release (counted : Counted limits s) (i : Fin n) :
    Counted limits (release s i) := by
  unfold release
  dsimp only
  cases slot : (s.requests i).slot with
  | none => exact counted
  | some bucket =>
    have taken : 0 < s.state bucket := by
      rw [counted.counted]
      refine Finset.sum_pos' (fun j _ => by split <;> decide) ⟨i, Finset.mem_univ i, ?_⟩
      rw [if_pos slot]
      exact one_pos
    refine counted.put nofun ?_ ?_
    · intro other
      rw [count_state]
      split
      · next same =>
        have le := counted.bounded bucket
        rw [same]
        omega
      · exact counted.bounded other
    · intro other
      rw [count_state, slot]
      by_cases same : other = bucket
      · rw [if_pos same, same, if_pos rfl, if_neg nofun]
        omega
      · rw [if_neg same, if_neg fun both => same (Option.some.inj both).symm, if_neg nofun]

/-- A change that leaves the slot of a request alone. -/
theorem Counted.keep (counted : Counted limits s) {i : Fin n} {r : Request} (sound : Sound r)
    (slot : r.slot = (s.requests i).slot) : Counted limits (s.put i r) :=
  counted.put sound counted.bounded fun bucket => by rw [slot]

theorem counted_step (counted : Counted limits s) {e : Event n} {s' : Server n}
    (went : step limits classify s e = some s') : Counted limits s' := by
  cases e with
  | preHandler i =>
    simp only [step] at went
    split at went
    · next arrived =>
      cases went
      have free : (s.requests i).slot = none := by
        cases slot : (s.requests i).slot with
        | none => rfl
        | some bucket =>
          have admitted := counted.sound i bucket slot
          rw [arrived] at admitted
          cases admitted
      unfold preHandler
      cases classify i with
      | exempt =>
        refine counted.keep ?_ rfl
        intro bucket held
        cases free.symm.trans held
      | slot bucket =>
        dsimp only
        split
        · refine counted.keep ?_ rfl
          intro other held
          cases free.symm.trans held
        · next room =>
          refine counted.put ?_ ?_ ?_
          · intro other held
            exact held
          · intro other
            rw [count_state]
            split
            · next same =>
              rw [same]
              omega
            · exact counted.bounded other
          · intro other
            rw [count_state, free]
            by_cases same : other = bucket
            · rw [if_pos same, same, if_neg nofun, if_pos rfl, add_zero]
            · rw [if_neg same, if_neg nofun, if_neg fun both => same (Option.some.inj both).symm]
    · cases went
  | complete i =>
    simp only [step] at went
    split at went
    · next bucket running =>
      cases went
      refine counted.keep ?_ rfl
      intro other held
      have admitted := counted.sound i other held
      rw [running] at admitted
      exact admitted
    · cases went
  | onRequestAbort i =>
    simp only [step] at went
    split at went
    · cases went
    · cases went
      exact counted_release
        (@Counted.keep _ _ _ counted i { s.requests i with aborted := true }
          (counted.sound i) rfl) i
  | onResponse i =>
    simp only [step] at went
    split at went
    · cases went
    · cases went
      exact counted_release
        (@Counted.keep _ _ _ counted i { s.requests i with responded := true } (counted.sound i)
          rfl) i

/-- In every run the counters are the slots not given back, and not negative. -/
theorem counted_run (limits : Limits) (classify : Fin n → Category) (es : List (Event n)) :
    ∀ s ∈ visited (step limits classify) (register n) es,
      (∀ bucket, s.state bucket = unreleased s bucket) ∧ ∀ bucket, 0 ≤ s.state bucket := by
  intro s mem
  have counted := @visited_of_taken _ _ (step limits classify) (Counted limits) (fun _ _ => True)
    (fun s e t counted _ went => counted_step counted went) _ (counted_register limits) es
    (fun _ _ => trivial) s mem
  exact ⟨counted.unreleased_eq, counted.nonnegative⟩

end Counting

section Holding
variable {n : ℕ} {limits : Limits} {classify : Fin n → Category} {s : Server n}

/-- A running handler holds its slot, and no hook has fired for a request with a slot. -/
structure Held (r : Request) : Prop where
  holds : ∀ bucket, r.stage = .running bucket → r.slot = some bucket
  unfired : r.slot ≠ none → r.aborted = false ∧ r.responded = false

structure Holding (limits : Limits) (s : Server n) : Prop where
  counted : Counted limits s
  held : ∀ i, Held (s.requests i)

theorem held_put (held : ∀ i, Held (s.requests i)) {i : Fin n} {r : Request} (own : Held r)
    (j : Fin n) : Held (Function.update s.requests i r j) := by
  by_cases same : j = i
  · subst same
    simpa only [Function.update_self] using own
  · simpa only [Function.update_of_ne same] using held j

theorem held_free {r : Request} (stopped : ∀ bucket, r.stage ≠ .running bucket)
    (free : r.slot = none) : Held r where
  holds bucket running := absurd running (stopped bucket)
  unfired some_ := absurd free some_

/-- A hook that finds no running handler takes the slot away. -/
theorem held_release (held : ∀ i, Held (s.requests i)) {i : Fin n} {r : Request}
    (stopped : ∀ bucket, r.stage ≠ .running bucket) (j : Fin n) :
    Held ((release (s.put i r) i).requests j) := by
  have mine : (s.put i r).requests i = r := Function.update_self ..
  unfold release
  dsimp only
  rw [mine]
  split
  · have twice : Function.update (Function.update s.requests i r) i { r with slot := none } =
        Function.update s.requests i { r with slot := none } := Function.update_idem ..
    change Held (Function.update (Function.update s.requests i r) i { r with slot := none } j)
    rw [twice]
    exact @held_put _ s held i { r with slot := none } (held_free stopped rfl) j
  · next free => exact held_put held (held_free stopped free) j

theorem holding_step (holding : Holding limits s) {e : Event n} (ok : Ok limits classify s e)
    {s' : Server n} (went : step limits classify s e = some s') : Holding limits s' := by
  refine ⟨counted_step holding.counted went, ?_⟩
  have held := holding.held
  cases e with
  | preHandler i =>
    simp only [step] at went
    split at went
    · next arrived =>
      cases went
      have free : (s.requests i).slot = none := by
        by_contra some_
        obtain ⟨bucket, slot⟩ := Option.ne_none_iff_exists'.mp some_
        have admitted := holding.counted.sound i bucket slot
        rw [arrived] at admitted
        cases admitted
      unfold preHandler
      cases class_ : classify i with
      | exempt =>
        refine held_put held (held_free ?_ free)
        intro bucket running
        cases running
      | slot bucket =>
        dsimp only
        split
        · refine held_put held (held_free ?_ free)
          intro bucket running
          cases running
        · next room =>
          have unfired := ok bucket class_ (not_le.mp room)
          refine held_put held ⟨fun other running => ?_, fun _ => unfired⟩
          cases running
          rfl
    · cases went
  | complete i =>
    simp only [step] at went
    split at went
    · cases went
      refine held_put held ⟨fun bucket running => ?_, (held i).unfired⟩
      cases running
    · cases went
  | onRequestAbort i =>
    simp only [step] at went
    split at went
    · cases went
    · cases went
      exact held_release held ok
  | onResponse i =>
    simp only [step] at went
    split at went
    · cases went
    · cases went
      exact held_release held ok

theorem Holding.safe (holding : Holding limits s) : Safe limits s where
  counted := holding.counted.unreleased_eq
  nonnegative := holding.counted.nonnegative
  bounded bucket := by
    have kept : (runningHandlers s bucket : ℤ) ≤ s.state bucket := by
      rw [holding.counted.unreleased_eq, runningHandlers, unreleased]
      refine Nat.cast_le.mpr (Finset.card_le_card fun i mem => ?_)
      have running := (Finset.mem_filter.mp mem).2
      refine Finset.mem_filter.mpr ⟨Finset.mem_univ i, ?_, ?_⟩
      · rw [running]
        rfl
      · rw [(holding.held i).holds bucket running]
        nofun
    exact Nat.cast_le.mp (kept.trans (holding.counted.bounded bucket))
  drained := by
    intro ended bucket
    rw [holding.counted.counted]
    refine Finset.sum_eq_zero fun i _ => if_neg fun slot => ?_
    have admitted := holding.counted.sound i bucket slot
    have unfired := (holding.held i).unfired (by rw [slot]; nofun)
    have over_ : (s.requests i).stage.ended false = true := by
      have own := ended i
      rwa [Ended, unfired.1, unfired.2] at own
    cases stage : (s.requests i).stage with
    | running own =>
      rw [stage] at over_
      cases over_
    | completed own =>
      rw [stage] at over_
      cases over_
    | arrived =>
      rw [stage] at admitted
      cases admitted
    | exempt =>
      rw [stage] at admitted
      cases admitted
    | refused reply =>
      rw [stage] at admitted
      cases admitted

/-- The slots bound the running handlers and are all given back, in every run where no hook
fires for a running handler and no request is admitted that a hook has fired for. -/
theorem slots_bound_handlers (limits : Limits) (classify : Fin n → Category) (es : List (Event n))
    (ok : ∀ p ∈ taken (step limits classify) (register n) es, Ok limits classify p.1 p.2) :
    ∀ s ∈ visited (step limits classify) (register n) es, Safe limits s := by
  intro s mem
  have init : Holding limits (register n) :=
    ⟨counted_register limits, fun i => held_free nofun rfl⟩
  exact (@visited_of_taken _ _ (step limits classify) (Holding limits) (Ok limits classify)
    (fun s e t holding ok went => holding_step holding ok went) _ init es ok s mem).safe

end Holding

section Runs

def oneSlot : Limits := ⟨1, 1, 1000⟩

/-- Two heavy requests, one after the other. -/
theorem slots_bound_orderly :
    (taken (step oneSlot fun _ : Fin 2 => .slot .heavy) (register 2)
        [.preHandler 0, .complete 0, .onResponse 0, .preHandler 1, .complete 1,
          .onRequestAbort 1]).length = 6 ∧
      ∀ s ∈ visited (step oneSlot fun _ : Fin 2 => .slot .heavy) (register 2)
        [.preHandler 0, .complete 0, .onResponse 0, .preHandler 1, .complete 1,
          .onRequestAbort 1], Safe oneSlot s :=
  ⟨by decide, slots_bound_handlers oneSlot (fun _ => .slot .heavy) _ (by decide)⟩

/-- A client that goes while its handler runs lets a second handler start; a request that is
admitted when its client is gone already keeps its slot. -/
theorem slots_abandoned :
    (∃ s ∈ visited (step oneSlot fun _ : Fin 2 => .slot .heavy) (register 2)
        [.preHandler 0, .onRequestAbort 0, .preHandler 1],
      oneSlot.of .heavy < runningHandlers s .heavy) ∧
    ∃ s ∈ visited (step oneSlot fun _ : Fin 2 => .slot .heavy) (register 2)
        [.onRequestAbort 0, .preHandler 0, .complete 0],
      (∀ i, Ended (s.requests i)) ∧ s.state .heavy ≠ 0 :=
  ⟨⟨_, final_mem_visited _ _, by decide⟩, ⟨_, final_mem_visited _ _, by decide⟩⟩

end Runs

end Backpressure
