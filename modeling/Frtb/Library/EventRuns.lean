import Mathlib.Data.List.Basic

/-!
# Runs of an event-driven program

A program that reacts to events is given by what each event does to its state; an
event the state does not admit has no result. A run is a list of events taken one
after another, and it ends early at the first event that is not admitted. The rules
below carry a fact about one event to every state of a run.
-/

namespace EventRuns

universe u v

variable {σ : Type u} {ε : Type v} (step : σ → ε → Option σ)

/-- The states a run goes through, the first one included. -/
def visited (s : σ) : List ε → List σ
  | [] => [s]
  | e :: es => s :: match step s e with
    | none => []
    | some t => visited t es

/-- The events a run takes, each with the state it finds. -/
def taken (s : σ) : List ε → List (σ × ε)
  | [] => []
  | e :: es => match step s e with
    | none => []
    | some t => (s, e) :: taken t es

/-- The state a run ends in. -/
def final (s : σ) : List ε → σ
  | [] => s
  | e :: es => match step s e with
    | none => s
    | some t => final t es

variable {step}

theorem mem_visited_self (s : σ) (es : List ε) : s ∈ visited step s es := by
  cases es <;> exact List.mem_cons_self

theorem final_mem_visited (s : σ) (es : List ε) : final step s es ∈ visited step s es := by
  induction es generalizing s with
  | nil => exact List.mem_cons_self
  | cons e es ih =>
    cases h : step s e with
    | none => simp only [final, visited, h, List.mem_singleton]
    | some t => simpa only [final, visited, h] using List.mem_cons_of_mem s (ih t)

/-- From every event it takes, a run goes on as a run of its own. -/
theorem taken_suffix {s : σ} {es : List ε} {p : σ × ε} (mem : p ∈ taken step s es) :
    ∃ t rest, step p.1 p.2 = some t ∧ final step t rest = final step s es ∧
      taken step t rest ⊆ taken step s es ∧ visited step t rest ⊆ visited step s es := by
  induction es generalizing s with
  | nil => cases mem
  | cons e es ih =>
    cases h : step s e with
    | none => simp only [taken, h, List.not_mem_nil] at mem
    | some t =>
      simp only [taken, visited, final, h] at mem ⊢
      rcases List.mem_cons.mp mem with rfl | later
      · exact ⟨t, es, h, rfl, List.subset_cons_self .., List.subset_cons_self ..⟩
      · obtain ⟨u, rest, own, last, sub, through⟩ := ih later
        exact ⟨u, rest, own, last, List.Subset.trans sub (List.subset_cons_self ..),
          List.Subset.trans through (List.subset_cons_self ..)⟩

/-- A longer run has either ended before its last part or goes through it from where the
first part ends. -/
theorem final_append (s : σ) (es fs : List ε) :
    final step s (es ++ fs) = final step s es ∨
      final step s (es ++ fs) = final step (final step s es) fs ∧
        taken step (final step s es) fs ⊆ taken step s (es ++ fs) := by
  induction es generalizing s with
  | nil => exact .inr ⟨rfl, fun _ mem => mem⟩
  | cons e es ih =>
    cases h : step s e with
    | none => exact .inl (by simp only [List.cons_append, final, h])
    | some t =>
      simp only [List.cons_append, final, taken, h]
      refine (ih t).imp_right fun later => ⟨later.1, ?_⟩
      exact fun p mem => List.mem_cons_of_mem _ (later.2 mem)

variable {Inv Safe : σ → Prop} {Ok : σ → ε → Prop}

/-- What every admitted event keeps holds all along the run. -/
theorem visited_of_taken (keep : ∀ s e t, Inv s → Ok s e → step s e = some t → Inv t)
    {s : σ} (init : Inv s) {es : List ε} (ok : ∀ p ∈ taken step s es, Ok p.1 p.2) :
    ∀ t ∈ visited step s es, Inv t := by
  induction es generalizing s with
  | nil => simpa only [visited, List.mem_singleton, forall_eq] using init
  | cons e es ih =>
    cases h : step s e with
    | none => simpa only [visited, h, List.mem_singleton, forall_eq] using init
    | some t =>
      simp only [visited, taken, h, List.forall_mem_cons] at ok ⊢
      exact ⟨init, ih (keep s e t init ok.1 h) ok.2⟩

/-- Where, given what is promised of its events, the events outside `Ok` are exactly those
that lose safety, a run is safe all along exactly when it takes none of them. -/
theorem visited_safe_iff_given {Given : σ → ε → Prop}
    (keep : ∀ s e t, Inv s → Given s e → Ok s e → step s e = some t → Inv t)
    (safe : ∀ s, Inv s → Safe s)
    (loss : ∀ s e t, Inv s → Given s e → ¬ Ok s e → step s e = some t → ¬ Safe t)
    {s : σ} (init : Inv s) (es : List ε) (given : ∀ p ∈ taken step s es, Given p.1 p.2) :
    (∀ t ∈ visited step s es, Safe t) ↔ ∀ p ∈ taken step s es, Ok p.1 p.2 := by
  constructor
  · intro all
    induction es generalizing s with
    | nil => rintro p mem; cases mem
    | cons e es ih =>
      cases h : step s e with
      | none => simp only [taken, h, List.not_mem_nil, false_implies, implies_true]
      | some t =>
        simp only [visited, taken, h, List.forall_mem_cons] at all given ⊢
        have ok : Ok s e := by
          by_contra bad
          exact loss s e t init given.1 bad h (all.2 t (mem_visited_self t es))
        exact ⟨ok, ih (keep s e t init given.1 ok h) given.2 all.2⟩
  · intro ok t mem
    have both : ∀ p ∈ taken step s es, Given p.1 p.2 ∧ Ok p.1 p.2 :=
      fun p mem => ⟨given p mem, ok p mem⟩
    exact safe t (@visited_of_taken _ _ step Inv (fun s e => Given s e ∧ Ok s e)
      (fun s e t inv own went => keep s e t inv own.1 own.2 went) s init es both t mem)

/-- Where the events outside `Ok` are exactly those that lose safety, a run is safe
all along exactly when it takes none of them. -/
theorem visited_safe_iff (keep : ∀ s e t, Inv s → Ok s e → step s e = some t → Inv t)
    (safe : ∀ s, Inv s → Safe s)
    (loss : ∀ s e t, Inv s → ¬ Ok s e → step s e = some t → ¬ Safe t)
    {s : σ} (init : Inv s) (es : List ε) :
    (∀ t ∈ visited step s es, Safe t) ↔ ∀ p ∈ taken step s es, Ok p.1 p.2 :=
  @visited_safe_iff_given _ _ step Inv Safe Ok (fun _ _ => True)
    (fun s e t inv _ ok went => keep s e t inv ok went) safe
    (fun s e t inv _ bad went => loss s e t inv bad went) s init es fun _ _ => trivial

/-- A fact about each event and the state it finds, along a run that keeps an invariant. -/
theorem taken_of_inv (keep : ∀ s e t, Inv s → Ok s e → step s e = some t → Inv t)
    {s : σ} (init : Inv s) {es : List ε} (ok : ∀ p ∈ taken step s es, Ok p.1 p.2) :
    ∀ p ∈ taken step s es, Inv p.1 := by
  induction es generalizing s with
  | nil => rintro p mem; cases mem
  | cons e es ih =>
    cases h : step s e with
    | none => simp only [taken, h, List.not_mem_nil, false_implies, implies_true]
    | some t =>
      simp only [taken, h, List.forall_mem_cons] at ok ⊢
      exact ⟨init, ih (keep s e t init ok.1 h) ok.2⟩

/-- Where every event spends some of a budget, a run takes no more events than that. -/
theorem length_taken_le (keep : ∀ s e t, Inv s → step s e = some t → Inv t) (cost : σ → ℕ)
    (spends : ∀ s e t, Inv s → step s e = some t → cost t < cost s) {s : σ} (init : Inv s)
    (es : List ε) : (taken step s es).length ≤ cost s := by
  induction es generalizing s with
  | nil => exact Nat.zero_le _
  | cons e es ih =>
    cases h : step s e with
    | none => simp only [taken, h, List.length_nil, Nat.zero_le]
    | some t =>
      have rest := ih (keep s e t init h)
      have less := spends s e t init h
      simp only [taken, h, List.length_cons]
      omega

/-- Where, given what is promised of it, an event goes well exactly when it is admitted, and going
well keeps what is needed for the next one, a run goes well all along exactly when it takes
admitted events only. -/
theorem taken_good_iff_given {Given : σ → ε → Prop} {Good : σ → ε → σ → Prop}
    (good : ∀ s e t, Inv s → Given s e → step s e = some t → (Good s e t ↔ Ok s e))
    (keep : ∀ s e t, Inv s → Given s e → step s e = some t → Good s e t → Inv t)
    {s : σ} (init : Inv s) (es : List ε) (given : ∀ p ∈ taken step s es, Given p.1 p.2) :
    (∀ p ∈ taken step s es, ∀ t, step p.1 p.2 = some t → Good p.1 p.2 t) ↔
      ∀ p ∈ taken step s es, Ok p.1 p.2 := by
  induction es generalizing s with
  | nil => simp only [taken, List.not_mem_nil, false_implies, implies_true]
  | cons e es ih =>
    cases h : step s e with
    | none => simp only [taken, h, List.not_mem_nil, false_implies, implies_true]
    | some t =>
      simp only [taken, h, List.forall_mem_cons, Option.some.injEq, forall_eq'] at given ⊢
      constructor
      · rintro ⟨first, rest⟩
        exact ⟨(good s e t init given.1 h).mp first,
          (ih (keep s e t init given.1 h first) given.2).mp rest⟩
      · rintro ⟨first, rest⟩
        have went := (good s e t init given.1 h).mpr first
        exact ⟨went, (ih (keep s e t init given.1 h went) given.2).mpr rest⟩

/-- Where an event goes well exactly when it is admitted, and going well keeps what is needed for
the next one, a run goes well all along exactly when it takes admitted events only. -/
theorem taken_good_iff {Good : σ → ε → σ → Prop}
    (good : ∀ s e t, Inv s → step s e = some t → (Good s e t ↔ Ok s e))
    (keep : ∀ s e t, Inv s → step s e = some t → Good s e t → Inv t)
    {s : σ} (init : Inv s) (es : List ε) :
    (∀ p ∈ taken step s es, ∀ t, step p.1 p.2 = some t → Good p.1 p.2 t) ↔
      ∀ p ∈ taken step s es, Ok p.1 p.2 :=
  @taken_good_iff_given _ _ step Inv Ok (fun _ _ => True) Good
    (fun s e t inv _ went => good s e t inv went)
    (fun s e t inv _ went well => keep s e t inv went well) s init es fun _ _ => trivial

end EventRuns
