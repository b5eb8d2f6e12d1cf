import Mathlib.Order.Lattice

/-!
# Reports with a high-water mark

Observations carry a value, and some close the series. Each is reported as the largest value
since the mark was set, and the mark is dropped by a closing observation. The reports never
fall exactly when, once an observation has closed the series, no value is below an
earlier one.
-/

namespace HighWater

variable {ω α : Type*} [LinearOrder α] (value : ω → α) (closes : ω → Bool) (floor : α)

/-- The observations, each with its report. Without a mark the report starts at `floor`. -/
def reported : Option α → List ω → List (ω × α)
  | _, [] => []
  | mark, o :: rest =>
    let next := max (mark.getD floor) (value o)
    (o, next) :: reported (if closes o then none else some next) rest

/-- After a closing observation no value is below one seen before. -/
def Settles (seen : List ω) : Prop :=
  ∀ before now after, seen = before ++ now :: after → (∃ o ∈ before, closes o = true) →
    ∀ o ∈ before, value o ≤ value now

variable {value closes floor} {mark : Option α} {seen : List ω}

theorem value_le_report {p : ω × α} (mem : p ∈ reported value closes floor mark seen) :
    value p.1 ≤ p.2 := by
  induction seen generalizing mark with
  | nil => cases mem
  | cons o rest ih =>
    rcases List.mem_cons.mp mem with rfl | mem
    · exact le_max_right _ _
    · exact ih mem

theorem mem_of_mem_reported {p : ω × α} (mem : p ∈ reported value closes floor mark seen) :
    p.1 ∈ seen := by
  induction seen generalizing mark with
  | nil => cases mem
  | cons o rest ih =>
    rcases List.mem_cons.mp mem with rfl | mem
    · exact List.mem_cons_self
    · exact List.mem_cons_of_mem _ (ih mem)

/-- A bound on the mark and the values is one on the reports. -/
theorem report_le {bound : α} (start : mark.getD floor ≤ bound) (low : floor ≤ bound)
    (values : ∀ o ∈ seen, value o ≤ bound) {p : ω × α}
    (mem : p ∈ reported value closes floor mark seen) : p.2 ≤ bound := by
  induction seen generalizing mark with
  | nil => cases mem
  | cons o rest ih =>
    have next : max (mark.getD floor) (value o) ≤ bound :=
      max_le start (values o List.mem_cons_self)
    rcases List.mem_cons.mp mem with rfl | mem
    · exact next
    · refine ih ?_ (fun o' mem' => values o' (List.mem_cons_of_mem _ mem')) mem
      split
      · exact low
      · exact next

/-- Where every observation closes, each is reported as it is. -/
theorem reported_closed (all : ∀ o ∈ seen, closes o = true) (low : ∀ o ∈ seen, floor ≤ value o) :
    reported value closes floor none seen = seen.map fun o => (o, value o) := by
  induction seen with
  | nil => rfl
  | cons o rest ih =>
    have rest' := ih (fun o' mem => all o' (List.mem_cons_of_mem _ mem))
      fun o' mem => low o' (List.mem_cons_of_mem _ mem)
    have first : max ((none : Option α).getD floor) (value o) = value o :=
      max_eq_right (low o List.mem_cons_self)
    rw [reported, if_pos (all o List.mem_cons_self), rest', List.map_cons, first]

theorem pairwise_iff_splits {R : ω → ω → Prop} :
    seen.Pairwise R ↔
      ∀ before now after, seen = before ++ now :: after → ∀ o ∈ before, R o now := by
  constructor
  · rintro pairs before now after rfl o mem
    exact (List.pairwise_append.mp pairs).2.2 o mem now List.mem_cons_self
  · intro held
    induction seen with
    | nil => exact List.Pairwise.nil
    | cons o rest ih =>
      refine List.pairwise_cons.mpr ⟨fun now mem => ?_, ih fun before now after split o' mem' => ?_⟩
      · obtain ⟨before, after, rfl⟩ := List.append_of_mem mem
        exact held (o :: before) now after rfl o List.mem_cons_self
      · exact held (o :: before) now after (by rw [split]; rfl) o' (List.mem_cons_of_mem _ mem')

/-- `Settles`, with what a mark remembers of the values before. -/
theorem settles_from {m : α} (stays : seen.Pairwise fun o o' => closes o = true → closes o' = true)
    (low : ∀ o ∈ seen, floor ≤ value o) :
    (m :: (reported value closes floor (some m) seen).map Prod.snd).Pairwise (· ≤ ·) ↔
      ∀ before now after, seen = before ++ now :: after → (∃ o ∈ before, closes o = true) →
        m ≤ value now ∧ ∀ o ∈ before, value o ≤ value now := by
  induction seen generalizing m with
  | nil =>
    constructor
    · intro _ before now after split
      simp at split
    · intro _
      simp [reported]
  | cons o rest ih =>
    obtain ⟨first, stays'⟩ := List.pairwise_cons.mp stays
    have low' : ∀ o ∈ rest, floor ≤ value o := fun o mem => low o (List.mem_cons_of_mem _ mem)
    have rises : m ≤ max m (value o) := le_max_left _ _
    have skip : ∀ l : List α, (m :: max m (value o) :: l).Pairwise (· ≤ ·) ↔
        (max m (value o) :: l).Pairwise (· ≤ ·) := by
      intro l
      rw [List.pairwise_cons]
      refine and_iff_right_of_imp fun later a mem => ?_
      rcases List.mem_cons.mp mem with rfl | mem
      · exact rises
      · exact rises.trans ((List.pairwise_cons.mp later).1 a mem)
    simp only [reported, List.map_cons, Option.getD_some]
    rw [skip]
    by_cases closed : closes o = true
    · have plain : (reported value closes floor none rest).map Prod.snd = rest.map value := by
        rw [reported_closed (fun o' mem => first o' mem closed) low', List.map_map]
        rfl
      rw [if_pos closed, plain, List.pairwise_cons, List.pairwise_map, pairwise_iff_splits]
      constructor
      · rintro ⟨above, order⟩ before now after split some_
        cases before with
        | nil => exact absurd some_ (by simp)
        | cons o' before =>
          obtain ⟨rfl, rest_⟩ := List.cons.inj split
          have le := above (value now) (List.mem_map_of_mem (by rw [rest_]; simp))
          refine ⟨rises.trans le, fun o'' mem => ?_⟩
          rcases List.mem_cons.mp mem with rfl | mem
          · exact (le_max_right _ _).trans le
          · exact order before now after rest_ o'' mem
      · intro held
        refine ⟨fun a mem => ?_, fun before now after rest_ o' mem => ?_⟩
        · obtain ⟨now, there, rfl⟩ := List.mem_map.mp mem
          obtain ⟨before, after, rest_⟩ := List.append_of_mem there
          obtain ⟨above, order⟩ := held (o :: before) now after (by rw [rest_]; rfl)
            ⟨o, List.mem_cons_self, closed⟩
          exact max_le above (order o List.mem_cons_self)
        · exact (held (o :: before) now after (by rw [rest_]; rfl)
            ⟨o, List.mem_cons_self, closed⟩).2 o' (List.mem_cons_of_mem _ mem)
    · rw [if_neg closed, ih stays' low']
      constructor
      · intro held before now after split some_
        cases before with
        | nil => exact absurd some_ (by simp)
        | cons o' before =>
          obtain ⟨rfl, rfl⟩ := List.cons.inj split
          have later : ∃ o ∈ before, closes o = true := by
            obtain ⟨c, mem, closes_⟩ := some_
            rcases List.mem_cons.mp mem with rfl | mem
            · exact absurd closes_ closed
            · exact ⟨c, mem, closes_⟩
          obtain ⟨above, order⟩ := held before now after rfl later
          refine ⟨rises.trans above, fun o'' mem => ?_⟩
          rcases List.mem_cons.mp mem with rfl | mem
          · exact (le_max_right _ _).trans above
          · exact order o'' mem
      · rintro held before now after rfl ⟨c, mem, closes_⟩
        obtain ⟨above, order⟩ := held (o :: before) now after rfl
          ⟨c, List.mem_cons_of_mem _ mem, closes_⟩
        exact ⟨max_le above (order o List.mem_cons_self),
          fun o' mem' => order o' (List.mem_cons_of_mem _ mem')⟩

/-- The reports never fall exactly when the series settles. -/
theorem reported_pairwise_iff
    (stays : seen.Pairwise fun o o' => closes o = true → closes o' = true)
    (low : ∀ o ∈ seen, floor ≤ value o) :
    (reported value closes floor none seen).Pairwise (fun p q => p.2 ≤ q.2) ↔
      Settles value closes seen := by
  have started : reported value closes floor none seen =
      reported value closes floor (some floor) seen := by
    cases seen <;> rfl
  have above : ∀ a ∈ (reported value closes floor (some floor) seen).map Prod.snd, floor ≤ a := by
    intro a mem
    obtain ⟨p, there, rfl⟩ := List.mem_map.mp mem
    exact (low _ (mem_of_mem_reported there)).trans (value_le_report there)
  have whole := settles_from (m := floor) stays low
  rw [List.pairwise_cons, and_iff_right above, List.pairwise_map] at whole
  rw [started, whole]
  constructor
  · intro held before now after split some_
    exact (held before now after split some_).2
  · intro settles before now after split some_
    exact ⟨low now (by rw [split]; simp), settles before now after split some_⟩

end HighWater
