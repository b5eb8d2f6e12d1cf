import Mathlib.Algebra.BigOperators.Ring.List
import Mathlib.Algebra.Order.BigOperators.Group.List
import Mathlib.Algebra.Order.Ring.Rat
import Mathlib.Tactic.Linarith
import Mathlib.Tactic.NormNum
import Mathlib.Tactic.Ring

/-!
# Sums under weights

When two sums of the same terms, one of them weighted, can agree. One list of
terms and its squares tell a weight from one, unless the weight is minus one and
the terms cancel; over a table whose columns are weighted by one or minus one
the squares of the rows tell the two kinds of columns apart.
-/

namespace WeightedSums

section Sums
variable {α : Type*}

/-- Sums that agree agree term by term when one never exceeds the other. -/
theorem eq_of_sum_eq {l : List α} {f g : α → ℚ} (le : ∀ a ∈ l, f a ≤ g a)
    (same : (l.map f).sum = (l.map g).sum) : ∀ a ∈ l, f a = g a := by
  induction l with
  | nil =>
    intro a mem
    cases mem
  | cons a l ih =>
    have rest : (l.map f).sum ≤ (l.map g).sum :=
      List.sum_le_sum fun b mem => le b (List.mem_cons_of_mem _ mem)
    have first := le a List.mem_cons_self
    simp only [List.map_cons, List.sum_cons] at same
    intro b mem
    rcases List.mem_cons.mp mem with rfl | mem
    · linarith
    · exact ih (fun b mem => le b (List.mem_cons_of_mem _ mem)) (by linarith) b mem

theorem sum_pos_iff {l : List α} {f : α → ℚ} (nonneg : ∀ a ∈ l, 0 ≤ f a) :
    0 < (l.map f).sum ↔ ∃ a ∈ l, f a ≠ 0 := by
  constructor
  · intro positive
    by_contra none_
    push Not at none_
    rw [List.sum_eq_zero (by simpa using none_)] at positive
    exact lt_irrefl _ positive
  · rintro ⟨a, mem, nonzero⟩
    refine lt_of_lt_of_le (lt_of_le_of_ne (nonneg a mem) nonzero.symm) ?_
    refine List.single_le_sum ?_ _ (List.mem_map_of_mem mem)
    intro x listed
    obtain ⟨b, mem, rfl⟩ := List.mem_map.mp listed
    exact nonneg b mem

/-- A factor that changes neither the sum nor the sum of squares. -/
theorem unseen_iff (l : List α) (x : α → ℚ) (w : ℚ) :
    ((l.map x).sum = (l.map fun a => w * x a).sum ∧
        (l.map fun a => x a * x a).sum = (l.map fun a => w * x a * (w * x a)).sum) ↔
      (∀ a ∈ l, x a = 0) ∨ w = 1 ∨ w = -1 ∧ (l.map x).sum = 0 := by
  have scaled : (l.map fun a => w * x a).sum = w * (l.map x).sum := List.sum_map_mul_left l x w
  have squares : (l.map fun a => w * x a * (w * x a)).sum =
      w * w * (l.map fun a => x a * x a).sum := by
    rw [← List.sum_map_mul_left]
    exact congrArg List.sum (List.map_congr_left fun a _ => by ring)
  rw [scaled, squares]
  constructor
  · rintro ⟨sums, sqs⟩
    by_cases zero : ∀ a ∈ l, x a = 0
    · exact .inl zero
    push Not at zero
    obtain ⟨a, mem, nonzero⟩ := zero
    have positive : 0 < (l.map fun a => x a * x a).sum :=
      (sum_pos_iff fun a _ => mul_self_nonneg (x a)).mpr ⟨a, mem, mul_self_ne_zero.mpr nonzero⟩
    have unit : w * w = 1 := by
      have factored : (w * w - 1) * (l.map fun a => x a * x a).sum = 0 := by linarith
      rcases mul_eq_zero.mp factored with zero | zero
      · linarith
      · exact absurd zero positive.ne'
    rcases mul_self_eq_one_iff.mp unit with one | minus
    · exact .inr (.inl one)
    · refine .inr (.inr ⟨minus, ?_⟩)
      rw [minus] at sums
      linarith
  · rintro (zero | one | ⟨minus, cancel⟩)
    · have sums : (l.map x).sum = 0 := List.sum_eq_zero (by simpa using zero)
      have sqs : (l.map fun a => x a * x a).sum = 0 :=
        List.sum_eq_zero (by simpa using zero)
      rw [sums, sqs]
      simp
    · rw [one]
      simp
    · rw [minus, cancel]
      simp

variable {β : Type*}

/-- The values under weight `w`, added up. -/
def weightedSum (labels : List β) (weight : β → ℚ) (w : ℚ) (x : β → ℚ) : ℚ :=
  ((labels.filter fun l => weight l = w).map x).sum

/-- Where each weight in use is one or minus one, a sum splits by the weight. -/
theorem sum_split (labels : List β) (weight x : β → ℚ)
    (units : ∀ l ∈ labels, x l = 0 ∨ weight l = 1 ∨ weight l = -1) :
    (labels.map x).sum =
        weightedSum labels weight 1 x + weightedSum labels weight (-1) x ∧
      (labels.map fun l => weight l * x l).sum =
        weightedSum labels weight 1 x - weightedSum labels weight (-1) x := by
  induction labels with
  | nil => simp [weightedSum]
  | cons l labels ih =>
    obtain ⟨plain, weighed⟩ := ih fun l' mem => units l' (List.mem_cons_of_mem _ mem)
    have step : ∀ w, weightedSum (l :: labels) weight w x =
        (if weight l = w then x l else 0) + weightedSum labels weight w x := by
      intro w
      unfold weightedSum
      by_cases here : weight l = w
      · rw [List.filter_cons_of_pos (by simpa using here), List.map_cons, List.sum_cons,
          if_pos here]
      · rw [List.filter_cons_of_neg (by simpa using here), if_neg here, zero_add]
    rw [List.map_cons, List.map_cons, List.sum_cons, List.sum_cons, plain, weighed, step, step]
    rcases units l List.mem_cons_self with zero | one | minus
    · rw [zero, ite_self, ite_self]
      constructor <;> ring
    · rw [one, if_pos rfl, if_neg (by norm_num)]
      constructor <;> ring
    · rw [minus, if_neg (by norm_num), if_pos rfl]
      constructor <;> ring

/-- Sums over a table, by columns. -/
theorem sum_weightedSum (l : List α) (labels : List β) (weight : β → ℚ) (w : ℚ) (x : α → β → ℚ)
    (columns : ∀ b ∈ labels, weight b = w → (l.map fun a => x a b).sum = 0) :
    (l.map fun a => weightedSum labels weight w (x a)).sum = 0 := by
  have each : ∀ bs : List β, (∀ b ∈ bs, (l.map fun a => x a b).sum = 0) →
      (l.map fun a => (bs.map (x a)).sum).sum = 0 := by
    intro bs
    induction bs with
    | nil => simp
    | cons b bs ih =>
      intro zero
      simp only [List.map_cons, List.sum_cons, List.sum_map_add]
      rw [zero b List.mem_cons_self, ih fun b' mem =>
        zero b' (List.mem_cons_of_mem _ mem), zero_add]
  refine each _ fun b mem => ?_
  rw [List.mem_filter, decide_eq_true_eq] at mem
  exact columns b mem.1 mem.2

/-- The sums and the sums of squares of the rows of a table whose weights are
one or minus one, or meet zeros only. -/
theorem rows_unseen (l : List α) (labels : List β) (weight : β → ℚ) (x : α → β → ℚ)
    (columns : ∀ b ∈ labels, (∀ a ∈ l, x a b = 0) ∨ weight b = 1 ∨
      weight b = -1 ∧ (l.map fun a => x a b).sum = 0) :
    (l.map fun a => (labels.map (x a)).sum).sum =
        (l.map fun a => (labels.map fun b => weight b * x a b).sum).sum ∧
      ((l.map fun a => (labels.map (x a)).sum * (labels.map (x a)).sum).sum =
          (l.map fun a => (labels.map fun b => weight b * x a b).sum *
            (labels.map fun b => weight b * x a b).sum).sum ↔
        (l.map fun a => weightedSum labels weight 1 (x a) *
          weightedSum labels weight (-1) (x a)).sum = 0) := by
  have split := fun a mem => sum_split labels weight (x a) fun b listed =>
    (columns b listed).imp (fun zero => zero a mem) (Or.imp_right And.left)
  have cancel : (l.map fun a => weightedSum labels weight (-1) (x a)).sum = 0 := by
    refine sum_weightedSum l labels weight (-1) x fun b listed minus => ?_
    rcases columns b listed with zero | one | ⟨_, sums⟩
    · exact List.sum_eq_zero (by simpa using zero)
    · rw [minus] at one
      norm_num at one
    · exact sums
  have plain : (l.map fun a => (labels.map (x a)).sum) =
      l.map fun a => weightedSum labels weight 1 (x a) + weightedSum labels weight (-1) (x a) :=
    List.map_congr_left fun a mem => (split a mem).1
  have weighed : (l.map fun a => (labels.map fun b => weight b * x a b).sum) =
      l.map fun a => weightedSum labels weight 1
        (x a) + -1 * weightedSum labels weight (-1) (x a) :=
    List.map_congr_left fun a mem => by rw [(split a mem).2]; ring
  constructor
  · rw [plain, weighed, List.sum_map_add, List.sum_map_add, List.sum_map_mul_left, cancel]
    ring
  · have plainSq : (l.map fun a => (labels.map (x a)).sum * (labels.map (x a)).sum) =
        l.map fun a => (weightedSum labels weight 1 (x a) * weightedSum labels weight 1 (x a) +
          weightedSum labels weight (-1) (x a) * weightedSum labels weight (-1) (x a)) +
          2 * (weightedSum labels weight 1 (x a) * weightedSum labels weight (-1) (x a)) :=
      List.map_congr_left fun a mem => by rw [(split a mem).1]; ring
    have weighedSq : (l.map fun a => (labels.map fun b => weight b * x a b).sum *
          (labels.map fun b => weight b * x a b).sum) =
        l.map fun a => (weightedSum labels weight 1 (x a) * weightedSum labels weight 1 (x a) +
          weightedSum labels weight (-1) (x a) * weightedSum labels weight (-1) (x a)) +
          -2 * (weightedSum labels weight 1 (x a) * weightedSum labels weight (-1) (x a)) :=
      List.map_congr_left fun a mem => by rw [(split a mem).2]; ring
    simp only [plainSq, weighedSq, List.sum_map_add, List.sum_map_mul_left]
    constructor
    · intro same
      linarith
    · intro zero
      rw [zero]
      ring

end Sums

end WeightedSums
