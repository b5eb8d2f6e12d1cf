import Mathlib.Algebra.BigOperators.Group.Finset.Piecewise
import Mathlib.Algebra.Group.Action.Defs
import Mathlib.Data.Nat.ModEq

/-!
# Loops with a stride

The indices of `for (i = first; i < total; i += stride)`. Loops from each of the first
`stride` numbers share out the numbers below `total` between them.
-/

namespace StrideLoop

variable {total stride i : ℕ}

/-- How often the loop runs from `i` on. -/
def rounds (total stride i : ℕ) : ℕ := (total - i + stride - 1) / stride

/-- The indices of the loop from `i` on. -/
def indices (total stride i : ℕ) : List ℕ :=
  (List.range (rounds total stride i)).map fun k => i + k * stride

theorem rounds_of_lt (pos : 0 < stride) (inside : i < total) :
    rounds total stride i = rounds total stride (i + stride) + 1 := by
  have first : rounds total stride i = (total - i - 1) / stride + 1 := by
    rw [rounds, ← Nat.add_div_right _ pos]
    congr 1
    omega
  rw [first, rounds]
  by_cases more : i + stride < total
  · congr 2
    omega
  · have here : (total - i - 1) / stride = 0 := Nat.div_eq_of_lt (by omega)
    have next : (total - (i + stride) + stride - 1) / stride = 0 := Nat.div_eq_of_lt (by omega)
    rw [here, next]

theorem rounds_of_le (pos : 0 < stride) (outside : total ≤ i) : rounds total stride i = 0 :=
  Nat.div_eq_of_lt (by omega)

theorem indices_of_le (pos : 0 < stride) (outside : total ≤ i) : indices total stride i = [] := by
  rw [indices, rounds_of_le pos outside]
  rfl

theorem length_indices : (indices total stride i).length = rounds total stride i := by
  rw [indices, List.length_map, List.length_range]

theorem lt_rounds_iff (pos : 0 < stride) {k : ℕ} :
    k < rounds total stride i ↔ i + k * stride < total := by
  rw [rounds, ← Nat.succ_le_iff, Nat.le_div_iff_mul_le pos, Nat.succ_mul]
  omega

theorem mem_indices (first : i < stride) {n : ℕ} :
    n ∈ indices total stride i ↔ n < total ∧ n % stride = i := by
  have pos : 0 < stride := by omega
  rw [indices, List.mem_map]
  constructor
  · rintro ⟨k, round, rfl⟩
    rw [List.mem_range, lt_rounds_iff pos] at round
    exact ⟨round, by rw [Nat.add_mul_mod_self_right, Nat.mod_eq_of_lt first]⟩
  · rintro ⟨inside, residue⟩
    have split : i + n / stride * stride = n := by
      rw [← residue]
      exact Nat.mod_add_div' n stride
    refine ⟨n / stride, List.mem_range.mpr ((lt_rounds_iff pos).mpr ?_), split⟩
    rw [split]
    exact inside

theorem nodup_indices (pos : 0 < stride) : (indices total stride i).Nodup := by
  refine List.nodup_range.map fun k l same => ?_
  have multiples : k * stride = l * stride := by
    change i + k * stride = i + l * stride at same
    omega
  exact Nat.eq_of_mul_eq_mul_right pos multiples

/-- The loops from the first `stride` numbers run through every number below `total` once. -/
theorem indices_perm (pos : 0 < stride) :
    ((List.range stride).flatMap (indices total stride)).Perm (List.range total) := by
  refine (List.perm_ext_iff_of_nodup ?_ List.nodup_range).mpr fun n => ?_
  · refine List.nodup_flatMap.mpr ⟨fun i _ => nodup_indices pos, ?_⟩
    refine (List.nodup_range (n := stride)).imp_of_mem fun {i j} hi hj differ n own other => ?_
    rw [mem_indices (List.mem_range.mp hi)] at own
    rw [mem_indices (List.mem_range.mp hj)] at other
    exact differ (own.2.symm.trans other.2)
  · rw [List.mem_flatMap, List.mem_range]
    constructor
    · rintro ⟨i, first, mem⟩
      exact ((mem_indices (List.mem_range.mp first)).mp mem).1
    · intro inside
      exact ⟨n % stride, List.mem_range.mpr (Nat.mod_lt n pos),
        (mem_indices (Nat.mod_lt n pos)).mpr ⟨inside, rfl⟩⟩

/-- Together they run as often as there are numbers. -/
theorem sum_rounds (pos : 0 < stride) :
    ((List.range stride).map (rounds total stride)).sum = total := by
  have lengths := (@indices_perm total stride pos).length_eq
  rw [List.length_flatMap, List.length_range] at lengths
  simpa only [length_indices] using lengths

section Shares
variable {total stride period i : ℕ}

/-- The rounds of the loops from the first `stride` numbers differ by one at most. -/
theorem rounds_eq (first : i < stride) :
    rounds total stride i = total / stride + if i < total % stride then 1 else 0 := by
  have pos : 0 < stride := by omega
  have split := Nat.div_add_mod total stride
  have small := Nat.mod_lt total pos
  rw [rounds]
  by_cases more : i < total % stride
  · rw [if_pos more, Nat.div_eq_iff pos, Nat.add_mul]
    have order : total / stride * stride = stride * (total / stride) := Nat.mul_comm _ _
    omega
  · rw [if_neg more, Nat.add_zero, Nat.div_eq_iff pos]
    have order : total / stride * stride = stride * (total / stride) := Nat.mul_comm _ _
    omega

theorem rounds_mono {total' : ℕ} (le : total ≤ total') :
    rounds total stride i ≤ rounds total' stride i :=
  Nat.div_le_div_right (by omega)

/-- What the loops share out, when each takes `f` of its rounds. -/
theorem sum_map_rounds (pos : 0 < stride) (f : ℕ → ℕ) :
    ∑ i ∈ Finset.range stride, f (rounds total stride i) =
      total % stride * f (total / stride + 1) +
        (stride - total % stride) * f (total / stride) := by
  have each : ∀ i ∈ Finset.range stride, f (rounds total stride i) =
      if i < total % stride then f (total / stride + 1) else f (total / stride) := by
    intro i mem
    rw [rounds_eq (Finset.mem_range.mp mem)]
    split <;> rfl
  have small := (Nat.mod_lt total pos).le
  have longer : (Finset.range stride).filter (fun i => i < total % stride) =
      Finset.range (total % stride) := by
    ext i
    simp only [Finset.mem_filter, Finset.mem_range]
    omega
  have shorter : ((Finset.range stride).filter fun i => ¬i < total % stride).card =
      stride - total % stride := by
    rw [Finset.filter_not, longer,
      Finset.card_sdiff_of_subset (Finset.range_subset_range.mpr small), Finset.card_range,
      Finset.card_range]
  rw [Finset.sum_congr rfl each, Finset.sum_ite, longer, Finset.sum_const, Finset.sum_const,
    Finset.card_range, shorter, smul_eq_mul, smul_eq_mul]

/-- The common indices of two loops. -/
def shared (total stride i period c : ℕ) : List ℕ :=
  (indices total stride i).filter fun n => n % period = c

/-- Multiples of `period` repeat modulo `stride` after `stride / gcd stride period` steps. -/
theorem residue_eq_iff (pos : 0 < stride) {c k l : ℕ} :
    (c + k * period) % stride = (c + l * period) % stride ↔
      k % (stride / stride.gcd period) = l % (stride / stride.gcd period) := by
  constructor
  · intro same
    have steps : k * period ≡ l * period [MOD stride] := Nat.ModEq.add_left_cancel' c same
    exact Nat.ModEq.cancel_right_div_gcd pos steps
  · intro same
    have steps : k * period ≡ l * period [MOD stride / stride.gcd period * period] :=
      Nat.ModEq.mul_right' period same
    have divides : stride ∣ stride / stride.gcd period * period := by
      obtain ⟨m, hm⟩ := Nat.gcd_dvd_right stride period
      have whole := Nat.div_mul_cancel (Nat.gcd_dvd_left stride period)
      refine ⟨m, ?_⟩
      calc stride / stride.gcd period * period
          = stride / stride.gcd period * (stride.gcd period * m) := by rw [← hm]
        _ = stride * m := by rw [← Nat.mul_assoc, whole]
    exact Nat.ModEq.add_left c (steps.of_dvd divides)

theorem rounds_eq_card (first : i < stride) :
    rounds total stride i = ((Finset.range total).filter fun n => n % stride = i).card := by
  have pos : 0 < stride := by omega
  rw [← length_indices, ← List.toFinset_card_of_nodup (nodup_indices pos)]
  congr 1
  ext n
  rw [List.mem_toFinset, mem_indices first, Finset.mem_filter, Finset.mem_range]

theorem length_shared (first : i < stride) {c : ℕ} (residue : c < period) :
    (shared total stride i period c).length =
      ((Finset.range (rounds total period c)).filter fun k =>
        (c + k * period) % stride = i).card := by
  have pos : 0 < stride := by omega
  have pos' : 0 < period := by omega
  have nodup : (shared total stride i period c).Nodup := (nodup_indices pos).filter _
  have mem_shared : ∀ n, n ∈ (shared total stride i period c).toFinset ↔
      (n < total ∧ n % stride = i) ∧ n % period = c := by
    intro n
    rw [List.mem_toFinset, shared, List.mem_filter, mem_indices first, decide_eq_true_eq]
  rw [← List.toFinset_card_of_nodup nodup]
  symm
  refine Finset.card_bij (fun k _ => c + k * period) ?_ ?_ ?_
  · intro k mem
    rw [Finset.mem_filter, Finset.mem_range, lt_rounds_iff pos'] at mem
    rw [mem_shared, Nat.add_mul_mod_self_right]
    exact ⟨mem, Nat.mod_eq_of_lt residue⟩
  · intro k _ l _ same
    exact Nat.eq_of_mul_eq_mul_right pos' (by omega)
  · intro n mem
    rw [mem_shared] at mem
    have split : c + n / period * period = n := by
      rw [← mem.2]
      exact Nat.mod_add_div' n period
    refine ⟨n / period, ?_, split⟩
    rw [Finset.mem_filter, Finset.mem_range, lt_rounds_iff pos', split]
    exact mem.1

/-- The loops meet the indices of one residue in the shares of a coarser partition of
them: one loop out of `gcd stride period` meets some. -/
theorem sum_shared (pos : 0 < stride) {c : ℕ} (residue : c < period) (f : ℕ → ℕ)
    (zero : f 0 = 0) :
    ∑ i ∈ Finset.range stride, f (shared total stride i period c).length =
      ∑ j ∈ Finset.range (stride / stride.gcd period),
        f (rounds (rounds total period c) (stride / stride.gcd period) j) := by
  set m := stride / stride.gcd period with hm
  have posm : 0 < m := Nat.div_pos (Nat.gcd_le_left period pos) (Nat.gcd_pos_of_pos_left period pos)
  let loop := fun k => (c + k * period) % stride
  let fiber := fun i => (Finset.range (rounds total period c)).filter fun k => loop k = i
  have lengths : ∀ i ∈ Finset.range stride,
      f (shared total stride i period c).length = f (fiber i).card :=
    fun i mem => by rw [length_shared (Finset.mem_range.mp mem) residue]
  have image : (Finset.range m).image loop ⊆ Finset.range stride := by
    intro i mem
    obtain ⟨j, _, rfl⟩ := Finset.mem_image.mp mem
    exact Finset.mem_range.mpr (Nat.mod_lt _ pos)
  have missed : ∀ i ∈ Finset.range stride, i ∉ (Finset.range m).image loop →
      f (fiber i).card = 0 := by
    intro i _ outside
    have empty : fiber i = ∅ := by
      refine Finset.filter_eq_empty_iff.mpr fun k _ here => outside ?_
      refine Finset.mem_image.mpr ⟨k % m, Finset.mem_range.mpr (Nat.mod_lt k posm), ?_⟩
      rw [← here]
      exact (residue_eq_iff pos).mpr (Nat.mod_mod k m)
    rw [empty, Finset.card_empty, zero]
  have injective : Set.InjOn loop (Finset.range m) := by
    intro j hj j' hj' same
    have residues := (residue_eq_iff pos).mp same
    rwa [Nat.mod_eq_of_lt (Finset.mem_range.mp hj), Nat.mod_eq_of_lt (Finset.mem_range.mp hj')]
      at residues
  have shares : ∀ j ∈ Finset.range m,
      f (fiber (loop j)).card = f (rounds (rounds total period c) m j) := by
    intro j mem
    rw [rounds_eq_card (Finset.mem_range.mp mem)]
    congr 2
    ext k
    rw [Finset.mem_filter, Finset.mem_filter]
    refine and_congr_right fun _ => (residue_eq_iff pos).trans ?_
    rw [← hm, Nat.mod_eq_of_lt (Finset.mem_range.mp mem)]
  rw [Finset.sum_congr rfl lengths, ← Finset.sum_subset image missed,
    Finset.sum_image injective, Finset.sum_congr rfl shares]

end Shares

end StrideLoop
