import Frtb.Library.PairSums
import Mathlib.Data.List.Sort
import Mathlib.Tactic.Linarith

/-!
# The list of the pairs of distinct positions

The pairs that the double loop `for k, for l, if k ≠ l` visits, as a list: what it sums to,
how long it is, and the ones with the largest value.
-/

namespace OrderedPairs

open PairSums

section Pairs
variable {α M : Type*}

/-- Every ordered pair of elements at distinct positions. -/
def orderedPairs (l : List α) : List (α × α) :=
  l.zipIdx.flatMap fun p => (l.zipIdx.filter fun q => p.2 ≠ q.2).map fun q => (p.1, q.1)

theorem sum_filter_ne [AddCommMonoid M] (g : α → M) (i : ℕ) (l : List (α × ℕ)) :
    ((l.filter fun q => i ≠ q.2).map fun q => g q.1).sum =
      (l.map fun q => if i = q.2 then 0 else g q.1).sum := by
  induction l with
  | nil => rfl
  | cons q l ih =>
    by_cases same : i = q.2
    · rw [List.filter_cons_of_neg (by simp [same]), List.map_cons, List.sum_cons, if_pos same,
        zero_add, ih]
    · rw [List.filter_cons_of_pos (by simp [same]), List.map_cons, List.map_cons, List.sum_cons,
        List.sum_cons, if_neg same, ih]

theorem sum_orderedPairs [AddCommMonoid M] (f : α → α → M) (l : List α) :
    ((orderedPairs l).map fun p => f p.1 p.2).sum = pairSum f l := by
  have gathered (ps : List (α × ℕ)) :
      ((ps.flatMap fun p => (l.zipIdx.filter fun q => p.2 ≠ q.2).map fun q => (p.1, q.1)).map
        fun p => f p.1 p.2).sum =
      (ps.map fun p => (l.zipIdx.map fun q => if p.2 = q.2 then 0 else f p.1 q.1).sum).sum := by
    induction ps with
    | nil => rfl
    | cons p ps ih =>
      rw [List.flatMap_cons, List.map_append, List.sum_append, ih, List.map_cons, List.sum_cons,
        List.map_map, ← sum_filter_ne (f p.1) p.2 l.zipIdx]
      rfl
  exact gathered l.zipIdx

theorem length_orderedPairs (l : List α) :
    (orderedPairs l).length = l.length * (l.length - 1) := by
  have ones : ((orderedPairs l).length : ℤ) = pairSum (fun _ _ => (1 : ℤ)) l := by
    rw [← sum_orderedPairs]
    simp
  have counted : pairSum (fun _ _ => (1 : ℤ)) l = l.length * l.length - l.length := by
    rw [pairSum_eq]
    simp
  rw [counted] at ones
  cases long : l.length with
  | zero => simp_all
  | succ n =>
    have whole : ((orderedPairs l).length : ℤ) = ((n + 1) * n : ℕ) := by
      rw [ones, long]
      push_cast
      ring
    exact_mod_cast whole

end Pairs

section Largest
variable {α : Type*} {K : Type*} [LinearOrder K]

/-- `kept` are the `n` elements of `all` with the largest value, or all of them. -/
def Largest (value : α → K) (n : ℕ) (all kept : List α) : Prop :=
  kept.length = min n all.length ∧
    ∃ rest, (kept ++ rest).Perm all ∧ ∀ x ∈ kept, ∀ y ∈ rest, value y ≤ value x

/-- Sorted by the value, the largest first, the first `n` are the largest. -/
theorem largest_take (value : α → K) {r : α → α → Prop} [DecidableRel r]
    (spells : ∀ x y, r x y ↔ value y ≤ value x) (n : ℕ) (all : List α) :
    Largest value n all ((all.insertionSort r).take n) := by
  have total : Std.Total r := ⟨fun x y => by simp only [spells, le_total]⟩
  have trans_ : IsTrans α r :=
    ⟨fun x y z xy yz => (spells x z).mpr (le_trans ((spells y z).mp yz) ((spells x y).mp xy))⟩
  have sorted := List.pairwise_insertionSort r all
  have perm := List.perm_insertionSort r all
  refine ⟨?_, (all.insertionSort r).drop n, ?_, ?_⟩
  · rw [List.length_take, perm.length_eq]
  · rw [List.take_append_drop]
    exact perm
  · rw [← List.take_append_drop n (all.insertionSort r), List.pairwise_append] at sorted
    exact fun x hx y hy => (spells x y).mp (sorted.2.2 x hx y hy)

end Largest

end OrderedPairs
