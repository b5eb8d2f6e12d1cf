import Mathlib.Algebra.BigOperators.Group.List.Basic
import Mathlib.Algebra.BigOperators.Ring.List
import Mathlib.Algebra.Order.BigOperators.Group.List
import Mathlib.Tactic.Ring
import Mathlib.Tactic.Abel

/-!
# Sums over the pairs of distinct positions of a list

The double loop `for k, for l, if k ≠ l` over a list, as the full double sum
without its diagonal.
-/

namespace PairSums

variable {α M : Type*}

/-- The sum of `f a b` over all pairs of elements at distinct positions. -/
def pairSum [AddCommMonoid M] (f : α → α → M) (l : List α) : M :=
  (l.zipIdx.map fun p => (l.zipIdx.map fun q => if p.2 = q.2 then 0 else f p.1 q.1).sum).sum

theorem pairSum_map {β : Type*} [AddCommMonoid M] (f : β → β → M) (g : α → β) (l : List α) :
    pairSum f (l.map g) = pairSum (fun a b => f (g a) (g b)) l := by
  simp only [pairSum, List.zipIdx_map, List.map_map, Function.comp_def, Prod.map]
  rfl

theorem sum_map_add [AddCommMonoid M] (f g : α → M) (l : List α) :
    (l.map fun a => f a + g a).sum = (l.map f).sum + (l.map g).sum := by
  induction l with
  | nil => simp
  | cons a l ih =>
    simp only [List.map_cons, List.sum_cons, ih]
    exact add_add_add_comm _ _ _ _

theorem sum_map_neg [AddCommGroup M] (f : α → M) (l : List α) :
    (l.map fun a => -f a).sum = -(l.map f).sum := by
  induction l with
  | nil => simp
  | cons a l ih =>
    simp only [List.map_cons, List.sum_cons, ih]
    exact (neg_add _ _).symm

/-- A sum in which one position of the list is left out. -/
theorem sum_zipIdx_ite [AddCommGroup M] (g : α → M) {l : List (α × ℕ)}
    (positions : (l.map Prod.snd).Nodup) {p : α × ℕ} (mem : p ∈ l) :
    (l.map fun q => if p.2 = q.2 then 0 else g q.1).sum = (l.map fun q => g q.1).sum - g p.1 := by
  induction l with
  | nil => cases mem
  | cons q l ih =>
    rw [List.map_cons, List.nodup_cons] at positions
    simp only [List.map_cons, List.sum_cons]
    rcases List.mem_cons.mp mem with rfl | mem
    · have rest : ∀ q ∈ l, (if p.2 = q.2 then 0 else g q.1) = g q.1 := by
        intro q hq
        apply if_neg
        intro same
        exact positions.1 (same ▸ List.mem_map_of_mem hq)
      rw [if_pos rfl, List.map_congr_left rest, zero_add, add_sub_cancel_left]
    · have other : p.2 ≠ q.2 := by
        intro same
        exact positions.1 (same ▸ List.mem_map_of_mem mem)
      rw [if_neg other, ih positions.2 mem, add_sub_assoc]

theorem positions_nodup (l : List α) : (l.zipIdx.map Prod.snd).Nodup := by
  rw [List.zipIdx_map_snd]
  exact List.nodup_range'

/-- The pairs of distinct positions are all pairs without the diagonal. -/
theorem pairSum_eq [AddCommGroup M] (f : α → α → M) (l : List α) :
    pairSum f l = (l.map fun a => (l.map fun b => f a b).sum).sum - (l.map fun a => f a a).sum := by
  have inner : ∀ p ∈ l.zipIdx, (l.zipIdx.map fun q => if p.2 = q.2 then 0 else f p.1 q.1).sum =
      (l.map fun b => f p.1 b).sum + -f p.1 p.1 := by
    intro p mem
    rw [sum_zipIdx_ite (f p.1) (positions_nodup l) mem, sub_eq_add_neg]
    congr 2
    have firsts : l = l.zipIdx.map Prod.fst := List.zipIdx_map_fst 0 l |>.symm
    conv_rhs => rw [firsts, List.map_map]
    rfl
  rw [pairSum, List.map_congr_left inner]
  have firsts : l.zipIdx.map Prod.fst = l := List.zipIdx_map_fst 0 l
  have outer : (l.zipIdx.map fun p => (l.map fun b => f p.1 b).sum + -f p.1 p.1) =
      (l.zipIdx.map Prod.fst).map fun a => (l.map fun b => f a b).sum + -f a a := by
    rw [List.map_map]
    rfl
  rw [outer, firsts, sum_map_add, sum_map_neg, sub_eq_add_neg]

theorem sum_mul_sum {R : Type*} [CommRing R] (f g : α → R) (l m : List α) :
    (l.map fun a => (m.map fun b => f a * g b).sum).sum = (l.map f).sum * (m.map g).sum := by
  induction l with
  | nil => simp
  | cons a l ih =>
    rw [List.map_cons, List.sum_cons, ih, List.map_cons, List.sum_cons, add_mul,
      List.sum_map_mul_left]

/-- The sum over pairs does not depend on the order of the list. -/
theorem pairSum_perm [AddCommGroup M] (f : α → α → M) {l l' : List α} (perm : l.Perm l') :
    pairSum f l = pairSum f l' := by
  rw [pairSum_eq, pairSum_eq, (perm.map fun a => f a a).sum_eq]
  have inner : ∀ a, (l.map fun b => f a b).sum = (l'.map fun b => f a b).sum :=
    fun a => (perm.map (f a)).sum_eq
  simp only [inner, (perm.map fun a => (l'.map fun b => f a b).sum).sum_eq]

/-- The pairs of products of two values, under one factor. -/
theorem pairSum_mul {R : Type*} [CommRing R] (g : R) (s : α → R) (l : List α) :
    pairSum (fun a b => g * s a * s b) l =
      g * ((l.map s).sum * (l.map s).sum - (l.map fun a => s a * s a).sum) := by
  have all : (l.map fun a => (l.map fun b => g * s a * s b).sum).sum =
      g * ((l.map s).sum * (l.map s).sum) := by
    rw [sum_mul_sum (fun a => g * s a) s, List.sum_map_mul_left, mul_assoc]
  have diagonal : (l.map fun a => g * s a * s a).sum = g * (l.map fun a => s a * s a).sum := by
    rw [← List.sum_map_mul_left]
    exact congrArg List.sum (List.map_congr_left fun a _ => mul_assoc g (s a) (s a))
  rw [pairSum_eq, all, diagonal, mul_sub]

/-- The two loops can be exchanged. -/
theorem sum_sum_comm [AddCommMonoid M] (f : α → α → M) (l m : List α) :
    (l.map fun a => (m.map fun b => f a b).sum).sum =
      (m.map fun b => (l.map fun a => f a b).sum).sum := by
  induction l with
  | nil => simp
  | cons a l ih =>
    simp only [List.map_cons, List.sum_cons, ih]
    rw [sum_map_add]

theorem pairSum_swap [AddCommGroup M] (f : α → α → M) (l : List α) :
    pairSum f l = pairSum (fun a b => f b a) l := by
  rw [pairSum_eq, pairSum_eq, sum_sum_comm]

/-- The pairs of a value of the first with a factor of both. -/
theorem pairSum_left {R : Type*} [CommRing R] (s : α → R) (f : α → α → R) (l : List α) :
    pairSum (fun a b => s a * f a b) l =
      (l.map fun a => s a * ((l.map fun b => f a b).sum - f a a)).sum := by
  have each : (l.map fun a => s a * ((l.map fun b => f a b).sum - f a a)) =
      l.map fun a => (l.map fun b => s a * f a b).sum + -(s a * f a a) := by
    refine List.map_congr_left fun a _ => ?_
    rw [List.sum_map_mul_left]
    ring
  rw [pairSum_eq, each, sum_map_add, sum_map_neg, sub_eq_add_neg]

theorem pairSum_add [AddCommGroup M] (f g : α → α → M) (l : List α) :
    pairSum (fun a b => f a b + g a b) l = pairSum f l + pairSum g l := by
  simp only [pairSum_eq, sum_map_add]
  abel

theorem pairSum_mul_left {R : Type*} [CommRing R] (r : R) (f : α → α → R) (l : List α) :
    pairSum (fun a b => r * f a b) l = r * pairSum f l := by
  simp only [pairSum_eq, List.sum_map_mul_left]
  ring

theorem pairSum_mono {R : Type*} [AddCommMonoid R] [PartialOrder R] [IsOrderedAddMonoid R]
    {f g : α → α → R} {l : List α} (le : ∀ a ∈ l, ∀ b ∈ l, f a b ≤ g a b) :
    pairSum f l ≤ pairSum g l := by
  unfold pairSum
  refine List.sum_le_sum fun p listed => List.sum_le_sum fun q listed' => ?_
  split
  · exact le_rfl
  · exact le _ (List.fst_mem_of_mem_zipIdx listed) _ (List.fst_mem_of_mem_zipIdx listed')

end PairSums
