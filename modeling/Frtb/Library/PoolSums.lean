import Mathlib.Algebra.BigOperators.Group.Finset.Basic
import Mathlib.Data.Fintype.Basic
import Mathlib.Tactic.Abel

/-!
# Sums over a pool

A pool is a family or a list of members. A sum over the members after one of them
has changed differs from the sum before by that member's part.
-/

namespace PoolSums

variable {ι α M : Type*} [AddCommMonoid M]

theorem sum_update [Fintype ι] [DecidableEq ι] (f : α → M) (pool : ι → α) (i : ι) (a : α) :
    ∑ j, f (Function.update pool i a j) + f (pool i) = ∑ j, f (pool j) + f a := by
  have split : ∀ g : ι → M, ∑ j, g j = g i + ∑ j ∈ Finset.univ.erase i, g j :=
    fun g => (Finset.add_sum_erase Finset.univ g (Finset.mem_univ i)).symm
  have others : ∑ j ∈ Finset.univ.erase i, f (Function.update pool i a j) =
      ∑ j ∈ Finset.univ.erase i, f (pool j) :=
    Finset.sum_congr rfl fun j mem => by rw [Function.update_of_ne (Finset.ne_of_mem_erase mem)]
  rw [split, split fun j => f (pool j), others, Function.update_self]
  abel

theorem sum_map_set (f : α → M) {pool : List α} {k : ℕ} {a : α} (here : pool[k]? = some a)
    (b : α) : ((pool.set k b).map f).sum + f a = (pool.map f).sum + f b := by
  induction pool generalizing k with
  | nil => cases here
  | cons c pool ih =>
    cases k with
    | zero =>
      obtain rfl := Option.some.inj here
      simp only [List.set_cons_zero, List.map_cons, List.sum_cons]
      abel
    | succ k =>
      have rest := ih here
      simp only [List.set_cons_succ, List.map_cons, List.sum_cons, add_assoc, rest]

end PoolSums
