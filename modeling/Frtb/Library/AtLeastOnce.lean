import Mathlib.Algebra.Order.BigOperators.Group.Finset

/-!
# Lists that return each key at least once

A scan returns every key of a set, some of them more than once. What is collected key by key
along it is what the keys hold, up to order, exactly when no key that holds anything is returned
twice.
-/

namespace AtLeastOnce

variable {K β : Type*} [DecidableEq K] {keys scan : List K}

/-- The scan returns the keys and no others. -/
structure Returns (scan keys : List K) : Prop where
  nodup : keys.Nodup
  covers : ∀ k ∈ keys, k ∈ scan
  only : ∀ k ∈ scan, k ∈ keys

/-- No key that holds anything is returned twice. -/
def Once (g : K → List β) (scan : List K) : Prop := ∀ k, g k ≠ [] → scan.count k ≤ 1

omit [DecidableEq K] in
theorem flatMap_filter_ne_nil (g : K → List β) (l : List K) :
    (l.filter fun k => !(g k).isEmpty).flatMap g = l.flatMap g := by
  induction l with
  | nil => rfl
  | cons k l ih =>
    rw [List.filter_cons, List.flatMap_cons]
    split
    · rw [List.flatMap_cons, ih]
    · rename_i empty
      rw [Bool.not_eq_true, Bool.not_eq_false', List.isEmpty_iff] at empty
      rw [ih, empty, List.nil_append]

theorem Returns.perm_of_once (returns : Returns scan keys) {g : K → List β} (once : Once g scan) :
    (scan.flatMap g).Perm (keys.flatMap g) := by
  have kept : (scan.filter fun k => !(g k).isEmpty).Perm (keys.filter fun k => !(g k).isEmpty) := by
    rw [List.perm_ext_iff_of_nodup _ (returns.nodup.filter _)]
    · intro k
      simp only [List.mem_filter]
      exact and_congr_left fun _ => ⟨returns.only k, returns.covers k⟩
    · rw [List.nodup_iff_count_le_one]
      intro k
      by_cases holds : g k = []
      · have absent : k ∉ scan.filter fun k => !(g k).isEmpty := by
          simp [List.mem_filter, holds]
        rw [List.count_eq_zero_of_not_mem absent]
        exact zero_le_one
      · exact (List.Sublist.count_le k List.filter_sublist).trans (once k holds)
  rw [← flatMap_filter_ne_nil g scan, ← flatMap_filter_ne_nil g keys]
  exact kept.flatMap_right g

theorem countP_flatMap (q : β → Bool) (g : K → List β) (l : List K) :
    (l.flatMap g).countP q = ∑ k ∈ l.toFinset, l.count k * (g k).countP q := by
  rw [List.countP_flatMap, Finset.sum_list_map_count]
  rfl

theorem Returns.toFinset_eq (returns : Returns scan keys) : scan.toFinset = keys.toFinset := by
  ext k
  rw [List.mem_toFinset, List.mem_toFinset]
  exact ⟨returns.only k, returns.covers k⟩

/-- Of anything a scan collects at least as much as there is. -/
theorem Returns.term_le (returns : Returns scan keys) (q : β → Bool) (g : K → List β) :
    ∀ k ∈ keys.toFinset, keys.count k * (g k).countP q ≤ scan.count k * (g k).countP q := by
  intro k mem
  rw [List.mem_toFinset] at mem
  refine Nat.mul_le_mul_right _ ?_
  rw [List.count_eq_one_of_mem returns.nodup mem]
  exact List.count_pos_iff.mpr (returns.covers k mem)

theorem Returns.countP_le (returns : Returns scan keys) (q : β → Bool) (g : K → List β) :
    (keys.flatMap g).countP q ≤ (scan.flatMap g).countP q := by
  rw [countP_flatMap, countP_flatMap, returns.toFinset_eq]
  exact Finset.sum_le_sum (returns.term_le q g)

/-- Where it collects no more, no key that holds any of it is returned twice. -/
theorem Returns.count_le_one (returns : Returns scan keys) {q : β → Bool} {g : K → List β}
    (same : (scan.flatMap g).countP q ≤ (keys.flatMap g).countP q) {k : K}
    (holds : ∃ b ∈ g k, q b = true) : scan.count k ≤ 1 := by
  by_cases mem : k ∈ keys
  · rw [countP_flatMap, countP_flatMap, returns.toFinset_eq] at same
    have eq := (Finset.sum_eq_sum_iff_of_le (returns.term_le q g)).mp
      (le_antisymm (Finset.sum_le_sum (returns.term_le q g)) same) k (List.mem_toFinset.mpr mem)
    rw [List.count_eq_one_of_mem returns.nodup mem] at eq
    have pos : 0 < (g k).countP q := List.countP_pos_iff.mpr holds
    exact (Nat.eq_of_mul_eq_mul_right pos eq).ge
  · rw [List.count_eq_zero_of_not_mem fun back => mem (returns.only k back)]
    exact zero_le_one

end AtLeastOnce
