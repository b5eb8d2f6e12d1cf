import Mathlib.Algebra.BigOperators.Group.Finset.Piecewise
import Frtb.Library.AssocMaps

/-!
# Ledgers settled by differences

Parties replace the current version of an account and owe the settled sum the
difference in worth. However the settlements are delayed and interleaved, the
settled sum and the debts together are the worth of the current versions, so a
ledger without debts has settled exactly that worth.
-/

namespace DeltaLedger

open AssocMaps

variable {ι α V : Type*} {G : Type*} [Fintype ι] [DecidableEq ι] [DecidableEq α] [AddCommGroup G]

/-- The current versions, what has been settled and what each party still owes. -/
structure Ledger (ι α V G : Type*) where
  current : Assoc α V
  settled : G
  owed : ι → G

namespace Ledger

def empty : Ledger ι α V G where
  current := ∅
  settled := 0
  owed := fun _ => 0

/-- What a new version of an account is worth more than the current one. -/
def gain (worth : V → G) (L : Ledger ι α V G) (a : α) (v : V) : G :=
  worth v - (L.current.lookup a).elim 0 worth

/-- Party `i` makes `v` the current version of account `a`. -/
def write (worth : V → G) (L : Ledger ι α V G) (i : ι) (a : α) (v : V) : Ledger ι α V G where
  current := L.current.insert a v
  settled := L.settled
  owed := Function.update L.owed i (L.owed i + L.gain worth a v)

/-- Party `i` pays what it owes. -/
def settle (L : Ledger ι α V G) (i : ι) : Ledger ι α V G where
  current := L.current
  settled := L.settled + L.owed i
  owed := Function.update L.owed i 0

def Balanced (worth : V → G) (L : Ledger ι α V G) : Prop :=
  L.settled + ∑ i, L.owed i = total (fun _ v => worth v) L.current

inductive Reach (worth : V → G) : Ledger ι α V G → Prop where
  | empty : Reach worth empty
  | write {L : Ledger ι α V G} (h : Reach worth L) (i : ι) (a : α) (v : V) :
      Reach worth (L.write worth i a v)
  | settle {L : Ledger ι α V G} (h : Reach worth L) (i : ι) : Reach worth (L.settle i)

theorem sum_update (owed : ι → G) (i : ι) (g : G) :
    ∑ j, Function.update owed i g j = g - owed i + ∑ j, owed j := by
  rw [Finset.sum_update_of_mem (Finset.mem_univ i),
    ← Finset.add_sum_erase _ owed (Finset.mem_univ i), Finset.sdiff_singleton_eq_erase]
  abel

theorem balanced_write {worth : V → G} {L : Ledger ι α V G} (h : L.Balanced worth) (i : ι)
    (a : α) (v : V) : (L.write worth i a v).Balanced worth := by
  simp only [Balanced] at h
  simp only [Balanced, write, sum_update, total_insert, ← h, gain]
  abel

omit [DecidableEq α] in
theorem balanced_settle {worth : V → G} {L : Ledger ι α V G} (h : L.Balanced worth) (i : ι) :
    (L.settle i).Balanced worth := by
  simp only [Balanced] at h
  simp only [Balanced, settle, sum_update, ← h]
  abel

theorem balanced_of_reach {worth : V → G} {L : Ledger ι α V G} (h : Reach worth L) :
    L.Balanced worth := by
  induction h with
  | empty => simp [Balanced, Ledger.empty]
  | write _ i a v ih => exact balanced_write ih i a v
  | settle _ i ih => exact balanced_settle ih i

/-- A reachable ledger in which nobody owes anything has settled the worth of
its current versions. -/
theorem settled_eq_total {worth : V → G} {L : Ledger ι α V G} (h : Reach worth L)
    (quiet : ∀ i, L.owed i = 0) : L.settled = total (fun _ v => worth v) L.current := by
  have balanced := balanced_of_reach h
  simpa only [Balanced, quiet, Finset.sum_const_zero, add_zero] using balanced

omit [Fintype ι] in
/-- A write that is settled at once, by a party that owed nothing. -/
theorem settled_write_settle (worth : V → G) (L : Ledger ι α V G) {i : ι} (clear : L.owed i = 0)
    (a : α) (v : V) :
    ((L.write worth i a v).settle i).settled = L.settled + L.gain worth a v := by
  simp only [settle, write, Function.update_self, clear, zero_add]

end Ledger

end DeltaLedger
