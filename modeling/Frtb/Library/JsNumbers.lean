import Frtb.Library.PairSums
import Mathlib.Analysis.Real.Sqrt

/-!
# Numbers with infinities and NaN

The numbers of a language without exceptions: finite ones, two infinities and
NaN. Finite arithmetic is exact; the special values follow the usual rules.
A sum of finite numbers is the finite sum.
-/

namespace JsNumbers

open PairSums

inductive JsNumber (K : Type*) where
  | nan
  | inf (negative : Bool)
  | fin (x : K)
deriving DecidableEq

namespace JsNumber

section Addition
variable {K : Type*} [AddCommMonoid K]

def add : JsNumber K → JsNumber K → JsNumber K
  | .fin x, .fin y => .fin (x + y)
  | .fin _, .inf s => .inf s
  | .inf s, .fin _ => .inf s
  | .inf s, .inf t => if s = t then .inf s else .nan
  | .nan, _ => .nan
  | _, .nan => .nan

instance : Zero (JsNumber K) := ⟨.fin 0⟩

instance : Add (JsNumber K) := ⟨add⟩

theorem fin_zero : (.fin 0 : JsNumber K) = 0 := rfl

theorem fin_add (x y : K) : (.fin x + .fin y : JsNumber K) = .fin (x + y) := rfl

theorem add_nan (a : JsNumber K) : a + .nan = .nan := by
  cases a <;> rfl

theorem nan_add (a : JsNumber K) : .nan + a = .nan := by
  cases a <;> rfl

instance : AddCommMonoid (JsNumber K) where
  add_assoc a b c := by
    cases a with
    | nan => simp only [nan_add]
    | inf s =>
      cases b with
      | nan => simp only [nan_add, add_nan]
      | inf t =>
        cases c with
        | nan => simp only [add_nan]
        | inf u => cases s <;> cases t <;> cases u <;> rfl
        | fin z => cases s <;> cases t <;> rfl
      | fin y => cases c <;> rfl
    | fin x =>
      cases b with
      | nan => simp only [nan_add, add_nan]
      | inf t =>
        cases c with
        | nan => rfl
        | inf u => cases t <;> cases u <;> rfl
        | fin z => rfl
      | fin y =>
        cases c with
        | nan => simp only [add_nan]
        | inf u => rfl
        | fin z => exact congrArg fin (add_assoc x y z)
  zero_add a := by
    cases a with
    | nan => rfl
    | inf s => rfl
    | fin x => exact congrArg fin (zero_add x)
  add_zero a := by
    cases a with
    | nan => rfl
    | inf s => rfl
    | fin x => exact congrArg fin (add_zero x)
  add_comm a b := by
    cases a with
    | nan => rw [nan_add, add_nan]
    | inf s =>
      cases b with
      | nan => rw [nan_add, add_nan]
      | inf t => cases s <;> cases t <;> rfl
      | fin y => rfl
    | fin x =>
      cases b with
      | nan => rw [nan_add, add_nan]
      | inf t => rfl
      | fin y => exact congrArg fin (add_comm x y)
  nsmul := nsmulRec

def toFinite : JsNumber K → Option K
  | .fin x => some x
  | _ => none

/-- The finite numbers, with their addition. -/
def finHom : K →+ JsNumber K where
  toFun := .fin
  map_zero' := rfl
  map_add' _ _ := rfl

theorem sum_fin {α : Type*} (f : α → K) (l : List α) :
    (l.map fun a => (.fin (f a) : JsNumber K)).sum = .fin (l.map f).sum := by
  have sums := map_list_sum (finHom (K := K)) (l.map f)
  rw [List.map_map] at sums
  exact sums.symm

theorem pairSum_fin {α : Type*} (f : α → α → K) (l : List α) :
    pairSum (fun a b => (.fin (f a b) : JsNumber K)) l = .fin (pairSum f l) := by
  have inner : ∀ p : α × ℕ,
      (l.zipIdx.map fun q => if p.2 = q.2 then 0 else (.fin (f p.1 q.1) : JsNumber K)).sum =
        .fin (l.zipIdx.map fun q => if p.2 = q.2 then 0 else f p.1 q.1).sum := by
    intro p
    rw [← sum_fin]
    refine congrArg List.sum (List.map_congr_left fun q _ => ?_)
    by_cases same : p.2 = q.2
    · rw [if_pos same, if_pos same, fin_zero]
    · rw [if_neg same, if_neg same]
  simp only [pairSum, inner, sum_fin]

end Addition

section Signs
variable {K : Type*} [Field K]

def neg : JsNumber K → JsNumber K
  | .fin x => .fin (-x)
  | .inf s => .inf !s
  | .nan => .nan

instance : One (JsNumber K) := ⟨.fin 1⟩

instance : Neg (JsNumber K) := ⟨neg⟩

instance : Sub (JsNumber K) := ⟨fun a b => a + -b⟩

theorem fin_sub (x y : K) : (.fin x - .fin y : JsNumber K) = .fin (x - y) :=
  congrArg fin (sub_eq_add_neg x y).symm

theorem neg_fin (x : K) : -(.fin x : JsNumber K) = .fin (-x) := rfl

end Signs

section Order
variable {K : Type*} [LinearOrder K]

/-- A comparison with NaN is false. -/
def lt : JsNumber K → JsNumber K → Bool
  | .fin x, .fin y => x < y
  | .inf s, .fin _ => s
  | .fin _, .inf t => !t
  | .inf s, .inf t => s && !t
  | _, _ => false

def le : JsNumber K → JsNumber K → Bool
  | .fin x, .fin y => x ≤ y
  | .inf s, .fin _ => s
  | .fin _, .inf t => !t
  | .inf s, .inf t => s || !t
  | _, _ => false

instance : LT (JsNumber K) := ⟨fun a b => lt a b = true⟩

instance : LE (JsNumber K) := ⟨fun a b => le a b = true⟩

instance : DecidableLT (JsNumber K) := fun a b => inferInstanceAs (Decidable (lt a b = true))

instance : DecidableLE (JsNumber K) := fun a b => inferInstanceAs (Decidable (le a b = true))

/-- `Math.max`. -/
def maxNum (a b : JsNumber K) : JsNumber K :=
  if a = .nan ∨ b = .nan then .nan else if a < b then b else a

/-- `Math.min`. -/
def minNum (a b : JsNumber K) : JsNumber K :=
  if a = .nan ∨ b = .nan then .nan else if b < a then b else a

theorem fin_lt (x y : K) : (.fin x : JsNumber K) < .fin y ↔ x < y := decide_eq_true_iff

theorem fin_le (x y : K) : (.fin x : JsNumber K) ≤ .fin y ↔ x ≤ y := decide_eq_true_iff

theorem maxNum_fin (x y : K) : maxNum (.fin x) (.fin y) = .fin (max x y) := by
  simp only [maxNum, reduceCtorEq, or_self, if_false, fin_lt]
  by_cases less : x < y
  · rw [if_pos less, max_eq_right less.le]
  · rw [if_neg less, max_eq_left (not_lt.mp less)]

theorem minNum_fin (x y : K) : minNum (.fin x) (.fin y) = .fin (min x y) := by
  simp only [minNum, reduceCtorEq, or_self, if_false, fin_lt]
  by_cases less : y < x
  · rw [if_pos less, min_eq_right less.le]
  · rw [if_neg less, min_eq_left (not_lt.mp less)]

end Order

section Product
variable {K : Type*} [Field K] [LinearOrder K]

/-- An infinity times zero is NaN. -/
def mul : JsNumber K → JsNumber K → JsNumber K
  | .fin x, .fin y => .fin (x * y)
  | .inf s, .fin y => if y = 0 then .nan else .inf (s != decide (y < 0))
  | .fin x, .inf t => if x = 0 then .nan else .inf (decide (x < 0) != t)
  | .inf s, .inf t => .inf (s != t)
  | _, _ => .nan

instance : Mul (JsNumber K) := ⟨mul⟩

theorem fin_mul (x y : K) : (.fin x * .fin y : JsNumber K) = .fin (x * y) := rfl

end Product

section Real

/-- The real number of a rational one. -/
noncomputable def ofRat : JsNumber ℚ → JsNumber ℝ
  | .fin x => .fin x
  | .inf s => .inf s
  | .nan => .nan

/-- `Math.sqrt`. -/
noncomputable def sqrt : JsNumber ℝ → JsNumber ℝ
  | .fin x => if x < 0 then .nan else .fin √x
  | .inf s => if s then .nan else .inf false
  | .nan => .nan

theorem sqrt_fin {x : ℝ} (nonneg : 0 ≤ x) : sqrt (.fin x) = .fin √x := if_neg (not_lt.mpr nonneg)

end Real

end JsNumber

end JsNumbers
