import Mathlib.Data.List.Basic

/-!
# Names joined by a separator character

A joined name splits back uniquely at a separator that one side does not
contain: at the first separator when the left parts are free of it, at the
last when the right parts are.
-/

namespace DelimitedNames

/-- The name does not contain the separator. -/
def Free (c : Char) (s : String) : Prop := c ∉ s.toList

instance (c : Char) (s : String) : Decidable (Free c s) :=
  inferInstanceAs (Decidable (c ∉ s.toList))

def join (c : Char) (a x : String) : String := a ++ String.singleton c ++ x

theorem toList_join (c : Char) (a x : String) :
    (join c a x).toList = a.toList ++ c :: x.toList := by
  simp [join]

theorem split_first {α : Type*} {c : α} {as bs xs ys : List α} (ha : c ∉ as) (hb : c ∉ bs)
    (h : as ++ c :: xs = bs ++ c :: ys) : as = bs ∧ xs = ys := by
  induction as generalizing bs with
  | nil =>
    cases bs with
    | nil => exact ⟨rfl, (List.cons.inj h).2⟩
    | cons b bs => exact absurd (List.mem_cons.mpr (Or.inl (List.cons.inj h).1)) hb
  | cons a as ih =>
    cases bs with
    | nil => exact absurd (List.mem_cons.mpr (Or.inl (List.cons.inj h).1.symm)) ha
    | cons b bs =>
      obtain ⟨rfl, htail⟩ := List.cons.inj h
      obtain ⟨rfl, rfl⟩ := ih (fun hc => ha (List.mem_cons_of_mem _ hc))
        (fun hc => hb (List.mem_cons_of_mem _ hc)) htail
      exact ⟨rfl, rfl⟩

/-- A name ends where the separator starts or the text stops. -/
theorem split_rest {α : Type*} {c : α} {as bs xs ys : List α} (ha : c ∉ as) (hb : c ∉ bs)
    (hx : ∀ d ∈ xs.head?, d = c) (hy : ∀ d ∈ ys.head?, d = c) (h : as ++ xs = bs ++ ys) :
    as = bs ∧ xs = ys := by
  induction as generalizing bs with
  | nil =>
    cases bs with
    | nil => exact ⟨rfl, h⟩
    | cons b bs =>
      rw [List.nil_append] at h
      subst h
      exact absurd (List.mem_cons.mpr (Or.inl (hx b rfl).symm)) hb
  | cons a as ih =>
    cases bs with
    | nil =>
      rw [List.nil_append] at h
      subst h
      exact absurd (List.mem_cons.mpr (Or.inl (hy a rfl).symm)) ha
    | cons b bs =>
      obtain ⟨rfl, htail⟩ := List.cons.inj h
      obtain ⟨rfl, rfl⟩ := ih (fun hc => ha (List.mem_cons_of_mem _ hc))
        (fun hc => hb (List.mem_cons_of_mem _ hc)) htail
      exact ⟨rfl, rfl⟩

theorem join_inj_left {c : Char} {a b x y : String} (ha : Free c a) (hb : Free c b)
    (h : join c a x = join c b y) : a = b ∧ x = y := by
  have hl := congrArg String.toList h
  rw [toList_join, toList_join] at hl
  obtain ⟨hab, hxy⟩ := split_first ha hb hl
  exact ⟨String.toList_injective hab, String.toList_injective hxy⟩

theorem join_inj_right {c : Char} {a b x y : String} (hx : Free c x) (hy : Free c y)
    (h : join c a x = join c b y) : a = b ∧ x = y := by
  have hl := congrArg (fun s => s.toList.reverse) h
  simp only [toList_join, List.reverse_append, List.reverse_cons, List.append_assoc,
    List.singleton_append] at hl
  have hx' : c ∉ x.toList.reverse := fun hc => hx (List.mem_reverse.mp hc)
  have hy' : c ∉ y.toList.reverse := fun hc => hy (List.mem_reverse.mp hc)
  obtain ⟨hxy, hab⟩ := split_first hx' hy' hl
  exact ⟨String.toList_injective (List.reverse_injective hab),
    String.toList_injective (List.reverse_injective hxy)⟩

end DelimitedNames
