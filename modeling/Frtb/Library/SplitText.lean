import Mathlib.Algebra.Order.Group.Nat
import Mathlib.Algebra.Order.Sub.Defs
import Mathlib.Data.Char
import Mathlib.Data.List.Basic
import Mathlib.Data.String.Basic

/-!
# Splitting a text at a character

`String.splitOn` walks over byte positions. For a separator of one character it splits the
list of the characters, so that a join of texts without the separator is split back into
them.
-/

namespace SplitText

open String

/-- The walk from behind `l`, with `m` gathered for the piece under way. -/
theorem splitOnAux_of_valid (sep : Char) (l m r : List Char) (acc : List String) :
    splitOnAux (ofList (l ++ m ++ r)) (String.singleton sep) ⟨utf8Len l⟩
        ⟨utf8Len l + utf8Len m⟩ 0 acc =
      acc.reverse ++ (List.splitOnPPrepend (· == sep) r m.reverse).map ofList := by
  rw [splitOnAux]
  have place : (⟨utf8Len (l ++ m)⟩ : Pos.Raw) = ⟨utf8Len l + utf8Len m⟩ := by
    rw [utf8Len_append]
  cases r with
  | nil =>
    have ends : Pos.Raw.atEnd (ofList (l ++ m ++ [])) ⟨utf8Len l + utf8Len m⟩ = true :=
      place ▸ (atEnd_of_valid (l ++ m) []).mpr rfl
    rw [if_pos ends]
    have piece := extract_of_valid l m []
    simp only [piece, List.reverse_cons]
    simp
  | cons c r =>
    have more : ¬Pos.Raw.atEnd (ofList (l ++ m ++ c :: r)) ⟨utf8Len l + utf8Len m⟩ = true :=
      fun ends => List.cons_ne_nil c r ((atEnd_of_valid (l ++ m) (c :: r)).mp (place ▸ ends))
    have char : Pos.Raw.get (ofList (l ++ m ++ c :: r)) ⟨utf8Len l + utf8Len m⟩ = c :=
      place ▸ get_of_valid (l ++ m) (c :: r)
    have next : Pos.Raw.next (ofList (l ++ m ++ c :: r)) ⟨utf8Len l + utf8Len m⟩ =
        ⟨utf8Len l + utf8Len m + c.utf8Size⟩ := by
      have walked := next_of_valid (l ++ m) c r
      rwa [utf8Len_append] at walked
    have sepChar : Pos.Raw.get (String.singleton sep) 0 = sep := get_of_valid [] [sep]
    have sepNext : Pos.Raw.next (String.singleton sep) 0 = ⟨sep.utf8Size⟩ := by
      simpa using next_of_valid [] sep []
    rw [if_neg more, char, sepChar]
    by_cases same : c = sep
    · subst same
      have ends : Pos.Raw.atEnd (String.singleton c) ⟨c.utf8Size⟩ = true := by
        simpa using (atEnd_of_valid [c] []).mpr rfl
      have back : (⟨utf8Len l + utf8Len m + c.utf8Size⟩ : Pos.Raw).unoffsetBy ⟨c.utf8Size⟩ =
          ⟨utf8Len l + utf8Len m⟩ := by
        rw [Pos.Raw.ext_iff]
        simp
      have piece := extract_of_valid l m (c :: r)
      rw [if_pos (beq_self_eq_true c)]
      simp only [next, sepNext, if_pos ends, back, piece]
      have rest := splitOnAux_of_valid c (l ++ m ++ [c]) [] r (ofList m :: acc)
      simp only [List.append_nil, utf8Len_append, utf8Len_cons, utf8Len_nil, Nat.zero_add,
        Nat.add_zero, List.append_assoc, List.singleton_append, List.reverse_nil,
        List.reverse_cons] at rest ⊢
      rw [Nat.add_assoc, rest,
        List.splitOnPPrepend_cons_pos (p := (· == c)) (beq_self_eq_true c)]
      simp
    · have back : (⟨utf8Len l + utf8Len m⟩ : Pos.Raw).unoffsetBy 0 = ⟨utf8Len l + utf8Len m⟩ := by
        rw [Pos.Raw.ext_iff]
        simp
      rw [if_neg (by simpa using same), back, next]
      have rest := splitOnAux_of_valid sep l (m ++ [c]) r acc
      simp only [utf8Len_append, utf8Len_cons, utf8Len_nil, Nat.zero_add, List.append_assoc,
        List.singleton_append, List.reverse_append, List.reverse_singleton] at rest ⊢
      rw [Nat.add_assoc, rest,
        List.splitOnPPrepend_cons_neg (p := (· == sep)) (by simpa using same)]

theorem splitOn_singleton (s : String) (c : Char) :
    s.splitOn (String.singleton c) = (s.toList.splitOn c).map ofList := by
  have some_ : ¬(String.singleton c == "") = true := by
    simp
  rw [String.splitOn, if_neg some_, List.splitOn_eq_splitOnP]
  simpa using! splitOnAux_of_valid c [] [] s.toList []

/-- Joined texts without the separator are split back into themselves. -/
theorem splitOn_intercalate {c : Char} {vs : List String} (free : ∀ v ∈ vs, c ∉ v.toList)
    (some_ : vs ≠ []) :
    (String.intercalate (String.singleton c) vs).splitOn (String.singleton c) = vs := by
  rw [splitOn_singleton, String.toList_intercalate, String.toList_singleton,
    List.splitOn_intercalate]
  · rw [List.map_map]
    calc vs.map (ofList ∘ String.toList) = vs.map id :=
          List.map_congr_left fun v _ => String.ofList_toList
      _ = vs := List.map_id _
  · intro l mem
    obtain ⟨v, listed, rfl⟩ := List.mem_map.mp mem
    exact free v listed
  · simpa using some_

end SplitText
