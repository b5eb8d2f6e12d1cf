import Frtb.Library.EscapedText
import Mathlib.Algebra.BigOperators.Group.List.Basic
import Mathlib.Algebra.Order.Ring.Nat

/-!
# The grammar of TAG queries

A query is a list of clauses with a space between each two. A clause names a field and lists
alternatives between braces, with bars between them; a sign before it negates it. It is read
from tokens, so that a mark of the grammar is a bare character and an escaped one belongs to
an alternative. What can be read is exactly what printing legal clauses gives.
-/

namespace TagGrammar

open EscapedText

section Grammar

/-- A clause over characters, tokens or items: a name and the words of its list. -/
structure Shape (α : Type) where
  negated : Bool
  field : List Char
  words : List (List α)

def Shape.print {α : Type} (mark : Char → α) (s : Shape α) : List α :=
  (if s.negated then ['-', '@'] else ['@']).map mark ++ s.field.map mark ++
    [':', '\x7b'].map mark ++ List.intercalate [mark '|'] s.words ++ [mark '\x7d']

def print {α : Type} (mark : Char → α) (shapes : List (Shape α)) : List α :=
  List.intercalate [mark ' '] (shapes.map (Shape.print mark))

/-- The alternatives up to the closing brace, and what follows it. -/
def readWords : List Tok → Option (List (List Tok) × List Tok)
  | [] => none
  | t :: rest =>
    if t = .raw '\x7d' then some ([[]], rest)
    else
      match readWords rest with
      | some (w :: ws, after) =>
        if t = .raw '|' then some ([] :: w :: ws, after) else some ((t :: w) :: ws, after)
      | _ => none

/-- The name up to the opening brace. -/
def readField : List Tok → Option (List Char × List Tok)
  | .raw ':' :: .raw '\x7b' :: rest => some ([], rest)
  | .raw c :: rest => if c = ':' then none else (readField rest).map fun r => (c :: r.1, r.2)
  | _ => none

def readSign : List Tok → Option (Bool × List Tok)
  | .raw '@' :: rest => some (false, rest)
  | .raw '-' :: .raw '@' :: rest => some (true, rest)
  | _ => none

def readClause (toks : List Tok) : Option (Shape Tok × List Tok) := do
  let (negated, toks) ← readSign toks
  let (field, toks) ← readField toks
  let (words, rest) ← readWords toks
  return (⟨negated, field, words⟩, rest)

/-- Clauses with a space between each two. Every one takes a token, so their number bounds
the depth. -/
def readClauses : ℕ → List Tok → Option (List (Shape Tok))
  | 0, _ => none
  | n + 1, toks =>
    match readClause toks with
    | some (s, []) => some [s]
    | some (s, .raw ' ' :: rest) => (readClauses n rest).map (s :: ·)
    | _ => none

end Grammar

section Parsing

/-- What the grammar can read: a name without a colon, and alternatives without bare ends. -/
structure Legal (s : Shape Tok) : Prop where
  field : ':' ∉ s.field
  words : s.words ≠ []
  free : ∀ w ∈ s.words, .raw '|' ∉ w ∧ .raw '\x7d' ∉ w

theorem readWords_word {w u : List Tok} {us : List (List Tok)} {toks rest : List Tok}
    (bar : .raw '|' ∉ w) (close : .raw '\x7d' ∉ w) (read : readWords toks = some (u :: us, rest)) :
    readWords (w ++ toks) = some ((w ++ u) :: us, rest) := by
  induction w with
  | nil => exact read
  | cons t w ih =>
    rw [List.mem_cons, not_or] at bar close
    rw [List.cons_append, readWords, if_neg (Ne.symm close.1), ih bar.2 close.2]
    exact if_neg (Ne.symm bar.1)

theorem readWords_iff {toks rest : List Tok} {ws : List (List Tok)} :
    readWords toks = some (ws, rest) ↔
      toks = List.intercalate [.raw '|'] ws ++ .raw '\x7d' :: rest ∧ ws ≠ [] ∧
        ∀ w ∈ ws, .raw '|' ∉ w ∧ .raw '\x7d' ∉ w := by
  constructor
  · intro read
    induction toks generalizing ws with
    | nil => cases read
    | cons t toks ih =>
      rw [readWords] at read
      split at read
      · rename_i close
        cases read
        refine ⟨by rw [close]; rfl, nofun, ?_⟩
        rintro w (⟨⟩ | ⟨-, ⟨⟩⟩)
        exact ⟨nofun, nofun⟩
      · rename_i open_
        cases later : readWords toks with
        | none =>
          rw [later] at read
          cases read
        | some r =>
          obtain ⟨_ | ⟨w, vs⟩, after⟩ := r
          · rw [later] at read
            cases read
          · rw [later] at read
            simp only at read
            split at read
            · rename_i bar
              cases read
              obtain ⟨shape, -, free⟩ := ih later
              refine ⟨?_, nofun, ?_⟩
              · rw [List.intercalate_cons_cons, bar, shape]
                rfl
              · rintro u (⟨⟩ | ⟨-, mem⟩)
                · exact ⟨nofun, nofun⟩
                · exact free u mem
            · rename_i other
              cases read
              obtain ⟨shape, -, free⟩ := ih later
              refine ⟨?_, nofun, ?_⟩
              · rw [shape, List.intercalate_cons_cons_left]
                rfl
              · rintro u (⟨⟩ | ⟨-, mem⟩)
                · obtain ⟨bar, close⟩ := free w List.mem_cons_self
                  exact ⟨by simp [bar, Ne.symm other], by simp [close, Ne.symm open_]⟩
                · exact free u (List.mem_cons_of_mem _ mem)
  · rintro ⟨rfl, some_, free⟩
    induction ws with
    | nil => exact absurd rfl some_
    | cons w ws ih =>
      obtain ⟨bar, close⟩ := free w List.mem_cons_self
      cases ws with
      | nil =>
        rw [List.intercalate_singleton]
        have last : readWords (.raw '\x7d' :: rest) = some ([[]], rest) := if_pos rfl
        rw [readWords_word bar close last, List.append_nil]
      | cons v vs =>
        have later := ih nofun fun u mem => free u (List.mem_cons_of_mem _ mem)
        rw [List.intercalate_cons_cons, List.append_assoc, List.append_assoc]
        have bare : readWords ([.raw '|'] ++ ([Tok.raw '|'].intercalate (v :: vs) ++
            .raw '\x7d' :: rest)) = some ([] :: v :: vs, rest) := by
          rw [List.singleton_append, readWords, if_neg (by decide), later]
          exact if_pos rfl
        rw [readWords_word bar close bare, List.append_nil]

theorem readField_iff {toks rest : List Tok} {f : List Char} :
    readField toks = some (f, rest) ↔
      toks = f.map .raw ++ .raw ':' :: .raw '\x7b' :: rest ∧ ':' ∉ f := by
  constructor
  · intro read
    fun_induction readField toks generalizing f with
    | case1 rest' =>
      cases read
      exact ⟨rfl, List.not_mem_nil⟩
    | case2 c rest' => cases read
    | case3 c rest' _ other ih =>
      rw [Option.map_eq_some_iff] at read
      obtain ⟨⟨g, after⟩, later, ⟨⟩⟩ := read
      obtain ⟨shape, free⟩ := ih later
      exact ⟨by rw [shape]; rfl, by simp [free, Ne.symm other]⟩
    | case4 => cases read
  · rintro ⟨rfl, free⟩
    induction f with
    | nil => rfl
    | cons c f ih =>
      rw [List.mem_cons, not_or] at free
      rw [List.map_cons, List.cons_append, readField, if_neg (Ne.symm free.1), ih free.2]
      · rfl
      · rintro _ - same
        exact free.1 same.symm

theorem readSign_iff {toks rest : List Tok} {negated : Bool} :
    readSign toks = some (negated, rest) ↔
      toks = (if negated then ['-', '@'] else ['@']).map .raw ++ rest := by
  constructor
  · intro read
    unfold readSign at read
    split at read <;> cases read <;> rfl
  · rintro rfl
    cases negated <;> rfl

theorem readClause_iff {toks rest : List Tok} {s : Shape Tok} :
    readClause toks = some (s, rest) ↔ toks = s.print .raw ++ rest ∧ Legal s := by
  unfold readClause
  simp only [bind, Option.bind_eq_some_iff, pure, Option.some.injEq, Prod.exists, Prod.mk.injEq,
    readSign_iff, readField_iff, readWords_iff]
  constructor
  · rintro ⟨negated, toks', rfl, field, toks'', ⟨rfl, colon⟩, words, _, ⟨rfl, some_, free⟩, rfl,
      rfl⟩
    refine ⟨?_, colon, some_, free⟩
    simp [Shape.print]
  · rintro ⟨rfl, colon, some_, free⟩
    refine ⟨s.negated, _, ?_, s.field, _, ⟨rfl, colon⟩, s.words, rest, ⟨rfl, some_, free⟩, rfl,
      rfl⟩
    simp [Shape.print]

theorem readClauses_sound {n : ℕ} {toks : List Tok} {shapes : List (Shape Tok)}
    (read : readClauses n toks = some shapes) :
    toks = print .raw shapes ∧ shapes ≠ [] ∧ ∀ s ∈ shapes, Legal s := by
  induction n generalizing toks shapes with
  | zero => cases read
  | succ n ih =>
    rw [readClauses] at read
    split at read
    · rename_i s first
      cases read
      obtain ⟨rfl, legal⟩ := readClause_iff.mp first
      refine ⟨?_, nofun, ?_⟩
      · rw [List.append_nil, print, List.map_singleton, List.intercalate_singleton]
      · rintro s' (⟨⟩ | ⟨-, ⟨⟩⟩)
        exact legal
    · rename_i s rest first
      rw [Option.map_eq_some_iff] at read
      obtain ⟨later, others, rfl⟩ := read
      obtain ⟨rfl, legal⟩ := readClause_iff.mp first
      obtain ⟨rfl, some_, legals⟩ := ih others
      refine ⟨?_, nofun, ?_⟩
      · obtain ⟨s', later, rfl⟩ := List.exists_cons_of_ne_nil some_
        simp [print]
      · rintro s' (⟨⟩ | ⟨-, mem⟩)
        · exact legal
        · exact legals s' mem
    · cases read

theorem readClauses_complete {n : ℕ} {shapes : List (Shape Tok)} (enough : shapes.length ≤ n)
    (some_ : shapes ≠ []) (legal : ∀ s ∈ shapes, Legal s) :
    readClauses n (print .raw shapes) = some shapes := by
  induction shapes generalizing n with
  | nil => exact absurd rfl some_
  | cons s shapes ih =>
    obtain ⟨n, rfl⟩ := Nat.exists_eq_add_one_of_ne_zero (Nat.ne_zero_of_lt enough)
    have own := legal s List.mem_cons_self
    cases shapes with
    | nil =>
      have first : readClause (print .raw [s]) = some (s, []) :=
        readClause_iff.mpr ⟨by simp [print], own⟩
      rw [readClauses, first]
    | cons s' shapes =>
      have later := ih (Nat.le_of_succ_le_succ enough) nofun fun t mem =>
        legal t (List.mem_cons_of_mem _ mem)
      have first : readClause (print .raw (s :: s' :: shapes)) =
          some (s, .raw ' ' :: print .raw (s' :: shapes)) :=
        readClause_iff.mpr ⟨by simp [print], own⟩
      rw [readClauses, first]
      simp only [later, Option.map_some]

theorem length_le_print (shapes : List (Shape Tok)) :
    shapes.length ≤ (print .raw shapes).length := by
  induction shapes with
  | nil => exact le_rfl
  | cons s shapes ih =>
    have pos : 0 < (s.print .raw).length := by
      simp only [Shape.print, List.length_append, List.length_cons]
      omega
    cases shapes with
    | nil =>
      rw [print, List.map_singleton, List.intercalate_singleton]
      exact pos
    | cons s' shapes =>
      simp only [print, List.map_cons, List.intercalate_cons_cons, List.length_append,
        List.length_cons] at ih ⊢
      omega

end Parsing

section Sizes

/-- A size of texts that adds up over their parts. -/
structure Size (α : Type) where
  of : List α → ℕ
  nil : of [] = 0
  append : ∀ xs ys, of (xs ++ ys) = of xs + of ys

/-- What is written of a clause around its values. -/
def frame {α : Type} (s : Shape α) : List Char :=
  (if s.negated then ['-', '@'] else ['@']) ++ s.field ++ [':', '\x7b', '\x7d']

theorem Size.intercalate {α : Type} (f : Size α) (sep : List α) {words : List (List α)}
    (some_ : words ≠ []) :
    f.of (List.intercalate sep words) + f.of sep = (words.map fun w => f.of w + f.of sep).sum := by
  induction words with
  | nil => exact absurd rfl some_
  | cons w words ih =>
    cases words with
    | nil => simp
    | cons w' words =>
      rw [List.intercalate_cons_cons, f.append, f.append, List.map_cons, List.sum_cons,
        ← ih nofun]
      omega

theorem Size.print {α : Type} (f : Size α) (mark : Char → α) {s : Shape α}
    (some_ : s.words ≠ []) :
    f.of (s.print mark) + f.of [mark '|'] =
      f.of ((frame s).map mark) + (s.words.map fun w => f.of w + f.of [mark '|']).sum := by
  rw [← f.intercalate [mark '|'] some_]
  simp only [Shape.print, frame, List.map_append, List.map_cons, List.map_nil, f.append]
  have split : f.of [mark ':', mark '\x7b', mark '\x7d'] =
      f.of [mark ':', mark '\x7b'] + f.of [mark '\x7d'] := f.append [mark ':', mark '\x7b'] _
  omega

end Sizes

end TagGrammar
