import Mathlib.Data.List.Basic
import Mathlib.Data.Nat.Basic

/-!
# Text escaped with backslashes

An encoder puts a backslash before the special characters of a value, and a reader takes a
backslash as escaping whatever comes next. An encoder that does not escape the backslash
itself is read back only where every backslash of a value happens to stand before a special
character, which then stands bare. The text is given by items: the characters of values,
and the marks between them, which are written as they are.
-/

namespace EscapedText

section Text
variable (special : Char → Bool)

inductive Item where
  | val (c : Char)
  | mark (c : Char)
deriving DecidableEq

def text (items : List Item) : List Char :=
  items.flatMap fun item =>
    match item with
    | .val c => if special c then ['\\', c] else [c]
    | .mark c => [c]

inductive Tok where
  | raw (c : Char)
  | esc (c : Char)
deriving DecidableEq

def Tok.char : Tok → Char
  | .raw c | .esc c => c

@[simp] theorem Tok.char_raw (c : Char) : (Tok.raw c).char = c := rfl

@[simp] theorem Tok.char_esc (c : Char) : (Tok.esc c).char = c := rfl

/-- The tokens of a text; `escaped` tells whether a backslash precedes it. -/
def lexFrom : Bool → List Char → List Tok
  | _, [] => []
  | true, c :: rest => .esc c :: lexFrom false rest
  | false, c :: rest => if c = '\\' then lexFrom true rest else .raw c :: lexFrom false rest

def lex (cs : List Char) : List Tok := lexFrom false cs

/-- Every backslash of a value stands before a character of the value that is `ok`. -/
def Paired (ok : Char → Bool) : List Item → Prop
  | [] => True
  | .mark _ :: rest => Paired ok rest
  | .val c :: rest => (c = '\\' → ∃ s tail, rest = .val s :: tail ∧ ok s = true) ∧ Paired ok rest

/-- The same for a value alone. -/
def PairedValue (ok : Char → Bool) : List Char → Prop
  | [] => True
  | c :: rest => (c = '\\' → ∃ s tail, rest = s :: tail ∧ ok s = true) ∧ PairedValue ok rest

instance decidableHead (ok : Char → Bool) : (rest : List Char) →
    Decidable (∃ s tail, rest = s :: tail ∧ ok s = true)
  | [] => .isFalse nofun
  | c :: rest =>
    decidable_of_iff (ok c = true)
      ⟨fun kind => ⟨c, rest, rfl, kind⟩, fun ⟨_, _, shape, kind⟩ => by
        injection shape with same
        rwa [same]⟩

instance PairedValue.decidable (ok : Char → Bool) : (v : List Char) → Decidable (PairedValue ok v)
  | [] => .isTrue trivial
  | _ :: rest => @instDecidableAnd _ _ inferInstance (PairedValue.decidable ok rest)

/-- What a reading makes of items whose backslashes all stand before special characters: a
token for every item. `after` tells whether the item before it is a backslash of a value. -/
def reading : Bool → List Item → List Tok
  | _, [] => []
  | _, .mark c :: rest => .raw c :: reading false rest
  | true, .val c :: rest => .raw c :: reading false rest
  | false, .val c :: rest =>
      (if special c || c = '\\' then .esc c else .raw c) :: reading (c = '\\') rest

def marks (d : Char) (items : List Item) : ℕ := items.count (.mark d)

def backslashes (items : List Item) : ℕ := items.count (.val '\\')

/-- The backslashes that a reading finds. -/
def found (toks : List Tok) : ℕ := (toks.map Tok.char).count '\\'

end Text

section Reading
variable {special : Char → Bool} {items : List Item}

/-- The marks are not backslashes themselves. -/
def Marked (items : List Item) : Prop := ∀ c, .mark c ∈ items → c ≠ '\\'

theorem Marked.tail {item : Item} (marked : Marked (item :: items)) : Marked items :=
  fun c mem => marked c (List.mem_cons_of_mem _ mem)

theorem marked_append (items items' : List Item) :
    Marked (items ++ items') ↔ Marked items ∧ Marked items' := by
  simp only [Marked, List.mem_append, or_imp, forall_and]

theorem marked_marks (cs : List Char) : Marked (cs.map .mark) ↔ '\\' ∉ cs := by
  constructor
  · intro marked mem
    exact marked '\\' (List.mem_map_of_mem mem) rfl
  · rintro free c mem rfl
    obtain ⟨d, listed, ⟨⟩⟩ := List.mem_map.mp mem
    exact free listed

theorem marked_vals (v : List Char) : Marked (v.map .val) := by
  intro c mem
  obtain ⟨d, -, ⟨⟩⟩ := List.mem_map.mp mem

theorem marked_intercalate {sep : List Item} {words : List (List Item)} (marked : Marked sep)
    (all : ∀ w ∈ words, Marked w) : Marked (List.intercalate sep words) := by
  induction words with
  | nil => exact fun _ => nofun
  | cons w words ih =>
    rw [List.forall_mem_cons] at all
    cases words with
    | nil =>
      rw [List.intercalate_singleton]
      exact all.1
    | cons w' words =>
      rw [List.intercalate_cons_cons, marked_append, marked_append]
      exact ⟨⟨all.1, marked⟩, ih all.2⟩

theorem found_raw (c : Char) (toks : List Tok) :
    found (.raw c :: toks) = found toks + if c = '\\' then 1 else 0 := by
  simp only [found, List.map_cons, List.count_cons, Tok.char_raw, beq_iff_eq]

theorem found_esc (c : Char) (toks : List Tok) :
    found (.esc c :: toks) = found toks + if c = '\\' then 1 else 0 := by
  simp only [found, List.map_cons, List.count_cons, Tok.char_esc, beq_iff_eq]

theorem backslashes_mark (c : Char) (items : List Item) :
    backslashes (.mark c :: items) = backslashes items :=
  List.count_cons_of_ne (by rintro ⟨⟩)

theorem backslashes_val (c : Char) (items : List Item) :
    backslashes (.val c :: items) = backslashes items + if c = '\\' then 1 else 0 := by
  simp only [backslashes, List.count_cons, beq_iff_eq, Item.val.injEq]

theorem text_cons (item : Item) : text special (item :: items) = text special [item] ++
    text special items := by
  simp only [text, List.flatMap_cons, List.flatMap_nil, List.append_nil]

theorem text_append (items items' : List Item) :
    text special (items ++ items') = text special items ++ text special items' :=
  List.flatMap_append

theorem text_mark (c : Char) (items : List Item) :
    text special (.mark c :: items) = c :: text special items := rfl

theorem text_marks (cs : List Char) : text special (cs.map .mark) = cs := by
  induction cs with
  | nil => rfl
  | cons c cs ih => exact congrArg (c :: ·) ih

theorem text_intercalate (sep : List Item) (words : List (List Item)) :
    text special (List.intercalate sep words) =
      List.intercalate (text special sep) (words.map (text special)) := by
  induction words with
  | nil => rfl
  | cons w words ih =>
    cases words with
    | nil => rw [List.intercalate_singleton, List.map_singleton, List.intercalate_singleton]
    | cons w' words =>
      simp only [List.map_cons, List.intercalate_cons_cons, text_append] at ih ⊢
      rw [ih]

theorem lexFrom_mark {c : Char} (plain : c ≠ '\\') (escaped : Bool) (cs : List Char) :
    lexFrom escaped (text special [.mark c] ++ cs) =
      (if escaped then .esc c else .raw c) :: lexFrom false cs := by
  cases escaped with
  | true => rfl
  | false =>
    change (if c = '\\' then _ else _) = _
    rw [if_neg plain]
    rfl

theorem lexFrom_special {c : Char} (special_ : special c = true) (plain : c ≠ '\\')
    (escaped : Bool) (cs : List Char) :
    lexFrom escaped (text special [.val c] ++ cs) =
      if escaped then .esc '\\' :: .raw c :: lexFrom false cs else .esc c :: lexFrom false cs := by
  have spelled : text special [.val c] = ['\\', c] := by
    simp [text, special_]
  rw [spelled]
  cases escaped with
  | true =>
    change Tok.esc '\\' :: (if c = '\\' then _ else _) = _
    rw [if_neg plain]
    rfl
  | false => rfl

theorem lexFrom_normal {c : Char} (normal : special c = false) (escaped : Bool)
    (cs : List Char) :
    lexFrom escaped (text special [.val c] ++ cs) =
      if escaped then .esc c :: lexFrom false cs
      else if c = '\\' then lexFrom true cs else .raw c :: lexFrom false cs := by
  have spelled : text special [.val c] = [c] := by
    simp [text, normal]
  rw [spelled]
  cases escaped <;> rfl

/-- No reading finds more backslashes than the values have, and one that finds them all has
each of them before a special character. -/
theorem backslashes_read (unescaped : special '\\' = false) (marked : Marked items)
    (escaped : Bool) :
    found (lexFrom escaped (text special items)) ≤ backslashes items + escaped.toNat ∧
      (found (lexFrom escaped (text special items)) = backslashes items + escaped.toNat →
        Paired special items ∧
          (escaped = true → ∃ s tail, items = .val s :: tail ∧ special s = true)) := by
  induction items generalizing escaped with
  | nil =>
    cases escaped
    · exact ⟨le_rfl, fun _ => ⟨trivial, nofun⟩⟩
    · exact ⟨Nat.zero_le _, nofun⟩
  | cons item rest ih =>
    obtain ⟨le, paired⟩ := ih marked.tail false
    simp only [Bool.toNat_false, Nat.add_zero] at le paired
    rw [text_cons]
    cases item with
    | mark c =>
      have plain := marked c List.mem_cons_self
      rw [lexFrom_mark plain, backslashes_mark]
      cases escaped with
      | true =>
        simp only [if_true, found_esc, if_neg plain, Bool.toNat_true, Nat.add_zero]
        exact ⟨by omega, fun all => by omega⟩
      | false =>
        simp only [Bool.false_eq_true, if_false, found_raw, if_neg plain, Bool.toNat_false,
          Nat.add_zero]
        exact ⟨le, fun all => ⟨(paired all).1, nofun⟩⟩
    | val c =>
      rw [backslashes_val]
      cases kind : special c with
      | true =>
        have plain : c ≠ '\\' := by
          rintro rfl
          rw [unescaped] at kind
          cases kind
        rw [lexFrom_special kind plain]
        cases escaped with
        | true =>
          simp only [if_true, found_esc, found_raw, if_neg plain, Bool.toNat_true, Nat.add_zero]
          exact ⟨by omega, fun all => ⟨⟨fun back => absurd back plain, (paired (by omega)).1⟩,
            fun _ => ⟨c, rest, rfl, kind⟩⟩⟩
        | false =>
          simp only [Bool.false_eq_true, if_false, found_esc, if_neg plain, Bool.toNat_false,
            Nat.add_zero]
          exact ⟨le, fun all => ⟨⟨fun back => absurd back plain, (paired all).1⟩, nofun⟩⟩
      | false =>
        rw [lexFrom_normal kind]
        by_cases back : c = '\\'
        · subst back
          cases escaped with
          | true =>
            simp only [if_true, found_esc, Bool.toNat_true]
            exact ⟨by omega, fun all => by omega⟩
          | false =>
            obtain ⟨le', paired'⟩ := ih marked.tail true
            simp only [Bool.toNat_true] at le' paired'
            simp only [Bool.false_eq_true, if_false, if_true, Bool.toNat_false, Nat.add_zero]
            refine ⟨le', fun all => ?_⟩
            obtain ⟨later, head⟩ := paired' all
            exact ⟨⟨fun _ => head trivial, later⟩, nofun⟩
        · cases escaped with
          | true =>
            simp only [if_true, found_esc, if_neg back, Bool.toNat_true, Nat.add_zero]
            exact ⟨by omega, fun all => by omega⟩
          | false =>
            simp only [Bool.false_eq_true, if_false, found_raw, if_neg back, Bool.toNat_false,
              Nat.add_zero]
            exact ⟨le, fun all => ⟨⟨fun same => absurd same back, (paired all).1⟩, nofun⟩⟩

/-- Where every backslash stands before a special character, the reading after a backslash
finds that backslash escaped and the character bare. -/
theorem lex_paired (unescaped : special '\\' = false) (marked : Marked items)
    (paired : Paired special items) :
    lexFrom false (text special items) = reading special false items ∧
      ∀ s tail, items = .val s :: tail → special s = true →
        lexFrom true (text special items) = .esc '\\' :: reading special true items := by
  induction items with
  | nil => exact ⟨rfl, nofun⟩
  | cons item rest ih =>
    rw [text_cons]
    cases item with
    | mark c =>
      have plain := marked c List.mem_cons_self
      obtain ⟨later, -⟩ := ih marked.tail paired
      refine ⟨?_, nofun⟩
      rw [lexFrom_mark plain, if_neg Bool.false_ne_true, later]
      rfl
    | val c =>
      obtain ⟨before, later⟩ := paired
      obtain ⟨bare, escaped⟩ := ih marked.tail later
      cases kind : special c with
      | true =>
        have plain : c ≠ '\\' := by
          rintro rfl
          rw [unescaped] at kind
          cases kind
        constructor
        · rw [lexFrom_special kind plain, if_neg Bool.false_ne_true, bare]
          simp only [reading, kind, Bool.true_or, if_true, decide_eq_false plain]
        · rintro s tail ⟨⟩ -
          rw [lexFrom_special kind plain, if_pos rfl, bare]
          rfl
      | false =>
        refine ⟨?_, ?_⟩
        · rw [lexFrom_normal kind, if_neg Bool.false_ne_true]
          by_cases back : c = '\\'
          · obtain ⟨s, tail, rfl, special_⟩ := before back
            rw [if_pos back, escaped s tail rfl special_]
            simp only [reading, back, decide_true, Bool.or_true, if_true]
          · rw [if_neg back, bare]
            simp only [reading, kind, decide_eq_false back, Bool.or_false, Bool.false_eq_true,
              if_false]
        · rintro s tail ⟨⟩ special_
          rw [kind] at special_
          cases special_

theorem reading_length (after : Bool) (items : List Item) :
    (reading special after items).length = items.length := by
  induction items generalizing after with
  | nil => rfl
  | cons item rest ih =>
    cases item <;> cases after <;> exact congrArg Nat.succ (ih _)

theorem count_raw (d c : Char) (toks : List Tok) :
    (Tok.raw c :: toks).count (.raw d) = toks.count (.raw d) + if c = d then 1 else 0 := by
  simp only [List.count_cons, beq_iff_eq, Tok.raw.injEq]

theorem count_esc (d c : Char) (toks : List Tok) :
    (Tok.esc c :: toks).count (.raw d) = toks.count (.raw d) :=
  List.count_cons_of_ne (by rintro ⟨⟩)

theorem marks_mark (d c : Char) (items : List Item) :
    marks d (.mark c :: items) = marks d items + if c = d then 1 else 0 := by
  simp only [marks, List.count_cons, beq_iff_eq, Item.mark.injEq]

theorem marks_val (d c : Char) (items : List Item) :
    marks d (.val c :: items) = marks d items :=
  List.count_cons_of_ne (by rintro ⟨⟩)

/-- The bare tokens `d` are the marks `d`, and the values' own where they stand after a
backslash. -/
theorem marks_read {d : Char} (unescaped : special '\\' = false) (special_ : special d = true)
    (paired : Paired special items) (after : Bool)
    (head : after = true → ∃ s tail, items = .val s :: tail ∧ special s = true) :
    marks d items ≤ (reading special after items).count (.raw d) ∧
      ((reading special after items).count (.raw d) = marks d items →
        Paired (fun c => special c && c != d) items ∧
          (after = true → ∀ tail, items ≠ .val d :: tail)) := by
  induction items generalizing after with
  | nil => exact ⟨Nat.zero_le _, fun _ => ⟨trivial, fun _ => nofun⟩⟩
  | cons item rest ih =>
    cases item with
    | mark c =>
      obtain ⟨le, free⟩ := ih paired false nofun
      cases after <;> simp only [reading, count_raw, marks_mark] <;>
        exact ⟨by omega, fun all => ⟨(free (by omega)).1, fun _ => nofun⟩⟩
    | val c =>
      obtain ⟨before, later⟩ := paired
      rw [marks_val]
      cases after with
      | true =>
        obtain ⟨s, tail, ⟨⟩, kind⟩ := head rfl
        have plain : c ≠ '\\' := by
          rintro rfl
          rw [unescaped] at kind
          cases kind
        obtain ⟨le, free⟩ := ih later false nofun
        simp only [reading, count_raw]
        refine ⟨by omega, fun all => ?_⟩
        have other : c ≠ d := by
          rintro rfl
          rw [if_pos rfl] at all
          omega
        rw [if_neg other] at all
        refine ⟨⟨fun back => absurd back plain, (free all).1⟩, fun _ tail same => ?_⟩
        injection same with same
        injection same with same
        exact other same
      | false =>
        have rest_head : decide (c = '\\') = true →
            ∃ s tail, rest = .val s :: tail ∧ special s = true :=
          fun back => before (of_decide_eq_true back)
        obtain ⟨le, free⟩ := ih later (c = '\\') rest_head
        have counted : (reading special false (.val c :: rest)).count (.raw d) =
            (reading special (c = '\\') rest).count (.raw d) := by
          by_cases kind : special c = true ∨ c = '\\'
          · have taken : (special c || decide (c = '\\')) = true := by
              simpa using kind
            simp only [reading, taken, if_true, count_esc]
          · rw [not_or] at kind
            have other : c ≠ d := by
              rintro rfl
              exact kind.1 special_
            have taken : (special c || decide (c = '\\')) = false := by
              simpa using kind
            simp only [reading, taken, Bool.false_eq_true, if_false, count_raw, if_neg other,
              Nat.add_zero]
        rw [counted]
        refine ⟨le, fun all => ?_⟩
        obtain ⟨paired, next⟩ := free all
        refine ⟨⟨fun back => ?_, paired⟩, nofun⟩
        obtain ⟨s, tail, shape, kind⟩ := before back
        refine ⟨s, tail, shape, ?_⟩
        have other : s ≠ d := by
          rintro rfl
          exact next (decide_eq_true back) tail shape
        exact Bool.and_eq_true_iff.mpr ⟨kind, bne_iff_ne.mpr other⟩

theorem Paired.and {ok ok' : Char → Bool} (paired : Paired ok items) (paired' : Paired ok' items) :
    Paired (fun c => ok c && ok' c) items := by
  induction items with
  | nil => exact trivial
  | cons item rest ih =>
    cases item with
    | mark c => exact ih paired paired'
    | val c =>
      refine ⟨fun back => ?_, ih paired.2 paired'.2⟩
      obtain ⟨s, tail, rfl, kind⟩ := paired.1 back
      obtain ⟨s', tail', shape, kind'⟩ := paired'.1 back
      injection shape with shape
      injection shape with same
      subst same
      exact ⟨s, tail, rfl, Bool.and_eq_true_iff.mpr ⟨kind, kind'⟩⟩

theorem Paired.mono {ok ok' : Char → Bool} (le : ∀ c, ok c = true → ok' c = true)
    (paired : Paired ok items) : Paired ok' items := by
  induction items with
  | nil => exact trivial
  | cons item rest ih =>
    cases item with
    | mark c => exact ih paired
    | val c =>
      refine ⟨fun back => ?_, ih paired.2⟩
      obtain ⟨s, tail, shape, kind⟩ := paired.1 back
      exact ⟨s, tail, shape, le s kind⟩

theorem paired_marks {ok : Char → Bool} (cs : List Char) (rest : List Item) :
    Paired ok (cs.map .mark ++ rest) ↔ Paired ok rest := by
  induction cs with
  | nil => exact Iff.rfl
  | cons c cs ih => exact ih

theorem paired_value {ok : Char → Bool} (v : List Char) (c : Char) (rest : List Item) :
    Paired ok (v.map .val ++ .mark c :: rest) ↔ PairedValue ok v ∧ Paired ok rest := by
  induction v with
  | nil => exact ⟨fun paired => ⟨trivial, paired⟩, And.right⟩
  | cons s v ih =>
    have next : (∃ t tail, v.map Item.val ++ .mark c :: rest = .val t :: tail ∧ ok t = true) ↔
        ∃ t tail, v = t :: tail ∧ ok t = true := by
      cases v with
      | nil => exact ⟨nofun, nofun⟩
      | cons u v =>
        constructor
        · rintro ⟨t, tail, shape, kind⟩
          injection shape with shape
          injection shape with same
          exact ⟨u, v, rfl, same ▸ kind⟩
        · rintro ⟨t, tail, shape, kind⟩
          injection shape with same
          exact ⟨u, _, rfl, same ▸ kind⟩
    calc Paired ok ((s :: v).map .val ++ .mark c :: rest) ↔
        (s = '\\' → ∃ t tail, v.map Item.val ++ .mark c :: rest = .val t :: tail ∧ ok t = true) ∧
          Paired ok (v.map .val ++ .mark c :: rest) := Iff.rfl
      _ ↔ (s = '\\' → ∃ t tail, v = t :: tail ∧ ok t = true) ∧
          PairedValue ok v ∧ Paired ok rest := by rw [next, ih]
      _ ↔ PairedValue ok (s :: v) ∧ Paired ok rest := and_assoc.symm

theorem PairedValue.mono {ok ok' : Char → Bool} (le : ∀ c, ok c = true → ok' c = true)
    {v : List Char} (paired : PairedValue ok v) : PairedValue ok' v :=
  ((paired_value v ' ' []).mp (((paired_value v ' ' []).mpr ⟨paired, trivial⟩).mono le)).1

/-- The tokens of a value that a mark ends. -/
def word (special : Char → Bool) (v : List Char) : List Tok := reading special false (v.map .val)

theorem read_value (v : List Char) (c : Char) (rest : List Item) :
    reading special false (v.map .val ++ .mark c :: rest) =
      word special v ++ .raw c :: reading special false rest := by
  have any (after : Bool) : reading special after (v.map .val ++ .mark c :: rest) =
      reading special after (v.map .val) ++ .raw c :: reading special false rest := by
    induction v generalizing after with
    | nil => cases after <;> rfl
    | cons s v ih => cases after <;> exact congrArg _ (ih _)
  exact any false

theorem read_marks (cs : List Char) (rest : List Item) :
    reading special false (cs.map .mark ++ rest) = cs.map .raw ++ reading special false rest := by
  induction cs with
  | nil => rfl
  | cons c cs ih => exact congrArg (Tok.raw c :: ·) ih

theorem word_char (v : List Char) : (word special v).map Tok.char = v := by
  have any (after : Bool) : (reading special after (v.map .val)).map Tok.char = v := by
    induction v generalizing after with
    | nil => cases after <;> rfl
    | cons s v ih =>
      cases after with
      | true => exact congrArg (s :: ·) (ih false)
      | false =>
        rw [List.map_cons, reading, List.map_cons, ih]
        cases (special s || decide (s = '\\')) <;> rfl
  exact any false

/-- A value none of whose backslashes stands before `d` keeps no bare `d`. -/
theorem word_free {d : Char} (special_ : special d = true)
    {v : List Char} (paired : PairedValue (fun c => special c && c != d) v) :
    .raw d ∉ word special v := by
  have any (after : Bool) (head : after = true → ∃ s tail, v = s :: tail ∧
      (special s && s != d) = true) : .raw d ∉ reading special after (v.map .val) := by
    induction v generalizing after with
    | nil => cases after <;> exact List.not_mem_nil
    | cons s v ih =>
      obtain ⟨before, later⟩ := paired
      cases after with
      | true =>
        obtain ⟨s', tail, ⟨⟩, kind⟩ := head rfl
        obtain ⟨-, other⟩ := Bool.and_eq_true_iff.mp kind
        rw [List.map_cons, reading, List.mem_cons, not_or]
        refine ⟨fun same => bne_iff_ne.mp other ?_, ih later false nofun⟩
        injection same with same
        exact same.symm
      | false =>
        have rest := ih later (s = '\\') fun back => before (of_decide_eq_true back)
        rw [List.map_cons, reading, List.mem_cons, not_or]
        refine ⟨?_, rest⟩
        cases taken : (special s || decide (s = '\\')) with
        | true => exact nofun
        | false =>
          rintro ⟨⟩
          rw [special_] at taken
          cases taken
  exact any false nofun

end Reading

end EscapedText
