import Mathlib.Algebra.Order.Ring.Rat
import Mathlib.Data.Rat.Defs

/-!
# Expressions over the fields of a row

The expression language of an `APPLY` clause: a token list is parsed with the
usual precedence, products before sums before comparisons, and evaluated over
a row in which fields may be missing. Arithmetic reads a missing field as zero;
`exists` tells it apart from a zero.
-/

namespace ApplyExpr

variable {N : Type*}

inductive Tok (N : Type*) where
  | ref (n : N)
  | lit (q : ℚ)
  | plus
  | times
  | less
  | greater
  | unequal
  | lpar
  | rpar
  | comma
  | caseOf
  | existsOf

/-- Tokens between parentheses. -/
def paren (ts : List (Tok N)) : List (Tok N) := .lpar :: (ts ++ [.rpar])

inductive Expr (N : Type*) where
  | ref (n : N)
  | lit (q : ℚ)
  | add (a b : Expr N)
  | mul (a b : Expr N)
  | lt (a b : Expr N)
  | ne (a b : Expr N)
  | ifExists (n : N) (a b : Expr N)

section Parsing

/-- The levels of precedence, the loosest first. -/
inductive Level where
  | comparison
  | sum
  | product
  | atom

/-- Parse one expression of a level, with the tokens that follow it. -/
def parseLevel : ℕ → Level → List (Tok N) → Option (Expr N × List (Tok N))
  | 0, _, _ => none
  | fuel + 1, .comparison, ts => do
    let (a, rest) ← parseLevel fuel .sum ts
    match rest with
    | .less :: rest =>
      let (b, rest) ← parseLevel fuel .sum rest
      some (.lt a b, rest)
    | .greater :: rest =>
      let (b, rest) ← parseLevel fuel .sum rest
      some (.lt b a, rest)
    | .unequal :: rest =>
      let (b, rest) ← parseLevel fuel .sum rest
      some (.ne a b, rest)
    | rest => some (a, rest)
  | fuel + 1, .sum, ts => do
    let (a, rest) ← parseLevel fuel .product ts
    match rest with
    | .plus :: rest =>
      let (b, rest) ← parseLevel fuel .sum rest
      some (.add a b, rest)
    | rest => some (a, rest)
  | fuel + 1, .product, ts => do
    let (a, rest) ← parseLevel fuel .atom ts
    match rest with
    | .times :: rest =>
      let (b, rest) ← parseLevel fuel .product rest
      some (.mul a b, rest)
    | rest => some (a, rest)
  | fuel + 1, .atom, ts =>
    match ts with
    | .ref n :: rest => some (.ref n, rest)
    | .lit q :: rest => some (.lit q, rest)
    | .lpar :: rest => do
      let (a, rest) ← parseLevel fuel .comparison rest
      match rest with
      | .rpar :: rest => some (a, rest)
      | _ => none
    | .caseOf :: .lpar :: .existsOf :: .lpar :: .ref n :: .rpar :: .comma :: rest => do
      let (a, rest) ← parseLevel fuel .comparison rest
      match rest with
      | .comma :: rest =>
        let (b, rest) ← parseLevel fuel .comparison rest
        match rest with
        | .rpar :: rest => some (.ifExists n a b, rest)
        | _ => none
      | _ => none
    | _ => none

/-- Enough fuel for any expression that `ts` spells: each level of each token. -/
def parse (ts : List (Tok N)) : Option (Expr N) :=
  match parseLevel (4 * ts.length + 4) .comparison ts with
  | some (e, []) => some e
  | _ => none

end Parsing

section Evaluation

/-- The value of an expression over a row. A comparison is one or zero. -/
def eval (row : N → Option ℚ) : Expr N → ℚ
  | .ref n => (row n).getD 0
  | .lit q => q
  | .add a b => eval row a + eval row b
  | .mul a b => eval row a * eval row b
  | .lt a b => if eval row a < eval row b then 1 else 0
  | .ne a b => if eval row a = eval row b then 0 else 1
  | .ifExists n a b => if (row n).isSome then eval row a else eval row b

/-- The value of a token list, none when it spells no expression. -/
def evalText (row : N → Option ℚ) (ts : List (Tok N)) : Option ℚ := (parse ts).map (eval row)

end Evaluation

section Clauses
variable [DecidableEq N]

/-- A row after `APPLY` clauses, each naming its value for the ones after it. -/
def applyAll (clauses : List (List (Tok N) × N)) (row : N → Option ℚ) : N → Option ℚ :=
  clauses.foldl (fun row c => Function.update row c.2 (evalText row c.1)) row

@[simp] theorem applyAll_nil (row : N → Option ℚ) : applyAll [] row = row := rfl

@[simp] theorem applyAll_cons (c : List (Tok N) × N) (cs : List (List (Tok N) × N))
    (row : N → Option ℚ) :
    applyAll (c :: cs) row = applyAll cs (Function.update row c.2 (evalText row c.1)) := rfl

theorem applyAll_append (cs ds : List (List (Tok N) × N)) (row : N → Option ℚ) :
    applyAll (cs ++ ds) row = applyAll ds (applyAll cs row) := List.foldl_append ..

end Clauses

section Settling
variable {value : N → Option ℚ} {known : N → Prop}

/-- Each clause gives its name the value meant for it, once the known names and
the names of the clauses before it have theirs. -/
def Settles (value : N → Option ℚ) : (N → Prop) → List (List (Tok N) × N) → Prop
  | _, [] => True
  | known, c :: cs =>
    (∀ row : N → Option ℚ, (∀ n, known n → row n = value n) → evalText row c.1 = value c.2) ∧
      Settles value (fun n => known n ∨ n = c.2) cs

theorem Settles.mono {known' : N → Prop} {cs : List (List (Tok N) × N)}
    (settles : Settles value known cs) (more : ∀ n, known n → known' n) :
    Settles value known' cs := by
  induction cs generalizing known known' with
  | nil => exact trivial
  | cons c cs ih =>
    refine ⟨fun row settled => settles.1 row fun n here => settled n (more n here), ?_⟩
    exact ih settles.2 fun n => Or.imp_left (more n)

theorem Settles.append {cs ds : List (List (Tok N) × N)} (first : Settles value known cs)
    (second : Settles value (fun n => known n ∨ n ∈ cs.map Prod.snd) ds) :
    Settles value known (cs ++ ds) := by
  induction cs generalizing known with
  | nil => exact second.mono fun n here => here.resolve_right List.not_mem_nil
  | cons c cs ih =>
    refine ⟨first.1, ih first.2 (second.mono ?_)⟩
    intro n here
    simpa only [List.map_cons, List.mem_cons, or_assoc] using here

theorem Settles.flatMap {α : Type*} {l : List α} {g : α → List (List (Tok N) × N)}
    (each : ∀ a ∈ l, Settles value known (g a)) : Settles value known (l.flatMap g) := by
  induction l with
  | nil => exact trivial
  | cons a l ih =>
    rw [List.flatMap_cons]
    refine (each a List.mem_cons_self).append ?_
    exact (ih fun b mem => each b (List.mem_cons_of_mem _ mem)).mono fun n => Or.inl

/-- After clauses that settle, each name they give has its value. -/
theorem applyAll_settled [DecidableEq N] {cs : List (List (Tok N) × N)}
    (settles : Settles value known cs)
    {row : N → Option ℚ} (settled : ∀ n, known n → row n = value n) {n : N}
    (given : known n ∨ n ∈ cs.map Prod.snd) : applyAll cs row n = value n := by
  induction cs generalizing known row with
  | nil => exact settled n (given.resolve_right List.not_mem_nil)
  | cons c cs ih =>
    rw [applyAll_cons]
    refine ih settles.2 ?_ (by simpa only [List.map_cons, List.mem_cons, or_assoc] using given)
    rintro m (old | rfl)
    · by_cases same : m = c.2
      · rw [same, Function.update_self, settles.1 row settled]
      · rw [Function.update_of_ne same, settled m old]
    · rw [Function.update_self, settles.1 row settled]

end Settling

section Sums

/-- `@a+@b+…`. -/
def refSum : List N → List (Tok N)
  | [] => []
  | [n] => [.ref n]
  | n :: ns => .ref n :: .plus :: refSum ns

def sumExpr : List N → Expr N
  | [] => .lit 0
  | [n] => .ref n
  | n :: ns => .add (.ref n) (sumExpr ns)

theorem eval_sumExpr (row : N → Option ℚ) (ns : List N) :
    eval row (sumExpr ns) = (ns.map fun n => (row n).getD 0).sum := by
  induction ns with
  | nil => rfl
  | cons n ns ih =>
    cases ns with
    | nil => simp [sumExpr, eval]
    | cons m ns =>
      have spelled : sumExpr (n :: m :: ns) = .add (.ref n) (sumExpr (m :: ns)) := rfl
      rw [spelled, eval, ih, eval]
      simp only [List.map_cons, List.sum_cons]

theorem length_refSum (n : N) (ns : List N) : (refSum (n :: ns)).length = 2 * ns.length + 1 := by
  induction ns generalizing n with
  | nil => rfl
  | cons m ns ih =>
    have spelled : refSum (n :: m :: ns) = .ref n :: .plus :: refSum (m :: ns) := rfl
    rw [spelled, List.length_cons, List.length_cons, ih, List.length_cons]
    omega

theorem parseLevel_plus (fuel : ℕ) (n : N) (ts : List (Tok N)) :
    parseLevel (fuel + 3) .sum (.ref n :: .plus :: ts) =
      (parseLevel (fuel + 2) .sum ts).bind fun a => some (.add (.ref n) a.1, a.2) := rfl

theorem parseLevel_refSum (n : N) (ns : List N) (rest : List (Tok N)) {fuel : ℕ}
    (enough : ns.length + 3 ≤ fuel) :
    parseLevel fuel .sum (refSum (n :: ns) ++ .rpar :: rest) =
      some (sumExpr (n :: ns), .rpar :: rest) := by
  induction ns generalizing n fuel with
  | nil =>
    obtain ⟨k, rfl⟩ := Nat.exists_eq_add_of_le' enough
    rfl
  | cons m ns ih =>
    obtain ⟨k, rfl⟩ := Nat.exists_eq_add_of_le' enough
    have tail := @ih m (k + ns.length + 3) (by omega)
    have spelled : refSum (n :: m :: ns) ++ .rpar :: rest =
        .ref n :: .plus :: (refSum (m :: ns) ++ .rpar :: rest) := rfl
    rw [spelled, List.length_cons, show k + (ns.length + 1 + 3) = k + ns.length + 1 + 3 by omega,
      parseLevel_plus, tail]
    rfl

/-- What ends an operand of a sum. -/
def Closes : List (Tok N) → Prop
  | [] => True
  | .rpar :: _ => True
  | .greater :: _ => True
  | _ => False

/-- An atom that ends there is a whole sum. -/
theorem parseLevel_alone {fuel : ℕ} {ts rest : List (Tok N)} {e : Expr N}
    (atom : parseLevel fuel .atom ts = some (e, rest)) (closes : Closes rest) :
    parseLevel (fuel + 2) .sum ts = some (e, rest) := by
  have product : parseLevel (fuel + 1) .product ts = some (e, rest) := by
    rw [parseLevel, atom]
    unfold Closes at closes
    split at closes
    · rfl
    · rfl
    · rfl
    · exact closes.elim
  rw [parseLevel, product]
  unfold Closes at closes
  split at closes
  · rfl
  · rfl
  · rfl
  · exact closes.elim

theorem parseLevel_group {fuel : ℕ} {ts rest : List (Tok N)} {e : Expr N}
    (inner : parseLevel fuel .comparison ts = some (e, .rpar :: rest)) :
    parseLevel (fuel + 1) .atom (.lpar :: ts) = some (e, rest) := by
  rw [parseLevel, inner]
  rfl

theorem parseLevel_sumGroup (n : N) (ns : List N) (rest : List (Tok N)) {fuel : ℕ}
    (enough : ns.length + 3 ≤ fuel) :
    parseLevel (fuel + 2) .atom (.lpar :: (refSum (n :: ns) ++ .rpar :: rest)) =
      some (sumExpr (n :: ns), rest) := by
  apply parseLevel_group
  rw [parseLevel, parseLevel_refSum n ns rest enough]
  rfl

/-- The sum in parentheses. -/
theorem evalText_refSum (row : N → Option ℚ) (n : N) (ns : List N) :
    evalText row (paren (refSum (n :: ns))) =
      some (((n :: ns).map fun n => (row n).getD 0).sum) := by
  have parsed : parse (paren (refSum (n :: ns))) = some (sumExpr (n :: ns)) := by
    have fuel : 4 * (paren (refSum (n :: ns))).length + 4 = 8 * ns.length + 11 + 2 + 2 + 1 := by
      simp only [paren, List.length_cons, List.length_append, length_refSum, List.length_nil]
      omega
    have atom := parseLevel_sumGroup n ns [] (show ns.length + 3 ≤ 8 * ns.length + 11 by omega)
    rw [parse, fuel, paren, parseLevel, parseLevel_alone atom trivial]
    rfl
  rw [evalText, parsed, Option.map_some, eval_sumExpr]

/-- Whether the sum in parentheses is positive. -/
theorem evalText_refSum_positive (row : N → Option ℚ) (n : N) (ns : List N) :
    evalText row (paren (paren (refSum (n :: ns)) ++ [Tok.greater, .lit 0])) =
      some (if 0 < ((n :: ns).map fun n => (row n).getD 0).sum then 1 else 0) := by
  have parsed : parse (paren (paren (refSum (n :: ns)) ++ [Tok.greater, .lit 0])) =
      some (.lt (.lit 0) (sumExpr (n :: ns))) := by
    have fuel : 4 * (paren (paren (refSum (n :: ns)) ++ [Tok.greater, .lit 0])).length + 4 =
        8 * ns.length + 23 + 2 + 2 + 1 + 1 + 2 + 1 := by
      simp only [paren, List.length_cons, List.length_append, length_refSum, List.length_nil]
      omega
    have spelled : paren (paren (refSum (n :: ns)) ++ [Tok.greater, .lit 0]) =
        .lpar :: .lpar :: (refSum (n :: ns) ++ [.rpar, .greater, .lit 0, .rpar]) := by
      simp [paren]
    have sum := parseLevel_sumGroup n ns [.greater, .lit 0, .rpar]
      (show ns.length + 3 ≤ 8 * ns.length + 23 by omega)
    have compared : parseLevel (8 * ns.length + 23 + 2 + 2 + 1) .comparison
        (.lpar :: (refSum (n :: ns) ++ [.rpar, .greater, .lit 0, .rpar])) =
        some (.lt (.lit 0) (sumExpr (n :: ns)), [.rpar]) := by
      rw [parseLevel, parseLevel_alone sum trivial]
      rfl
    rw [parse, fuel, spelled, parseLevel, parseLevel_alone (parseLevel_group compared) trivial]
    rfl
  rw [evalText, parsed, Option.map_some, eval, eval_sumExpr]
  rfl

end Sums

example : (evalText (fun _ : ℕ => some 3) [.lpar, .ref 0, .plus, .lit 0, .times, .lit 2, .rpar]) =
    some 3 := by decide +kernel

end ApplyExpr
