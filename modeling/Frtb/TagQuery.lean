import Frtb.RequestFilters
import Frtb.Library.NumberText
import Frtb.Library.TagGrammar

/-!
# Reading a TAG query back

The query language reads the clauses that the filters of a request are pushed into. A value
is escaped before white space and punctuation, but not before a backslash of its own. Here
the query is read back by the TAG grammar, and the clauses it gives are compared with the
ones that were meant. Counting backslashes, tokens and marks shows that nothing else than
harmless backslashes leaves the meaning as it was.
-/

namespace TagQuery

open AssocMaps EscapedText TagGrammar FieldNames CalcService JsonText RequestFilters

section Reading

deriving instance DecidableEq for TagClause

def parsedClause (s : Shape Tok) : TagClause where
  negated := s.negated
  field := String.ofList s.field
  values := s.words.map fun w => String.ofList (w.map Tok.char)

def parseQuery (query : String) : Option (List TagClause) :=
  let toks := lex query.toList
  (readClauses toks.length toks).map (·.map parsedClause)

/-- The grammar reads exactly the prints of legal clauses. -/
theorem parseQuery_iff {query : String} {parsed : List TagClause} :
    parseQuery query = some parsed ↔
      ∃ shapes, lex query.toList = print .raw shapes ∧ shapes ≠ [] ∧ (∀ s ∈ shapes, Legal s) ∧
        parsed = shapes.map parsedClause := by
  unfold parseQuery
  rw [Option.map_eq_some_iff]
  constructor
  · rintro ⟨shapes, read, rfl⟩
    obtain ⟨shape, some_, legal⟩ := readClauses_sound read
    exact ⟨shapes, shape, some_, legal, rfl⟩
  · rintro ⟨shapes, shape, some_, legal, rfl⟩
    refine ⟨shapes, ?_, rfl⟩
    rw [shape]
    exact readClauses_complete (length_le_print shapes) some_ legal

end Reading

section Meaning

/-- The same field, the same side and the same values, in any order and number. -/
def SameClause (a b : TagClause) : Prop :=
  a.negated = b.negated ∧ a.field = b.field ∧ ∀ v, v ∈ a.values ↔ v ∈ b.values

/-- The query is read as the clauses that were meant, and as nothing else. -/
def ReadsBack (query : String) (meant : List TagClause) : Prop :=
  ∃ parsed, parseQuery query = some parsed ∧ List.Forall₂ SameClause parsed meant

def isSpecial (c : Char) : Bool := c ∈ tagSpecials

/-- A special character that neither separates values nor closes the list. -/
def isHarmless (c : Char) : Bool := isSpecial c && c != '|' && c != '\x7d'

/-- Every backslash of the value stands before a harmless character of it. -/
def Plain (v : String) : Prop := PairedValue isHarmless v.toList

instance (v : String) : Decidable (Plain v) := PairedValue.decidable isHarmless v.toList

def itemShape (clause : TagClause) : Shape Item where
  negated := clause.negated
  field := clause.field.toList
  words := clause.values.map fun v => v.toList.map .val

theorem toList_escapeTag (v : String) :
    (escapeTag v).toList = text isSpecial (v.toList.map .val) := by
  rw [escapeTag, String.toList_ofList, text, List.flatMap_map]
  simp only [isSpecial, decide_eq_true_eq]

theorem toList_clause (clause : TagClause) :
    clause.text.toList = text isSpecial ((itemShape clause).print .mark) := by
  obtain ⟨negated, field, values⟩ := clause
  have listed : (String.intercalate "|" (values.map escapeTag)).toList =
      text isSpecial (List.intercalate [.mark '|'] (values.map fun v => v.toList.map .val)) := by
    rw [String.toList_intercalate, text_intercalate, List.map_map, List.map_map]
    congr 2
    funext v
    exact toList_escapeTag v
  cases negated <;>
    simp [TagClause.text, itemShape, Shape.print, text_append, text_marks, text_mark, listed] <;>
    rfl

theorem toList_query (riskClass sensitivityType : String) (filters : Filters) :
    (buildFastPathQuery riskClass sensitivityType filters).toList =
      text isSpecial (print .mark ((queryClauses riskClass sensitivityType filters).map itemShape))
      := by
  rw [buildFastPathQuery, String.toList_intercalate, print, text_intercalate, List.map_map,
    List.map_map, List.map_map]
  congr 2
  funext clause
  exact toList_clause clause

/-- A field name that the grammar can read, and a list with a value in it. -/
structure Named (clause : TagClause) : Prop where
  colon : ':' ∉ clause.field.toList
  backslash : '\\' ∉ clause.field.toList
  values : clause.values ≠ []

theorem named_filterClauses {negated : Bool} {keys : List String}
    {lists : Assoc String (List String)}
    (names : ∀ key ∈ keys, ':' ∉ key.toList ∧ '\\' ∉ key.toList) :
    ∀ clause ∈ filterClauses negated keys lists, Named clause := by
  intro clause mem
  rw [filterClauses, List.mem_filterMap] at mem
  obtain ⟨key, listed, made⟩ := mem
  split at made
  · cases made
    exact ⟨(names key listed).1, (names key listed).2, List.cons_ne_nil _ _⟩
  · cases made

theorem named_queryClauses (riskClass sensitivityType : String) (filters : Filters) :
    ∀ clause ∈ queryClauses riskClass sensitivityType filters, Named clause := by
  intro clause mem
  simp only [queryClauses, List.mem_append] at mem
  rcases mem with ((mem | mem) | mem) | mem
  · rcases mem with ⟨⟩ | ⟨-, ⟨⟩ | ⟨-, ⟨⟩⟩⟩
    · exact ⟨(by decide : ':' ∉ "risk_class".toList), (by decide : '\\' ∉ "risk_class".toList),
        List.cons_ne_nil _ _⟩
    · exact ⟨(by decide : ':' ∉ "sensitivity_type".toList),
        (by decide : '\\' ∉ "sensitivity_type".toList), List.cons_ne_nil _ _⟩
  · split at mem
    · cases mem
    · rename_i some_
      rcases mem with ⟨⟩ | ⟨-, ⟨⟩⟩
      exact ⟨(by decide : ':' ∉ "bucket".toList), (by decide : '\\' ∉ "bucket".toList), some_⟩
  · exact named_filterClauses (by decide) clause mem
  · exact named_filterClauses (by decide) clause mem

theorem paired_values {ok : Char → Bool} (values : List String) (rest : List Item) :
    Paired ok (List.intercalate [.mark '|'] (values.map fun v => v.toList.map .val) ++
        .mark '\x7d' :: rest) ↔
      (∀ v ∈ values, PairedValue ok v.toList) ∧ Paired ok rest := by
  induction values with
  | nil => exact ⟨fun paired => ⟨nofun, paired⟩, And.right⟩
  | cons v values ih =>
    rw [List.forall_mem_cons, and_assoc, ← ih]
    cases values with
    | nil =>
      rw [List.map_singleton, List.intercalate_singleton, paired_value]
      rfl
    | cons w values =>
      rw [List.map_cons, List.map_cons, List.intercalate_cons_cons, List.append_assoc,
        List.append_assoc, List.singleton_append, paired_value]

theorem paired_clause {ok : Char → Bool} (clause : TagClause) (rest : List Item) :
    Paired ok ((itemShape clause).print .mark ++ rest) ↔
      (∀ v ∈ clause.values, PairedValue ok v.toList) ∧ Paired ok rest := by
  rw [← paired_values]
  simp only [Shape.print, List.append_assoc, paired_marks]
  rfl

theorem paired_print {ok : Char → Bool} (clauses : List TagClause) :
    Paired ok (print .mark (clauses.map itemShape)) ↔
      ∀ clause ∈ clauses, ∀ v ∈ clause.values, PairedValue ok v.toList := by
  induction clauses with
  | nil => exact ⟨fun _ => nofun, fun _ => trivial⟩
  | cons clause clauses ih =>
    rw [List.forall_mem_cons, ← ih]
    cases clauses with
    | nil =>
      rw [List.map_singleton, print, List.map_singleton, List.intercalate_singleton,
        ← List.append_nil ((itemShape clause).print .mark), paired_clause]
      rfl
    | cons clause' clauses =>
      rw [List.map_cons, List.map_cons, print, List.map_cons, List.map_cons,
        List.intercalate_cons_cons, List.append_assoc, paired_clause]
      rfl

def wordShape (clause : TagClause) : Shape Tok where
  negated := clause.negated
  field := clause.field.toList
  words := clause.values.map fun v => word isSpecial v.toList

theorem read_values (values : List String) (rest : List Item) :
    reading isSpecial false (List.intercalate [.mark '|'] (values.map fun v => v.toList.map .val) ++
        .mark '\x7d' :: rest) =
      List.intercalate [.raw '|'] (values.map fun v => word isSpecial v.toList) ++
        .raw '\x7d' :: reading isSpecial false rest := by
  induction values with
  | nil => rfl
  | cons v values ih =>
    cases values with
    | nil =>
      rw [List.map_singleton, List.intercalate_singleton, read_value, List.map_singleton,
        List.intercalate_singleton]
    | cons w values =>
      simp only [List.map_cons, List.intercalate_cons_cons, List.append_assoc] at ih ⊢
      rw [List.singleton_append, read_value, ih]
      rfl

theorem read_clause (clause : TagClause) (rest : List Item) :
    reading isSpecial false ((itemShape clause).print .mark ++ rest) =
      (wordShape clause).print .raw ++ reading isSpecial false rest := by
  simp only [Shape.print, itemShape, wordShape, List.append_assoc, read_marks]
  rw [List.singleton_append, read_values]
  rfl

theorem read_print (clauses : List TagClause) :
    reading isSpecial false (print .mark (clauses.map itemShape)) =
      print .raw (clauses.map wordShape) := by
  induction clauses with
  | nil => rfl
  | cons clause clauses ih =>
    cases clauses with
    | nil =>
      rw [List.map_singleton, print, List.map_singleton, List.intercalate_singleton,
        ← List.append_nil ((itemShape clause).print .mark), read_clause]
      simp [print, reading]
    | cons clause' clauses =>
      simp only [print, List.map_cons, List.intercalate_cons_cons, List.append_assoc] at ih ⊢
      rw [read_clause, List.singleton_append, reading, ih]
      rfl

theorem clause_wordShape (clause : TagClause) : parsedClause (wordShape clause) = clause := by
  obtain ⟨negated, field, values⟩ := clause
  simp only [parsedClause, wordShape, String.ofList_toList, List.map_map, TagClause.mk.injEq,
    true_and]
  calc values.map ((fun w => String.ofList (w.map Tok.char)) ∘ fun v => word isSpecial v.toList) =
      values.map id := by
        refine List.map_congr_left fun v _ => ?_
        rw [Function.comp_apply, word_char, String.ofList_toList]
        rfl
    _ = values := List.map_id _

theorem special_bar : isSpecial '|' = true := by decide

theorem special_brace : isSpecial '\x7d' = true := by decide

theorem special_backslash : isSpecial '\\' = false := by decide

theorem marked_print {clauses : List TagClause} (named : ∀ clause ∈ clauses, Named clause) :
    Marked (print .mark (clauses.map itemShape)) := by
  refine marked_intercalate ((marked_marks [' ']).mpr (by decide)) ?_
  intro printed mem
  rw [List.map_map, List.mem_map] at mem
  obtain ⟨clause, listed, rfl⟩ := mem
  simp only [Function.comp_apply, Shape.print, marked_append]
  refine ⟨⟨⟨⟨?_, (marked_marks _).mpr (named clause listed).backslash⟩,
    (marked_marks _).mpr (by decide)⟩, ?_⟩, (marked_marks ['\x7d']).mpr (by decide)⟩
  · split
    · exact (marked_marks _).mpr (by decide)
    · exact (marked_marks _).mpr (by decide)
  · refine marked_intercalate ((marked_marks ['|']).mpr (by decide)) ?_
    intro w mem
    obtain ⟨v, -, rfl⟩ := List.mem_map.mp mem
    exact marked_vals v.toList

theorem legal_wordShape {clause : TagClause} (named : Named clause)
    (plain : ∀ v ∈ clause.values, Plain v) : Legal (wordShape clause) := by
  refine ⟨named.colon, by simpa [wordShape] using named.values, fun w mem => ?_⟩
  obtain ⟨v, listed, rfl⟩ := List.mem_map.mp mem
  have paired := plain v listed
  constructor
  · refine word_free special_bar (paired.mono fun c harmless => ?_)
    exact (Bool.and_eq_true_iff.mp harmless).1
  · refine word_free special_brace (paired.mono fun c harmless => ?_)
    simp only [isHarmless, Bool.and_eq_true] at harmless ⊢
    exact ⟨harmless.1.1, harmless.2⟩

/-- Values whose backslashes all stand before harmless characters are read as they were
meant, clause by clause. -/
theorem parseQuery_plain {query : String} {clauses : List TagClause} (some_ : clauses ≠ [])
    (named : ∀ clause ∈ clauses, Named clause)
    (spelled : query.toList = text isSpecial (print .mark (clauses.map itemShape)))
    (plain : ∀ clause ∈ clauses, ∀ v ∈ clause.values, Plain v) :
    parseQuery query = some clauses := by
  have paired : Paired isSpecial (print .mark (clauses.map itemShape)) := by
    refine (paired_print clauses).mpr fun clause listed v mem => ?_
    refine (plain clause listed v mem).mono fun c harmless => ?_
    simp only [isHarmless, Bool.and_eq_true] at harmless
    exact harmless.1.1
  refine parseQuery_iff.mpr ⟨clauses.map wordShape, ?_, by simpa using some_, ?_, ?_⟩
  · rw [lex, spelled, (lex_paired special_backslash (marked_print named) paired).1, read_print]
  · intro s mem
    obtain ⟨clause, listed, rfl⟩ := List.mem_map.mp mem
    exact legal_wordShape (named clause listed) (plain clause listed)
  · rw [List.map_map]
    calc clauses = clauses.map id := (List.map_id _).symm
      _ = clauses.map (parsedClause ∘ wordShape) :=
        List.map_congr_left fun clause _ => (clause_wordShape clause).symm

end Meaning

section Counting

def weight (load : String → ℕ) (clauses : List TagClause) : ℕ :=
  (clauses.map fun clause => (clause.values.map load).sum).sum

section Balance
variable (fT : Size Tok) (fI : Size Item) {load : String → ℕ}
  (marks : ∀ cs : List Char, '\\' ∉ cs → fT.of (cs.map .raw) = fI.of (cs.map .mark))
  (values : ∀ v, fI.of (v.toList.map .val) + fI.of [.mark '|'] = load v)
include marks values

theorem clause_balance {s : Shape Tok} {m : TagClause} (legal : s.words ≠ []) (named : Named m)
    (words : ∀ w ∈ s.words, fT.of w + fT.of [.raw '|'] = load (String.ofList (w.map Tok.char)))
    (same : SameClause (parsedClause s) m) :
    fT.of (s.print .raw) + (m.values.map load).sum =
      fI.of ((itemShape m).print .mark) + ((parsedClause s).values.map load).sum := by
  obtain ⟨sign, name, -⟩ := same
  have bar : fT.of [.raw '|'] = fI.of [.mark '|'] := marks ['|'] (by decide)
  have spelled := fT.print .raw legal
  have meant := fI.print .mark (s := itemShape m) (by simpa [itemShape] using named.values)
  have frames : frame (itemShape m) = frame s := by
    rw [frame, frame, itemShape, ← sign, ← name, parsedClause, String.toList_ofList]
  have free : '\\' ∉ frame s := by
    have field := named.backslash
    rw [← frames, frame, itemShape]
    cases m.negated <;> simp [field]
  have parsedLoads : (s.words.map fun w => fT.of w + fT.of [.raw '|']).sum =
      ((parsedClause s).values.map load).sum := by
    rw [parsedClause, List.map_map]
    exact congrArg List.sum (List.map_congr_left words)
  have meantLoads : ((itemShape m).words.map fun w => fI.of w + fI.of [.mark '|']).sum =
      (m.values.map load).sum := by
    rw [itemShape, List.map_map]
    exact congrArg List.sum (List.map_congr_left fun v _ => values v)
  rw [parsedLoads, marks _ free] at spelled
  rw [meantLoads, frames] at meant
  omega

/-- The tokens read and the text meant have the same size but for the values. -/
theorem balance {shapes : List (Shape Tok)} {meant : List TagClause}
    (legal : ∀ s ∈ shapes, s.words ≠ []) (named : ∀ m ∈ meant, Named m)
    (words : ∀ s ∈ shapes, ∀ w ∈ s.words,
      fT.of w + fT.of [.raw '|'] = load (String.ofList (w.map Tok.char)))
    (same : List.Forall₂ SameClause (shapes.map parsedClause) meant) :
    fT.of (print .raw shapes) + weight load meant =
      fI.of (print .mark (meant.map itemShape)) + weight load (shapes.map parsedClause) := by
  rw [List.forall₂_map_left_iff] at same
  induction same with
  | nil =>
    change fT.of [] + _ = fI.of [] + _
    rw [fT.nil, fI.nil]
    rfl
  | @cons s m shapes meant first rest ih =>
    rw [List.forall_mem_cons] at legal named words
    have own := clause_balance fT fI marks values legal.1 named.1 words.1 first
    have later := ih legal.2 named.2 words.2
    have space : fT.of [.raw ' '] = fI.of [.mark ' '] := marks [' '] (by decide)
    cases rest with
    | nil =>
      simp only [print, List.map_cons, List.map_nil, List.intercalate_singleton, weight,
        List.sum_cons, List.sum_nil, Nat.add_zero]
      exact own
    | cons _ _ =>
      simp only [print, List.map_cons, List.intercalate_cons_cons, weight, List.sum_cons,
        fT.append, fI.append] at later ⊢
      omega

end Balance

section Extra
variable {load : String → ℕ} {S W : List String} {parsed meant : List TagClause}

theorem sum_subperm (sub : S.Subperm W) (load : String → ℕ) :
    (S.map load).sum ≤ (W.map load).sum ∧
      ((∀ v, 0 < load v) → (S.map load).sum = (W.map load).sum → S.Perm W) := by
  obtain ⟨l, perm, sublist⟩ := sub
  obtain ⟨extra, whole⟩ := sublist.exists_perm_append
  have kept := (perm.map load).sum_eq
  have all := (whole.map load).sum_eq
  rw [List.map_append, List.sum_append] at all
  refine ⟨by omega, fun pos equal => ?_⟩
  have none_ : extra = [] := by
    cases extra with
    | nil => rfl
    | cons v vs =>
      have := pos v
      simp only [List.map_cons, List.sum_cons] at all
      omega
  rw [none_, List.append_nil] at whole
  exact (whole.trans perm).symm

theorem weight_le (nodup : ∀ m ∈ meant, m.values.Nodup)
    (same : List.Forall₂ SameClause parsed meant) (load : String → ℕ) :
    weight load meant ≤ weight load parsed ∧
      ((∀ v, 0 < load v) → weight load meant = weight load parsed →
        ∀ load' : String → ℕ, weight load' meant = weight load' parsed) := by
  induction same with
  | nil => exact ⟨le_rfl, fun _ _ _ => rfl⟩
  | @cons p m parsed meant first rest ih =>
    rw [List.forall_mem_cons] at nodup
    obtain ⟨le, later⟩ := ih nodup.2
    have sub : m.values.Subperm p.values :=
      List.subperm_of_subset nodup.1 fun v mem => (first.2.2 v).mpr mem
    obtain ⟨own, perm⟩ := sum_subperm sub load
    simp only [weight, List.map_cons, List.sum_cons] at le later ⊢
    refine ⟨by omega, fun pos equal load' => ?_⟩
    rw [later pos (by omega) load', ((perm pos (by omega)).map load').sum_eq]

end Extra

section Sizes

def foundSize : Size Tok := ⟨found, rfl, fun xs ys => by
  rw [found, List.map_append, List.count_append, found, found]⟩

def backslashSize : Size Item := ⟨backslashes, rfl, fun _ _ => List.count_append⟩

def lengthSize (α : Type) : Size α := ⟨List.length, rfl, fun _ _ => List.length_append⟩

def rawSize (d : Char) : Size Tok := ⟨List.count (.raw d), rfl, fun _ _ => List.count_append⟩

def markSize (d : Char) : Size Item := ⟨marks d, rfl, fun _ _ => List.count_append⟩

theorem found_marks {cs : List Char} (free : '\\' ∉ cs) :
    found (cs.map .raw) = backslashes (cs.map .mark) := by
  induction cs with
  | nil => rfl
  | cons c cs ih =>
    rw [List.mem_cons, not_or] at free
    rw [List.map_cons, List.map_cons, found_raw, backslashes_mark, if_neg (Ne.symm free.1),
      Nat.add_zero, ih free.2]

theorem backslashes_vals (v : List Char) : backslashes (v.map .val) = v.count '\\' := by
  induction v with
  | nil => rfl
  | cons c v ih => rw [List.map_cons, backslashes_val, ih, List.count_cons]; simp

theorem count_marks (d : Char) (cs : List Char) :
    (cs.map Tok.raw).count (.raw d) = marks d (cs.map .mark) := by
  induction cs with
  | nil => rfl
  | cons c cs ih => rw [List.map_cons, List.map_cons, count_raw, marks_mark, ih]

theorem marks_vals (d : Char) (v : List Char) : marks d (v.map .val) = 0 := by
  induction v with
  | nil => rfl
  | cons c v ih => rw [List.map_cons, marks_val, ih]

end Sizes

/-- A query that is read as it was meant has no backslash outside a harmless pair: the values that
are read hold as many backslashes as those meant, and there is a token for every character. -/
theorem plain_of_readsBack {query : String} {meant : List TagClause}
    (named : ∀ m ∈ meant, Named m) (nodup : ∀ m ∈ meant, m.values.Nodup)
    (spelled : query.toList = text isSpecial (print .mark (meant.map itemShape)))
    (back : ReadsBack query meant) : ∀ m ∈ meant, ∀ v ∈ m.values, Plain v := by
  obtain ⟨_, parse, same⟩ := back
  obtain ⟨shapes, lexed, -, legal, rfl⟩ := parseQuery_iff.mp parse
  have words := fun s mem => (legal s mem).words
  have marked := marked_print named
  rw [lex, spelled] at lexed
  have paired : Paired isSpecial (print .mark (meant.map itemShape)) := by
    obtain ⟨le, paired⟩ := backslashes_read special_backslash marked false
    rw [lexed] at le paired
    have counted : found (print .raw shapes) + weight (fun v => v.toList.count '\\') meant =
        backslashes (print .mark (meant.map itemShape)) +
          weight (fun v => v.toList.count '\\') (shapes.map parsedClause) :=
      balance foundSize backslashSize (fun _ => found_marks)
        (fun v => backslashes_vals v.toList) words named
        (fun s _ w _ => by rw [String.toList_ofList]; rfl) same
    have more := (weight_le nodup same fun v => v.toList.count '\\').1
    rw [Bool.toNat_false] at le paired
    exact (paired (by omega)).1
  rw [(lex_paired special_backslash marked paired).1] at lexed
  have numbers : weight (fun _ => 1) meant = weight (fun _ => 1) (shapes.map parsedClause) := by
    have counted : (print .raw shapes).length + weight (fun v => v.toList.length + 1) meant =
        (print .mark (meant.map itemShape)).length +
          weight (fun v => v.toList.length + 1) (shapes.map parsedClause) :=
      balance (lengthSize Tok) (lengthSize Item)
        (fun _ _ => by simp [lengthSize]) (fun _ => by simp [lengthSize]) words named
        (fun s _ w _ => by simp [lengthSize]) same
    have long := congrArg List.length lexed
    rw [reading_length] at long
    have equal : weight (fun v => v.toList.length + 1) meant =
        weight (fun v => v.toList.length + 1) (shapes.map parsedClause) := by omega
    exact (weight_le nodup same _).2 (fun _ => Nat.succ_pos _) equal _
  have bars : Paired (fun c => isSpecial c && c != '|') (print .mark (meant.map itemShape)) := by
    refine ((marks_read special_backslash special_bar paired false nofun).2 ?_).1
    have counted : (print .raw shapes).count (.raw '|') + weight (fun _ => 1) meant =
        marks '|' (print .mark (meant.map itemShape)) +
          weight (fun _ => 1) (shapes.map parsedClause) :=
      balance (rawSize '|') (markSize '|') (fun cs _ => count_marks '|' cs)
        (fun v => congrArg (· + 1) (marks_vals '|' v.toList)) words named
        (fun s mem w listed => by
          have none_ := List.count_eq_zero.mpr ((legal s mem).free w listed).1
          exact congrArg (· + 1) none_) same
    rw [lexed]
    omega
  have braces : Paired (fun c => isSpecial c && c != '\x7d')
      (print .mark (meant.map itemShape)) := by
    refine ((marks_read special_backslash special_brace paired false nofun).2 ?_).1
    have counted : (print .raw shapes).count (.raw '\x7d') + weight (fun _ => 0) meant =
        marks '\x7d' (print .mark (meant.map itemShape)) +
          weight (fun _ => 0) (shapes.map parsedClause) :=
      balance (rawSize '\x7d') (markSize '\x7d') (fun cs _ => count_marks '\x7d' cs)
        (fun v => marks_vals '\x7d' v.toList) words named
        (fun s mem w listed => List.count_eq_zero.mpr ((legal s mem).free w listed).2) same
    have none_ (clauses : List TagClause) : weight (fun _ => 0) clauses = 0 := by
      simp [weight]
    rw [none_, none_, Nat.add_zero, Nat.add_zero] at counted
    rw [lexed]
    exact counted
  have harmless : Paired isHarmless (print .mark (meant.map itemShape)) := by
    refine (bars.and braces).mono fun c both => ?_
    simp only [isHarmless, Bool.and_eq_true] at both ⊢
    exact ⟨both.1, both.2.2⟩
  exact (paired_print meant).mp harmless

end Counting

section Main

theorem sameClause_refl (clause : TagClause) : SameClause clause clause :=
  ⟨rfl, rfl, fun _ => Iff.rfl⟩

/-- The query of an admitted request is read as the clauses that were meant exactly when
every backslash of a value stands before a harmless special character of it. -/
theorem query_readsBack_iff (shown : ℚ → Option String) (riskClass sensitivityType : String)
    {subset desks : List String} (subset_nodup : subset.Nodup) (desks_nodup : desks.Nodup)
    {rawInclude rawExclude : Option Json} {outInclude outExclude : List (String × String)}
    (included : validateAndMarshalCsv shown rawInclude requestIncludeKeys "include" =
      .ok outInclude)
    (excluded : validateAndMarshalCsv shown rawExclude requestExcludeKeys "exclude" =
      .ok outExclude) :
    let filters := queryFilters subset desks (includeCsv outInclude) (excludeCsv outExclude)
    ReadsBack (buildFastPathQuery riskClass sensitivityType filters)
        (queryClauses riskClass sensitivityType filters) ↔
      ∀ clause ∈ queryClauses riskClass sensitivityType filters, ∀ v ∈ clause.values, Plain v := by
  intro filters
  have named := named_queryClauses riskClass sensitivityType filters
  have spelled := toList_query riskClass sensitivityType filters
  constructor
  · exact plain_of_readsBack named (nodup_queryClauses riskClass sensitivityType subset_nodup
      desks_nodup (admitted_csvOf included) (admitted_csvOf excluded)) spelled
  · intro plain
    have some_ : queryClauses riskClass sensitivityType filters ≠ [] := by
      simp [queryClauses]
    refine ⟨_, parseQuery_plain some_ named spelled plain, ?_⟩
    exact List.forall₂_same.mpr fun clause _ => sameClause_refl clause

def exampleShown (q : ℚ) : Option String := some (NumberText.showNumber q)

def blank : List (String × String) := requestIncludeKeys.map fun key => (key, "")

def harmlessExclude : Json := .obj [("book", .arr [.str "p|q", .str "x\\/y", .str "p|q"])]

def harmlessLists : List (String × String) :=
  [("book", "p|q,x\\/y"), ("trade_id", ""), ("risk_factor", ""), ("desk", ""), ("region", ""),
    ("bucket", "")]

def harmlessFilters : Filters :=
  queryFilters ["EUR:USD"] [] (includeCsv blank) (excludeCsv harmlessLists)

theorem query_readsBack_harmless :
    ReadsBack (buildFastPathQuery "FX" "Delta" harmlessFilters)
      (queryClauses "FX" "Delta" harmlessFilters) := by
  have unrestricted : validateAndMarshalCsv exampleShown none requestIncludeKeys "include" =
      .ok blank := rfl
  have admitted : validateAndMarshalCsv exampleShown (some harmlessExclude) requestExcludeKeys
      "exclude" = .ok harmlessLists := rfl
  refine (query_readsBack_iff exampleShown "FX" "Delta" (List.nodup_singleton "EUR:USD")
    List.nodup_nil unrestricted admitted).mpr ?_
  have books : splitCsv "p|q,x\\/y" = ["p|q", "x\\/y"] :=
    @splitCsv_intercalate ["p|q", "x\\/y"] (by decide)
  have filters : harmlessFilters = ⟨["EUR:USD"], ofPairs [("book", []), ("trade_id", []),
      ("desk", []), ("bucket", [])], ofPairs [("book", ["p|q", "x\\/y"]), ("trade_id", []),
      ("risk_factor", []), ("desk", []), ("bucket", [])]⟩ := by
    rw [← books]
    rfl
  rw [harmlessFilters] at filters
  rw [filters]
  decide +kernel

def swallowingExclude : Json := .obj [("book", .arr [.str "a\\"]), ("desk", .arr [.str "b"])]

def swallowingLists : List (String × String) :=
  [("book", "a\\"), ("trade_id", ""), ("risk_factor", ""), ("desk", "b"), ("region", ""),
    ("bucket", "")]

def swallowingFilters : Filters :=
  queryFilters [] [] (includeCsv blank) (excludeCsv swallowingLists)

/-- A book that ends in a backslash escapes the brace behind it, and the exclusion of the desk
becomes part of its name. -/
theorem desk_swallowed :
    validateAndMarshalCsv exampleShown (some swallowingExclude) requestExcludeKeys "exclude" =
        .ok swallowingLists ∧
      parseQuery (buildFastPathQuery "FX" "Delta" swallowingFilters) =
        some [⟨false, "risk_class", ["FX"]⟩, ⟨false, "sensitivity_type", ["Delta"]⟩,
          ⟨true, "book", ["a\x7d -@desk:\x7bb"]⟩] ∧
      ¬ReadsBack (buildFastPathQuery "FX" "Delta" swallowingFilters)
        (queryClauses "FX" "Delta" swallowingFilters) := by
  have books : splitCsv "a\\" = ["a\\"] := @splitCsv_intercalate ["a\\"] (by decide)
  have desks : splitCsv "b" = ["b"] := @splitCsv_intercalate ["b"] (by decide)
  have filters : swallowingFilters = ⟨[], ofPairs [("book", []), ("trade_id", []),
      ("desk", []), ("bucket", [])], ofPairs [("book", ["a\\"]), ("trade_id", []),
      ("risk_factor", []), ("desk", ["b"]), ("bucket", [])]⟩ := by
    rw [← books, ← desks]
    rfl
  have read : parseQuery (buildFastPathQuery "FX" "Delta" swallowingFilters) =
      some [⟨false, "risk_class", ["FX"]⟩, ⟨false, "sensitivity_type", ["Delta"]⟩,
        ⟨true, "book", ["a\x7d -@desk:\x7bb"]⟩] := by
    rw [filters]
    decide +kernel
  refine ⟨rfl, read, ?_⟩
  rintro ⟨parsed, parse, same⟩
  rw [read] at parse
  cases parse
  have lengths := same.length_eq
  rw [filters] at lengths
  revert lengths
  decide +kernel

end Main

end TagQuery
