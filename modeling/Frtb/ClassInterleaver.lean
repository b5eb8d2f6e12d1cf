import Mathlib
import Frtb.Library.PoolSums

/-!
# The class interleaver

`interleavedSequence` spreads the rows of several classes over one sequence: each slot
goes to the class whose next row is earliest on a common timeline, where row `p` of a
class with `count` rows is due at `(p + 1/2) / count`.
-/

namespace ClassInterleaver

section Sequence

structure Split where
  klass : String
  count : ℕ
deriving DecidableEq

def active (splits : List Split) : List Split := splits.filter fun s => 0 < s.count

/-- When the next row of a class is due. -/
def key (placed count : ℕ) : ℚ := (placed + 1 / 2) / count

/-- One step of the search for the next class; `Infinity` is none. -/
def better (best : Option (ℕ × ℚ)) (entry : (Split × ℕ) × ℕ) : Option (ℕ × ℚ) :=
  if entry.1.1.count ≤ entry.1.2 then best
  else
    let due := key entry.1.2 entry.1.1.count
    match best with
    | none => some (entry.2, due)
    | some (idx, bestKey) => if due < bestKey then some (entry.2, due) else some (idx, bestKey)

def bestIdx (active : List Split) (placed : List ℕ) : Option ℕ :=
  (((active.zip placed).zipIdx.foldl better none)).map Prod.fst

/-- The classes of the next slots, by their index; none where all rows are placed too
early. -/
def slots (active : List Split) : ℕ → List ℕ → Option (List ℕ)
  | 0, _ => some []
  | left + 1, placed =>
    (bestIdx active placed).bind fun j =>
      (slots active left (placed.set j (placed.getD j 0 + 1))).map fun rest => j :: rest

def klassAt (active : List Split) (j : ℕ) : String := (active.map Split.klass).getD j ""

def interleavedSequence (splits : List Split) : Option (List String) :=
  let active := active splits
  let total := (active.map Split.count).sum
  (slots active total (active.map fun _ => 0)).map fun out => out.map (klassAt active)

end Sequence

section Search
variable {active : List Split} {placed : List ℕ}

/-- The entry has a row left. -/
def Open (entry : (Split × ℕ) × ℕ) : Prop := entry.1.2 < entry.1.1.count

/-- The search ends with an open entry, and none is due earlier. -/
theorem foldl_better (l : List ((Split × ℕ) × ℕ)) (best : Option (ℕ × ℚ)) :
    (∀ j due, l.foldl better best = some (j, due) → best = some (j, due) ∨
      ∃ entry ∈ l, Open entry ∧ entry.2 = j ∧ key entry.1.2 entry.1.1.count = due) ∧
    (∀ entry ∈ l, Open entry → ∃ j due, l.foldl better best = some (j, due) ∧
      due ≤ key entry.1.2 entry.1.1.count) ∧
    ∀ j due, best = some (j, due) → ∃ j' due', l.foldl better best = some (j', due') ∧
      due' ≤ due := by
  induction l generalizing best with
  | nil => exact ⟨fun j due found => .inl found, nofun, fun j due found => ⟨j, due, found, le_rfl⟩⟩
  | cons entry l ih =>
    obtain ⟨from_, least, kept⟩ := ih (better best entry)
    have first : (∀ j due, better best entry = some (j, due) → best = some (j, due) ∨
        Open entry ∧ entry.2 = j ∧ key entry.1.2 entry.1.1.count = due) ∧
        (Open entry → ∃ j due, better best entry = some (j, due) ∧
          due ≤ key entry.1.2 entry.1.1.count) ∧
        ∀ j due, best = some (j, due) → ∃ j' due', better best entry = some (j', due') ∧
          due' ≤ due := by
      by_cases closed : entry.1.1.count ≤ entry.1.2
      · rw [better, if_pos closed]
        exact ⟨fun j due found => .inl found, fun here => absurd here (not_lt.mpr closed),
          fun j due found => ⟨j, due, found, le_rfl⟩⟩
      · have here : Open entry := not_le.mp closed
        rw [better, if_neg closed]
        dsimp only
        cases best with
        | none =>
          refine ⟨?_, fun _ => ⟨_, _, rfl, le_rfl⟩, nofun⟩
          rintro j due ⟨⟩
          exact .inr ⟨here, rfl, rfl⟩
        | some best =>
          obtain ⟨idx, bestKey⟩ := best
          dsimp only
          by_cases earlier : key entry.1.2 entry.1.1.count < bestKey
          · rw [if_pos earlier]
            refine ⟨?_, fun _ => ⟨_, _, rfl, le_rfl⟩, ?_⟩
            · rintro j due ⟨⟩
              exact .inr ⟨here, rfl, rfl⟩
            · rintro j due ⟨⟩
              exact ⟨_, _, rfl, earlier.le⟩
          · rw [if_neg earlier]
            exact ⟨fun j due found => .inl found, fun _ => ⟨_, _, rfl, not_lt.mp earlier⟩,
              fun j due found => ⟨j, due, found, le_rfl⟩⟩
    rw [List.foldl_cons]
    refine ⟨fun j due found => ?_, fun other mem here => ?_, fun j due found => ?_⟩
    · rcases from_ j due found with earlier | ⟨other, mem, rest⟩
      · rcases first.1 j due earlier with before | own
        · exact .inl before
        · exact .inr ⟨entry, List.mem_cons_self, own⟩
      · exact .inr ⟨other, List.mem_cons_of_mem _ mem, rest⟩
    · rcases List.mem_cons.mp mem with rfl | mem
      · obtain ⟨j, due, found, le⟩ := first.2.1 here
        obtain ⟨j', due', found', le'⟩ := kept j due found
        exact ⟨j', due', found', le'.trans le⟩
      · exact least other mem here
    · obtain ⟨j', due', found', le⟩ := first.2.2 j due found
      obtain ⟨j'', due'', found'', le'⟩ := kept j' due' found'
      exact ⟨j'', due'', found'', le'.trans le⟩

def countAt (active : List Split) (j : ℕ) : ℕ := (active.map Split.count).getD j 0

theorem mem_zipIdx_entries {entry : (Split × ℕ) × ℕ}
    (mem : entry ∈ (active.zip placed).zipIdx) :
    entry.2 < active.length ∧ entry.1.1.count = countAt active entry.2 ∧
      entry.1.2 = placed.getD entry.2 0 := by
  have here := List.mem_zipIdx_iff_getElem?.mp mem
  obtain ⟨split, rows⟩ := List.getElem?_zip_eq_some.mp here
  refine ⟨(List.getElem?_eq_some_iff.mp split).1, ?_, ?_⟩
  · rw [countAt, List.getD_eq_getElem?_getD, List.getElem?_map, split]
    rfl
  · rw [List.getD_eq_getElem?_getD, rows]
    rfl

/-- The next class has a row left, and none with rows left is due earlier. -/
theorem bestIdx_spec {j : ℕ} (lengths : placed.length = active.length)
    (found : bestIdx active placed = some j) :
    j < active.length ∧ placed.getD j 0 < countAt active j ∧
      ∀ k < active.length, placed.getD k 0 < countAt active k →
        key (placed.getD j 0) (countAt active j) ≤ key (placed.getD k 0) (countAt active k) := by
  obtain ⟨from_, least, _⟩ := foldl_better (active.zip placed).zipIdx none
  obtain ⟨⟨_, due⟩, searched, rfl⟩ := Option.map_eq_some_iff.mp found
  obtain none_ | ⟨entry, mem, here, rfl, rfl⟩ := from_ _ due searched
  · cases none_
  · obtain ⟨inside, count, rows⟩ := mem_zipIdx_entries mem
    have some_ : entry.1.2 < entry.1.1.count := here
    rw [count, rows] at some_
    refine ⟨inside, some_, fun k below left => ?_⟩
    have there : ((active.zip placed).get ⟨k, by simp; omega⟩, k) ∈ (active.zip placed).zipIdx :=
      List.mem_zipIdx_iff_getElem?.mpr (List.getElem?_eq_getElem _)
    obtain ⟨_, count', rows'⟩ := mem_zipIdx_entries there
    dsimp only at count' rows'
    obtain ⟨j', due', searched', le⟩ := least _ there (by
      rw [Open, count', rows']
      exact left)
    cases searched.symm.trans searched'
    rw [count', rows'] at le
    rw [← count, ← rows]
    exact le

theorem bestIdx_isSome {k : ℕ} (lengths : placed.length = active.length)
    (below : k < active.length) (left : placed.getD k 0 < countAt active k) :
    ∃ j, bestIdx active placed = some j := by
  have there : ((active.zip placed).get ⟨k, by simp; omega⟩, k) ∈ (active.zip placed).zipIdx :=
    List.mem_zipIdx_iff_getElem?.mpr (List.getElem?_eq_getElem _)
  obtain ⟨_, count, rows⟩ := mem_zipIdx_entries there
  dsimp only at count rows
  obtain ⟨j, due, searched, _⟩ := (foldl_better (active.zip placed).zipIdx none).2.1 _ there (by
    rw [Open, count, rows]
    exact left)
  exact ⟨j, by rw [bestIdx, searched, Option.map_some]⟩

end Search

section Balance
variable {active : List Split} {placed : List ℕ}

/-- No class is ahead of another by more than half a row of each. -/
def Even (counts : ℕ → ℕ) (n : ℕ) (placed : ℕ → ℕ) : Prop :=
  ∀ j < n, ∀ k < n, ((placed j : ℚ) - 1 / 2) / counts j ≤ ((placed k : ℚ) + 1 / 2) / counts k

/-- Placing the class that is due earliest keeps the classes even. -/
theorem even_place {counts before after : ℕ → ℕ} {n j : ℕ} (pos : ∀ k < n, 0 < counts k)
    (within : ∀ k < n, before k ≤ counts k) (left : before j < counts j) (inside : j < n)
    (least : ∀ k < n, before k < counts k → key (before j) (counts j) ≤ key (before k) (counts k))
    (here : after j = before j + 1) (elsewhere : ∀ k, k ≠ j → after k = before k)
    (even : Even counts n before) : Even counts n after := by
  have posQ : ∀ k < n, (0 : ℚ) < counts k := fun k below => Nat.cast_pos.mpr (pos k below)
  have grows : ∀ k < n, ((before k : ℚ) + 1 / 2) / counts k ≤ (after k + 1 / 2) / counts k := by
    intro k below
    have le : (before k : ℚ) ≤ after k := by
      by_cases own : k = j
      · rw [own, here, Nat.cast_succ]
        exact le_add_of_nonneg_right one_pos.le
      · rw [elsewhere k own]
    have pos := posQ k below
    gcongr
  intro i first k second
  refine le_trans ?_ (grows k second)
  by_cases own : i = j
  · subst own
    have due : ((after i : ℚ) - 1 / 2) / counts i = key (before i) (counts i) := by
      rw [here, key, Nat.cast_succ]
      congr 1
      ring
    rw [due]
    by_cases open_ : before k < counts k
    · exact least k second open_
    · -- A class without rows left is due after its whole span, the others before it.
      have full : before k = counts k := le_antisymm (within k second) (not_lt.mp open_)
      have upper : key (before i) (counts i) ≤ 1 := by
        have room : (before i : ℚ) + 1 ≤ counts i := by exact_mod_cast left
        rw [key, div_le_one (posQ i first)]
        linarith
      have lower : (1 : ℚ) ≤ ((before k : ℚ) + 1 / 2) / counts k := by
        rw [full, le_div_iff₀ (posQ k second)]
        linarith
      exact upper.trans lower
  · rw [elsewhere i own]
    exact even i first k second

theorem sum_eq_sum_range (l : List ℕ) : l.sum = ∑ j ∈ Finset.range l.length, l.getD j 0 := by
  induction l with
  | nil => rfl
  | cons a l ih =>
    rw [List.sum_cons, List.length_cons, Finset.sum_range_succ', ih, add_comm]
    rfl

theorem getD_set {l : List ℕ} {j : ℕ} (inside : j < l.length) (v k : ℕ) :
    (l.set j v).getD k 0 = if k = j then v else l.getD k 0 := by
  rw [List.getD_eq_getElem?_getD, List.getElem?_set, List.getD_eq_getElem?_getD]
  by_cases own : k = j
  · rw [if_pos own, if_pos own.symm, if_pos inside]
    rfl
  · rw [if_neg own, if_neg (Ne.symm own)]

/-- The slots that are left: every class gets the rows it is short of, and every prefix
keeps the classes even. -/
theorem slots_spec (pos : ∀ k < active.length, 0 < countAt active k)
    (lengths : placed.length = active.length)
    (within : ∀ k < active.length, placed.getD k 0 ≤ countAt active k)
    (even : Even (countAt active) active.length fun k => placed.getD k 0) {left : ℕ}
    (total : placed.sum + left = (active.map Split.count).sum) :
    ∃ out, slots active left placed = some out ∧ out.length = left ∧
      (∀ j ∈ out, j < active.length) ∧
      (∀ k < active.length, placed.getD k 0 + out.count k = countAt active k) ∧
      ∀ m, Even (countAt active) active.length fun k => placed.getD k 0 + (out.take m).count k := by
  have sums : placed.sum = ∑ k ∈ Finset.range active.length, placed.getD k 0 := by
    rw [sum_eq_sum_range, lengths]
  have counts : (active.map Split.count).sum =
      ∑ k ∈ Finset.range active.length, countAt active k := by
    rw [sum_eq_sum_range, List.length_map]
    rfl
  induction left generalizing placed with
  | zero =>
    rw [Nat.add_zero, sums, counts] at total
    have all := (Finset.sum_eq_sum_iff_of_le fun k mem =>
      within k (Finset.mem_range.mp mem)).mp total
    refine ⟨[], rfl, rfl, nofun, fun k below => all k (Finset.mem_range.mpr below), fun m => ?_⟩
    simpa using even
  | succ left ih =>
    have some_ : ∃ k < active.length, placed.getD k 0 < countAt active k := by
      by_contra none_
      push Not at none_
      have le := Finset.sum_le_sum fun k (mem : k ∈ Finset.range active.length) =>
        none_ k (Finset.mem_range.mp mem)
      omega
    obtain ⟨k, below, room⟩ := some_
    obtain ⟨j, found⟩ := bestIdx_isSome lengths below room
    obtain ⟨inside, room', least⟩ := bestIdx_spec lengths found
    have inside' : j < placed.length := by omega
    have after := getD_set inside' (placed.getD j 0 + 1)
    have length' : (placed.set j (placed.getD j 0 + 1)).length = active.length := by
      rw [List.length_set, lengths]
    have total' : (placed.set j (placed.getD j 0 + 1)).sum + left =
        (active.map Split.count).sum := by
      have at_ : placed[j]? = some (placed.getD j 0) := by
        rw [List.getD_eq_getElem _ _ inside', List.getElem?_eq_getElem inside']
      have one := PoolSums.sum_map_set id at_ (placed.getD j 0 + 1)
      simp only [List.map_id, id] at one
      omega
    obtain ⟨out, filled, length, members, full, prefixes⟩ := ih length' (by
        intro i first
        rw [after]
        split
        · next same =>
          rw [same]
          omega
        · exact within i first)
      (@even_place _ (fun k => placed.getD k 0) _ _ j pos within room' inside least
        (by rw [after, if_pos rfl]) (fun i differ => by rw [after, if_neg differ]) even) total'
      (by rw [sum_eq_sum_range, length'])
    refine ⟨j :: out, ?_, ?_, ?_, ?_, ?_⟩
    · rw [slots, found, Option.bind_some, filled, Option.map_some]
    · rw [List.length_cons, length]
    · intro i mem
      rcases List.mem_cons.mp mem with rfl | mem
      · exact inside
      · exact members i mem
    · intro i first
      rw [← full i first, after, List.count_cons]
      by_cases own : i = j
      · rw [if_pos own, if_pos (by simp [own]), own]
        omega
      · rw [if_neg own, if_neg (by simpa using Ne.symm own), Nat.add_zero]
    · intro m
      cases m with
      | zero => simpa using even
      | succ m =>
        have rest := prefixes m
        intro i first k second
        have each : ∀ i, placed.getD i 0 + ((j :: out).take (m + 1)).count i =
            (placed.set j (placed.getD j 0 + 1)).getD i 0 + (out.take m).count i := by
          intro i
          rw [after, List.take_succ_cons, List.count_cons]
          by_cases own : i = j
          · rw [if_pos own, if_pos (by simp [own]), own]
            omega
          · rw [if_neg own, if_neg (by simpa using Ne.symm own), Nat.add_zero]
        dsimp only
        rw [each i, each k]
        exact rest i first k second

end Balance

section Sequences
variable {splits : List Split}

theorem countAt_active_pos {k : ℕ} (below : k < (active splits).length) :
    0 < countAt (active splits) k := by
  rw [countAt, List.getD_eq_getElem _ _ (by simpa using below), List.getElem_map]
  exact of_decide_eq_true (List.mem_filter.mp (List.getElem_mem below)).2

theorem sum_active (splits : List Split) :
    ((active splits).map Split.count).sum = (splits.map Split.count).sum := by
  induction splits with
  | nil => rfl
  | cons s splits ih =>
    unfold active at ih ⊢
    by_cases some_ : 0 < s.count
    · rw [List.filter_cons_of_pos (by simpa using some_), List.map_cons, List.map_cons,
        List.sum_cons, List.sum_cons, ih]
    · rw [List.filter_cons_of_neg (by simpa using some_), ih, List.map_cons, List.sum_cons,
        Nat.eq_zero_of_not_pos some_, Nat.zero_add]

/-- The sequence, with the place in the list of active classes of each of its slots. -/
structure Interleaved (splits : List Split) (out : List String) (places : List ℕ) : Prop where
  classes : out = places.map (klassAt (active splits))
  inside : ∀ j ∈ places, j < (active splits).length
  length : out.length = (splits.map Split.count).sum
  exact_ : ∀ j < (active splits).length, places.count j = countAt (active splits) j
  even : ∀ m, Even (countAt (active splits)) (active splits).length fun j => (places.take m).count j

theorem interleavedSequence_spec (splits : List Split) :
    ∃ out places, interleavedSequence splits = some out ∧ Interleaved splits out places := by
  have none_ : ∀ k, ((active splits).map fun _ => 0).getD k 0 = 0 := by
    intro k
    rw [List.getD_eq_getElem?_getD, List.getElem?_map]
    cases (active splits)[k]? <;> rfl
  have start : Even (countAt (active splits)) (active splits).length
      fun k => ((active splits).map fun _ => 0).getD k 0 := by
    intro j first k second
    dsimp only
    rw [none_, none_, Nat.cast_zero]
    have pos : (0 : ℚ) < countAt (active splits) j := Nat.cast_pos.mpr (countAt_active_pos first)
    have pos' : (0 : ℚ) < countAt (active splits) k := Nat.cast_pos.mpr (countAt_active_pos second)
    have below : ((0 : ℚ) - 1 / 2) / countAt (active splits) j ≤ 0 :=
      div_nonpos_of_nonpos_of_nonneg (by norm_num) pos.le
    have above : (0 : ℚ) ≤ (0 + 1 / 2) / countAt (active splits) k :=
      div_nonneg (by norm_num) pos'.le
    exact below.trans above
  obtain ⟨places, filled, length, inside, full, prefixes⟩ := @slots_spec _ _
    (fun k => countAt_active_pos) (by rw [List.length_map])
    (fun k _ => by rw [none_]; exact Nat.zero_le _) start ((active splits).map Split.count).sum
    (by simp)
  refine ⟨places.map (klassAt (active splits)), places, ?_, rfl, inside, ?_, ?_, ?_⟩
  · rw [interleavedSequence, filled, Option.map_some]
  · rw [List.length_map, length, sum_active]
  · intro j below
    rw [← full j below, none_, Nat.zero_add]
  · intro m
    simpa only [none_, Nat.zero_add] using prefixes m

/-- A class name is met as often as its place, where the names are distinct. -/
theorem count_map_klassAt (distinct : (splits.map Split.klass).Nodup) {j : ℕ}
    (below : j < (active splits).length) {places : List ℕ}
    (inside : ∀ i ∈ places, i < (active splits).length) :
    (places.map (klassAt (active splits))).count (active splits)[j].klass = places.count j := by
  have names : ((active splits).map Split.klass).Nodup :=
    distinct.sublist (List.Sublist.map _ List.filter_sublist)
  rw [List.count, List.countP_map, List.count]
  refine List.countP_congr fun i mem => ?_
  have below' := inside i mem
  rw [Function.comp_apply, klassAt, List.getD_eq_getElem _ _ (by simpa using below'),
    List.getElem_map, beq_iff_eq, beq_iff_eq]
  have same := @List.Nodup.getElem_inj_iff _ _ names i (by simpa using below') j
      (by simpa using below)
  rw [List.getElem_map, List.getElem_map] at same
  exact same

/-- The interleaver places every class exactly its count, and in every prefix no class with
rows is ahead of its share by more than half a row of its own and half a row of another. -/
theorem interleavedSequence_balanced (splits : List Split) :
    ∃ out places, interleavedSequence splits = some out ∧ Interleaved splits out places ∧
      ((splits.map Split.klass).Nodup →
        (∀ s ∈ splits, out.count s.klass = s.count) ∧
        ∀ m, ∀ s ∈ splits, ∀ t ∈ splits, 0 < s.count → 0 < t.count →
          (((out.take m).count s.klass : ℚ) - 1 / 2) / s.count ≤
            ((out.take m).count t.klass + 1 / 2) / t.count) := by
  obtain ⟨out, places, found, spec⟩ := interleavedSequence_spec splits
  refine ⟨out, places, found, spec, fun distinct => ?_⟩
  have placed : ∀ s ∈ splits, 0 < s.count → ∃ (j : ℕ) (below : j < (active splits).length),
      (active splits)[j] = s ∧ countAt (active splits) j = s.count := by
    intro s mem some_
    have listed : s ∈ active splits := List.mem_filter.mpr ⟨mem, decide_eq_true some_⟩
    obtain ⟨j, below, rfl⟩ := List.getElem_of_mem listed
    refine ⟨j, below, rfl, ?_⟩
    rw [countAt, List.getD_eq_getElem _ _ (by simpa using below), List.getElem_map]
  have counted : ∀ (m : ℕ) (j : ℕ) (below : j < (active splits).length),
      (out.take m).count (active splits)[j].klass = (places.take m).count j := by
    intro m j below
    rw [spec.classes, ← List.map_take]
    exact count_map_klassAt distinct below fun i mem => spec.inside i (List.mem_of_mem_take mem)
  constructor
  · intro s mem
    by_cases some_ : 0 < s.count
    · obtain ⟨j, below, rfl, count⟩ := placed s mem some_
      have whole := counted out.length j below
      have same : places.length = out.length := by rw [spec.classes, List.length_map]
      rw [List.take_length, ← same, List.take_length] at whole
      rw [whole, spec.exact_ j below, count]
    · rw [Nat.eq_zero_of_not_pos some_, List.count_eq_zero, spec.classes, List.mem_map]
      rintro ⟨i, listed, name⟩
      have below := spec.inside i listed
      rw [klassAt, List.getD_eq_getElem _ _ (by simpa using below), List.getElem_map] at name
      have other := List.mem_filter.mp (List.getElem_mem below)
      have same := List.inj_on_of_nodup_map distinct other.1 mem name
      rw [same] at other
      exact some_ (of_decide_eq_true other.2)
  · intro m s mem t mem' some_ some'
    obtain ⟨j, below, rfl, count⟩ := placed s mem some_
    obtain ⟨k, below', rfl, count'⟩ := placed t mem' some'
    rw [counted m j below, counted m k below', ← count, ← count']
    exact spec.even m j below k below'

example : interleavedSequence [⟨"GIRR", 4⟩, ⟨"FX", 2⟩, ⟨"EQUITY", 0⟩] =
    some ["GIRR", "FX", "GIRR", "GIRR", "FX", "GIRR"] := by
  decide +kernel

end Sequences

end ClassInterleaver
