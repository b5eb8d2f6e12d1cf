import Mathlib.Algebra.BigOperators.Group.Finset.Basic
import Mathlib.Data.Char
import Mathlib.Data.List.AList
import Mathlib.Tactic.Abel
import Mathlib.Tactic.NormNum

/-!
# Finite maps written pair by pair

A map is an association list without repeated keys. `assign` writes a list of
pairs in order, so that a later pair wins; `collectPrefix` keeps the entries
whose string key starts with a prefix and drops the prefix. Sums over a map
are taken over its keys, so two maps that agree as functions have one sum.
-/

namespace AssocMaps

universe u v

/-- A finite map from `α` to `β`. -/
abbrev Assoc (α : Type u) (β : Type v) := AList (fun _ : α => β)

section Assign
variable {α : Type u} {β : Type v} [DecidableEq α]

/-- Write the pairs in order; a later pair overwrites an earlier one. -/
def assign (m : Assoc α β) (ps : List (α × β)) : Assoc α β :=
  ps.foldl (fun m p => m.insert p.1 p.2) m

/-- The map a list of pairs spells. -/
def ofPairs (ps : List (α × β)) : Assoc α β := assign ∅ ps

@[simp] theorem assign_nil (m : Assoc α β) : assign m [] = m := rfl

@[simp] theorem assign_cons (m : Assoc α β) (p : α × β) (ps : List (α × β)) :
    assign m (p :: ps) = assign (m.insert p.1 p.2) ps := rfl

theorem assign_append (m : Assoc α β) (ps qs : List (α × β)) :
    assign m (ps ++ qs) = assign (assign m ps) qs := by
  simp only [assign, List.foldl_append]

theorem mem_assign (m : Assoc α β) (ps : List (α × β)) (a : α) :
    a ∈ assign m ps ↔ a ∈ m ∨ a ∈ ps.map Prod.fst := by
  induction ps generalizing m with
  | nil => simp
  | cons p ps ih =>
    rw [assign_cons, ih, AList.mem_insert, List.map_cons, List.mem_cons]
    tauto

theorem lookup_assign_of_notMem (m : Assoc α β) (ps : List (α × β)) {a : α}
    (absent : a ∉ ps.map Prod.fst) : (assign m ps).lookup a = m.lookup a := by
  induction ps generalizing m with
  | nil => rfl
  | cons p ps ih =>
    rw [List.map_cons, List.mem_cons, not_or] at absent
    rw [assign_cons, ih _ absent.2, AList.lookup_insert_ne absent.1]

theorem lookup_assign_of_mem (m : Assoc α β) {ps : List (α × β)}
    (nodup : (ps.map Prod.fst).Nodup) {a : α} {b : β} (h : (a, b) ∈ ps) :
    (assign m ps).lookup a = some b := by
  induction ps generalizing m with
  | nil => simp at h
  | cons p ps ih =>
    rw [List.map_cons, List.nodup_cons] at nodup
    rcases List.mem_cons.mp h with heq | htail
    · subst heq
      rw [assign_cons, lookup_assign_of_notMem _ _ nodup.1, AList.lookup_insert]
    · rw [assign_cons]
      exact ih _ nodup.2 htail

/-- A name that is written takes its value from the writes alone. -/
theorem lookup_assign_congr (m m' : Assoc α β) {ps : List (α × β)} {a : α}
    (written : a ∈ ps.map Prod.fst) : (assign m ps).lookup a = (assign m' ps).lookup a := by
  induction ps generalizing m m' with
  | nil => simp at written
  | cons p ps ih =>
    rw [assign_cons, assign_cons]
    by_cases htail : a ∈ ps.map Prod.fst
    · exact ih _ _ htail
    · have heq : a = p.1 := by
        rw [List.map_cons, List.mem_cons] at written
        exact written.resolve_right htail
      rw [lookup_assign_of_notMem _ _ htail, lookup_assign_of_notMem _ _ htail, heq,
        AList.lookup_insert, AList.lookup_insert]

theorem lookup_ofPairs_isSome (ps : List (α × β)) (a : α) :
    ((ofPairs ps).lookup a).isSome ↔ a ∈ ps.map Prod.fst := by
  rw [AList.lookup_isSome, ofPairs, mem_assign]
  simp

theorem lookup_ofPairs_eq_none {ps : List (α × β)} {a : α} (absent : a ∉ ps.map Prod.fst) :
    (ofPairs ps).lookup a = none := by
  rw [ofPairs, lookup_assign_of_notMem _ _ absent, AList.lookup_empty]

theorem mem_of_lookup_ofPairs {ps : List (α × β)} {a : α} {b : β}
    (h : (ofPairs ps).lookup a = some b) : (a, b) ∈ ps := by
  induction ps using List.reverseRecOn with
  | nil => cases h
  | append_singleton ps p ih =>
    rw [ofPairs, assign_append, assign_cons, assign_nil] at h
    by_cases heq : a = p.1
    · subst heq
      rw [AList.lookup_insert, Option.some.injEq] at h
      subst h
      exact List.mem_append_right _ List.mem_cons_self
    · rw [AList.lookup_insert_ne heq] at h
      exact List.mem_append_left _ (ih h)

theorem lookup_ofPairs_append_of_notMem {ps qs : List (α × β)} {a : α}
    (absent : a ∉ qs.map Prod.fst) : (ofPairs (ps ++ qs)).lookup a = (ofPairs ps).lookup a := by
  rw [ofPairs, assign_append, lookup_assign_of_notMem _ _ absent, ofPairs]

theorem lookup_ofPairs_append_of_notMem_left {ps qs : List (α × β)} {a : α}
    (absent : a ∉ ps.map Prod.fst) : (ofPairs (ps ++ qs)).lookup a = (ofPairs qs).lookup a := by
  rw [ofPairs, assign_append, ofPairs]
  by_cases written : a ∈ qs.map Prod.fst
  · exact lookup_assign_congr _ _ written
  · rw [lookup_assign_of_notMem _ _ written, lookup_assign_of_notMem _ _ written,
      lookup_assign_of_notMem _ _ absent]

/-- One optional value a name, the names distinct. -/
theorem lookup_ofPairs_filterMap {names : List α} (nodup : names.Nodup) (value : α → Option β)
    {a : α} (listed : a ∈ names) :
    (ofPairs (names.filterMap fun k => (value k).map fun v => (k, v))).lookup a = value a := by
  have hnodup : ((names.filterMap fun k => (value k).map fun v => (k, v)).map
      Prod.fst).Nodup := by
    rw [List.map_filterMap]
    refine nodup.filterMap ?_
    intro k k' b hk hk'
    simp only [Option.map_map, Option.mem_def, Option.map_eq_some_iff, Function.comp_apply]
      at hk hk'
    obtain ⟨_, _, rfl⟩ := hk
    obtain ⟨_, _, heq⟩ := hk'
    exact heq.symm
  cases hv : value a with
  | some b =>
    refine lookup_assign_of_mem ∅ hnodup (List.mem_filterMap.mpr ⟨a, listed, ?_⟩)
    rw [hv, Option.map_some]
  | none =>
    apply lookup_ofPairs_eq_none
    intro hmem
    obtain ⟨⟨a', b⟩, hp, rfl⟩ := List.mem_map.mp hmem
    obtain ⟨k, _, hk⟩ := List.mem_filterMap.mp hp
    obtain ⟨v, hkv, heq⟩ := Option.map_eq_some_iff.mp hk
    cases heq
    rw [hv] at hkv
    cases hkv

theorem lookup_eq_some_iff_mem (m : Assoc α β) (a : α) (b : β) :
    m.lookup a = some b ↔ (⟨a, b⟩ : Sigma fun _ : α => β) ∈ m.entries :=
  AList.mem_lookup_iff

/-- The pairs of a map, in the map's order. -/
def pairs (m : Assoc α β) : List (α × β) := m.entries.map (fun e => (e.1, e.2))

theorem mem_pairs (m : Assoc α β) (a : α) (b : β) :
    (a, b) ∈ pairs m ↔ m.lookup a = some b := by
  rw [lookup_eq_some_iff_mem, pairs, List.mem_map]
  constructor
  · rintro ⟨⟨a', b'⟩, he, heq⟩
    cases heq
    exact he
  · intro he
    exact ⟨⟨a, b⟩, he, rfl⟩

omit [DecidableEq α] in
theorem map_fst_pairs (m : Assoc α β) : (pairs m).map Prod.fst = m.keys := by
  simp [pairs, AList.keys, List.keys, List.map_map, Function.comp_def]

theorem lookup_ofPairs_pairs (m : Assoc α β) (a : α) :
    (ofPairs (pairs m)).lookup a = m.lookup a := by
  have nodup : ((pairs m).map Prod.fst).Nodup := by
    rw [map_fst_pairs]; exact m.keys_nodup
  cases h : m.lookup a with
  | some b => exact lookup_assign_of_mem ∅ nodup ((mem_pairs m a b).mpr h)
  | none =>
    have absent : a ∉ (pairs m).map Prod.fst := by
      rw [map_fst_pairs, ← AList.mem_keys]
      exact AList.lookup_eq_none.mp h
    rw [ofPairs, lookup_assign_of_notMem _ _ absent, AList.lookup_empty]

section Renamed
variable {γ : Type*}

theorem lookup_ofPairs_map (ps : List (α × β)) (g : β → γ) (a : α) :
    (ofPairs (ps.map fun p => (p.1, g p.2))).lookup a = ((ofPairs ps).lookup a).map g := by
  induction ps using List.reverseRecOn with
  | nil => rfl
  | append_singleton ps p ih =>
    simp only [List.map_append, List.map_cons, List.map_nil, ofPairs, assign_append, assign_cons,
      assign_nil]
    by_cases heq : a = p.1
    · subst heq
      rw [AList.lookup_insert, AList.lookup_insert, Option.map_some]
    · rw [AList.lookup_insert_ne heq, AList.lookup_insert_ne heq]
      exact ih

/-- Pairs written under other names read back under the name of their key, when
no other key has that name. -/
theorem lookup_ofPairs_named {δ : Type*} [DecidableEq δ] (ps : List (α × β)) (name : α → δ)
    (g : β → γ) (a : α) (inj : ∀ b, name b = name a → b = a) :
    (ofPairs (ps.map fun p => (name p.1, g p.2))).lookup (name a) =
      ((ofPairs ps).lookup a).map g := by
  induction ps using List.reverseRecOn with
  | nil => rfl
  | append_singleton ps p ih =>
    simp only [List.map_append, List.map_cons, List.map_nil, ofPairs, assign_append, assign_cons,
      assign_nil]
    by_cases own : a = p.1
    · rw [own, AList.lookup_insert, AList.lookup_insert, Option.map_some]
    · rw [AList.lookup_insert_ne own, AList.lookup_insert_ne fun same => own (inj _ same.symm).symm]
      exact ih

/-- Each value replaced by one made of it and its key. -/
theorem lookup_ofPairs_pairs_map (m : Assoc α β) (g : α → β → γ) (a : α) :
    (ofPairs ((pairs m).map fun p => (p.1, g p.1 p.2))).lookup a = (m.lookup a).map (g a) := by
  have hfst : ((pairs m).map fun p => (p.1, g p.1 p.2)).map Prod.fst = m.keys := by
    rw [← map_fst_pairs, List.map_map]
    rfl
  cases h : m.lookup a with
  | some b =>
    refine lookup_assign_of_mem ∅ ?_ (List.mem_map.mpr ⟨(a, b), (mem_pairs m a b).mpr h, rfl⟩)
    rw [hfst]
    exact m.keys_nodup
  | none =>
    apply lookup_ofPairs_eq_none
    rw [hfst, ← AList.mem_keys]
    exact AList.lookup_eq_none.mp h

/-- A map written under renamed keys reads back under the renamed keys. -/
theorem lookup_ofPairs_renamed (m : Assoc α β) {name : α → α} (inj : Function.Injective name)
    (g : β → γ) (a : α) :
    (ofPairs ((pairs m).map fun p => (name p.1, g p.2))).lookup (name a) =
      (m.lookup a).map g := by
  have hfst : ((pairs m).map fun p => (name p.1, g p.2)).map Prod.fst = m.keys.map name := by
    rw [← map_fst_pairs, List.map_map, List.map_map]
    rfl
  cases h : m.lookup a with
  | some b =>
    refine lookup_assign_of_mem ∅ ?_ (List.mem_map.mpr ⟨(a, b), (mem_pairs m a b).mpr h, rfl⟩)
    rw [hfst]
    exact m.keys_nodup.map inj
  | none =>
    apply lookup_ofPairs_eq_none
    rw [hfst]
    intro hmem
    obtain ⟨a', ha', heq⟩ := List.mem_map.mp hmem
    rw [inj heq, ← AList.mem_keys] at ha'
    exact AList.lookup_eq_none.mp h ha'

end Renamed

end Assign

section Total
variable {α : Type u} {β : Type v} [DecidableEq α] {G : Type*} [AddCommMonoid G]

/-- The sum of `f` over the entries of a map. -/
def total (f : α → β → G) (m : Assoc α β) : G :=
  ((pairs m).map (fun p => f p.1 p.2)).sum

omit [DecidableEq α] in
@[simp] theorem total_empty (f : α → β → G) : total f (∅ : Assoc α β) = 0 := rfl

theorem total_eq_sum_keys (f : α → β → G) (m : Assoc α β) :
    total f m = ∑ a ∈ m.keys.toFinset, (m.lookup a).elim 0 (f a) := by
  have keys : m.keys = (pairs m).map Prod.fst := (map_fst_pairs m).symm
  rw [List.sum_toFinset _ m.keys_nodup, keys, List.map_map, total]
  congr 1
  apply List.map_congr_left
  rintro ⟨a, b⟩ hp
  simp [(mem_pairs m a b).mp hp]

/-- Any set of keys that covers the map gives its total. -/
theorem total_eq_sum_of_subset (f : α → β → G) (m : Assoc α β) {s : Finset α}
    (cover : m.keys.toFinset ⊆ s) : total f m = ∑ a ∈ s, (m.lookup a).elim 0 (f a) := by
  rw [total_eq_sum_keys]
  apply Finset.sum_subset cover
  intro a _ ha
  have absent : m.lookup a = none := by
    rw [AList.lookup_eq_none, AList.mem_keys]
    simpa using ha
  rw [absent, Option.elim_none]

theorem total_congr {f : α → β → G} {m m' : Assoc α β}
    (same : ∀ a, m.lookup a = m'.lookup a) : total f m = total f m' := by
  have keys : m.keys.toFinset = m'.keys.toFinset := by
    ext a
    simp only [List.mem_toFinset, ← AList.mem_keys, ← AList.lookup_isSome, same a]
  rw [total_eq_sum_keys, total_eq_sum_keys, keys]
  exact Finset.sum_congr rfl (fun a _ => by rw [same a])

/-- Writing one key replaces its summand. -/
theorem total_insert {H : Type*} [AddCommGroup H] (f : α → β → H) (m : Assoc α β) (a : α) (b : β) :
    total f (m.insert a b) = total f m + (f a b - (m.lookup a).elim 0 (f a)) := by
  have cover : m.keys.toFinset ⊆ insert a m.keys.toFinset := Finset.subset_insert _ _
  have cover' : (m.insert a b).keys.toFinset ⊆ insert a m.keys.toFinset := by
    intro x hx
    rw [List.mem_toFinset, ← AList.mem_keys, AList.mem_insert] at hx
    rw [Finset.mem_insert, List.mem_toFinset, ← AList.mem_keys]
    exact hx
  rw [total_eq_sum_of_subset f m cover, total_eq_sum_of_subset f _ cover',
    ← Finset.add_sum_erase _ _ (Finset.mem_insert_self a _),
    ← Finset.add_sum_erase _ _ (Finset.mem_insert_self a m.keys.toFinset), AList.lookup_insert]
  have rest : ∀ x ∈ (insert a m.keys.toFinset).erase a,
      ((m.insert a b).lookup x).elim 0 (f x) = (m.lookup x).elim 0 (f x) := by
    intro x hx
    rw [AList.lookup_insert_ne (Finset.ne_of_mem_erase hx)]
  rw [Finset.sum_congr rfl rest, Option.elim_some]
  abel

end Total

section Prefix
variable {β : Type v}

/-- The rest of `s` after the prefix `p`. -/
def stripPrefix (p s : String) : Option String :=
  (s.toList.dropPrefix? p.toList).map String.ofList

theorem stripPrefix_eq_some_iff (p s t : String) :
    stripPrefix p s = some t ↔ s = p ++ t := by
  rw [stripPrefix, Option.map_eq_some_iff]
  constructor
  · rintro ⟨l, hl, rfl⟩
    obtain ⟨p', hs, hp⟩ := List.dropPrefix?_eq_some_iff.mp hl
    rw [beq_iff_eq] at hp
    subst hp
    apply String.toList_injective
    simpa using hs
  · rintro rfl
    refine ⟨t.toList, List.dropPrefix?_eq_some_iff.mpr ⟨p.toList, ?_, beq_self_eq_true _⟩, ?_⟩
    · simp
    · simp

theorem append_left_cancel_iff (p s t : String) : p ++ s = p ++ t ↔ s = t := by
  constructor
  · intro h
    have hs := (stripPrefix_eq_some_iff p (p ++ t) s).mpr h.symm
    have ht := (stripPrefix_eq_some_iff p (p ++ t) t).mpr rfl
    exact Option.some.inj (hs.symm.trans ht)
  · rintro rfl; rfl

/-- The entries whose key starts with `p`, keyed by the rest of the key. -/
def collectPrefix (p : String) (m : Assoc String β) : Assoc String β :=
  ofPairs ((pairs m).filterMap (fun e => (stripPrefix p e.1).map (fun t => (t, e.2))))

theorem mem_collected (p : String) (m : Assoc String β) (t : String) (b : β) :
    (t, b) ∈ (pairs m).filterMap (fun e => (stripPrefix p e.1).map (fun t => (t, e.2))) ↔
      m.lookup (p ++ t) = some b := by
  simp only [List.mem_filterMap, Option.map_eq_some_iff, stripPrefix_eq_some_iff]
  constructor
  · rintro ⟨⟨k, b'⟩, he, t', rfl, heq⟩
    cases heq
    exact (mem_pairs m _ _).mp he
  · intro h
    exact ⟨(p ++ t, b), (mem_pairs m _ _).mpr h, t, rfl, rfl⟩

theorem collected_nodup (p : String) (m : Assoc String β) :
    (((pairs m).filterMap (fun e => (stripPrefix p e.1).map (fun t => (t, e.2)))).map
      Prod.fst).Nodup := by
  rw [List.map_filterMap]
  have keys : (pairs m).Pairwise (fun e e' => e.1 ≠ e'.1) := by
    have nodup := m.keys_nodup
    rw [← map_fst_pairs, List.Nodup, List.pairwise_map] at nodup
    exact nodup
  rw [List.Nodup, List.pairwise_filterMap]
  refine keys.imp ?_
  intro e e' hne t ht t' ht' heq
  simp only [Option.map_map, Option.map_eq_some_iff, Function.comp_apply,
    stripPrefix_eq_some_iff] at ht ht'
  obtain ⟨r, hr, rfl⟩ := ht
  obtain ⟨r', hr', rfl⟩ := ht'
  exact hne (by rw [hr, hr', heq])

theorem lookup_collectPrefix (p : String) (m : Assoc String β) (t : String) :
    (collectPrefix p m).lookup t = m.lookup (p ++ t) := by
  cases h : m.lookup (p ++ t) with
  | some b => exact lookup_assign_of_mem ∅ (collected_nodup p m) ((mem_collected p m t b).mpr h)
  | none =>
    have absent : t ∉ ((pairs m).filterMap
        (fun e => (stripPrefix p e.1).map (fun t => (t, e.2)))).map Prod.fst := by
      intro hmem
      obtain ⟨⟨t', b⟩, hb, rfl⟩ := List.mem_map.mp hmem
      rw [mem_collected, h] at hb
      cases hb
    rw [collectPrefix, ofPairs, lookup_assign_of_notMem _ _ absent, AList.lookup_empty]

end Prefix

section Filter
variable {α : Type u} {β γ : Type v} [DecidableEq α]

/-- The entries whose value reads as something, with what it reads as. -/
theorem lookup_ofPairs_filterMap_pairs (m : Assoc α β) (read : β → Option γ) (a : α) :
    (ofPairs ((pairs m).filterMap fun e => (read e.2).map fun c => (e.1, c))).lookup a =
      (m.lookup a).bind read := by
  set kept := (pairs m).filterMap fun e => (read e.2).map fun c => (e.1, c) with hkept
  have mem : ∀ c, (a, c) ∈ kept ↔ (m.lookup a).bind read = some c := by
    intro c
    simp only [hkept, List.mem_filterMap, Option.map_eq_some_iff, Option.bind_eq_some_iff]
    constructor
    · rintro ⟨⟨a', b⟩, he, c', hc, heq⟩
      cases heq
      exact ⟨b, (mem_pairs m _ _).mp he, hc⟩
    · rintro ⟨b, hb, hc⟩
      exact ⟨(a, b), (mem_pairs m _ _).mpr hb, c, hc, rfl⟩
  have nodup : (kept.map Prod.fst).Nodup := by
    have keys : (pairs m).Pairwise (fun e e' => e.1 ≠ e'.1) := by
      have nodup := m.keys_nodup
      rw [← map_fst_pairs, List.Nodup, List.pairwise_map] at nodup
      exact nodup
    rw [List.Nodup, List.pairwise_map, hkept, List.pairwise_filterMap]
    refine keys.imp ?_
    intro e e' hne x hx x' hx'
    obtain ⟨_, _, rfl⟩ := Option.map_eq_some_iff.mp hx
    obtain ⟨_, _, rfl⟩ := Option.map_eq_some_iff.mp hx'
    exact hne
  cases h : (m.lookup a).bind read with
  | some c => exact lookup_assign_of_mem ∅ nodup ((mem c).mpr h)
  | none =>
    have absent : a ∉ kept.map Prod.fst := by
      intro found
      obtain ⟨⟨a', c⟩, hc, rfl⟩ := List.mem_map.mp found
      rw [mem, h] at hc
      cases hc
    rw [ofPairs, lookup_assign_of_notMem _ _ absent, AList.lookup_empty]

end Filter

end AssocMaps
