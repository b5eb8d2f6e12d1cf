import Frtb.Library.JsNumbers
import Frtb.FastPathRows
import Frtb.LoaderRows
import Frtb.SideTable

/-!
# Replies of the charge commands

What the charge route makes of a reply: of a kernel call, of the index aggregate
of one master and of a rollup hash. Nothing is promised about a reply. A text is
kept as the value that `String` was applied to.
-/

namespace BackendReplies

open JsNumbers JsNumber AssocMaps JsonText SideTable LoaderRows FastPath FastPathSums FastPathRows
open StorageWriter (jsText)

section Numbers

/-- `Number(text)`. -/
def textNumber (text : String) : JsNumber ℚ :=
  match NumberText.toNumber text with
  | some q => .fin q
  | none =>
    let trimmed := String.ofList (NumberText.trim text.toList)
    if trimmed = "Infinity" ∨ trimmed = "+Infinity" then .inf false
    else if trimmed = "-Infinity" then .inf true
    else .nan

/-- `Number(v)`. -/
def number : Option Json → JsNumber ℚ
  | none => .nan
  | some .null => .fin 0
  | some (.bool b) => .fin (if b then 1 else 0)
  | some (.num q) => .fin q
  | some v => textNumber (jsText v)

/-- `Number(String(v))`. -/
def shownNumber : Json → JsNumber ℚ
  | .num q => .fin q
  | v => textNumber (jsText v)

/-- Keys and values of a flat array. A key without a value has the text of undefined. -/
def flatPairs : List Json → List (String × Json)
  | [] => []
  | [k] => [(jsText k, .str "undefined")]
  | k :: v :: rest => (jsText k, v) :: flatPairs rest

end Numbers

section Kernels

structure BucketReply where
  kb : JsNumber ℚ
  sb : JsNumber ℚ
  count : JsNumber ℚ

def bucketReply (read : String → JsNumber ℚ) : BucketReply := ⟨read "K_b", read "S_b", read "count"⟩

/-- The reply of a kernel: a JSON text, a flat array or an object. Property access
fails on null only. -/
def parseBucketReply : Json → Option BucketReply
  | .str text =>
    match parse text with
    | none => none
    | some .null => none
    | some parsed => some (bucketReply fun k => number (member parsed k))
  | .arr items =>
    let m := ofPairs (flatPairs items)
    if (m.lookup "K_b").isNone then none
    else some (bucketReply fun k => ((m.lookup k).map shownNumber).getD .nan)
  | .obj members => some (bucketReply fun k => number (member (.obj members) k))
  | _ => none

end Kernels

section Rows

/-- The name of a sum in a reply, `sum_<pre>_<f>` with the part. -/
def spell (name : SumName) : String :=
  let pre := match name.pre with
    | .d => "d"
    | .v => "v"
    | .u => "u"
    | .n => "n"
  let part := match name.part with
    | .value => ""
    | .sq => "_sq"
    | .neg => "_neg"
    | .negSq => "_negsq"
  "sum_" ++ pre ++ "_" ++ name.f ++ part

def withoutAt (k : String) : String := (stripPrefix "@" k).getD k

/-- The fields of a row: a flat array or an object, and nothing for other values. -/
def rowFields (row : Json) : Assoc String Json :=
  let members : List (String × Json) := match row with
    | .arr items => flatPairs items
    | .obj members => members
    | _ => []
  ofPairs (members.map fun p => (withoutAt p.1, p.2))

/-- A row, with the bucket that it names. -/
def rowRecord (row : Json) : String × Record :=
  let m := rowFields row
  let read := fun k => (m.lookup k).map fun v => (shownNumber v).toFinite
  (((m.lookup "bucket").map jsText).getD "", ⟨fun name => read (spell name),
    (read "row_count").getD (some 0)⟩)

/-- The rows of a reply: the first item is their number. Nothing for a reply that is
not an array. -/
def replyRows : Json → List (String × Record)
  | .arr (_ :: rows) => rows.map rowRecord
  | _ => []

/-- The rows of one master by bucket. -/
def parseReply (reply : Json) : Assoc String Record := parseAggregateRows (replyRows reply)

end Rows

section Hashes

/-- A rollup hash with the values its texts were made of. -/
abbrev ReplyHash := Assoc String Json

def parseHgetall (reply : Json) : Option ReplyHash :=
  let out : ReplyHash := ofPairs <| match reply with
    | .arr items => flatPairs items
    | .obj members => members
    | _ => []
  if out.keys = [] then none else some out

/-- `Number(h?.field ?? 0)`. -/
def hashNumber (h : Option ReplyHash) (field : String) : JsNumber ℚ :=
  match h.bind (·.lookup field) with
  | none => .fin 0
  | some v => shownNumber v

/-- The `K_b` that a reply with an entry of the cache has under a digest. -/
def lookupKbCacheEntry (reply : Except String Json) (expectedHash : String) : Option ℚ :=
  match reply with
  | .ok (.arr (.null :: _)) | .ok (.arr (_ :: .null :: _)) => none
  | .ok (.arr (rawKb :: rawHash :: _)) =>
    if jsText rawHash = expectedHash then (number (some rawKb)).toFinite else none
  | _ => none

end Hashes

section Totals

/-- The sum of numbers, none as soon as one of them is not finite. -/
def sumNums (vs : List JsNum) : JsNum := vs.foldr addNum (some 0)

def sumPresent (vs : List JsNum) : Option JsNum := if vs = [] then none else some (sumNums vs)

/-- The sums over rows: a sum that no row has is left out. -/
def totalRecord (rows : List Record) : Record where
  sums := fun name => sumPresent (rows.filterMap fun row => row.sums name)
  rowCount := sumNums (rows.map Record.rowCount)

/-- The rows of a bucket among rows. -/
def rowsAt (b : String) (rows : List (String × Record)) : List Record :=
  (rows.filter fun p => p.1 = b).map Prod.snd

theorem addNum_assoc (a b c : JsNum) : addNum (addNum a b) c = addNum a (addNum b c) := by
  cases a with
  | none => rfl
  | some x =>
    cases b with
    | none => rfl
    | some y =>
      cases c with
      | none => rfl
      | some z => exact congrArg some (add_assoc x y z)

theorem zero_addNum (a : JsNum) : addNum (some 0) a = a := by
  cases a with
  | none => rfl
  | some x => exact congrArg some (zero_add x)

theorem addNum_zero (a : JsNum) : addNum a (some 0) = a := by
  cases a with
  | none => rfl
  | some x => exact congrArg some (add_zero x)

theorem sumNums_append (vs ws : List JsNum) :
    sumNums (vs ++ ws) = addNum (sumNums vs) (sumNums ws) := by
  induction vs with
  | nil => exact (zero_addNum _).symm
  | cons v vs ih =>
    change addNum v (sumNums (vs ++ ws)) = addNum (addNum v (sumNums vs)) (sumNums ws)
    rw [ih, addNum_assoc]

theorem sumPresent_append (vs ws : List JsNum) :
    (match sumPresent ws with
      | none => sumPresent vs
      | some v => some (addNum ((sumPresent vs).getD (some 0)) v)) = sumPresent (vs ++ ws) := by
  cases ws with
  | nil => rw [List.append_nil]; rfl
  | cons w ws =>
    have rest : sumPresent (vs ++ w :: ws) = some (sumNums (vs ++ w :: ws)) := if_neg (by simp)
    rw [rest, sumNums_append]
    cases vs with
    | nil => rfl
    | cons v vs => rfl

theorem totalRecord_single (row : Record) : totalRecord [row] = row := by
  have sums : ∀ name, (totalRecord [row]).sums name = row.sums name := by
    intro name
    simp only [totalRecord]
    cases own : row.sums name with
    | none => simp [own, sumPresent]
    | some v => simp [own, sumPresent, sumNums, addNum_zero]
  exact congrArg₂ Record.mk (funext sums) (addNum_zero row.rowCount)

/-- The totals of rows and of further rows, added. -/
theorem mergeRecord_totals (rows rows' : List Record) :
    mergeRecord (totalRecord rows) (totalRecord rows') = totalRecord (rows ++ rows') := by
  refine congrArg₂ Record.mk (funext fun name => ?_) ?_
  · simp only [totalRecord, List.filterMap_append]
    exact sumPresent_append _ _
  · simp only [totalRecord, List.map_append, sumNums_append]

/-- The map holds the totals of the rows of each bucket that has a name. -/
def Totals (m : Assoc String Record) (rows : List (String × Record)) : Prop :=
  ∀ b, m.lookup b =
    if b = "" ∨ rowsAt b rows = [] then none else some (totalRecord (rowsAt b rows))

theorem rowsAt_append (b : String) (rows rows' : List (String × Record)) :
    rowsAt b (rows ++ rows') = rowsAt b rows ++ rowsAt b rows' := by
  simp only [rowsAt, List.filter_append, List.map_append]

/-- Adding totals to totals. -/
theorem joined_totals (rows rows' : List Record) :
    joined (if rows = [] then none else some (totalRecord rows)) (totalRecord rows') =
      totalRecord (rows ++ rows') := by
  by_cases none_ : rows = []
  · rw [if_pos none_, none_, List.nil_append]
    rfl
  · rw [if_neg none_]
    exact mergeRecord_totals rows rows'

theorem Totals.snoc {m : Assoc String Record} {rows : List (String × Record)} (h : Totals m rows)
    {p : String × Record} (named : p.1 ≠ "") : Totals (mergeInto m p) (rows ++ [p]) := by
  intro b
  rw [lookup_mergeInto, rowsAt_append]
  by_cases own : b = p.1
  · subst own
    have last : rowsAt p.1 [p] = [p.2] := by simp [rowsAt]
    have before := h p.1
    simp only [named, false_or] at before
    have some_ : ¬(p.1 = "" ∨ rowsAt p.1 rows ++ [p.2] = []) := by simp [named]
    rw [if_pos rfl, before, last, if_neg some_, ← joined_totals, totalRecord_single]
  · have last : rowsAt b [p] = [] := by simp [rowsAt, Ne.symm own]
    rw [if_neg own, h b, last, List.append_nil]

/-- One reply: its rows by bucket. -/
theorem totals_parseAggregateRows (rows : List (String × Record)) :
    Totals (parseAggregateRows rows) rows := by
  unfold parseAggregateRows parseRows
  induction rows using List.reverseRecOn with
  | nil =>
    intro b
    exact (if_pos (Or.inr rfl)).symm
  | append_singleton rows p ih =>
    rw [List.filter_append, List.foldl_append]
    by_cases named : p.1 = ""
    · intro b
      rw [List.filter_cons_of_neg (by simp [named]), List.filter_nil, List.foldl_nil, ih b,
        rowsAt_append]
      by_cases same : b = ""
      · rw [if_pos (Or.inl same), if_pos (Or.inl same)]
      · have last : rowsAt b [p] = [] := by simp [rowsAt, named, Ne.symm same]
        rw [last, List.append_nil]
    · rw [List.filter_cons_of_pos (by simp [named])]
      exact ih.snoc named

/-- The parsed reply of one more master. -/
theorem Totals.merge {m m' : Assoc String Record} {rows rows' : List (String × Record)}
    (h : Totals m rows) (h' : Totals m' rows') :
    Totals ((pairs m').foldl mergeInto m) (rows ++ rows') := by
  intro b
  have nodup : ((pairs m').map Prod.fst).Nodup := by
    rw [map_fst_pairs]
    exact m'.keys_nodup
  have before := h b
  have added := h' b
  rw [rowsAt_append]
  by_cases new : b = "" ∨ rowsAt b rows' = []
  · rw [if_pos new] at added
    have absent : b ∉ (pairs m').map Prod.fst := by
      rw [map_fst_pairs, ← AList.mem_keys]
      exact AList.lookup_eq_none.mp added
    rw [lookup_foldl_mergeInto_of_notMem m absent, before]
    rcases new with unnamed | none_
    · rw [if_pos (Or.inl unnamed), if_pos (Or.inl unnamed)]
    · rw [none_, List.append_nil]
  · rw [if_neg new] at added
    have merged := lookup_foldl_mergeInto_of_mem m nodup ((mem_pairs m' b _).mpr added)
    rw [not_or] at new
    simp only [new.1, false_or] at before
    have some_ : ¬(b = "" ∨ rowsAt b rows ++ rowsAt b rows' = []) := by simp [new.1, new.2]
    rw [merged, before, joined_totals, if_neg some_]

/-- All masters: the rows of all replies by bucket. -/
theorem totals_mergeReplies (replies : List (List (String × Record))) :
    Totals (mergeReplies (replies.map parseAggregateRows)) replies.flatten := by
  induction replies using List.reverseRecOn with
  | nil =>
    intro b
    exact (if_pos (Or.inr rfl)).symm
  | append_singleton replies rows ih =>
    rw [List.flatten_append, mergeReplies, List.map_append, List.foldl_append,
      List.flatten_singleton]
    exact ih.merge (totals_parseAggregateRows rows)

end Totals

section Readable

/-- The number that a value spells: a number, or a text of one. -/
def numeral : Json → Option ℚ
  | .num q => some q
  | .str text =>
    if NumberText.trim text.toList = [] then none else NumberText.toNumber text
  | _ => none

/-- `K_b` and `S_b` that a kernel's reply spells. -/
def spelledReply (reply : Json) : Option (ℚ × ℚ) :=
  let spelled := fun v => do
    let kb ← (member v "K_b").bind numeral
    let sb ← (member v "S_b").bind numeral
    some (kb, sb)
  match reply with
  | .str text => (parse text).bind spelled
  | .arr items => spelled (.obj (flatPairs items))
  | .obj members => spelled (.obj members)
  | _ => none

def isRow : Json → Bool
  | .arr _ => true
  | .obj _ => true
  | _ => false

/-- The rows that a master's reply spells. -/
def spelledRows : Json → Option (List (String × Record))
  | .arr items => if items.tail.all isRow then some (replyRows (.arr items)) else none
  | _ => none

/-- The hash that a reply spells: no hash where there is none. -/
def spelledHash : Json → Option (Option ReplyHash)
  | .null => some none
  | .arr items => some (parseHgetall (.arr items))
  | .obj members => some (parseHgetall (.obj members))
  | _ => none

theorem textNumber_of_numeral {text : String} {q : ℚ} (spells : numeral (.str text) = some q) :
    textNumber text = .fin q := by
  unfold numeral at spells
  rw [Option.ite_none_left_eq_some] at spells
  rw [textNumber, spells.2]

theorem shownNumber_of_numeral {v : Json} {q : ℚ} (spells : numeral v = some q) :
    shownNumber v = .fin q := by
  cases v with
  | num p => exact congrArg JsNumber.fin (Option.some.inj spells)
  | str text => exact textNumber_of_numeral spells
  | _ => cases spells

theorem number_of_numeral {v : Json} {q : ℚ} (spells : numeral v = some q) :
    number (some v) = .fin q := by
  cases v with
  | num p => exact congrArg JsNumber.fin (Option.some.inj spells)
  | str text => exact textNumber_of_numeral spells
  | _ => cases spells

/-- A kernel's reply that spells its numbers is read as them. -/
theorem parseBucketReply_spelled {reply : Json} {k s : ℚ}
    (spells : spelledReply reply = some (k, s)) :
    ∃ count, parseBucketReply reply = some ⟨.fin k, .fin s, count⟩ := by
  have numbers : ∀ v, (do
      let kb ← (member v "K_b").bind numeral
      let sb ← (member v "S_b").bind numeral
      some (kb, sb)) = some (k, s) →
      ∃ kb sb, member v "K_b" = some kb ∧ member v "S_b" = some sb ∧ numeral kb = some k ∧
        numeral sb = some s := by
    intro v spelled
    simp only [Option.bind_eq_bind, Option.bind_eq_some_iff, Option.some.injEq,
      Prod.mk.injEq] at spelled
    obtain ⟨k', ⟨kb, hkb, hk⟩, s', ⟨sb, hsb, hs⟩, rfl, rfl⟩ := spelled
    exact ⟨kb, sb, hkb, hsb, hk, hs⟩
  cases reply with
  | str text =>
    obtain ⟨parsed, hparse, spelled⟩ := Option.bind_eq_some_iff.mp spells
    obtain ⟨kb, sb, hkb, hsb, hk, hs⟩ := numbers parsed spelled
    refine ⟨number (member parsed "count"), ?_⟩
    unfold parseBucketReply
    cases parsed with
    | obj members =>
      simp only [hparse, bucketReply, hkb, hsb, number_of_numeral hk, number_of_numeral hs]
    | _ => cases hkb
  | arr items =>
    obtain ⟨kb, sb, hkb, hsb, hk, hs⟩ := numbers _ spells
    simp only [member] at hkb hsb
    refine ⟨(((ofPairs (flatPairs items)).lookup "count").map shownNumber).getD .nan, ?_⟩
    simp only [parseBucketReply, bucketReply, hkb, hsb, Option.isNone_some, Bool.false_eq_true,
      if_false, Option.map_some, Option.getD_some, shownNumber_of_numeral hk,
      shownNumber_of_numeral hs]
  | obj members =>
    obtain ⟨kb, sb, hkb, hsb, hk, hs⟩ := numbers _ spells
    refine ⟨number (member (.obj members) "count"), ?_⟩
    simp only [parseBucketReply, bucketReply, hkb, hsb, number_of_numeral hk, number_of_numeral hs]
  | _ => cases spells

theorem replyRows_of_spelled {reply : Json} {rows : List (String × Record)}
    (spells : spelledRows reply = some rows) : replyRows reply = rows := by
  cases reply with
  | arr items =>
    unfold spelledRows at spells
    rw [Option.ite_none_right_eq_some] at spells
    exact Option.some.inj spells.2
  | _ => cases spells

theorem parseHgetall_of_spelled {reply : Json} {h : Option ReplyHash}
    (spells : spelledHash reply = some h) : parseHgetall reply = h := by
  cases reply with
  | null => exact Option.some.inj spells
  | arr items => exact Option.some.inj spells
  | obj members => exact Option.some.inj spells
  | _ => cases spells

end Readable

end BackendReplies
