import Mathlib
import Frtb.Library.AssocMaps
import Frtb.Library.CsvText

/-!
# The CSV reader of source files

A state machine over the characters of the file, which arrive in chunks. It drops a record
that is one empty field, and it stops once it has the header and the rows of the limit.
-/

namespace CsvReader

open AssocMaps CsvText

section Reader

structure Scan where
  records : List (List String)
  field : List Char
  row : List String
  inQuotes : Bool
  lastWasQuote : Bool
  stopped : Bool

def flushField (s : Scan) : Scan := { s with row := s.row ++ [String.ofList s.field], field := [] }

def flushRow (s : Scan) : Scan :=
  { s with records := if s.row = [""] then s.records else s.records ++ [s.row], row := [] }

/-- A character outside of quotes. -/
def scanPlain (maxRecords : ℕ) (s : Scan) (ch : Char) : Scan :=
  if ch = '"' ∧ s.field = [] then { s with inQuotes := true }
  else if ch = ',' then flushField s
  else if ch = '\n' then
    let s := flushRow (flushField s)
    if maxRecords ≤ s.records.length then { s with stopped := true } else s
  else if ch = '\r' then s
  else { s with field := s.field ++ [ch] }

/-- A character inside quotes. The one after a closing quote is scanned again outside. -/
def scanQuoted (maxRecords : ℕ) (s : Scan) (ch : Char) : Scan :=
  if ch = '"' then
    if s.lastWasQuote then { s with field := s.field ++ ['"'], lastWasQuote := false }
    else { s with lastWasQuote := true }
  else if s.lastWasQuote then
    scanPlain maxRecords { s with inQuotes := false, lastWasQuote := false } ch
  else { s with field := s.field ++ [ch] }

def scanChar (maxRecords : ℕ) (s : Scan) (ch : Char) : Scan :=
  if s.stopped then s
  else if s.inQuotes then scanQuoted maxRecords s ch
  else scanPlain maxRecords s ch

/-- The last record of a file that does not end with a line break. -/
def finish (s : Scan) : List (List String) :=
  if s.stopped then s.records
  else if s.field ≠ [] ∨ s.row ≠ [] then (flushRow (flushField s)).records
  else s.records

def readRecords (chunks : List (List Char)) (maxRecords : ℕ) : List (List String) :=
  finish (chunks.foldl (fun s chunk => chunk.foldl (scanChar maxRecords) s)
    ⟨[], [], [], false, false, false⟩)

/-- `obj[name] = value` on a plain object: a text given as its prototype is ignored. -/
def setProperty (obj : Assoc String String) (name value : String) : Assoc String String :=
  if name = "__proto__" then obj else obj.insert name value

def rowObject (header record : List String) : Assoc String String :=
  header.zipIdx.foldl (fun obj p => setProperty obj p.1 ((record[p.2]?).getD "")) ∅

structure CsvSample where
  columns : List String
  rows : List (Assoc String String)
  rowCountSeen : ℕ

def sampleCsv (chunks : List (List Char)) (limit : ℕ) : CsvSample :=
  let records := readRecords chunks (limit + 1)
  let header := (records.head?).getD []
  { columns := header
    rows := (records.tail.take limit).map (rowObject header)
    rowCountSeen := records.tail.length }

end Reader

section Scanning
variable {maxRecords : ℕ} {records : List (List String)} {row : List String}

/-- The machine at the start of a field. -/
def between (records : List (List String)) (row : List String) : Scan :=
  ⟨records, [], row, false, false, false⟩

/-- The machine after a field, which was quoted or plain. -/
def after (records : List (List String)) (row : List String) (field : List Char)
    (q : Bool) : Scan :=
  ⟨records, field, row, q, q, false⟩

theorem scan_plain (field cs : List Char) (free : ∀ c ∈ cs, IsPlain c) :
    cs.foldl (scanChar maxRecords) (after records row field false) =
      after records row (field ++ cs) false := by
  induction cs generalizing field with
  | nil => rw [List.foldl_nil, List.append_nil]
  | cons c cs ih =>
    obtain ⟨comma, quote, cr, lf⟩ := free c List.mem_cons_self
    have one : scanChar maxRecords (after records row field false) c =
        after records row (field ++ [c]) false := by
      simp [scanChar, after, scanPlain, comma, quote, cr, lf]
    rw [List.foldl_cons, one, ih _ fun c mem => free c (List.mem_cons_of_mem _ mem),
      List.append_assoc, List.singleton_append]

/-- Inside the quotes each doubled character is one of the field. -/
theorem scan_doubled (field cs : List Char) :
    (cs.flatMap doubled).foldl (scanChar maxRecords) ⟨records, field, row, true, false, false⟩ =
      ⟨records, field ++ cs, row, true, false, false⟩ := by
  induction cs generalizing field with
  | nil => rw [List.flatMap_nil, List.foldl_nil, List.append_nil]
  | cons c cs ih =>
    have one : (doubled c).foldl (scanChar maxRecords) ⟨records, field, row, true, false, false⟩ =
        ⟨records, field ++ [c], row, true, false, false⟩ := by
      unfold doubled
      split
      · rename_i same
        subst same
        simp [scanChar, scanQuoted]
      · rename_i other
        simp [scanChar, scanQuoted, other]
    rw [List.flatMap_cons, List.foldl_append, one, ih, List.append_assoc, List.singleton_append]

theorem scan_field {v : String} {cs : List Char} (encodes : EncodesField v cs) :
    ∃ q, cs.foldl (scanChar maxRecords) (between records row) = after records row v.toList q := by
  cases encodes with
  | plain free => exact ⟨false, scan_plain [] v.toList free⟩
  | quoted =>
    refine ⟨true, ?_⟩
    have opened : scanChar maxRecords (between records row) '"' =
        ⟨records, [], row, true, false, false⟩ := by
      simp [scanChar, between, scanPlain]
    have closed : scanChar maxRecords ⟨records, v.toList, row, true, false, false⟩ '"' =
        after records row v.toList true := by
      simp [scanChar, scanQuoted, after]
    rw [quoted, List.foldl_cons, opened, List.foldl_append, scan_doubled, List.nil_append,
      List.foldl_cons, closed, List.foldl_nil]

/-- A character other than a quote ends the field, quoted or not. -/
theorem scan_after {ch : Char} (other : ch ≠ '"') (field : List Char) (q : Bool) :
    scanChar maxRecords (after records row field q) ch =
      scanPlain maxRecords (after records row field false) ch := by
  cases q with
  | false => rfl
  | true => simp [scanChar, scanQuoted, after, other]

theorem scan_comma (v : String) (q : Bool) :
    scanChar maxRecords (after records row v.toList q) ',' = between records (row ++ [v]) := by
  rw [scan_after (by decide)]
  simp [scanPlain, after, flushField, between]

theorem scan_record {fields : List String} {cs : List Char} (encodes : EncodesRecord fields cs)
    (row : List String) : ∃ init v q, fields = init ++ [v] ∧
      cs.foldl (scanChar maxRecords) (between records row) =
        after records (row ++ init) v.toList q := by
  induction encodes generalizing row with
  | @last v cs field =>
    obtain ⟨q, scanned⟩ := @scan_field maxRecords records row _ _ field
    exact ⟨[], v, q, rfl, by rw [scanned, List.append_nil]⟩
  | @cons v fields cs ds field rest ih =>
    obtain ⟨q, scanned⟩ := @scan_field maxRecords records row _ _ field
    obtain ⟨init, w, q', rfl, scanned'⟩ := ih (row ++ [v])
    refine ⟨v :: init, w, q', rfl, ?_⟩
    rw [List.foldl_append, scanned, List.foldl_cons, scan_comma, scanned', List.append_assoc]
    rfl

def keeps (row : List String) : Bool := row ≠ [""]

theorem scan_ending {ending : List Char} (ends : LineEnding ending)
    (init : List String) (v : String)
    (q : Bool) : ending.foldl (scanChar maxRecords) (after records init v.toList q) =
      if maxRecords ≤ (records ++ [init ++ [v]].filter keeps).length then
        { between (records ++ [init ++ [v]].filter keeps) [] with stopped := true }
      else between (records ++ [init ++ [v]].filter keeps) [] := by
  have line : ∀ q, scanChar maxRecords (after records init v.toList q) '\n' =
      if maxRecords ≤ (records ++ [init ++ [v]].filter keeps).length then
        { between (records ++ [init ++ [v]].filter keeps) [] with stopped := true }
      else between (records ++ [init ++ [v]].filter keeps) [] := by
    intro q
    have pushed : flushRow (flushField (after records init v.toList false)) =
        between (records ++ [init ++ [v]].filter keeps) [] := by
      unfold flushRow flushField after keeps between
      by_cases blank : init ++ [v] = [""]
      · simp [blank]
      · simp [blank]
    rw [scan_after (by decide)]
    unfold scanPlain
    simp only [Char.reduceEq, false_and, if_false, if_true, pushed]
    rfl
  cases ends with
  | lf => exact line q
  | crlf =>
    have back : scanChar maxRecords (after records init v.toList q) '\r' =
        after records init v.toList false := by
      rw [scan_after (by decide)]
      simp [scanPlain, after]
    rw [List.foldl_cons, back]
    exact line false

theorem scan_stopped (s : Scan) (stopped : s.stopped = true) (cs : List Char) :
    cs.foldl (scanChar maxRecords) s = s := by
  induction cs with
  | nil => rfl
  | cons c cs ih =>
    have one : scanChar maxRecords s c = s := by
      unfold scanChar
      rw [if_pos stopped]
    rw [List.foldl_cons, one, ih]

theorem finish_after (init : List String) (v : String) (q : Bool) :
    finish (after records init v.toList q) = records ++ [init ++ [v]].filter keeps := by
  unfold finish after flushRow flushField keeps
  by_cases blank : init ++ [v] = [""]
  · obtain ⟨rfl, last⟩ : init = [] ∧ v = "" := by
      cases init with
      | nil => exact ⟨rfl, List.singleton_inj.mp blank⟩
      | cons w init => cases init <;> cases blank
    simp [last]
  · have something : v = "" → ¬ init = [] := by
      rintro rfl rfl
      exact blank rfl
    simpa [blank] using something

/-- The records that are read are the first ones that are kept. -/
theorem scan_table {rows : List (List String)} {cs : List Char} (encodes : EncodesTable rows cs)
    (records : List (List String)) (room : records.length < maxRecords) :
    finish (cs.foldl (scanChar maxRecords) (between records [])) =
      (records ++ rows.filter keeps).take maxRecords := by
  have within : ∀ row, (records ++ [row].filter keeps).length ≤ maxRecords := by
    intro row
    have one : ([row].filter keeps).length ≤ 1 := List.length_filter_le _ _
    rw [List.length_append]
    omega
  induction encodes generalizing records with
  | @last row cs record =>
    obtain ⟨init, v, q, rfl, scanned⟩ := @scan_record maxRecords records _ _ record []
    rw [scanned, List.nil_append, finish_after, List.take_of_length_le (within _)]
  | @ended row cs ending record ends =>
    obtain ⟨init, v, q, rfl, scanned⟩ := @scan_record maxRecords records _ _ record []
    rw [List.foldl_append, scanned, List.nil_append, scan_ending ends,
      List.take_of_length_le (within _)]
    split <;> rfl
  | @cons row rows cs ending ds record ends rest ih =>
    obtain ⟨init, v, q, rfl, scanned⟩ := @scan_record maxRecords records _ _ record []
    have all : records ++ ((init ++ [v]) :: rows).filter keeps =
        (records ++ [init ++ [v]].filter keeps) ++ rows.filter keeps := by
      rw [List.append_assoc, ← List.filter_append]
      rfl
    rw [List.foldl_append, scanned, List.nil_append, List.foldl_append, scan_ending ends, all]
    split
    · rename_i full
      rw [scan_stopped _ rfl, List.take_append_of_le_length full, List.take_of_length_le (within _)]
      rfl
    · rename_i more
      refine ih _ (Nat.lt_of_not_le more) fun row' => ?_
      have one : ([row'].filter keeps).length ≤ 1 := List.length_filter_le _ _
      rw [List.length_append]
      omega

end Scanning

section Inverse
variable {header row : List String} {rows : List (List String)} {limit : ℕ}

theorem readRecords_eq {chunks : List (List Char)} {table : List (List String)} {maxRecords : ℕ}
    (positive : 0 < maxRecords) (encodes : EncodesTable table chunks.flatten) :
    readRecords chunks maxRecords = (table.filter keeps).take maxRecords := by
  unfold readRecords
  rw [← List.foldl_flatten]
  exact scan_table encodes [] positive

/-- The columns with the values of a row, in order. -/
def tableRow (header row : List String) : Assoc String String := ofPairs (header.zip row)

theorem rowObject_eq (length : row.length = header.length) :
    rowObject header row = (header.zip row).foldl (fun obj p => setProperty obj p.1 p.2) ∅ := by
  have cells : header.zip row = header.zipIdx.map fun p => (p.1, (row[p.2]?).getD "") := by
    refine List.ext_getElem ?_ fun i inside _ => ?_
    · rw [List.length_zip, List.length_map, List.length_zipIdx, length, min_self]
    · have short : i < row.length := (lt_min_iff.mp (List.length_zip ▸ inside)).2
      rw [List.getElem_zip, List.getElem_map, List.getElem_zipIdx, Nat.zero_add,
        List.getElem?_eq_getElem short]
      rfl
  unfold rowObject
  rw [cells, List.foldl_map]

theorem setProperties_of_free {ps : List (String × String)} (free : "__proto__" ∉ ps.map Prod.fst)
    (obj : Assoc String String) :
    ps.foldl (fun obj p => setProperty obj p.1 p.2) obj = assign obj ps := by
  induction ps generalizing obj with
  | nil => rfl
  | cons p ps ih =>
    rw [List.map_cons, List.mem_cons, not_or] at free
    rw [List.foldl_cons, ih free.2, assign_cons, setProperty, if_neg (Ne.symm free.1)]

theorem map_fst_zip (length : row.length = header.length) :
    (header.zip row).map Prod.fst = header := by
  rw [List.map_fst_zip length.ge]

theorem rowObject_of_free (length : row.length = header.length) (free : "__proto__" ∉ header) :
    rowObject header row = tableRow header row := by
  rw [rowObject_eq length]
  exact setProperties_of_free (by rwa [map_fst_zip length]) ∅

/-- A text is never stored under the name of the prototype. -/
theorem lookup_rowObject_proto (header row : List String) :
    (rowObject header row).lookup "__proto__" = none := by
  unfold rowObject
  refine List.foldlRecOn (motive := fun obj : Assoc String String => obj.lookup "__proto__" = none)
    _ _ (AList.lookup_empty _) fun obj absent p _ => ?_
  unfold setProperty
  split
  · exact absent
  · rename_i other
    rw [AList.lookup_insert_ne (Ne.symm other)]
    exact absent

theorem lookup_tableRow (distinct : header.Nodup) (length : row.length = header.length) {i : ℕ}
    (inside : i < header.length) :
    (tableRow header row).lookup header[i] = some (row.get ⟨i, length ▸ inside⟩) := by
  refine lookup_assign_of_mem ∅ (by rwa [map_fst_zip length]) ?_
  refine List.mem_iff_getElem.mpr ⟨i, ?_, List.getElem_zip⟩
  rw [List.length_zip, length, min_self]
  exact inside

/-- Dropping the rows of one empty field changes nothing when none of the first rows is one. -/
theorem take_filter_keeps (free : [""] ∉ rows.take limit) :
    (rows.filter keeps).take limit = rows.take limit := by
  have first : (rows.take limit).filter keeps = rows.take limit := by
    refine List.filter_eq_self.mpr fun row mem => decide_eq_true ?_
    rintro rfl
    exact free mem
  have split_ : rows.filter keeps = rows.take limit ++ (rows.drop limit).filter keeps := by
    rw [← first, ← List.filter_append, List.take_append_drop]
  rcases le_total limit rows.length with long | short
  · rw [split_, List.take_append_of_le_length (by rw [List.length_take, min_eq_left long]),
      List.take_of_length_le (List.length_take_le _ _)]
  · rw [split_, List.drop_eq_nil_of_le short, List.filter_nil, List.append_nil, List.take_take,
      min_self]

/-- The reader gives the header and the first rows of a table back, in whatever chunks the
encoded text arrives, exactly when it drops none of them and no column is named like the
prototype of an object. -/
theorem sampleCsv_inverts_iff (width : header ≠ []) (distinct : header.Nodup)
    (rectangular : ∀ row ∈ rows, row.length = header.length) (positive : 1 ≤ limit)
    (chunks : List (List Char)) (encodes : EncodesTable (header :: rows) chunks.flatten) :
    ((sampleCsv chunks limit).columns = header ∧
        (sampleCsv chunks limit).rows = (rows.take limit).map (tableRow header)) ↔
      header ≠ [""] ∧ [""] ∉ rows.take limit ∧ ("__proto__" ∈ header → rows = []) := by
  have records := readRecords_eq (Nat.succ_pos limit) encodes
  unfold sampleCsv
  dsimp only
  rw [records]
  by_cases blank : header = [""]
  · -- the header itself is dropped, and no other record is one empty field
    refine iff_of_false (fun same => ?_) fun all => all.1 blank
    have listed : header ∈ ((header :: rows).filter keeps).take (limit + 1) := by
      refine List.mem_of_mem_head? ?_
      have head := same.1
      cases found : (((header :: rows).filter keeps).take (limit + 1)).head? with
      | none =>
        rw [found] at head
        exact absurd head.symm width
      | some r =>
        rw [found] at head
        exact congrArg some head
    have kept := (List.mem_filter.mp (List.mem_of_mem_take listed)).2
    exact of_decide_eq_true kept blank
  · have first : ((header :: rows).filter keeps).take (limit + 1) =
        header :: (rows.filter keeps).take limit := by
      have kept : keeps header = true := decide_eq_true blank
      rw [List.filter_cons_of_pos kept, List.take_succ_cons]
    rw [first, List.head?_cons, Option.getD_some, List.tail_cons, List.take_take, min_self]
    have length : ∀ row ∈ (rows.filter keeps).take limit, row.length = header.length :=
      fun row mem => rectangular row (List.mem_of_mem_filter (List.mem_of_mem_take mem))
    constructor
    · rintro ⟨-, same⟩
      refine ⟨blank, fun dropped => ?_, fun proto => ?_⟩
      · -- the object of the dropped row has an empty text, and no other row's has
        obtain ⟨row, mem, object⟩ := List.mem_map.mp (same ▸ List.mem_map_of_mem dropped)
        have one : header.length = 1 := (rectangular _ (List.mem_of_mem_take dropped)).symm
        have value := lookup_tableRow distinct (show [""].length = header.length from one.symm)
          (i := 0) (by omega)
        rw [← object] at value
        have free : "__proto__" ∉ header := by
          intro proto
          obtain ⟨i, inside, named⟩ := List.mem_iff_getElem.mp proto
          obtain rfl : i = 0 := by omega
          rw [named, lookup_rowObject_proto] at value
          cases value
        have own := length row mem
        rw [rowObject_of_free own free, lookup_tableRow distinct own] at value
        have kept := (List.mem_filter.mp (List.mem_of_mem_take mem)).2
        refine of_decide_eq_true kept ?_
        obtain ⟨v, rfl⟩ := List.length_eq_one_iff.mp (own.trans one)
        exact congrArg (fun v => [v]) (Option.some.inj value)
      · by_contra some_
        obtain ⟨row, rest, rfl⟩ := List.exists_cons_of_ne_nil some_
        have listed : row ∈ (row :: rest).take limit := by
          obtain ⟨k, rfl⟩ := Nat.exists_eq_add_of_le' positive
          exact List.mem_cons_self
        obtain ⟨row', _, object⟩ := List.mem_map.mp (same ▸ List.mem_map_of_mem listed)
        obtain ⟨i, inside, named⟩ := List.mem_iff_getElem.mp proto
        have value := lookup_tableRow distinct (rectangular row List.mem_cons_self) inside
        rw [← object, named, lookup_rowObject_proto] at value
        cases value
    · rintro ⟨-, free, plain⟩
      refine ⟨rfl, ?_⟩
      rw [take_filter_keeps free]
      refine List.map_congr_left fun row mem => ?_
      have listed := List.mem_of_mem_take mem
      refine rowObject_of_free (rectangular row listed) fun proto => ?_
      rw [plain proto] at listed
      cases listed

/-- A quoted field that two chunks share, its quote doubled, and an empty field. -/
def splitChunks : List (List Char) :=
  [['a', ',', 'b', '\r', '\n', '"', 'x', '"'], ['"', 'y', '"', ',', '\n']]

theorem sampleCsv_inverts_split :
    (sampleCsv splitChunks 5).columns = ["a", "b"] ∧
      (sampleCsv splitChunks 5).rows = [tableRow ["a", "b"] ["x\"y", ""]] := by
  have first : EncodesRecord ["a", "b"] ['a', ',', 'b'] :=
    .cons (.of_chars (by simp [IsPlain])) (.last (.of_chars (by simp [IsPlain])))
  have second : EncodesRecord ["x\"y", ""] ['"', 'x', '"', '"', 'y', '"', ','] :=
    .cons (.of_quoted ['x', '"', 'y']) (.last (.of_chars (by simp [IsPlain])))
  have encodes := EncodesTable.cons first .crlf (.ended second .lf)
  have rectangular : ∀ row ∈ [["x\"y", ""]], row.length = ["a", "b"].length := by decide
  exact (sampleCsv_inverts_iff (by decide) (by decide) rectangular (by decide) splitChunks
    encodes).mpr (by decide)

def blankRow : List Char := ['a', '\n', 'x', '\n', '"', '"', '\n', 'y']

def protoColumn : List Char := "__proto__".toList ++ [',', 'b', '\n', '1', ',', '2', '\n']

/-- A row that is one empty field is dropped from between two others, and the value of a
column named like the prototype is lost. -/
theorem row_dropped_and_value_lost :
    (EncodesTable [["a"], ["x"], [""], ["y"]] blankRow ∧
      (sampleCsv [blankRow] 5).rows = [tableRow ["a"] ["x"], tableRow ["a"] ["y"]]) ∧
    EncodesTable [["__proto__", "b"], ["1", "2"]] protoColumn ∧
      (sampleCsv [protoColumn] 5).rows = [tableRow ["b"] ["2"]] := by
  have a : EncodesRecord ["a"] ['a'] := .last (.of_chars (by simp [IsPlain]))
  have x : EncodesRecord ["x"] ['x'] := .last (.of_chars (by simp [IsPlain]))
  have blank : EncodesRecord [""] ['"', '"'] := .last (.of_quoted [])
  have y : EncodesRecord ["y"] ['y'] := .last (.of_chars (by simp [IsPlain]))
  have header : EncodesRecord ["__proto__", "b"] ("__proto__".toList ++ [',', 'b']) :=
    .cons (.plain (by simp [IsPlain])) (.last (.of_chars (by simp [IsPlain])))
  have row : EncodesRecord ["1", "2"] ['1', ',', '2'] :=
    .cons (.of_chars (by simp [IsPlain])) (.last (.of_chars (by simp [IsPlain])))
  have proto := EncodesTable.cons header .lf (.ended row .lf)
  rw [List.append_assoc] at proto
  exact ⟨⟨.cons a .lf (.cons x .lf (.cons blank .lf (.last y))), rfl⟩, proto, rfl⟩

end Inverse

end CsvReader
