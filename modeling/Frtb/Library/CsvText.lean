import Mathlib.Data.List.Basic

/-!
# Encodings of a table as comma-separated text

The texts that spell a table by the rules of comma-separated files: a field is quoted, with
its quotes doubled, or written plain when it has no comma, quote or line break; each line
ends in a line feed, perhaps after a carriage return, and the last one may end with the text.
-/

namespace CsvText

def IsPlain (c : Char) : Prop := c ≠ ',' ∧ c ≠ '"' ∧ c ≠ '\r' ∧ c ≠ '\n'

instance : DecidablePred IsPlain := fun _ => inferInstanceAs (Decidable (_ ∧ _ ∧ _ ∧ _))

def doubled (c : Char) : List Char := if c = '"' then ['"', '"'] else [c]

def quoted (cs : List Char) : List Char := '"' :: (cs.flatMap doubled ++ ['"'])

inductive EncodesField (v : String) : List Char → Prop
  | plain (free : ∀ c ∈ v.toList, IsPlain c) : EncodesField v v.toList
  | quoted : EncodesField v (quoted v.toList)

theorem EncodesField.of_chars {cs : List Char} (free : ∀ c ∈ cs, IsPlain c) :
    EncodesField (String.ofList cs) cs := by
  have field : EncodesField (String.ofList cs) (String.ofList cs).toList :=
    .plain (by rwa [String.toList_ofList])
  rwa [String.toList_ofList] at field

theorem EncodesField.of_quoted (cs : List Char) :
    EncodesField (String.ofList cs) (CsvText.quoted cs) := by
  have field : EncodesField (String.ofList cs) (CsvText.quoted (String.ofList cs).toList) := .quoted
  rwa [String.toList_ofList] at field

inductive EncodesRecord : List String → List Char → Prop
  | last {v : String} {cs : List Char} (field : EncodesField v cs) : EncodesRecord [v] cs
  | cons {v : String} {row : List String} {cs ds : List Char} (field : EncodesField v cs)
      (rest : EncodesRecord row ds) : EncodesRecord (v :: row) (cs ++ ',' :: ds)

inductive LineEnding : List Char → Prop
  | lf : LineEnding ['\n']
  | crlf : LineEnding ['\r', '\n']

inductive EncodesTable : List (List String) → List Char → Prop
  | last {row : List String} {cs : List Char} (record : EncodesRecord row cs) :
      EncodesTable [row] cs
  | ended {row : List String} {cs ending : List Char} (record : EncodesRecord row cs)
      (ends : LineEnding ending) : EncodesTable [row] (cs ++ ending)
  | cons {row : List String} {rows : List (List String)} {cs ending ds : List Char}
      (record : EncodesRecord row cs) (ends : LineEnding ending) (rest : EncodesTable rows ds) :
      EncodesTable (row :: rows) (cs ++ (ending ++ ds))

end CsvText
