import Mathlib
import Frtb.Library.AssocMaps
import Frtb.Library.DelimitedNames

/-!
# Key constructors of the rollup, discovery and marker keys

All keys are tag-free joins of their parts. A stream entry id is the text
`<ms>-<seq>` that the stream hands out, so it contains no colon; that is what
keeps the marker of one entry apart from the marker of every other.
-/

namespace RollupKeys

open DelimitedNames

/-- The id of a stream entry. -/
structure EntryId where
  text : String
  noColon : Free ':' text
deriving DecidableEq

def rollupKey (rc bkt sens : String) (tenor : Option String) : String :=
  let base := "rollup:" ++ rc ++ ":" ++ bkt ++ ":" ++ sens
  match tenor with
  | some t => base ++ ":tenor:" ++ t
  | none => base

def seenRiskClassKey : String := "seen:risk_class"

def seenBucketKey (rc : String) : String := "seen:bucket:" ++ rc

def seenSensTypeKey (rc bkt : String) : String := "seen:sens_type:" ++ rc ++ ":" ++ bkt

def processedMarkerKey (rc bkt : String) (entryId : EntryId) : String :=
  "processed:" ++ rc ++ ":" ++ bkt ++ ":" ++ entryId.text

theorem EntryId.text_injective {i j : EntryId} (h : i.text = j.text) : i = j := by
  cases i
  cases j
  simp only at h
  subst h
  rfl

/-- The tenor keys of one triple tell their tenors apart. -/
theorem rollupKey_tenor_inj {rc bkt sens t t' : String}
    (h : rollupKey rc bkt sens (some t) = rollupKey rc bkt sens (some t')) : t = t' :=
  (AssocMaps.append_left_cancel_iff _ t t').mp h

/-- A tenor key is longer than the base key of its own triple. -/
theorem rollupKey_tenor_ne_base (rc bkt sens t : String) :
    rollupKey rc bkt sens (some t) ≠ rollupKey rc bkt sens none := by
  intro h
  have hlen := congrArg (fun s => s.toList.length) h
  simp [rollupKey] at hlen

/-- The markers of distinct entries are distinct, whatever class and bucket they name. -/
theorem processedMarkerKey_inj {rc bkt rc' bkt' : String} {i j : EntryId}
    (h : processedMarkerKey rc bkt i = processedMarkerKey rc' bkt' j) : i = j := by
  have hjoin : join ':' ("processed:" ++ rc ++ ":" ++ bkt) i.text =
      join ':' ("processed:" ++ rc' ++ ":" ++ bkt') j.text := h
  exact EntryId.text_injective (join_inj_right i.noColon j.noColon hjoin).2

end RollupKeys
