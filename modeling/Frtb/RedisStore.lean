import Frtb.EnrichDoc
import Frtb.RollupKeys

/-!
# The part of Redis that the consumer writes

A stored text is kept as the value it spells, so that a number survives
`String` and `Number` unchanged. The four key families have prefixes of their
own and are separate maps. A command list takes effect command by command;
the failing positions of a pattern reply with an error and change nothing.
-/

namespace RedisStore

open AssocMaps JsonText EnrichDoc RollupKeys

/-- A stored text: `String(v)` or `JSON.stringify(v)` of the value. -/
inductive Stored where
  | shown (v : Json)
  | stringified (v : Json)

abbrev Hash := Assoc String Stored

/-- `Number(text)` of a text that spells a number. -/
def Stored.toNumber : Stored → ℚ
  | .shown (.num q) => q
  | _ => 0

/-- The text of a stored string. -/
def Stored.toText : Stored → String
  | .shown (.str s) => s
  | _ => ""

inductive Cmd where
  | hset (key : String) (fields : List (String × Stored))
  | jsonSet (key : String) (doc : Props)
  | hincrbyfloat (key field : String) (increment : ℚ)
  | sadd (key member : String)
  | setEx (key : String) (seconds : ℕ)
  | probe (key : String)
  | sugadd (key : String) (term : Json)
  | xack (entryId : EntryId)

/-- A pending entry; a trimmed one carries no field list. -/
structure Entry where
  entryId : EntryId
  fields : Option (List (String × String))
deriving DecidableEq

structure Redis where
  hashes : String → Hash
  documents : String → Option Props
  rollups : String → String → ℚ
  sets : String → Finset String
  markers : Finset String
  /-- The pending entries of the consumer, oldest first. -/
  pel : List Entry

def Redis.empty : Redis where
  hashes := fun _ => ∅
  documents := fun _ => none
  rollups := fun _ _ => 0
  sets := fun _ => ∅
  markers := ∅
  pel := []

def apply (s : Redis) : Cmd → Redis
  | .hset key fields =>
    { s with hashes := fun k => if k = key then assign (s.hashes key) fields else s.hashes k }
  | .jsonSet key doc =>
    { s with documents := fun k => if k = key then some doc else s.documents k }
  | .hincrbyfloat key field increment =>
    { s with rollups := fun k f =>
        if k = key ∧ f = field then s.rollups k f + increment else s.rollups k f }
  | .sadd key member =>
    { s with sets := fun k => if k = key then insert member (s.sets key) else s.sets k }
  | .setEx key _ => { s with markers := insert key s.markers }
  | .probe _ => s
  | .sugadd _ _ => s
  | .xack entryId => { s with pel := s.pel.filter (fun e => e.entryId ≠ entryId) }

/-- Serve the commands of one transaction or pipeline in order. -/
def exec (s : Redis) (cmds : List Cmd) : Redis := cmds.foldl apply s

/-- Serve the commands from position `i` on; a position that `fails` holds of
replies with an error. -/
def execFrom (fails : ℕ → Bool) : ℕ → Redis → List Cmd → Redis
  | _, s, [] => s
  | i, s, c :: cs => execFrom fails (i + 1) (if fails i then s else apply s c) cs

theorem execFrom_of_none_fail {fails : ℕ → Bool} (none : ∀ i, fails i = false) (i : ℕ)
    (s : Redis) (cmds : List Cmd) : execFrom fails i s cmds = exec s cmds := by
  induction cmds generalizing i s with
  | nil => rfl
  | cons c cs ih =>
    rw [execFrom, none i, ih]
    rfl

@[simp] theorem exec_nil (s : Redis) : exec s [] = s := rfl

@[simp] theorem exec_cons (s : Redis) (c : Cmd) (cs : List Cmd) :
    exec s (c :: cs) = exec (apply s c) cs := rfl

theorem exec_append (s : Redis) (cs ds : List Cmd) :
    exec s (cs ++ ds) = exec (exec s cs) ds := by
  simp only [exec, List.foldl_append]

/-- What a command list adds to one field of one rollup hash. -/
def increments (cmds : List Cmd) (key field : String) : ℚ :=
  (cmds.map fun c =>
    match c with
    | .hincrbyfloat k f increment => if key = k ∧ field = f then increment else 0
    | _ => 0).sum

@[simp] theorem increments_nil (key field : String) : increments [] key field = 0 := rfl

theorem increments_append (cs ds : List Cmd) (key field : String) :
    increments (cs ++ ds) key field = increments cs key field + increments ds key field := by
  simp only [increments, List.map_append, List.sum_append]

theorem rollups_exec (s : Redis) (cmds : List Cmd) (key field : String) :
    (exec s cmds).rollups key field = s.rollups key field + increments cmds key field := by
  induction cmds generalizing s with
  | nil => simp
  | cons c cs ih =>
    rw [exec_cons, ih]
    cases c with
    | hincrbyfloat k f increment =>
      simp only [apply, increments, List.map_cons, List.sum_cons]
      split <;> ring
    | _ => simp [apply, increments]

/-- The command writes to no HASH. -/
def Cmd.sparesHashes : Cmd → Prop
  | .hset _ _ => False
  | _ => True

/-- The command acknowledges nothing. -/
def Cmd.sparesPel : Cmd → Prop
  | .xack _ => False
  | _ => True

/-- The command increments no rollup. -/
def Cmd.sparesRollups : Cmd → Prop
  | .hincrbyfloat _ _ _ => False
  | _ => True

/-- The command sets no marker. -/
def Cmd.sparesMarkers : Cmd → Prop
  | .setEx _ _ => False
  | _ => True

theorem hashes_exec {s : Redis} {cmds : List Cmd} (spare : ∀ c ∈ cmds, c.sparesHashes) :
    (exec s cmds).hashes = s.hashes := by
  induction cmds generalizing s with
  | nil => rfl
  | cons c cs ih =>
    rw [exec_cons, ih (fun d hd => spare d (List.mem_cons_of_mem _ hd))]
    have hc := spare c List.mem_cons_self
    cases c with
    | hset key fields => exact hc.elim
    | _ => rfl

theorem pel_execFrom {fails : ℕ → Bool} {cmds : List Cmd}
    (spare : ∀ c ∈ cmds, c.sparesPel) (i : ℕ) (s : Redis) :
    (execFrom fails i s cmds).pel = s.pel := by
  induction cmds generalizing i s with
  | nil => rfl
  | cons c cs ih =>
    rw [execFrom, ih (fun d hd => spare d (List.mem_cons_of_mem _ hd))]
    have hc := spare c List.mem_cons_self
    split
    · rfl
    · cases c with
      | xack entryId => exact hc.elim
      | _ => rfl

theorem increments_of_spares {cmds : List Cmd} (spare : ∀ c ∈ cmds, c.sparesRollups)
    (key field : String) : increments cmds key field = 0 := by
  apply List.sum_eq_zero
  intro x hx
  obtain ⟨c, hc, rfl⟩ := List.mem_map.mp hx
  have hspare := spare c hc
  cases c with
  | hincrbyfloat k f increment => exact hspare.elim
  | _ => rfl

theorem markers_exec {s : Redis} {cmds : List Cmd} (spare : ∀ c ∈ cmds, c.sparesMarkers) :
    (exec s cmds).markers = s.markers := by
  induction cmds generalizing s with
  | nil => rfl
  | cons c cs ih =>
    rw [exec_cons, ih (fun d hd => spare d (List.mem_cons_of_mem _ hd))]
    have hc := spare c List.mem_cons_self
    cases c with
    | setEx key seconds => exact hc.elim
    | _ => rfl

end RedisStore
