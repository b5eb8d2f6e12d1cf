import Mathlib.Data.Nat.Notation

/-!
# Routing rows to shard streams

A router sends a text to the base stream, to one of `N` numbered streams by a
32-bit hash, or to a stream of its own.
-/

namespace StreamRouter

inductive StreamShards where
  | perBucket
  | shards (n : ℕ)
deriving DecidableEq

def buildHashTag (riskClass bucket : String) : String := riskClass ++ ":" ++ bucket

/-- The UTF-16 code units of a character. -/
def codeUnits (c : Char) : List ℕ :=
  if c.toNat < 0x10000 then [c.toNat]
  else [0xd800 + (c.toNat - 0x10000) / 0x400, 0xdc00 + (c.toNat - 0x10000) % 0x400]

/-- FNV-1a over the code units of a text. -/
def hashFnv1a32 (text : String) : UInt32 :=
  (text.toList.flatMap codeUnits).foldl (fun h unit => (h ^^^ UInt32.ofNat unit) * 0x01000193)
    0x811c9dc5

/-- `createStreamRouter(baseStream, config).route`. Without a shard the source
throws. -/
def createStreamRouter (baseStream : String) : StreamShards → Option (String → String)
  | .perBucket => some fun hashTag => baseStream ++ ":\x7b" ++ hashTag ++ "\x7d"
  | .shards 0 => none
  | .shards 1 => some fun _ => baseStream
  | .shards n => some fun hashTag =>
    baseStream ++ ":\x7b" ++ toString ((hashFnv1a32 hashTag).toNat % n) ++ "\x7d"

end StreamRouter
