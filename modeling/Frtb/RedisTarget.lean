import Mathlib.Data.List.Basic

/-!
# The active target

The Redis instance the services write to, and what a commit does to the record of it.
The circuit pool and the switch coordinator both work on this record.
-/

namespace RedisTarget

structure ActiveTarget where
  host : String
  port : Nat
  tls : Bool
  db : Nat
  label : String
  clusterMode : Bool
  deriving DecidableEq, Repr

structure ActiveTargetCreds where
  username : Option String
  password : Option String
  deriving DecidableEq, Repr

/-- The module's variables. The generation of the credentials goes into the key of a
client, the version is what the services poll for. -/
structure TargetState where
  override : Option ActiveTarget
  overrideCreds : ActiveTargetCreds
  credsGeneration : Nat
  activeTargetVersion : Nat
  deriving DecidableEq, Repr

def TargetState.initial : TargetState := ⟨none, ⟨none, none⟩, 0, 1⟩

/-- The part of `commitActiveTargetSync` before it walks the pools. -/
def TargetState.commit (s : TargetState) (t : ActiveTarget) (creds : Option ActiveTargetCreds) :
    TargetState where
  override := some t
  overrideCreds := creds.getD ⟨none, none⟩
  credsGeneration := s.credsGeneration + 1
  activeTargetVersion := s.activeTargetVersion + 1

/-- What a client is built for: `targetKey` without its text. -/
structure TargetKey where
  host : String
  port : Nat
  tls : Bool
  db : Nat
  clusterMode : Bool
  credsGeneration : Nat
  deriving DecidableEq, Repr

def TargetState.targetKey (s : TargetState) (t : ActiveTarget) : TargetKey :=
  ⟨t.host, t.port, t.tls, t.db, t.clusterMode, s.credsGeneration⟩

end RedisTarget
