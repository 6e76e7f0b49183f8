import ChainRules.Fault

/-!
# Settings of a validator
-/

namespace ChainRules.Chain

/-- What a validator can be told. -/
structure Settings where
  /-- How far above the tip a coinbase may claim its height to be; without it, any claim passes. -/
  maxHeightLead : Option Nat
  /-- Whether the scripts of a block run side by side. -/
  parallelScripts : Bool
  /-- The most bytes that a block may have. -/
  maxBlockSize : Nat
  deriving DecidableEq

namespace Settings

/-- The settings of a validator that is told nothing. -/
def standard : Settings where
  maxHeightLead := some 5000
  parallelScripts := true
  maxBlockSize := 4000000

instance : Inhabited Settings := ⟨standard⟩

/-- Refuses settings that admit no block. -/
def check (s : Settings) : Except Fault Settings :=
  if s.maxBlockSize = 0 then .error (.invalidArgument .zeroBlockSize) else .ok s

end Settings

end ChainRules.Chain
