import ChainRules.Digest.Algorithm
import ChainRules.Fault
import ChainRules.Keys

/-!
# Hash registries

Hash functions looked up by identifier, without regard to the case of ASCII letters. The network's own
algorithms are always there; a registry may take further functions under identifiers of their own.
-/

namespace ChainRules.Digest

/-- A hash function that may fail. -/
abbrev HashFunction := Bytes → Except Fault Bytes

/-- An identifier with its ASCII letters in upper case. -/
def upperCase (identifier : String) : String :=
  String.ofList (identifier.toList.map Char.toUpper)

namespace Algorithm

/-- The algorithm with an identifier. -/
def find (identifier : String) : Except Fault Algorithm :=
  match all.find? (·.identifier = upperCase identifier) with
  | some a => .ok a
  | none => .error (.notFound (.algorithm identifier))

/-- The algorithm as a hash function. -/
def function (a : Algorithm) : HashFunction :=
  fun message => .ok (a.digest message)

/-- The network's own algorithms take no further functions. -/
def register (identifier : String) : Except Fault Unit :=
  .error (.unsupported (.fixedRegistry identifier))

end Algorithm

/-- Hash functions under their identifiers in upper case, in the order of registration. -/
structure Registry where
  entries : List (String × HashFunction)

namespace Registry

/-- The registry of the network's own algorithms. -/
def standard : Registry :=
  ⟨Algorithm.all.map fun a => (a.identifier, a.function)⟩

/-- How many functions there are. -/
def size (r : Registry) : Nat :=
  r.entries.length

/-- The function under a key in upper case. -/
def get? (r : Registry) (key : String) : Option HashFunction :=
  underKey r.entries key

/-- The function with an identifier. -/
def find (r : Registry) (identifier : String) : Except Fault HashFunction :=
  match r.get? (upperCase identifier) with
  | some f => .ok f
  | none => .error (.notFound (.algorithm identifier))

/-- Adds a function under an identifier that is not in use. -/
def register (r : Registry) (identifier : String) (f : HashFunction) : Except Fault Registry :=
  match r.get? (upperCase identifier) with
  | some _ => .error (.unsupported (.takenAlgorithm identifier))
  | none => .ok ⟨r.entries ++ [(upperCase identifier, f)]⟩

end Registry

end ChainRules.Digest
