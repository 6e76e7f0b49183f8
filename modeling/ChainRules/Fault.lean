import ChainRules.Chain.Entry
import ChainRules.Chain.Violation
import ChainRules.Text.Quoted

/-!
# Faults

Every way in which an operation of this library can fail, and its wording: a word for the kind of the
fault, then its cause.
-/

namespace ChainRules

/-- A request that is understood but not served. -/
inductive Unsupported where
  /-- The identifier has a hash algorithm already. -/
  | takenAlgorithm (identifier : String)
  /-- The registry takes no further algorithms. -/
  | fixedRegistry (identifier : String)
  /-- The store takes no entries. -/
  | readOnlyStore (kind : EntryKind) (id : Hash256)
  /-- A peer's command is none of those that carry a payload. -/
  | command (name : String)
  | other (text : String)
  deriving DecidableEq

/-- The wording of an unserved request. -/
def Unsupported.message : Unsupported → String
  | takenAlgorithm identifier => s!"hash algorithm {identifier} is already registered"
  | fixedRegistry identifier => s!"built-in hash registry cannot register {identifier}"
  | readOnlyStore kind id => s!"read-only chain store cannot store {kind.name} {id.display}"
  | command name => s!"message command {name}"
  | other text => text

/-- Something that is asked for and not there. -/
inductive Missing where
  | algorithm (identifier : String)
  | other (text : String)
  deriving DecidableEq

/-- The wording of what is missing. -/
def Missing.message : Missing → String
  | algorithm identifier => s!"hash algorithm {identifier}"
  | other text => text

/-- An argument outside the domain of an operation. -/
inductive BadArgument where
  /-- A Merkle tree over nothing. -/
  | noLeaves
  | leafIndex (index leaves : Nat)
  /-- A command name that does not fit into its field. -/
  | commandName (name : String)
  /-- Settings that admit no block. -/
  | zeroBlockSize
  | other (text : String)
  deriving DecidableEq

/-- The wording of a bad argument. -/
def BadArgument.message : BadArgument → String
  | noLeaves => "merkle tree requires at least one leaf"
  | leafIndex index leaves => s!"leaf index {index} out of range for {leaves} leaves"
  | commandName name => "invalid command name " ++ Text.Quoted.encode name
  | zeroBlockSize => "max_block_size must be positive"
  | other text => text

/-- A second entry under a key that is in use. -/
inductive Conflict where
  | entry (kind : EntryKind) (id : Hash256)
  | height (id : Hash256) (recorded : Nat)
  | other (text : String)
  deriving DecidableEq

/-- The wording of a conflict. -/
def Conflict.message : Conflict → String
  | entry kind id => s!"{kind.name} {id.display} already stored with different content"
  | height id recorded => s!"block {id.display} already recorded at height {recorded}"
  | other text => text

/-- A failure of an operation. -/
inductive Fault where
  | malformed (cause : Malformed)
  | invalid (cause : Violation)
  | unsupported (cause : Unsupported)
  | notFound (what : Missing)
  | invalidArgument (cause : BadArgument)
  | conflict (cause : Conflict)
  | cancelled
  | script (cause : Script.Abort)
  /-- A text is not the written form of what is asked for. -/
  | unreadable
  | internal (text : String)
  deriving DecidableEq

/-- The wording of a fault. -/
def Fault.message : Fault → String
  | malformed cause => s!"Malformed data: {cause.message}"
  | invalid cause => s!"Contextually invalid: {cause.message}"
  | unsupported cause => s!"Unsupported operation: {cause.message}"
  | notFound what => s!"Not found: {what.message}"
  | invalidArgument cause => s!"Invalid argument: {cause.message}"
  | conflict cause => s!"Conflicting entry for {cause.message}"
  | cancelled => "Operation cancelled"
  | script cause => s!"Script execution failed: {cause.message}"
  | unreadable => "Serialization error"
  | internal text => s!"Internal error: {text}"

/-- The outcome of validation as its caller sees it. -/
inductive Verdict where
  | okay
  /-- The payload cannot be read. -/
  | messageInvalid (text : String)
  /-- The payload can be read and breaks a rule. -/
  | contextuallyInvalid (text : String)
  | cancelled
  deriving DecidableEq

/-- The verdict on a payload whose validation failed. -/
def Fault.verdict : Fault → Verdict
  | malformed cause => .messageInvalid cause.message
  | cancelled => .cancelled
  | script .cancelled => .cancelled
  | invalid cause => .contextuallyInvalid cause.message
  | fault => .contextuallyInvalid fault.message

end ChainRules
