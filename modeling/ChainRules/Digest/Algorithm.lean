import ChainRules.Digest.Ripemd160
import ChainRules.Digest.Scrypt
import ChainRules.Digest.Sha1

/-!
# Named hash algorithms

The hash functions that the network uses, each under its identifier.
-/

namespace ChainRules.Digest

/-- A hash function of the network. -/
inductive Algorithm where
  | sha1
  | sha256
  | ripemd160
  /-- SHA-256 applied twice. -/
  | hash256
  /-- RIPEMD-160 of SHA-256. -/
  | hash160
  | scrypt
  deriving DecidableEq

namespace Algorithm

/-- Every algorithm, in a fixed order. -/
def all : List Algorithm :=
  [sha1, sha256, ripemd160, hash256, hash160, scrypt]

/-- The identifier, in upper case. -/
def identifier : Algorithm → String
  | sha1 => "SHA1"
  | sha256 => "SHA256"
  | ripemd160 => "RIPEMD160"
  | hash256 => "HASH256"
  | hash160 => "HASH160"
  | scrypt => "SCRYPT"

/-- How many bytes a digest has. -/
def outputLength : Algorithm → Nat
  | sha1 | ripemd160 | hash160 => 20
  | sha256 | hash256 | scrypt => 32

/-- The digest of a message. -/
def digest (a : Algorithm) (message : Bytes) : Bytes :=
  match a with
  | sha1 => Digest.sha1 message
  | sha256 => (Digest.sha256 message).bytes
  | ripemd160 => Digest.ripemd160 message
  | hash256 => (Digest.hash256 message).bytes
  | hash160 => Digest.hash160 message
  | scrypt => (Digest.scrypt message).bytes

theorem length_digest (a : Algorithm) (message : Bytes) :
    (a.digest message).length = a.outputLength := by
  cases a with
  | sha1 => exact length_sha1 message
  | ripemd160 => exact length_ripemd160 message
  | hash160 => exact length_hash160 message
  | sha256 => exact (Digest.sha256 message).size
  | hash256 => exact (Digest.hash256 message).size
  | scrypt => exact (Digest.scrypt message).size

end Algorithm

end ChainRules.Digest
