/-!
# Cancellation

Long work polls a token between its steps and stops once the token is cancelled. The owner of a token
may cancel it at any time, which a token records as the number of polls that still find it alive.
-/

namespace ChainRules

/-- A cancellation token: `none` is never cancelled, `some n` answers `n` more polls before it is. -/
structure Token where
  pollsLeft : Option Nat
  deriving DecidableEq

namespace Token

/-- A token that no one cancels. -/
def never : Token := ⟨none⟩

/-- A token that is cancelled already. -/
def cancelled : Token := ⟨some 0⟩

instance : Inhabited Token := ⟨never⟩

/-- The token once its owner has cancelled it. -/
def cancel (_ : Token) : Token := cancelled

/-- Whether the token is cancelled now. -/
def isCancelled (t : Token) : Bool :=
  t.pollsLeft = some 0

/-- The token after one more poll. -/
def polled (t : Token) : Token :=
  ⟨t.pollsLeft.map (· - 1)⟩

@[simp] theorem isCancelled_never : never.isCancelled = false := rfl

@[simp] theorem polled_never : never.polled = never := rfl

@[simp] theorem isCancelled_cancel (t : Token) : t.cancel.isCancelled = true := rfl

/-- A cancelled token stays cancelled. -/
theorem isCancelled_polled {t : Token} (h : t.isCancelled = true) : t.polled.isCancelled = true := by
  simp_all [isCancelled, polled]

end Token

end ChainRules
