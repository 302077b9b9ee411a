import Rewind.Memory.Basic

/-!
Routines to benchmark. A routine sees memory as it finds it and answers with the writes that it
makes, in order, and the way in which it ends; whatever it keeps outside of that memory is its own
state.
-/
namespace Rewind

/-- How one call of a routine ends. -/
inductive Conclusion where
  | completed
  /-- The routine reports a failure with this code. -/
  | failed (code : Int)
  /-- The routine gives up without a word. -/
  | panicked
  deriving DecidableEq, Repr

def failureText (code : Int) : String := s!"target failed with code {code}"

/-- What one call of a routine comes to. -/
structure Call (σ : Type) where
  writes : List (Nat × Array UInt8)
  conclusion : Conclusion
  state : σ

/-- A routine with state of type `σ`, called with the same arguments time and again. -/
abbrev Target (σ : Type) := σ → List String → Memory → Call σ

end Rewind
