import Rewind.Failure
import Rewind.Private.Mapping

/-!
Execution contexts: a stack of their own on which routines are called, with a page below it that
nothing may touch. A routine that gives up leaves no result, and the context serves further calls.
-/
namespace Rewind

structure Context where
  stack : Mapping

namespace Context

/-- A context whose stack has at least this many usable bytes. -/
def new (stackSize : Nat) : Outcome Failure Context := do
  let stack ← (Mapping.withGuard Mapping.refusal stackSize).mapError Failure.privateMemory
  return ⟨stack⟩

/-- The result of a routine, unless it gave up. -/
def call {α : Type} (_ : Context) (routine : Except Fault α) : Option α := routine.toOption

end Rewind.Context
