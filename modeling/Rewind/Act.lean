import Rewind.Fault

/-!
Computations on a state. What such a computation did to the state stays done when it fails, so
that a refusal half-way is visible in the state that it leaves.
-/
namespace Rewind

/-- A computation that changes a state of type `σ` and fails with errors of type `ε`. -/
abbrev Act (σ ε : Type) := ExceptT (Trouble ε) (StateM σ)

/-- A part of a state, as a way to take it out and put it back. -/
structure Part (σ τ : Type) where
  split : σ → τ × (τ → σ)

namespace Act

variable {σ τ ε δ α : Type}

/-- The computation that a function on states is. -/
def ofFunction (f : σ → Outcome ε α × σ) : Act σ ε α := f

/-- The result of a computation and the state that it leaves. -/
def on (act : Act σ ε α) (s : σ) : Outcome ε α × σ := act s

/-- Put a question to the state, whose answer is a value or an error of the domain. -/
def request (f : σ → Except ε α × σ) : Act σ ε α := ofFunction fun s =>
  match f s with
  | (.ok a, s) => (.ok a, s)
  | (.error e, s) => (.error (.error e), s)

def fail (cause : ε) : Act σ ε α := throw (.error cause)

def mapError (f : δ → ε) (act : Act σ δ α) : Act σ ε α := ofFunction fun s =>
  let (result, s) := act.on s
  (result.mapError f, s)

def focus (part : Part σ τ) (act : Act τ ε α) : Act σ ε α := ofFunction fun s =>
  let (inner, restore) := part.split s
  let (result, inner) := act.on inner
  (result, restore inner)

/-- The answer of a computation as a value, be it an error. Faults are no answers. -/
def attempt (act : Act σ δ α) : Act σ ε (Except δ α) := ofFunction fun s =>
  match act.on s with
  | (.ok a, s) => (.ok (.ok a), s)
  | (.error (.error cause), s) => (.ok (.error cause), s)
  | (.error (.fault cause), s) => (.error (.fault cause), s)

theorem on_ofFunction (f : σ → Outcome ε α × σ) (s : σ) : (ofFunction f).on s = f s := rfl

theorem on_focus (part : Part σ τ) (act : Act τ ε α) (s : σ) :
    (act.focus part).on s =
      ((act.on (part.split s).1).1, (part.split s).2 (act.on (part.split s).1).2) := rfl

theorem on_pure (a : α) (s : σ) : (pure a : Act σ ε α).on s = (.ok a, s) := rfl

theorem on_bind {β : Type} (act : Act σ ε α) (next : α → Act σ ε β) (s : σ) :
    (act >>= next).on s = match act.on s with
      | (.ok a, s) => (next a).on s
      | (.error e, s) => (.error e, s) := by
  unfold on
  simp only [bind, ExceptT.bind, ExceptT.mk, StateT.bind, ExceptT.bindCont]
  rcases (act s : Outcome ε α × σ) with ⟨_ | _, _⟩ <;> rfl

end Act

end Rewind
