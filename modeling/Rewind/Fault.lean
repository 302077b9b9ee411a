/-!
Programming faults: the conditions on which a computation gives up instead of reporting an error.
A fault names its cause; `Fault.message` is the only place that words it. An `Outcome` is a value,
an error of the domain at hand, or a fault.
-/
namespace Rewind

/-- Word arithmetic that can leave the representable range. -/
inductive Operation where
  | add
  | subtract
  | multiply
  deriving DecidableEq, Repr

/-- A condition that callers promise and that is checked all the same. -/
inductive Promise where
  /-- A span ends no earlier than it starts. -/
  | ordered
  /-- A region covers whole pages. -/
  | wholePages
  /-- A region's file offset is a multiple of the page size. -/
  | alignedOffset
  /-- A subregion lies inside its region. -/
  | inside
  /-- A copy moves whole machine words. -/
  | wholeWords
  deriving DecidableEq, Repr

inductive Fault where
  | overflow (operation : Operation)
  | remainderByZero
  | capacity
  | outOfBounds (length index : Nat)
  /-- A text is cut inside of a character or behind its end. -/
  | insideCharacter (index : Nat)
  | broken (promise : Promise)
  /-- A captured address is not a multiple of the page size; the remainder is kept. -/
  | unaligned (remainder : Nat)
  /-- A benchmark was started for another subcommand. -/
  | notARun
  /-- The benchmarked routine gave up with a message of its own. -/
  | raised (text : String)
  deriving DecidableEq, Repr

def Promise.text : Promise → String
  | .ordered => "result.start_ <= result.end_"
  | .wholePages => "self.size() % page_size() == 0"
  | .alignedOffset => "self.offset % page_size() as u64 == 0"
  | .inside => "self.mr.contains(&sub)"
  | .wholeWords => "len % size_of::<usize>() == 0"

def Fault.message : Fault → String
  | .overflow .add => "attempt to add with overflow"
  | .overflow .subtract => "attempt to subtract with overflow"
  | .overflow .multiply => "attempt to multiply with overflow"
  | .remainderByZero => "attempt to calculate the remainder with a divisor of zero"
  | .capacity => "capacity overflow"
  | .outOfBounds length index =>
    s!"index out of bounds: the len is {length} but the index is {index}"
  | .insideCharacter index => s!"byte index {index} is not a char boundary"
  | .broken promise => s!"assertion failed: {promise.text}"
  | .unaligned remainder =>
    s!"assertion `left == right` failed\n  left: {remainder}\n right: 0"
  | .notARun => "Unexpected BenchSubCommand variant. Not a `Run` variant!"
  | .raised text => text

/-- What ends a computation early: a fault, or an error of its own domain. -/
inductive Trouble (ε : Type) where
  | fault (cause : Fault)
  | error (cause : ε)
  deriving DecidableEq, Repr

/-- A value, an error or a fault. -/
abbrev Outcome (ε α : Type) := Except (Trouble ε) α

/-- A computation that can only fault also stands where errors are possible. -/
def Outcome.ofFaulty {ε α : Type} : Except Fault α → Outcome ε α
  | .ok a => .ok a
  | .error cause => .error (.fault cause)

@[simp] theorem Outcome.ofFaulty_ok {ε α : Type} (a : α) :
    (Outcome.ofFaulty (.ok a) : Outcome ε α) = .ok a := rfl

@[simp] theorem Outcome.ofFaulty_error {ε α : Type} (cause : Fault) :
    (Outcome.ofFaulty (.error cause) : Outcome ε α) = .error (.fault cause) := rfl

instance {ε : Type} : MonadLift (Except Fault) (Outcome ε) where
  monadLift := Outcome.ofFaulty

theorem Outcome.lift_ok_bind {ε α β : Type} (a : α) (f : α → Outcome ε β) :
    (liftM (.ok a : Except Fault α) : Outcome ε α) >>= f = f a := rfl

theorem Outcome.lift_error_bind {ε α β : Type} (cause : Fault) (f : α → Outcome ε β) :
    (liftM (.error cause : Except Fault α) : Outcome ε α) >>= f = .error (.fault cause) := rfl

/-- The value of a computation that is proved not to fault. -/
def assured {α : Type} (x : Except Fault α) (h : ∃ a, x = .ok a) : α :=
  match x with
  | .ok a => a
  | .error _ => absurd h (by simp)

theorem ok_assured {α : Type} {x : Except Fault α} (h : ∃ a, x = .ok a) : .ok (assured x h) = x := by
  obtain ⟨a, rfl⟩ := h
  rfl

/-- Two steps give a result if and only if both of them do. -/
theorem bind_eq_ok_iff {ε α β : Type} {x : Except ε α} {f : α → Except ε β} {b : β} :
    (x >>= f) = .ok b ↔ ∃ a, x = .ok a ∧ f a = .ok b := by
  cases x with
  | error e => simp [bind, Except.bind]
  | ok a => simp [bind, Except.bind]

/-- Rename the errors of an outcome and keep its faults. -/
def Outcome.mapError {ε δ α : Type} (f : ε → δ) : Outcome ε α → Outcome δ α
  | .ok a => .ok a
  | .error (.error cause) => .error (.error (f cause))
  | .error (.fault cause) => .error (.fault cause)

theorem Outcome.mapError_eq_ok_iff {ε δ α : Type} {f : ε → δ} {o : Outcome ε α} {a : α} :
    o.mapError f = .ok a ↔ o = .ok a := by
  rcases o with (cause | e) | b <;> simp [Outcome.mapError]

theorem Outcome.mapError_eq_error_iff {ε δ α : Type} {f : ε → δ} {o : Outcome ε α} {d : δ} :
    o.mapError f = .error (.error d) ↔ ∃ e, o = .error (.error e) ∧ f e = d := by
  rcases o with (cause | e) | b <;> simp [Outcome.mapError]

theorem Outcome.mapError_eq_fault_iff {ε δ α : Type} {f : ε → δ} {o : Outcome ε α} {c : Fault} :
    o.mapError f = .error (.fault c) ↔ o = .error (.fault c) := by
  rcases o with (cause | e) | b <;> simp [Outcome.mapError]

end Rewind
