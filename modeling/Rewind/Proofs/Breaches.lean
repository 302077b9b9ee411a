import Rewind.Proofs.Growth
import Rewind.Proofs.Runs

/-! Where a run of a routine can break. What the harness does in a run are steps of six kinds. The
first of them that fails is what the run is given up for, and no other failure ever is. -/
namespace Rewind

namespace Act

variable {τ ε α : Type} {act : Act τ ε α} {s s' : τ}

/-- Results that are thrown away do not keep a computation from ending as it does. -/
theorem on_void_ok : (do let _ ← act : Act τ ε Unit).on s = (.ok (), s') ↔
    ∃ a, act.on s = (.ok a, s') := by
  rw [on_bind]
  rcases act.on s with ⟨_ | _, _⟩ <;> simp [on_pure]

theorem on_void_error {e : Trouble ε} : (do let _ ← act : Act τ ε Unit).on s = (.error e, s') ↔
    act.on s = (.error e, s') := by
  rw [on_bind]
  rcases act.on s with ⟨_ | _, _⟩ <;> simp [on_pure]

end Act

namespace Watch

open Monitor (Point)

variable {w : Watch}

theorem capture_ends (page : Nat) :
    (capture page).Meets w (fun _ _ => True) fun e _ => EndsProcess e := by
  simp only [capture, Act.meets_bind, Act.meets_get, Act.meets_attempt, Act.meets_focus]
  refine (Act.meets_self _ _).mono (fun _ _ _ => Act.meets_pure.mpr trivial) ?_
  rintro (f | e) _ -
  · exact endsProcess_fault f
  · exact meets_halt.mpr (halts _).endsProcess

/-- A request that the thread decides about by itself. -/
theorem request_ends {act : Act Machine Errno Machine.Return}
    {next : Except Errno Machine.Return → Op Next}
    (h : ∀ r w, (next r).Meets w (fun _ _ => True) fun e _ => EndsProcess e) :
    (request act >>= next).Meets w (fun _ _ => True) fun e _ => EndsProcess e := by
  rw [Act.meets_bind, meets_request]
  refine (Act.meets_self _ _).mono (fun _ _ _ => h _ _) ?_
  rintro (f | e) _ -
  · exact endsProcess_fault f
  · exact h _ _

/-- A step of the thread is never a failure to report: what it cannot do ends the process. -/
theorem perform_ends (p : Point) :
    (perform p).Meets w (fun _ _ => True) fun e _ => EndsProcess e := by
  cases p with
  | register index | guard index =>
    simp only [perform, Act.meets_bind, Act.meets_get]
    split
    · exact Act.meets_pure.mpr trivial
    · apply request_ends
      rintro (errno | returned) w'
      · exact Act.meets_pure.mpr trivial
      · exact Act.meets_pure.mpr trivial
  | listen | poll | wait | read =>
    refine (perform_waiting_meets ?_).mono (fun _ _ _ => trivial) fun _ _ h => h.endsProcess
    trivial
  | capture page =>
    rw [perform, Act.meets_bind]
    exact (capture_ends page).mono (fun _ _ _ => Act.meets_pure.mpr trivial) fun _ _ h => h
  | release page =>
    rw [perform, Act.meets_bind, Act.meets_faulty]
    refine ⟨fun span _ => request_ends ?_, fun f _ => endsProcess_fault f⟩
    rintro (errno | returned) w'
    · exact meets_halt.mpr (halts _).endsProcess
    · exact Act.meets_pure.mpr trivial
  | _ => simp only [perform, Act.meets_bind, meets_setState, meets_modifyMonitor, Act.meets_pure]

theorem serveFor_ends (n : Nat) :
    (serveFor n).Meets w (fun _ _ => True) fun e _ => EndsProcess e := by
  induction n generalizing w with
  | zero => exact Act.meets_pure.mpr trivial
  | succ n ih =>
    match ht : w.monitor.thread with
    | some ⟨p, false⟩ =>
      rw [serveFor_succ_meets ht]
      refine (perform_ends p).mono ?_ fun _ _ h => h
      rintro (q | q | _) w' -
      · exact ih
      · trivial
      · trivial
    | none | some ⟨_, true⟩ =>
      simp only [serveFor, Act.meets_bind, Act.meets_get, ht, Act.meets_pure]

theorem claim_ends (n address : Nat) :
    (claim n address).Meets w (fun _ _ => True) fun e _ => EndsProcess e := by
  simp only [claim, serve, Act.meets_bind, Act.meets_get, Act.meets_ite, meets_modifyMonitor,
    meets_halt, Act.meets_pure]
  refine ⟨fun _ => ?_, fun _ => trivial⟩
  refine (serveFor_ends _).mono (fun _ _ _ => ?_) fun _ _ h => h
  exact ⟨fun _ => (halts _).endsProcess, fun _ => trivial⟩

theorem writePages_ends (start : Nat) (bytes : Array UInt8) (ns : List Nat) :
    (writePages start bytes ns).Meets w (fun _ _ => True) fun e _ => EndsProcess e := by
  induction ns generalizing w with
  | nil => exact Act.meets_pure.mpr trivial
  | cons n ns ih =>
    simp only [writePages, Act.meets_bind, Act.meets_modify]
    exact (claim_ends _ _).mono (fun _ _ _ => ih) fun _ _ h => h

/-- Writes get through or end the process. -/
theorem writeAll_ends (writes : List (Nat × Array UInt8)) :
    (writeAll writes).Meets w (fun _ _ => True) fun e _ => EndsProcess e := by
  induction writes generalizing w with
  | nil => exact Act.meets_pure.mpr trivial
  | cons entry writes ih =>
    rw [writeAll, Act.meets_bind]
    exact (writePages_ends _ _ _).mono (fun _ _ _ => ih) fun _ _ h => h

/-- What restoring is given up for, if it is not the end of the process: a page that cannot be
guarded again. -/
def Unarmable (e : Trouble Stop) : Prop :=
  EndsProcess e ∨ ∃ page errno, e = .error (.failure (.rearm page errno))

theorem replayBelow_ends (i : Nat) :
    (replayBelow i).Meets w (fun _ _ => True) fun e _ => EndsProcess e := by
  induction i generalizing w with
  | zero => exact Act.meets_pure.mpr trivial
  | succ i ih =>
    simp only [replayBelow, Act.meets_bind, Act.meets_get, Act.meets_faulty, Act.meets_ite,
      meets_halt]
    refine ⟨fun page _ => ?_, fun f _ => endsProcess_fault f⟩
    refine (writePages_ends _ _ _).mono (fun _ _ _ => ?_) fun _ _ h => h
    exact ⟨fun _ => (halts _).endsProcess, fun _ => ih⟩

theorem rearmPage_trouble (page : Nat) :
    (rearmPage page).Meets w (fun _ _ => True) fun e _ => Unarmable e := by
  rw [rearmPage, Act.meets_bind, Act.meets_faulty]
  refine ⟨fun span _ => ?_, fun f _ => .inl (endsProcess_fault f)⟩
  rw [Act.meets_bind, meets_request]
  refine (Act.meets_self _ _).mono ?_ ?_
  · rintro (_ | _) _ -
    · exact Act.meets_pure.mpr trivial
    · exact meets_halt.mpr (.inl (halts _).endsProcess)
  · rintro (f | errno) _ -
    · exact .inl (endsProcess_fault f)
    · exact meets_fail.mpr (.inr ⟨page, errno, rfl⟩)

theorem rearmAll_trouble (pages : List Nat) :
    (rearmAll pages).Meets w (fun _ _ => True) fun e _ => Unarmable e := by
  induction pages generalizing w with
  | nil => exact Act.meets_pure.mpr trivial
  | cons page pages ih =>
    rw [rearmAll, Act.meets_bind]
    exact (rearmPage_trouble page).mono (fun _ _ _ => ih) fun _ _ h => h

theorem restore_trouble (again : Bool) :
    (restore again).Meets w (fun _ _ => True) fun e _ => Unarmable e := by
  simp only [restore, replay, rearm, forget, Act.meets_bind, Act.meets_get, Act.meets_pure,
    Act.meets_ite, Act.meets_modify]
  refine (replayBelow_ends _).mono ?_ fun _ _ h => .inl h
  refine fun _ _ _ => ⟨fun _ => ?_, fun _ => trivial⟩
  exact (rearmAll_trouble _).mono (fun _ _ _ => trivial) fun _ _ h => h

theorem rebaseline_trouble (timeout : Duration) :
    (rebaseline timeout).Meets w (fun _ _ => True) fun e _ =>
      Unarmable e ∨ ∃ inFlight, e = .error (.failure (.drainTimeout inFlight timeout)) := by
  simp only [rebaseline, rearm, forget, Act.meets_bind, Act.meets_get, Act.meets_pure,
    Act.meets_modify]
  refine (drain_meets timeout).mono (fun _ _ _ => ?_) fun _ _ h => .inr ⟨_, h.2.2⟩
  exact (rearmAll_trouble _).mono (fun _ _ _ => trivial) fun _ _ h => .inl h

end Watch

/-- Checksums that are taken are those of memory as it is, whatever the table held before. -/
theorem Checksums.take_holds_meets [Digest] (sums : Checksums) (memory : Memory) (slots : List Slot) :
    (take memory slots).Meets sums (fun _ sums' => sums'.Holds memory slots) fun _ _ => True := by
  simp only [take, Act.meets_bind, Act.meets_modify]
  refine (PrivateArray.reserve_grown_meets (by decide) _ _ _).mono ?_ fun _ _ _ => trivial
  intro _ v hgrown
  have hitems : v.items = #[] := hgrown.items
  have hpush := PrivateArray.pushAll_isOk (v := v) Mapping.refusal (slots.map (entry memory)) (by
    simpa [PrivateArray.size, hitems, PrivateArray.clear] using hgrown.room)
  refine (Act.meets_of_ok hpush).mpr ?_
  simp [Holds, hitems]

namespace Bench

open Watch (EndsProcess Unarmable)

variable {σ : Type} {b b' c : Bench σ}

/-- A call reaches the scheduler in no way, and only the end of the process keeps it from coming to
its conclusion. -/
theorem call_ends (target : Target σ) (args : List String) : (call target args).Meets b
    (fun conclusion c => conclusion = (target b.subject args b.memory).conclusion ∧
      c.scheduler = b.scheduler ∧ c.subject = (target b.subject args b.memory).state)
    (fun e _ => EndsProcess e) := by
  simp only [call, Act.meets_bind, Act.meets_get, Act.meets_set, meets_onWatch, Act.meets_pure]
  exact (Watch.writeAll_ends _).mono (fun _ _ _ => ⟨trivial, trivial, trivial⟩) fun _ _ h => h

/-- Work on the watched machine reaches neither the scheduler nor the routine. -/
theorem onWatch_meets {α : Type} (act : Watch.Op α) : (onWatch act : Op σ α).Meets b
    (fun a c => (onWatch act).on b = (.ok a, c) ∧ c.scheduler = b.scheduler ∧ c.subject = b.subject)
    (fun e c => (onWatch act).on b = (.error e, c) ∧ c.scheduler = b.scheduler ∧
      c.subject = b.subject) := by
  refine (Act.meets_self _ _).and (meets_onWatch.mpr ?_)
  exact (Act.meets_true _ _).mono (fun _ _ _ => ⟨rfl, rfl⟩) fun _ _ _ => ⟨rfl, rfl⟩

/-- All that a run is told. -/
structure Task (σ : Type) where
  options : Scheduler.Options
  target : Target σ
  args : List String
  slots : List Slot
  clock : Nat → Duration
  count : Nat

/-- What the harness has to do in a run, apart from calling the routine and noting what came of
it. -/
inductive Duty where
  | samples
  | checksums
  | baseline
  | drain (i : Nat)
  | restore (i : Nat)
  | verify (i : Nat)
  deriving DecidableEq, Repr

/-- What a duty can be reported for. -/
def Duty.Reports : Duty → Failure → Prop
  | .samples, .privateMemory _ | .checksums, .privateMemory _ => True
  | .baseline, .drainTimeout _ _ | .baseline, .rearm _ _ => True
  | .drain _, .drainTimeout _ _ | .restore _, .rearm _ _ => True
  | .verify i, .restoreMismatch k _ => k = i
  | _, _ => False

theorem onTable_trouble {τ α : Type} (part : Part (Bench σ) τ) (act : Act τ Errno α) :
    (onTable part act).Meets b (fun _ _ => True) fun e _ =>
      EndsProcess e ∨ ∃ errno, e = .error (.failure (.privateMemory errno)) := by
  rw [onTable, Act.meets_focus, Act.meets_mapError]
  refine (Act.meets_true _ _).mono (fun _ _ _ => trivial) ?_
  rintro (f | errno) _ -
  · exact .inl (Watch.endsProcess_fault f)
  · exact .inr ⟨errno, rfl⟩

namespace Task

/-- Forget the samples of earlier runs. -/
def cleared : Op σ Unit :=
  modify fun b => { b with scheduler := { b.scheduler with samples := b.scheduler.samples.clear } }

theorem on_cleared (b : Bench σ) : cleared.on b = (.ok (), { b with
    scheduler := { b.scheduler with samples := b.scheduler.samples.clear } }) := rfl

/-- A run that has got so far: one sample for each iteration, and room for those to come. -/
structure Filled (t : Task σ) (i : Nat) (b : Bench σ) : Prop where
  size : b.scheduler.samples.size = i
  room : t.count ≤ b.scheduler.samples.capacity

/-- There is room for the sample of every iteration. -/
theorem Filled.push {t : Task σ} {i : Nat} (h : t.Filled i b) (hi : i < t.count) (row : Sample) :
    (onTable sampleTable (PrivateArray.push Mapping.refusal row)).on b =
      (.ok (), { b with scheduler := b.scheduler.record [row] }) := by
  have hroom : b.scheduler.samples.size < b.scheduler.samples.capacity := by
    rw [h.size]
    exact hi.trans_le h.room
  have hpush := PrivateArray.push_isOk Mapping.refusal hroom row
  rw [Act.on_eq_ok_iff]
  simp only [onTable, Act.meets_focus, Act.meets_mapError, sampleTable]
  refine (Act.meets_of_ok hpush).mpr ⟨trivial, ?_⟩
  simp [Scheduler.record]

variable [Digest] (t : Task σ)

def run : Op σ Series := Bench.run t.options t.target t.args t.slots t.clock t.count

def loop : Op σ Unit := Bench.loop t.options t.target t.args t.slots t.clock t.count

/-- The run up to the start of iteration `i`. -/
def upTo (i : Nat) : Op σ Unit :=
  Bench.upTo t.options t.target t.args t.slots t.clock t.count i

/-- The run up to the end of call `i`. -/
def called (i : Nat) : Op σ Conclusion := do
  t.upTo i
  call t.target t.args

def drained (i : Nat) : Op σ Conclusion := do
  let conclusion ← t.called i
  onWatch (Watch.drain t.options.drainTimeout)
  return conclusion

/-- The run up to the end of the restore after call `i`. -/
def restored (i : Nat) : Op σ Sample := do
  let conclusion ← t.drained i
  let pages ← onWatch (Watch.restore t.options.rearm)
  return ⟨t.clock i, .ofConclusion conclusion, pages⟩

def recorded (i : Nat) : Op σ Unit := do
  let sample ← t.restored i
  onTable sampleTable (PrivateArray.push Mapping.refusal sample)

def reserved : Op σ Unit := do
  cleared
  onTable sampleTable (PrivateArray.reserve Mapping.refusal t.count)

/-- Take the checksums of memory as it is. -/
def summed : Op σ Unit := do onTable checksumTable (Checksums.take (← get).memory t.slots)

/-- The run up to the first baseline. -/
def entered : Op σ Unit := do
  t.reserved
  if t.options.verify then t.summed

/-- Whether the run has a duty at all. -/
def Has : Duty → Prop
  | .samples | .baseline => True
  | .checksums => t.options.verify = true
  | .drain i | .restore i => i < t.count
  | .verify i => i < t.count ∧ t.options.verify = true

/-- All of the run before a duty. -/
def before : Duty → Op σ Unit
  | .samples => cleared
  | .checksums => t.reserved
  | .baseline => t.entered
  | .drain i => do let _ ← t.called i
  | .restore i => do let _ ← t.drained i
  | .verify i => t.recorded i

/-- A duty as such. -/
def work : Duty → Op σ Unit
  | .samples => onTable sampleTable (PrivateArray.reserve Mapping.refusal t.count)
  | .checksums => t.summed
  | .baseline => do let _ ← onWatch (Watch.rebaseline t.options.drainTimeout)
  | .drain _ => onWatch (Watch.drain t.options.drainTimeout)
  | .restore _ => do let _ ← onWatch (Watch.restore t.options.rearm)
  | .verify i => Bench.verify i t.slots

/-- A duty is the first in which the harness fails. -/
def Breaks (b : Bench σ) (d : Duty) (e : Trouble Stop) (b' : Bench σ) : Prop :=
  t.Has d ∧ ∃ c, (t.before d).on b = (.ok (), c) ∧ (t.work d).on c = (.error e, b')

/-- A call of the routine ends the process. -/
def Perishes (b : Bench σ) (e : Trouble Stop) (b' : Bench σ) : Prop :=
  ∃ i < t.count, ∃ c, (t.upTo i).on b = (.ok (), c) ∧
    (call t.target t.args).on c = (.error e, b')

variable {t}

/-- The run goes through the end of each of its calls. -/
theorem loop_eq_called {i : Nat} (h : i < t.count) : t.loop = (do
    let conclusion ← t.called i
    onWatch (Watch.drain t.options.drainTimeout)
    let pages ← onWatch (Watch.restore t.options.rearm)
    onTable sampleTable
      (PrivateArray.push Mapping.refusal ⟨t.clock i, .ofConclusion conclusion, pages⟩)
    if t.options.verify then Bench.verify i t.slots
    iterations t.options t.target t.args t.slots t.clock (t.count - (i + 1)) (i + 1)) := by
  have hcount : t.count - i = t.count - (i + 1) + 1 := by omega
  rw [loop, loop_eq_upTo h.le, hcount, iterations, iteration, called, upTo]
  cases t.options.verify <;> simp

theorem loop_eq_drained {i : Nat} (h : i < t.count) : t.loop = (do
    let conclusion ← t.drained i
    let pages ← onWatch (Watch.restore t.options.rearm)
    onTable sampleTable
      (PrivateArray.push Mapping.refusal ⟨t.clock i, .ofConclusion conclusion, pages⟩)
    if t.options.verify then Bench.verify i t.slots
    iterations t.options t.target t.args t.slots t.clock (t.count - (i + 1)) (i + 1)) := by
  rw [loop_eq_called h, drained]
  simp only [bind_assoc, pure_bind]

theorem loop_eq_recorded {i : Nat} (h : i < t.count) : t.loop = (do
    t.recorded i
    if t.options.verify then Bench.verify i t.slots
    iterations t.options t.target t.args t.slots t.clock (t.count - (i + 1)) (i + 1)) := by
  rw [loop_eq_drained h, recorded, restored]
  simp only [bind_assoc, pure_bind]

theorem loop_eq_entered : t.loop = (do
    t.entered
    let _ ← onWatch (Watch.rebaseline t.options.drainTimeout)
    iterations t.options t.target t.args t.slots t.clock t.count 0) := by
  rw [loop, Bench.loop, entered, reserved, cleared, summed]
  cases t.options.verify <;> simp

/-- A run ends with the failure of the first duty that fails. -/
theorem Breaks.loop {d : Duty} {e : Trouble Stop} (h : t.Breaks b d e b') :
    t.loop.on b = (.error e, b') := by
  obtain ⟨hd, c, hc, he⟩ := h
  cases d with
  | samples =>
    have hres : t.reserved.on b = (.error e, b') := by
      rw [reserved, Act.on_bind, show cleared.on b = _ from hc]
      exact he
    rw [loop_eq_entered, Act.on_bind, entered, Act.on_bind, hres]
  | checksums =>
    have hent : t.entered.on b = (.error e, b') := by
      rw [entered, Act.on_bind, show t.reserved.on b = _ from hc]
      simp only [show t.options.verify = true from hd, if_true]
      exact he
    rw [loop_eq_entered, Act.on_bind, hent]
  | baseline =>
    rw [loop_eq_entered, Act.on_bind, show t.entered.on b = _ from hc]
    simp only
    rw [Act.on_bind, Act.on_void_error.mp he]
  | drain i =>
    obtain ⟨conclusion, hcall⟩ := Act.on_void_ok.mp hc
    rw [loop_eq_called hd, Act.on_bind, hcall]
    simp only
    rw [Act.on_bind, show (onWatch _).on c = _ from he]
  | restore i =>
    obtain ⟨conclusion, hdrain⟩ := Act.on_void_ok.mp hc
    rw [loop_eq_drained hd, Act.on_bind, hdrain]
    simp only
    rw [Act.on_bind, Act.on_void_error.mp he]
  | verify i =>
    rw [loop_eq_recorded hd.1, Act.on_bind, show (t.recorded i).on b = _ from hc]
    simp only [hd.2, if_true]
    rw [Act.on_bind, show (Bench.verify i t.slots).on c = _ from he]

theorem Perishes.loop {e : Trouble Stop} (h : t.Perishes b e b') :
    t.loop.on b = (.error e, b') := by
  obtain ⟨i, hi, c, hc, he⟩ := h
  have hcall : (t.called i).on b = (.error e, b') := by
    rw [called, Act.on_bind, hc]
    exact he
  rw [loop_eq_called hi, Act.on_bind, hcall]

/-- The run is broken off: by a duty that fails, or because the process ends in a call. -/
def Broken (t : Task σ) (b : Bench σ) (e : Trouble Stop) (b' : Bench σ) : Prop :=
  (∃ d, t.Breaks b d e b') ∨ t.Perishes b e b'

theorem reserved_meets : t.reserved.Meets b (fun _ c => t.Filled 0 c) (t.Broken b) := by
  rw [reserved, Act.meets_bind, Act.meets_of_ok (on_cleared b)]
  have hroom : (onTable sampleTable (PrivateArray.reserve Mapping.refusal t.count)).Meets
      { b with scheduler := { b.scheduler with samples := b.scheduler.samples.clear } }
      (fun _ c => t.Filled 0 c) fun _ _ => True := by
    apply meets_onTable
    apply (PrivateArray.reserve_grown_meets (by decide) _ _ _).mono
    · intro _ v hgrown
      have hsize : v.size = 0 := by
        rw [PrivateArray.size, hgrown.items]
        rfl
      exact ⟨hsize, (Nat.le_add_left _ _).trans hgrown.room⟩
    · exact fun _ _ _ _ => trivial
  refine ((Act.meets_self _ _).and hroom).mono (fun _ _ h => h.2) ?_
  exact fun e b' he => .inl ⟨.samples, trivial, _, on_cleared b, he.1⟩

theorem summed_meets : t.summed.Meets b
    (fun _ c => c.toWatch = b.toWatch ∧ c.scheduler.samples = b.scheduler.samples ∧
      c.scheduler.checksums.Holds b.memory t.slots)
    (fun _ _ => True) := by
  rw [summed, Act.meets_bind, Act.meets_get]
  apply meets_onTable
  exact (Checksums.take_holds_meets _ _ _).mono (fun _ _ h => ⟨rfl, rfl, h⟩) fun _ _ _ _ => trivial

/-- Checksums are taken before the first baseline, and the room for samples stays. -/
theorem entered_meets : t.entered.Meets b (fun _ c => t.Filled 0 c) (t.Broken b) := by
  rw [entered, Act.meets_bind]
  refine ((Act.meets_self _ _).and reserved_meets).mono ?_ fun _ _ he => he.2
  rintro _ c ⟨hon, hfilled⟩
  rw [Act.meets_ite, Act.meets_pure]
  refine ⟨fun hv => ?_, fun _ => hfilled⟩
  refine ((Act.meets_self _ _).and summed_meets).mono ?_ ?_
  · rintro _ c' ⟨-, -, hsame, -⟩
    exact ⟨hsame ▸ hfilled.size, hsame ▸ hfilled.room⟩
  · exact fun e b' he => .inl ⟨.checksums, hv, c, hon, he.1⟩

theorem upTo_zero : t.upTo 0 = (do
    t.entered
    let _ ← onWatch (Watch.rebaseline t.options.drainTimeout)) := by
  rw [upTo, Bench.upTo, prepare, entered, reserved, cleared, summed]
  cases t.options.verify <;> simp [iterations]

theorem upTo_succ (i : Nat) : t.upTo (i + 1) = (do
    t.recorded i
    if t.options.verify then Bench.verify i t.slots) := by
  rw [upTo, Bench.upTo, iterations_add, iterations, iterations, iteration, recorded, restored,
    drained, called, upTo, Bench.upTo]
  simp only [bind_assoc, pure_bind, Nat.zero_add]
  cases t.options.verify <;> simp

variable {i : Nat}

theorem called_meets (hi : i < t.count)
    (h : (t.upTo i).Meets b (fun _ c => t.Filled i c) (t.Broken b)) :
    (t.called i).Meets b (fun _ c => t.Filled i c) (t.Broken b) := by
  rw [called, Act.meets_bind]
  refine ((Act.meets_self _ _).and h).mono ?_ fun _ _ he => he.2
  rintro _ c ⟨hon, hfilled⟩
  refine ((Act.meets_self _ _).and (call_ends _ _)).mono ?_ ?_
  · rintro _ c' ⟨-, -, hsame, -⟩
    exact ⟨hsame ▸ hfilled.size, hsame ▸ hfilled.room⟩
  · exact fun e b' he => .inr ⟨i, hi, c, hon, he.1⟩

theorem drained_meets (hi : i < t.count)
    (h : (t.called i).Meets b (fun _ c => t.Filled i c) (t.Broken b)) :
    (t.drained i).Meets b (fun _ c => t.Filled i c) (t.Broken b) := by
  rw [drained, Act.meets_bind]
  refine ((Act.meets_self _ _).and h).mono ?_ fun _ _ he => he.2
  rintro conclusion c ⟨hon, hfilled⟩
  rw [Act.meets_bind]
  refine (onWatch_meets _).mono ?_ ?_
  · rintro _ c' ⟨-, hsame, -⟩
    exact Act.meets_pure.mpr ⟨hsame ▸ hfilled.size, hsame ▸ hfilled.room⟩
  · exact fun e b' he => .inl ⟨.drain i, hi, c, Act.on_void_ok.mpr ⟨conclusion, hon⟩, he.1⟩

theorem restored_meets (hi : i < t.count)
    (h : (t.drained i).Meets b (fun _ c => t.Filled i c) (t.Broken b)) :
    (t.restored i).Meets b (fun _ c => t.Filled i c) (t.Broken b) := by
  rw [restored, Act.meets_bind]
  refine ((Act.meets_self _ _).and h).mono ?_ fun _ _ he => he.2
  rintro conclusion c ⟨hon, hfilled⟩
  rw [Act.meets_bind]
  refine (onWatch_meets _).mono ?_ ?_
  · rintro _ c' ⟨-, hsame, -⟩
    exact Act.meets_pure.mpr ⟨hsame ▸ hfilled.size, hsame ▸ hfilled.room⟩
  · intro e b' he
    exact .inl ⟨.restore i, hi, c, Act.on_void_ok.mpr ⟨conclusion, hon⟩,
      Act.on_void_error.mpr he.1⟩

theorem recorded_meets (hi : i < t.count)
    (h : (t.restored i).Meets b (fun _ c => t.Filled i c) (t.Broken b)) :
    (t.recorded i).Meets b (fun _ c => t.Filled (i + 1) c) (t.Broken b) := by
  rw [recorded, Act.meets_bind]
  refine h.mono ?_ fun _ _ he => he
  intro row c hfilled
  refine (Act.meets_of_ok (hfilled.push hi row)).mpr ⟨?_, hfilled.room⟩
  rw [Scheduler.size_record, hfilled.size, List.length_singleton]

theorem verify_keeps (slots : List Slot) : (Bench.verify i slots).Meets b
    (fun _ c => c = b ∧ b.scheduler.checksums.mismatch? b.memory slots = none)
    (fun e c => c = b ∧ ∃ region, e = .error (.failure (.restoreMismatch i region)) ∧
      b.scheduler.checksums.mismatch? b.memory slots = some region) := by
  simp only [Bench.verify, Act.meets_bind, Act.meets_get]
  split
  · next region h => exact Act.meets_fail.mpr ⟨rfl, region, rfl, h⟩
  · next h => exact Act.meets_pure.mpr ⟨rfl, h⟩

/-- Up to the start of each iteration a run has recorded a sample for each one before, unless it is
broken off. -/
theorem upTo_meets (hi : i ≤ t.count) :
    (t.upTo i).Meets b (fun _ c => t.Filled i c) (t.Broken b) := by
  induction i with
  | zero =>
    rw [upTo_zero, Act.meets_bind]
    refine ((Act.meets_self _ _).and entered_meets).mono ?_ fun _ _ he => he.2
    rintro _ c ⟨hon, hfilled⟩
    rw [Act.meets_bind]
    refine (onWatch_meets _).mono ?_ ?_
    · rintro _ c' ⟨-, hsame, -⟩
      exact Act.meets_pure.mpr ⟨hsame ▸ hfilled.size, hsame ▸ hfilled.room⟩
    · exact fun e b' he => .inl ⟨.baseline, trivial, c, hon, Act.on_void_error.mpr he.1⟩
  | succ i ih =>
    have hlt : i < t.count := hi
    have hrecorded := recorded_meets hlt
      (restored_meets hlt (drained_meets hlt (called_meets hlt (ih hlt.le))))
    rw [upTo_succ, Act.meets_bind]
    refine ((Act.meets_self _ _).and hrecorded).mono ?_ fun _ _ he => he.2
    rintro _ c ⟨hon, hfilled⟩
    rw [Act.meets_ite, Act.meets_pure]
    refine ⟨fun hv => ?_, fun _ => hfilled⟩
    refine ((Act.meets_self _ _).and (verify_keeps _)).mono ?_ ?_
    · rintro _ c' ⟨-, rfl, -⟩
      exact hfilled
    · exact fun e b' he => .inl ⟨.verify i, ⟨hlt, hv⟩, c, hon, he.1⟩

theorem loop_eq_upTo : t.loop = t.upTo t.count := Bench.loop_eq

/-- A run that is not broken off has a sample for each iteration. -/
theorem loop_meets : t.loop.Meets b (fun _ c => t.Filled t.count c) (t.Broken b) := by
  rw [loop_eq_upTo]
  exact upTo_meets le_rfl

/-- A duty that fails is reported for what it is, or ends the process. -/
theorem work_trouble (d : Duty) : (t.work d).Meets b (fun _ _ => True) fun e _ =>
    EndsProcess e ∨ ∃ cause, e = .error (.failure cause) ∧ d.Reports cause := by
  have hrearm {d : Duty} {e : Trouble Stop} (h : Unarmable e)
      (hd : ∀ page errno, d.Reports (.rearm page errno)) :
      EndsProcess e ∨ ∃ cause, e = .error (.failure cause) ∧ d.Reports cause :=
    h.imp_right fun ⟨page, errno, he⟩ => ⟨_, he, hd page errno⟩
  cases d with
  | samples =>
    refine (onTable_trouble _ _).mono (fun _ _ _ => trivial) fun _ _ h => ?_
    exact h.imp_right fun ⟨errno, he⟩ => ⟨_, he, trivial⟩
  | checksums =>
    rw [work, summed, Act.meets_bind, Act.meets_get]
    refine (onTable_trouble _ _).mono (fun _ _ _ => trivial) fun _ _ h => ?_
    exact h.imp_right fun ⟨errno, he⟩ => ⟨_, he, trivial⟩
  | baseline =>
    rw [work, Act.meets_bind, meets_onWatch]
    refine (Watch.rebaseline_trouble _).mono (fun _ _ _ => Act.meets_pure.mpr trivial) ?_
    rintro _ _ (h | ⟨inFlight, rfl⟩)
    · exact hrearm h fun _ _ => trivial
    · exact .inr ⟨_, rfl, trivial⟩
  | drain i =>
    rw [work, meets_onWatch]
    refine (Watch.drain_meets _).mono (fun _ _ _ => trivial) ?_
    rintro _ _ ⟨-, -, rfl⟩
    exact .inr ⟨_, rfl, trivial⟩
  | restore i =>
    rw [work, Act.meets_bind, meets_onWatch]
    exact (Watch.restore_trouble _).mono (fun _ _ _ => Act.meets_pure.mpr trivial)
      fun _ _ h => hrearm h fun _ _ => trivial
  | verify i =>
    refine (verify_keeps _).mono (fun _ _ _ => trivial) ?_
    rintro _ _ ⟨-, region, rfl, -⟩
    exact .inr ⟨_, rfl, rfl⟩

theorem Breaks.reports {d : Duty} {cause : Failure}
    (h : t.Breaks b d (.error (.failure cause)) b') : d.Reports cause := by
  obtain ⟨-, c, -, he⟩ := h
  rcases (work_trouble d).error he with hends | ⟨_, heq, hd⟩
  · exact absurd rfl (hends cause)
  · cases heq
    exact hd

theorem Perishes.endsProcess {e : Trouble Stop} (h : t.Perishes b e b') : EndsProcess e := by
  obtain ⟨-, -, c, -, he⟩ := h
  exact (call_ends _ _).error he

end Task
end Bench
end Rewind
