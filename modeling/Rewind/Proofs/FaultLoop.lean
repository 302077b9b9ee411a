import Rewind.Proofs.Captures
import Rewind.Proofs.Requests
import Rewind.Watch.Thread

/-! The fault loop, one step at a time. `LoopStep` says all that a step of the loop can do, whatever
the kernel answers; what holds of every run of the thread is read off its cases. -/
namespace Rewind

open Monitor (Point State Thread)

/-- The thread waits for a message or looks for one. -/
def Monitor.Point.IsWaiting : Point → Prop
  | .listen | .poll | .wait | .read => True
  | _ => False

/-- The point belongs to the fault loop, and a page that is served there starts on a boundary. -/
def Monitor.Point.InLoop : Point → Prop
  | .listen | .poll | .wait | .read | .count | .finish => True
  | .begin page | .capturing page | .capture page | .unprotecting page | .release page =>
    Page.IsAligned page
  | _ => False

namespace Watch

/-- What ends the process instead of being reported. -/
def EndsProcess (e : Trouble Stop) : Prop := ∀ cause, e ≠ .error (.failure cause)

theorem endsProcess_fault (f : Fault) : EndsProcess (.fault f) := nofun

/-- The process ends in a way that was provided for. -/
def Halts (e : Trouble Stop) : Prop := ∃ cause, e = .error (.halt cause)

theorem halts (cause : Halt) : Halts (.error (.halt cause)) := ⟨cause, rfl⟩

theorem Halts.endsProcess {e : Trouble Stop} (h : Halts e) : EndsProcess e := by
  obtain ⟨cause, rfl⟩ := h
  exact nofun

/-- One step of the fault loop: from which point, where it leads, and the machine it leaves. Apart
from what is named here a step changes only the tally of calls and the state that others see. -/
inductive LoopStep (w : Watch) : Point → Next → Watch → Prop
  | look {p q : Point} {k : Kernel} {s : State} (hp : p.IsWaiting) (hq : q.IsWaiting)
      (hk : k.rules = w.kernel.rules) :
      LoopStep w p (.go q) { w with kernel := k, monitor := { w.monitor with state := s } }
  | block (hi : w.monitor.inbox = none) : LoopStep w .wait .block w
  | stop (hs : w.monitor.stopSignalled = true) : LoopStep w .wait (.go .stop) w
  | take {m : Tracking.Message} {k : Kernel} (hi : w.monitor.inbox = some m)
      (hk : k.rules = w.kernel.rules) : LoopStep w .read (onMessage m)
        { w with kernel := k, monitor := { w.monitor with inbox := none } }
  | begin {page : Nat} : LoopStep w (.begin page) (.go (.capturing page))
      { w with monitor := { w.monitor with inFlight := 1 } }
  | capturing {page : Nat} : LoopStep w (.capturing page) (.go (.capture page))
      { w with monitor := { w.monitor with state := .capturing } }
  | capture {n : Nat} {s : Snapshot} (hw : s.Whole)
      (ha : w.monitor.snapshot.Adds (n * Page.size) (w.memory.read (n * Page.size) Page.size) s) :
      LoopStep w (.capture (n * Page.size)) (.go (.unprotecting (n * Page.size)))
        { w with monitor := { w.monitor with snapshot := s } }
  | unprotecting {page : Nat} : LoopStep w (.unprotecting page) (.go (.release page))
      { w with monitor := { w.monitor with state := .unprotecting } }
  | release {n : Nat} {r : Machine.Return} {k : Kernel} (hk : k.rules = w.kernel.rules)
      (hr : w.kernel.Grants .unprotect → r = .prompt) :
      LoopStep w (.release (n * Page.size)) (.after r .count)
        { w with kernel := k, memory := w.memory.mark n false }
  | count : LoopStep w .count (.go .finish)
      { w with monitor := { w.monitor with handled := w.monitor.handled + 1 } }
  | finish : LoopStep w .finish (.go .listen)
      { w with monitor := { w.monitor with inFlight := 0 } }

theorem LoopStep.rules {w w' : Watch} {p : Point} {next : Next} (h : w.LoopStep p next w') :
    w'.kernel.rules = w.kernel.rules := by cases h <;> first | rfl | assumption

/-- A thread is held only if the script holds back the request that releases a page. -/
theorem LoopStep.not_hold {w w' : Watch} {p q : Point} {next : Next} (h : w.LoopStep p next w')
    (hg : w.kernel.Grants .unprotect) : next ≠ .hold q := by
  cases h with
  | take => unfold onMessage; split <;> simp
  | release _ hr => rw [hr hg]; simp [Next.after]
  | _ => simp

theorem LoopStep.not_hold_of_isWaiting {w w' : Watch} {p q : Point} {next : Next}
    (h : w.LoopStep p next w') (hp : p.IsWaiting) : next ≠ .hold q := by
  cases h with
  | take => unfold onMessage; split <;> simp
  | release => exact hp.elim
  | _ => simp

theorem LoopStep.thread {w w' : Watch} {p : Point} {next : Next} (h : w.LoopStep p next w') :
    w'.monitor.thread = w.monitor.thread := by cases h <;> rfl

section
variable {w : Watch}

theorem capture_meets (hs : w.monitor.snapshot.Whole) (n : Nat) :
    (capture (n * Page.size)).Meets w
      (fun _ w' => ∃ s, w' = { w with monitor := { w.monitor with snapshot := s } } ∧ s.Whole ∧
        w.monitor.snapshot.Adds (n * Page.size) (w.memory.read (n * Page.size) Page.size) s)
      (fun e _ => EndsProcess e) := by
  simp only [capture, Act.meets_bind, Act.meets_get, Act.meets_attempt, Act.meets_focus]
  apply (Snapshot.capture_meets hs w.memory n).mono
  · intro _ s hpost
    obtain ⟨hw, ha⟩ := hpost
    exact Act.meets_pure.mpr ⟨s, rfl, hw, ha⟩
  · rintro (f | e) s -
    · exact endsProcess_fault f
    · exact meets_halt.mpr (halts _).endsProcess

theorem poll_meets : poll.Meets w
    (fun next w' => ∃ q : Point, next = .go q ∧ q.IsWaiting ∧
      w' = { w with toMachine := w.toMachine.called .poll })
    (fun e _ => Halts e) := by
  simp only [poll, Act.meets_bind, meets_onMachine_ask]
  split
  · exact Act.meets_pure.mpr ⟨.listen, rfl, trivial, rfl⟩
  · exact meets_halt.mpr (halts _)
  · simp only [onConditions, Act.meets_ite, Act.meets_pure]
    refine ⟨fun _ => meets_halt.mpr (halts _), fun _ => ?_⟩
    split
    · exact ⟨.listen, rfl, trivial, trivial⟩
    · exact ⟨.read, rfl, trivial, trivial⟩
  · exact Act.meets_pure.mpr ⟨.wait, rfl, trivial, rfl⟩

theorem onMessage_of_flags_zero (kind : UInt8) (address : Nat) :
    onMessage ⟨kind, 0, address⟩ = .go .listen := by
  simp [onMessage, Tracking.Message.writeFault?]

@[simp] theorem onMessage_heldWrite (address : Nat) :
    onMessage (.heldWrite address) = .go (.begin (Page.number address * Page.size)) := by
  simp only [onMessage, Tracking.Message.writeFault?_heldWrite, Page.floor_eq]

theorem read_meets : read.Meets w (LoopStep w .read) (fun e _ => Halts e) := by
  have hlook : LoopStep w .read (.go .listen) { w with toMachine := w.toMachine.called .read } :=
    .look trivial trivial rfl
  simp only [read, Act.meets_bind, meets_onMachine_ask]
  split
  · exact Act.meets_pure.mpr hlook
  · exact Act.meets_pure.mpr hlook
  · exact meets_halt.mpr (halts _)
  · simp only [Act.meets_ite, Act.meets_pure]
    exact ⟨fun _ => hlook, fun _ => meets_halt.mpr (halts _)⟩
  · rw [onMessage_of_flags_zero]
    exact Act.meets_pure.mpr hlook
  · simp only [Act.meets_bind, Act.meets_get]
    split
    · exact Act.meets_pure.mpr hlook
    · next m hm =>
      simp only [Act.meets_bind, meets_modifyMonitor, Act.meets_pure]
      exact .take hm rfl

theorem release_meets {page : Nat} (hp : Page.IsAligned page) : (perform (.release page)).Meets w
    (LoopStep w (.release page)) (fun e _ => EndsProcess e) := by
  simp only [perform, Act.meets_bind, Act.meets_faulty, meets_request]
  refine ⟨fun span hspan => ?_, fun _ _ => endsProcess_fault _⟩
  apply Machine.requestMemory_meets.mono
  · intro r m hpost
    obtain ⟨hok, hr, rfl⟩ := hpost
    obtain ⟨n, rfl⟩ := hp.exists_mul
    rcases Memory.setGuarded_page w.memory false hspan with h | ⟨e, h⟩
    · simp only [h, Act.meets_pure]
      refine .release rfl fun hg => ?_
      rw [hr, hg.ask, Machine.returnOf_none]
    · simp [h] at hok
  · intro _ m hpost
    obtain ⟨errno, rfl, -⟩ := hpost
    exact meets_halt.mpr (halts _).endsProcess

end

theorem perform_waiting_meets {w : Watch} {p : Point} (hp : p.IsWaiting) :
    (perform p).Meets w (LoopStep w p) (fun e _ => Halts e) := by
  cases p with
  | listen =>
    simp only [perform, Act.meets_bind, meets_setState, Act.meets_pure]
    exact .look trivial trivial rfl
  | poll =>
    refine poll_meets.mono ?_ fun _ _ h => h
    intro _ _ hpost
    obtain ⟨q, rfl, hq, rfl⟩ := hpost
    exact .look trivial hq rfl
  | wait =>
    simp only [perform, Act.meets_bind, Act.meets_get, Act.meets_pure]
    split
    · next hstop => exact .stop hstop
    · cases hi : w.monitor.inbox with
      | none => exact .block hi
      | some m => exact .look trivial trivial rfl
  | read => exact read_meets
  | _ => exact hp.elim

/-- Every step of the loop is one of `LoopStep`, or the end of the process. -/
theorem perform_meets {w : Watch} {p : Point} (hs : w.monitor.snapshot.Whole) (hp : p.InLoop) :
    (perform p).Meets w (LoopStep w p) (fun e _ => EndsProcess e) := by
  cases p with
  | listen | poll | wait | read =>
    refine (perform_waiting_meets ?_).mono (fun _ _ h => h) fun _ _ h => h.endsProcess
    trivial
  | begin page =>
    simp only [perform, Act.meets_bind, meets_modifyMonitor, Act.meets_pure]
    exact .begin
  | capturing page =>
    simp only [perform, Act.meets_bind, meets_setState, Act.meets_pure]
    exact .capturing
  | capture page =>
    obtain ⟨n, rfl⟩ := Page.IsAligned.exists_mul hp
    simp only [perform, Act.meets_bind, Act.meets_pure]
    refine (capture_meets hs n).mono ?_ fun _ _ h => h
    intro _ _ hpost
    obtain ⟨s, rfl, hw, ha⟩ := hpost
    exact .capture hw ha
  | unprotecting page =>
    simp only [perform, Act.meets_bind, meets_setState, Act.meets_pure]
    exact .unprotecting
  | release page => exact release_meets hp
  | count =>
    simp only [perform, Act.meets_bind, meets_modifyMonitor, Act.meets_pure]
    exact .count
  | finish =>
    simp only [perform, Act.meets_bind, meets_modifyMonitor, Act.meets_pure]
    exact .finish
  | _ => exact hp.elim

/-- The machine after the thread has noted where a step led. -/
def went (w : Watch) : Next → Watch
  | .go q => { w with monitor := { w.monitor with thread := some ⟨q, false⟩ } }
  | .hold q => { w with monitor := { w.monitor with thread := some ⟨q, true⟩ } }
  | .block => w

@[simp] theorem toMachine_went (w : Watch) (next : Next) :
    (w.went next).toMachine = w.toMachine := by cases next <;> rfl

@[simp] theorem snapshot_went (w : Watch) (next : Next) :
    (w.went next).monitor.snapshot = w.monitor.snapshot := by cases next <;> rfl

/-- A run of the thread is a step and, unless that held the thread or found nothing to do, the run
from there. -/
theorem serveFor_succ_meets {w : Watch} {p : Point} {n : Nat} {post : Unit → Watch → Prop}
    {trouble : Trouble Stop → Watch → Prop} (ht : w.monitor.thread = some ⟨p, false⟩) :
    (serveFor (n + 1)).Meets w post trouble ↔ (perform p).Meets w
      (fun next w' => match next with
        | .go _ => (serveFor n).Meets (w'.went next) post trouble
        | .hold _ | .block => post () (w'.went next)) trouble := by
  have hnext (next : Next) (w' : Watch) : (match next with
      | .go q => do
        setThread q false
        serveFor n
      | .hold q => setThread q true
      | .block => pure () : Op Unit).Meets w' post trouble ↔ match next with
        | .go _ => (serveFor n).Meets (w'.went next) post trouble
        | .hold _ | .block => post () (w'.went next) := by
    cases next with
    | go q =>
      simp only [setThread, Act.meets_bind, meets_modifyMonitor]
      rfl
    | hold q =>
      simp only [setThread, meets_modifyMonitor]
      rfl
    | block => exact Act.meets_pure
  simp only [serveFor, Act.meets_bind, Act.meets_get, ht]
  exact ⟨fun h => h.mono (fun next w' => (hnext next w').mp) fun _ _ he => he,
    fun h => h.mono (fun next w' => (hnext next w').mpr) fun _ _ he => he⟩

/-- What every step of the thread keeps, a run of steps keeps. -/
theorem serveFor_meets {I : Watch → Prop} {trouble : Trouble Stop → Watch → Prop}
    (step : ∀ w p, I w → w.monitor.thread = some ⟨p, false⟩ →
      (perform p).Meets w (fun next w' => I (w'.went next)) trouble) (n : Nat) {w : Watch}
    (h : I w) : (serveFor n).Meets w (fun _ => I) trouble := by
  induction n generalizing w with
  | zero => exact Act.meets_pure.mpr h
  | succ n ih =>
    simp only [serveFor, Act.meets_bind, Act.meets_get]
    split
    · next p hp =>
      simp only [Act.meets_bind]
      refine (step w p h hp).mono ?_ fun _ _ ht => ht
      rintro (q | q | _) w' hw'
      · simp only [setThread, Act.meets_bind, meets_modifyMonitor]
        exact ih hw'
      · simp only [setThread, meets_modifyMonitor]
        exact hw'
      · exact Act.meets_pure.mpr hw'
    · exact Act.meets_pure.mpr h

theorem serve_meets {I : Watch → Prop} {trouble : Trouble Stop → Watch → Prop}
    (step : ∀ w p, I w → w.monitor.thread = some ⟨p, false⟩ →
      (perform p).Meets w (fun next w' => I (w'.went next)) trouble) {w : Watch} (h : I w) :
    serve.Meets w (fun _ => I) trouble := by
  simp only [serve, Act.meets_bind, Act.meets_get]
  exact serveFor_meets step _ h

end Rewind.Watch
