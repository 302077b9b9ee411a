import Rewind.Proofs.FaultLoop

/-! Turns of the fault loop. A turn leads the thread from where it polls or waits back to polling,
or to its end, and comes upon one thing on the way: an interruption, a wake-up with nothing to read,
a message, or the word to stop. What it comes upon determines all that the turn does. -/
namespace Rewind

open Monitor (Point State Thread)
open Tracking (Message)

namespace Kernel

/-- The script does not refuse the next call of a kind. -/
def Lets (k : Kernel) (call : Call) : Prop := ∀ errno, (k.ask call).1 ≠ some (.refuse errno)

theorem ask_ask_of_ne (k : Kernel) {call other : Call} (h : call ≠ other) :
    ((k.ask call).2.ask other).1 = (k.ask other).1 := by
  rw [Kernel.ask, count_ask_of_ne k h]
  rfl

theorem Lets.ask {k : Kernel} {call other : Call} (h : k.Lets other) (hne : call ≠ other) :
    (k.ask call).2.Lets other := by
  intro errno
  rw [ask_ask_of_ne k hne]
  exact h errno

end Kernel

namespace Monitor.Point

/-- The state that a step stores for others to see. -/
def stores? : Point → Option State
  | .registered => some .registered
  | .armed => some .armed
  | .listen => some .listening
  | .capturing _ => some .capturing
  | .unprotecting _ => some .unprotecting
  | .stop => some .stopped
  | .failed .. => some .failed
  | _ => none

/-- The thread polls anew, or has ended. -/
def EndsTurn : Point → Prop
  | .poll | .ended => True
  | _ => False

end Monitor.Point

namespace Watch

variable {w w₁ w' : Watch} {p q : Point} {next : Next}

theorem request_state_meets (act : Act Machine Errno Machine.Return) : (request act).Meets w
    (fun _ w' => w'.monitor.state = w.monitor.state) (fun _ _ => True) := by
  rw [meets_request]
  apply (Act.meets_true act w.toMachine).mono
  · exact fun _ _ _ => rfl
  · intro e m _
    cases e
    · trivial
    · rfl

/-- A step leaves the state that others see as it was, but for the one that it stores. -/
theorem perform_state_meets (w : Watch) (p : Point) : (perform p).Meets w
    (fun _ w' => w'.monitor.state = p.stores?.getD w.monitor.state) (fun _ _ => True) := by
  cases p with
  | register i =>
    simp only [perform, Act.meets_bind, Act.meets_get]
    split
    · exact Act.meets_pure.mpr rfl
    · simp only [Act.meets_bind]
      refine (request_state_meets _).mono (fun r w' hw' => ?_) fun _ _ _ => trivial
      split <;> exact Act.meets_pure.mpr hw'
  | guard i =>
    simp only [perform, Act.meets_bind, Act.meets_get]
    split
    · exact Act.meets_pure.mpr rfl
    · simp only [Act.meets_bind]
      refine (request_state_meets _).mono (fun r w' hw' => ?_) fun _ _ _ => trivial
      split <;> exact Act.meets_pure.mpr hw'
  | poll =>
    refine poll_meets.mono (fun next w' hw' => ?_) fun _ _ _ => trivial
    obtain ⟨q, -, -, rfl⟩ := hw'
    rfl
  | wait =>
    simp only [perform, Act.meets_bind, Act.meets_get, Act.meets_pure]
    rfl
  | read =>
    simp only [perform, read, Act.meets_bind, meets_onMachine_ask]
    split
    case h_4 =>
      rw [Act.meets_ite]
      exact ⟨fun _ => Act.meets_pure.mpr rfl, fun _ => meets_halt.mpr trivial⟩
    case h_6 =>
      simp only [Act.meets_bind, Act.meets_get]
      split
      · exact Act.meets_pure.mpr rfl
      · simp only [Act.meets_bind, meets_modifyMonitor, Act.meets_pure]
        rfl
    all_goals first | exact Act.meets_pure.mpr rfl | exact meets_halt.mpr trivial
  | capture page =>
    simp only [perform, capture, Act.meets_bind, Act.meets_get, Act.meets_attempt,
      Act.meets_focus, Act.meets_pure]
    apply (Act.meets_true _ _).mono
    · exact fun _ _ _ => rfl
    · intro e s _
      cases e
      · trivial
      · exact meets_halt.mpr trivial
  | release page =>
    simp only [perform, Act.meets_bind, Act.meets_faulty]
    refine ⟨fun span _ => ?_, fun _ _ => trivial⟩
    refine (request_state_meets _).mono (fun r w' hw' => ?_) fun _ _ _ => trivial
    split
    · exact Act.meets_pure.mpr hw'
    · exact meets_halt.mpr trivial
  | _ =>
    simp only [perform, Act.meets_bind, meets_setState, meets_modifyMonitor, Act.meets_pure]
    rfl

/-- Where a step leads to, at once or when its request has returned. -/
def Next.Leads (q : Point) : Next → Prop
  | .go p | .hold p => p = q
  | .block => False

theorem Next.leads_after (r : Machine.Return) (q : Point) : (Next.after r q).Leads q := by
  cases r <;> rfl

/-- The thread takes a step from one point to another. A request that is held back has returned when
the step is over. -/
inductive Advance : Watch → Point → Point → Watch → Prop
  | step {w w' : Watch} {p q : Point} {next : Next} (ht : w.monitor.thread = some ⟨p, false⟩)
      (hon : (perform p).on w = (.ok next, w')) (hq : next.Leads q) :
      Advance w p q (w'.went (.go q))

/-- The steps of one turn, each with the point that it starts from and the machine that it leaves. -/
inductive Turn : Watch → List (Point × Watch) → Watch → Prop
  | last {w w' : Watch} {p q : Point} (h : Advance w p q w') (he : q.EndsTurn) :
      Turn w [(p, w')] w'
  | more {w w₁ w' : Watch} {p q : Point} {steps : List (Point × Watch)} (h : Advance w p q w₁)
      (he : ¬q.EndsTurn) (hr : Turn w₁ steps w') : Turn w ((p, w₁) :: steps) w'

theorem Advance.state (h : Advance w p q w') :
    w'.monitor.state = p.stores?.getD w.monitor.state := by
  cases h with
  | @step v _ _ _ _ hon _ =>
    have hv : v.monitor.state = p.stores?.getD w.monitor.state := (perform_state_meets w p).ok hon
    exact hv

theorem Advance.unique {p' q' : Point} {w'' : Watch} (h : Advance w p q w')
    (h' : Advance w p' q' w'') : p' = p ∧ q' = q ∧ w'' = w' := by
  cases h with
  | @step v _ _ next ht hon hq =>
    cases h' with
    | @step v' _ _ next' ht' hon' hq' =>
      obtain rfl : p = p' := by simpa [ht] using ht'
      obtain ⟨rfl, rfl⟩ : next = next' ∧ v = v' := by simpa [hon] using hon'
      obtain rfl : q = q' := by
        cases next <;> first | exact hq.symm.trans hq' | exact hq.elim
      exact ⟨rfl, rfl, rfl⟩

/-- How a turn goes depends on nothing but the machine that it starts from. -/
theorem Turn.unique {steps steps' : List (Point × Watch)} {w'' : Watch} (h : Turn w steps w')
    (h' : Turn w steps' w'') : steps' = steps ∧ w'' = w' := by
  induction h generalizing steps' w'' with
  | last ha he =>
    cases h' with
    | last ha' =>
      obtain ⟨rfl, -, rfl⟩ := ha.unique ha'
      exact ⟨rfl, rfl⟩
    | more ha' he' =>
      obtain ⟨-, rfl, -⟩ := ha.unique ha'
      exact absurd he he'
  | more ha he _ ih =>
    cases h' with
    | last ha' he' =>
      obtain ⟨-, rfl, -⟩ := ha.unique ha'
      exact absurd he' he
    | more ha' _ hr' =>
      obtain ⟨rfl, -, rfl⟩ := ha.unique ha'
      obtain ⟨rfl, rfl⟩ := ih hr'
      exact ⟨rfl, rfl⟩

/-- What a turn comes upon. -/
inductive Round where
  | interrupted
  | nothing
  | message (m : Message)
  | stop
  deriving DecidableEq

namespace Round

/-- The page that a turn serves. Only a page fault that carries the mark of write protection asks for
one. -/
def served? : Round → Option Nat
  | .message m =>
    if m.event = Message.pageFault ∧ m.flags &&& 2 ≠ 0 then some (Page.floor m.address) else none
  | _ => none

/-- The states that a turn stores. -/
def stores : Round → List State
  | .stop => [.stopped]
  | r => if r.served?.isSome then [.capturing, .unprotecting, .listening] else [.listening]

/-- Where a turn leaves the thread. -/
def last : Round → Thread
  | .stop => ⟨.ended, false⟩
  | _ => ⟨.poll, false⟩

end Round

variable {r : Round} {inbox : Option Message} {steps : List (Point × Watch)}

theorem served?_message (m : Message) :
    (Round.message m).served? = m.writeFault?.map Page.floor := by
  unfold Message.writeFault?
  show (if _ then _ else _) = _
  split <;> rfl

theorem onMessage_of_served {m : Message} {page : Nat}
    (h : (Round.message m).served? = some page) : onMessage m = .go (.begin page) := by
  rw [served?_message, Option.map_eq_some_iff] at h
  obtain ⟨address, hfault, rfl⟩ := h
  simp only [onMessage, hfault]

theorem onMessage_of_not_served {m : Message}
    (h : (Round.message m).served? = none) : onMessage m = .go .listen := by
  rw [served?_message, Option.map_eq_none_iff] at h
  simp only [onMessage, h]

/-- The states that were stored on the way. -/
def stored (steps : List (Point × Watch)) : List State :=
  steps.filterMap fun s => s.1.stores?.map fun _ => s.2.monitor.state

/-- What others read after a step is so: a fault is in flight while the thread captures, none is when
it listens, and the monitor counts as armed until it stops. -/
structure Truthful (s : Point × Watch) : Prop where
  capturing : s.2.monitor.state = .capturing → s.2.monitor.inFlight = 1
  listening : s.1 = .listen → s.2.monitor.inFlight = 0
  armed : s.1 ≠ .stop → s.2.monitor.state.isArmed = true

/-- What a turn comes to that came upon this and left this message in the channel. -/
structure Turned (w : Watch) (r : Round) (inbox : Option Message) (steps : List (Point × Watch))
    (w' : Watch) : Prop where
  turn : Turn w steps w'
  stored : stored steps = r.stores
  truthful : ∀ s ∈ steps, Truthful s
  thread : w'.monitor.thread = some r.last
  state : r ≠ .stop → w'.monitor.state = .listening
  inbox : w'.monitor.inbox = inbox
  memory : w'.memory = r.served?.elim w.memory fun page => w.memory.mark (Page.number page) false
  captures : r.served?.elim (w'.monitor.snapshot = w.monitor.snapshot) fun page =>
    w.monitor.snapshot.Adds page (w.memory.read page Page.size) w'.monitor.snapshot
  whole : w'.monitor.snapshot.Whole
  handled : w'.monitor.handled = w.monitor.handled + r.served?.toList.length
  inFlight : w'.monitor.inFlight = 0

/-- The thread is about to take a step, and no fault is in flight. -/
structure Stands (w : Watch) (p : Point) : Prop where
  thread : w.monitor.thread = some ⟨p, false⟩
  inFlight : w.monitor.inFlight = 0
  whole : w.monitor.snapshot.Whole

theorem advance_of_on {w₁ : Watch} (ht : w.monitor.thread = some ⟨p, false⟩)
    (hon : (perform p).on w = (.ok (.go q), w₁)) (hw : w₁.went (.go q) = w') :
    Advance w p q w' :=
  hw ▸ .step ht hon rfl

theorem Round.stores_of_not_served (hs : r.served? = none) (hr : r ≠ .stop) :
    r.stores = [.listening] := by
  cases r <;> simp_all [Round.stores]

theorem Round.stores_of_served {page : Nat} (hs : r.served? = some page) :
    r.stores = [.capturing, .unprotecting, .listening] := by
  cases r <;> first | cases hs | simp [Round.stores, hs]

theorem Round.last_of_ne (hr : r ≠ .stop) : r.last = ⟨.poll, false⟩ := by
  cases r <;> first | rfl | exact absurd rfl hr

theorem turned_of_listen (h : w.Stands .listen) (hs : r.served? = none) (hr : r ≠ .stop) :
    ∃ steps w', Turned w r w.monitor.inbox steps w' := by
  refine ⟨_, _, .last (advance_of_on h.thread rfl rfl) trivial, ?_, ?_, ?_, fun _ => rfl, rfl, ?_, ?_,
    h.whole, ?_, h.inFlight⟩
  · rw [Round.stores_of_not_served hs hr]
    rfl
  · intro s hmem
    obtain rfl := List.mem_singleton.mp hmem
    exact ⟨nofun, fun _ => h.inFlight, fun _ => rfl⟩
  · rw [Round.last_of_ne hr]
    rfl
  · rw [hs]
    rfl
  · rw [hs]
    rfl
  · rw [hs]
    rfl

/-- A page can be captured and released. -/
structure Servable (w : Watch) (page : Nat) : Prop where
  captured : ∃ s, (Snapshot.capture Mapping.refusal w.memory page).on w.monitor.snapshot =
    (.ok (), s)
  released : ∃ span, Span.ofLength page Page.size = .ok span ∧
    (w.memory.setGuarded span false).1 = .ok ()
  lets : w.kernel.Lets .unprotect

theorem capture_advance {page : Nat} {s : Snapshot}
    (ht : w.monitor.thread = some ⟨.capture page, false⟩)
    (hs : (Snapshot.capture Mapping.refusal w.memory page).on w.monitor.snapshot = (.ok (), s)) :
    Advance w (.capture page) (.unprotecting page) (Watch.went
      { w with monitor := { w.monitor with snapshot := s } } (.go (.unprotecting page))) := by
  refine advance_of_on ht ?_ rfl
  rw [Act.on_eq_ok_iff]
  simp only [perform, capture, Act.meets_bind, Act.meets_get, Act.meets_attempt, Act.meets_focus,
    Act.meets_pure]
  exact (Act.meets_of_ok hs).mpr ⟨trivial, rfl⟩

theorem release_advance {n : Nat} (ht : w.monitor.thread = some ⟨.release (n * Page.size), false⟩)
    {span : Span} (hspan : Span.ofLength (n * Page.size) Page.size = .ok span)
    (hset : (w.memory.setGuarded span false).1 = .ok ()) (hl : w.kernel.Lets .unprotect) :
    Advance w (.release (n * Page.size)) .count (Watch.went { w with toMachine :=
      { w.toMachine.called .unprotect with memory := w.memory.mark n false } } (.go .count)) := by
  have hmark : w.memory.setGuarded span false = (.ok (), w.memory.mark n false) := by
    rcases w.memory.setGuarded_page false hspan with h | ⟨e, h⟩
    · exact h
    · rw [h] at hset
      cases hset
  have hleads := Next.leads_after (Machine.returnOf (w.kernel.ask .unprotect).1) .count
  refine .step ht ?_ hleads
  rw [Act.on_eq_ok_iff]
  simp only [perform, Act.meets_bind, Act.meets_faulty, hspan, meets_request]
  refine ⟨?_, by simp⟩
  rintro _ ⟨⟩
  apply Machine.requestMemory_meets.mono
  · intro returned m hpost
    obtain ⟨-, rfl, rfl⟩ := hpost
    simp only [hmark, Act.meets_pure]
    trivial
  · intro _ m hpost
    obtain ⟨errno, rfl, ⟨hask, -⟩ | ⟨herror, -⟩⟩ := hpost
    · exact absurd hask (hl errno)
    · rw [hmark] at herror
      cases herror

/-- A machine in the middle of a turn that serves a page. -/
def amid (w : Watch) (m : Machine) (s : Snapshot) (handled inFlight : Nat) (state : State)
    (p : Point) : Watch :=
  ⟨m, { w.monitor with snapshot := s, handled, inFlight, state, thread := some ⟨p, false⟩ }⟩

/-- A page that can be served is, in eight steps. -/
theorem turned_of_begin {page : Nat} (h : w.Stands (.begin page)) (hp : Page.IsAligned page)
    (harmed : w.monitor.state = .listening) (hs : w.Servable page) (hr : r.served? = some page) :
    ∃ steps w', Turned w r w.monitor.inbox steps w' := by
  obtain ⟨⟨s, hcapture⟩, ⟨span, hspan, hset⟩, hlets⟩ := hs
  obtain ⟨n, rfl⟩ := hp.exists_mul
  obtain ⟨hwhole, hadds⟩ := (Snapshot.capture_meets h.whole w.memory n).ok hcapture
  have hne : r ≠ .stop := by
    rintro rfl
    cases hr
  generalize hpage : n * Page.size = page at *
  let m : Machine := { w.toMachine.called .unprotect with memory := w.memory.mark n false }
  have hbegin : Advance w (.begin page) (.capturing page) (w.amid w.toMachine w.monitor.snapshot
      w.monitor.handled 1 .listening (.capturing page)) :=
    advance_of_on h.thread rfl (by rw [← harmed]; rfl)
  have hcapturing : Advance (w.amid w.toMachine w.monitor.snapshot w.monitor.handled 1
      .listening (.capturing page)) (.capturing page) (.capture page)
      (w.amid w.toMachine w.monitor.snapshot w.monitor.handled 1 .capturing (.capture page)) :=
    advance_of_on rfl rfl rfl
  have hcaptured : Advance (w.amid w.toMachine w.monitor.snapshot w.monitor.handled 1
      .capturing (.capture page)) (.capture page) (.unprotecting page)
      (w.amid w.toMachine s w.monitor.handled 1 .capturing (.unprotecting page)) :=
    capture_advance rfl hcapture
  have hunprotecting : Advance (w.amid w.toMachine s w.monitor.handled 1
      .capturing (.unprotecting page)) (.unprotecting page) (.release page)
      (w.amid w.toMachine s w.monitor.handled 1 .unprotecting (.release page)) :=
    advance_of_on rfl rfl rfl
  have hrelease : Advance (w.amid w.toMachine s w.monitor.handled 1
      .unprotecting (.release page)) (.release page) .count
      (w.amid m s w.monitor.handled 1 .unprotecting .count) := by
    subst hpage
    exact release_advance rfl hspan hset hlets
  have hcount : Advance (w.amid m s w.monitor.handled 1 .unprotecting .count) .count .finish
      (w.amid m s (w.monitor.handled + 1) 1 .unprotecting .finish) :=
    advance_of_on rfl rfl rfl
  have hfinish : Advance (w.amid m s (w.monitor.handled + 1) 1 .unprotecting .finish)
      .finish .listen (w.amid m s (w.monitor.handled + 1) 0 .unprotecting .listen) :=
    advance_of_on rfl rfl rfl
  have hlisten : Advance (w.amid m s (w.monitor.handled + 1) 0 .unprotecting .listen)
      .listen .poll (w.amid m s (w.monitor.handled + 1) 0 .listening .poll) :=
    advance_of_on rfl rfl rfl
  refine ⟨_, _, .more hbegin id <| .more hcapturing id <| .more hcaptured id <|
    .more hunprotecting id <| .more hrelease id <| .more hcount id <| .more hfinish id <|
    .last hlisten trivial, ?_, ?_, ?_, fun _ => rfl, rfl, ?_, ?_, hwhole, ?_, rfl⟩
  · rw [Round.stores_of_served hr]
    rfl
  · intro s hmem
    simp only [List.mem_cons, List.not_mem_nil, or_false] at hmem
    rcases hmem with rfl | rfl | rfl | rfl | rfl | rfl | rfl | rfl
    all_goals
      constructor
      · intro he
        first | rfl | cases he
      · intro he
        first | rfl | cases he
      · exact fun _ => rfl
  · rw [Round.last_of_ne hne]
    rfl
  · rw [hr, Option.elim_some, ← hpage, Page.number_mul]
    rfl
  · rw [hr]
    exact hadds
  · rw [hr]
    rfl

end Watch
end Rewind
