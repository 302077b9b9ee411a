import Rewind.Proofs.Turns

/-! What a turn of the fault loop comes upon. The script of the kernel, the channel and the word to
stop decide it together, and they decide with it all that the turn does. -/
namespace Rewind

open Monitor (Point State)
open Tracking (Message)

namespace Watch

variable {w w' : Watch} {p q : Point} {r : Round} {inbox : Option Message}
  {steps : List (Point × Watch)}

/-- A step that only looks for something to do. -/
structure Looks (w w' : Watch) : Prop where
  memory : w'.memory = w.memory
  snapshot : w'.monitor.snapshot = w.monitor.snapshot
  handled : w'.monitor.handled = w.monitor.handled
  inFlight : w'.monitor.inFlight = w.monitor.inFlight
  state : w'.monitor.state = w.monitor.state
  lets : w.kernel.Lets .unprotect → w'.kernel.Lets .unprotect

theorem Turned.after {w₁ : Watch} (ht : Turned w₁ r inbox steps w') (ha : Advance w p q w₁)
    (hq : ¬q.EndsTurn) (hp : p.IsWaiting) (hl : p ≠ .listen) (hlooks : Looks w w₁)
    (h : w.Stands p) (harmed : w.monitor.state = .listening) :
    Turned w r inbox ((p, w₁) :: steps) w' := by
  have hnone : p.stores? = none := by
    cases p <;> first | rfl | exact hp.elim | exact absurd rfl hl
  refine ⟨.more ha hq ht.turn, ?_, ?_, ht.thread, ht.state, ht.inbox, ?_, ?_, ht.whole, ?_,
    ht.inFlight⟩
  · rw [← ht.stored, Watch.stored, List.filterMap_cons, hnone]
    rfl
  · rw [List.forall_mem_cons]
    refine ⟨⟨fun hs => ?_, fun hs => absurd hs hl, fun _ => ?_⟩, ht.truthful⟩
    · rw [hlooks.state, harmed] at hs
      cases hs
    · rw [hlooks.state, harmed]
      rfl
  · rw [ht.memory, hlooks.memory]
  · have hcaptures := ht.captures
    rwa [hlooks.memory, hlooks.snapshot] at hcaptures
  · rw [ht.handled, hlooks.handled]

/-- What a read gives, and the message that it leaves in the channel. The script may refuse to read
for now or make up a message without any mark; the rest is up to the channel. -/
inductive Reads (w : Watch) : Round → Option Message → Prop
  | again (h : (w.kernel.ask .read).1 = some (.refuse .again) ∨
      (w.kernel.ask .read).1 = some (.refuse .intr)) : Reads w .nothing w.monitor.inbox
  | empty (h : (w.kernel.ask .read).1 = none) (hi : w.monitor.inbox = none) :
      Reads w .nothing none
  | blank (h : (w.kernel.ask .read).1 = some (.short messageSize)) :
      Reads w (.message ⟨0, 0, 0⟩) w.monitor.inbox
  | made {kind : UInt8} (h : (w.kernel.ask .read).1 = some (.event kind)) :
      Reads w (.message ⟨kind, 0, 0⟩) w.monitor.inbox
  | taken {m : Message} (h : (w.kernel.ask .read).1 = none) (hi : w.monitor.inbox = some m) :
      Reads w (.message m) none

/-- The thread goes on to read: it is told to, or sees a message while it was not told to stop. -/
inductive Wakes (w : Watch) : Point → Prop
  | told {bits : Nat} (h : (w.kernel.ask .poll).1 = some (.conditions bits))
      (hb : bits &&& brokenConditions = 0) (hr : bits &&& 1 ≠ 0) : Wakes w .poll
  | polled (h : (w.kernel.ask .poll).1 = none) (hs : w.monitor.stopSignalled = false)
      (hi : w.monitor.inbox.isSome = true) : Wakes w .poll
  | waiting (hs : w.monitor.stopSignalled = false) (hi : w.monitor.inbox.isSome = true) :
      Wakes w .wait
  | reading : Wakes w .read

/-- What the machine offers to a thread that polls, waits or reads, and the message that is left in
the channel. -/
inductive Offers (w : Watch) : Point → Round → Option Message → Prop
  | interrupted (h : (w.kernel.ask .poll).1 = some (.refuse .intr)) :
      Offers w .poll .interrupted w.monitor.inbox
  | idle {bits : Nat} (h : (w.kernel.ask .poll).1 = some (.conditions bits))
      (hb : bits &&& brokenConditions = 0) (hr : bits &&& 1 = 0) :
      Offers w .poll .nothing w.monitor.inbox
  | polled (h : (w.kernel.ask .poll).1 = none) (hs : w.monitor.stopSignalled = true) :
      Offers w .poll .stop w.monitor.inbox
  | waiting (hs : w.monitor.stopSignalled = true) : Offers w .wait .stop w.monitor.inbox
  | reads {p : Point} {r : Round} {inbox : Option Message} (hw : w.Wakes p)
      (hr : w.Reads r inbox) : Offers w p r inbox

/-- The machine after a call that only looked, from where the thread goes on to another point. -/
def looked (w : Watch) (call : Kernel.Call) (inbox : Option Message) (q : Point) : Watch :=
  Watch.went { w with
    toMachine := w.toMachine.called call
    monitor := { w.monitor with inbox := inbox } } (.go q)

theorem looks_looked {call : Kernel.Call} (hc : call ≠ .unprotect) (inbox : Option Message)
    (q : Point) : Looks w (w.looked call inbox q) :=
  ⟨rfl, rfl, rfl, rfl, rfl, fun h => h.ask hc⟩

theorem looks_went (w : Watch) (q : Point) : Looks w (w.went (.go q)) :=
  ⟨rfl, rfl, rfl, rfl, rfl, id⟩

theorem Stands.of_looks {w₁ : Watch} (h : w.Stands p) (hl : Looks w w₁)
    (ht : w₁.monitor.thread = some ⟨q, false⟩) : w₁.Stands q :=
  ⟨ht, hl.inFlight.trans h.inFlight, by rw [hl.snapshot]; exact h.whole⟩

theorem Servable.of_looks {w₁ : Watch} {page : Nat} (h : w.Servable page) (hl : Looks w w₁) :
    w₁.Servable page := by
  obtain ⟨hcaptured, hreleased, hlets⟩ := h
  refine ⟨?_, ?_, hl.lets hlets⟩
  · rw [hl.memory, hl.snapshot]
    exact hcaptured
  · rw [hl.memory]
    exact hreleased

theorem Reads.of_eq {w₁ : Watch} (h : w.Reads r inbox)
    (hask : (w₁.kernel.ask .read).1 = (w.kernel.ask .read).1)
    (hi : w₁.monitor.inbox = w.monitor.inbox) : w₁.Reads r inbox := by
  cases h with
  | again h => exact hi ▸ .again (hask ▸ h)
  | empty h hnone => exact .empty (hask ▸ h) (hi.trans hnone)
  | blank h => exact hi ▸ .blank (hask ▸ h)
  | made h => exact hi ▸ .made (hask ▸ h)
  | taken h hsome => exact .taken (hask ▸ h) (hi.trans hsome)

theorem turned_of_onMessage {m : Message} (h : w.Stands .read)
    (harmed : w.monitor.state = .listening)
    (hon : (perform .read).on w = (.ok (onMessage m), { w with
      toMachine := w.toMachine.called .read
      monitor := { w.monitor with inbox := inbox } }))
    (hs : ∀ page, (Round.message m).served? = some page → w.Servable page) :
    ∃ steps w', Turned w (.message m) inbox steps w' := by
  have hread : Kernel.Call.read ≠ .unprotect := by decide
  cases hserved : (Round.message m).served? with
  | none =>
    rw [onMessage_of_not_served hserved] at hon
    have hlooks : Looks w (w.looked .read inbox .listen) := looks_looked hread _ _
    have hlisten := turned_of_listen (h.of_looks hlooks rfl) hserved nofun
    obtain ⟨steps, w', ht⟩ := hlisten
    exact ⟨_, _, ht.after (advance_of_on h.thread hon rfl) id trivial nofun hlooks h harmed⟩
  | some page =>
    rw [onMessage_of_served hserved] at hon
    have hlooks : Looks w (w.looked .read inbox (.begin page)) := looks_looked hread _ _
    have haligned : Page.IsAligned page := by
      rw [served?_message, Option.map_eq_some_iff] at hserved
      obtain ⟨address, -, rfl⟩ := hserved
      exact Page.isAligned_floor address
    have hbegin := turned_of_begin (h.of_looks hlooks rfl) haligned
      (hlooks.state.trans harmed) ((hs page hserved).of_looks hlooks) hserved
    obtain ⟨steps, w', ht⟩ := hbegin
    exact ⟨_, _, ht.after (advance_of_on h.thread hon rfl) id trivial nofun hlooks h harmed⟩

theorem turned_of_reads (h : w.Stands .read) (harmed : w.monitor.state = .listening)
    (hr : w.Reads r inbox) (hs : ∀ page, r.served? = some page → w.Servable page) :
    ∃ steps w', Turned w r inbox steps w' := by
  have hnothing (hon : (perform .read).on w =
      (.ok (.go .listen), { w with toMachine := w.toMachine.called .read })) :
      ∃ steps w', Turned w .nothing w.monitor.inbox steps w' := by
    have hlooks : Looks w (w.looked .read w.monitor.inbox .listen) := looks_looked (by decide) _ _
    obtain ⟨steps, w', ht⟩ := turned_of_listen (h.of_looks hlooks rfl) (r := .nothing) rfl nofun
    exact ⟨_, _, ht.after (advance_of_on h.thread hon rfl) id trivial nofun hlooks h harmed⟩
  cases hr with
  | again hask =>
    apply hnothing
    rw [Act.on_eq_ok_iff]
    rcases hask with hask | hask <;>
      simp only [perform, read, Act.meets_bind, meets_onMachine_ask, hask, Act.meets_pure] <;>
      trivial
  | empty hask hi =>
    rw [← hi]
    apply hnothing
    rw [Act.on_eq_ok_iff]
    simp only [perform, read, Act.meets_bind, meets_onMachine_ask, hask, Act.meets_get, hi,
      Act.meets_pure]
    trivial
  | blank hask =>
    refine turned_of_onMessage h harmed ?_ hs
    rw [Act.on_eq_ok_iff, onMessage_of_flags_zero]
    simp only [perform, read, Act.meets_bind, meets_onMachine_ask, hask, if_pos, Act.meets_pure]
    trivial
  | made hask =>
    refine turned_of_onMessage h harmed ?_ hs
    rw [Act.on_eq_ok_iff]
    simp only [perform, read, Act.meets_bind, meets_onMachine_ask, hask, Act.meets_pure]
    trivial
  | taken hask hi =>
    refine turned_of_onMessage h harmed ?_ hs
    rw [Act.on_eq_ok_iff]
    simp only [perform, read, Act.meets_bind, meets_onMachine_ask, hask, Act.meets_get, hi,
      meets_modifyMonitor, Act.meets_pure]
    trivial

theorem turned_of_wait (h : w.Stands .wait) (harmed : w.monitor.state = .listening)
    (ho : w.Offers .wait r inbox) (hs : ∀ page, r.served? = some page → w.Servable page) :
    ∃ steps w', Turned w r inbox steps w' := by
  have hwait : (perform .wait).on w = (.ok (if w.monitor.stopSignalled then .go .stop
      else if w.monitor.inbox.isSome then .go .read else .block), w) := rfl
  cases ho with
  | waiting hstop =>
    rw [if_pos hstop] at hwait
    have hstopped : Advance (w.went (.go .stop)) .stop .ended _ := advance_of_on rfl rfl rfl
    refine ⟨_, _, .more (advance_of_on h.thread hwait rfl) id (.last hstopped trivial), rfl, ?_,
      rfl, fun he => absurd rfl he, rfl, rfl, rfl, h.whole, rfl, h.inFlight⟩
    intro s hmem
    simp only [List.mem_cons, List.not_mem_nil, or_false] at hmem
    rcases hmem with rfl | rfl
    · refine ⟨fun he => ?_, nofun, fun _ => ?_⟩
      · exact absurd (harmed.symm.trans he) (by decide)
      · show w.monitor.state.isArmed = true
        rw [harmed]
        rfl
    · exact ⟨nofun, nofun, fun he => absurd rfl he⟩
  | reads hw hr =>
    cases hw with
    | waiting hstop hi =>
      rw [if_neg (by simp [hstop]), if_pos hi] at hwait
      have hlooks : Looks w (w.went (.go .read)) := looks_went w .read
      have hread : (w.went (.go .read)).Reads r inbox := hr.of_eq rfl rfl
      obtain ⟨steps, w', ht⟩ := turned_of_reads (h.of_looks hlooks rfl)
        (hlooks.state.trans harmed) hread fun page hp => (hs page hp).of_looks hlooks
      exact ⟨_, _, ht.after (advance_of_on h.thread hwait rfl) id trivial nofun hlooks h harmed⟩

theorem Turned.after_poll {steps : List (Point × Watch)}
    (ht : Turned (w.looked .poll w.monitor.inbox q) r inbox steps w') (h : w.Stands .poll)
    (harmed : w.monitor.state = .listening) (hq : ¬q.EndsTurn)
    (hon : (perform .poll).on w =
      (.ok (.go q), { w with toMachine := w.toMachine.called .poll })) :
    ∃ steps w', Turned w r inbox steps w' :=
  ⟨_, _, ht.after (advance_of_on h.thread hon rfl) hq trivial nofun (looks_looked (by decide) _ _)
    h harmed⟩

theorem perform_poll_of_conditions {bits : Nat}
    (h : (w.kernel.ask .poll).1 = some (.conditions bits)) (hb : bits &&& brokenConditions = 0) :
    (perform .poll).on w = (.ok (.go (if bits &&& 1 = 0 then .listen else .read)),
      { w with toMachine := w.toMachine.called .poll }) := by
  rw [Act.on_eq_ok_iff]
  simp only [perform, poll, Act.meets_bind, meets_onMachine_ask, h, onConditions, hb, ne_eq,
    not_true, if_false, Act.meets_pure]
  trivial

theorem perform_poll_of_none (h : (w.kernel.ask .poll).1 = none) : (perform .poll).on w =
    (.ok (.go .wait), { w with toMachine := w.toMachine.called .poll }) := by
  rw [Act.on_eq_ok_iff]
  simp only [perform, poll, Act.meets_bind, meets_onMachine_ask, h, Act.meets_pure]
  trivial

theorem turned_of_poll (h : w.Stands .poll) (harmed : w.monitor.state = .listening)
    (ho : w.Offers .poll r inbox) (hs : ∀ page, r.served? = some page → w.Servable page) :
    ∃ steps w', Turned w r inbox steps w' := by
  have hlooks (q : Point) : Looks w (w.looked .poll w.monitor.inbox q) :=
    looks_looked (by decide) _ _
  have hstands (q : Point) : (w.looked .poll w.monitor.inbox q).Stands q :=
    h.of_looks (hlooks q) rfl
  have hserve (q : Point) (page : Nat) (hp : r.served? = some page) :
      (w.looked .poll w.monitor.inbox q).Servable page := (hs page hp).of_looks (hlooks q)
  have hask (q : Point) : ((w.looked .poll w.monitor.inbox q).kernel.ask .read).1 =
      (w.kernel.ask .read).1 := w.kernel.ask_ask_of_ne (by decide)
  cases ho with
  | interrupted hpoll =>
    obtain ⟨steps, w', ht⟩ := turned_of_listen (hstands .listen) (r := .interrupted) rfl (by simp)
    refine ht.after_poll h harmed id ?_
    rw [Act.on_eq_ok_iff]
    simp only [perform, poll, Act.meets_bind, meets_onMachine_ask, hpoll, Act.meets_pure]
    trivial
  | idle hpoll hb hr =>
    obtain ⟨steps, w', ht⟩ := turned_of_listen (hstands .listen) (r := .nothing) rfl (by simp)
    refine ht.after_poll h harmed id ?_
    rw [perform_poll_of_conditions hpoll hb, if_pos hr]
  | polled hpoll hstop =>
    have hwait := turned_of_wait (hstands .wait) harmed (.waiting hstop) (by rintro _ ⟨⟩)
    obtain ⟨steps, w', ht⟩ := hwait
    exact ht.after_poll h harmed id (perform_poll_of_none hpoll)
  | reads hw hr =>
    cases hw with
    | told hpoll hb hbit =>
      have hread := turned_of_reads (hstands .read) harmed (hr.of_eq (hask .read) rfl)
        (hserve .read)
      obtain ⟨steps, w', ht⟩ := hread
      refine ht.after_poll h harmed id ?_
      rw [perform_poll_of_conditions hpoll hb, if_neg hbit]
    | polled hpoll hstop hi =>
      have hwait := turned_of_wait (hstands .wait) harmed
        (.reads (.waiting hstop hi) (hr.of_eq (hask .wait) rfl)) (hserve .wait)
      obtain ⟨steps, w', ht⟩ := hwait
      exact ht.after_poll h harmed id (perform_poll_of_none hpoll)

/-- Whatever the machine offers, the thread takes a turn, and its effect is that of what it came
upon. -/
theorem turned_of_offers (h : w.Stands p) (harmed : w.monitor.state = .listening)
    (ho : w.Offers p r inbox) (hs : ∀ page, r.served? = some page → w.Servable page) :
    ∃ steps w', Turned w r inbox steps w' := by
  cases p with
  | poll => exact turned_of_poll h harmed ho hs
  | wait => exact turned_of_wait h harmed ho hs
  | read =>
    cases ho with
    | reads hw hr => exact turned_of_reads h harmed hr hs
  | _ =>
    cases ho with
    | reads hw hr => cases hw

end Watch
end Rewind
