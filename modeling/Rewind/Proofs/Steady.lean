import Rewind.Proofs.Arms
import Rewind.Proofs.Refusals

/-! Monitors between two calls, whatever the calls before came to. A thread may be missing, held,
told to stop or at its end, and captured pages may be guarded; all the same, a writer that gets past
a guarded page has had that page captured, and nothing else of the memory has changed. -/
namespace Rewind

open Monitor (Point State Thread)
open Tracking (Message)

namespace Monitor

namespace Point

/-- The thread has yet to track or to guard regions. -/
def Enlists : Point → Prop
  | .register _ | .registered | .guard _ => True
  | _ => False

/-- The thread is done with its setup and has no page in hand. -/
structure IsVacant (p : Point) : Prop where
  served : p.served? = none
  enlists : ¬p.Enlists

theorem IsVacant.inSetup_or_isIdle {p : Point} (h : p.IsVacant) : p.InSetup ∨ p.IsIdle := by
  obtain ⟨served, -⟩ := h
  cases p with
  | listen | poll | wait | read | count | finish => exact .inr trivial
  | begin | capturing | capture | unprotecting | release => cases served
  | _ => exact .inl trivial

end Point

/-- The thread has no page in hand, and is held if it has yet to track or to guard regions. -/
structure Thread.Rests (t : Thread) : Prop where
  served : t.next.served? = none
  held : t.next.Enlists → t.held = true

theorem Point.IsVacant.rests {p : Point} (h : p.IsVacant) (held : Bool) : Thread.Rests ⟨p, held⟩ :=
  ⟨h.served, fun hp => absurd hp h.enlists⟩

theorem Thread.Rests.isVacant {p : Point} (h : Thread.Rests ⟨p, false⟩) : p.IsVacant :=
  ⟨h.served, fun hp => Bool.false_ne_true (h.held hp)⟩

/-- A monitor between two calls. No message waits, and what is captured are whole pages. -/
structure Steady (m : Monitor) : Prop where
  whole : m.snapshot.Whole
  usable : ∀ page ∈ m.snapshot.addresses.items, Page.Usable page
  inbox : m.inbox = none
  thread : ∀ t, m.thread = some t → t.Rests

end Monitor

/-- No request to guard was put between these two, which follow the same script. -/
structure Kernel.Spares (k k' : Kernel) : Prop where
  rules : k'.rules = k.rules
  count : k'.count .protect = k.count .protect

theorem Kernel.spares_refl (k : Kernel) : k.Spares k := ⟨rfl, rfl⟩

theorem Kernel.spares_ask (k : Kernel) {call : Call} (h : call ≠ .protect) :
    k.Spares (k.ask call).2 := ⟨rfl, k.count_ask_of_ne h⟩

theorem Kernel.Spares.trans {k k' k'' : Kernel} (h : k.Spares k') (h' : k'.Spares k'') :
    k.Spares k'' := ⟨h'.rules.trans h.rules, h'.count.trans h.count⟩

theorem Kernel.Spares.answerAfter {k k' : Kernel} (h : k.Spares k') (i : Nat) :
    k'.answerAfter .protect i = k.answerAfter .protect i := by
  unfold Kernel.answerAfter
  rw [h.rules, h.count]

namespace Watch

variable {w w₁ w' : Watch} {p : Point} {next : Next}

/-- A step of a thread without a page in hand leads on, takes a message, or waits. -/
inductive Idles (w : Watch) : Next → Watch → Prop
  | goes {q : Point} {w' : Watch} (hq : q.IsVacant) (hm : w'.memory = w.memory)
      (hs : w'.monitor.snapshot = w.monitor.snapshot) (hi : w'.monitor.inbox = w.monitor.inbox) :
      Idles w (.go q) w'
  | takes {m : Message} {w' : Watch} (hm : w'.memory = w.memory)
      (hs : w'.monitor.snapshot = w.monitor.snapshot) (hi : w.monitor.inbox = some m)
      (hnone : w'.monitor.inbox = none) : Idles w (onMessage m) w'
  | blocks : Idles w .block w

theorem perform_vacant_meets (hw : w.monitor.snapshot.Whole) (hp : p.IsVacant) :
    (perform p).Meets w (Idles w) (fun e _ => EndsProcess e) := by
  rcases hp.inSetup_or_isIdle with hsetup | hidle
  · refine (perform_setup_meets hsetup).mono ?_ fun _ _ he => he.elim
    intro next w' hs
    cases hs with
    | @through g => cases g <;> exact absurd trivial hp.enlists
    | @enlist g => cases g <;> exact absurd trivial hp.enlists
    | @refuse g => cases g <;> exact absurd trivial hp.enlists
    | registered => exact absurd trivial hp.enlists
    | ended => exact .blocks
    | _ => exact .goes ⟨rfl, id⟩ rfl rfl rfl
  · refine (perform_meets hw hidle.inLoop).mono ?_ fun _ _ he => he
    intro next w' hs
    cases hs with
    | @look _ q _ _ _ hq _ =>
      refine .goes ⟨?_, ?_⟩ rfl rfl rfl <;> cases q <;> first | exact hq.elim | trivial | exact id
    | block => exact .blocks
    | take hi => exact .takes rfl rfl hi rfl
    | stop | count | finish => exact .goes ⟨rfl, id⟩ rfl rfl rfl
    | _ => exact hidle.elim

/-- Only the setup asks for regions to be guarded. -/
theorem perform_spares_meets (hp : ¬p.Enlists) : (perform p).Meets w
    (fun _ w' => w.kernel.Spares w'.kernel) (fun _ _ => True) := by
  cases p with
  | register | registered | guard => exact absurd trivial hp
  | poll =>
    refine poll_meets.mono (fun _ _ hpost => ?_) fun _ _ _ => trivial
    obtain ⟨q, -, -, rfl⟩ := hpost
    exact w.kernel.spares_ask (by decide)
  | wait =>
    simp only [perform, Act.meets_bind, Act.meets_get, Act.meets_pure]
    exact w.kernel.spares_refl
  | read =>
    have hasked : w.kernel.Spares (w.toMachine.called .read).kernel :=
      w.kernel.spares_ask (by decide)
    simp only [perform, read, Act.meets_bind, meets_onMachine_ask]
    split
    case h_4 =>
      rw [Act.meets_ite]
      exact ⟨fun _ => Act.meets_pure.mpr hasked, fun _ => meets_halt.mpr trivial⟩
    case h_6 =>
      simp only [Act.meets_bind, Act.meets_get]
      split
      · exact Act.meets_pure.mpr hasked
      · simp only [Act.meets_bind, meets_modifyMonitor, Act.meets_pure]
        exact hasked
    all_goals first | exact Act.meets_pure.mpr hasked | exact meets_halt.mpr trivial
  | capture page =>
    simp only [perform, capture, Act.meets_bind, Act.meets_get, Act.meets_attempt,
      Act.meets_focus, Act.meets_pure]
    apply (Act.meets_true _ _).mono
    · exact fun _ _ _ => w.kernel.spares_refl
    · intro e _ _
      cases e
      · trivial
      · exact meets_halt.mpr trivial
  | release page =>
    simp only [perform, Act.meets_bind, Act.meets_faulty, meets_request]
    refine ⟨fun span _ => ?_, fun _ _ => trivial⟩
    apply Machine.requestMemory_meets.mono
    · intro r m hpost
      obtain ⟨-, -, rfl⟩ := hpost
      exact Act.meets_pure.mpr (w.kernel.spares_ask (by decide))
    · intro _ m hpost
      obtain ⟨errno, rfl, -⟩ := hpost
      exact meets_halt.mpr trivial
  | _ =>
    simp only [perform, Act.meets_bind, meets_setState, meets_modifyMonitor, Act.meets_pure]
    exact w.kernel.spares_refl

/-- How far the message of a writer has come that waits for a page: it is in the channel, in the
hands of the thread before or after the capture, or answered. -/
inductive Answers (w : Watch) (n : Nat) (w' : Watch) : Prop
  | raised {address : Nat} (hn : Page.number address = n)
      (hi : w'.monitor.inbox = some (.heldWrite address))
      (ht : ∀ t, w'.monitor.thread = some t → t.Rests) (hm : w'.memory = w.memory)
      (hs : w'.monitor.snapshot = w.monitor.snapshot)
  | taken {p : Point} (hp : p.served? = some (n * Page.size) ∧ p.caught? = none)
      (ht : w'.monitor.thread = some ⟨p, false⟩) (hi : w'.monitor.inbox = none)
      (hm : w'.memory = w.memory) (hs : w'.monitor.snapshot = w.monitor.snapshot)
  | caught {p : Point} (hp : p.served? = some (n * Page.size) ∧ p.caught? = some n)
      (ht : w'.monitor.thread = some ⟨p, false⟩) (hi : w'.monitor.inbox = none)
      (hm : w'.memory = w.memory)
      (ha : w.monitor.snapshot.Adds (n * Page.size) (w.memory.read (n * Page.size) Page.size)
        w'.monitor.snapshot)
  | answered (hi : w'.monitor.inbox = none) (ht : ∀ t, w'.monitor.thread = some t → t.Rests)
      (hm : w'.memory = w.memory.mark n false)
      (ha : w.monitor.snapshot.Adds (n * Page.size) (w.memory.read (n * Page.size) Page.size)
        w'.monitor.snapshot)

/-- The message of a writer is on its way, and no request to guard was put meanwhile. -/
structure Attends (w : Watch) (n : Nat) (w' : Watch) : Prop where
  answers : Answers w n w'
  whole : w'.monitor.snapshot.Whole
  spares : w.kernel.Spares w'.kernel

variable {n : Nat}

theorem Answers.idles (h : Answers w n w₁) (ht : w₁.monitor.thread = some ⟨p, false⟩)
    (hp : p.IsVacant) (hs : Idles w₁ next w') : Answers w n (w'.went next) := by
  have hrests {q : Point} (hq : q.IsVacant) : ∀ t, some (Thread.mk q false) = some t → t.Rests := by
    rintro _ ⟨⟩
    exact hq.rests false
  cases h with
  | raised hn hi hthread hm hsnap =>
    cases hs with
    | goes hq hm' hsnap' hi' =>
      exact .raised hn (hi'.trans hi) (hrests hq) (hm'.trans hm) (hsnap'.trans hsnap)
    | takes hm' hsnap' hi' hnone =>
      obtain rfl := Option.some.inj (hi.symm.trans hi')
      rw [onMessage_heldWrite, hn]
      exact .taken ⟨rfl, rfl⟩ rfl hnone (hm'.trans hm) (hsnap'.trans hsnap)
    | blocks => exact .raised hn hi hthread hm hsnap
  | answered hi hthread hm ha =>
    cases hs with
    | goes hq hm' hsnap' hi' =>
      exact .answered (hi'.trans hi) (hrests hq) (hm'.trans hm) (by rwa [went, hsnap'])
    | takes _ _ hi' =>
      rw [hi] at hi'
      cases hi'
    | blocks => exact .answered hi hthread hm ha
  | taken hserved ht' =>
    obtain rfl : p = _ := by simpa [ht] using ht'
    rw [hp.served] at hserved
    cases hserved.1
  | caught hserved ht' =>
    obtain rfl : p = _ := by simpa [ht] using ht'
    rw [hp.served] at hserved
    cases hserved.1

/-- With a page in hand the thread captures it, and then releases it. -/
theorem Answers.loopStep (h : Answers w n w₁) (ht : w₁.monitor.thread = some ⟨p, false⟩)
    (hp : p.served? = some (n * Page.size)) (hs : LoopStep w₁ p next w') :
    Answers w n (w'.went next) := by
  cases h with
  | raised _ _ hthread =>
    rw [(hthread _ ht).served] at hp
    cases hp
  | answered _ hthread =>
    rw [(hthread _ ht).served] at hp
    cases hp
  | taken hserved ht' hi hm hsnap =>
    obtain rfl : p = _ := by simpa [ht] using ht'
    cases hs with
    | begin => exact .taken (p := .capturing _) ⟨hp, rfl⟩ rfl hi hm hsnap
    | capturing => exact .taken (p := .capture _) ⟨hp, rfl⟩ rfl hi hm hsnap
    | @capture k s hw ha =>
      obtain rfl : k = n := Page.mul_inj.mp (Option.some.inj hp)
      rw [hm, hsnap] at ha
      have hcaught : (Point.unprotecting (k * Page.size)).caught? = some k := by
        rw [Point.caught?, Page.number_mul]
      exact .caught ⟨rfl, hcaught⟩ rfl hi hm ha
    | unprotecting | release => cases hserved.2
    | look hw => exact absurd hw.isIdle (Point.not_isIdle_of_served? hp)
    | _ => cases hp
  | caught hserved ht' hi hm ha =>
    obtain rfl : p = _ := by simpa [ht] using ht'
    cases hs with
    | unprotecting => exact .caught (p := .release _) hserved rfl hi hm ha
    | @release k r kernel hk =>
      obtain rfl : k = n := Page.mul_inj.mp (Option.some.inj hp)
      have hrests (held : Bool) : ∀ t, some (Thread.mk .count held) = some t → t.Rests := by
        rintro _ ⟨⟩
        exact ⟨rfl, False.elim⟩
      cases r with
      | prompt => exact .answered hi (hrests false) (by rw [← hm]; rfl) ha
      | late => exact .answered hi (hrests true) (by rw [← hm]; rfl) ha
    | begin | capturing | capture => cases hserved.2
    | look hw => exact absurd hw.isIdle (Point.not_isIdle_of_served? hp)
    | _ => cases hp

theorem LoopStep.whole (hs : LoopStep w p next w') (h : w.monitor.snapshot.Whole) :
    w'.monitor.snapshot.Whole := by
  cases hs with
  | capture hw => exact hw
  | _ => exact h

theorem Idles.whole (hs : Idles w next w') (h : w.monitor.snapshot.Whole) :
    w'.monitor.snapshot.Whole := by
  cases hs with
  | goes _ _ hsnap => exact hsnap ▸ h
  | takes _ hsnap => exact hsnap ▸ h
  | blocks => exact h

theorem Attends.step (h : Attends w n w₁) (ht : w₁.monitor.thread = some ⟨p, false⟩) :
    (perform p).Meets w₁ (fun next w' => Attends w n (w'.went next)) (fun e _ => EndsProcess e) := by
  obtain ⟨answers, whole, spares⟩ := h
  have hkernel (next : Next) (w' : Watch) : (w'.went next).kernel = w'.kernel := by
    rw [toMachine_went]
  by_cases hvacant : p.IsVacant
  · refine ((perform_vacant_meets whole hvacant).and
      (perform_spares_meets hvacant.enlists)).mono ?_ fun _ _ he => he.1
    intro next w' hpost
    obtain ⟨hs, hspares⟩ := hpost
    refine ⟨answers.idles ht hvacant hs, ?_, ?_⟩
    · rw [snapshot_went]
      exact hs.whole whole
    · rw [hkernel]
      exact spares.trans hspares
  · have hserved : p.served? = some (n * Page.size) := by
      cases answers with
      | raised _ _ hthread => exact absurd (hthread _ ht).isVacant hvacant
      | answered _ hthread => exact absurd (hthread _ ht).isVacant hvacant
      | taken hp ht' =>
        obtain rfl : p = _ := by simpa [ht] using ht'
        exact hp.1
      | caught hp ht' =>
        obtain rfl : p = _ := by simpa [ht] using ht'
        exact hp.1
    have henlists : ¬p.Enlists := by
      cases p <;> first | exact id | cases hserved
    refine ((perform_meets whole (Point.inLoop_of_served? hserved)).and
      (perform_spares_meets henlists)).mono ?_ fun _ _ he => he.1
    intro next w' hpost
    obtain ⟨hs, hspares⟩ := hpost
    refine ⟨answers.loopStep ht hserved hs, ?_, ?_⟩
    · rw [snapshot_went]
      exact hs.whole whole
    · rw [hkernel]
      exact spares.trans hspares

/-- What becomes of a machine when a writer gets past a page: nothing, if the page was not guarded,
and otherwise the page was captured and released. -/
inductive Passes (w : Watch) (n : Nat) (w' : Watch) : Prop
  | free (hg : w.memory.isGuarded n = false) (h : w' = w)
  | served (hg : w.memory.isGuarded n = true) (hm : w'.memory = w.memory.mark n false)
      (ha : w.monitor.snapshot.Adds (n * Page.size) (w.memory.read (n * Page.size) Page.size)
        w'.monitor.snapshot)

/-- A writer gets past a page only if that was captured and released, or not guarded. -/
theorem claim_steady_meets {address : Nat} (h : w.monitor.Steady)
    (hn : w.memory.isGuarded n = true → Page.Usable (n * Page.size))
    (ha : Page.number address = n) :
    (claim n address).Meets w
      (fun _ w' => Passes w n w' ∧ w'.monitor.Steady ∧ w.kernel.Spares w'.kernel)
      (fun e _ => EndsProcess e ∧ w.memory.isGuarded n = true) := by
  simp only [claim, Act.meets_bind, Act.meets_get, Act.meets_ite, meets_modifyMonitor,
    meets_halt, Act.meets_pure]
  refine ⟨fun hg => ?_, fun hg => ⟨.free (by simpa using hg) rfl, h, w.kernel.spares_refl⟩⟩
  have hraised : Attends w n (w.raising address) :=
    ⟨.raised ha rfl h.thread rfl rfl, h.whole, w.kernel.spares_refl⟩
  refine (serve_meets (fun _ _ h₁ ht => Attends.step h₁ ht) hraised).mono ?_
    fun _ _ he => ⟨he, hg⟩
  intro _ w' hpost
  obtain ⟨answers, whole, spares⟩ := hpost
  refine ⟨fun _ => ⟨(halts _).endsProcess, hg⟩, fun hfree => ?_⟩
  cases answers with
  | answered hi ht hm hadds =>
    refine ⟨.served hg hm hadds, ⟨whole, ?_, hi, ht⟩, spares⟩
    intro page hpage
    rw [hadds.addresses, Array.mem_push] at hpage
    rcases hpage with hold | rfl
    · exact h.usable page hold
    · exact hn hg
  | raised _ _ _ hm => exact absurd (hm ▸ hg) hfree
  | taken _ _ _ hm => exact absurd (hm ▸ hg) hfree
  | caught _ _ _ hm => exact absurd (hm ▸ hg) hfree

end Watch

end Rewind
