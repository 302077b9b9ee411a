import Rewind.Proofs.FaultLoop

/-! Service of write faults. `Serves` is the protocol between a writer and the thread: at most one
fault is open, its page stays guarded until the thread releases it, and the counters tell how far
the service has come. -/
namespace Rewind

open Monitor (Point State Thread)
open Tracking (Message)

namespace Monitor.Point

/-- No page is being served. -/
def IsIdle : Point → Prop
  | .listen | .poll | .wait | .read | .count | .finish => True
  | _ => False

/-- The page that is being served. -/
def served? : Point → Option Nat
  | .begin page | .capturing page | .capture page | .unprotecting page | .release page => some page
  | _ => none

/-- The number of the page that is captured and not yet released. -/
def caught? : Point → Option Nat
  | .unprotecting page | .release page => some (Page.number page)
  | _ => none

/-- What others read in the counter of faults in flight. -/
def inFlight : Point → Nat
  | .capturing _ | .capture _ | .unprotecting _ | .release _ | .count | .finish => 1
  | _ => 0

/-- Faults that are served and not yet counted. -/
def uncounted : Point → Nat
  | .count => 1
  | _ => 0

/-- The fault that is open once the thread has taken its next step. -/
def settled : Point → Option Nat → Option Nat
  | .release _, _ => none
  | _, fault => fault

theorem IsWaiting.settled {p : Point} (h : p.IsWaiting) (fault : Option Nat) :
    p.settled fault = fault := by cases p <;> simp_all [IsWaiting, Point.settled]

theorem IsWaiting.isIdle {p : Point} (h : p.IsWaiting) : p.IsIdle := by
  cases p <;> simp_all [IsWaiting, IsIdle]

theorem IsWaiting.inFlight {p : Point} (h : p.IsWaiting) : p.inFlight = 0 := by
  cases p <;> simp_all [IsWaiting, Point.inFlight]

theorem IsWaiting.uncounted {p : Point} (h : p.IsWaiting) : p.uncounted = 0 := by
  cases p <;> simp_all [IsWaiting, Point.uncounted]

theorem IsIdle.inLoop {p : Point} (h : p.IsIdle) : p.InLoop := by
  cases p <;> simp_all [IsIdle, InLoop]

theorem IsIdle.caught? {p : Point} (h : p.IsIdle) : p.caught? = none := by
  cases p <;> simp_all [IsIdle, Point.caught?]

theorem not_isIdle_of_served? {p : Point} {page : Nat} (h : p.served? = some page) :
    ¬p.IsIdle := by
  cases p <;> simp_all [served?, IsIdle]

theorem inLoop_of_served? {p : Point} {n : Nat} (h : p.served? = some (n * Page.size)) :
    p.InLoop := by
  cases p <;> simp only [served?, Option.some.injEq, reduceCtorEq] at h <;>
    exact h ▸ Page.isAligned_mul n

end Monitor.Point

namespace Watch

/-- Where an open fault is: nowhere, in the channel, or in the hands of the thread. -/
inductive Whereabouts : Option Nat → Point → Option Message → Prop
  | quiet {p : Point} (hp : p.IsIdle) : Whereabouts none p none
  | raised {p : Point} {address : Nat} (hp : p.IsIdle) :
      Whereabouts (some (Page.number address)) p (some (.heldWrite address))
  | served {p : Point} {n : Nat} (hp : p.served? = some (n * Page.size)) :
      Whereabouts (some n) p none

theorem Whereabouts.inLoop {fault : Option Nat} {p : Point} {inbox : Option Message}
    (h : Whereabouts fault p inbox) : p.InLoop := by
  cases h with
  | quiet hp => exact hp.inLoop
  | raised hp => exact hp.inLoop
  | served hp => exact Point.inLoop_of_served? hp

/-- The thread at a point serves the write faults of one writer, of which so many were raised; the
last of them may still be open. -/
structure Serves (raised : Nat) (fault : Option Nat) (p : Point) (w : Watch) : Prop where
  whole : w.monitor.snapshot.Whole
  running : w.monitor.stopSignalled = false
  inFlight : w.monitor.inFlight = p.inFlight
  count : w.monitor.handled + p.uncounted + fault.toList.length = raised
  guarded : ∀ n ∈ fault, w.memory.isGuarded n = true
  stage : Whereabouts fault p w.monitor.inbox

theorem Serves.fault_of_served? {raised : Nat} {fault : Option Nat} {p : Point} {w : Watch}
    (h : w.Serves raised fault p) {n : Nat} (hp : p.served? = some (n * Page.size)) :
    fault = some n := by
  have stage := h.stage
  generalize w.monitor.inbox = inbox at stage
  cases stage with
  | quiet hi => exact absurd hi (Point.not_isIdle_of_served? hp)
  | raised hi => exact absurd hi (Point.not_isIdle_of_served? hp)
  | served hs =>
    rw [hp, Option.some.injEq, Page.mul_inj] at hs
    rw [hs]

theorem Serves.inbox_of_served? {raised : Nat} {fault : Option Nat} {p : Point} {w : Watch}
    (h : w.Serves raised fault p) {page : Nat} (hp : p.served? = some page) :
    w.monitor.inbox = none := by
  have stage := h.stage
  generalize w.monitor.inbox = inbox at stage
  cases stage with
  | raised hi => exact absurd hi (Point.not_isIdle_of_served? hp)
  | _ => rfl

/-- The point after a step from `p`. -/
def Next.point (p : Point) : Next → Point
  | .go q | .hold q => q
  | .block => p

@[simp] theorem Next.point_after (p q : Point) (r : Machine.Return) : (after r q).point p = q := by
  cases r <;> rfl

/-- What a step of the thread does to an open fault: nothing, unless it releases the page. -/
inductive Settles (w w' : Watch) : Option Nat → Option Nat → Prop
  | keeps {fault : Option Nat} (hm : w'.memory = w.memory) : Settles w w' fault fault
  | releases {n : Nat} (hm : w'.memory = w.memory.mark n false) : Settles w w' (some n) none

theorem Serves.step {raised : Nat} {fault : Option Nat} {p : Point} {next : Next} {w w' : Watch}
    (h : Serves raised fault p w) (hs : LoopStep w p next w') :
    Serves raised (p.settled fault) (next.point p) w' ∧ Settles w w' fault (p.settled fault) := by
  obtain ⟨whole, running, inFlight, count, guarded, stage⟩ := h
  cases hs with
  | look hp hq hk =>
    rw [hp.settled]
    refine ⟨⟨whole, running, ?_, ?_, guarded, ?_⟩, .keeps rfl⟩
    · exact inFlight.trans (hp.inFlight.trans hq.inFlight.symm)
    · simpa only [Next.point, hp.uncounted, hq.uncounted] using count
    · generalize w.monitor.inbox = inbox at stage
      cases stage with
      | quiet _ => exact .quiet hq.isIdle
      | raised _ => exact .raised hq.isIdle
      | served hp' => exact absurd hp.isIdle (Point.not_isIdle_of_served? hp')
  | block hi => exact ⟨⟨whole, running, inFlight, count, guarded, stage⟩, .keeps rfl⟩
  | stop hs => simp [running] at hs
  | take hi hk =>
    rw [hi] at stage
    cases stage with
    | raised _ =>
      rw [onMessage_heldWrite]
      exact ⟨⟨whole, running, inFlight, count, guarded, .served rfl⟩, .keeps rfl⟩
  | begin | capturing | unprotecting =>
    refine ⟨⟨whole, running, ?_, count, guarded, ?_⟩, .keeps rfl⟩
    · first | rfl | exact inFlight
    · generalize w.monitor.inbox = inbox at stage
      cases stage with
      | served hp' => exact .served hp'
      | _ hp' => exact hp'.elim
  | capture hw ha =>
    refine ⟨⟨hw, running, inFlight, count, guarded, ?_⟩, .keeps rfl⟩
    generalize w.monitor.inbox = inbox at stage
    cases stage with
    | served hp' => exact .served hp'
    | _ hp' => exact hp'.elim
  | @release n r k hk _ =>
    generalize hi : w.monitor.inbox = inbox at stage
    cases stage with
    | @served _ n' hp' =>
      obtain rfl : n = n' := Page.mul_inj.mp (Option.some.inj hp')
      refine ⟨⟨whole, running, ?_, ?_, nofun, ?_⟩, .releases rfl⟩
      · rw [Next.point_after]
        exact inFlight
      · rw [Next.point_after]
        exact count
      · rw [Next.point_after]
        exact hi ▸ .quiet trivial
    | _ hp' => exact hp'.elim
  | count =>
    refine ⟨⟨whole, running, inFlight, ?_, guarded, ?_⟩, .keeps rfl⟩
    · exact count
    · generalize w.monitor.inbox = inbox at stage
      cases stage with
      | quiet _ => exact .quiet trivial
      | raised _ => exact .raised trivial
      | served hp' => cases hp'
  | finish =>
    refine ⟨⟨whole, running, rfl, count, guarded, ?_⟩, .keeps rfl⟩
    generalize w.monitor.inbox = inbox at stage
    cases stage with
    | quiet _ => exact .quiet trivial
    | raised _ => exact .raised trivial
    | served hp' => cases hp'

theorem serves_went {raised : Nat} {fault : Option Nat} {p : Point} {w : Watch} {next : Next} :
    (w.went next).Serves raised fault p ↔ w.Serves raised fault p := by
  cases next <;> exact ⟨fun ⟨a, b, c, d, e, f⟩ => ⟨a, b, c, d, e, f⟩,
    fun ⟨a, b, c, d, e, f⟩ => ⟨a, b, c, d, e, f⟩⟩

/-- At most these pages were changed or captured. -/
structure Confined (ns : List Nat) (w w' : Watch) : Prop where
  rules : w'.kernel.rules = w.kernel.rules
  frames : ∀ k, k ∉ ns → w'.memory.frame? k = w.memory.frame? k
  captures : ∀ a ∈ w.monitor.snapshot.addresses.items, a ∈ w'.monitor.snapshot.addresses.items
  captured : ∀ a ∈ w'.monitor.snapshot.addresses.items,
    a ∈ w.monitor.snapshot.addresses.items ∨ ∃ n ∈ ns, a = n * Page.size

theorem confined_of_eq {ns : List Nat} {w w' : Watch} (hr : w'.kernel.rules = w.kernel.rules)
    (hm : w'.memory = w.memory) (hs : w'.monitor.snapshot = w.monitor.snapshot) :
    Confined ns w w' :=
  ⟨hr, fun _ _ => by rw [hm], fun _ ha => hs ▸ ha, fun _ ha => .inl (hs ▸ ha)⟩

theorem Confined.trans {ns ks : List Nat} {w w' w'' : Watch} (h : Confined ns w w')
    (h' : Confined ks w' w'') : Confined (ns ++ ks) w w'' := by
  refine ⟨h'.rules.trans h.rules, fun k hk => ?_, fun a ha => h'.captures a (h.captures a ha),
    fun a ha => ?_⟩
  · rw [List.mem_append, not_or] at hk
    exact (h'.frames k hk.2).trans (h.frames k hk.1)
  · rcases h'.captured a ha with hold | ⟨n, hn, rfl⟩
    · rcases h.captured a hold with hold | ⟨n, hn, rfl⟩
      · exact .inl hold
      · exact .inr ⟨n, List.mem_append_left _ hn, rfl⟩
    · exact .inr ⟨n, List.mem_append_right _ hn, rfl⟩

theorem Confined.mono {ns ks : List Nat} {w w' : Watch} (h : Confined ns w w') (hs : ns ⊆ ks) :
    Confined ks w w' :=
  ⟨h.rules, fun k hk => h.frames k fun hk' => hk (hs hk'), h.captures,
    fun a ha => (h.captured a ha).imp_right fun ⟨n, hn, e⟩ => ⟨n, hs hn, e⟩⟩

/-- Service is confined to the page of the open fault. -/
theorem Serves.confined {raised : Nat} {fault : Option Nat} {p : Point} {next : Next}
    {w w' : Watch} (h : w.Serves raised fault p) (hs : w.LoopStep p next w') :
    Confined fault.toList w w' := by
  cases hs with
  | look hp hq hk => exact confined_of_eq hk rfl rfl
  | take hi hk => exact confined_of_eq hk rfl rfl
  | @capture n s hw ha =>
    obtain rfl := h.fault_of_served? (n := n) rfl
    refine ⟨rfl, fun _ _ => rfl, fun a hmem => ?_, fun a hmem => ?_⟩
    · rw [ha.addresses, Array.mem_push]
      exact .inl hmem
    · rw [ha.addresses, Array.mem_push] at hmem
      exact hmem.imp_right fun e => ⟨n, List.mem_singleton_self n, e⟩
  | @release n r k hk _ =>
    obtain rfl := h.fault_of_served? (n := n) rfl
    refine ⟨hk, fun k hne => ?_, fun _ ha => ha, fun _ => .inl⟩
    have hk : k ≠ n := fun e => hne (e ▸ List.mem_singleton_self k)
    rw [Memory.frame?_mark, if_neg hk]
  | _ => exact confined_of_eq rfl rfl rfl

end Watch

end Rewind
