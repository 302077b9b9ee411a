import Rewind.Proofs.Setup

/-! Arming a monitor that was never stopped: its thread goes through the regions twice, and the
memory it leaves differs from the memory it found only in what is tracked and guarded. -/
namespace Rewind

open Monitor (Point State Thread Readiness)

/-- A page lies in one of these regions. -/
def Within (slots : List Slot) (n : Nat) : Prop := ∃ slot ∈ slots, n * Page.size ∈ slot.span

instance (slots : List Slot) (n : Nat) : Decidable (Within slots n) :=
  inferInstanceAs (Decidable (∃ slot ∈ slots, _))

theorem within_append {slots slots' : List Slot} {n : Nat} :
    Within (slots ++ slots') n ↔ Within slots n ∨ Within slots' n := by
  simp only [Within, List.mem_append, or_and_right, exists_or]

theorem within_singleton {slot : Slot} {n : Nat} :
    Within [slot] n ↔ n * Page.size ∈ slot.span := by simp [Within]

/-- A page of a span that can be tracked lies in the usable address space. -/
theorem Memory.IsTrackable.low {s : Span} (h : IsTrackable s) {n : Nat} (hn : n * Page.size ∈ s) :
    n * Page.size + Page.size ≤ Mapping.limit := by
  obtain ⟨hstart, hsize, -, hstop⟩ := h
  have hle := s.ordered
  rw [Span.mem_def] at hn
  simp only [Page.IsAligned, Span.size, Page.size] at *
  omega

/-- These regions were tracked and those guarded, and nothing else was done to the memory. -/
structure Enlisted (m₀ : Memory) (tracked guarded : List Slot) (m : Memory) : Prop where
  trackable : ∀ slot ∈ tracked, Memory.IsTrackable slot.span
  frames : ∀ k, m.frame? k = (m₀.frame? k).map fun f => { f with
    tracked := f.tracked || decide (Within tracked k)
    guarded := f.guarded || decide (Within guarded k) }

theorem enlisted_nil (m : Memory) : Enlisted m [] [] m :=
  ⟨by simp, fun k => by cases h : m.frame? k <;> simp [Within]⟩

namespace Enlisted

variable {m₀ m : Memory} {tracked guarded : List Slot}

theorem bytes (h : Enlisted m₀ tracked guarded m) (k : Nat) : m.bytes? k = m₀.bytes? k := by
  rw [Memory.bytes?, h.frames, Memory.bytes?, Option.map_map]
  rfl

theorem isTracked (h : Enlisted m₀ tracked guarded m) (k : Nat) :
    m.isTracked k = (m₀.isTracked k || m₀.isMapped k && decide (Within tracked k)) := by
  rw [Memory.isTracked, h.frames, Memory.isTracked, Memory.isMapped]
  cases m₀.frame? k <;> simp

theorem isGuarded (h : Enlisted m₀ tracked guarded m) (k : Nat) :
    m.isGuarded k = (m₀.isGuarded k || m₀.isMapped k && decide (Within guarded k)) := by
  rw [Memory.isGuarded_eq, h.frames, Memory.isGuarded_eq, Memory.isMapped]
  cases m₀.frame? k <;> simp

theorem register (h : Enlisted m₀ tracked guarded m) {slot : Slot} {m' : Memory}
    (ht : Memory.IsTrackable slot.span)
    (hm : ∀ k, m'.frame? k = if k * Page.size ∈ slot.span then
      (m.frame? k).map fun f => { f with tracked := true } else m.frame? k) :
    Enlisted m₀ (tracked ++ [slot]) guarded m' := by
  constructor
  · simpa [or_imp, forall_and] using ⟨h.trackable, ht⟩
  · intro k
    rw [hm, h.frames]
    by_cases hk : k * Page.size ∈ slot.span
    · simp [hk, within_append, within_singleton, Option.map_map, Function.comp_def]
    · simp [hk, within_append, within_singleton]

theorem guard (h : Enlisted m₀ tracked guarded m) {slot : Slot} {m' : Memory}
    (hm : ∀ k, m'.frame? k = if k * Page.size ∈ slot.span then
      (m.frame? k).map fun f => { f with guarded := true } else m.frame? k) :
    Enlisted m₀ tracked (guarded ++ [slot]) m' := by
  refine ⟨h.trackable, fun k => ?_⟩
  rw [hm, h.frames]
  by_cases hk : k * Page.size ∈ slot.span
  · simp [hk, within_append, within_singleton, Option.map_map, Function.comp_def]
  · simp [hk, within_append, within_singleton]

end Enlisted

theorem Machine.register_of_ok {s : Span} {m m' : Machine} {r : Return}
    (h : (register s).on m = (.ok r, m')) :
    m'.kernel.rules = m.kernel.rules ∧ Memory.IsTrackable s ∧
      ∀ k, m'.memory.frame? k = if k * Page.size ∈ s then
        (m.memory.frame? k).map fun f => { f with tracked := true } else m.memory.frame? k := by
  have spec : (register s).Meets m
      (fun _ m' => (m.memory.register s).1 = .ok () ∧
        m' = { m.called .register with memory := (m.memory.register s).2 })
      (fun _ _ => True) := by
    simp only [register, Act.meets_bind, meets_ask]
    split
    · exact Act.meets_fail.mpr trivial
    · simp only [Act.meets_bind, Act.meets_request]
      refine ⟨fun _ hok => ?_, fun _ _ => trivial⟩
      split
      · simp only [Act.meets_ite, Act.meets_bind, Act.meets_fail, Act.meets_pure]
        exact ⟨fun _ => trivial, fun _ => ⟨hok, rfl⟩⟩
      · simp only [Act.meets_pure]
        exact ⟨hok, rfl⟩
  obtain ⟨hok, rfl⟩ := spec.ok h
  refine ⟨rfl, Memory.isTrackable_of_setTracked_ok hok, fun k => ?_⟩
  rw [Memory.register] at hok ⊢
  simpa only [Bool.true_and] using Memory.frame?_setTracked_of_ok hok k

theorem Machine.guard_of_ok {s : Span} {m m' : Machine} {r : Return}
    (h : (guard s).on m = (.ok r, m')) :
    m'.kernel.rules = m.kernel.rules ∧
      ∀ k, m'.memory.frame? k = if k * Page.size ∈ s then
        (m.memory.frame? k).map fun f => { f with guarded := true } else m.memory.frame? k := by
  obtain ⟨hok, -, rfl⟩ := requestMemory_meets.ok h
  exact ⟨rfl, Memory.frame?_setGuarded_of_ok hok⟩

/-- The last request put to the machine was about the region at a position, and was refused. -/
def Machine.Refused (m : Machine) (slots : List Slot) (i : Nat) (stage : Stage) (errno : Errno) :
    Prop :=
  ∃ g slot before, stage = .ofPass g ∧ slots[i]? = some slot ∧
    (enlist g slot.span).on before = (.error (.error errno), m)

namespace Watch

/-- How far a thread has come that was never told to stop: which memory it leaves at a point, and
what it has said. -/
inductive Progress (m₀ : Memory) (slots : List Slot) (w : Watch) : Point → Readiness → Prop
  | track {i : Nat} (hm : Enlisted m₀ (slots.take i) [] w.memory) :
      Progress m₀ slots w (.register i) .pending
  | tracked (hm : Enlisted m₀ slots [] w.memory) : Progress m₀ slots w .registered .pending
  | guard {i : Nat} (hm : Enlisted m₀ slots (slots.take i) w.memory) :
      Progress m₀ slots w (.guard i) .pending
  | guarded {p : Point} (hp : p = .armed ∨ p = .ready) (hm : Enlisted m₀ slots slots w.memory) :
      Progress m₀ slots w p .pending
  | waits {p : Point} (hp : p.IsWaiting) (hm : Enlisted m₀ slots slots w.memory) :
      Progress m₀ slots w p .armed
  | failed {p : Point} {i : Nat} {stage : Stage} {errno : Errno}
      (hp : p = .failed i stage errno ∨ p = .refused i stage errno)
      (hr : w.Refused slots i stage errno) : Progress m₀ slots w p .pending
  | ended {i : Nat} {stage : Stage} {errno : Errno} (hr : w.Refused slots i stage errno) :
      Progress m₀ slots w .ended (.refused i stage errno)

/-- A monitor in its first life: it was not told to stop, nothing was captured, and no fault was
ever raised. -/
structure FirstLife (slots : List Slot) (w : Watch) : Prop where
  slots : w.monitor.slots.items.toList = slots
  fits : w.monitor.slots.Fits
  whole : w.monitor.snapshot.Whole
  empty : w.monitor.snapshot.size = 0
  running : w.monitor.stopSignalled = false
  inbox : w.monitor.inbox = none
  inFlight : w.monitor.inFlight = 0
  handled : w.monitor.handled = 0

theorem FirstLife.setup {slots : List Slot} {w w' : Watch} {p : Point} {next : Next}
    (h : FirstLife slots w) (hs : SetupStep w p next w') : FirstLife slots w' := by
  obtain ⟨hslots, fits, whole, empty, running, inbox, inFlight, handled⟩ := h
  cases hs <;> exact ⟨hslots, fits, whole, empty, running, inbox, inFlight, handled⟩

theorem FirstLife.went {slots : List Slot} {w : Watch} (h : FirstLife slots w) (next : Next) :
    FirstLife slots (w.went next) := by
  obtain ⟨hslots, fits, whole, empty, running, inbox, inFlight, handled⟩ := h
  cases next <;> exact ⟨hslots, fits, whole, empty, running, inbox, inFlight, handled⟩

theorem FirstLife.getElem? {slots : List Slot} {w : Watch} (h : FirstLife slots w) (i : Nat) :
    w.monitor.slots.items[i]? = slots[i]? := by rw [← h.slots, Array.getElem?_toList]

variable {m₀ : Memory} {slots : List Slot} {w w' : Watch} {p : Point} {next : Next}

theorem Progress.at_register {i : Nat} {r : Readiness}
    (h : Progress m₀ slots w (.register i) r) :
    r = .pending ∧ Enlisted m₀ (slots.take i) [] w.memory := by
  cases h with
  | track hm => exact ⟨rfl, hm⟩
  | guarded hp => simp at hp
  | waits hp => exact hp.elim
  | failed hp => simp at hp

theorem Progress.at_guard {i : Nat} {r : Readiness} (h : Progress m₀ slots w (.guard i) r) :
    r = .pending ∧ Enlisted m₀ slots (slots.take i) w.memory := by
  cases h with
  | guard hm => exact ⟨rfl, hm⟩
  | guarded hp => simp at hp
  | waits hp => exact hp.elim
  | failed hp => simp at hp

theorem Progress.at_enlist {g : Bool} {i : Nat} {r : Readiness}
    (h : Progress m₀ slots w (.enlist g i) r) : r = .pending := by
  cases g with
  | false => exact h.at_register.1
  | true => exact h.at_guard.1

theorem Progress.setup {r : Readiness} (h : Progress m₀ slots w p r)
    (hr : w.monitor.readiness = r) (hf : FirstLife slots w) (hs : SetupStep w p next w') :
    Progress m₀ slots w' (next.point p) w'.monitor.readiness := by
  cases hs with
  | @through g i hi =>
    rw [hf.getElem?, List.getElem?_eq_none_iff] at hi
    have hall : slots.take i = slots := List.take_of_length_le hi
    rw [hr, h.at_enlist]
    cases g with
    | false => exact .tracked (hall ▸ h.at_register.2)
    | true =>
      have hm := h.at_guard.2
      rw [hall] at hm
      exact .guarded (.inl rfl) hm
  | @enlist g i slot ret m hi ho =>
    rw [hf.getElem?] at hi
    have htake : slots.take (i + 1) = slots.take i ++ [slot] := by
      rw [List.take_add_one, hi, Option.toList_some]
    rw [Next.point_after, hr, h.at_enlist]
    cases g with
    | false =>
      obtain ⟨-, ht, hframes⟩ := Machine.register_of_ok ho
      exact .track (htake ▸ h.at_register.2.register ht hframes)
    | true =>
      obtain ⟨-, hframes⟩ := Machine.guard_of_ok ho
      exact .guard (htake ▸ h.at_guard.2.guard hframes)
  | @refuse g i slot errno m hi ho =>
    rw [hf.getElem?] at hi
    rw [hr, h.at_enlist]
    exact .failed (.inl rfl) ⟨g, slot, _, rfl, hi, ho⟩
  | registered =>
    cases h with
    | tracked hm =>
      rw [hr]
      exact .guard hm
    | guarded hp => simp at hp
    | waits hp => exact hp.elim
    | failed hp => simp at hp
  | armed =>
    cases h with
    | guarded _ hm =>
      rw [hr]
      exact .guarded (.inr rfl) hm
    | waits hp => exact hp.elim
    | failed hp => simp at hp
  | ready =>
    cases h with
    | guarded _ hm => exact .waits trivial hm
    | waits hp => exact hp.elim
    | failed hp => simp at hp
  | failed =>
    cases h with
    | failed hp h =>
      obtain ⟨rfl, rfl, rfl⟩ := by simpa using hp
      rw [hr]
      exact .failed (.inr rfl) h
    | guarded hp => simp at hp
    | waits hp => exact hp.elim
  | refused =>
    cases h with
    | failed hp h =>
      obtain ⟨rfl, rfl, rfl⟩ := by simpa using hp
      exact .ended h
    | guarded hp => simp at hp
    | waits hp => exact hp.elim
  | stop =>
    cases h with
    | guarded hp => simp at hp
    | waits hp => exact hp.elim
    | failed hp => simp at hp
  | ended => exact hr ▸ h

/-- In its first life the thread only looks for faults, since nobody raises one. -/
theorem Progress.look {r : Readiness} (h : Progress m₀ slots w p r)
    (hr : w.monitor.readiness = r) (hf : FirstLife slots w) (hp : p.IsWaiting)
    (hs : LoopStep w p next w') :
    Progress m₀ slots w' (next.point p) w'.monitor.readiness ∧ FirstLife slots w' := by
  have hm : r = .armed ∧ Enlisted m₀ slots slots w.memory := by
    cases h with
    | waits _ hm => exact ⟨rfl, hm⟩
    | guarded hp' => rcases hp' with rfl | rfl <;> exact hp.elim
    | failed hp' => rcases hp' with rfl | rfl <;> exact hp.elim
    | _ => exact hp.elim
  obtain ⟨rfl, hm⟩ := hm
  have hf' := hf
  obtain ⟨hslots, fits, whole, empty, running, inbox, inFlight, handled⟩ := hf
  cases hs with
  | look _ hq hk =>
    rw [hr]
    exact ⟨.waits hq hm, ⟨hslots, fits, whole, empty, running, inbox, inFlight, handled⟩⟩
  | block => exact ⟨hr ▸ .waits trivial hm, hf'⟩
  | stop hstop => simp [running] at hstop
  | take hi => simp [inbox] at hi
  | _ => exact hp.elim

/-- A thread in its first life, at some point of it. -/
def Living (m₀ : Memory) (slots : List Slot) (w : Watch) : Prop :=
  ∃ p held, w.monitor.thread = some ⟨p, held⟩ ∧ (w.monitor.readiness = .armed → held = false) ∧
    Progress m₀ slots w p w.monitor.readiness ∧ FirstLife slots w

theorem Progress.inSetup_or_isWaiting {r : Readiness} (h : Progress m₀ slots w p r) :
    p.InSetup ∨ p.IsWaiting := by
  cases h with
  | guarded hp => rcases hp with rfl | rfl <;> exact .inl trivial
  | failed hp => rcases hp with rfl | rfl <;> exact .inl trivial
  | waits hp => exact .inr hp
  | _ => exact .inl trivial

theorem Progress.went {r : Readiness} (h : Progress m₀ slots w p r) (next : Next) :
    Progress m₀ slots (w.went next) p r := by
  cases h with
  | track hm => exact .track (by simpa using hm)
  | tracked hm => exact .tracked (by simpa using hm)
  | guard hm => exact .guard (by simpa using hm)
  | guarded hp hm => exact .guarded hp (by simpa using hm)
  | waits hp hm => exact .waits hp (by simpa using hm)
  | failed hp hr => exact .failed hp (by simpa using hr)
  | ended hr => exact .ended (by simpa using hr)

/-- A request of the setup that is held back keeps the thread from saying anything. -/
theorem Progress.pending_of_hold {q : Point} (h : Progress m₀ slots w p w.monitor.readiness)
    (hs : SetupStep w p (.hold q) w') : w'.monitor.readiness = .pending := by
  generalize hnext : Next.hold q = next at hs
  cases hs with
  | enlist => exact h.at_enlist
  | _ => cases hnext

theorem living_went (h : Progress m₀ slots w' (next.point p) w'.monitor.readiness)
    (hf : FirstLife slots w') (ht : w'.monitor.thread = some ⟨p, false⟩)
    (hh : ∀ q, next = .hold q → w'.monitor.readiness = .pending) :
    Living m₀ slots (w'.went next) := by
  have hg := h.went next
  have hl := hf.went next
  cases next with
  | go q => exact ⟨q, false, rfl, fun _ => rfl, hg, hl⟩
  | hold q =>
    refine ⟨q, true, rfl, fun hr => ?_, hg, hl⟩
    have hp : w'.monitor.readiness = .armed := hr
    rw [hh q rfl] at hp
    cases hp
  | block => exact ⟨p, false, ht, fun _ => rfl, hg, hl⟩

theorem Living.step (h : Living m₀ slots w) (ht : w.monitor.thread = some ⟨p, false⟩) :
    (perform p).Meets w (fun next w' => Living m₀ slots (w'.went next)) (fun e _ => Halts e) := by
  obtain ⟨p₁, held, ht₁, -, hg, hl⟩ := h
  obtain ⟨rfl, rfl⟩ : p₁ = p ∧ held = false := by simpa [ht₁] using ht
  rcases hg.inSetup_or_isWaiting with hs | hw
  · refine (perform_setup_meets hs).mono ?_ fun _ _ he => he.elim
    intro next w' hstep
    refine living_went (hg.setup rfl hl hstep) (hl.setup hstep) (hstep.thread.trans ht) ?_
    rintro q rfl
    exact hg.pending_of_hold hstep
  · refine (perform_waiting_meets hw).mono ?_ fun _ _ he => he
    intro next w' hstep
    obtain ⟨hg', hl'⟩ := hg.look rfl hl hw hstep
    refine living_went hg' hl' (hstep.thread.trans ht) ?_
    rintro q rfl
    exact absurd rfl (hstep.not_hold_of_isWaiting hw)

theorem Living.serve (h : Living m₀ slots w) :
    serve.Meets w (fun _ w' => Living m₀ slots w') (fun e _ => Halts e) :=
  serve_meets (fun _ _ hw ht => hw.step ht) h

end Watch

end Rewind
