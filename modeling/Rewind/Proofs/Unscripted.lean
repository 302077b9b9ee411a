import Rewind.Proofs.Lives

/-! A kernel without a script lets every call take its course. Then the thread comes through its
setup, so that arming succeeds, and through its teardown. -/
namespace Rewind

open Monitor (Point State Thread Readiness smallestStack)

/-- The script says nothing at all. -/
def Kernel.Unscripted (k : Kernel) : Prop := k.rules = []

theorem Kernel.Unscripted.grants {k : Kernel} (h : k.Unscripted) (call : Call) : k.Grants call := by
  intro r hr
  rw [h] at hr
  cases hr

theorem Kernel.Unscripted.calm {k : Kernel} (h : k.Unscripted) : k.Calm :=
  ⟨h.grants _, h.grants _, h.grants _, h.grants _⟩

theorem le_foldl_max {l : List Nat} {a x : Nat} (h : x ≤ a ∨ x ∈ l) : x ≤ l.foldl max a := by
  induction l generalizing a with
  | nil => simpa using h
  | cons y ys ih =>
    apply ih
    rcases h with h | h
    · exact .inl (le_max_of_le_left h)
    · rcases List.mem_cons.mp h with rfl | h
      · exact .inl (le_max_right _ _)
      · exact .inr h

/-- Nothing but interruptions keeps the thread from finding out that it is to stop, and polls are
interrupted at named turns only. -/
structure Kernel.Attends (k : Kernel) : Prop where
  poll : ∀ rule ∈ k.rules, rule.call = .poll →
    rule.turns.isSome = true ∧ rule.answer = .refuse .intr
  read : ∀ rule ∈ k.rules, rule.call = .read →
    rule.answer = .refuse .again ∨ rule.answer = .refuse .intr

theorem Kernel.Unscripted.attends {k : Kernel} (h : k.Unscripted) : k.Attends :=
  ⟨fun rule hrule hcall => absurd hcall (h.grants _ rule hrule),
    fun rule hrule hcall => absurd hcall (h.grants _ rule hrule)⟩

theorem Kernel.Attends.of_rules {k k' : Kernel} (h : k.Attends) (hk : k'.rules = k.rules) :
    k'.Attends := ⟨hk ▸ h.poll, hk ▸ h.read⟩

/-- Polls that are yet to come and may be interrupted. -/
def Kernel.disturbances (k : Kernel) : Nat := k.horizon .poll - k.count .poll

theorem Kernel.exists_rule {k : Kernel} {call : Call} {answer : Answer}
    (h : (k.ask call).1 = some answer) : ∃ rule ∈ k.rules, rule.call = call ∧
      rule.turns.all (·.contains (k.count call + 1)) = true ∧ rule.answer = answer := by
  obtain ⟨rule, hrule, hanswer⟩ := List.exists_of_findSome?_eq_some h
  unfold Rule.answer? at hanswer
  split at hanswer
  · next hcovers => exact ⟨rule, hrule, hcovers.1, hcovers.2, Option.some.inj hanswer⟩
  · cases hanswer

theorem Kernel.Attends.ask_poll {k : Kernel} (h : k.Attends) : (k.ask .poll).1 = none ∨
    (k.ask .poll).1 = some (.refuse .intr) ∧ (k.ask .poll).2.disturbances < k.disturbances := by
  cases hask : (k.ask .poll).1 with
  | none => exact .inl rfl
  | some answer =>
    obtain ⟨rule, hrule, hcall, hturns, rfl⟩ := k.exists_rule hask
    obtain ⟨hnamed, hanswer⟩ := h.poll rule hrule hcall
    obtain ⟨turns, hsome⟩ := Option.isSome_iff_exists.mp hnamed
    have hmem : k.count .poll + 1 ∈ turns := by simpa [hsome] using hturns
    have hle : k.count .poll + 1 ≤ k.horizon .poll := by
      refine le_foldl_max (.inr (List.mem_flatMap.mpr ⟨rule, ?_, ?_⟩))
      · simpa using ⟨hrule, hcall⟩
      · simpa [hsome] using hmem
    refine .inr ⟨by rw [hanswer], ?_⟩
    rw [disturbances, disturbances, count_ask]
    exact Nat.sub_lt_sub_left hle (Nat.lt_succ_self _)

theorem Kernel.Attends.ask_read {k : Kernel} (h : k.Attends) : (k.ask .read).1 = none ∨
    (k.ask .read).1 = some (.refuse .again) ∨ (k.ask .read).1 = some (.refuse .intr) := by
  cases hask : (k.ask .read).1 with
  | none => exact .inl rfl
  | some answer =>
    obtain ⟨rule, hrule, hcall, -, rfl⟩ := k.exists_rule hask
    refine .inr ((h.read rule hrule hcall).imp ?_ ?_)
    · exact congrArg some
    · exact congrArg some

namespace Memory

variable {m m' : Memory} {s : Span}

/-- A span that the kernel takes requests about, with a mapped page to track. -/
structure Enlistable (m : Memory) (s : Span) : Prop where
  trackable : IsTrackable s
  mapped : ∃ n, m.isMapped n = true ∧ n * Page.size ∈ s

theorem Enlistable.pagesIn (h : m.Enlistable s) : m.pagesIn s ≠ [] := by
  obtain ⟨n, hn⟩ := h.mapped
  exact List.ne_nil_of_mem (mem_pagesIn.mpr hn)

theorem Enlistable.of_mapped (h : m.Enlistable s) (hm : ∀ k, m'.isMapped k = m.isMapped k) :
    m'.Enlistable s := by
  obtain ⟨n, hn, hin⟩ := h.mapped
  exact ⟨h.trackable, n, (hm n).trans hn, hin⟩

/-- A request that goes through the pages of a span maps and unmaps none. -/
theorem isMapped_of_frames {f : Frame → Frame} (h : ∀ k, m'.frame? k =
    if k * Page.size ∈ s then (m.frame? k).map f else m.frame? k) (k : Nat) :
    m'.isMapped k = m.isMapped k := by
  rw [isMapped, h, isMapped]
  split
  · rw [Option.isSome_map]
  · rfl

theorem Enlistable.setTracked (h : m.Enlistable s) (tracked : Bool) :
    (m.setTracked s tracked).1 = .ok () := by
  unfold Memory.setTracked
  rw [if_neg (not_not.mpr h.trackable)]
  split
  · next hnone => exact absurd hnone h.pagesIn
  · rfl

theorem Enlistable.setGuarded (h : m.Enlistable s)
    (ht : ∀ n ∈ m.pagesIn s, m.isTracked n = true) (guarded : Bool) :
    (m.setGuarded s guarded).1 = .ok () := by
  unfold Memory.setGuarded
  rw [if_neg (not_not.mpr h.trackable)]
  split
  · next hnone => exact absurd hnone h.pagesIn
  · obtain ⟨done, rest, hns, -, -, ⟨hok, -⟩ | ⟨-, n, ns, rfl, hn⟩⟩ :=
      setGuardedPages_spec guarded (m.pagesIn s) m
    · exact hok
    · have htracked := ht n (by simp [hns])
      simp [hn] at htracked

end Memory

theorem Machine.requestMemory_isOk {m : Machine} {call : Kernel.Call}
    {f : Memory → Except Errno Unit × Memory} (hg : m.kernel.Grants call)
    (hf : (f m.memory).1 = .ok ()) :
    (requestMemory call f).Meets m
      (fun r m' => r = .prompt ∧ m' = { m.called call with memory := (f m.memory).2 })
      (fun _ _ => False) := by
  have hpair : f m.memory = (.ok (), (f m.memory).2) := Prod.ext hf rfl
  exact (Act.meets_of_ok (requestMemory_of_grants hg hpair)).mpr ⟨rfl, rfl⟩

/-- Requests of the setup are granted without delay, if only tracked pages are to be guarded. -/
theorem Machine.enlist_isOk {m : Machine} {s : Span} (hk : m.kernel.Unscripted)
    (hs : m.memory.Enlistable s) {g : Bool}
    (ht : g = true → ∀ n ∈ m.memory.pagesIn s, m.memory.isTracked n = true) :
    (enlist g s).Meets m (fun r m' => r = .prompt ∧ m'.kernel.Unscripted) (fun _ _ => False) := by
  cases g with
  | false =>
    have hok := hs.setTracked true
    simp only [enlist, register, Act.meets_bind, meets_ask, (hk.grants .register).ask,
      Act.meets_request, memory_called, Memory.register, hok, Act.meets_pure]
    exact ⟨fun _ _ => ⟨rfl, hk⟩, by rintro _ ⟨⟩⟩
  | true =>
    have hok := hs.setGuarded (ht rfl) true
    have hgrant := requestMemory_isOk (f := (·.setGuarded s true)) (hk.grants .protect) hok
    refine hgrant.mono ?_ fun _ _ he => he
    rintro r m' ⟨rfl, rfl⟩
    exact ⟨rfl, hk⟩

namespace Monitor.Point

/-- Steps of the setup that are still to be taken for so many regions. -/
def untilReady (count : Nat) : Point → Nat
  | .register i => count - i + count + 6
  | .registered => count + 5
  | .guard i => count - i + 3
  | .armed => 2
  | .ready => 1
  | _ => 0

/-- Steps that a thread takes from this point to its end, once it was told to stop and no message
is left. -/
def untilEnded : Point → Nat
  | .count => 6
  | .finish => 5
  | .read => 5
  | .listen => 4
  | .poll => 3
  | .wait => 2
  | .stop => 1
  | _ => 0

theorem untilEnded_le (p : Point) : p.untilEnded ≤ 6 := by cases p <;> simp [untilEnded]

end Monitor.Point

theorem Enlisted.isMapped {m₀ m : Memory} {tracked guarded : List Slot}
    (h : Enlisted m₀ tracked guarded m) (k : Nat) : m.isMapped k = m₀.isMapped k := by
  rw [Memory.isMapped, h.frames, Memory.isMapped, Option.isSome_map]

namespace Watch

variable {w w' : Watch} {m₀ : Memory} {slots : List Slot} {p : Point}

/-- Looking for faults, the thread never gives up. -/
theorem perform_waiting_isOk (hp : p.IsWaiting) (hk : w.kernel.Unscripted) :
    (perform p).Meets w (LoopStep w p) (fun _ _ => False) := by
  have safe : (perform p).Meets w (fun _ _ => True) (fun _ _ => False) := by
    cases p with
    | listen => simp only [perform, Act.meets_bind, meets_setState, Act.meets_pure]
    | poll =>
      simp only [perform, poll, Act.meets_bind, meets_onMachine_ask, (hk.grants .poll).ask,
        Act.meets_pure]
    | wait => simp only [perform, Act.meets_bind, Act.meets_get, Act.meets_pure]
    | read =>
      simp only [perform, read, Act.meets_bind, meets_onMachine_ask, (hk.grants .read).ask,
        Act.meets_get]
      split <;> simp only [Act.meets_bind, meets_modifyMonitor, Act.meets_pure]
    | _ => exact hp.elim
  exact ((perform_waiting_meets hp).and safe).mono (fun _ _ h => h.1) fun _ _ he => he.2

/-- A thread that has said that all is guarded keeps looking for faults. -/
theorem serveFor_armed_isOk {steps : Nat} (h : Living m₀ slots w)
    (hr : w.monitor.readiness = .armed) (hk : w.kernel.Unscripted) :
    (serveFor steps).Meets w
      (fun _ w' => w'.monitor.readiness = .armed ∧ w'.kernel.Unscripted) (fun _ _ => False) := by
  have hmeets : (serveFor steps).Meets w (fun _ w' => Living m₀ slots w' ∧
      w'.monitor.readiness = .armed ∧ w'.kernel.Unscripted) (fun _ _ => False) := by
    refine serveFor_meets ?_ steps ⟨h, hr, hk⟩
    rintro w p ⟨⟨p₁, held, ht, -, hg, hl⟩, hr, hk⟩ hp
    obtain ⟨rfl, rfl⟩ : p₁ = p ∧ held = false := by simpa [ht] using hp
    have hwaiting : p₁.IsWaiting := by
      rw [hr] at hg
      cases hg with
      | waits hp => exact hp
    refine (perform_waiting_isOk hwaiting hk).mono ?_ fun _ _ he => he
    intro next w' hs
    obtain ⟨hg', hl'⟩ := hg.look rfl hl hwaiting hs
    have hreadiness : w'.monitor.readiness = .armed := by
      cases hs <;> exact hr
    refine ⟨living_went hg' hl' (hs.thread.trans ht) ?_, ?_, ?_⟩
    · rintro q rfl
      exact absurd rfl (hs.not_hold_of_isWaiting hwaiting)
    · cases next <;> exact hreadiness
    · rw [toMachine_went]
      exact hs.rules.trans hk
  exact hmeets.mono (fun _ _ h => h.2) fun _ _ he => he

/-- The requests that the setup makes for a region can be met when it is that region's turn. -/
theorem Progress.enlistable {g : Bool} {i : Nat} {slot : Slot} {r : Readiness}
    (h : Progress m₀ slots w (.enlist g i) r) (hi : slots[i]? = some slot)
    (hs : ∀ slot ∈ slots, m₀.Enlistable slot.span) :
    w.memory.Enlistable slot.span ∧
      (g = true → ∀ n ∈ w.memory.pagesIn slot.span, w.memory.isTracked n = true) := by
  have hmem : slot ∈ slots := List.mem_of_getElem? hi
  cases g with
  | false =>
    have hm := h.at_register.2
    exact ⟨(hs slot hmem).of_mapped hm.isMapped, nofun⟩
  | true =>
    have hm := h.at_guard.2
    refine ⟨(hs slot hmem).of_mapped hm.isMapped, fun _ n hn => ?_⟩
    obtain ⟨hmap, hin⟩ := Memory.mem_pagesIn.mp hn
    have hwithin : Within slots n := ⟨slot, hmem, hin⟩
    rw [hm.isMapped] at hmap
    simp [hm.isTracked, hmap, hwithin]

/-- A step of the setup led closer to its end, or to it. -/
def Nears (count : Nat) (p : Point) (next : Next) (w' : Watch) : Prop :=
  w'.kernel.Unscripted ∧ ∃ q, next = .go q ∧ (w'.monitor.readiness = .armed ∨
    0 < q.untilReady count ∧ q.untilReady count < p.untilReady count)

theorem perform_enlist_isOk {g : Bool} {i : Nat}
    (hg : Progress m₀ slots w (.enlist g i) w.monitor.readiness) (hf : FirstLife slots w)
    (hs : ∀ slot ∈ slots, m₀.Enlistable slot.span) (hk : w.kernel.Unscripted) :
    (perform (.enlist g i)).Meets w (Nears slots.length (.enlist g i)) (fun _ _ => False) := by
  rw [perform_enlist]
  simp only [Act.meets_bind, Act.meets_get, hf.getElem?]
  split
  · refine Act.meets_pure.mpr ⟨hk, _, rfl, .inr ?_⟩
    cases g <;> simp only [Point.enlisted, Point.enlist, Point.untilReady] <;> omega
  · next slot hi =>
    obtain ⟨hlt, -⟩ := List.getElem?_eq_some_iff.mp hi
    obtain ⟨henlistable, htracked⟩ := hg.enlistable hi hs
    rw [Act.meets_bind, meets_request]
    apply (Machine.enlist_isOk hk henlistable htracked).mono _ fun _ _ he => he.elim
    rintro r m ⟨rfl, hk'⟩
    refine Act.meets_pure.mpr ⟨hk', _, rfl, .inr ?_⟩
    cases g <;> simp only [Point.enlist, Point.untilReady] <;> omega

/-- Each step of the setup succeeds. -/
theorem perform_setup_isOk (hg : Progress m₀ slots w p w.monitor.readiness)
    (hf : FirstLife slots w) (hs : ∀ slot ∈ slots, m₀.Enlistable slot.span)
    (hk : w.kernel.Unscripted) (hp : 0 < p.untilReady slots.length) :
    (perform p).Meets w (fun next w' => SetupStep w p next w' ∧ Nears slots.length p next w')
      (fun _ _ => False) := by
  have hsetup : p.InSetup := by
    cases p <;> trivial
  have hnears : (perform p).Meets w (Nears slots.length p) (fun _ _ => False) := by
    cases p with
    | register i => exact perform_enlist_isOk (g := false) hg hf hs hk
    | guard i => exact perform_enlist_isOk (g := true) hg hf hs hk
    | registered =>
      simp only [perform, Act.meets_bind, meets_setState, Act.meets_pure]
      refine ⟨hk, _, rfl, .inr ?_⟩
      simp only [Point.untilReady]
      omega
    | armed =>
      simp only [perform, Act.meets_bind, meets_setState, Act.meets_pure]
      exact ⟨hk, _, rfl, .inr ⟨Nat.one_pos, Nat.one_lt_two⟩⟩
    | ready =>
      simp only [perform, Act.meets_bind, meets_modifyMonitor, Act.meets_pure]
      exact ⟨hk, _, rfl, .inl rfl⟩
    | _ => exact absurd hp (Nat.lt_irrefl 0)
  exact ((perform_setup_meets hsetup).and hnears).mono (fun _ _ h => h) fun _ _ he => he.1

theorem serveFor_setup_isOk {steps : Nat} (ht : w.monitor.thread = some ⟨p, false⟩)
    (hg : Progress m₀ slots w p w.monitor.readiness) (hf : FirstLife slots w)
    (hs : ∀ slot ∈ slots, m₀.Enlistable slot.span) (hk : w.kernel.Unscripted)
    (hp : 0 < p.untilReady slots.length) (hr : p.untilReady slots.length ≤ steps) :
    (serveFor steps).Meets w
      (fun _ w' => w'.monitor.readiness = .armed ∧ w'.kernel.Unscripted) (fun _ _ => False) := by
  induction steps generalizing w p with
  | zero => exact absurd hp (by omega)
  | succ steps ih =>
    simp only [serveFor, Act.meets_bind, Act.meets_get, ht]
    apply (perform_setup_isOk hg hf hs hk hp).mono _ fun _ _ he => he
    rintro next w' ⟨hstep, hk', q, rfl, hrank⟩
    have hg' := (hg.setup rfl hf hstep).went (.go q)
    have hf' := (hf.setup hstep).went (.go q)
    simp only [setThread, Act.meets_bind, meets_modifyMonitor]
    rcases hrank with harmed | ⟨hpos, hlt⟩
    · exact serveFor_armed_isOk ⟨q, false, rfl, fun _ => rfl, hg', hf'⟩ harmed hk'
    · exact ih rfl hg' hf' hk' hpos (by omega)

theorem startThread_isOk (hs : smallestStack ≤ w.monitor.stack.usable)
    (hk : w.kernel.Unscripted) :
    startThread.Meets w (fun _ w' => w' = { w with
      toMachine := w.toMachine.called .startThread
      monitor := { w.monitor with thread := some .fresh } }) (fun _ _ => False) := by
  simp only [startThread, Act.meets_bind, Act.meets_get, Act.meets_ite, meets_onMachine_ask,
    (hk.grants .startThread).ask, meets_fail, meets_modifyMonitor]
  exact ⟨fun hsmall => absurd hsmall (not_lt.mpr hs), fun _ => trivial⟩

/-- Arming a new monitor over regions that can be tracked succeeds. -/
theorem arm_isOk (hu : w.monitor.Unspent) (hslots : w.monitor.slots.items = #[])
    {table : List Slot} (htable : 2 * table.length * 24 + 3 * Page.size ≤ Mapping.limit)
    (hstack : smallestStack ≤ w.monitor.stack.usable) (hk : w.kernel.Unscripted)
    (hs : ∀ slot ∈ table, w.memory.Enlistable slot.span) (timeout : Duration) :
    (arm table timeout).Meets w (fun _ w' => w'.kernel.Unscripted) (fun _ _ => False) := by
  have hroom : 2 * (w.monitor.slots.size + table.toArray.size) * 24 + 3 * Page.size ≤
      Mapping.limit := by
    simpa [PrivateArray.size, hslots] using htable
  have hextend := (PrivateArray.extend_meets (by decide) hu.slotsFit table.toArray).and
    (PrivateArray.extend_isOk (by decide) _ _ hroom)
  simp only [arm, Act.meets_bind, Act.meets_get, Act.meets_ite, hu.thread, Act.meets_focus,
    Act.meets_mapError]
  refine ⟨by simp, fun _ => ?_⟩
  apply hextend.mono _ fun _ _ he => he.2.elim
  intro _ v hpost
  obtain ⟨⟨hitems, -, hfit, -⟩, -⟩ := hpost
  have hstart : startThread.Meets ((slots.split w).2 v) _ _ := startThread_isOk hstack hk
  apply hstart.mono _ fun _ _ he => he.elim
  rintro - w₁ hw₁
  have hlaunched : Launched w.memory table w₁ := by
    subst hw₁
    apply launched_of_unspent hu _ hfit
    rw [hitems, hslots, Array.empty_append]
  have hprogress : Progress w.memory table w₁ (.register 0) w₁.monitor.readiness :=
    hlaunched.pending ▸ hlaunched.progress
  have hsteps : Point.untilReady table.length (.register 0) ≤ patience w₁ := by
    have hlength : w₁.monitor.slots.size = table.length := by
      rw [← hlaunched.firstLife.slots, Array.length_toList, PrivateArray.size]
    simp only [Point.untilReady, patience, hlength]
    omega
  have hk₁ : w₁.kernel.Unscripted := by
    rw [hw₁]
    exact hk
  have hpos : 0 < Point.untilReady table.length (.register 0) := by
    simp only [Point.untilReady]
    omega
  simp only [serve, Act.meets_bind, Act.meets_get]
  apply (serveFor_setup_isOk hlaunched.thread hprogress hlaunched.firstLife hs hk₁ hpos
    hsteps).mono _ fun _ _ he => he.elim
  intro _ w₂ hpost
  obtain ⟨harmed, hk₂⟩ := hpost
  simp only [heard, hlaunched.pending, if_true, Act.meets_bind, Act.meets_get, Act.meets_pure,
    harmed, meets_modifyMonitor, meets_onMachine_log]
  exact hk₂

/-- These regions can be given up: they are tracked throughout, and none overlaps another. -/
structure Enrolled (slots : List Slot) (m : Memory) : Prop where
  enlistable : ∀ slot ∈ slots, m.Enlistable slot.span
  tracked : ∀ slot ∈ slots, ∀ n ∈ m.pagesIn slot.span, m.isTracked n = true
  apart : slots.Pairwise fun a b => ∀ n, n * Page.size ∈ a.span → n * Page.size ∉ b.span

theorem release_isOk {stage : Stage} {span : Span} {call : Kernel.Call}
    {f : Memory → Except Errno Unit × Memory} (hk : w.kernel.Grants call)
    (hf : (f w.memory).1 = .ok ()) :
    (release stage span (Machine.requestMemory call f)).Meets w
      (fun r w' => r = none ∧ w'.memory = (f w.memory).2 ∧ w'.kernel.rules = w.kernel.rules)
      (fun _ _ => False) := by
  simp only [release, Act.meets_bind, meets_request]
  apply (Machine.requestMemory_isOk hk hf).mono _ fun _ _ he => he.elim
  rintro r m' ⟨rfl, rfl⟩
  exact Act.meets_pure.mpr ⟨rfl, rfl, rfl⟩

/-- Giving up a region leaves the others to be given up. -/
theorem Enrolled.tail {slot : Slot} {m : Memory} (h : Enrolled (slot :: slots) m)
    (hm : ∀ k, k * Page.size ∉ slot.span → m₀.frame? k = m.frame? k)
    (hmap : ∀ k, m₀.isMapped k = m.isMapped k) : Enrolled slots m₀ := by
  have hapart := List.pairwise_cons.mp h.apart
  constructor
  · intro other hother
    exact (h.enlistable other (List.mem_cons_of_mem _ hother)).of_mapped hmap
  · intro other hother n hn
    obtain ⟨hmapped, hin⟩ := Memory.mem_pagesIn.mp hn
    rw [hmap] at hmapped
    have hout : n * Page.size ∉ slot.span := fun hslot => hapart.1 other hother n hslot hin
    rw [Memory.isTracked, hm n hout]
    exact h.tracked other (List.mem_cons_of_mem _ hother) n (Memory.mem_pagesIn.mpr ⟨hmapped, hin⟩)
  · exact hapart.2

theorem releaseAll_isOk (h : Enrolled slots w.memory) (hu : w.kernel.Grants .unprotect)
    (ht : w.kernel.Grants .unregister) :
    (releaseAll slots).Meets w (fun refusals _ => refusals = []) (fun _ _ => False) := by
  induction slots generalizing w with
  | nil => exact Act.meets_pure.mpr rfl
  | cons slot slots ih =>
    have hslot := h.enlistable slot List.mem_cons_self
    have hunguard : (w.memory.setGuarded slot.span false).1 = .ok () :=
      hslot.setGuarded (h.tracked slot List.mem_cons_self) false
    have hguarded := Memory.frame?_setGuarded_of_ok hunguard
    have hmapped := Memory.isMapped_of_frames hguarded
    have huntrack := (hslot.of_mapped hmapped).setTracked false
    have htracked := Memory.frame?_setTracked_of_ok huntrack
    simp only [releaseAll, Act.meets_bind]
    apply (release_isOk hu hunguard).mono _ fun _ _ he => he.elim
    rintro - w₁ ⟨rfl, hm₁, hk₁⟩
    rw [← hm₁] at huntrack htracked
    apply (release_isOk (ht.of_rules hk₁) huntrack).mono _ fun _ _ he => he.elim
    rintro - w₂ ⟨rfl, hm₂, hk₂⟩
    have hrules := hk₂.trans hk₁
    have hframes (k : Nat) (hout : k * Page.size ∉ slot.span) :
        w₂.memory.frame? k = w.memory.frame? k := by
      rw [hm₂, Memory.unregister, htracked, if_neg hout, hm₁, hguarded, if_neg hout]
    have hpages (k : Nat) : w₂.memory.isMapped k = w.memory.isMapped k := by
      rw [hm₂, Memory.unregister, Memory.isMapped_of_frames htracked, hm₁, hmapped]
    simp only [logRefusal, Act.meets_pure]
    apply (ih (h.tail hframes hpages) (hu.of_rules hrules) (ht.of_rules hrules)).mono _
      fun _ _ he => he
    rintro refusals w₃ rfl
    rfl

/-- A thread that was told to stop comes closer to its end with each step. -/
theorem perform_stop_isOk {m : Memory} (h : Resting m w)
    (ht : w.monitor.thread = some ⟨p, false⟩) (hs : w.monitor.stopSignalled = true)
    (hk : w.kernel.Attends) (hp : 0 < p.untilEnded) :
    (perform p).Meets w
      (fun next w' => Resting m (w'.went next) ∧ w'.monitor.stopSignalled = true ∧
        w'.kernel.Attends ∧ ∃ q, next = .go q ∧
          q.untilEnded + 2 * w'.kernel.disturbances < p.untilEnded + 2 * w.kernel.disturbances)
      (fun _ _ => False) := by
  have hread : (w.kernel.ask .read).2.disturbances = w.kernel.disturbances := by
    rw [Kernel.disturbances, Kernel.disturbances, w.kernel.count_ask_of_ne (by decide)]
    rfl
  have hquiet : (w.kernel.ask .poll).2.disturbances ≤ w.kernel.disturbances := by
    rw [Kernel.disturbances, Kernel.disturbances, w.kernel.count_ask]
    exact Nat.sub_le_sub_left (Nat.le_succ _) _
  have hnears : (perform p).Meets w
      (fun next w' => w'.monitor.stopSignalled = true ∧ w'.kernel.Attends ∧ ∃ q, next = .go q ∧
        q.untilEnded + 2 * w'.kernel.disturbances < p.untilEnded + 2 * w.kernel.disturbances)
      (fun _ _ => False) := by
    cases p with
    | listen | stop =>
      simp only [perform, Act.meets_bind, meets_setState, Act.meets_pure]
      exact ⟨hs, hk, _, rfl, by simp [Point.untilEnded]⟩
    | poll =>
      simp only [perform, poll, Act.meets_bind, meets_onMachine_ask]
      rcases hk.ask_poll with hask | ⟨hask, hlt⟩
      · simp only [hask, Act.meets_pure]
        refine ⟨hs, hk.of_rules rfl, _, rfl, ?_⟩
        simp only [Point.untilEnded]
        exact Nat.add_lt_add_of_lt_of_le (by decide) (Nat.mul_le_mul_left 2 hquiet)
      · simp only [hask, Act.meets_pure]
        refine ⟨hs, hk.of_rules rfl, _, rfl, ?_⟩
        simp only [Point.untilEnded]
        have hlt' : (w.toMachine.called .poll).kernel.disturbances < w.kernel.disturbances := hlt
        omega
    | wait =>
      simp only [perform, Act.meets_bind, Act.meets_get, Act.meets_pure, hs, if_true]
      exact ⟨trivial, hk, _, rfl, by simp [Point.untilEnded]⟩
    | read =>
      simp only [perform, read, Act.meets_bind, meets_onMachine_ask]
      have hdone : w.monitor.stopSignalled = true ∧ (w.toMachine.called .read).kernel.Attends ∧
          ∃ q, Next.go .listen = .go q ∧ q.untilEnded +
            2 * (w.toMachine.called .read).kernel.disturbances <
              Point.untilEnded .read + 2 * w.kernel.disturbances := by
        refine ⟨hs, hk.of_rules rfl, _, rfl, ?_⟩
        simp only [Point.untilEnded]
        exact Nat.add_lt_add_of_lt_of_le (by decide) (Nat.mul_le_mul_left 2 hread.le)
      rcases hk.ask_read with hask | hask | hask
      · simp only [hask, Act.meets_bind, Act.meets_get, h.inbox, Act.meets_pure]
        exact hdone
      · simp only [hask, Act.meets_pure]
        exact hdone
      · simp only [hask, Act.meets_pure]
        exact hdone
    | count | finish =>
      simp only [perform, Act.meets_bind, meets_modifyMonitor, Act.meets_pure]
      exact ⟨hs, hk, _, rfl, by simp [Point.untilEnded]⟩
    | _ => exact absurd hp (Nat.lt_irrefl 0)
  exact ((h.perform ht).and hnears).mono (fun _ _ h => h) fun _ _ he => he.2

theorem serveFor_stop_isOk {m : Memory} {steps : Nat} (h : Resting m w)
    (ht : w.monitor.thread = some ⟨p, false⟩) (hs : w.monitor.stopSignalled = true)
    (hk : w.kernel.Attends) (hr : p.untilEnded + 2 * w.kernel.disturbances ≤ steps) :
    (serveFor steps).Meets w (fun _ w' => ∃ held, w'.monitor.thread = some ⟨.ended, held⟩)
      (fun _ _ => False) := by
  induction steps generalizing w p with
  | zero =>
    have hzero : p.untilEnded ≤ 0 := by omega
    rcases h.thread _ ht with hp | hp | hp
    · cases p <;> first | exact hp.elim | exact absurd hzero (by decide)
    · obtain rfl : p = .stop := hp
      exact absurd hzero (by decide)
    · obtain rfl : p = .ended := hp
      exact Act.meets_pure.mpr ⟨false, ht⟩
  | succ steps ih =>
    simp only [serveFor, Act.meets_bind, Act.meets_get, ht]
    by_cases hended : p = .ended
    · subst hended
      simp only [perform, Act.meets_pure]
      exact ⟨false, ht⟩
    · have hp : 0 < p.untilEnded := by
        rcases h.thread _ ht with hidle | hstop | hend
        · cases p <;> first | exact hidle.elim | decide
        · obtain rfl : p = .stop := hstop
          decide
        · exact absurd hend hended
      apply (perform_stop_isOk h ht hs hk hp).mono _ fun _ _ he => he
      rintro next w' ⟨h', hs', hk', q, rfl, hlt⟩
      simp only [setThread, Act.meets_bind, meets_modifyMonitor]
      refine ih (w := { w' with monitor := { w'.monitor with thread := some ⟨q, false⟩ } })
        h' rfl hs' hk' ?_
      show q.untilEnded + 2 * w'.kernel.disturbances ≤ steps
      omega

/-- The thread, if there is one, is not waiting for a request to return. -/
def Unheld (w : Watch) : Prop := ∀ t, w.monitor.thread = some t → t.held = false

theorem Rests.unheld {pages : Nat → Prop} {base : Memory} (h : Rests pages base w)
    (hk : w.kernel.Unscripted) : w.Unheld := by
  obtain ⟨raised, p, held, ht, hh, -⟩ := h
  intro t htt
  obtain rfl : (⟨p, held⟩ : Thread) = t := by simpa [ht] using htt
  exact hh (hk.grants .unprotect)

theorem join_isOk {m : Memory} (h : Resting m w) (hheld : w.Unheld) (hk : w.kernel.Attends) :
    join.Meets w (fun _ _ => True) (fun _ _ => False) := by
  simp only [join, Act.meets_bind, Act.meets_get]
  cases ht : w.monitor.thread with
  | none => exact Act.meets_pure.mpr trivial
  | some t =>
    obtain ⟨p, held⟩ := t
    obtain rfl : held = false := hheld _ ht
    have htold : Resting m { w with
        monitor := { w.monitor with stopSignalled := true, thread := some ⟨p, false⟩ } } :=
      ⟨h.memory, h.whole, h.inbox, fun t htt => h.thread t (ht.trans htt)⟩
    have hsteps : p.untilEnded + 2 * w.kernel.disturbances ≤ patience { w with
        monitor := { w.monitor with stopSignalled := true, thread := some ⟨p, false⟩ } } := by
      have := p.untilEnded_le
      simp only [patience, turnSteps, Kernel.disturbances]
      omega
    simp only [Act.meets_bind, meets_modifyMonitor, Act.meets_get, ht, serve]
    apply (serveFor_stop_isOk htold rfl rfl hk hsteps).mono _ fun _ _ he => he
    rintro _ w' ⟨held, hended⟩
    simp only [hended, meets_modifyMonitor]

/-- Tearing down a monitor whose regions can be given up succeeds. -/
theorem teardown_isOk (h : Resting w.memory w) (hheld : w.Unheld)
    (hslots : Enrolled w.monitor.slots.items.toList w.memory) (hk : w.kernel.Unscripted) :
    teardown.Meets w (fun _ _ => True) (fun _ _ => False) := by
  simp only [teardown, Act.meets_bind, Act.meets_get]
  apply ((releaseAll_meets _).and (releaseAll_isOk hslots (hk.grants _) (hk.grants _))).mono _
    fun _ _ he => he.2
  rintro refusals w₁ ⟨⟨h₁, -⟩, rfl⟩
  have hmonitor := h₁.monitor
  have hk₁ : w₁.kernel.Unscripted := h₁.rules.trans hk
  have hresting : Resting w₁.memory w₁ :=
    ⟨rfl, hmonitor ▸ h.whole, hmonitor ▸ h.inbox, hmonitor ▸ h.thread⟩
  have hheld₁ : w₁.Unheld := by
    unfold Unheld
    rw [hmonitor]
    exact hheld
  apply (join_isOk hresting hheld₁ hk₁.attends).mono _ fun _ _ he => he
  intro _ w₂ _
  simp only [meets_modifyMonitor, Act.meets_pure]

end Watch

end Rewind
