import Rewind.Proofs.Calm
import Rewind.Proofs.Arms

/-! Tearing a monitor down. All its requests only loosen: bytes stay, and no page is guarded that
was not. Where none of them is refused, no page of the regions is guarded any more. -/
namespace Rewind

open Monitor (Point State Thread)

namespace Memory

variable {m m' m'' : Memory} {s : Span}

/-- All bytes stayed, and no page is guarded that was not. -/
structure Loosened (m m' : Memory) : Prop where
  bytes : ∀ k, m'.bytes? k = m.bytes? k
  guarded : ∀ k, m'.isGuarded k = true → m.isGuarded k = true

theorem loosened_refl (m : Memory) : m.Loosened m := ⟨fun _ => rfl, fun _ => id⟩

theorem Loosened.trans (h : m.Loosened m') (h' : m'.Loosened m'') : m.Loosened m'' :=
  ⟨fun k => (h'.bytes k).trans (h.bytes k), fun k hg => h.guarded k (h'.guarded k hg)⟩

theorem Loosened.free (h : m.Loosened m') {k : Nat} (hk : m.isGuarded k = false) :
    m'.isGuarded k = false := by
  rw [← Bool.not_eq_true] at hk ⊢
  exact mt (h.guarded k) hk

theorem Loosened.byte (h : m.Loosened m') (x : Nat) : m'.byte x = m.byte x := by
  rw [byte_eq, byte_eq, h.bytes]

theorem loosened_of_frames (tracked : Frame → Bool) (h : ∀ k, m'.frame? k = m.frame? k ∨
    m'.frame? k = (m.frame? k).map fun f => { f with tracked := tracked f, guarded := false }) :
    m.Loosened m' := by
  constructor
  · intro k
    rw [bytes?, bytes?]
    rcases h k with hk | hk
    · rw [hk]
    · rw [hk, Option.map_map]
      rfl
  · intro k hg
    rw [isGuarded_eq] at hg ⊢
    rcases h k with hk | hk
    · rwa [hk] at hg
    · rw [hk] at hg
      cases hf : m.frame? k <;> simp [hf] at hg

theorem setGuarded_loosened (m : Memory) (s : Span) : m.Loosened (m.setGuarded s false).2 := by
  obtain ⟨done, -, hframes, -⟩ := setGuarded_spec false s m
  refine loosened_of_frames (·.tracked) fun k => ?_
  rw [hframes]
  by_cases hk : k ∈ done
  · exact .inr (if_pos hk)
  · exact .inl (if_neg hk)

theorem setTracked_of_error {tracked : Bool} {e : Errno}
    (h : (m.setTracked s tracked).1 = .error e) : (m.setTracked s tracked).2 = m := by
  unfold setTracked at h ⊢
  split at h
  · next ht => rw [if_pos ht]
  · next ht =>
    rw [if_neg ht]
    split at h
    · rfl
    · cases h

theorem unregister_loosened (m : Memory) (s : Span) : m.Loosened (m.unregister s).2 := by
  unfold unregister
  cases hr : (m.setTracked s false).1 with
  | error e =>
    rw [setTracked_of_error hr]
    exact loosened_refl m
  | ok =>
    refine loosened_of_frames (fun _ => false) fun k => ?_
    rw [frame?_setTracked_of_ok hr]
    by_cases hk : k * Page.size ∈ s
    · exact .inr (if_pos hk)
    · exact .inl (if_neg hk)

theorem isGuarded_setGuarded_of_ok (h : (m.setGuarded s false).1 = .ok ()) {k : Nat}
    (hk : k * Page.size ∈ s) : (m.setGuarded s false).2.isGuarded k = false := by
  rw [isGuarded_eq, frame?_setGuarded_of_ok h, if_pos hk]
  cases m.frame? k <;> rfl

end Memory

namespace Watch

variable {w w' w'' : Watch} {m : Memory}

/-- Requests were put that only loosen the memory, and the monitor took no part in it. -/
structure Released (w w' : Watch) : Prop where
  monitor : w'.monitor = w.monitor
  rules : w'.kernel.rules = w.kernel.rules
  memory : w.memory.Loosened w'.memory

theorem Released.trans (h : Released w w') (h' : Released w' w'') : Released w w'' :=
  ⟨h'.monitor.trans h.monitor, h'.rules.trans h.rules, h.memory.trans h'.memory⟩

/-- One of the last requests about a region: if it is not refused, it had its effect. -/
theorem release_request_meets (stage : Stage) (span : Span) (call : Kernel.Call)
    {f : Memory → Except Errno Unit × Memory} (hf : ∀ m : Memory, m.Loosened (f m).2) :
    (release stage span (Machine.requestMemory call f)).Meets w
      (fun r w' => Released w w' ∧
        (r = none → (f w.memory).1 = .ok () ∧ w'.memory = (f w.memory).2))
      (fun e _ => Halts e) := by
  simp only [release, Act.meets_bind, meets_request]
  apply Machine.requestMemory_meets.mono
  · intro r m hpost
    obtain ⟨hok, -, rfl⟩ := hpost
    cases r with
    | prompt => exact Act.meets_pure.mpr ⟨⟨rfl, rfl, hf _⟩, fun _ => ⟨hok, rfl⟩⟩
    | late => exact meets_halt.mpr (halts _)
  · intro _ m hpost
    obtain ⟨errno, rfl, ⟨-, rfl⟩ | ⟨-, rfl⟩⟩ := hpost
    · exact Act.meets_pure.mpr ⟨⟨rfl, rfl, Memory.loosened_refl _⟩, by rintro ⟨⟩⟩
    · exact Act.meets_pure.mpr ⟨⟨rfl, rfl, hf _⟩, by rintro ⟨⟩⟩

theorem logRefusal_meets (refusal : Option Failure) :
    (logRefusal refusal).Meets w (fun _ w' => Released w w' ∧ w'.memory = w.memory)
      (fun _ _ => False) := by
  unfold logRefusal
  split
  · exact meets_onMachine_log.mpr ⟨⟨rfl, rfl, Memory.loosened_refl _⟩, rfl⟩
  · exact Act.meets_pure.mpr ⟨⟨rfl, rfl, Memory.loosened_refl _⟩, rfl⟩

/-- Giving up regions only loosens, and where nothing is refused, no page of them stays guarded. -/
theorem releaseAll_meets (slots : List Slot) : (releaseAll slots).Meets w
    (fun refusals w' => Released w w' ∧
      (refusals = [] → ∀ n, Within slots n → w'.memory.isGuarded n = false))
    (fun e _ => Halts e) := by
  induction slots generalizing w with
  | nil =>
    exact Act.meets_pure.mpr ⟨⟨rfl, rfl, Memory.loosened_refl _⟩,
      fun _ n hn => by simp [Within] at hn⟩
  | cons slot slots ih =>
    simp only [releaseAll, Act.meets_bind]
    apply (release_request_meets .unprotect slot.span .unprotect
      (Memory.setGuarded_loosened · slot.span)).mono _ fun _ _ he => he
    intro unguarded w₁ hpost
    obtain ⟨h₁, hunguarded⟩ := hpost
    apply (release_request_meets .unregister slot.span .unregister
      (Memory.unregister_loosened · slot.span)).mono _ fun _ _ he => he
    intro untracked w₂ hpost
    obtain ⟨h₂, -⟩ := hpost
    apply (logRefusal_meets unguarded).mono _ fun _ _ he => he.elim
    intro _ w₃ hpost
    obtain ⟨h₃, -⟩ := hpost
    apply (logRefusal_meets untracked).mono _ fun _ _ he => he.elim
    intro _ w₄ hpost
    obtain ⟨h₄, -⟩ := hpost
    apply ih.mono _ fun _ _ he => he
    intro others w₅ hpost
    obtain ⟨h₅, hothers⟩ := hpost
    have hrest : Released w₁ w₅ := h₂.trans (h₃.trans (h₄.trans h₅))
    refine Act.meets_pure.mpr ⟨h₁.trans hrest, fun hnone => ?_⟩
    simp only [List.append_eq_nil_iff, Option.toList_eq_nil_iff] at hnone
    rintro n ⟨other, hmem, hn⟩
    rcases List.mem_cons.mp hmem with rfl | hmem
    · obtain ⟨hok, hmemory⟩ := hunguarded hnone.1.1
      apply hrest.memory.free
      rw [hmemory]
      exact Memory.isGuarded_setGuarded_of_ok hok hn
    · exact hothers hnone.2 n ⟨other, hmem, hn⟩

/-- There is no message, and the thread, if there is one, serves no page. -/
structure Resting (m : Memory) (w : Watch) : Prop where
  memory : w.memory = m
  whole : w.monitor.snapshot.Whole
  inbox : w.monitor.inbox = none
  thread : ∀ t, w.monitor.thread = some t → t.next.IsIdle ∨ t.next = .stop ∨ t.next = .ended

theorem resting_of_thread (hw : w.monitor.snapshot.Whole) (hi : w.monitor.inbox = none)
    (ht : w.monitor.thread = none) : Resting w.memory w := ⟨rfl, hw, hi, by simp [ht]⟩

theorem Rests.resting {pages : Nat → Prop} {base : Memory} (h : Rests pages base w) :
    Resting w.memory w := by
  obtain ⟨raised, p, held, ht, -, hv, -⟩ := h
  have stage := hv.stage
  generalize hi : w.monitor.inbox = inbox at stage
  cases stage with
  | quiet hp =>
    refine ⟨rfl, hv.whole, hi, fun t htt => .inl ?_⟩
    obtain rfl : (⟨p, held⟩ : Thread) = t := by simpa [ht] using htt
    exact hp

theorem Resting.loop {p : Point} {next : Next} (h : Resting m w) (hp : p.IsIdle)
    (hs : LoopStep w p next w') : Resting m (w'.went next) := by
  obtain ⟨memory, whole, inbox, thread⟩ := h
  cases hs with
  | look _ hq =>
    refine ⟨memory, whole, inbox, ?_⟩
    rintro _ ⟨⟩
    exact .inl hq.isIdle
  | block => exact ⟨memory, whole, inbox, thread⟩
  | stop =>
    refine ⟨memory, whole, inbox, ?_⟩
    rintro _ ⟨⟩
    exact .inr (.inl rfl)
  | take hi => simp [inbox] at hi
  | count | finish =>
    refine ⟨memory, whole, inbox, ?_⟩
    rintro _ ⟨⟩
    exact .inl trivial
  | _ => exact hp.elim

theorem Resting.perform {p : Point} {held : Bool} (h : Resting m w)
    (ht : w.monitor.thread = some ⟨p, held⟩) :
    (perform p).Meets w (fun next w' => Resting m (w'.went next)) (fun e _ => EndsProcess e) := by
  rcases h.thread _ ht with hp | hp | hp
  · exact (perform_meets h.whole hp.inLoop).mono (fun _ _ hs => h.loop hp hs) fun _ _ he => he
  · obtain rfl : p = .stop := hp
    simp only [Watch.perform, Act.meets_bind, meets_setState, Act.meets_pure]
    refine ⟨h.memory, h.whole, h.inbox, ?_⟩
    rintro _ ⟨⟩
    exact .inr (.inr rfl)
  · obtain rfl : p = .ended := hp
    exact Act.meets_pure.mpr h

/-- A thread that serves no page leaves the memory alone, whatever the kernel answers. -/
theorem Resting.serve (h : Resting m w) :
    serve.Meets w (fun _ w' => Resting m w') (fun e _ => EndsProcess e) :=
  serve_meets (fun _ _ h₁ ht => h₁.perform ht) h

theorem Resting.join (h : Resting m w) :
    join.Meets w (fun _ w' => w'.memory = m) (fun e _ => EndsProcess e) := by
  have htold : Resting m { w with monitor := { w.monitor with stopSignalled := true } } :=
    ⟨h.memory, h.whole, h.inbox, h.thread⟩
  simp only [Watch.join, Act.meets_bind, Act.meets_get]
  split
  · exact Act.meets_pure.mpr h.memory
  · simp only [Act.meets_bind, meets_modifyMonitor, Act.meets_get]
    apply htold.serve.mono _ fun _ _ he => he
    intro _ w' h'
    split
    · exact meets_modifyMonitor.mpr h'.memory
    · exact meets_halt.mpr (halts _).endsProcess

/-- Arming that comes back leaves the monitor armed. -/
theorem arm_armed_meets (table : List Slot) (timeout : Duration) :
    (arm table timeout).Meets w (fun _ w' => w'.monitor.armed = true) (fun _ _ => True) := by
  simp only [arm, Act.meets_bind, Act.meets_get, Act.meets_ite]
  refine ⟨fun _ => meets_fail.mpr trivial, fun _ => ?_⟩
  apply (Act.meets_true _ w).mono _ fun _ _ h => h
  intro _ w₁ _
  apply (Act.meets_true _ w₁).mono _ fun _ _ h => h
  intro _ w₂ _
  apply (Act.meets_true _ w₂).mono _ fun _ _ h => h
  intro _ w₃ _
  apply (Act.meets_true _ w₃).mono _ fun _ _ h => h
  intro r w₄ _
  cases r with
  | armed =>
    simp only [Act.meets_bind, meets_modifyMonitor, meets_onMachine_log]
  | refused index stage errno =>
    rw [Act.meets_bind]
    apply (Act.meets_true _ w₄).mono _ fun _ _ h => h
    intro _ w₅ _
    split
    · exact meets_fail.mpr trivial
    · exact Act.meets_throw.mpr trivial
  | pending => exact meets_fail.mpr trivial

/-- Teardown leaves all bytes as they are, and if the monitor was armed and teardown succeeds, no
page of a region that was ever handed over is guarded any more. -/
theorem teardown_meets (h : Resting w.memory w) :
    teardown.Meets w
      (fun _ w' => w.memory.Loosened w'.memory ∧ (w.monitor.armed = true →
        ∀ n, Within w.monitor.slots.items.toList n → w'.memory.isGuarded n = false))
      (fun _ _ => True) := by
  simp only [teardown, Act.meets_bind, Act.meets_get]
  apply (releaseAll_meets _).mono _ fun _ _ _ => trivial
  intro refusals w₁ hpost
  obtain ⟨h₁, hfree⟩ := hpost
  have hresting : Resting w₁.memory w₁ := by
    have heq := h₁.monitor
    refine ⟨rfl, ?_, ?_, ?_⟩
    · exact heq ▸ h.whole
    · exact heq ▸ h.inbox
    · exact heq ▸ h.thread
  apply hresting.join.mono _ fun _ _ _ => trivial
  intro _ w₂ hmemory
  rw [meets_modifyMonitor, h₁.monitor]
  cases refusals with
  | nil =>
    refine Act.meets_pure.mpr ⟨?_, fun _ n hn => ?_⟩
    · show w.memory.Loosened w₂.memory
      rw [hmemory]
      exact h₁.memory
    · show w₂.memory.isGuarded n = false
      rw [hmemory]
      exact hfree rfl n hn
  | cons first rest =>
    rw [Act.meets_ite]
    refine ⟨fun _ => meets_fail.mpr trivial, fun hunarmed => Act.meets_pure.mpr ⟨?_, ?_⟩⟩
    · show w.memory.Loosened w₂.memory
      rw [hmemory]
      exact h₁.memory
    · exact fun harmed => absurd harmed hunarmed

end Watch

end Rewind
