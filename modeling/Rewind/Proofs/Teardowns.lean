import Rewind.Proofs.Composure
import Rewind.Proofs.Recovery
import Rewind.Proofs.Unscripted

/-! Tearing a monitor down, however it was used before. Both requests are put for every region,
whatever came of those before, and the first refusal is reported to a monitor that was armed. -/
namespace Rewind

open Monitor (Point State Thread)

namespace Memory

variable {m m' : Memory} {s : Span} {n : Nat}

/-- Pages of the span may have lost their guard, and their tracking with it. All else stayed. -/
def Lowered (s : Span) (m m' : Memory) : Prop := ∀ n, m'.frame? n = m.frame? n ∨
  n * Page.size ∈ s ∧ ∃ kept : Bool, m'.frame? n =
    (m.frame? n).map fun f => { f with tracked := kept && f.tracked, guarded := false }

theorem lowered_refl (s : Span) (m : Memory) : m.Lowered s m := fun _ => .inl rfl

theorem Lowered.bytes (h : m.Lowered s m') (n : Nat) : m'.bytes? n = m.bytes? n := by
  rw [bytes?, bytes?]
  rcases h n with hn | ⟨-, kept, hn⟩
  · rw [hn]
  · rw [hn, Option.map_map]
    rfl

theorem Lowered.isMapped (h : m.Lowered s m') (n : Nat) : m'.isMapped n = m.isMapped n := by
  rw [isMapped_eq, h.bytes, isMapped_eq]

theorem Lowered.guarded (h : m.Lowered s m') (hn : m'.isGuarded n = true) :
    m.isGuarded n = true := by
  rw [isGuarded_eq] at hn ⊢
  rcases h n with hsame | ⟨-, kept, hlow⟩
  · rwa [hsame] at hn
  · rw [hlow] at hn
    cases hf : m.frame? n <;> simp [hf] at hn

theorem Lowered.frame?_of_not_mem (h : m.Lowered s m') (hn : n * Page.size ∉ s) :
    m'.frame? n = m.frame? n := (h n).resolve_right fun hin => hn hin.1

/-- The page is neither tracked nor guarded. -/
def IsPlain (m : Memory) (n : Nat) : Prop := m.isTracked n = false ∧ m.isGuarded n = false

theorem Lowered.frame?_of_isPlain (h : m.Lowered s m') (hn : m.IsPlain n) :
    m'.frame? n = m.frame? n := by
  rcases h n with hsame | ⟨-, kept, hlow⟩
  · exact hsame
  · obtain ⟨htracked, hguarded⟩ := hn
    rw [isTracked] at htracked
    rw [isGuarded_eq] at hguarded
    rw [hlow]
    cases hf : m.frame? n with
    | none => rfl
    | some f =>
      obtain ⟨bytes, access, source, tracked, guarded⟩ := f
      obtain rfl : tracked = false := by simpa [hf] using htracked
      obtain rfl : guarded = false := by simpa [hf] using hguarded
      rw [Option.map_some, Bool.and_false]

theorem isPlain_congr (h : m'.frame? n = m.frame? n) : m'.IsPlain n ↔ m.IsPlain n := by
  rw [IsPlain, IsPlain, isTracked, isTracked, isGuarded_eq, isGuarded_eq, h]

theorem setGuarded_lowered (s : Span) (m : Memory) : m.Lowered s (m.setGuarded s false).2 := by
  obtain ⟨done, hdone, hframes, -⟩ := setGuarded_spec false s m
  intro n
  rw [hframes]
  by_cases hn : n ∈ done
  · exact .inr ⟨(mem_pagesIn.mp (hdone n hn).1).2, true, if_pos hn⟩
  · exact .inl (if_neg hn)

theorem unregister_lowered (s : Span) (m : Memory) : m.Lowered s (m.unregister s).2 := by
  unfold unregister
  cases hr : (m.setTracked s false).1 with
  | error e =>
    rw [setTracked_of_error hr]
    exact lowered_refl s m
  | ok =>
    intro n
    rw [frame?_setTracked_of_ok hr]
    by_cases hn : n * Page.size ∈ s
    · exact .inr ⟨hn, false, if_pos hn⟩
    · exact .inl (if_neg hn)

theorem isPlain_unregister_of_ok (h : (m.unregister s).1 = .ok ()) (hn : n * Page.size ∈ s) :
    (m.unregister s).2.IsPlain n := by
  unfold unregister at h ⊢
  rw [IsPlain, isTracked, isGuarded_eq, frame?_setTracked_of_ok h, if_pos hn]
  cases m.frame? n <;> exact ⟨rfl, rfl⟩

end Memory

/-- What the kernel said to the two requests to give a region up, if not that it was done. -/
structure Reply where
  slot : Slot
  unguarded : Option Errno
  untracked : Option Errno

namespace Reply

/-- The refusals of a region, in the order of its requests. -/
def refusals (r : Reply) : List Failure :=
  (r.unguarded.map (.registration r.slot.span .unprotect)).toList ++
    (r.untracked.map (.registration r.slot.span .unregister)).toList

end Reply

namespace Machine

variable {m m' : Machine} {n : Nat}

/-- A request was put, and done at once or refused. -/
inductive Replies (act : Act Machine Errno Return) (m : Machine) : Option Errno → Machine → Prop
  | done {m' : Machine} (h : act.on m = (.ok .prompt, m')) : Replies act m none m'
  | refused {errno : Errno} {m' : Machine} (h : act.on m = (.error (.error errno), m')) :
      Replies act m (some errno) m'

/-- Both requests were put for one region after another, whatever came of those before. In between
something may be entered in the journal. -/
inductive Asked : Machine → List Reply → Machine → Prop
  | nil {m : Machine} : Asked m [] m
  | cons {m m₁ m₂ m' : Machine} {reply : Reply} {replies : List Reply} (journal : Log.Journal)
      (hu : Replies (unguard reply.slot.span) m reply.unguarded m₁)
      (ht : Replies (unregister reply.slot.span) m₁ reply.untracked m₂)
      (h : Asked { m₂ with journal := journal } replies m') : Asked m (reply :: replies) m'

/-- What a request did to the memory, by what came of it. -/
theorem Replies.memory {call : Kernel.Call} {f : Memory → Except Errno Unit × Memory}
    {reply : Option Errno} (h : Replies (requestMemory call f) m reply m') :
    (m'.memory = m.memory ∨ m'.memory = (f m.memory).2) ∧
      (reply = none → (f m.memory).1 = .ok () ∧ m'.memory = (f m.memory).2) := by
  cases h with
  | done h =>
    obtain ⟨hok, -, rfl⟩ := requestMemory_meets.ok h
    exact ⟨.inr rfl, fun _ => ⟨hok, rfl⟩⟩
  | refused h =>
    obtain ⟨-, -, ⟨-, rfl⟩ | ⟨-, rfl⟩⟩ := requestMemory_meets.error h
    · exact ⟨.inl rfl, fun hnone => by cases hnone⟩
    · exact ⟨.inr rfl, fun hnone => by cases hnone⟩

theorem Replies.lowered {call : Kernel.Call} {f : Memory → Except Errno Unit × Memory} {s : Span}
    {reply : Option Errno} (h : Replies (requestMemory call f) m reply m')
    (hf : ∀ m : Memory, m.Lowered s (f m).2) : m.memory.Lowered s m'.memory := by
  rcases h.memory.1 with hm | hm
  · rw [hm]
    exact Memory.lowered_refl s _
  · rw [hm]
    exact hf _

theorem Replies.of_grants {call : Kernel.Call} {f : Memory → Except Errno Unit × Memory}
    {reply : Option Errno} (h : Replies (requestMemory call f) m reply m')
    (hg : m.kernel.Grants call) (hf : (f m.memory).1 = .ok ()) : reply = none := by
  cases h with
  | done => rfl
  | refused h =>
    rw [requestMemory_of_grants hg (Prod.ext hf rfl)] at h
    cases h

theorem Replies.kernel {call : Kernel.Call} {f : Memory → Except Errno Unit × Memory}
    {reply : Option Errno} (h : Replies (requestMemory call f) m reply m') :
    m'.kernel = (m.kernel.ask call).2 := by
  cases h with
  | done h =>
    obtain ⟨-, -, rfl⟩ := requestMemory_meets.ok h
    rfl
  | refused h =>
    obtain ⟨-, -, ⟨-, rfl⟩ | ⟨-, rfl⟩⟩ := requestMemory_meets.error h <;> rfl

variable {replies : List Reply}

/-- Either request is put once for each region. -/
theorem Asked.count (h : Asked m replies m') {call : Kernel.Call}
    (hc : call = .unprotect ∨ call = .unregister) :
    m'.kernel.count call = m.kernel.count call + replies.length := by
  induction h with
  | nil => rfl
  | @cons m m₁ m₂ m' reply replies _ hu ht _ ih =>
    have hboth : m₂.kernel.count call = m.kernel.count call + 1 := by
      rw [ht.kernel]
      rcases hc with rfl | rfl
      · rw [Kernel.count_ask_of_ne _ (by decide), hu.kernel, Kernel.count_ask]
      · rw [Kernel.count_ask, hu.kernel, Kernel.count_ask_of_ne _ (by decide)]
    rw [List.length_cons]
    exact ih.trans (by rw [hboth, Nat.add_assoc, Nat.add_comm 1])

theorem Asked.bytes (h : Asked m replies m') (n : Nat) :
    m'.memory.bytes? n = m.memory.bytes? n := by
  induction h with
  | nil => rfl
  | @cons m m₁ m₂ m' reply _ _ hu ht _ ih =>
    have h₁ := hu.lowered (Memory.setGuarded_lowered reply.slot.span)
    have h₂ := ht.lowered (Memory.unregister_lowered reply.slot.span)
    exact ih.trans ((h₂.bytes n).trans (h₁.bytes n))

theorem Asked.guarded (h : Asked m replies m') (hn : m'.memory.isGuarded n = true) :
    m.memory.isGuarded n = true := by
  induction h with
  | nil => exact hn
  | @cons m m₁ m₂ m' reply _ _ hu ht _ ih =>
    have h₁ := hu.lowered (Memory.setGuarded_lowered reply.slot.span)
    have h₂ := ht.lowered (Memory.unregister_lowered reply.slot.span)
    exact h₁.guarded (h₂.guarded (ih hn))

/-- A region that could be tracked is given up unless the script says otherwise. -/
theorem Asked.untracked_of_grants (h : Asked m replies m') (hg : m.kernel.Grants .unregister)
    {reply : Reply} (hr : reply ∈ replies) (hs : m.memory.Enlistable reply.slot.span) :
    reply.untracked = none := by
  induction h with
  | nil => cases hr
  | @cons m m₁ m₂ m' first replies _ hu ht _ ih =>
    have h₁ := hu.lowered (Memory.setGuarded_lowered first.slot.span)
    have h₂ := ht.lowered (Memory.unregister_lowered first.slot.span)
    have hg₁ : m₁.kernel.Grants .unregister := hg.of_rules (by rw [hu.kernel]; rfl)
    have hs₁ := hs.of_mapped h₁.isMapped
    rcases List.mem_cons.mp hr with rfl | hr
    · exact ht.of_grants hg₁ (hs₁.setTracked false)
    · exact ih (hg₁.of_rules (by rw [ht.kernel]; rfl)) hr (hs₁.of_mapped h₂.isMapped)

theorem Asked.frame?_of_not_within (h : Asked m replies m')
    (hn : ¬Within (replies.map (·.slot)) n) : m'.memory.frame? n = m.memory.frame? n := by
  induction h with
  | nil => rfl
  | @cons m m₁ m₂ m' reply replies _ hu ht _ ih =>
    have h₁ := hu.lowered (Memory.setGuarded_lowered reply.slot.span)
    have h₂ := ht.lowered (Memory.unregister_lowered reply.slot.span)
    have hout : n * Page.size ∉ reply.slot.span := fun hin =>
      hn ⟨reply.slot, List.mem_cons_self, hin⟩
    have hrest : ¬Within (replies.map (·.slot)) n := by
      rintro ⟨slot, hmem, hin⟩
      exact hn ⟨slot, List.mem_cons_of_mem _ hmem, hin⟩
    exact (ih hrest).trans ((h₂.frame?_of_not_mem hout).trans (h₁.frame?_of_not_mem hout))

/-- A page that is neither tracked nor guarded has nothing to lose. -/
theorem Asked.frame?_of_isPlain (h : Asked m replies m') (hn : m.memory.IsPlain n) :
    m'.memory.frame? n = m.memory.frame? n := by
  induction h with
  | nil => rfl
  | @cons m m₁ m₂ m' reply _ _ hu ht _ ih =>
    have h₁ := (hu.lowered (Memory.setGuarded_lowered reply.slot.span)).frame?_of_isPlain hn
    have hn₁ := (Memory.isPlain_congr h₁).mpr hn
    have h₂ := (ht.lowered (Memory.unregister_lowered reply.slot.span)).frame?_of_isPlain hn₁
    have hn₂ := (Memory.isPlain_congr h₂).mpr hn₁
    exact (ih hn₂).trans (h₂.trans h₁)

/-- A page of a region that is not registered any more is plain, and stays so. -/
theorem Asked.isPlain (h : Asked m replies m') {reply : Reply} (hr : reply ∈ replies)
    (hdone : reply.untracked = none) (hn : n * Page.size ∈ reply.slot.span) :
    m'.memory.IsPlain n := by
  induction h with
  | nil => cases hr
  | @cons m m₁ m₂ m' first replies _ hu ht h ih =>
    rcases List.mem_cons.mp hr with rfl | hr
    · obtain ⟨hok, hm⟩ := ht.memory.2 hdone
      have hplain : m₂.memory.IsPlain n := hm ▸ Memory.isPlain_unregister_of_ok hok hn
      exact (Memory.isPlain_congr (h.frame?_of_isPlain hplain)).mpr hplain
    · exact ih hr

end Machine

theorem Monitor.closed_eq {m : Monitor} (ha : m.armed = false)
    (hs : m.state = .failed ∨ m.state = .stopped) :
    { m with armed := false, state := if m.state = .failed then .failed else .stopped } = m := by
  cases m
  cases ha
  rcases hs with rfl | rfl <;> rfl

/-- The thread sees the word to stop without another call. -/
def Monitor.Point.Leaves : Point → Prop
  | .wait | .stop | .ended => True
  | _ => False

/-- The script holds back no request to give a region up. -/
def Kernel.ReleasesAtOnce (k : Kernel) : Prop :=
  ∀ rule ∈ k.rules, rule.call = .unprotect ∨ rule.call = .unregister → rule.answer ≠ .hold

/-- As many regions were asked to be given up before the one as before the other. -/
def Kernel.SameReleases (k k' : Kernel) : Prop :=
  ∀ call, call = .unprotect ∨ call = .unregister → k'.count call = k.count call

theorem Kernel.sameReleases_refl (k : Kernel) : k.SameReleases k := fun _ _ => rfl

theorem Kernel.SameReleases.trans {k k' k'' : Kernel} (h : k.SameReleases k')
    (h' : k'.SameReleases k'') : k.SameReleases k'' :=
  fun call hc => (h' call hc).trans (h call hc)

theorem Kernel.sameReleases_ask (k : Kernel) {other : Call}
    (h : other = .poll ∨ other = .read) : k.SameReleases (k.ask other).2 := by
  intro call hc
  apply k.count_ask_of_ne
  rcases h with rfl | rfl <;> rcases hc with rfl | rfl <;> decide

theorem Kernel.ReleasesAtOnce.of_rules {k k' : Kernel} (h : k.ReleasesAtOnce)
    (hk : k'.rules = k.rules) : k'.ReleasesAtOnce := fun rule hrule => h rule (hk ▸ hrule)

theorem Kernel.ReleasesAtOnce.ask {k : Kernel} (h : k.ReleasesAtOnce) {call : Call}
    (hc : call = .unprotect ∨ call = .unregister) : (k.ask call).1 ≠ some .hold := by
  intro hask
  obtain ⟨rule, hrule, rfl, -, hanswer⟩ := k.exists_rule hask
  exact h rule hrule hc hanswer

namespace Watch

variable {w w' w₀ : Watch} {p : Point} {next : Next} {slots : List Slot} {replies : List Reply}

theorem release_replies_meets {stage : Stage} {span : Span} {call : Kernel.Call}
    {f : Memory → Except Errno Unit × Memory} (hc : call = .unprotect ∨ call = .unregister) :
    (release stage span (Machine.requestMemory call f)).Meets w
      (fun refusal w' => ∃ reply m, refusal = reply.map (.registration span stage) ∧
        Machine.Replies (Machine.requestMemory call f) w.toMachine reply m ∧
        m.kernel.rules = w.kernel.rules ∧ w' = { w with toMachine := m })
      (fun e _ => EndsProcess e ∧ ¬w.kernel.ReleasesAtOnce) := by
  simp only [release, Act.meets_bind, meets_request]
  refine ((Act.meets_self _ _).and Machine.requestMemory_meets).mono ?_ ?_
  · rintro r m ⟨hon, -, hr, rfl⟩
    cases r with
    | prompt => exact Act.meets_pure.mpr ⟨none, _, rfl, .done hon, rfl, rfl⟩
    | late =>
      refine meets_halt.mpr ⟨(halts _).endsProcess, fun hk => ?_⟩
      rw [Machine.returnOf, if_neg (hk.ask hc)] at hr
      cases hr
  · rintro _ m ⟨hon, errno, rfl, ⟨-, rfl⟩ | ⟨-, rfl⟩⟩
    · exact Act.meets_pure.mpr ⟨some errno, _, rfl, .refused hon, rfl, rfl⟩
    · exact Act.meets_pure.mpr ⟨some errno, _, rfl, .refused hon, rfl, rfl⟩

theorem logRefusal_journal_meets (refusal : Option Failure) : (logRefusal refusal).Meets w
    (fun _ w' => ∃ journal, w' = { w with journal := journal }) (fun _ _ => False) := by
  unfold logRefusal
  split
  · exact meets_onMachine_log.mpr ⟨_, rfl⟩
  · exact Act.meets_pure.mpr ⟨w.journal, rfl⟩

/-- All that giving up the regions of a list does. -/
theorem releaseAll_replies_meets (slots : List Slot) : (releaseAll slots).Meets w
    (fun refusals w' => ∃ replies m, refusals = replies.flatMap Reply.refusals ∧
      replies.map (·.slot) = slots ∧ w.toMachine.Asked replies m ∧
      m.kernel.rules = w.kernel.rules ∧ w' = { w with toMachine := m })
    (fun e _ => EndsProcess e ∧ ¬w.kernel.ReleasesAtOnce) := by
  induction slots generalizing w with
  | nil => exact Act.meets_pure.mpr ⟨[], _, rfl, rfl, .nil, rfl, rfl⟩
  | cons slot slots ih =>
    simp only [releaseAll, Act.meets_bind]
    refine (release_replies_meets (.inl rfl)).mono ?_ fun _ _ he => he
    rintro _ w₁ ⟨unguarded, m₁, rfl, hu, hk₁, rfl⟩
    refine (release_replies_meets (.inr rfl)).mono ?_ fun _ _ he =>
      he.imp_right fun hk hw => hk (hw.of_rules hk₁)
    rintro _ w₂ ⟨untracked, m₂, rfl, ht, hk₂, rfl⟩
    refine (logRefusal_journal_meets _).mono ?_ fun _ _ he => he.elim
    rintro _ w₃ ⟨j₃, rfl⟩
    refine (logRefusal_journal_meets _).mono ?_ fun _ _ he => he.elim
    rintro _ w₄ ⟨j₄, rfl⟩
    have hk : m₂.kernel.rules = w.kernel.rules := hk₂.trans hk₁
    refine ih.mono ?_ fun _ _ he => he.imp_right fun hkept hw => hkept (hw.of_rules hk)
    rintro _ w₅ ⟨replies, m, rfl, rfl, hasked, hk₅, rfl⟩
    exact Act.meets_pure.mpr ⟨⟨slot, unguarded, untracked⟩ :: replies, m, rfl, rfl,
      .cons j₄ hu ht hasked, hk₅.trans hk, rfl⟩

/-- A thread without a page in hand asks for nothing to be given up. -/
theorem perform_idle_releases_meets (hp : p.IsIdle ∨ p = .stop ∨ p = .ended) :
    (perform p).Meets w (fun _ w' => w.kernel.SameReleases w'.kernel) fun _ _ => True := by
  have hread : w.kernel.SameReleases (w.toMachine.called .read).kernel :=
    w.kernel.sameReleases_ask (.inr rfl)
  rcases hp with hidle | rfl | rfl
  · cases p with
    | listen | count | finish =>
      simp only [perform, Act.meets_bind, meets_setState, meets_modifyMonitor, Act.meets_pure]
      exact w.kernel.sameReleases_refl
    | poll =>
      refine poll_meets.mono (fun _ _ hpost => ?_) fun _ _ _ => trivial
      obtain ⟨q, -, -, rfl⟩ := hpost
      exact w.kernel.sameReleases_ask (.inl rfl)
    | wait =>
      simp only [perform, Act.meets_bind, Act.meets_get, Act.meets_pure]
      exact w.kernel.sameReleases_refl
    | read =>
      simp only [perform, read, Act.meets_bind, meets_onMachine_ask]
      split
      case h_4 =>
        rw [Act.meets_ite]
        exact ⟨fun _ => Act.meets_pure.mpr hread, fun _ => meets_halt.mpr trivial⟩
      case h_6 =>
        simp only [Act.meets_bind, Act.meets_get]
        split
        · exact Act.meets_pure.mpr hread
        · simp only [Act.meets_bind, meets_modifyMonitor, Act.meets_pure]
          exact hread
      all_goals first | exact Act.meets_pure.mpr hread | exact meets_halt.mpr trivial
    | _ => exact hidle.elim
  · simp only [perform, Act.meets_bind, meets_setState, Act.meets_pure]
    exact w.kernel.sameReleases_refl
  · exact Act.meets_pure.mpr w.kernel.sameReleases_refl

/-- The thread of `w₀` is on its way to its end. -/
structure Winding (w₀ w : Watch) : Prop where
  running : w.monitor.Running
  memory : w.memory = w₀.memory
  releases : w₀.kernel.SameReleases w.kernel
  inbox : w.monitor.inbox = none
  failed : w.monitor.state = .failed ↔ w₀.monitor.state = .failed
  thread : ∀ t, w.monitor.thread = some t →
    t.held = true ∨ t.next.IsIdle ∨ t.next = .stop ∨ t.next = .ended

theorem Winding.perform (h : Winding w₀ w) (ht : w.monitor.thread = some ⟨p, false⟩) :
    (perform p).Meets w (fun next w' => Winding w₀ (w'.went next)) (fun e _ => EndsProcess e) := by
  have hp : p.IsIdle ∨ p = .stop ∨ p = .ended :=
    (h.thread _ ht).resolve_left Bool.false_ne_true
  have hresting : Resting w₀.memory w := by
    refine ⟨h.memory, h.running.whole, h.inbox, fun t htt => ?_⟩
    obtain rfl : (⟨p, false⟩ : Thread) = t := by simpa [ht] using htt
    exact hp
  refine (((hresting.perform ht).and (perform_running_meets h.running ht)).and
    ((perform_state_meets w p).and (perform_idle_releases_meets hp))).mono ?_ fun _ _ he => he.1.1
  rintro next w' ⟨⟨hr, hrunning, -⟩, hstate, hreleases⟩
  have hkernel : (w'.went next).kernel = w'.kernel := by rw [toMachine_went]
  refine ⟨hrunning, hr.memory, hkernel ▸ h.releases.trans hreleases, hr.inbox, ?_,
    fun t htt => .inr (hr.thread t htt)⟩
  have hsame : (w'.went next).monitor.state = w'.monitor.state := by cases next <;> rfl
  rw [hsame, hstate]
  by_cases hended : p = .ended
  · subst hended
    exact h.failed
  · -- In the loop the monitor has not failed, and no step of the loop stores a failure.
    have htracks : p.Tracks := by
      rcases hp with hidle | rfl | rfl
      · cases p <;> first | exact hidle.elim | trivial
      · trivial
      · exact absurd rfl hended
    have hbefore := h.running.unfailed _ ht htracks
    have hw₀ : w₀.monitor.state ≠ .failed := mt h.failed.mpr hbefore
    refine iff_of_false ?_ hw₀
    cases p <;> first | exact htracks.elim | exact hbefore | exact State.noConfusion

/-- A thread between two calls that is not held waits for a message, or is at its end. -/
theorem held_or_isIdle_of_composed (hs : w.monitor.Steady) (hc : w.monitor.Composed) {t : Thread}
    (ht : w.monitor.thread = some t) :
    t.held = true ∨ t.next.IsIdle ∨ t.next = .stop ∨ t.next = .ended := by
  have hserved := (hs.thread t ht).served
  have htold := hc.told t ht
  obtain ⟨p, held⟩ := t
  cases p with
  | listen | poll | wait | read | count | finish => exact .inr (.inl trivial)
  | stop => exact .inr (.inr (.inl rfl))
  | ended => exact .inr (.inr (.inr rfl))
  | begin | capturing | capture | unprotecting | release => cases hserved
  | _ => exact .inl (htold trivial)

theorem keeps_join : join.Keeps custody := by
  refine Act.keeps_get.bind fun w => ?_
  split
  · exact Act.keeps_pure _
  · have htell : (modifyMonitor fun m => { m with stopSignalled := true }).Keeps custody :=
      keeps_modifyMonitor fun _ => rfl
    refine htell.bind fun _ => keeps_serve.bind fun _ => Act.keeps_get.bind fun _ => ?_
    split
    · exact keeps_modifyMonitor fun _ => rfl
    · exact Act.keeps_fail _

/-- What stopping the thread leaves. -/
structure Joined (w w' : Watch) : Prop where
  memory : w'.memory = w.memory
  releases : w.kernel.SameReleases w'.kernel
  snapshot : w'.monitor.snapshot = w.monitor.snapshot
  custody : w'.custody = w.custody
  thread : w'.monitor.thread = none
  failed : w'.monitor.state = .failed ↔ w.monitor.state = .failed

/-- The thread, if there is one, is not held, and it waits already or nothing keeps it from that. -/
def Stoppable (w : Watch) : Prop :=
  ∀ t, w.monitor.thread = some t → t.held = false ∧ (t.next.Leaves ∨ w.kernel.Attends)

theorem serveFor_leaving_meets {n : Nat} (ht : w.monitor.thread = some ⟨p, false⟩)
    (hs : w.monitor.stopSignalled = true) (hp : p.Leaves) (hn : p.untilEnded ≤ n) :
    (serveFor n).Meets w (fun _ w' => ∃ held, w'.monitor.thread = some ⟨.ended, held⟩)
      (fun _ _ => False) := by
  induction n generalizing w p with
  | zero =>
    cases p with
    | ended => exact Act.meets_pure.mpr ⟨false, ht⟩
    | wait | stop => exact absurd hn (by decide)
    | _ => exact hp.elim
  | succ n ih =>
    rw [serveFor_succ_meets ht]
    cases p with
    | wait =>
      simp only [perform, Act.meets_bind, Act.meets_get, hs, if_true, Act.meets_pure]
      exact ih rfl hs trivial (Nat.le_of_succ_le_succ hn)
    | stop =>
      simp only [perform, Act.meets_bind, meets_setState, Act.meets_pure]
      exact ih rfl hs trivial (Nat.zero_le n)
    | ended =>
      simp only [perform, Act.meets_pure]
      exact ⟨false, ht⟩
    | _ => exact hp.elim

/-- A thread that waits needs no more calls to see the word to stop, whatever the kernel has to say
to them. -/
theorem join_leaving_isOk (ht : w.monitor.thread = some ⟨p, false⟩) (hp : p.Leaves) :
    join.Meets w (fun _ _ => True) (fun _ _ => False) := by
  have hsteps (v : Watch) : p.untilEnded ≤ patience v := by
    have := p.untilEnded_le
    unfold patience
    omega
  simp only [join, Act.meets_bind, Act.meets_get, ht, meets_modifyMonitor, serve]
  refine (serveFor_leaving_meets rfl rfl hp (hsteps _)).mono ?_ fun _ _ he => he
  rintro _ w' ⟨held, hended⟩
  simp only [hended, meets_modifyMonitor]

theorem Stoppable.join_isOk (h : w.Stoppable) (hs : w.monitor.Steady) (hc : w.monitor.Composed) :
    join.Meets w (fun _ _ => True) (fun _ _ => False) := by
  cases ht : w.monitor.thread with
  | none => simp only [join, Act.meets_bind, Act.meets_get, ht, Act.meets_pure]
  | some t =>
    obtain ⟨p, held⟩ := t
    obtain ⟨rfl, hp | hk⟩ := h _ ht
    · exact join_leaving_isOk ht hp
    · have hunheld : w.Unheld := fun t' ht' => (h t' ht').1
      have hresting : Resting w.memory w := by
        refine ⟨rfl, hs.whole, hs.inbox, fun t' ht' => ?_⟩
        exact (held_or_isIdle_of_composed hs hc ht').resolve_left (by simp [hunheld t' ht'])
      exact Watch.join_isOk hresting hunheld hk

theorem join_stopped_meets (hs : w.monitor.Steady) (hc : w.monitor.Composed) :
    join.Meets w (fun _ w' => w'.memory = w.memory ∧ w.kernel.SameReleases w'.kernel ∧
      (w'.monitor.state = .failed ↔ w.monitor.state = .failed)) (fun e _ => EndsProcess e) := by
  simp only [join, Act.meets_bind, Act.meets_get]
  cases ht : w.monitor.thread with
  | none => exact Act.meets_pure.mpr ⟨rfl, w.kernel.sameReleases_refl, Iff.rfl⟩
  | some t =>
    have htold : Winding w { w with monitor := { w.monitor with stopSignalled := true } } :=
      ⟨⟨hc.whole, hc.placed, hc.unfailed⟩, rfl, w.kernel.sameReleases_refl, hs.inbox, Iff.rfl,
        fun _ htt => held_or_isIdle_of_composed hs hc htt⟩
    simp only [Act.meets_bind, meets_modifyMonitor]
    refine (serve_meets (fun _ _ h₁ ht₁ => h₁.perform ht₁) htold).mono ?_ fun _ _ he => he
    intro _ w' h'
    simp only [Act.meets_get]
    split
    · exact meets_modifyMonitor.mpr ⟨h'.memory, h'.releases, h'.failed⟩
    · exact meets_halt.mpr (halts _).endsProcess

/-- Stopping the thread leaves none, unless the process ends over it. -/
theorem join_joined_meets (hs : w.monitor.Steady) (hc : w.monitor.Composed) :
    join.Meets w (fun _ w' => Joined w w') (fun e _ => EndsProcess e ∧ ¬w.Stoppable) := by
  have hends : join.Meets w (fun _ _ => True) (fun _ _ => ¬w.Stoppable) := by
    by_cases hk : w.Stoppable
    · exact (hk.join_isOk hs hc).mono (fun _ _ h => h) fun _ _ he => he.elim
    · exact (Act.meets_true _ _).mono (fun _ _ h => h) fun _ _ _ => hk
  have hself := (Act.meets_self join w).and (join_stopped_meets hs hc)
  have hthread := (join_composed_meets hc).and (join_steady_meets hs)
  refine ((hself.and hthread).and hends).mono ?_ fun _ _ he => ⟨he.1.1.2, he.2⟩
  rintro _ w' ⟨⟨⟨hon, hm, hreleases, hfailed⟩, ⟨-, hnone⟩, -, hsnap⟩, -⟩
  exact ⟨hm, hreleases, hsnap, keeps_join.of_on hon, hnone, hfailed⟩

/-- What a teardown answers to these refusals: the first of them, if the monitor was armed. -/
def report (armed : Bool) (refusals : List Failure) : Outcome Stop Unit :=
  if armed then refusals.head?.elim (.ok ()) fun first => .error (.error (.failure first))
  else .ok ()

/-- The requests that a teardown has put, what stopping the thread left, and the answer. -/
structure Dismantled (w : Watch) (replies : List Reply) (r : Outcome Stop Unit) (w' : Watch) :
    Prop where
  slots : replies.map (·.slot) = w.monitor.slots.items.toList
  asked : ∃ m, w.toMachine.Asked replies m ∧ w'.memory = m.memory
  attempts : ∀ call, call = .unprotect ∨ call = .unregister →
    w'.kernel.count call = w.kernel.count call + w.monitor.slots.size
  result : r = report w.monitor.armed (replies.flatMap Reply.refusals)
  granted : w.kernel.Grants .unprotect → w.kernel.Grants .unregister →
    Enrolled w.monitor.slots.items.toList w.memory → replies.flatMap Reply.refusals = []
  rules : w'.kernel.rules = w.kernel.rules
  table : w'.monitor.slots = w.monitor.slots
  snapshot : w'.monitor.snapshot = w.monitor.snapshot
  thread : w'.monitor.thread = none
  armed : w'.monitor.armed = false
  state : w'.monitor.state = if w.monitor.state = .failed then .failed else .stopped

theorem teardown_dismantled_meets (hs : w.monitor.Steady) (hc : w.monitor.Composed) :
    teardown.Meets w (fun _ w' => ∃ replies, Dismantled w replies (.ok ()) w')
      (fun e w' => (∃ replies, Dismantled w replies (.error e) w') ∨
        EndsProcess e ∧ ¬(w.Stoppable ∧ w.kernel.ReleasesAtOnce)) := by
  simp only [teardown, Act.meets_bind, Act.meets_get]
  refine ((Act.meets_self _ w).and (releaseAll_replies_meets _)).mono ?_ fun _ _ he =>
    .inr ⟨he.2.1, fun h => he.2.2 h.2⟩
  rintro _ _ ⟨hon, replies, m, rfl, hslots, hasked, hk, rfl⟩
  refine (join_joined_meets (w := ⟨m, w.monitor⟩) hs hc).mono ?_ fun _ _ he =>
    .inr ⟨he.1, fun h => he.2 fun t ht => (h.1 t ht).imp_right (.imp_right (·.of_rules hk))⟩
  rintro _ w₂ hjoined
  have hcustody := hjoined.custody
  have hdone : Dismantled w replies (report w.monitor.armed (replies.flatMap Reply.refusals))
      { w₂ with monitor := { w₂.monitor with
        armed := false, state := if w₂.monitor.state = .failed then .failed else .stopped } } := by
    constructor
    case slots => exact hslots
    case asked => exact ⟨m, hasked, hjoined.memory⟩
    case attempts =>
      intro call hc
      have hlength : replies.length = w.monitor.slots.size := by
        rw [← List.length_map (·.slot), hslots, Array.length_toList, PrivateArray.size]
      rw [← hlength]
      exact (hjoined.releases call hc).trans (hasked.count hc)
    case result => rfl
    case granted => exact fun hu ht he => (releaseAll_isOk he hu ht).ok hon
    case rules => exact (congrArg (·.2.2) hcustody).trans hk
    case table => exact congrArg (·.1) hcustody
    case snapshot => exact hjoined.snapshot
    case thread => exact hjoined.thread
    case armed => rfl
    case state => simp only [hjoined.failed]
  rw [meets_modifyMonitor]
  generalize replies.flatMap Reply.refusals = refusals at hdone
  cases refusals with
  | nil =>
    have hok : report w.monitor.armed [] = .ok () := by cases w.monitor.armed <;> rfl
    exact Act.meets_pure.mpr ⟨replies, hok ▸ hdone⟩
  | cons first rest =>
    rw [Act.meets_ite]
    refine ⟨fun harmed => meets_fail.mpr (.inl ⟨replies, ?_⟩), fun hunarmed =>
      Act.meets_pure.mpr ⟨replies, ?_⟩⟩
    · rwa [harmed] at hdone
    · rwa [eq_false_of_ne_true hunarmed] at hdone

/-- Without a thread to stop and with nothing armed, a teardown puts its requests and is done. -/
theorem teardown_unthreaded_meets (ht : w.monitor.thread = none) (ha : w.monitor.armed = false)
    (hs : w.monitor.state = .failed ∨ w.monitor.state = .stopped) :
    teardown.Meets w
      (fun _ w' => w'.monitor = w.monitor ∧ ∃ replies,
        replies.map (·.slot) = w.monitor.slots.items.toList ∧
        w.toMachine.Asked replies w'.toMachine)
      (fun e _ => EndsProcess e ∧ ¬w.kernel.ReleasesAtOnce) := by
  simp only [teardown, Act.meets_bind, Act.meets_get]
  refine (releaseAll_replies_meets _).mono ?_ fun _ _ he => he
  rintro _ _ ⟨replies, m, rfl, hslots, hasked, -, rfl⟩
  have hjoin : join.on ⟨m, w.monitor⟩ = (.ok (), ⟨m, w.monitor⟩) := by
    rw [Act.on_eq_ok_iff]
    simp only [join, Act.meets_bind, Act.meets_get, ht, Act.meets_pure]
    trivial
  refine (Act.meets_of_ok hjoin).mpr ?_
  rw [meets_modifyMonitor]
  simp only [Monitor.closed_eq ha hs, ha]
  have hdone : w.monitor = w.monitor ∧ ∃ replies', replies'.map (·.slot) =
      w.monitor.slots.items.toList ∧ w.toMachine.Asked replies' m := ⟨rfl, replies, hslots, hasked⟩
  cases replies.flatMap Reply.refusals with
  | nil => exact Act.meets_pure.mpr hdone
  | cons _ _ => exact Act.meets_pure.mpr hdone

/-- All that a teardown comes to, and a second one after it. -/
structure TornDown (w : Watch) (replies : List Reply) (r : Outcome Stop Unit) (w' : Watch) : Prop
    extends Dismantled w replies r w' where
  bytes : ∀ n, w'.memory.bytes? n = w.memory.bytes? n
  clean : w.kernel.Grants .unprotect → w.kernel.Grants .unregister →
    Enrolled w.monitor.slots.items.toList w.memory → r = .ok () ∧
      ∀ n, Within w.monitor.slots.items.toList n → w'.memory.IsPlain n
  again : w.kernel.ReleasesAtOnce → ∃ w'', teardown.on w' = (.ok (), w'') ∧
    w''.monitor = w'.monitor ∧ (∀ n, w''.memory.bytes? n = w'.memory.bytes? n) ∧
      ∀ n, w''.memory.frame? n ≠ w'.memory.frame? n → Within w.monitor.slots.items.toList n ∧
        ∀ reply ∈ replies, n * Page.size ∈ reply.slot.span → reply.untracked ≠ none

theorem Dismantled.clean {r : Outcome Stop Unit} (h : Dismantled w replies r w')
    (hu : w.kernel.Grants .unprotect) (ht : w.kernel.Grants .unregister)
    (he : Enrolled w.monitor.slots.items.toList w.memory) : r = .ok () ∧
      ∀ n, Within w.monitor.slots.items.toList n → w'.memory.IsPlain n := by
  have hnone := h.granted hu ht he
  refine ⟨?_, fun n hn => ?_⟩
  · rw [h.result, hnone]
    cases w.monitor.armed <;> rfl
  · obtain ⟨m, hasked, hm⟩ := h.asked
    rw [← h.slots] at hn
    obtain ⟨slot, hmem, hin⟩ := hn
    obtain ⟨reply, hreply, rfl⟩ := List.mem_map.mp hmem
    have hdone : reply.untracked = none := by
      have hrefusals := List.flatMap_eq_nil_iff.mp hnone reply hreply
      simp only [Reply.refusals, List.append_eq_nil_iff, Option.toList_eq_nil_iff,
        Option.map_eq_none_iff] at hrefusals
      exact hrefusals.2
    rw [hm]
    exact hasked.isPlain hreply hdone hin

theorem Dismantled.again {r : Outcome Stop Unit} (h : Dismantled w replies r w')
    (hk : w.kernel.ReleasesAtOnce) : ∃ w'', teardown.on w' = (.ok (), w'') ∧
    w''.monitor = w'.monitor ∧ (∀ n, w''.memory.bytes? n = w'.memory.bytes? n) ∧
      ∀ n, w''.memory.frame? n ≠ w'.memory.frame? n → Within w.monitor.slots.items.toList n ∧
        ∀ reply ∈ replies, n * Page.size ∈ reply.slot.span → reply.untracked ≠ none := by
  have hstate : w'.monitor.state = .failed ∨ w'.monitor.state = .stopped := by
    rw [h.state]
    split
    · exact .inl rfl
    · exact .inr rfl
  have hends := (teardown_unthreaded_meets h.thread h.armed hstate).mono (fun _ _ hw => hw)
    fun _ _ he => he.2 (hk.of_rules h.rules)
  obtain ⟨_, w'', hon, hmonitor, replies', hslots', hasked'⟩ := hends.exists_ok
  obtain ⟨m, hasked, hm⟩ := h.asked
  refine ⟨w'', hon, hmonitor, hasked'.bytes, fun n hn => ⟨?_, fun reply hreply hin hdone => ?_⟩⟩
  · by_contra hout
    rw [← h.table, ← hslots'] at hout
    exact hn (hasked'.frame?_of_not_within hout)
  · have hplain : w'.memory.IsPlain n := hm ▸ hasked.isPlain hreply hdone hin
    exact hn (hasked'.frame?_of_isPlain hplain)

theorem Dismantled.tornDown {r : Outcome Stop Unit} (h : Dismantled w replies r w') :
    TornDown w replies r w' := by
  obtain ⟨m, hasked, hm⟩ := h.asked
  exact ⟨h, fun n => hm ▸ hasked.bytes n, h.clean, h.again⟩

/-- However a monitor was used and whatever the kernel refuses, a teardown that comes back has put
both requests for every region and stopped the thread, and reports the first refusal to a monitor
that was armed. It comes back unless a request is held back or the thread is kept from its end. -/
theorem teardown_of_used (h : Used w.monitor) :
    (∃ replies r w', teardown.on w = (r, w') ∧ TornDown w replies r w') ∨
      ∃ e w', teardown.on w = (.error e, w') ∧ EndsProcess e ∧
        ¬(w.Stoppable ∧ w.kernel.ReleasesAtOnce) := by
  have hmeets := (Act.meets_self teardown w).and (teardown_dismantled_meets h.steady h.composed)
  generalize hon : teardown.on w = result at hmeets
  obtain ⟨r, w'⟩ := result
  cases r with
  | ok _ =>
    obtain ⟨-, replies, hdone⟩ := hmeets.ok hon
    exact .inl ⟨replies, _, w', rfl, hdone.tornDown⟩
  | error e =>
    obtain ⟨-, ⟨replies, hdone⟩ | hends⟩ := hmeets.error hon
    · exact .inl ⟨replies, _, w', rfl, hdone.tornDown⟩
    · exact .inr ⟨e, w', rfl, hends⟩

/-- Two pages, and a kernel that refuses once to let go of a region. -/
def keepsOnce : Watch :=
  { justBuilt with kernel := .scripted [⟨.unregister, some [1], .refuse .busy⟩] }

/-- Two regions are armed, and the first is not let go of. -/
theorem teardown_of_used_keepsOnce : ∃ w replies w', Used w.monitor ∧
    (arm twoRegions .zero).on keepsOnce = (.ok (), w) ∧
    teardown.on w = (.error (.error (.failure
      (.registration ⟨4096, 12288, by decide, by decide⟩ .unregister .busy))), w') ∧
    TornDown w replies (.error (.error (.failure
      (.registration ⟨4096, 12288, by decide, by decide⟩ .unregister .busy)))) w' := by
  obtain ⟨m, hnew⟩ := new_justBuilt
  have harm : (arm twoRegions .zero).on keepsOnce = (.ok (), _) :=
    Act.on_of_result (by decide +kernel)
  have hset : Used keepsOnce.monitor := .new hnew
  have horderly : keepsOnce.memory.Orderly := orderly_twoPages
  have hused : Used ((arm twoRegions .zero).on keepsOnce).2.monitor :=
    .deed (.arm twoRegions .zero) hset horderly harm fun _ he => by cases he
  have hrefused : teardown.on ((arm twoRegions .zero).on keepsOnce).2 = (.error (.error (.failure
      (.registration ⟨4096, 12288, by decide, by decide⟩ .unregister .busy))), _) :=
    Act.on_of_result (by decide +kernel)
  rcases teardown_of_used hused with ⟨replies, r, w', hon, h⟩ | ⟨e, w', hon, hends, -⟩
  · obtain ⟨rfl, -⟩ := Prod.mk.inj (hrefused.symm.trans hon)
    exact ⟨_, replies, w', hused, harm, hon, h⟩
  · obtain ⟨he, -⟩ := Prod.mk.inj (hrefused.symm.trans hon)
    cases he
    exact absurd rfl (hends _)

/-- Two pages, and a kernel that is slow to track a first region and refuses to track a second. -/
def slowToTrack : Watch :=
  { justBuilt with kernel := .scripted [⟨.register, some [1], .hold⟩,
      ⟨.register, some [2], .refuse .busy⟩] }

/-- Two pages, and a kernel that interrupts whoever polls, time and again. -/
def interruptsPolls : Watch :=
  { justBuilt with kernel := .scripted [⟨.poll, none, .refuse .intr⟩] }

/-- A second teardown gives up a region that the kernel did not let go of in the first. A thread
that is held, or that does not get to see the word to stop, has no end to wait for. -/
theorem teardown_twice_keepsOnce :
    (∃ w w₁ w₂, (arm twoRegions .zero).on keepsOnce = (.ok (), w) ∧
      teardown.on w = (.error (.error (.failure
        (.registration ⟨4096, 12288, by decide, by decide⟩ .unregister .busy))), w₁) ∧
      teardown.on w₁ = (.ok (), w₂) ∧
      w₁.memory.isTracked 2 = true ∧ w₂.memory.isTracked 2 = false) ∧
    (∃ w w', (arm twoRegions .zero).on slowToTrack =
        (.error (.error (.failure (.armTimeout .zero))), w) ∧
      teardown.on w = (.error (.error (.halt .stalled)), w')) ∧
    ∃ w w', (arm twoRegions .zero).on interruptsPolls = (.ok (), w) ∧
      teardown.on w = (.error (.error (.halt .stalled)), w') := by
  refine ⟨⟨_, _, _, Act.on_of_result ?_, Act.on_of_result ?_, Act.on_of_result ?_, ?_, ?_⟩,
    ⟨_, _, Act.on_of_result ?_, Act.on_of_result ?_⟩,
    _, _, Act.on_of_result ?_, Act.on_of_result ?_⟩ <;> decide +kernel

end Watch

end Rewind
