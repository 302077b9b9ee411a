import Rewind.Proofs.Histories
import Rewind.Proofs.Interleavings

/-! The drain barrier. However the two threads take turns, a drain that comes back finds every fault
served and counted, and from then on the thread leaves the captures to the writer, unless a replay
runs into a page that is guarded already. -/
namespace Rewind.Watch

open Monitor (Point State Thread)

variable {s s' : System} {w w' : Watch} {fault : Option Nat} {p : Point} {next : Next}

theorem LoopStep.touches (hs : w.LoopStep p next w') :
    w'.memory = w.memory ∧ w'.monitor.snapshot = w.monitor.snapshot ∨
    (∃ page, p = .capture page) ∧ w'.monitor.snapshot.size = w.monitor.snapshot.size + 1 ∨
    (∃ page, p = .release page) ∧ w'.monitor.snapshot = w.monitor.snapshot := by
  cases hs with
  | capture _ ha => exact .inr (.inl ⟨⟨_, rfl⟩, ha.size⟩)
  | release => exact .inr (.inr ⟨⟨_, rfl⟩, rfl⟩)
  | _ => exact .inl ⟨rfl, rfl⟩

theorem LoopStep.touches_of_isIdle (hs : w.LoopStep p next w') (hp : p.IsIdle) :
    w'.memory = w.memory ∧ w'.monitor.snapshot = w.monitor.snapshot := by
  rcases hs.touches with h | ⟨⟨page, rfl⟩, -⟩ | ⟨⟨page, rfl⟩, -⟩
  · exact h
  · exact hp.elim
  · exact hp.elim

/-- The writer is in the replay of a restoring. -/
def Writer.IsReplaying : Writer → Prop
  | .restoring _ | .blocked _ (.restore ..) _ _ => True
  | _ => False

/-- A move of either thread during a replay. -/
def Replays (s s' : System) : Prop := s.writer.IsReplaying ∧ Moves s s'

theorem System.Sound.replays (h : s.Sound) (hm : Relation.ReflTransGen Replays s s') :
    s'.Sound := by
  induction hm with
  | refl => exact h
  | tail _ hmove ih => exact ih.move hmove.2

/-- While no captured page is guarded, a replay raises no fault. -/
structure Undisturbed (s s' : System) : Prop where
  free : s'.writer.IsFree
  captures : s'.watch.monitor.snapshot = s.watch.monitor.snapshot
  guards : ∀ n, s'.watch.memory.isGuarded n = s.watch.memory.isGuarded n

theorem Undisturbed.move {s₀ : System} (h : Undisturbed s₀ s) (hs : s.Sound)
    (ho : ∀ a ∈ s₀.watch.monitor.snapshot.addresses.items,
      s₀.watch.memory.isGuarded (Page.number a) = false)
    (hm : Replays s s') : Undisturbed s₀ s' := by
  obtain ⟨hrep, hm⟩ := hm
  cases hm with
  | thread hp hon =>
    obtain ⟨fault, hc, hstep⟩ := hs.loopStep hp hon
    obtain rfl := hc.fault_eq_none h.free
    obtain ⟨hmem, hsnap⟩ := hstep.touches_of_isIdle hc.serves.isIdle.1
    refine ⟨h.free, ?_, fun n => ?_⟩
    · rw [snapshot_went, hsnap]
      exact h.captures
    · rw [toMachine_went, hmem]
      exact h.guards n
  | returned => exact ⟨h.free, h.captures, h.guards⟩
  | write hw hg =>
    refine ⟨Errand.isFree_next _ |>.1, h.captures, fun n => ?_⟩
    rw [System.lands, Memory.isGuarded_writePage]
    exact h.guards n
  | @fault piece errand hw hg =>
    generalize hwriter : s.writer = writer at hw
    cases hw with
    | own =>
      rw [hwriter] at hrep
      exact hrep.elim
    | @restore i a ha =>
      have hmem := Array.mem_of_getElem? ha
      rw [h.captures] at hmem
      rw [h.guards, Piece.page, ho a hmem] at hg
      cases hg
  | wake hw => exact absurd h.free (by rw [hw]; exact id)
  | replayed => exact ⟨trivial, h.captures, h.guards⟩
  | drain hw | overdue hw | restore hw | rebaseline hw | rearm hw | refused hw | forget hw =>
    rw [hw] at hrep
    exact hrep.elim

/-- The writer has yet to come to the capture at a position, whose page is this one. -/
def Writer.Ahead (j page : Nat) : Writer → Prop
  | .restoring i => j < i
  | .blocked piece (.restore i _) _ _ => j < i ∨ piece.page = page
  | _ => False

/-- A replay that has yet to come to a guarded page, or has already had a page captured anew. -/
def Disturbed (j page : Nat) (s s' : System) : Prop :=
  s.watch.monitor.snapshot.size < s'.watch.monitor.snapshot.size ∨
    s'.watch.monitor.snapshot = s.watch.monitor.snapshot ∧
      s'.watch.memory.isGuarded page = true ∧ s'.writer.Ahead j page ∧
      ∀ piece errand before prior, s'.writer = .blocked piece errand before prior →
        prior = s.watch.monitor.snapshot

theorem Replays.size_le (hs : s.Sound) (hm : Replays s s') :
    s.watch.monitor.snapshot.size ≤ s'.watch.monitor.snapshot.size := by
  obtain ⟨hrep, hm⟩ := hm
  cases hm with
  | thread hp hon =>
    obtain ⟨fault, hc, hstep⟩ := hs.loopStep hp hon
    rw [snapshot_went]
    rcases hstep.touches with ⟨-, h⟩ | ⟨-, h⟩ | ⟨-, h⟩
    · exact h ▸ le_rfl
    · exact h ▸ Nat.le_succ _
    · exact h ▸ le_rfl
  | returned | write | fault | wake | replayed => exact le_rfl
  | drain hw | overdue hw | restore hw | rebaseline hw | rearm hw | refused hw | forget hw =>
    exact absurd hrep (by rw [hw]; exact id)

/-- When the thread releases a page, its capture is there. -/
theorem Coherent.adds_of_release {page : Nat} (h : Coherent s fault (.release page)) :
    ∃ piece errand before prior, s.writer = .blocked piece errand before prior ∧
      prior.Adds (piece.page * Page.size) before s.watch.monitor.snapshot := by
  have hawaits := h.awaits
  have hserves := h.serves
  generalize s.writer = writer at hawaits
  cases hawaits with
  | free => exact hserves.isIdle.1.elim
  | waiting _ ha => exact ⟨_, _, _, _, rfl, ha nofun⟩
  | woken => exact hserves.isIdle.1.elim

theorem Disturbed.move {s₀ : System} {a j : Nat} (h : Disturbed j (Page.number a) s₀ s)
    (hs : s.Sound) (ha : s₀.watch.monitor.snapshot.addresses.items[j]? = some a)
    (hm : Replays s s') : Disturbed j (Page.number a) s₀ s' := by
  rcases h with hmore | ⟨hsnap, hguard, hahead, hprior⟩
  · exact .inl (hmore.trans_le (hm.size_le hs))
  have hnone {piece : Piece} {errand : Errand} {before : Array UInt8} {prior : Snapshot}
      (hw : s.writer = .blocked piece errand before prior) :
      ¬prior.Adds (piece.page * Page.size) before s.watch.monitor.snapshot := by
    intro hadds
    have hsize := hadds.size
    rw [hprior _ _ _ _ hw, hsnap] at hsize
    omega
  obtain ⟨hrep, hm⟩ := hm
  cases hm with
  | thread hp hon =>
    obtain ⟨fault, hc, hstep⟩ := hs.loopStep hp hon
    rcases hstep.touches with ⟨hmem, h⟩ | ⟨-, h⟩ | ⟨⟨page, rfl⟩, h⟩
    · refine .inr ⟨?_, ?_, hahead, hprior⟩
      · rw [snapshot_went, h, hsnap]
      · rw [toMachine_went, hmem]
        exact hguard
    · refine .inl ?_
      rw [snapshot_went, h, hsnap]
      exact Nat.lt_succ_self _
    · obtain ⟨piece, errand, before, prior, hw, hadds⟩ := hc.adds_of_release
      exact absurd hadds (hnone hw)
  | returned => exact .inr ⟨hsnap, hguard, hahead, hprior⟩
  | @write piece errand hw hg =>
    generalize hwriter : s.writer = writer at hw
    cases hw with
    | own =>
      rw [hwriter] at hrep
      exact hrep.elim
    | @restore i b hb =>
      rw [hwriter, Writer.Ahead] at hahead
      refine .inr ⟨hsnap, ?_, ?_, nofun⟩
      · rw [System.lands, Memory.isGuarded_writePage]
        exact hguard
      · refine lt_of_le_of_ne (Nat.le_of_lt_succ hahead) ?_
        rintro rfl
        rw [hsnap, ha, Option.some.injEq] at hb
        rw [Piece.page, ← hb, hguard] at hg
        cases hg
  | @fault piece errand hw hg =>
    generalize hwriter : s.writer = writer at hw
    cases hw with
    | own =>
      rw [hwriter] at hrep
      exact hrep.elim
    | @restore i b hb =>
      rw [hwriter, Writer.Ahead] at hahead
      refine .inr ⟨hsnap, hguard, ?_, ?_⟩
      · rcases Nat.lt_succ_iff_lt_or_eq.mp hahead with hlt | rfl
        · exact .inl hlt
        · rw [hsnap, ha, Option.some.injEq] at hb
          exact .inr (hb ▸ rfl)
      · rintro _ _ _ _ ⟨⟩
        exact hsnap
  | wake hw hg =>
    obtain ⟨p, held, fault, -, hc⟩ := hs
    exact absurd (hc.fault_of_free hw hg).2.2 (hnone hw)
  | replayed hw =>
    rw [hw] at hahead
    exact absurd hahead (Nat.not_lt_zero j)
  | drain hw | overdue hw | restore hw | rebaseline hw | rearm hw | refused hw | forget hw =>
    rw [hw] at hrep
    exact hrep.elim

theorem undisturbed_of_replays (hs : s.Sound) (hw : s.writer.IsFree)
    (ho : ∀ a ∈ s.watch.monitor.snapshot.addresses.items,
      s.watch.memory.isGuarded (Page.number a) = false)
    (hm : Relation.ReflTransGen Replays s s') : Undisturbed s s' := by
  induction hm with
  | refl => exact ⟨hw, rfl, fun _ => rfl⟩
  | tail hbefore hmove ih => exact ih.move (hs.replays hbefore) ho hmove

theorem disturbed_of_replays {a j below : Nat} (hs : s.Sound) (hw : s.writer = .restoring below)
    (hj : j < below) (ha : s.watch.monitor.snapshot.addresses.items[j]? = some a)
    (hg : s.watch.memory.isGuarded (Page.number a) = true)
    (hm : Relation.ReflTransGen Replays s s') : Disturbed j (Page.number a) s s' := by
  induction hm with
  | refl =>
    refine .inr ⟨rfl, hg, ?_, ?_⟩
    · rw [hw]
      exact hj
    · intro _ _ _ _ hblocked
      rw [hw] at hblocked
      cases hblocked
  | tail hbefore hmove ih => exact ih.move (hs.replays hbefore) ha hmove

/-- What the drain barrier comes to between two moves. A page is captured with the bytes that it
held when its fault was raised. A drain that comes back leaves no message, no fault in service and
none uncounted. While the writer replays, rebaselines or guards pages again, and waits on none, the
thread leaves the captures alone. A replay waits on no page exactly if no captured page was guarded
when it began, and none was unless guarding one again was refused. -/
structure Barrier (s : System) : Prop where
  captured : ∀ piece errand before prior, s.writer = .blocked piece errand before prior →
    s.watch.memory.isGuarded piece.page = false →
      prior.Adds (piece.page * Page.size) before s.watch.monitor.snapshot ∧
        s.watch.memory.read (piece.page * Page.size) Page.size = before
  drained : ∀ ready timeout w, s.writer = .idle ready →
    (drain timeout).on s.watch = (.ok (), w) →
      s.watch.monitor.inbox = none ∧ s.watch.monitor.handled = s.raised ∧
        ∃ p held, s.watch.monitor.thread = some ⟨p, held⟩ ∧ p.IsWaiting
  alone : s.writer.IsFree → ∀ p next w, s.watch.monitor.thread = some ⟨p, false⟩ →
    (perform p).on s.watch = (.ok next, w) → w.monitor.snapshot = s.watch.monitor.snapshot
  replayed : s.writer = .idle true → ∀ s', s'.writer.IsRearming →
    Relation.ReflTransGen Replays
      { s with writer := .restoring s.watch.monitor.snapshot.size } s' →
    (s'.watch.monitor.snapshot = s.watch.monitor.snapshot ↔
      ∀ a ∈ s.watch.monitor.snapshot.addresses.items,
        s.watch.memory.isGuarded (Page.number a) = false)
  whole : s.torn = false → s.writer = .idle true →
    ∀ a ∈ s.watch.monitor.snapshot.addresses.items,
      s.watch.memory.isGuarded (Page.number a) = false

theorem System.Sound.drained (h : s.Sound) {ready : Bool} {timeout : Duration}
    (hw : s.writer = .idle ready) (hon : (drain timeout).on s.watch = (.ok (), w)) :
    s.watch.monitor.inbox = none ∧ s.watch.monitor.handled = s.raised ∧
      ∃ p held, s.watch.monitor.thread = some ⟨p, held⟩ ∧ p.IsWaiting := by
  obtain ⟨p, held, fault, ht, hc⟩ := h
  obtain rfl := hc.fault_eq_none (by rw [hw]; trivial)
  obtain ⟨hidle, hinbox⟩ := hc.serves.isIdle
  obtain ⟨hnone, -⟩ := (drain_meets timeout).ok hon
  have hflight := hc.serves.inFlight.symm.trans hnone
  have hcount := hc.serves.count
  have hwaiting : p.IsWaiting := by
    cases p <;> trivial
  refine ⟨hinbox, ?_, p, held, ht, hwaiting⟩
  simpa [hwaiting.uncounted] using hcount

theorem System.Sound.replayed (h : s.Sound) (hw : s.writer = .idle true)
    (hend : s'.writer.IsRearming)
    (hm : Relation.ReflTransGen Replays
      { s with writer := .restoring s.watch.monitor.snapshot.size } s') :
    s'.watch.monitor.snapshot = s.watch.monitor.snapshot ↔
      ∀ a ∈ s.watch.monitor.snapshot.addresses.items,
        s.watch.memory.isGuarded (Page.number a) = false := by
  have hstart := h.move (.restore hw)
  constructor
  · intro hsame a ha
    by_contra hg
    obtain ⟨j, hj, rfl⟩ := Array.mem_iff_getElem.mp ha
    have hdisturbed := disturbed_of_replays hstart rfl hj (Array.getElem?_eq_getElem hj)
      (by simpa using hg) hm
    rcases hdisturbed with hmore | ⟨-, -, hahead, -⟩
    · rw [hsame] at hmore
      exact absurd hmore (lt_irrefl _)
    · generalize s'.writer = writer at hend hahead
      cases writer <;> first | exact hend | exact hahead
  · intro ho
    exact (undisturbed_of_replays hstart trivial ho hm).captures

theorem System.Sound.barrier (h : s.Sound) : Barrier s := by
  constructor
  · intro piece errand before prior hw hg
    obtain ⟨p, held, fault, ht, hc⟩ := h
    obtain ⟨-, hbefore, hadds⟩ := hc.fault_of_free hw hg
    exact ⟨hadds, hbefore.symm⟩
  · intro ready timeout w hw hon
    exact h.drained hw hon
  · intro hfree p next w hp hon
    obtain ⟨fault, hc, hs⟩ := h.loopStep hp hon
    obtain rfl := hc.fault_eq_none hfree
    exact (hs.touches_of_isIdle hc.serves.isIdle.1).2
  · intro hw s' hend hm
    exact h.replayed hw hend hm
  · intro htorn hw a ha
    obtain ⟨p, held, fault, ht, hc⟩ := h
    obtain rfl := hc.fault_eq_none (by rw [hw]; trivial)
    have hopened := hc.opened htorn (by rw [hw]; exact id)
    by_contra hg
    have hcaught := hopened a ha (by simpa using hg)
    rw [hc.serves.isIdle.1.caught?] at hcaught
    cases hcaught

/-- The two threads right after arming. -/
def System.start (w : Watch) : System := ⟨w, .idle false, 0, false⟩

theorem Armed.sound {m₀ : Memory} {slots : List Slot} (h : Armed m₀ slots w) :
    (System.start w).Sound := by
  obtain ⟨p, ht, hserves, -⟩ := h.serves
  have hnone : w.monitor.snapshot.addresses.items = #[] :=
    Array.eq_empty_of_size_eq_zero h.firstLife.empty
  refine ⟨p, false, none, ht, hserves, .free trivial, ?_, fun _ _ => ?_⟩
  · intro a ha
    simp [System.start, hnone] at ha
  · intro a ha
    simp [System.start, hnone] at ha

/-- The barrier holds between any two moves that follow an arming, in whichever order the threads
take turns. -/
theorem barrier_of_moves {w₁ : Watch} {table : List Slot} {timeout : Duration}
    (hm : Built w.monitor) (ha : (arm table timeout).on w = (.ok (), w₁))
    (hs : Relation.ReflTransGen Moves (.start w₁) s) : Barrier s := by
  have harmed := (arm_meets hm.unspent table timeout).ok ha
  exact (harmed.sound.moves hs).barrier

/-- On a monitor over two pages, when a write has just found its page guarded. -/
theorem barrier_of_moves_fault : ∃ w₁, (arm twoRegions .zero).on justBuilt = (.ok (), w₁) ∧
    Barrier ((System.start w₁).faults ⟨4096, #[1], 4096⟩ .own) := by
  obtain ⟨w₁, harm, -⟩ := arm_justBuilt
  have hpristine := ((arm_meets built_justBuilt.unspent _ _).ok harm).pristine
  have hpage : Monitored twoPages twoRegions 1 := by decide +kernel
  have hguard : w₁.memory.isGuarded 1 = true := hpristine.guarded hpage
  exact ⟨w₁, harm, barrier_of_moves built_justBuilt harm (.single (.fault .own hguard))⟩

end Rewind.Watch
