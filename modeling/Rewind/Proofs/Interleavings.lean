import Rewind.Proofs.Restores

/-! The monitor's thread and the writer side by side. The thread takes its steps one at a time and
the writer waits on guarded pages, looks at the counter, replays and guards again; either of them
may be the next to move at any time. -/
namespace Rewind.Watch

open Monitor (Point State Thread)

/-- What one write does to one page: the page of the address gets its part of a run of bytes. -/
structure Piece where
  start : Nat
  bytes : Array UInt8
  address : Nat

def Piece.page (piece : Piece) : Nat := Page.number piece.address

/-- Whom a write is for: the process itself, or the restoring of the captures below a position,
which goes on only if the table of bytes still has the capacity that it had. -/
inductive Errand where
  | own
  | restore (below room : Nat)

/-- Where the writer is. While it waits on a page, `before` is what the page held when the fault was
raised and `prior` the captures of that time. -/
inductive Writer where
  | idle (drained : Bool)
  | blocked (piece : Piece) (errand : Errand) (before : Array UInt8) (prior : Snapshot)
  | restoring (below : Nat)
  | rearming (pages : List Nat)

/-- Where the writer goes from a write. -/
def Errand.next : Errand → Writer
  | .own => .idle false
  | .restore below _ => .restoring below

/-- The machine with both of its threads. -/
structure System where
  watch : Watch
  writer : Writer
  /-- Faults raised so far. -/
  raised : Nat
  /-- A captured page could not be guarded again since the captures were last forgotten. -/
  torn : Bool

/-- The writes that the writer may turn to. -/
inductive Wants (w : Watch) : Writer → Piece → Errand → Prop
  | own {drained : Bool} {piece : Piece} : Wants w (.idle drained) piece .own
  | restore {i a : Nat} (ha : w.monitor.snapshot.addresses.items[i]? = some a) :
      Wants w (.restoring (i + 1)) ⟨a, w.monitor.snapshot.content i, a⟩
        (.restore i w.monitor.snapshot.data.capacity)

/-- The write of a piece lands, and the writer goes on. -/
def System.lands (s : System) (piece : Piece) (writer : Writer) : System :=
  { s with
    watch := { s.watch with
      memory := s.watch.memory.writePage piece.start piece.bytes piece.page }
    writer := writer }

/-- The write of a piece finds its page guarded. -/
def System.faults (s : System) (piece : Piece) (errand : Errand) : System :=
  { s with
    watch := { s.watch with
      monitor := { s.watch.monitor with inbox := some (.heldWrite piece.address) } }
    writer := .blocked piece errand (s.watch.memory.read (piece.page * Page.size) Page.size)
      s.watch.monitor.snapshot
    raised := s.raised + 1 }

/-- One move of either thread. Restoring and rebaselining start only after a drain has come back. -/
inductive Moves : System → System → Prop
  | thread {s : System} {p : Point} {next : Next} {w : Watch}
      (ht : s.watch.monitor.thread = some ⟨p, false⟩)
      (h : (perform p).on s.watch = (.ok next, w)) : Moves s { s with watch := w.went next }
  | returned {s : System} {p : Point} (ht : s.watch.monitor.thread = some ⟨p, true⟩) :
      Moves s { s with watch := s.watch.went (.go p) }
  | write {s : System} {piece : Piece} {errand : Errand} (hw : Wants s.watch s.writer piece errand)
      (hg : s.watch.memory.isGuarded piece.page = false) : Moves s (s.lands piece errand.next)
  | fault {s : System} {piece : Piece} {errand : Errand} (hw : Wants s.watch s.writer piece errand)
      (hg : s.watch.memory.isGuarded piece.page = true) : Moves s (s.faults piece errand)
  | wake {s : System} {piece : Piece} {errand : Errand} {before : Array UInt8} {prior : Snapshot}
      (hw : s.writer = .blocked piece errand before prior)
      (hg : s.watch.memory.isGuarded piece.page = false)
      (hr : ∀ below room, errand = .restore below room →
        s.watch.monitor.snapshot.data.capacity = room) : Moves s (s.lands piece errand.next)
  | drain {s : System} {drained : Bool} {timeout : Duration} {w : Watch}
      (hw : s.writer = .idle drained) (h : (drain timeout).on s.watch = (.ok (), w)) :
      Moves s { s with watch := w, writer := .idle true }
  | overdue {s : System} {drained : Bool} {timeout : Duration} {e : Trouble Stop} {w : Watch}
      (hw : s.writer = .idle drained) (h : (drain timeout).on s.watch = (.error e, w)) :
      Moves s { s with watch := w, writer := .idle false }
  | restore {s : System} (hw : s.writer = .idle true) :
      Moves s { s with writer := .restoring s.watch.monitor.snapshot.size }
  | replayed {s : System} (hw : s.writer = .restoring 0) :
      Moves s { s with writer := .rearming s.watch.monitor.snapshot.addresses.items.toList }
  | rebaseline {s : System} (hw : s.writer = .idle true) :
      Moves s { s with writer := .rearming s.watch.monitor.snapshot.addresses.items.toList }
  | rearm {s : System} {page : Nat} {pages : List Nat} {w : Watch}
      (hw : s.writer = .rearming (page :: pages)) (h : (rearmPage page).on s.watch = (.ok (), w)) :
      Moves s { s with watch := w, writer := .rearming pages }
  | refused {s : System} {page : Nat} {pages : List Nat} {cause : Failure} {w : Watch}
      (hw : s.writer = .rearming (page :: pages))
      (h : (rearmPage page).on s.watch = (.error (.error (.failure cause)), w)) :
      Moves s { s with watch := w, writer := .idle false, torn := true }
  | forget {s : System} {w : Watch} (hw : s.writer = .rearming [])
      (h : forget.on s.watch = (.ok (), w)) :
      Moves s { s with watch := w, writer := .idle false, torn := false }

namespace Writer

/-- The writer does not wait on a page. -/
def IsFree : Writer → Prop
  | .blocked .. => False
  | _ => True

/-- The writer guards captured pages again. -/
def IsRearming : Writer → Prop
  | .rearming _ => True
  | _ => False

end Writer

/-- What the writer knows of its fault. While it waits, its page stays as it was and is captured at
most once; once it may go on, that capture is there. -/
inductive Awaits (w : Watch) : Writer → Option Nat → Point → Prop
  | free {writer : Writer} {p : Point} (hw : writer.IsFree) : Awaits w writer none p
  | waiting {piece : Piece} {errand : Errand} {prior : Snapshot} {p : Point}
      (hs : p.caught? = none → w.monitor.snapshot = prior)
      (ha : p.caught? ≠ none → prior.Adds (piece.page * Page.size)
        (w.memory.read (piece.page * Page.size) Page.size) w.monitor.snapshot) :
      Awaits w (.blocked piece errand (w.memory.read (piece.page * Page.size) Page.size) prior)
        (some piece.page) p
  | woken {piece : Piece} {errand : Errand} {prior : Snapshot} {p : Point}
      (hg : w.memory.isGuarded piece.page = false)
      (ha : prior.Adds (piece.page * Page.size)
        (w.memory.read (piece.page * Page.size) Page.size) w.monitor.snapshot) :
      Awaits w (.blocked piece errand (w.memory.read (piece.page * Page.size) Page.size) prior)
        none p

variable {w w' : Watch} {writer : Writer} {fault : Option Nat} {raised : Nat} {p q : Point}
  {next : Next}

theorem Awaits.of_eq (h : Awaits w writer fault p) (hm : w'.memory = w.memory)
    (hs : w'.monitor.snapshot = w.monitor.snapshot) (hc : q.caught? = p.caught?) :
    Awaits w' writer fault q := by
  cases h with
  | free hw => exact .free hw
  | waiting h ha => exact hm ▸ .waiting (by rwa [hc, hs]) (by rwa [hc, hs, hm])
  | woken hg ha => exact hm ▸ .woken (by rwa [hm]) (by rwa [hs, hm])

theorem Awaits.step (h : Awaits w writer fault p) (hv : w.Serves raised fault p)
    (hs : w.LoopStep p next w') : Awaits w' writer (p.settled fault) (next.point p) := by
  cases hs with
  | look hp hq =>
    rw [hp.settled]
    exact h.of_eq rfl rfl (hq.isIdle.caught?.trans hp.isIdle.caught?.symm)
  | take hi =>
    have stage := hv.stage
    rw [hi] at stage
    cases stage with
    | raised _ =>
      rw [onMessage_heldWrite]
      exact h.of_eq rfl rfl rfl
  | @capture n s hw ha =>
    obtain rfl := hv.fault_of_served? (n := n) rfl
    cases h with
    | @waiting piece errand prior _ hsame _ =>
      rw [hsame rfl] at ha
      exact .waiting nofun fun _ => ha
  | @release n r k hk hr =>
    obtain rfl := hv.fault_of_served? (n := n) rfl
    cases h with
    | @waiting piece errand prior _ _ ha =>
      have ha := ha (by simp [Point.caught?])
      have hfree : (w.memory.mark piece.page false).isGuarded piece.page = false := by
        simp [Memory.isGuarded_mark]
      have hread := Memory.read_mark w.memory piece.page false (piece.page * Page.size) Page.size
      rw [← hread] at ha ⊢
      exact .woken hfree ha
  | block => exact h.of_eq rfl rfl rfl
  | stop hstop => exact absurd hstop (by simp [hv.running])
  | _ => exact h.of_eq rfl rfl rfl

/-- No captured page is guarded, unless the thread is about to release it. -/
def Opened (w : Watch) (p : Point) : Prop :=
  ∀ a ∈ w.monitor.snapshot.addresses.items, w.memory.isGuarded (Page.number a) = true →
    p.caught? = some (Page.number a)

theorem Opened.of_eq (h : Opened w p) (hm : ∀ k, w'.memory.isGuarded k = w.memory.isGuarded k)
    (hs : w'.monitor.snapshot = w.monitor.snapshot) (hc : q.caught? = p.caught?) : Opened w' q := by
  intro a ha hg
  rw [hc]
  exact h a (hs ▸ ha) (hm _ ▸ hg)

theorem Opened.step (h : Opened w p) (hv : w.Serves raised fault p) (hs : w.LoopStep p next w') :
    Opened w' (next.point p) := by
  cases hs with
  | look hp hq =>
    exact h.of_eq (fun _ => rfl) rfl (hq.isIdle.caught?.trans hp.isIdle.caught?.symm)
  | take hi =>
    have stage := hv.stage
    rw [hi] at stage
    cases stage with
    | raised _ =>
      rw [onMessage_heldWrite]
      exact h.of_eq (fun _ => rfl) rfl rfl
  | @capture n s hw ha =>
    intro a hmem hg
    rw [ha.addresses, Array.mem_push] at hmem
    rcases hmem with hold | rfl
    · cases h a hold hg
    · rfl
  | @release n r k hk hr =>
    intro a hmem hg
    rw [Memory.isGuarded_mark] at hg
    split at hg
    · simp at hg
    · next hne =>
      have hcaught := h a hmem hg
      rw [Point.caught?, Page.number_mul, Option.some.injEq] at hcaught
      exact absurd hcaught.symm hne
  | _ => exact h.of_eq (fun _ => rfl) rfl rfl

/-- Captured addresses are boundaries of pages. -/
def Known (w : Watch) : Prop := ∀ a ∈ w.monitor.snapshot.addresses.items, Page.IsAligned a

theorem Known.step (h : Known w) (hs : w.LoopStep p next w') : Known w' := by
  cases hs with
  | @capture n s hw ha =>
    intro a hmem
    rw [ha.addresses, Array.mem_push] at hmem
    rcases hmem with hold | rfl
    · exact h a hold
    · exact Page.isAligned_mul n
  | _ => exact h

/-- What holds between any two moves, with the thread at a point and a fault open or none. -/
structure Coherent (s : System) (fault : Option Nat) (p : Point) : Prop where
  serves : s.watch.Serves s.raised fault p
  awaits : Awaits s.watch s.writer fault p
  known : Known s.watch
  opened : s.torn = false → ¬s.writer.IsRearming → Opened s.watch p

/-- The system between two moves. -/
def System.Sound (s : System) : Prop :=
  ∃ p held fault, s.watch.monitor.thread = some ⟨p, held⟩ ∧ Coherent s fault p

theorem Coherent.went {s : System} (h : Coherent { s with watch := w } fault q) :
    Coherent { s with watch := w.went next } fault q := by
  refine ⟨serves_went.mpr h.serves, h.awaits.of_eq ?_ ?_ rfl, ?_, fun ht hw => ?_⟩
  · simp
  · simp
  · intro a ha
    exact h.known a (by simpa using ha)
  · exact (h.opened ht hw).of_eq (by simp) (by simp) rfl

theorem Coherent.step {s : System} (h : Coherent s fault p) (hs : s.watch.LoopStep p next w) :
    Coherent { s with watch := w.went next } (p.settled fault) (next.point p) :=
  Coherent.went ⟨(h.serves.step hs).1, h.awaits.step h.serves hs, h.known.step hs,
    fun ht hw => (h.opened ht hw).step h.serves hs⟩

/-- While no fault is open, the thread does not mind what becomes of the memory. -/
theorem Serves.of_monitor (h : w.Serves raised none p) (hm : w'.monitor = w.monitor) :
    w'.Serves raised none p := by
  refine ⟨?_, ?_, ?_, ?_, nofun, ?_⟩
  · exact hm ▸ h.whole
  · exact hm ▸ h.running
  · exact hm ▸ h.inFlight
  · exact hm ▸ h.count
  · exact hm ▸ h.stage

theorem Serves.isIdle (h : w.Serves raised none p) : p.IsIdle ∧ w.monitor.inbox = none := by
  have stage := h.stage
  generalize w.monitor.inbox = inbox at stage
  cases stage with
  | quiet hp => exact ⟨hp, rfl⟩

theorem Wants.isFree {piece : Piece} {errand : Errand} (h : Wants w writer piece errand) :
    writer.IsFree ∧ ¬writer.IsRearming := by
  cases h <;> exact ⟨trivial, id⟩

theorem Errand.isFree_next (errand : Errand) : errand.next.IsFree ∧ ¬errand.next.IsRearming := by
  cases errand <;> exact ⟨trivial, id⟩

variable {s s' : System} {piece : Piece} {errand : Errand}

theorem Coherent.fault_eq_none (h : Coherent s fault p) (hw : s.writer.IsFree) : fault = none := by
  have hawaits := h.awaits
  generalize s.writer = writer at hawaits hw
  cases hawaits with
  | free => rfl
  | waiting => exact hw.elim
  | woken => exact hw.elim

/-- While no fault is open, the writer may turn to anything that it does not wait for, and the
memory may change. -/
theorem Coherent.of_monitor (h : Coherent s none p) (hm : w.monitor = s.watch.monitor)
    {writer : Writer} {torn : Bool} (hw : writer.IsFree)
    (ho : torn = false → ¬writer.IsRearming → Opened w p) :
    Coherent { s with watch := w, writer := writer, torn := torn } none p := by
  refine ⟨h.serves.of_monitor hm, .free hw, fun a ha => h.known a ?_, ho⟩
  rwa [← hm]

theorem Coherent.lands (h : Coherent s none p) (ho : s.torn = false → Opened s.watch p) :
    Coherent (s.lands piece errand.next) none p := by
  refine ⟨h.serves.of_monitor rfl, .free errand.isFree_next.1, h.known, fun ht _ => ?_⟩
  exact (ho ht).of_eq (fun k => by simp [System.lands]) rfl rfl

/-- A writer that finds its page guarded opens a fault, and nothing was captured for it yet. -/
theorem Coherent.faults (h : Coherent s none p) (hg : s.watch.memory.isGuarded piece.page = true)
    (ho : s.torn = false → Opened s.watch p) :
    Coherent (s.faults piece errand) (some piece.page) p := by
  obtain ⟨hidle, -⟩ := h.serves.isIdle
  have hcaught := hidle.caught?
  refine ⟨⟨h.serves.whole, h.serves.running, h.serves.inFlight, ?_, ?_, .raised hidle⟩, ?_, h.known,
    fun ht _ => ho ht⟩
  · simpa [System.faults] using h.serves.count
  · rintro _ ⟨⟩
    exact hg
  · exact .waiting (fun _ => rfl) fun hne => absurd hcaught hne

/-- A writer may go on only once its fault is settled. -/
theorem Coherent.fault_of_free {before : Array UInt8} {prior : Snapshot} (h : Coherent s fault p)
    (hw : s.writer = .blocked piece errand before prior)
    (hg : s.watch.memory.isGuarded piece.page = false) :
    fault = none ∧ before = s.watch.memory.read (piece.page * Page.size) Page.size ∧
      prior.Adds (piece.page * Page.size) before s.watch.monitor.snapshot := by
  have hawaits := h.awaits
  have hguarded := h.serves.guarded
  rw [hw] at hawaits
  cases hawaits with
  | free hfree => exact hfree.elim
  | waiting =>
    rw [hguarded _ rfl] at hg
    cases hg
  | woken _ ha => exact ⟨rfl, rfl, ha⟩

theorem rearmPage_monitor_meets (page : Nat) : (rearmPage page).Meets w
    (fun _ w' => w'.monitor = w.monitor) (fun _ w' => w'.monitor = w.monitor) := by
  simp only [rearmPage, Act.meets_bind, Act.meets_faulty, meets_request]
  refine ⟨fun span _ => ?_, fun _ _ => trivial⟩
  apply Machine.requestMemory_meets.mono
  · rintro r m -
    cases r with
    | prompt => exact Act.meets_pure.mpr rfl
    | late => exact meets_halt.mpr rfl
  · intro _ m hpost
    obtain ⟨errno, rfl, -⟩ := hpost
    exact meets_fail.mpr rfl

theorem System.Sound.loopStep (h : s.Sound) (ht : s.watch.monitor.thread = some ⟨p, false⟩)
    (hon : (perform p).on s.watch = (.ok next, w)) :
    ∃ fault, Coherent s fault p ∧ s.watch.LoopStep p next w := by
  obtain ⟨p', held, fault, ht', hc⟩ := h
  obtain ⟨rfl, -⟩ : p = p' ∧ false = held := by simpa [ht] using ht'
  exact ⟨fault, hc, (perform_meets hc.serves.whole hc.serves.stage.inLoop).ok hon⟩

/-- Every move keeps the two threads in step. -/
theorem System.Sound.move (h : s.Sound) (hm : Moves s s') : s'.Sound := by
  obtain ⟨p, held, fault, ht, hc⟩ := id h
  cases hm with
  | @thread p₁ next w hp hon =>
    obtain ⟨fault₁, hc₁, hs⟩ := h.loopStep hp hon
    have hnext := hc₁.step hs
    cases next with
    | go q => exact ⟨q, false, _, rfl, hnext⟩
    | hold q => exact ⟨q, true, _, rfl, hnext⟩
    | block => exact ⟨p₁, false, _, hs.thread.trans hp, hnext⟩
  | @returned p₁ hp =>
    obtain ⟨rfl, rfl⟩ : p₁ = p ∧ held = true := by simpa [hp, eq_comm] using ht
    have hreturned : Coherent { s with watch := s.watch.went (.go p₁) } fault p₁ := Coherent.went hc
    exact ⟨p₁, false, fault, rfl, hreturned⟩
  | write hw hg =>
    obtain ⟨hfree, hrearm⟩ := hw.isFree
    obtain rfl := hc.fault_eq_none hfree
    exact ⟨p, held, none, ht, hc.lands fun htorn => hc.opened htorn hrearm⟩
  | fault hw hg =>
    obtain ⟨hfree, hrearm⟩ := hw.isFree
    obtain rfl := hc.fault_eq_none hfree
    exact ⟨p, held, _, ht, hc.faults hg fun htorn => hc.opened htorn hrearm⟩
  | wake hw hg =>
    obtain ⟨rfl, -, -⟩ := hc.fault_of_free hw hg
    refine ⟨p, held, none, ht, hc.lands fun htorn => hc.opened htorn ?_⟩
    rw [hw]
    exact id
  | drain hw hon =>
    obtain rfl := hc.fault_eq_none (by rw [hw]; trivial)
    obtain ⟨-, rfl⟩ := (drain_meets _).ok hon
    exact ⟨p, held, none, ht, hc.of_monitor rfl trivial fun htorn _ =>
      hc.opened htorn (by rw [hw]; exact id)⟩
  | overdue hw hon =>
    obtain rfl := hc.fault_eq_none (by rw [hw]; trivial)
    obtain ⟨-, rfl, -⟩ := (drain_meets _).error hon
    exact ⟨p, held, none, ht, hc.of_monitor rfl trivial fun htorn _ =>
      hc.opened htorn (by rw [hw]; exact id)⟩
  | restore hw =>
    obtain rfl := hc.fault_eq_none (by rw [hw]; trivial)
    exact ⟨p, held, none, ht, hc.of_monitor rfl trivial fun htorn _ =>
      hc.opened htorn (by rw [hw]; exact id)⟩
  | replayed hw =>
    obtain rfl := hc.fault_eq_none (by rw [hw]; trivial)
    exact ⟨p, held, none, ht, hc.of_monitor rfl trivial fun _ hno => absurd trivial hno⟩
  | rebaseline hw =>
    obtain rfl := hc.fault_eq_none (by rw [hw]; trivial)
    exact ⟨p, held, none, ht, hc.of_monitor rfl trivial fun _ hno => absurd trivial hno⟩
  | @rearm page pages w hw hon =>
    obtain rfl := hc.fault_eq_none (by rw [hw]; trivial)
    have hmon := (rearmPage_monitor_meets page).ok hon
    exact ⟨p, held, none, hmon ▸ ht, hc.of_monitor hmon trivial fun _ hno => absurd trivial hno⟩
  | @refused page pages cause w hw hon =>
    obtain rfl := hc.fault_eq_none (by rw [hw]; trivial)
    have hmon := (rearmPage_monitor_meets page).error hon
    exact ⟨p, held, none, hmon ▸ ht, hc.of_monitor hmon trivial nofun⟩
  | @forget w hw hon =>
    obtain rfl := hc.fault_eq_none (by rw [hw]; trivial)
    obtain ⟨-, rfl⟩ := Prod.mk.inj hon
    refine ⟨p, held, none, ht, ⟨hc.serves.whole.clear, ?_, ?_, ?_, nofun, ?_⟩, .free trivial,
      ?_, ?_⟩
    · exact hc.serves.running
    · exact hc.serves.inFlight
    · exact hc.serves.count
    · exact hc.serves.stage
    · intro a ha
      simp at ha
    · intro _ _ a ha
      simp at ha

theorem System.Sound.moves (h : s.Sound) (hm : Relation.ReflTransGen Moves s s') : s'.Sound := by
  induction hm with
  | refl => exact h
  | tail _ hmove ih => exact ih.move hmove

end Rewind.Watch
