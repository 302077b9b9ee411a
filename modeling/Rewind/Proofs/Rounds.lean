import Rewind.Proofs.Lives
import Rewind.Proofs.Offers
import Rewind.Proofs.Recordings

/-! Rounds of the fault loop. The thread of an armed monitor takes turn after turn, and between two
turns the world may change in all that is not the thread's own. Whatever the turns come upon, the
states that are stored, the captures and the count of faults are told by the messages that were
served. -/
namespace Rewind

open Monitor (Point State Thread)
open Tracking (Message)

namespace Watch

variable {w w' : Watch} {p : Point} {next : Next}

/-- A thread that polls, waits or reads has said that it listens. -/
def Shows (w : Watch) : Prop :=
  ∀ p held, w.monitor.thread = some ⟨p, held⟩ → p.IsWaiting → p ≠ .listen →
    w.monitor.state = .listening

/-- Outside of the loop no step leads to a point where the thread polls, waits or reads. -/
theorem SetupStep.shows {held : Bool} (hs : SetupStep w p next w')
    (ht : w.monitor.thread = some ⟨p, held⟩) : (w'.went next).Shows := by
  intro q held' hq hw hl
  cases hs with
  | @through g =>
    cases hq
    cases g <;> exact hw.elim
  | @enlist g i slot r =>
    cases r <;> cases hq <;> cases g <;> exact hw.elim
  | ready =>
    cases hq
    exact absurd rfl hl
  | ended =>
    obtain ⟨rfl, -⟩ : Point.ended = q ∧ held = held' := by simpa [ht, went] using hq
    exact hw.elim
  | _ =>
    cases hq
    exact hw.elim

theorem LoopStep.shows {held : Bool} (hs : LoopStep w p next w') (hw : w.Shows)
    (ht : w.monitor.thread = some ⟨p, held⟩) (hp : p.IsWaiting)
    (hstate : w'.monitor.state = p.stores?.getD w.monitor.state) : (w'.went next).Shows := by
  have hlistening : w'.monitor.state = .listening := by
    rw [hstate]
    by_cases hl : p = .listen
    · rw [hl]
      rfl
    · have hnone : p.stores? = none := by
        cases p <;> first | rfl | exact hp.elim | exact absurd rfl hl
      rw [hnone]
      exact hw p held ht hp hl
  intro q held' _ _ _
  cases next <;> exact hlistening

theorem serve_shows_meets {m₀ : Memory} {slots : List Slot} (h : Living m₀ slots w)
    (hs : w.Shows) : serve.Meets w (fun _ w' => w'.Shows) (fun _ _ => True) := by
  have hboth : serve.Meets w (fun _ w' => Living m₀ slots w' ∧ w'.Shows) (fun _ _ => True) := by
    refine serve_meets ?_ ⟨h, hs⟩
    rintro w p ⟨hliving, hshows⟩ hp
    have hstep := hliving.step hp
    obtain ⟨p₁, held, ht, -, hg, -⟩ := hliving
    obtain ⟨rfl, rfl⟩ : p₁ = p ∧ held = false := by simpa [ht] using hp
    rcases hg.inSetup_or_isWaiting with hsetup | hwaiting
    · refine ((perform_setup_meets hsetup).and hstep).mono ?_ fun _ _ _ => trivial
      exact fun next w' hpost => ⟨hpost.2, hpost.1.shows ht⟩
    · refine (((perform_waiting_meets hwaiting).and hstep).and (perform_state_meets w p₁)).mono ?_
        fun _ _ _ => trivial
      exact fun next w' hpost => ⟨hpost.1.2, hpost.1.1.shows hshows ht hwaiting hpost.2⟩
  exact hboth.mono (fun _ _ hpost => hpost.2) fun _ _ _ => trivial

theorem arm_shows_meets (hu : w.monitor.Unspent) (table : List Slot) (timeout : Duration) :
    (arm table timeout).Meets w (fun _ w' => w'.Shows) (fun _ _ => True) := by
  have hextend := PrivateArray.extend_meets (by decide) hu.slotsFit table.toArray
  simp only [arm, Act.meets_bind, Act.meets_get, Act.meets_ite, hu.thread, Act.meets_focus,
    Act.meets_mapError]
  refine ⟨by simp, fun _ => ?_⟩
  apply hextend.mono
  · rintro _ v ⟨hitems, -, hfit, -⟩
    apply startThread_meets.mono
    · rintro - w₁ rfl
      have hlaunched := launched_of_unspent hu rfl hfit
      have hfresh : Watch.Shows { w with
          toMachine := w.toMachine.called .startThread
          monitor := { w.monitor with slots := v, thread := some .fresh } } := by
        intro q held hq hp
        cases hq
        exact hp.elim
      refine (serve_shows_meets hlaunched.living hfresh).mono ?_ fun _ _ _ => trivial
      intro _ w₂ hw₂
      refine (heard_meets _).mono ?_ fun _ _ _ => trivial
      rintro r _ ⟨rfl, -⟩
      split
      · simp only [Act.meets_bind, meets_modifyMonitor, meets_onMachine_log]
        exact hw₂
      · rw [Act.meets_bind]
        refine (Act.meets_true _ _).mono (fun _ w₃ _ => ?_) fun _ _ _ => trivial
        split
        · exact meets_fail.mpr trivial
        · exact Act.meets_throw.mpr trivial
      · exact meets_fail.mpr trivial
    · exact fun _ _ _ => trivial
  · rintro (_ | _) v _ <;> trivial

/-- The world as the thread meets it in a turn. -/
structure Occasion where
  machine : Machine
  inbox : Option Message
  stopSignalled : Bool

/-- A machine whose world has changed. -/
def facing (w : Watch) (o : Occasion) : Watch :=
  { toMachine := o.machine
    monitor := { w.monitor with inbox := o.inbox, stopSignalled := o.stopSignalled } }

@[simp] theorem memory_facing (w : Watch) (o : Occasion) :
    (w.facing o).memory = o.machine.memory := rfl

@[simp] theorem snapshot_facing (w : Watch) (o : Occasion) :
    (w.facing o).monitor.snapshot = w.monitor.snapshot := rfl

/-- Turns of the thread of a machine: what each met and came upon, the steps of all of them, and the
machine that they lead to. A thread that did not listen yet does so first. -/
inductive Rounds (w₀ : Watch) : List (Occasion × Round) → List (Point × Watch) → Watch → Prop
  | start : Rounds w₀ [] [] w₀
  | enter {w : Watch} (h : Advance w₀ .listen .poll w) : Rounds w₀ [] [(.listen, w)] w
  | turn {past : List (Occasion × Round)} {steps steps' : List (Point × Watch)} {w w' : Watch}
      {p : Point} {o : Occasion} {r : Round} {inbox : Option Message} (h : Rounds w₀ past steps w)
      (hp : w.monitor.thread = some ⟨p, false⟩) (ho : (w.facing o).Offers p r inbox)
      (hs : ∀ page, r.served? = some page → (w.facing o).Servable page)
      (ht : Turn (w.facing o) steps' w') : Rounds w₀ (past ++ [(o, r)]) (steps ++ steps') w'

/-- The pages that were served, in order. -/
def served (past : List (Occasion × Round)) : List Nat := past.filterMap fun t => t.2.served?

/-- The pages that were served with the bytes that they held then, in order. -/
def copies (past : List (Occasion × Round)) : List (Nat × Array UInt8) :=
  past.filterMap fun t => t.2.served?.map fun page => (page, t.1.machine.memory.read page Page.size)

theorem map_fst_copies (past : List (Occasion × Round)) :
    (copies past).map Prod.fst = served past := by
  rw [copies, served, List.map_filterMap]
  congr 1
  funext t
  cases t.2.served? <;> rfl

variable {past : List (Occasion × Round)} {steps : List (Point × Watch)} {w₀ : Watch}
  {slots : List Slot}

/-- What the last turn leaves: a thread that polls again or has ended, and the memory as it was but
for the guard of the page that was served. A turn that stops takes no message. -/
structure Left (o : Occasion) (r : Round) (w : Watch) : Prop where
  thread : w.monitor.thread = some r.last
  memory : w.memory =
    r.served?.elim o.machine.memory fun page => o.machine.memory.mark (Page.number page) false
  inbox : r = .stop → w.monitor.inbox = o.inbox

/-- What turns keep: the thread is between two of them, and the captures are the pages served. -/
structure Turning (past : List (Occasion × Round)) (steps : List (Point × Watch)) (w : Watch) :
    Prop where
  shows : w.Shows
  whole : w.monitor.snapshot.Whole
  inFlight : w.monitor.inFlight = 0
  handled : w.monitor.handled = (served past).length
  holds : w.monitor.snapshot.Holds (copies past)
  stored : ∃ entry, (entry = [] ∨ entry = [.listening]) ∧
    stored steps = entry ++ past.flatMap fun t => t.2.stores
  truthful : ∀ s ∈ steps, Truthful s
  left : ∀ o r, past.getLast? = some (o, r) → Left o r w

theorem turning_start (hs : w₀.Shows) (hf : FirstLife slots w₀) : Turning [] [] w₀ := by
  obtain ⟨-, -, whole, empty, -, -, inFlight, handled⟩ := hf
  have haddresses : w₀.monitor.snapshot.addresses.items = #[] :=
    Array.eq_empty_of_size_eq_zero empty
  have hdata : w₀.monitor.snapshot.data.items = #[] := by
    apply Array.eq_empty_of_size_eq_zero
    have hsize := whole.data
    rw [PrivateArray.size, PrivateArray.size, haddresses] at hsize
    simpa using hsize
  have hholds : w₀.monitor.snapshot.Holds [] := by
    refine ⟨?_, ?_, by simp⟩
    · rw [haddresses]
      rfl
    · rw [hdata]
      rfl
  exact ⟨hs, whole, inFlight, handled, hholds, ⟨[], .inl rfl, rfl⟩, by simp, by simp⟩

theorem Turning.enter (h : Turning [] [] w₀) (ha : Advance w₀ .listen .poll w) :
    Turning [] [(.listen, w)] w := by
  have ht : w₀.monitor.thread = some ⟨.listen, false⟩ := by
    cases ha
    assumption
  have hlisten : Advance w₀ .listen .poll _ := advance_of_on ht rfl rfl
  obtain ⟨-, -, rfl⟩ := hlisten.unique ha
  refine ⟨fun _ _ _ _ _ => rfl, h.whole, h.inFlight, h.handled, h.holds,
    ⟨[.listening], .inr rfl, rfl⟩, ?_, nofun⟩
  intro s hmem
  obtain rfl := List.mem_singleton.mp hmem
  exact ⟨nofun, fun _ => h.inFlight, fun _ => rfl⟩

theorem Offers.isWaiting {r : Round} {inbox : Option Message} (h : w.Offers p r inbox) :
    p.IsWaiting ∧ p ≠ .listen := by
  cases h with
  | reads hw => cases hw <;> exact ⟨trivial, nofun⟩
  | _ => exact ⟨trivial, nofun⟩

theorem Offers.inbox_of_stop {inbox : Option Message} (h : w.Offers p .stop inbox) :
    inbox = w.monitor.inbox := by
  cases h with
  | reads _ hr => cases hr
  | _ => rfl

theorem Turned.holds {r : Round} {inbox : Option Message} {o : Occasion}
    {steps' : List (Point × Watch)} (ht : Turned (w.facing o) r inbox steps' w')
    (hw : w.monitor.snapshot.Whole) (h : w.monitor.snapshot.Holds (copies past)) :
    w'.monitor.snapshot.Holds (copies (past ++ [(o, r)])) := by
  have hcaptures := ht.captures
  rw [copies, List.filterMap_append, ← copies]
  cases hserved : r.served? with
  | none =>
    rw [hserved, Option.elim_none] at hcaptures
    rw [hcaptures]
    simpa [hserved] using h
  | some page =>
    rw [hserved, Option.elim_some] at hcaptures
    have hsize : (o.machine.memory.read page Page.size).size = w.monitor.snapshot.pageSize := by
      rw [Memory.size_read, hw.pageSize]
    have hadds := h.adds hcaptures hsize
    simpa [hserved] using hadds

theorem Turning.turn (h : Turning past steps w) {o : Occasion} {r : Round}
    {inbox : Option Message} {steps' : List (Point × Watch)}
    (hp : w.monitor.thread = some ⟨p, false⟩) (ho : (w.facing o).Offers p r inbox)
    (hs : ∀ page, r.served? = some page → (w.facing o).Servable page)
    (ht : Turn (w.facing o) steps' w') : Turning (past ++ [(o, r)]) (steps ++ steps') w' := by
  obtain ⟨hwaiting, hlisten⟩ := ho.isWaiting
  have hturned := turned_of_offers (w := w.facing o) ⟨hp, h.inFlight, h.whole⟩
    (h.shows p false hp hwaiting hlisten) ho hs
  obtain ⟨steps₁, w₁, hturned⟩ := hturned
  obtain ⟨rfl, rfl⟩ := hturned.turn.unique ht
  constructor
  · intro q held hq hw hl
    by_cases hr : r = .stop
    · subst hr
      rw [hturned.thread] at hq
      cases hq
      exact hw.elim
    · exact hturned.state hr
  · exact hturned.whole
  · exact hturned.inFlight
  · rw [hturned.handled, served, List.filterMap_append, List.length_append, ← served]
    show w.monitor.handled + _ = _
    rw [h.handled]
    cases hserved : r.served? <;> simp [hserved]
  · exact hturned.holds h.whole h.holds
  · obtain ⟨entry, hentry, hstored⟩ := h.stored
    refine ⟨entry, hentry, ?_⟩
    have hsteps : Watch.stored (steps ++ steps') = Watch.stored steps ++ Watch.stored steps' :=
      List.filterMap_append
    rw [hsteps, hstored, hturned.stored]
    simp
  · intro s hmem
    rcases List.mem_append.mp hmem with hmem | hmem
    · exact h.truthful s hmem
    · exact hturned.truthful s hmem
  · intro o' r' hlast
    obtain ⟨rfl, rfl⟩ : o = o' ∧ r = r' := by simpa using hlast
    refine ⟨hturned.thread, hturned.memory, ?_⟩
    rintro rfl
    exact hturned.inbox.trans ho.inbox_of_stop

theorem Rounds.turning (h : Rounds w₀ past steps w) (hs : w₀.Shows) (hf : FirstLife slots w₀) :
    Turning past steps w := by
  induction h with
  | start => exact turning_start hs hf
  | enter ha => exact (turning_start hs hf).enter ha
  | turn _ hp ho hserve ht ih => exact ih.turn hp ho hserve ht

/-- What an armed monitor has done after these turns: the states that it has stored, the faults that
it has counted and the pages that it has captured are those of the messages served. A thread that
has stopped does nothing more, and any other takes whatever turn it is offered. -/
structure Loop (past : List (Occasion × Round)) (steps : List (Point × Watch)) (w : Watch) :
    Prop where
  stored : ∃ entry, (entry = [] ∨ entry = [.listening]) ∧
    stored steps = entry ++ past.flatMap fun t => t.2.stores
  truthful : ∀ s ∈ steps, Truthful s
  handled : w.monitor.handled = (served past).length
  inFlight : w.monitor.inFlight = 0
  addresses : w.monitor.snapshot.addresses.items.toList = served past
  captures : w.monitor.snapshot.toList = copies past
  left : ∀ o r, past.getLast? = some (o, r) → Left o r w
  stopped : ∀ o, past.getLast? = some (o, .stop) → serve.on w = (.ok (), w)
  turns : ∀ o p r inbox, w.monitor.thread = some ⟨p, false⟩ → (w.facing o).Offers p r inbox →
    (∀ page, r.served? = some page → (w.facing o).Servable page) →
    ∃ steps' w', Turn (w.facing o) steps' w'

theorem Turning.loop (h : Turning past steps w) : Loop past steps w := by
  constructor
  · exact h.stored
  · exact h.truthful
  · exact h.handled
  · exact h.inFlight
  · rw [h.holds.addresses, map_fst_copies]
  · exact h.holds.toList
  · exact h.left
  · exact fun o hlast => serve_of_ended (h.left o .stop hlast).thread
  · intro o p r inbox hp ho hs
    obtain ⟨hwaiting, hlisten⟩ := ho.isWaiting
    have hturned := turned_of_offers (w := w.facing o) ⟨hp, h.inFlight, h.whole⟩
      (h.shows p false hp hwaiting hlisten) ho hs
    obtain ⟨steps', w', hturned⟩ := hturned
    exact ⟨steps', w', hturned.turn⟩

/-- Over every run of turns that an armed monitor takes. -/
theorem loop_of_rounds {w₁ : Watch} {table : List Slot} {timeout : Duration}
    (hm : Built w₁.monitor) (ha : (arm table timeout).on w₁ = (.ok (), w₀))
    (hr : Rounds w₀ past steps w) : Loop past steps w := by
  have harmed := (arm_meets hm.unspent table timeout).ok ha
  have hshows := (arm_shows_meets hm.unspent table timeout).ok ha
  exact (hr.turning hshows harmed.firstLife).loop

theorem wait_justBuilt {w : Watch} (h : (arm twoRegions .zero).on justBuilt = (.ok (), w)) :
    w.monitor.thread = some ⟨.wait, false⟩ := by
  have ht : ((arm twoRegions .zero).on justBuilt).2.monitor.thread = some ⟨.wait, false⟩ := by
    decide +kernel
  rwa [h] at ht

/-- On a monitor over two pages: the first page is served, and the thread stops with a message for
the second one in the channel. -/
theorem loop_of_rounds_twoPages : ∃ w₁ steps w₂, ∃ o o' : Occasion,
    (arm twoRegions .zero).on justBuilt = (.ok (), w₁) ∧
    Loop [(o, .message (.heldWrite 4100)), (o', .stop)] steps w₂ := by
  obtain ⟨w₁, harm, hcalm⟩ := arm_justBuilt
  have hpristine := ((arm_meets built_justBuilt.unspent _ _).ok harm).pristine
  have hbase := hpristine.rests.baselined
  have hpage : Monitored twoPages twoRegions 1 := by decide +kernel
  have hstart := loop_of_rounds built_justBuilt harm .start
  have hwait := wait_justBuilt harm
  have hservable : w₁.Servable (1 * Page.size) := by
    constructor
    · have hroom : 2 * ((w₁.monitor.snapshot.size + 1) * Page.size) + 3 * Page.size ≤
          Mapping.limit := by
        rw [hpristine.empty]
        decide
      obtain ⟨_, s, hs, _⟩ := (Snapshot.capture_isOk (m := w₁.memory) (n := 1)
        hpristine.rests.whole hroom).exists_ok
      exact ⟨s, hs⟩
    · have hword : 1 * Page.size + Page.size < Word.limit := by decide
      obtain ⟨span, hspan⟩ := Span.ofLength_isOk hword
      refine ⟨span, hspan, ?_⟩
      rw [Memory.setGuarded_page_of_tracked false hspan (hbase.tracked 1 hpage) (hbase.low 1 hpage)]
    · intro errno
      rw [hcalm.unprotect.ask]
      nofun
  let o : Occasion := ⟨w₁.toMachine, some (.heldWrite 4100), false⟩
  let o' : Occasion := ⟨w₁.toMachine, some (.heldWrite 8192), true⟩
  have hoffers : (w₁.facing o).Offers .wait (.message (.heldWrite 4100)) none :=
    .reads (.waiting rfl rfl) (.taken hcalm.read.ask rfl)
  have hserve (page : Nat) (hp : (Round.message (.heldWrite 4100)).served? = some page) :
      (w₁.facing o).Servable page := by
    have hserved : (Round.message (.heldWrite 4100)).served? = some (1 * Page.size) := by decide
    obtain rfl := Option.some.inj (hserved.symm.trans hp)
    exact ⟨hservable.captured, hservable.released, hservable.lets⟩
  obtain ⟨steps, w, hturn⟩ := hstart.turns o .wait _ none hwait hoffers hserve
  have hfirst := Rounds.start.turn hwait hoffers hserve hturn
  have hloop := loop_of_rounds built_justBuilt harm hfirst
  have hpoll : w.monitor.thread = some ⟨.poll, false⟩ := (hloop.left _ _ rfl).thread
  have hoffers' : (w.facing o').Offers .poll .stop (some (.heldWrite 8192)) :=
    .polled hcalm.poll.ask rfl
  obtain ⟨steps', w₂, hturn'⟩ := hloop.turns o' .poll .stop _ hpoll hoffers' nofun
  exact ⟨w₁, _, w₂, o, o', harm,
    loop_of_rounds built_justBuilt harm (hfirst.turn hpoll hoffers' nofun hturn')⟩

end Watch
end Rewind
