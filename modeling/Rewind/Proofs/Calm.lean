import Rewind.Proofs.Writes

/-! A calm kernel: the script lets every call take its course. Then the thread serves each fault
and waits for the next, so that no write of the process is left hanging. -/
namespace Rewind

open Monitor (Point State Thread)

/-- The script has nothing to say to the calls of an armed monitor. -/
structure Kernel.Calm (k : Kernel) : Prop where
  poll : k.Grants .poll
  read : k.Grants .read
  protect : k.Grants .protect
  unprotect : k.Grants .unprotect

theorem Kernel.Calm.of_rules {k k' : Kernel} (h : k.Calm) (hk : k'.rules = k.rules) : k'.Calm :=
  ⟨h.poll.of_rules hk, h.read.of_rules hk, h.protect.of_rules hk, h.unprotect.of_rules hk⟩

/-- Steps that the thread takes before it waits with nothing to do. A message that is still in the
channel costs another turn of the loop. -/
def Monitor.Point.rank (p : Point) (inbox : Option Tracking.Message) : Nat :=
  let turn := if inbox.isSome then 11 else 0
  match p with
  | .wait => turn
  | .poll => turn + 1
  | .listen => turn + 2
  | .finish => turn + 3
  | .count => turn + 4
  | .release _ => 5
  | .unprotecting _ => 6
  | .capture _ => 7
  | .capturing _ => 8
  | .begin _ => 9
  | .read => if inbox.isSome then 10 else 3
  | _ => 0

theorem Monitor.Point.rank_lt (p : Point) (inbox : Option Tracking.Message) :
    p.rank inbox < 16 := by
  cases p <;> cases inbox <;> simp [rank]

namespace Watch

/-- There is room to capture all of these pages. -/
def Roomy (pages : Nat → Prop) : Prop :=
  ∃ ns : List Nat, (∀ n, pages n → n ∈ ns) ∧
    2 * (ns.length * Page.size) + 3 * Page.size ≤ Mapping.limit

theorem Roomy.capture {pages : Nat → Prop} {base m : Memory} {s : Snapshot} (h : Roomy pages)
    (hb : Baselined pages base none m s) {n : Nat} (hn : pages n) (hg : m.isGuarded n = true) :
    2 * ((s.size + 1) * Page.size) + 3 * Page.size ≤ Mapping.limit := by
  obtain ⟨ns, hns, hroom⟩ := h
  have hnew : n * Page.size ∉ s.addresses.items := by
    intro hin
    simpa using hb.unreleased n hn hin hg
  have hnodup : (n * Page.size :: s.addresses.items.toList).Nodup :=
    List.nodup_cons.mpr ⟨fun hin => hnew (Array.mem_toList_iff.mp hin), hb.nodup⟩
  have hsub : (n * Page.size :: s.addresses.items.toList) ⊆ ns.map (· * Page.size) := by
    intro a ha
    rw [List.mem_map]
    rcases List.mem_cons.mp ha with rfl | ha
    · exact ⟨n, hns n hn, rfl⟩
    · obtain ⟨k, hk, rfl⟩ := hb.known a (Array.mem_toList_iff.mp ha)
      exact ⟨k, hns k hk, rfl⟩
  have hle := (hnodup.subperm hsub).length_le
  simp only [List.length_cons, Array.length_toList, List.length_map] at hle
  have : (s.size + 1) * Page.size ≤ ns.length * Page.size := Nat.mul_le_mul_right _ hle
  omega

variable {pages : Nat → Prop} {base : Memory} {raised : Nat} {fault : Option Nat} {w : Watch}

/-- With a calm kernel each step of the loop comes closer to waiting with nothing to do. -/
theorem perform_calm_meets {p : Point} (hpoll : w.kernel.Grants .poll)
    (hread : w.kernel.Grants .read) (hrelease : w.kernel.Grants .unprotect)
    (hv : w.Serves raised fault p)
    (hcap : ∀ n, p = .capture (n * Page.size) →
      (Snapshot.capture Mapping.refusal w.memory (n * Page.size)).Meets w.monitor.snapshot
        (fun _ _ => True) fun _ _ => False)
    (hpage : ∀ n ∈ fault, w.memory.isTracked n = true ∧
      n * Page.size + Page.size ≤ Mapping.limit) :
    (perform p).Meets w
      (fun next w' => next = .block ∧ p = .wait ∧ w.monitor.inbox = none ∨
        ∃ q, next = .go q ∧ q.rank w'.monitor.inbox < p.rank w.monitor.inbox)
      (fun _ _ => False) := by
  cases p with
  | listen =>
    simp only [perform, Act.meets_bind, meets_setState, Act.meets_pure]
    exact .inr ⟨.poll, rfl, by simp [Point.rank]⟩
  | poll =>
    simp only [perform, poll, Act.meets_bind, meets_onMachine_ask, hpoll.ask, Act.meets_pure]
    exact .inr ⟨.wait, rfl, by simp [Point.rank]⟩
  | wait =>
    simp only [perform, Act.meets_bind, Act.meets_get, Act.meets_pure, hv.running]
    cases hi : w.monitor.inbox with
    | none => exact .inl ⟨rfl, by simp⟩
    | some m => exact .inr ⟨.read, rfl, by simp [Point.rank]⟩
  | read =>
    simp only [perform, read, Act.meets_bind, meets_onMachine_ask, hread.ask, Act.meets_get]
    have stage := hv.stage
    split
    · next hi => exact Act.meets_pure.mpr (.inr ⟨.listen, rfl, by simp [Point.rank, hi]⟩)
    · next m hi =>
      rw [hi] at stage
      cases stage with
      | raised _ =>
        simp only [Act.meets_bind, meets_modifyMonitor, onMessage_heldWrite, Act.meets_pure]
        exact .inr ⟨_, rfl, by simp [Point.rank, hi]⟩
  | begin page =>
    simp only [perform, Act.meets_bind, meets_modifyMonitor, Act.meets_pure]
    exact .inr ⟨.capturing page, rfl, by simp [Point.rank]⟩
  | capturing page =>
    simp only [perform, Act.meets_bind, meets_setState, Act.meets_pure]
    exact .inr ⟨.capture page, rfl, by simp [Point.rank]⟩
  | capture page =>
    obtain ⟨n, rfl⟩ := Page.IsAligned.exists_mul hv.stage.inLoop
    simp only [perform, capture, Act.meets_bind, Act.meets_get, Act.meets_attempt, Act.meets_focus,
      Act.meets_pure]
    refine (hcap n rfl).mono ?_ fun _ _ he => he.elim
    rintro - s -
    exact .inr ⟨_, rfl, by simp [Point.rank]⟩
  | unprotecting page =>
    simp only [perform, Act.meets_bind, meets_setState, Act.meets_pure]
    exact .inr ⟨.release page, rfl, by simp [Point.rank]⟩
  | release page =>
    obtain ⟨n, rfl⟩ := Page.IsAligned.exists_mul hv.stage.inLoop
    obtain ⟨ht, hl⟩ := hpage n (hv.fault_of_served? rfl)
    have hi := hv.inbox_of_served? rfl
    have hlimit : Mapping.limit < Word.limit := by decide
    obtain ⟨span, hspan⟩ := Span.ofLength_isOk (hl.trans_lt hlimit)
    have hset := Memory.setGuarded_page_of_tracked false hspan ht hl
    have hreq := Machine.requestMemory_of_grants (m := w.toMachine)
      (f := (·.setGuarded span false)) hrelease hset
    simp only [perform, Act.meets_bind, Act.meets_faulty, hspan, meets_request]
    refine ⟨?_, by simp⟩
    rintro _ ⟨⟩
    refine (Act.meets_of_ok hreq).mpr (Act.meets_pure.mpr ?_)
    exact .inr ⟨.count, rfl, by simp [Point.rank, hi]⟩
  | count =>
    simp only [perform, Act.meets_bind, meets_modifyMonitor, Act.meets_pure]
    exact .inr ⟨.finish, rfl, by simp [Point.rank]⟩
  | finish =>
    simp only [perform, Act.meets_bind, meets_modifyMonitor, Act.meets_pure]
    exact .inr ⟨.listen, rfl, by simp [Point.rank]⟩
  | _ => exact hv.stage.inLoop.elim

/-- The thread waits and has nothing to do. -/
def Waits (w : Watch) : Prop := w.monitor.thread = some ⟨.wait, false⟩ ∧ w.monitor.inbox = none

theorem Waits.inFlight (hw : w.Waits) (h : Attended pages base raised fault w) :
    w.monitor.inFlight = 0 := by
  obtain ⟨p, held, ht, -, hv, -⟩ := h
  obtain ⟨rfl, -⟩ : p = .wait ∧ held = false := by simpa [hw.1, eq_comm] using ht
  exact hv.inFlight

theorem serveFor_calm_meets {steps : Nat} {p : Point} (h : Attended pages base raised fault w)
    (hp : w.monitor.thread = some ⟨p, false⟩) (hr : p.rank w.monitor.inbox < steps)
    (hc : w.kernel.Calm) (hroom : Roomy pages) (hf : ∀ n ∈ fault, pages n) :
    (serveFor steps).Meets w (fun _ w' => w'.Waits) (fun _ _ => False) := by
  induction steps generalizing w fault p with
  | zero => exact absurd hr (Nat.not_lt_zero _)
  | succ steps ih =>
    obtain ⟨p₁, held, ht, hh, hv, hb⟩ := h
    obtain ⟨rfl, rfl⟩ : p₁ = p ∧ held = false := by simpa [ht] using hp
    have hcap (n : Nat) (hn : p₁ = .capture (n * Page.size)) :
        (Snapshot.capture Mapping.refusal w.memory (n * Page.size)).Meets w.monitor.snapshot
          (fun _ _ => True) fun _ _ => False := by
      subst hn
      obtain rfl := hv.fault_of_served? (n := n) rfl
      exact Snapshot.capture_isOk hv.whole (hroom.capture hb (hf n rfl) (hv.guarded n rfl))
    have hcalm := perform_calm_meets hc.poll hc.read hc.unprotect hv hcap
      fun n hn => ⟨hb.tracked n (hf n hn), hb.low n (hf n hn)⟩
    simp only [serveFor, Act.meets_bind, Act.meets_get, ht]
    refine ((perform_meets hv.whole hv.stage.inLoop).and hcalm).mono ?_ fun _ _ he => he.2
    intro next w' hpost
    obtain ⟨hs, ⟨rfl, rfl, hi⟩ | ⟨q, rfl, hq⟩⟩ := hpost
    · refine Act.meets_pure.mpr ?_
      cases hs with
      | block => exact ⟨ht, hi⟩
    · obtain ⟨fault', h', hsettle⟩ := Attended.step ht hh hv hb hf hs
      have hf' : ∀ n ∈ fault', pages n := by
        cases hsettle with
        | keeps => exact hf
        | releases => simp
      simp only [setThread, Act.meets_bind, meets_modifyMonitor]
      exact ih h' rfl (by have : q.rank w'.monitor.inbox < steps := by omega
                          exact this) (hc.of_rules hs.rules) hf'

theorem serve_calm_meets (h : Attended pages base raised fault w) (hc : w.kernel.Calm)
    (hroom : Roomy pages) (hf : ∀ n ∈ fault, pages n) :
    serve.Meets w (fun _ w' => w'.Waits) (fun _ _ => False) := by
  have ⟨p, held, ht, hh, _⟩ := h
  obtain rfl := hh hc.unprotect
  simp only [serve, Act.meets_bind, Act.meets_get]
  refine serveFor_calm_meets h ht ?_ hc hroom hf
  have := Point.rank_lt p w.monitor.inbox
  simp only [patience, turnSteps]
  omega

/-- With a calm kernel a writer never waits in vain, and finds no fault in flight afterwards. -/
theorem claim_calm_meets (h : Rests pages base w) {n address : Nat} (hn : pages n)
    (ha : Page.number address = n) (hc : w.kernel.Calm) (hroom : Roomy pages) :
    (claim n address).Meets w
      (fun _ w' => w.monitor.inFlight = 0 → w'.monitor.inFlight = 0) (fun _ _ => False) := by
  simp only [claim, Act.meets_bind, Act.meets_get, Act.meets_ite, meets_modifyMonitor,
    meets_halt, Act.meets_pure]
  refine ⟨fun hg => ?_, fun _ => id⟩
  obtain ⟨raised, hopen⟩ := h.raise ha hg
  have hpage : ∀ k ∈ some n, pages k := by simpa using hn
  have hserve := (hopen.serve hpage).and (serve_calm_meets hopen hc hroom hpage)
  refine hserve.mono ?_ fun _ _ he => he.2
  intro _ w' hpost
  obtain ⟨⟨fault', hw', hsettled, -⟩, hwaits⟩ := hpost
  rcases hsettled with rfl | ⟨-, hfree⟩
  · obtain ⟨p, held, ht, -, hv, -⟩ := hw'
    obtain ⟨rfl, -⟩ : p = .wait ∧ held = false := by simpa [hwaits.1, eq_comm] using ht
    have stage := hv.stage
    rw [hwaits.2] at stage
    cases stage with
    | served hp => cases hp
  · refine ⟨fun hg' => ?_, fun _ _ => hwaits.inFlight hw'⟩
    rw [hfree n rfl] at hg'
    cases hg'

theorem writePages_calm_meets (h : Rests pages base w) (start : Nat) (bytes : Array UInt8)
    {ns : List Nat} (hn : ∀ n ∈ ns, pages n ∧ Page.number (max start (n * Page.size)) = n)
    (hc : w.kernel.Calm) (hroom : Roomy pages) :
    (writePages start bytes ns).Meets w
      (fun _ w' => w.monitor.inFlight = 0 → w'.monitor.inFlight = 0) (fun _ _ => False) := by
  induction ns generalizing w with
  | nil => exact Act.meets_pure.mpr id
  | cons n ns ih =>
    obtain ⟨⟨hp, ha⟩, hns⟩ := List.forall_mem_cons.mp hn
    simp only [writePages, Act.meets_bind, Act.meets_modify]
    refine ((writePage_meets h hp ha start bytes).and (claim_calm_meets h hp ha hc hroom)).mono ?_
      fun _ _ he => he.2
    intro _ w' hpost
    obtain ⟨⟨hw', -⟩, hquiet⟩ := hpost
    exact (ih hw'.rests hns (hc.of_rules hw'.confined.rules)).mono
      (fun _ _ hnext hi => hnext (hquiet hi)) fun _ _ he => he

theorem writeAll_calm_meets (h : Rests pages base w) {writes : List (Nat × Array UInt8)}
    (hn : ∀ n ∈ touched writes, pages n) (hc : w.kernel.Calm) (hroom : Roomy pages) :
    (writeAll writes).Meets w
      (fun _ w' => w.monitor.inFlight = 0 → w'.monitor.inFlight = 0) (fun _ _ => False) := by
  induction writes generalizing w with
  | nil => exact Act.meets_pure.mpr id
  | cons run writes ih =>
    rw [touched, List.flatMap_cons, List.forall_mem_append] at hn
    have hpages : ∀ n ∈ Page.numbers run.1 run.2.size,
        pages n ∧ Page.number (max run.1 (n * Page.size)) = n :=
      fun n hmem => ⟨hn.1 n hmem, Page.number_max_of_mem_numbers hmem⟩
    simp only [writeAll, Act.meets_bind]
    refine ((write_meets h hn.1).and (writePages_calm_meets h run.1 run.2 hpages hc hroom)).mono ?_
      fun _ _ he => he.2
    intro _ w' hpost
    obtain ⟨⟨hw', -⟩, hquiet⟩ := hpost
    exact (ih hw'.rests hn.2 (hc.of_rules hw'.confined.rules)).mono
      (fun _ _ hnext hi => hnext (hquiet hi)) fun _ _ he => he

/-- No fault is in flight, and nothing can keep the thread from serving one. -/
structure Quiet (pages : Nat → Prop) (w : Watch) : Prop where
  calm : w.kernel.Calm
  roomy : Roomy pages
  inFlight : w.monitor.inFlight = 0

theorem Quiet.of_eq {w' : Watch} (h : Quiet pages w) (hr : w'.kernel.rules = w.kernel.rules)
    (hi : w'.monitor.inFlight = w.monitor.inFlight) : Quiet pages w' :=
  ⟨h.calm.of_rules hr, h.roomy, hi.trans h.inFlight⟩

/-- Writes that start in quiet come back, and quiet is then restored. -/
theorem writeAll_quiet_meets (h : Rests pages base w) {writes : List (Nat × Array UInt8)}
    (hn : ∀ n ∈ touched writes, pages n) :
    (writeAll writes).Meets w
      (fun _ w' => Wrote pages base (touched writes) w w' ∧ (Quiet pages w → Quiet pages w'))
      (fun e _ => EndsProcess e ∧ ¬Quiet pages w) := by
  by_cases hq : Quiet pages w
  · refine ((writeAll_meets h hn).and (writeAll_calm_meets h hn hq.calm hq.roomy)).mono ?_
      fun _ _ he => he.2.elim
    intro _ w' hpost
    obtain ⟨hw', hquiet⟩ := hpost
    exact ⟨hw', fun _ => ⟨hq.calm.of_rules hw'.confined.rules, hq.roomy, hquiet hq.inFlight⟩⟩
  · exact (writeAll_meets h hn).mono (fun _ _ hw' => ⟨hw', fun hq' => absurd hq' hq⟩)
      fun _ _ he => ⟨he, hq⟩

end Watch

end Rewind
