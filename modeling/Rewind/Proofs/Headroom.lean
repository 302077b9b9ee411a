import Rewind.Proofs.Rollbacks

/-! Room for captures. While the kernel lets the thread serve faults and the bytes of the captures
have room where they are, every writer gets past every page, and replaying comes back. -/
namespace Rewind

open Monitor (Point State Thread)

/-- A capture for which the bytes have room is not refused, and moves no bytes. -/
theorem Snapshot.capture_room_meets {s : Snapshot} (hs : s.Whole) (m : Memory) (n : Nat)
    (h : (s.size + 1) * Page.size ≤ s.data.capacity) :
    (capture Mapping.refusal m (n * Page.size)).Meets s
      (fun _ s' => s'.data.capacity = s.data.capacity) (fun _ _ => False) := by
  have haligned : s.checkAligned (n * Page.size) = .ok () :=
    checkAligned_eq_ok_iff.mpr ⟨by rw [hs.pageSize]; exact Page.size_pos,
      by rw [hs.pageSize]; exact Nat.dvd_mul_left _ _⟩
  have hdata : s.data.size + s.pageSize ≤ s.data.capacity := by
    rw [hs.data, hs.pageSize, ← Nat.succ_mul]
    exact h
  have hread : (m.read (n * Page.size) s.pageSize).size = s.pageSize := Memory.size_read _ _ _
  have hplace : 2 * (s.addresses.size + 1) * 8 + 3 * Page.size ≤ Mapping.limit := by
    have hbytes := hs.dataFit.bytes_le
    simp only [Snapshot.size, Page.size, Mapping.limit] at h hbytes ⊢
    omega
  have hword : s.data.capacity < Word.limit := by
    have hbytes := hs.dataFit.bytes_le
    have hlimit : Mapping.limit < Word.limit := by decide
    omega
  have hroom := PrivateArray.reserve_of_room hword Mapping.refusal hdata
  simp only [capture, PrivateArray.extend, Act.meets_bind, Act.meets_get, Act.meets_faulty,
    Act.meets_focus, Act.meets_modify, haligned]
  refine ⟨fun _ _ => (Act.meets_of_ok hroom).mpr ?_, by simp⟩
  have place := (PrivateArray.reserve_meets (by decide) hs.addressesFit 1).and
    (PrivateArray.reserve_isOk (by decide) hplace)
  refine place.mono ?_ fun _ _ he => he.2
  rintro _ addresses ⟨⟨haddresses, hfree, -⟩, -⟩
  have hlt : addresses.size < addresses.capacity := by
    simp only [PrivateArray.size, haddresses] at hfree ⊢
    omega
  rw [← hread] at hroom
  refine (Act.meets_of_ok hroom).mpr ?_
  exact (Act.meets_of_ok (PrivateArray.push_isOk Mapping.refusal hlt _)).mpr rfl

namespace Watch

variable {w w₀ w' : Watch} {p : Point} {n : Nat}

/-- A step of the loop moves no bytes of captures, unless it adds one for which there is no room. -/
theorem perform_capacity_meets (hs : w.monitor.snapshot.Whole) (hp : p.InLoop)
    (hroom : ∀ k, p = .capture (k * Page.size) →
      (w.monitor.snapshot.size + 1) * Page.size ≤ w.monitor.snapshot.data.capacity) :
    (perform p).Meets w
      (fun _ w' => w'.monitor.snapshot.data.capacity = w.monitor.snapshot.data.capacity)
      (fun _ _ => True) := by
  by_cases hcapture : ∃ k, p = .capture (k * Page.size)
  · obtain ⟨k, rfl⟩ := hcapture
    simp only [perform, capture, Act.meets_bind, Act.meets_get, Act.meets_attempt, Act.meets_focus,
      Act.meets_pure]
    exact (Snapshot.capture_room_meets hs w.memory k (hroom k rfl)).mono (fun _ _ h => h)
      fun _ _ he => he.elim
  · refine (perform_meets hs hp).mono (fun next w' hstep => ?_) fun _ _ _ => trivial
    cases hstep with
    | @capture k => exact absurd ⟨k, rfl⟩ hcapture
    | _ => rfl

/-- The thread waits for a fault, none is in flight, and the kernel lets it serve one. -/
structure Ready (w : Watch) : Prop where
  waits : w.Waits
  running : w.monitor.stopSignalled = false
  inFlight : w.monitor.inFlight = 0
  poll : w.kernel.Grants .poll
  read : w.kernel.Grants .read
  release : w.kernel.Grants .unprotect

theorem Answers.isTracked (h : Answers w₀ n w) (k : Nat) :
    w.memory.isTracked k = w₀.memory.isTracked k := by
  cases h with
  | raised _ _ _ hm | taken _ _ _ hm | caught _ _ _ hm => rw [hm]
  | answered _ _ hm => rw [hm, Memory.isTracked_mark]

/-- With a page in hand that is not captured yet, the captures are as they were. -/
theorem Answers.snapshot (h : Answers w₀ n w) {held : Bool}
    (ht : w.monitor.thread = some ⟨p, held⟩) {page : Nat} (hp : p.served? = some page)
    (hc : p.caught? = none) : w.monitor.snapshot = w₀.monitor.snapshot := by
  cases h with
  | raised _ _ _ _ hs | taken _ _ _ _ hs => exact hs
  | @caught q hq ht' =>
    rw [ht'] at ht
    cases ht
    rw [hq.2] at hc
    cases hc
  | answered _ hrests =>
    have hnone := (hrests _ ht).served
    rw [hp] at hnone
    cases hnone

/-- The thread is on its way with the fault of a page, from the point at which it was ready. -/
structure Serving (w₀ : Watch) (n : Nat) (p : Point) (w : Watch) : Prop where
  thread : w.monitor.thread = some ⟨p, false⟩
  attends : Attends w₀ n w
  serves : ∃ raised fault, w.Serves raised fault p ∧ ∀ k ∈ fault, k = n
  capacity : w.monitor.snapshot.data.capacity = w₀.monitor.snapshot.data.capacity

theorem serveFor_ready_meets (hready : w₀.Ready) (ht : w₀.memory.isTracked n = true)
    (hn : Page.Usable (n * Page.size))
    (hroom : (w₀.monitor.snapshot.size + 1) * Page.size ≤ w₀.monitor.snapshot.data.capacity)
    {steps : Nat} (h : Serving w₀ n p w) (hr : p.rank w.monitor.inbox < steps) :
    (serveFor steps).Meets w (fun _ w' => Serving w₀ n .wait w' ∧ w'.monitor.inbox = none)
      (fun _ _ => False) := by
  induction steps generalizing w p with
  | zero => exact absurd hr (Nat.not_lt_zero _)
  | succ steps ih =>
    obtain ⟨hthread, hattends, ⟨raised, fault, hv, hf⟩, hcapacity⟩ := h
    have hgrants {call : Kernel.Call} (hg : w₀.kernel.Grants call) : w.kernel.Grants call :=
      hg.of_rules hattends.spares.rules
    have hplace (k : Nat) (hk : p = .capture (k * Page.size)) :
        (w.monitor.snapshot.size + 1) * Page.size ≤ w.monitor.snapshot.data.capacity := by
      subst hk
      rwa [hattends.answers.snapshot hthread rfl rfl]
    have hsteps := ((perform_meets hv.whole hv.stage.inLoop).and (hattends.step hthread)).and
      ((perform_capacity_meets hv.whole hv.stage.inLoop hplace).and
        (perform_calm_meets (hgrants hready.poll) (hgrants hready.read) (hgrants hready.release) hv
          (fun k hk => (Snapshot.capture_room_meets hv.whole w.memory k (hplace k hk)).mono
            (fun _ _ _ => trivial) fun _ _ he => he)
          fun k hk => by
            obtain rfl := hf k hk
            exact ⟨(hattends.answers.isTracked k).trans ht, hn.low⟩))
    simp only [serveFor, Act.meets_bind, Act.meets_get, hthread]
    refine hsteps.mono ?_ fun _ _ he => he.2.2
    rintro next w' ⟨⟨hstep, hattends'⟩, hcapacity', ⟨rfl, rfl, hi⟩ | ⟨q, rfl, hq⟩⟩
    · refine Act.meets_pure.mpr ?_
      cases hstep with
      | block => exact ⟨⟨hthread, hattends, ⟨raised, fault, hv, hf⟩, hcapacity⟩, hi⟩
    · simp only [setThread, Act.meets_bind, meets_modifyMonitor]
      refine ih ⟨rfl, hattends', ?_, hcapacity'.trans hcapacity⟩ (by
        have : q.rank w'.monitor.inbox < steps := by omega
        exact this)
      obtain ⟨hv', -⟩ := hv.step hstep
      have hwent : (w'.went (.go q)).Serves raised _ q := serves_went.mpr hv'
      refine ⟨raised, _, hwent, fun k hk => hf k ?_⟩
      cases p <;> first | exact hk | cases hk

/-- A writer gets past its page if there is room to capture it, and the thread is then as ready as
before. -/
theorem claim_ready_meets {address : Nat} (h : w.monitor.Steady) (ho : w.memory.Orderly)
    (hready : w.Ready) (ha : Page.number address = n)
    (hroom : w.memory.isGuarded n = true →
      (w.monitor.snapshot.size + 1) * Page.size ≤ w.monitor.snapshot.data.capacity) :
    (claim n address).Meets w
      (fun _ w' => w'.Ready ∧
        w'.monitor.snapshot.data.capacity = w.monitor.snapshot.data.capacity)
      (fun _ _ => False) := by
  simp only [claim, Act.meets_bind, Act.meets_get, Act.meets_ite, meets_modifyMonitor,
    meets_halt, Act.meets_pure]
  refine ⟨fun hg => ?_, fun _ => ⟨hready, trivial⟩⟩
  have hraised : Serving w n .wait (w.raising address) := by
    refine ⟨hready.waits.1, ⟨.raised ha rfl h.thread rfl rfl, h.whole, w.kernel.spares_refl⟩, ?_,
      rfl⟩
    refine ⟨w.monitor.handled + 1, some n, ⟨h.whole, hready.running, hready.inFlight, rfl, ?_, ?_⟩,
      by simp⟩
    · rintro _ ⟨⟩
      exact hg
    · rw [← ha]
      exact .raised trivial
  have hpatience : Point.rank .wait (w.raising address).monitor.inbox <
      patience (w.raising address) := by
    have hrank := Point.rank_lt .wait (w.raising address).monitor.inbox
    simp only [patience, turnSteps]
    omega
  simp only [serve, Act.meets_bind, Act.meets_get]
  refine (serveFor_ready_meets hready (ho.tracked n hg) (ho.usable n hg) (hroom hg) hraised
    hpatience).mono ?_ fun _ _ he => he
  rintro _ w' ⟨⟨hthread, hattends, ⟨raised, fault, hv, -⟩, hcapacity⟩, hi⟩
  have hgrants {call : Kernel.Call} (hcall : w.kernel.Grants call) : w'.kernel.Grants call :=
    hcall.of_rules hattends.spares.rules
  -- The thread waits and the channel is empty, so that the message has been answered.
  have hfree : w'.memory.isGuarded n = false := by
    cases hattends.answers with
    | answered _ _ hm => rw [hm, Memory.isGuarded_mark, if_pos rfl, Bool.and_false]
    | raised _ hsome =>
      rw [hi] at hsome
      cases hsome
    | taken hp ht | caught hp ht =>
      rw [hthread] at ht
      cases ht
      cases hp.1
  refine ⟨fun hg' => ?_, fun _ => ⟨⟨⟨hthread, hi⟩, hv.running, hv.inFlight, hgrants hready.poll,
    hgrants hready.read, hgrants hready.release⟩, hcapacity⟩⟩
  rw [hfree] at hg'
  cases hg'

/-- A page that was written to is guarded no more, and so it is counted once. -/
theorem card_guardedAmong_append {ns ks : List Nat} {m : Memory} (h : Overwrote ns m w w') :
    (w.guardedAmong (ns ++ ks)).card = (w.guardedAmong ns).card + (w'.guardedAmong ks).card := by
  rw [← Finset.card_union_of_disjoint]
  · congr 1
    ext k
    rw [Finset.mem_union, mem_guardedAmong, mem_guardedAmong, mem_guardedAmong, h.guarded,
      List.mem_append]
    by_cases hk : k ∈ ns <;> simp [hk]
  · rw [Finset.disjoint_left]
    intro k hk hk'
    rw [mem_guardedAmong] at hk
    rw [mem_guardedAmong, h.guarded] at hk'
    exact hk'.2.2 hk.1

theorem write_page_ready_meets (h : w.monitor.Steady) (ho : w.memory.Orderly) (hready : w.Ready)
    (hroom : w.memory.isGuarded n = true →
      (w.monitor.snapshot.size + 1) * Page.size ≤ w.monitor.snapshot.data.capacity)
    (b : Page.Bytes) : (write (n * Page.size) b.toArray).Meets w
      (fun _ w' => w'.Ready ∧
        w'.monitor.snapshot.data.capacity = w.monitor.snapshot.data.capacity)
      (fun _ _ => False) := by
  have hpage : Page.numbers (n * Page.size) b.toArray.size = [n] := by
    rw [b.size_toArray, Page.numbers_page]
  simp only [write, hpage, writePages, Act.meets_bind, Act.meets_modify, Act.meets_pure, max_self]
  refine (claim_ready_meets h ho hready (Page.number_mul n) hroom).mono ?_ fun _ _ he => he
  rintro _ w' ⟨hready', hcapacity⟩
  exact ⟨⟨hready'.waits, hready'.running, hready'.inFlight, hready'.poll, hready'.read,
    hready'.release⟩, hcapacity⟩

theorem replayBelow_ready_meets {i : Nat} (h : w.monitor.Steady) (ho : w.memory.Orderly)
    (hready : w.Ready) (hi : i ≤ w.monitor.snapshot.size)
    (hroom : (w.monitor.snapshot.size + (w.guardedAmong (w.captured.take i)).card) * Page.size ≤
      w.monitor.snapshot.data.capacity) :
    (replayBelow i).Meets w (fun _ w' => w'.Ready) (fun _ _ => False) := by
  induction i generalizing w with
  | zero => exact Act.meets_pure.mpr hready
  | succ i ih =>
    obtain ⟨n, b, hlt, hc, hcaptured⟩ := exists_capture h hi
    obtain ⟨ha, hcontent⟩ := Snapshot.get_of_getElem_toList hc
    have hcount : w.guardedAmong (w.captured.take (i + 1)) =
        w.guardedAmong ([n] ++ w.captured.take i) := by
      ext k
      rw [mem_guardedAmong, mem_guardedAmong, hcaptured, List.mem_append, List.mem_append, or_comm]
    have hfirst : w.memory.isGuarded n = true →
        (w.monitor.snapshot.size + 1) * Page.size ≤ w.monitor.snapshot.data.capacity := by
      intro hg
      have hmem : n ∈ w.guardedAmong (w.captured.take (i + 1)) :=
        mem_guardedAmong.mpr ⟨by simp [hcaptured], hg⟩
      have hpos := Finset.card_pos.mpr ⟨n, hmem⟩
      exact (Nat.mul_le_mul_right _ (by omega)).trans hroom
    have hland := (write_page_steady_meets h ho n b).and
      (write_page_ready_meets h ho hready hfirst b)
    simp only [replayBelow, Act.meets_bind, Act.meets_get, ha, hcontent, Act.meets_faulty]
    refine ⟨?_, by simp⟩
    rintro _ ⟨⟩
    refine hland.mono ?_ fun _ _ he => he.2
    rintro _ w₁ ⟨hover, hready₁, hcapacity⟩
    have hle : i ≤ w.monitor.snapshot.size := Nat.le_of_succ_le hi
    simp only [ne_eq, Act.meets_ite, hcapacity, not_true]
    refine ⟨by simp, fun _ => ?_⟩
    refine ih hover.steady (hover.orderly ho) hready₁ (hle.trans hover.size_le) ?_
    rw [hcapacity, hover.take_captured hle, hover.size, Nat.add_assoc,
      ← card_guardedAmong_append hover, ← hcount]
    exact hroom

/-- On a machine that is ready, replaying comes back exactly if the bytes of the captures have room
where they are. -/
theorem replay_ready_meets (h : w.monitor.Steady) (ho : w.memory.Orderly) (hready : w.Ready)
    (hroom : w.HasRoom) : replay.Meets w (fun _ w' => w'.Ready) (fun _ _ => False) := by
  have hall := replayBelow_ready_meets h ho hready le_rfl (by
    rwa [← length_captured, List.take_length, length_captured])
  simp only [replay, Act.meets_bind, Act.meets_get, Act.meets_pure]
  exact hall

end Watch

end Rewind
