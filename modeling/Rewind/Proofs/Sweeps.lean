import Rewind.Proofs.Runs
import Rewind.Proofs.Strays

/-! Iterations of routines that write anywhere, with or without captured pages being guarded again.
An iteration undoes what it did to the attended pages, and afterwards attends to all of them or only
to those that it left alone. -/
namespace Rewind

open Watch (Pristine Rests Open Reached Quiet Roomy EndsProcess RearmTrouble touched)

namespace Watch

variable {pages pages' : Nat → Prop} {base base' : Memory} {w : Watch}

/-- The attended pages are guarded and as their baseline, nothing is captured, and no other page is
guarded. -/
structure Parted (pages : Nat → Prop) (base : Memory) (w : Watch) : Prop where
  pristine : Pristine pages base w
  opened : Open pages w

/-- What a restore leaves attended: all pages if they are guarded again, else those that were not
captured. -/
def Kept (again : Bool) (pages : Nat → Prop) (w : Watch) (n : Nat) : Prop :=
  pages n ∧ (again = true ∨ n * Page.size ∉ w.monitor.snapshot.addresses.items)

theorem Parted.congr (h : Parted pages base w) (hp : ∀ n, pages' n ↔ pages n)
    (hb : ∀ n, pages n → base'.bytes? n = base.bytes? n) : Parted pages' base' w := by
  obtain rfl : pages' = pages := funext fun n => propext (hp n)
  have hw := h.pristine.rests.baselined
  refine ⟨⟨h.pristine.rests.update rfl h.pristine.rests.whole ?_, h.pristine.empty⟩, h.opened⟩
  constructor
  · exact hw.tracked
  · exact hw.low
  · exact hw.known
  · exact hw.nodup
  · intro n hn _
    exact ⟨h.pristine.guarded hn, (h.pristine.bytes hn).trans (hb n hn).symm⟩
  · exact fun n _ hin => absurd hin (h.pristine.not_mem _)
  · exact hw.unreleased
  · simp

/-- Forgetting captures that were written back leaves their pages unattended. -/
theorem Rests.abandon (h : Rests pages base w) (ho : Open pages w) :
    Parted (Kept false pages w) base { w with
      memory := w.monitor.snapshot.replay w.memory,
      monitor := { w.monitor with snapshot := w.monitor.snapshot.clear } } := by
  have hb := h.baselined
  refine ⟨⟨h.update rfl h.whole.clear ?_, Snapshot.size_clear _⟩, ?_⟩
  · constructor
    · intro n hn
      rw [Snapshot.isTracked_replay]
      exact hb.tracked n hn.1
    · exact fun n hn => hb.low n hn.1
    · simp
    · simp
    · intro n hn _
      obtain ⟨hguard, -⟩ := hb.clean n hn.1 (hn.2.resolve_left (by simp))
      rw [Snapshot.isGuarded_replay]
      exact ⟨hguard, hb.bytes?_replay hn.1⟩
    · simp
    · simp
    · simp
  · intro n hn
    rw [Snapshot.isGuarded_replay]
    by_cases hp : pages n
    · have hin : n * Page.size ∈ w.monitor.snapshot.addresses.items := by
        by_contra hout
        exact hn ⟨hp, .inr hout⟩
      by_contra hg
      simpa using hb.unreleased n hp hin (by simpa using hg)
    · exact ho n hp

/-- Restoring brings the attended pages back to their baseline and leaves all other memory alone,
whether or not it guards pages again. -/
theorem restore_open_meets (h : Rests pages base w) (ho : Open pages w) (again : Bool) :
    (restore again).Meets w
      (fun count w' => count = w.monitor.snapshot.size ∧ Parted (Kept again pages w) base w' ∧
        w'.kernel.rules = w.kernel.rules ∧ w'.monitor.inFlight = w.monitor.inFlight ∧
        (∀ k, pages k → w'.memory.bytes? k = base.bytes? k) ∧
        ∀ k, ¬pages k → w'.memory.bytes? k = w.memory.bytes? k)
      (fun e _ => w.RearmTrouble e) := by
  have hb := h.baselined
  cases again with
  | true =>
    apply (restore_meets h).mono
    · intro _ w' hpost
      obtain ⟨hcount, hpris, hrules, hflight, hframes⟩ := hpost
      have hparted : Parted pages base w' := by
        refine ⟨hpris, fun n hn => ?_⟩
        rw [Memory.isGuarded_eq, hframes n hn, ← Memory.isGuarded_eq]
        exact ho n hn
      refine ⟨hcount, hparted.congr (by simp [Kept]) fun _ _ => rfl, hrules, hflight, ?_, ?_⟩
      · exact fun k hk => hpris.bytes hk
      · intro k hk
        rw [Memory.bytes?, hframes k hk, Memory.bytes?]
    · exact fun _ _ he => he
  | false =>
    have hreplay := replay_of_free hb.free
    simp only [restore, Act.meets_bind, Bool.false_eq_true, if_false, Act.meets_pure]
    refine (Act.meets_of_ok hreplay).mpr ?_
    simp only [Watch.forget, Act.meets_modify]
    refine ⟨trivial, h.abandon ho, trivial, trivial, ?_, ?_⟩
    · exact fun k hk => hb.bytes?_replay hk
    · intro k hk
      rw [Memory.bytes?, hb.frame?_replay, if_neg (hb.not_mem_of_not_pages hk), Memory.bytes?]

/-- Of the pages that were reached, the attended ones are captured, and only they. -/
theorem Reached.mem_iff {m : Memory} {w' : Watch} {ns : List Nat}
    (h : Reached pages base ns m w w') (hw : Pristine pages base w) (n : Nat) :
    n * Page.size ∈ w'.monitor.snapshot.addresses.items ↔ pages n ∧ n ∈ ns := by
  constructor
  · intro hin
    have hn : pages n := by
      by_contra hn
      exact h.rests.baselined.not_mem_of_not_pages hn hin
    rcases h.confined.captured _ hin with hold | ⟨k, hk, e⟩
    · exact absurd hold (hw.not_mem _)
    · exact ⟨hn, Page.mul_inj.mp e ▸ hk⟩
  · exact fun hn => h.captured n hn.2 hn.1

theorem size_eq_ncard (hb : Baselined pages base none w.memory w.monitor.snapshot) :
    w.monitor.snapshot.size =
      Set.ncard {n | n * Page.size ∈ w.monitor.snapshot.addresses.items} := by
  have hnodup : w.captured.Nodup := by
    apply List.Nodup.of_map (· * Page.size)
    rw [map_captured hb]
    exact hb.nodup
  have hset : {n | n * Page.size ∈ w.monitor.snapshot.addresses.items} =
      (w.captured.toFinset : Set Nat) := by
    ext n
    simp [mem_captured hb]
  rw [hset, Set.ncard_coe_finset, List.toFinset_card_of_nodup hnodup, captured, List.length_map,
    Array.length_toList, Snapshot.size, PrivateArray.size]

theorem Quiet.mono (h : Quiet pages w) (hp : ∀ n, pages' n → pages n) : Quiet pages' w := by
  obtain ⟨ns, hns, hroom⟩ := h.roomy
  exact ⟨h.calm, ⟨ns, fun n hn => hns n (hp n hn), hroom⟩, h.inFlight⟩

end Watch

namespace Bench

open Watch (Parted Kept)

variable {σ : Type} {b : Bench σ} {pages : Nat → Prop} {base : Memory} {o : Scheduler.Options}
  {target : Target σ} {args : List String} {slots : List Slot}

/-- What the routine writes if it is called now. -/
def writes (b : Bench σ) (target : Target σ) (args : List String) : List (Nat × Array UInt8) :=
  (target b.subject args b.memory).writes

theorem call_open_meets (h : b.toWatch.Rests pages base) (ho : Open pages b.toWatch) :
    (call target args).Meets b
      (fun c b' => c = (target b.subject args b.memory).conclusion ∧ b'.scheduler = b.scheduler ∧
        Reached pages base (touched (b.writes target args))
          (b.memory.writeAll (b.writes target args)) b.toWatch b'.toWatch)
      (fun e _ => EndsProcess e ∧ ¬Quiet pages b.toWatch) := by
  simp only [call, Act.meets_bind, Act.meets_get, Act.meets_set, meets_onWatch, Act.meets_pure]
  apply (Watch.writeAll_open_meets h ho _).mono
  · exact fun _ w hw => ⟨trivial, trivial, hw⟩
  · exact fun _ _ he => he

/-- The attended pages that the routine writes to if it is called now. -/
def Reaches (pages : Nat → Prop) (target : Target σ) (args : List String) (b : Bench σ)
    (n : Nat) : Prop :=
  pages n ∧ n ∈ touched (b.writes target args)

/-- An iteration has undone what its call did to the attended pages, and recorded how many those
are. -/
structure Swept (pages : Nat → Prop) (base : Memory) (o : Scheduler.Options) (target : Target σ)
    (args : List String) (d : Duration) (b b' : Bench σ) : Prop where
  captures : ∃ conclusion b₁, (call target args).on b = (.ok conclusion, b₁) ∧
    ∀ n, n * Page.size ∈ b₁.monitor.snapshot.addresses.items ↔ Reaches pages target args b n
  parted : Parted (fun n => pages n ∧ (o.rearm = true ∨ ¬Reaches pages target args b n)) base
    b'.toWatch
  restored : ∀ k, pages k → b'.memory.bytes? k = base.bytes? k
  strays : ∀ k, ¬pages k →
    b'.memory.bytes? k = (b.memory.writeAll (b.writes target args)).bytes? k
  scheduler : b'.scheduler = b.scheduler.record
    [⟨d, .ofConclusion (target b.subject args b.memory).conclusion,
      Set.ncard {n | Reaches pages target args b n}⟩]
  quiet : Quiet pages b.toWatch → Quiet pages b'.toWatch

/-- Verification only looks. -/
theorem verify_state_meets (i : Nat) :
    (verify i slots).Meets b (fun _ b' => b' = b) fun _ _ => True := by
  simp only [verify, Act.meets_bind, Act.meets_get]
  split
  · exact Act.meets_fail.mpr trivial
  · exact Act.meets_pure.mpr rfl

theorem iteration_open_meets (hp : Parted pages base b.toWatch)
    (hroom : b.scheduler.samples.size < b.scheduler.samples.capacity) (i : Nat) (d : Duration) :
    (iteration o target args slots i d).Meets b
      (fun _ b' => Swept pages base o target args d b b')
      (fun _ _ => o.verify = false → ¬Quiet pages b.toWatch) := by
  have hcall : (call target args).Meets b _ _ :=
    (call_open_meets hp.pristine.rests hp.opened).and (Act.meets_self _ _)
  simp only [iteration, Act.meets_bind, meets_onWatch]
  refine hcall.mono ?_ fun _ _ he _ => he.1.2
  intro _ b₁ hpost
  obtain ⟨⟨rfl, hsched, hreached⟩, hon⟩ := hpost
  have hmem : ∀ n, n * Page.size ∈ b₁.monitor.snapshot.addresses.items ↔
      Reaches pages target args b n := hreached.mem_iff hp.pristine
  apply (Watch.drain_meets o.drainTimeout).mono
  · intro _ _ hpost
    obtain ⟨-, rfl⟩ := hpost
    apply (Watch.restore_open_meets hreached.rests hreached.opened o.rearm).mono
    · intro _ w hpost
      obtain ⟨rfl, hparted, hrules, hflight, hrestored, hstrays⟩ := hpost
      let row : Sample := ⟨d, .ofConclusion (target b.subject args b.memory).conclusion,
        Set.ncard {n | Reaches pages target args b n}⟩
      have hcount : b₁.monitor.snapshot.size = row.pagesRestored := by
        rw [Watch.size_eq_ncard hreached.rests.baselined]
        simp only [hmem, row]
      have hswept : Swept pages base o target args d b
          { b₁ with toWatch := w, scheduler := b.scheduler.record [row] } := by
        constructor
        · exact ⟨_, b₁, hon, hmem⟩
        · exact hparted.congr (by simp [Kept, hmem]) fun _ _ => rfl
        · exact hrestored
        · exact fun k hk => (hstrays k hk).trans (hreached.bytes k)
        · rfl
        · exact fun hq => (hreached.quiet hq).of_eq hrules hflight
      have hrecord : { b.scheduler with samples := { b.scheduler.samples with
          items := b.scheduler.samples.items.push row } } = b.scheduler.record [row] := by
        simp [Scheduler.record]
      have hpush := PrivateArray.push_isOk Mapping.refusal hroom row
      simp only [onTable, Act.meets_focus, Act.meets_mapError, sampleTable, hsched, hcount]
      refine (Act.meets_of_ok hpush).mpr ?_
      rw [hrecord, Act.meets_ite, Act.meets_pure]
      refine ⟨fun hverify => ?_, fun _ => hswept⟩
      apply (verify_state_meets i).mono
      · rintro _ _ rfl
        exact hswept
      · intro _ _ _ hoff
        rw [hverify] at hoff
        cases hoff
    · intro _ _ he _ hq
      exact he.1 (hreached.quiet hq).calm.protect
  · intro _ _ he _ hq
    exact he.1 (hreached.quiet hq).inFlight

end Bench

end Rewind
