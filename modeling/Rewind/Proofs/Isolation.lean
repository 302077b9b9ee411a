import Rewind.Proofs.Runs

/-! Isolation of iterations. Whatever an armed monitor was used for before, among it earlier runs on
the same tables, a run finds all pages captured or guarded, and so its iterations do not see each
other. -/
namespace Rewind

open Monitor (Point State Thread)

namespace Watch

variable {pages : Nat → Prop} {base base' : Memory} {w w' : Watch}

theorem Use.rebase (hu : Use pages (base, w) (base', w')) (base₁ : Memory) :
    ∃ base₂, Use pages (base₁, w) (base₂, w') := by
  cases hu with
  | write hn h => exact ⟨_, .write hn h⟩
  | drain h => exact ⟨_, .drain h⟩
  | restore h => exact ⟨_, .restore h⟩
  | rebaseline h => exact ⟨_, .rebaseline h⟩
  | overdue h => exact ⟨_, .overdue h⟩
  | resume h => exact ⟨_, .resume h⟩

theorem Rests.resume_calm_meets (h : Rests pages base w) (hc : w.kernel.Calm)
    (hroom : Roomy pages) :
    Watch.resume.Meets w (fun _ w' => w'.monitor.inFlight = 0) (fun _ _ => False) := by
  obtain ⟨raised, hopen⟩ := h.free
  have hserve := (hopen.serve (by simp)).and (serve_calm_meets hopen hc hroom (by simp))
  simp only [Watch.resume, Act.meets_bind, meets_modifyMonitor]
  refine hserve.mono ?_ fun _ _ he => he.2
  intro _ w' hpost
  obtain ⟨⟨fault', hw', -⟩, hwaits⟩ := hpost
  exact hwaits.inFlight hw'

/-- No use changes the script, and none leaves a fault in flight while the kernel is calm. -/
theorem Use.quiet (hu : Use pages (base, w) (base', w')) (h : Rests pages base w) :
    w'.kernel.rules = w.kernel.rules ∧ (Quiet pages w → Quiet pages w') := by
  cases hu with
  | @write _ _ _ start bytes hn hw =>
    obtain ⟨hwrote, -⟩ := (write_meets h hn).ok hw
    refine ⟨hwrote.confined.rules, fun hq => ?_⟩
    have hcalm := writePages_calm_meets h start bytes (fun n hmem =>
      ⟨hn n hmem, Page.number_max_of_mem_numbers hmem⟩) hq.calm hq.roomy
    exact ⟨hq.calm.of_rules hwrote.confined.rules, hq.roomy, hcalm.ok hw hq.inFlight⟩
  | @drain _ _ _ timeout r hw =>
    have hd := drain_meets (w := w) timeout
    cases r with
    | ok _ => exact (hd.ok hw).2 ▸ ⟨rfl, id⟩
    | error _ => exact (hd.error hw).2.1 ▸ ⟨rfl, id⟩
  | restore hw =>
    obtain ⟨-, -, hrules, hflight, -⟩ := (restore_meets h).ok hw
    exact ⟨hrules, fun hq => hq.of_eq hrules hflight⟩
  | rebaseline hw =>
    obtain ⟨-, -, hrules, hflight, -⟩ := (rebaseline_meets h _).ok hw
    exact ⟨hrules, fun hq => hq.of_eq hrules hflight⟩
  | overdue hw =>
    rcases (rebaseline_meets h _).error hw with ⟨-, he | ⟨_, _, he⟩⟩ | ⟨-, hw', -⟩
    · simp at he
    · simp at he
    · exact hw' ▸ ⟨rfl, id⟩
  | resume hw =>
    have hrules := (h.resume.ok hw).2.rules
    exact ⟨hrules, fun hq => ⟨hq.calm.of_rules hrules, hq.roomy,
      (h.resume_calm_meets hq.calm hq.roomy).ok hw⟩⟩

end Watch

namespace Bench

open Watch (Rests Use Roomy Quiet Built Armed arm)

/-- One step of what happened to an armed monitor and its scheduler before: a use of the monitor, or
a run of any routine, which may have been given up. -/
inductive Past (pages : Nat → Prop) : Watch × Scheduler → Watch × Scheduler → Prop
  | use {base base' : Memory} {w w' : Watch} {s : Scheduler}
      (h : Use pages (base, w) (base', w')) : Past pages (w, s) (w', s)
  | run {σ : Type} {b b' : Bench σ} {o : Scheduler.Options} {target : Target σ}
      {args : List String} {slots : List Slot} {clock : Nat → Duration} {n : Nat} {series : Series}
      (ho : o.rearm = true) (ht : target.WritesOnly args pages)
      (h : (run o target args slots clock n).on b = (.ok series, b')) :
      Past pages (b.toWatch, b.scheduler) (b'.toWatch, b'.scheduler)

variable {pages : Nat → Prop} {rules : List Kernel.Rule}

theorem Past.sound {x x' : Watch × Scheduler} (hp : Past pages x x')
    (h : Sound pages rules x.1 x.2) (hg : x.1.kernel.Grants .protect) :
    Sound pages rules x'.1 x'.2 := by
  cases hp with
  | use hu =>
    obtain ⟨base, hr⟩ := h.rests
    obtain ⟨base', hu'⟩ := hu.rebase base
    obtain ⟨hrules, hquiet⟩ := hu'.quiet hr
    refine ⟨⟨base', hu'.rests hr⟩, hrules.trans h.rules, fun hcalm hroom => ?_, h.samples,
      h.checksums⟩
    have hcalm' := hcalm.of_rules hrules.symm
    exact (hquiet ⟨hcalm', hroom, h.quiet hcalm' hroom⟩).inFlight
  | run ho ht hrun => exact ((run_meets h hg ho ht).ok hrun).1

theorem sound_of_past {x x' : Watch × Scheduler} (hp : Relation.ReflTransGen (Past pages) x x')
    (h : Sound pages rules x.1 x.2) (hg : x.1.kernel.Grants .protect) :
    Sound pages rules x'.1 x'.2 := by
  induction hp with
  | refl => exact h
  | tail _ hstep ih =>
    refine hstep.sound ih fun r hr => hg r ?_
    rwa [h.rules, ← ih.rules]

theorem sound_of_armed {m₀ : Memory} {slots : List Slot} {w : Watch} {s : Scheduler}
    {stackSize : Nat}
    (h : Armed m₀ slots w) (hs : Scheduler.new stackSize = .ok s) :
    Sound (Monitored m₀ slots) w.kernel.rules w s := by
  have htables : s.samples = .empty ∧ s.checksums = .empty := by
    unfold Scheduler.new at hs
    cases hc : Context.new stackSize with
    | error e => simp [hc, bind, Except.bind] at hs
    | ok context =>
      simp only [hc, bind, Except.bind, pure, Except.pure, Except.ok.injEq] at hs
      exact hs ▸ ⟨rfl, rfl⟩
  refine ⟨⟨m₀, h.pristine.rests⟩, rfl, fun _ _ => h.firstLife.inFlight, ?_, ?_⟩
  · exact htables.1 ▸ PrivateArray.fits_empty
  · exact htables.2 ▸ PrivateArray.fits_empty

/-- The table of an armed monitor is small enough for a checksum of each of its regions. -/
theorem hasRoom_of_armed {m₀ : Memory} {slots table : List Slot} {w : Watch}
    (h : Armed m₀ (slots ++ table) w) : HasRoom table := by
  obtain ⟨hsize, hbytes⟩ := h.firstLife.fits
  have hlength : w.monitor.slots.size = slots.length + table.length := by
    rw [PrivateArray.size, ← Array.length_toList, h.firstLife.slots, List.length_append]
  simp only [HasRoom, Mapping.limit, Page.size] at hbytes ⊢
  omega

/-- Whatever happened to an armed monitor and its scheduler, a run that comes back has isolated its
iterations, unless the time to drain was up; and while the kernel is calm and there is room for the
captures, a run comes back and has isolated its iterations. -/
theorem isolated_of_past {σ : Type} {w w₁ : Watch} {table : List Slot} {timeout : Duration}
    {stackSize : Nat} {s : Scheduler} {b : Bench σ} {o : Scheduler.Options} {target : Target σ}
    {args : List String} {clock : Nat → Duration} {n : Nat} (hm : Built w.monitor)
    (ha : (arm table timeout).on w = (.ok (), w₁)) (hs : Scheduler.new stackSize = .ok s)
    (hg : w₁.kernel.Grants .protect)
    (hp : Relation.ReflTransGen
      (Past (Monitored w.memory (w.monitor.slots.items.toList ++ table))) (w₁, s)
      (b.toWatch, b.scheduler))
    (ho : o.rearm = true)
    (ht : target.WritesOnly args (Monitored w.memory (w.monitor.slots.items.toList ++ table)))
    (hn : Reservable b.scheduler n) :
    (∀ series b', (run o target args table clock n).on b = (.ok series, b') →
      Isolated (Monitored w.memory (w.monitor.slots.items.toList ++ table)) o target args table
        clock n b series b' ∨
      ∃ inFlight timeout, series.aborted = some (.drainTimeout inFlight timeout)) ∧
    (w₁.kernel.Calm → Roomy (Monitored w.memory (w.monitor.slots.items.toList ++ table)) →
      ∃ series b', (run o target args table clock n).on b = (.ok series, b') ∧
        Isolated (Monitored w.memory (w.monitor.slots.items.toList ++ table)) o target args table
          clock n b series b') := by
  have harmed := (Watch.arm_meets hm.unspent table timeout).ok ha
  have hsound := sound_of_past hp (sound_of_armed harmed hs) hg
  have hgrants : b.kernel.Grants .protect := fun r hr => hg r (hsound.rules ▸ hr)
  have hspec : (run o target args table clock n).Meets b _ _ := run_meets hsound hgrants ho ht
  constructor
  · intro series b' hrun
    exact ((hspec.ok hrun).2 hn (hasRoom_of_armed harmed)).imp_right And.right
  · intro hcalm hroom
    have hcalm' := hcalm.of_rules hsound.rules
    have hq : Quiet _ b.toWatch := ⟨hcalm', hroom, hsound.quiet hcalm' hroom⟩
    have hsafe : (run o target args table clock n).Meets b _ fun _ _ => False :=
      hspec.mono (fun _ _ h => h) fun _ _ he => he.2 hn (hasRoom_of_armed harmed) hq
    obtain ⟨series, b', hrun, -, hi⟩ := hsafe.exists_ok
    exact ⟨series, b', hrun, (hi hn (hasRoom_of_armed harmed)).resolve_right fun h => h.1 hq⟩

/-- A routine that counts in the first byte of a page. -/
def counting : Target Unit := fun _ _ memory => ⟨[(4096, #[memory.byte 4096 + 1])], .completed, ()⟩

/-- Two iterations on a monitor over two pages that were written to before. -/
theorem isolated_of_past_twoPages : ∃ (b b' : Bench Unit) (series : Series),
    (run ⟨.zero, true, true⟩ counting [] Watch.twoRegions (fun _ => .zero) 2).on b =
      (.ok series, b') ∧
    Isolated (Monitored Watch.twoPages Watch.twoRegions) ⟨.zero, true, true⟩ counting []
      Watch.twoRegions (fun _ => .zero) 2 b series b' := by
  obtain ⟨w₁, w₂, harm, hcalm, hpages, hw⟩ := Watch.write_justBuilt
  have hwrites : counting.WritesOnly [] (Monitored Watch.twoPages Watch.twoRegions) := by
    intro _ _ n hn
    rw [Watch.touched, counting, List.flatMap_singleton, Page.mem_numbers] at hn
    obtain rfl : n = 1 := by
      simp only [Page.number, Page.size, List.size_toArray, List.length_singleton] at hn
      omega
    decide +kernel
  have huse : Use (Monitored Watch.twoPages Watch.twoRegions) (Watch.twoPages, w₁)
      (Watch.twoPages, w₂) := .write hpages hw
  have hsched : Scheduler.new 4096 = .ok ⟨⟨⟨8192, 4096⟩⟩, .empty, .empty⟩ := rfl
  let b : Bench Unit := ⟨w₂, ⟨⟨⟨8192, 4096⟩⟩, .empty, .empty⟩, ()⟩
  have hres : Reservable b.scheduler 2 := reservable_of_le _ (by decide)
  obtain ⟨-, hruns⟩ := isolated_of_past (b := b) (o := ⟨.zero, true, true⟩)
    Watch.built_justBuilt harm
    hsched hcalm.protect (.single (.use huse)) rfl hwrites hres
  obtain ⟨series, b', hrun, hi⟩ := hruns hcalm Watch.roomy_twoPages
  exact ⟨_, b', series, hrun, hi⟩

end Bench

end Rewind
