import Rewind.Proofs.Iterations

/-! Runs of a routine: the tables are prepared, the present memory becomes the baseline, and so many
iterations follow. A run that is given up leaves a bench on which the next one can start. -/
namespace Rewind.Bench

open Watch (Pristine Rests EndsProcess RearmTrouble Roomy Quiet)

variable {σ : Type} {b : Bench σ} {pages : Nat → Prop} {o : Scheduler.Options} {target : Target σ}
  {args : List String} {slots : List Slot} {clock : Nat → Duration} {n : Nat}

/-- What every run leaves, be it given up: captures and memory go together, and the tables can grow
as far as ever. -/
structure Sound (pages : Nat → Prop) (rules : List Kernel.Rule) (w : Watch) (s : Scheduler) :
    Prop where
  rests : ∃ base, w.Rests pages base
  rules : w.kernel.rules = rules
  quiet : w.kernel.Calm → Roomy pages → w.monitor.inFlight = 0
  samples : s.samples.Fits
  checksums : s.checksums.Fits

/-- The table for so many samples gets the memory that it needs. -/
def Reservable (s : Scheduler) (n : Nat) : Prop :=
  ((PrivateArray.reserve Mapping.refusal n).on s.samples.clear).1 = .ok ()

theorem reservable_of_le (s : Scheduler) {n : Nat}
    (h : 2 * n * 32 + 3 * Page.size ≤ Mapping.limit) :
    Reservable s n := by
  have hok := PrivateArray.reserve_isOk (v := s.samples.clear) (k := n) (by decide)
    (by simpa [PrivateArray.size, PrivateArray.clear] using h)
  obtain ⟨_, _, hon, -⟩ := hok.exists_ok
  rw [Reservable, hon]

/-- There is room for a checksum of each region. -/
def HasRoom (slots : List Slot) : Prop := 2 * slots.length * 4 + 3 * Page.size ≤ Mapping.limit

variable {rules : List Kernel.Rule}

theorem Sound.of_rests {w w' : Watch} {s s' : Scheduler} {base : Memory} (h : Sound pages rules w s)
    (hr : w'.Rests pages base) (hk : w'.kernel.rules = w.kernel.rules)
    (hi : w'.monitor.inFlight = w.monitor.inFlight) (hs : s'.samples.Fits)
    (hc : s'.checksums.Fits) :
    Sound pages rules w' s' :=
  ⟨⟨base, hr⟩, hk.trans h.rules,
    fun hcalm hroom => hi.trans (h.quiet (hcalm.of_rules hk.symm) hroom), hs, hc⟩

/-- A table that does not get its memory may fail in any way that the trouble allows. -/
theorem meets_onTable {τ α : Type} {part : Part (Bench σ) τ} {act : Act τ Errno α}
    {post : α → Bench σ → Prop} {trouble : Trouble Stop → Bench σ → Prop}
    (h : act.Meets (part.split b).1 (fun a t => post a ((part.split b).2 t))
      fun _ t => ∀ e, trouble e ((part.split b).2 t)) :
    (onTable part act).Meets b post trouble := by
  rw [onTable, Act.meets_focus, Act.meets_mapError]
  refine h.mono (fun _ _ h => h) fun e _ h => ?_
  cases e <;> exact h _

theorem Poised.byte {base : Memory} (h : Poised pages base b) (x : Nat) :
    b.memory.byte x = base.byte x := by rw [Memory.byte_eq, Memory.byte_eq, h.same]

/-- Calls of such a routine cannot be told apart when they start from the same memory. -/
theorem sample_eq {c : Bench σ} (hr : target.ReadsOnly args pages)
    (hc : ∀ x, c.memory.byte x = b.memory.byte x) (d : Duration) :
    (sample target args d c).ending = (sample target args d b).ending ∧
      (sample target args d c).pagesRestored = (sample target args d b).pagesRestored := by
  obtain ⟨hwrites, hend⟩ := hr c.subject b.subject c.memory b.memory fun x _ => hc x
  simp only [sample, hwrites, hend, and_self]

variable [Digest]

/-- What comes before the first iteration. -/
def prepare (o : Scheduler.Options) (slots : List Slot) (n : Nat) : Op σ Unit := do
  modify fun b => { b with scheduler := { b.scheduler with samples := b.scheduler.samples.clear } }
  onTable sampleTable (PrivateArray.reserve Mapping.refusal n)
  if o.verify then onTable checksumTable (Checksums.take (← get).memory slots)
  let _ ← onWatch (Watch.rebaseline o.drainTimeout)

/-- A run of `n` iterations up to the start of iteration `i`. -/
def upTo (o : Scheduler.Options) (target : Target σ) (args : List String) (slots : List Slot)
    (clock : Nat → Duration) (n i : Nat) : Op σ Unit := do
  prepare o slots n
  iterations o target args slots clock i 0

theorem loop_eq : loop o target args slots clock n = upTo o target args slots clock n n := by
  cases hv : o.verify <;> simp [loop, upTo, prepare, hv]

/-- A run goes through the start of each of its iterations. -/
theorem loop_eq_upTo {i : Nat} (h : i ≤ n) :
    loop o target args slots clock n = (do
      upTo o target args slots clock n i
      iterations o target args slots clock (n - i) i) := by
  obtain ⟨k, rfl⟩ := Nat.exists_eq_add_of_le h
  rw [loop_eq, upTo, iterations_add, upTo, bind_assoc, Nat.add_sub_cancel_left, Nat.zero_add]

/-- The first iteration starts from the memory that the run started from, with empty tables. -/
structure Prepared (pages : Nat → Prop) (rules : List Kernel.Rule) (o : Scheduler.Options)
    (slots : List Slot) (n : Nat) (b b' : Bench σ) : Prop where
  poised : Poised pages b.memory b'
  sound : Sound pages rules b'.toWatch b'.scheduler
  empty : b'.scheduler.samples.items = #[]
  room : n ≤ b'.scheduler.samples.capacity
  checksums : o.verify = true → b'.scheduler.checksums.Holds b.memory slots

/-- Why a run ends before its first iteration. -/
def PrepareTrouble (pages : Nat → Prop) (rules : List Kernel.Rule) (slots : List Slot) (n : Nat)
    (b : Bench σ) (e : Trouble Stop) (b' : Bench σ) : Prop :=
  Sound pages rules b'.toWatch b'.scheduler ∧
    (Reservable b.scheduler n → HasRoom slots → ¬Quiet pages b.toWatch ∧ Overdue e)

theorem rebaseline_meets {s : Scheduler} (h : Sound pages rules b.toWatch b.scheduler)
    (hg : b.kernel.Grants .protect) (hs : s.samples.Fits) (hc : s.checksums.Fits)
    (hempty : s.samples.items = #[]) (hroom : n ≤ s.samples.capacity)
    (hsums : o.verify = true → s.checksums.Holds b.memory slots) :
    (onWatch (Watch.rebaseline o.drainTimeout)).Meets { b with scheduler := s }
      (fun _ b' => Prepared pages rules o slots n b b')
      (PrepareTrouble pages rules slots n b) := by
  obtain ⟨base, hr⟩ := h.rests
  rw [meets_onWatch]
  apply (Watch.rebaseline_meets hr o.drainTimeout).mono
  · intro _ w hpost
    obtain ⟨-, hpris, hrules, hflight, hsame, -⟩ := hpost
    exact ⟨⟨hpris, hsame⟩, h.of_rests hpris.rests hrules hflight hs hc, hempty, hroom, hsums⟩
  · rintro e w (⟨hno, -⟩ | ⟨hflight, rfl, rfl⟩)
    · exact absurd hg hno
    · exact ⟨h.of_rests hr rfl rfl hs hc, fun _ _ => ⟨fun hq => hflight hq.inFlight, _, _, rfl⟩⟩

theorem prepare_meets (h : Sound pages rules b.toWatch b.scheduler)
    (hg : b.kernel.Grants .protect) :
    (prepare o slots n).Meets b (fun _ b' => Prepared pages rules o slots n b b')
      (PrepareTrouble pages rules slots n b) := by
  obtain ⟨base, hr⟩ := h.rests
  have hreserve := (PrivateArray.reserve_meets (by decide) h.samples.clear n).and
    (Act.meets_self _ _)
  simp only [prepare, Act.meets_bind, Act.meets_modify, Act.meets_get, Act.meets_ite,
    Act.meets_pure]
  refine meets_onTable (hreserve.mono ?_ ?_)
  · intro _ v hpost
    obtain ⟨⟨hempty, hcap, -, hfit, -⟩, -⟩ := hpost
    have hroom : n ≤ v.capacity := (Nat.le_add_left _ _).trans hcap
    refine ⟨fun hon => meets_onTable ?_, fun hoff => ?_⟩
    · apply (Checksums.take_meets h.checksums b.memory slots).mono
      · intro _ sums hpost
        obtain ⟨hsums, hfit'⟩ := hpost
        exact rebaseline_meets h hg hfit hfit' hempty hroom fun _ => hsums
      · rintro - sums ⟨hfit', hbig⟩ e
        exact ⟨h.of_rests hr rfl rfl hfit hfit', fun _ hsmall => absurd hsmall hbig.not_ge⟩
    · exact rebaseline_meets h hg hfit h.checksums hempty hroom fun hon => absurd hon hoff
  · rintro e v ⟨rfl, hon⟩ e'
    refine ⟨h.of_rests hr rfl rfl h.samples.clear h.checksums, fun hres => ?_⟩
    rw [Reservable, hon] at hres
    cases hres

/-- A run of `n` iterations that do not see each other: each starts from the memory at the time of
the call, which also is what the run ends with, and its sample tells how its own call of the routine
ended and how many pages that call wrote to. A routine that sees nothing but monitored memory then
does the same in every iteration. -/
structure Isolated (pages : Nat → Prop) (o : Scheduler.Options) (target : Target σ)
    (args : List String) (slots : List Slot) (clock : Nat → Duration) (n : Nat) (b : Bench σ)
    (series : Series) (b' : Bench σ) : Prop where
  aborted : series.aborted = none
  length : series.samples.length = n
  starts : ∀ i < n, ∃ c, (upTo o target args slots clock n i).on b = (.ok (), c) ∧
    (∀ x, c.memory.byte x = b.memory.byte x) ∧
    series.samples[i]? = some (sample target args (clock i) c)
  uniform : target.ReadsOnly args pages → ∀ s ∈ series.samples, ∀ s' ∈ series.samples,
    s.ending = s'.ending ∧ s.pagesRestored = s'.pagesRestored
  memory : ∀ x, b'.memory.byte x = b.memory.byte x
  guarded : ∀ k, pages k → b'.memory.isGuarded k = true
  empty : b'.monitor.snapshot.size = 0

theorem isolated_of_iterated {b₁ b' : Bench σ} {rows : List Sample}
    (hp : (prepare o slots n).on b = (.ok (), b₁)) (hempty : b₁.scheduler.samples.items = #[])
    (h : Iterated pages b.memory o target args slots clock n 0 b₁ b' rows) :
    Isolated pages o target args slots clock n b ⟨b'.scheduler.samples.items.toList, none⟩ b' := by
  have hrows : b'.scheduler.samples.items.toList = rows := by
    rw [h.scheduler]
    simp [Scheduler.record, hempty]
  have hstarts (i : Nat) (hi : i < n) : ∃ c,
      (upTo o target args slots clock n i).on b = (.ok (), c) ∧
      (∀ x, c.memory.byte x = b.memory.byte x) ∧
        rows[i]? = some (sample target args (clock i) c) := by
    obtain ⟨c, hc, hpc, hrow⟩ := h.starts i hi
    refine ⟨c, ?_, hpc.byte, ?_⟩
    · rw [upTo, Act.on_bind, hp]
      exact hc
    · rw [hrow, Nat.zero_add]
  have hsample (hr : target.ReadsOnly args pages) {s : Sample} (hs : s ∈ rows) :
      s.ending = (sample target args s.duration b).ending ∧
        s.pagesRestored = (sample target args s.duration b).pagesRestored := by
    obtain ⟨i, hi, rfl⟩ := List.mem_iff_getElem.mp hs
    obtain ⟨c, -, hc, hrow⟩ := hstarts i (h.length ▸ hi)
    rw [List.getElem?_eq_getElem hi, Option.some_inj] at hrow
    rw [hrow]
    exact sample_eq hr hc _
  refine ⟨rfl, ?_, ?_, ?_, h.poised.byte, fun k hk => h.poised.pristine.guarded hk,
    h.poised.pristine.empty⟩
  · rw [hrows, h.length]
  · rwa [hrows]
  · rw [hrows]
    intro hr s hs s' hs'
    obtain ⟨he, hn⟩ := hsample hr hs
    obtain ⟨he', hn'⟩ := hsample hr hs'
    exact ⟨he.trans he'.symm, hn.trans hn'.symm⟩

/-- A run either isolates its iterations or is given up, and then only for want of memory or because
a fault was still in flight. -/
theorem loop_meets (h : Sound pages rules b.toWatch b.scheduler) (hg : b.kernel.Grants .protect)
    (ho : o.rearm = true) (ht : target.WritesOnly args pages) :
    (loop o target args slots clock n).Meets b
      (fun _ b' => Sound pages rules b'.toWatch b'.scheduler ∧
        Isolated pages o target args slots clock n b ⟨b'.scheduler.samples.items.toList, none⟩ b')
      (fun e b' => (EndsProcess e ∨ Sound pages rules b'.toWatch b'.scheduler) ∧
        (Reservable b.scheduler n → HasRoom slots →
          ¬Quiet pages b.toWatch ∧ (EndsProcess e ∨ Overdue e))) := by
  rw [loop_eq, upTo, Act.meets_bind]
  apply ((Act.meets_self _ _).and (prepare_meets h hg)).mono
  · intro _ b₁ hpost
    obtain ⟨hon, hp⟩ := hpost
    have hrules : b₁.kernel.rules = b.kernel.rules := hp.sound.rules.trans h.rules.symm
    have hg₁ : b₁.kernel.Grants .protect := fun r hr => hg r (hrules ▸ hr)
    have hroom : b₁.scheduler.samples.size + n ≤ b₁.scheduler.samples.capacity := by
      simpa [PrivateArray.size, hp.empty] using hp.room
    have hfit {rows : List Sample} (hle : rows.length ≤ n) :
        (b₁.scheduler.record rows).samples.Fits :=
      Scheduler.Fits.record hp.sound.samples (by omega)
    apply (iterations_meets hp.poised ho hg₁ ht hroom hp.checksums).mono
    · intro _ b' hpost
      obtain ⟨rows, hrows⟩ := hpost
      refine ⟨⟨⟨_, hrows.poised.pristine.rests⟩, hrows.rules.trans hp.sound.rules, ?_, ?_, ?_⟩,
        isolated_of_iterated hon hp.empty hrows⟩
      · intro hcalm hspace
        have hcalm₁ := hcalm.of_rules hrows.rules.symm
        exact (hrows.quiet ⟨hcalm₁, hspace, hp.sound.quiet hcalm₁ hspace⟩).inFlight
      · rw [hrows.scheduler]
        exact hfit hrows.length.le
      · rw [hrows.scheduler]
        exact hp.sound.checksums
    · intro e b' hpost
      obtain ⟨hq, he⟩ := hpost
      have hnot : ¬(b₁.kernel.Calm ∧ Roomy pages) := fun hcalm =>
        hq ⟨hcalm.1, hcalm.2, hp.sound.quiet hcalm.1 hcalm.2⟩
      refine ⟨he.imp_right ?_, fun _ _ =>
        ⟨fun hq' => hnot ⟨hq'.calm.of_rules hrules, hq'.roomy⟩, he.imp_right And.left⟩⟩
      rintro ⟨-, hrests, hr, rows, hle, hs⟩
      refine ⟨⟨_, hrests⟩, hr.trans hp.sound.rules, fun hcalm hspace =>
        absurd ⟨hcalm.of_rules hr.symm, hspace⟩ hnot, ?_, ?_⟩
      · rw [hs]
        exact hfit hle
      · rw [hs]
        exact hp.sound.checksums
  · intro e b' hpost
    obtain ⟨-, hs, he⟩ := hpost
    exact ⟨.inr hs, fun hres hsize => (he hres hsize).imp_right .inr⟩

theorem run_meets (h : Sound pages rules b.toWatch b.scheduler) (hg : b.kernel.Grants .protect)
    (ho : o.rearm = true) (ht : target.WritesOnly args pages) :
    (run o target args slots clock n).Meets b
      (fun series b' => Sound pages rules b'.toWatch b'.scheduler ∧
        (Reservable b.scheduler n → HasRoom slots →
          Isolated pages o target args slots clock n b series b' ∨ ¬Quiet pages b.toWatch ∧
            ∃ inFlight timeout, series.aborted = some (.drainTimeout inFlight timeout)))
      (fun e _ => EndsProcess e ∧
        (Reservable b.scheduler n → HasRoom slots → ¬Quiet pages b.toWatch)) := by
  rw [run, Act.meets_bind, Stop.meets_failureOf]
  apply (loop_meets h hg ho ht).mono
  · intro _ b' hpost
    obtain ⟨hs, hi⟩ := hpost
    simp only [Act.meets_bind, Act.meets_get, Act.meets_pure]
    exact ⟨hs, fun _ _ => .inl hi⟩
  · intro e b' hpost
    obtain ⟨hs, he⟩ := hpost
    split
    · next cause =>
      have hreported : ¬EndsProcess (.error (.failure cause)) := fun hends => hends cause rfl
      simp only [Act.meets_bind, Act.meets_get, Act.meets_pure]
      refine ⟨hs.resolve_left hreported, fun hres hsize => .inr ?_⟩
      obtain ⟨hq, hover⟩ := he hres hsize
      obtain ⟨inFlight, timeout, heq⟩ := hover.resolve_left hreported
      exact ⟨hq, inFlight, timeout, by simpa using heq⟩
    · next hnot => exact ⟨fun cause heq => hnot cause heq, fun hres hsize => (he hres hsize).1⟩

end Rewind.Bench
