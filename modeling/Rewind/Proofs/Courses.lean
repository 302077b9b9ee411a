import Rewind.Proofs.Sweeps

/-! Runs from the start of one iteration to the start of the next. Which pages are still attended
depends on what the routine wrote in the iterations before; what is on them is always what was there
when the run was started. -/
namespace Rewind.Bench

open Watch (Parted Kept Rests Open Quiet touched)

variable {σ : Type} {b : Bench σ} {pages : Nat → Prop} {base : Memory} {o : Scheduler.Options}
  {target : Target σ} {args : List String} {slots : List Slot} {clock : Nat → Duration} {n : Nat}

/-- The first iteration starts from the memory that the run started from, with no captures and with
room for all samples. -/
structure Readied (pages : Nat → Prop) (n : Nat) (b b' : Bench σ) : Prop where
  parted : Parted pages b.memory b'.toWatch
  same : ∀ k, b'.memory.bytes? k = b.memory.bytes? k
  empty : b'.scheduler.samples.items = #[]
  room : n ≤ b'.scheduler.samples.capacity
  samples : b'.scheduler.samples.Fits
  checksums : b'.scheduler.checksums.Fits
  quiet : Quiet pages b.toWatch → Quiet pages b'.toWatch

theorem rebaseline_open_meets {s : Scheduler} (h : b.toWatch.Rests pages base)
    (ho : Open pages b.toWatch) (hs : s.samples.Fits) (hc : s.checksums.Fits)
    (hempty : s.samples.items = #[]) (hroom : n ≤ s.samples.capacity) (timeout : Duration) :
    (onWatch (Watch.rebaseline timeout)).Meets { b with scheduler := s }
      (fun _ b' => Readied pages n b b') (fun _ _ => ¬Quiet pages b.toWatch) := by
  rw [meets_onWatch]
  apply (Watch.rebaseline_meets h timeout).mono
  · intro _ w hpost
    obtain ⟨-, hpris, hrules, hflight, hsame, hframes⟩ := hpost
    refine ⟨⟨hpris, fun k hk => ?_⟩, hsame, hempty, hroom, hs, hc,
      fun hq => hq.of_eq hrules hflight⟩
    rw [Memory.isGuarded_eq, hframes k hk, ← Memory.isGuarded_eq]
    exact ho k hk
  · rintro e w (⟨hno, -⟩ | ⟨hflight, -⟩) hq
    · exact hno hq.calm.protect
    · exact hflight hq.inFlight

theorem prepare_open_meets (h : b.toWatch.Rests pages base) (ho : Open pages b.toWatch)
    (hs : b.scheduler.samples.Fits) (hc : b.scheduler.checksums.Fits) :
    (prepare o slots n).Meets b (fun _ b' => Readied pages n b b')
      (fun _ _ => Reservable b.scheduler n → (o.verify = true → HasRoom slots) →
        ¬Quiet pages b.toWatch) := by
  have hreserve := (PrivateArray.reserve_meets (by decide) hs.clear n).and (Act.meets_self _ _)
  simp only [prepare, Act.meets_bind, Act.meets_modify, Act.meets_get, Act.meets_ite,
    Act.meets_pure]
  apply meets_onTable
  apply hreserve.mono
  · intro _ v hpost
    obtain ⟨⟨hempty, hcap, -, hfit, -⟩, -⟩ := hpost
    have hroom : n ≤ v.capacity := (Nat.le_add_left _ _).trans hcap
    constructor
    · intro hverify
      apply meets_onTable
      apply (Checksums.take_meets hc b.memory slots).mono
      · intro _ sums hpost
        obtain ⟨-, hfit'⟩ := hpost
        have hbase := rebaseline_open_meets
          (s := { b.scheduler with samples := v, checksums := sums }) h ho hfit hfit' hempty hroom
          o.drainTimeout
        exact hbase.mono (fun _ _ hr => hr) fun _ _ hq _ _ => hq
      · rintro - _ ⟨-, hbig⟩ _ _ hsmall
        exact absurd (hsmall hverify) hbig.not_ge
    · intro _
      have hbase := rebaseline_open_meets (s := { b.scheduler with samples := v }) h ho hfit hc
        hempty hroom o.drainTimeout
      exact hbase.mono (fun _ _ hr => hr) fun _ _ hq _ _ => hq
  · rintro e v ⟨-, hon⟩ e' hres
    rw [Reservable, hon] at hres
    cases hres

theorem upTo_succ (k : Nat) : upTo o target args slots clock n (k + 1) = (do
    upTo o target args slots clock n k
    iteration o target args slots k (clock k)) := by
  rw [upTo, iterations_add, upTo, bind_assoc, Nat.zero_add]
  simp only [iterations, bind_pure_unit]

/-- A run that is asked for: which routine is called how often, and from which bench. -/
structure Job (σ : Type) where
  options : Scheduler.Options
  target : Target σ
  args : List String
  slots : List Slot
  clock : Nat → Duration
  count : Nat
  bench : Bench σ

namespace Job

/-- The run up to the start of an iteration. -/
def upTo (r : Job σ) (k : Nat) : Op σ Unit :=
  Bench.upTo r.options r.target r.args r.slots r.clock r.count k

def run (r : Job σ) : Op σ Series :=
  Bench.run r.options r.target r.args r.slots r.clock r.count

/-- The bench at the start of an iteration. -/
def start (r : Job σ) (k : Nat) : Bench σ := ((r.upTo k).on r.bench).2

/-- What the routine writes in an iteration. -/
def writes (r : Job σ) (k : Nat) : List (Nat × Array UInt8) := (r.start k).writes r.target r.args

/-- An iteration writes to the page. -/
def Touches (r : Job σ) (k p : Nat) : Prop := p ∈ touched (r.writes k)

/-- No iteration before this one writes to the page. -/
def Fresh (r : Job σ) (k p : Nat) : Prop := ∀ j < k, ¬r.Touches j p

/-- The iteration is the first that writes to the page. -/
def First (r : Job σ) (k p : Nat) : Prop := r.Touches k p ∧ r.Fresh k p

/-- The page is watched in an iteration. -/
def Attends (r : Job σ) (pages : Nat → Prop) (k p : Nat) : Prop :=
  pages p ∧ (r.options.rearm = true ∨ r.Fresh k p)

/-- The sample of an iteration. -/
noncomputable def row (r : Job σ) (pages : Nat → Prop) (k : Nat) : Sample :=
  ⟨r.clock k, .ofConclusion (r.target (r.start k).subject r.args (r.start k).memory).conclusion,
    Set.ncard {p | r.Attends pages k p ∧ r.Touches k p}⟩

variable {r : Job σ} {k : Nat}

theorem fresh_succ {p : Nat} : r.Fresh (k + 1) p ↔ r.Fresh k p ∧ ¬r.Touches k p :=
  Nat.forall_lt_succ_right

theorem start_eq {c : Bench σ} (h : (r.upTo k).on r.bench = (.ok (), c)) : r.start k = c := by
  rw [start, h]

/-- How the bench stands at the start of an iteration, and what was captured on the way there. -/
structure Course (pages : Nat → Prop) (r : Job σ) (k : Nat) : Prop where
  parted : Parted (r.Attends pages k) r.bench.memory (r.start k).toWatch
  restored : ∀ p, r.Attends pages k p → (r.start k).memory.bytes? p = r.bench.memory.bytes? p
  leaked : r.options.rearm = false → ∀ j < k, ∀ p, pages p → r.First j p →
    (r.start k).memory.bytes? p =
      (r.bench.memory.writeAll ((List.range' (j + 1) (k - (j + 1))).flatMap r.writes)).bytes? p
  captures : ∀ j < k, ∃ conclusion b₁,
    (call r.target r.args).on (r.start j) = (.ok conclusion, b₁) ∧
      ∀ p, p * Page.size ∈ b₁.monitor.snapshot.addresses.items ↔
        r.Attends pages j p ∧ r.Touches j p
  rows : (r.start k).scheduler.samples.items.toList = (List.range k).map (r.row pages)
  room : r.count ≤ (r.start k).scheduler.samples.capacity
  samples : (r.start k).scheduler.samples.Fits
  checksums : (r.start k).scheduler.checksums.Fits
  quiet : Quiet pages r.bench.toWatch → Quiet (r.Attends pages k) (r.start k).toWatch

theorem Course.zero (h : Readied pages r.count r.bench (r.start 0)) : Course pages r 0 := by
  have hall (p : Nat) : r.Attends pages 0 p ↔ pages p := by simp [Attends, Fresh]
  have hparted : Parted (r.Attends pages 0) r.bench.memory (r.start 0).toWatch :=
    h.parted.congr hall fun _ _ => rfl
  constructor
  · exact hparted
  · exact fun p _ => h.same p
  · exact fun _ j hj => absurd hj (Nat.not_lt_zero j)
  · exact fun j hj => absurd hj (Nat.not_lt_zero j)
  · rw [h.empty]
    rfl
  · exact h.room
  · exact h.samples
  · exact h.checksums
  · exact fun hq => (h.quiet hq).mono fun p hp => (hall p).mp hp

theorem Course.size (h : Course pages r k) : (r.start k).scheduler.samples.size = k := by
  rw [PrivateArray.size, ← Array.length_toList, h.rows, List.length_map, List.length_range]

theorem Course.succ (h : Course pages r k) (hk : k < r.count)
    (hs : Swept (r.Attends pages k) r.bench.memory r.options r.target r.args (r.clock k)
      (r.start k) (r.start (k + 1))) : Course pages r (k + 1) := by
  have hnext (p : Nat) : r.Attends pages (k + 1) p ↔ r.Attends pages k p ∧
      (r.options.rearm = true ∨ ¬Reaches (r.Attends pages k) r.target r.args (r.start k) p) := by
    simp only [Attends, fresh_succ, Reaches, Touches, writes]
    tauto
  have hparted : Parted (r.Attends pages (k + 1)) r.bench.memory (r.start (k + 1)).toWatch :=
    hs.parted.congr hnext fun _ _ => rfl
  constructor
  · exact hparted
  · exact fun p hp => hs.restored p ((hnext p).mp hp).1
  · intro hoff j hj p hp hfirst
    rcases Nat.lt_succ_iff_lt_or_eq.mp hj with hlt | rfl
    · have hstray : ¬r.Attends pages k p := by
        rintro ⟨-, hon | hfresh⟩
        · rw [hoff] at hon
          cases hon
        · exact hfresh j hlt hfirst.1
      have hlast : k + 1 - (j + 1) = k - (j + 1) + 1 := by omega
      have hend : j + 1 + 1 * (k - (j + 1)) = k := by omega
      rw [hs.strays p hstray, Memory.bytes?_writeAll_congr (h.leaked hoff j hlt p hp hfirst),
        ← Memory.writeAll_append, hlast, List.range'_concat, List.flatMap_append,
        List.flatMap_singleton, hend]
      rfl
    · rw [hs.restored p ⟨hp, .inr hfirst.2⟩, Nat.sub_self]
      rfl
  · intro j hj
    rcases Nat.lt_succ_iff_lt_or_eq.mp hj with hlt | rfl
    · exact h.captures j hlt
    · exact hs.captures
  · rw [hs.scheduler, List.range_succ, List.map_append, ← h.rows, Scheduler.record]
    exact Array.toList_append
  · rw [hs.scheduler]
    exact h.room
  · rw [hs.scheduler]
    apply Scheduler.Fits.record h.samples
    rw [h.size, List.length_singleton]
    exact hk.trans_le h.room
  · rw [hs.scheduler]
    exact h.checksums
  · exact fun hq => (hs.quiet (h.quiet hq)).mono fun p hp => ((hnext p).mp hp).1

/-- A run that reaches the start of an iteration has taken its course up to there. It reaches all of
them while the kernel is calm, if its samples fit and nothing is verified. -/
theorem upTo_meets {base : Memory} (h : r.bench.toWatch.Rests pages base)
    (ho : Open pages r.bench.toWatch) (hs : r.bench.scheduler.samples.Fits)
    (hc : r.bench.scheduler.checksums.Fits) (hk : k ≤ r.count) :
    (r.upTo k).Meets r.bench (fun _ c => r.start k = c ∧ Course pages r k)
      (fun _ _ => Reservable r.bench.scheduler r.count → r.options.verify = false →
        ¬Quiet pages r.bench.toWatch) := by
  induction k with
  | zero =>
    have hprepare : (prepare r.options r.slots r.count).Meets r.bench _ _ :=
      (prepare_open_meets h ho hs hc).and (Act.meets_self _ _)
    have hupTo : r.upTo 0 = prepare r.options r.slots r.count := by
      rw [upTo, Bench.upTo]
      simp only [iterations, bind_pure_unit]
    rw [hupTo]
    apply hprepare.mono
    · intro _ c hpost
      obtain ⟨hready, hon⟩ := hpost
      have hstart : r.start 0 = c := start_eq (hupTo ▸ hon)
      exact ⟨hstart, .zero (hstart ▸ hready)⟩
    · rintro _ _ ⟨he, -⟩ hres hoff
      exact he hres fun hverify => absurd hverify (by simp [hoff])
  | succ k ih =>
    have hsucc : r.upTo (k + 1) = (do
        r.upTo k
        iteration r.options r.target r.args r.slots k (r.clock k)) := upTo_succ k
    have hfirst := (ih (Nat.le_of_succ_le hk)).and (Act.meets_self _ _)
    rw [hsucc, Act.meets_bind]
    apply hfirst.mono
    · intro _ c hpost
      obtain ⟨⟨rfl, hcourse⟩, hon⟩ := hpost
      have hroom : (r.start k).scheduler.samples.size <
          (r.start k).scheduler.samples.capacity := by
        rw [hcourse.size]
        exact Nat.lt_of_lt_of_le hk hcourse.room
      have hiteration : (iteration r.options r.target r.args r.slots k (r.clock k)).Meets
          (r.start k) _ _ :=
        (iteration_open_meets hcourse.parted hroom k (r.clock k)).and (Act.meets_self _ _)
      apply hiteration.mono
      · intro _ c' hpost
        obtain ⟨hswept, hon'⟩ := hpost
        have hstart : r.start (k + 1) = c' := by
          apply start_eq
          rw [hsucc, Act.on_bind, hon]
          exact hon'
        exact ⟨hstart, hcourse.succ hk (hstart ▸ hswept)⟩
      · exact fun _ _ he _ hoff hq => he.1 hoff (hcourse.quiet hq)
    · exact fun _ _ he => he.1

/-- A run that was not given up has reached the start of every iteration, and its own end. -/
theorem upTo_of_run {series : Series} {b' : Bench σ}
    (h : r.run.on r.bench = (.ok series, b')) (ha : series.aborted = none) :
    (∀ k ≤ r.count, (r.upTo k).on r.bench = (.ok (), r.start k)) ∧ b' = r.start r.count ∧
      series.samples = b'.scheduler.samples.items.toList := by
  let loop := Bench.loop r.options r.target r.args r.slots r.clock r.count
  have hspec : r.run.Meets r.bench (fun series b' => series.aborted = none →
      loop.on r.bench = (.ok (), b') ∧ series.samples = b'.scheduler.samples.items.toList)
      fun _ _ => True := by
    rw [run, Bench.run, Act.meets_bind, Stop.meets_failureOf]
    apply (Act.meets_self loop r.bench).mono
    · intro _ c hon
      simp only [Act.meets_bind, Act.meets_get, Act.meets_pure]
      exact fun _ => ⟨hon, trivial⟩
    · intro e c _
      split
      · simp only [Act.meets_bind, Act.meets_get, Act.meets_pure]
        rintro ⟨⟩
      · trivial
  obtain ⟨hloop, hsamples⟩ := hspec.ok h ha
  have hreached : ∀ k ≤ r.count, (r.upTo k).on r.bench = (.ok (), r.start k) := by
    intro k hk
    have hparts : loop = (do r.upTo k; _) := loop_eq_upTo hk
    rw [hparts, Act.on_bind] at hloop
    cases hup : (r.upTo k).on r.bench with
    | mk result c =>
      rw [hup] at hloop
      cases result with
      | ok _ => rw [start_eq hup]
      | error _ => cases hloop
  refine ⟨hreached, ?_, hsamples⟩
  have hall : loop = r.upTo r.count := loop_eq
  rw [hall] at hloop
  exact (start_eq hloop).symm

/-- While the kernel is calm a run comes back and is not given up. -/
theorem run_isOk {base : Memory} (h : r.bench.toWatch.Rests pages base)
    (hq : Quiet pages r.bench.toWatch) (ho : Open pages r.bench.toWatch)
    (hs : r.bench.scheduler.samples.Fits) (hc : r.bench.scheduler.checksums.Fits)
    (hres : Reservable r.bench.scheduler r.count) (hv : r.options.verify = false) :
    ∃ series b', r.run.on r.bench = (.ok series, b') ∧ series.aborted = none := by
  have hsafe : (r.upTo r.count).Meets r.bench _ fun _ _ => False :=
    (upTo_meets h ho hs hc le_rfl).mono (fun _ _ hpost => hpost) fun _ _ he => he hres hv hq
  obtain ⟨_, c, hon, -⟩ := hsafe.exists_ok
  have hloop : (Bench.loop r.options r.target r.args r.slots r.clock r.count).on r.bench =
      (.ok (), c) := by
    rw [loop_eq]
    exact hon
  have hrun : r.run.Meets r.bench (fun series _ => series.aborted = none) fun _ _ => False := by
    rw [run, Bench.run, Act.meets_bind, Stop.meets_failureOf]
    refine (Act.meets_of_ok hloop).mpr ?_
    simp only [Act.meets_bind, Act.meets_get, Act.meets_pure]
  exact hrun.exists_ok

end Job

end Rewind.Bench
