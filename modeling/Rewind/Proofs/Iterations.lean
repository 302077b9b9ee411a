import Rewind.Proofs.Histories
import Rewind.Proofs.Verification
import Rewind.Schedule.Run

/-! Iterations of a routine. Each starts from the memory that the run started from, and records as
many pages as the routine wrote to, whatever became of it. -/
namespace Rewind

open Watch (Pristine Rests EndsProcess RearmTrouble touched Quiet)

theorem Stop.meets_failureOf {σ : Type} {act : Act σ Stop Unit} {s : σ}
    {post : Option Failure → σ → Prop} {trouble : Trouble Stop → σ → Prop} :
    (failureOf act).Meets s post trouble ↔
      act.Meets s (fun _ s => post none s) fun e s => match e with
        | .error (.failure cause) => post (some cause) s
        | e => trouble e s := by
  unfold Act.Meets failureOf attempt
  rw [Act.on_bind, Act.on_ofFunction]
  rcases act.on s with ⟨(_ | (_ | _)) | _, _⟩ <;> rfl

/-- Every page of a write from a pristine state is captured once. -/
theorem Watch.Wrote.size {pages : Nat → Prop} {base : Memory} {w w' : Watch} {ns : List Nat}
    (h : Watch.Wrote pages base ns w w') (hw : Pristine pages base w) :
    w'.monitor.snapshot.size = ns.dedup.length := by
  have hb := h.rests.baselined
  have hmem (a : Nat) : a ∈ w'.monitor.snapshot.addresses.items.toList ↔
      a ∈ ns.dedup.map (· * Page.size) := by
    simp only [Array.mem_toList_iff, List.mem_map, List.mem_dedup]
    constructor
    · intro ha
      rcases h.confined.captured a ha with hold | ⟨n, hn, rfl⟩
      · exact absurd hold (hw.not_mem a)
      · exact ⟨n, hn, rfl⟩
    · rintro ⟨n, hn, rfl⟩
      exact h.captured n hn
  have hinj : Function.Injective (· * Page.size) := fun _ _ e => Page.mul_inj.mp e
  have hperm := (List.perm_ext_iff_of_nodup hb.nodup
    ((List.nodup_dedup ns).map hinj)).mpr hmem
  simpa [Snapshot.size, PrivateArray.size] using hperm.length_eq

/-- The scheduler with more samples. -/
def Scheduler.record (s : Scheduler) (rows : List Sample) : Scheduler :=
  { s with samples := { s.samples with items := s.samples.items ++ rows.toArray } }

@[simp] theorem Scheduler.record_nil (s : Scheduler) : s.record [] = s := by simp [record]

@[simp] theorem Scheduler.record_record (s : Scheduler) (rows rows' : List Sample) :
    (s.record rows).record rows' = s.record (rows ++ rows') := by simp [record]

@[simp] theorem Scheduler.capacity_record (s : Scheduler) (rows : List Sample) :
    (s.record rows).samples.capacity = s.samples.capacity := rfl

@[simp] theorem Scheduler.size_record (s : Scheduler) (rows : List Sample) :
    (s.record rows).samples.size = s.samples.size + rows.length := by
  simp [record, PrivateArray.size]

theorem Scheduler.Fits.record {s : Scheduler} (h : s.samples.Fits) {rows : List Sample}
    (hroom : s.samples.size + rows.length ≤ s.samples.capacity) : (s.record rows).samples.Fits :=
  ⟨by simpa using hroom, h.bytes_le⟩

/-- The routine writes to these pages only, whatever it finds and in whichever state it is. -/
def Target.WritesOnly {σ : Type} (target : Target σ) (args : List String) (pages : Nat → Prop) :
    Prop :=
  ∀ subject memory, ∀ n ∈ touched (target subject args memory).writes, pages n

/-- The routine goes by the bytes of these pages and by its arguments, and by nothing else. -/
def Target.ReadsOnly {σ : Type} (target : Target σ) (args : List String) (pages : Nat → Prop) :
    Prop :=
  ∀ subject subject' memory memory',
    (∀ x, pages (Page.number x) → memory.byte x = memory'.byte x) →
      (target subject args memory).writes = (target subject' args memory').writes ∧
        (target subject args memory).conclusion = (target subject' args memory').conclusion

namespace Bench

variable {σ : Type} {b : Bench σ} {trouble : Trouble Stop → Bench σ → Prop}

@[simp] theorem meets_onWatch {α : Type} {act : Watch.Op α} {post : α → Bench σ → Prop} :
    (onWatch act : Op σ α).Meets b post trouble ↔
      act.Meets b.toWatch (fun a w => post a { b with toWatch := w })
        fun e w => trouble e { b with toWatch := w } := by
  rw [onWatch, Act.meets_focus]
  rfl

/-- The machine has everything as the baseline has it: all pages are guarded and no byte differs,
in monitored memory or elsewhere. -/
structure Poised (pages : Nat → Prop) (base : Memory) (b : Bench σ) : Prop where
  pristine : Pristine pages base b.toWatch
  same : ∀ k, b.memory.bytes? k = base.bytes? k

/-- What an iteration that starts here records. -/
def sample (target : Target σ) (args : List String) (d : Duration) (b : Bench σ) : Sample :=
  let call := target b.subject args b.memory
  ⟨d, .ofConclusion call.conclusion, (touched call.writes).dedup.length⟩

variable {pages : Nat → Prop} {base : Memory} {o : Scheduler.Options} {target : Target σ}
  {args : List String} {slots : List Slot}

theorem call_meets (hp : b.toWatch.Rests pages base) (ht : target.WritesOnly args pages) :
    (call target args).Meets b
      (fun c b' => c = (target b.subject args b.memory).conclusion ∧ b'.scheduler = b.scheduler ∧
        Watch.Wrote pages base (touched (target b.subject args b.memory).writes) b.toWatch
          b'.toWatch ∧
        (Quiet pages b.toWatch → Quiet pages b'.toWatch))
      (fun e _ => EndsProcess e ∧ ¬Quiet pages b.toWatch) := by
  simp only [call, Act.meets_bind, Act.meets_get, Act.meets_set, meets_onWatch, Act.meets_pure]
  refine (Watch.writeAll_quiet_meets hp (ht _ _)).mono ?_ fun _ _ he => he
  intro _ w hw
  exact ⟨trivial, trivial, hw⟩

variable [Digest]

/-- Verification finds nothing to report in the memory that the checksums were taken of. -/
theorem verify_meets (hv : b.scheduler.checksums.Holds base slots)
    (hb : ∀ k, b.memory.bytes? k = base.bytes? k) (i : Nat) :
    (verify i slots).Meets b (fun _ b' => b' = b) fun _ _ => False := by
  have hnone : b.scheduler.checksums.mismatch? b.memory slots = none :=
    Checksums.mismatch?_eq_none hv fun x => by rw [Memory.byte_eq, Memory.byte_eq, hb]
  simp only [verify, Act.meets_bind, Act.meets_get, hnone, Act.meets_pure]

/-- A fault was still in flight when the time to drain was up. -/
def Overdue (e : Trouble Stop) : Prop :=
  ∃ inFlight timeout, e = .error (.failure (.drainTimeout inFlight timeout))

/-- An iteration brings back the memory that it started from and records one sample, for which
there is room. -/
theorem iteration_meets (hp : Poised pages base b) (ho : o.rearm = true)
    (hg : b.kernel.Grants .protect) (ht : target.WritesOnly args pages)
    (hroom : b.scheduler.samples.size < b.scheduler.samples.capacity)
    (hv : o.verify = true → b.scheduler.checksums.Holds base slots) (i : Nat) (d : Duration) :
    (iteration o target args slots i d).Meets b
      (fun _ b' => Poised pages base b' ∧ b'.kernel.rules = b.kernel.rules ∧
        b'.scheduler = b.scheduler.record [sample target args d b] ∧
        (Quiet pages b.toWatch → Quiet pages b'.toWatch))
      (fun e b' => ¬Quiet pages b.toWatch ∧ (EndsProcess e ∨ Overdue e ∧
        b'.toWatch.Rests pages base ∧ b'.kernel.rules = b.kernel.rules ∧
        b'.scheduler = b.scheduler)) := by
  simp only [iteration, Act.meets_bind, meets_onWatch]
  refine (call_meets hp.pristine.rests ht).mono ?_ fun _ _ he => ⟨he.2, .inl he.1⟩
  intro _ b₁ hpost
  obtain ⟨rfl, hsched, hw, hquiet⟩ := hpost
  apply (Watch.drain_meets o.drainTimeout).mono
  · intro _ _ hpost
    obtain ⟨-, rfl⟩ := hpost
    rw [ho]
    apply (Watch.restore_meets hw.rests).mono
    · intro _ w hpost
      obtain ⟨rfl, hpris, hrules, hflight, hframes⟩ := hpost
      have hsame (k : Nat) : w.memory.bytes? k = base.bytes? k := by
        by_cases hk : pages k
        · exact hpris.bytes hk
        · have hout : k ∉ touched (target b.subject args b.memory).writes :=
            fun hin => hk (ht _ _ k hin)
          rw [← hp.same k, Memory.bytes?, Memory.bytes?, hframes k hk, hw.confined.frames k hout]
      have hpush := PrivateArray.push_isOk Mapping.refusal hroom (sample target args d b)
      simp only [onTable, Act.meets_focus, Act.meets_mapError, sampleTable, hsched,
        hw.size hp.pristine]
      refine (Act.meets_of_ok hpush).mpr ?_
      rw [Act.meets_ite, Act.meets_pure]
      have hrecord : { b.scheduler with samples := { b.scheduler.samples with
          items := b.scheduler.samples.items.push (sample target args d b) } } =
          b.scheduler.record [sample target args d b] := by simp [Scheduler.record]
      have hrules' := hrules.trans hw.confined.rules
      have hquiet' := fun hq => (hquiet hq).of_eq hrules hflight
      refine ⟨fun hon => ?_, fun _ => ⟨⟨hpris, hsame⟩, hrules', hrecord, hquiet'⟩⟩
      have hverify := verify_meets (b := { b₁ with
        toWatch := w, scheduler := b.scheduler.record [sample target args d b] }) (hv hon) hsame i
      refine hverify.mono ?_ fun _ _ he => he.elim
      rintro - _ rfl
      exact ⟨⟨hpris, hsame⟩, hrules', hrecord, hquiet'⟩
    · intro e w hpost
      obtain ⟨hno, -⟩ := hpost
      exact absurd (fun r hr => hg r (hw.confined.rules ▸ hr)) hno
  · intro e w hpost
    obtain ⟨hflight, rfl, rfl⟩ := hpost
    exact ⟨fun hq => hflight (hquiet hq).inFlight, .inr ⟨⟨_, _, rfl⟩, hw.rests,
      hw.confined.rules, hsched⟩⟩

variable {clock : Nat → Duration}

theorem iterations_add (j k i : Nat) :
    iterations o target args slots clock (j + k) i = (do
      iterations o target args slots clock j i
      iterations o target args slots clock k (i + j)) := by
  induction j generalizing i with
  | zero => simp [iterations]
  | succ j ih =>
    rw [Nat.succ_add, iterations, ih, iterations, bind_assoc, Nat.succ_add_eq_add_succ]

/-- Iterations from one bench to another, each of which started from the memory of the baseline and
has its row among the samples. -/
structure Iterated (pages : Nat → Prop) (base : Memory) (o : Scheduler.Options) (target : Target σ)
    (args : List String) (slots : List Slot) (clock : Nat → Duration) (todo i : Nat)
    (b b' : Bench σ) (rows : List Sample) : Prop where
  poised : Poised pages base b'
  rules : b'.kernel.rules = b.kernel.rules
  quiet : Quiet pages b.toWatch → Quiet pages b'.toWatch
  scheduler : b'.scheduler = b.scheduler.record rows
  length : rows.length = todo
  starts : ∀ k < todo, ∃ c, (iterations o target args slots clock k i).on b = (.ok (), c) ∧
    Poised pages base c ∧ rows[k]? = some (sample target args (clock (i + k)) c)

theorem Iterated.cons {i todo : Nat} {b₁ b' : Bench σ} {rows : List Sample}
    (hb : Poised pages base b)
    (h₁ : (iteration o target args slots i (clock i)).on b = (.ok (), b₁))
    (hrules : b₁.kernel.rules = b.kernel.rules)
    (hquiet : Quiet pages b.toWatch → Quiet pages b₁.toWatch)
    (hsched : b₁.scheduler = b.scheduler.record [sample target args (clock i) b])
    (h : Iterated pages base o target args slots clock todo (i + 1) b₁ b' rows) :
    Iterated pages base o target args slots clock (todo + 1) i b b'
      (sample target args (clock i) b :: rows) := by
  refine ⟨h.poised, h.rules.trans hrules, fun hq => h.quiet (hquiet hq), ?_, ?_, ?_⟩
  · rw [h.scheduler, hsched, Scheduler.record_record, List.singleton_append]
  · rw [List.length_cons, h.length]
  · intro k hk
    cases k with
    | zero => exact ⟨b, rfl, hb, rfl⟩
    | succ k =>
      obtain ⟨c, hc, hpc, hrow⟩ := h.starts k (by omega)
      refine ⟨c, ?_, hpc, ?_⟩
      · rw [iterations, Act.on_bind, h₁]
        exact hc
      · rw [List.getElem?_cons_succ, hrow, Nat.add_right_comm, Nat.add_assoc]

theorem iterations_meets {todo i : Nat} (hp : Poised pages base b) (ho : o.rearm = true)
    (hg : b.kernel.Grants .protect) (ht : target.WritesOnly args pages)
    (hroom : b.scheduler.samples.size + todo ≤ b.scheduler.samples.capacity)
    (hv : o.verify = true → b.scheduler.checksums.Holds base slots) :
    (iterations o target args slots clock todo i).Meets b
      (fun _ b' => ∃ rows, Iterated pages base o target args slots clock todo i b b' rows)
      (fun e b' => ¬Quiet pages b.toWatch ∧ (EndsProcess e ∨ Overdue e ∧
        b'.toWatch.Rests pages base ∧ b'.kernel.rules = b.kernel.rules ∧
        ∃ rows : List Sample, rows.length ≤ todo ∧ b'.scheduler = b.scheduler.record rows)) := by
  induction todo generalizing b i with
  | zero => exact Act.meets_pure.mpr ⟨[], hp, rfl, id, by simp, rfl, nofun⟩
  | succ todo ih =>
    simp only [iterations, Act.meets_bind]
    have hstep := iteration_meets hp ho hg ht (by omega) hv i (clock i)
    apply ((Act.meets_self _ _).and hstep).mono
    · intro _ b₁ hpost
      obtain ⟨h₁, hp₁, hrules, hsched, hquiet⟩ := hpost
      have hg₁ : b₁.kernel.Grants .protect := fun r hr => hg r (hrules ▸ hr)
      refine (ih (i := i + 1) hp₁ hg₁ ?_ ?_).mono ?_ ?_
      · rw [hsched, Scheduler.size_record, Scheduler.capacity_record, List.length_singleton]
        omega
      · rw [hsched]
        exact hv
      · intro _ b' hpost
        obtain ⟨rows, h⟩ := hpost
        exact ⟨_, h.cons hp h₁ hrules hquiet hsched⟩
      · intro e b' hpost
        obtain ⟨hq, he⟩ := hpost
        refine ⟨fun hq' => hq (hquiet hq'), he.imp_right ?_⟩
        rintro ⟨hover, hrests, hr, rows, hlen, hs⟩
        refine ⟨hover, hrests, hr.trans hrules, sample target args (clock i) b :: rows, ?_, ?_⟩
        · simpa using hlen
        · rw [hs, hsched, Scheduler.record_record, List.singleton_append]
    · intro e b' hpost
      obtain ⟨-, hq, he⟩ := hpost
      refine ⟨hq, he.imp_right ?_⟩
      rintro ⟨hover, hrests, hr, hs⟩
      exact ⟨hover, hrests, hr, [], by simp, by simpa using hs⟩

end Bench

end Rewind
