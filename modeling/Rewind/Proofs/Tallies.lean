import Rewind.Proofs.Breaches

/-! What a run reports, against the calls that it made. A routine that notes how each of its calls
ended does the same as the routine itself, so the notes that it is left with say how often a run
called the routine and what its samples have to tell. -/
namespace Rewind

/-- A routine that notes how its calls end. -/
def Target.noting {σ : Type} (target : Target σ) : Target (σ × List Conclusion) :=
  fun subject args memory =>
    let call := target subject.1 args memory
    ⟨call.writes, call.conclusion, (call.state, subject.2 ++ [call.conclusion])⟩

/-- An array that an element was put into has it behind the others. -/
theorem PrivateArray.push_items_meets {α : Type} {width : Nat} (hw : 0 < width) (refusal : Refusal)
    (v : PrivateArray α width) (x : α) :
    (push refusal x).Meets v (fun _ v' => v'.items = v.items.push x) fun _ _ => True := by
  simp only [push, Act.meets_bind, Act.meets_get, Act.meets_ite, Act.meets_modify]
  refine ⟨fun _ => ?_, fun _ => trivial⟩
  refine (reserve_grown_meets hw refusal v 1).mono (fun _ v' h => ?_) fun _ _ _ => trivial
  rw [h.items]

namespace Bench

open Watch (EndsProcess)

variable {σ : Type} {α β : Type}

/-- A bench with the routine's own state only. -/
def plain (b : Bench (σ × List Conclusion)) : Bench σ := { b with subject := b.subject.1 }

/-- A bench with nothing noted yet. -/
def noting (b : Bench σ) : Bench (σ × List Conclusion) := { b with subject := (b.subject, []) }

/-- The one operation does what the other does, whatever is noted. -/
def Follows (act : Op (σ × List Conclusion) α) (act' : Op σ α) : Prop :=
  ∀ b, act'.on b.plain = ((act.on b).1, (act.on b).2.plain)

variable {act : Op (σ × List Conclusion) α} {act' : Op σ α}

theorem follows_pure (a : α) : Follows (pure a : Op (σ × List Conclusion) α) (pure a) :=
  fun _ => rfl

theorem Follows.bind {next : α → Op (σ × List Conclusion) β} {next' : α → Op σ β}
    (h : Follows act act') (hn : ∀ a, Follows (next a) (next' a)) :
    Follows (act >>= next) (act' >>= next') := by
  intro b
  rw [Act.on_bind, Act.on_bind, h]
  rcases act.on b with ⟨_ | a, c⟩
  · rfl
  · exact hn a c

theorem Follows.ite {p : Prop} [Decidable p] {other : Op (σ × List Conclusion) α} {other' : Op σ α}
    (h : Follows act act') (h' : Follows other other') :
    Follows (if p then act else other) (if p then act' else other') := by
  split
  · exact h
  · exact h'

theorem Follows.failureOf {act : Op (σ × List Conclusion) Unit} {act' : Op σ Unit}
    (h : Follows act act') : Follows (Stop.failureOf act) (Stop.failureOf act') := by
  intro b
  have hb := h b
  unfold Stop.failureOf Stop.attempt
  rw [Act.on_bind, Act.on_bind, Act.on_ofFunction, Act.on_ofFunction]
  rw [hb]
  rcases act.on b with ⟨(_ | (_ | _)) | _, _⟩ <;> rfl

theorem follows_onWatch (act : Watch.Op α) :
    Follows (onWatch act : Op (σ × List Conclusion) α) (onWatch act) := fun _ => rfl

theorem follows_samples (act : Act (PrivateArray Sample 32) Errno α) :
    Follows (onTable sampleTable act : Op (σ × List Conclusion) α) (onTable sampleTable act) :=
  fun _ => rfl

theorem follows_call (target : Target σ) (args : List String) :
    Follows (call target.noting args) (call target args) := by
  intro b
  let made := target b.subject.1 args b.memory
  exact Follows.bind (follows_onWatch (Watch.writeAll made.writes))
    (fun _ => follows_pure made.conclusion)
    { b with subject := (made.state, b.subject.2 ++ [made.conclusion]) }

/-- How many samples there are when a duty is at hand. -/
def Duty.samplesBefore : Duty → Nat
  | .samples | .checksums | .baseline => 0
  | .drain i | .restore i => i
  | .verify i => i + 1

/-- How many calls there were when a duty is at hand. -/
def Duty.callsBefore : Duty → Nat
  | .samples | .checksums | .baseline => 0
  | .drain i | .restore i | .verify i => i + 1

/-- So many calls were noted, and each sample tells how its call ended and how long it took. -/
structure Tallied (clock : Nat → Duration) (rows notes : Nat) (b : Bench (σ × List Conclusion)) :
    Prop where
  calls : b.subject.2.length = notes
  samples : b.scheduler.samples.items.size = rows
  endings : b.scheduler.samples.items.toList.map (·.ending) =
    (b.subject.2.take rows).map .ofConclusion
  durations : b.scheduler.samples.items.toList.map (·.duration) = (List.range rows).map clock

theorem Tallied.of_eq {clock : Nat → Duration} {rows notes : Nat}
    {b c : Bench (σ × List Conclusion)} (h : Tallied clock rows notes b)
    (hs : c.scheduler.samples.items = b.scheduler.samples.items) (hn : c.subject = b.subject) :
    Tallied clock rows notes c := by
  refine ⟨?_, ?_, ?_, ?_⟩
  · rw [hn, h.calls]
  · rw [hs, h.samples]
  · rw [hs, hn, h.endings]
  · rw [hs, h.durations]

namespace Task

variable {t : Task σ} {b : Bench (σ × List Conclusion)}

/-- The same run of a routine that notes how its calls end. -/
def noting (t : Task σ) : Task (σ × List Conclusion) :=
  ⟨t.options, t.target.noting, t.args, t.slots, t.clock, t.count⟩

theorem follows_reserved : Follows t.noting.reserved t.reserved :=
  .bind (fun _ => rfl) fun _ => follows_samples _

theorem onTable_samples_meets {act : Act (PrivateArray Sample 32) Errno Unit} {items : Array Sample}
    (h : act.Meets b.scheduler.samples (fun _ v => v.items = items) fun _ _ => True) :
    (onTable sampleTable act).Meets b
      (fun _ c => c.scheduler.samples.items = items ∧ c.subject = b.subject) fun _ _ => True :=
  meets_onTable (h.mono (fun _ _ hv => ⟨hv, rfl⟩) fun _ _ _ _ => trivial)

theorem reserved_tallied (hb : b.subject.2 = []) :
    t.noting.reserved.Meets b (fun _ c => Tallied t.clock 0 0 c) fun _ _ => True := by
  rw [reserved, Act.meets_bind, Act.meets_of_ok (on_cleared b)]
  have hreserve := (PrivateArray.reserve_grown_meets (by decide) Mapping.refusal
    b.scheduler.samples.clear t.count).mono (fun _ _ h => h.items) fun _ _ _ => trivial
  refine (onTable_samples_meets hreserve).mono ?_ fun _ _ _ => trivial
  rintro _ c ⟨hitems, hsame⟩
  have hempty : c.scheduler.samples.items = #[] := hitems
  have hnone : c.subject.2 = [] := by rw [hsame, hb]
  refine ⟨?_, ?_, ?_, ?_⟩
  · rw [hnone, List.length_nil]
  · rw [hempty, Array.size_empty]
  · rw [hempty, hnone]
    rfl
  · rw [hempty]
    rfl

variable [Digest]

theorem follows_summed : Follows t.noting.summed t.summed := fun _ => rfl

theorem follows_verify (i : Nat) :
    Follows (Bench.verify i t.slots : Op (σ × List Conclusion) Unit) (Bench.verify i t.slots) := by
  intro b
  have hsame : b.plain.scheduler.checksums.mismatch? b.plain.memory t.slots =
      b.scheduler.checksums.mismatch? b.memory t.slots := rfl
  simp only [Bench.verify, Act.on_bind, Act.on_get, hsame]
  cases b.scheduler.checksums.mismatch? b.memory t.slots <;> rfl

theorem follows_entered : Follows t.noting.entered t.entered :=
  follows_reserved.bind fun _ => .ite follows_summed (follows_pure ())

variable {i : Nat}

theorem follows_called (h : Follows (t.noting.upTo i) (t.upTo i)) :
    Follows (t.noting.called i) (t.called i) :=
  h.bind fun _ => follows_call _ _

theorem follows_drained (h : Follows (t.noting.upTo i) (t.upTo i)) :
    Follows (t.noting.drained i) (t.drained i) :=
  (follows_called h).bind fun _ => (follows_onWatch _).bind fun _ => follows_pure _

theorem follows_restored (h : Follows (t.noting.upTo i) (t.upTo i)) :
    Follows (t.noting.restored i) (t.restored i) :=
  (follows_drained h).bind fun _ => (follows_onWatch _).bind fun _ => follows_pure _

theorem follows_recorded (h : Follows (t.noting.upTo i) (t.upTo i)) :
    Follows (t.noting.recorded i) (t.recorded i) :=
  (follows_restored h).bind fun _ => follows_samples _

theorem follows_upTo (i : Nat) : Follows (t.noting.upTo i) (t.upTo i) := by
  induction i with
  | zero =>
    rw [upTo_zero, upTo_zero]
    exact follows_entered.bind fun _ => (follows_onWatch _).bind fun _ => follows_pure _
  | succ i ih =>
    rw [upTo_succ, upTo_succ]
    exact (follows_recorded ih).bind fun _ => .ite (follows_verify i) (follows_pure ())

theorem follows_loop : Follows t.noting.loop t.loop := by
  rw [loop_eq_upTo, loop_eq_upTo]
  exact follows_upTo _

/-- Noting how calls end changes nothing of what a run reports. -/
theorem follows_run : Follows t.noting.run t.run :=
  follows_loop.failureOf.bind fun _ _ => rfl

theorem follows_before (d : Duty) : Follows (t.noting.before d) (t.before d) := by
  cases d with
  | samples => exact fun _ => rfl
  | checksums => exact follows_reserved
  | baseline => exact follows_entered
  | drain i => exact (follows_called (follows_upTo i)).bind fun _ => follows_pure _
  | restore i => exact (follows_drained (follows_upTo i)).bind fun _ => follows_pure _
  | verify i => exact follows_recorded (follows_upTo i)

theorem follows_work (d : Duty) : Follows (t.noting.work d) (t.work d) := by
  cases d with
  | samples => exact follows_samples _
  | checksums => exact follows_summed
  | baseline => exact (follows_onWatch _).bind fun _ => follows_pure _
  | drain i => exact follows_onWatch _
  | restore i => exact (follows_onWatch _).bind fun _ => follows_pure _
  | verify i => exact follows_verify i

theorem summed_tallied {rows notes : Nat} (h : Tallied t.clock rows notes b) :
    t.noting.summed.Meets b (fun _ c => Tallied t.clock rows notes c) fun _ _ => True := by
  rw [summed, Act.meets_bind, Act.meets_get]
  apply meets_onTable
  exact (Act.meets_true _ _).mono (fun _ _ _ => h.of_eq rfl rfl) fun _ _ _ _ => trivial

theorem entered_tallied (hb : b.subject.2 = []) :
    t.noting.entered.Meets b (fun _ c => Tallied t.clock 0 0 c) fun _ _ => True := by
  rw [entered, Act.meets_bind]
  refine (reserved_tallied hb).mono (fun _ c hc => ?_) fun _ _ h => h
  rw [Act.meets_ite, Act.meets_pure]
  exact ⟨fun _ => summed_tallied hc, fun _ => hc⟩

theorem called_tallied
    (h : (t.noting.upTo i).Meets b (fun _ c => Tallied t.clock i i c) fun _ _ => True) :
    (t.noting.called i).Meets b
      (fun conclusion c => Tallied t.clock i (i + 1) c ∧ c.subject.2[i]? = some conclusion)
      fun _ _ => True := by
  rw [called, Act.meets_bind]
  refine h.mono (fun _ c hc => ?_) fun _ _ h => h
  refine (call_ends _ _).mono ?_ fun _ _ _ => trivial
  rintro conclusion c' ⟨rfl, hsched, hsubject⟩
  have hnoted : c'.subject.2 =
      c.subject.2 ++ [(t.target c.subject.1 t.args c.memory).conclusion] := by
    rw [hsubject]
    rfl
  refine ⟨⟨?_, ?_, ?_, ?_⟩, ?_⟩
  · rw [hnoted, List.length_append, hc.calls, List.length_singleton]
  · rw [hsched, hc.samples]
  · rw [hsched, hnoted, hc.endings, List.take_append_of_le_length hc.calls.ge]
  · rw [hsched, hc.durations]
  · rw [hnoted, ← hc.calls, List.getElem?_concat_length]
    rfl

theorem drained_tallied
    (h : (t.noting.upTo i).Meets b (fun _ c => Tallied t.clock i i c) fun _ _ => True) :
    (t.noting.drained i).Meets b
      (fun conclusion c => Tallied t.clock i (i + 1) c ∧ c.subject.2[i]? = some conclusion)
      fun _ _ => True := by
  rw [drained, Act.meets_bind]
  refine (called_tallied h).mono ?_ fun _ _ h => h
  rintro conclusion c ⟨hc, hlast⟩
  rw [Act.meets_bind]
  refine (onWatch_meets _).mono ?_ fun _ _ _ => trivial
  rintro _ c' ⟨-, hsched, hsubject⟩
  exact Act.meets_pure.mpr ⟨hc.of_eq (by rw [hsched]) hsubject, by rw [hsubject, hlast]⟩

theorem restored_tallied
    (h : (t.noting.upTo i).Meets b (fun _ c => Tallied t.clock i i c) fun _ _ => True) :
    (t.noting.restored i).Meets b
      (fun row c => Tallied t.clock i (i + 1) c ∧
        (c.subject.2[i]?).map Ending.ofConclusion = some row.ending ∧ row.duration = t.clock i)
      fun _ _ => True := by
  rw [restored, Act.meets_bind]
  refine (drained_tallied h).mono ?_ fun _ _ h => h
  rintro conclusion c ⟨hc, hlast⟩
  rw [Act.meets_bind]
  refine (onWatch_meets _).mono ?_ fun _ _ _ => trivial
  rintro _ c' ⟨-, hsched, hsubject⟩
  refine Act.meets_pure.mpr ⟨hc.of_eq (by rw [hsched]) hsubject, ?_, rfl⟩
  rw [hsubject, hlast]
  rfl

theorem recorded_tallied
    (h : (t.noting.upTo i).Meets b (fun _ c => Tallied t.clock i i c) fun _ _ => True) :
    (t.noting.recorded i).Meets b (fun _ c => Tallied t.clock (i + 1) (i + 1) c)
      fun _ _ => True := by
  rw [recorded, Act.meets_bind]
  refine (restored_tallied h).mono ?_ fun _ _ h => h
  rintro row c ⟨hc, hlast, hduration⟩
  have hpush := PrivateArray.push_items_meets (by decide) Mapping.refusal c.scheduler.samples row
  refine (onTable_samples_meets hpush).mono ?_ fun _ _ h => h
  rintro _ c' ⟨hitems, hsubject⟩
  refine ⟨?_, ?_, ?_, ?_⟩
  · rw [hsubject, hc.calls]
  · rw [hitems, Array.size_push, hc.samples]
  · rw [hitems, hsubject, Array.toList_push, List.map_append, hc.endings, List.take_add_one,
      List.map_append]
    obtain ⟨conclusion, hnote, hending⟩ := Option.map_eq_some_iff.mp hlast
    simp [hnote, hending]
  · rw [hitems, Array.toList_push, List.map_append, hc.durations, List.range_succ,
      List.map_append, List.map_singleton, List.map_singleton, hduration]

theorem upTo_tallied (hb : b.subject.2 = []) (i : Nat) :
    (t.noting.upTo i).Meets b (fun _ c => Tallied t.clock i i c) fun _ _ => True := by
  induction i with
  | zero =>
    rw [upTo_zero, Act.meets_bind]
    refine (entered_tallied hb).mono (fun _ c hc => ?_) fun _ _ h => h
    rw [Act.meets_bind]
    refine (onWatch_meets _).mono ?_ fun _ _ _ => trivial
    rintro _ c' ⟨-, hsched, hsubject⟩
    exact Act.meets_pure.mpr (hc.of_eq (by rw [hsched]) hsubject)
  | succ i ih =>
    rw [upTo_succ, Act.meets_bind]
    refine (recorded_tallied ih).mono (fun _ c hc => ?_) fun _ _ h => h
    rw [Act.meets_ite, Act.meets_pure]
    refine ⟨fun _ => ?_, fun _ => hc⟩
    refine (verify_keeps _).mono ?_ fun _ _ _ => trivial
    rintro _ _ ⟨rfl, -⟩
    exact hc

theorem before_tallied (hb : b.subject.2 = []) (d : Duty) : (t.noting.before d).Meets b
    (fun _ c => Tallied t.clock d.samplesBefore d.callsBefore c) fun _ _ => True := by
  cases d with
  | samples =>
    refine (Act.meets_of_ok (on_cleared b)).mpr ⟨?_, rfl, ?_, rfl⟩
    · rw [hb]
      rfl
    · rw [hb]
      rfl
  | checksums => exact reserved_tallied hb
  | baseline => exact entered_tallied hb
  | drain i =>
    rw [before, Act.meets_bind]
    exact (called_tallied (upTo_tallied hb i)).mono (fun _ _ h => Act.meets_pure.mpr h.1)
      fun _ _ h => h
  | restore i =>
    rw [before, Act.meets_bind]
    exact (drained_tallied (upTo_tallied hb i)).mono (fun _ _ h => Act.meets_pure.mpr h.1)
      fun _ _ h => h
  | verify i => exact recorded_tallied (upTo_tallied hb i)

end Task

variable {t : Task σ} {b b' c : Bench σ}

/-- What a run answers, by how its loop ended. -/
def Task.answer (c : Bench σ) : Outcome Stop Unit → Outcome Stop Series
  | .ok _ => .ok ⟨c.scheduler.samples.items.toList, none⟩
  | .error (.error (.failure cause)) => .ok ⟨c.scheduler.samples.items.toList, some cause⟩
  | .error e => .error e

theorem Task.answer_error {e : Trouble Stop} (h : EndsProcess e) (c : Bench σ) :
    Task.answer c (.error e) = .error e := by
  rcases e with f | (cause | cause)
  · rfl
  · exact absurd rfl (h cause)
  · rfl

/-- How a sample tells of a call: a routine that gave up counts as one that failed with code 101. -/
inductive RecordedAs : Conclusion → Ending → Prop
  | completed : RecordedAs .completed .completed
  | failed (code : Int) : RecordedAs (.failed code) (.failed code)
  | panicked : RecordedAs .panicked (.failed 101)

theorem recordedAs_ofConclusion (conclusion : Conclusion) :
    RecordedAs conclusion (.ofConclusion conclusion) := by
  cases conclusion with
  | completed => exact .completed
  | failed code => exact .failed code
  | panicked => exact .panicked

theorem RecordedAs.ne_completed_iff {conclusion : Conclusion} {ending : Ending}
    (h : RecordedAs conclusion ending) : ending ≠ .completed ↔ conclusion ≠ .completed := by
  cases h <;> simp

/-- What a run of so many iterations reports of its calls, given the duty that failed and the
failure. -/
structure Accounts (broken : Option (Duty × Failure)) (n : Nat) (clock : Nat → Duration)
    (series : Series) (made : List Conclusion) : Prop where
  aborted : series.aborted = broken.map (·.2)
  samples : series.samples.length = broken.elim n (·.1.samplesBefore)
  calls : made.length = broken.elim n (·.1.callsBefore)
  endings : List.Forall₂ RecordedAs (made.take series.samples.length)
    (series.samples.map (·.ending))
  durations : series.samples.map (·.duration) = (List.range series.samples.length).map clock
  failures : series.failures = (made.take series.samples.length).countP (· ≠ .completed)
  reports : ∀ d cause, broken = some (d, cause) → d.Reports cause

theorem countP_endings {calls : List Conclusion} {endings : List Ending}
    (h : List.Forall₂ RecordedAs calls endings) :
    endings.countP (· ≠ .completed) = calls.countP (· ≠ .completed) := by
  induction h with
  | nil => rfl
  | cons hfirst _ ih =>
    rw [List.countP_cons, List.countP_cons, ih]
    simp only [hfirst.ne_completed_iff]

theorem failuresIn_eq {calls : List Conclusion} {rows : List Sample}
    (h : List.Forall₂ RecordedAs calls (rows.map (·.ending))) :
    failuresIn rows = calls.countP (· ≠ .completed) := by
  rw [← countP_endings h, List.countP_map]
  rfl

theorem accounts_of_tallied {c : Bench (σ × List Conclusion)} {clock : Nat → Duration}
    {rows notes : Nat} {broken : Option (Duty × Failure)} {n : Nat} (h : Tallied clock rows notes c)
    (hrows : rows = broken.elim n (·.1.samplesBefore))
    (hnotes : notes = broken.elim n (·.1.callsBefore))
    (hreports : ∀ d cause, broken = some (d, cause) → d.Reports cause) :
    Accounts broken n clock ⟨c.scheduler.samples.items.toList, broken.map (·.2)⟩ c.subject.2 := by
  have hlength : c.scheduler.samples.items.toList.length = rows := by
    rw [Array.length_toList, h.samples]
  have hendings : List.Forall₂ RecordedAs
      (c.subject.2.take c.scheduler.samples.items.toList.length)
      (c.scheduler.samples.items.toList.map (·.ending)) := by
    rw [hlength, h.endings, List.forall₂_map_right_iff, List.forall₂_same]
    exact fun conclusion _ => recordedAs_ofConclusion conclusion
  have hdurations : c.scheduler.samples.items.toList.map (·.duration) =
      (List.range c.scheduler.samples.items.toList.length).map clock := by
    rw [hlength, h.durations]
  exact ⟨rfl, hlength.trans hrows, h.calls.trans hnotes, hendings, hdurations,
    failuresIn_eq hendings, hreports⟩

theorem Follows.on_eq {act : Op (σ × List Conclusion) α} {act' : Op σ α} (h : Follows act act')
    {c : Bench (σ × List Conclusion)} {r : Outcome Stop α} (hon : act'.on c.plain = (r, b)) :
    ∃ c', act.on c = (r, c') ∧ c'.plain = b := by
  rw [h c] at hon
  exact ⟨(act.on c).2, Prod.ext (Prod.ext_iff.mp hon).1 rfl, (Prod.ext_iff.mp hon).2⟩

variable [Digest]

/-- A duty that fails leaves the samples as they were. -/
theorem Task.work_keeps (d : Duty) : (t.work d).Meets c (fun _ _ => True) fun _ c' =>
    c'.scheduler.samples.items = c.scheduler.samples.items ∧ c'.subject = c.subject := by
  cases d with
  | samples =>
    apply meets_onTable
    refine (PrivateArray.reserve_grown_meets (by decide) _ _ _).mono (fun _ _ _ => trivial) ?_
    rintro _ _ rfl _
    exact ⟨rfl, rfl⟩
  | checksums =>
    rw [work, summed, Act.meets_bind, Act.meets_get]
    apply meets_onTable
    exact (Act.meets_true _ _).mono (fun _ _ _ => trivial) fun _ _ _ _ => ⟨rfl, rfl⟩
  | baseline | restore i =>
    rw [work, Act.meets_bind]
    refine (onWatch_meets _).mono (fun _ _ _ => Act.meets_pure.mpr trivial) ?_
    rintro _ _ ⟨-, hsched, hsubject⟩
    exact ⟨by rw [hsched], hsubject⟩
  | drain i =>
    refine (onWatch_meets _).mono (fun _ _ _ => trivial) ?_
    rintro _ _ ⟨-, hsched, hsubject⟩
    exact ⟨by rw [hsched], hsubject⟩
  | verify i =>
    refine (Task.verify_keeps _).mono (fun _ _ _ => trivial) ?_
    rintro _ _ ⟨rfl, -⟩
    exact ⟨rfl, rfl⟩

theorem Task.run_of_loop {r : Outcome Stop Unit} (h : t.loop.on b = (r, c)) :
    t.run.on b = (Task.answer c r, c) := by
  unfold Task.loop at h
  unfold Task.run Bench.run Stop.failureOf Stop.attempt
  rw [Act.on_bind, Act.on_bind, Act.on_ofFunction, h]
  rcases r with ((_ | (_ | _)) | _) <;> rfl

/-- How the calls of a run ended, in order. -/
def Task.conclusions (t : Task σ) (b : Bench σ) : List Conclusion :=
  (t.noting.run.on b.noting).2.subject.2

/-- The same duty fails in the same way when the ends of calls are noted. -/
theorem Task.Breaks.noting {d : Duty} {e : Trouble Stop} (h : t.Breaks b d e b') :
    ∃ c, t.noting.Breaks b.noting d e c ∧ Tallied t.clock d.samplesBefore d.callsBefore c := by
  obtain ⟨hd, c, hc, he⟩ := h
  obtain ⟨c₁, hbefore, rfl⟩ := (Task.follows_before (t := t) d).on_eq (c := b.noting) hc
  obtain ⟨c₂, hwork, -⟩ := (Task.follows_work (t := t) d).on_eq he
  obtain ⟨hsamples, hsubject⟩ := (Task.work_keeps d).error hwork
  have htallied := (Task.before_tallied (b := b.noting) rfl d).ok hbefore
  refine ⟨c₂, ⟨?_, c₁, hbefore, hwork⟩, htallied.of_eq hsamples hsubject⟩
  cases d <;> exact hd

/-- A run whose loop ended so, with the calls noted. -/
theorem Task.run_of_noting {r : Outcome Stop Unit} {c : Bench (σ × List Conclusion)}
    {series : Series} (h : t.noting.loop.on b.noting = (r, c))
    (hanswer : Task.answer c r = .ok series) :
    t.run.on b = (.ok series, c.plain) ∧ t.conclusions b = c.subject.2 := by
  have hrun := Task.run_of_loop h
  rw [hanswer] at hrun
  have hplain := Task.follows_run (t := t) b.noting
  rw [hrun] at hplain
  exact ⟨hplain, by rw [Task.conclusions, hrun]⟩

/-- Whatever fails first in a run is what it reports, with a sample for each iteration that was over
by then, however the bench was used before. A drain or a restore that fails leaves out the call that
it follows, and a verification that fails does not. Nothing but the end of the process keeps a run
from reporting, and a run in which nothing fails has a sample for each call. -/
theorem run_accounts (t : Task σ) (b : Bench σ) :
    (∀ d cause b', t.Breaks b d (.error (.failure cause)) b' → ∃ series c,
      t.run.on b = (.ok series, c) ∧
        Accounts (some (d, cause)) t.count t.clock series (t.conclusions b)) ∧
    (∀ e b', t.Broken b e b' → EndsProcess e → t.run.on b = (.error e, b')) ∧
    ((∀ e b', ¬t.Broken b e b') → ∃ series c,
      t.run.on b = (.ok series, c) ∧ Accounts none t.count t.clock series (t.conclusions b)) := by
  refine ⟨fun d cause b' h => ?_, fun e b' h hends => ?_, fun h => ?_⟩
  · obtain ⟨c, hbreaks, htallied⟩ := h.noting
    obtain ⟨hrun, hcalls⟩ := Task.run_of_noting hbreaks.loop rfl
    refine ⟨_, _, hrun, ?_⟩
    rw [hcalls]
    exact accounts_of_tallied htallied rfl rfl fun _ _ heq => by cases heq; exact h.reports
  · have hloop : t.loop.on b = (.error e, b') := by
      rcases h with ⟨d, h⟩ | h
      · exact h.loop
      · exact h.loop
    rw [Task.run_of_loop hloop, Task.answer_error hends]
  · have hok := (Task.loop_meets (t := t) (b := b)).mono (fun _ _ h => h) h
    obtain ⟨⟨⟩, c, hloop, -⟩ := hok.exists_ok
    obtain ⟨c, hnoting, rfl⟩ := (Task.follows_loop (t := t)).on_eq (c := b.noting) hloop
    have htallied := Task.upTo_tallied (t := t) (b := b.noting) rfl t.count
    obtain ⟨hrun, hcalls⟩ := Task.run_of_noting hnoting rfl
    refine ⟨_, _, hrun, ?_⟩
    rw [hcalls]
    rw [Task.loop_eq_upTo] at hnoting
    exact accounts_of_tallied (htallied.ok hnoting) rfl rfl nofun

end Bench
end Rewind
