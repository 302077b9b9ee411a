import Rewind.Proofs.Gaps
import Rewind.Proofs.Undisturbed

/-! Runs of a harness that does not guard captured pages again. They leave the gap over its
monitored regions, whatever was written to these since it was armed. -/
namespace Rewind.Harness

open Watch (writeAll Quiet)

/-- A harness that was set up, made ready and armed, and whose memory may have been written since:
a run that is not given up leaves the gap, and the harness as the last iteration left it. -/
theorem gap_of_armed {config : Config} {policy : Policy} {catalog : Outcome Failure (List Region)}
    {m m' : Machine} {h₀ h₁ h₂ h₃ : Harness} {plan : Normalization.Plan}
    {writes : List (Nat × Array UInt8)} {w : Watch} {σ : Type} {target : Target σ}
    {args : List String} {clock : Nat → Duration} {n : Nat} {subject subject' : σ} {series : Series}
    (hoff : config.rearm = false)
    (hnew : (Harness.new config policy catalog).on m = (.ok h₀, m'))
    -- Nothing is guarded before the harness, which brings the channel that pages are guarded with.
    (hfree : ∀ n, h₀.memory.isGuarded n = false)
    (hnormalize : (normalize plan).on h₀ = (.ok (), h₁))
    (harm : arm.on h₁ = (.ok (), h₂))
    (hwrites : (writeAll writes).on h₂.toWatch = (.ok (), w))
    (hrun : (run target args clock n subject).on { h₂ with toWatch := w } =
      (.ok (series, subject'), h₃))
    (ha : series.aborted = none) :
    let job := { h₂ with toWatch := w }.job target args clock n subject
    Bench.Gap (Within (h₀.monitored.map Region.slot)) job series ∧
      h₃.toWatch = (job.start n).toWatch := by
  intro job
  have hu := (new_meets config policy catalog m).ok hnew
  have hnormalized := (normalize_lives_meets hu (lives_refl hu.lifecycle) plan).ok hnormalize
  have hlives := (arm_lives_meets hu hfree hnormalized).ok harm
  obtain ⟨⟨hl, -⟩, b, hjob, hran⟩ := (run_meets target args clock n subject).ok hrun
  have hstands := hlives.stands
  rw [show h₂.lifecycle = .armed from hl] at hstands
  obtain ⟨m, hg⟩ := hstands
  have hreached := (Watch.writeAll_open_meets hg.parted.pristine.rests hg.parted.opened writes).ok
    hwrites
  have hrearm : job.options.rearm = false := by
    show h₂.config.rearm = false
    rw [hlives.config, hu.config, hoff]
  have hslots : h₀.monitored.map Region.slot = h₀.slots := hu.table.symm
  refine ⟨?_, ?_⟩
  · rw [hslots]
    exact Bench.Job.gap_of_run hrearm hreached.rests hreached.opened hg.samples hg.checksums hjob ha
  · obtain ⟨-, hend, -⟩ := Bench.Job.upTo_of_run hjob ha
    rw [hran ha, hend]
    rfl

/-- A routine that writes to the page whether it is called for the first time or again. -/
def mark : Target Nat := fun k _ _ => ⟨[(4096, #[k.toUInt8, 9])], .completed, k + 1⟩

/-- Over one page, which is written to once between arming and the run, and then in each of three
iterations. -/
theorem gap_of_armed_onePage : ∃ h₀ m' h₁ h₂ w series subject' h₃,
    (overOnePage false).on onePage = (.ok h₀, m') ∧ h₀.monitored = [oneRegion] ∧
      (normalize Normalization.unhindered).on h₀ = (.ok (), h₁) ∧ arm.on h₁ = (.ok (), h₂) ∧
      (writeAll [(4100, #[7])]).on h₂.toWatch = (.ok (), w) ∧
      (run mark [] (fun _ => .zero) 3 0).on { h₂ with toWatch := w } =
        (.ok (series, subject'), h₃) ∧
      Bench.Gap (Within [oneRegion.slot])
        ({ h₂ with toWatch := w }.job mark [] (fun _ => .zero) 3 0) series := by
  obtain ⟨h₀, m', hnew, hd, hk, hmonitored⟩ := overOnePage_isOk false
  have hu := (new_meets _ _ _ _).ok hnew
  obtain ⟨_, h₁, hnormalize, hh₁, hl₁, hk₁⟩ :=
    (normalize_isOk hu hd (lives_refl hu.lifecycle) hu.lifecycle hk).exists_ok
  obtain ⟨_, h₂, harm, hh₂, hl₂, hk₂, -, hi₂⟩ := (arm_isOk hu hd hh₁ hl₁ hk₁).exists_ok
  have hstands := hh₂.stands
  rw [hl₂] at hstands
  obtain ⟨m, hg⟩ := hstands
  have hquiet : Quiet (Within h₀.slots) h₂.toWatch := ⟨hk₂.calm, hd.roomy, hi₂⟩
  obtain ⟨_, w, hwrites, hreached⟩ := ((Watch.writeAll_open_meets hg.parted.pristine.rests
    hg.parted.opened [(4100, #[7])]).mono (fun _ _ hpost => hpost)
      fun _ _ he => he.2 hquiet).exists_ok
  have hverify : h₂.config.verify = false := by rw [hh₂.config, hd.verify]
  have hroom : Bench.Reservable h₂.scheduler 3 := Bench.reservable_of_le _ (by decide)
  obtain ⟨⟨series, subject'⟩, h₃, hrun, haborted, -⟩ := (run_isOk_of_quiet
    (h := { h₂ with toWatch := w }) hreached.rests (hreached.quiet hquiet) hreached.opened
    hg.samples hg.checksums hl₂ hverify mark [] (fun _ => .zero) hroom 0).exists_ok
  have hgap := (gap_of_armed rfl hnew hd.free hnormalize harm hwrites hrun haborted).1
  rw [hmonitored] at hgap
  exact ⟨h₀, m', h₁, h₂, w, series, subject', h₃, hnew, hmonitored, hnormalize, harm, hwrites,
    hrun, hgap⟩

end Rewind.Harness
