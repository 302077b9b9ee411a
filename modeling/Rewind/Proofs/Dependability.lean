import Rewind.Proofs.Undisturbed

/-! What a harness promises to those who call it, in whatever order they do. -/
namespace Rewind.Harness

/-- A routine that writes to the first and the last bytes of a page. -/
def scribble : Target Unit := fun _ _ _ => ⟨[(4096, #[1, 2]), (8191, #[3])], .completed, ()⟩

/-- A whole life, with a second teardown. -/
def wholeLife : List Request :=
  [.normalize Normalization.unhindered, .arm, .run scribble [] (fun _ => .zero) 2 (), .teardown,
    .teardown]

theorem succeed_wholeLife {config : Config} {h₀ : Harness} (hu : Unused config h₀)
    (hd : Undisturbed h₀) (hk : h₀.kernel.Unscripted) (hrearm : h₀.config.rearm = true) :
    h₀.Succeed wholeLife := by
  have hh := lives_refl hu.lifecycle
  apply succeed_cons
  rw [Request.act, Act.meets_bind]
  apply (normalize_isOk hu hd hh hu.lifecycle hk).mono _ fun _ _ he => he
  rintro _ h₁ ⟨hh₁, hl₁, hk₁⟩
  refine Act.meets_pure.mpr ⟨rfl, succeed_cons ?_⟩
  rw [Request.act, Act.meets_bind]
  apply (arm_isOk hu hd hh₁ hl₁ hk₁).mono _ fun _ _ he => he
  rintro _ h₂ ⟨hh₂, hl₂, hk₂, -, hi₂⟩
  have hroom : Bench.Reservable h₂.scheduler 2 := Bench.reservable_of_le _ (by decide)
  refine Act.meets_pure.mpr ⟨rfl, succeed_cons ?_⟩
  rw [Request.act, Act.meets_bind]
  apply ((run_lives_meets hrearm hh₂ scribble [] (fun _ => .zero) 2 ()).and
    (run_isOk hd hh₂ hl₂ hk₂ hi₂ scribble [] (fun _ => .zero) hroom ())).mono _ fun _ _ he => he.2
  rintro series h₃ ⟨hh₃, haborted, hl₃, hk₃⟩
  refine Act.meets_pure.mpr ⟨haborted, succeed_cons ?_⟩
  rw [Request.act, Act.meets_bind]
  apply (teardown_isOk hu hd (hh₃ haborted) hl₃ hk₃).mono _ fun _ _ he => he
  intro _ h₄ hl₄
  refine Act.meets_pure.mpr ⟨rfl, ?_, trivial⟩
  rw [Request.teardown_act_of_tornDown hl₄]

/-- After these calls the harness is in a lawful state. The state only ever moved on, and once the
harness was torn down it stays as it is. If captured pages are guarded again and every call
succeeded, the monitored regions end as they began, and none of their pages is guarded. -/
structure Dependable (h₀ : Harness) (requests : List Request) : Prop where
  lawful : ∀ request, Lawful (h₀.after requests) request
  onward : ∀ earlier later, requests = earlier ++ later →
    (h₀.after earlier).lifecycle.age ≤ (h₀.after requests).lifecycle.age
  done : .teardown ∈ requests →
    Request.teardown.act.on (h₀.after requests) = (.ok none, h₀.after requests)
  -- Nothing is guarded before the harness, which brings the channel that pages are guarded with.
  restored : h₀.config.rearm = true → (∀ n, h₀.memory.isGuarded n = false) →
    h₀.Succeed requests → .teardown ∈ requests → Restored h₀ (h₀.after requests)

/-- A harness that was set up starts in its first state, and whatever it is called for, it is
dependable. -/
theorem dependable_of_new {config : Config} {policy : Policy}
    {catalog : Outcome Failure (List Region)} {m m' : Machine} {h₀ : Harness}
    (hnew : (Harness.new config policy catalog).on m = (.ok h₀, m')) (requests : List Request) :
    h₀.lifecycle = .constructed ∧ Dependable h₀ requests := by
  have hu := (new_meets config policy catalog m).ok hnew
  refine ⟨hu.lifecycle, lawful _, ?_, ?_, ?_⟩
  · rintro earlier later rfl
    rw [after_append]
    exact age_le_after _ _
  · exact fun hmem => Request.teardown_act_of_tornDown (tornDown_of_mem h₀ hmem)
  · intro hrearm hfree hsucceed hmem
    have hlives := lives_after hu (hu.config ▸ hrearm) hfree (lives_refl hu.lifecycle) hsucceed
    have hstands := hlives.stands
    rwa [tornDown_of_mem h₀ hmem] at hstands

/-- Over one page, after a life in which a routine wrote to it twice. -/
theorem dependable_of_new_onePage : ∃ h₀ m', (overOnePage true).on onePage = (.ok h₀, m') ∧
    h₀.monitored = [oneRegion] ∧ h₀.Succeed wholeLife ∧ Restored h₀ (h₀.after wholeLife) := by
  obtain ⟨h₀, m', hnew, hd, hk, hmonitored⟩ := overOnePage_isOk true
  have hu := (new_meets _ _ _ _).ok hnew
  have hrearm : h₀.config.rearm = true := by rw [hu.config]
  have hsucceed := succeed_wholeLife hu hd hk hrearm
  obtain ⟨-, hdependable⟩ := dependable_of_new hnew wholeLife
  have hmem : Request.teardown ∈ wholeLife := by simp [wholeLife]
  exact ⟨h₀, m', hnew, hmonitored, hsucceed, hdependable.restored hrearm hd.free hsucceed hmem⟩

end Rewind.Harness
