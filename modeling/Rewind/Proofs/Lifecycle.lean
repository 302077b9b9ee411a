import Rewind.Harness
import Rewind.Proofs.Courses
import Rewind.Proofs.Custody

/-! The lifecycle of a harness. Each call belongs to one state; made in any other it is refused and
nothing changes at all. Calls that fail leave the state as it is, and teardown ends every life. -/
namespace Rewind.Harness

namespace Lifecycle

/-- The moves that there are: through the three states of use, and out of each state to the end. -/
inductive Moves : Lifecycle → Lifecycle → Prop
  | normalize : Moves .constructed .normalized
  | arm : Moves .normalized .armed
  | tearDown {l : Lifecycle} (hl : l ≠ .tornDown) : Moves l .tornDown

/-- How far a life has come. -/
def age : Lifecycle → Nat
  | .constructed => 0
  | .normalized => 1
  | .armed => 2
  | .tornDown => 3

theorem Moves.age_lt {l l' : Lifecycle} (h : Moves l l') : l.age < l'.age := by
  cases h with
  | normalize | arm => decide
  | @tearDown l hl => cases l <;> first | exact absurd rfl hl | decide

theorem eq_tornDown_of_age_le {l : Lifecycle} (h : tornDown.age ≤ l.age) : l = .tornDown := by
  cases l with
  | tornDown => rfl
  | _ => exact absurd h (by decide)

end Lifecycle

/-- A call of the harness. -/
inductive Request : Type 1
  | normalize (plan : Normalization.Plan)
  | arm
  | run {σ : Type} (target : Target σ) (args : List String) (clock : Nat → Duration) (n : Nat)
      (subject : σ)
  | teardown

namespace Request

/-- What is called; a run that is given up comes back with the cause. -/
def act : Request → Op (Option Failure)
  | .normalize plan => do
    Harness.normalize plan
    return none
  | .arm => do
    Harness.arm
    return none
  | .run target args clock n subject => do
    return (← Harness.run target args clock n subject).1.aborted
  | .teardown => do
    Harness.teardown
    return none

/-- The state that the call is made for, if not for all. -/
def expects : Request → Option Lifecycle
  | .normalize _ => some .constructed
  | .arm => some .normalized
  | .run .. => some .armed
  | .teardown => none

/-- The state in which the call leaves the harness. -/
def leadsTo : Request → Lifecycle
  | .normalize _ => .normalized
  | .arm => .armed
  | .run .. => .armed
  | .teardown => .tornDown

end Request

variable {h h' : Harness} {α : Type}

@[simp] theorem meets_expect {expected : Lifecycle} {post : Unit → Harness → Prop}
    {trouble : Trouble Stop → Harness → Prop} :
    (expect expected).Meets h post trouble ↔
      (h.lifecycle = expected → post () h) ∧ (h.lifecycle ≠ expected →
        trouble (.error (.failure (.lifecycle expected.text h.lifecycle.text))) h) := by
  simp only [expect, Act.meets_bind, Act.meets_get, Act.meets_ite, Act.meets_fail, Act.meets_pure,
    ne_eq, Classical.not_not]
  exact and_comm

@[simp] theorem meets_enter {next : Lifecycle} {post : Unit → Harness → Prop}
    {trouble : Trouble Stop → Harness → Prop} :
    (enter next).Meets h post trouble ↔ post () { h with lifecycle := next } := Act.meets_modify

theorem meets_onWatch {act : Watch.Op α} {post : α → Harness → Prop}
    {trouble : Trouble Stop → Harness → Prop} :
    (onWatch act).Meets h post trouble ↔
      act.Meets h.toWatch (fun a w => post a { h with toWatch := w })
        fun e w => trouble e { h with toWatch := w } := by
  rw [onWatch, Act.meets_focus]
  rfl

theorem meets_normalize {plan : Normalization.Plan} {post : Unit → Harness → Prop}
    {trouble : Trouble Stop → Harness → Prop} :
    (normalize plan).Meets h post trouble ↔
      (h.lifecycle = .constructed →
        (Watch.onMachine (Machine.normalize plan h.table.items.toList h.monitored)).Meets h.toWatch
          (fun _ w => post () { h with toWatch := w, lifecycle := .normalized })
          fun e w => trouble e { h with toWatch := w }) ∧
      (h.lifecycle ≠ .constructed → trouble (.error (.failure
        (.lifecycle Lifecycle.constructed.text h.lifecycle.text))) h) := by
  simp only [normalize, Act.meets_bind, meets_expect, Act.meets_get, meets_onWatch, meets_enter]

theorem meets_arm {post : Unit → Harness → Prop} {trouble : Trouble Stop → Harness → Prop} :
    arm.Meets h post trouble ↔
      (h.lifecycle = .normalized →
        (Watch.arm h.table.items.toList h.config.armTimeout).Meets h.toWatch
          (fun _ w => post () { h with toWatch := w, lifecycle := .armed })
          fun e w => trouble e { h with toWatch := w }) ∧
      (h.lifecycle ≠ .normalized → trouble (.error (.failure
        (.lifecycle Lifecycle.normalized.text h.lifecycle.text))) h) := by
  simp only [arm, Act.meets_bind, meets_expect, Act.meets_get, meets_onWatch, meets_enter]

/-- A teardown that goes wrong is over all the same. -/
theorem meets_teardown {post : Unit → Harness → Prop} {trouble : Trouble Stop → Harness → Prop} :
    teardown.Meets h post trouble ↔
      (h.lifecycle ≠ .tornDown → Watch.teardown.Meets h.toWatch
        (fun _ w => post () { h with toWatch := w, lifecycle := .tornDown })
        fun e w => trouble e { h with toWatch := w, lifecycle := .tornDown }) ∧
      (h.lifecycle = .tornDown → post () h) := by
  simp only [teardown, Act.meets_bind, Act.meets_get, Act.meets_ite, meets_onWatch, meets_enter,
    Act.meets_pure, ne_eq, Classical.not_not]

/-- The run that is asked for of the scheduler. -/
def job {σ : Type} (h : Harness) (target : Target σ) (args : List String)
    (clock : Nat → Duration) (n : Nat) (subject : σ) : Bench.Job σ where
  options := h.config.options
  target := target
  args := args
  slots := h.table.items.toList
  clock := clock
  count := n
  bench := ⟨h.toWatch, h.scheduler, subject⟩

/-- A harness after a run that ended with this bench. -/
def ran {σ : Type} (h : Harness) (b : Bench σ) : Harness :=
  { h with toWatch := b.toWatch, scheduler := b.scheduler }

theorem log_meets (level : Log.Level) (text : String) :
    (log level text).Meets h (fun _ h' => h'.lifecycle = h.lifecycle) (fun _ _ => False) := by
  rw [log, onWatch, Act.meets_focus]
  exact Watch.meets_onMachine_log.mpr rfl

/-- A run comes back while the harness is armed, with what the scheduler made of it. -/
theorem run_meets {σ : Type} (target : Target σ) (args : List String)
    (clock : Nat → Duration) (n : Nat) (subject : σ) :
    (run target args clock n subject).Meets h
      (fun series h' => (h.lifecycle = .armed ∧ h'.lifecycle = .armed) ∧ ∃ b,
        (h.job target args clock n subject).run.on (h.job target args clock n subject).bench =
          (.ok series.1, b) ∧ (series.1.aborted = none → h' = h.ran b))
      (fun _ h' => h'.lifecycle = h.lifecycle ∧ (h.lifecycle = .armed → ∃ e b,
        (h.job target args clock n subject).run.on (h.job target args clock n subject).bench =
          (.error e, b))) := by
  let job := h.job target args clock n subject
  let leave (e : Outcome Stop Series × Bench σ) : Outcome Stop (Series × σ) × Harness :=
    (e.1.map (·, e.2.subject), h.ran e.2)
  simp only [run, Act.meets_bind, meets_expect]
  refine ⟨fun hl => ?_, fun hl => ⟨trivial, fun harmed => absurd harmed hl⟩⟩
  obtain ⟨result, b, hrun⟩ : ∃ result b, job.run.on job.bench = (result, b) := ⟨_, _, rfl⟩
  apply (Act.meets_self _ h).mono
  · intro series h₁ hon
    change leave (job.run.on job.bench) = _ at hon
    rw [hrun] at hon
    obtain ⟨hresult, rfl⟩ := Prod.mk.inj hon
    cases result with
    | error _ => cases hresult
    | ok made =>
      obtain rfl := Except.ok.inj hresult
      cases haborted : made.aborted with
      | some cause =>
        rw [Act.meets_bind]
        apply (log_meets _ _).mono _ fun _ _ he => he.elim
        intro _ h₂ hl₂
        exact Act.meets_pure.mpr ⟨⟨hl, hl₂.trans hl⟩, b, hrun, by simp [haborted]⟩
      | none => exact Act.meets_pure.mpr ⟨⟨hl, hl⟩, b, hrun, fun _ => rfl⟩
  · intro e h₁ hon
    change leave (job.run.on job.bench) = _ at hon
    rw [hrun] at hon
    obtain ⟨hresult, rfl⟩ := Prod.mk.inj hon
    refine ⟨rfl, fun _ => ?_⟩
    cases result with
    | error e' => exact ⟨e', b, hrun⟩
    | ok made => cases hresult

/-- What is asked for in another state than expected is refused before anything is done. -/
theorem on_expect_bind_of_ne {expected : Lifecycle} {next : Unit → Op α}
    (hne : h.lifecycle ≠ expected) : (expect expected >>= next).on h =
      (.error (.error (.failure (.lifecycle expected.text h.lifecycle.text))), h) := by
  have hexpect : (expect expected).on h =
      (.error (.error (.failure (.lifecycle expected.text h.lifecycle.text))), h) := by
    unfold expect
    rw [Act.on_bind]
    show (if h.lifecycle ≠ expected then _ else _ : Op Unit).on h = _
    rw [if_pos hne]
    rfl
  rw [Act.on_bind, hexpect]

namespace Request

/-- Where a call leaves the state, and when it comes back at all. -/
theorem act_meets (request : Request) (h : Harness) : request.act.Meets h
    (fun _ h' => (∀ expected ∈ request.expects, h.lifecycle = expected) ∧
      h'.lifecycle = request.leadsTo)
    (fun _ h' => match request.expects with
      | some _ => h'.lifecycle = h.lifecycle
      | none => h'.lifecycle = .tornDown) := by
  cases request with
  | normalize plan =>
    simp only [act, Act.meets_bind, meets_normalize, Act.meets_pure, expects, leadsTo]
    refine ⟨fun hl => ?_, fun _ => trivial⟩
    exact (Act.meets_true _ _).mono (fun _ _ _ => ⟨by simpa using hl, trivial⟩) fun _ _ he => he
  | arm =>
    simp only [act, Act.meets_bind, meets_arm, Act.meets_pure, expects, leadsTo]
    refine ⟨fun hl => ?_, fun _ => trivial⟩
    exact (Act.meets_true _ _).mono (fun _ _ _ => ⟨by simpa using hl, trivial⟩) fun _ _ he => he
  | run target args clock n subject =>
    simp only [act, Act.meets_bind, Act.meets_pure, expects, leadsTo]
    apply (run_meets target args clock n subject).mono _ fun _ _ he => he.1
    rintro _ h' ⟨⟨hl, hl'⟩, -⟩
    exact ⟨by simpa using hl, hl'⟩
  | teardown =>
    simp only [act, Act.meets_bind, meets_teardown, Act.meets_pure, expects, leadsTo]
    refine ⟨fun _ => ?_, fun hl => ⟨by simp, hl⟩⟩
    exact (Act.meets_true _ _).mono (fun _ _ _ => ⟨by simp, trivial⟩) fun _ _ he => he

theorem leadsTo_moves {l : Lifecycle} (request : Request)
    (hl : ∀ expected ∈ request.expects, l = expected) :
    request.leadsTo = l ∨ l.Moves request.leadsTo := by
  cases request with
  | normalize plan =>
    obtain rfl := hl .constructed rfl
    exact .inr .normalize
  | arm =>
    obtain rfl := hl .normalized rfl
    exact .inr .arm
  | run => exact .inl (hl .armed rfl).symm
  | teardown =>
    by_cases hdown : l = .tornDown
    · exact .inl hdown.symm
    · exact .inr (.tearDown hdown)

/-- A call that is made in another state than its own changes nothing. -/
theorem act_of_ne {request : Request} {expected : Lifecycle} (he : expected ∈ request.expects)
    (hne : h.lifecycle ≠ expected) : request.act.on h =
      (.error (.error (.failure (.lifecycle expected.text h.lifecycle.text))), h) := by
  have refused {α : Type} {act : Op α} (hact : act.on h =
      (.error (.error (.failure (.lifecycle expected.text h.lifecycle.text))), h))
      (next : α → Op (Option Failure)) : (act >>= next).on h =
        (.error (.error (.failure (.lifecycle expected.text h.lifecycle.text))), h) := by
    rw [Act.on_bind, hact]
  cases request with
  | normalize plan =>
    obtain rfl : Lifecycle.constructed = expected := Option.some.inj he
    exact refused (on_expect_bind_of_ne hne) _
  | arm =>
    obtain rfl : Lifecycle.normalized = expected := Option.some.inj he
    exact refused (on_expect_bind_of_ne hne) _
  | run target args clock n subject =>
    obtain rfl : Lifecycle.armed = expected := Option.some.inj he
    exact refused (on_expect_bind_of_ne hne) _
  | teardown => cases he

theorem teardown_act_of_tornDown (hl : h.lifecycle = .tornDown) :
    teardown.act.on h = (.ok none, h) := by
  rw [Act.on_eq_ok_iff, act, Act.meets_bind, meets_teardown]
  exact ⟨fun hdown => absurd hl hdown, fun _ => Act.meets_pure.mpr ⟨rfl, rfl⟩⟩

end Request

/-- What a call can come to in the state in which it is made. -/
structure Lawful (h : Harness) (request : Request) : Prop where
  /-- In a state that it is not for, it is refused and changes nothing. -/
  refused : ∀ expected ∈ request.expects, h.lifecycle ≠ expected → request.act.on h =
    (.error (.error (.failure (.lifecycle expected.text h.lifecycle.text))), h)
  returned : ∀ aborted h', request.act.on h = (.ok aborted, h') →
    (∀ expected ∈ request.expects, h.lifecycle = expected) ∧ h'.lifecycle = request.leadsTo
  failed : ∀ e h', request.act.on h = (.error e, h') → request.expects ≠ none →
    h'.lifecycle = h.lifecycle
  moved : (request.act.on h).2.lifecycle = h.lifecycle ∨
    h.lifecycle.Moves (request.act.on h).2.lifecycle
  ended : request = .teardown → (request.act.on h).2.lifecycle = .tornDown
  /-- No routine is heeded but in the armed state. -/
  unheeded : h.lifecycle ≠ .armed → ∀ {σ : Type} (target target' : Target σ) args clock n subject,
    (Request.run target args clock n subject).act.on h =
      (Request.run target' args clock n subject).act.on h

theorem lawful (h : Harness) (request : Request) : Lawful h request := by
  have hmeets := request.act_meets h
  have hreturned {aborted : Option Failure} {h' : Harness}
      (hon : request.act.on h = (.ok aborted, h')) := hmeets.ok hon
  have hfailed {e : Trouble Stop} {h' : Harness}
      (hon : request.act.on h = (.error e, h')) := hmeets.error hon
  constructor
  · exact fun expected he hne => Request.act_of_ne he hne
  · exact fun aborted h' hon => hreturned hon
  · intro e h' hon he
    have hl := hfailed hon
    cases hx : request.expects with
    | none => exact absurd hx he
    | some expected => rwa [hx] at hl
  · obtain ⟨result, h', hon⟩ : ∃ result h', request.act.on h = (result, h') := ⟨_, _, rfl⟩
    rw [hon]
    cases result with
    | ok aborted =>
      obtain ⟨hl, hl'⟩ := hreturned hon
      rw [hl']
      exact request.leadsTo_moves hl
    | error e =>
      have hl := hfailed hon
      cases request with
      | teardown =>
        rw [show h'.lifecycle = .tornDown from hl]
        exact Request.teardown.leadsTo_moves nofun
      | _ => exact .inl hl
  · rintro rfl
    obtain ⟨result, h', hon⟩ : ∃ result h', Request.teardown.act.on h = (result, h') := ⟨_, _, rfl⟩
    rw [hon]
    cases result with
    | ok aborted => exact (hreturned hon).2
    | error e => exact hfailed hon
  · intro hl σ target target' args clock n subject
    rw [Request.act_of_ne rfl hl, Request.act_of_ne rfl hl]

/-- The harness after some calls, whatever came of them. -/
def after (h : Harness) (requests : List Request) : Harness :=
  requests.foldl (fun h request => (request.act.on h).2) h

/-- All calls come back, and no run is given up: one that is does not undo its last iteration. -/
def Succeed (h : Harness) : List Request → Prop
  | [] => True
  | request :: requests =>
    (request.act.on h).1 = .ok none ∧ Succeed (request.act.on h).2 requests

theorem succeed_cons {request : Request} {requests : List Request}
    (hr : request.act.Meets h (fun aborted h' => aborted = none ∧ h'.Succeed requests)
      (fun _ _ => False)) : h.Succeed (request :: requests) := by
  obtain ⟨aborted, h', hon, rfl, hrest⟩ := hr.exists_ok
  refine ⟨?_, ?_⟩
  · rw [hon]
  · rwa [hon]

theorem after_append (h : Harness) (earlier later : List Request) :
    h.after (earlier ++ later) = (h.after earlier).after later := List.foldl_append

theorem age_le_after (h : Harness) (requests : List Request) :
    h.lifecycle.age ≤ (h.after requests).lifecycle.age := by
  induction requests generalizing h with
  | nil => exact le_rfl
  | cons request requests ih =>
    have hrest := ih (request.act.on h).2
    rcases (lawful h request).moved with hsame | hmoves
    · exact hsame ▸ hrest
    · exact hmoves.age_lt.le.trans hrest

theorem tornDown_of_mem (h : Harness) {requests : List Request} (hr : .teardown ∈ requests) :
    (h.after requests).lifecycle = .tornDown := by
  obtain ⟨earlier, later, rfl⟩ := List.append_of_mem hr
  have hended := (lawful (h.after earlier) .teardown).ended rfl
  have hage := age_le_after (Request.teardown.act.on (h.after earlier)).2 later
  rw [hended] at hage
  rw [after_append]
  exact Lifecycle.eq_tornDown_of_age_le hage

end Rewind.Harness
