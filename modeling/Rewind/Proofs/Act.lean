import Rewind.Machine

/-! What a computation ends in, as a predicate on the state that it starts from. `Act.Meets` speaks
of both ways to end, so that what a failed computation leaves behind can be stated as well. -/
namespace Rewind.Act

variable {σ τ ε δ α β : Type}

/-- From a state a computation ends well with `post`, or early with `trouble`. -/
def Meets (act : Act σ ε α) (s : σ) (post : α → σ → Prop) (trouble : Trouble ε → σ → Prop) : Prop :=
  match act.on s with
  | (.ok a, s) => post a s
  | (.error e, s) => trouble e s

theorem on_of_result {act : Act σ ε α} {s : σ} {r : Outcome ε α} (h : (act.on s).1 = r) :
    act.on s = (r, (act.on s).2) := Prod.ext h rfl

theorem on_get (s : σ) : (get : Act σ ε σ).on s = (.ok s, s) := rfl

section
variable {s s' : σ} {post : α → σ → Prop} {trouble : Trouble ε → σ → Prop}

theorem Meets.ok {act : Act σ ε α} {a : α} (h : act.Meets s post trouble)
    (hs : act.on s = (.ok a, s')) : post a s' := by simpa only [Meets, hs] using h

theorem Meets.error {act : Act σ ε α} {e : Trouble ε} (h : act.Meets s post trouble)
    (hs : act.on s = (.error e, s')) : trouble e s' := by simpa only [Meets, hs] using h

theorem meets_of_ok {act : Act σ ε α} {a : α} (hs : act.on s = (.ok a, s')) :
    act.Meets s post trouble ↔ post a s' := by simp only [Meets, hs]

theorem meets_of_error {act : Act σ ε α} {e : Trouble ε} (hs : act.on s = (.error e, s')) :
    act.Meets s post trouble ↔ trouble e s' := by simp only [Meets, hs]

theorem meets_self (act : Act σ ε α) (s : σ) :
    act.Meets s (fun a s' => act.on s = (.ok a, s')) fun e s' => act.on s = (.error e, s') := by
  unfold Meets
  rcases act.on s with ⟨_ | _, _⟩ <;> rfl

/-- Every computation ends somehow. -/
theorem meets_true (act : Act σ ε α) (s : σ) :
    act.Meets s (fun _ _ => True) (fun _ _ => True) := by
  unfold Meets
  rcases act.on s with ⟨_ | _, _⟩ <;> trivial

theorem on_eq_ok_iff {act : Act σ ε α} {a : α} :
    act.on s = (.ok a, s') ↔ act.Meets s (fun b t => b = a ∧ t = s') fun _ _ => False := by
  unfold Meets
  rcases act.on s with ⟨_ | _, _⟩ <;> simp

theorem Meets.exists_ok {act : Act σ ε α} (h : act.Meets s post fun _ _ => False) :
    ∃ a s', act.on s = (.ok a, s') ∧ post a s' := by
  unfold Meets at h
  split at h
  next a s' hs => exact ⟨a, s', hs, h⟩
  next => exact h.elim

theorem Meets.exists_error {act : Act σ ε α} (h : act.Meets s (fun _ _ => False) trouble) :
    ∃ e s', act.on s = (.error e, s') ∧ trouble e s' := by
  unfold Meets at h
  split at h
  next => exact h.elim
  next e s' hs => exact ⟨e, s', hs, h⟩

theorem Meets.mono {post' : α → σ → Prop} {trouble' : Trouble ε → σ → Prop} {act : Act σ ε α}
    (h : act.Meets s post trouble) (hp : ∀ a s, post a s → post' a s)
    (ht : ∀ e s, trouble e s → trouble' e s) : act.Meets s post' trouble' := by
  unfold Meets at h ⊢
  split at h
  · exact hp _ _ h
  · exact ht _ _ h

theorem Meets.and {post' : α → σ → Prop} {trouble' : Trouble ε → σ → Prop} {act : Act σ ε α}
    (h : act.Meets s post trouble) (h' : act.Meets s post' trouble') :
    act.Meets s (fun a s => post a s ∧ post' a s) fun e s => trouble e s ∧ trouble' e s := by
  unfold Meets at h h' ⊢
  split at h
  · next hs => exact ⟨h, by simpa only [hs] using h'⟩
  · next hs => exact ⟨h, by simpa only [hs] using h'⟩

@[simp] theorem meets_bind {act : Act σ ε β} {next : β → Act σ ε α} :
    (act >>= next).Meets s post trouble ↔
      act.Meets s (fun b s => (next b).Meets s post trouble) trouble := by
  simp only [Meets, on_bind]
  rcases act.on s with ⟨_ | _, _⟩ <;> rfl

@[simp] theorem meets_pure {a : α} : (pure a : Act σ ε α).Meets s post trouble ↔ post a s := Iff.rfl

@[simp] theorem meets_get {post : σ → σ → Prop} :
    (get : Act σ ε σ).Meets s post trouble ↔ post s s := Iff.rfl

@[simp] theorem meets_set {post : PUnit → σ → Prop} :
    (set s' : Act σ ε PUnit).Meets s post trouble ↔ post ⟨⟩ s' := Iff.rfl

@[simp] theorem meets_modify {f : σ → σ} {post : PUnit → σ → Prop} :
    (modify f : Act σ ε PUnit).Meets s post trouble ↔ post ⟨⟩ (f s) := Iff.rfl

@[simp] theorem meets_throw {e : Trouble ε} :
    (throw e : Act σ ε α).Meets s post trouble ↔ trouble e s := Iff.rfl

@[simp] theorem meets_fail {cause : ε} :
    (fail cause : Act σ ε α).Meets s post trouble ↔ trouble (.error cause) s := Iff.rfl

@[simp] theorem meets_ite {c : Prop} [Decidable c] {act act' : Act σ ε α} :
    (if c then act else act').Meets s post trouble ↔
      (c → act.Meets s post trouble) ∧ (¬c → act'.Meets s post trouble) := by
  split <;> simp [*]

/-- A checked value stands for itself, or for its fault. -/
@[simp] theorem meets_faulty {x : Except Fault α} :
    (liftM x : Act σ ε α).Meets s post trouble ↔
      (∀ a, x = .ok a → post a s) ∧ ∀ f, x = .error f → trouble (.fault f) s := by
  cases x with
  | ok a => exact ⟨fun h => ⟨by rintro _ ⟨⟩; exact h, nofun⟩, fun h => h.1 a rfl⟩
  | error f => exact ⟨fun h => ⟨nofun, by rintro _ ⟨⟩; exact h⟩, fun h => h.2 f rfl⟩

@[simp] theorem meets_outcome {x : Outcome ε α} :
    (liftM x : Act σ ε α).Meets s post trouble ↔
      (∀ a, x = .ok a → post a s) ∧ ∀ e, x = .error e → trouble e s := by
  cases x with
  | ok a => exact ⟨fun h => ⟨by rintro _ ⟨⟩; exact h, nofun⟩, fun h => h.1 a rfl⟩
  | error e => exact ⟨fun h => ⟨nofun, by rintro _ ⟨⟩; exact h⟩, fun h => h.2 e rfl⟩

@[simp] theorem meets_request {f : σ → Except ε α × σ} :
    (request f).Meets s post trouble ↔
      (∀ a, (f s).1 = .ok a → post a (f s).2) ∧
        ∀ e, (f s).1 = .error e → trouble (.error e) (f s).2 := by
  unfold Meets request
  rw [on_ofFunction]
  rcases f s with ⟨_ | _, _⟩ <;> simp

end

theorem meets_mapError {f : δ → ε} {act : Act σ δ α} {s : σ} {post : α → σ → Prop}
    {trouble : Trouble ε → σ → Prop} :
    (act.mapError f).Meets s post trouble ↔ act.Meets s post fun e s => match e with
      | .fault cause => trouble (.fault cause) s
      | .error cause => trouble (.error (f cause)) s := by
  unfold Meets mapError
  rw [on_ofFunction]
  rcases act.on s with ⟨(_ | _) | _, _⟩ <;> rfl

theorem meets_attempt {act : Act σ δ α} {s : σ} {post : Except δ α → σ → Prop}
    {trouble : Trouble ε → σ → Prop} :
    (act.attempt : Act σ ε (Except δ α)).Meets s post trouble ↔
      act.Meets s (fun a s => post (.ok a) s) fun e s => match e with
        | .fault cause => trouble (.fault cause) s
        | .error cause => post (.error cause) s := by
  unfold Meets attempt
  rw [on_ofFunction]
  rcases act.on s with ⟨(_ | _) | _, _⟩ <;> rfl

theorem meets_focus {part : Part σ τ} {act : Act τ ε α} {s : σ} {post : α → σ → Prop}
    {trouble : Trouble ε → σ → Prop} :
    (act.focus part).Meets s post trouble ↔
      act.Meets (part.split s).1 (fun a t => post a ((part.split s).2 t))
        fun e t => trouble e ((part.split s).2 t) := by
  unfold Meets
  rw [on_focus]
  rcases act.on (part.split s).1 with ⟨_ | _, _⟩ <;> rfl

-- A statement about a computation is taken apart by the lemmas above and never by running it.
attribute [irreducible] Meets

end Rewind.Act
