import Rewind.Proofs.Setup
import Rewind.Schedule.Run

/-! What a computation leaves alone, be its end good or bad. The thread, the writers and the runs of
routines never touch the regions that were handed over, nor whether they were armed, and the script
of the kernel stays as it is. -/
namespace Rewind

namespace Act

variable {σ τ ε δ α β γ : Type} {view : σ → γ}

/-- Whatever becomes of the computation, this view of the state stays the same. -/
def Keeps (view : σ → γ) (act : Act σ ε α) : Prop := ∀ s, view (act.on s).2 = view s

theorem Keeps.of_on {act : Act σ ε α} (h : act.Keeps view) {s s' : σ}
    {result : Except (Trouble ε) α} (hon : act.on s = (result, s')) : view s' = view s := by
  have hs := h s
  rwa [hon] at hs

theorem Keeps.bind {act : Act σ ε α} {next : α → Act σ ε β} (h : act.Keeps view)
    (hn : ∀ a, (next a).Keeps view) : (act >>= next).Keeps view := by
  intro s
  have hs := h s
  rw [on_bind]
  cases hr : act.on s with
  | mk result s' =>
    rw [hr] at hs
    cases result with
    | ok a => exact (hn a s').trans hs
    | error _ => exact hs

theorem keeps_pure (a : α) : (pure a : Act σ ε α).Keeps view := fun _ => rfl

theorem keeps_get : (get : Act σ ε σ).Keeps view := fun _ => rfl

theorem keeps_fail (cause : ε) : (fail cause : Act σ ε α).Keeps view := fun _ => rfl

theorem keeps_faulty (x : Except Fault α) : (liftM x : Act σ ε α).Keeps view := by
  intro s
  cases x <;> rfl

theorem keeps_modify {f : σ → σ} (h : ∀ s, view (f s) = view s) :
    (modify f : Act σ ε PUnit).Keeps view := h

theorem Keeps.ite {c : Prop} [Decidable c] {act act' : Act σ ε α} (h : c → act.Keeps view)
    (h' : ¬c → act'.Keeps view) : (if c then act else act').Keeps view := by
  split
  · exact h ‹_›
  · exact h' ‹_›

theorem Keeps.mapError {f : δ → ε} {act : Act σ δ α} (h : act.Keeps view) :
    (act.mapError f).Keeps view := h

theorem keeps_request {f : σ → Except ε α × σ} (h : ∀ s, view (f s).2 = view s) :
    (request f).Keeps view := by
  intro s
  have hs := h s
  unfold request
  rw [on_ofFunction]
  rcases hf : f s with ⟨_ | _, _⟩ <;> rw [hf] at hs <;> exact hs

theorem Keeps.attempt {act : Act σ δ α} (h : act.Keeps view) :
    (act.attempt : Act σ ε (Except δ α)).Keeps view := by
  intro s
  have hs := h s
  unfold Act.attempt
  rw [on_ofFunction]
  rcases hr : act.on s with ⟨(_ | _) | _, _⟩ <;> rw [hr] at hs <;> exact hs

theorem Keeps.failureOf {act : Act σ Stop Unit} (h : act.Keeps view) :
    (Stop.failureOf act).Keeps view := by
  have hattempt : (Stop.attempt act).Keeps view := by
    intro s
    have hs := h s
    unfold Stop.attempt
    rw [on_ofFunction]
    rcases hr : act.on s with ⟨((_ | _) | (_ | _)) | _, _⟩ <;> rw [hr] at hs <;> exact hs
  refine hattempt.bind fun r => ?_
  cases r <;> exact keeps_pure _

/-- A computation on a part keeps all that does not depend on the part. -/
theorem keeps_focus {part : Part σ τ} (act : Act τ ε α)
    (h : ∀ s t, view ((part.split s).2 t) = view s) : (act.focus part).Keeps view :=
  fun s => h s _

theorem Keeps.focus {part : Part σ τ} {act : Act τ ε α} {ι : Type} {inner : τ → ι}
    (h : act.Keeps inner)
    (hv : ∀ s t, inner t = inner (part.split s).1 → view ((part.split s).2 t) = view s) :
    (act.focus part).Keeps view := fun s => hv s _ (h (part.split s).1)

end Act

namespace Machine

open Act

variable {ε : Type}

/-- What the kernel was told to say. -/
def rules (m : Machine) : List Kernel.Rule := m.kernel.rules

theorem keeps_ask (call : Kernel.Call) : (ask call : Act Machine ε _).Keeps rules := fun _ => rfl

theorem keeps_requestMemory (call : Kernel.Call) (f : Memory → Except Errno Unit × Memory) :
    (requestMemory call f).Keeps rules := by
  refine (keeps_ask call).bind fun answer => ?_
  split
  · exact keeps_fail _
  · exact Keeps.bind (keeps_request fun _ => rfl) fun _ => keeps_pure _

theorem keeps_enlist (g : Bool) (s : Span) : (enlist g s).Keeps rules := by
  cases g with
  | true => exact keeps_requestMemory .protect (·.setGuarded s true)
  | false =>
    refine (keeps_ask _).bind fun answer => ?_
    split
    · exact keeps_fail _
    · refine Keeps.bind (keeps_request fun _ => rfl) fun _ => ?_
      cases answer with
      | none => exact keeps_pure _
      | some answer =>
        cases answer with
        | requests bits =>
          exact .ite (fun _ => (keeps_fail _).bind fun _ => keeps_pure _) fun _ => keeps_pure _
        | _ => exact keeps_pure _

end Machine

namespace Watch

open Act
open Monitor (Point)

/-- The regions that were handed over, whether they are armed, and the script of the kernel. -/
def custody (w : Watch) : PrivateArray Slot 24 × Bool × List Kernel.Rule :=
  (w.monitor.slots, w.monitor.armed, w.rules)

theorem keeps_machine {α : Type} {act : Act Machine Stop α} (h : act.Keeps Machine.rules) :
    (act.focus machine).Keeps custody := by
  refine Keeps.focus h fun w m hm => ?_
  show (w.monitor.slots, w.monitor.armed, m.rules) = _
  rw [hm]
  rfl

theorem keeps_request {act : Act Machine Errno Machine.Return} (h : act.Keeps Machine.rules) :
    (request act).Keeps custody := keeps_machine h.attempt

theorem keeps_onMachine {α : Type} {act : Act Machine Failure α} (h : act.Keeps Machine.rules) :
    (onMachine act).Keeps custody := keeps_machine h.mapError

theorem keeps_modifyMonitor {f : Monitor → Monitor}
    (h : ∀ m, ((f m).slots, (f m).armed) = (m.slots, m.armed)) :
    (modifyMonitor f).Keeps custody := by
  refine keeps_modify fun w => ?_
  obtain ⟨hslots, harmed⟩ := Prod.mk.inj (h w.monitor)
  exact Prod.ext hslots (Prod.ext harmed rfl)

theorem keeps_capture (page : Nat) : (capture page).Keeps custody := by
  refine keeps_get.bind fun w => ?_
  refine (keeps_focus _ fun _ _ => rfl).attempt.bind fun r => ?_
  cases r with
  | ok _ => exact keeps_pure _
  | error _ => exact keeps_fail _

theorem keeps_poll : poll.Keeps custody := by
  refine (keeps_onMachine (Machine.keeps_ask _)).bind fun answer => ?_
  split
  · exact keeps_pure _
  · exact keeps_fail _
  · exact .ite (fun _ => keeps_fail _) fun _ => keeps_pure _
  · exact keeps_pure _

theorem keeps_read : read.Keeps custody := by
  refine (keeps_onMachine (Machine.keeps_ask _)).bind fun answer => ?_
  split
  · exact keeps_pure _
  · exact keeps_pure _
  · exact keeps_fail _
  · exact .ite (fun _ => keeps_pure _) fun _ => keeps_fail _
  · exact keeps_pure _
  · refine keeps_get.bind fun w => ?_
    split
    · exact keeps_pure _
    · apply Keeps.bind
      · exact keeps_modifyMonitor fun _ => rfl
      · exact fun _ => keeps_pure _

theorem keeps_enlist (g : Bool) (i : Nat) : (perform (.enlist g i)).Keeps custody := by
  rw [perform_enlist]
  refine keeps_get.bind fun w => ?_
  split
  · exact keeps_pure _
  · refine (keeps_request (Machine.keeps_enlist g _)).bind fun r => ?_
    split <;> exact keeps_pure _

theorem keeps_perform (p : Monitor.Point) : (perform p).Keeps custody := by
  have keeps_note {f : Monitor → Monitor} {next : Next}
      (h : ∀ m, ((f m).slots, (f m).armed) = (m.slots, m.armed)) :
      (do modifyMonitor f; return next : Op Next).Keeps custody :=
    (keeps_modifyMonitor h).bind fun _ => keeps_pure _
  cases p with
  | register index => exact keeps_enlist false index
  | guard index => exact keeps_enlist true index
  | poll => exact keeps_poll
  | read => exact keeps_read
  | wait => exact keeps_get.bind fun w => keeps_pure _
  | capture page => exact (keeps_capture page).bind fun _ => keeps_pure _
  | release page =>
    refine (keeps_faulty _).bind fun span => ?_
    refine (keeps_request (Machine.keeps_requestMemory _ _)).bind fun r => ?_
    split
    · exact keeps_pure _
    · exact keeps_fail _
  | ended => exact keeps_pure _
  | _ => exact keeps_note fun _ => rfl

theorem keeps_setThread (next : Point) (held : Bool) : (setThread next held).Keeps custody :=
  keeps_modifyMonitor fun _ => rfl

theorem keeps_serveFor (steps : Nat) : (serveFor steps).Keeps custody := by
  induction steps with
  | zero => exact keeps_pure _
  | succ steps ih =>
    refine keeps_get.bind fun w => ?_
    split
    · refine (keeps_perform _).bind fun next => ?_
      split
      · exact (keeps_setThread _ _).bind fun _ => ih
      · exact keeps_setThread _ _
      · exact keeps_pure _
    · exact keeps_pure _

theorem keeps_serve : serve.Keeps custody := keeps_get.bind fun _ => keeps_serveFor _

theorem keeps_claim (n address : Nat) : (claim n address).Keeps custody := by
  refine keeps_get.bind fun w => .ite (fun _ => ?_) fun _ => keeps_pure _
  apply Keeps.bind
  · exact keeps_modifyMonitor fun _ => rfl
  · refine fun _ => keeps_serve.bind fun _ => keeps_get.bind fun _ => ?_
    exact .ite (fun _ => keeps_fail _) fun _ => keeps_pure _

theorem keeps_writePages (start : Nat) (bytes : Array UInt8) (ns : List Nat) :
    (writePages start bytes ns).Keeps custody := by
  induction ns with
  | nil => exact keeps_pure _
  | cons n ns ih =>
    refine (keeps_claim _ _).bind fun _ => Keeps.bind ?_ fun _ => ih
    exact keeps_modify fun _ => rfl

theorem keeps_writeAll (writes : List (Nat × Array UInt8)) : (writeAll writes).Keeps custody := by
  induction writes with
  | nil => exact keeps_pure _
  | cons run writes ih => exact (keeps_writePages _ _ _).bind fun _ => ih

theorem keeps_drain (timeout : Duration) : (drain timeout).Keeps custody :=
  keeps_get.bind fun _ => .ite (fun _ => keeps_fail _) fun _ => keeps_pure _

theorem keeps_rearmAll (pages : List Nat) : (rearmAll pages).Keeps custody := by
  induction pages with
  | nil => exact keeps_pure _
  | cons page pages ih =>
    refine Keeps.bind ?_ fun _ => ih
    refine (keeps_faulty _).bind fun span => ?_
    refine (keeps_request (Machine.keeps_requestMemory _ _)).bind fun r => ?_
    split
    · exact keeps_pure _
    · exact keeps_fail _
    · exact keeps_fail _

theorem keeps_rearm : rearm.Keeps custody := keeps_get.bind fun _ => keeps_rearmAll _

theorem keeps_replayBelow (i : Nat) : (replayBelow i).Keeps custody := by
  induction i with
  | zero => exact keeps_pure _
  | succ i ih =>
    refine keeps_get.bind fun w => (keeps_faulty _).bind fun page => ?_
    refine (keeps_writePages _ _ _).bind fun _ => keeps_get.bind fun _ => ?_
    exact .ite (fun _ => (keeps_fail _).bind fun _ => ih) fun _ => ih

theorem keeps_forget : forget.Keeps custody := keeps_modify fun _ => rfl

theorem keeps_restore (again : Bool) : (restore again).Keeps custody := by
  have hreplay : replay.Keeps custody :=
    keeps_get.bind fun _ => (keeps_replayBelow _).bind fun _ => keeps_get.bind fun _ => keeps_pure _
  have hforget (count : Nat) : (do forget; return count : Op Nat).Keeps custody :=
    keeps_forget.bind fun _ => keeps_pure _
  refine hreplay.bind fun count => ?_
  exact .ite (fun _ => keeps_rearm.bind fun _ => hforget count) fun _ => hforget count

theorem keeps_rebaseline (timeout : Duration) : (rebaseline timeout).Keeps custody := by
  refine (keeps_drain timeout).bind fun _ => keeps_get.bind fun _ => keeps_rearm.bind fun _ => ?_
  exact keeps_forget.bind fun _ => keeps_pure _

end Watch

namespace Bench

open Act
open Monitor (Point)

variable {σ : Type} {o : Scheduler.Options} {target : Target σ} {args : List String}
  {slots : List Slot} {clock : Nat → Duration} {n : Nat}

/-- The regions that were handed over to the monitor of a bench. -/
def custody (b : Bench σ) : PrivateArray Slot 24 × Bool × List Kernel.Rule := b.toWatch.custody

theorem keeps_onWatch {α : Type} {act : Watch.Op α} (h : act.Keeps Watch.custody) :
    (onWatch act : Op σ α).Keeps custody := h.focus fun _ _ he => he

theorem keeps_onTable {τ α : Type} {part : Part (Bench σ) τ} (act : Act τ Errno α)
    (h : ∀ b t, custody ((part.split b).2 t) = custody b) : (onTable part act).Keeps custody :=
  keeps_focus _ h

theorem keeps_call : (call target args : Op σ Conclusion).Keeps custody := by
  intro b
  have hrest (call : Call σ) :
      (do onWatch (Watch.writeAll call.writes); return call.conclusion : Op σ _).Keeps custody :=
    (keeps_onWatch (Watch.keeps_writeAll _)).bind fun _ => keeps_pure _
  let call := target b.subject args b.memory
  exact hrest call { b with subject := call.state }

theorem keeps_verify (i : Nat) : (verify i slots : Op σ Unit).Keeps custody := by
  refine keeps_get.bind fun b => ?_
  split
  · exact keeps_fail _
  · exact keeps_pure _

theorem keeps_iteration (i : Nat) (d : Duration) :
    (iteration o target args slots i d).Keeps custody := by
  refine keeps_call.bind fun conclusion => ?_
  refine (keeps_onWatch (Watch.keeps_drain _)).bind fun _ => ?_
  refine (keeps_onWatch (Watch.keeps_restore _)).bind fun pages => ?_
  refine (keeps_onTable _ fun _ _ => rfl).bind fun _ => ?_
  exact .ite (fun _ => keeps_verify i) fun _ => keeps_pure _

theorem keeps_iterations (todo i : Nat) :
    (iterations o target args slots clock todo i).Keeps custody := by
  induction todo generalizing i with
  | zero => exact keeps_pure _
  | succ todo ih => exact (keeps_iteration i _).bind fun _ => ih (i + 1)

theorem keeps_loop : (loop o target args slots clock n).Keeps custody := by
  have hrest : (do
      let _ ← onWatch (Watch.rebaseline o.drainTimeout)
      iterations o target args slots clock n 0 : Op σ Unit).Keeps custody :=
    (keeps_onWatch (Watch.keeps_rebaseline _)).bind fun _ => keeps_iterations n 0
  refine Keeps.bind (keeps_modify fun _ => rfl) fun _ => ?_
  refine (keeps_onTable _ fun _ _ => rfl).bind fun _ => .ite (fun _ => ?_) fun _ => hrest
  exact keeps_get.bind fun b => (keeps_onTable _ fun _ _ => rfl).bind fun _ => hrest

/-- A run, be it aborted or not, leaves the regions in the hands of the monitor. -/
theorem keeps_run : (run o target args slots clock n).Keeps custody := by
  refine keeps_loop.failureOf.bind fun aborted => ?_
  exact keeps_get.bind fun _ => keeps_pure _

end Bench

end Rewind
