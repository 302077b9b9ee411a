import Rewind.Proofs.Act
import Rewind.Proofs.Frames
import Rewind.Watch.Basic

/-! Requests to the kernel: the script answers first, the memory if the script lets a request
through. A refused request leaves everything but the tally of calls, and at times some pages. -/
namespace Rewind

namespace Kernel

/-- The script lets all calls of a kind take their natural course. -/
def Grants (k : Kernel) (call : Call) : Prop := ∀ r ∈ k.rules, r.call ≠ call

theorem Grants.ask {k : Kernel} {call : Call} (h : k.Grants call) : (k.ask call).1 = none := by
  simp only [Kernel.ask, List.findSome?_eq_none_iff]
  intro r hr
  simp [Rule.answer?, h r hr]

theorem Grants.of_rules {k k' : Kernel} {call : Call} (h : k.Grants call)
    (hk : k'.rules = k.rules) : k'.Grants call := fun r hr => h r (hk ▸ hr)

theorem count_ask (k : Kernel) (call : Call) : (k.ask call).2.count call = k.count call + 1 := by
  show (k.tally.set call.index _)[(call.index : Nat)] = _
  rw [Vector.getElem_set_self]

theorem count_ask_of_ne (k : Kernel) {call other : Call} (h : call ≠ other) :
    (k.ask call).2.count other = k.count other := by
  have hne : (call.index : Nat) ≠ other.index := by
    revert h
    cases call <;> cases other <;> decide
  show (k.tally.set call.index _)[(other.index : Nat)] = k.tally[(other.index : Nat)]
  exact Vector.getElem_set_ne _ _ hne

end Kernel

namespace Machine

/-- A machine after one more call. -/
def called (m : Machine) (call : Kernel.Call) : Machine :=
  { m with kernel := (m.kernel.ask call).2 }

@[simp] theorem memory_called (m : Machine) (call : Kernel.Call) :
    (m.called call).memory = m.memory := rfl

@[simp] theorem meets_ask {ε : Type} {call : Kernel.Call} {m : Machine}
    {post : Option Kernel.Answer → Machine → Prop} {trouble : Trouble ε → Machine → Prop} :
    (ask call : Act Machine ε _).Meets m post trouble ↔
      post (m.kernel.ask call).1 (m.called call) := by
  simp only [ask, Act.meets_bind, Act.meets_get, Act.meets_modify, Act.meets_pure, called]

/-- When a request returns, by the answer of the script. -/
def returnOf (answer : Option Kernel.Answer) : Return :=
  if answer = some .hold then .late else .prompt

theorem returnOf_none : returnOf none = .prompt := rfl

theorem requestMemory_meets {call : Kernel.Call} {f : Memory → Except Errno Unit × Memory}
    {m : Machine} : (requestMemory call f).Meets m
      (fun r m' => (f m.memory).1 = .ok () ∧ r = returnOf (m.kernel.ask call).1 ∧
        m' = { m.called call with memory := (f m.memory).2 })
      (fun e m' => ∃ errno, e = .error errno ∧
        ((m.kernel.ask call).1 = some (.refuse errno) ∧ m' = m.called call ∨
          (f m.memory).1 = .error errno ∧
            m' = { m.called call with memory := (f m.memory).2 })) := by
  simp only [requestMemory, Act.meets_bind, meets_ask]
  split
  · next errno h => exact Act.meets_fail.mpr ⟨errno, rfl, .inl ⟨h, rfl⟩⟩
  · simp only [Act.meets_bind, Act.meets_request, Act.meets_pure]
    exact ⟨fun _ h => ⟨h, rfl, rfl⟩, fun errno h => ⟨errno, rfl, .inr ⟨h, rfl⟩⟩⟩

theorem requestMemory_of_grants {call : Kernel.Call} {f : Memory → Except Errno Unit × Memory}
    {m : Machine} {memory : Memory} (hg : m.kernel.Grants call)
    (hf : f m.memory = (.ok (), memory)) :
    (requestMemory call f).on m = (.ok .prompt, { m.called call with memory := memory }) := by
  rw [Act.on_eq_ok_iff]
  simp only [requestMemory, Act.meets_bind, meets_ask, hg.ask, Act.meets_request, Act.meets_pure,
    memory_called, hf]
  exact ⟨fun _ _ => ⟨rfl, trivial⟩, by simp⟩

end Machine

namespace Watch

variable {α : Type} {w : Watch} {trouble : Trouble Stop → Watch → Prop}

@[simp] theorem meets_modifyMonitor {f : Monitor → Monitor} {post : Unit → Watch → Prop} :
    (modifyMonitor f).Meets w post trouble ↔ post () { w with monitor := f w.monitor } :=
  Act.meets_modify

@[simp] theorem meets_setState {state : Monitor.State} {post : Unit → Watch → Prop} :
    (setState state).Meets w post trouble ↔
      post () { w with monitor := { w.monitor with state := state } } := meets_modifyMonitor

@[simp] theorem meets_fail {cause : Failure} {post : α → Watch → Prop} :
    (fail cause : Op α).Meets w post trouble ↔ trouble (.error (.failure cause)) w := Act.meets_fail

@[simp] theorem meets_halt {cause : Halt} {post : α → Watch → Prop} :
    (halt cause : Op α).Meets w post trouble ↔ trouble (.error (.halt cause)) w := Act.meets_fail

@[simp] theorem meets_onMachine_ask {call : Kernel.Call}
    {post : Option Kernel.Answer → Watch → Prop} :
    (onMachine (Machine.ask call)).Meets w post trouble ↔
      post (w.kernel.ask call).1 { w with toMachine := w.toMachine.called call } := by
  unfold onMachine
  rw [Act.meets_focus, Act.meets_mapError, Machine.meets_ask]
  rfl

@[simp] theorem meets_onMachine_log {level : Log.Level} {site : Log.Site} {text : String}
    {post : Unit → Watch → Prop} :
    (onMachine (Machine.log level site text)).Meets w post trouble ↔
      post () { w with journal := w.journal.add level site text } := by
  unfold onMachine Machine.log
  rw [Act.meets_focus, Act.meets_mapError, Act.meets_modify]
  rfl

theorem meets_request {act : Act Machine Errno Machine.Return}
    {post : Except Errno Machine.Return → Watch → Prop} :
    (request act).Meets w post trouble ↔ act.Meets w.toMachine
      (fun r m => post (.ok r) { w with toMachine := m })
      (fun e m => match e with
        | .fault cause => trouble (.fault cause) { w with toMachine := m }
        | .error errno => post (.error errno) { w with toMachine := m }) := by
  unfold request
  rw [Act.meets_focus, Act.meets_attempt]
  obtain ⟨m, monitor⟩ := w
  unfold Act.Meets machine
  rcases act.on m with ⟨(_ | _) | _, _⟩ <;> rfl

end Watch

end Rewind
