import Rewind.Proofs.Capacity

/-! Growth of arrays: whatever is asked of an array and whichever mappings are refused, it holds the
list that the granted requests describe, in whole pages that at least double when it moves. What
was reserved can be added without a move. -/
namespace Rewind

theorem Word.add_eq_error {a b : Nat} {f : Fault} (h : Word.add a b = .error f) :
    f = .overflow .add := by
  unfold Word.add at h
  split at h
  · cases h
  · exact (Except.error.inj h).symm

theorem Word.mul_eq_error {a b : Nat} {f : Fault} (h : Word.mul a b = .error f) :
    f = .overflow .multiply := by
  unfold Word.mul at h
  split at h
  · cases h
  · exact (Except.error.inj h).symm

theorem Page.ceil_eq_error {x : Nat} {f : Fault} (h : Page.ceil x = .error f) :
    f = .overflow .add := by
  unfold Page.ceil at h
  cases hadd : Word.add x size with
  | ok y => simp [hadd, Except.map] at h
  | error g =>
    simp only [hadd, Except.map, Except.error.injEq] at h
    exact h ▸ Word.add_eq_error hadd

theorem Mapping.guard_new {refusal : Refusal} {length : Nat} {m : Mapping}
    (h : Mapping.new refusal length = .ok m) : m.guard = 0 := by
  rw [new_eq] at h
  split at h
  · cases h
  · split at h
    · cases h
    · exact Except.ok.inj h ▸ rfl

/-- Mapping fails by a refusal or because the bytes cannot be counted. -/
theorem Mapping.new_eq_error {refusal : Refusal} {length : Nat} {e : Trouble Errno}
    (h : Mapping.new refusal length = .error e) :
    (∃ errno total, e = .error errno ∧ refusal total = some errno) ∨
      ∃ operation, e = .fault (.overflow operation) := by
  rw [new_eq] at h
  split at h
  · next hc =>
    obtain rfl := Page.ceil_eq_error hc
    exact .inr ⟨.add, (Except.error.inj h).symm⟩
  · next total _ =>
    split at h
    · next errno hr => exact .inl ⟨errno, total, (Except.error.inj h).symm, hr⟩
    · cases h

namespace PrivateArray

variable {α : Type} {width : Nat}

theorem doubleUntil_eq_error {needed capacity : Nat} {f : Fault}
    (h : doubleUntil needed capacity = .error f) : f = .overflow .multiply := by
  fun_induction doubleUntil needed capacity with
  | case1 capacity hlt hword ih => exact ih h
  | case2 => exact (Except.error.inj h).symm
  | case3 => cases h

theorem nextCapacity_eq_error {capacity needed : Nat} {f : Fault}
    (h : nextCapacity width capacity needed = .error f) : ∃ operation, f = .overflow operation := by
  unfold nextCapacity at h
  cases hd : doubleUntil needed (max capacity (max (Page.size / width) 1)) with
  | error g =>
    simp only [hd, bind, Except.bind, Except.error.injEq] at h
    exact ⟨.multiply, h ▸ doubleUntil_eq_error hd⟩
  | ok enough =>
    cases hm : Word.mul enough width with
    | error g =>
      simp only [hd, hm, bind, Except.bind, Except.error.injEq] at h
      exact ⟨.multiply, h ▸ Word.mul_eq_error hm⟩
    | ok bytes =>
      cases hc : Page.ceil bytes with
      | error g =>
        simp only [hd, hm, hc, bind, Except.bind, Except.error.injEq] at h
        exact ⟨.add, h ▸ Page.ceil_eq_error hc⟩
      | ok whole => simp [hd, hm, hc, bind, Except.bind, pure, Except.pure] at h

/-- Why a request comes to nothing: a mapping was refused, or twice the bytes that are needed and
three pages are more than can be counted. -/
inductive Denied (refusal : Refusal) (bytes : Nat) : Trouble Errno → Prop
  | refused {errno : Errno} {total : Nat} : refusal total = some errno →
      Denied refusal bytes (.error errno)
  | overflow {operation : Operation} : Word.limit ≤ 2 * bytes + 3 * Page.size →
      Denied refusal bytes (.fault (.overflow operation))

theorem reserve_trouble_meets (refusal : Refusal) (v : PrivateArray α width) (k : Nat) :
    (reserve refusal k).Meets v (fun _ _ => True) fun e _ =>
      (∃ errno total, e = .error errno ∧ refusal total = some errno) ∨
        ∃ operation, e = .fault (.overflow operation) := by
  simp only [reserve, Act.meets_bind, Act.meets_get, Act.meets_faulty, Act.meets_ite,
    Act.meets_outcome, Act.meets_modify, Act.meets_pure]
  refine ⟨fun needed _ => ⟨fun _ => ⟨fun doubled _ => ⟨fun capacity _ => ⟨fun bytes _ =>
    ⟨fun _ _ => trivial, fun e he => Mapping.new_eq_error he⟩, ?_⟩, ?_⟩, ?_⟩, fun _ => trivial⟩, ?_⟩
  · exact fun f hf => .inr ⟨.multiply, by rw [Word.mul_eq_error hf]⟩
  · intro f hf
    obtain ⟨operation, rfl⟩ := nextCapacity_eq_error hf
    exact .inr ⟨operation, rfl⟩
  · exact fun f hf => .inr ⟨.multiply, by rw [Word.mul_eq_error hf]⟩
  · exact fun f hf => .inr ⟨.add, by rw [Word.add_eq_error hf]⟩

theorem reserve_denied_meets (hw : 0 < width) (refusal : Refusal) (v : PrivateArray α width)
    (k : Nat) : (reserve refusal k).Meets v (fun _ _ => True)
      fun e _ => Denied refusal ((v.size + k) * width) e := by
  by_cases hbig : Word.limit ≤ 2 * ((v.size + k) * width) + 3 * Page.size
  · apply (reserve_trouble_meets refusal v k).mono (fun _ _ h => h)
    intro _ _ hpost
    rcases hpost with ⟨errno, total, rfl, hr⟩ | ⟨operation, rfl⟩
    · exact .refused hr
    · exact .overflow hbig
  · rw [← Nat.mul_assoc, not_le] at hbig
    apply (reserve_refused_meets hw refusal hbig).mono (fun _ _ h => h)
    intro _ _ hpost
    obtain ⟨errno, total, rfl, hr, -⟩ := hpost
    exact .refused hr

/-- What can be asked of an array. -/
inductive Request (α : Type) where
  | push (x : α)
  | extend (xs : Array α)
  | reserve (additional : Nat)
  | clear

namespace Request

def act (refusal : Refusal) : Request α → Act (PrivateArray α width) Errno Unit
  | push x => PrivateArray.push refusal x
  | extend xs => PrivateArray.extend refusal xs
  | reserve k => PrivateArray.reserve refusal k
  | clear => modify PrivateArray.clear

/-- The list that is left of one when the request is granted. -/
def onList : Request α → List α → List α
  | push x, l => l ++ [x]
  | extend xs, l => l ++ xs.toList
  | reserve _, l => l
  | clear, _ => []

/-- How many further elements there has to be room for. -/
def room : Request α → Nat
  | push _ => 1
  | extend xs => xs.size
  | reserve k => k
  | clear => 0

/-- The request adds elements and does nothing else. -/
def Adds : Request α → Prop
  | push _ => True
  | extend _ => True
  | reserve _ => False
  | clear => False

end Request

/-- The elements are in the capacity, and the capacity is in a mapping of whole pages. -/
structure Backed (v : PrivateArray α width) : Prop where
  size_le : v.size ≤ v.capacity
  unmapped : v.mapping = none → v.capacity = 0
  mapped : ∀ m, v.mapping = some m → m.guard = 0 ∧ Page.IsAligned m.total ∧
    m.total < Word.limit ∧ v.capacity * width ≤ m.total

/-- Other elements that are no more than the capacity are backed as well. -/
theorem Backed.items {v : PrivateArray α width} (h : v.Backed) {xs : Array α}
    (hxs : xs.size ≤ v.capacity) : ({ v with items := xs } : PrivateArray α width).Backed :=
  ⟨hxs, h.unmapped, h.mapped⟩

theorem Backed.grown {v v' : PrivateArray α width} {refusal : Refusal} {k : Nat} (h : v.Backed)
    (hg : Grown refusal k v v') : v'.Backed := by
  cases hg with
  | stays => exact h
  | @moves capacity m hlt hroom hdouble hm =>
    obtain ⟨hle, hceil, -⟩ := Mapping.new_spec hm
    constructor
    · exact (Nat.le_add_right v.size k).trans hroom
    · exact fun hnone => absurd hnone (by simp)
    · intro m' hm'
      obtain rfl := Option.some.inj hm'
      obtain ⟨-, hlt, haligned⟩ := Page.ceil_spec hceil
      exact ⟨Mapping.guard_new hm, haligned, hlt.trans (Page.ceil_eq_ok_iff.mp hceil).1, hle⟩

theorem Grown.items {v v' : PrivateArray α width} {refusal : Refusal} {k : Nat}
    (hg : Grown refusal k v v') : v'.items = v.items := by
  cases hg <;> rfl

theorem Grown.room {v v' : PrivateArray α width} {refusal : Refusal} {k : Nat}
    (hg : Grown refusal k v v') : v.size + k ≤ v'.capacity := by
  cases hg with
  | stays hroom => exact hroom
  | moves _ hroom => exact hroom

/-- The capacity and its place stay, or the array has moved to a mapping that was not refused and
holds at least twice as much. -/
inductive Moved (refusal : Refusal) (v v' : PrivateArray α width) : Prop
  | stays : v'.mapping = v.mapping → v'.capacity = v.capacity → Moved refusal v v'
  | moves {m : Mapping} : v.capacity * 2 ≤ v'.capacity → v'.mapping = some m →
      refusal m.total = none → Moved refusal v v'

theorem Grown.moved {v v' : PrivateArray α width} {refusal : Refusal} {k : Nat}
    (hg : Grown refusal k v v') : Moved refusal v v' := by
  cases hg with
  | stays => exact .stays rfl rfl
  | moves _ _ hdouble hm => exact .moves hdouble rfl (Mapping.new_spec hm).2.2

theorem reserve_step_meets (hw : 0 < width) (refusal : Refusal) (v : PrivateArray α width)
    (k : Nat) : (reserve refusal k).Meets v (fun _ v' => Grown refusal k v v')
      fun e v' => v' = v ∧ Denied refusal ((v.size + k) * width) e :=
  ((reserve_grown_meets hw refusal v k).and (reserve_denied_meets hw refusal v k)).mono
    (fun _ _ h => h.1) fun _ _ h => h

/-- An array and the list that it stands for, after one more request. -/
def after (s : PrivateArray α width × List α) (step : Request α × Refusal) :
    PrivateArray α width × List α :=
  match (step.1.act step.2).on s.1 with
  | (.ok _, v) => (v, step.1.onList s.2)
  | (.error _, v) => (v, s.2)

/-- An array and its list after requests to an empty one, each with what the kernel refuses. -/
def history (steps : List (Request α × Refusal)) : PrivateArray α width × List α :=
  steps.foldl after (empty, [])

theorem reserve_of_room {v : PrivateArray α width} (h : v.capacity < Word.limit)
    (refusal : Refusal) {k : Nat} (hroom : v.size + k ≤ v.capacity) :
    (reserve refusal k).on v = (.ok (), v) := by
  have hadd : Word.add v.size k = .ok (v.size + k) :=
    Word.add_eq_ok_iff.mpr ⟨hroom.trans_lt h, rfl⟩
  simp [Act.on_eq_ok_iff, reserve, hadd, hroom.not_gt]

end PrivateArray
end Rewind
