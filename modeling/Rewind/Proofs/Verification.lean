import Rewind.Proofs.Capacity
import Rewind.Proofs.Frames
import Rewind.Schedule.Checksums

/-! Checksums of regions: taking them fails only for want of memory, and memory that reads the same
never differs from them. -/
namespace Rewind.Checksums

variable [Digest]

/-- The table holds the checksums of these regions as they are in a memory. -/
def Holds (sums : Checksums) (memory : Memory) (slots : List Slot) : Prop :=
  sums.items.toList = slots.map (entry memory)

/-- Taking checksums gives one for each region. It cannot fail while twice their bytes can be
mapped. -/
theorem take_meets {sums : Checksums} (hf : sums.Fits) (memory : Memory) (slots : List Slot) :
    (take memory slots).Meets sums (fun _ sums' => sums'.Holds memory slots ∧ sums'.Fits)
      (fun _ sums' => sums'.Fits ∧ Mapping.limit < 2 * slots.length * 4 + 3 * Page.size) := by
  have hreserve := PrivateArray.reserve_meets (by decide) hf.clear slots.length
  have hroom : (PrivateArray.reserve Mapping.refusal slots.length).Meets sums.clear
      (fun _ _ => True) (fun _ _ => Mapping.limit < 2 * slots.length * 4 + 3 * Page.size) := by
    by_cases h : Mapping.limit < 2 * slots.length * 4 + 3 * Page.size
    · exact (Act.meets_self _ _).mono (fun _ _ _ => trivial) fun _ _ _ => h
    · have hsafe := PrivateArray.reserve_isOk (v := sums.clear) (k := slots.length) (by decide)
        (by simpa [PrivateArray.size] using h)
      exact hsafe.mono (fun _ _ h => h) fun _ _ he => he.elim
  simp only [take, Act.meets_bind, Act.meets_modify]
  apply (hreserve.and hroom).mono
  · intro _ v hpost
    obtain ⟨⟨hitems, hcap, -, hfit, -⟩, -⟩ := hpost
    have hpush := PrivateArray.pushAll_isOk (v := v) Mapping.refusal (slots.map (entry memory)) (by
        simpa [PrivateArray.size, hitems] using hcap)
    refine (Act.meets_of_ok hpush).mpr ⟨?_, ?_, hfit.bytes_le⟩
    · simp [Holds, hitems]
    · simpa [PrivateArray.size, hitems] using hcap
  · intro _ _ hpost
    obtain ⟨rfl, h⟩ := hpost
    exact ⟨hf.clear, h⟩

theorem mismatch?_eq_none {sums : Checksums} {memory memory' : Memory} {slots : List Slot}
    (h : sums.Holds memory slots) (hb : ∀ x, memory'.byte x = memory.byte x) :
    mismatch? memory' slots sums = none := by
  have hread (x length : Nat) : memory'.read x length = memory.read x length := by
    simp only [Memory.read_eq, hb]
  simp only [mismatch?, Option.map_eq_none_iff, List.find?_eq_none]
  intro row hrow
  rw [h, ← List.map_prod_left_eq_zip] at hrow
  obtain ⟨slot, -, rfl⟩ := List.mem_map.mp hrow
  cases hr : slot.access.readable <;> simp [differs, entry, ofSlot, hr, hread]

end Rewind.Checksums
