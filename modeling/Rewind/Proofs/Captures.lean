import Rewind.Proofs.Capacity
import Rewind.Proofs.Frames
import Rewind.Snapshot

/-! Captures: what capturing a page adds to a snapshot, and what looking a page up finds. -/
namespace Rewind.Snapshot

/-- The two tables go together: a page of bytes for each address. -/
structure Whole (s : Snapshot) : Prop where
  pageSize : s.pageSize = Page.size
  data : s.data.size = s.addresses.size * Page.size
  addressesFit : s.addresses.Fits
  dataFit : s.data.Fits

theorem whole_new : (Snapshot.new Page.size).Whole :=
  ⟨rfl, rfl, PrivateArray.fits_empty, PrivateArray.fits_empty⟩

theorem Whole.clear {s : Snapshot} (h : s.Whole) : s.clear.Whole :=
  ⟨h.pageSize, by simp [Snapshot.clear, PrivateArray.size], h.addressesFit.clear, h.dataFit.clear⟩

@[simp] theorem addresses_clear (s : Snapshot) : s.clear.addresses.items = #[] := rfl

@[simp] theorem size_clear (s : Snapshot) : s.clear.size = 0 := rfl

theorem Whole.le_data {s : Snapshot} (h : s.Whole) {i : Nat} (hi : i < s.size) :
    (i + 1) * Page.size ≤ s.data.items.size := by
  have := h.data
  rw [PrivateArray.size] at this
  rw [this]
  exact Nat.mul_le_mul_right _ hi

theorem Whole.size_content {s : Snapshot} (h : s.Whole) {i : Nat} (hi : i < s.size) :
    (s.content i).size = Page.size := by
  have hle := h.le_data hi
  rw [content, h.pageSize, Array.size_extract, Nat.min_eq_left hle, Nat.succ_mul,
    Nat.add_sub_cancel_left]

/-- A capture of the page at an address has been added, and those before it are as they were. -/
structure Adds (page : Nat) (bytes : Array UInt8) (s s' : Snapshot) : Prop where
  addresses : s'.addresses.items = s.addresses.items.push page
  data : s'.data.items = s.data.items ++ bytes
  pageSize : s'.pageSize = s.pageSize

theorem Adds.size {page : Nat} {bytes : Array UInt8} {s s' : Snapshot} (h : s.Adds page bytes s') :
    s'.size = s.size + 1 := by
  simp [Snapshot.size, PrivateArray.size, h.addresses]

theorem Adds.content_of_lt {page : Nat} {bytes : Array UInt8} {s s' : Snapshot}
    (h : s.Adds page bytes s') (hs : s.Whole) {i : Nat} (hi : i < s.size) :
    s'.content i = s.content i := by
  have hle := hs.le_data hi
  unfold content
  rw [h.data, h.pageSize, hs.pageSize, Array.extract_append]
  simp [Nat.sub_eq_zero_of_le hle]

theorem Adds.content_size {page : Nat} {bytes : Array UInt8} {s s' : Snapshot}
    (h : s.Adds page bytes s') (hs : s.Whole) (hb : bytes.size = Page.size) :
    s'.content s.size = bytes := by
  have hd : s.size * Page.size = s.data.items.size := hs.data.symm
  unfold content
  rw [h.data, h.pageSize, hs.pageSize, Array.extract_append, Nat.add_mul, Nat.one_mul, hd]
  simp [← hb]

theorem get?_eq_none_iff {s : Snapshot} {page : Nat} :
    s.get? page = none ↔ page ∉ s.addresses.items := by
  simp only [get?, Option.map_eq_none_iff, Array.findIdx?_eq_none_iff, beq_eq_false_iff_ne]
  exact ⟨fun h hp => h page hp rfl, fun h x hx e => h (e ▸ hx)⟩

theorem get?_getElem {s : Snapshot} (hd : s.addresses.items.toList.Nodup) {i : Nat}
    (hi : i < s.addresses.items.size) : s.get? s.addresses.items[i] = some (s.content i) := by
  have hf : s.addresses.items.findIdx? (· == s.addresses.items[i]) = some i := by
    rw [Array.findIdx?_eq_some_iff_getElem]
    refine ⟨hi, by simp, fun j hj => ?_⟩
    have hne : s.addresses.items[j] ≠ s.addresses.items[i] := fun e =>
      hj.ne ((List.Nodup.getElem_inj_iff hd).mp (by simpa using e))
    simpa using hne
  rw [get?, hf, Option.map_some]

theorem map_fst_toList (s : Snapshot) : s.toList.map Prod.fst = s.addresses.items.toList := by
  apply List.ext_getElem?
  intro i
  simp [toList, Option.map_map, Function.comp_def]

theorem get_of_getElem_toList {s : Snapshot} {i page : Nat} {bytes : Array UInt8}
    {hi : i < s.toList.length} (h : s.toList[i] = (page, bytes)) :
    s.addresses.get i = .ok page ∧ s.content i = bytes := by
  have hlt : i < s.addresses.items.size := by simpa [toList] using hi
  simp only [toList, List.getElem_mapIdx, Array.getElem_toList, Prod.mk.injEq] at h
  rw [PrivateArray.get, Array.getElem?_eq_getElem hlt]
  exact ⟨congrArg _ h.1, h.2⟩

theorem mem_toList {s : Snapshot} {c : Nat × Array UInt8} (h : c ∈ s.toList) :
    ∃ i, ∃ hi : i < s.addresses.items.size, c = (s.addresses.items[i], s.content i) := by
  obtain ⟨i, hi, rfl⟩ := List.mem_mapIdx.mp h
  exact ⟨i, by simpa using hi, by simp⟩

/-- A page that was captured before is found as before; of the others only the new one is found. -/
theorem Adds.get? {page : Nat} {bytes : Array UInt8} {s s' : Snapshot}
    (h : s.Adds page bytes s') (hs : s.Whole) (hb : bytes.size = Page.size) (q : Nat) :
    s'.get? q = (s.get? q).or (if q = page then some bytes else none) := by
  unfold Snapshot.get?
  rw [h.addresses, Array.findIdx?_push]
  cases hf : s.addresses.items.findIdx? (· == q) with
  | some i =>
    obtain ⟨hi, -⟩ := Array.findIdx?_eq_some_iff_getElem.mp hf
    simp [h.content_of_lt hs hi]
  | none =>
    by_cases hq : q = page
    · subst hq
      have := h.content_size hs hb
      simpa [Snapshot.size, PrivateArray.size] using this
    · simp [hq, Ne.symm hq]

theorem Adds.get?_of_mem {page : Nat} {bytes : Array UInt8} {s s' : Snapshot}
    (h : s.Adds page bytes s') (hs : s.Whole) (hb : bytes.size = Page.size) {q : Nat}
    (hq : q ∈ s.addresses.items) : s'.get? q = s.get? q := by
  rw [h.get? hs hb]
  cases hf : s.get? q with
  | some b => rw [Option.some_or]
  | none => exact absurd hq (get?_eq_none_iff.mp hf)

theorem Adds.get?_self {page : Nat} {bytes : Array UInt8} {s s' : Snapshot}
    (h : s.Adds page bytes s') (hs : s.Whole) (hb : bytes.size = Page.size)
    (hnew : page ∉ s.addresses.items) : s'.get? page = some bytes := by
  rw [h.get? hs hb, get?_eq_none_iff.mpr hnew, Option.none_or, if_pos rfl]

theorem reserve_meets {s : Snapshot} (hs : s.Whole) (pages : Nat) :
    (reserve Mapping.refusal pages).Meets s
      (fun _ s' => s'.Whole ∧ s'.addresses.items = s.addresses.items)
      (fun _ s' => s'.Whole ∧ s'.addresses.items = s.addresses.items) := by
  have hdata (v : PrivateArray Nat 8) (hv : v.items = s.addresses.items) (hf : v.Fits)
      (d : PrivateArray UInt8 1) (hd : d.items = s.data.items) (hdf : d.Fits) :
      (Snapshot.mk s.pageSize v d).Whole :=
    ⟨hs.pageSize, by simpa only [PrivateArray.size, hv, hd] using hs.data, hf, hdf⟩
  simp only [reserve, Act.meets_bind, Act.meets_get, Act.meets_faulty, Act.meets_focus]
  apply (PrivateArray.reserve_meets (by decide) hs.addressesFit pages).mono
  · intro _ v hpost
    obtain ⟨hv, -, -, hf, -⟩ := hpost
    refine ⟨fun bytes _ => ?_, fun _ _ => ⟨hdata v hv hf _ rfl hs.dataFit, hv⟩⟩
    apply (PrivateArray.reserve_meets (by decide) hs.dataFit bytes).mono
    · intro _ d hpost
      obtain ⟨hd, -, -, hdf, -⟩ := hpost
      exact ⟨hdata v hv hf d hd hdf, hv⟩
    · rintro _ d rfl
      exact ⟨hdata v hv hf _ rfl hs.dataFit, hv⟩
  · rintro _ v rfl
    exact ⟨hs, rfl⟩

/-- A capture adds the page as it is in memory, or leaves all captures as they were. -/
theorem capture_meets {s : Snapshot} (hs : s.Whole) (m : Memory) (n : Nat) :
    (capture Mapping.refusal m (n * Page.size)).Meets s
      (fun _ s' => s'.Whole ∧ s.Adds (n * Page.size) (m.read (n * Page.size) Page.size) s')
      (fun _ s' => s'.addresses.items = s.addresses.items ∧ s'.data.items = s.data.items) := by
  obtain ⟨bytes, hbytes⟩ : ∃ bytes, m.read (n * Page.size) Page.size = bytes := ⟨_, rfl⟩
  have hread : m.read (n * Page.size) s.pageSize = bytes := by rw [hs.pageSize, hbytes]
  have hsize : bytes.size = Page.size := by rw [← hbytes, Memory.size_read]
  simp only [capture, Act.meets_bind, Act.meets_get, Act.meets_faulty, Act.meets_focus, hread,
    hbytes]
  refine ⟨fun _ _ => ?_, fun _ _ => ⟨trivial, trivial⟩⟩
  have room := PrivateArray.reserve_meets (by decide) hs.dataFit s.pageSize
  refine room.mono ?_ fun e d h => ⟨rfl, by rw [h]; rfl⟩
  intro _ data hpost
  obtain ⟨hdata, hdroom, -, hdfit, -⟩ := hpost
  have place := PrivateArray.reserve_meets (by decide) hs.addressesFit 1
  refine place.mono ?_ fun e a h => ⟨by rw [h]; rfl, hdata⟩
  intro _ addresses hpost
  obtain ⟨haddresses, haroom, -, hafit, -⟩ := hpost
  have copy := PrivateArray.extend_meets (by decide) hdfit bytes
  refine copy.mono ?_ fun e d h => ⟨haddresses, by rw [h]; exact hdata⟩
  intro _ data' hpost
  obtain ⟨hdata', -, hdfit', -⟩ := hpost
  have hroom : addresses.size < addresses.capacity := by
    simp only [PrivateArray.size, haddresses] at haroom ⊢
    omega
  have note := PrivateArray.push_isOk Mapping.refusal hroom (n * Page.size)
  have fits := ((PrivateArray.push_meets (by decide) hafit (n * Page.size)).ok note).2.2.1
  refine (Act.meets_of_ok note).mpr ⟨⟨hs.pageSize, ?_, fits, hdfit'⟩, ?_, ?_, rfl⟩
  · show data'.items.size = (addresses.items.push _).size * Page.size
    have hold := hs.data
    simp only [PrivateArray.size] at hold
    rw [hdata', hdata, haddresses, Array.size_append, Array.size_push, Nat.add_mul, ← hold, hsize,
      Nat.one_mul]
  · show addresses.items.push _ = _
    rw [haddresses]
  · show data'.items = _
    rw [hdata', hdata]

theorem capture_isOk {s : Snapshot} (hs : s.Whole) {m : Memory} {n : Nat}
    (h : 2 * ((s.size + 1) * Page.size) + 3 * Page.size ≤ Mapping.limit) :
    (capture Mapping.refusal m (n * Page.size)).Meets s (fun _ _ => True) fun _ _ => False := by
  have aligned : s.checkAligned (n * Page.size) = .ok () := by
    unfold checkAligned
    rw [hs.pageSize, if_neg Page.size_pos.ne', if_pos (Nat.mul_mod_left _ _)]
  have hbytes : 2 * (s.data.size + s.pageSize) * 1 + 3 * Page.size ≤ Mapping.limit := by
    rw [hs.data, hs.pageSize, Nat.mul_one, ← Nat.succ_mul]
    exact h
  have hplace : 2 * (s.addresses.size + 1) * 8 + 3 * Page.size ≤ Mapping.limit := by
    have : (s.addresses.size + 1) * 8 ≤ (s.size + 1) * Page.size :=
      Nat.mul_le_mul_left _ (by decide)
    omega
  simp only [capture, Act.meets_bind, Act.meets_get, Act.meets_faulty, Act.meets_focus, aligned]
  refine ⟨fun _ _ => ?_, by simp⟩
  have room := PrivateArray.reserve_isOk (by decide) hbytes
  refine ((PrivateArray.reserve_meets (by decide) hs.dataFit _).and room).mono ?_ fun e d h => h.2
  intro _ data hpost
  obtain ⟨⟨hdata, -, -, -, -⟩, -⟩ := hpost
  have place := PrivateArray.reserve_isOk (by decide) hplace
  refine ((PrivateArray.reserve_meets (by decide) hs.addressesFit _).and place).mono ?_
    fun e a h => h.2
  intro _ addresses hpost
  obtain ⟨⟨haddresses, haroom, -, -, -⟩, -⟩ := hpost
  have copy := PrivateArray.extend_isOk (by decide) data
    (m.read (n * Page.size) s.pageSize) (by
      simpa only [PrivateArray.size, hdata, Memory.size_read] using hbytes)
  refine copy.mono ?_ fun e d h => h
  intro _ data' _
  have hroom : addresses.size < addresses.capacity := by
    simp only [PrivateArray.size, haddresses] at haroom ⊢
    omega
  exact (Act.meets_of_ok (PrivateArray.push_isOk Mapping.refusal hroom (n * Page.size))).mpr trivial

end Rewind.Snapshot
