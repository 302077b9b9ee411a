import Rewind.Proofs.Conversion
import Rewind.Proofs.Growth
import Rewind.Proofs.Histories

/-! Recordings: a snapshot stands for the list of its captures since it was last cleared, for pages
of any size and whatever was written in between. A page is found with the bytes of its first
capture, and replaying brings it back to them. -/
namespace Rewind

/-- Of blocks of the same size behind one another, the one with a given number. -/
theorem take_drop_flatMap {α β : Type} {f : α → List β} {l : List α} {size : Nat}
    (h : ∀ a ∈ l, (f a).length = size) {i : Nat} (hi : i < l.length) :
    ((l.flatMap f).drop (i * size)).take size = f l[i] := by
  induction l generalizing i with
  | nil => simp at hi
  | cons a l ih =>
    obtain ⟨ha, hrest⟩ := List.forall_mem_cons.mp h
    cases i with
    | zero => simp [← ha]
    | succ i =>
      have hskip : (i + 1) * size = (f a).length + i * size := by
        rw [ha, Nat.succ_mul, Nat.add_comm]
      rw [List.flatMap_cons, hskip, List.drop_length_add_append]
      exact ih hrest (Nat.lt_of_succ_lt_succ hi)

/-- There is a page of this size at an address: a multiple of the size with mapped bytes. -/
structure Memory.HasPage (m : Memory) (size page : Nat) : Prop where
  pos : 0 < size
  aligned : size ∣ page
  mapped : ∀ n ∈ Page.numbers page size, m.isMapped n = true

namespace Snapshot

/-- Histories of a snapshot for pages of this size, beside the memory as it is now and the captures
since the snapshot was last cleared. Each call comes with what the kernel refuses at the time. -/
inductive Recorded (size : Nat) : Memory → Snapshot → List (Nat × Array UInt8) → Prop
  | new (m : Memory) : Recorded size m (Snapshot.new size) []
  | write {m : Memory} {s : Snapshot} {captures : List (Nat × Array UInt8)}
      (start : Nat) (bytes : Array UInt8) : Recorded size m s captures →
      Recorded size (m.write start bytes) s captures
  | capture {m : Memory} {s s' : Snapshot} {captures : List (Nat × Array UInt8)}
      {refusal : Refusal} {page : Nat} : Recorded size m s captures → m.HasPage size page →
      (Snapshot.capture refusal m page).on s = (.ok (), s') →
      Recorded size m s' (captures ++ [(page, m.read page size)])
  | denied {m : Memory} {s s' : Snapshot} {captures : List (Nat × Array UInt8)}
      {refusal : Refusal} {page : Nat} {e : Trouble Errno} : Recorded size m s captures →
      (Snapshot.capture refusal m page).on s = (.error e, s') → Recorded size m s' captures
  | reserve {m : Memory} {s s' : Snapshot} {captures : List (Nat × Array UInt8)}
      {refusal : Refusal} {pages : Nat} {answer : Outcome Errno Unit} :
      Recorded size m s captures → (Snapshot.reserve refusal pages).on s = (answer, s') →
      Recorded size m s' captures
  | replay {m : Memory} {s : Snapshot} {captures : List (Nat × Array UInt8)} :
      Recorded size m s captures → Recorded size (s.replay m) s captures
  | clear {m : Memory} {s : Snapshot} {captures : List (Nat × Array UInt8)} :
      Recorded size m s captures → Recorded size m s.clear []

variable {size : Nat} {m : Memory} {s s' : Snapshot} {captures : List (Nat × Array UInt8)}

theorem lookup_mapIdx (pages : List Nat) (content : Nat → Array UInt8) (page : Nat) :
    (pages.mapIdx fun i page => (page, content i)).lookup page =
      (pages.findIdx? (· == page)).map content := by
  induction pages generalizing content with
  | nil => rfl
  | cons first pages ih =>
    rw [List.mapIdx_cons, List.lookup_cons, List.findIdx?_cons, ih fun i => content (i + 1)]
    by_cases h : first = page
    · simp [h]
    · have hne : (page == first) = false := beq_eq_false_iff_ne.mpr (Ne.symm h)
      simp [h, hne, Option.map_map, Function.comp_def]

/-- Looking a page up finds its first capture. -/
theorem get?_eq_lookup (s : Snapshot) (page : Nat) : s.get? page = s.toList.lookup page := by
  rw [get?, toList, lookup_mapIdx, List.findIdx?_toArray]

/-- The tables hold these captures in order: the address of each, and a page of bytes for each. -/
structure Holds (s : Snapshot) (captures : List (Nat × Array UInt8)) : Prop where
  addresses : s.addresses.items.toList = captures.map Prod.fst
  data : s.data.items.toList = captures.flatMap fun c => c.2.toList
  sized : ∀ c ∈ captures, c.2.size = s.pageSize

theorem Holds.length (h : s.Holds captures) : captures.length = s.size := by
  rw [Snapshot.size, PrivateArray.size, ← Array.length_toList, h.addresses, List.length_map]

theorem Holds.content (h : s.Holds captures) {i : Nat} (hi : i < captures.length) :
    s.content i = captures[i].2 := by
  have hsized : ∀ c ∈ captures, c.2.toList.length = s.pageSize := h.sized
  have hblock := take_drop_flatMap hsized hi
  rw [← Array.toList_inj, Snapshot.content, Array.toList_extract, h.data, List.extract, ← hblock,
    Nat.succ_mul, Nat.add_sub_cancel_left]

theorem Holds.toList (h : s.Holds captures) : s.toList = captures := by
  apply List.ext_getElem
  · rw [length_toList, h.length]
  · intro i _ hi
    simp only [Snapshot.toList, List.getElem_mapIdx, h.addresses, List.getElem_map, h.content hi]

theorem holds_new (size : Nat) : (Snapshot.new size).Holds [] :=
  ⟨rfl, rfl, nofun⟩

theorem Holds.clear (s : Snapshot) : s.clear.Holds [] := ⟨rfl, rfl, nofun⟩

/-- The captures are the same, in tables that may have room for more. -/
structure SameItems (s s' : Snapshot) : Prop where
  addresses : s'.addresses.items = s.addresses.items
  data : s'.data.items = s.data.items
  pageSize : s'.pageSize = s.pageSize

theorem Holds.of_sameItems (h : s.Holds captures) (hs : s.SameItems s') : s'.Holds captures := by
  constructor
  · rw [hs.addresses, h.addresses]
  · rw [hs.data, h.data]
  · rw [hs.pageSize]
    exact h.sized

theorem Holds.adds (h : s.Holds captures) {page : Nat} {bytes : Array UInt8}
    (hs : s.Adds page bytes s') (hb : bytes.size = s.pageSize) :
    s'.Holds (captures ++ [(page, bytes)]) := by
  constructor
  · simp [hs.addresses, h.addresses]
  · simp [hs.data, h.data]
  · intro c hc
    rw [List.mem_append, List.mem_singleton] at hc
    rw [hs.pageSize]
    rcases hc with hc | rfl
    · exact h.sized c hc
    · exact hb

theorem reserve_same_meets (refusal : Refusal) (s : Snapshot) (pages : Nat) :
    (reserve refusal pages).Meets s (fun _ s' => s.SameItems s') fun _ s' => s.SameItems s' := by
  simp only [reserve, Act.meets_bind, Act.meets_get, Act.meets_faulty, Act.meets_focus]
  apply (PrivateArray.reserve_grown_meets (by decide) refusal s.addresses pages).mono
  · intro _ addresses hgrown
    have haddresses := hgrown.items
    refine ⟨fun bytes _ => ?_, fun _ _ => ⟨haddresses, rfl, rfl⟩⟩
    apply (PrivateArray.reserve_grown_meets (by decide) refusal s.data bytes).mono
    · exact fun _ data hgrown => ⟨haddresses, hgrown.items, rfl⟩
    · exact fun _ data h => ⟨haddresses, congrArg _ h, rfl⟩
  · exact fun _ addresses h => ⟨congrArg _ h, rfl, rfl⟩

/-- Why there is no room for one more capture. -/
def Denied (s : Snapshot) (refusal : Refusal) (e : Trouble Errno) : Prop :=
  PrivateArray.Denied refusal ((s.data.size + s.pageSize) * 1) e ∨
    PrivateArray.Denied refusal ((s.addresses.size + 1) * 8) e

theorem checkAligned_eq_ok_iff {page : Nat} :
    s.checkAligned page = .ok () ↔ 0 < s.pageSize ∧ s.pageSize ∣ page := by
  unfold checkAligned
  split
  · next h => simp [h]
  · next h =>
    split
    · next hp => simp [Nat.pos_of_ne_zero h, Nat.dvd_of_mod_eq_zero hp]
    · next hp => simp [Nat.dvd_iff_mod_eq_zero, hp]

/-- A capture adds the page as it is in memory, or leaves all captures as they were. At the address
of a page it fails only if there is no room for it. -/
theorem capture_adds_meets (refusal : Refusal) (s : Snapshot) (m : Memory) (page : Nat) :
    (capture refusal m page).Meets s
      (fun _ s' => s.Adds page (m.read page s.pageSize) s')
      (fun e s' => s.SameItems s' ∧ (0 < s.pageSize → s.pageSize ∣ page → s.Denied refusal e)) := by
  have hsize : (m.read page s.pageSize).size = s.pageSize := Memory.size_read _ _ _
  simp only [capture, Act.meets_bind, Act.meets_get, Act.meets_faulty, Act.meets_focus]
  refine ⟨fun _ _ => ?_, fun f hf => ⟨⟨rfl, rfl, rfl⟩, fun hpos hdvd => ?_⟩⟩
  · apply (PrivateArray.reserve_step_meets (by decide) refusal s.data s.pageSize).mono
    · intro _ data hdata
      apply (PrivateArray.reserve_step_meets (by decide) refusal s.addresses 1).mono
      · intro _ addresses haddresses
        simp only [PrivateArray.extend, Act.meets_bind, Act.meets_modify]
        have hroom : addresses.size < addresses.capacity := by
          rw [PrivateArray.size, haddresses.items]
          exact haddresses.room
        apply (PrivateArray.reserve_step_meets (by decide) refusal data _).mono
        · intro _ data' hdata'
          refine (Act.meets_of_ok (PrivateArray.push_isOk refusal hroom page)).mpr ⟨?_, ?_, rfl⟩
          · show addresses.items.push page = _
            rw [haddresses.items]
          · show data'.items ++ _ = _
            rw [hdata'.items, hdata.items]
        · rintro e _ ⟨rfl, hdenied⟩
          rw [hsize, PrivateArray.size, hdata.items] at hdenied
          exact ⟨⟨haddresses.items, hdata.items, rfl⟩, fun _ _ => .inl hdenied⟩
      · rintro e _ ⟨rfl, hdenied⟩
        exact ⟨⟨rfl, hdata.items, rfl⟩, fun _ _ => .inr hdenied⟩
    · rintro e _ ⟨rfl, hdenied⟩
      exact ⟨⟨rfl, rfl, rfl⟩, fun _ _ => .inl hdenied⟩
  · have haligned := checkAligned_eq_ok_iff.mpr ⟨hpos, hdvd⟩
    rw [hf] at haligned
    cases haligned

theorem isMapped_foldr_write (captures : List (Nat × Array UInt8)) (m : Memory) (n : Nat) :
    (captures.foldr (fun c m => m.write c.1 c.2) m).isMapped n = m.isMapped n := by
  induction captures with
  | nil => rfl
  | cons c captures ih => rw [List.foldr_cons, Memory.isMapped_write, ih]

/-- Writing pages back, the latest first, leaves at each address what the first capture of its page
holds there. -/
theorem byte_foldr_write (h : ∀ c ∈ captures, m.HasPage size c.1 ∧ c.2.size = size) (x : Nat) :
    (captures.foldr (fun c m => m.write c.1 c.2) m).byte x =
      ((captures.lookup (x / size * size)).map fun bytes => bytes.getD (x % size) 0).getD
        (m.byte x) := by
  induction captures with
  | nil => rfl
  | cons c captures ih =>
    obtain ⟨⟨hpage, hsize⟩, hrest⟩ := List.forall_mem_cons.mp h
    obtain ⟨k, hk⟩ := hpage.aligned
    have hpos := hpage.pos
    have hmapped := hpage.mapped
    rw [List.foldr_cons, Memory.byte_write, Memory.landed, List.lookup_cons]
    · have hdiv := Nat.div_add_mod' x size
      have hmod := Nat.mod_lt x hpos
      by_cases hx : x / size * size = c.1
      · have hoffset : x - c.1 = x % size := by omega
        have hle : c.1 ≤ x := by omega
        simp [hx, hle, hoffset, Array.getD, hsize, hmod]
      · -- Two multiples of the size that differ are at least that far apart.
        have hout : ¬(c.1 ≤ x ∧ x - c.1 < size) := by
          rintro ⟨hle, hlt⟩
          apply hx
          have hk' : x / size = k := by
            rw [Nat.div_eq_iff hpos]
            rw [Nat.mul_comm] at hk
            omega
          rw [hk', hk, Nat.mul_comm]
        have hne : (x / size * size == c.1) = false := beq_eq_false_iff_ne.mpr hx
        rw [ih hrest, hne]
        split
        · next hle =>
          have hge : ¬x - c.1 < c.2.size := fun hlt => hout ⟨hle, hsize ▸ hlt⟩
          rw [Array.getD, dif_neg hge]
        · rfl
    · intro n hn
      rw [hsize] at hn
      rw [isMapped_foldr_write]
      exact hmapped n hn

/-- The snapshot holds captures of pages that there are in this memory. -/
structure Stands (size : Nat) (m : Memory) (s : Snapshot)
    (captures : List (Nat × Array UInt8)) : Prop where
  pageSize : s.pageSize = size
  holds : s.Holds captures
  pages : ∀ c ∈ captures, m.HasPage size c.1

theorem Stands.of_mapped (h : Stands size m s captures) {m' : Memory}
    (hm : ∀ n, m'.isMapped n = m.isMapped n) : Stands size m' s captures := by
  refine ⟨h.pageSize, h.holds, fun c hc => ?_⟩
  obtain ⟨hpos, haligned, hmapped⟩ := h.pages c hc
  exact ⟨hpos, haligned, fun n hn => by rw [hm, hmapped n hn]⟩

theorem Stands.of_sameItems (h : Stands size m s captures) (hs : s.SameItems s') :
    Stands size m s' captures :=
  ⟨hs.pageSize.trans h.pageSize, h.holds.of_sameItems hs, h.pages⟩

theorem isMapped_replay (s : Snapshot) (m : Memory) (n : Nat) :
    (s.replay m).isMapped n = m.isMapped n := isMapped_foldr_write s.toList m n

theorem Recorded.stands (h : Recorded size m s captures) : Stands size m s captures := by
  induction h with
  | new m => exact ⟨rfl, holds_new size, nofun⟩
  | write start bytes _ ih => exact ih.of_mapped (Memory.isMapped_write _ start bytes)
  | @capture m s s' captures refusal page _ hpage hok ih =>
    have hadds := (capture_adds_meets refusal s m page).ok hok
    rw [ih.pageSize] at hadds
    have hread : (m.read page size).size = s.pageSize := by rw [Memory.size_read, ih.pageSize]
    refine ⟨hadds.pageSize.trans ih.pageSize, ih.holds.adds hadds hread, fun c hc => ?_⟩
    rw [List.mem_append, List.mem_singleton] at hc
    rcases hc with hc | rfl
    · exact ih.pages c hc
    · exact hpage
  | denied _ herror ih => exact ih.of_sameItems ((capture_adds_meets _ _ _ _).error herror).1
  | @reserve m s s' captures refusal pages answer _ hon ih =>
    cases answer with
    | ok => exact ih.of_sameItems ((reserve_same_meets refusal s pages).ok hon)
    | error e => exact ih.of_sameItems ((reserve_same_meets refusal s pages).error hon)
  | @replay m s _ _ ih => exact ih.of_mapped (isMapped_replay s m)
  | @clear m s _ _ ih => exact ⟨ih.pageSize, Holds.clear s, nofun⟩

theorem Stands.byte_replay (h : Stands size m s captures) (x : Nat) : (s.replay m).byte x =
    ((s.get? (x / size * size)).map fun bytes => bytes.getD (x % size) 0).getD (m.byte x) := by
  rw [Snapshot.replay, get?_eq_lookup, h.holds.toList]
  apply byte_foldr_write
  intro c hc
  exact ⟨h.pages c hc, (h.holds.sized c hc).trans h.pageSize⟩

theorem Stands.mem_of_get? (h : Stands size m s captures) {page : Nat} {bytes : Array UInt8}
    (hget : s.get? page = some bytes) : (page, bytes) ∈ captures := by
  rw [get?_eq_lookup, h.holds.toList, List.lookup_eq_some_iff] at hget
  obtain ⟨before, after, rfl, -⟩ := hget
  simp

theorem Stands.read_replay (h : Stands size m s captures) {page : Nat} {bytes : Array UInt8}
    (hget : s.get? page = some bytes) : (s.replay m).read page size = bytes := by
  have hmem := h.mem_of_get? hget
  have hsize := (h.holds.sized _ hmem).trans h.pageSize
  have hpos := (h.pages _ hmem).pos
  obtain ⟨k, hk⟩ : size ∣ page := (h.pages _ hmem).aligned
  rw [Memory.read_eq]
  apply Array.ext
  · rw [Array.size_ofFn, hsize]
  · intro i hi hib
    rw [Array.size_ofFn] at hi
    have hdiv : (page + i) / size = k := by
      rw [hk, Nat.mul_add_div hpos, Nat.div_eq_of_lt hi, Nat.add_zero]
    have hmod : (page + i) % size = i := by
      rw [hk, Nat.mul_add_mod, Nat.mod_eq_of_lt hi]
    have hpage : (page + i) / size * size = page := by rw [hdiv, hk, Nat.mul_comm]
    rw [Array.getElem_ofFn, h.byte_replay, hpage, hget, hmod]
    simp [Array.getD, hib]

theorem Stands.byte_replay_of_not_mem (h : Stands size m s captures) {x : Nat}
    (hx : ∀ page ∈ s.addresses.items, ¬(page ≤ x ∧ x < page + size)) :
    (s.replay m).byte x = m.byte x := by
  have hnone : s.get? (x / size * size) = none := by
    rw [get?_eq_none_iff]
    intro hmem
    apply hx _ hmem
    rw [← Array.mem_toList_iff, h.holds.addresses, List.mem_map] at hmem
    obtain ⟨c, hc, -⟩ := hmem
    have hmod := Nat.mod_lt x (h.pages c hc).pos
    have hdiv := Nat.div_add_mod' x size
    omega
  rw [h.byte_replay, hnone, Option.map_none, Option.getD_none]

/-- A snapshot does what its captures say, on the memory as it is now. -/
structure Faithful (size : Nat) (m : Memory) (s : Snapshot)
    (captures : List (Nat × Array UInt8)) : Prop where
  addresses : s.addresses.items.toList = captures.map Prod.fst
  data : s.data.items.toList = captures.flatMap fun c => c.2.toList
  sized : ∀ c ∈ captures, c.2.size = size
  found : ∀ page, s.get? page = captures.lookup page
  replayed : ∀ page bytes, s.get? page = some bytes → (s.replay m).read page size = bytes
  elsewhere : ∀ x, (∀ page ∈ s.addresses.items, ¬(page ≤ x ∧ x < page + size)) →
    (s.replay m).byte x = m.byte x
  again : ∀ x, (s.replay (s.replay m)).byte x = (s.replay m).byte x
  counted : ∀ w : Watch, w.memory = m → w.monitor.snapshot = s → s.Free m →
    Watch.replay.on w = (.ok captures.length, { w with memory := s.replay m })
  capturable : ∀ refusal page, m.HasPage size page → (capture refusal m page).Meets s
    (fun _ s' => s.Adds page (m.read page size) s')
    fun e s' => s.SameItems s' ∧ s.Denied refusal e

/-- After every history a snapshot does what the captures since it was last cleared say. -/
theorem faithful_of_recorded (h : Recorded size m s captures) : Faithful size m s captures := by
  have hstands := h.stands
  constructor
  · exact hstands.holds.addresses
  · exact hstands.holds.data
  · intro c hc
    rw [hstands.holds.sized c hc, hstands.pageSize]
  · intro page
    rw [get?_eq_lookup, hstands.holds.toList]
  · exact fun page bytes hget => hstands.read_replay hget
  · exact fun x hx => hstands.byte_replay_of_not_mem hx
  · intro x
    rw [h.replay.stands.byte_replay, hstands.byte_replay]
    cases s.get? (x / size * size) <;> rfl
  · rintro w rfl rfl hfree
    rw [Watch.replay_of_free hfree, hstands.holds.length]
  · intro refusal page hpage
    have hcapture := capture_adds_meets refusal s m page
    rw [hstands.pageSize] at hcapture
    refine hcapture.mono (fun _ _ hadds => hadds) fun e s' he => ?_
    exact ⟨he.1, he.2 hpage.pos hpage.aligned⟩

theorem not_denied {refusal : Refusal} (hnone : ∀ total, refusal total = none)
    (hdata : 2 * (s.data.size + s.pageSize) + 3 * Page.size < Word.limit)
    (haddresses : 2 * ((s.addresses.size + 1) * 8) + 3 * Page.size < Word.limit)
    (e : Trouble Errno) : ¬s.Denied refusal e := by
  rintro (h | h)
  all_goals
    cases h with
    | refused hr => simp [hnone] at hr
    | overflow => omega

/-- A page of sixteen bytes, captured as it was and once more after a write. -/
theorem faithful_of_recorded_twice : ∃ s₁ s₂,
    (capture (fun _ => none) Watch.twoPages 4112).on (new 16) = (.ok (), s₁) ∧
    (capture (fun _ => none) (Watch.twoPages.write 4115 #[7]) 4112).on s₁ = (.ok (), s₂) ∧
    Faithful 16 (Watch.twoPages.write 4115 #[7]) s₂
      [(4112, Watch.twoPages.read 4112 16),
        (4112, (Watch.twoPages.write 4115 #[7]).read 4112 16)] := by
  have hpage : Watch.twoPages.HasPage 16 4112 := by
    refine ⟨by decide, by decide, ?_⟩
    decide +kernel
  have hpage' : (Watch.twoPages.write 4115 #[7]).HasPage 16 4112 := by
    refine ⟨by decide, by decide, fun n hn => ?_⟩
    rw [Memory.isMapped_write, hpage.mapped n hn]
  have hstart : Recorded 16 Watch.twoPages (new 16) [] := .new _
  have hfirst := (faithful_of_recorded hstart).capturable (fun _ => none) 4112 hpage
  obtain ⟨_, s₁, hs₁, hadds⟩ := (hfirst.mono (fun _ _ h => h) fun e _ h =>
    not_denied (fun _ => rfl) (by decide) (by decide) e h.2).exists_ok
  have hwritten := (hstart.capture hpage hs₁).write 4115 #[7]
  have hsecond := (faithful_of_recorded hwritten).capturable (fun _ => none) 4112 hpage'
  obtain ⟨_, s₂, hs₂, -⟩ := (hsecond.mono (fun _ _ h => h) fun e _ h =>
    not_denied (fun _ => rfl) (by
      simp only [PrivateArray.size, hadds.data, hadds.pageSize, Array.size_append, Memory.size_read]
      decide) (by
      simp only [PrivateArray.size, hadds.addresses, Array.size_push]
      decide) e h.2).exists_ok
  exact ⟨s₁, s₂, hs₁, hs₂, faithful_of_recorded (hwritten.capture hpage' hs₂)⟩

end Snapshot
end Rewind
