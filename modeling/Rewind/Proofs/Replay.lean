import Rewind.Proofs.Writes
import Rewind.Watch.Restore

/-! Replay: writing captures back brings captured pages to their baseline, and on pages that are not
guarded no fault is raised on the way. -/
namespace Rewind

open Monitor (Point State Thread)

theorem Memory.frame?_foldr_write (base m : Memory) {l : List (Nat × Array UInt8)}
    (hl : ∀ c ∈ l, ∃ n, ∃ b : Page.Bytes, c = (n * Page.size, b.toArray) ∧ base.bytes? n = some b)
    (k : Nat) :
    (l.foldr (fun c m => m.write c.1 c.2) m).frame? k =
      if k * Page.size ∈ l.map Prod.fst then
        (m.frame? k).map fun f => { f with bytes := (base.bytes? k).getD f.bytes }
      else m.frame? k := by
  induction l with
  | nil => simp
  | cons c l ih =>
    obtain ⟨⟨n, b, rfl, hb⟩, hrest⟩ := List.forall_mem_cons.mp hl
    rw [List.foldr_cons, Memory.frame?_write_page, ih hrest]
    by_cases hk : k = n
    · subst hk
      rw [if_pos rfl, List.map_cons, if_pos List.mem_cons_self, hb]
      split
      · rw [Option.map_map]
        rfl
      · rfl
    · have hne : k * Page.size ≠ n * Page.size := fun e => hk (Page.mul_inj.mp e)
      rw [if_neg hk]
      simp only [List.map_cons, List.mem_cons, hne, false_or]

@[simp] theorem Snapshot.isTracked_replay (s : Snapshot) (m : Memory) (k : Nat) :
    (s.replay m).isTracked k = m.isTracked k := by
  unfold replay
  induction s.toList with
  | nil => rfl
  | cons c l ih => rw [List.foldr_cons, Memory.isTracked_write, ih]

@[simp] theorem Snapshot.isGuarded_replay (s : Snapshot) (m : Memory) (k : Nat) :
    (s.replay m).isGuarded k = m.isGuarded k := by
  unfold replay
  induction s.toList with
  | nil => rfl
  | cons c l ih => rw [List.foldr_cons, Memory.isGuarded_write, ih]

/-- No page that a capture touches is guarded, so that replaying raises no fault. -/
def Snapshot.Free (s : Snapshot) (m : Memory) : Prop :=
  ∀ c ∈ s.toList, ∀ n ∈ Page.numbers c.1 c.2.size, m.isGuarded n = false

theorem Snapshot.length_toList (s : Snapshot) : s.toList.length = s.size := by
  simp [toList, size, PrivateArray.size]

namespace Baselined

variable {pages : Nat → Prop} {base m : Memory} {caught : Option Nat} {s : Snapshot}

/-- Every capture holds the baseline of a monitored page. -/
theorem mem_toList (h : Baselined pages base caught m s) {c : Nat × Array UInt8}
    (hc : c ∈ s.toList) : ∃ n, ∃ b : Page.Bytes, c = (n * Page.size, b.toArray) ∧
      base.bytes? n = some b ∧ pages n ∧ n * Page.size ∈ s.addresses.items := by
  obtain ⟨i, hi, rfl⟩ := Snapshot.mem_toList hc
  obtain ⟨n, hn, ha⟩ := h.known _ (Array.getElem_mem hi)
  have hmem : n * Page.size ∈ s.addresses.items := ha ▸ Array.getElem_mem hi
  have hget := h.dirty n hn hmem
  rw [← ha, Snapshot.get?_getElem h.nodup hi] at hget
  obtain ⟨b, hb, hbytes⟩ := Option.map_eq_some_iff.mp hget.symm
  exact ⟨n, b, by rw [ha, hbytes], hb, hn, hmem⟩

theorem frame?_replay (h : Baselined pages base caught m s) (m' : Memory) (k : Nat) :
    (s.replay m').frame? k =
      if k * Page.size ∈ s.addresses.items then
        (m'.frame? k).map fun f => { f with bytes := (base.bytes? k).getD f.bytes }
      else m'.frame? k := by
  have hl := Memory.frame?_foldr_write base m' (l := s.toList) (fun c hc => by
    obtain ⟨n, b, hnb, hbase, -⟩ := h.mem_toList hc
    exact ⟨n, b, hnb, hbase⟩) k
  simp only [Snapshot.map_fst_toList, Array.mem_toList_iff] at hl
  exact hl

theorem bytes?_replay (h : Baselined pages base caught m s) {n : Nat} (hn : pages n) :
    (s.replay m).bytes? n = base.bytes? n := by
  rw [Memory.bytes?, h.frame?_replay]
  split
  · next hin =>
    obtain ⟨f, hf⟩ := Option.isSome_iff_exists.mp (Memory.isMapped_of_isTracked (h.tracked n hn))
    have hget := h.dirty n hn hin
    cases hb : base.bytes? n with
    | some b => simp [hf]
    | none =>
      rw [hb] at hget
      exact absurd hin (Snapshot.get?_eq_none_iff.mp hget)
  · next hout => exact (h.clean n hn hout).2

theorem free_of_mem_toList (h : Baselined pages base none m s) {c : Nat × Array UInt8}
    (hc : c ∈ s.toList) :
    ∃ n, ∃ b : Page.Bytes, c = (n * Page.size, b.toArray) ∧ m.isGuarded n = false := by
  obtain ⟨n, b, hnb, -, hn, hmem⟩ := h.mem_toList hc
  refine ⟨n, b, hnb, Bool.eq_false_iff.mpr fun hg => ?_⟩
  simpa using h.unreleased n hn hmem hg

theorem free (h : Baselined pages base none m s) : s.Free m := by
  intro c hc
  obtain ⟨n, b, rfl, hg⟩ := h.free_of_mem_toList hc
  simpa [Page.numbers_page] using hg

end Baselined

namespace Watch

variable {w : Watch}

theorem writePages_of_free (start : Nat) (bytes : Array UInt8) {ns : List Nat}
    (h : ∀ n ∈ ns, w.memory.isGuarded n = false) :
    (writePages start bytes ns).Meets w
      (fun _ w' => w' = { w with
        memory := ns.foldl (fun m n => m.writePage start bytes n) w.memory })
      (fun _ _ => False) := by
  induction ns generalizing w with
  | nil => exact Act.meets_pure.mpr rfl
  | cons n ns ih =>
    obtain ⟨hn, hns⟩ := List.forall_mem_cons.mp h
    have hns' : ∀ k ∈ ns, (w.memory.writePage start bytes n).isGuarded k = false := by
      simpa using hns
    simp only [writePages, claim, Act.meets_bind, Act.meets_get, Act.meets_ite, hn, Act.meets_pure,
      Act.meets_modify]
    exact ⟨by simp, fun _ => ih (w := { w with memory := w.memory.writePage start bytes n }) hns'⟩

theorem write_of_free (start : Nat) (bytes : Array UInt8)
    (h : ∀ n ∈ Page.numbers start bytes.size, w.memory.isGuarded n = false) :
    (write start bytes).Meets w (fun _ w' => w' = { w with memory := w.memory.write start bytes })
      (fun _ _ => False) :=
  writePages_of_free start bytes h

theorem replayBelow_of_free {i : Nat} (hi : i ≤ w.monitor.snapshot.toList.length)
    (h : w.monitor.snapshot.Free w.memory) : (replayBelow i).Meets w
      (fun _ w' => w' = { w with memory :=
        (w.monitor.snapshot.toList.take i).foldr (fun c m => m.write c.1 c.2) w.memory })
      (fun _ _ => False) := by
  induction i generalizing w with
  | zero => exact Act.meets_pure.mpr rfl
  | succ i ih =>
    obtain ⟨⟨page, bytes⟩, hc⟩ : ∃ c, w.monitor.snapshot.toList[i] = c := ⟨_, rfl⟩
    obtain ⟨ha, hcontent⟩ : w.monitor.snapshot.addresses.get i = .ok page ∧
        w.monitor.snapshot.content i = bytes := Snapshot.get_of_getElem_toList hc
    have hland := write_of_free page bytes (h (page, bytes) (hc ▸ List.getElem_mem hi))
    simp only [replayBelow, Act.meets_bind, Act.meets_get, ha, hcontent, Act.meets_faulty]
    refine ⟨?_, by simp⟩
    rintro _ ⟨⟩
    refine hland.mono ?_ fun _ _ he => he
    rintro - _ rfl
    simp only [ne_eq, Act.meets_ite, not_true]
    refine ⟨by simp, fun _ => ?_⟩
    have hfree : w.monitor.snapshot.Free (w.memory.write page bytes) := by
      simpa [Snapshot.Free] using h
    have hnext := ih (w := { w with memory := w.memory.write page bytes })
      (Nat.le_of_succ_le hi) hfree
    refine hnext.mono ?_ fun _ _ he => he
    rintro - _ rfl
    rw [List.take_succ_eq_append_getElem hi, hc, List.foldr_append]
    rfl

/-- On pages that are not guarded the watched replay is the replay of the snapshot. -/
theorem replay_of_free (h : w.monitor.snapshot.Free w.memory) :
    replay.on w = (.ok w.monitor.snapshot.size,
      { w with memory := w.monitor.snapshot.replay w.memory }) := by
  have hlen := w.monitor.snapshot.length_toList
  rw [Act.on_eq_ok_iff]
  simp only [replay, Act.meets_bind, Act.meets_get, Act.meets_pure]
  refine (replayBelow_of_free hlen.ge h).mono ?_ fun _ _ he => he
  rintro - _ rfl
  rw [← hlen, List.take_length]
  exact ⟨rfl, rfl⟩

end Watch

end Rewind
