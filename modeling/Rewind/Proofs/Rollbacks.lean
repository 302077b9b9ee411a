import Rewind.Proofs.Rewinding

/-! Going back to a baseline, or moving it forward, on a machine where captured pages may be guarded
and the kernel may refuse to guard others again. Whatever becomes of it, the captures there were are
kept in place until all of their pages are guarded. -/
namespace Rewind

open Monitor (Point State Thread)

namespace Machine

variable {m m' : Machine} {pages : List Nat} {i page : Nat} {errno : Errno}

/-- What the kernel refuses depends on its script, on how often it was asked to guard, and on what
is tracked. -/
theorem refusal?_congr (hk : m.kernel.Spares m'.kernel)
    (ht : ∀ k, m'.memory.isTracked k = m.memory.isTracked k) (i page : Nat) :
    m'.refusal? i page = m.refusal? i page := by
  unfold refusal?
  rw [hk.answerAfter, ht]

theorem guardsAll_congr (hk : m.kernel.Spares m'.kernel)
    (ht : ∀ k, m'.memory.isTracked k = m.memory.isTracked k) :
    m'.GuardsAll pages ↔ m.GuardsAll pages := by
  simp only [GuardsAll, refusal?_congr hk ht]

theorem FirstRefused.congr (h : m'.FirstRefused pages i page errno)
    (hk : m.kernel.Spares m'.kernel)
    (ht : ∀ k, m'.memory.isTracked k = m.memory.isTracked k) :
    m.FirstRefused pages i page errno := by
  constructor
  · exact h.place
  · rw [← refusal?_congr hk ht]
    exact h.refused
  · exact (guardsAll_congr hk ht).mp h.before

theorem isTracked_of_refusal? (h : m.refusal? i page = none) :
    m.memory.isTracked (Page.number page) = true := by
  unfold refusal? at h
  split at h
  · cases h
  · split at h
    · assumption
    · cases h

theorem GuardsAll.isTracked (h : m.GuardsAll pages) (hp : page ∈ pages) :
    m.memory.isTracked (Page.number page) = true := by
  obtain ⟨i, hi⟩ := List.mem_iff_getElem?.mp hp
  exact isTracked_of_refusal? (h i page hi)

theorem FirstRefused.le_of_refused {j a : Nat} {errno' : Errno}
    (h : m.FirstRefused pages i page errno) (ha : pages[j]? = some a)
    (hr : m.refusal? j a = some errno') : i ≤ j := by
  by_contra hlt
  have hnone := h.before j a (by rw [List.getElem?_take_of_lt (not_le.mp hlt), ha])
  rw [hr] at hnone
  cases hnone

/-- There is but one page that the kernel refuses first. -/
theorem FirstRefused.unique {j a : Nat} {errno' : Errno} (h : m.FirstRefused pages i page errno)
    (h' : m.FirstRefused pages j a errno') : i = j ∧ page = a ∧ errno = errno' := by
  obtain rfl : i = j :=
    le_antisymm (h.le_of_refused h'.place h'.refused) (h'.le_of_refused h.place h.refused)
  obtain rfl : page = a := Option.some.inj (h.place.symm.trans h'.place)
  exact ⟨rfl, rfl, Option.some.inj (h.refused.symm.trans h'.refused)⟩

end Machine

namespace Watch

variable {w w' w₁ : Watch} {i page : Nat} {errno : Errno}

/-- The captured pages, in the order of capture. -/
def addresses (w : Watch) : List Nat := w.monitor.snapshot.addresses.items.toList

theorem map_number_addresses (w : Watch) : w.addresses.map Page.number = w.captured := rfl

/-- Pages were guarded, and nothing else was done to memory. -/
structure Guarded (ns : List Nat) (w w' : Watch) : Prop where
  bytes : ∀ k, w'.memory.bytes? k = w.memory.bytes? k
  frames : ∀ k, k ∉ ns → w'.memory.frame? k = w.memory.frame? k
  tracked : ∀ k, w'.memory.isTracked k = w.memory.isTracked k
  guarded : ∀ k, w'.memory.isGuarded k = true ↔ w.memory.isGuarded k = true ∨ k ∈ ns

theorem guarded_guardAll {ns : List Nat} (ht : ∀ n ∈ ns, w.memory.isTracked n = true)
    (hm : w'.memory = w.memory.guardAll ns) : Guarded ns w w' := by
  constructor
  · simp [hm]
  · intro k hk
    rw [hm, Memory.frame?_guardAll, if_neg hk]
  · simp [hm]
  · intro k
    rw [hm, Memory.isGuarded_guardAll]
    split
    · next hk => simp [hk, Memory.isMapped_of_isTracked (ht k hk)]
    · next hk => simp [hk]

/-- All captured pages are guarded again, and the captures are forgotten. -/
structure Rearmed (w w' : Watch) : Prop where
  all : w.GuardsAll w.addresses
  guarded : Guarded w.captured w w'
  monitor : w'.monitor = { w.monitor with snapshot := w.monitor.snapshot.clear }

/-- The kernel refused to guard a captured page again. Those before it are guarded, and the captures
are kept. -/
structure Refused (w : Watch) (i page : Nat) (errno : Errno) (w' : Watch) : Prop where
  first : w.FirstRefused w.addresses i page errno
  guarded : Guarded (w.captured.take i) w w'
  monitor : w'.monitor = w.monitor

theorem isTracked_of_guardsAll {pages : List Nat} (h : w.GuardsAll pages) :
    ∀ n ∈ pages.map Page.number, w.memory.isTracked n = true := by
  intro n hn
  obtain ⟨page, hpage, rfl⟩ := List.mem_map.mp hn
  exact h.isTracked hpage

theorem rearm_forget_steady_meets (h : w.monitor.Steady) :
    (do rearm; forget : Op Unit).Meets w (fun _ w' => Rearmed w w')
      (fun e w' => (∃ i page errno, Refused w i page errno w' ∧
          e = .error (.failure (.rearm page errno))) ∨
        ¬w.kernel.Prompt ∧ e = .error (.halt .stalled)) := by
  have husable : ∀ page ∈ w.addresses, Page.Usable page :=
    fun page hpage => h.usable page (Array.mem_toList_iff.mp hpage)
  have hexact := rearmAll_exact (w := w) husable
  simp only [rearm, Act.meets_bind, Act.meets_get]
  apply hexact.mono
  · intro _ _ hpost
    obtain ⟨hall, k, rfl⟩ := hpost
    simp only [forget, Act.meets_modify]
    exact ⟨hall, guarded_guardAll (isTracked_of_guardsAll hall) rfl, rfl⟩
  · intro e _ hpost
    rcases hpost with ⟨i, page, errno, hfirst, rfl, k, rfl⟩ | hstalled
    · refine .inl ⟨i, page, errno, ⟨hfirst, ?_, rfl⟩, rfl⟩
      rw [← map_number_addresses, ← List.map_take]
      exact guarded_guardAll (isTracked_of_guardsAll hfirst.before) rfl
    · exact .inr hstalled

/-- All captures were written back, and there was room for those that this added. -/
structure Rewound (w w' : Watch) : Prop where
  overwrote : Overwrote w.captured (w.monitor.snapshot.replay w.memory) w w'
  room : w'.monitor.snapshot.data.capacity = w.monitor.snapshot.data.capacity

theorem replay_steady_meets (h : w.monitor.Steady) (ho : w.memory.Orderly) : replay.Meets w
    (fun count w' => count = w'.monitor.snapshot.size ∧ Rewound w w')
    (fun e _ => EndsProcess e ∧ ∃ n ∈ w.captured, w.memory.isGuarded n = true) := by
  have hall := replayBelow_steady_meets h ho le_rfl
  rw [← length_captured, List.take_length, length_captured, ← Snapshot.length_toList,
    List.take_length] at hall
  simp only [replay, Act.meets_bind, Act.meets_get, Act.meets_pure, ← Snapshot.length_toList]
  refine hall.mono ?_ fun _ _ he => he
  intro _ w' hpost
  obtain ⟨hover, hroom⟩ := hpost
  exact ⟨trivial, hover, hroom⟩

/-- Replaying brings a page that is still mapped back to its first capture. -/
theorem Rewound.read (h : Rewound w w') (hs : w.monitor.Steady) {bytes : Array UInt8}
    (hget : w.monitor.snapshot.get? page = some bytes)
    (hm : w.memory.isMapped (Page.number page) = true) :
    w'.memory.read page Page.size = bytes := by
  rw [Snapshot.get?_eq_lookup] at hget
  obtain ⟨before, after, hlist, -⟩ := List.lookup_eq_some_iff.mp hget
  obtain ⟨n, b, hc⟩ := hs.paged (c := (page, bytes)) (by simp [hlist])
  obtain ⟨rfl, rfl⟩ := Prod.mk.inj hc
  rw [Page.number_mul] at hm
  have hbytes := Memory.bytes?_foldr_write_of_lookup (fun c => hs.paged) hm hget
  exact Memory.read_page ((h.overwrote.bytes n).trans hbytes)

/-- Those of some pages that are guarded. -/
def guardedAmong (w : Watch) (ns : List Nat) : Finset Nat :=
  ns.toFinset.filter fun n => w.memory.isGuarded n = true

theorem mem_guardedAmong {ns : List Nat} {n : Nat} :
    n ∈ w.guardedAmong ns ↔ n ∈ ns ∧ w.memory.isGuarded n = true := by
  rw [guardedAmong, Finset.mem_filter, List.mem_toFinset]

/-- Each page that was guarded costs one capture. -/
theorem Overwrote.size {ns : List Nat} {m : Memory} (h : Overwrote ns m w w') :
    w'.monitor.snapshot.size = w.monitor.snapshot.size + (w.guardedAmong ns).card := by
  obtain ⟨gained, later, hlist, hfst, hnodup, hgained⟩ := h.gains
  have hset : gained.toFinset = w.guardedAmong ns := by
    ext n
    rw [List.mem_toFinset, hgained, mem_guardedAmong, and_comm]
  have hlength : later.length = gained.length := by
    have := congrArg List.length hfst
    rwa [List.length_map, List.length_map] at this
  rw [← Snapshot.length_toList, hlist, List.length_append, Snapshot.length_toList, hlength, ← hset,
    List.toFinset_card_of_nodup hnodup]

/-- The captures, and those of captured pages that replaying adds, have room where they are. -/
def HasRoom (w : Watch) : Prop :=
  (w.monitor.snapshot.size + (w.guardedAmong w.captured).card) * Page.size ≤
    w.monitor.snapshot.data.capacity

/-- Replaying comes back only if the bytes stay where they are. -/
theorem Rewound.hasRoom (h : Rewound w w') : w.HasRoom := by
  have hwhole := h.overwrote.steady.whole
  have hfit := hwhole.dataFit.size_le
  rw [hwhole.data, h.room] at hfit
  unfold HasRoom
  rw [← h.overwrote.size]
  exact hfit

theorem restore_steady_meets (h : w.monitor.Steady) (ho : w.memory.Orderly) :
    (restore true).Meets w
      (fun count w' => ∃ w₁, Rewound w w₁ ∧ count = w₁.monitor.snapshot.size ∧ Rearmed w₁ w')
      (fun e w' => (∃ w₁ i page errno, Rewound w w₁ ∧ Refused w₁ i page errno w' ∧
          e = .error (.failure (.rearm page errno))) ∨
        EndsProcess e ∧ ((∃ n ∈ w.captured, w.memory.isGuarded n = true) ∨ ¬w.kernel.Prompt)) := by
  simp only [restore, Act.meets_bind, if_true, Act.meets_pure]
  refine (replay_steady_meets h ho).mono ?_ fun _ _ he => .inr ⟨he.1, .inl he.2⟩
  intro count w₁ hpost
  obtain ⟨rfl, hrewound⟩ := hpost
  have hrearm := rearm_forget_steady_meets hrewound.overwrote.steady
  rw [Act.meets_bind] at hrearm
  apply hrearm.mono
  · intro _ w₂ hforget
    simp only [forget, Act.meets_modify] at hforget ⊢
    exact ⟨w₁, hrewound, rfl, hforget⟩
  · rintro e w' (⟨i, page, errno, hrefused, rfl⟩ | ⟨hlate, rfl⟩)
    · exact .inl ⟨w₁, i, page, errno, hrewound, hrefused, rfl⟩
    · exact .inr ⟨(halts _).endsProcess, .inr fun hp => hlate (hp.of_rules hrewound.overwrote.spares.rules)⟩

theorem rebaseline_steady_meets (h : w.monitor.Steady) (timeout : Duration) :
    (rebaseline timeout).Meets w
      (fun count w' => count = w.monitor.snapshot.size ∧ Rearmed w w')
      (fun e w' => (∃ i page errno, Refused w i page errno w' ∧
          e = .error (.failure (.rearm page errno))) ∨
        (w.monitor.inFlight ≠ 0 ∧ w' = w ∧
          e = .error (.failure (.drainTimeout w.monitor.inFlight timeout))) ∨
        ¬w.kernel.Prompt ∧ e = .error (.halt .stalled)) := by
  simp only [rebaseline, Act.meets_bind, Act.meets_get, Act.meets_pure]
  refine (drain_meets timeout).mono ?_ fun _ _ he => .inr (.inl he)
  rintro _ _ ⟨-, rfl⟩
  have hrearm := rearm_forget_steady_meets h
  rw [Act.meets_bind] at hrearm
  apply hrearm.mono
  · intro _ w₂ hforget
    simp only [forget, Act.meets_modify] at hforget ⊢
    exact ⟨trivial, hforget⟩
  · rintro e w' (hrefused | hlate)
    · exact .inl hrefused
    · exact .inr (.inr hlate)

theorem mem_captured_of_get? {bytes : Array UInt8}
    (h : w.monitor.snapshot.get? page = some bytes) : page ∈ w.addresses := by
  by_contra hout
  rw [addresses, Array.mem_toList_iff, ← Snapshot.get?_eq_none_iff] at hout
  rw [hout] at h
  cases h

theorem Rearmed.steady (h : Rearmed w w') (hs : w.monitor.Steady) : w'.monitor.Steady := by
  rw [h.monitor]
  exact ⟨hs.whole.clear, by simp, hs.inbox, hs.thread⟩

theorem Refused.steady (h : Refused w i page errno w') (hs : w.monitor.Steady) :
    w'.monitor.Steady := h.monitor ▸ hs

theorem Guarded.orderly {pages : List Nat} (h : Guarded (pages.map Page.number) w w')
    (hall : w.GuardsAll pages) (hp : ∀ page ∈ pages, Page.Usable page) (ho : w.memory.Orderly) :
    w'.memory.Orderly := by
  constructor
  · intro n hg
    rw [h.tracked]
    rcases (h.guarded n).mp hg with hold | hnew
    · exact ho.tracked n hold
    · exact isTracked_of_guardsAll hall n hnew
  · intro n hg
    rcases (h.guarded n).mp hg with hold | hnew
    · exact ho.usable n hold
    · obtain ⟨page, hpage, rfl⟩ := List.mem_map.mp hnew
      rw [(hp page hpage).aligned.mul_number]
      exact hp page hpage

theorem Refused.orderly (h : Refused w i page errno w') (hs : w.monitor.Steady)
    (ho : w.memory.Orderly) : w'.memory.Orderly := by
  have hguarded := h.guarded
  rw [← map_number_addresses, ← List.map_take] at hguarded
  refine hguarded.orderly h.first.before (fun page hpage => ?_) ho
  exact hs.usable page (Array.mem_toList_iff.mp (List.mem_of_mem_take hpage))

/-- What may come between an attempt and the next: writes, attempts that are refused, and anything
that becomes of the kernel and of its script. -/
inductive Meanwhile (w : Watch) : Watch → Prop
  | refl : Meanwhile w w
  | kernel {w₁ : Watch} (kernel : Kernel) (journal : Log.Journal) : Meanwhile w w₁ →
      Meanwhile w { w₁ with kernel := kernel, journal := journal }
  | write {w₁ w₂ : Watch} {writes : List (Nat × Array UInt8)} : Meanwhile w w₁ →
      (writeAll writes).on w₁ = (.ok (), w₂) → Meanwhile w w₂
  | restore {w₁ w₂ : Watch} {cause : Failure} : Meanwhile w w₁ →
      (restore true).on w₁ = (.error (.error (.failure cause)), w₂) → Meanwhile w w₂
  | rebaseline {w₁ w₂ : Watch} {timeout : Duration} {cause : Failure} : Meanwhile w w₁ →
      (rebaseline timeout).on w₁ = (.error (.error (.failure cause)), w₂) → Meanwhile w w₂

/-- The captures there were are in place before all others. -/
structure Keeps (w w' : Watch) : Prop where
  steady : w'.monitor.Steady
  orderly : w'.memory.Orderly
  captures : w.monitor.snapshot.toList <+: w'.monitor.snapshot.toList

theorem Keeps.overwrote {ns : List Nat} {m : Memory} (h : Keeps w w₁) (hw : Overwrote ns m w₁ w') :
    Keeps w w' :=
  ⟨hw.steady, hw.orderly h.orderly, h.captures.trans hw.gains.isPrefix⟩

theorem Keeps.refused (h : Keeps w w₁) (hr : Refused w₁ i page errno w') : Keeps w w' :=
  ⟨hr.steady h.steady, hr.orderly h.steady h.orderly, by rw [hr.monitor]; exact h.captures⟩

theorem Meanwhile.keeps (h : Meanwhile w w') (hs : w.monitor.Steady) (ho : w.memory.Orderly) :
    Keeps w w' := by
  induction h with
  | refl => exact ⟨hs, ho, List.prefix_rfl⟩
  | kernel _ _ _ ih => exact ⟨ih.steady, ih.orderly, ih.captures⟩
  | write _ hwrite ih =>
    exact ih.overwrote ((writeAll_steady_meets ih.steady ih.orderly _).ok hwrite)
  | restore _ hrestore ih =>
    rcases (restore_steady_meets ih.steady ih.orderly).error hrestore with
      ⟨w₂, i, page, errno, hrewound, hrefused, -⟩ | ⟨hends, -⟩
    · exact (ih.overwrote hrewound.overwrote).refused hrefused
    · exact absurd rfl (hends _)
  | rebaseline _ hrebaseline ih =>
    rcases (rebaseline_steady_meets ih.steady _).error hrebaseline with
      ⟨i, page, errno, hrefused, -⟩ | ⟨-, rfl, -⟩ | ⟨-, hlate⟩
    · exact ih.refused hrefused
    · exact ih
    · cases hlate

theorem Keeps.get? (h : Keeps w w') {bytes : Array UInt8}
    (hget : w.monitor.snapshot.get? page = some bytes) :
    w'.monitor.snapshot.get? page = some bytes := by
  obtain ⟨later, hlater⟩ := h.captures
  rw [Snapshot.get?_eq_lookup] at hget ⊢
  rw [← hlater, List.lookup_append, hget, Option.some_or]

/-- Restoring brought every page that was captured back to its first capture, guarded it, and forgot
all captures. -/
structure Recovered (w w' : Watch) : Prop where
  read : ∀ page bytes, w.monitor.snapshot.get? page = some bytes →
    w'.memory.read page Page.size = bytes
  guarded : ∀ n ∈ w.captured, w'.memory.isGuarded n = true
  empty : w'.monitor.snapshot.size = 0

theorem Keeps.recovered (h : Keeps w w') {w₁ w₂ : Watch} (hrewound : Rewound w' w₁)
    (hrearmed : Rearmed w₁ w₂) : Recovered w w₂ := by
  have hkept : Keeps w w₁ := h.overwrote hrewound.overwrote
  have hmem {n : Nat} (hn : n ∈ w.captured) : n ∈ w₁.captured := by
    rw [captured_eq, List.mem_map] at hn ⊢
    obtain ⟨c, hc, rfl⟩ := hn
    exact ⟨c, hkept.captures.subset hc, rfl⟩
  have htracked := isTracked_of_guardsAll hrearmed.all
  constructor
  · intro page bytes hget
    have hn := hmem (List.mem_map_of_mem (mem_captured_of_get? hget))
    -- A page that is guarded again is tracked, and so it was still mapped when it was written back.
    have hmapped : w'.memory.isMapped (Page.number page) = true := by
      apply Memory.isMapped_of_isTracked
      rw [← hrewound.overwrote.tracked]
      exact htracked _ hn
    rw [← hrewound.read h.steady (h.get? hget) hmapped]
    simp only [Memory.read_eq, Memory.byte_eq, hrearmed.guarded.bytes]
  · intro n hn
    exact (hrearmed.guarded.guarded n).mpr (.inr (hmem hn))
  · rw [hrearmed.monitor, Snapshot.size_clear]

/-- However often it was refused before, restoring that comes back has brought every page back to
its first capture. -/
theorem recovered_meets (hs : w.monitor.Steady) (ho : w.memory.Orderly) (h : Meanwhile w w') :
    (restore true).Meets w' (fun _ w₂ => Recovered w w₂) (fun _ _ => True) := by
  have hkept := h.keeps hs ho
  refine (restore_steady_meets hkept.steady hkept.orderly).mono ?_ fun _ _ _ => trivial
  rintro _ w₂ ⟨w₁, hrewound, -, hrearmed⟩
  exact hkept.recovered hrewound hrearmed

end Watch

end Rewind
