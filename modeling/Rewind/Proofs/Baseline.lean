import Rewind.Proofs.Service

/-! The baseline of monitored pages. A page that was not written to since is guarded and still as
its baseline; any other page is captured, once, with the bytes of its baseline. -/
namespace Rewind

open Monitor (Point State Thread)

/-- Memory and captures go together over a set of pages: the captured pages are the ones that are no
longer guarded, apart from one that the thread has caught and not released yet. -/
structure Baselined (pages : Nat → Prop) (base : Memory) (caught : Option Nat) (m : Memory)
    (s : Snapshot) : Prop where
  tracked : ∀ n, pages n → m.isTracked n = true
  low : ∀ n, pages n → n * Page.size + Page.size ≤ Mapping.limit
  known : ∀ a ∈ s.addresses.items, ∃ n, pages n ∧ a = n * Page.size
  nodup : s.addresses.items.toList.Nodup
  clean : ∀ n, pages n → n * Page.size ∉ s.addresses.items →
    m.isGuarded n = true ∧ m.bytes? n = base.bytes? n
  dirty : ∀ n, pages n → n * Page.size ∈ s.addresses.items →
    s.get? (n * Page.size) = (base.bytes? n).map (·.toArray)
  unreleased : ∀ n, pages n → n * Page.size ∈ s.addresses.items → m.isGuarded n = true →
    caught = some n
  caught : ∀ n ∈ caught, n * Page.size ∈ s.addresses.items

namespace Baselined

variable {pages : Nat → Prop} {base m : Memory} {caught : Option Nat} {s s' : Snapshot}

theorem not_mem_of_not_pages (h : Baselined pages base caught m s) {n : Nat} (hn : ¬pages n) :
    n * Page.size ∉ s.addresses.items := by
  intro hin
  obtain ⟨k, hk, e⟩ := h.known _ hin
  exact hn (Page.mul_inj.mp e ▸ hk)

/-- A guarded page was not captured before, so that its first capture has its baseline. -/
theorem capture (h : Baselined pages base none m s) (hs : s.Whole) {n : Nat} (hn : pages n)
    (hg : m.isGuarded n = true)
    (ha : s.Adds (n * Page.size) (m.read (n * Page.size) Page.size) s') :
    Baselined pages base (some n) m s' := by
  have hnew : n * Page.size ∉ s.addresses.items := by
    intro hmem
    simpa using h.unreleased n hn hmem hg
  have hmem (k : Nat) : k * Page.size ∈ s'.addresses.items ↔
      k * Page.size ∈ s.addresses.items ∨ k = n := by
    rw [ha.addresses, Array.mem_push, Page.mul_inj]
  obtain ⟨-, hbytes⟩ := h.clean n hn hnew
  refine ⟨h.tracked, h.low, ?_, ?_, ?_, ?_, ?_, ?_⟩
  · intro a hmem
    rw [ha.addresses, Array.mem_push] at hmem
    rcases hmem with hold | rfl
    · exact h.known a hold
    · exact ⟨n, hn, rfl⟩
  · rw [ha.addresses, Array.toList_push, List.nodup_append]
    refine ⟨h.nodup, by simp, ?_⟩
    rintro a hold _ hlast rfl
    rw [List.mem_singleton] at hlast
    exact hnew (hlast ▸ Array.mem_toList_iff.mp hold)
  · intro k hk hout
    exact h.clean k hk fun hold => hout ((hmem k).mpr (.inl hold))
  · intro k hk hin
    by_cases hold : k * Page.size ∈ s.addresses.items
    · rw [ha.get?_of_mem hs (Memory.size_read _ _ _) hold]
      exact h.dirty k hk hold
    · obtain rfl := ((hmem k).mp hin).resolve_left hold
      obtain ⟨b, hb⟩ := Memory.exists_bytes?_of_isMapped
        (Memory.isMapped_of_isTracked (h.tracked k hk))
      rw [ha.get?_self hs (Memory.size_read _ _ _) hold, Memory.read_page hb, ← hbytes, hb]
      rfl
  · intro k hk hin hguard
    rcases (hmem k).mp hin with hold | rfl
    · simpa using h.unreleased k hk hold hguard
    · rfl
  · rintro k ⟨⟩
    exact (hmem _).mpr (.inr rfl)

theorem release {n : Nat} (h : Baselined pages base (some n) m s) :
    Baselined pages base none (m.mark n false) s := by
  have hcaught := h.caught n rfl
  refine ⟨?_, h.low, h.known, h.nodup, ?_, h.dirty, ?_, by simp⟩
  · intro k hk
    rw [Memory.isTracked_mark]
    exact h.tracked k hk
  · intro k hk hout
    have hne : k ≠ n := fun e => hout (e ▸ hcaught)
    rw [Memory.isGuarded_mark, if_neg hne, Memory.bytes?_mark]
    exact h.clean k hk hout
  · intro k hk hin hguard
    rw [Memory.isGuarded_mark] at hguard
    split at hguard
    · simp at hguard
    · next hne => exact absurd (Option.some.inj (h.unreleased k hk hin hguard)).symm hne

end Baselined

namespace Watch

variable {raised : Nat} {fault : Option Nat} {p : Point} {w w' : Watch}

theorem Serves.baselined {pages : Nat → Prop} {base : Memory} {next : Next}
    (hv : w.Serves raised fault p) (hf : ∀ n ∈ fault, pages n) (hs : w.LoopStep p next w')
    (h : Baselined pages base p.caught? w.memory w.monitor.snapshot) :
    Baselined pages base (next.point p).caught? w'.memory w'.monitor.snapshot := by
  cases hs with
  | look hp hq hk =>
    rw [hp.isIdle.caught?] at h
    rw [Next.point, hq.isIdle.caught?]
    exact h
  | take hi hk =>
    have stage := hv.stage
    rw [hi] at stage
    cases stage with
    | raised _ =>
      rw [onMessage_heldWrite]
      exact h
  | @capture n _ hw ha =>
    obtain rfl := hv.fault_of_served? (n := n) rfl
    rw [Next.point, Point.caught?, Page.number_mul]
    exact h.capture hv.whole (hf n rfl) (hv.guarded n rfl) ha
  | @release n _ _ hk _ =>
    rw [Point.caught?, Page.number_mul] at h
    rw [Next.point_after]
    exact h.release
  | _ => exact h

/-- Between two steps of its thread, the machine keeps its baseline and serves at most one fault. -/
def Attended (pages : Nat → Prop) (base : Memory) (raised : Nat) (fault : Option Nat)
    (w : Watch) : Prop :=
  ∃ p held, w.monitor.thread = some ⟨p, held⟩ ∧ (w.kernel.Grants .unprotect → held = false) ∧
    w.Serves raised fault p ∧ Baselined pages base p.caught? w.memory w.monitor.snapshot

variable {pages : Nat → Prop} {base : Memory}

theorem Attended.step {next : Next} {held : Bool} (ht : w.monitor.thread = some ⟨p, held⟩)
    (hh : w.kernel.Grants .unprotect → held = false) (hv : w.Serves raised fault p)
    (hb : Baselined pages base p.caught? w.memory w.monitor.snapshot)
    (hf : ∀ n ∈ fault, pages n) (hs : w.LoopStep p next w') :
    ∃ fault', Attended pages base raised fault' (w'.went next) ∧ Settles w w' fault fault' := by
  obtain ⟨hv', hsettle⟩ := hv.step hs
  have hb' := hv.baselined hf hs hb
  have hg (h : w'.kernel.Grants .unprotect) : w.kernel.Grants .unprotect :=
    fun r hr => h r (hs.rules ▸ hr)
  refine ⟨_, ?_, hsettle⟩
  cases next with
  | go q => exact ⟨q, false, rfl, fun _ => rfl, serves_went.mpr hv', hb'⟩
  | hold q =>
    exact ⟨q, true, rfl, fun h => absurd rfl (hs.not_hold (hg h)), serves_went.mpr hv', hb'⟩
  | block => exact ⟨p, held, hs.thread.trans ht, fun h => hh (hg h), hv', hb'⟩

theorem Settles.byte {fault₁ fault₂ : Option Nat} {w₁ w₂ : Watch} (h : Settles w₁ w₂ fault₁ fault₂)
    (x : Nat) : w₂.memory.byte x = w₁.memory.byte x := by
  cases h with
  | keeps hm => rw [hm]
  | releases hm => rw [hm, Memory.byte_mark]

/-- The fault is still open, or its page is free. -/
def Settled (w : Watch) (fault fault' : Option Nat) : Prop :=
  fault' = fault ∨ fault' = none ∧ ∀ n ∈ fault, w.memory.isGuarded n = false

theorem Settled.step {fault₁ fault₂ : Option Nat} {w₁ w₂ : Watch} (h : w₁.Settled fault fault₁)
    (hs : Settles w₁ w₂ fault₁ fault₂) : w₂.Settled fault fault₂ := by
  cases hs with
  | keeps hm =>
    refine h.imp_right fun ⟨hnone, hfree⟩ => ⟨hnone, fun n hn => ?_⟩
    rw [hm]
    exact hfree n hn
  | @releases n hm =>
    rcases h with rfl | ⟨hnone, -⟩
    · refine .inr ⟨rfl, ?_⟩
      rintro _ ⟨⟩
      rw [hm, Memory.isGuarded_mark, if_pos rfl, Bool.and_false]
    · cases hnone

/-- Running the thread settles an open fault or leaves it open, and touches nothing else. -/
theorem Attended.serve (h : Attended pages base raised fault w) (hf : ∀ n ∈ fault, pages n) :
    serve.Meets w
      (fun _ w' => ∃ fault', Attended pages base raised fault' w' ∧ w'.Settled fault fault' ∧
        Confined fault.toList w w' ∧ ∀ x, w'.memory.byte x = w.memory.byte x)
      (fun e _ => EndsProcess e) := by
  refine serve_meets ?_ ⟨fault, h, .inl rfl, confined_of_eq rfl rfl rfl, fun _ => rfl⟩
  rintro w₁ p ⟨fault₁, ⟨p₁, held, ht, hh, hv, hb⟩, hsettled, hc, hbytes⟩ hp
  obtain ⟨rfl, rfl⟩ : p₁ = p ∧ held = false := by simpa [ht] using hp
  refine (perform_meets hv.whole hv.stage.inLoop).mono ?_ fun _ _ he => he
  intro next w₂ hs
  have hsub : ∀ n ∈ fault₁, n ∈ fault := by
    rcases hsettled with rfl | ⟨rfl, -⟩ <;> simp
  obtain ⟨fault₂, h₂, hstep⟩ := Attended.step ht hh hv hb (fun n hn => hf n (hsub n hn)) hs
  refine ⟨fault₂, h₂, ?_, ?_, ?_⟩
  · have hw₂ := hsettled.step hstep
    rwa [Settled, toMachine_went]
  · have hw₂ : Confined fault.toList w w₂ := by
      refine (hc.trans (hv.confined hs)).mono fun n hn => ?_
      simp only [List.mem_append, Option.mem_toList] at hn ⊢
      exact hn.elim id (hsub n)
    exact ⟨by simpa using hw₂.rules, by simpa using hw₂.frames, by simpa using hw₂.captures,
      by simpa using hw₂.captured⟩
  · intro x
    rw [toMachine_went, hstep.byte, hbytes]

end Watch

end Rewind
