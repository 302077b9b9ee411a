import Rewind.Proofs.Interleavings

/-! The operations of the process as they run, each to its end while the thread keeps up. Every one
of them is a run of moves of the two threads, so that what holds between any two moves holds before
and after each operation. -/
namespace Rewind.Watch

open Monitor (Point State Thread)

/-- Moves lead from a system to this machine and this writer. -/
def Leads (s : System) (w : Watch) (writer : Writer) (torn : Bool) : Prop :=
  ∃ raised, Relation.ReflTransGen Moves s ⟨w, writer, raised, torn⟩

variable {s s' : System} {w : Watch} {writer : Writer} {torn : Bool}

theorem Leads.after (hm : Relation.ReflTransGen Moves s s') (h : Leads s' w writer torn) :
    Leads s w writer torn := by
  obtain ⟨raised, h⟩ := h
  exact ⟨raised, hm.trans h⟩

theorem serve_moves (h : s.Sound) : serve.Meets s.watch
    (fun _ w => Relation.ReflTransGen Moves s { s with watch := w })
    (fun e _ => EndsProcess e) := by
  apply serve_meets (I := fun w => Relation.ReflTransGen Moves s { s with watch := w })
  · intro w p hm ht
    obtain ⟨p', held, fault, ht', hc⟩ := h.moves hm
    obtain ⟨rfl, -⟩ : p = p' ∧ false = held := by simpa [ht] using ht'
    have hstep := perform_meets hc.serves.whole hc.serves.stage.inLoop
    apply (hstep.and (Act.meets_self _ w)).mono
    · intro next w' hpost
      obtain ⟨-, hon⟩ := hpost
      exact hm.tail (.thread ht hon)
    · intro e w' hpost
      obtain ⟨he, -⟩ := hpost
      exact he
  · exact .refl

/-- A page of a write is a move if the page is free, and otherwise a fault, its service and the
wake of the writer. -/
theorem claim_leads (h : s.Sound) {piece : Piece} {errand : Errand} {n : Nat}
    (hw : Wants s.watch s.writer piece errand) (hn : piece.page = n) :
    (claim n piece.address).Meets s.watch
      (fun _ w =>
        (∀ below room, errand = .restore below room → w.monitor.snapshot.data.capacity = room) →
        Leads s { w with memory := w.memory.writePage piece.start piece.bytes n } errand.next
          s.torn)
      (fun e _ => EndsProcess e) := by
  subst hn
  simp only [claim, Act.meets_bind, Act.meets_get, Act.meets_ite, meets_modifyMonitor, meets_halt,
    Act.meets_pure]
  constructor
  · intro hg
    have hfault : Moves s (s.faults piece errand) := .fault hw hg
    refine (serve_moves (h.move hfault)).mono ?_ fun _ _ he => he
    intro _ w hm
    refine ⟨fun _ => (halts _).endsProcess, fun hfree hroom => ?_⟩
    exact ⟨s.raised + 1, (hm.head hfault).tail (.wake rfl (by simpa using hfree) hroom)⟩
  · intro hg _
    exact ⟨s.raised, .single (.write hw (by simpa using hg))⟩

theorem writePages_leads (start : Nat) (bytes : Array UInt8) {ns : List Nat} (h : s.Sound)
    (hw : ∃ drained, s.writer = .idle drained)
    (hn : ∀ n ∈ ns, Page.number (max start (n * Page.size)) = n) :
    (writePages start bytes ns).Meets s.watch
      (fun _ w => ∃ drained, Leads s w (.idle drained) s.torn)
      (fun e _ => EndsProcess e) := by
  induction ns generalizing s with
  | nil =>
    obtain ⟨drained, hw⟩ := hw
    refine Act.meets_pure.mpr ⟨drained, s.raised, ?_⟩
    rw [← hw]
  | cons n ns ih =>
    obtain ⟨hpage, hns⟩ := List.forall_mem_cons.mp hn
    obtain ⟨drained, hw⟩ := hw
    have hwants : Wants s.watch s.writer ⟨start, bytes, max start (n * Page.size)⟩ .own := hw ▸ .own
    simp only [writePages, Act.meets_bind, Act.meets_modify]
    refine (claim_leads h hwants hpage).mono ?_ fun _ _ he => he
    intro _ w hlead
    obtain ⟨raised, hm⟩ := hlead (by simp)
    refine (ih (h.moves hm) ⟨false, rfl⟩ hns).mono ?_ fun _ _ he => he
    intro _ w' hpost
    obtain ⟨drained, hlead⟩ := hpost
    exact ⟨drained, hlead.after hm⟩

theorem write_leads (start : Nat) (bytes : Array UInt8) (h : s.Sound)
    (hw : ∃ drained, s.writer = .idle drained) :
    (write start bytes).Meets s.watch (fun _ w => ∃ drained, Leads s w (.idle drained) s.torn)
      (fun e _ => EndsProcess e) :=
  writePages_leads start bytes h hw fun _ hmem => Page.number_max_of_mem_numbers hmem

theorem drain_leads (timeout : Duration) (hw : ∃ drained, s.writer = .idle drained) :
    (drain timeout).Meets s.watch (fun _ w => Leads s w (.idle true) s.torn)
      (fun _ w => Leads s w (.idle false) s.torn) := by
  obtain ⟨drained, hw⟩ := hw
  apply (Act.meets_self _ _).mono
  · intro _ w hon
    exact ⟨s.raised, .single (.drain hw hon)⟩
  · intro e w hon
    exact ⟨s.raised, .single (.overdue hw hon)⟩

theorem replay_leads {i : Nat} (h : s.Sound) (hw : s.writer = .restoring i) :
    (replayBelow i).Meets s.watch (fun _ w => Leads s w (.restoring 0) s.torn)
      (fun e _ => EndsProcess e) := by
  induction i generalizing s with
  | zero =>
    refine Act.meets_pure.mpr ⟨s.raised, ?_⟩
    rw [← hw]
  | succ i ih =>
    simp only [replayBelow, Act.meets_bind, Act.meets_get, Act.meets_faulty]
    refine ⟨fun a ha => ?_, fun f _ => endsProcess_fault f⟩
    obtain ⟨p, held, fault, -, hc⟩ := id h
    have hget := PrivateArray.get_eq_ok.mp ha
    have hwants : Wants s.watch s.writer ⟨a, s.watch.monitor.snapshot.content i, a⟩
        (.restore i s.watch.monitor.snapshot.data.capacity) := hw ▸ .restore hget
    obtain ⟨n, rfl⟩ := (hc.known a (Array.mem_of_getElem? hget)).exists_mul
    have hsize := hc.serves.whole.size_content (Array.getElem?_eq_some_iff.mp hget).1
    rw [write, hsize, Page.numbers_page]
    simp only [writePages, Nat.max_self, Act.meets_bind, Act.meets_modify, Act.meets_pure,
      Act.meets_ite, meets_halt]
    refine (claim_leads h hwants (Page.number_mul n)).mono ?_ fun _ _ he => he
    intro _ w hlead
    refine ⟨fun _ => (halts _).endsProcess, fun hroom => ?_⟩
    obtain ⟨raised, hm⟩ := hlead (by
      rintro _ _ ⟨⟩
      exact not_not.mp hroom)
    exact (ih (h.moves hm) rfl).mono (fun _ _ hnext => hnext.after hm) fun _ _ he => he

theorem rearmAll_leads {pages : List Nat} (hw : s.writer = .rearming pages) :
    (rearmAll pages).Meets s.watch (fun _ w => Leads s w (.rearming []) s.torn)
      (fun e w => ∀ cause, e = .error (.failure cause) → Leads s w (.idle false) true) := by
  induction pages generalizing s with
  | nil =>
    refine Act.meets_pure.mpr ⟨s.raised, ?_⟩
    rw [← hw]
  | cons page pages ih =>
    simp only [rearmAll, Act.meets_bind]
    apply (Act.meets_self _ _).mono
    · intro _ w hon
      have hm : Moves s { s with watch := w, writer := .rearming pages } := .rearm hw hon
      refine (ih rfl).mono (fun _ _ hnext => hnext.after (.single hm)) ?_
      intro e w' hnext cause he
      exact (hnext cause he).after (.single hm)
    · rintro _ w hon cause rfl
      exact ⟨s.raised, .single (.refused hw hon)⟩

theorem rearm_leads {raised : Nat} (hm : Relation.ReflTransGen Moves s
      ⟨w, .rearming w.monitor.snapshot.addresses.items.toList, raised, torn⟩) :
    rearm.Meets w (fun _ w' => Leads s w' (.rearming []) torn)
      (fun e w' => ∀ cause, e = .error (.failure cause) → Leads s w' (.idle false) true) := by
  simp only [rearm, Act.meets_bind, Act.meets_get]
  have hall := rearmAll_leads
    (s := ⟨w, .rearming w.monitor.snapshot.addresses.items.toList, raised, torn⟩) rfl
  refine hall.mono (fun _ _ hend => hend.after hm) ?_
  intro e w' he cause hcause
  exact (he cause hcause).after hm

theorem Leads.forget (h : Leads s w (.rearming []) torn) :
    forget.Meets w (fun _ w' => Leads s w' (.idle false) false) (fun _ _ => False) := by
  obtain ⟨raised, hm⟩ := h
  apply (Act.meets_self Watch.forget w).mono
  · intro _ w' hon
    exact ⟨raised, hm.tail (.forget rfl hon)⟩
  · intro e w' hon
    cases hon

/-- Restoring after a drain is a run of moves, also when a page could not be guarded again. -/
theorem restore_leads (h : s.Sound) (hw : s.writer = .idle true) : (restore true).Meets s.watch
    (fun _ w => Leads s w (.idle false) false)
    (fun e w => ∀ cause, e = .error (.failure cause) → Leads s w (.idle false) true) := by
  have hm : Moves s { s with writer := .restoring s.watch.monitor.snapshot.size } := .restore hw
  simp only [restore, replay, Act.meets_bind, Act.meets_get, Act.meets_pure, if_true]
  refine (replay_leads (h.move hm) rfl).mono ?_ fun e _ he cause hcause => absurd hcause (he cause)
  intro _ w hpost
  obtain ⟨raised, hreplay⟩ := hpost
  have hturn := (hreplay.head hm).tail (.replayed rfl)
  refine (rearm_leads hturn).mono ?_ fun _ _ he => he
  intro _ w' hrearm
  exact hrearm.forget.mono (fun _ _ hend => hend) fun _ _ he => he.elim

/-- Rebaselining drains first, and goes on only if that came back. -/
theorem rebaseline_leads (timeout : Duration) (hw : ∃ drained, s.writer = .idle drained) :
    (rebaseline timeout).Meets s.watch (fun _ w => Leads s w (.idle false) false)
      (fun e w => ∀ cause, e = .error (.failure cause) →
        ∃ torn, Leads s w (.idle false) torn) := by
  simp only [rebaseline, Act.meets_bind, Act.meets_get, Act.meets_pure]
  refine (drain_leads timeout hw).mono ?_ fun e w he cause hcause => ⟨s.torn, he⟩
  intro _ w hpost
  obtain ⟨raised, hdrain⟩ := hpost
  have hturn := hdrain.tail (.rebaseline rfl)
  refine (rearm_leads hturn).mono ?_ fun e w' he cause hcause => ⟨true, he cause hcause⟩
  intro _ w' hrearm
  exact hrearm.forget.mono (fun _ _ hend => hend) fun _ _ he => he.elim

end Rewind.Watch
