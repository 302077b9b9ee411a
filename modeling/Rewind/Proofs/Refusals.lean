import Rewind.Proofs.Restores

/-! Guarding captured pages again, and being refused. The kernel is asked page by page, in the order
of capture; what was asked for before the page that it refuses first stays guarded, and nothing
else changes. -/
namespace Rewind

namespace Kernel

/-- What the script answers to a call of a kind that comes after so many others of that kind. -/
def answerAfter (k : Kernel) (call : Call) (i : Nat) : Option Answer :=
  k.rules.findSome? fun rule => rule.answer? call (k.count call + i + 1)

theorem answerAfter_ask (k : Kernel) (call : Call) (i : Nat) :
    (k.ask call).2.answerAfter call i = k.answerAfter call (i + 1) := by
  have hcount : k.count call + 1 + i + 1 = k.count call + (i + 1) + 1 := by omega
  unfold answerAfter
  rw [count_ask, hcount]
  rfl

/-- The script holds no request back. -/
def Prompt (k : Kernel) : Prop := ∀ rule ∈ k.rules, rule.answer ≠ .hold

theorem Prompt.ask {k : Kernel} (h : k.Prompt) (call : Call) : (k.ask call).1 ≠ some .hold := by
  intro hask
  obtain ⟨rule, hrule, hanswer⟩ := List.exists_of_findSome?_eq_some hask
  unfold Rule.answer? at hanswer
  split at hanswer
  · exact h rule hrule (Option.some.inj hanswer)
  · cases hanswer

theorem Prompt.of_rules {k k' : Kernel} (h : k.Prompt) (hk : k'.rules = k.rules) : k'.Prompt :=
  fun rule hrule => h rule (hk ▸ hrule)

end Kernel

/-- A whole page of the usable address space starts at this address. -/
structure Page.Usable (page : Nat) : Prop where
  aligned : IsAligned page
  low : page + size ≤ Mapping.limit

namespace Machine

/-- Why the kernel refuses to guard a page, when that is asked for after so many other pages: the
script says so, or writes to the page are not tracked. -/
def refusal? (m : Machine) (i page : Nat) : Option Errno :=
  match m.kernel.answerAfter .protect i with
  | some (.refuse errno) => some errno
  | _ => if m.memory.isTracked (Page.number page) then none else some .noent

/-- Asked to guard pages in order, the kernel refuses none. -/
def GuardsAll (m : Machine) (pages : List Nat) : Prop :=
  ∀ i page, pages[i]? = some page → m.refusal? i page = none

/-- Asked to guard pages in order, the kernel refuses the page at this position and none before. -/
structure FirstRefused (m : Machine) (pages : List Nat) (i page : Nat) (errno : Errno) : Prop where
  place : pages[i]? = some page
  refused : m.refusal? i page = some errno
  before : m.GuardsAll (pages.take i)

variable {m : Machine} {pages : List Nat}

theorem refusal?_zero_of_refused {errno : Errno}
    (h : (m.kernel.ask .protect).1 = some (.refuse errno)) (page : Nat) :
    m.refusal? 0 page = some errno := by
  have hanswer : m.kernel.answerAfter .protect 0 = some (.refuse errno) := h
  simp only [refusal?, hanswer]

theorem refusal?_zero_of_let (h : ∀ errno, (m.kernel.ask .protect).1 ≠ some (.refuse errno))
    (page : Nat) : m.refusal? 0 page =
      if m.memory.isTracked (Page.number page) then none else some .noent := by
  have hanswer : (m.kernel.ask .protect).1 = m.kernel.answerAfter .protect 0 := rfl
  rw [hanswer] at h
  unfold refusal?
  split
  · next errno hrefused => exact absurd hrefused (h errno)
  · rfl

theorem guardsAll_nil (m : Machine) : m.GuardsAll [] := by
  intro i page hi
  simp at hi

/-- With one page guarded, the kernel answers about the others as it would have one request later. -/
theorem refusal?_called (m : Machine) (n i page : Nat) :
    refusal? { m.called .protect with memory := m.memory.mark n true } i page =
      m.refusal? (i + 1) page := by
  have hanswer := m.kernel.answerAfter_ask .protect i
  simp only [refusal?, called, hanswer, Memory.isTracked_mark]

theorem guardsAll_cons {n page : Nat} (h : m.refusal? 0 page = none)
    (hrest : GuardsAll { m.called .protect with memory := m.memory.mark n true } pages) :
    m.GuardsAll (page :: pages) := by
  intro i a hi
  cases i with
  | zero =>
    obtain rfl : page = a := Option.some.inj hi
    exact h
  | succ i =>
    rw [← refusal?_called m n]
    exact hrest i a hi

theorem FirstRefused.cons {n page i a : Nat} {errno : Errno} (h : m.refusal? 0 page = none)
    (hrest : FirstRefused { m.called .protect with memory := m.memory.mark n true } pages i a errno) :
    m.FirstRefused (page :: pages) (i + 1) a errno := by
  constructor
  · exact hrest.place
  · rw [← refusal?_called m n]
    exact hrest.refused
  · exact guardsAll_cons h hrest.before

theorem FirstRefused.not_guardsAll {i page : Nat} {errno : Errno}
    (h : m.FirstRefused pages i page errno) : ¬m.GuardsAll pages := by
  intro hall
  have hnone := hall i page h.place
  rw [h.refused] at hnone
  cases hnone

end Machine

namespace Watch

variable {w : Watch}

/-- A page is guarded again as the kernel has it. -/
theorem rearmPage_exact {page : Nat} (hp : Page.Usable page) : (rearmPage page).Meets w
    (fun _ w' => w.refusal? 0 page = none ∧ w' = { w with toMachine :=
      { w.toMachine.called .protect with memory := w.memory.mark (Page.number page) true } })
    (fun e w' => (∃ errno, w.refusal? 0 page = some errno ∧
        e = .error (.failure (.rearm page errno)) ∧ ∃ k : Kernel, w' = { w with kernel := k }) ∨
      ¬w.kernel.Prompt ∧ e = .error (.halt .stalled)) := by
  obtain ⟨haligned, hlow⟩ := hp
  obtain ⟨n, rfl⟩ := haligned.exists_mul
  have hlimit : Mapping.limit < Word.limit := by decide
  obtain ⟨span, hspan⟩ := Span.ofLength_isOk (hlow.trans_lt hlimit)
  simp only [rearmPage, Act.meets_bind, Act.meets_faulty, hspan, Page.number_mul]
  refine ⟨?_, by simp⟩
  rintro _ ⟨⟩
  simp only [meets_request, Machine.guard, Machine.requestMemory, Act.meets_bind, Machine.meets_ask]
  split
  · next errno hask =>
    have hrefused := Machine.refusal?_zero_of_refused hask (n * Page.size)
    exact Act.meets_fail.mpr (meets_fail.mpr (.inl ⟨errno, hrefused, rfl, _, rfl⟩))
  · next hask =>
    have hnatural := Machine.refusal?_zero_of_let (fun errno h => hask errno h) (n * Page.size)
    rw [Page.number_mul] at hnatural
    rw [Act.meets_bind, Act.meets_request, Machine.memory_called]
    cases ht : w.memory.isTracked n with
    | true =>
      rw [ht, if_pos rfl] at hnatural
      rw [Memory.setGuarded_page_of_tracked true hspan ht hlow]
      refine ⟨fun _ _ => Act.meets_pure.mpr ?_, by rintro _ ⟨⟩⟩
      split
      · exact Act.meets_pure.mpr ⟨hnatural, rfl⟩
      · next hlate =>
        refine meets_halt.mpr (.inr ⟨fun hprompt => ?_, rfl⟩)
        rw [if_neg (hprompt.ask .protect)] at hlate
        cases hlate
      · next hlate => cases hlate
    | false =>
      rw [ht, if_neg (by decide)] at hnatural
      rw [Memory.setGuarded_page_of_not_tracked true hspan ht hlow]
      refine ⟨by rintro _ ⟨⟩, ?_⟩
      rintro errno ⟨⟩
      exact meets_fail.mpr (.inl ⟨.noent, hnatural, rfl, _, rfl⟩)

/-- Pages are guarded again up to the first that the kernel refuses. -/
theorem rearmAll_exact {pages : List Nat} (hp : ∀ page ∈ pages, Page.Usable page) :
    (rearmAll pages).Meets w
      (fun _ w' => w.GuardsAll pages ∧ ∃ k : Kernel, w' =
        { w with kernel := k, memory := w.memory.guardAll (pages.map Page.number) })
      (fun e w' => (∃ i page errno, w.FirstRefused pages i page errno ∧
          e = .error (.failure (.rearm page errno)) ∧ ∃ k : Kernel, w' =
            { w with kernel := k, memory := w.memory.guardAll ((pages.take i).map Page.number) }) ∨
        ¬w.kernel.Prompt ∧ e = .error (.halt .stalled)) := by
  induction pages generalizing w with
  | nil => exact Act.meets_pure.mpr ⟨w.guardsAll_nil, _, rfl⟩
  | cons page pages ih =>
    obtain ⟨hpage, hpages⟩ := List.forall_mem_cons.mp hp
    simp only [rearmAll, Act.meets_bind]
    apply (rearmPage_exact hpage).mono
    · intro _ _ hpost
      obtain ⟨hnone, rfl⟩ := hpost
      apply (ih hpages).mono
      · intro _ _ hpost
        obtain ⟨hall, k, rfl⟩ := hpost
        exact ⟨Machine.guardsAll_cons hnone hall, k, rfl⟩
      · intro e _ hpost
        rcases hpost with ⟨i, a, errno, hfirst, rfl, k, rfl⟩ | hstalled
        · exact .inl ⟨i + 1, a, errno, hfirst.cons hnone, rfl, k, rfl⟩
        · exact .inr hstalled
    · intro e _ hpost
      rcases hpost with ⟨errno, hrefused, rfl, k, rfl⟩ | hstalled
      · exact .inl ⟨0, page, errno, ⟨rfl, hrefused, w.guardsAll_nil⟩, rfl, k, rfl⟩
      · exact .inr hstalled

end Watch

end Rewind
