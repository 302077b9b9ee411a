import Rewind.Proofs.Histories
import Rewind.Proofs.Lives

/-! Arming a monitor once more. It takes the regions of earlier tables with it, goes by what an
earlier thread has said, and tells its thread to stop at once if an earlier one was told to; so it
does as it should on a monitor that keeps nothing of this, and on no other. -/
namespace Rewind.Watch

open Monitor (Point State Thread Readiness smallestStack)

/-- A table that lies in memory. -/
def Tabled (table : List Slot) : Prop := table.length * 24 ≤ Mapping.limit

/-- Arming does as on a monitor that was just set up: it raises no fault, a refused region that it
reports is one of the table and was refused so by the kernel, and if it comes back, all regions of
the table and no others are tracked and guarded, with the thread in its fault loop. -/
structure ArmsAsNew (monitor : Monitor) : Prop where
  safe : ∀ machine table timeout cause w, Tabled table →
    (arm table timeout).on ⟨machine, monitor⟩ ≠ (.error (.fault cause), w)
  reports : ∀ machine table timeout span stage errno w, Tabled table →
    (arm table timeout).on ⟨machine, monitor⟩ =
      (.error (.error (.failure (.registration span stage errno))), w) →
    ∃ i slot, table[i]? = some slot ∧ slot.span = span ∧ w.Refused table i stage errno
  arms : ∀ machine table timeout w, Tabled table →
    (arm table timeout).on ⟨machine, monitor⟩ = (.ok (), w) → Armed machine.memory table w

theorem extend_refused_meets {slots : PrivateArray Slot 24} (hf : slots.Fits) {table : List Slot}
    (ht : Tabled table) :
    (PrivateArray.extend Mapping.refusal table.toArray).Meets slots (fun _ _ => True)
      (fun e _ => ∃ errno, e = .error errno) := by
  have hroom : 2 * (slots.size + table.toArray.size) * 24 + 3 * Page.size < Word.limit := by
    have hsize := hf.size_le
    have hbytes := hf.bytes_le
    simp only [Tabled, Mapping.limit, Page.size, Word.limit, List.size_toArray] at *
    omega
  simp only [PrivateArray.extend, Act.meets_bind, Act.meets_modify]
  refine (PrivateArray.reserve_refused_meets (by decide) Mapping.refusal hroom).mono (fun _ _ h => h) ?_
  intro e v hpost
  obtain ⟨errno, -, he, -⟩ := hpost
  exact ⟨errno, he⟩

/-- A monitor that was handed nothing and has said nothing is as good as new. -/
theorem armsAsNew_of_empty {monitor : Monitor} (hu : monitor.Unspent)
    (he : monitor.slots.size = 0) :
    ArmsAsNew monitor := by
  have hnil : monitor.slots.items.toList = [] := by
    rw [Array.toList_eq_nil_iff]
    exact Array.eq_empty_of_size_eq_zero he
  have hmeets (machine : Machine) (table : List Slot) (timeout : Duration) :=
    arm_meets (w := ⟨machine, monitor⟩) hu table timeout
  constructor
  · intro machine table timeout cause w ht hon
    have htrouble := (hmeets machine table timeout).error hon
    rcases htrouble with ⟨v, hv⟩ | hsome
    · obtain ⟨errno, hno⟩ := (extend_refused_meets hu.slotsFit ht).error hv
      cases hno
    · exact hsome he
  · intro machine table timeout span stage errno w ht hon
    have htrouble := (hmeets machine table timeout).error hon
    rwa [ArmTrouble, hnil, List.nil_append] at htrouble
  · intro machine table timeout w ht hon
    have harmed := (hmeets machine table timeout).ok hon
    rwa [hnil, List.nil_append] at harmed

/-- On too small a stack no thread is ever started. -/
theorem armsAsNew_of_small {monitor : Monitor} (hu : monitor.Untroubled)
    (hthread : monitor.thread = none) (hs : monitor.stack.usable < smallestStack) :
    ArmsAsNew monitor := by
  have hmeets (machine : Machine) (table : List Slot) (timeout : Duration) (ht : Tabled table) :
      (arm table timeout).Meets ⟨machine, monitor⟩ (fun _ _ => False) (fun e _ => ∃ errno,
        e = .error (.failure (.privateMemory errno)) ∨
          e = .error (.failure (.monitorThread errno))) := by
    simp only [arm, Act.meets_bind, Act.meets_get, Act.meets_ite, Act.meets_focus,
      Act.meets_mapError, hthread]
    refine ⟨by simp, fun _ => ?_⟩
    apply (extend_refused_meets hu.slotsFit ht).mono
    · intro _ v _
      simp only [startThread, Act.meets_bind, Act.meets_get, Act.meets_ite, meets_fail]
      exact ⟨fun _ => ⟨_, .inr rfl⟩, fun hlarge => absurd hs hlarge⟩
    · intro _ v hpost
      obtain ⟨errno, rfl⟩ := hpost
      exact ⟨errno, .inl rfl⟩
  constructor
  · intro machine table timeout cause w ht hon
    rcases (hmeets machine table timeout ht).error hon with ⟨errno, he | he⟩ <;> cases he
  · intro machine table timeout span stage errno w ht hon
    rcases (hmeets machine table timeout ht).error hon with ⟨errno, he | he⟩ <;> cases he
  · intro machine table timeout w ht hon
    exact ((hmeets machine table timeout ht).ok hon).elim

/-- A machine whose kernel lets no region be tracked. -/
def refusing : Machine :=
  .start .empty [⟨.register, none, .refuse .busy⟩]

theorem serve_refusing {w : Watch} {slot : Slot} (hr : w.kernel.rules = refusing.kernel.rules)
    (ht : w.monitor.thread = some .fresh) (hs : w.monitor.slots.items[0]? = some slot) :
    serve.Meets w (fun _ w' => w'.monitor.thread = some ⟨.ended, false⟩ ∧
      w'.monitor.readiness = .refused 0 .register .busy) (fun _ _ => False) := by
  have hask (k : Kernel) (hk : k.rules = refusing.kernel.rules) :
      (k.ask .register).1 = some (.refuse .busy) := by
    simp [Kernel.ask, hk, refusing, Machine.start, Kernel.scripted, Kernel.Rule.answer?]
  simp only [serve, Act.meets_bind, Act.meets_get]
  obtain ⟨n, hn⟩ : ∃ n, patience w = n + 4 := ⟨patience w - 4, by unfold patience; omega⟩
  rw [hn]
  simp only [serveFor, Act.meets_bind, Act.meets_get, ht, Monitor.Thread.fresh, perform, hs,
    meets_request, Machine.register, Machine.meets_ask, hask _ hr, Act.meets_fail, Act.meets_pure,
    setThread, meets_modifyMonitor, meets_setState]
  exact ⟨trivial, trivial⟩

/-- There a table whose first region is refused is reported as if no region had been handed over
before: the thread is taken to have said what an earlier one said, and the index of the refusal
counts the regions of earlier tables. -/
theorem arm_refusing_meets {monitor : Monitor} {table : List Slot}
    (hthread : monitor.thread = none) (hs : smallestStack ≤ monitor.stack.usable)
    (hx : (PrivateArray.extend Mapping.refusal table.toArray).Meets monitor.slots
      (fun _ v => 0 < v.size) fun _ _ => False)
    (ht : monitor.readiness ≠ .armed → table = []) (timeout : Duration) :
    (arm table timeout).Meets ⟨refusing, monitor⟩
      (fun _ w => w.monitor.thread = some ⟨.ended, false⟩)
      (fun e _ => ∃ cause, e = .fault cause) := by
  simp only [arm, Act.meets_bind, Act.meets_get, Act.meets_ite, Act.meets_focus,
    Act.meets_mapError, hthread]
  refine ⟨by simp, fun _ => hx.mono ?_ fun _ _ he => he.elim⟩
  intro _ v hv
  simp only [startThread, Act.meets_bind, Act.meets_get, Act.meets_ite, meets_fail,
    meets_onMachine_ask]
  refine ⟨fun hsmall => absurd hs hsmall.not_ge, fun _ => ?_⟩
  have hask : (refusing.kernel.ask .startThread).1 = none := rfl
  simp only [slots, hask, meets_modifyMonitor]
  refine (serve_refusing rfl rfl (Array.getElem?_eq_getElem hv)).mono ?_ fun _ _ he => he.elim
  intro _ w hpost
  obtain ⟨hended, hrefused⟩ := hpost
  refine (heard_meets _).mono ?_ fun _ _ he => he.elim
  intro r _ hpost
  obtain ⟨rfl, hr⟩ := hpost
  split
  · simpa only [Act.meets_bind, meets_modifyMonitor, meets_onMachine_log] using hended
  · next i stage errno =>
    have hnil : table = [] := ht fun harmed => by simp [harmed] at hr
    rw [Act.meets_bind]
    refine (join_of_ended hended).mono ?_ fun _ _ he => he.elim
    rintro - w' -
    rw [hnil]
    exact Act.meets_throw.mpr ⟨_, rfl⟩
  · exfalso
    split at hr
    · rw [hrefused] at hr
      cases hr
    · next hne => exact hne hr.symm

/-- A monitor on which a thread ends with the first region does not do as a new one. -/
theorem not_armsAsNew_of_refusing {monitor : Monitor} (table : List Slot)
    (hthread : monitor.thread = none) (hs : smallestStack ≤ monitor.stack.usable)
    (hx : (PrivateArray.extend Mapping.refusal table.toArray).Meets monitor.slots
      (fun _ v => 0 < v.size) fun _ _ => False)
    (ht : monitor.readiness ≠ .armed → table = []) (hsize : Tabled table) : ¬ArmsAsNew monitor := by
  intro h
  have hmeets := arm_refusing_meets hthread hs hx ht .zero
  have hself := Act.meets_self (arm table .zero) ⟨refusing, monitor⟩
  have hnever : (arm table .zero).Meets ⟨refusing, monitor⟩ (fun _ _ => False)
      (fun _ _ => False) := by
    apply (hself.and hmeets).mono
    · intro _ w hpost
      obtain ⟨hon, hended⟩ := hpost
      obtain ⟨p, hp, hwaits⟩ := (h.arms _ _ _ _ hsize hon).waiting
      rw [hended] at hp
      cases hp
      exact hwaits
    · intro e w hpost
      obtain ⟨hon, cause, rfl⟩ := hpost
      exact h.safe _ _ _ _ _ hsize hon
  obtain ⟨_, _, -, hfalse⟩ := hnever.exists_ok
  exact hfalse

theorem extend_empty_meets {slots : PrivateArray Slot 24} (hf : slots.Fits) :
    (PrivateArray.extend Mapping.refusal #[]).Meets slots (fun _ v => v.items = slots.items)
      (fun _ _ => False) := by
  have hsize := hf.size_le
  have hadd : Word.add slots.size 0 = .ok slots.size := by
    have hbytes := hf.bytes_le
    refine Word.add_eq_ok_iff.mpr ⟨?_, rfl⟩
    simp only [Mapping.limit, Page.size, Word.limit] at *
    omega
  simp [PrivateArray.extend, PrivateArray.reserve, hadd, hsize.not_gt]

/-- Once it has no thread, a monitor arms as a new one does exactly if no region was ever handed to
it and no thread of it has said anything; on too small a stack it never starts a thread. -/
theorem armsAsNew_iff {monitor : Monitor} (hl : Lived monitor) (ht : monitor.thread = none) :
    ArmsAsNew monitor ↔
      monitor.slots.size = 0 ∧ monitor.readiness = .pending ∧ monitor.stopSignalled = false ∨
        monitor.stack.usable < smallestStack := by
  have hu := hl.untroubled
  constructor
  · intro h
    by_contra hno
    obtain ⟨hused, hlarge⟩ := not_or.mp hno
    have hs : smallestStack ≤ monitor.stack.usable := not_lt.mp hlarge
    by_cases hsize : monitor.slots.size = 0
    · have harmed : monitor.readiness = .armed := by
        cases hr : monitor.readiness with
        | pending => exact absurd ⟨hsize, hr, (hu.unspent ht hr).running⟩ hused
        | armed => rfl
        | refused i stage errno => exact absurd (hu.index i stage errno hr) (by omega)
      have hone := (PrivateArray.extend_meets (by decide) hu.slotsFit #[default]).and
        (PrivateArray.extend_isOk (by decide) monitor.slots #[default] (by
          rw [hsize]
          decide))
      refine not_armsAsNew_of_refusing [default] ht hs (hone.mono ?_ fun _ _ he => he.2)
        (fun hne => absurd harmed hne) (by unfold Tabled; decide) h
      intro _ v hpost
      obtain ⟨⟨hitems, -⟩, -⟩ := hpost
      simp [PrivateArray.size, hitems]
    · have hnone := extend_empty_meets hu.slotsFit
      refine not_armsAsNew_of_refusing [] ht hs (hnone.mono ?_ fun _ _ he => he)
        (fun _ => rfl) (by unfold Tabled; decide) h
      intro _ v hitems
      rw [PrivateArray.size, hitems]
      exact Nat.pos_of_ne_zero hsize
  · rintro (⟨he, hr, -⟩ | hs)
    · exact armsAsNew_of_empty (hu.unspent ht hr) he
    · exact armsAsNew_of_small hu ht hs

/-- After its first region was refused, a monitor no longer arms as a new one. -/
theorem armsAsNew_iff_refused : ∃ cause w,
    (arm twoRegions .zero).on ⟨refusing, justBuilt.monitor⟩ =
      (.error (.error (.failure cause)), w) ∧
      ¬ArmsAsNew w.monitor := by
  obtain ⟨m, hnew⟩ := new_justBuilt
  have hresult : ((arm twoRegions .zero).on ⟨refusing, justBuilt.monitor⟩).1 = .error (.error
      (.failure (.registration ⟨4096, 12288, by decide, by decide⟩ .register .busy))) := by
    decide +kernel
  have hthread : ((arm twoRegions .zero).on ⟨refusing, justBuilt.monitor⟩).2.monitor.thread =
      none := by decide +kernel
  have hsize : ((arm twoRegions .zero).on ⟨refusing, justBuilt.monitor⟩).2.monitor.slots.size =
      2 := by decide +kernel
  have hstack : ((arm twoRegions .zero).on ⟨refusing, justBuilt.monitor⟩).2.monitor.stack.usable =
      65536 := by decide +kernel
  generalize hon : (arm twoRegions .zero).on ⟨refusing, justBuilt.monitor⟩ = result at *
  obtain ⟨r, w⟩ := result
  obtain rfl : r = _ := hresult
  dsimp only at hthread hsize hstack
  have hbuilt : Lived (Watch.mk refusing justBuilt.monitor).monitor := .new hnew
  have hlived : Lived w.monitor := .arm hbuilt hon (by simp)
  refine ⟨_, w, rfl, fun h => ?_⟩
  rcases (armsAsNew_iff hlived hthread).mp h with ⟨hempty, -⟩ | hsmall
  · omega
  · rw [hstack] at hsmall
    exact absurd hsmall (by decide)

end Rewind.Watch
