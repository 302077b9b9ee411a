import Mathlib.Tactic
import Rewind.CommandLine.Options
import Rewind.Demo.Catalog
import Rewind.Monitor.Basic
import Rewind.Proofs.Growth
import Rewind.Proofs.Medians
import Rewind.Proofs.Requests
import Rewind.Proofs.Scribbles
import Rewind.Schedule.Run

/-! Limits: the numbers from which on setting up gives up instead of reporting an error. Each part
has its own, since sizes go through page rounding, a guard page, doubling and products unchecked. -/
namespace Rewind

section GivingUp

variable {σ ε α : Type}

def Outcome.GivesUp (x : Outcome ε α) : Prop := ∃ cause, x = .error (.fault cause)

def Act.GivesUp (act : Act σ ε α) (s : σ) : Prop := (act.on s).1.GivesUp

theorem Outcome.givesUp_mapError {δ : Type} (f : ε → δ) {x : Outcome ε α} :
    (x.mapError f).GivesUp ↔ x.GivesUp := by
  unfold GivesUp
  rcases x with (_ | _) | _ <;> simp [Outcome.mapError]

theorem Outcome.givesUp_map {β : Type} (f : α → β) {x : Outcome ε α} :
    Outcome.GivesUp (x >>= fun a => .ok (f a) : Outcome ε β) ↔ x.GivesUp := by
  unfold GivesUp
  cases x <;> simp [bind, Except.bind]

theorem Act.givesUp_iff_of_meets {act : Act σ ε α} {s : σ} {P : Prop}
    (h : act.Meets s (fun _ _ => ¬P) fun e _ => (∃ cause, e = .fault cause) ↔ P) :
    act.GivesUp s ↔ P := by
  unfold GivesUp Outcome.GivesUp
  rcases hs : act.on s with ⟨e | a, s'⟩
  · simpa using h.error hs
  · simpa using h.ok hs

theorem Act.meets_givesUp (act : Act σ ε α) (s : σ) :
    act.Meets s (fun _ _ => ¬act.GivesUp s) fun e _ => (∃ cause, e = .fault cause) ↔
      act.GivesUp s := by
  apply (Act.meets_self act s).mono
  · intro a s' hs
    simp [GivesUp, Outcome.GivesUp, hs]
  · intro e s' hs
    simp [GivesUp, Outcome.GivesUp, hs]

end GivingUp

section Stacks

theorem Page.ceil_givesUp_iff {x : Nat} :
    (∃ f, ceil x = .error f) ↔ Word.limit ≤ x + size := by
  cases hx : ceil x with
  | ok y => simp [(ceil_eq_ok_iff.mp hx).1]
  | error f =>
    simp only [Except.error.injEq, exists_eq', true_iff]
    by_contra hlt
    obtain ⟨y, hy⟩ := ceil_isOk (not_le.mp hlt)
    cases hx.symm.trans hy

theorem Page.ceil_two_pow {n : Nat} (h : 12 ≤ n) (hn : n < 64) : ceil (2 ^ n) = .ok (2 ^ n) := by
  obtain ⟨k, rfl⟩ := Nat.exists_eq_add_of_le h
  have hbound : 2 ^ (12 + k) ≤ 2 ^ 63 := Nat.pow_le_pow_right Nat.two_pos (by omega)
  have hsize : size = 4096 := rfl
  have hlimit : Word.limit = 2 ^ 64 := rfl
  rw [Nat.pow_add] at hbound ⊢
  apply ceil_eq_ok_iff.mpr
  rw [floor, hsize]
  omega

theorem Mapping.new_not_givesUp {refusal : Refusal} {length : Nat} (h : length ≤ 2 ^ 63) :
    ¬(Mapping.new refusal length).GivesUp := by
  intro ⟨cause, hcause⟩
  have hlimit : max length 1 + Page.size < Word.limit := by
    have hword : Word.limit = 2 ^ 64 := rfl
    have hsize : Page.size = 4096 := rfl
    omega
  obtain ⟨errno, total, herror, -⟩ := Mapping.new_refused hcause hlimit
  cases herror

theorem Mapping.withGuard_eq (refusal : Refusal) (length : Nat) :
    Mapping.withGuard refusal length = match Page.ceil (max length 1) with
      | .error f => .error (.fault f)
      | .ok usable => match Word.add usable Page.size with
        | .error f => .error (.fault f)
        | .ok total => match refusal total with
          | some errno => .error (.error errno)
          | none => .ok ⟨total, Page.size⟩ := by
  have hguard : Page.ceil 1 = .ok Page.size := rfl
  unfold Mapping.withGuard
  rw [hguard, Outcome.lift_ok_bind]
  cases Page.ceil (max length 1) with
  | error f => rfl
  | ok usable =>
    rw [Outcome.lift_ok_bind]
    dsimp only
    cases Word.add usable Page.size <;> rfl

/-- The usable pages and the guard have to be words together, and rounding adds a page first. -/
theorem Mapping.withGuard_givesUp_iff (refusal : Refusal) (length : Nat) :
    (Mapping.withGuard refusal length).GivesUp ↔ Word.limit - 2 * Page.size < length := by
  have hlimit : Word.limit = 2 ^ 64 := rfl
  have hsize : Page.size = 4096 := rfl
  rw [Mapping.withGuard_eq, Outcome.GivesUp]
  cases husable : Page.ceil (max length 1) with
  | error f =>
    have hlarge := Page.ceil_givesUp_iff.mp ⟨f, husable⟩
    exact iff_of_true ⟨f, rfl⟩ (by omega)
  | ok usable =>
    obtain ⟨hfits, hfloor⟩ := Page.ceil_eq_ok_iff.mp husable
    rw [Page.floor, hsize] at hfloor
    dsimp only
    cases htotal : Word.add usable Page.size with
    | error f =>
      have hlarge : Word.limit ≤ usable + Page.size := by
        by_contra hlt
        cases htotal.symm.trans (Word.add_eq_ok_iff.mpr ⟨not_le.mp hlt, rfl⟩)
      exact iff_of_true ⟨f, rfl⟩ (by omega)
    | ok total =>
      obtain ⟨hlt, rfl⟩ := Word.add_eq_ok_iff.mp htotal
      have hsmall : ¬Word.limit - 2 * Page.size < length := by omega
      cases hrefusal : refusal (usable + Page.size) <;> simp [hrefusal, hsmall]

theorem Context.new_givesUp_iff (stackSize : Nat) :
    (Context.new stackSize).GivesUp ↔ Word.limit - 2 * Page.size < stackSize := by
  rw [← Mapping.withGuard_givesUp_iff Mapping.refusal]
  unfold Context.new Outcome.GivesUp
  rcases Mapping.withGuard Mapping.refusal stackSize with (_ | _) | _ <;>
    simp [Outcome.mapError, bind, Except.bind, pure, Except.pure]

/-- The event that stops the thread comes first, and it may be refused. -/
theorem Monitor.new_givesUp_iff (channel : Tracking.Channel) (stackSize : Nat) (m : Machine) :
    (Monitor.new channel stackSize).GivesUp m ↔
      (∀ errno, (m.kernel.ask .eventfd).1 ≠ some (.refuse errno)) ∧
        Word.limit - 2 * Page.size < stackSize := by
  have hstack := (Outcome.givesUp_mapError Failure.privateMemory).trans
    (Mapping.withGuard_givesUp_iff Mapping.refusal stackSize)
  have hblock : (Mapping.new Mapping.refusal Page.size).mapError Failure.privateMemory =
      .ok ⟨Page.size, 0⟩ := rfl
  apply Act.givesUp_iff_of_meets
  simp only [Monitor.new, Act.meets_bind, Machine.meets_ask]
  split
  · next errno hask => exact Act.meets_fail.mpr (by simp [hask])
  · next hask =>
    have hgranted : ∀ errno, (m.kernel.ask .eventfd).1 ≠ some (.refuse errno) := hask
    simp only [Act.meets_bind, Act.meets_outcome, Act.meets_pure, hblock, ← hstack]
    constructor
    · intro stack hs
      rw [hs]
      simp [Outcome.GivesUp]
    · intro e he
      rw [he]
      simp [Outcome.GivesUp, hgranted]

end Stacks

namespace PrivateArray

variable {α : Type} {width w : Nat}

/-- A capacity that grew by doubling only. -/
def Doubled (capacity : Nat) : Prop := capacity = 0 ∨ ∃ a, capacity = 2 ^ a

theorem doubleUntil_two_pow {needed a c : Nat} (hac : a ≤ c) (hc : c < 64)
    (hn : needed ≤ 2 ^ c) : ∃ b, a ≤ b ∧ b ≤ c ∧ doubleUntil needed (2 ^ a) = .ok (2 ^ b) := by
  induction hac using Nat.decreasingInduction with
  | self =>
    refine ⟨c, le_rfl, le_rfl, ?_⟩
    rw [doubleUntil, if_neg (by omega)]
  | of_succ a hac ih =>
    obtain ⟨b, hab, hb, hdouble⟩ := ih
    rw [doubleUntil]
    split
    · have hword : 2 ^ a * 2 < Word.limit := by
        rw [← Nat.pow_succ]
        exact Nat.pow_lt_pow_right Nat.one_lt_two (show a + 1 < 64 by omega)
      rw [if_pos hword, ← Nat.pow_succ]
      exact ⟨b, by omega, hb, hdouble⟩
    · exact ⟨a, le_rfl, by omega, rfl⟩

theorem exists_two_pow_of_doubleUntil {needed capacity r a : Nat}
    (h : doubleUntil needed capacity = .ok r) (ha : capacity = 2 ^ a) :
    ∃ b, a ≤ b ∧ r = 2 ^ b := by
  fun_induction doubleUntil needed capacity generalizing a with
  | case1 capacity hlt hword ih =>
    obtain ⟨b, hb, hr⟩ := ih h (a := a + 1) (by rw [ha, Nat.pow_succ])
    exact ⟨b, by omega, hr⟩
  | case2 => cases h
  | case3 =>
    cases h
    exact ⟨a, le_rfl, ha⟩

/-- Doubling starts at a power of two that fills a page. -/
theorem exists_start {capacity : Nat} (hw : w ≤ 12) (hc : Doubled capacity) :
    ∃ a, max capacity (max (Page.size / 2 ^ w) 1) = 2 ^ a ∧ 12 ≤ a + w ∧
      (a + w = 12 ∨ capacity = 2 ^ a) := by
  have hpage : max (Page.size / 2 ^ w) 1 = 2 ^ (12 - w) := by
    have hdiv : Page.size / 2 ^ w = 2 ^ (12 - w) := Nat.pow_div hw Nat.two_pos
    rw [hdiv]
    exact max_eq_left Nat.one_le_two_pow
  rw [hpage]
  rcases hc with rfl | ⟨a, rfl⟩
  · exact ⟨12 - w, by simp, by omega, by omega⟩
  · rcases Nat.le_total a (12 - w) with h | h
    · exact ⟨12 - w, max_eq_right (Nat.pow_le_pow_right Nat.two_pos h), by omega, by omega⟩
    · exact ⟨a, max_eq_left (Nat.pow_le_pow_right Nat.two_pos h), by omega, .inr rfl⟩

/-- Twice the capacity, or a page, is doubled until it is enough. -/
theorem exists_nextCapacity {capacity needed : Nat} (hw : w ≤ 12) (hc : Doubled capacity)
    (hcapacity : capacity * 2 ^ w ≤ 2 ^ 63) (hn : needed * 2 ^ w ≤ 2 ^ 63) :
    ∃ b, b + w < 64 ∧ nextCapacity (2 ^ w) capacity needed = .ok (2 ^ b) := by
  have hexp : ∀ n, n * 2 ^ w ≤ 2 ^ 63 ↔ n ≤ 2 ^ (63 - w) := by
    intro n
    rw [← Nat.le_div_iff_mul_le (Nat.two_pow_pos w), Nat.pow_div (by omega) Nat.two_pos]
  obtain ⟨a, hstart, hpage, hfrom⟩ := exists_start hw hc
  have ha : a ≤ 63 - w := by
    rcases hfrom with h | rfl
    · omega
    · exact (Nat.pow_le_pow_iff_right Nat.one_lt_two).mp ((hexp _).mp hcapacity)
  obtain ⟨b, hab, hb, hdouble⟩ := doubleUntil_two_pow ha (by omega) ((hexp needed).mp hn)
  have hceil : Page.ceil (2 ^ b * 2 ^ w) = .ok (2 ^ (b + w)) := by
    rw [← Nat.pow_add]
    exact Page.ceil_two_pow (by omega) (by omega)
  have hword : 2 ^ b * 2 ^ w < Word.limit := by
    rw [← Nat.pow_add]
    exact Nat.pow_lt_pow_right Nat.one_lt_two (show b + w < 64 by omega)
  have hfill : 2 ^ b = 2 ^ (b + w) / 2 ^ w := by
    rw [Nat.pow_add, Nat.mul_div_cancel _ (Nat.two_pow_pos w)]
  rw [← hstart] at hdouble
  exact ⟨b, by omega, nextCapacity_eq_ok_iff.mpr ⟨_, _, hdouble, hword, hceil, hfill⟩⟩

theorem exists_two_pow_of_nextCapacity {capacity needed r : Nat} (hw : w ≤ 12)
    (hc : Doubled capacity) (h : nextCapacity (2 ^ w) capacity needed = .ok r) :
    ∃ b, r = 2 ^ b ∧ b + w < 64 := by
  obtain ⟨a, hstart, hpage, -⟩ := exists_start hw hc
  obtain ⟨enough, bytes, hdouble, hword, hceil, rfl⟩ := nextCapacity_eq_ok_iff.mp h
  rw [hstart] at hdouble
  obtain ⟨b, hab, rfl⟩ := exists_two_pow_of_doubleUntil hdouble rfl
  rw [← Nat.pow_add] at hword hceil
  have hb : b + w < 64 := (Nat.pow_lt_pow_iff_right Nat.one_lt_two).mp hword
  cases hceil.symm.trans (Page.ceil_two_pow (by omega) hb)
  exact ⟨b, by rw [Nat.pow_add, Nat.mul_div_cancel _ (Nat.two_pow_pos w)], hb⟩

variable {v : PrivateArray α width}

/-- The capacity is none or what doubling gives, within the memory that the kernel gives. -/
structure Modest (v : PrivateArray α width) : Prop where
  fits : v.Fits
  doubled : Doubled v.capacity

theorem Doubled.double {capacity : Nat} (h : Doubled capacity) : Doubled (capacity * 2) := by
  rcases h with rfl | ⟨a, rfl⟩
  · exact .inl rfl
  · exact .inr ⟨a + 1, (Nat.pow_succ 2 a).symm⟩

/-- A next capacity is found unless it takes more bytes than the greatest power of two that is a
word. -/
theorem nextCapacity_cases {capacity : Nat} (hw : w ≤ 12) (hc : Doubled capacity)
    (hcapacity : capacity * 2 ^ w ≤ 2 ^ 63) (needed : Nat) :
    (needed * 2 ^ w ≤ 2 ^ 63 ∧
        ∃ b, b + w < 64 ∧ nextCapacity (2 ^ w) capacity needed = .ok (2 ^ b)) ∨
      (2 ^ 63 < needed * 2 ^ w ∧ ∃ f, nextCapacity (2 ^ w) capacity needed = .error f) := by
  rcases Nat.lt_or_ge (2 ^ 63) (needed * 2 ^ w) with hlarge | hsmall
  · right
    cases hnext : nextCapacity (2 ^ w) capacity needed with
    | error f => exact ⟨hlarge, f, rfl⟩
    | ok r =>
      obtain ⟨b, rfl, hb⟩ := exists_two_pow_of_nextCapacity hw hc hnext
      obtain ⟨hroom, -⟩ := le_nextCapacity (Nat.two_pow_pos w) hnext
      have hbytes : needed * 2 ^ w ≤ 2 ^ (b + w) := by
        rw [Nat.pow_add]
        exact Nat.mul_le_mul_right _ hroom
      have hword : 2 ^ (b + w) ≤ 2 ^ 63 := Nat.pow_le_pow_right Nat.two_pos (by omega)
      omega
  · exact .inl ⟨hsmall, exists_nextCapacity hw hc hcapacity hsmall⟩

/-- Growing gives up exactly on more bytes than the greatest power of two that is a word. -/
theorem reserve_givesUp_iff (hwidth : width = 2 ^ w) (hw : w ≤ 12) (h : v.Modest)
    (refusal : Refusal) (k : Nat) :
    (reserve refusal k).GivesUp v ↔ 2 ^ 63 < (v.size + k) * width := by
  subst hwidth
  have hword : Word.limit = 2 ^ 64 := rfl
  have hlimit : Mapping.limit ≤ 2 ^ 62 := by decide
  have hbytes := h.fits.bytes_le
  have hle : ∀ n, n ≤ n * 2 ^ w := fun n => Nat.le_mul_of_pos_right n (Nat.two_pow_pos w)
  have hcapacity := hle v.capacity
  have hdouble : Word.mul v.capacity 2 = .ok (v.capacity * 2) :=
    Word.mul_eq_ok_iff.mpr ⟨by omega, rfl⟩
  apply Act.givesUp_iff_of_meets
  simp only [reserve, Act.meets_bind, Act.meets_get, Act.meets_faulty, Act.meets_ite,
    Act.meets_outcome, Act.meets_modify, Act.meets_pure, hdouble, Except.ok.injEq, forall_eq',
    reduceCtorEq, false_implies, implies_true, and_true, Word.add_eq_ok_iff]
  constructor
  · intro needed hneeded
    obtain ⟨-, rfl⟩ := hneeded
    constructor
    · intro _
      have htwice : v.capacity * 2 * 2 ^ w ≤ 2 ^ 63 := by
        rw [Nat.mul_right_comm]
        omega
      rcases nextCapacity_cases hw h.doubled.double htwice (v.size + k) with
        ⟨hsmall, b, hb, hnext⟩ | ⟨hlarge, f, hnext⟩
      · have hpow : 2 ^ b * 2 ^ w ≤ 2 ^ 63 := by
          rw [← Nat.pow_add]
          exact Nat.pow_le_pow_right Nat.two_pos (by omega)
        have hmul : Word.mul (2 ^ b) (2 ^ w) = .ok (2 ^ b * 2 ^ w) :=
          Word.mul_eq_ok_iff.mpr ⟨by omega, rfl⟩
        simp only [hnext, hmul, Except.ok.injEq, forall_eq', reduceCtorEq, false_implies,
          implies_true, and_true]
        constructor
        · intro _ _
          omega
        · intro e he
          refine iff_of_false ?_ (by omega)
          rintro ⟨cause, rfl⟩
          exact Mapping.new_not_givesUp hpow ⟨cause, he⟩
      · simpa [hnext] using hlarge
    · intro hroom
      have hsmall : (v.size + k) * 2 ^ w ≤ v.capacity * 2 ^ w :=
        Nat.mul_le_mul_right _ (not_lt.mp hroom)
      omega
  · intro f hf
    have hlarge : Word.limit ≤ v.size + k := by
      by_contra hlt
      cases hf.symm.trans (Word.add_eq_ok_iff.mpr ⟨not_le.mp hlt, rfl⟩)
    have hsum := hle (v.size + k)
    exact iff_of_true ⟨f, rfl⟩ (by omega)

section Histories

theorem reserve_doubled_meets (hw : w ≤ 12) {v : PrivateArray α (2 ^ w)}
    (h : Doubled v.capacity) (refusal : Refusal) (k : Nat) :
    (reserve refusal k).Meets v (fun _ v' => Doubled v'.capacity) fun _ _ => True := by
  simp only [reserve, Act.meets_bind, Act.meets_get, Act.meets_faulty, Act.meets_ite,
    Act.meets_outcome, Act.meets_modify, Act.meets_pure, implies_true, and_true,
    Word.mul_eq_ok_iff]
  intro needed _
  constructor
  · intro _ doubled hdoubled capacity hnext
    obtain ⟨-, rfl⟩ := hdoubled
    obtain ⟨b, rfl, -⟩ := exists_two_pow_of_nextCapacity hw h.double hnext
    exact fun _ _ _ _ => .inr ⟨b, rfl⟩
  · exact fun _ => h

theorem Modest.items (h : v.Modest) {xs : Array α} (hxs : xs.size ≤ v.capacity) :
    ({ v with items := xs } : PrivateArray α width).Modest :=
  ⟨⟨hxs, h.fits.bytes_le⟩, h.doubled⟩

theorem reserve_modest_meets (hwidth : width = 2 ^ w) (hw : w ≤ 12) (h : v.Modest) (k : Nat) :
    (reserve Mapping.refusal k).Meets v
      (fun _ v' => v'.Modest ∧ v'.items = v.items ∧ v.size + k ≤ v'.capacity)
      fun _ v' => v' = v := by
  subst hwidth
  apply ((reserve_meets (Nat.two_pow_pos w) h.fits k).and
    (reserve_doubled_meets hw h.doubled Mapping.refusal k)).mono
  · intro _ v' hpost
    obtain ⟨⟨hitems, hroom, -, hfits, -⟩, hdoubled⟩ := hpost
    exact ⟨⟨hfits, hdoubled⟩, hitems, hroom⟩
  · intro _ _ hpost
    exact hpost.1

theorem act_modest_meets (hwidth : width = 2 ^ w) (hw : w ≤ 12) (h : v.Modest)
    (request : Request α) : (request.act Mapping.refusal).Meets v (fun _ v' => v'.Modest)
      fun _ v' => v' = v := by
  have hsize := h.fits.size_le
  cases request with
  | push x =>
    simp only [Request.act, push, Act.meets_bind, Act.meets_get, Act.meets_ite, Act.meets_modify]
    constructor
    · intro _
      apply (reserve_modest_meets hwidth hw h 1).mono _ fun _ _ h => h
      intro _ v' hpost
      obtain ⟨hmodest, hitems, hroom⟩ := hpost
      exact hmodest.items (by simpa [size, hitems] using hroom)
    · intro hroom
      apply h.items
      rw [Array.size_push]
      exact Nat.lt_of_le_of_ne hsize hroom
  | extend xs =>
    simp only [Request.act, extend, Act.meets_bind, Act.meets_modify]
    apply (reserve_modest_meets hwidth hw h xs.size).mono _ fun _ _ h => h
    intro _ v' hpost
    obtain ⟨hmodest, hitems, hroom⟩ := hpost
    exact hmodest.items (by simpa [size, hitems] using hroom)
  | reserve k => exact (reserve_modest_meets hwidth hw h k).mono (fun _ _ h => h.1) fun _ _ h => h
  | clear => exact Act.meets_modify.mpr (h.items (Nat.zero_le _))

/-- An array after requests to an empty one, by the rule of the kernel. -/
def grown (requests : List (Request α)) : PrivateArray α width :=
  (history (requests.map fun request => (request, Mapping.refusal))).1

theorem modest_grown (hwidth : width = 2 ^ w) (hw : w ≤ 12) (requests : List (Request α)) :
    (grown requests : PrivateArray α width).Modest := by
  induction requests using List.reverseRecOn with
  | nil => exact ⟨fits_empty, .inl rfl⟩
  | append_singleton requests request ih =>
    have hstep := act_modest_meets hwidth hw ih request
    rw [grown, List.map_append, List.map_singleton, history, List.foldl_concat, ← history, after]
    split
    · next v hs => exact hstep.ok hs
    · next e v hs =>
      rw [hstep.error hs]
      exact ih

end Histories

end PrivateArray

/-- The addresses get room first, and once they have it the bytes of so many pages are a word. -/
theorem Snapshot.reserve_givesUp_iff {addresses : PrivateArray Nat 8}
    {data : PrivateArray UInt8 1} (ha : addresses.Modest) (hd : data.Modest) (pages : Nat) :
    (Snapshot.reserve Mapping.refusal pages).GivesUp ⟨Page.size, addresses, data⟩ ↔
      2 ^ 60 < addresses.size + pages := by
  have hlimit : Mapping.limit ≤ 2 ^ 47 := by decide
  have hsize : Page.size = 4096 := rfl
  have hword : Word.limit = 2 ^ 64 := rfl
  have haddresses :=
    PrivateArray.reserve_givesUp_iff (w := 3) rfl (by decide) ha Mapping.refusal pages
  apply Act.givesUp_iff_of_meets
  simp only [Snapshot.reserve, Act.meets_bind, Act.meets_focus, Act.meets_get, Act.meets_faulty,
    Snapshot.addressTable, Snapshot.dataTable]
  apply ((Act.meets_givesUp (PrivateArray.reserve Mapping.refusal pages) addresses).and
    (PrivateArray.reserve_modest_meets (w := 3) rfl (by decide) ha pages)).mono
  · intro _ addresses' hpost
    obtain ⟨hgranted, hmodest, hitems, hroom⟩ := hpost
    rw [haddresses] at hgranted
    have hfew := hmodest.fits.bytes_le
    have hheld : data.size ≤ Mapping.limit := by
      have hcapacity := hd.fits.size_le
      have hbytes := hd.fits.bytes_le
      omega
    have hdata := PrivateArray.reserve_givesUp_iff (w := 0) rfl (by decide) hd Mapping.refusal
      (pages * Page.size)
    have hproduct : pages * Page.size = 4096 * pages := Nat.mul_comm _ _
    have hmul : Word.mul pages Page.size = .ok (pages * Page.size) :=
      Word.mul_eq_ok_iff.mpr ⟨by omega, rfl⟩
    simp only [hmul, Except.ok.injEq, forall_eq', reduceCtorEq, false_implies, implies_true,
      and_true]
    have hsmall : ¬2 ^ 60 < addresses.size + pages := by omega
    have hfits : ¬(PrivateArray.reserve Mapping.refusal (pages * Page.size)).GivesUp data := by
      rw [hdata]
      omega
    apply (Act.meets_givesUp _ data).mono
    · exact fun _ _ _ => hsmall
    · intro e _ he
      exact he.trans (iff_of_false hfits hsmall)
  · intro e _ hpost
    rw [hpost.1, haddresses]
    omega

namespace Demo

variable {generate : UInt64 → Nat → List UInt64} {args : List String}

theorem Sorting.build_givesUp_iff
    (hgenerate : ∀ seed count, (generate seed count).length = count) :
    (Sorting.build generate args).GivesUp ↔ ∃ count seed, argument args 0 100000 = .ok count ∧
      argument args 1 1 = .ok seed ∧ largestObject < count * 8 := by
  simp only [Outcome.GivesUp, Sorting.build_eq_fault_iff hgenerate, exists_eq_left]

theorem Scribble.build_givesUp_iff :
    (Scribble.build args).GivesUp ↔
      ∃ pages, argument args 0 64 = .ok pages ∧ largestObject < pages * Page.size := by
  have hword : largestObject < Word.limit := by decide
  simp only [Outcome.GivesUp, Scribble.build_eq_fault_iff]
  constructor
  · intro ⟨cause, pages, hpages, hlarge⟩
    exact ⟨pages, hpages, by omega⟩
  · intro ⟨pages, hpages, hlarge⟩
    rcases Nat.lt_or_ge (pages * Page.size) Word.limit with hfits | hover
    · exact ⟨.capacity, pages, hpages, .inr ⟨hfits, hlarge, rfl⟩⟩
    · exact ⟨.overflow .multiply, pages, hpages, .inl ⟨hover, rfl⟩⟩

theorem buildFrom_givesUp_iff (hgenerate : ∀ seed count, (generate seed count).length = count)
    (name : String) :
    (buildFrom generate name args).GivesUp ↔
      (name = "sort" ∧ ∃ count seed, argument args 0 100000 = .ok count ∧
        argument args 1 1 = .ok seed ∧ largestObject < count * 8) ∨
      (name = "scribble" ∧ ∃ pages, argument args 0 64 = .ok pages ∧
        largestObject < pages * Page.size) := by
  rw [← Sorting.build_givesUp_iff hgenerate, ← Scribble.build_givesUp_iff]
  by_cases hsort : name = "sort"
  · rw [hsort, buildFrom_sort, Outcome.givesUp_map]
    simp
  by_cases hscribble : name = "scribble"
  · rw [hscribble, buildFrom_scribble, Outcome.givesUp_map]
    simp
  · simp [buildFrom, hsort, hscribble, Outcome.GivesUp]

end Demo

/-- Where the numbers that a user may give make setting up give up, beside the errors that it
reports: a stack within two pages of the largest word, tables of more than the greatest power of two
bytes, and data of routines larger than an object can be. -/
theorem givesUp_iff (generate : UInt64 → Nat → List UInt64)
    (hgenerate : ∀ seed count, (generate seed count).length = count) :
    (∀ stackSize, (Context.new stackSize).GivesUp ↔
      Word.limit - 2 * Page.size < stackSize) ∧
    (∀ channel stackSize (m : Machine), (Monitor.new channel stackSize).GivesUp m ↔
      (∀ errno, (m.kernel.ask .eventfd).1 ≠ some (.refuse errno)) ∧
        Word.limit - 2 * Page.size < stackSize) ∧
    (∀ (addressRequests : List (PrivateArray.Request Nat))
        (dataRequests : List (PrivateArray.Request UInt8)) pages,
      (Snapshot.reserve Mapping.refusal pages).GivesUp
          ⟨Page.size, .grown addressRequests, .grown dataRequests⟩ ↔
        2 ^ 60 < (PrivateArray.grown addressRequests : PrivateArray Nat 8).size + pages) ∧
    (∀ (requests : List (PrivateArray.Request Sample)) iterations,
      (PrivateArray.reserve Mapping.refusal iterations).GivesUp
          (PrivateArray.grown requests : PrivateArray Sample 32).clear ↔ 2 ^ 58 < iterations) ∧
    (∀ name args, (Demo.buildFrom generate name args).GivesUp ↔
      (name = "sort" ∧ ∃ count seed, Demo.argument args 0 100000 = .ok count ∧
        Demo.argument args 1 1 = .ok seed ∧ Demo.largestObject < count * 8) ∨
      (name = "scribble" ∧ ∃ pages, Demo.argument args 0 64 = .ok pages ∧
        Demo.largestObject < pages * Page.size)) := by
  refine ⟨Context.new_givesUp_iff, Monitor.new_givesUp_iff, ?_, ?_, ?_⟩
  · intro addressRequests dataRequests pages
    exact Snapshot.reserve_givesUp_iff (PrivateArray.modest_grown (w := 3) rfl (by decide) _)
      (PrivateArray.modest_grown (w := 0) rfl (by decide) _) pages
  · intro requests iterations
    have hmodest : (PrivateArray.grown requests : PrivateArray Sample 32).Modest :=
      PrivateArray.modest_grown (w := 5) rfl (by decide) requests
    have hcleared : (PrivateArray.grown requests : PrivateArray Sample 32).clear.Modest :=
      hmodest.items (Nat.zero_le _)
    rw [PrivateArray.reserve_givesUp_iff (w := 5) rfl (by decide) hcleared, PrivateArray.size,
      PrivateArray.items_clear, Array.size_empty]
    omega
  · intro name args
    exact Demo.buildFrom_givesUp_iff hgenerate name

/-- The largest word is a size of a stack that the command line accepts, and 2 ^ 52 is a number. -/
theorem givesUp_iff_largestStack :
    (∃ o, CommandLine.Options.read
        ["--target-stack-size", "18446744073709551615", "run", "sort"] = .ok o ∧
      (Context.new o.targetStack).GivesUp) ∧
    (Demo.build "scribble" ["4503599627370496"]).GivesUp := by
  obtain ⟨hcontext, -, -, -, hbuild⟩ := givesUp_iff Random.ofSeed Random.length_ofSeed
  constructor
  · have hread : (CommandLine.Options.read
        ["--target-stack-size", "18446744073709551615", "run", "sort"]).toOption.map
          (·.targetStack) = some 18446744073709551615 := by
      decide +kernel
    cases ho : CommandLine.Options.read
        ["--target-stack-size", "18446744073709551615", "run", "sort"] with
    | error e => simp [ho, Except.toOption] at hread
    | ok o =>
      have hstack : o.targetStack = 18446744073709551615 := by
        simpa [ho, Except.toOption] using hread
      exact ⟨o, rfl, (hcontext _).mpr (by rw [hstack]; decide)⟩
  · exact (hbuild _ _).mpr (.inr ⟨rfl, 4503599627370496, by decide, by decide⟩)

end Rewind
