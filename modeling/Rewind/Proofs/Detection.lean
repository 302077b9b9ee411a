import Mathlib.Tactic
import Rewind.Proofs.Images
import Rewind.Proofs.Medians
import Rewind.Proofs.Scribbles

/-! Detection: a built-in routine completes with the same output after each put-back of its data,
and a run on data that was not put back since the last one is found out and changes nothing. -/
namespace Rewind.Demo

/-- What can happen to a routine that has been set up. -/
inductive Event where
  | run
  /-- The data is put back to what it was when the routine was set up. -/
  | putBack
  deriving DecidableEq, Repr

/-- The routine and the console it prints on, after one more event. -/
def after (built : Demo) (now : Demo × Console) : Event → Demo × Console
  | .run => ((now.1.run now.2).1, (now.1.run now.2).2.2)
  | .putBack => (now.1.withImage built.image, now.2)

/-- Whatever has happened since a routine was set up, on a console with room: a run right after
another one is found out, which is code 2, and changes nothing, and every other run completes and
prints a text. -/
structure Detects (built : Demo) (text : String) : Prop where
  again {events : List Event} {console : Console} {d : Demo} {printed : Console} :
    console.full = false → events.foldl built.after (built, console) = (d, printed) →
    events.getLast? = some .run → d.run printed = (d, .failed 2, printed)
  fresh {events : List Event} {console : Console} {d : Demo} {printed : Console} :
    console.full = false → events.foldl built.after (built, console) = (d, printed) →
    events.getLast? ≠ some .run →
    (d.run printed).2 = (.completed, { printed with printed := printed.printed ++ text })

section Courses

variable {built used : Demo} {text : String}

/-- A run on the data as it was set up prints the text and leaves other data, which the next run
finds out. -/
structure Leaves (built used : Demo) (text : String) : Prop where
  shape : used.SameShape built
  run {console : Console} : console.full = false →
    built.run console = (used, .completed, { console with printed := console.printed ++ text })
  again (console : Console) : used.run console = (used, .failed 2, console)

/-- The routine is as it was set up or as a run leaves it, whichever came last. -/
theorem Leaves.foldl_after (h : built.Leaves used text) (events : List Event) {console : Console}
    (hfull : console.full = false) :
    ∃ printed : Console, printed.full = false ∧ events.foldl built.after (built, console) =
      (if events.getLast? = some .run then used else built, printed) := by
  induction events using List.reverseRecOn with
  | nil => exact ⟨console, hfull, rfl⟩
  | append_singleton events event ih =>
    obtain ⟨printed, hroom, hstate⟩ := ih
    rw [List.foldl_concat, hstate, List.getLast?_concat]
    cases event with
    | run =>
      split
      · exact ⟨printed, hroom, by simp [after, h.again]⟩
      · exact ⟨{ printed with printed := printed.printed ++ text }, hroom,
          by simp [after, h.run hroom]⟩
    | putBack =>
      split
      · exact ⟨printed, hroom, by simp [after, withImage_image h.shape]⟩
      · exact ⟨printed, hroom, by simp [after, withImage_image (sameShape_refl built)]⟩

theorem Leaves.detects (h : built.Leaves used text) : built.Detects text := by
  constructor
  · intro events console d printed hfull hstate hlast
    obtain ⟨printed', -, hcourse⟩ := h.foldl_after events hfull
    rw [hstate, if_pos hlast] at hcourse
    cases hcourse
    exact h.again printed
  · intro events console d printed hfull hstate hlast
    obtain ⟨printed', hroom, hcourse⟩ := h.foldl_after events hfull
    rw [hstate, if_neg hlast] at hcourse
    cases hcourse
    rw [h.run hroom]

theorem Sorting.Prepared.leaves {s : Sorting} {x : UInt64} (h : s.Prepared)
    (hx : s.data.mergeSort[s.data.length / 2]? = some x) :
    Leaves (.sort s) (.sort s.sorted) s!"median {x.toNat}\n" := by
  constructor
  · exact ⟨List.length_mergeSort s.data, rfl⟩
  · intro console hfull
    simp only [Demo.run, Sorting.run_of_front h.front hx hfull, Sorting.report]
  · intro console
    simp only [Demo.run, h.run_sorted console, dirtyStart]

theorem Scribble.leaves {s : Scribble} (hclean : s.pages.any isMarked = false)
    (hpages : s.pages ≠ []) (hfew : s.pages.length ≤ 2 ^ 23) :
    Leaves (.scribble s) (.scribble s.scribbled) "" := by
  constructor
  · exact List.length_mapIdx
  · intro console _
    simp only [Demo.run, Scribble.run_of_clean hclean hfew, String.append_empty]
  · intro console
    simp only [Demo.run, Scribble.run_of_marked (Scribble.any_scribbled hpages), dirtyStart]

end Courses

section Setup

variable {generate : UInt64 → Nat → List UInt64} {args : List String}

theorem Sorting.exists_detects {s : Sorting}
    (hgenerate : ∀ seed count, (generate seed count).length = count)
    (h : Sorting.build generate args = .ok s) :
    ∃ count seed middle, argument args 0 100000 = .ok count ∧ argument args 1 1 = .ok seed ∧
      Ranked (count / 2) (generate (UInt64.ofNat seed) count) middle ∧
      Detects (.sort s) s!"median {middle.toNat}\n" := by
  obtain ⟨count, hcount, hrest⟩ := bind_eq_ok_iff.mp h
  obtain ⟨seed, hseed, -⟩ := bind_eq_ok_iff.mp hrest
  rw [Sorting.build_of_arguments hcount hseed] at h
  split at h
  · cases h
  next hmany =>
  split at h
  · cases h
  have hlength := hgenerate (UInt64.ofNat seed) count
  have hne : generate (UInt64.ofNat seed) count ≠ [] := List.ne_nil_of_length_pos (by omega)
  rcases Sorting.prepare_spec hne with ⟨s', hs', hperm, hprepared⟩ | ⟨hrefused, -⟩
  · cases h.symm.trans hs'
    have hdata : s.data.length = count := hperm.length_eq.trans hlength
    have hmiddle : count / 2 < s.data.mergeSort.length := by
      rw [List.length_mergeSort]
      omega
    have hranked := ranked_getElem (Sorting.pairwise_mergeSort s.data) hmiddle
    refine ⟨count, seed, s.data.mergeSort[count / 2], hcount, hseed, ?_,
      (hprepared.leaves ?_).detects⟩
    · exact (hranked.of_perm (List.mergeSort_perm s.data _)).of_perm hperm
    · rw [hdata]
      exact List.getElem?_eq_getElem hmiddle
  · cases h.symm.trans hrefused

theorem Scribble.exists_detects {pages : Nat} (h : argument args 0 64 = .ok pages)
    (hpos : 1 ≤ pages) (hfew : pages ≤ 2 ^ 23) :
    ∃ s, Scribble.build args = .ok s ∧ s.pages.length = pages ∧ Detects (.scribble s) "" := by
  have hbytes : pages * Page.size ≤ 2 ^ 23 * Page.size := Nat.mul_le_mul_right _ hfew
  have hlimit : 2 ^ 23 * Page.size < Word.limit := by decide
  have hlargest : 2 ^ 23 * Page.size ≤ largestObject := by decide
  have hbuild := Scribble.build_of_argument h
  rw [if_neg (by omega), if_neg (by omega), if_neg (by omega)] at hbuild
  refine ⟨_, hbuild, List.length_replicate, (Scribble.leaves ?_ ?_ ?_).detects⟩
  · simp [Scribble.isMarked_replicate]
  · simp
    omega
  · simpa using hfew

end Setup

/-- The built-in routines find out every run on data that was not put back, whatever numbers the
generator yields, and otherwise print the element of the middle rank, or nothing. Nothing in their
setup or their runs is out of bounds or too large. -/
theorem detects_of_build (generate : UInt64 → Nat → List UInt64)
    (hgenerate : ∀ seed count, (generate seed count).length = count) (args : List String) :
    (∀ built, buildFrom generate "sort" args = .ok built →
      ∃ count seed middle, argument args 0 100000 = .ok count ∧ argument args 1 1 = .ok seed ∧
        (∀ x, Ranked (count / 2) (generate (UInt64.ofNat seed) count) x ↔ x = middle) ∧
        Detects built s!"median {middle.toNat}\n") ∧
    ((∀ count, argument args 0 100000 = .ok count → count * 8 ≤ largestObject) →
      ∀ cause, buildFrom generate "sort" args ≠ .error (.fault cause)) ∧
    (∀ pages, argument args 0 64 = .ok pages → 1 ≤ pages → pages ≤ 2 ^ 23 →
      ∃ s, buildFrom generate "scribble" args = .ok (.scribble s) ∧ s.pages.length = pages ∧
        Detects (.scribble s) "") := by
  refine ⟨?_, ?_, ?_⟩
  · intro built h
    rw [buildFrom_sort] at h
    obtain ⟨s, hs, heq⟩ := bind_eq_ok_iff.mp h
    cases heq
    obtain ⟨count, seed, middle, hcount, hseed, hranked, hdetects⟩ :=
      Sorting.exists_detects hgenerate hs
    refine ⟨count, seed, middle, hcount, hseed, ?_, hdetects⟩
    intro x
    constructor
    · exact fun hx => hx.unique hranked
    · intro hx
      rwa [hx]
  · intro hfits cause h
    rw [buildFrom_sort] at h
    cases hs : Sorting.build generate args with
    | ok s =>
      rw [hs] at h
      cases h
    | error trouble =>
      rw [hs] at h
      cases h
      obtain ⟨-, count, -, hcount, -, hlarge⟩ := (Sorting.build_eq_fault_iff hgenerate).mp hs
      have hcount := hfits count hcount
      omega
  · intro pages h hpos hfew
    obtain ⟨s, hs, hlength, hdetects⟩ := Scribble.exists_detects h hpos hfew
    refine ⟨s, ?_, hlength, hdetects⟩
    rw [buildFrom_scribble, hs]
    rfl

theorem detects_of_build_nine :
    ∃ built middle, build "sort" ["4", "9"] = .ok built ∧
      Ranked 2 (Random.ofSeed 9 4) middle ∧ Detects built s!"median {middle.toNat}\n" := by
  have hbuilt : ∃ built, build "sort" ["4", "9"] = .ok built := by
    have hok : (build "sort" ["4", "9"]).isOk = true := by decide +kernel
    cases h : build "sort" ["4", "9"] with
    | error trouble => simp [h, Except.isOk, Except.toBool] at hok
    | ok built => exact ⟨built, rfl⟩
  obtain ⟨built, hbuilt⟩ := hbuilt
  obtain ⟨hsort, -⟩ := detects_of_build Random.ofSeed Random.length_ofSeed ["4", "9"]
  obtain ⟨count, seed, middle, hcount, hseed, hranked, hdetects⟩ := hsort built hbuilt
  have hfour : argument ["4", "9"] 0 100000 = .ok 4 := by decide
  have hnine : argument ["4", "9"] 1 1 = .ok 9 := by decide
  cases hcount.symm.trans hfour
  cases hseed.symm.trans hnine
  exact ⟨built, middle, hbuilt, (hranked middle).mpr rfl, hdetects⟩

end Rewind.Demo
