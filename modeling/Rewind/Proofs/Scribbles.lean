import Mathlib.Tactic
import Rewind.Demo.Scribble

/-! Scribbles: a run marks every page, whichever byte of it moves, so a second run finds a mark. Its
sum fits a word for as many pages as can be asked for. -/
namespace Rewind.Demo.Scribble

variable {s : Scribble} {args : List String} {pages : Nat}

theorem build_of_argument (h : argument args 0 64 = .ok pages) :
    build args =
      if pages = 0 then .error (.error .noPages)
      else if Word.limit ≤ pages * Page.size then .error (.fault (.overflow .multiply))
      else if largestObject < pages * Page.size then .error (.fault .capacity)
      else .ok ⟨List.replicate pages (Vector.replicate Page.size 0)⟩ := by
  rw [build, h]
  apply ite_congr rfl (fun _ => rfl)
  intro _
  unfold Word.mul
  split
  · next hword =>
    rw [if_neg (Nat.not_le.mpr hword), Outcome.lift_ok_bind]
    exact allocation_bind _ _
  · next hword => rw [if_pos (Nat.not_lt.mp hword), Outcome.lift_error_bind]

/-- Setting up gives up only on more bytes than a word counts or an object has. -/
theorem build_eq_fault_iff {cause : Fault} :
    build args = .error (.fault cause) ↔ ∃ pages, argument args 0 64 = .ok pages ∧
      (Word.limit ≤ pages * Page.size ∧ cause = .overflow .multiply ∨
        pages * Page.size < Word.limit ∧ largestObject < pages * Page.size ∧
          cause = .capacity) := by
  constructor
  · intro h
    cases hpages : argument args 0 64 with
    | error trouble =>
      rw [build, hpages] at h
      cases h
      exact absurd hpages (argument_ne_fault args 0 64 cause)
    | ok pages =>
      rw [build_of_argument hpages] at h
      grind
  · intro ⟨pages, hpages, h⟩
    have hone : 0 * Page.size ≤ largestObject := by decide
    have hword : largestObject < Word.limit := by decide
    rw [build_of_argument hpages]
    grind

theorem isMarked_eq (page : Vector UInt8 Page.size) : isMarked page = (page[front] != 0) := rfl

theorem isMarked_scribbleOn (page : Vector UInt8 Page.size) (i : Nat) :
    isMarked (scribbleOn page (marks i)) = true := by
  simp [isMarked_eq, scribbleOn, marks, front]

theorem isMarked_replicate : isMarked (Vector.replicate Page.size 0) = false := by
  simp [isMarked_eq, front]

theorem churn_succ (n : Nat) : churn (n + 1) = churn n >>= fun total => Word.add total n := by
  simp [churn, List.range_succ]

/-- The sum is that of a triangle, which fits a word for so few terms. -/
theorem exists_churn {n : Nat} (hn : n ≤ 2 ^ 32) :
    ∃ total, churn n = .ok total ∧ 2 * total + n = n * n := by
  induction n with
  | zero => exact ⟨0, rfl, rfl⟩
  | succ n ih =>
    obtain ⟨total, htotal, hsum⟩ := ih (Nat.le_of_succ_le hn)
    have hsquare : n * n ≤ 2 ^ 32 * 2 ^ 32 := Nat.mul_le_mul (by omega) (by omega)
    have hfits : total + n < Word.limit := by
      unfold Word.limit
      omega
    refine ⟨total + n, ?_, by rw [Nat.succ_mul_succ]; omega⟩
    rw [churn_succ, htotal]
    exact Word.add_eq_ok_iff.mpr ⟨hfits, rfl⟩

/-- What a run leaves of pages none of which is marked. -/
def scribbled (s : Scribble) : Scribble := ⟨s.pages.mapIdx fun i page => scribbleOn page (marks i)⟩

theorem run_of_clean (hclean : s.pages.any isMarked = false) (hfew : s.pages.length ≤ 2 ^ 23) :
    s.run = (s.scribbled, .completed) := by
  have hwords : s.pages.length * Page.size / 8 = 512 * s.pages.length := by
    unfold Page.size
    omega
  obtain ⟨total, htotal, hsum⟩ := exists_churn (n := 512 * s.pages.length) (by omega)
  have hpositive : ¬(total = 0 ∧ 1 < 512 * s.pages.length) := by
    intro ⟨hzero, hlong⟩
    have hsquare : 512 * s.pages.length * 1 < 512 * s.pages.length * (512 * s.pages.length) :=
      Nat.mul_lt_mul_of_pos_left hlong (by omega)
    omega
  simp only [run, hclean, hwords, htotal, if_neg hpositive]
  rfl

theorem run_of_marked (hmarked : s.pages.any isMarked = true) :
    s.run = (s, .failed dirtyStart) := by
  simp [run, hmarked]

/-- The byte that moves never takes the place of the mark: where their offsets meet, the mark is
written last. -/
theorem any_scribbled (h : s.pages ≠ []) : s.scribbled.pages.any isMarked = true := by
  obtain ⟨page, pages, hpages⟩ := List.exists_cons_of_ne_nil h
  simp [scribbled, hpages, isMarked_scribbleOn]

end Rewind.Demo.Scribble
