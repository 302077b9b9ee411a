import Rewind.Demo.Catalog
import Rewind.Proofs.Recordings

/-! Images: the bytes of a routine's data, laid where the data lies in memory, are that data again,
whatever the routine has made of it in between. -/
namespace Rewind.Demo

/-- What lies at an offset into one of several blocks of the same size. -/
theorem getElem?_flatMap {α β : Type} {f : α → List β} {l : List α} {size : Nat}
    (h : ∀ a ∈ l, (f a).length = size) {i k : Nat} (hi : i < l.length) (hk : k < size) :
    (l.flatMap f)[i * size + k]? = (f l[i])[k]? := by
  rw [← take_drop_flatMap h hi, List.getElem?_take_of_lt hk, List.getElem?_drop]

section Words

/-- A number without its lowest bytes takes the highest of these back. -/
theorem shiftLeft_or_byte (x : UInt64) {n : Nat} (hn : n < 8) :
    (UInt64.ofNat (x.toNat / 2 ^ (8 * (n + 1))) <<< 8) |||
      (x >>> UInt64.ofNat (8 * n)).toUInt8.toUInt64 = UInt64.ofNat (x.toNat / 2 ^ (8 * n)) := by
  apply UInt64.toNat_inj.mp
  have hbound := x.toNat_lt
  have hle : x.toNat / 2 ^ (8 * n) ≤ x.toNat := Nat.div_le_self _ _
  have hnext : x.toNat / 2 ^ (8 * (n + 1)) = x.toNat / 2 ^ (8 * n) / 2 ^ 8 := by
    rw [Nat.div_div_eq_div_mul, ← Nat.pow_add]
    rfl
  have hturn : 8 * n % 2 ^ 64 % 64 = 8 * n := by omega
  have height : (8 : UInt64).toNat % 64 = 8 := rfl
  simp only [UInt64.toNat_or, UInt64.toNat_shiftLeft, UInt64.toNat_ofNat', UInt8.toNat_toUInt64,
    UInt64.toNat_toUInt8, UInt64.toNat_shiftRight, hturn, height, hnext,
    Nat.shiftRight_eq_div_pow]
  generalize x.toNat / 2 ^ (8 * n) = rest at *
  have hsmall : rest / 2 ^ 8 % 2 ^ 64 = rest / 2 ^ 8 := by omega
  have hfits : (rest / 2 ^ 8) <<< 8 % 2 ^ 64 = (rest / 2 ^ 8) <<< 8 := by
    rw [Nat.shiftLeft_eq]
    omega
  rw [hsmall, hfits, ← Nat.shiftLeft_add_eq_or_of_lt (Nat.mod_lt _ (by decide)),
    Nat.shiftLeft_eq]
  omega

theorem foldr_bytes (x : UInt64) {n : Nat} (hn : n ≤ 8) :
    (List.range n).foldr
      (fun k (y : UInt64) => (y <<< 8) ||| (x >>> UInt64.ofNat (8 * k)).toUInt8.toUInt64)
      (UInt64.ofNat (x.toNat / 2 ^ (8 * n))) = x := by
  induction n with
  | zero => simp
  | succ n ih =>
    rw [List.range_succ, List.foldr_append, List.foldr_cons, List.foldr_nil,
      shiftLeft_or_byte x hn]
    exact ih (Nat.le_of_succ_le hn)

theorem length_wordBytes (x : UInt64) : (wordBytes x).length = 8 := by
  simp [wordBytes]

theorem wordAt_flatMap {data : List UInt64} {i : Nat} (hi : i < data.length) :
    wordAt (data.flatMap wordBytes).toArray i = data[i] := by
  have hbyte : ∀ k < 8, (data.flatMap wordBytes).toArray.getD (8 * i + k) 0 =
      (data[i] >>> UInt64.ofNat (8 * k)).toUInt8 := by
    intro k hk
    rw [Array.getD_eq_getD_getElem?, List.getElem?_toArray, Nat.mul_comm 8 i,
      getElem?_flatMap (fun x _ => length_wordBytes x) hi hk]
    simp [wordBytes, hk]
  have hnone : UInt64.ofNat (data[i].toNat / 2 ^ (8 * 8)) = 0 := by
    rw [Nat.div_eq_of_lt data[i].toNat_lt]
    rfl
  have hword := foldr_bytes data[i] (le_refl 8)
  rw [hnone] at hword
  apply Eq.trans _ hword
  apply List.foldr_ext
  intro k hk y
  rw [hbyte k (List.mem_range.mp hk)]

end Words

theorem toList_image_scribble (s : Scribble) :
    (image (.scribble s)).toList = s.pages.flatMap fun page => page.toList := by
  have happend : ∀ (pages : List (Vector UInt8 Page.size)) (bytes : Array UInt8),
      (pages.foldl (fun bytes page => bytes ++ page.toArray) bytes).toList =
        bytes.toList ++ pages.flatMap fun page => page.toList := by
    intro pages
    induction pages with
    | nil => simp
    | cons page pages ih => simp [ih, Vector.toList_toArray]
  exact happend s.pages #[]

/-- The routines are alike up to the contents of their data. -/
def SameShape : Demo → Demo → Prop
  | .sort s, .sort t => s.data.length = t.data.length ∧ s.first = t.first
  | .scribble s, .scribble t => s.pages.length = t.pages.length
  | _, _ => False

theorem sameShape_refl (d : Demo) : d.SameShape d := by
  cases d with
  | sort s => exact ⟨rfl, rfl⟩
  | scribble s => exact rfl

/-- An image that is put back makes the data what it was when the image was taken. -/
theorem withImage_image {d built : Demo} (h : d.SameShape built) :
    d.withImage built.image = built := by
  cases built with
  | sort t =>
    cases d with
    | scribble s => exact h.elim
    | sort s =>
      obtain ⟨hlength, hfirst⟩ := h
      have hdata : (List.range s.data.length).map (wordAt (image (.sort t))) = t.data := by
        apply List.ext_getElem
        · simp [hlength]
        · intro i _ hi
          rw [List.getElem_map, List.getElem_range]
          exact wordAt_flatMap hi
      simp only [withImage, hdata, hfirst]
  | scribble t =>
    cases d with
    | sort s => exact h.elim
    | scribble s =>
      have hlength : s.pages.length = t.pages.length := h
      have hsized : ∀ page ∈ t.pages, page.toList.length = Page.size := by simp
      have hpages : ((List.range s.pages.length).map fun i => Vector.ofFn fun k : Fin Page.size =>
          (image (.scribble t)).getD (i * Page.size + k) 0) = t.pages := by
        apply List.ext_getElem
        · simp [hlength]
        · intro i _ hi
          rw [List.getElem_map, List.getElem_range]
          apply Vector.ext
          intro k hk
          rw [Vector.getElem_ofFn, Array.getD_eq_getD_getElem?, ← Array.getElem?_toList,
            toList_image_scribble, getElem?_flatMap hsized hi hk]
          simp [hk]
      simp only [withImage, hpages]

end Rewind.Demo
