import Mathlib.Algebra.GroupWithZero.Nat
import Mathlib.Data.List.Basic
import Mathlib.Tactic.Lemma

/-!
# Offsets into weighted lists

A text is a list of characters, but the code addresses it by offsets counted in another unit:
bytes for a string slice, UTF-16 units for an LSP column.  `weight w` is the length of a list in
the unit `w` counts in, and an offset is meaningful only where it falls between two elements.

* `splitAtOffset`, `slice?`, `replaceSlice?` -- the partial operations on offsets.  They fail where
  the source panics: an offset inside an element, past the end, or a range that runs backwards.
* `slice?_eq_some_iff`, `replaceSlice?_eq_some_iff` -- what they compute, in terms of list
  decompositions.  Everything above reasons with these and never unfolds the recursion.
* `matchOffsets` -- where the elements satisfying a predicate start.
* `takeWeight` -- the longest prefix that weighs no more than a bound, and in what sense it is the
  longest (`prefix_takeWeight`).
-/

namespace Connect

variable {α : Type*} {w : α → ℕ} {p : α → Bool}

/-! ## Weights

A list whose elements take up room: characters, by the bytes or the code units they are written in.
-/

/-- Length of a list in the unit `w` counts in. -/
def weight (w : α → ℕ) (xs : List α) : ℕ := (xs.map w).sum

@[simp] lemma weight_nil : weight w ([] : List α) = 0 := rfl

@[simp] lemma weight_cons (x : α) (xs : List α) : weight w (x :: xs) = w x + weight w xs := rfl

@[simp] lemma weight_append (xs ys : List α) :
    weight w (xs ++ ys) = weight w xs + weight w ys := by
  simp [weight]

lemma weight_eq_zero (hw : ∀ x, 0 < w x) {xs : List α} (h : weight w xs = 0) : xs = [] := by
  cases xs with
  | nil => rfl
  | cons x xs =>
      have := hw x
      rw [weight_cons] at h
      omega

/-! ## Cutting at an offset

An offset is one to cut at if some prefix takes up exactly that much room; between two of them lies
a slice. -/

/-- An offset that falls between two elements (or at an end). -/
def IsBoundary (w : α → ℕ) (xs : List α) (n : ℕ) : Prop :=
  ∃ a b, xs = a ++ b ∧ weight w a = n

/-- Cut a list at an offset; `none` when the offset is not a boundary. -/
def splitAtOffset (w : α → ℕ) : List α → ℕ → Option (List α × List α)
  | xs, 0 => some ([], xs)
  | [], _ + 1 => none
  | x :: xs, n + 1 =>
      if w x ≤ n + 1 then
        (splitAtOffset w xs (n + 1 - w x)).map fun q => (x :: q.1, q.2)
      else none

theorem splitAtOffset_eq_some_iff (hw : ∀ x, 0 < w x) {xs a b : List α} {n : ℕ} :
    splitAtOffset w xs n = some (a, b) ↔ xs = a ++ b ∧ weight w a = n := by
  fun_induction splitAtOffset w xs n generalizing a b with
  | case1 xs =>
      constructor
      · intro h
        simp only [Option.some.injEq, Prod.mk.injEq] at h
        obtain ⟨rfl, rfl⟩ := h
        exact ⟨rfl, rfl⟩
      · rintro ⟨rfl, h⟩
        rw [weight_eq_zero hw h, List.nil_append]
  | case2 n =>
      constructor
      · intro h
        cases h
      · rintro ⟨h, hn⟩
        obtain ⟨rfl, rfl⟩ := List.append_eq_nil_iff.mp h.symm
        simp at hn
  | case3 x xs n hle ih =>
      simp only [Option.map_eq_some_iff, Prod.mk.injEq, Prod.exists]
      constructor
      · rintro ⟨a', b', h, rfl, rfl⟩
        obtain ⟨rfl, hn⟩ := ih.mp h
        refine ⟨rfl, ?_⟩
        rw [weight_cons, hn]
        omega
      · rintro ⟨h, hn⟩
        cases a with
        | nil => simp at hn
        | cons y a =>
            simp only [List.cons_append, List.cons.injEq] at h
            obtain ⟨rfl, rfl⟩ := h
            rw [weight_cons] at hn
            exact ⟨a, b, ih.mpr ⟨rfl, by omega⟩, rfl, rfl⟩
  | case4 x xs n hlt =>
      constructor
      · intro h
        cases h
      · rintro ⟨h, hn⟩
        cases a with
        | nil => simp at hn
        | cons y a =>
            simp only [List.cons_append, List.cons.injEq] at h
            obtain ⟨rfl, rfl⟩ := h
            rw [weight_cons] at hn
            omega

/-- The elements between two offsets; `none` unless both are boundaries and in order. -/
def slice? (w : α → ℕ) (xs : List α) (start stop : ℕ) : Option (List α) :=
  if start ≤ stop then
    (splitAtOffset w xs start).bind fun q => (splitAtOffset w q.2 (stop - start)).map Prod.fst
  else none

/-- Replace the elements between two offsets; `none` under the same conditions as `slice?`. -/
def replaceSlice? (w : α → ℕ) (xs : List α) (start stop : ℕ) (ins : List α) :
    Option (List α) :=
  if start ≤ stop then
    (splitAtOffset w xs start).bind fun q =>
      (splitAtOffset w q.2 (stop - start)).map fun r => q.1 ++ ins ++ r.2
  else none

theorem slice?_eq_some_iff (hw : ∀ x, 0 < w x) {xs m : List α} {start stop : ℕ} :
    slice? w xs start stop = some m ↔
      ∃ a b, xs = a ++ m ++ b ∧ weight w a = start ∧ start + weight w m = stop := by
  unfold slice?
  split_ifs with hle
  · simp only [Option.bind_eq_some_iff, Option.map_eq_some_iff, Prod.exists]
    constructor
    · rintro ⟨a, r, ha, m', b, hm, rfl⟩
      obtain ⟨rfl, hs⟩ := (splitAtOffset_eq_some_iff hw).mp ha
      obtain ⟨rfl, he⟩ := (splitAtOffset_eq_some_iff hw).mp hm
      exact ⟨a, b, by simp, hs, by omega⟩
    · rintro ⟨a, b, rfl, hs, he⟩
      refine ⟨a, m ++ b, (splitAtOffset_eq_some_iff hw).mpr ⟨by simp, hs⟩, m, b, ?_, rfl⟩
      exact (splitAtOffset_eq_some_iff hw).mpr ⟨rfl, by omega⟩
  · constructor
    · intro h
      cases h
    · rintro ⟨a, b, -, -, he⟩
      omega

theorem replaceSlice?_eq_some_iff (hw : ∀ x, 0 < w x) {xs ins ys : List α} {start stop : ℕ} :
    replaceSlice? w xs start stop ins = some ys ↔
      ∃ a m b, xs = a ++ m ++ b ∧ weight w a = start ∧ start + weight w m = stop ∧
        ys = a ++ ins ++ b := by
  unfold replaceSlice?
  split_ifs with hle
  · simp only [Option.bind_eq_some_iff, Option.map_eq_some_iff, Prod.exists]
    constructor
    · rintro ⟨a, r, ha, m, b, hm, rfl⟩
      obtain ⟨rfl, hs⟩ := (splitAtOffset_eq_some_iff hw).mp ha
      obtain ⟨rfl, he⟩ := (splitAtOffset_eq_some_iff hw).mp hm
      exact ⟨a, m, b, by simp, hs, by omega, rfl⟩
    · rintro ⟨a, m, b, rfl, hs, he, rfl⟩
      refine ⟨a, m ++ b, (splitAtOffset_eq_some_iff hw).mpr ⟨by simp, hs⟩, m, b, ?_, rfl⟩
      exact (splitAtOffset_eq_some_iff hw).mpr ⟨rfl, by omega⟩
  · constructor
    · intro h
      cases h
    · rintro ⟨a, m, b, -, -, he, -⟩
      omega

/-- Two boundaries in order delimit a slice. -/
lemma exists_slice_of_boundaries (hw : ∀ x, 0 < w x) {xs : List α} {start stop : ℕ}
    (hs : IsBoundary w xs start) (he : IsBoundary w xs stop) (hle : start ≤ stop) :
    ∃ a m b, xs = a ++ m ++ b ∧ weight w a = start ∧ start + weight w m = stop := by
  obtain ⟨a, r, rfl, ha⟩ := hs
  obtain ⟨c, d, h, hc⟩ := he
  rcases List.append_eq_append_iff.mp h with ⟨m, rfl, rfl⟩ | ⟨m, rfl, rfl⟩
  · rw [weight_append] at hc
    exact ⟨a, m, d, by simp, ha, by omega⟩
  · rw [weight_append] at ha
    have hm : m = [] := weight_eq_zero hw (by omega)
    subst hm
    exact ⟨c, [], r, by simp, by simp at ha; omega, by simp at ha ⊢; omega⟩

lemma IsBoundary.le {xs : List α} {n : ℕ} (h : IsBoundary w xs n) : n ≤ weight w xs := by
  obtain ⟨a, b, rfl, rfl⟩ := h
  simp

lemma IsBoundary.zero (xs : List α) : IsBoundary w xs 0 := ⟨[], xs, rfl, rfl⟩

lemma IsBoundary.full (xs : List α) : IsBoundary w xs (weight w xs) := ⟨xs, [], by simp, rfl⟩

/-- A boundary of a middle part, shifted by what precedes it, is a boundary of the whole. -/
lemma IsBoundary.shift {a m b : List α} {n : ℕ} (h : IsBoundary w m n) :
    IsBoundary w (a ++ m ++ b) (weight w a + n) := by
  obtain ⟨c, d, rfl, rfl⟩ := h
  exact ⟨a ++ c, d ++ b, by simp, by simp⟩

/-- A slice of a middle part is a slice of the whole, shifted by what precedes it. -/
lemma slice?_shift (hw : ∀ x, 0 < w x) {a m b : List α} {start stop : ℕ}
    (hs : IsBoundary w m start) (he : IsBoundary w m stop) (hle : start ≤ stop) :
    slice? w (a ++ m ++ b) (weight w a + start) (weight w a + stop)
      = slice? w m start stop := by
  obtain ⟨c, n, d, rfl, hc, hn⟩ := exists_slice_of_boundaries hw hs he hle
  have hl : slice? w (c ++ n ++ d) start stop = some n :=
    (slice?_eq_some_iff hw).mpr ⟨c, d, rfl, hc, hn⟩
  rw [hl]
  exact (slice?_eq_some_iff hw).mpr ⟨a ++ c, d ++ b, by simp, by simp [hc], by omega⟩

/-- Slices that meet compose. -/
lemma slice?_compose (hw : ∀ x, 0 < w x) {xs : List α} {a b c : ℕ} (ha : IsBoundary w xs a)
    (hb : IsBoundary w xs b) (hc : IsBoundary w xs c) (hab : a ≤ b) (hbc : b ≤ c) :
    ∃ u v, slice? w xs a b = some u ∧ slice? w xs b c = some v ∧
      slice? w xs a c = some (u ++ v) := by
  obtain ⟨p, u, r, rfl, hp, hu⟩ := exists_slice_of_boundaries hw ha hb hab
  obtain ⟨q, v, t, hxs, hq, hv⟩ := exists_slice_of_boundaries hw hb hc hbc
  have hpq : p ++ u = q ∧ r = v ++ t := by
    rw [List.append_assoc q] at hxs
    have hweight : weight w (p ++ u) = weight w q := by rw [weight_append]; omega
    have hcut : splitAtOffset w (p ++ u ++ r) (weight w q) = some (p ++ u, r) :=
      (splitAtOffset_eq_some_iff hw).mpr ⟨rfl, hweight⟩
    have hcut' : splitAtOffset w (p ++ u ++ r) (weight w q) = some (q, v ++ t) :=
      (splitAtOffset_eq_some_iff hw).mpr ⟨hxs, rfl⟩
    rw [hcut, Option.some.injEq, Prod.mk.injEq] at hcut'
    exact hcut'
  obtain ⟨rfl, rfl⟩ := hpq
  refine ⟨u, v, (slice?_eq_some_iff hw).mpr ⟨p, v ++ t, rfl, hp, hu⟩,
    (slice?_eq_some_iff hw).mpr ⟨p ++ u, t, by simp, hq, hv⟩,
    (slice?_eq_some_iff hw).mpr ⟨p, t, by simp, hp, ?_⟩⟩
  rw [weight_append]
  omega

/-! ## The longest prefix within a bound

Where an offset is not one to cut at, the last one before it is. -/

/-- The longest prefix that weighs at most `n`. -/
def takeWeight (w : α → ℕ) : ℕ → List α → List α
  | _, [] => []
  | n, x :: xs => if w x ≤ n then x :: takeWeight w (n - w x) xs else []

lemma takeWeight_isPrefix (n : ℕ) (xs : List α) : takeWeight w n xs <+: xs := by
  induction xs generalizing n with
  | nil => exact List.prefix_rfl
  | cons x xs ih =>
      rw [takeWeight]
      split_ifs
      · exact List.cons_prefix_cons.mpr ⟨rfl, ih _⟩
      · exact List.nil_prefix

lemma weight_takeWeight_le (n : ℕ) (xs : List α) : weight w (takeWeight w n xs) ≤ n := by
  induction xs generalizing n with
  | nil => exact Nat.zero_le n
  | cons x xs ih =>
      rw [takeWeight]
      split_ifs with h
      · have ih := ih (n - w x)
        rw [weight_cons]
        omega
      · exact Nat.zero_le n

/-- **Nothing longer is within the bound.** -/
theorem prefix_takeWeight {n : ℕ} {u xs : List α} (hu : u <+: xs) (hn : weight w u ≤ n) :
    u <+: takeWeight w n xs := by
  induction u generalizing n xs with
  | nil => exact List.nil_prefix
  | cons x u ih =>
      obtain ⟨r, rfl⟩ := hu
      rw [weight_cons] at hn
      rw [List.cons_append, takeWeight, if_pos (by omega)]
      exact List.cons_prefix_cons.mpr ⟨rfl, ih (List.prefix_append u r) (by omega)⟩

lemma takeWeight_mono {m n : ℕ} (h : m ≤ n) (xs : List α) :
    takeWeight w m xs <+: takeWeight w n xs :=
  prefix_takeWeight (takeWeight_isPrefix m xs) (Nat.le_trans (weight_takeWeight_le m xs) h)

lemma weight_le_of_prefix {u v : List α} (h : u <+: v) : weight w u ≤ weight w v := by
  obtain ⟨r, rfl⟩ := h
  simp

/-! ## Where the elements satisfying a predicate start

`str::match_indices`, of one character. -/

/-- Offsets, counted from `k`, at which the elements satisfying `p` start. -/
def matchOffsets (w : α → ℕ) (p : α → Bool) : ℕ → List α → List ℕ
  | _, [] => []
  | k, x :: xs =>
      if p x then k :: matchOffsets w p (k + w x) xs else matchOffsets w p (k + w x) xs

lemma matchOffsets_append (k : ℕ) (xs ys : List α) :
    matchOffsets w p k (xs ++ ys)
      = matchOffsets w p k xs ++ matchOffsets w p (k + weight w xs) ys := by
  induction xs generalizing k with
  | nil => rfl
  | cons x xs ih =>
      simp only [List.cons_append, matchOffsets, ih, weight_cons, Nat.add_assoc]
      split_ifs <;> rfl

lemma matchOffsets_add (k j : ℕ) (xs : List α) :
    matchOffsets w p (k + j) xs = (matchOffsets w p k xs).map (· + j) := by
  induction xs generalizing k with
  | nil => rfl
  | cons x xs ih =>
      have h : k + j + w x = k + w x + j := by omega
      simp only [matchOffsets, h, ih]
      split_ifs <;> rfl

/-- A match starts inside the list: at least one unit of it lies past its offset. -/
lemma matchOffsets_bounds (hw : ∀ x, 0 < w x) {k i : ℕ} {xs : List α}
    (h : i ∈ matchOffsets w p k xs) : k ≤ i ∧ i + 1 ≤ k + weight w xs := by
  induction xs generalizing k with
  | nil => simp [matchOffsets] at h
  | cons x xs ih =>
      have hx := hw x
      rw [weight_cons]
      simp only [matchOffsets] at h
      split_ifs at h
      · rcases List.mem_cons.mp h with rfl | h
        · omega
        · have := ih h
          omega
      · have := ih h
        omega

end Connect
