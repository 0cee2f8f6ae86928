import ClaudeCodeConnect.Core.Offsets

/-!
# Lines and the index of their starts

`splitLines p` cuts a list after every element satisfying `p`, keeping the terminator with the line
it ends; there is always a last line, possibly empty.  `lineStarts` is the table of offsets at which
the lines begin, computed the way an index is: scan for terminators.

* `lineStarts_eq_lineOffsets` -- the scanned table is the table of running weights of the lines,
  so `lineStarts[i]?` is the weight of what precedes line `i` (`getElem?_lineStarts`).
* `lineStarts_append_append` -- **the patching law**: the table of `a ++ m ++ b` in three blocks,
  one for each part.  Replacing `m` replaces the middle block and slides the last.
* `splitLines_drop`, `splitLines_take` -- what is cut out at line boundaries has the lines it had in
  the whole, plus the empty line its last terminator creates.
-/

namespace Connect

variable {α : Type*} {w : α → ℕ} {p : α → Bool}

/-- Cut after every terminator. -/
def splitLines (p : α → Bool) : List α → List (List α)
  | [] => [[]]
  | x :: xs =>
      if p x then [x] :: splitLines p xs
      else match splitLines p xs with
        | [] => [[x]]
        | l :: ls => (x :: l) :: ls

lemma splitLines_ne_nil (xs : List α) : splitLines p xs ≠ [] := by
  cases xs with
  | nil => simp [splitLines]
  | cons x xs =>
      simp only [splitLines]
      split_ifs
      · simp
      · split <;> simp

/-- A list without its first element, seen from a line that has not ended yet. -/
lemma splitLines_cons_of_not {x : α} (xs : List α) (hx : p x = false) :
    ∃ l ls, splitLines p xs = l :: ls ∧ splitLines p (x :: xs) = (x :: l) :: ls := by
  obtain ⟨l, ls, h⟩ := List.exists_cons_of_ne_nil (splitLines_ne_nil (p := p) xs)
  exact ⟨l, ls, h, by simp [splitLines, hx, h]⟩

@[simp] lemma flatten_splitLines (xs : List α) : (splitLines p xs).flatten = xs := by
  induction xs with
  | nil => rfl
  | cons x xs ih =>
      cases hx : p x with
      | true => simp [splitLines, hx, ih]
      | false =>
          obtain ⟨l, ls, h, h'⟩ := splitLines_cons_of_not xs hx
          rw [h] at ih
          rw [h', List.flatten_cons, List.cons_append, ← List.flatten_cons, ih]

/-! ## The table of line starts

A text is cut into lines after each terminator; the table holds where each of them starts. -/

/-- The start of the list, then the offset just past every terminator. -/
def lineStarts (w : α → ℕ) (p : α → Bool) (k : ℕ) (xs : List α) : List ℕ :=
  k :: (matchOffsets w p k xs).map (· + 1)

/-- Running weights: where each of the given lines starts, counted from `k`. -/
def lineOffsets (w : α → ℕ) : ℕ → List (List α) → List ℕ
  | _, [] => []
  | k, l :: ls => k :: lineOffsets w (k + weight w l) ls

@[simp] lemma length_lineOffsets (k : ℕ) (ls : List (List α)) :
    (lineOffsets w k ls).length = ls.length := by
  induction ls generalizing k with
  | nil => rfl
  | cons l ls ih => simp [lineOffsets, ih]

lemma getElem?_lineOffsets {k i : ℕ} {ls : List (List α)} (hi : i < ls.length) :
    (lineOffsets w k ls)[i]? = some (k + weight w (ls.take i).flatten) := by
  induction ls generalizing k i with
  | nil => simp at hi
  | cons l ls ih =>
      cases i with
      | zero => simp [lineOffsets]
      | succ i =>
          have h := ih (k := k + weight w l) (i := i) (by simpa using hi)
          simp [lineOffsets, h, Nat.add_assoc]

/-- **The scanned table is the table of running weights.**  A terminator weighs one unit, so the
offset just past it is where the next line starts. -/
theorem lineStarts_eq_lineOffsets (hp : ∀ x, p x = true → w x = 1) (k : ℕ) (xs : List α) :
    lineStarts w p k xs = lineOffsets w k (splitLines p xs) := by
  induction xs generalizing k with
  | nil => rfl
  | cons x xs ih =>
      cases hx : p x with
      | true =>
          have h := ih (k + 1)
          simp only [lineStarts] at h ⊢
          simp [matchOffsets, splitLines, lineOffsets, hx, hp x hx, h]
      | false =>
          obtain ⟨l, ls, hl, hl'⟩ := splitLines_cons_of_not xs hx
          have h := ih (k + w x)
          simp only [lineStarts, hl, lineOffsets, List.cons.injEq, true_and] at h
          simp [lineStarts, matchOffsets, hl', lineOffsets, hx, h, Nat.add_assoc]

theorem getElem?_lineStarts (hp : ∀ x, p x = true → w x = 1) {xs : List α} {i : ℕ}
    (hi : i < (splitLines p xs).length) :
    (lineStarts w p 0 xs)[i]? = some (weight w ((splitLines p xs).take i).flatten) := by
  rw [lineStarts_eq_lineOffsets hp, getElem?_lineOffsets hi, Nat.zero_add]

lemma length_lineStarts (hp : ∀ x, p x = true → w x = 1) (k : ℕ) (xs : List α) :
    (lineStarts w p k xs).length = (splitLines p xs).length := by
  rw [lineStarts_eq_lineOffsets hp, length_lineOffsets]

/-! ## Patching the table

What the table of a text with a part replaced has to do with the table before: it is the same up to
the part, and shifted after it. -/

/-- **The patching law.**  The table of three parts put together, in three blocks: what the first
part contributes, then what the second does, then what the third does, each counted from where its
part begins. -/
theorem lineStarts_append_append (a m b : List α) :
    lineStarts w p 0 (a ++ m ++ b)
      = lineStarts w p 0 a
        ++ (matchOffsets w p (weight w a) m).map (· + 1)
        ++ (matchOffsets w p (weight w a + weight w m) b).map (· + 1) := by
  simp only [lineStarts, matchOffsets_append, List.map_append, List.cons_append, weight_append,
    Nat.zero_add]

lemma lineStarts_le (hw : ∀ x, 0 < w x) {a : List α} {s : ℕ} (h : s ∈ lineStarts w p 0 a) :
    s ≤ weight w a := by
  rcases List.mem_cons.mp h with rfl | h
  · exact Nat.zero_le _
  · obtain ⟨i, hi, rfl⟩ := List.mem_map.mp h
    have := matchOffsets_bounds hw hi
    omega

lemma succ_matchOffsets_bounds (hw : ∀ x, 0 < w x) {k s : ℕ} {xs : List α}
    (h : s ∈ (matchOffsets w p k xs).map (· + 1)) : k < s ∧ s ≤ k + weight w xs := by
  obtain ⟨i, hi, rfl⟩ := List.mem_map.mp h
  have := matchOffsets_bounds hw hi
  omega

/-! ## Windows cut at line boundaries

The lines of a part of the text that begins with one line and ends with another are some of the
lines of the text. -/

/-- Every line but the last ends in a terminator and holds no other. -/
lemma splitLines_append_of_line {l ys : List α} {t : α} (hl : ∀ x ∈ l, p x = false)
    (ht : p t = true) : splitLines p (l ++ t :: ys) = (l ++ [t]) :: splitLines p ys := by
  induction l with
  | nil => simp [splitLines, ht]
  | cons x l ih =>
      have hx : p x = false := hl x List.mem_cons_self
      have ih := ih fun y hy => hl y (List.mem_cons_of_mem _ hy)
      simp only [List.cons_append, splitLines, hx, ih]
      simp

lemma splitLines_of_no_terminator {l : List α} (hl : ∀ x ∈ l, p x = false) :
    splitLines p l = [l] := by
  induction l with
  | nil => rfl
  | cons x l ih =>
      have hx : p x = false := hl x List.mem_cons_self
      have ih := ih fun y hy => hl y (List.mem_cons_of_mem _ hy)
      simp [splitLines, hx, ih]

/-- The shape of a first line: a terminated one with the rest after it, or the only one. -/
lemma splitLines_cases (xs : List α) :
    (∃ l t ys, (∀ x ∈ l, p x = false) ∧ p t = true ∧ xs = l ++ t :: ys ∧
        splitLines p xs = (l ++ [t]) :: splitLines p ys) ∨
      ((∀ x ∈ xs, p x = false) ∧ splitLines p xs = [xs]) := by
  induction xs with
  | nil => exact Or.inr ⟨by simp, rfl⟩
  | cons x xs ih =>
      cases hx : p x with
      | true => exact Or.inl ⟨[], x, xs, by simp, hx, rfl, by simp [splitLines, hx]⟩
      | false =>
          rcases ih with ⟨l, t, ys, hl, ht, rfl, h⟩ | ⟨hl, h⟩
          · have hl' : ∀ y ∈ x :: l, p y = false := by simpa [hx] using hl
            exact Or.inl ⟨x :: l, t, ys, hl', ht, rfl, splitLines_append_of_line hl' ht⟩
          · have hl' : ∀ y ∈ x :: xs, p y = false := by simpa [hx] using hl
            exact Or.inr ⟨hl', splitLines_of_no_terminator hl'⟩

/-- What follows a line boundary has the lines that followed it. -/
lemma splitLines_drop (xs : List α) {i : ℕ} (hi : i < (splitLines p xs).length) :
    splitLines p ((splitLines p xs).drop i).flatten = (splitLines p xs).drop i := by
  induction i generalizing xs with
  | zero => simp
  | succ i ih =>
      rcases splitLines_cases (p := p) xs with ⟨l, t, ys, -, -, -, h⟩ | ⟨-, h⟩
      · rw [h] at hi ⊢
        exact ih ys (by simpa using hi)
      · rw [h] at hi
        simp at hi

/-- What precedes a line boundary has the lines that preceded it, and the empty line its last
terminator opens. -/
lemma splitLines_take (xs : List α) {j : ℕ} (hj : j < (splitLines p xs).length) :
    splitLines p ((splitLines p xs).take j).flatten = (splitLines p xs).take j ++ [[]] := by
  induction j generalizing xs with
  | zero => simp [splitLines]
  | succ j ih =>
      rcases splitLines_cases (p := p) xs with ⟨l, t, ys, hl, ht, -, h⟩ | ⟨-, h⟩
      · rw [h] at hj ⊢
        have ih := ih ys (by simpa using hj)
        rw [List.take_succ_cons, List.flatten_cons, List.append_assoc, List.singleton_append,
          splitLines_append_of_line hl ht, ih, List.cons_append]
      · rw [h] at hj
        simp at hj

end Connect
