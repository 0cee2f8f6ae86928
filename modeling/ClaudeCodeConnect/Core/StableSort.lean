import Mathlib.Data.List.Sort

/-!
# The first of a stably sorted list

`sort_by_key` with a `Reverse` key: the greatest key first, equal keys in the order they had.

* `Precedes` -- where an element goes relative to another one, by their keys and positions.
* `find?_sortGreatestFirst_iff` -- the first element with a property in the sorted list is the one
  that precedes, in the unsorted list, every other element with it.
* `filter_sortGreatestFirst` -- selecting commutes with sorting.
-/

namespace Connect

variable {α κ : Type} [LinearOrder κ]

/-- `sort_by_key(|x| Reverse(key(x)))`. -/
def sortGreatestFirst (key : α → κ) (l : List α) : List α :=
  l.insertionSort fun a b => key b ≤ key a

/-- The element `x` at position `i` is sorted before the element `y` at position `j`. -/
def Precedes (key : α → κ) (i : ℕ) (x : α) (j : ℕ) (y : α) : Prop :=
  key y < key x ∨ key y = key x ∧ i < j

lemma Precedes.asymm {key : α → κ} {i j : ℕ} {x y : α} (h : Precedes key i x j y) :
    ¬ Precedes key j y i x := by
  rintro (h' | ⟨heq', hij'⟩) <;> rcases h with h | ⟨heq, hij⟩
  · exact absurd h' (lt_asymm h)
  · exact absurd h' (by rw [heq]; exact lt_irrefl _)
  · exact absurd h (by rw [heq']; exact lt_irrefl _)
  · omega

lemma Precedes.succ {key : α → κ} {i j : ℕ} {x y : α} (h : Precedes key i x j y) :
    Precedes key (i + 1) x (j + 1) y :=
  h.imp id fun ⟨heq, hij⟩ => ⟨heq, by omega⟩

lemma mem_sortGreatestFirst {key : α → κ} {l : List α} {x : α} :
    x ∈ sortGreatestFirst key l ↔ x ∈ l := List.mem_insertionSort _

/-- Where an inserted element comes among those with a property: before every one it does not come
    after. -/
lemma find?_orderedInsert (key : α → κ) (p : α → Bool) (a : α) (s : List α)
    (hs : s.Pairwise fun a b => key b ≤ key a) :
    (s.orderedInsert (fun a b => key b ≤ key a) a).find? p =
      if p a = true then
        match s.find? p with
        | none => some a
        | some x => if key x ≤ key a then some a else some x
      else s.find? p := by
  induction s with
  | nil => cases hp : p a <;> simp [hp]
  | cons b s ih =>
      have hsorted := List.pairwise_cons.mp hs
      have ih := ih hsorted.2
      rw [List.orderedInsert_cons]
      split_ifs with hab hp hp
      · -- inserted here: nothing behind has a greater key
        rw [List.find?_cons_of_pos hp]
        cases hfind : (b :: s).find? p with
        | none => rfl
        | some x =>
            have hx : key x ≤ key b := by
              rcases List.mem_cons.mp (List.mem_of_find?_eq_some hfind) with rfl | hmem
              · exact le_rfl
              · exact hsorted.1 x hmem
            simp only [if_pos (hx.trans hab)]
      · rw [List.find?_cons_of_neg hp]
      · cases hpb : p b with
        | true =>
            rw [List.find?_cons_of_pos hpb, List.find?_cons_of_pos hpb]
            simp only [if_neg hab]
        | false =>
            rw [List.find?_cons_of_neg (by simp [hpb]), List.find?_cons_of_neg (by simp [hpb]), ih,
              if_pos hp]
      · cases hpb : p b with
        | true => rw [List.find?_cons_of_pos hpb, List.find?_cons_of_pos hpb]
        | false =>
            rw [List.find?_cons_of_neg (by simp [hpb]), List.find?_cons_of_neg (by simp [hpb]), ih,
              if_neg hp]

lemma pairwise_sortGreatestFirst (key : α → κ) (l : List α) :
    (sortGreatestFirst key l).Pairwise fun a b => key b ≤ key a :=
  have : Std.Total fun a b : α => key b ≤ key a := ⟨fun a b => le_total (key b) (key a)⟩
  have : IsTrans α fun a b : α => key b ≤ key a := ⟨fun _ _ _ h h' => h'.trans h⟩
  List.pairwise_insertionSort _ l

lemma filter_orderedInsert (key : α → κ) (p : α → Bool) (a : α) {s : List α}
    (hs : s.Pairwise fun a b => key b ≤ key a) :
    (s.orderedInsert (fun a b => key b ≤ key a) a).filter p =
      if p a = true then (s.filter p).orderedInsert (fun a b => key b ≤ key a) a
      else s.filter p := by
  induction s with
  | nil => cases hp : p a <;> simp [hp]
  | cons b s ih =>
      have hsorted := List.pairwise_cons.mp hs
      have ih := ih hsorted.2
      rw [List.orderedInsert_cons]
      split_ifs with hab hp hp
      · -- inserted here: it goes before everything selected, too
        have hall : ∀ x ∈ (b :: s).filter p, key x ≤ key a := by
          intro x hx
          rcases List.mem_cons.mp (List.mem_of_mem_filter hx) with rfl | hmem
          · exact hab
          · exact (hsorted.1 x hmem).trans hab
        rw [List.filter_cons_of_pos hp]
        cases hselected : (b :: s).filter p with
        | nil => rfl
        | cons x rest =>
            rw [hselected] at hall
            rw [List.orderedInsert_cons, if_pos (hall x List.mem_cons_self)]
      · rw [List.filter_cons_of_neg hp]
      · cases hpb : p b with
        | true =>
            rw [List.filter_cons_of_pos hpb, List.filter_cons_of_pos hpb, ih, if_pos hp,
              List.orderedInsert_cons, if_neg hab]
        | false =>
            rw [List.filter_cons_of_neg (by simp [hpb]), List.filter_cons_of_neg (by simp [hpb]),
              ih, if_pos hp]
      · cases hpb : p b with
        | true => rw [List.filter_cons_of_pos hpb, List.filter_cons_of_pos hpb, ih, if_neg hp]
        | false =>
            rw [List.filter_cons_of_neg (by simp [hpb]), List.filter_cons_of_neg (by simp [hpb]),
              ih, if_neg hp]

/-- **Selecting commutes with sorting.** -/
theorem filter_sortGreatestFirst (key : α → κ) (p : α → Bool) (l : List α) :
    (sortGreatestFirst key l).filter p = sortGreatestFirst key (l.filter p) := by
  induction l with
  | nil => rfl
  | cons a l ih =>
      have hcons : sortGreatestFirst key (a :: l)
          = (sortGreatestFirst key l).orderedInsert (fun a b => key b ≤ key a) a := rfl
      rw [hcons, filter_orderedInsert key p a (pairwise_sortGreatestFirst key l), ih]
      cases hp : p a with
      | true =>
          rw [if_pos rfl, List.filter_cons_of_pos hp]
          rfl
      | false => rw [if_neg (by simp), List.filter_cons_of_neg (by simp [hp])]

/-- What the search in the sorted list finds precedes every other candidate. -/
lemma precedes_of_find? (key : α → κ) (p : α → Bool) {l : List α} {x : α}
    (h : (sortGreatestFirst key l).find? p = some x) :
    ∃ i, l[i]? = some x ∧ p x = true ∧
      ∀ j y, l[j]? = some y → p y = true → j ≠ i → Precedes key i x j y := by
  induction l generalizing x with
  | nil => simp [sortGreatestFirst] at h
  | cons a l ih =>
      have hfind := find?_orderedInsert key p a (sortGreatestFirst key l)
        (pairwise_sortGreatestFirst key l)
      have hcons : sortGreatestFirst key (a :: l)
          = (sortGreatestFirst key l).orderedInsert (fun a b => key b ≤ key a) a := rfl
      rw [hcons, hfind] at h
      -- a candidate found in the tail stays first unless `a` is put before it
      have htail : ∀ {x}, (sortGreatestFirst key l).find? p = some x →
          (p a = true → ¬ key x ≤ key a) →
          ∃ i, (a :: l)[i]? = some x ∧ p x = true ∧
            ∀ j y, (a :: l)[j]? = some y → p y = true → j ≠ i → Precedes key i x j y := by
        intro x hx ha
        obtain ⟨i, hi, hpx, hfirst⟩ := ih hx
        refine ⟨i + 1, by simpa using hi, hpx, fun j y hj hpy hne => ?_⟩
        cases j with
        | zero =>
            obtain rfl : a = y := by simpa using hj
            exact Or.inl (not_le.mp (ha hpy))
        | succ j => exact (hfirst j y (by simpa using hj) hpy (by omega)).succ
      split_ifs at h with hpa
      · cases hl : (sortGreatestFirst key l).find? p with
        | none =>
            rw [hl, Option.some.injEq] at h
            subst h
            refine ⟨0, by simp, hpa, fun j y hj hpy hne => ?_⟩
            cases j with
            | zero => exact absurd rfl hne
            | succ j =>
                have hmem : y ∈ l := List.mem_of_getElem? (by simpa using hj)
                exact absurd hpy (List.find?_eq_none.mp hl y (mem_sortGreatestFirst.mpr hmem))
        | some x' =>
            rw [hl] at h
            dsimp only at h
            split_ifs at h with hle
            · rw [Option.some.injEq] at h
              subst h
              obtain ⟨i, hi, -, hfirst⟩ := ih hl
              refine ⟨0, by simp, hpa, fun j y hj hpy hne => ?_⟩
              cases j with
              | zero => exact absurd rfl hne
              | succ j =>
                  have hj : l[j]? = some y := by simpa using hj
                  have hy : key y ≤ key x' := by
                    by_cases hji : j = i
                    · rw [hji, hi, Option.some.injEq] at hj
                      rw [hj]
                    · rcases hfirst j y hj hpy hji with hlt | ⟨heq, -⟩
                      · exact hlt.le
                      · exact heq.le
                  rcases (hy.trans hle).lt_or_eq with hlt | heq
                  · exact Or.inl hlt
                  · exact Or.inr ⟨heq, by omega⟩
            · rw [Option.some.injEq] at h
              subst h
              exact htail hl fun _ => hle
      · exact htail h fun hpa' => absurd hpa' hpa

/-- **The first of the sorted list is the one that precedes every other candidate.** -/
theorem find?_sortGreatestFirst_iff (key : α → κ) (p : α → Bool) {l : List α} {x : α} :
    (sortGreatestFirst key l).find? p = some x ↔
      ∃ i, l[i]? = some x ∧ p x = true ∧
        ∀ j y, l[j]? = some y → p y = true → j ≠ i → Precedes key i x j y := by
  refine ⟨precedes_of_find? key p, ?_⟩
  rintro ⟨i, hi, hpx, hfirst⟩
  have hsome : ((sortGreatestFirst key l).find? p).isSome = true := by
    rw [List.find?_isSome]
    exact ⟨x, mem_sortGreatestFirst.mpr (List.mem_of_getElem? hi), hpx⟩
  obtain ⟨x', hx'⟩ := Option.isSome_iff_exists.mp hsome
  obtain ⟨i', hi', hpx', hfirst'⟩ := precedes_of_find? key p hx'
  by_cases hii : i' = i
  · rw [hii, hi, Option.some.injEq] at hi'
    rw [hx', hi']
  · exact absurd (hfirst' i x hi hpx (Ne.symm hii)) (hfirst i' x' hi' hpx' hii).asymm

end Connect
