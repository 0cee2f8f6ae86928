import ClaudeCodeConnect.Core.Machine
import Mathlib.Data.List.Forall2

/-!
# Simulations between machines

One machine follows another: each step of the first, taken where the two are related, is matched by
labels taken one after the other in the second, and leads to states that are related again.

* `Run.preserves_reached` -- the run lemma, over what is known of the states reached.
* `Simulation`, `Simulation.run` -- the step condition, and what it says of whole runs.
* `Simulation.preserves` -- an invariant of the second machine holds of the first, through the
  relation.
* `Simulation.erase` -- the case of one machine and some labels left out.
-/

namespace Connect

universe u v w x

namespace Machine

variable {σ : Type u} {ℓ : Type v} {τ : Type w} {κ : Type x} {M : Machine σ ℓ} {N : Machine τ κ}

/-! ## Lists of labels

What runs given by their labels keep. -/

lemma exec_singleton (s : σ) (l : ℓ) : M.exec s [l] = M.step s l := by
  rw [exec]
  cases M.step s l <;> rfl

lemma steps_labels (ls : List ℓ) {s t : σ} (h : M.exec s ls = some t) :
    (M.steps s ls).map Prod.snd = ls := by
  induction ls generalizing s with
  | nil => rfl
  | cons l ls ih =>
      rw [exec, Option.bind_eq_some_iff] at h
      obtain ⟨s', hs', h⟩ := h
      rw [steps, hs', List.map_cons]
      exact congrArg _ (ih h)

/-- Where `R` relates two states, a step of `M` that meets `ok` is matched in `N` by labels that `f`
allows for it, and `R` relates the states after. -/
def Simulation (M : Machine σ ℓ) (N : Machine τ κ) (R : σ → τ → Prop) (ok : σ → ℓ → Prop)
    (f : σ → ℓ → List κ → Prop) : Prop :=
  ∀ s l s' t, R s t → ok s l → M.step s l = some s' →
    ∃ ls t', f s l ls ∧ N.exec t ls = some t' ∧ R s' t'

variable {R : σ → τ → Prop} {ok : σ → ℓ → Prop} {f : σ → ℓ → List κ → Prop}

/-- **Whole runs.**  A run of steps that meet `ok` is matched by a run, whose labels are those that
match each of its steps, one after the other. -/
theorem Simulation.run (h : Simulation M N R ok f) {s s' : σ} {t : τ} {tr : List (σ × ℓ)}
    (hst : R s t) (hrun : M.Run s tr s') (hok : ∀ x ∈ tr, ok x.1 x.2) :
    ∃ t' tr' lss, N.Run t tr' t' ∧ tr'.map Prod.snd = lss.flatten ∧
      List.Forall₂ (fun x ls => f x.1 x.2 ls) tr lss ∧ R s' t' := by
  induction hrun with
  | nil => exact ⟨t, [], [], Run.nil, rfl, .nil, hst⟩
  | @snoc u u' tr l _ hl ih =>
      obtain ⟨t', tr', lss, hrun', hlabels, hmatch, hut'⟩ :=
        ih fun x hx => hok x (List.mem_append_left _ hx)
      obtain ⟨ls, t'', hls, ht'', hut''⟩ := h u l u' t' hut' (hok (u, l) (by simp)) hl
      refine ⟨t'', tr' ++ N.steps t' ls, lss ++ [ls], hrun'.trans (run_of_exec ls ht''), ?_,
        List.rel_append hmatch (.cons hls .nil), hut''⟩
      rw [List.map_append, hlabels, steps_labels ls ht'', List.flatten_append]
      simp

/-- **Invariants carry over.**  What the second machine keeps holds of each state the first one's
run ends in. -/
theorem Simulation.preserves (h : Simulation M N R ok f) (inv : τ → Prop)
    (hstep : ∀ t l t', inv t → N.step t l = some t' → inv t') {s s' : σ} {t : τ}
    {tr : List (σ × ℓ)} (hst : R s t) (ht : inv t) (hrun : M.Run s tr s')
    (hok : ∀ x ∈ tr, ok x.1 x.2) : ∃ t', inv t' ∧ R s' t' := by
  obtain ⟨t', tr', lss, hrun', -, -, hst'⟩ := h.run hst hrun hok
  exact ⟨t', hrun'.preserves inv (fun _ _ => True) (fun t l t' hi _ hl => hstep t l t' hi hl) ht
    (fun _ _ => trivial), hst'⟩

/-! ## Leaving steps out

Every step is one step of the other machine or none, as its label says: the run of the other has the
labels that are not left out. -/

/-- The visible labels of a run, matched step by step. -/
lemma flatten_visible (hidden : ℓ → Bool) {tr : List (σ × ℓ)} {lss : List (List ℓ)}
    (h : List.Forall₂ (fun x ls => ls = if hidden x.2 then [] else [x.2]) tr lss) :
    lss.flatten = (tr.map Prod.snd).filter fun l => !hidden l := by
  induction h with
  | nil => rfl
  | @cons x ls tr lss hls _ ih =>
      rw [List.flatten_cons, List.map_cons, List.filter_cons, ih, hls]
      cases hidden x.2 <;> rfl

/-- **Erasure.**  If a hidden step does not leave the relation, and every other step can be taken
in both states alike, then a run can be taken without its hidden steps. -/
theorem Simulation.erase {E : σ → σ → Prop} (hidden : ℓ → Bool)
    (hhidden : ∀ s l s' t, E s t → ok s l → hidden l = true → M.step s l = some s' → E s' t)
    (hvisible : ∀ s l s' t, E s t → ok s l → hidden l = false → M.step s l = some s' →
      ∃ t', M.step t l = some t' ∧ E s' t')
    {s s' t : σ} {tr : List (σ × ℓ)} (hst : E s t) (hrun : M.Run s tr s')
    (hok : ∀ x ∈ tr, ok x.1 x.2) :
    ∃ t' tr', M.Run t tr' t' ∧
      tr'.map Prod.snd = (tr.map Prod.snd).filter (fun l => !hidden l) ∧ E s' t' := by
  have hsim : Simulation M M E ok (fun _ l ls => ls = if hidden l then [] else [l]) := by
    intro s l s' t hst hl hstep
    cases hh : hidden l with
    | true => exact ⟨[], t, by simp [hh], rfl, hhidden s l s' t hst hl hh hstep⟩
    | false =>
        obtain ⟨t', ht', hst'⟩ := hvisible s l s' t hst hl hh hstep
        exact ⟨[l], t', by simp [hh], (exec_singleton t l).trans ht', hst'⟩
  obtain ⟨t', tr', lss, hrun', hlabels, hmatch, hst'⟩ := hsim.run hst hrun hok
  exact ⟨t', tr', hrun', hlabels.trans (flatten_visible hidden hmatch), hst'⟩

end Machine

end Connect
