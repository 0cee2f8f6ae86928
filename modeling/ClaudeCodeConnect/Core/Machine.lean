import Mathlib.Data.List.Basic
import Mathlib.Tactic.Lemma

/-!
# Labelled machines and their runs

A concurrent component is modelled as a `Machine`: an initial condition and a partial step
function, where the label of a step names the party that moves and everything that was open when
it did (which branch of a `select!` won, what the operating system answered).  An interleaving is
then a list of labels, and "for every interleaving" is "for every run".

* `Machine.Run` -- a run together with the record of its steps, so that a theorem can speak both of
  the state a run ends in and of each step it took.
* `Run.preserves`, `Run.preserves_before` -- the induction every invariant below goes through: what
  one step keeps, under a condition on steps that the run is known to meet, the run keeps.
* `Run.split` -- a run comes apart at each of its steps.
* `exec`, `steps`, `run_of_exec` -- the executable counterpart: evaluating a concrete list of
  labels yields a `Run`.
-/

namespace Connect

universe u v

/-- A labelled machine: where it may start, and what a labelled step does.  `none` means that the
step is not enabled. -/
structure Machine (σ : Type u) (ℓ : Type v) where
  init : σ → Prop
  step : σ → ℓ → Option σ

namespace Machine

variable {σ : Type u} {ℓ : Type v} {M : Machine σ ℓ}

/-- A run from one state to another, with its steps in order: the state each was taken in, and its
label. -/
inductive Run (M : Machine σ ℓ) (s : σ) : List (σ × ℓ) → σ → Prop
  | nil : Run M s [] s
  | snoc {t u : σ} {tr : List (σ × ℓ)} {l : ℓ} :
      Run M s tr t → M.step t l = some u → Run M s (tr ++ [(t, l)]) u

/-- **The run lemma.**  What every step keeps, provided the step meets `ok`, a run of steps that
meet `ok` keeps. -/
theorem Run.preserves (inv : σ → Prop) (ok : σ → ℓ → Prop)
    (hstep : ∀ s l t, inv s → ok s l → M.step s l = some t → inv t)
    {s t : σ} {tr : List (σ × ℓ)} (h : M.Run s tr t) (hs : inv s)
    (hok : ∀ x ∈ tr, ok x.1 x.2) : inv t := by
  induction h with
  | nil => exact hs
  | @snoc t u tr l _ hu ih =>
      have ht : inv t := ih fun x hx => hok x (List.mem_append_left _ hx)
      exact hstep t l u ht (hok (t, l) (by simp)) hu

/-- The same for every state the run passed through: the invariant holds wherever a step was
taken. -/
theorem Run.preserves_before (inv : σ → Prop) (ok : σ → ℓ → Prop)
    (hstep : ∀ s l t, inv s → ok s l → M.step s l = some t → inv t)
    {s t : σ} {tr : List (σ × ℓ)} (h : M.Run s tr t) (hs : inv s)
    (hok : ∀ x ∈ tr, ok x.1 x.2) : ∀ x ∈ tr, inv x.1 := by
  induction h with
  | nil => simp
  | @snoc t u tr l hrun hu ih =>
      have hok' : ∀ x ∈ tr, ok x.1 x.2 := fun x hx => hok x (List.mem_append_left _ hx)
      intro x hx
      rcases List.mem_append.mp hx with hx | hx
      · exact ih hok' x hx
      · rw [List.mem_singleton.mp hx]
        exact hrun.preserves inv ok hstep hs hok'

lemma Run.cons {s t u : σ} {tr : List (σ × ℓ)} {l : ℓ} (hl : M.step s l = some t)
    (h : M.Run t tr u) : M.Run s ((s, l) :: tr) u := by
  induction h with
  | nil => exact Run.snoc Run.nil hl
  | snoc _ hu ih => exact Run.snoc ih hu

lemma Run.trans {s t u : σ} {tr tr' : List (σ × ℓ)} (h : M.Run s tr t) (h' : M.Run t tr' u) :
    M.Run s (tr ++ tr') u := by
  induction h' with
  | nil => simpa using h
  | snoc _ hu ih => rw [← List.append_assoc]; exact Run.snoc ih hu

/-- A run passes through the state in which each of its steps was taken: it comes apart there. -/
lemma Run.split {s t : σ} {tr before after : List (σ × ℓ)} {x : σ × ℓ} (h : M.Run s tr t)
    (htr : tr = before ++ x :: after) :
    ∃ u, M.Run s before x.1 ∧ M.step x.1 x.2 = some u ∧ M.Run u after t := by
  induction h generalizing after with
  | nil => simp at htr
  | @snoc t' t tr l hrun hl ih =>
      rcases List.eq_nil_or_concat after with rfl | ⟨after, y, rfl⟩
      · obtain ⟨rfl, hx⟩ := List.append_inj' htr rfl
        obtain rfl : (t', l) = x := by simpa using hx
        exact ⟨t, hrun, hl, Run.nil⟩
      · rw [List.concat_eq_append, ← List.cons_append, ← List.append_assoc] at htr
        obtain ⟨htr, hy⟩ := List.append_inj' htr rfl
        obtain ⟨u, hbefore, hu, hafter⟩ := ih htr
        obtain rfl : (t', l) = y := by simpa using hy
        rw [List.concat_eq_append]
        exact ⟨u, hbefore, hu, Run.snoc hafter hl⟩

/-! ## Evaluating a list of labels

A run by its labels, to be evaluated: for witnesses, and for runs that are put together from pieces.
-/

/-- Take the labelled steps in order, failing at the first that is not enabled. -/
def exec (M : Machine σ ℓ) : σ → List ℓ → Option σ
  | s, [] => some s
  | s, l :: ls => (M.step s l).bind fun t => M.exec t ls

/-- The steps `exec` takes, in the form `Run` records them. -/
def steps (M : Machine σ ℓ) : σ → List ℓ → List (σ × ℓ)
  | _, [] => []
  | s, l :: ls => (s, l) :: ((M.step s l).elim [] fun t => M.steps t ls)

/-- What `exec` evaluates is a run. -/
theorem run_of_exec (ls : List ℓ) {s t : σ} (h : M.exec s ls = some t) :
    M.Run s (M.steps s ls) t := by
  induction ls generalizing s with
  | nil =>
      cases h
      exact Run.nil
  | cons l ls ih =>
      rw [exec, Option.bind_eq_some_iff] at h
      obtain ⟨s', hs', h⟩ := h
      rw [steps, hs']
      exact Run.cons hs' (ih h)

end Machine

end Connect
