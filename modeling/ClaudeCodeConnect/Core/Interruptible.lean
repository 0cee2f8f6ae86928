import Mathlib.Data.List.Basic
import Mathlib.Tactic.Lemma

/-!
# Computations that can be interrupted

What a program does, one step at a time, to something that outlives it, such as the files of a
directory.  Interrupted, it leaves what it has got to, so the states on the way matter and not only
the last one.

* `Interruptible` -- such a computation, a monad; `Passage` is what it comes to from a state.
* `Triple` -- from a state of the precondition every state on the way is of one kind, and the value
  and the last state of another.
* `triple_pure`, `triple_bind`, `triple_step`, `triple_stepIf`, `triple_forM`, `triple_mono`,
  `triple_and` -- its rules.
* `triple_throw`, `triple_liftExcept`, `triple_lift`, `triple_bindExcept` -- the rules for
  computations that may fail.
-/

namespace Connect

/-- What a computation comes to: the states its steps lead to, in order, its value, and the state it
ends in. -/
structure Passage (σ α : Type) where
  moments : List σ
  value : α
  last : σ

/-- A computation over `σ`. -/
def Interruptible (σ α : Type) : Type := σ → Passage σ α

namespace Interruptible

variable {σ α β ε : Type}

instance : Monad (Interruptible σ) where
  pure a s := ⟨[], a, s⟩
  bind c f s :=
    ⟨(c s).moments ++ (f (c s).value (c s).last).moments, (f (c s).value (c s).last).value,
      (f (c s).value (c s).last).last⟩

/-- Look at the state. -/
def read : Interruptible σ σ := fun s => ⟨[], s, s⟩

/-- One step; after it, the computation may be interrupted. -/
def step (f : σ → σ) : Interruptible σ Unit := fun s => ⟨[f s], (), f s⟩

/-- A step, or nothing. -/
def stepIf (b : Bool) (f : σ → σ) : Interruptible σ Unit := if b then step f else pure ()

@[simp] lemma pure_apply (a : α) (s : σ) : (pure a : Interruptible σ α) s = ⟨[], a, s⟩ := rfl

@[simp] lemma bind_apply (c : Interruptible σ α) (f : α → Interruptible σ β) (s : σ) :
    (c >>= f) s = ⟨(c s).moments ++ (f (c s).value (c s).last).moments,
      (f (c s).value (c s).last).value, (f (c s).value (c s).last).last⟩ := rfl

@[simp] lemma read_apply (s : σ) : (read : Interruptible σ σ) s = ⟨[], s, s⟩ := rfl

@[simp] lemma step_apply (f : σ → σ) (s : σ) : step f s = ⟨[f s], (), f s⟩ := rfl

instance : LawfulMonad (Interruptible σ) :=
  LawfulMonad.mk' _ (fun _ => funext fun _ => congrArg (Passage.mk · _ _) (List.append_nil _))
    (fun _ _ => rfl)
    fun _ _ _ => funext fun _ => congrArg (Passage.mk · _ _) (List.append_assoc _ _ _)

/-- From every state of the precondition, every state on the way satisfies `during`, and the value
and the last state satisfy `post`. -/
def Triple (pre : σ → Prop) (c : Interruptible σ α) (during : σ → Prop) (post : α → σ → Prop) :
    Prop :=
  ∀ s, pre s → (∀ t ∈ (c s).moments, during t) ∧ post (c s).value (c s).last

variable {pre pre' during during' : σ → Prop} {post post' : α → σ → Prop}

theorem triple_mono {c : Interruptible σ α} (h : Triple pre c during post)
    (hpre : ∀ s, pre' s → pre s) (hduring : ∀ s, during s → during' s)
    (hpost : ∀ a s, post a s → post' a s) : Triple pre' c during' post' := by
  intro s hs
  obtain ⟨hmoments, hlast⟩ := h s (hpre s hs)
  exact ⟨fun t ht => hduring t (hmoments t ht), hpost _ _ hlast⟩

/-- What does not depend on the state is a hypothesis. -/
theorem triple_and {p : Prop} {c : Interruptible σ α} (h : p → Triple pre c during post) :
    Triple (fun s => pre s ∧ p) c during post :=
  fun s hs => h hs.2 s hs.1

theorem triple_pure {a : α} (h : ∀ s, pre s → post a s) : Triple pre (pure a) during post := by
  intro s hs
  refine ⟨fun t ht => ?_, h s hs⟩
  simp at ht

theorem triple_bind {c : Interruptible σ α} {f : α → Interruptible σ β} {mid : α → σ → Prop}
    {post : β → σ → Prop} (hc : Triple pre c during mid)
    (hf : ∀ a, Triple (mid a) (f a) during post) : Triple pre (c >>= f) during post := by
  intro s hs
  obtain ⟨hmoments, hmid⟩ := hc s hs
  obtain ⟨hmoments', hpost⟩ := hf _ _ hmid
  refine ⟨fun t ht => ?_, hpost⟩
  rcases List.mem_append.mp ht with ht | ht
  · exact hmoments t ht
  · exact hmoments' t ht

theorem triple_read : Triple pre read during fun a s => a = s ∧ pre s := by
  intro s hs
  refine ⟨fun t ht => ?_, rfl, hs⟩
  simp at ht

theorem triple_step {f : σ → σ} {post : Unit → σ → Prop}
    (h : ∀ s, pre s → during (f s) ∧ post () (f s)) : Triple pre (step f) during post := by
  intro s hs
  refine ⟨fun t ht => ?_, (h s hs).2⟩
  rw [List.mem_singleton.mp ht]
  exact (h s hs).1

theorem triple_stepIf {b : Bool} {f : σ → σ} {post : Unit → σ → Prop}
    (htrue : b = true → ∀ s, pre s → during (f s) ∧ post () (f s))
    (hfalse : b = false → ∀ s, pre s → post () s) : Triple pre (stepIf b f) during post := by
  cases b with
  | true => exact triple_step (htrue rfl)
  | false => exact triple_pure (hfalse rfl)

/-- A loop, by an invariant of what has been gone through. -/
theorem triple_forM (inv : List α → σ → Prop) {f : α → Interruptible σ PUnit} {l : List α}
    (h : ∀ done a rest, l = done ++ a :: rest →
      Triple (inv done) (f a) during fun _ => inv (done ++ [a])) :
    Triple (inv []) (l.forM f) during fun _ => inv l := by
  induction l generalizing inv with
  | nil => exact triple_pure fun _ hs => hs
  | cons a l ih =>
      refine triple_bind (h [] a l rfl) fun _ => ?_
      refine ih (fun done => inv (a :: done)) fun done b rest hl => ?_
      exact h (a :: done) b rest (by rw [hl]; rfl)

/-! ## Computations that may fail

The rules for `ExceptT` over such a computation.  An error leaves the state where the step that
failed had brought it, so it has a postcondition of its own. -/

/-- What holds of a value, and what of an error. -/
def onResult (ok : α → σ → Prop) (err : ε → σ → Prop) : Except ε α → σ → Prop
  | .ok a, s => ok a s
  | .error e, s => err e s

variable {ok ok' : α → σ → Prop} {err err' : ε → σ → Prop}

lemma onResult_mono (hok : ∀ a s, ok a s → ok' a s) (herr : ∀ e s, err e s → err' e s) :
    ∀ r s, onResult ok err r s → onResult ok' err' r s := by
  rintro (e | a) s h
  · exact herr e s h
  · exact hok a s h

theorem triple_throw {e : ε} (h : ∀ s, pre s → err e s) :
    Triple pre (throw e : ExceptT ε (Interruptible σ) α).run during (onResult ok err) :=
  triple_pure h

/-- An answer that is there already. -/
theorem triple_liftExcept {r : Except ε α} (hok : ∀ a, r = .ok a → ∀ s, pre s → ok a s)
    (herr : ∀ e, r = .error e → ∀ s, pre s → err e s) :
    Triple pre (liftExcept r : ExceptT ε (Interruptible σ) α).run during (onResult ok err) := by
  cases r with
  | ok a => exact triple_pure (hok a rfl)
  | error e => exact triple_pure (herr e rfl)

/-- A computation that cannot fail. -/
theorem triple_lift {c : Interruptible σ α} (hc : Triple pre c during ok) :
    Triple pre (liftM c : ExceptT ε (Interruptible σ) α).run during (onResult ok err) :=
  triple_bind hc fun _ => triple_pure fun _ hs => hs

/-- An error ends the computation. -/
theorem triple_bindExcept (mid : α → σ → Prop) {c : ExceptT ε (Interruptible σ) α}
    {f : α → ExceptT ε (Interruptible σ) β} {ok : β → σ → Prop}
    (hc : Triple pre c.run during (onResult mid err))
    (hf : ∀ a, Triple (mid a) (f a).run during (onResult ok err)) :
    Triple pre (c >>= f).run during (onResult ok err) := by
  refine triple_bind hc fun r => ?_
  cases r with
  | ok a => exact hf a
  | error e => exact triple_pure fun _ hs => hs

end Interruptible

end Connect
