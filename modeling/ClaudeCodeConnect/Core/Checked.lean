import Mathlib.Data.List.Basic
import Mathlib.Tactic.Lemma

/-!
# Checked computations

The source runs where a bad slice, an index out of bounds or a subtraction below zero panics.  A
model that quietly truncates would prove nothing about that, so such an operation returns
`Checked`: an `error` is a panic, and a theorem that a function returns `ok` says that it does not
panic.

The vector operations here are those of Rust's `Vec` that the line index is patched with.
-/

namespace Connect

variable {α β : Type*}

/-- What a panic was about. -/
inductive Panic
  | charBoundary
  | outOfBounds
  | underflow
  deriving DecidableEq, Repr

/-- A computation that either returns or panics. -/
abbrev Checked (α : Type*) := Except Panic α

/-- `none` is the panic `e`. -/
def orPanic (e : Panic) : Option α → Checked α
  | some a => .ok a
  | none => .error e

@[simp] lemma orPanic_some (e : Panic) (a : α) : orPanic e (some a) = .ok a := rfl

/-- Subtraction on `usize`. -/
def checkedSub (a b : ℕ) : Checked ℕ :=
  if b ≤ a then .ok (a - b) else .error .underflow

lemma checkedSub_of_le {a b : ℕ} (h : b ≤ a) : checkedSub a b = .ok (a - b) := if_pos h

/-! ## `Vec`

The operations of `Vec` that the line table is patched with.  Each panics as the source's does, and
on arguments in range is the operation on lists. -/

/-- `slice::partition_point`: how many elements at the front satisfy `q`, for a slice in which
those that do come first. -/
def partitionPoint (q : α → Bool) (xs : List α) : ℕ := (xs.takeWhile q).length

lemma partitionPoint_append {q : α → Bool} {xs ys : List α} (hx : ∀ x ∈ xs, q x = true)
    (hy : ∀ y ∈ ys, q y = false) : partitionPoint q (xs ++ ys) = xs.length := by
  have hnil : ys.takeWhile q = [] := by
    cases ys with
    | nil => rfl
    | cons y ys => simp [hy y List.mem_cons_self]
  rw [partitionPoint, List.takeWhile_append_of_pos hx, hnil, List.append_nil]

/-- `Vec::splice(head..tail, added)`; `Vec::drain(head..tail)` when nothing is added. -/
def spliceVec (xs : List α) (head tail : ℕ) (added : List α) : Checked (List α) :=
  if head ≤ tail ∧ tail ≤ xs.length then .ok (xs.take head ++ added ++ xs.drop tail)
  else .error .outOfBounds

lemma spliceVec_append (a m b added : List α) :
    spliceVec (a ++ m ++ b) a.length (a.length + m.length) added = .ok (a ++ added ++ b) := by
  have hdrop : (a ++ m ++ b).drop (a.length + m.length) = b := by
    rw [← List.length_append, List.drop_left]
  rw [spliceVec, if_pos (by simp), hdrop, List.append_assoc a m b, List.take_left]

/-- `for x in &mut xs[head..] { *x = f(*x) }`. -/
def updateFrom (f : α → Checked α) (head : ℕ) (xs : List α) : Checked (List α) :=
  if head ≤ xs.length then do
    let tail ← (xs.drop head).mapM f
    return xs.take head ++ tail
  else .error .outOfBounds

lemma mapM_ok_of_forall {f : α → Checked β} {g : α → β} {xs : List α}
    (h : ∀ x ∈ xs, f x = .ok (g x)) : xs.mapM f = .ok (xs.map g) := by
  induction xs with
  | nil => rfl
  | cons x xs ih =>
      have hx := h x List.mem_cons_self
      have ih := ih fun y hy => h y (List.mem_cons_of_mem _ hy)
      rw [List.mapM_cons, hx, ih]
      rfl

lemma updateFrom_append {f : α → Checked α} {g : α → α} {a b : List α}
    (h : ∀ x ∈ b, f x = .ok (g x)) : updateFrom f a.length (a ++ b) = .ok (a ++ b.map g) := by
  rw [updateFrom, if_pos (by simp), List.drop_left, mapM_ok_of_forall h, List.take_left]
  rfl

end Connect
