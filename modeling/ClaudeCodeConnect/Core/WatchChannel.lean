import Mathlib.Data.List.Induction
import Mathlib.Tactic.Lemma

/-!
# A watch channel

A cell that holds one value and counts how often it was replaced.  A receiver remembers the count it
has seen; waiting for a change is waiting for the two to differ.  Values are overwritten, so a slow
receiver skips some of them, but never the newest.

* `Watch.changed` -- what waiting for a change resolves to.  An unseen value is reported even after
  the last sender is gone.
* `Watch.Carries` -- the cell against the list of everything ever sent: its value is the last entry
  and its version the length.
* `sublist_of_reads` -- values read at increasing versions are a subsequence of what was sent.
-/

namespace Connect

variable {α : Type*}

/-- `tokio::sync::watch`: a cell that holds one value, and tells its receivers that it was replaced.
-/
structure Watch (α : Type*) where
  value : α
  /-- How often the value was replaced. -/
  version : ℕ
  /-- Every sender was dropped. -/
  closed : Bool
  deriving DecidableEq, Repr

/-- What `changed().await` resolves to, for a receiver that has seen some version. -/
inductive Changed
  | pending
  /-- There is an unseen value; the receiver has now seen this version. -/
  | ready (seen : ℕ)
  | closed
  deriving DecidableEq, Repr

namespace Watch

/-- `watch::channel`. -/
def channel (value : α) : Watch α := ⟨value, 0, false⟩

/-- `Sender::send_replace`. -/
def sendReplace (w : Watch α) (value : α) : Watch α :=
  { w with value := value, version := w.version + 1 }

/-- The last sender is dropped. -/
def close (w : Watch α) : Watch α := { w with closed := true }

/-- `Receiver::changed`. -/
def changed (w : Watch α) (seen : ℕ) : Changed :=
  if w.version ≠ seen then .ready w.version
  else if w.closed then .closed else .pending

@[simp] lemma sendReplace_value (w : Watch α) (value : α) :
    (w.sendReplace value).value = value := rfl

lemma changed_eq_ready {w : Watch α} {seen v : ℕ} (h : w.changed seen = .ready v) :
    v = w.version ∧ w.version ≠ seen := by
  rw [changed] at h
  split_ifs at h with hv
  exact ⟨(Changed.ready.inj h).symm, hv⟩

/-- The cell after these values were sent, in this order. -/
structure Carries (w : Watch (Option α)) (sent : List α) : Prop where
  value : w.value = sent.getLast?
  version : w.version = sent.length

lemma carries_channel : (channel (none : Option α)).Carries [] := ⟨rfl, rfl⟩

lemma Carries.sendReplace {w : Watch (Option α)} {sent : List α} (h : w.Carries sent) (x : α) :
    (w.sendReplace (some x)).Carries (sent ++ [x]) where
  value := by simp [Watch.sendReplace]
  version := by simp [Watch.sendReplace, h.version]

lemma Carries.close {w : Watch (Option α)} {sent : List α} (h : w.Carries sent) :
    w.close.Carries sent := ⟨h.value, h.version⟩

end Watch

/-- **Skipping keeps order.**  Each entry of `reads` records how many values had been sent when one
was read, and the value read, the newest at that moment.  If these numbers increase, the values read
are a subsequence of the values sent. -/
theorem sublist_of_reads {sent : List α} {reads : List (ℕ × α)}
    (hinc : (reads.map Prod.fst).Pairwise (· < ·))
    (hread : ∀ e ∈ reads, 0 < e.1 ∧ sent[e.1 - 1]? = some e.2) :
    (reads.map Prod.snd).Sublist sent := by
  induction reads using List.reverseRecOn generalizing sent with
  | nil => exact List.nil_sublist sent
  | append_singleton reads e ih =>
      obtain ⟨n, x⟩ := e
      simp only [List.map_append, List.map_cons, List.map_nil, List.pairwise_append,
        List.mem_singleton, forall_eq] at hinc
      obtain ⟨hinc, -, hlast⟩ := hinc
      obtain ⟨hpos, hx⟩ := hread (n, x) (by simp)
      simp only at hpos hx
      obtain ⟨hlt, hget⟩ := List.getElem?_eq_some_iff.mp hx
      -- the earlier reads are of the values sent before the one read last
      have hbefore : (reads.map Prod.snd).Sublist (sent.take (n - 1)) := by
        refine ih hinc fun e he => ?_
        obtain ⟨hepos, hesent⟩ := hread e (List.mem_append_left _ he)
        have helt : e.1 < n := hlast e.1 (List.mem_map_of_mem he)
        exact ⟨hepos, by rw [List.getElem?_take_of_lt (by omega), hesent]⟩
      have htake : sent.take (n - 1) ++ [x] = sent.take (n - 1 + 1) := by
        rw [← hget]
        exact (List.take_succ_eq_append_getElem hlt).symm
      have hall := hbefore.append (List.Sublist.refl [x])
      rw [htake] at hall
      rw [List.map_append]
      exact hall.trans (List.take_sublist _ _)

end Connect
