import Mathlib.Data.List.Basic
import Mathlib.Tactic.Lemma

/-!
# A broadcast ring

A bounded ring that every receiver reads in full, each at its own place.  Sending never waits: it
overwrites the oldest slot, and a receiver whose place was overwritten is told how many events it
missed and resumes at the oldest one still there.

The ring is kept as the list of everything ever sent; the slots are its last `size` entries, and a
receiver's place is an index into the list.

* `Ring.recv` -- what a receive resolves to.
* `Ring.unread` -- what a receiver has yet to be given if it never lags; `Ring.skipped`, the part of
  it that is gone.
* `oldest_send`, `skipped_send`, `unread_send` -- what one send does to each.
-/

namespace Connect

variable {α : Type*}

/-- `tokio::sync::broadcast`; the slots hold the last `size` events of `sent`. -/
structure Ring (α : Type*) where
  size : ℕ
  size_pos : 0 < size
  sent : List α

/-- What `recv().await` resolves to, with the receiver's next place. -/
inductive Received (α : Type*)
  | pending
  | event (a : α) (next : ℕ)
  | lagged (skipped : ℕ) (next : ℕ)
  deriving DecidableEq, Repr

namespace Ring

/-- `broadcast::channel`: the capacity is rounded up to a power of two. -/
def channel (capacity : ℕ) : Ring α where
  size := capacity.nextPowerOfTwo
  size_pos := Nat.pos_of_isPowerOfTwo (Nat.isPowerOfTwo_nextPowerOfTwo capacity)
  sent := []

/-- `Sender::send`: never waits; with every slot taken, the oldest event goes. -/
def send (r : Ring α) (a : α) : Ring α := { r with sent := r.sent ++ [a] }

/-- `Sender::subscribe`: the next event sent is the first received. -/
def subscribe (r : Ring α) : ℕ := r.sent.length

/-- The oldest event a slot still holds. -/
def oldest (r : Ring α) : ℕ := r.sent.length - r.size

/-- `Receiver::recv`. -/
def recv (r : Ring α) (next : ℕ) : Received α :=
  if next < r.oldest then .lagged (r.oldest - next) r.oldest
  else match r.sent[next]? with
    | some a => .event a (next + 1)
    | none => .pending

/-- Everything sent since a place. -/
def unread (r : Ring α) (next : ℕ) : List α := r.sent.drop next

/-- The part of it whose slots were overwritten. -/
def skipped (r : Ring α) (next : ℕ) : List α := (r.sent.take r.oldest).drop next

/-- The slots. -/
def retained (r : Ring α) : List α := r.sent.drop r.oldest

@[simp] lemma send_sent (r : Ring α) (a : α) : (r.send a).sent = r.sent ++ [a] := rfl

@[simp] lemma send_size (r : Ring α) (a : α) : (r.send a).size = r.size := rfl

lemma recv_eq_lagged {r : Ring α} {next n k : ℕ} (h : r.recv next = .lagged n k) :
    next < r.oldest ∧ n = r.oldest - next ∧ k = r.oldest := by
  rw [recv] at h
  split_ifs at h with hlt
  · simp only [Received.lagged.injEq] at h
    exact ⟨hlt, h.1.symm, h.2.symm⟩
  · split at h <;> cases h

lemma recv_eq_event {r : Ring α} {next k : ℕ} {a : α} (h : r.recv next = .event a k) :
    r.oldest ≤ next ∧ r.sent[next]? = some a ∧ k = next + 1 := by
  rw [recv] at h
  split_ifs at h with hlt
  split at h
  · rename_i b hb
    simp only [Received.event.injEq] at h
    obtain ⟨rfl, rfl⟩ := h
    exact ⟨Nat.le_of_not_lt hlt, hb, rfl⟩
  · cases h

lemma recv_eq_pending {r : Ring α} {next : ℕ} (h : r.recv next = .pending) :
    r.sent.length ≤ next := by
  rw [recv] at h
  split_ifs at h
  split at h
  · cases h
  · exact List.getElem?_eq_none_iff.mp ‹_›

lemma oldest_le (r : Ring α) : r.oldest ≤ r.sent.length := Nat.sub_le _ _

/-- A receiver that has fallen behind has missed the skipped part and is still to get the slots. -/
lemma unread_of_lt {r : Ring α} {next : ℕ} (h : next ≤ r.oldest) :
    r.unread next = r.skipped next ++ r.retained := by
  have hlen : (r.sent.take r.oldest).length = r.oldest := by
    rw [List.length_take, Nat.min_eq_left r.oldest_le]
  rw [unread, skipped, retained]
  conv_lhs => rw [← List.take_append_drop r.oldest r.sent]
  rw [List.drop_append_of_le_length (by omega)]

lemma skipped_of_le {r : Ring α} {next : ℕ} (h : r.oldest ≤ next) : r.skipped next = [] := by
  rw [skipped]
  exact List.drop_eq_nil_of_le (Nat.le_trans (List.length_take_le _ _) h)

lemma unread_send {r : Ring α} {next : ℕ} (h : next ≤ r.sent.length) (a : α) :
    (r.send a).unread next = r.unread next ++ [a] := by
  rw [unread, unread, send_sent, List.drop_append_of_le_length h]

/-- The event just sent is in the last slot. -/
lemma retained_send (r : Ring α) (a : α) :
    (r.send a).retained = r.sent.drop (r.send a).oldest ++ [a] := by
  have hpos := r.size_pos
  have hle : (r.send a).oldest ≤ r.sent.length := by
    simp only [oldest, send_sent, send_size, List.length_append, List.length_singleton]
    omega
  rw [retained, send_sent, List.drop_append_of_le_length hle]

lemma unread_event {r : Ring α} {next : ℕ} {a : α} (h : r.sent[next]? = some a) :
    r.unread next = a :: r.unread (next + 1) := by
  obtain ⟨hlt, rfl⟩ := List.getElem?_eq_some_iff.mp h
  rw [unread, unread]
  exact List.drop_eq_getElem_cons hlt

/-! ## What a send overwrites

Whether a slot is free decides what a send does to a receiver that is behind: with a free slot there
is only more for it to read, without one the oldest of what it has yet to read is gone. -/

/-- The event a send would overwrite, if every slot is taken. -/
def overwritten (r : Ring α) : Option α :=
  if r.size ≤ r.sent.length then r.sent[r.oldest]? else none

lemma oldest_send_of_overwritten {r : Ring α} {b : α} (h : r.overwritten = some b) (a : α) :
    (r.send a).oldest = r.oldest + 1 ∧ r.sent[r.oldest]? = some b := by
  rw [overwritten] at h
  split_ifs at h with hfull
  refine ⟨?_, h⟩
  simp only [oldest, send_sent, send_size, List.length_append, List.length_singleton]
  omega

lemma oldest_send_of_free {r : Ring α} (h : r.overwritten = none) (a : α) :
    (r.send a).oldest = r.oldest := by
  have hpos := r.size_pos
  simp only [oldest, send_sent, send_size, List.length_append, List.length_singleton]
  rw [overwritten] at h
  split_ifs at h with hfull
  · rw [List.getElem?_eq_none_iff, oldest] at h
    omega
  · omega

/-- A send that overwrites moves the oldest retained event to the skipped ones, for every receiver
that has not read it. -/
lemma skipped_send_of_overwritten {r : Ring α} {b : α} (h : r.overwritten = some b) (a : α)
    {next : ℕ} (hnext : next ≤ r.oldest) :
    (r.send a).skipped next = r.skipped next ++ [b] ∧
      r.retained ++ [a] = b :: (r.send a).retained := by
  obtain ⟨hold, hb⟩ := oldest_send_of_overwritten h a
  obtain ⟨hlt, rfl⟩ := List.getElem?_eq_some_iff.mp hb
  have hlen : (r.sent.take r.oldest).length = r.oldest := by
    rw [List.length_take, Nat.min_eq_left r.oldest_le]
  constructor
  · rw [skipped, skipped, hold, send_sent, List.take_append_of_le_length (by omega),
      List.take_succ_eq_append_getElem hlt, List.drop_append_of_le_length (by omega)]
  · rw [retained, retained, hold, send_sent, List.drop_append_of_le_length (by omega),
      List.drop_eq_getElem_cons hlt, List.cons_append]

lemma skipped_send_of_free {r : Ring α} (h : r.overwritten = none) (a : α) (next : ℕ) :
    (r.send a).skipped next = r.skipped next ∧ (r.send a).retained = r.retained ++ [a] := by
  have hold := oldest_send_of_free h a
  have hle := r.oldest_le
  constructor
  · rw [skipped, skipped, hold, send_sent, List.take_append_of_le_length hle]
  · rw [retained, retained, hold, send_sent, List.drop_append_of_le_length hle]

end Ring

end Connect
