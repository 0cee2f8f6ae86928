import ClaudeCodeConnect.Core.Machine
import ClaudeCodeConnect.Selection.EventBus
import Mathlib.Data.List.Chain

/-!
# The selection tracker

`SelectionTracker` and its task `run` of `selection.rs`: what the editor reports is coalesced into
the selections worth publishing.  The editor's side writes a watch cell; the task waits for a
change, lets it settle, reads the cell, and publishes what it read unless it is what it published
last.

The machine interleaves any number of updates with the task's own steps.  Both branches of the
`select!` are open whenever they could be taken, and the timer may fire at any moment of the window,
so nothing below depends on how long anything takes.  `handle_at_mention_request`, which any
connection may run at any time, is part of the machine too; `Selection.MentionRequest` is about it.

* `TrackerState.step` -- one step of an update, of the task, or of a request.
* `TrackerState.Inv` -- what holds between any two steps: where the last read stands in the list of
  updates, and what has been published by then.
* `inv_step`, `inv_of_run` -- one step, and a run.
* `tracker_publishes_settled` -- the published selections are a subsequence of the updates, each
  the newest when it was read; no two in a row are equal; and when the task is parked with nothing
  unseen, what it published last is what was reported last.
-/

namespace Connect

variable {Path Url : Type}

/-- Where the task `run` stands. -/
inductive TrackerPc (Path Url : Type)
  /-- `rx.changed().await`, for the first update since the last emission. -/
  | waiting
  /-- In the `select!`. -/
  | settling
  /-- The timer fired. -/
  | settled
  /-- Read from the cell, to be compared with `last_sent`. -/
  | comparing (selection : Selection Path Url)
  /-- In `publish_selection`, before its first step. -/
  | publishing (selection : Selection Path Url)
  /-- Between its two steps. -/
  | sending (selection : Selection Path Url)
  /-- Every tracker was dropped, and the task returned. -/
  | ended
  deriving DecidableEq, Repr

/-- Between reading the cell and recording what was read. -/
def TrackerPc.handling : TrackerPc Path Url → Bool
  | .comparing _ | .publishing _ => true
  | _ => false

/-- The tracker, its task and the bus it publishes on, with a history of what went in and came out.
-/
structure TrackerState (Path Url : Type) where
  input : Watch (Option (Selection Path Url))
  /-- The version the task's receiver has seen. -/
  seen : ℕ
  pc : TrackerPc Path Url
  lastSent : Option (Selection Path Url)
  bus : EventBus Path Url
  /-- Mentions some request is about to publish. -/
  pending : List (Mention Path)
  /-- History: everything passed to `update`. -/
  updates : List (Selection Path Url)
  /-- History: how many updates there had been when the task last read the cell. -/
  readAt : ℕ
  /-- History: what was published, with `readAt` at the time. -/
  published : List (ℕ × Selection Path Url)
  /-- History: for each request, the selection reported last before it was handled, and the mention
  it publishes. -/
  handled : List (Option (Selection Path Url) × Option (Mention Path))

/-- The steps: of whoever updates the tracker, of the task, and of the requests that mention the
selection. -/
inductive TrackerLabel (Path Url : Type)
  /-- `SelectionTracker::update`, through any clone of the tracker. -/
  | update (selection : Selection Path Url)
  /-- The last clone of the tracker is dropped. -/
  | dropTrackers
  /-- The first `changed()` resolves. -/
  | wake
  /-- The `changed()` of the `select!` resolves: the timer starts again. -/
  | restart
  | timerFires
  | borrowAndUpdate
  | compare
  | replaceLatest
  | send
  /-- `handle_at_mention_request` reads `bus.latest()`. -/
  | request
  /-- ... and publishes the mention. -/
  | publishMention (mention : Mention Path)
  deriving DecidableEq, Repr

namespace TrackerState

/-- Nothing reported yet, and the task waiting. -/
def new (capacity : ℕ) : TrackerState Path Url where
  input := Watch.channel none
  seen := 0
  pc := .waiting
  lastSent := none
  bus := EventBus.new capacity
  pending := []
  updates := []
  readAt := 0
  published := []
  handled := []

/-- `SelectionTracker::update`. -/
def update (s : TrackerState Path Url) (x : Selection Path Url) : TrackerState Path Url :=
  { s with input := s.input.sendReplace (some x), updates := s.updates ++ [x] }

/-- `rx.borrow_and_update()`, and the `let ... else`. -/
def borrowAndUpdate (s : TrackerState Path Url) : TrackerState Path Url :=
  match s.input.value with
  | some x => { s with seen := s.input.version, readAt := s.updates.length, pc := .comparing x }
  | none => { s with seen := s.input.version, pc := .waiting }

/-- `bus.latest()`, and the mention made of it. -/
def request (s : TrackerState Path Url) : TrackerState Path Url :=
  let mention := s.bus.latest.map Mention.of
  { s with
    pending := s.pending ++ mention.toList
    handled := s.handled ++ [(s.updates.getLast?, mention)] }

variable [DecidableEq Path] [DecidableEq Url]

/-- `if last_sent.as_ref() == Some(&selection) { continue; }`, and `last_sent = ...` after it. -/
def compare (s : TrackerState Path Url) (x : Selection Path Url) : TrackerState Path Url :=
  if s.lastSent = some x then { s with pc := .waiting }
  else { s with lastSent := some x, pc := .publishing x }

/-- One step, of the task or of those around it.  The timer may fire at any time once it runs, and
starts again at every update the task sees before it does. -/
def step (s : TrackerState Path Url) :
    TrackerLabel Path Url → Option (TrackerState Path Url)
  | .update x => if s.input.closed then none else some (s.update x)
  | .dropTrackers => some { s with input := s.input.close }
  | .wake =>
      match s.pc, s.input.changed s.seen with
      | .waiting, .ready seen => some { s with seen := seen, pc := .settling }
      | .waiting, .closed => some { s with pc := .ended }
      | _, _ => none
  | .restart =>
      match s.pc, s.input.changed s.seen with
      | .settling, .ready seen => some { s with seen := seen }
      | .settling, .closed => some { s with pc := .ended }
      | _, _ => none
  | .timerFires =>
      match s.pc with
      | .settling => some { s with pc := .settled }
      | _ => none
  | .borrowAndUpdate =>
      match s.pc with
      | .settled => some s.borrowAndUpdate
      | _ => none
  | .compare =>
      match s.pc with
      | .comparing x => some (s.compare x)
      | _ => none
  | .replaceLatest =>
      match s.pc with
      | .publishing x =>
          some { s with
            bus := s.bus.replaceLatest x
            published := s.published ++ [(s.readAt, x)]
            pc := .sending x }
      | _ => none
  | .send =>
      match s.pc with
      | .sending x => some { s with bus := s.bus.sendSelection x, pc := .waiting }
      | _ => none
  | .request => some s.request
  | .publishMention m =>
      if m ∈ s.pending then
        some { s with pending := s.pending.erase m, bus := s.bus.publishMention m }
      else none

end TrackerState

/-- The tracker, its task, and the requests, interleaved. -/
def trackerMachine (Path Url : Type) [DecidableEq Path] [DecidableEq Url] :
    Machine (TrackerState Path Url) (TrackerLabel Path Url) where
  init s := ∃ capacity, s = TrackerState.new capacity
  step := TrackerState.step

/-! ## The invariant

What the task last read, what it compares with and what it has published, by where it stands. -/

namespace TrackerState

/-- The update the task read last. -/
def lastRead (s : TrackerState Path Url) : Option (Selection Path Url) :=
  (s.updates.take s.readAt).getLast?

/-- The selection published last. -/
def lastPublished (s : TrackerState Path Url) : Option (Selection Path Url) :=
  s.published.getLast?.map Prod.snd

/-- Published, but not on the ring yet. -/
def inFlight (s : TrackerState Path Url) : List (Selection Path Url) :=
  match s.pc with
  | .sending x => [x]
  | _ => []

/-- Nothing was published since the last read. -/
def Fresh (s : TrackerState Path Url) : Prop := ∀ e ∈ s.published, e.1 < s.readAt

/-- What the last read, `last_sent` and the last publication have to do with each other, by where
the task stands. -/
def Phase (s : TrackerState Path Url) : Prop :=
  match s.pc with
  | .waiting => s.readAt = s.seen ∧ s.lastRead = s.lastPublished ∧ s.lastSent = s.lastPublished
  | .settling | .settled =>
      s.readAt < s.seen ∧ s.lastRead = s.lastPublished ∧ s.lastSent = s.lastPublished
  | .comparing x =>
      s.readAt = s.seen ∧ s.lastRead = some x ∧ s.lastSent = s.lastPublished ∧ s.Fresh
  | .publishing x =>
      s.readAt = s.seen ∧ s.lastRead = some x ∧ s.lastSent = some x ∧
        s.lastPublished ≠ some x ∧ s.Fresh
  | .sending x =>
      s.readAt = s.seen ∧ s.lastRead = some x ∧ s.lastSent = some x ∧ s.lastPublished = some x
  | .ended => s.lastRead = s.lastPublished

/-- What every run keeps. -/
structure Inv (s : TrackerState Path Url) : Prop where
  carries : s.input.Carries s.updates
  readAt_le : s.readAt ≤ s.seen
  seen_le : s.seen ≤ s.updates.length
  latest : s.bus.latest = s.lastPublished
  sent : selectionsOf s.bus.events.sent ++ s.inFlight = s.published.map Prod.snd
  /-- A publication is of the newest update there was when it was read. -/
  reads : ∀ e ∈ s.published, 0 < e.1 ∧ e.1 ≤ s.readAt ∧ s.updates[e.1 - 1]? = some e.2
  increasing : (s.published.map Prod.fst).Pairwise (· < ·)
  distinct : (s.published.map Prod.snd).IsChain (· ≠ ·)
  phase : s.Phase

lemma inv_new (capacity : ℕ) : (new capacity : TrackerState Path Url).Inv where
  carries := Watch.carries_channel
  readAt_le := Nat.le_refl 0
  seen_le := Nat.le_refl 0
  latest := rfl
  sent := rfl
  reads := by simp [new]
  increasing := List.Pairwise.nil
  distinct := List.IsChain.nil
  phase := ⟨rfl, rfl, rfl⟩

/-- Further updates do not touch what was read of the earlier ones. -/
lemma Inv.update {s : TrackerState Path Url} (h : s.Inv) (x : Selection Path Url) :
    (s.update x).Inv := by
  have hread : (s.update x).lastRead = s.lastRead := by
    have hle := Nat.le_trans h.readAt_le h.seen_le
    simp only [lastRead, TrackerState.update, List.take_append_of_le_length hle]
  refine ⟨h.carries.sendReplace x, h.readAt_le, ?_, h.latest, h.sent, ?_, h.increasing, h.distinct,
    ?_⟩
  · have := h.seen_le
    simp only [TrackerState.update, List.length_append, List.length_singleton]
    omega
  · intro e he
    obtain ⟨hpos, hle, hx⟩ := h.reads e he
    refine ⟨hpos, hle, ?_⟩
    obtain ⟨hlt, -⟩ := List.getElem?_eq_some_iff.mp hx
    simp only [TrackerState.update, List.getElem?_append_left hlt, hx]
  · have hphase := h.phase
    simp only [Phase, hread] at hphase ⊢
    exact hphase

/-- The read: the task has now seen everything, and what it read is the newest update. -/
lemma Inv.borrowAndUpdate {s : TrackerState Path Url} (h : s.Inv) (hpc : s.pc = .settled) :
    s.borrowAndUpdate.Inv := by
  have hphase := h.phase
  simp only [Phase, hpc] at hphase
  obtain ⟨hlt, hread, hsent⟩ := hphase
  have hseen := h.seen_le
  have hinflight := h.sent
  simp only [inFlight, hpc] at hinflight
  -- something was reported, or there would be nothing to wake up for
  obtain ⟨x, hx⟩ : ∃ x, s.updates.getLast? = some x := by
    have hne : s.updates ≠ [] := by
      intro hnil
      rw [hnil, List.length_nil] at hseen
      omega
    exact ⟨_, List.getLast?_eq_some_getLast hne⟩
  have hvalue : s.input.value = some x := h.carries.value.trans hx
  simp only [TrackerState.borrowAndUpdate, hvalue]
  refine ⟨h.carries, ?_, ?_, h.latest, hinflight, ?_, h.increasing, h.distinct, ?_⟩
  · exact Nat.le_of_eq h.carries.version.symm
  · exact Nat.le_of_eq h.carries.version
  · intro e he
    obtain ⟨hpos, hle, hx⟩ := h.reads e he
    exact ⟨hpos, by simp only; omega, hx⟩
  · refine ⟨h.carries.version.symm, ?_, hsent, ?_⟩
    · simp only [lastRead, List.take_length, hx]
    · intro e he
      have := (h.reads e he).2.1
      simp only
      omega

/-- The comparison: dropped, if it is what was published last. -/
lemma Inv.compare [DecidableEq Path] [DecidableEq Url] {s : TrackerState Path Url}
    {x : Selection Path Url} (h : s.Inv) (hpc : s.pc = .comparing x) : (s.compare x).Inv := by
  have hphase := h.phase
  simp only [Phase, hpc] at hphase
  obtain ⟨hseen, hread, hsent, hfresh⟩ := hphase
  have hinflight := h.sent
  simp only [inFlight, hpc] at hinflight
  rw [TrackerState.compare]
  split_ifs with hsame
  · rw [hsent] at hsame
    exact ⟨h.carries, h.readAt_le, h.seen_le, h.latest, hinflight, h.reads, h.increasing,
      h.distinct, hseen, hread.trans hsame.symm, hsent⟩
  · rw [hsent] at hsame
    exact ⟨h.carries, h.readAt_le, h.seen_le, h.latest, hinflight, h.reads, h.increasing,
      h.distinct, hseen, hread, rfl, hsame, hfresh⟩

/-- The first step of a publication: it differs from the one before and is of a later read. -/
lemma Inv.replaceLatest {s : TrackerState Path Url} {x : Selection Path Url} (h : s.Inv)
    (hpc : s.pc = .publishing x) :
    Inv { s with
      bus := s.bus.replaceLatest x
      published := s.published ++ [(s.readAt, x)]
      pc := .sending x } := by
  have hphase := h.phase
  simp only [Phase, hpc] at hphase
  obtain ⟨hseen, hread, hsent, hnew, hfresh⟩ := hphase
  have hinflight := h.sent
  simp only [inFlight, hpc, List.append_nil] at hinflight
  have hle := Nat.le_trans h.readAt_le h.seen_le
  -- the last of the first `readAt` updates is the one at `readAt - 1`
  have hat : 0 < s.readAt ∧ s.updates[s.readAt - 1]? = some x := by
    have hpos : 0 < s.readAt := by
      by_contra hzero
      simp [lastRead, Nat.eq_zero_of_not_pos hzero] at hread
    have hget := List.getLast?_eq_getElem? (l := s.updates.take s.readAt)
    rw [List.length_take, Nat.min_eq_left hle, List.getElem?_take_of_lt (by omega)] at hget
    exact ⟨hpos, hget.symm.trans hread⟩
  refine ⟨h.carries, h.readAt_le, h.seen_le, by simp [lastPublished], ?_, ?_, ?_, ?_,
    hseen, hread, hsent, by simp [lastPublished]⟩
  · simp [inFlight, hinflight]
  · intro e he
    rcases List.mem_append.mp he with he | he
    · exact h.reads e he
    · rw [List.mem_singleton.mp he]
      exact ⟨hat.1, Nat.le_refl _, hat.2⟩
  · rw [List.map_append, List.pairwise_append]
    refine ⟨h.increasing, List.pairwise_singleton _ _, ?_⟩
    intro n hn m hm
    obtain ⟨e, he, rfl⟩ := List.mem_map.mp hn
    rw [List.mem_singleton.mp hm]
    exact hfresh e he
  · rw [List.map_append, List.isChain_append]
    refine ⟨h.distinct, List.isChain_singleton _, ?_⟩
    intro y hy z hz
    simp only [lastPublished, ← List.getLast?_map] at hnew
    simp only [List.map_cons, List.map_nil, List.head?_cons, Option.mem_some_iff] at hz
    rw [← hz]
    intro hyx
    rw [hyx] at hy
    exact hnew hy

/-- The second step: the ring has caught up. -/
lemma Inv.send {s : TrackerState Path Url} {x : Selection Path Url} (h : s.Inv)
    (hpc : s.pc = .sending x) :
    Inv { s with bus := s.bus.sendSelection x, pc := .waiting } := by
  have hphase := h.phase
  simp only [Phase, hpc] at hphase
  obtain ⟨hseen, hread, hsent, hpub⟩ := hphase
  have hinflight := h.sent
  simp only [inFlight, hpc] at hinflight
  refine ⟨h.carries, h.readAt_le, h.seen_le, h.latest, ?_, h.reads, h.increasing, h.distinct,
    hseen, hread.trans hpub.symm, hsent.trans hpub.symm⟩
  simpa [inFlight] using hinflight

end TrackerState

section Runs

variable [DecidableEq Path] [DecidableEq Url]

open TrackerState in
/-- **One step.** -/
theorem inv_step {s t : TrackerState Path Url} {l : TrackerLabel Path Url} (h : s.Inv)
    (hl : s.step l = some t) : t.Inv := by
  have hphase := h.phase
  have hinflight := h.sent
  cases l with
  | update x =>
      simp only [step] at hl
      split_ifs at hl
      cases hl
      exact h.update x
  | dropTrackers =>
      cases hl
      exact ⟨h.carries.close, h.readAt_le, h.seen_le, h.latest, h.sent, h.reads, h.increasing,
        h.distinct, h.phase⟩
  | wake =>
      simp only [step] at hl
      split at hl
      case h_1 seen hpc hready =>
        cases hl
        obtain ⟨rfl, hne⟩ := Watch.changed_eq_ready hready
        simp only [Phase, hpc] at hphase
        simp only [inFlight, hpc] at hinflight
        have hversion := h.carries.version
        have hseen := h.seen_le
        have hlt : s.readAt < s.input.version := by omega
        exact ⟨h.carries, Nat.le_of_lt hlt, Nat.le_of_eq hversion, h.latest, hinflight, h.reads,
          h.increasing, h.distinct, hlt, hphase.2⟩
      case h_2 hpc hclosed =>
        cases hl
        simp only [Phase, hpc] at hphase
        simp only [inFlight, hpc] at hinflight
        exact ⟨h.carries, h.readAt_le, h.seen_le, h.latest, hinflight, h.reads, h.increasing,
          h.distinct, hphase.2.1⟩
      case h_3 => cases hl
  | restart =>
      simp only [step] at hl
      split at hl
      case h_1 seen hpc hready =>
        cases hl
        obtain ⟨rfl, hne⟩ := Watch.changed_eq_ready hready
        simp only [Phase, hpc] at hphase
        have hversion := h.carries.version
        have hseen := h.seen_le
        have hlt : s.readAt < s.input.version := by omega
        refine ⟨h.carries, Nat.le_of_lt hlt, Nat.le_of_eq hversion, h.latest, h.sent, h.reads,
          h.increasing, h.distinct, ?_⟩
        simp only [Phase, hpc]
        exact ⟨hlt, hphase.2⟩
      case h_2 hpc hclosed =>
        cases hl
        simp only [Phase, hpc] at hphase
        simp only [inFlight, hpc] at hinflight
        exact ⟨h.carries, h.readAt_le, h.seen_le, h.latest, hinflight, h.reads, h.increasing,
          h.distinct, hphase.2.1⟩
      case h_3 => cases hl
  | timerFires =>
      simp only [step] at hl
      split at hl
      case h_1 hpc =>
        cases hl
        simp only [Phase, hpc] at hphase
        simp only [inFlight, hpc] at hinflight
        exact ⟨h.carries, h.readAt_le, h.seen_le, h.latest, hinflight, h.reads, h.increasing,
          h.distinct, hphase⟩
      case h_2 => cases hl
  | borrowAndUpdate =>
      simp only [step] at hl
      split at hl
      case h_1 hpc =>
        cases hl
        exact h.borrowAndUpdate hpc
      case h_2 => cases hl
  | compare =>
      simp only [step] at hl
      split at hl
      case h_1 x hpc =>
        cases hl
        exact h.compare hpc
      case h_2 => cases hl
  | replaceLatest =>
      simp only [step] at hl
      split at hl
      case h_1 x hpc =>
        cases hl
        exact h.replaceLatest hpc
      case h_2 => cases hl
  | send =>
      simp only [step] at hl
      split at hl
      case h_1 x hpc =>
        cases hl
        exact h.send hpc
      case h_2 => cases hl
  | request =>
      cases hl
      exact ⟨h.carries, h.readAt_le, h.seen_le, h.latest, h.sent, h.reads, h.increasing, h.distinct,
        h.phase⟩
  | publishMention m =>
      simp only [step] at hl
      split_ifs at hl
      cases hl
      refine ⟨h.carries, h.readAt_le, h.seen_le, h.latest, ?_, h.reads, h.increasing, h.distinct,
        h.phase⟩
      simpa [inFlight] using hinflight

/-- **A run.** -/
theorem inv_of_run {s t : TrackerState Path Url}
    {tr : List (TrackerState Path Url × TrackerLabel Path Url)}
    (hs : (trackerMachine Path Url).init s) (h : (trackerMachine Path Url).Run s tr t) :
    t.Inv := by
  obtain ⟨capacity, rfl⟩ := hs
  exact h.preserves TrackerState.Inv (fun _ _ => True)
    (fun _ _ _ hi _ hl => inv_step hi hl) (TrackerState.inv_new capacity) fun _ _ => trivial

end Runs

/-! ## What is published

Once the task waits with nothing unseen, the newest update is what was published last. -/

namespace TrackerState

/-- The newest update was read, and the task is done with it. -/
def Settled (s : TrackerState Path Url) : Prop :=
  s.readAt = s.updates.length ∧ s.pc.handling = false

instance (s : TrackerState Path Url) : Decidable s.Settled := inferInstanceAs (Decidable (_ ∧ _))

/-- Once it has settled, the bus's latest selection is the one reported last. -/
lemma Inv.latest_of_settled {s : TrackerState Path Url} (h : s.Inv) (hs : s.Settled) :
    s.bus.latest = s.updates.getLast? := by
  obtain ⟨hall, hpc⟩ := hs
  have hread : s.lastRead = s.updates.getLast? := by rw [lastRead, hall, List.take_length]
  have hphase := h.phase
  rw [h.latest, ← hread]
  cases hp : s.pc <;> simp only [hp, Phase, TrackerPc.handling, reduceCtorEq] at hphase hpc
  case waiting => exact hphase.2.1.symm
  case settling => exact hphase.2.1.symm
  case settled => exact hphase.2.1.symm
  case sending => exact hphase.2.2.2.trans hphase.2.1.symm
  case ended => exact hphase.symm

end TrackerState

section Runs

variable [DecidableEq Path] [DecidableEq Url]

/-- **What the tracker publishes.**  In every state of every run:

1. the published selections are a subsequence of the updates, and each was the newest update when it
   was read: the numbers of updates there had been at these reads increase, and entry `n` of
   `published` is update number `n`;
2. no two published in a row are equal;
3. if the task is parked waiting for a first change and has seen the newest update, then the last
   publication, the bus's latest selection and the last selection on the ring are that update.

What is on the ring is what was published, less a publication between its two steps. -/
theorem tracker_publishes_settled {s t : TrackerState Path Url}
    {tr : List (TrackerState Path Url × TrackerLabel Path Url)}
    (hs : (trackerMachine Path Url).init s) (h : (trackerMachine Path Url).Run s tr t) :
    ((t.published.map Prod.snd).Sublist t.updates ∧
      (t.published.map Prod.fst).Pairwise (· < ·) ∧
      ∀ e ∈ t.published, 0 < e.1 ∧ e.1 ≤ t.updates.length ∧ t.updates[e.1 - 1]? = some e.2) ∧
    (t.published.map Prod.snd).IsChain (· ≠ ·) ∧
    (t.pc = .waiting → t.seen = t.input.version →
      t.lastPublished = t.updates.getLast? ∧ t.bus.latest = t.updates.getLast? ∧
        (selectionsOf t.bus.events.sent).getLast? = t.updates.getLast?) ∧
    selectionsOf t.bus.events.sent ++ t.inFlight = t.published.map Prod.snd := by
  have hinv := inv_of_run hs h
  have hreads : ∀ e ∈ t.published,
      0 < e.1 ∧ e.1 ≤ t.updates.length ∧ t.updates[e.1 - 1]? = some e.2 := by
    intro e he
    obtain ⟨hpos, hle, hx⟩ := hinv.reads e he
    exact ⟨hpos, Nat.le_trans hle (Nat.le_trans hinv.readAt_le hinv.seen_le), hx⟩
  refine ⟨⟨?_, hinv.increasing, hreads⟩, hinv.distinct, ?_, hinv.sent⟩
  · exact sublist_of_reads hinv.increasing fun e he => ⟨(hreads e he).1, (hreads e he).2.2⟩
  · intro hpc hseen
    have hphase := hinv.phase
    simp only [TrackerState.Phase, hpc] at hphase
    have hsettled : t.Settled := by
      refine ⟨?_, by rw [hpc]; rfl⟩
      rw [hphase.1, hseen, hinv.carries.version]
    have hlatest := hinv.latest_of_settled hsettled
    have hpublished : t.lastPublished = t.updates.getLast? := hinv.latest.symm.trans hlatest
    have hsent := hinv.sent
    simp only [TrackerState.inFlight, hpc, List.append_nil] at hsent
    refine ⟨hpublished, hlatest, ?_⟩
    rw [hsent, List.getLast?_map]
    exact hpublished

/-- A burst that settles, with an update between the timer and the read; then the same selection
again. -/
def settlingBurst : List (TrackerLabel Unit Unit) :=
  [.update (onLine 1), .wake, .update (onLine 2), .restart, .timerFires, .update (onLine 3),
    .borrowAndUpdate, .compare, .replaceLatest, .update (onLine 3), .send,
    .wake, .timerFires, .borrowAndUpdate, .compare]

theorem tracker_publishes_settled_burst :
    ∃ (s t : TrackerState Unit Unit) (tr : List (TrackerState Unit Unit × TrackerLabel Unit Unit)),
      (trackerMachine Unit Unit).Run s tr t ∧ t.updates.length = 4 ∧ t.published.length = 1 ∧
      (t.published.map Prod.snd).Sublist t.updates ∧ t.bus.latest = t.updates.getLast? := by
  have h : (trackerMachine Unit Unit).Run (TrackerState.new 8) _ _ :=
    Machine.run_of_exec settlingBurst rfl
  have hmain := tracker_publishes_settled ⟨8, rfl⟩ h
  exact ⟨_, _, _, h, rfl, rfl, hmain.1.1, (hmain.2.2.1 rfl rfl).2.1⟩

end Runs

end Connect
