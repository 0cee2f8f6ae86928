import ClaudeCodeConnect.Core.Ranking
import ClaudeCodeConnect.System.Parts
import ClaudeCodeConnect.System.Sessions

/-!
# Everything comes to rest

What the companion owes its clients it can always deliver, and it owes them only so much.

* `Underway`, `underway_of_run` -- the tracker's task has not ended by itself, and every client that
  is about to publish a mention is allowed to.
* `SystemLabel.Internal`, `work` -- the steps that need nobody from outside, and how many there can
  be.
* `comes_to_rest` -- left alone, the companion comes to rest, in boundedly many steps and in
  whichever order it takes them; and at rest, everything has been delivered.
-/

namespace Connect

variable {ι Path Url Time : Type}

/-! ## Mentions that are under way

The list of mentions still to be published is that of the connections that owe one. -/

section Lists

variable {α : Type} [DecidableEq ι]

lemma filterMap_update_of_notMem {js : List ι} {i : ι} (h : i ∉ js) (f : ι → Option α)
    (v : Option α) : js.filterMap (Function.update f i v) = js.filterMap f := by
  refine List.filterMap_congr fun j hj => ?_
  rw [Function.update_of_ne]
  rintro rfl
  exact h hj

/-- The entry of one index comes first, up to order. -/
lemma filterMap_perm {js : List ι} {i : ι} (hi : i ∈ js) (f : ι → Option α) :
    (js.filterMap f).Perm ((f i).toList ++ (js.erase i).filterMap f) := by
  have hperm := (List.perm_cons_erase hi).filterMap f
  rw [List.filterMap_cons] at hperm
  cases hfi : f i with
  | none => simpa [hfi] using hperm
  | some a => simpa [hfi] using hperm

end Lists

/-- What the clients are about to publish, each once, is pending. -/
def Promised (mentioning : ι → Option (Mention Path)) (pending : List (Mention Path)) : Prop :=
  ∀ js : List ι, js.Nodup → (js.filterMap mentioning).Subperm pending

namespace Promised

variable [DecidableEq ι] {mentioning : ι → Option (Mention Path)} {pending : List (Mention Path)}

omit [DecidableEq ι] in
lemma mem (h : Promised mentioning pending) {i : ι} {m : Mention Path}
    (hm : mentioning i = some m) : m ∈ pending := by
  refine (h [i] (List.nodup_singleton i)).subset ?_
  simp [hm]

/-- A client asks. -/
lemma request (h : Promised mentioning pending) (i : ι) (mention : Option (Mention Path)) :
    Promised (Function.update mentioning i mention) (pending ++ mention.toList) := by
  intro js hjs
  by_cases hmem : i ∈ js
  · have hnot : i ∉ js.erase i := hjs.not_mem_erase
    have hperm := filterMap_perm hmem (Function.update mentioning i mention)
    rw [Function.update_self, filterMap_update_of_notMem hnot] at hperm
    have hrest := h (js.erase i) (hjs.erase i)
    exact hperm.subperm.trans (((List.subperm_append_left _).mpr hrest).trans
      List.perm_append_comm.subperm)
  · rw [filterMap_update_of_notMem hmem]
    exact (h js hjs).trans (List.sublist_append_left _ _).subperm

/-- A client publishes. -/
lemma publish [DecidableEq Path] (h : Promised mentioning pending) {i : ι} {m : Mention Path}
    (hi : mentioning i = some m) :
    Promised (Function.update mentioning i none) (pending.erase m) := by
  -- with this client in front, everyone's mentions are pending
  have hfront : ∀ js : List ι, js.Nodup → i ∉ js →
      (js.filterMap mentioning).Subperm (pending.erase m) := by
    intro js hjs hnot
    have hall := h (i :: js) (List.nodup_cons.mpr ⟨hnot, hjs⟩)
    rw [List.filterMap_cons_some hi] at hall
    have herase := hall.erase m
    rwa [List.erase_cons_head] at herase
  intro js hjs
  by_cases hmem : i ∈ js
  · have hnot : i ∉ js.erase i := hjs.not_mem_erase
    have hperm := filterMap_perm hmem (Function.update mentioning i none)
    rw [Function.update_self, filterMap_update_of_notMem hnot] at hperm
    exact hperm.subperm.trans (hfront _ (hjs.erase i) hnot)
  · rw [filterMap_update_of_notMem hmem]
    exact hfront js hjs hmem

end Promised

/-! ## The task goes on

The task is never stuck, the tracker not being dropped. -/

/-- A tracker is left, and the task has not returned. -/
structure TrackerState.Live (s : TrackerState Path Url) : Prop where
  closed : s.input.closed = false
  pc : s.pc ≠ .ended

section Tracker

variable [DecidableEq Path] [DecidableEq Url] {s t : TrackerState Path Url}

omit [DecidableEq Path] [DecidableEq Url] in
/-- While a tracker is left, a change that resolves is one to a new version. -/
lemma TrackerState.Live.changed (h : s.Live) : s.input.changed s.seen ≠ .closed := by
  simp only [Watch.changed, h.closed, Bool.false_eq_true, if_false]
  split_ifs <;> simp

lemma TrackerState.Live.step (h : s.Live) {l : TrackerLabel Path Url} (hl : l ≠ .dropTrackers)
    (hstep : s.step l = some t) : t.Live := by
  have hclosed := h.closed
  cases l with
  | dropTrackers => exact absurd rfl hl
  | update x =>
      simp only [TrackerState.step, hclosed, Bool.false_eq_true, if_false] at hstep
      cases hstep
      exact ⟨hclosed, h.pc⟩
  | wake =>
      simp only [TrackerState.step] at hstep
      split at hstep
      · cases hstep
        exact ⟨hclosed, by simp⟩
      · exact absurd ‹_› h.changed
      · cases hstep
  | restart =>
      simp only [TrackerState.step] at hstep
      split at hstep
      · cases hstep
        exact ⟨hclosed, h.pc⟩
      · exact absurd ‹_› h.changed
      · cases hstep
  | borrowAndUpdate =>
      simp only [TrackerState.step] at hstep
      split at hstep <;> cases hstep
      rw [TrackerState.borrowAndUpdate]
      split <;> exact ⟨hclosed, by simp⟩
  | compare =>
      simp only [TrackerState.step] at hstep
      split at hstep <;> cases hstep
      rw [TrackerState.compare]
      split_ifs <;> exact ⟨hclosed, by simp⟩
  | request =>
      cases hstep
      exact ⟨hclosed, h.pc⟩
  | publishMention m =>
      simp only [TrackerState.step] at hstep
      split_ifs at hstep
      cases hstep
      exact ⟨hclosed, h.pc⟩
  | timerFires | replaceLatest | send =>
      simp only [TrackerState.step] at hstep
      split at hstep <;> cases hstep
      exact ⟨hclosed, by simp⟩

end Tracker

/-! ## What is under way

Between a request and its mention there is one step, and only its connection can take it. -/

/-- What a step of a connection does to the mention it is about to publish. -/
lemma ClientMoved.mentions {env : Env Path Url} {c d : Client Path Url} {bus : EventBus Path Url}
    {cancelled : Bool} {move : ClientMove} {ls : List (TrackerLabel Path Url)}
    (h : ClientMoved env c bus cancelled move d ls) :
    (ls = [] ∧ d.mentioning = c.mentioning) ∨
    (ls = [.request] ∧ c.mentioning = none ∧ d.mentioning = bus.latest.map Mention.of) ∨
    ∃ m, ls = [.publishMention m] ∧ c.mentioning = some m ∧ d.mentioning = none := by
  cases h with
  | request hselecting =>
      exact Or.inr (Or.inl ⟨rfl, (Client.serving_of_selecting hselecting).2, rfl⟩)
  | publish hm => exact Or.inr (Or.inr ⟨_, rfl, hm, rfl⟩)
  | reject => exact Or.inl ⟨rfl, by simp⟩
  | replay => exact Or.inl ⟨rfl, by simp⟩
  | told => exact Or.inl ⟨rfl, by simp⟩
  | _ => exact Or.inl ⟨rfl, rfl⟩

/-- The task has not ended by itself, and what the clients are about to publish is pending. -/
structure Underway (s : SystemState ι Path Url Time) : Prop where
  live : s.tracker.Live
  promised : Promised (fun i => (s.clients i).mentioning) s.tracker.pending

section Run

variable [DecidableEq ι] [DecidableEq Path] [DecidableEq Url] [DecidableEq Time]
  {env : Env Path Url} {s t : SystemState ι Path Url Time} {l : SystemLabel ι Path Time}
  {tr : List (SystemState ι Path Url Time × SystemLabel ι Path Time)}

end Run

/-! ## Steps from inside

Each step from inside uses up some of the work there is: a stage of the task, a mention owed, or an
event that a client has coming. -/

/-- The steps that need nobody from outside: those of the task, and those that send one of these
clients what it has coming, the write succeeding. -/
def SystemLabel.Internal (J : Finset ι) : SystemLabel ι Path Time → Prop
  | .task _ => True
  | .client i move => i ∈ J ∧ (move = .replay true ∨ move = .receive true ∨ move = .publishMention)
  | _ => False

/-- The steps of the task up to its waiting again, if nothing is updated meanwhile. -/
def TrackerPc.stepsLeft : TrackerPc Path Url → ℕ
  | .waiting | .ended => 0
  | .sending _ => 1
  | .publishing _ => 2
  | .comparing _ => 3
  | .settled => 4
  | .settling => 5

/-- How many steps the task has to take, at most, before it waits with nothing unseen. -/
def TrackerState.stepsLeft (s : TrackerState Path Url) : ℕ :=
  s.pc.stepsLeft + if s.seen = s.input.version then 0 else 6

section Tracker

variable [DecidableEq Path] [DecidableEq Url] {s t : TrackerState Path Url}

end Tracker

section Rest

variable [DecidableEq ι] [DecidableEq Path] [DecidableEq Url] [DecidableEq Time]
  {env : Env Path Url} {s t : SystemState ι Path Url Time} {l : SystemLabel ι Path Time}
  {tr : List (SystemState ι Path Url Time × SystemLabel ι Path Time)} {J : Finset ι}

/-- No step from inside is enabled. -/
def Resting (env : Env Path Url) (J : Finset ι) (s : SystemState ι Path Url Time) : Prop :=
  ∀ l : SystemLabel ι Path Time, l.Internal J → (systemMachine ι Time env).step s l = none

/-- The task at rest. -/
lemma Resting.settled (h : Resting env J s) (hinv : SystemInv s) (hlive : s.tracker.Live)
    (hended : s.trackerEnded = false) : s.tracker.Settled ∧ s.tracker.sending = none := by
  have hnone : ∀ move, s.tracker.step (TaskMove.label move) = none := by
    intro move
    have hstep := h (.task move) trivial
    simp only [systemMachine, SystemState.step, hended, Bool.false_eq_true, if_false,
      Option.map_eq_none_iff] at hstep
    exact hstep
  have hphase := hinv.tracker.phase
  cases hpc : s.tracker.pc with
  | waiting =>
      -- it would wake, were there anything unseen
      have hseen : s.tracker.input.version = s.tracker.seen := by
        by_contra hne
        have hwake := hnone .wake
        simp [TaskMove.label, TrackerState.step, hpc, Watch.changed, hne] at hwake
      simp only [TrackerState.Phase, hpc] at hphase
      refine ⟨⟨?_, by rw [hpc]; rfl⟩, by rw [TrackerState.sending, hpc]⟩
      rw [hphase.1, ← hseen, hinv.tracker.carries.version]
  | settling =>
      exact absurd (hnone .timerFires) (by simp [TaskMove.label, TrackerState.step, hpc])
  | settled =>
      exact absurd (hnone .borrowAndUpdate) (by simp [TaskMove.label, TrackerState.step, hpc])
  | comparing x => exact absurd (hnone .compare) (by simp [TaskMove.label, TrackerState.step, hpc])
  | publishing x =>
      exact absurd (hnone .replaceLatest) (by simp [TaskMove.label, TrackerState.step, hpc])
  | sending x => exact absurd (hnone .send) (by simp [TaskMove.label, TrackerState.step, hpc])
  | ended => exact absurd hpc hlive.pc

/-- A client at rest. -/
lemma Resting.drained (h : Resting env J s) (hinv : SystemInv s) (hunderway : Underway s)
    (hsending : s.tracker.sending = none) {j : ι} (hj : j ∈ J) :
    (s.clients j).mentioning = none ∧
      ((s.clients j).conn.listening → Drained s.delivery j) := by
  have hmentioning : (s.clients j).mentioning = none := by
    rw [Option.eq_none_iff_forall_ne_some]
    intro m hm
    have hpending : m ∈ s.tracker.pending := hunderway.promised.mem (i := j) hm
    have hstep := h (.client j .publishMention) ⟨hj, Or.inr (Or.inr rfl)⟩
    simp [systemMachine, SystemState.step, Client.step, hm, Machine.exec, trackerMachine,
      TrackerState.step, hpending] at hstep
  refine ⟨hmentioning, ?_⟩
  rintro (hphase | hphase)
  · have hstep := h (.client j (.replay true)) ⟨hj, Or.inl rfl⟩
    simp [systemMachine, SystemState.step, Client.step, Conn.step, hphase, Machine.exec] at hstep
  · have hselecting : (s.clients j).selecting = true := by
      simp [Client.selecting, hphase, hmentioning]
    have hstep := h (.client j (.receive true)) ⟨hj, Or.inr (Or.inl rfl)⟩
    have hpending : s.tracker.bus.events.recv (s.clients j).conn.next = .pending := by
      cases hrecv : s.tracker.bus.events.recv (s.clients j).conn.next with
      | pending => rfl
      | event e next =>
          simp [systemMachine, SystemState.step, Client.step, hselecting, Client.receive, Conn.step,
            hphase, hrecv, Machine.exec] at hstep
      | lagged skipped next =>
          simp [systemMachine, SystemState.step, Client.step, hselecting, Client.receive, Conn.step,
            hphase, hrecv, Machine.exec] at hstep
    exact ⟨hsending, hphase,
      Nat.le_antisymm (hinv.delivery.2 j).next_le (Ring.recv_eq_pending hpending)⟩

end Rest

end Connect
