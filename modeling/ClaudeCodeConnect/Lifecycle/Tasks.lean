import ClaudeCodeConnect.Core.Machine
import Mathlib.Logic.Function.Basic

/-!
# The tasks of a running companion

What runs once `Companion::start` has returned, and how it stops: `main` in `serve` and then in
`Handle::shutdown`, the LSP thread, the two tasks of the handle's set (the tracker and the accept
loop), and the connections, which the accept loop spawns outside that set.

* `RunState` -- the lock file, the cancellation token, and where each of them stands.
* `RunState.cancelToken` -- what cancelling does; the connections in their serving loop at that
  moment are put on record.
* `runMachine` -- all of them, interleaved.
* `RunInv`, `runInv_step` -- what the phase of `main` says of the lock and the token.
* `lock_of_run` -- when the lock is there, in every run.
-/

namespace Connect

/-- Why `serve` leaves its `select!`; or `shutdown` is called by someone else. -/
inductive StopReason
  | lspClosed
  | parentExited
  | sigint
  | sigterm
  | serverStopped
  | shutdownCalled
  deriving DecidableEq, Repr

/-- Where `main` stands in `serve`, and then in `shutdown`. -/
inductive MainPhase
  /-- In the `select!`. -/
  | selecting
  /-- `drop(lock)` next. -/
  | stopping (reason : StopReason)
  /-- The guard is dropped, and its `remove_file` succeeded or not; `cancel.cancel()` next. -/
  | dropped (removed : Bool)
  /-- In `join_next`, under the timeout. -/
  | draining
  /-- `shutdown` returned: every task of the set ended, or the grace period did. -/
  | returned (drained : Bool)
  /-- The runtime is torn down. -/
  | exited
  deriving DecidableEq, Repr

/-- `accept_error_policy`, without the delays. -/
inductive AcceptErrorPolicy
  | retry
  | backoff
  | fatal
  deriving DecidableEq, Repr

/-- What `accept` gives the loop: a connection, or an error with the policy for it. -/
inductive AcceptOutcome (ι : Type)
  | connection (i : ι)
  | error (policy : AcceptErrorPolicy)
  deriving DecidableEq, Repr

/-- Where the accept loop stands, with the failures it has counted. -/
inductive AcceptPhase
  | accepting (consecutiveFailures : ℕ)
  | backingOff (consecutiveFailures : ℕ)
  /-- Gave up on the listener: it has cancelled the token. -/
  | gaveUp
  | ended
  deriving DecidableEq, Repr

/-- Where the task of one connection stands. -/
inductive ClientPhase
  | unconnected
  /-- Handshake and authorization. -/
  | handshaking
  /-- In the loop of `handle_websocket_connection`. -/
  | serving
  /-- Took the cancelled branch; the close frame next. -/
  | closing
  /-- Sent 1001, or failed to. -/
  | told
  /-- Ended in another way. -/
  | gone
  /-- Dropped with the runtime. -/
  | dropped
  deriving DecidableEq, Repr

/-- `MAX_CONSECUTIVE_ACCEPT_FAILURES`. -/
def maxConsecutiveAcceptFailures : ℕ := 20

/-- The process as far as stopping it goes: `main`, the lock file, the token, the two tasks of the
`JoinSet` and the tasks of the connections, which are in no set. -/
structure RunState (ι : Type) where
  main : MainPhase
  /-- `<port>.lock` is there. -/
  lock : Bool
  cancelled : Bool
  lspDone : Bool
  trackerEnded : Bool
  accept : AcceptPhase
  clients : ι → ClientPhase
  /-- Who was in its serving loop when the token was cancelled. -/
  servedAtCancel : ι → Bool

/-- The steps: those of the editor and of the reasons to stop, those of `main` in `shutdown`, and
those of the tasks. -/
inductive RunLabel (ι : Type)
  /-- `serve_lsp` returns: the input ended or failed, or `exit` was received. -/
  | lspEnds
  | select (reason : StopReason)
  /-- `LockGuard::drop`: whether `remove_file` succeeds; that it did not is only logged. -/
  | dropLock (removed : Bool)
  | cancel
  | joined
  | graceElapsed
  | teardown
  | trackerEnds
  | accept (outcome : AcceptOutcome ι)
  | backoffElapsed
  | acceptEnds
  | authorized (i : ι)
  /-- The cancelled branch. -/
  | clientCancelled (i : ι)
  | closeSent (i : ι)
  /-- A handshake that fails, a rejected client, one that leaves or whose socket fails. -/
  | clientLeaves (i : ι)
  deriving DecidableEq, Repr

namespace MainPhase

/-- `drop(lock)` is still to come. -/
def holdsGuard : MainPhase → Bool
  | .selecting | .stopping _ => true
  | _ => false

/-- `shutdown` has not come to `cancel.cancel()`. -/
def beforeCancel : MainPhase → Bool
  | .selecting | .stopping _ | .dropped _ => true
  | _ => false

/-- `shutdown` has not removed the lock: `drop(lock)` is still to come, or its `remove_file` has
failed and `cancel.cancel()` is next. -/
def holdsLock : MainPhase → Bool
  | .selecting | .stopping _ | .dropped false => true
  | _ => false

/-- `shutdown` has not returned. -/
def running : MainPhase → Bool
  | .returned _ | .exited => false
  | _ => true

end MainPhase

namespace RunState

variable {ι : Type}

/-- `Companion::start` has returned, and `run_lsp` has spawned its thread. -/
def new : RunState ι where
  main := .selecting
  lock := true
  cancelled := false
  lspDone := false
  trackerEnded := false
  accept := .accepting 0
  clients _ := .unconnected
  servedAtCancel _ := false

/-- `CancellationToken::cancel`; once cancelled, it does nothing. -/
def cancelToken (s : RunState ι) : RunState ι :=
  if s.cancelled then s
  else { s with cancelled := true, servedAtCancel := fun i => decide (s.clients i = .serving) }

@[simp] lemma cancelToken_cancelled (s : RunState ι) : s.cancelToken.cancelled = true := by
  rw [cancelToken]
  split_ifs with h
  · exact h
  · rfl

@[simp] lemma cancelToken_main (s : RunState ι) : s.cancelToken.main = s.main := by
  rw [cancelToken]
  split_ifs <;> rfl

@[simp] lemma cancelToken_lock (s : RunState ι) : s.cancelToken.lock = s.lock := by
  rw [cancelToken]
  split_ifs <;> rfl

@[simp] lemma cancelToken_trackerEnded (s : RunState ι) :
    s.cancelToken.trackerEnded = s.trackerEnded := by
  rw [cancelToken]
  split_ifs <;> rfl

@[simp] lemma cancelToken_accept (s : RunState ι) : s.cancelToken.accept = s.accept := by
  rw [cancelToken]
  split_ifs <;> rfl

lemma cancelToken_of_cancelled {s : RunState ι} (h : s.cancelled = true) : s.cancelToken = s :=
  if_pos h

/-- A branch of the `select!` wins.  The future of `run_lsp` cancels before it resolves. -/
def select (s : RunState ι) (reason : StopReason) : Option (RunState ι) :=
  match reason with
  | .lspClosed => if s.lspDone then some { s.cancelToken with main := .stopping reason } else none
  | .serverStopped => if s.cancelled then some { s with main := .stopping reason } else none
  | _ => some { s with main := .stopping reason }

/-- Whether a step is the accept loop giving up on its listener. -/
def givesUp (s : RunState ι) : RunLabel ι → Bool
  | .accept (.error .fatal) => true
  | .accept (.error .backoff) =>
      match s.accept with
      | .accepting failures => decide (maxConsecutiveAcceptFailures ≤ failures + 1)
      | _ => false
  | _ => false

/-- Neither a step of `run_lsp`'s future, nor `cancel.cancel()`, nor one with which the tracker or
the accept loop ends or gives up. -/
def quiet (s : RunState ι) : RunLabel ι → Bool
  | .select .lspClosed | .cancel | .trackerEnds | .acceptEnds => false
  | l => !s.givesUp l

/-- It cancels the token, and breaks. -/
def giveUp (s : RunState ι) : RunState ι := { s.cancelToken with accept := .gaveUp }

variable [DecidableEq ι]

/-- The task of one connection moves on; the others stand where they did. -/
def setClient (s : RunState ι) (i : ι) (phase : ClientPhase) : RunState ι :=
  { s with clients := Function.update s.clients i phase }

/-- What the accept loop does with what `accept` gives it. -/
def accepted (s : RunState ι) (failures : ℕ) : AcceptOutcome ι → Option (RunState ι)
  | .connection i =>
      match s.clients i with
      | .unconnected => some { s.setClient i .handshaking with accept := .accepting 0 }
      | _ => none
  | .error .retry => some s
  | .error .backoff =>
      if maxConsecutiveAcceptFailures ≤ failures + 1 then some s.giveUp
      else some { s with accept := .backingOff (failures + 1) }
  | .error .fatal => some s.giveUp

/-- A connection when the runtime is torn down: its task is dropped where it waits. -/
def tornDown : ClientPhase → ClientPhase
  | .handshaking | .serving | .closing => .dropped
  | phase => phase

/-- One step, if it is one that can be taken.  Whoever waits for the token may see it at any time
after it is cancelled, or never. -/
def step (s : RunState ι) : RunLabel ι → Option (RunState ι)
  | .lspEnds => some { s with lspDone := true }
  | .select reason =>
      match s.main with
      | .selecting => s.select reason
      | _ => none
  | .dropLock removed =>
      match s.main with
      | .stopping _ => some { s with lock := s.lock && !removed, main := .dropped removed }
      | _ => none
  | .cancel =>
      match s.main with
      | .dropped _ => some { s.cancelToken with main := .draining }
      | _ => none
  | .joined =>
      match s.main, s.trackerEnded, s.accept with
      | .draining, true, .ended => some { s with main := .returned true }
      | _, _, _ => none
  | .graceElapsed =>
      match s.main with
      | .draining => some { s with main := .returned false }
      | _ => none
  | .teardown =>
      match s.main with
      | .returned _ => some { s with
          main := .exited, trackerEnded := true, accept := .ended
          clients := fun i => tornDown (s.clients i) }
      | _ => none
  | .trackerEnds =>
      -- Its own future lasts as long as the handle's tracker; only the token ends it.
      if s.cancelled ∧ s.trackerEnded = false then some { s with trackerEnded := true } else none
  | .accept outcome =>
      match s.accept with
      | .accepting failures => s.accepted failures outcome
      | _ => none
  | .backoffElapsed =>
      match s.accept with
      | .backingOff failures => some { s with accept := .accepting failures }
      | _ => none
  | .acceptEnds =>
      match s.accept with
      | .ended => none
      | _ => if s.cancelled then some { s with accept := .ended } else none
  | .authorized i =>
      match s.clients i with
      | .handshaking => some (s.setClient i .serving)
      | _ => none
  | .clientCancelled i =>
      match s.clients i with
      | .serving => if s.cancelled then some (s.setClient i .closing) else none
      | _ => none
  | .closeSent i =>
      match s.clients i with
      | .closing => some (s.setClient i .told)
      | _ => none
  | .clientLeaves i =>
      match s.clients i with
      | .handshaking | .serving => some (s.setClient i .gone)
      | _ => none

end RunState

/-- The companion from its start on, its lock written and its tasks spawned. -/
def runMachine (ι : Type) [DecidableEq ι] : Machine (RunState ι) (RunLabel ι) where
  init s := s = RunState.new
  step := RunState.step

/-! ## What a step can do

The inversion of `RunState.step`: every outcome with its guard, so that no other module unfolds the
step function. -/

variable {ι : Type} [DecidableEq ι]

/-- The outcomes of a step. -/
inductive Ran (s : RunState ι) : RunLabel ι → RunState ι → Prop
  | lspEnds : Ran s .lspEnds { s with lspDone := true }
  | lspClosed (hmain : s.main = .selecting) :
      Ran s (.select .lspClosed) { s.cancelToken with main := .stopping .lspClosed }
  | select {reason : StopReason} (hmain : s.main = .selecting) (hreason : reason ≠ .lspClosed) :
      Ran s (.select reason) { s with main := .stopping reason }
  | dropLock {reason : StopReason} {removed : Bool} (hmain : s.main = .stopping reason) :
      Ran s (.dropLock removed) { s with lock := s.lock && !removed, main := .dropped removed }
  | cancel {removed : Bool} (hmain : s.main = .dropped removed) :
      Ran s .cancel { s.cancelToken with main := .draining }
  | joined (hmain : s.main = .draining) (htracker : s.trackerEnded = true)
      (haccept : s.accept = .ended) : Ran s .joined { s with main := .returned true }
  | graceElapsed (hmain : s.main = .draining) :
      Ran s .graceElapsed { s with main := .returned false }
  | teardown {drained : Bool} (hmain : s.main = .returned drained) :
      Ran s .teardown { s with
        main := .exited, trackerEnded := true, accept := .ended
        clients := fun i => RunState.tornDown (s.clients i) }
  | trackerEnds (hcancelled : s.cancelled = true) :
      Ran s .trackerEnds { s with trackerEnded := true }
  /-- The accept loop tries again, or backs off. -/
  | acceptStays {l : RunLabel ι} {phase : AcceptPhase} (hl : s.quiet l = true)
      (hphase : phase ≠ .ended ∧ phase ≠ .gaveUp) : Ran s l { s with accept := phase }
  | spawn {i : ι} (hi : s.clients i = .unconnected) :
      Ran s (.accept (.connection i)) { s.setClient i .handshaking with accept := .accepting 0 }
  | giveUp {l : RunLabel ι} (hl : s.givesUp l = true) : Ran s l s.giveUp
  | acceptEnds (hcancelled : s.cancelled = true) : Ran s .acceptEnds { s with accept := .ended }
  /-- A connection goes on; one that was told does not. -/
  | client {l : RunLabel ι} {i : ι} {phase : ClientPhase} (hl : s.quiet l = true)
      (hi : s.clients i ≠ .told) : Ran s l (s.setClient i phase)

omit [DecidableEq ι] in
lemma RunState.givesUp_backoff {s : RunState ι} {failures : ℕ}
    (h : s.accept = .accepting failures) :
    s.givesUp (.accept (.error .backoff))
      = decide (maxConsecutiveAcceptFailures ≤ failures + 1) := by
  rw [RunState.givesUp, h]

/-- **What a step can do.** -/
theorem ran_of_step {s t : RunState ι} {l : RunLabel ι} (h : (runMachine ι).step s l = some t) :
    Ran s l t := by
  simp only [runMachine] at h
  cases l with
  | lspEnds =>
      cases h
      exact .lspEnds
  | select reason =>
      simp only [RunState.step] at h
      split at h
      · cases reason <;> simp only [RunState.select] at h
        case lspClosed =>
          split_ifs at h
          cases h
          exact .lspClosed ‹_›
        case serverStopped =>
          split_ifs at h
          cases h
          exact .select ‹_› (by simp)
        all_goals
          cases h
          exact .select ‹_› (by simp)
      · cases h
  | dropLock removed =>
      simp only [RunState.step] at h
      split at h <;> cases h
      exact .dropLock ‹_›
  | cancel =>
      simp only [RunState.step] at h
      split at h <;> cases h
      exact .cancel ‹_›
  | joined =>
      simp only [RunState.step] at h
      split at h <;> cases h
      exact .joined ‹_› ‹_› ‹_›
  | graceElapsed =>
      simp only [RunState.step] at h
      split at h <;> cases h
      exact .graceElapsed ‹_›
  | teardown =>
      simp only [RunState.step] at h
      split at h <;> cases h
      exact .teardown ‹_›
  | trackerEnds =>
      simp only [RunState.step] at h
      split_ifs at h with hends
      cases h
      exact .trackerEnds hends.1
  | accept outcome =>
      simp only [RunState.step] at h
      split at h
      · rename_i failures hphase
        cases outcome with
        | connection i =>
            simp only [RunState.accepted] at h
            split at h <;> cases h
            exact .spawn ‹_›
        | error policy =>
            cases policy with
            | retry =>
                simp only [RunState.accepted] at h
                cases h
                have hstays :
                    Ran s (.accept (.error .retry)) { s with accept := .accepting failures } :=
                  .acceptStays rfl (by simp)
                rwa [← hphase] at hstays
            | backoff =>
                simp only [RunState.accepted] at h
                split_ifs at h with hmany
                · cases h
                  exact .giveUp (by rw [RunState.givesUp_backoff hphase]; simpa using hmany)
                · cases h
                  refine .acceptStays ?_ (by simp)
                  rw [RunState.quiet, RunState.givesUp_backoff hphase]
                  · simpa using hmany
                  all_goals simp
            | fatal =>
                cases h
                exact .giveUp rfl
      · cases h
  | backoffElapsed =>
      simp only [RunState.step] at h
      split at h <;> cases h
      exact .acceptStays rfl (by simp)
  | acceptEnds =>
      simp only [RunState.step] at h
      split at h
      · cases h
      · split_ifs at h
        cases h
        exact .acceptEnds ‹_›
  | authorized i =>
      simp only [RunState.step] at h
      split at h <;> cases h
      exact .client rfl (by simp [*])
  | clientCancelled i =>
      simp only [RunState.step] at h
      split at h
      · split_ifs at h
        cases h
        exact .client rfl (by simp [*])
      · cases h
  | closeSent i =>
      simp only [RunState.step] at h
      split at h <;> cases h
      exact .client rfl (by simp [*])
  | clientLeaves i =>
      simp only [RunState.step] at h
      split at h
      · cases h
        exact .client rfl (by simp [*])
      · cases h
        exact .client rfl (by simp [*])
      · cases h

/-! ## What holds of every state

The token, the lock and the tasks, by where `main` stands. -/

/-- Until `shutdown` cancels the token the lock is there, unless `shutdown` has removed it; and
nothing of the handle's set ends, nor does `shutdown` wait, before the token is cancelled. -/
structure RunInv (s : RunState ι) : Prop where
  lock : s.main.beforeCancel = true → s.lock = s.main.holdsLock
  tracker : s.trackerEnded = true → s.cancelled = true
  accept : s.accept = .ended → s.cancelled = true
  main : s.main.beforeCancel = false → s.cancelled = true

omit [DecidableEq ι] in
lemma runInv_new : RunInv (RunState.new : RunState ι) :=
  ⟨fun _ => rfl, by simp [RunState.new], by simp [RunState.new],
    by simp [RunState.new, MainPhase.beforeCancel]⟩

omit [DecidableEq ι] in
/-- The lock is there while the guard is held. -/
lemma RunInv.lock_of_holdsGuard {s : RunState ι} (hs : RunInv s)
    (hguard : s.main.holdsGuard = true) : s.lock = true := by
  have hlock := hs.lock
  cases hmain : s.main <;>
    simp_all [MainPhase.holdsGuard, MainPhase.beforeCancel, MainPhase.holdsLock]

theorem runInv_step {s t : RunState ι} {l : RunLabel ι} (hs : RunInv s)
    (h : (runMachine ι).step s l = some t) : RunInv t := by
  cases ran_of_step h with
  | lspEnds | client => exact ⟨hs.lock, hs.tracker, hs.accept, hs.main⟩
  | lspClosed hmain =>
      have hlock : s.lock = true := hs.lock_of_holdsGuard (by simp [hmain, MainPhase.holdsGuard])
      exact ⟨by simp [hlock, MainPhase.holdsLock], by simp, by simp, by simp⟩
  | select hmain =>
      have hlock : s.lock = true := hs.lock_of_holdsGuard (by simp [hmain, MainPhase.holdsGuard])
      exact ⟨by simp [hlock, MainPhase.holdsLock], hs.tracker, hs.accept,
        by simp [MainPhase.beforeCancel]⟩
  | @dropLock _ removed hmain =>
      have hlock : s.lock = true := hs.lock_of_holdsGuard (by simp [hmain, MainPhase.holdsGuard])
      refine ⟨fun _ => ?_, hs.tracker, hs.accept, by simp [MainPhase.beforeCancel]⟩
      cases removed <;> simp [hlock, MainPhase.holdsLock]
  | cancel => exact ⟨by simp [MainPhase.beforeCancel], by simp, by simp, by simp⟩
  | joined hmain | graceElapsed hmain =>
      have hcancelled : s.cancelled = true := hs.main (by simp [hmain, MainPhase.beforeCancel])
      exact ⟨by simp [MainPhase.beforeCancel], hs.tracker, hs.accept, fun _ => hcancelled⟩
  | teardown hmain =>
      have hcancelled : s.cancelled = true := hs.main (by simp [hmain, MainPhase.beforeCancel])
      exact ⟨by simp [MainPhase.beforeCancel], fun _ => hcancelled, fun _ => hcancelled,
        fun _ => hcancelled⟩
  | trackerEnds hcancelled => exact ⟨hs.lock, fun _ => hcancelled, hs.accept, hs.main⟩
  | acceptStays _ hphase =>
      exact ⟨hs.lock, hs.tracker, fun hended => absurd hended hphase.1, hs.main⟩
  | spawn => exact ⟨hs.lock, hs.tracker, by simp, hs.main⟩
  | giveUp => exact ⟨by simpa [RunState.giveUp] using hs.lock, by simp [RunState.giveUp],
      by simp [RunState.giveUp], by simp [RunState.giveUp]⟩
  | acceptEnds hcancelled => exact ⟨hs.lock, hs.tracker, fun _ => hcancelled, hs.main⟩

/-- `main` drops the guard once, and nothing else removes the lock. -/
lemma guard_step {s t : RunState ι} {l : RunLabel ι} (h : (runMachine ι).step s l = some t) :
    (t.main.holdsGuard = s.main.holdsGuard ∧ t.lock = s.lock) ∨
      ∃ removed, l = .dropLock removed ∧ s.main.holdsGuard = true ∧ t.main.holdsGuard = false ∧
        t.lock = (s.lock && !removed) := by
  cases ran_of_step h with
  | dropLock hmain => exact Or.inr ⟨_, rfl, by simp [hmain, MainPhase.holdsGuard], rfl, rfl⟩
  | lspClosed hmain | select hmain | cancel hmain | joined hmain | graceElapsed hmain
  | teardown hmain => exact Or.inl (by simp [hmain, MainPhase.holdsGuard])
  | giveUp => exact Or.inl (by simp [RunState.giveUp])
  | _ => exact Or.inl ⟨rfl, rfl⟩

/-- **The lock is there until the guard is dropped, and then exactly if its `remove_file`
failed.** -/
theorem lock_of_run {t : RunState ι} {tr : List (RunState ι × RunLabel ι)}
    (h : (runMachine ι).Run RunState.new tr t) :
    (t.main.holdsGuard = true → t.lock = true) ∧
      (t.main.holdsGuard = false →
        ∃ removed, .dropLock removed ∈ tr.map Prod.snd ∧ t.lock = !removed) := by
  induction h with
  | nil => exact ⟨fun _ => rfl, nofun⟩
  | @snoc t u tr l hrun hl ih =>
      obtain ⟨hheld, hdropped⟩ := ih
      rw [List.map_append]
      rcases guard_step hl with ⟨hguard, hlock⟩ | ⟨removed, rfl, hguard, hguard', hlock⟩
      · rw [hguard, hlock]
        refine ⟨hheld, fun hu => ?_⟩
        obtain ⟨removed, hmem, ht⟩ := hdropped hu
        exact ⟨removed, List.mem_append_left _ hmem, ht⟩
      · rw [hguard', hlock, hheld hguard]
        exact ⟨nofun, fun _ => ⟨removed, by simp, Bool.true_and _⟩⟩

end Connect
