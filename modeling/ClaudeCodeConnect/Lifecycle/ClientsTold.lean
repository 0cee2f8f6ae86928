import ClaudeCodeConnect.Lifecycle.Tasks
import Mathlib.Data.Fintype.Basic

/-!
# Whether every client is told

`Handle::shutdown` returns once the tasks of the handle's set have ended.  The connections are not
in it: they run under child tokens, in tasks that nobody waits for.

* `AllTold`, `ClientsTold` -- who was in its serving loop at cancellation has sent its close frame;
  and has when `shutdown` returns within the grace period.
* `EndsAfterClients` -- the condition on a step: the last task of the set ends after them.
* `clients_told` -- a run of such steps goes through `ClientsTold` states only, and from any
  other step a run continues to a state that is not.
* `untold_client_dropped` -- one client, and a socket dropped without a close frame.
-/

namespace Connect

variable {ι : Type}

/-- Every connection in its serving loop when the token was cancelled has sent its close frame. -/
def AllTold (s : RunState ι) : Prop := ∀ i, s.servedAtCancel i = true → s.clients i = .told

/-- If every task of the set ended within the grace period, every client that was served has been
told. -/
def ClientsTold (s : RunState ι) : Prop := s.main = .returned true → AllTold s

/-- Of the tracker and the accept loop, the last to end does so after the connections. -/
def EndsAfterClients (s : RunState ι) : RunLabel ι → Prop
  | .trackerEnds => s.main.running = true → s.accept = .ended → AllTold s
  | .acceptEnds => s.main.running = true → s.trackerEnded = true → AllTold s
  | _ => True

instance [Fintype ι] (s : RunState ι) : Decidable (AllTold s) :=
  inferInstanceAs (Decidable (∀ i, s.servedAtCancel i = true → s.clients i = .told))

instance [Fintype ι] (s : RunState ι) (l : RunLabel ι) : Decidable (EndsAfterClients s l) := by
  unfold EndsAfterClients
  split <;> infer_instance

/-- What a run of such steps keeps. -/
structure ToldInv (s : RunState ι) : Prop where
  run : RunInv s
  drained : s.main.running = true → s.trackerEnded = true → s.accept = .ended → AllTold s
  returned : ClientsTold s

variable [DecidableEq ι]

/-- Whoever was told stays told, and after cancellation nobody is added. -/
lemma AllTold.ran {s t : RunState ι} {l : RunLabel ι} (h : AllTold s)
    (hcancelled : s.cancelled = true) (hran : Ran s l t) : AllTold t := by
  have hupdate {i : ι} {phase : ClientPhase} (hi : s.clients i ≠ .told) :
      AllTold (s.setClient i phase) := by
    intro j hj
    have hji : j ≠ i := by
      rintro rfl
      exact hi (h j hj)
    have hclient : (s.setClient i phase).clients j = s.clients j := Function.update_of_ne hji _ _
    rw [hclient]
    exact h j hj
  cases hran with
  | lspClosed | cancel =>
      rw [RunState.cancelToken_of_cancelled hcancelled]
      exact h
  | giveUp =>
      rw [RunState.giveUp, RunState.cancelToken_of_cancelled hcancelled]
      exact h
  | teardown =>
      intro i hi
      simp only [h i hi, RunState.tornDown]
  | spawn hi => exact hupdate (by simp [hi])
  | client _ hi => exact hupdate hi
  | _ => exact h

/-- How both tasks of the set come to have ended, `shutdown` still waiting. -/
lemma Ran.ended {s t : RunState ι} {l : RunLabel ι} (h : Ran s l t)
    (hrunning : t.main.running = true) (htracker : t.trackerEnded = true)
    (haccept : t.accept = .ended) :
    s.main.running = true ∧ ((s.trackerEnded = true ∧ s.accept = .ended) ∨
      (l = .trackerEnds ∧ s.accept = .ended) ∨ (l = .acceptEnds ∧ s.trackerEnded = true)) := by
  cases h with
  | lspClosed hmain | cancel hmain =>
      exact ⟨by simp [hmain, MainPhase.running],
        Or.inl ⟨by simpa using htracker, by simpa using haccept⟩⟩
  | select hmain | dropLock hmain =>
      exact ⟨by simp [hmain, MainPhase.running], Or.inl ⟨htracker, haccept⟩⟩
  | joined | graceElapsed | teardown => simp [MainPhase.running] at hrunning
  | trackerEnds => exact ⟨hrunning, Or.inr (Or.inl ⟨rfl, haccept⟩)⟩
  | acceptStays _ hphase => exact absurd haccept hphase.1
  | spawn | giveUp => simp [RunState.giveUp] at haccept
  | acceptEnds => exact ⟨hrunning, Or.inr (Or.inr ⟨rfl, htracker⟩)⟩
  | lspEnds | client => exact ⟨hrunning, Or.inl ⟨htracker, haccept⟩⟩

/-- `shutdown` returns drained only by `joined`. -/
lemma Ran.returned {s t : RunState ι} {l : RunLabel ι} (h : Ran s l t)
    (hreturned : t.main = .returned true) :
    s.main = .returned true ∨
      (s.main = .draining ∧ s.trackerEnded = true ∧ s.accept = .ended) := by
  cases h with
  | joined hmain htracker haccept => exact Or.inr ⟨hmain, htracker, haccept⟩
  | lspClosed | select | dropLock | cancel | graceElapsed | teardown => cases hreturned
  | giveUp => exact Or.inl (by simpa [RunState.giveUp] using hreturned)
  | _ => exact Or.inl hreturned

/-- **One step.** -/
lemma toldInv_step {s t : RunState ι} {l : RunLabel ι} (hs : ToldInv s) (hok : EndsAfterClients s l)
    (h : (runMachine ι).step s l = some t) : ToldInv t := by
  have hran := ran_of_step h
  refine ⟨runInv_step hs.run h, ?_, ?_⟩
  · intro hrunning htracker haccept
    obtain ⟨hbefore, ⟨htracker', haccept'⟩ | ⟨rfl, haccept'⟩ | ⟨rfl, htracker'⟩⟩ :=
      hran.ended hrunning htracker haccept
    · exact (hs.drained hbefore htracker' haccept').ran (hs.run.tracker htracker') hran
    · exact (hok hbefore haccept').ran (hs.run.accept haccept') hran
    · exact (hok hbefore htracker').ran (hs.run.tracker htracker') hran
  · intro hreturned
    rcases hran.returned hreturned with hbefore | ⟨hdraining, htracker, haccept⟩
    · refine (hs.returned hbefore).ran ?_ hran
      exact hs.run.main (by simp [hbefore, MainPhase.beforeCancel])
    · have hrunning : s.main.running = true := by simp [hdraining, MainPhase.running]
      exact (hs.drained hrunning htracker haccept).ran (hs.run.tracker htracker) hran

/-! ## A set that ends too early

If the set of tasks ends while some client has not been told, `main` can return at once, and the
runtime is torn down under that client. -/

/-- From here `shutdown` can return drained with no connection taking a step. -/
def ReturnsAtOnce (s : RunState ι) : Prop :=
  ∃ tr t, (runMachine ι).Run s tr t ∧ t.main = .returned true ∧ t.clients = s.clients ∧
    t.servedAtCancel = s.servedAtCancel

lemma ReturnsAtOnce.of_step {s t : RunState ι} {l : RunLabel ι} (ht : ReturnsAtOnce t)
    (h : (runMachine ι).step s l = some t) (hclients : t.clients = s.clients)
    (hserved : t.servedAtCancel = s.servedAtCancel) : ReturnsAtOnce s := by
  obtain ⟨tr, u, hrun, hmain, hc, hv⟩ := ht
  exact ⟨_, u, Machine.Run.cons h hrun, hmain, hc.trans hclients, hv.trans hserved⟩

/-- Both tasks of the set have ended: what is left is `main`'s. -/
structure SetEnded (s : RunState ι) : Prop where
  cancelled : s.cancelled = true
  tracker : s.trackerEnded = true
  accept : s.accept = .ended

lemma returnsAtOnce_of_draining {s : RunState ι} (h : SetEnded s) (hmain : s.main = .draining) :
    ReturnsAtOnce s := by
  refine ⟨[(s, .joined)], { s with main := .returned true }, .cons ?_ .nil, rfl, rfl, rfl⟩
  simp [runMachine, RunState.step, hmain, h.tracker, h.accept]

lemma returnsAtOnce_of_dropped {s : RunState ι} {removed : Bool} (h : SetEnded s)
    (hmain : s.main = .dropped removed) : ReturnsAtOnce s := by
  have hstep : (runMachine ι).step s .cancel = some { s with main := .draining } := by
    simp [runMachine, RunState.step, hmain, RunState.cancelToken_of_cancelled h.cancelled]
  have hnext : SetEnded { s with main := .draining } := ⟨h.cancelled, h.tracker, h.accept⟩
  exact (returnsAtOnce_of_draining hnext rfl).of_step hstep rfl rfl

lemma returnsAtOnce_of_stopping {s : RunState ι} {reason : StopReason} (h : SetEnded s)
    (hmain : s.main = .stopping reason) : ReturnsAtOnce s := by
  have hstep : (runMachine ι).step s (.dropLock true)
      = some { s with lock := false, main := .dropped true } := by
    simp [runMachine, RunState.step, hmain]
  have hnext : SetEnded { s with lock := false, main := .dropped true } :=
    ⟨h.cancelled, h.tracker, h.accept⟩
  exact (returnsAtOnce_of_dropped hnext rfl).of_step hstep rfl rfl

lemma returnsAtOnce_of_setEnded {s : RunState ι} (h : SetEnded s)
    (hrunning : s.main.running = true) : ReturnsAtOnce s := by
  cases hmain : s.main with
  | selecting =>
      -- The token is cancelled, so `stopped` resolves.
      have hstep : (runMachine ι).step s (.select .serverStopped)
          = some { s with main := .stopping .serverStopped } := by
        simp [runMachine, RunState.step, RunState.select, hmain, h.cancelled]
      have hnext : SetEnded { s with main := .stopping .serverStopped } :=
        ⟨h.cancelled, h.tracker, h.accept⟩
      exact (returnsAtOnce_of_stopping hnext rfl).of_step hstep rfl rfl
  | stopping => exact returnsAtOnce_of_stopping h hmain
  | dropped => exact returnsAtOnce_of_dropped h hmain
  | draining => exact returnsAtOnce_of_draining h hmain
  | returned | exited => simp [hmain, MainPhase.running] at hrunning

/-- Once the token is cancelled, the tracker and the accept loop can end before any connection takes
its turn. -/
lemma returnsAtOnce_of_cancelled {s : RunState ι} (hcancelled : s.cancelled = true)
    (hrunning : s.main.running = true) : ReturnsAtOnce s := by
  have haccept (s : RunState ι) (hcancelled : s.cancelled = true) (htracker : s.trackerEnded = true)
      (hrunning : s.main.running = true) : ReturnsAtOnce s := by
    by_cases hended : s.accept = .ended
    · exact returnsAtOnce_of_setEnded ⟨hcancelled, htracker, hended⟩ hrunning
    · have hstep : (runMachine ι).step s .acceptEnds = some { s with accept := .ended } := by
        simp only [runMachine, RunState.step, if_pos hcancelled]
      have hnext : SetEnded { s with accept := .ended } := ⟨hcancelled, htracker, rfl⟩
      exact (returnsAtOnce_of_setEnded hnext hrunning).of_step hstep rfl rfl
  by_cases htracker : s.trackerEnded = true
  · exact haccept s hcancelled htracker hrunning
  · have hstep : (runMachine ι).step s .trackerEnds = some { s with trackerEnded := true } := by
      simp only [runMachine, RunState.step]
      exact if_pos ⟨hcancelled, by simpa using htracker⟩
    exact (haccept { s with trackerEnded := true } hcancelled rfl hrunning).of_step hstep rfl rfl

/-- A client that is not told by then may never be. -/
lemma untold_of_cancelled {s : RunState ι} (hcancelled : s.cancelled = true)
    (hrunning : s.main.running = true) (huntold : ¬AllTold s) :
    ∃ tr t, (runMachine ι).Run s tr t ∧ ¬ClientsTold t := by
  obtain ⟨tr, t, hrun, hmain, hclients, hserved⟩ := returnsAtOnce_of_cancelled hcancelled hrunning
  refine ⟨tr, t, hrun, fun htold => huntold ?_⟩
  intro i hi
  rw [← hclients]
  exact htold hmain i (by rw [hserved]; exact hi)

/-- **When every client is told.**  In a run in which the last of the tracker and the accept loop to
end does so only when every connection that was being served at cancellation has sent its close
frame, `shutdown` never returns drained with one untold.  After a step that does not meet this, and
indeed wherever the token is cancelled and such a client is untold, the run has a continuation in
which it does. -/
theorem clients_told {s t : RunState ι} {tr : List (RunState ι × RunLabel ι)}
    (hs : (runMachine ι).init s) (h : (runMachine ι).Run s tr t) :
    ((∀ x ∈ tr, EndsAfterClients x.1 x.2) → (∀ x ∈ tr, ClientsTold x.1) ∧ ClientsTold t) ∧
    (∀ l u, (runMachine ι).step t l = some u → ¬EndsAfterClients t l →
      ∃ tr' v, (runMachine ι).Run u tr' v ∧ ¬ClientsTold v) ∧
    (t.cancelled = true → t.main.running = true → ¬AllTold t →
      ∃ tr' v, (runMachine ι).Run t tr' v ∧ ¬ClientsTold v) := by
  subst hs
  have hinit : ToldInv (RunState.new : RunState ι) :=
    ⟨runInv_new, by simp [RunState.new], by simp [ClientsTold, RunState.new]⟩
  refine ⟨?_, ?_, untold_of_cancelled⟩
  · intro hok
    have hstep : ∀ (s : RunState ι) (l : RunLabel ι) (t : RunState ι), ToldInv s →
        EndsAfterClients s l → (runMachine ι).step s l = some t → ToldInv t :=
      fun s l t hi hok hl => toldInv_step hi hok hl
    exact ⟨fun x hx => (h.preserves_before ToldInv EndsAfterClients hstep hinit hok x hx).returned,
      (h.preserves ToldInv EndsAfterClients hstep hinit hok).returned⟩
  · intro l u hl hok
    cases l with
    | trackerEnds =>
        simp only [EndsAfterClients, Classical.not_imp] at hok
        obtain ⟨hrunning, -, huntold⟩ := hok
        simp only [runMachine, RunState.step] at hl
        split_ifs at hl with hends
        cases hl
        exact untold_of_cancelled hends.1 hrunning huntold
    | acceptEnds =>
        simp only [EndsAfterClients, Classical.not_imp] at hok
        obtain ⟨hrunning, -, huntold⟩ := hok
        simp only [runMachine, RunState.step] at hl
        split at hl
        · cases hl
        · split_ifs at hl with hcancelled
          cases hl
          exact untold_of_cancelled hcancelled hrunning huntold
    | _ => exact absurd trivial hok

/-- A client that is told before the tracker ends. -/
def toldInTime : List (RunLabel Unit) :=
  [.accept (.connection ()), .authorized (), .select .sigterm, .dropLock true, .cancel, .acceptEnds,
    .clientCancelled (), .closeSent (), .trackerEnds, .joined]

theorem clients_told_toldInTime :
    ∃ (t : RunState Unit) (tr : List (RunState Unit × RunLabel Unit)),
      (runMachine Unit).Run RunState.new tr t ∧ t.main = .returned true ∧
        t.servedAtCancel () = true ∧ ClientsTold t := by
  have h : (runMachine Unit).Run RunState.new _ _ := Machine.run_of_exec toldInTime rfl
  exact ⟨_, _, h, rfl, rfl, ((clients_told rfl h).1 (by decide)).2⟩

/-- **A client that is not.**  One client is in its serving loop when SIGTERM comes; the tracker and
the accept loop end first, `shutdown` returns well within its grace period, and the runtime is torn
down under the connection. -/
theorem untold_client_dropped :
    ∃ (t u : RunState Unit) (tr : List (RunState Unit × RunLabel Unit)),
      (runMachine Unit).Run RunState.new tr t ∧ ¬ClientsTold t ∧
        (runMachine Unit).step t .teardown = some u ∧ u.clients () = .dropped := by
  have h : (runMachine Unit).Run RunState.new _ _ :=
    Machine.run_of_exec [.accept (.connection ()), .authorized (), .select .sigterm, .dropLock true,
      .cancel, .trackerEnds, .acceptEnds, .joined] rfl
  refine ⟨_, _, _, h, ?_, rfl, rfl⟩
  intro htold
  cases htold rfl () rfl

end Connect
