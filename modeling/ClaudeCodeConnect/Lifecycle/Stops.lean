import ClaudeCodeConnect.Core.Ranking
import ClaudeCodeConnect.Lifecycle.Tasks

/-!
# Whatever the reason, it stops

Once `main` has left its `select!`, nothing the tracker, the accept loop or a connection does, or
fails to do, keeps the process from exiting.

* `RunLabel.OfMain`, `RunLabel.Own` -- the steps of `main`, and those that need nobody from outside.
* `mainSteps_of_run` -- `main` takes so many steps, whatever else happens.
* `RunState.stepsLeft`, `ranked_own` -- how many steps of its own the companion has left to take.
* `RunState.Exited`, `exited_of_run` -- what there is in the end, and what nothing changes any more.
* `stopping_comes_to_an_end` -- all of it, in every run.
-/

namespace Connect

variable {ι : Type}

/-- The steps of `shutdown` and of what comes after it. -/
def RunLabel.OfMain : RunLabel ι → Bool
  | .dropLock _ | .cancel | .joined | .graceElapsed | .teardown => true
  | _ => false

/-- No connection comes in, nor an error from `accept`; the editor does nothing, and no reason to
stop arrives. -/
def RunLabel.Own : RunLabel ι → Bool
  | .lspEnds | .select _ | .accept _ => false
  | _ => true

/-- The steps of `main` up to its exit: out of the `select!`, through the three statements of
`shutdown`, and the end of the runtime. -/
def MainPhase.stepsLeft : MainPhase → ℕ
  | .selecting => 5
  | .stopping _ => 4
  | .dropped _ => 3
  | .draining => 2
  | .returned _ => 1
  | .exited => 0

/-- The steps of the accept loop up to its end, no connection coming in. -/
def AcceptPhase.stepsLeft : AcceptPhase → ℕ
  | .accepting _ | .gaveUp => 1
  | .backingOff _ => 2
  | .ended => 0

/-- The steps of a connection up to its end: it is let in, sees the token, and sends the close
frame. -/
def ClientPhase.stepsLeft : ClientPhase → ℕ
  | .handshaking => 3
  | .serving => 2
  | .closing => 1
  | _ => 0

namespace RunState

/-- The steps of its own that the companion has left, with these connections. -/
def stepsLeft (s : RunState ι) (J : Finset ι) : ℕ :=
  s.main.stepsLeft + (if s.trackerEnded then 0 else 1) + s.accept.stepsLeft
    + ∑ i ∈ J, (s.clients i).stepsLeft

/-- The process is gone, and every task of it. -/
structure Exited (s : RunState ι) : Prop where
  main : s.main = .exited
  cancelled : s.cancelled = true
  tracker : s.trackerEnded = true
  accept : s.accept = .ended
  clients : ∀ i, (s.clients i).stepsLeft = 0

end RunState

lemma cancelToken_clients (s : RunState ι) : s.cancelToken.clients = s.clients := by
  rw [RunState.cancelToken]
  split_ifs <;> rfl

lemma stepsLeft_tornDown (phase : ClientPhase) : (RunState.tornDown phase).stepsLeft = 0 := by
  cases phase <;> rfl

variable [DecidableEq ι] {s t u : RunState ι} {l : RunLabel ι}
  {tr : List (RunState ι × RunLabel ι)} {J : Finset ι}

/-! ## The steps of `main`

Once out of the `select!`, `main` has one step to take in each of its phases and waits for nobody:
`join_next` is under a timeout. -/

/-- Its own steps bring it on. -/
lemma main_step_of_main (hl : l.OfMain = true)
    (h : (runMachine ι).step s l = some t) : t.main.stepsLeft + 1 = s.main.stepsLeft := by
  simp only [runMachine] at h
  cases l with
  | dropLock | cancel | joined | graceElapsed | teardown =>
      simp only [RunState.step] at h
      split at h <;> cases h
      simp [*, MainPhase.stepsLeft]
  | _ => exact absurd hl Bool.false_ne_true

omit [DecidableEq ι] in
lemma own_of_main (hl : l.OfMain = true) : l.Own = true := by
  cases l with
  | dropLock | cancel | joined | graceElapsed | teardown => rfl
  | _ => exact absurd hl Bool.false_ne_true

/-- The others leave it where it is, but for a reason to stop. -/
lemma main_step_of_other (hl : l.OfMain = false) (hmain : s.main ≠ .selecting)
    (h : (runMachine ι).step s l = some t) : t.main = s.main := by
  cases ran_of_step h with
  | lspClosed hselecting | select hselecting => exact absurd hselecting hmain
  | dropLock | cancel | joined | graceElapsed | teardown =>
      exact absurd hl (by simp [RunLabel.OfMain])
  | giveUp => exact RunState.cancelToken_main s
  | _ => rfl

omit [DecidableEq ι] in
lemma selecting_iff : s.main = .selecting ↔ 4 < s.main.stepsLeft := by
  cases s.main <;> simp [MainPhase.stepsLeft]

/-- **`main` gets on, whatever else happens.** -/
lemma mainSteps_of_run (h : (runMachine ι).Run s tr t) (hmain : s.main ≠ .selecting) :
    t.main ≠ .selecting ∧
      (tr.map Prod.snd).countP RunLabel.OfMain + t.main.stepsLeft = s.main.stepsLeft := by
  induction h with
  | nil => exact ⟨hmain, Nat.zero_add _⟩
  | @snoc u t tr l _ hl ih =>
      obtain ⟨hu, hcount⟩ := ih
      rw [List.map_append, List.countP_append, List.map_singleton, List.countP_singleton]
      cases hof : l.OfMain with
      | true =>
          have hstep := main_step_of_main hof hl
          rw [ne_eq, selecting_iff] at hu ⊢
          rw [if_pos rfl]
          omega
      | false =>
          have hstep := main_step_of_other hof hu hl
          rw [if_neg Bool.false_ne_true, hstep]
          exact ⟨hu, hcount⟩

/-- It never has to wait for anybody: the grace period elapses. -/
lemma exists_main_step (hmain : s.main ≠ .selecting) (hexited : s.main ≠ .exited) :
    ∃ l, l.OfMain = true ∧ (runMachine ι).step s l ≠ none := by
  cases hphase : s.main with
  | selecting => exact absurd hphase hmain
  | stopping reason => exact ⟨.dropLock true, rfl, by simp [runMachine, RunState.step, hphase]⟩
  | dropped removed => exact ⟨.cancel, rfl, by simp [runMachine, RunState.step, hphase]⟩
  | draining => exact ⟨.graceElapsed, rfl, by simp [runMachine, RunState.step, hphase]⟩
  | returned drained => exact ⟨.teardown, rfl, by simp [runMachine, RunState.step, hphase]⟩
  | exited => exact absurd hphase hexited

/-! ## All steps of its own

With no connection coming in, every step of the companion leaves fewer of them to take. -/

/-- A connection that moves comes on. -/
lemma stepsLeft_setClient {i : ι} {phase : ClientPhase} (hi : i ∈ J)
    (h : phase.stepsLeft < (s.clients i).stepsLeft) :
    (s.setClient i phase).stepsLeft J < s.stepsLeft J :=
  Nat.add_lt_add_left (sum_update_lt s.clients ClientPhase.stepsLeft hi h) _

/-- **Every step of its own is one less to take.** -/
lemma stepsLeft_step (hJ : ∀ i ∉ J, s.clients i = .unconnected) (hown : l.Own = true)
    (h : (runMachine ι).step s l = some t) :
    (∀ i ∉ J, t.clients i = .unconnected) ∧ t.stepsLeft J < s.stepsLeft J := by
  have hclient : ∀ {i phase}, phase.stepsLeft < (s.clients i).stepsLeft →
      (∀ j ∉ J, (s.setClient i phase).clients j = .unconnected) ∧
        (s.setClient i phase).stepsLeft J < s.stepsLeft J := by
    intro i phase hlt
    have hi : i ∈ J := by
      by_contra hi
      rw [hJ i hi] at hlt
      exact absurd hlt (Nat.not_lt_zero _)
    refine ⟨fun j hj => ?_, stepsLeft_setClient hi hlt⟩
    have hji : j ≠ i := by
      rintro rfl
      exact hj hi
    exact (Function.update_of_ne hji _ _).trans (hJ j hj)
  simp only [runMachine] at h
  cases l with
  | lspEnds | select | accept => exact absurd hown Bool.false_ne_true
  | dropLock | joined | graceElapsed =>
      simp only [RunState.step] at h
      split at h <;> cases h
      exact ⟨hJ, by simp [RunState.stepsLeft, MainPhase.stepsLeft, *]⟩
  | cancel =>
      simp only [RunState.step] at h
      split at h <;> cases h
      exact ⟨by simpa [cancelToken_clients] using hJ,
        by simp [RunState.stepsLeft, MainPhase.stepsLeft, cancelToken_clients, *]⟩
  | teardown =>
      simp only [RunState.step] at h
      split at h <;> cases h
      refine ⟨fun i hi => by simp [hJ i hi, RunState.tornDown], ?_⟩
      simp [RunState.stepsLeft, MainPhase.stepsLeft, AcceptPhase.stepsLeft,
        stepsLeft_tornDown, *]
  | trackerEnds =>
      simp only [RunState.step] at h
      split_ifs at h with hends
      cases h
      exact ⟨hJ, by simp [RunState.stepsLeft, hends.2]⟩
  | backoffElapsed =>
      simp only [RunState.step] at h
      split at h <;> cases h
      exact ⟨hJ, by simp [RunState.stepsLeft, AcceptPhase.stepsLeft, *]⟩
  | acceptEnds =>
      simp only [RunState.step] at h
      split at h
      · cases h
      · rename_i hended
        split_ifs at h
        cases h
        refine ⟨hJ, ?_⟩
        cases haccept : s.accept with
        | ended => exact absurd haccept hended
        | _ => simp [RunState.stepsLeft, AcceptPhase.stepsLeft, haccept]
  | authorized i | closeSent i =>
      simp only [RunState.step] at h
      split at h <;> cases h
      exact hclient (by simp [ClientPhase.stepsLeft, *])
  | clientCancelled i =>
      simp only [RunState.step] at h
      split at h
      · split_ifs at h
        cases h
        exact hclient (by simp [ClientPhase.stepsLeft, *])
      · cases h
  | clientLeaves i =>
      simp only [RunState.step] at h
      split at h <;> cases h <;> exact hclient (by simp [ClientPhase.stepsLeft, *])

lemma ranked_own (J : Finset ι) :
    Machine.Ranked (runMachine ι) (fun l => l.Own = true)
      (fun s => ∀ i ∉ J, s.clients i = .unconnected) (RunState.stepsLeft · J) where
  keeps _ _ _ hJ hown hl := (stepsLeft_step hJ hown hl).1
  decreases _ _ _ hJ hown hl := (stepsLeft_step hJ hown hl).2

omit [DecidableEq ι] in
/-- Three for each connection, and seven for the rest. -/
lemma stepsLeft_le (hmain : s.main ≠ .selecting) : s.stepsLeft J ≤ 7 + 3 * J.card := by
  have hphase : s.main.stepsLeft ≤ 4 := Nat.not_lt.mp (mt selecting_iff.mpr hmain)
  have htracker : (if s.trackerEnded then 0 else 1) ≤ 1 := by split_ifs <;> simp
  have haccept : s.accept.stepsLeft ≤ 2 := by cases s.accept <;> simp [AcceptPhase.stepsLeft]
  have hclients : ∑ i ∈ J, (s.clients i).stepsLeft ≤ 3 * J.card := by
    calc ∑ i ∈ J, (s.clients i).stepsLeft
        ≤ ∑ _i ∈ J, 3 := by
          refine Finset.sum_le_sum fun i _ => ?_
          cases s.clients i <;> simp [ClientPhase.stepsLeft]
      _ = 3 * J.card := by rw [Finset.sum_const_nat fun _ _ => rfl, Nat.mul_comm]
  rw [RunState.stepsLeft]
  omega

/-! ## The end

The process is gone, and nothing of it moves any more. -/

/-- Nothing changes it any more. -/
lemma RunState.Exited.step (hs : s.Exited) (h : (runMachine ι).step s l = some t) : t.Exited := by
  simp only [runMachine] at h
  cases l with
  | lspEnds =>
      cases h
      exact ⟨hs.main, hs.cancelled, hs.tracker, hs.accept, hs.clients⟩
  | select | dropLock | cancel | joined | graceElapsed | teardown =>
      simp [RunState.step, hs.main] at h
  | trackerEnds => simp [RunState.step, hs.tracker] at h
  | accept | backoffElapsed | acceptEnds => simp [RunState.step, hs.accept] at h
  | authorized i | clientCancelled i | closeSent i | clientLeaves i =>
      have hclient := hs.clients i
      simp only [RunState.step] at h
      split at h <;> simp_all [ClientPhase.stepsLeft]

/-- `main` is through once the runtime has been torn down. -/
lemma exited_step (hinv : RunInv s) (hs : s.main = .exited → s.Exited)
    (h : (runMachine ι).step s l = some t) (hexited : t.main = .exited) : t.Exited := by
  by_cases hmain : s.main = .exited
  · exact (hs hmain).step h
  · cases ran_of_step h with
    | teardown hphase =>
        have hcancelled : s.cancelled = true := hinv.main (by simp [hphase, MainPhase.beforeCancel])
        exact ⟨rfl, hcancelled, rfl, rfl, fun i => stepsLeft_tornDown (s.clients i)⟩
    | lspClosed | select | dropLock | cancel | joined | graceElapsed => cases hexited
    | giveUp => exact absurd ((RunState.cancelToken_main s).symm.trans hexited) hmain
    | _ => exact absurd hexited hmain

lemma exited_of_run (hs : (runMachine ι).init s) (h : (runMachine ι).Run s tr t)
    (hexited : t.main = .exited) : t.Exited := by
  subst hs
  have hboth : RunInv t ∧ (t.main = .exited → t.Exited) := by
    refine h.preserves (fun t => RunInv t ∧ (t.main = .exited → t.Exited)) (fun _ _ => True) ?_
      ⟨runInv_new, nofun⟩ fun _ _ => trivial
    exact fun _ _ _ hi _ hl => ⟨runInv_step hi.1 hl, exited_step hi.1 hi.2 hl⟩
  exact hboth.2 hexited

/-- **Whatever the reason, it stops.**  In every run, from the moment `main` has left its `select!`,
with any clients:

1. whatever the tracker, the accept loop, the clients and the editor do or fail to do, `main` takes
   at most four more steps, until the process has exited there is one it can take, and then the
   tracker and the accept loop have ended, no connection is open, and the guard has been dropped:
   the lock is gone unless its `remove_file` failed;
2. if no connection comes in and `accept` does not fail, the companion takes at most seven steps,
   and three for each client, in any order, and when none is left the process has exited;
3. nothing changes that any more. -/
theorem stopping_comes_to_an_end (hs : (runMachine ι).init s) (h : (runMachine ι).Run s tr t)
    (hmain : t.main ≠ .selecting) (hJ : ∀ i ∉ J, t.clients i = .unconnected) :
    (∀ tr' u, (runMachine ι).Run t tr' u →
      (tr'.map Prod.snd).countP RunLabel.OfMain ≤ 4 ∧
        (u.main ≠ .exited → ∃ l, l.OfMain = true ∧ (runMachine ι).step u l ≠ none) ∧
        (u.main = .exited → u.Exited ∧
          ∃ removed, .dropLock removed ∈ (tr ++ tr').map Prod.snd ∧ u.lock = !removed)) ∧
    (∀ tr' u, (runMachine ι).Run t tr' u → (∀ x ∈ tr', x.2.Own = true) →
      tr'.length ≤ 7 + 3 * J.card ∧
        ((∀ l : RunLabel ι, l.Own = true → (runMachine ι).step u l = none) → u.Exited)) ∧
    ∀ u, u.Exited → ∀ tr' v, (runMachine ι).Run u tr' v → v.Exited := by
  refine ⟨fun tr' u h' => ?_, fun tr' u h' hown => ?_, fun u hu tr' v h' => ?_⟩
  · have hrun := h.trans h'
    obtain ⟨hu, hcount⟩ := mainSteps_of_run h' hmain
    have hphase : t.main.stepsLeft ≤ 4 := Nat.not_lt.mp (mt selecting_iff.mpr hmain)
    refine ⟨by omega, exists_main_step hu, fun hexited => ⟨exited_of_run hs hrun hexited, ?_⟩⟩
    subst hs
    exact (lock_of_run hrun).2 (by simp [hexited, MainPhase.holdsGuard])
  · obtain ⟨-, hlength⟩ := h'.ranked (ranked_own J) hJ hown
    have hbound := stepsLeft_le (J := J) hmain
    refine ⟨by omega, fun hrest => exited_of_run hs (h.trans h') ?_⟩
    by_contra hne
    obtain ⟨l, hl, hstep⟩ := exists_main_step (mainSteps_of_run h' hmain).1 hne
    exact hstep (hrest l (own_of_main hl))
  · exact h'.preserves RunState.Exited (fun _ _ => True) (fun _ _ _ hi _ hl => hi.step hl) hu
      fun _ _ => trivial

/-- SIGTERM, with a client. -/
def terminating : List (RunLabel Unit) :=
  [.accept (.connection ()), .authorized (), .select .sigterm]

theorem stopping_comes_to_an_end_terminating :
    ∃ (t : RunState Unit) (tr : List (RunState Unit × RunLabel Unit)),
      (runMachine Unit).Run RunState.new tr t ∧ t.lock = true ∧
        ∀ tr' u, (runMachine Unit).Run t tr' u → (∀ x ∈ tr', x.2.Own = true) → tr'.length ≤ 10 := by
  have h : (runMachine Unit).Run RunState.new _ _ := Machine.run_of_exec terminating rfl
  obtain ⟨-, hown, -⟩ := stopping_comes_to_an_end (J := Finset.univ) rfl h (by decide)
    fun i hi => absurd (Finset.mem_univ i) hi
  exact ⟨_, _, h, rfl, fun tr' u h' hkind => (hown tr' u h' hkind).1⟩

end Connect
