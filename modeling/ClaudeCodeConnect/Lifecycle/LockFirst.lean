import ClaudeCodeConnect.Lifecycle.Tasks

/-!
# Whether the lock goes first

`Handle::shutdown` drops the lock and then cancels the token.  It is not alone in cancelling: the
future of `run_lsp` does before it resolves, and the accept loop when it gives up.  And dropping the
lock may fail to remove it, which is only logged.

* `LockFirst` -- not the lock and a cancelled token at once.
* `ShutdownCancels` -- the condition on a step: it is not the future of `run_lsp` resolving, and
  neither does the accept loop give up nor `shutdown` cancel while `shutdown` has not removed the
  lock.
* `lock_first_iff` -- a run goes through `LockFirst` states only exactly when all its steps are
  such.
* `lock_outlives_token` -- the editor sends `exit`, and the token is cancelled while the lock is
  there.
-/

namespace Connect

variable {ι : Type}

/-- The lock is gone, or the token is not cancelled. -/
def LockFirst (s : RunState ι) : Prop := ¬(s.lock = true ∧ s.cancelled = true)

/-- The future of `run_lsp` does not resolve in the `select!`; the accept loop does not give up
before `shutdown` has removed the lock; and `shutdown` does not go on to cancel after a
`remove_file` that failed. -/
def ShutdownCancels (s : RunState ι) (l : RunLabel ι) : Prop :=
  l ≠ .select .lspClosed ∧ (s.givesUp l = true → s.main.holdsLock = false) ∧
    (l = .cancel → s.main.holdsLock = false)

variable [DecidableEq ι]

instance (s : RunState ι) (l : RunLabel ι) : Decidable (ShutdownCancels s l) :=
  inferInstanceAs (Decidable (_ ∧ _ ∧ _))

omit [DecidableEq ι] in
lemma lockFirst_of_lock {s : RunState ι} (h : s.lock = false) : LockFirst s := by
  simp [LockFirst, h]

omit [DecidableEq ι] in
/-- Where the token is not cancelled with the lock there, it is there as long as `shutdown` has not
removed it. -/
lemma RunInv.lock_eq {s : RunState ι} (hs : RunInv s) (hfirst : LockFirst s) :
    s.lock = s.main.holdsLock := by
  cases hbefore : s.main.beforeCancel with
  | true => exact hs.lock hbefore
  | false =>
      have hlock : s.lock = false := by simpa [LockFirst, hs.main hbefore] using hfirst
      rw [hlock]
      cases hmain : s.main <;> simp_all [MainPhase.beforeCancel, MainPhase.holdsLock]

/-- **One step.**  From a state of the kind, a step leads to one exactly when it meets the
condition. -/
lemma lockFirst_step_iff {s t : RunState ι} {l : RunLabel ι} (hs : RunInv s) (hfirst : LockFirst s)
    (h : (runMachine ι).step s l = some t) : LockFirst t ↔ ShutdownCancels s l := by
  have hlock : s.lock = s.main.holdsLock := hs.lock_eq hfirst
  have hkeeps (hlock : t.lock = s.lock) (hcancelled : t.cancelled = s.cancelled)
      (hl : l ≠ .select .lspClosed) (hup : s.givesUp l = false) (hcancel : l ≠ .cancel) :
      LockFirst t ↔ ShutdownCancels s l := by
    rw [LockFirst, hlock, hcancelled]
    exact ⟨fun _ => ⟨hl, by simp [hup], fun hl => absurd hl hcancel⟩, fun _ => hfirst⟩
  have hquiet (hl : s.quiet l = true) :
      l ≠ .select .lspClosed ∧ s.givesUp l = false ∧ l ≠ .cancel := by
    unfold RunState.quiet at hl
    split at hl <;> simp_all
  cases ran_of_step h with
  | lspClosed hmain =>
      refine ⟨fun ht => absurd ⟨?_, ?_⟩ ht, fun hok => absurd rfl hok.1⟩
      · simp [hlock, hmain, MainPhase.holdsLock]
      · exact RunState.cancelToken_cancelled s
  | giveUp hl =>
      have hcancel : l ≠ .cancel := by
        rintro rfl
        simp [RunState.givesUp] at hl
      constructor
      · intro ht
        refine ⟨?_, fun _ => ?_, fun hl => absurd hl hcancel⟩
        · rintro rfl
          simp [RunState.givesUp] at hl
        · by_contra hthere
          refine ht ⟨?_, RunState.cancelToken_cancelled s⟩
          simpa [RunState.giveUp, hlock] using hthere
      · intro hok
        exact lockFirst_of_lock (by simp [RunState.giveUp, hlock, hok.2.1 hl])
  | select _ hreason => exact hkeeps rfl rfl (by simpa using hreason) rfl (by simp)
  | dropLock =>
      refine ⟨fun _ => ⟨by simp, by simp [RunState.givesUp], by simp⟩,
        fun _ ht => hfirst ⟨?_, ht.2⟩⟩
      exact (Bool.and_eq_true_iff.mp ht.1).1
  | cancel =>
      constructor
      · intro ht
        refine ⟨by simp, by simp [RunState.givesUp], fun _ => ?_⟩
        by_contra hthere
        refine ht ⟨?_, RunState.cancelToken_cancelled s⟩
        simpa [hlock] using hthere
      · intro hok
        exact lockFirst_of_lock (by simp [hlock, hok.2.2 rfl])
  | acceptStays hl => exact hkeeps rfl rfl (hquiet hl).1 (hquiet hl).2.1 (hquiet hl).2.2
  | client hl => exact hkeeps rfl rfl (hquiet hl).1 (hquiet hl).2.1 (hquiet hl).2.2
  | _ => exact hkeeps rfl rfl (by simp) rfl (by simp)

/-- **When the lock goes first.**  A run passes only through states in which the lock is gone or the
token is not cancelled, exactly when the future of `run_lsp` does not resolve in it, the accept loop
does not give up before `shutdown` has removed the lock, and `shutdown` does not cancel after it
failed to. -/
theorem lock_first_iff {s t : RunState ι} {tr : List (RunState ι × RunLabel ι)}
    (hs : (runMachine ι).init s) (h : (runMachine ι).Run s tr t) :
    ((∀ x ∈ tr, LockFirst x.1) ∧ LockFirst t) ↔ ∀ x ∈ tr, ShutdownCancels x.1 x.2 := by
  subst hs
  have hfirst : LockFirst (RunState.new : RunState ι) := by simp [LockFirst, RunState.new]
  induction h with
  | nil => simpa using hfirst
  | @snoc t u tr l hrun hl ih =>
      have ht : RunInv t := hrun.preserves RunInv (fun _ _ => True)
        (fun s l t hi _ hl => runInv_step hi hl) runInv_new (fun _ _ => trivial)
      calc (∀ x ∈ tr ++ [(t, l)], LockFirst x.1) ∧ LockFirst u
          ↔ ((∀ x ∈ tr, LockFirst x.1) ∧ LockFirst t) ∧ LockFirst u := by
            rw [List.forall_mem_append, List.forall_mem_singleton]
        _ ↔ (∀ x ∈ tr, ShutdownCancels x.1 x.2) ∧ LockFirst u := and_congr_left fun _ => ih
        _ ↔ (∀ x ∈ tr, ShutdownCancels x.1 x.2) ∧ ShutdownCancels t l :=
            and_congr_right fun hok => lockFirst_step_iff ht (ih.mpr hok).2 hl
        _ ↔ ∀ x ∈ tr ++ [(t, l)], ShutdownCancels x.1 x.2 := by
            rw [List.forall_mem_append, List.forall_mem_singleton]

/-- A client, and SIGTERM. -/
def terminated : List (RunLabel Unit) :=
  [.accept (.connection ()), .authorized (), .select .sigterm, .dropLock true, .cancel,
    .clientCancelled (), .acceptEnds, .closeSent (), .trackerEnds, .joined]

theorem lock_first_iff_sigterm :
    ∃ (t : RunState Unit) (tr : List (RunState Unit × RunLabel Unit)),
      (runMachine Unit).Run RunState.new tr t ∧ t.main = .returned true ∧
        (∀ x ∈ tr, LockFirst x.1) ∧ LockFirst t := by
  have h : (runMachine Unit).Run RunState.new _ _ := Machine.run_of_exec terminated rfl
  exact ⟨_, _, h, rfl, (lock_first_iff rfl h).mpr (by decide)⟩

/-- **The lock outlives the token.**  A client is connected and the editor sends `exit`: the token
is cancelled, the listener closed and the client told, with the lock still there. -/
theorem lock_outlives_token :
    ∃ (t : RunState Unit) (tr : List (RunState Unit × RunLabel Unit)),
      (runMachine Unit).Run RunState.new tr t ∧ ¬LockFirst t ∧ t.accept = .ended ∧
        t.clients () = .told := by
  have h : (runMachine Unit).Run RunState.new _ _ :=
    Machine.run_of_exec [.accept (.connection ()), .authorized (), .lspEnds, .select .lspClosed,
      .acceptEnds, .clientCancelled (), .closeSent ()] rfl
  exact ⟨_, _, h, fun hfirst => hfirst ⟨rfl, rfl⟩, rfl, rfl⟩

end Connect
