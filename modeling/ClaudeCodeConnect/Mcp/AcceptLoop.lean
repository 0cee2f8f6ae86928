import ClaudeCodeConnect.Lifecycle.Tasks
import Mathlib.Data.List.DropRight

/-!
# When the accept loop gives up

`serve` waits for a connection and for its token at once.  An error of `accept` is retried, waited
out, or the end of the listener, as `accept_error_policy` says, and a counter that only a
connection resets bounds how often it is waited out.

* `serveMachine` -- the loop, with what `accept` answers and who else cancels left open.
* `Served`, `served_of_step` -- what a step can do.
* `Stops` -- the outcome after which the loop should end, in terms of the outcomes alone.
* `ends_iff` -- with no cancellation from outside, it ends after the first such outcome.
* `slept_before_accepting` -- no attempt after a backoff without the delay in between.
* `companion_refines_serve` -- the accept loop of the running companion is this one.
* `serve_gives_up` -- the whole of it, and what the caller learns.
-/

namespace Connect.AcceptLoop

/-! ## `accept_error_policy`

The policy by the kind of the error, and by its number, which depends on the target. -/

/-- `std::io::ErrorKind`, as far as the policy tells its values apart. -/
inductive IoErrorKind
  | connectionAborted
  | connectionReset
  | interrupted
  | wouldBlock
  | invalidInput
  | notConnected
  | other
  deriving DecidableEq, Repr

/-- `std::io::Error`. -/
structure IoError where
  kind : IoErrorKind
  rawOsError : Option ℤ
  deriving DecidableEq, Repr

/-- The error numbers of the target. -/
structure Libc where
  emfile : ℤ
  enfile : ℤ
  enobufs : ℤ
  enomem : ℤ
  ebadf : ℤ
  einval : ℤ
  enotsock : ℤ

/-- `AcceptErrorPolicy`: what to do about a failed `accept`. -/
inductive AcceptErrorPolicy
  | retry
  /-- Milliseconds. -/
  | backoff (delay : ℕ)
  | fatal
  deriving DecidableEq, Repr

/-- `RESOURCE_BACKOFF`, in milliseconds. -/
def resourceBackoff : ℕ := 250

/-- `UNKNOWN_BACKOFF`, in milliseconds. -/
def unknownBackoff : ℕ := 100

/-- `accept_error_policy`: by the kind of the error first, and by its number for the kinds that say
nothing. -/
def acceptErrorPolicy (libc : Libc) (e : IoError) : AcceptErrorPolicy :=
  match e.kind with
  | .connectionAborted | .connectionReset | .interrupted | .wouldBlock => .retry
  | .invalidInput | .notConnected => .fatal
  | .other =>
      match e.rawOsError with
      | some code =>
          if code = libc.emfile ∨ code = libc.enfile ∨ code = libc.enobufs ∨ code = libc.enomem then
            .backoff resourceBackoff
          else if code = libc.ebadf ∨ code = libc.einval ∨ code = libc.enotsock then .fatal
          else .backoff unknownBackoff
      | none => .backoff unknownBackoff

/-! ## The loop

`serve`, one `select!` a step. -/

/-- Where `serve` stands. -/
inductive ServePhase
  /-- In the first `select!`. -/
  | accepting
  /-- In the second. -/
  | backingOff (delay : ℕ)
  | returned
  deriving DecidableEq, Repr

/-- The state of `serve`: the failures in a row, the token, and what it has spawned. -/
structure ServeState (κ : Type) where
  phase : ServePhase
  consecutiveFailures : ℕ
  cancelled : Bool
  /-- The connections a `handle_connection` was spawned for. -/
  handled : List κ
  deriving DecidableEq, Repr

/-- What a `select!` of the loop resolves to, or what is done to the token meanwhile. -/
inductive ServeLabel (κ : Type)
  /-- Someone else cancels the token. -/
  | cancel
  | accept (outcome : Except IoError κ)
  | slept
  /-- The cancelled branch of either `select!`. -/
  | leave
  deriving DecidableEq

namespace ServeState

variable {κ : Type}

/-- The token may be cancelled already. -/
def start (cancelled : Bool) : ServeState κ where
  phase := .accepting
  consecutiveFailures := 0
  cancelled := cancelled
  handled := []

/-- `cancel.cancel(); break`. -/
def giveUp (s : ServeState κ) : ServeState κ := { s with cancelled := true, phase := .returned }

/-- What the loop does with what `accept` gives it. -/
def accepted (libc : Libc) (s : ServeState κ) : Except IoError κ → ServeState κ
  | .ok connection =>
      { s with consecutiveFailures := 0, handled := s.handled ++ [connection] }
  | .error e =>
      match acceptErrorPolicy libc e with
      | .retry => s
      | .backoff delay =>
          if maxConsecutiveAcceptFailures ≤ s.consecutiveFailures + 1 then
            { s with consecutiveFailures := s.consecutiveFailures + 1 }.giveUp
          else
            { s with consecutiveFailures := s.consecutiveFailures + 1, phase := .backingOff delay }
      | .fatal => s.giveUp

/-- One turn of the loop, or half of one that waits out a failure.  With the token cancelled
`accept` may still win the `select!`. -/
def step (libc : Libc) (s : ServeState κ) : ServeLabel κ → Option (ServeState κ)
  | .cancel => some { s with cancelled := true }
  | .accept outcome =>
      match s.phase with
      | .accepting => some (s.accepted libc outcome)
      | _ => none
  | .slept =>
      match s.phase with
      | .backingOff _ => some { s with phase := .accepting }
      | _ => none
  | .leave =>
      match s.phase with
      | .returned => none
      | _ => if s.cancelled then some { s with phase := .returned } else none

end ServeState

/-- `serve`, from its call on. -/
def serveMachine (libc : Libc) (κ : Type) : Machine (ServeState κ) (ServeLabel κ) where
  init s := ∃ cancelled, s = ServeState.start cancelled
  step := ServeState.step libc

variable {libc : Libc} {κ : Type}

/-- The outcomes of a step. -/
inductive Served (libc : Libc) (s : ServeState κ) : ServeLabel κ → ServeState κ → Prop
  | cancel : Served libc s .cancel { s with cancelled := true }
  | connection {c : κ} (hphase : s.phase = .accepting) :
      Served libc s (.accept (.ok c))
        { s with consecutiveFailures := 0, handled := s.handled ++ [c] }
  | retry {e : IoError} (hphase : s.phase = .accepting)
      (hpolicy : acceptErrorPolicy libc e = .retry) : Served libc s (.accept (.error e)) s
  | backoff {e : IoError} {delay : ℕ} (hphase : s.phase = .accepting)
      (hpolicy : acceptErrorPolicy libc e = .backoff delay)
      (hfew : s.consecutiveFailures + 1 < maxConsecutiveAcceptFailures) :
      Served libc s (.accept (.error e))
        { s with consecutiveFailures := s.consecutiveFailures + 1, phase := .backingOff delay }
  | tooMany {e : IoError} {delay : ℕ} (hphase : s.phase = .accepting)
      (hpolicy : acceptErrorPolicy libc e = .backoff delay)
      (hmany : maxConsecutiveAcceptFailures ≤ s.consecutiveFailures + 1) :
      Served libc s (.accept (.error e))
        { s with
          consecutiveFailures := s.consecutiveFailures + 1, cancelled := true, phase := .returned }
  | fatal {e : IoError} (hphase : s.phase = .accepting)
      (hpolicy : acceptErrorPolicy libc e = .fatal) :
      Served libc s (.accept (.error e)) { s with cancelled := true, phase := .returned }
  | slept {delay : ℕ} (hphase : s.phase = .backingOff delay) :
      Served libc s .slept { s with phase := .accepting }
  | leave (hphase : s.phase ≠ .returned) (hcancelled : s.cancelled = true) :
      Served libc s .leave { s with phase := .returned }

/-- **What a step can do.** -/
theorem served_of_step {s t : ServeState κ} {l : ServeLabel κ}
    (h : (serveMachine libc κ).step s l = some t) : Served libc s l t := by
  simp only [serveMachine] at h
  cases l with
  | cancel =>
      cases h
      exact .cancel
  | accept outcome =>
      simp only [ServeState.step] at h
      split at h
      · rename_i hphase
        cases outcome with
        | ok c =>
            cases h
            exact .connection hphase
        | error e =>
            simp only [ServeState.accepted] at h
            split at h
            · cases h
              exact .retry hphase ‹_›
            · split_ifs at h with hmany
              · cases h
                exact .tooMany hphase ‹_› hmany
              · cases h
                exact .backoff hphase ‹_› (not_le.mp hmany)
            · cases h
              exact .fatal hphase ‹_›
      · cases h
  | slept =>
      simp only [ServeState.step] at h
      split at h <;> cases h
      exact .slept ‹_›
  | leave =>
      simp only [ServeState.step] at h
      split at h
      · cases h
      · split_ifs at h
        cases h
        exact .leave ‹_› ‹_›

/-! ## The outcomes of a run

What `accept` answered is all that the end of a run depends on. -/

namespace ServeLabel

/-- What `accept` answered, if the step is one. -/
def outcome? : ServeLabel κ → Option (Except IoError κ)
  | .accept outcome => some outcome
  | _ => none

end ServeLabel

/-- What `accept` answered in a run, in order. -/
def outcomes (tr : List (ServeState κ × ServeLabel κ)) : List (Except IoError κ) :=
  tr.filterMap fun x => x.2.outcome?

/-- The connections among some answers. -/
def connections (answers : List (Except IoError κ)) : List κ :=
  answers.filterMap Except.toOption

/-- It fails, and the policy is to wait and to count it. -/
def backsOff (libc : Libc) : Except IoError κ → Bool
  | .ok _ => false
  | .error e =>
      match acceptErrorPolicy libc e with
      | .backoff _ => true
      | _ => false

/-- `accept` failed. -/
def isError : Except IoError κ → Bool
  | .ok _ => false
  | .error _ => true

/-- The failures waited out since the last connection. -/
def failuresSince (libc : Libc) (answers : List (Except IoError κ)) : ℕ :=
  (answers.rtakeWhile isError).countP (backsOff libc)

/-- After `before`, this outcome should end the loop. -/
def Stops (libc : Libc) (before : List (Except IoError κ)) : Except IoError κ → Prop
  | .ok _ => False
  | .error e =>
      match acceptErrorPolicy libc e with
      | .retry => False
      | .backoff _ => failuresSince libc (before ++ [.error e]) = maxConsecutiveAcceptFailures
      | .fatal => True

lemma outcomes_snoc (tr : List (ServeState κ × ServeLabel κ)) (x : ServeState κ × ServeLabel κ) :
    outcomes (tr ++ [x]) = outcomes tr ++ x.2.outcome?.toList := by
  rw [outcomes, List.filterMap_append, outcomes]
  cases h : x.2.outcome? <;> simp [h]

@[simp] lemma failuresSince_nil : failuresSince libc ([] : List (Except IoError κ)) = 0 := by
  simp [failuresSince]

@[simp] lemma failuresSince_ok (before : List (Except IoError κ)) (c : κ) :
    failuresSince libc (before ++ [.ok c]) = 0 := by
  simp [failuresSince, isError]

@[simp] lemma failuresSince_error (before : List (Except IoError κ)) (e : IoError) :
    failuresSince libc (before ++ [.error e])
      = failuresSince libc before
        + (if backsOff libc (.error e : Except IoError κ) then 1 else 0) := by
  simp [failuresSince, List.rtakeWhile_concat, isError, List.countP_singleton]

/-- No outcome in the list should have ended the loop. -/
def GoesOn (libc : Libc) (answers : List (Except IoError κ)) : Prop :=
  ∀ before o, before ++ [o] <+: answers → ¬Stops libc before o

lemma goesOn_nil : GoesOn libc ([] : List (Except IoError κ)) := by
  intro before o h
  simp at h

lemma goesOn_snoc {answers : List (Except IoError κ)} {o : Except IoError κ} :
    GoesOn libc (answers ++ [o]) ↔ GoesOn libc answers ∧ ¬Stops libc answers o := by
  constructor
  · intro h
    exact ⟨fun before o' h' => h before o' (h'.trans (List.prefix_append _ _)),
      h answers o List.prefix_rfl⟩
  · rintro ⟨h, ho⟩ before o' hprefix
    rcases List.prefix_concat_iff.mp hprefix with heq | hprefix
    · obtain ⟨rfl, ho'⟩ := List.append_inj' heq rfl
      obtain rfl : o' = o := by simpa using ho'
      exact ho
    · exact h before o' hprefix

/-! ## When it ends

The count of failures is that of the failures since the last connection, and the loop gives up at
the twentieth. -/

/-- What the state says of the outcomes so far, as long as nobody else cancels. -/
structure Counted (libc : Libc) (answers : List (Except IoError κ)) (s : ServeState κ) : Prop where
  uncancelled : s.phase ≠ .returned → s.cancelled = false
  failures : s.phase ≠ .returned → s.consecutiveFailures = failuresSince libc answers
  few : s.phase ≠ .returned → s.consecutiveFailures < maxConsecutiveAcceptFailures
  goesOn : s.phase ≠ .returned → GoesOn libc answers
  stopped : s.phase = .returned →
    ∃ before o, answers = before ++ [o] ∧ Stops libc before o ∧ GoesOn libc before

lemma counted_start : Counted libc [] (ServeState.start false : ServeState κ) where
  uncancelled _ := rfl
  failures _ := failuresSince_nil.symm
  few _ := (by decide : 0 < maxConsecutiveAcceptFailures)
  goesOn _ := goesOn_nil
  stopped h := by simp [ServeState.start] at h

/-- **One step** keeps the count: a connection resets it, a retry leaves it, a backoff adds one, and
the outcome that should end the loop does. -/
lemma counted_step {answers : List (Except IoError κ)} {s t : ServeState κ} {l : ServeLabel κ}
    (hs : Counted libc answers s) (hl : l ≠ .cancel)
    (h : (serveMachine libc κ).step s l = some t) :
    Counted libc (answers ++ l.outcome?.toList) t := by
  cases served_of_step h with
  | cancel => exact absurd rfl hl
  | connection hphase =>
      have hrunning : s.phase ≠ .returned := by simp [hphase]
      refine ⟨fun _ => hs.uncancelled hrunning, fun _ => ?_, fun _ => ?_, fun _ => ?_, ?_⟩
      · simp [ServeLabel.outcome?]
      · exact (by decide : 0 < maxConsecutiveAcceptFailures)
      · exact goesOn_snoc.mpr ⟨hs.goesOn hrunning, by simp [Stops]⟩
      · simp [hphase]
  | retry hphase hpolicy =>
      have hrunning : s.phase ≠ .returned := by simp [hphase]
      refine ⟨hs.uncancelled, fun _ => ?_, hs.few, fun _ => ?_, by simp [hphase]⟩
      · simp [ServeLabel.outcome?, backsOff, hpolicy, hs.failures hrunning]
      · exact goesOn_snoc.mpr ⟨hs.goesOn hrunning, by simp [Stops, hpolicy]⟩
  | backoff hphase hpolicy hfew =>
      have hrunning : s.phase ≠ .returned := by simp [hphase]
      have hcount := hs.failures hrunning
      refine ⟨fun _ => hs.uncancelled hrunning, fun _ => ?_, fun _ => hfew, fun _ => ?_, by simp⟩
      · simp [ServeLabel.outcome?, backsOff, hpolicy, hcount]
      · refine goesOn_snoc.mpr ⟨hs.goesOn hrunning, ?_⟩
        simp only [Stops, hpolicy, failuresSince_error, backsOff, if_true]
        omega
  | tooMany hphase hpolicy hmany =>
      have hrunning : s.phase ≠ .returned := by simp [hphase]
      have hcount := hs.failures hrunning
      have hfew := hs.few hrunning
      refine ⟨by simp, by simp, by simp, by simp, fun _ => ⟨answers, _, rfl, ?_, ?_⟩⟩
      · simp only [Stops, hpolicy, failuresSince_error, backsOff, if_true]
        omega
      · exact hs.goesOn hrunning
  | fatal hphase hpolicy =>
      have hrunning : s.phase ≠ .returned := by simp [hphase]
      refine ⟨by simp, by simp, by simp, by simp, fun _ => ⟨answers, _, rfl, ?_, ?_⟩⟩
      · simp [Stops, hpolicy]
      · exact hs.goesOn hrunning
  | slept hphase =>
      have hrunning : s.phase ≠ .returned := by simp [hphase]
      have hanswers : answers ++ ServeLabel.slept.outcome?.toList = answers := by
        simp [ServeLabel.outcome?]
      rw [hanswers]
      exact ⟨fun _ => hs.uncancelled hrunning, fun _ => hs.failures hrunning,
        fun _ => hs.few hrunning, fun _ => hs.goesOn hrunning, by simp⟩
  | leave hphase hcancelled => simp [hs.uncancelled hphase] at hcancelled

/-- **The count, over a run** in which nobody else cancels. -/
theorem counted_run {t : ServeState κ} {tr : List (ServeState κ × ServeLabel κ)}
    (h : (serveMachine libc κ).Run (ServeState.start false) tr t)
    (hcancel : ∀ x ∈ tr, x.2 ≠ .cancel) : Counted libc (outcomes tr) t := by
  induction h with
  | nil => exact counted_start
  | @snoc t u tr l _ hl ih =>
      rw [outcomes_snoc]
      exact counted_step (ih fun x hx => hcancel x (List.mem_append_left _ hx))
        (hcancel (t, l) (by simp)) hl

/-- **It ends precisely there**: after the first outcome that should end it. -/
lemma Counted.ends_iff {answers : List (Except IoError κ)} {s : ServeState κ}
    (h : Counted libc answers s) :
    (s.phase = .returned ↔ ∃ before o, answers = before ++ [o] ∧ Stops libc before o) ∧
      ∀ before o, before ++ [o] <+: answers → Stops libc before o → before ++ [o] = answers := by
  constructor
  · constructor
    · intro hphase
      obtain ⟨before, o, heq, hstops, -⟩ := h.stopped hphase
      exact ⟨before, o, heq, hstops⟩
    · rintro ⟨before, o, rfl, hstops⟩
      by_contra hphase
      exact (goesOn_snoc.mp (h.goesOn hphase)).2 hstops
  · intro before o hprefix hstops
    by_cases hphase : s.phase = .returned
    · obtain ⟨before', o', rfl, -, hgoesOn⟩ := h.stopped hphase
      rcases List.prefix_concat_iff.mp hprefix with heq | hprefix
      · exact heq
      · exact absurd hstops (hgoesOn before o hprefix)
    · exact absurd hstops (h.goesOn hphase before o hprefix)

/-! ## What every run keeps

No connection is lost, the token is cancelled by whoever gives up, and no failure is retried before
its delay. -/

lemma handled_run {s t : ServeState κ} {tr : List (ServeState κ × ServeLabel κ)}
    (h : (serveMachine libc κ).Run s tr t) :
    t.handled = s.handled ++ connections (outcomes tr) := by
  induction h with
  | nil => simp [connections, outcomes]
  | @snoc t u tr l _ hl ih =>
      have hsame (ho : l.outcome?.toList.filterMap Except.toOption = ([] : List κ))
          (hu : u.handled = t.handled) :
          u.handled = s.handled ++ connections (outcomes (tr ++ [(t, l)])) := by
        rw [outcomes_snoc, connections, List.filterMap_append, ho, List.append_nil, hu]
        exact ih
      cases served_of_step hl with
      | connection =>
          simp only [outcomes_snoc, connections, List.filterMap_append, ih]
          simp [ServeLabel.outcome?, Except.toOption]
      | _ => exact hsame (by simp [ServeLabel.outcome?, Except.toOption]) rfl

lemma cancelled_step {s t : ServeState κ} {l : ServeLabel κ}
    (hs : s.phase = .returned → s.cancelled = true)
    (h : (serveMachine libc κ).step s l = some t) :
    t.phase = .returned → t.cancelled = true := by
  cases served_of_step h with
  | cancel | tooMany | fatal => exact fun _ => rfl
  | connection | retry => exact hs
  | backoff | slept => simp
  | leave _ hcancelled => exact fun _ => hcancelled

/-- Every way `serve` returns leaves the token cancelled. -/
lemma cancelled_run {cancelled : Bool} {t : ServeState κ}
    {tr : List (ServeState κ × ServeLabel κ)}
    (h : (serveMachine libc κ).Run (ServeState.start cancelled) tr t) :
    t.phase = .returned → t.cancelled = true :=
  h.preserves (fun s => s.phase = .returned → s.cancelled = true) (fun _ _ => True)
    (fun _ _ _ hs _ hl => cancelled_step hs hl) (by simp [ServeState.start]) (fun _ _ => trivial)

/-- Only its end, or the end of the loop, leads out of a delay. -/
lemma slept_before_accepting {s t : ServeState κ} {delay : ℕ}
    {tr : List (ServeState κ × ServeLabel κ)} (h : (serveMachine libc κ).Run s tr t)
    (hs : s.phase = .backingOff delay ∨ s.phase = .returned) :
    (t.phase = .backingOff delay ∨ t.phase = .returned) ∨
      ∃ x ∈ tr, x.1.phase = .backingOff delay ∧ x.2 = .slept := by
  induction h with
  | nil => exact .inl hs
  | @snoc t u tr l _ hl ih =>
      rcases ih with hphase | ⟨x, hx, hslept⟩
      · cases served_of_step hl with
        | cancel => exact .inl hphase
        | slept hback =>
            rw [hback, or_iff_left (by simp)] at hphase
            exact .inr ⟨(t, .slept), by simp, hback.trans hphase, rfl⟩
        | leave => exact .inl (.inr rfl)
        | connection haccepting | retry haccepting | backoff haccepting | tooMany haccepting
        | fatal haccepting => simp [haccepting] at hphase
      · exact .inr ⟨x, List.mem_append_left _ hx, hslept⟩

/-- After a failure that is waited out, there is no attempt before the delay. -/
lemma slept_after_backoff {s t : ServeState κ} {x : ServeState κ × ServeLabel κ} {e : IoError}
    {delay : ℕ} {tr before after : List (ServeState κ × ServeLabel κ)}
    (h : (serveMachine libc κ).Run s tr t) (htr : tr = before ++ x :: after)
    (hx : x.2 = .accept (.error e)) (hpolicy : acceptErrorPolicy libc e = .backoff delay)
    (ht : t.phase = .accepting) : ∃ y ∈ after, y.1.phase = .backingOff delay ∧ y.2 = .slept := by
  obtain ⟨u, -, hu, hafter⟩ := h.split htr
  have hback : u.phase = .backingOff delay ∨ u.phase = .returned := by
    rw [hx] at hu
    cases served_of_step hu with
    | retry _ hretry => simp [hretry] at hpolicy
    | backoff _ hbackoff =>
        rw [hbackoff] at hpolicy
        cases hpolicy
        exact .inl rfl
    | tooMany | fatal => exact .inr rfl
  rcases slept_before_accepting hafter hback with hphase | hslept
  · simp [ht] at hphase
  · exact hslept

/-- The loop takes every sequence of outcomes, up to the one that ends it. -/
theorem serve_takes (libc : Libc) (answers : List (Except IoError κ)) :
    ∃ tr t, (serveMachine libc κ).Run (ServeState.start false) tr t ∧
      (∀ x ∈ tr, x.2 ≠ .cancel) ∧ outcomes tr <+: answers ∧
      (t.phase = .returned ∨ t.phase = .accepting ∧ outcomes tr = answers) := by
  induction answers using List.reverseRecOn with
  | nil => exact ⟨[], _, .nil, by simp, List.nil_prefix, .inr ⟨rfl, rfl⟩⟩
  | append_singleton answers o ih =>
      obtain ⟨tr, t, hrun, hcancel, hprefix, hphase | ⟨hphase, heq⟩⟩ := ih
      · exact ⟨tr, t, hrun, hcancel, hprefix.trans (List.prefix_append _ _), .inl hphase⟩
      · have hstep : (serveMachine libc κ).step t (.accept o) = some (t.accepted libc o) := by
          simp only [serveMachine, ServeState.step, hphase]
        have hrun' := hrun.snoc hstep
        have hcancel' : ∀ x ∈ tr ++ [(t, .accept o)], x.2 ≠ .cancel := by
          simpa [or_imp, forall_and] using hcancel
        have houtcomes : outcomes (tr ++ [(t, .accept o)]) = answers ++ [o] := by
          rw [outcomes_snoc, heq]
          rfl
        cases hnext : (t.accepted libc o).phase with
        | returned => exact ⟨_, _, hrun', hcancel', houtcomes ▸ List.prefix_rfl, .inl hnext⟩
        | accepting =>
            exact ⟨_, _, hrun', hcancel', houtcomes ▸ List.prefix_rfl, .inr ⟨hnext, houtcomes⟩⟩
        | backingOff delay =>
            -- The delay, and it is accepting again.
            have hslept : (serveMachine libc κ).step (t.accepted libc o) .slept
                = some { t.accepted libc o with phase := .accepting } := by
              simp only [serveMachine, ServeState.step, hnext]
            have houtcomes' : outcomes ((tr ++ [(t, .accept o)]) ++ [(t.accepted libc o, .slept)])
                = answers ++ [o] := by
              rw [outcomes_snoc, houtcomes]
              simp [ServeLabel.outcome?]
            refine ⟨_, _, hrun'.snoc hslept, ?_, houtcomes' ▸ List.prefix_rfl,
              .inr ⟨rfl, houtcomes'⟩⟩
            simpa [or_imp, forall_and] using hcancel'

/-! ## The loop in the companion

The loop as `Lifecycle.Tasks` has it: its steps are these, so what holds of runs here holds there.
-/

section Companion

variable {ι : Type} [DecidableEq ι]

/-- The phase the companion's record has for the loop. -/
def InPhase (s : ServeState ι) : AcceptPhase → Prop
  | .accepting failures => s.phase = .accepting ∧ s.consecutiveFailures = failures
  | .backingOff failures =>
      (∃ delay, s.phase = .backingOff delay) ∧ s.consecutiveFailures = failures
  | .gaveUp | .ended => s.phase = .returned

/-- The companion's token and its accept loop are those of `s`. -/
structure Runs (r : RunState ι) (s : ServeState ι) : Prop where
  phase : InPhase s r.accept
  cancelled : s.cancelled = r.cancelled

/-- An error the policy meets in the given way. -/
def errorOf : Connect.AcceptErrorPolicy → IoError
  | .retry => ⟨.interrupted, none⟩
  | .backoff => ⟨.other, none⟩
  | .fatal => ⟨.notConnected, none⟩

lemma acceptErrorPolicy_errorOf (libc : Libc) (policy : Connect.AcceptErrorPolicy) :
    acceptErrorPolicy libc (errorOf policy) = match policy with
      | .retry => .retry
      | .backoff => .backoff unknownBackoff
      | .fatal => .fatal := by
  cases policy <;> rfl

/-- The rest of the companion only ever cancels. -/
lemma step_elsewhere {r r' : RunState ι} {l : RunLabel ι} (h : (runMachine ι).step r l = some r')
    (haccept : ∀ o, l ≠ .accept o)
    (hends : l ≠ .backoffElapsed ∧ l ≠ .acceptEnds ∧ l ≠ .teardown) :
    r'.accept = r.accept ∧ (r'.cancelled = r.cancelled ∨ r'.cancelled = true) := by
  simp only [runMachine] at h
  cases l with
  | accept o => exact absurd rfl (haccept o)
  | backoffElapsed | acceptEnds | teardown => simp at hends
  | lspEnds =>
      cases h
      exact ⟨rfl, .inl rfl⟩
  | select reason =>
      simp only [RunState.step] at h
      split at h
      · cases reason <;> simp only [RunState.select] at h
        case lspClosed =>
          split_ifs at h
          cases h
          exact ⟨r.cancelToken_accept, .inr r.cancelToken_cancelled⟩
        case serverStopped =>
          split_ifs at h
          cases h
          exact ⟨rfl, .inl rfl⟩
        all_goals
          cases h
          exact ⟨rfl, .inl rfl⟩
      · cases h
  | cancel =>
      simp only [RunState.step] at h
      split at h <;> cases h
      exact ⟨r.cancelToken_accept, .inr r.cancelToken_cancelled⟩
  | trackerEnds =>
      simp only [RunState.step] at h
      split_ifs at h
      cases h
      exact ⟨rfl, .inl rfl⟩
  | clientCancelled i =>
      simp only [RunState.step] at h
      split at h
      · split_ifs at h
        cases h
        exact ⟨rfl, .inl rfl⟩
      · cases h
  | dropLock | joined | graceElapsed | authorized i | closeSent i | clientLeaves i =>
      simp only [RunState.step] at h
      split at h <;> cases h <;> exact ⟨rfl, .inl rfl⟩

/-- What `accept` answers, in the companion's words. -/
def outcomeOf : AcceptOutcome ι → Except IoError ι
  | .connection i => .ok i
  | .error policy => .error (errorOf policy)

/-- **One outcome** of `accept` does to the companion what it does to the loop. -/
lemma runs_accepted {r r' : RunState ι} {s : ServeState ι} {failures : ℕ} {o : AcceptOutcome ι}
    (libc : Libc) (hs : Runs r s) (haccept : r.accept = .accepting failures)
    (h : r.accepted failures o = some r') : Runs r' (s.accepted libc (outcomeOf o)) := by
  obtain ⟨hphase, hcount⟩ : s.phase = .accepting ∧ s.consecutiveFailures = failures := by
    simpa [InPhase, haccept] using hs.phase
  cases o with
  | connection i =>
      simp only [RunState.accepted] at h
      split at h <;> cases h
      exact ⟨⟨hphase, rfl⟩, hs.cancelled⟩
  | error policy =>
      cases policy with
      | retry =>
          cases h
          exact hs
      | backoff =>
          simp only [RunState.accepted] at h
          simp only [outcomeOf, ServeState.accepted, acceptErrorPolicy_errorOf, hcount]
          split_ifs at h ⊢ with hmany
          · cases h
            exact ⟨rfl, r.cancelToken_cancelled.symm⟩
          · cases h
            exact ⟨⟨⟨_, rfl⟩, rfl⟩, hs.cancelled⟩
      | fatal =>
          cases h
          exact ⟨rfl, r.cancelToken_cancelled.symm⟩

omit [DecidableEq ι] in
/-- The loop leaves, if it has not already, where its task ends in the companion. -/
lemma runs_ended {r r' : RunState ι} {s : ServeState ι} (libc : Libc) (hs : Runs r s)
    (haccept : r'.accept = .ended) (hsame : r'.cancelled = r.cancelled)
    (hcancelled : r.cancelled = true) :
    ∃ tr s', (serveMachine libc ι).Run s tr s' ∧ Runs r' s' := by
  by_cases hphase : s.phase = .returned
  · refine ⟨[], s, .nil, ?_, hs.cancelled.trans hsame.symm⟩
    simpa [InPhase, haccept] using hphase
  · have hleave : (serveMachine libc ι).step s .leave = some { s with phase := .returned } := by
      have hs' : s.cancelled = true := hs.cancelled.trans hcancelled
      cases hp : s.phase with
      | returned => exact absurd hp hphase
      | accepting | backingOff => simp [serveMachine, ServeState.step, hp, hs']
    refine ⟨_, _, .snoc .nil hleave, ?_, hs.cancelled.trans hsame.symm⟩
    simp [InPhase, haccept]

/-- **One step.**  A step of the companion is one of the loop, one by which someone else cancels, or
none of the loop's business. -/
lemma runs_step {r r' : RunState ι} {s : ServeState ι} {l : RunLabel ι} (libc : Libc)
    (hs : Runs r s) (hr : RunInv r) (h : (runMachine ι).step r l = some r') :
    ∃ tr s', (serveMachine libc ι).Run s tr s' ∧ Runs r' s' := by
  cases l with
  | accept o =>
      simp only [runMachine, RunState.step] at h
      split at h
      · rename_i failures haccept
        obtain ⟨hphase, -⟩ : s.phase = .accepting ∧ s.consecutiveFailures = failures := by
          simpa [InPhase, haccept] using hs.phase
        have hstep : (serveMachine libc ι).step s (.accept (outcomeOf o))
            = some (s.accepted libc (outcomeOf o)) := by
          simp only [serveMachine, ServeState.step, hphase]
        exact ⟨_, _, .snoc .nil hstep, runs_accepted libc hs haccept h⟩
      · cases h
  | backoffElapsed =>
      simp only [runMachine, RunState.step] at h
      split at h <;> cases h
      rename_i failures haccept
      obtain ⟨⟨delay, hphase⟩, hcount⟩ :
          (∃ delay, s.phase = .backingOff delay) ∧ s.consecutiveFailures = failures := by
        simpa [InPhase, haccept] using hs.phase
      have hslept : (serveMachine libc ι).step s .slept = some { s with phase := .accepting } := by
        simp only [serveMachine, ServeState.step, hphase]
      exact ⟨_, _, .snoc .nil hslept, ⟨rfl, hcount⟩, hs.cancelled⟩
  | acceptEnds =>
      simp only [runMachine, RunState.step] at h
      split at h
      · cases h
      · split_ifs at h with hcancelled
        cases h
        exact runs_ended libc hs rfl rfl hcancelled
  | teardown =>
      simp only [runMachine, RunState.step] at h
      split at h <;> cases h
      rename_i hmain
      have hcancelled : r.cancelled = true :=
        hr.main (by simp [hmain, MainPhase.beforeCancel])
      exact runs_ended libc hs rfl rfl hcancelled
  | _ =>
      obtain ⟨haccept, hcancelled⟩ := step_elsewhere h (by simp) (by simp)
      have hphase : InPhase s r'.accept := haccept ▸ hs.phase
      rcases hcancelled with hcancelled | hcancelled
      · exact ⟨[], s, .nil, hphase, hs.cancelled.trans hcancelled.symm⟩
      · have hcancel : (serveMachine libc ι).step s .cancel = some { s with cancelled := true } :=
          rfl
        refine ⟨_, _, .snoc .nil hcancel, ?_, hcancelled.symm⟩
        cases haccept' : r'.accept <;> simpa [InPhase, haccept'] using hphase

/-- **The companion's accept loop is this one**: whatever the companion does, its loop and its token
are where a run of `serve` takes them. -/
theorem companion_refines_serve (libc : Libc) {r : RunState ι}
    {tr : List (RunState ι × RunLabel ι)} (h : (runMachine ι).Run RunState.new tr r) :
    ∃ tr' s, (serveMachine libc ι).Run (ServeState.start false) tr' s ∧ Runs r s := by
  induction h with
  | nil => exact ⟨[], _, .nil, ⟨rfl, rfl⟩, rfl⟩
  | @snoc r r' tr l hrun hl ih =>
      obtain ⟨tr₁, s₁, hrun₁, hruns⟩ := ih
      have hr : RunInv r := hrun.preserves RunInv (fun _ _ => True)
        (fun s l t hi _ hl => runInv_step hi hl) runInv_new (fun _ _ => trivial)
      obtain ⟨tr₂, s₂, hrun₂, hruns₂⟩ := runs_step libc hruns hr hl
      exact ⟨tr₁ ++ tr₂, s₂, hrun₁.trans hrun₂, hruns₂⟩

/-- **What the caller learns.**  The token is cancelled; if `main` is still in its `select!`, the
branch that waits for it is ready; then the guard is dropped next; and once it has been, the lock is
gone unless its `remove_file` failed. -/
structure Told (r : RunState ι) (tr : List (RunState ι × RunLabel ι)) : Prop where
  cancelled : r.cancelled = true
  selecting : r.main = .selecting →
    (runMachine ι).step r (.select .serverStopped)
      = some { r with main := .stopping .serverStopped }
  stopping : ∀ reason removed, r.main = .stopping reason →
    (runMachine ι).step r (.dropLock removed)
      = some { r with lock := !removed, main := .dropped removed }
  dropped : r.main.holdsGuard = false →
    ∃ removed, .dropLock removed ∈ tr.map Prod.snd ∧ r.lock = !removed

lemma told_of_returned {r : RunState ι} {tr : List (RunState ι × RunLabel ι)} (libc : Libc)
    (h : (runMachine ι).Run RunState.new tr r) (hover : r.accept = .gaveUp ∨ r.accept = .ended) :
    Told r tr := by
  obtain ⟨tr', s, hrun, hruns⟩ := companion_refines_serve libc h
  obtain ⟨hheld, hdropped⟩ := lock_of_run h
  have hphase : s.phase = .returned := by
    rcases hover with hover | hover <;> simpa [InPhase, hover] using hruns.phase
  have hcancelled : r.cancelled = true := hruns.cancelled ▸ cancelled_run hrun hphase
  refine ⟨hcancelled, fun hmain => ?_, fun reason removed hmain => ?_, hdropped⟩
  · simp [runMachine, RunState.step, RunState.select, hmain, hcancelled]
  · have hlock : r.lock = true := hheld (by simp [hmain, MainPhase.holdsGuard])
    simp [runMachine, RunState.step, hmain, hlock]

end Companion

/-! ## The whole of it

The loop by itself, and what its end means for the companion. -/

/-- **The accept loop gives up exactly when it should.**  Every connection is handed on, in order;
with no cancellation from outside the loop ends after the first outcome that should end it, and at
no other; it does not accept after a backoff before the delay is over; and when it is over the token
is cancelled.  In the companion, whenever its accept loop is over, the caller is told. -/
theorem serve_gives_up [DecidableEq κ] (libc : Libc) :
    (∀ (s t : ServeState κ) (tr : List (ServeState κ × ServeLabel κ)),
      (serveMachine libc κ).init s → (serveMachine libc κ).Run s tr t →
        t.handled = connections (outcomes tr) ∧
        (s.cancelled = false → (∀ x ∈ tr, x.2 ≠ .cancel) →
          (t.phase = .returned ↔
            ∃ before o, outcomes tr = before ++ [o] ∧ Stops libc before o) ∧
          ∀ before o, before ++ [o] <+: outcomes tr → Stops libc before o →
            before ++ [o] = outcomes tr) ∧
        (∀ before x after e delay, tr = before ++ x :: after → x.2 = .accept (.error e) →
          acceptErrorPolicy libc e = .backoff delay → t.phase = .accepting →
            ∃ y ∈ after, y.1.phase = .backingOff delay ∧ y.2 = .slept) ∧
        (t.phase = .returned → t.cancelled = true)) ∧
      ∀ (r : RunState κ) (tr : List (RunState κ × RunLabel κ)),
        (runMachine κ).Run RunState.new tr r → r.accept = .gaveUp ∨ r.accept = .ended →
          Told r tr := by
  refine ⟨?_, fun r tr h hover => told_of_returned libc h hover⟩
  rintro s t tr ⟨cancelled, rfl⟩ h
  refine ⟨?_, ?_, ?_, cancelled_run h⟩
  · simpa [ServeState.start] using handled_run h
  · rintro rfl hcancel
    exact (counted_run h hcancel).ends_iff
  · intro before x after e delay htr hx hpolicy ht
    exact slept_after_backoff h htr hx hpolicy ht

/-- The numbers on Linux. -/
def linux : Libc where
  emfile := 24
  enfile := 23
  enobufs := 105
  enomem := 12
  ebadf := 9
  einval := 22
  enotsock := 88

/-- A connection, then out of descriptors for good, with one client lost on the way. -/
def outOfDescriptors : List (ServeLabel Unit) :=
  .accept (.ok ()) ::
    (List.replicate 19 [.accept (.error ⟨.other, some 24⟩), .slept]).flatten ++
    [.accept (.error ⟨.connectionAborted, some 103⟩), .accept (.error ⟨.other, some 24⟩)]

theorem serve_gives_up_out_of_descriptors :
    ∃ (t : ServeState Unit) (tr : List (ServeState Unit × ServeLabel Unit)),
      (serveMachine linux Unit).Run (ServeState.start false) tr t ∧
        t.handled = connections (outcomes tr) ∧ t.phase = .returned ∧ t.cancelled = true ∧
        ∃ before o, outcomes tr = before ++ [o] ∧ Stops linux before o := by
  have h : (serveMachine linux Unit).Run (ServeState.start false) _ _ :=
    Machine.run_of_exec outOfDescriptors rfl
  obtain ⟨hhandled, hends, -, hcancelled⟩ := (serve_gives_up linux).1 _ _ _ ⟨false, rfl⟩ h
  exact ⟨_, _, h, hhandled, rfl, hcancelled rfl, (hends rfl (by decide)).1.mp rfl⟩

end Connect.AcceptLoop
