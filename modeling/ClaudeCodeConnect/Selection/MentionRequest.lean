import ClaudeCodeConnect.Selection.Tracker

/-!
# Which selection a mention request names

`handle_at_mention_request` of `mcp/connection.rs` makes its mention of `bus.latest()`.  That cell
is written when the tracker's debounce settles, so it lags the selection the editor reported last by
the whole window, and by more while updates keep coming.

* `step_mentions` -- what a step can do to the requests: begin one, publish one, or nothing.
* `request_mentions_latest` -- requests handled when the newest selection has settled mention it.
* `request_mentions_stale` -- a request inside the window mentions the selection before, or nothing
  at all when there was none.
-/

namespace Connect

variable {Path Url : Type} [DecidableEq Path] [DecidableEq Url]

/-- The mention of a request is that of the selection reported last before it was handled, and there
is one if any was. -/
def MentionsLatest (s : TrackerState Path Url) : Prop :=
  ∀ r ∈ s.handled, ∀ x, r.1 = some x → r.2 = some (Mention.of x)

/-- Every mention on the ring or about to be was made for a request, and the other way round. -/
def MentionsAccounted (s : TrackerState Path Url) : Prop :=
  (mentionsOf s.bus.events.sent ++ s.pending).Perm (s.handled.filterMap Prod.snd)

/-- **What a step does to the requests.** -/
lemma step_mentions {s t : TrackerState Path Url} {l : TrackerLabel Path Url}
    (hl : s.step l = some t) :
    (l = .request ∧ t = s.request) ∨
    (∃ m ∈ s.pending, l = .publishMention m ∧
      t = { s with pending := s.pending.erase m, bus := s.bus.publishMention m }) ∨
    (l ≠ .request ∧ t.handled = s.handled ∧ t.pending = s.pending ∧
      mentionsOf t.bus.events.sent = mentionsOf s.bus.events.sent) := by
  cases l with
  | request =>
      cases hl
      exact Or.inl ⟨rfl, rfl⟩
  | publishMention m =>
      simp only [TrackerState.step] at hl
      split_ifs at hl with hm
      cases hl
      exact Or.inr (Or.inl ⟨m, hm, rfl, rfl⟩)
  | update x =>
      simp only [TrackerState.step] at hl
      split_ifs at hl
      cases hl
      exact Or.inr (Or.inr ⟨by simp, rfl, rfl, rfl⟩)
  | dropTrackers =>
      cases hl
      exact Or.inr (Or.inr ⟨by simp, rfl, rfl, rfl⟩)
  | wake =>
      simp only [TrackerState.step] at hl
      split at hl <;> cases hl <;> exact Or.inr (Or.inr ⟨by simp, rfl, rfl, rfl⟩)
  | restart =>
      simp only [TrackerState.step] at hl
      split at hl <;> cases hl <;> exact Or.inr (Or.inr ⟨by simp, rfl, rfl, rfl⟩)
  | timerFires =>
      simp only [TrackerState.step] at hl
      split at hl <;> cases hl
      exact Or.inr (Or.inr ⟨by simp, rfl, rfl, rfl⟩)
  | borrowAndUpdate =>
      simp only [TrackerState.step] at hl
      split at hl <;> cases hl
      refine Or.inr (Or.inr ⟨by simp, ?_⟩)
      rw [TrackerState.borrowAndUpdate]
      split <;> exact ⟨rfl, rfl, rfl⟩
  | compare =>
      simp only [TrackerState.step] at hl
      split at hl <;> cases hl
      refine Or.inr (Or.inr ⟨by simp, ?_⟩)
      rw [TrackerState.compare]
      split_ifs <;> exact ⟨rfl, rfl, rfl⟩
  | replaceLatest =>
      simp only [TrackerState.step] at hl
      split at hl <;> cases hl
      exact Or.inr (Or.inr ⟨by simp, rfl, rfl, rfl⟩)
  | send =>
      simp only [TrackerState.step] at hl
      split at hl <;> cases hl
      exact Or.inr (Or.inr ⟨by simp, rfl, rfl, by simp⟩)

lemma accounted_step {s t : TrackerState Path Url} {l : TrackerLabel Path Url}
    (h : MentionsAccounted s) (hl : s.step l = some t) : MentionsAccounted t := by
  rcases step_mentions hl with ⟨-, rfl⟩ | ⟨m, hm, -, rfl⟩ | ⟨-, hhandled, hpending, hsent⟩
  · simp only [MentionsAccounted, TrackerState.request, List.filterMap_append]
    rw [← List.append_assoc]
    refine h.append ?_
    cases s.bus.latest <;> exact List.Perm.refl _
  · simp only [MentionsAccounted, EventBus.events_publishMention, Ring.send_sent, mentionsOf_append,
      mentionsOf_cons, Event.mention?_atMentioned, Option.toList_some, mentionsOf_nil,
      List.append_nil]
    rw [List.append_assoc]
    exact ((List.perm_cons_erase hm).symm.append_left _).trans h
  · rw [MentionsAccounted, hhandled, hpending, hsent]
    exact h

/-- **One step.**  A request handled in a settled state mentions the newest selection. -/
lemma mentionsLatest_step {s t : TrackerState Path Url} {l : TrackerLabel Path Url} (hinv : s.Inv)
    (h : MentionsLatest s) (hok : l = .request → s.Settled) (hl : s.step l = some t) :
    MentionsLatest t := by
  rcases step_mentions hl with ⟨hreq, rfl⟩ | ⟨m, -, -, rfl⟩ | ⟨-, hhandled, -, -⟩
  · intro r hr x hx
    rcases List.mem_append.mp hr with hr | hr
    · exact h r hr x hx
    · rw [List.mem_singleton.mp hr] at hx ⊢
      have hlatest : s.bus.latest = some x := (hinv.latest_of_settled (hok hreq)).trans hx
      rw [hlatest]
      rfl
  · exact h
  · rw [MentionsLatest, hhandled]
    exact h

/-- **Requests after the debounce.**  If every request of a run is handled in a state in which the
task has read the newest update and is done with it, then in every state of the run each request
mentions the selection reported last before it, and the mentions published or about to be are those
of the requests. -/
theorem request_mentions_latest {s t : TrackerState Path Url}
    {tr : List (TrackerState Path Url × TrackerLabel Path Url)}
    (hs : (trackerMachine Path Url).init s) (h : (trackerMachine Path Url).Run s tr t)
    (hok : ∀ p ∈ tr, p.2 = .request → p.1.Settled) :
    MentionsLatest t ∧ MentionsAccounted t := by
  obtain ⟨capacity, rfl⟩ := hs
  have hall := h.preserves
    (fun s => s.Inv ∧ MentionsLatest s ∧ MentionsAccounted s)
    (fun s l => l = .request → s.Settled)
    (fun s l t hi hok hl =>
      ⟨inv_step hi.1 hl, mentionsLatest_step hi.1 hi.2.1 hok hl, accounted_step hi.2.2 hl⟩)
    ⟨TrackerState.inv_new capacity, by simp [MentionsLatest, TrackerState.new], List.Perm.refl _⟩
    hok
  exact hall.2

/-- One selection that settles, and a request. -/
def settledRequest : List (TrackerLabel Unit Unit) :=
  [.update (onLine 1), .wake, .timerFires, .borrowAndUpdate, .compare, .replaceLatest, .send,
    .request, .publishMention (Mention.of (onLine 1))]

theorem request_mentions_latest_settled :
    ∃ (s t : TrackerState Unit Unit) (tr : List (TrackerState Unit Unit × TrackerLabel Unit Unit)),
      (trackerMachine Unit Unit).Run s tr t ∧ t.handled.length = 1 ∧ MentionsLatest t := by
  have h : (trackerMachine Unit Unit).Run (TrackerState.new 8) _ _ :=
    Machine.run_of_exec settledRequest rfl
  exact ⟨_, _, _, h, rfl, (request_mentions_latest ⟨8, rfl⟩ h (by decide)).1⟩

/-- **Requests inside the window.**  A first selection is reported and a request handled before it
settles: no mention.  A first selection has settled, a second is reported and a request handled
before that settles: the mention published is of the first. -/
theorem request_mentions_stale :
    (∃ (s t : TrackerState Unit Unit) (tr : List (TrackerState Unit Unit × TrackerLabel Unit Unit))
        (x : Selection Unit Unit),
      (trackerMachine Unit Unit).init s ∧ (trackerMachine Unit Unit).Run s tr t ∧
        t.handled = [(some x, none)] ∧ ¬MentionsLatest t) ∧
    (∃ (s t : TrackerState Unit Unit) (tr : List (TrackerState Unit Unit × TrackerLabel Unit Unit))
        (x y : Selection Unit Unit),
      (trackerMachine Unit Unit).init s ∧ (trackerMachine Unit Unit).Run s tr t ∧
        t.handled = [(some y, some (Mention.of x))] ∧ Mention.of x ≠ Mention.of y ∧
        mentionsOf t.bus.events.sent = [Mention.of x] ∧ ¬MentionsLatest t) := by
  constructor
  · have h : (trackerMachine Unit Unit).Run (TrackerState.new 8) _ _ :=
      Machine.run_of_exec [.update (onLine 1), .request] rfl
    refine ⟨_, _, _, onLine 1, ⟨8, rfl⟩, h, rfl, ?_⟩
    intro hlatest
    cases hlatest (some (onLine 1), none) List.mem_cons_self (onLine 1) rfl
  · have h : (trackerMachine Unit Unit).Run (TrackerState.new 8) _ _ :=
      Machine.run_of_exec [.update (onLine 1), .wake, .timerFires, .borrowAndUpdate, .compare,
        .replaceLatest, .send, .update (onLine 2), .request,
        .publishMention (Mention.of (onLine 1))] rfl
    refine ⟨_, _, _, onLine 1, onLine 2, ⟨8, rfl⟩, h, rfl, by decide, rfl, ?_⟩
    intro hlatest
    have hmention : some (Mention.of (onLine 1)) = some (Mention.of (onLine 2)) :=
      hlatest (some (onLine 2), some (Mention.of (onLine 1))) List.mem_cons_self (onLine 2) rfl
    exact absurd hmention (by decide)

end Connect
