import ClaudeCodeConnect.Selection.Delivery
import Mathlib.Data.Fintype.Basic

/-!
# What lagging loses

A connection that falls behind has the events it missed reported as a number and goes on with the
oldest one left.  The source calls that harmless, on the ground that only the newest selection
matters.  Selections and mentions share the ring, though, and a mention replaces neither.

* `Harmless` -- what may be skipped: no mention, and a selection only in front of another one.
* `KeepsUnread` -- a send that overwrites nothing a listening connection still needs.
* `lagInv_step` -- under it, whatever was overwritten unread is harmless to skip.
* `lag_harmless` -- in a run of such sends every lag is harmless and every drained connection ends
  in the bus's latest selection; and any other send is followed by a lag that is not harmless.
* `lag_loses_mention`, `lag_loses_selection` -- for every capacity there are runs that lose a
  mention, and runs that lose the newest selection; `lag_loses_at_default` has both at the default
  capacity.
-/

namespace Connect

variable {Path Url : Type} {ι : Type}

/-! ## Harmless skips

Said of a list of events and of what comes after it. -/

/-- Skipping these events, with those still to come, loses nothing a client needs. -/
def Harmless (skipped later : List (Event Path Url)) : Prop :=
  mentionsOf skipped = [] ∧ (selectionsOf skipped ≠ [] → selectionsOf later ≠ [])

instance (skipped later : List (Event Path Url)) : Decidable (Harmless skipped later) :=
  inferInstanceAs (Decidable (_ ∧ (_ → _)))

lemma harmless_nil (later : List (Event Path Url)) : Harmless [] later :=
  ⟨rfl, fun h => absurd rfl h⟩

/-- Only whether a selection is still to come counts. -/
lemma Harmless.of_later {skipped later later' : List (Event Path Url)} (h : Harmless skipped later)
    (hlater : selectionsOf later ≠ [] → selectionsOf later' ≠ []) : Harmless skipped later' :=
  ⟨h.1, fun hne => hlater (h.2 hne)⟩

lemma selectionsOf_insert_ne_nil {es fs : List (Event Path Url)} (mid : List (Event Path Url))
    (h : selectionsOf (es ++ fs) ≠ []) : selectionsOf (es ++ mid ++ fs) ≠ [] := by
  simp only [selectionsOf_append, ne_eq, List.append_eq_nil_iff, not_and] at h ⊢
  exact fun hnil => h hnil.1

lemma selectionsOf_append_ne_nil {es : List (Event Path Url)} (h : selectionsOf es ≠ [])
    (fs : List (Event Path Url)) : selectionsOf (es ++ fs) ≠ [] := by
  rw [selectionsOf_append]
  exact List.append_ne_nil_of_left_ne_nil h _

lemma selectionsOf_retained_send (ring : Ring (Event Path Url)) (x : Selection Path Url) :
    selectionsOf (ring.send (.selectionChanged x)).retained ≠ [] := by
  rw [Ring.retained_send, selectionsOf_append]
  exact List.append_ne_nil_of_right_ne_nil _ (List.cons_ne_nil x [])

/-- One more event is skipped. -/
lemma Harmless.snoc {skipped later : List (Event Path Url)} {b : Event Path Url}
    (h : Harmless skipped (b :: later)) (hb : Harmless [b] later) :
    Harmless (skipped ++ [b]) later := by
  refine ⟨by rw [mentionsOf_append, h.1, hb.1, List.append_nil], fun hne => ?_⟩
  by_cases hsel : selectionsOf [b] = []
  · have hskipped : selectionsOf skipped ≠ [] := by
      intro hnil
      rw [selectionsOf_append, hnil, hsel] at hne
      exact hne rfl
    have hlater := h.2 hskipped
    rw [← List.singleton_append, selectionsOf_append, hsel] at hlater
    exact hlater
  · exact hb.2 hsel

lemma Harmless.last {skipped later : List (Event Path Url)} {b : Event Path Url}
    (h : Harmless (skipped ++ [b]) later) : Harmless [b] later := by
  obtain ⟨hmentions, hselections⟩ := h
  rw [mentionsOf_append, List.append_eq_nil_iff] at hmentions
  refine ⟨hmentions.2, fun hne => hselections ?_⟩
  rw [selectionsOf_append]
  exact List.append_ne_nil_of_right_ne_nil _ hne

/-! ## Lagging

Every send that overwrites moves one event from what the ring retains to what a slow connection will
skip.  If each such event was harmless to lose, so is all that is skipped. -/

/-- The selection whose publication is in progress: `latest` has it and the ring is about to. -/
def DeliveryState.pending (s : DeliveryState ι Path Url) : List (Event Path Url) :=
  (s.inFlight.map Event.selectionChanged).toList

/-- The next receive of this connection takes the `Lagged` branch. -/
def LagsAt (s : DeliveryState ι Path Url) (i : ι) : Prop :=
  (s.conns i).phase = .serving ∧ (s.conns i).next < s.bus.events.oldest

/-- ... and what it skips is harmless: still to come is what the ring retains, and the selection
about to be sent. -/
def HarmlessAt (s : DeliveryState ι Path Url) (i : ι) : Prop :=
  Harmless (s.bus.events.skipped (s.conns i).next) (s.bus.events.retained ++ s.pending)

/-- If the step sends an event and overwrites one that a listening connection has not received, the
overwritten event is no mention, and if it is a selection there is a later one on the ring, be it
the event just sent, or one whose publication is in progress. -/
def KeepsUnread (s : DeliveryState ι Path Url) (l : DeliveryLabel ι Path Url) : Prop :=
  ∀ e ∈ s.sends l, ∀ b ∈ s.bus.events.overwritten,
    ∀ i, (s.conns i).listening → (s.conns i).next ≤ s.bus.events.oldest →
      Harmless [b] ((s.bus.events.send e).retained ++ s.pending)

instance [Fintype ι] (s : DeliveryState ι Path Url) (l : DeliveryLabel ι Path Url) :
    Decidable (KeepsUnread s l) :=
  inferInstanceAs (Decidable (∀ e ∈ s.sends l, ∀ b ∈ s.bus.events.overwritten,
    ∀ i, (s.conns i).listening → _ → Harmless [b] (_ ++ _)))

/-- Whatever a listening connection would skip now is harmless. -/
def LagInv (s : DeliveryState ι Path Url) : Prop :=
  ∀ i, (s.conns i).listening → HarmlessAt s i

/-- A send that keeps what is unread. -/
lemma harmless_send {ring : Ring (Event Path Url)} {e : Event Path Url} {next : ℕ}
    {pending : List (Event Path Url)} (h : Harmless (ring.skipped next) (ring.retained ++ pending))
    (hkeep : ∀ b, ring.overwritten = some b → next ≤ ring.oldest →
      Harmless [b] ((ring.send e).retained ++ pending)) :
    Harmless ((ring.send e).skipped next) ((ring.send e).retained ++ pending) := by
  cases hover : ring.overwritten with
  | none =>
      obtain ⟨hskipped, hretained⟩ := Ring.skipped_send_of_free hover e next
      rw [hskipped, hretained]
      exact h.of_later (selectionsOf_insert_ne_nil [e])
  | some b =>
      by_cases hnext : next ≤ ring.oldest
      · obtain ⟨hskipped, hretained⟩ := Ring.skipped_send_of_overwritten hover e hnext
        rw [hskipped]
        refine Harmless.snoc ?_ (hkeep b hover hnext)
        rw [← List.cons_append, ← hretained]
        exact h.of_later (selectionsOf_insert_ne_nil [e])
      · have hold := (Ring.oldest_send_of_overwritten hover e).1
        rw [Ring.skipped_of_le (by omega)]
        exact harmless_nil _

/-- A connection that has just moved skips nothing more than it did. -/
lemma harmless_conn_step {bus : EventBus Path Url} {c d : Conn Path Url} {move : ConnMove}
    {later : List (Event Path Url)}
    (h : c.listening → Harmless (bus.events.skipped c.next) later)
    (hd : c.step bus move = some d) (hlisten : d.listening) :
    Harmless (bus.events.skipped d.next) later := by
  rcases conn_step_cases hd with
    ⟨-, -, rfl⟩ | ⟨hphase, -, rfl⟩ | ⟨-, -, e, -, hle, rfl⟩ | ⟨-, -, -, rfl⟩ | ⟨-, rfl⟩
  · have hnil : bus.events.skipped bus.subscribe = [] := Ring.skipped_of_le bus.events.oldest_le
    simpa only [hnil] using harmless_nil _
  · exact h (Or.inl hphase)
  · rw [Ring.skipped_of_le (Nat.le_succ_of_le hle)]
    exact harmless_nil _
  · rw [Ring.skipped_of_le (Nat.le_refl _)]
    exact harmless_nil _
  · rcases hlisten with hphase | hphase <;> cases hphase

variable [DecidableEq ι]

/-- **One step.** -/
lemma lagInv_step {s t : DeliveryState ι Path Url} {l : DeliveryLabel ι Path Url} (h : LagInv s)
    (hkeep : KeepsUnread s l) (hl : s.step l = some t) : LagInv t := by
  intro i hlisten
  rcases delivery_step_cases hl with
    ⟨x, -, hnone, rfl⟩ | ⟨x, rfl, hx, rfl⟩ | ⟨m, rfl, rfl⟩ | ⟨j, move, c, -, hc, rfl⟩
  · refine (h i hlisten).of_later fun hne => ?_
    simp only [DeliveryState.pending, hnone, Option.map_none, Option.toList_none,
      List.append_nil] at hne
    exact selectionsOf_append_ne_nil hne _
  · have hsent := harmless_send (h i hlisten) fun b hb hnext =>
      hkeep (.selectionChanged x) (by simp [DeliveryState.sends, hx]) b hb i hlisten hnext
    -- what was pending is on the ring now
    exact hsent.of_later fun _ =>
      selectionsOf_append_ne_nil (selectionsOf_retained_send s.bus.events x) _
  · exact harmless_send (h i hlisten) fun b hb hnext => hkeep _ rfl b hb i hlisten hnext
  · by_cases hij : i = j
    · subst hij
      simp only [Function.update_self] at hlisten
      have hstep := harmless_conn_step (h i) hc hlisten
      simpa only [HarmlessAt, DeliveryState.pending, Function.update_self] using hstep
    · simp only [Function.update_of_ne hij] at hlisten
      simpa only [HarmlessAt, DeliveryState.pending, Function.update_of_ne hij] using h i hlisten

/-- A send that does not keep what is unread: the connection it fails can lag at once, and the lag
is not harmless. -/
lemma lags_after_send {s t : DeliveryState ι Path Url} {l : DeliveryLabel ι Path Url}
    (hl : s.step l = some t) (hkeep : ¬KeepsUnread s l) :
    ∃ i tr u, (deliveryMachine ι Path Url).Run t tr u ∧ LagsAt u i ∧ ¬HarmlessAt u i := by
  simp only [KeepsUnread, not_forall] at hkeep
  obtain ⟨e, he, b, hb, i, hlisten, hnext, hharm⟩ := hkeep
  have hevents : t.bus.events = s.bus.events.send e ∧ t.conns = s.conns ∧
      (selectionsOf t.pending ≠ [] → selectionsOf s.pending ≠ []) := by
    rcases delivery_step_cases hl with
      ⟨x, rfl, -, rfl⟩ | ⟨x, rfl, hx, rfl⟩ | ⟨m, rfl, rfl⟩ | ⟨j, move, c, rfl, -, rfl⟩
    · cases he
    · simp only [DeliveryState.sends, hx, Option.map_some] at he
      cases he
      exact ⟨rfl, rfl, fun hne => absurd rfl hne⟩
    · cases he
      exact ⟨rfl, rfl, fun hne => hne⟩
    · cases he
  obtain ⟨hevents, hconns, hpending⟩ := hevents
  have hold := (Ring.oldest_send_of_overwritten hb e).1
  have hlags : (s.conns i).next < t.bus.events.oldest := by
    rw [hevents, hold]
    omega
  have hharmful :
      ¬Harmless (t.bus.events.skipped (s.conns i).next) (t.bus.events.retained ++ t.pending) := by
    rw [hevents, (Ring.skipped_send_of_overwritten hb e hnext).1]
    refine fun h => hharm (h.last.of_later fun hne => ?_)
    simp only [selectionsOf_append, ne_eq, List.append_eq_nil_iff, not_and] at hne ⊢
    exact fun hnil => hpending (hne hnil)
  rcases hlisten with hphase | hphase
  -- it has yet to replay, and lags after that
  · have hreplay : (deliveryMachine ι Path Url).step t (.conn i .replay) = some { t with
        conns := Function.update t.conns i { s.conns i with
          phase := .serving
          frames := (s.conns i).frames ++ (t.bus.latest.map Event.selectionChanged).toList } } := by
      simp only [deliveryMachine, DeliveryState.step, hconns, Conn.step, hphase, Option.map_some]
    refine ⟨i, _, _, Machine.Run.snoc Machine.Run.nil hreplay, ?_, ?_⟩
    · simpa only [LagsAt, Function.update_self, true_and] using hlags
    · simpa only [HarmlessAt, DeliveryState.pending, Function.update_self] using hharmful
  · refine ⟨i, _, t, Machine.Run.nil, ?_, ?_⟩
    · rw [LagsAt, hconns]
      exact ⟨hphase, hlags⟩
    · rw [HarmlessAt, hconns]
      exact hharmful

/-- **When lag is harmless.**  In a run in which every send keeps what is unread, whenever a
connection lags the events skipped hold no mention, and if they hold a selection a later one is
still to be delivered; and whenever no publication is in progress and a connection has drained the
ring, its last selection frame is the bus's latest.  After any other send, some connection lags next
and loses a mention, or a selection that nothing on the ring or in flight replaces. -/
theorem lag_harmless {s t : DeliveryState ι Path Url}
    {tr : List (DeliveryState ι Path Url × DeliveryLabel ι Path Url)}
    (hs : (deliveryMachine ι Path Url).init s) (h : (deliveryMachine ι Path Url).Run s tr t) :
    ((∀ p ∈ tr, KeepsUnread p.1 p.2) →
      (∀ p ∈ tr, ∀ i, p.2 = .conn i .receive → LagsAt p.1 i → HarmlessAt p.1 i) ∧
      (∀ i, LagsAt t i → HarmlessAt t i) ∧
      ∀ i, Drained t i → (selectionsOf (t.conns i).frames).getLast? = t.bus.latest) ∧
    ∀ l t', t.step l = some t' → ¬KeepsUnread t l →
      ∃ i tr' u, (deliveryMachine ι Path Url).Run t' tr' u ∧ LagsAt u i ∧ ¬HarmlessAt u i := by
  obtain ⟨capacity, rfl⟩ := hs
  have hstep : ∀ (s : DeliveryState ι Path Url) l t,
      DeliveryInv s ∧ LagInv s ∧ (∀ i, Tracks s (s.conns i)) → KeepsUnread s l →
      s.step l = some t → DeliveryInv t ∧ LagInv t ∧ ∀ i, Tracks t (t.conns i) := by
    rintro s l t ⟨hinv, hlag, htracks⟩ hkeep hl
    refine ⟨deliveryInv_step hinv hl, lagInv_step hlag hkeep hl, fun i => ?_⟩
    refine tracks_step hinv.1 (hinv.2 i) (htracks i) (fun hrecv hnone hlt => ?_) hl
    -- a receive that lags is of a serving connection, so what it skips is harmless
    have hserving : (s.conns i).phase = .serving := by
      subst hrecv
      simp only [DeliveryState.step, Option.map_eq_some_iff] at hl
      obtain ⟨c, hc, -⟩ := hl
      exact (conn_receive hc).1
    by_cases hnil : selectionsOf (s.bus.events.skipped (s.conns i).next) = []
    · exact Or.inl hnil
    · have hlater := (hlag i (Or.inr hserving)).2 hnil
      simp only [DeliveryState.pending, hnone, Option.map_none, Option.toList_none,
        List.append_nil] at hlater
      exact Or.inr hlater
  have hinit : DeliveryInv (DeliveryState.new capacity : DeliveryState ι Path Url) ∧
      LagInv (DeliveryState.new capacity : DeliveryState ι Path Url) ∧
      ∀ _ : ι, Tracks (DeliveryState.new capacity : DeliveryState ι Path Url) Conn.new := by
    refine ⟨deliveryInv_new capacity, ?_, fun _ hserving => by cases hserving⟩
    rintro i (hphase | hphase) <;> cases hphase
  constructor
  · intro hkeep
    have hend := h.preserves _ _ hstep hinit hkeep
    have hbefore := h.preserves_before _ _ hstep hinit hkeep
    refine ⟨?_, fun i hlags => hend.2.1 i (Or.inr hlags.1), fun i hd => (hend.2.2 i).of_drained hd⟩
    intro p hp i _ hlags
    exact (hbefore p hp).2.1 i (Or.inr hlags.1)
  · intro l t' hl hnot
    exact lags_after_send hl hnot

/-- One slot, and a client that reads nothing between two selections: it lags past the first. -/
def lagBetweenSelections : List (DeliveryLabel Unit Unit Unit) :=
  [.conn () .subscribe, .conn () .replay, .replaceLatest (onLine 1), .sendSelection,
    .replaceLatest (onLine 2), .sendSelection, .conn () .receive, .conn () .receive]

theorem lag_harmless_between_selections :
    ∃ (s t : DeliveryState Unit Unit Unit)
        (tr : List (DeliveryState Unit Unit Unit × DeliveryLabel Unit Unit Unit)),
      (deliveryMachine Unit Unit Unit).Run s tr t ∧ (t.conns ()).laggedBefore = true ∧
        (selectionsOf (t.conns ()).frames).getLast? = t.bus.latest := by
  have h : (deliveryMachine Unit Unit Unit).Run (DeliveryState.ofSize 1 (by decide)) _ _ :=
    Machine.run_of_exec lagBetweenSelections rfl
  have hsize : Nat.nextPowerOfTwo 1 = 1 := by decide +kernel
  have hinit := DeliveryState.new_eq_ofSize Unit Unit Unit hsize
    (by decide)
  have hmain := (lag_harmless ⟨1, hinit.symm⟩ h).1 (by decide)
  exact ⟨_, _, _, h, rfl, hmain.2.2 () ⟨rfl, rfl, rfl⟩⟩

/-! ## Runs that lose something

For every capacity, and at the default one. -/

/-- `DEFAULT_EVENT_CAPACITY`. -/
def defaultEventCapacity : ℕ := 100

/-- The state after a number of equal mentions. -/
def DeliveryState.flooded (s : DeliveryState ι Path Url) (m : Mention Path) (n : ℕ) :
    DeliveryState ι Path Url :=
  { s with bus := { s.bus with events := { s.bus.events with
      sent := s.bus.events.sent ++ List.replicate n (.atMentioned m) } } }

lemma run_flood (s : DeliveryState ι Path Url) (m : Mention Path) (n : ℕ) :
    ∃ tr, (deliveryMachine ι Path Url).Run s tr (s.flooded m n) := by
  induction n with
  | zero =>
      have hzero : s.flooded m 0 = s := by simp [DeliveryState.flooded]
      exact ⟨[], by rw [hzero]; exact Machine.Run.nil⟩
  | succ n ih =>
      obtain ⟨tr, h⟩ := ih
      refine ⟨_, Machine.Run.snoc (l := .publishMention m) h ?_⟩
      simp [deliveryMachine, DeliveryState.step, DeliveryState.flooded, EventBus.publishMention,
        Ring.send, List.replicate_succ']

lemma run_publish {s : DeliveryState ι Path Url} (hflight : s.inFlight = none)
    (x : Selection Path Url) :
    ∃ tr, (deliveryMachine ι Path Url).Run s tr { s with bus := s.bus.publishSelection x } := by
  refine ⟨_, Machine.Run.snoc (l := .sendSelection)
    (Machine.Run.snoc (l := .replaceLatest x) Machine.Run.nil
      (t := s) (u := { s with bus := s.bus.replaceLatest x, inFlight := some x }) ?_) ?_⟩
  · simp only [deliveryMachine, DeliveryState.step, hflight]
  · simp only [deliveryMachine, DeliveryState.step, EventBus.publishSelection, hflight]

/-- A serving connection that has not fallen behind can forward everything there is. -/
lemma run_drain {s : DeliveryState ι Path Url} {i : ι} (hserving : (s.conns i).phase = .serving)
    (hle : s.bus.events.oldest ≤ (s.conns i).next)
    (hlen : (s.conns i).next ≤ s.bus.events.sent.length) :
    ∃ tr u, (deliveryMachine ι Path Url).Run s tr u ∧ u.bus = s.bus ∧ u.inFlight = s.inFlight ∧
      (u.conns i).phase = .serving ∧ (u.conns i).next = s.bus.events.sent.length ∧
      (u.conns i).frames = (s.conns i).frames ++ s.bus.events.unread (s.conns i).next := by
  obtain ⟨k, hk⟩ := Nat.exists_eq_add_of_le hlen
  induction k generalizing s with
  | zero =>
      refine ⟨[], s, Machine.Run.nil, rfl, rfl, hserving, by omega, ?_⟩
      rw [Ring.unread, List.drop_eq_nil_of_le (by omega), List.append_nil]
  | succ k ih =>
      obtain ⟨e, he⟩ : ∃ e, s.bus.events.sent[(s.conns i).next]? = some e :=
        ⟨_, List.getElem?_eq_getElem (by omega)⟩
      have hrecv : s.bus.events.recv (s.conns i).next = .event e ((s.conns i).next + 1) := by
        rw [Ring.recv, if_neg (Nat.not_lt_of_le hle), he]
      have hstep : (deliveryMachine ι Path Url).step s (.conn i .receive) = some { s with
          conns := Function.update s.conns i { s.conns i with
            next := (s.conns i).next + 1
            frames := (s.conns i).frames ++ [e] } } := by
        simp only [deliveryMachine, DeliveryState.step, Conn.step, hserving, hrecv, Option.map_some]
      have ih := ih (s := { s with
          conns := Function.update s.conns i { s.conns i with
            next := (s.conns i).next + 1
            frames := (s.conns i).frames ++ [e] } })
      simp only [Function.update_self] at ih
      obtain ⟨tr, u, hrun, hbus, hflight, hphase, hnext, hframes⟩ :=
        ih hserving (by omega) (by omega) (by omega)
      refine ⟨_, u, Machine.Run.cons hstep hrun, hbus, hflight, hphase, hnext, ?_⟩
      rw [hframes, Ring.unread_event he, List.append_assoc, List.singleton_append]

omit [DecidableEq ι] in
lemma selectionsOf_mentions (m : Mention Path) (n : ℕ) :
    selectionsOf (List.replicate n (.atMentioned m : Event Path Url)) = [] := by
  induction n with
  | zero => rfl
  | succ n ih => simp [List.replicate_succ, ih]

/-- A connection that has read nothing, the bus still empty. -/
lemma run_connect (capacity : ℕ) :
    ∃ (tr : List (DeliveryState Unit Unit Unit × DeliveryLabel Unit Unit Unit))
        (t : DeliveryState Unit Unit Unit),
      (deliveryMachine Unit Unit Unit).Run (DeliveryState.new capacity) tr t ∧
        t.bus = EventBus.new capacity ∧ t.inFlight = none ∧ t.conns () = ⟨.serving, 0, [], false⟩ :=
  ⟨_, _, Machine.run_of_exec [.conn () .subscribe, .conn () .replay] rfl, rfl, rfl, rfl⟩

/-- For every capacity: one mention more than there are slots, and a connection that has read none
of them loses the first. -/
lemma lag_loses_mention (capacity : ℕ) :
    ∃ (t : DeliveryState Unit Unit Unit)
        (tr : List (DeliveryState Unit Unit Unit × DeliveryLabel Unit Unit Unit)),
      (deliveryMachine Unit Unit Unit).Run (DeliveryState.new capacity) tr t ∧ LagsAt t () ∧
        mentionsOf (t.bus.events.skipped (t.conns ()).next) ≠ [] := by
  obtain ⟨tr, t, hconnect, hbus, -, hconn⟩ := run_connect capacity
  obtain ⟨tr', hflood⟩ := run_flood t wholeFile (capacity.nextPowerOfTwo + 1)
  have hsent : (t.flooded wholeFile (capacity.nextPowerOfTwo + 1)).bus.events.sent
      = .atMentioned wholeFile ::
        List.replicate capacity.nextPowerOfTwo (.atMentioned wholeFile) := by
    simp [DeliveryState.flooded, hbus, EventBus.new, Ring.channel, List.replicate_succ]
  have hold : (t.flooded wholeFile (capacity.nextPowerOfTwo + 1)).bus.events.oldest = 1 := by
    rw [Ring.oldest, hsent]
    simp [DeliveryState.flooded, hbus, EventBus.new, Ring.channel]
  have hnext : ((t.flooded wholeFile (capacity.nextPowerOfTwo + 1)).conns ()).next = 0 := by
    simp [DeliveryState.flooded, hconn]
  refine ⟨_, _, hconnect.trans hflood, ⟨?_, by rw [hold, hnext]; decide⟩, ?_⟩
  · simp [DeliveryState.flooded, hconn]
  · rw [Ring.skipped, hold, hnext, hsent]
    simp

/-- For every capacity: a selection, and as many mentions as there are slots.  A connection that has
read none of them loses the selection, and having drained the ring has sent none. -/
lemma lag_loses_selection (capacity : ℕ) :
    ∃ (t : DeliveryState Unit Unit Unit)
        (tr : List (DeliveryState Unit Unit Unit × DeliveryLabel Unit Unit Unit)),
      (deliveryMachine Unit Unit Unit).Run (DeliveryState.new capacity) tr t ∧ Drained t () ∧
        t.bus.latest ≠ none ∧ selectionsOf (t.conns ()).frames = [] := by
  obtain ⟨tr, t, hconnect, hbus, hflight, hconn⟩ := run_connect capacity
  obtain ⟨trp, hpublish⟩ := run_publish hflight (onLine 1)
  obtain ⟨tr', hflood⟩ := run_flood { t with bus := t.bus.publishSelection (onLine 1) } wholeFile
    capacity.nextPowerOfTwo
  set u := DeliveryState.flooded { t with bus := t.bus.publishSelection (onLine 1) } wholeFile
    capacity.nextPowerOfTwo with hu
  have hsent : u.bus.events.sent
      = .selectionChanged (onLine 1) ::
        List.replicate capacity.nextPowerOfTwo (.atMentioned wholeFile) := by
    simp [hu, DeliveryState.flooded, hbus, EventBus.new, Ring.channel, EventBus.publishSelection]
  have hold : u.bus.events.oldest = 1 := by
    rw [Ring.oldest, hsent]
    simp [hu, DeliveryState.flooded, hbus, EventBus.new, Ring.channel, EventBus.publishSelection,
      EventBus.sendSelection, EventBus.replaceLatest, Ring.send]
  have hconn' : u.conns () = ⟨.serving, 0, [], false⟩ := hconn
  have hlagged : (deliveryMachine Unit Unit Unit).step u (.conn () .receive)
      = some { u with conns := Function.update u.conns () ⟨.serving, 1, [], true⟩ } := by
    simp [deliveryMachine, DeliveryState.step, Conn.step, hconn', Ring.recv, hold]
  obtain ⟨tr'', v, hdrain, hvbus, hvflight, hvphase, hvnext, hvframes⟩ :=
    run_drain (s := { u with conns := Function.update u.conns () ⟨.serving, 1, [], true⟩ })
      (i := ()) rfl (Nat.le_of_eq hold) (by simp [hsent])
  refine ⟨v, _, (hconnect.trans (hpublish.trans (hflood.trans (.snoc .nil hlagged)))).trans hdrain,
    ⟨hvflight.trans hflight, hvphase, ?_⟩, ?_, ?_⟩
  · rw [hvnext, hvbus]
  · rw [hvbus]
    simp [hu, DeliveryState.flooded, EventBus.latest, EventBus.publishSelection,
      EventBus.sendSelection, EventBus.replaceLatest]
  · rw [hvframes]
    simp only [Function.update_self, List.nil_append, Ring.unread, hsent, List.drop_one,
      List.tail_cons]
    exact selectionsOf_mentions wholeFile _

/-- **At the default capacity.**  One run in which a client lags past a mention, and one in which it
has drained the ring without ever having been sent the latest selection. -/
theorem lag_loses_at_default :
    (∃ (t : DeliveryState Unit Unit Unit)
        (tr : List (DeliveryState Unit Unit Unit × DeliveryLabel Unit Unit Unit)),
      (deliveryMachine Unit Unit Unit).Run (DeliveryState.new defaultEventCapacity) tr t ∧
        LagsAt t () ∧ ¬HarmlessAt t ()) ∧
    ∃ (t : DeliveryState Unit Unit Unit)
        (tr : List (DeliveryState Unit Unit Unit × DeliveryLabel Unit Unit Unit)),
      (deliveryMachine Unit Unit Unit).Run (DeliveryState.new defaultEventCapacity) tr t ∧
        Drained t () ∧ (selectionsOf (t.conns ()).frames).getLast? ≠ t.bus.latest := by
  obtain ⟨t, tr, h, hlags, hlost⟩ := lag_loses_mention defaultEventCapacity
  obtain ⟨u, tr', h', hd, hsome, hnone⟩ := lag_loses_selection defaultEventCapacity
  refine ⟨⟨t, tr, h, hlags, fun hharm => hlost hharm.1⟩, u, tr', h', hd, ?_⟩
  rw [hnone]
  exact hsome.symm

end Connect
