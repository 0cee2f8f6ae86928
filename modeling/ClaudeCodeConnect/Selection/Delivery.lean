import ClaudeCodeConnect.Core.Machine
import ClaudeCodeConnect.Selection.EventBus
import Mathlib.Logic.Function.Basic

/-!
# From the bus to the connections

The event side of `handle_websocket_connection`: a connection subscribes, then replays the bus's
latest selection, then forwards what it receives.  The publisher of selections is the tracker task,
which takes `publish_selection` in its two steps; mentions are published by anyone.  Connections are
named by an arbitrary type, and may leave at any time.

A connection holds a clone of the bus, so the ring is never closed while it serves.

* `Conn.step` -- the connection's own steps, on its own state.
* `DeliveryState.step` -- the interleaving.
* `BusInv`, `Tracks` -- what the publisher keeps, and what a connection that lost nothing keeps:
  what it has sent and what it is yet to send end in the bus's latest selection.
* `tracks_step` -- one step, for a connection that does not lose anything in it.
* `replay_then_forward_misses_nothing` -- a connection that never lagged and is drained has sent the
  bus's latest selection last.
-/

namespace Connect

variable {Path Url : Type} {ι : Type}

/-- Where a connection stands with the bus. -/
inductive ConnPhase
  | unconnected
  /-- Subscribed, about to read `latest`. -/
  | subscribed
  /-- In the serving loop. -/
  | serving
  | closed
  deriving DecidableEq, Repr

/-- A connection: its place in the ring, and the frames it has sent. -/
structure Conn (Path Url : Type) where
  phase : ConnPhase
  next : ℕ
  frames : List (Event Path Url)
  laggedBefore : Bool

/-- What a connection does with the bus. -/
inductive ConnMove
  | subscribe
  | replay
  | receive
  | leave
  deriving DecidableEq, Repr

namespace Conn

/-- Not connected yet. -/
def new : Conn Path Url := ⟨.unconnected, 0, [], false⟩

/-- It holds a receiver. -/
def listening (c : Conn Path Url) : Prop := c.phase = .subscribed ∨ c.phase = .serving

instance (c : Conn Path Url) : Decidable c.listening := inferInstanceAs (Decidable (_ ∨ _))

/-- A step of the connection, on the bus as it is.  A receive that finds it behind only counts what
it missed. -/
def step (c : Conn Path Url) (bus : EventBus Path Url) : ConnMove → Option (Conn Path Url)
  | .subscribe =>
      match c.phase with
      | .unconnected => some { c with phase := .subscribed, next := bus.subscribe }
      | _ => none
  | .replay =>
      match c.phase with
      | .subscribed =>
          some { c with
            phase := .serving
            frames := c.frames ++ (bus.latest.map Event.selectionChanged).toList }
      | _ => none
  | .receive =>
      match c.phase, bus.events.recv c.next with
      | .serving, .event e next => some { c with next := next, frames := c.frames ++ [e] }
      | .serving, .lagged _ next => some { c with next := next, laggedBefore := true }
      | _, _ => none
  | .leave => some { c with phase := .closed }

end Conn

/-- The bus, the publisher and the connections. -/
structure DeliveryState (ι Path Url : Type) where
  bus : EventBus Path Url
  /-- A selection whose publication is between its two steps. -/
  inFlight : Option (Selection Path Url)
  conns : ι → Conn Path Url

/-- The steps: the two of a publication of a selection, that of a mention, and those of the
connections. -/
inductive DeliveryLabel (ι Path Url : Type)
  | replaceLatest (selection : Selection Path Url)
  | sendSelection
  | publishMention (mention : Mention Path)
  | conn (i : ι) (move : ConnMove)
  deriving DecidableEq, Repr

namespace DeliveryState

/-- An empty bus, and nobody connected. -/
def new (capacity : ℕ) : DeliveryState ι Path Url :=
  ⟨EventBus.new capacity, none, fun _ => Conn.new⟩

/-- The same, by the number of slots. -/
def ofSize (size : ℕ) (h : 0 < size) : DeliveryState ι Path Url :=
  ⟨⟨⟨size, h, []⟩, Watch.channel none⟩, none, fun _ => Conn.new⟩

lemma new_eq_ofSize (ι Path Url : Type) {capacity size : ℕ}
    (hsize : capacity.nextPowerOfTwo = size) (h : 0 < size) :
    (new capacity : DeliveryState ι Path Url) = ofSize size h := by
  subst hsize
  rfl

variable [DecidableEq ι]

/-- One step of the publisher, of whoever mentions, or of a connection. -/
def step (s : DeliveryState ι Path Url) :
    DeliveryLabel ι Path Url → Option (DeliveryState ι Path Url)
  | .replaceLatest x =>
      match s.inFlight with
      | none => some { s with bus := s.bus.replaceLatest x, inFlight := some x }
      | some _ => none
  | .sendSelection =>
      match s.inFlight with
      | some x => some { s with bus := s.bus.sendSelection x, inFlight := none }
      | none => none
  | .publishMention m => some { s with bus := s.bus.publishMention m }
  | .conn i move =>
      ((s.conns i).step s.bus move).map fun c =>
        { s with conns := Function.update s.conns i c }

end DeliveryState

/-- One publisher of selections, publishers of mentions, and connections, interleaved. -/
def deliveryMachine (ι Path Url : Type) [DecidableEq ι] :
    Machine (DeliveryState ι Path Url) (DeliveryLabel ι Path Url) where
  init s := ∃ capacity, s = DeliveryState.new capacity
  step := DeliveryState.step

/-! ## The publisher

`latest` is written before the event is sent, so between the two steps it is ahead of the ring. -/

/-- The event a step puts on the ring. -/
def DeliveryState.sends (s : DeliveryState ι Path Url) :
    DeliveryLabel ι Path Url → Option (Event Path Url)
  | .sendSelection => s.inFlight.map Event.selectionChanged
  | .publishMention m => some (.atMentioned m)
  | _ => none

/-- What `latest` has to do with the ring. -/
def BusInv (s : DeliveryState ι Path Url) : Prop :=
  match s.inFlight with
  | none => (selectionsOf s.bus.events.sent).getLast? = s.bus.latest
  | some x => s.bus.latest = some x

/-- A step either moves the bus and no connection, or one connection and not the bus. -/
lemma delivery_step_cases [DecidableEq ι] {s t : DeliveryState ι Path Url}
    {l : DeliveryLabel ι Path Url} (hl : s.step l = some t) :
    (∃ x, l = .replaceLatest x ∧ s.inFlight = none ∧
      t = { s with bus := s.bus.replaceLatest x, inFlight := some x }) ∨
    (∃ x, l = .sendSelection ∧ s.inFlight = some x ∧
      t = { s with bus := s.bus.sendSelection x, inFlight := none }) ∨
    (∃ m, l = .publishMention m ∧ t = { s with bus := s.bus.publishMention m }) ∨
    (∃ i move c, l = .conn i move ∧ (s.conns i).step s.bus move = some c ∧
      t = { s with conns := Function.update s.conns i c }) := by
  cases l with
  | replaceLatest x =>
      simp only [DeliveryState.step] at hl
      split at hl <;> cases hl
      exact Or.inl ⟨x, rfl, ‹_›, rfl⟩
  | sendSelection =>
      simp only [DeliveryState.step] at hl
      split at hl <;> cases hl
      exact Or.inr (Or.inl ⟨_, rfl, ‹_›, rfl⟩)
  | publishMention m =>
      cases hl
      exact Or.inr (Or.inr (Or.inl ⟨m, rfl, rfl⟩))
  | conn i move =>
      simp only [DeliveryState.step, Option.map_eq_some_iff] at hl
      obtain ⟨c, hc, rfl⟩ := hl
      exact Or.inr (Or.inr (Or.inr ⟨i, move, c, rfl, hc, rfl⟩))

lemma busInv_step [DecidableEq ι] {s t : DeliveryState ι Path Url} {l : DeliveryLabel ι Path Url}
    (h : BusInv s) (hl : s.step l = some t) : BusInv t := by
  rcases delivery_step_cases hl with
    ⟨x, -, -, rfl⟩ | ⟨x, -, hx, rfl⟩ | ⟨m, -, rfl⟩ | ⟨i, move, c, -, -, rfl⟩
  · rfl
  · simp only [BusInv, hx] at h
    simp [BusInv, h]
  · simpa [BusInv] using h
  · exact h

/-! ## The connections

Each keeps its own place in the ring.  That it subscribes before it replays is what loses nothing.
-/

section Steps

variable {c d : Conn Path Url} {bus : EventBus Path Url}

lemma conn_subscribe (h : c.step bus .subscribe = some d) :
    c.phase = .unconnected ∧ d = { c with phase := .subscribed, next := bus.subscribe } := by
  simp only [Conn.step] at h
  split at h <;> cases h
  exact ⟨‹_›, rfl⟩

lemma conn_replay (h : c.step bus .replay = some d) :
    c.phase = .subscribed ∧ d = { c with
      phase := .serving
      frames := c.frames ++ (bus.latest.map Event.selectionChanged).toList } := by
  simp only [Conn.step] at h
  split at h <;> cases h
  exact ⟨‹_›, rfl⟩

lemma conn_receive (h : c.step bus .receive = some d) :
    c.phase = .serving ∧
      ((∃ e, bus.events.sent[c.next]? = some e ∧ bus.events.oldest ≤ c.next ∧
          d = { c with next := c.next + 1, frames := c.frames ++ [e] }) ∨
        (c.next < bus.events.oldest ∧
          d = { c with next := bus.events.oldest, laggedBefore := true })) := by
  simp only [Conn.step] at h
  split at h
  case h_1 e next hphase hrecv =>
    cases h
    obtain ⟨hle, he, rfl⟩ := Ring.recv_eq_event hrecv
    exact ⟨hphase, Or.inl ⟨e, he, hle, rfl⟩⟩
  case h_2 n next hphase hrecv =>
    cases h
    obtain ⟨hlt, -, rfl⟩ := Ring.recv_eq_lagged hrecv
    exact ⟨hphase, Or.inr ⟨hlt, rfl⟩⟩
  case h_3 => cases h

/-- What the connection's own steps do. -/
lemma conn_step_cases {move : ConnMove} (h : c.step bus move = some d) :
    (c.phase = .unconnected ∧ move = .subscribe ∧
      d = { c with phase := .subscribed, next := bus.subscribe }) ∨
    (c.phase = .subscribed ∧ move = .replay ∧ d = { c with
      phase := .serving
      frames := c.frames ++ (bus.latest.map Event.selectionChanged).toList }) ∨
    (c.phase = .serving ∧ move = .receive ∧ ∃ e, bus.events.sent[c.next]? = some e ∧
      bus.events.oldest ≤ c.next ∧ d = { c with next := c.next + 1, frames := c.frames ++ [e] }) ∨
    (c.phase = .serving ∧ move = .receive ∧ c.next < bus.events.oldest ∧
      d = { c with next := bus.events.oldest, laggedBefore := true }) ∨
    (move = .leave ∧ d = { c with phase := .closed }) := by
  cases move with
  | subscribe =>
      obtain ⟨hphase, hd⟩ := conn_subscribe h
      exact Or.inl ⟨hphase, rfl, hd⟩
  | replay =>
      obtain ⟨hphase, hd⟩ := conn_replay h
      exact Or.inr (Or.inl ⟨hphase, rfl, hd⟩)
  | receive =>
      obtain ⟨hphase, hevent | hlag⟩ := conn_receive h
      · exact Or.inr (Or.inr (Or.inl ⟨hphase, rfl, hevent⟩))
      · exact Or.inr (Or.inr (Or.inr (Or.inl ⟨hphase, rfl, hlag⟩)))
  | leave =>
      cases h
      exact Or.inr (Or.inr (Or.inr (Or.inr ⟨rfl, rfl⟩)))

end Steps

/-- Where a connection stands against the bus: its place is on the ring, it sends nothing before the
replay, and nothing was skipped unless it says so. -/
structure ConnInv (bus : EventBus Path Url) (c : Conn Path Url) : Prop where
  next_le : c.next ≤ bus.events.sent.length
  frames_nil : c.phase = .subscribed ∨ c.phase = .unconnected → c.frames = []

/-- Nothing the client needs was lost: the frames sent and the events still to be received end in
the bus's latest selection. -/
def Tracks (s : DeliveryState ι Path Url) (c : Conn Path Url) : Prop :=
  c.phase = .serving → s.inFlight = none →
    (selectionsOf (c.frames ++ s.bus.events.unread c.next)).getLast? = s.bus.latest

lemma ConnInv.send {bus : EventBus Path Url} {c : Conn Path Url} (h : ConnInv bus c)
    {bus' : EventBus Path Url} {e : Event Path Url} (hbus : bus'.events = bus.events.send e) :
    ConnInv bus' c := by
  refine ⟨?_, h.frames_nil⟩
  have := h.next_le
  rw [hbus, Ring.send_sent, List.length_append]
  omega

lemma ConnInv.step {bus : EventBus Path Url} {c d : Conn Path Url} {move : ConnMove}
    (h : ConnInv bus c) (hd : c.step bus move = some d) : ConnInv bus d := by
  rcases conn_step_cases hd with
    ⟨hphase, -, rfl⟩ | ⟨-, -, rfl⟩ | ⟨hphase, -, e, he, -, rfl⟩ | ⟨hphase, -, -, rfl⟩ | ⟨-, rfl⟩
  · exact ⟨Nat.le_refl _, fun _ => h.frames_nil (Or.inr hphase)⟩
  · exact ⟨h.next_le, by simp⟩
  · obtain ⟨hlt, -⟩ := List.getElem?_eq_some_iff.mp he
    exact ⟨hlt, by simp [hphase]⟩
  · exact ⟨bus.events.oldest_le, by simp [hphase]⟩
  · exact ⟨h.next_le, by simp⟩

/-- The replay: whatever the connection has yet to receive, it ends in `latest` or does not touch
it. -/
lemma tracks_replay {s : DeliveryState ι Path Url} {c : Conn Path Url} (hbus : BusInv s)
    (hnil : c.frames = []) :
    Tracks s { c with
      phase := .serving
      frames := c.frames ++ (s.bus.latest.map Event.selectionChanged).toList } := by
  intro _ hnone
  simp only [BusInv, hnone] at hbus
  have hframes : (selectionsOf ((s.bus.latest.map Event.selectionChanged).toList)).getLast?
      = s.bus.latest := by
    cases s.bus.latest <;> rfl
  rw [← List.take_append_drop c.next s.bus.events.sent, selectionsOf_append,
    List.getLast?_append] at hbus
  simp only [hnil, List.nil_append, selectionsOf_append, List.getLast?_append, hframes]
  -- what was sent since it subscribed ends in `latest`, or holds no selection
  cases hlast : (selectionsOf (s.bus.events.unread c.next)).getLast? with
  | none => rfl
  | some y =>
      rw [Ring.unread] at hlast
      rw [hlast] at hbus
      exact hbus

/-- **One step of a connection.**  It keeps track, unless it lags and the events skipped end in a
selection nothing later replaces. -/
lemma tracks_conn_step {s : DeliveryState ι Path Url} {c d : Conn Path Url} {move : ConnMove}
    (hbus : BusInv s) (hinv : ConnInv s.bus c) (h : Tracks s c)
    (hlag : move = .receive → s.inFlight = none → c.next < s.bus.events.oldest →
      selectionsOf (s.bus.events.skipped c.next) = [] ∨ selectionsOf s.bus.events.retained ≠ [])
    (hd : c.step s.bus move = some d) : Tracks s d := by
  rcases conn_step_cases hd with
    ⟨-, -, rfl⟩ | ⟨hphase, -, rfl⟩ | ⟨hphase, -, e, he, -, rfl⟩ | ⟨hphase, hmove, hlt, rfl⟩ |
      ⟨-, rfl⟩
  · intro hserving
    cases hserving
  · exact tracks_replay hbus (hinv.frames_nil (Or.inl hphase))
  · intro _ hnone
    have hold := h hphase hnone
    rw [Ring.unread_event he] at hold
    simpa using hold
  · intro _ hnone
    have hold := h hphase hnone
    rw [Ring.unread_of_lt (Nat.le_of_lt hlt)] at hold
    simp only [selectionsOf_append, List.getLast?_append] at hold ⊢
    rw [← hold]
    show (selectionsOf s.bus.events.retained).getLast?.or _ = _
    rcases hlag hmove hnone hlt with hnil | hne
    · rw [hnil, List.getLast?_nil, Option.or_none]
    · rw [List.getLast?_eq_some_getLast hne, Option.some_or, Option.some_or, Option.some_or]
  · intro hserving
    cases hserving

variable [DecidableEq ι]

/-- **One step.**  Connection `i` keeps track through every step of the others and of the publisher,
and through its own unless it loses a selection. -/
lemma tracks_step {s t : DeliveryState ι Path Url} {l : DeliveryLabel ι Path Url} {i : ι}
    (hbus : BusInv s) (hinv : ConnInv s.bus (s.conns i)) (h : Tracks s (s.conns i))
    (hlag : l = .conn i .receive → s.inFlight = none → (s.conns i).next < s.bus.events.oldest →
      selectionsOf (s.bus.events.skipped (s.conns i).next) = [] ∨
        selectionsOf s.bus.events.retained ≠ [])
    (hl : s.step l = some t) : Tracks t (t.conns i) := by
  rcases delivery_step_cases hl with
    ⟨x, -, -, rfl⟩ | ⟨x, -, hx, rfl⟩ | ⟨m, -, rfl⟩ | ⟨j, move, c, rfl, hc, rfl⟩
  · intro _ hnone
    cases hnone
  · intro _ _
    simp only [BusInv, hx] at hbus
    simp [Ring.unread_send hinv.next_le, hbus]
  · intro hserving hnone
    have hold := h hserving hnone
    simpa [Ring.unread_send hinv.next_le] using hold
  · by_cases hij : i = j
    · subst hij
      have hstep := tracks_conn_step hbus hinv h (fun hmove => hlag (by rw [hmove])) hc
      simpa only [Tracks, Function.update_self] using hstep
    · simpa only [Tracks, Function.update_of_ne hij] using h

lemma connInv_step {s t : DeliveryState ι Path Url} {l : DeliveryLabel ι Path Url} {i : ι}
    (h : ConnInv s.bus (s.conns i)) (hl : s.step l = some t) : ConnInv t.bus (t.conns i) := by
  rcases delivery_step_cases hl with
    ⟨x, -, -, rfl⟩ | ⟨x, -, -, rfl⟩ | ⟨m, -, rfl⟩ | ⟨j, move, c, -, hc, rfl⟩
  · exact ⟨h.next_le, h.frames_nil⟩
  · exact h.send (EventBus.events_sendSelection s.bus x)
  · exact h.send (EventBus.events_publishMention s.bus m)
  · by_cases hij : i = j
    · subst hij
      simpa only [Function.update_self] using h.step hc
    · simpa only [Function.update_of_ne hij] using h

/-- A connection that has not lagged after a step had not before, and did not in it. -/
lemma laggedBefore_step {s t : DeliveryState ι Path Url} {l : DeliveryLabel ι Path Url} {i : ι}
    (h : (t.conns i).laggedBefore = false) (hl : s.step l = some t) :
    (s.conns i).laggedBefore = false ∧
      (l = .conn i .receive → ¬(s.conns i).next < s.bus.events.oldest) := by
  rcases delivery_step_cases hl with
    ⟨x, rfl, -, rfl⟩ | ⟨x, rfl, -, rfl⟩ | ⟨m, rfl, rfl⟩ | ⟨j, move, c, rfl, hc, rfl⟩
  · exact ⟨h, by simp⟩
  · exact ⟨h, by simp⟩
  · exact ⟨h, by simp⟩
  · by_cases hij : i = j
    · subst hij
      simp only [Function.update_self] at h
      rcases conn_step_cases hc with
        ⟨-, rfl, rfl⟩ | ⟨-, rfl, rfl⟩ | ⟨-, rfl, e, -, hle, rfl⟩ | ⟨-, -, -, rfl⟩ | ⟨rfl, rfl⟩
      · exact ⟨h, by simp⟩
      · exact ⟨h, by simp⟩
      · exact ⟨h, fun _ => Nat.not_lt_of_le hle⟩
      · cases h
      · exact ⟨h, by simp⟩
    · simp only [Function.update_of_ne hij] at h
      refine ⟨h, fun hl => absurd ?_ hij⟩
      cases hl
      rfl

/-! ## Drained connections

With everything forwarded and nothing in flight, what was tracked is what was sent. -/

/-- No publication is between its two steps, and the connection has forwarded everything. -/
def Drained (s : DeliveryState ι Path Url) (i : ι) : Prop :=
  s.inFlight = none ∧ (s.conns i).phase = .serving ∧
    (s.conns i).next = s.bus.events.sent.length

omit [DecidableEq ι] in
lemma Tracks.of_drained {s : DeliveryState ι Path Url} {i : ι} (h : Tracks s (s.conns i))
    (hd : Drained s i) : (selectionsOf (s.conns i).frames).getLast? = s.bus.latest := by
  obtain ⟨hnone, hphase, hnext⟩ := hd
  have hold := h hphase hnone
  rw [Ring.unread, hnext, List.drop_length, List.append_nil] at hold
  exact hold

/-- What a run keeps of the bus and of every connection. -/
def DeliveryInv (s : DeliveryState ι Path Url) : Prop :=
  BusInv s ∧ ∀ i, ConnInv s.bus (s.conns i)

omit [DecidableEq ι] in
lemma deliveryInv_new (capacity : ℕ) :
    DeliveryInv (DeliveryState.new capacity : DeliveryState ι Path Url) :=
  ⟨rfl, fun _ => ⟨Nat.le_refl 0, fun _ => rfl⟩⟩

lemma deliveryInv_step {s t : DeliveryState ι Path Url} {l : DeliveryLabel ι Path Url}
    (h : DeliveryInv s) (hl : s.step l = some t) : DeliveryInv t :=
  ⟨busInv_step h.1 hl, fun i => connInv_step (h.2 i) hl⟩

/-- **No selection is missed on connect.**  In every run, whenever no publication is in progress and
a connection that never lagged has forwarded everything sent to it, the last selection among its
frames is the bus's latest; if there is none, it has sent no selection. -/
theorem replay_then_forward_misses_nothing {s t : DeliveryState ι Path Url}
    {tr : List (DeliveryState ι Path Url × DeliveryLabel ι Path Url)}
    (hs : (deliveryMachine ι Path Url).init s) (h : (deliveryMachine ι Path Url).Run s tr t) (i : ι)
    (hlag : (t.conns i).laggedBefore = false) (hd : Drained t i) :
    (selectionsOf (t.conns i).frames).getLast? = t.bus.latest ∧
      (t.bus.latest = none → selectionsOf (t.conns i).frames = []) := by
  obtain ⟨capacity, rfl⟩ := hs
  have hinv := h.preserves
    (fun s => DeliveryInv s ∧ ((s.conns i).laggedBefore = false → Tracks s (s.conns i)))
    (fun _ _ => True)
    (fun s l t hi _ hl => by
      refine ⟨deliveryInv_step hi.1 hl, fun hfalse => ?_⟩
      obtain ⟨hbefore, hnot⟩ := laggedBefore_step hfalse hl
      exact tracks_step hi.1.1 (hi.1.2 i) (hi.2 hbefore)
        (fun hr _ hlt => absurd hlt (hnot hr)) hl)
    ⟨deliveryInv_new capacity, fun _ hserving => by cases hserving⟩ fun _ _ => trivial
  have hlast := (hinv.2 hlag).of_drained hd
  refine ⟨hlast, fun hnone => ?_⟩
  rw [hnone] at hlast
  exact List.getLast?_eq_none_iff.mp hlast

/-- A connection that subscribes in the middle of one publication and replays in the middle of the
next: it sends the second selection, then both in order. -/
def connectDuringPublish : List (DeliveryLabel Unit Unit Unit) :=
  [.replaceLatest (onLine 1), .conn () .subscribe, .sendSelection, .replaceLatest (onLine 2),
    .conn () .replay, .sendSelection, .conn () .receive, .conn () .receive]

theorem replay_then_forward_connectDuringPublish :
    ∃ (s t : DeliveryState Unit Unit Unit)
        (tr : List (DeliveryState Unit Unit Unit × DeliveryLabel Unit Unit Unit)),
      (deliveryMachine Unit Unit Unit).Run s tr t ∧ (t.conns ()).frames.length = 3 ∧
      (selectionsOf (t.conns ()).frames).getLast? = t.bus.latest := by
  have h : (deliveryMachine Unit Unit Unit).Run (DeliveryState.ofSize 8 (by decide)) _ _ :=
    Machine.run_of_exec connectDuringPublish rfl
  have hsize : Nat.nextPowerOfTwo 8 = 8 := by decide +kernel
  have hinit := DeliveryState.new_eq_ofSize Unit Unit Unit hsize
    (by decide)
  exact ⟨_, _, _, h, rfl,
    (replay_then_forward_misses_nothing ⟨8, hinit.symm⟩ h () rfl ⟨rfl, rfl, rfl⟩).1⟩

end Connect
