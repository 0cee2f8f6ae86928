import ClaudeCodeConnect.Mcp.WireResponses
import ClaudeCodeConnect.System.Parts

/-!
# One client over a whole session

What a client is sent, from its upgrade to its end, whatever the others and the bus do meanwhile.

* `Client.pushed`, `Client.responses`, `Client.seen` -- the events and the responses it was sent,
  and what it can read in the text frames.
* `Pushes` -- the events are those its connection forwards.
* `Answered` -- the responses are those its messages draw, in order.
* `Orderly` -- a client that was not let in is told so at most, and nothing follows a close frame.
* `sessions_are_orderly`, `responses_answer_messages` -- both, in every run.
-/

namespace Connect

variable {ι Path Url Time : Type}

/-! ## What a client was sent

The frames, by kind: events, responses, and the rest. -/

/-- The event that is pushed. -/
def Outgoing.event? : Outgoing Path Url → Option (Event Path Url)
  | .push e => some e
  | _ => none

/-- The response that is sent. -/
def Outgoing.response? : Outgoing Path Url → Option MCPResponse
  | .response r => some r
  | _ => none

/-- The text of a text frame. -/
def Outgoing.text? (w : WireLibs Path Url) : Outgoing Path Url → Option Text
  | .push e => some (notificationFor w e).print
  | .response r => some r.print
  | .close _ _ | .library _ => none

namespace Client

/-- The events pushed to the client, in order. -/
def pushed (c : Client Path Url) : List (Event Path Url) := c.sent.filterMap Outgoing.event?

/-- The responses sent to the client, in order. -/
def responses (c : Client Path Url) : List MCPResponse := c.sent.filterMap Outgoing.response?

/-- What the client can read in the text frames it got. -/
def seen (w : WireLibs Path Url) (c : Client Path Url) : List Seen :=
  (c.sent.filterMap (Outgoing.text? w)).filterMap seenIn

end Client

section Lists

variable (frames : List (Outgoing Path Url))

@[simp] lemma pushed_responses (rs : List MCPResponse) :
    (rs.map Outgoing.response : List (Outgoing Path Url)).filterMap Outgoing.event? = [] := by
  induction rs with
  | nil => rfl
  | cons r rs ih => exact ih

@[simp] lemma responses_responses (rs : List MCPResponse) :
    (rs.map Outgoing.response : List (Outgoing Path Url)).filterMap Outgoing.response? = rs := by
  induction rs with
  | nil => rfl
  | cons r rs ih => exact congrArg (r :: ·) ih

/-- What is read in the text frames is what was pushed: responses say nothing of the kind. -/
lemma seen_frames (w : WireLibs Path Url)
    (h : ∀ r ∈ frames.filterMap Outgoing.response?, r.Writable) :
    (frames.filterMap (Outgoing.text? w)).filterMap seenIn
      = (frames.filterMap Outgoing.event?).map (Seen.ofEvent w) := by
  induction frames with
  | nil => rfl
  | cons f frames ih =>
      cases f with
      | push e =>
          have hseen : seenIn (notificationFor w e).print = some (Seen.ofEvent w e) := by
            rw [seenIn, ofText_print (writable_notificationFor w e)]
            exact readSeen_notificationFor w e
          simp only [List.filterMap_cons, Outgoing.text?, Outgoing.event?, hseen, List.map_cons]
          exact congrArg _ (ih h)
      | response r =>
          have hseen : seenIn r.print = none := (h r (by simp [Outgoing.response?])).seenIn
          simp only [List.filterMap_cons, Outgoing.text?, Outgoing.event?, hseen]
          exact ih fun r hr => h r (by simp_all [Outgoing.response?])
      | close code reason => exact ih h
      | library frame => exact ih h

end Lists

/-! ## What is pushed is what the connection forwards

A write that fails loses one frame, and then the connection is left. -/

/-- The events pushed are among those forwarded, and all of them if no write failed. -/
structure Pushes (c : Client Path Url) : Prop where
  sublist : c.pushed.Sublist c.conn.frames
  all : c.writeFailed = false → c.pushed = c.conn.frames

section Push

variable {env : Env Path Url} {bus : EventBus Path Url} {cancelled : Bool}

lemma frames_subscribe {c d : Conn Path Url} (h : c.step bus .subscribe = some d) :
    d.frames = c.frames := by
  obtain ⟨-, rfl⟩ := conn_subscribe h
  rfl

lemma frames_replay {c d : Conn Path Url} (h : c.step bus .replay = some d) :
    d.frames = c.frames ++ (bus.latest.map Event.selectionChanged).toList := by
  obtain ⟨-, rfl⟩ := conn_replay h
  rfl

lemma frames_event {c d : Conn Path Url} {e : Event Path Url} {next : ℕ}
    (h : c.step bus .receive = some d) (hrecv : bus.events.recv c.next = .event e next) :
    d.frames = c.frames ++ [e] := by
  obtain ⟨hle, he, -⟩ := Ring.recv_eq_event hrecv
  obtain ⟨-, ⟨e', he', -, rfl⟩ | ⟨hlt, -⟩⟩ := conn_receive h
  · rw [he] at he'
    cases he'
    rfl
  · exact absurd hlt (Nat.not_lt_of_le hle)

lemma frames_lagged {c d : Conn Path Url} {skipped next : ℕ} (h : c.step bus .receive = some d)
    (hrecv : bus.events.recv c.next = .lagged skipped next) : d.frames = c.frames := by
  obtain ⟨hlt, -, -⟩ := Ring.recv_eq_lagged hrecv
  obtain ⟨-, ⟨e, -, hle, -⟩ | ⟨-, rfl⟩⟩ := conn_receive h
  · exact absurd hlt (Nat.not_lt_of_le hle)
  · rfl

/-- The same events are pushed and forwarded. -/
lemma Pushes.more {c d : Client Path Url} (h : Pushes c) {es : List (Event Path Url)}
    (hpushed : d.pushed = c.pushed ++ es) (hframes : d.conn.frames = c.conn.frames ++ es)
    (hwritten : d.writeFailed = false → c.writeFailed = false) : Pushes d := by
  constructor
  · rw [hpushed, hframes]
    exact h.sublist.append (List.Sublist.refl es)
  · intro hd
    rw [hpushed, hframes, h.all (hwritten hd)]

/-- Nothing is, whatever else goes out. -/
lemma Pushes.same {c d : Client Path Url} (h : Pushes c) (hpushed : d.pushed = c.pushed)
    (hframes : d.conn.frames = c.conn.frames)
    (hwritten : d.writeFailed = false → c.writeFailed = false) : Pushes d :=
  h.more (hpushed.trans (List.append_nil _).symm) (hframes.trans (List.append_nil _).symm) hwritten

/-- The events forwarded could not be pushed. -/
lemma Pushes.lost {c d : Client Path Url} (h : Pushes c) {es : List (Event Path Url)}
    (hpushed : d.pushed = c.pushed) (hframes : d.conn.frames = c.conn.frames ++ es)
    (hwritten : d.writeFailed = true) : Pushes d := by
  constructor
  · rw [hpushed, hframes]
    exact h.sublist.trans (List.sublist_append_left _ _)
  · intro hd
    rw [hwritten] at hd
    cases hd

@[simp] lemma event?_library (replies : List LibraryFrame) :
    (replies.map Outgoing.library : List (Outgoing Path Url)).filterMap Outgoing.event? = [] := by
  induction replies with
  | nil => rfl
  | cons f replies ih => exact ih

/-- A close frame is no event. -/
lemma pushed_write_close (c : Client Path Url) (written : Bool) (code : ℕ) (reason : Text) :
    (c.write written [.close code reason]).pushed = c.pushed := by
  cases written with
  | true => simp [Client.pushed, Client.write, Outgoing.event?]
  | false => rfl

lemma pushed_append (c d : Client Path Url) (frames : List (Outgoing Path Url))
    (h : d.sent = c.sent ++ frames) :
    d.pushed = c.pushed ++ frames.filterMap Outgoing.event? := by
  rw [Client.pushed, h, List.filterMap_append]
  rfl

lemma Pushes.moved {c d : Client Path Url} {move : ClientMove}
    {ls : List (TrackerLabel Path Url)} (h : Pushes c)
    (hmoved : ClientMoved env c bus cancelled move d ls) : Pushes d := by
  have hwritten := hmoved.writeFailed
  cases hmoved with
  | letIn => exact h.same rfl rfl hwritten
  | reject =>
      refine h.same (pushed_write_close _ _ _ _) ?_ hwritten
      rw [Client.leave_frames, Client.write_conn]
  | subscribe _ hconn => exact h.same rfl (frames_subscribe hconn) hwritten
  | @replay conn written hconn =>
      have hframes := frames_replay hconn
      cases hlatest : bus.latest with
      | none =>
          rw [hlatest] at hframes hwritten
          exact h.same (by simp [Client.write_true, Client.pushed]) (by simp [hframes]) hwritten
      | some x =>
          rw [hlatest] at hframes hwritten
          cases written with
          | true =>
              exact h.more (pushed_append _ _ [.push (.selectionChanged x)] rfl) hframes hwritten
          | false => exact h.lost rfl hframes (by simp)
  | @push conn e next hselecting hconn hrecv =>
      exact h.more (pushed_append _ _ [.push e] rfl) (frames_event hconn hrecv) hwritten
  | lag _ hconn hrecv => exact h.same rfl (frames_lagged hconn hrecv) hwritten
  | @hear text =>
      refine h.same ?_ rfl hwritten
      rw [pushed_append c _ _ rfl, pushed_responses, List.append_nil]
  | @request text =>
      refine h.same ?_ rfl hwritten
      rw [pushed_append c _ _ rfl, pushed_responses, List.append_nil]
  | unanswered => exact h.same rfl rfl hwritten
  | @ignore msg written =>
      refine h.same ?_ (congrArg Conn.frames (Client.write_conn _ _ _)) hwritten
      rw [pushed_append c _ _ rfl]
      split_ifs
      · rw [event?_library, List.append_nil]
      · exact List.append_nil _
  | publish => exact h.same rfl rfl hwritten
  | told =>
      refine h.same (pushed_write_close _ _ _ _) ?_ hwritten
      rw [Client.leave_frames, Client.write_conn]
  | unpushed => exact h.same rfl rfl hwritten
  | leave => exact h.same rfl rfl hwritten

end Push

/-! ## What is answered

The response to a message is written in the step that takes the message, so at most the last can be
missing. -/

/-- A step leaves a closed connection closed. -/
lemma ClientMoved.phase_ne_closed {env : Env Path Url} {c d : Client Path Url}
    {bus : EventBus Path Url} {cancelled : Bool} {move : ClientMove}
    {ls : List (TrackerLabel Path Url)} (h : ClientMoved env c bus cancelled move d ls)
    (hd : d.conn.phase ≠ .closed) : c.conn.phase ≠ .closed := by
  rcases h.conn with ⟨hconn, -⟩ | ⟨-, m, hm, -⟩
  · rw [← hconn]
    exact hd
  · rcases conn_step_cases hm with
      ⟨hphase, -⟩ | ⟨hphase, -⟩ | ⟨hphase, -⟩ | ⟨hphase, -⟩ | ⟨-, heq⟩
    · simp [hphase]
    · simp [hphase]
    · simp [hphase]
    · simp [hphase]
    · rw [heq] at hd
      exact absurd rfl hd

/-- The responses are those the messages draw, in order; that to the last message may be missing,
if a write failed and the connection is closed. -/
structure Answered (env : Env Path Url) (c : Client Path Url) : Prop where
  butLast : c.responses = c.heard.flatMap (answers env) ∨
    c.responses = c.heard.dropLast.flatMap (answers env)
  all : c.writeFailed = false ∨ c.conn.phase ≠ .closed → c.responses = c.heard.flatMap (answers env)

section Answer

variable {env : Env Path Url} {bus : EventBus Path Url} {cancelled : Bool}

lemma Answered.full {c : Client Path Url} (h : c.responses = c.heard.flatMap (answers env)) :
    Answered env c := ⟨Or.inl h, fun _ => h⟩

/-- A beginning of them, in any case. -/
lemma Answered.isPrefix {c : Client Path Url} (h : Answered env c) :
    c.responses <+: c.heard.flatMap (answers env) := by
  rcases h.butLast with hall | hlast
  · exact hall ▸ List.prefix_rfl
  · rw [hlast]
    rcases List.eq_nil_or_concat c.heard with hnil | ⟨heard, text, heq⟩
    · simp [hnil]
    · simp [heq]

lemma Answered.same {c d : Client Path Url} (h : Answered env c)
    (hresponses : d.responses = c.responses) (hheard : d.heard = c.heard)
    (hwritten : d.writeFailed = false → c.writeFailed = false)
    (hphase : d.conn.phase ≠ .closed → c.conn.phase ≠ .closed) : Answered env d := by
  refine ⟨?_, fun hopen => ?_⟩
  · rw [hresponses, hheard]
    exact h.butLast
  · rw [hresponses, hheard]
    exact h.all (hopen.imp hwritten hphase)

@[simp] lemma response?_library (replies : List LibraryFrame) :
    (replies.map Outgoing.library : List (Outgoing Path Url)).filterMap Outgoing.response?
      = [] := by
  induction replies with
  | nil => rfl
  | cons f replies ih => exact ih

lemma responses_append (c d : Client Path Url) (frames : List (Outgoing Path Url))
    (h : d.sent = c.sent ++ frames) :
    d.responses = c.responses ++ frames.filterMap Outgoing.response? := by
  rw [Client.responses, h, List.filterMap_append]
  rfl

lemma Answered.moved {c d : Client Path Url} {move : ClientMove}
    {ls : List (TrackerLabel Path Url)} (h : Answered env c)
    (hmoved : ClientMoved env c bus cancelled move d ls) : Answered env d := by
  have hphase := hmoved.phase_ne_closed
  have hwritten := hmoved.writeFailed
  -- while the loop runs, all of them were sent
  have hall : c.selecting = true → c.responses = c.heard.flatMap (answers env) := fun hselecting =>
    h.all (Or.inr (by simp [(Client.serving_of_selecting hselecting).1]))
  -- a text and what it draws
  have hhear : ∀ text e, c.selecting = true →
      e.responses = c.responses ++ answers env text → e.heard = c.heard ++ [text] →
      Answered env e := by
    intro text e hselecting hresponses hheard
    refine Answered.full ?_
    rw [hresponses, hheard, hall hselecting, List.flatMap_append, List.flatMap_singleton]
  cases hmoved with
  | letIn => exact h.same rfl rfl hwritten hphase
  | @reject headers written =>
      refine h.same ?_ (by simp) hwritten hphase
      cases written <;> simp [Client.responses, Client.write, Client.leave, Outgoing.response?]
  | subscribe => exact h.same rfl rfl hwritten hphase
  | replay =>
      refine h.same ?_ (by simp) hwritten hphase
      rw [Client.responses, Client.write_sent, List.filterMap_append]
      split_ifs <;> cases bus.latest <;> simp [Client.responses, Outgoing.response?]
  | push =>
      refine h.same ?_ rfl hwritten hphase
      rw [responses_append c _ _ rfl]
      exact List.append_nil _
  | lag => exact h.same rfl rfl hwritten hphase
  | hear hselecting =>
      refine hhear _ _ hselecting ?_ rfl
      rw [responses_append c _ _ rfl, responses_responses]
  | request hselecting =>
      refine hhear _ _ hselecting ?_ rfl
      rw [responses_append c _ _ rfl, responses_responses]
  | @unanswered text written hselecting =>
      refine ⟨Or.inr ?_, by simp [Client.leave]⟩
      show c.responses = (c.heard ++ [text]).dropLast.flatMap (answers env)
      rw [List.dropLast_concat, hall hselecting]
  | @ignore msg written =>
      refine h.same ?_ (Client.write_heard _ _ _) hwritten hphase
      rw [responses_append c _ _ rfl]
      split_ifs
      · rw [response?_library, List.append_nil]
      · exact List.append_nil _
  | publish => exact h.same rfl rfl hwritten hphase
  | @told written =>
      refine h.same ?_ (by simp) hwritten hphase
      cases written <;> simp [Client.responses, Client.write, Client.leave, Outgoing.response?]
  | unpushed => exact h.same rfl rfl hwritten hphase
  | leave => exact h.same rfl rfl hwritten hphase

end Answer

/-! ## On the wire

A response is known by its id; a notification has none. -/

section Wire

variable {env : Env Path Url}

/-- A value with an id draws one response. -/
lemma answers_of_id {text : Text} {v id : Json} (hv : env.parse text = some v)
    (hid : objectId v = some id) : ∃ r : MCPResponse, answers env text = [r] ∧ r.Answers id := by
  rw [answers, handleText, hv]
  rcases Option.eq_none_or_eq_some (MCPRequest.ofJson v) with hdecode | ⟨request, hdecode⟩
  · rw [objectId] at hid
    simp only [hdecode, hid, sendError, sendResponse_ok (fun _ => rfl)]
    exact ⟨_, rfl, rfl, rfl, Or.inr ⟨rfl, rfl⟩⟩
  · rcases ofJson_eq_some hdecode with ⟨members, rfl⟩ | ⟨items, rfl⟩
    · have hnull : id ≠ .null := by
        rw [objectId, Option.filter_eq_some_iff] at hid
        simpa using hid.2
      have hsend : ∀ r : MCPResponse, (fun _ => Except.ok () : MCPResponse → Except Text Unit) r
          = .ok () := fun _ => rfl
      obtain ⟨r, hanswers, heq⟩ := handleMcpRequest_answers env.version
        (EventBus.new 1 : EventBus Path Url) hsend ((ofJson_object hdecode).trans hid) hnull
      simp only [hdecode, heq]
      exact ⟨r, rfl, hanswers⟩
    · cases hid

/-- One without draws none, unless it is an array that decodes as a request. -/
lemma answers_of_no_id {text : Text} {v : Json} (hv : env.parse text = some v)
    (hid : objectId v = none) (hnot : ¬PositionalRequest v) : answers env text = [] := by
  rw [answers, handleText, hv]
  rcases Option.eq_none_or_eq_some (MCPRequest.ofJson v) with hdecode | ⟨request, hdecode⟩
  · rw [objectId] at hid
    simp only [hdecode, hid]
  · have hnotification : request.isNotification = true := by
      rcases ofJson_eq_some hdecode with ⟨members, rfl⟩ | ⟨items, rfl⟩
      · rw [MCPRequest.isNotification, ofJson_object hdecode, hid]
        rfl
      · obtain ⟨jsonrpc, id, method, params, rfl, hrequest⟩ := ofJson_array hdecode
        have hnull : id = .null := by
          by_contra hne
          exact hnot ⟨jsonrpc, id, method, params, rfl, hne⟩
        rw [MCPRequest.isNotification, hrequest, hnull]
        rfl
    simp only [hdecode]
    exact (handleMcpRequest_notification env.version _ _ hnotification).1

end Wire

/-! ## How a session goes

Nothing before the gate, one close frame at most, and nothing after it. -/

/-- A close frame that the source sends; the library's answer to a client's is none. -/
def Outgoing.isClose : Outgoing Path Url → Bool
  | .close _ _ => true
  | _ => false

/-- The frame that tells a client that it is not let in. -/
def refusal : Outgoing Path Url := .close 1008 "invalid auth token".toList

/-- The frame that tells a client that the companion stops. -/
def farewell : Outgoing Path Url := .close 1001 "shutting down".toList

/-- What was sent: a close frame is the last there is, and there is a reason for it. -/
def Closing (cancelled : Bool) (c : Client Path Url) : Prop :=
  ∃ opened closing, c.sent = opened ++ closing ∧ (∀ f ∈ opened, f.isClose = false) ∧
    (c.access ≠ .authorized → opened = []) ∧
    (closing = [] ∨ (c.conn.phase = .closed ∧
      ((c.access = .rejected ∧ closing = [refusal]) ∨
        (c.access = .authorized ∧ cancelled = true ∧ closing = [farewell]))))

/-- Only a client that was let in is served, and nothing follows a close frame. -/
structure Orderly (cancelled : Bool) (c : Client Path Url) : Prop where
  served : c.access ≠ .authorized →
    (c.conn.phase = .unconnected ∨ c.conn.phase = .closed) ∧ c.heard = [] ∧ c.mentioning = none
  rejected : c.access = .rejected → c.conn.phase = .closed
  mentioning : c.mentioning ≠ none → c.conn.phase = .serving
  closing : Closing cancelled c

section Order

variable {env : Env Path Url} {bus : EventBus Path Url} {cancelled : Bool}

lemma Closing.mono {c : Client Path Url} {cancelled' : Bool} (h : Closing cancelled c)
    (hmono : cancelled = true → cancelled' = true) : Closing cancelled' c := by
  obtain ⟨opened, closing, hsent, hopened, hnone, hclosing⟩ := h
  refine ⟨opened, closing, hsent, hopened, hnone, hclosing.imp_right fun ⟨hphase, hreason⟩ => ?_⟩
  exact ⟨hphase, hreason.imp_right fun ⟨haccess, hcancelled, heq⟩ =>
    ⟨haccess, hmono hcancelled, heq⟩⟩

lemma Closing.nil {c : Client Path Url} (h : c.sent = []) : Closing cancelled c :=
  ⟨[], [], h, by simp, fun _ => rfl, Or.inl rfl⟩

/-- While the connection is open, no close frame was sent. -/
lemma Closing.opened {c : Client Path Url} (h : Closing cancelled c)
    (hphase : c.conn.phase ≠ .closed) :
    (∀ f ∈ c.sent, f.isClose = false) ∧ (c.access ≠ .authorized → c.sent = []) := by
  obtain ⟨opened, closing, hsent, hopened, hnone, rfl | ⟨hclosed, -⟩⟩ := h
  · rw [hsent, List.append_nil]
    exact ⟨hopened, hnone⟩
  · exact absurd hclosed hphase

/-- Nothing is sent, and the connection is as it was or closes. -/
lemma Closing.same {c d : Client Path Url} (h : Closing cancelled c) (hsent : d.sent = c.sent)
    (haccess : d.access = c.access) (hclosed : d.conn.phase ≠ .closed → c.conn.phase ≠ .closed) :
    Closing cancelled d := by
  obtain ⟨opened, closing, hs, hopened, hnone, hclosing⟩ := h
  refine ⟨opened, closing, hsent.trans hs, hopened, haccess ▸ hnone, hclosing.imp_right ?_⟩
  rintro ⟨hphase, hreason⟩
  refine ⟨?_, haccess ▸ hreason⟩
  by_contra hd
  exact hclosed hd hphase

/-- An open connection sends frames that are no close frames. -/
lemma Closing.more {c d : Client Path Url} (h : Closing cancelled c)
    (hphase : c.conn.phase ≠ .closed) {frames : List (Outgoing Path Url)}
    (hsent : d.sent = c.sent ++ frames) (hframes : ∀ f ∈ frames, f.isClose = false)
    (hauthorized : d.access = .authorized) : Closing cancelled d := by
  refine ⟨c.sent ++ frames, [], hsent.trans (List.append_nil _).symm, ?_, ?_, Or.inl rfl⟩
  · intro f hf
    exact (List.mem_append.mp hf).elim ((h.opened hphase).1 f) (hframes f)
  · exact fun hnot => absurd hauthorized hnot

lemma isClose_response (rs : List MCPResponse) :
    ∀ f ∈ (rs.map Outgoing.response : List (Outgoing Path Url)), f.isClose = false := by
  intro f hf
  obtain ⟨r, -, rfl⟩ := List.mem_map.mp hf
  rfl

lemma isClose_library (replies : List LibraryFrame) :
    ∀ f ∈ (replies.map Outgoing.library : List (Outgoing Path Url)), f.isClose = false := by
  intro f hf
  obtain ⟨reply, -, rfl⟩ := List.mem_map.mp hf
  rfl

lemma Orderly.new : Orderly cancelled (Client.new : Client Path Url) :=
  ⟨fun _ => ⟨Or.inl rfl, rfl, rfl⟩, nofun, fun h => absurd rfl h, Closing.nil rfl⟩

lemma Orderly.mono {c : Client Path Url} {cancelled' : Bool} (h : Orderly cancelled c)
    (hmono : cancelled = true → cancelled' = true) : Orderly cancelled' c :=
  ⟨h.served, h.rejected, h.mentioning, h.closing.mono hmono⟩

/-- Whoever is past the upgrade was let in. -/
lemma Orderly.authorized {c : Client Path Url} (h : Orderly cancelled c)
    (hphase : c.conn.phase = .subscribed ∨ c.conn.phase = .serving) : c.access = .authorized := by
  by_contra hnot
  obtain ⟨hout | hout, -⟩ := h.served hnot <;> rw [hout] at hphase <;> simp at hphase

/-- A client that was not let in is refused, at most. -/
lemma Orderly.refused {c : Client Path Url} (h : Orderly cancelled c)
    (hnot : c.access ≠ .authorized) : c.heard = [] ∧ (c.sent = [] ∨ c.sent = [refusal]) := by
  obtain ⟨opened, closing, hsent, -, hnone, hclosing⟩ := h.closing
  refine ⟨(h.served hnot).2.1, ?_⟩
  rw [hsent, hnone hnot]
  rcases hclosing with rfl | ⟨-, ⟨-, rfl⟩ | ⟨hauthorized, -⟩⟩
  · exact Or.inl rfl
  · exact Or.inr rfl
  · exact absurd hauthorized hnot

/-- A client that was let in goes on, or closes. -/
lemma Orderly.goes_on {c d : Client Path Url}
    (hauthorized : c.access = .authorized) (haccess : d.access = c.access)
    (hmentioning : d.mentioning ≠ none → d.conn.phase = .serving) (hclosing : Closing cancelled d) :
    Orderly cancelled d := by
  refine ⟨fun hnot => ?_, fun hrejected => ?_, hmentioning, hclosing⟩
  · exact absurd (haccess.trans hauthorized) hnot
  · rw [haccess, hauthorized] at hrejected
    cases hrejected

lemma Orderly.moved {c d : Client Path Url} {move : ClientMove}
    {ls : List (TrackerLabel Path Url)} (h : Orderly cancelled c)
    (hmoved : ClientMoved env c bus cancelled move d ls) : Orderly cancelled d := by
  have hphase := hmoved.phase_ne_closed
  -- a connection that is at its `select!`
  have hopen : c.selecting = true →
      c.conn.phase ≠ .closed ∧ c.access = .authorized ∧ c.mentioning = none := by
    intro hselecting
    obtain ⟨hserving, hnone⟩ := Client.serving_of_selecting hselecting
    exact ⟨by simp [hserving], h.authorized (Or.inr hserving), hnone⟩
  cases hmoved with
  | letIn hunknown hconn _ =>
      have hnone : c.mentioning = none := (h.served (by simp [hunknown])).2.2
      have hsent := (h.closing.opened (by simp [hconn])).2 (by simp [hunknown])
      exact ⟨fun hnot => absurd rfl hnot, nofun, fun hm => absurd hnone hm, Closing.nil hsent⟩
  | @reject headers written hunknown hconn _ =>
      obtain ⟨-, hheard, hnone⟩ := h.served (by simp [hunknown])
      have hsent := (h.closing.opened (by simp [hconn])).2 (by simp [hunknown])
      refine ⟨fun _ => ⟨Or.inr rfl, by simpa using hheard, ?_⟩, fun _ => rfl, ?_, ?_⟩
      · cases written <;> exact hnone
      · intro hm
        refine absurd ?_ hm
        cases written <;> exact hnone
      · cases written with
        | false => exact Closing.nil hsent
        | true =>
            refine ⟨[], [refusal], ?_, by simp, fun _ => rfl, Or.inr ⟨rfl, Or.inl ⟨rfl, rfl⟩⟩⟩
            show c.sent ++ _ = _
            rw [hsent]
            rfl
  | subscribe hauthorized hconn =>
      refine Orderly.goes_on hauthorized rfl (fun hm => ?_) (h.closing.same rfl rfl hphase)
      cases (h.mentioning hm).symm.trans (conn_subscribe hconn).1
  | @replay conn written hconn =>
      obtain ⟨hnew, hserving⟩ := conn_replay hconn
      have hauthorized := h.authorized (Or.inl hnew)
      refine Orderly.goes_on hauthorized (by simp) (fun _ => by simp [hserving]) ?_
      refine h.closing.more (by simp [hnew]) (Client.write_sent _ _ _) ?_ (by simpa)
      intro f hf
      split_ifs at hf
      · obtain ⟨x, -, rfl⟩ := Option.map_eq_some_iff.mp (Option.mem_toList.mp hf)
        rfl
      · exact absurd hf List.not_mem_nil
  | push hselecting hconn =>
      obtain ⟨hne, hauthorized, hnone⟩ := hopen hselecting
      exact Orderly.goes_on hauthorized rfl (fun hm => absurd hnone hm)
        (h.closing.more hne rfl (by simp [Outgoing.isClose]) hauthorized)
  | lag hselecting =>
      obtain ⟨hne, hauthorized, hnone⟩ := hopen hselecting
      exact Orderly.goes_on hauthorized rfl (fun hm => absurd hnone hm)
        (h.closing.same rfl rfl hphase)
  | hear hselecting =>
      obtain ⟨hne, hauthorized, hnone⟩ := hopen hselecting
      exact Orderly.goes_on hauthorized rfl (fun hm => absurd hnone hm)
        (h.closing.more hne rfl (isClose_response _) hauthorized)
  | request hselecting =>
      obtain ⟨hne, hauthorized, -⟩ := hopen hselecting
      exact Orderly.goes_on hauthorized rfl (fun _ => (Client.serving_of_selecting hselecting).1)
        (h.closing.more hne rfl (isClose_response _) hauthorized)
  | unanswered hselecting =>
      obtain ⟨-, hauthorized, hnone⟩ := hopen hselecting
      exact Orderly.goes_on hauthorized rfl (fun hm => absurd hnone hm)
        (h.closing.same rfl rfl hphase)
  | @ignore msg written hselecting =>
      obtain ⟨hne, hauthorized, hnone⟩ := hopen hselecting
      refine Orderly.goes_on hauthorized rfl (fun hm => absurd hnone hm)
        (h.closing.more hne rfl ?_ hauthorized)
      split_ifs
      · exact isClose_library _
      · simp
  | publish hm =>
      have hserving := h.mentioning (by simp [hm])
      exact Orderly.goes_on (h.authorized (Or.inr hserving)) rfl (fun hm => absurd rfl hm)
        (h.closing.same rfl rfl hphase)
  | @told written hselecting hcancelled =>
      obtain ⟨hne, hauthorized, hnone⟩ := hopen hselecting
      refine Orderly.goes_on hauthorized (by simp) (fun hm => ?_) ?_
      · refine absurd ?_ hm
        cases written <;> exact hnone
      · cases written with
        | false => exact h.closing.same rfl rfl fun _ => hne
        | true =>
            refine ⟨c.sent, [farewell], rfl, (h.closing.opened hne).1, ?_, Or.inr ⟨rfl, Or.inr ?_⟩⟩
            · exact fun hnot => absurd hauthorized hnot
            · exact ⟨hauthorized, hcancelled, rfl⟩
  | unpushed hselecting =>
      obtain ⟨-, hauthorized, hnone⟩ := hopen hselecting
      exact Orderly.goes_on hauthorized rfl (fun hm => absurd hnone hm)
        (h.closing.same rfl rfl hphase)
  | leave hnone =>
      refine ⟨fun hnot => ⟨Or.inr rfl, (h.served hnot).2⟩, fun _ => rfl, fun hm => ?_,
        h.closing.same rfl rfl hphase⟩
      exact absurd hnone hm

/-- Only the upgrade lets a client in. -/
lemma ClientMoved.access {c d : Client Path Url} {move : ClientMove}
    {ls : List (TrackerLabel Path Url)} (h : ClientMoved env c bus cancelled move d ls)
    (hd : d.access = .authorized) : c.access = .authorized ∨
      ∃ headers written, move = .connect headers written ∧
        presented headers = some env.authToken := by
  cases h with
  | letIn _ _ hauthorized => exact Or.inr ⟨_, _, rfl, authorized_iff.mp hauthorized⟩
  | reject => simp at hd
  | told => exact Or.inl (by simpa using hd)
  | replay => exact Or.inl (by simpa using hd)
  | _ => exact Or.inl hd

end Order

/-! ## Every session

The invariant of all of it, and what it says of a session. -/

section Runs

variable [DecidableEq ι] [DecidableEq Path] [DecidableEq Url] [DecidableEq Time]
  {env : Env Path Url} {s t : SystemState ι Path Url Time} {l : SystemLabel ι Path Time}
  {tr : List (SystemState ι Path Url Time × SystemLabel ι Path Time)}

/-- The token stays cancelled. -/
lemma cancelled_step (hl : (systemMachine ι Time env).step s l = some t)
    (h : s.cancelled = true) : t.cancelled = true := by
  cases systemMoved_of_step hl with
  | stop _ _ _ _ hcancelled => exact hcancelled h
  | frame _ _ _ _ hcancelled => exact hcancelled.trans h
  | task => exact h
  | client => exact h

/-- What a run keeps of each client. -/
lemma session_of_run (hs : (systemMachine ι Time env).init s)
    (h : (systemMachine ι Time env).Run s tr t) (i : ι) :
    Pushes (t.clients i) ∧ Answered env (t.clients i) ∧ Orderly t.cancelled (t.clients i) := by
  refine h.preserves (fun s => ∀ i,
    Pushes (s.clients i) ∧ Answered env (s.clients i) ∧ Orderly s.cancelled (s.clients i))
    (fun _ _ => True) ?_ ?_ (fun _ _ => trivial) i
  · intro s l t hclients _ hl i
    obtain ⟨hpushes, hanswered, horderly⟩ := (systemMoved_of_step hl).forall_clients
      (fun c => Pushes c ∧ Answered env c ∧ Orderly s.cancelled c)
      (fun _ _ _ _ hc hmoved =>
        ⟨hc.1.moved hmoved, hc.2.1.moved hmoved, hc.2.2.moved hmoved⟩) hclients i
    exact ⟨hpushes, hanswered, horderly.mono (cancelled_step hl)⟩
  · obtain ⟨capacity, rfl⟩ := hs
    exact fun i => ⟨⟨List.Sublist.refl _, fun _ => rfl⟩, Answered.full rfl, Orderly.new⟩

/-- Whoever was let in presented the token. -/
lemma presented_of_run (hs : (systemMachine ι Time env).init s)
    (h : (systemMachine ι Time env).Run s tr t) {i : ι}
    (hi : (t.clients i).access = .authorized) :
    ∃ headers written, .client i (.connect headers written) ∈ tr.map Prod.snd ∧
      presented headers = some env.authToken := by
  induction h with
  | nil =>
      obtain ⟨capacity, rfl⟩ := hs
      cases hi
  | @snoc u t tr l hrun hl ih =>
      have hearlier : (u.clients i).access = .authorized →
          ∃ headers written, .client i (.connect headers written) ∈ (tr ++ [(u, l)]).map Prod.snd ∧
            presented headers = some env.authToken := by
        intro hu
        obtain ⟨headers, written, hmem, hpresented⟩ := ih hu
        exact ⟨headers, written, by simp [hmem], hpresented⟩
      rcases (systemMoved_of_step hl).client_cases i with ⟨heq, -⟩ | ⟨move, ls, rfl, hmoved, -⟩
      · exact hearlier (heq ▸ hi)
      · rcases hmoved.access hi with hu | ⟨headers, written, rfl, hpresented⟩
        · exact hearlier hu
        · exact ⟨headers, written, by simp, hpresented⟩

/-- **Every session is orderly.**  In every run of the companion, for every client:

1. if it was let in, one of its upgrade requests presented the token, byte for byte;
2. if it was not, nothing it sent was read, and it was sent nothing but, at most, that it is
   refused;
3. nothing follows a close frame that the companion sends of itself, after which the connection is
   closed; a client that was let in is sent one only once the companion is stopping, and then this
   one.  What the library answers to a client's own close frame is not among these. -/
theorem sessions_are_orderly (hs : (systemMachine ι Time env).init s)
    (h : (systemMachine ι Time env).Run s tr t) (i : ι) :
    ((t.clients i).access = .authorized →
      ∃ headers written, .client i (.connect headers written) ∈ tr.map Prod.snd ∧
        presented headers = some env.authToken) ∧
    ((t.clients i).access ≠ .authorized → (t.clients i).heard = [] ∧
      ((t.clients i).sent = [] ∨ (t.clients i).sent = [refusal])) ∧
    ∀ before frame after, (t.clients i).sent = before ++ frame :: after → frame.isClose = true →
      after = [] ∧ (t.clients i).conn.phase = .closed ∧
        ((t.clients i).access = .authorized → t.cancelled = true ∧ frame = farewell) := by
  obtain ⟨-, -, horderly⟩ := session_of_run hs h i
  obtain ⟨opened, closing, hsent, hopened, -, hclosing⟩ := horderly.closing
  refine ⟨presented_of_run hs h, horderly.refused, ?_⟩
  intro before frame after heq hclose
  have hopen : frame ∉ opened := by
    intro hmem
    rw [hopened frame hmem] at hclose
    cases hclose
  rw [hsent] at heq
  rcases hclosing with rfl | ⟨hphase, hreason⟩
  · refine absurd ?_ hopen
    rw [← List.append_nil opened, heq]
    simp
  · obtain ⟨x, rfl, hx⟩ : ∃ x, closing = [x] ∧
        ((t.clients i).access = .authorized → t.cancelled = true ∧ x = farewell) := by
      rcases hreason with ⟨hrejected, rfl⟩ | ⟨-, hcancelled, rfl⟩
      · exact ⟨_, rfl, fun hauthorized => by simp [hrejected] at hauthorized⟩
      · exact ⟨_, rfl, fun _ => ⟨hcancelled, rfl⟩⟩
    obtain ⟨-, rfl, rfl⟩ := (List.append_cons_inj_of_notMem hopen List.not_mem_nil).mp heq
    exact ⟨rfl, hphase, hx⟩

theorem sessions_are_orderly_selectAndMention :
    ∃ (s t : SystemState Unit Text Text ℕ)
        (tr : List (SystemState Unit Text Text ℕ × SystemLabel Unit Text ℕ)),
      (systemMachine Unit ℕ textEnv).Run s tr t ∧ (t.clients ()).access = .authorized ∧
        ∃ headers written, .client () (.connect headers written) ∈ tr.map Prod.snd ∧
          presented headers = some textEnv.authToken := by
  obtain ⟨t, ht, -, -, ⟨haccess, -⟩, -⟩ := selectAndMention_taken
  have h := Machine.run_of_exec _ ht
  exact ⟨_, t, _, h, haccess, (sessions_are_orderly ⟨8, rfl⟩ h ()).1 haccess⟩

/-- **The responses answer the messages.**  In every run, the responses sent to a client are those
its text messages draw, in the order of the messages.  That to the last message may be missing, and
is not while no write has failed or the connection is open.  And of a message that parses,

1. if it is an object with an id other than null, one response is drawn, whose text parses to an
   object that carries this id and one of result and error;
2. if it has no such id, and is not an array that decodes as a request, none is. -/
theorem responses_answer_messages (hs : (systemMachine ι Time env).init s)
    (h : (systemMachine ι Time env).Run s tr t)
    (hparse : ∀ text v, env.parse text = some v → v.writable = true) (i : ι) :
    ((t.clients i).responses = (t.clients i).heard.flatMap (answers env) ∨
      (t.clients i).responses = (t.clients i).heard.dropLast.flatMap (answers env)) ∧
    ((t.clients i).writeFailed = false ∨ (t.clients i).conn.phase ≠ .closed →
      (t.clients i).responses = (t.clients i).heard.flatMap (answers env)) ∧
    ∀ text ∈ (t.clients i).heard, ∀ v, env.parse text = some v →
      (∀ id, objectId v = some id → ∃ r w, answers env text = [r] ∧
        parseJson? r.print = some w ∧ WireAnswers w id.ordered) ∧
      (objectId v = none → ¬PositionalRequest v → answers env text = []) := by
  obtain ⟨-, hanswered, -⟩ := session_of_run hs h i
  refine ⟨hanswered.butLast, hanswered.all, ?_⟩
  intro text _ v hv
  refine ⟨fun id hid => ?_, answers_of_no_id hv⟩
  obtain ⟨r, hr, hanswers⟩ := answers_of_id hv hid
  have hwritable : r.Writable := handleText_writable hparse (hr ▸ List.mem_singleton_self r :
    r ∈ answers env text)
  obtain ⟨w, hw, hwire⟩ := hanswers.print hwritable
  exact ⟨r, w, hr, hw, hwire⟩

theorem responses_answer_messages_selectAndMention :
    ∃ (s t : SystemState Unit Text Text ℕ)
        (tr : List (SystemState Unit Text Text ℕ × SystemLabel Unit Text ℕ)),
      (systemMachine Unit ℕ textEnv).Run s tr t ∧ (t.clients ()).heard.length = 2 ∧
        ∃ r w, (t.clients ()).responses = [r] ∧ parseJson? r.print = some w ∧
          WireAnswers w (.number ['1']) := by
  obtain ⟨t, ht, -, -, ⟨-, hwritten, -⟩, hheard⟩ := selectAndMention_taken
  have h := Machine.run_of_exec _ ht
  obtain ⟨-, hall, hanswers⟩ :=
    responses_answer_messages ⟨8, rfl⟩ h (fun _ _ => writable_of_parseJson?) ()
  -- the request draws a response, the notification none
  obtain ⟨r, w, hr, hw, hwire⟩ := (hanswers toolsListRequest.text (by simp [hheard]) _
    ((textEnv_parse _).trans parseJson?_toolsListRequest)).1 _ rfl
  have hsilent : answers textEnv mentionRequestDoc.text = [] := by decide +kernel
  refine ⟨_, t, _, h, by simp [hheard], r, w, ?_, hw, hwire⟩
  rw [hall (Or.inl hwritten), hheard]
  simp [hr, hsilent]

/-- What a client has seen is what was pushed to it. -/
lemma seen_of_run (hs : (systemMachine ι Time env).init s)
    (h : (systemMachine ι Time env).Run s tr t)
    (hparse : ∀ text v, env.parse text = some v → v.writable = true) (i : ι) :
    (t.clients i).seen env.wire = (t.clients i).pushed.map (Seen.ofEvent env.wire) := by
  obtain ⟨-, hanswered, -⟩ := session_of_run hs h i
  refine seen_frames _ env.wire fun r hr => ?_
  obtain ⟨text, -, hdrawn⟩ := List.mem_flatMap.mp (hanswered.isPrefix.subset hr)
  exact handleText_writable hparse hdrawn

end Runs

end Connect
